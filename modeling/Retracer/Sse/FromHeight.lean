import Retracer.Sse.Stream

/-! # The bounds of a block stream

The height asked for is a `u64`; the replay counts in `i64`s, and the live rows are held
against the tip. Here a stream is polled over whatever stores and broadcasts there are, with
the sums as a release build has them.
-/

namespace Retracer

open KeyedTable Execution Broadcast

/-- A sum of `i64`s, which wraps around in a release build. -/
def wrapI64 (n : Int) : Int := n.bmod (2 ^ 64)

theorem wrapI64_of_fits {n : Int} (hlow : -2 ^ 63 ≤ n) (hhigh : n < 2 ^ 63) :
    wrapI64 n = n := by
  unfold wrapI64
  rw [Int.bmod_eq_of_le] <;> omega

theorem asI64_bounds (n : Nat) : -2 ^ 63 ≤ asI64 n ∧ asI64 n < 2 ^ 63 := by
  have hpos : 0 < 2 ^ 64 := by decide
  have hlow := Int.le_bmod (x := n) hpos
  have hhigh := Int.bmod_lt (x := n) hpos
  unfold asI64
  omega

/-- One height turns into the smallest `i64`. -/
theorem asI64_eq_min {n : Nat} (hu64 : n < 2 ^ 64) (h : asI64 n = -2 ^ 63) : n = 2 ^ 63 := by
  unfold asI64 at h
  have hmod : (n : Int) % (2 ^ 64 : Nat) = n := Int.emod_eq_of_lt (by omega) (by omega)
  rw [Int.bmod_def, hmod] at h
  split at h <;> omega

/-! ## The stream over `i64`s -/

/-- A stream opened with a height. The sum of `unwrap_or` is made with a cursor too. -/
def BlockStream.openI64 (fromHeight position : Nat) (cursor : Option Int)
    (opened : List IndexableBlock) : BlockStream where
  fromHeight := some fromHeight
  ceiling := cursor.getD (wrapI64 (asI64 fromHeight - 1))
  position
  phase := .replay (asI64 fromHeight) []
  since := position
  opened

/-- Only the `last + 1` of a page just read can be out of bounds. -/
def BlockStream.wrapNext (s : BlockStream) : BlockStream :=
  match s.phase with
  | .replay next page => { s with phase := .replay (wrapI64 next) page }
  | _ => s

/-- What a poll finds: a store and all that was broadcast, or a statement that fails. -/
inductive StreamPoll where
  | poll (db : Database) (sent : List BlockRow)
  | fail

def pollI64 [Collation] (c : StreamConfig) (s : BlockStream) : StreamPoll → Option BlockStream
  | .poll db sent => (s.advance c db sent).map BlockStream.wrapNext
  | .fail => s.fail

/-- The poll computes what it would over unbounded integers, and what was emitted is at or
above the height asked for. -/
structure StaysAbove [Collation] (c : StreamConfig) (fromHeight : Nat) (s : BlockStream)
    (poll : StreamPoll) (s' : BlockStream) : Prop where
  exact : ∀ db sent, poll = .poll db sent → s.advance c db sent = some s'
  emitted : ∀ row ∈ s'.emitted, (fromHeight : Int) ≤ row.height

/-- A page that was read is empty, or the height asked for is an `i64` and so is the one after
the page; a row received live is not between the tip and the height asked for. -/
def BlockStream.inBounds (c : StreamConfig) (fromHeight : Nat) (s : BlockStream) :
    StreamPoll → Bool
  | .fail => true
  | .poll _ sent =>
      match s.phase with
      | .reading r =>
          r.actions.isNone || r.rows.all fun b => fromHeight < 2 ^ 63 && b.height + 1 < 2 ^ 63
      | .live =>
          match recv c.capacity sent s.position with
          | .got row => !(s.ceiling < row.height && row.height < fromHeight)
          | _ => true
      | _ => true

/-! ## The invariant -/

/-- What the replay still has in hand. -/
def StreamPhase.From (fromHeight : Nat) : StreamPhase → Prop
  | .replay next page =>
      (fromHeight < 2 ^ 63 → (fromHeight : Int) ≤ next) ∧ wrapI64 next = next ∧
        ∀ row ∈ page, (fromHeight : Int) ≤ row.height
  | .reading r => fromHeight < 2 ^ 63 → ∀ b ∈ r.rows, (fromHeight : Int) ≤ b.height
  | .live => True
  | .lagged => True

structure BlockStream.From (fromHeight : Nat) (s : BlockStream) : Prop where
  emitted : ∀ row ∈ s.emitted, (fromHeight : Int) ≤ row.height
  phase : s.phase.From fromHeight

section

variable {c : StreamConfig} {fromHeight : Nat} {s s' : BlockStream}

theorem BlockStream.From.stop (h : s.From fromHeight) : s.stop.From fromHeight :=
  ⟨h.emitted, trivial⟩

theorem BlockStream.From.wrapNext (h : s.From fromHeight) : s.wrapNext = s := by
  have hphase := h.phase
  unfold BlockStream.wrapNext
  split
  · next hreplay =>
      rw [hreplay] at hphase
      rw [hphase.2.1, ← hreplay]
  · rfl

variable [Collation] {db : Database} {sent : List BlockRow}

/-- A page that starts at or above the height asked for has nothing below it. -/
theorem BlockStream.From.page {r : OpenRead} {found : List ActionRow} {blocks : List BlockRow}
    {last : BlockRow} (h : s.From fromHeight) (hphase : s.phase = .reading r)
    (hfits : ∀ b ∈ r.rows, fromHeight < 2 ^ 63 ∧ b.height + 1 < 2 ^ 63)
    (hblocks : r.read.assemble r.rows found (droppedInRange db c.chainId r.lo r.hi) = blocks)
    (hlast : blocks.getLast? = some last) :
    ({ s with phase := .replay (last.height + 1) blocks } : BlockStream).From fromHeight := by
  have hrows := h.phase
  rw [hphase] at hrows
  have hblock : ∀ row ∈ blocks, ∃ b ∈ r.rows, b.height = row.height := by
    intro row hrow
    have hheight := List.mem_map_of_mem (f := (·.height)) hrow
    rw [← hblocks, BlocksRead.heights_assemble] at hheight
    exact List.mem_map.mp hheight
  obtain ⟨b, hb, hheight⟩ := hblock last (List.mem_of_getLast? hlast)
  obtain ⟨hi64, hnext⟩ := hfits b hb
  have habove := hrows hi64 b hb
  refine ⟨h.emitted, fun _ => ?_, wrapI64_of_fits ?_ ?_, ?_⟩
  · omega
  · omega
  · omega
  · intro row hrow
    obtain ⟨b', hb', hheight'⟩ := hblock row hrow
    rw [← hheight']
    exact hrows hi64 b' hb'

/-- Only a receiver that has not lagged gets the row. -/
theorem BlockStream.recv_of_receive {row : BlockRow} (hlive : s.phase = .live)
    (hrow : sent[s.position]? = some row) (hs : s.advance c db sent = some (s.receive row)) :
    recv c.capacity sent s.position = .got row := by
  rw [BlockStream.advance, hlive] at hs
  dsimp only at hs
  cases hrecv : recv c.capacity sent s.position with
  | empty =>
      rw [hrecv] at hs
      cases hs
  | lagged =>
      rw [hrecv] at hs
      have hposition := congrArg BlockStream.position (Option.some.inj hs)
      exact absurd hposition (Nat.ne_of_lt (Nat.lt_succ_self s.position))
  | got row' =>
      rw [getElem?_of_recv hrecv] at hrow
      rw [Option.some.inj hrow]

theorem BlockStream.From.advanced (h : s.From fromHeight)
    (hbounds : s.inBounds c fromHeight (.poll db sent) = true)
    (hs : s.advance c db sent = some s') : s'.From fromHeight := by
  have hphase := h.phase
  cases BlockStream.advanced hs with
  | emit hreplay =>
      rw [hreplay] at hphase
      obtain ⟨hnext, hwrap, hpage⟩ := hphase
      refine ⟨?_, hnext, hwrap, fun row hrow => hpage row (List.mem_cons_of_mem _ hrow)⟩
      intro row hrow
      rcases List.mem_append.mp hrow with hold | hnew
      · exact h.emitted row hold
      · obtain rfl := List.mem_singleton.mp hnew
        exact hpage row List.mem_cons_self
  | finish _ _ => exact ⟨h.emitted, trivial⟩
  | start hreplay _ hrows _ =>
      rw [hreplay] at hphase
      refine ⟨h.emitted, fun hi64 b hb => ?_⟩
      rw [← hrows] at hb
      exact (hphase.1 hi64).trans (mem_selectBlocks hb).2.1
  | empty _ _ _ => exact h.stop
  | actions hreading _ _ =>
      rw [hreading] at hphase
      exact ⟨h.emitted, hphase⟩
  | undecoded _ _ _ => exact h.stop
  | page hreading hsome hblocks hlast =>
      simp only [BlockStream.inBounds, hreading, hsome, Option.isNone_some, Bool.false_or,
        List.all_eq_true, Bool.and_eq_true, decide_eq_true_eq] at hbounds
      exact h.page hreading hbounds hblocks hlast
  | noBlocks _ _ _ => exact h.stop
  | lag _ => exact ⟨h.emitted, trivial⟩
  | @receive row hlive hrow =>
      have hgot := BlockStream.recv_of_receive hlive hrow hs
      simp only [BlockStream.inBounds, hlive, hgot, Bool.not_eq_true', Bool.and_eq_false_iff,
        decide_eq_false_iff_not] at hbounds
      refine ⟨?_, ?_⟩
      · intro row hmem
        rcases List.mem_append.mp hmem with hold | hnew
        · exact h.emitted row hold
        · split at hnew
          · obtain rfl := List.mem_singleton.mp hnew
            omega
          · cases hnew
      · exact hphase

theorem BlockStream.From.exact (h : s.From fromHeight)
    (hbounds : s.inBounds c fromHeight (.poll db sent) = true)
    (hs : pollI64 c s (.poll db sent) = some s') : s.advance c db sent = some s' := by
  obtain ⟨unbounded, hadvance, rfl⟩ := Option.map_eq_some_iff.mp hs
  rw [(h.advanced hbounds hadvance).wrapNext]
  exact hadvance

/-- No poll leads below the height asked for. -/
theorem BlockStream.From.step {poll : StreamPoll} (h : s.From fromHeight)
    (hs : pollI64 c s poll = some s') (hbounds : s.inBounds c fromHeight poll = true) :
    s'.From fromHeight := by
  cases poll with
  | poll db sent => exact h.advanced hbounds (h.exact hbounds hs)
  | fail =>
      obtain ⟨_, rfl⟩ := BlockStream.stop_of_fail hs
      exact h.stop

end

/-- The replay starts at the height asked for, if that is an `i64`. -/
theorem BlockStream.from_openI64 (fromHeight position : Nat) (cursor : Option Int)
    (opened : List IndexableBlock) :
    (BlockStream.openI64 fromHeight position cursor opened).From fromHeight := by
  refine ⟨fun row hrow => (nomatch hrow), fun hi64 => ?_, ?_, fun row hrow => (nomatch hrow)⟩
  · rw [asI64_of_lt hi64]
  · obtain ⟨hlow, hhigh⟩ := asI64_bounds fromHeight
    exact wrapI64_of_fits hlow hhigh

/-- Within these bounds a stream computes without overflow and never emits a block below the
height asked for, whatever the cursor, the stores and the broadcasts. -/
theorem stream_stays_above [Collation] (c : StreamConfig) {fromHeight : Nat}
    (hu64 : fromHeight < 2 ^ 64) (hne : fromHeight ≠ 2 ^ 63) (position : Nat)
    (cursor : Option Int) (opened : List IndexableBlock) (polls : List StreamPoll)
    (hbounds : Always (pollI64 c) (fun s poll _ => s.inBounds c fromHeight poll = true)
      (.openI64 fromHeight position cursor opened) polls) :
    wrapI64 (asI64 fromHeight - 1) = asI64 fromHeight - 1 ∧
      Always (pollI64 c) (StaysAbove c fromHeight)
        (.openI64 fromHeight position cursor opened) polls := by
  constructor
  · obtain ⟨hlow, hhigh⟩ := asI64_bounds fromHeight
    have hmin : asI64 fromHeight ≠ -2 ^ 63 := mt (asI64_eq_min hu64) hne
    exact wrapI64_of_fits (by omega) (by omega)
  · apply everyStep_imp (I := fun _ => BlockStream.From fromHeight) ?_ ?_ ?_ hbounds
    · intro _ s poll s' h hs hin
      exact h.step hs hin
    · intro _ s poll s' h hs hin
      refine ⟨?_, (h.step hs hin).emitted⟩
      rintro db sent rfl
      exact h.exact hin hs
    · exact BlockStream.from_openI64 fromHeight position cursor opened

/-! ## Concrete runs -/

/-- Blocks 0 and 1, stored. -/
def twoStored : Option Database :=
  @insertBlocks .plain .empty "main" [.bare 0 "g" "", .bare 1 "a" "g"] (.tierAOnly .empty)

/-- Block 1 is replayed, block 2 comes in live. -/
def replayOne (db : Database) : List StreamPoll :=
  List.replicate 5 (.poll db []) ++ [.poll db (blockRowFromWire (.bare 2 "b" "a")).toList]

theorem stream_stays_above_one :
    ∃ db, twoStored = some db ∧
      Always (@pollI64 .plain .small) (@StaysAbove .plain .small 1) (.openI64 1 0 (some 1) [])
        (replayOne db) := by
  have hany : twoStored.any (fun db => decide (Always (@pollI64 .plain .small)
      (fun s poll _ => s.inBounds .small 1 poll = true) (.openI64 1 0 (some 1) [])
      (replayOne db))) = true := by decide
  obtain ⟨db, hdb, hbounds⟩ := (Option.any_eq_true _ _).mp hany
  exact ⟨db, hdb, (@stream_stays_above .plain .small 1 (by decide) (by decide) 0 (some 1) []
    (replayOne db) (of_decide_eq_true hbounds)).2⟩

/-- Asked for the blocks from 5 on with the tip at 2, the tail has block 3. -/
theorem stream_below_from_height :
    ¬ ∀ (fromHeight : Nat) (cursor : Option Int) (polls : List StreamPoll),
      fromHeight < 2 ^ 64 →
        wrapI64 (asI64 fromHeight - 1) = asI64 fromHeight - 1 ∧
          Always (@pollI64 .plain .small) (@StaysAbove .plain .small fromHeight)
            (.openI64 fromHeight 0 cursor []) polls := by
  intro h
  have hrun := (h 5 (some 2) [.poll .empty [],
    .poll .empty (blockRowFromWire (.bare 3 "c" "b")).toList] (by decide)).2
  obtain ⟨_, ⟨_, hemitted⟩, _⟩ := hrun
  revert hemitted
  decide

end Retracer
