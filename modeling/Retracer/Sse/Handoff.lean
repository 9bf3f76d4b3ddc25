import Retracer.Sse.FailedReplay
import Retracer.Sse.Feed

/-! # From the replay to the live tail

On a chain without forks the broadcast rows have the heights 0, 1, 2 and so on, so a
position in the channel is the height of the row there. A subscription begins at or below
the ceiling that is read after it, the replay covers what is up to the ceiling, and the live
tail what is above.
-/

namespace Retracer

open KeyedTable Execution Broadcast

/-- No rollback, and every read succeeds. -/
def StreamOp.Smooth : StreamOp → Prop
  | .rollback _ | .fail => False
  | _ => True

instance (op : StreamOp) : Decidable op.Smooth :=
  match op with
  | .rollback _ => isFalse id
  | .fail => isFalse id
  | .commit _ => isTrue trivial
  | .broadcast => isTrue trivial
  | .subscribe _ => isTrue trivial
  | .readTip => isTrue trivial
  | .advance => isTrue trivial

/-! ## The stream of a fork-free chain -/

/-- How far the heights from `f` on have come: `k` of them are emitted or about to be. -/
def BlockStream.Reached (s : BlockStream) (f k : Nat) : Prop :=
  match s.phase with
  | .replay next page =>
      next = f + k ∧ next ≤ s.ceiling + 1 ∧
        (s.emitted ++ page).map (·.height) = heightsFrom f k
  | .reading r =>
      ∃ m, 0 < m ∧ ((f + k + m : Nat) : Int) ≤ s.ceiling + 1 ∧
        r.rows.map (·.height) = heightsFrom (f + k) m ∧
        s.emitted.map (·.height) = heightsFrom f k
  | .live =>
      ((f + k : Nat) : Int) = max (s.ceiling + 1) s.position ∧
        s.emitted.map (·.height) = heightsFrom f k
  | .lagged => s.emitted.map (·.height) = heightsFrom f k

/-- With `n` blocks stored. A ceiling without stored blocks is right below the start. -/
structure BlockStream.Gapless (n f : Nat) (s : BlockStream) : Prop where
  since_le : (s.since : Int) ≤ s.ceiling + 1
  stored : s.ceiling < n ∨ s.ceiling + 1 = f
  reached : ∃ k, s.Reached f k

/-- What is emitted are the heights from `f` on, in whatever phase. -/
theorem BlockStream.Gapless.emitted_heights {n f : Nat} {s : BlockStream} (h : s.Gapless n f) :
    s.emitted.map (·.height) = heightsFrom f s.emitted.length := by
  obtain ⟨k, hreached⟩ := h.reached
  have hheights : ∃ m, s.emitted.map (·.height) = heightsFrom f m := by
    unfold BlockStream.Reached at hreached
    cases hphase : s.phase with
    | replay next page =>
        rw [hphase] at hreached
        have htake := congrArg (List.take s.emitted.length) hreached.2.2
        rw [List.map_append, ← List.length_map (f := (·.height)), List.take_left,
          take_heightsFrom] at htake
        exact ⟨_, htake⟩
    | reading r =>
        rw [hphase] at hreached
        obtain ⟨_, _, _, _, hemitted⟩ := hreached
        exact ⟨k, hemitted⟩
    | live =>
        rw [hphase] at hreached
        exact ⟨k, hreached.2⟩
    | lagged =>
        rw [hphase] at hreached
        exact ⟨k, hreached⟩
  obtain ⟨m, hm⟩ := hheights
  have hlength : s.emitted.length = m := by
    rw [← length_heightsFrom f m, ← hm, List.length_map]
  rw [hlength]
  exact hm

/-- At the live tail with every row received, all stored heights from `f` on are out. -/
theorem BlockStream.Gapless.emitted_length {n f : Nat} {s : BlockStream} (h : s.Gapless n f)
    (hlive : s.phase = .live) (hposition : s.position = n) : s.emitted.length = n - f := by
  obtain ⟨k, hreached⟩ := h.reached
  unfold BlockStream.Reached at hreached
  rw [hlive] at hreached
  have hlength : s.emitted.length = k := by
    rw [← length_heightsFrom f k, ← hreached.2, List.length_map]
  have hcount := hreached.1
  have hstored := h.stored
  omega

theorem height_getLast? {blocks : List BlockRow} {last : BlockRow} {f m : Nat}
    (hheights : blocks.map (·.height) = heightsFrom f m) (hlast : blocks.getLast? = some last) :
    0 < m ∧ last.height + 1 = ((f + m : Nat) : Int) := by
  have hmap : (blocks.map (·.height)).getLast? = some last.height := by
    rw [List.getLast?_map, hlast]
    rfl
  rw [hheights] at hmap
  cases m with
  | zero => cases hmap
  | succ m =>
      rw [heightsFrom_succ, List.getLast?_concat, Option.some.injEq] at hmap
      omega

section

variable [Postgres] [Collation] {c : StreamConfig} {store : StoreState} {sent : List BlockRow}
  {s s' : BlockStream} {f : Nat}

omit [Collation] in
/-- The next page is not empty and stays below the ceiling. -/
theorem BlockStream.Gapless.page (h : s.Gapless store.kept.length f)
    (hkept : Kept c.chainId c.extractor store) {next : Int} {k : Nat}
    (hnext : next = ((f + k : Nat) : Int)) (hmore : next ≤ s.ceiling) :
    ∃ m, 0 < m ∧ ((f + k + m : Nat) : Int) ≤ s.ceiling + 1 ∧
      (selectBlocks store.db c.chainId next s.ceiling c.pageSize).map (·.height) =
        heightsFrom (f + k) m := by
  have hstored : s.ceiling < store.kept.length := by
    rcases h.stored with hlt | hright
    · exact hlt
    · omega
  have hpos := c.pageSize_pos
  refine ⟨min c.pageSize (s.ceiling + 1 - next).toNat, ?_, ?_,
    hkept.selectBlocks_heights hnext hmore hstored⟩
  · omega
  · omega

omit [Postgres] [Collation] in
theorem BlockStream.Gapless.receive (h : s.Gapless store.kept.length f)
    (hphase : s.phase = .live) {row : BlockRow} (hheight : row.height = s.position) :
    (s.receive row).Gapless store.kept.length f := by
  obtain ⟨k, hreached⟩ := h.reached
  unfold BlockStream.Reached at hreached
  rw [hphase] at hreached
  obtain ⟨hcount, hheights⟩ := hreached
  have hphase' : (s.receive row).phase = .live := hphase
  have hemitted : (s.receive row).emitted =
      s.emitted ++ if s.ceiling < row.height then [row] else [] := rfl
  refine ⟨h.since_le, h.stored, if s.ceiling < row.height then k + 1 else k, ?_⟩
  unfold BlockStream.Reached
  rw [hphase', hemitted]
  show _ = max (s.ceiling + 1) ((s.position + 1 : Nat) : Int) ∧ _
  by_cases habove : s.ceiling < row.height
  · rw [if_pos habove, if_pos habove]
    have hrow : row.height = ((f + k : Nat) : Int) := by omega
    constructor
    · omega
    · rw [List.map_append, hheights, heightsFrom_succ, ← hrow]
      rfl
  · rw [if_neg habove, if_neg habove, List.append_nil]
    exact ⟨by omega, hheights⟩

theorem BlockStream.Gapless.advance (h : s.Gapless store.kept.length f)
    (hshaped : s.Shaped sent) (hkept : Kept c.chainId c.extractor store)
    (hsent : sent.map (·.height) = heightsFrom 0 sent.length)
    (hs : s.Advanced c store.db sent s') : s'.Gapless store.kept.length f := by
  obtain ⟨k, hreached⟩ := h.reached
  unfold BlockStream.Reached at hreached
  cases hs with
  | emit hphase =>
      rw [hphase] at hreached
      obtain ⟨hnext, hle, hheights⟩ := hreached
      refine ⟨h.since_le, h.stored, k, hnext, hle, ?_⟩
      rw [List.append_assoc]
      exact hheights
  | finish hphase hover =>
      rw [hphase] at hreached
      obtain ⟨hnext, hle, hheights⟩ := hreached
      have hposition : s.position = s.since :=
        (hshaped.replay (by rw [BlockStream.replaying, hphase])).1
      have hsince := h.since_le
      refine ⟨h.since_le, h.stored, k, ?_, ?_⟩
      · show ((f + k : Nat) : Int) = max (s.ceiling + 1) s.position
        omega
      · rw [List.append_nil] at hheights
        exact hheights
  | start hphase hmore hrows hne =>
      rw [hphase] at hreached
      obtain ⟨hnext, hle, hheights⟩ := hreached
      obtain ⟨m, hm, hbelow, hpage⟩ := h.page hkept hnext hmore
      rw [hrows] at hpage
      rw [List.append_nil] at hheights
      exact ⟨h.since_le, h.stored, k, m, hm, hbelow, hpage, hheights⟩
  | empty hphase hmore hrows =>
      rw [hphase] at hreached
      obtain ⟨m, hm, hbelow, hpage⟩ := h.page hkept hreached.1 hmore
      rw [hrows] at hpage
      have hlength := congrArg List.length hpage
      rw [length_heightsFrom, List.map_nil, List.length_nil] at hlength
      omega
  | actions hphase hnone hfound =>
      rw [hphase] at hreached
      obtain ⟨m, hm, hle, hrows, hheights⟩ := hreached
      exact ⟨h.since_le, h.stored, k, m, hm, hle, hrows, hheights⟩
  | undecoded hphase hnone hfailed => exact absurd hfailed (hkept.selectActions_ne_none _ _)
  | page hphase hsome hblocks hlast =>
      rw [hphase] at hreached
      obtain ⟨m, hm, hle, hrows, hheights⟩ := hreached
      rw [← BlocksRead.heights_assemble, hblocks] at hrows
      have hend := (height_getLast? hrows hlast).2
      refine ⟨h.since_le, h.stored, k + m, ?_, ?_, ?_⟩
      · omega
      · show _ ≤ s.ceiling + 1
        omega
      · rw [List.map_append, hheights, hrows, heightsFrom_append]
  | noBlocks hphase hsome hblocks =>
      rw [hphase] at hreached
      obtain ⟨m, hm, hle, hrows, hheights⟩ := hreached
      rw [← BlocksRead.heights_assemble, hblocks] at hrows
      have hlength := congrArg List.length hrows
      rw [length_heightsFrom, List.map_nil, List.length_nil] at hlength
      omega
  | lag hphase =>
      rw [hphase] at hreached
      exact ⟨h.since_le, h.stored, k, hreached.2⟩
  | @receive row hphase hrow =>
      apply h.receive hphase
      have hlt : s.position < sent.length := (List.getElem?_eq_some_iff.mp hrow).1
      have hheight : (sent.map (·.height))[s.position]? = some row.height := by
        rw [List.getElem?_map, hrow]
        rfl
      rw [hsent, heightsFrom, List.getElem?_map, List.getElem?_range' hlt] at hheight
      simpa using hheight.symm

end

/-! ## Along a run -/

/-- The broadcast rows are those of the stored blocks, in order. -/
structure StreamState.ForkFree [Postgres] (c : StreamConfig) (s : StreamState) : Prop where
  shaped : s.Shaped
  kept : Kept c.chainId c.extractor s.store
  cursor : getCursor s.store.db c.chainId = cursorOver s.store.kept.length
  rows : (s.sent ++ s.unsent).map (·.height) = heightsFrom 0 s.store.kept.length
  stream : ∀ stream, s.subscriber = .streaming stream → ∀ f : Nat, stream.fromHeight = some f →
    f < 2 ^ 63 → f ≤ stream.ceiling + 1 → stream.Gapless s.store.kept.length f

theorem BlockStream.Gapless.mono {n m f : Nat} {s : BlockStream} (h : s.Gapless n f)
    (hle : n ≤ m) : s.Gapless m f := by
  refine ⟨h.since_le, ?_, h.reached⟩
  rcases h.stored with hlt | hright
  · exact Or.inl (by omega)
  · exact Or.inr hright

section

variable [Postgres] {c : StreamConfig} {s : StreamState}

/-- As many rows are out as there are blocks, less those still to be broadcast. -/
theorem StreamState.ForkFree.sent_length (h : s.ForkFree c) :
    s.sent.length + s.unsent.length = s.store.kept.length := by
  have hlength := congrArg List.length h.rows
  rw [List.length_map, List.length_append, length_heightsFrom] at hlength
  exact hlength

theorem StreamState.ForkFree.sent_heights (h : s.ForkFree c) :
    s.sent.map (·.height) = heightsFrom 0 s.sent.length := by
  have hrows := h.rows
  rw [← h.sent_length, ← heightsFrom_append, List.map_append] at hrows
  exact (List.append_inj hrows (by rw [List.length_map, length_heightsFrom])).1

/-- A stream opened now. -/
theorem StreamState.ForkFree.open (h : s.ForkFree c) {position f : Nat}
    (hposition : position ≤ s.sent.length) (hf : f < 2 ^ 63) (opened : List IndexableBlock)
    (hle : f ≤ (BlockStream.open (some f) position (getCursor s.store.db c.chainId)
      opened).ceiling + 1) :
    (BlockStream.open (some f) position (getCursor s.store.db c.chainId) opened).Gapless
      s.store.kept.length f := by
  have hlength := h.sent_length
  have hstart : asI64 f = f := asI64_of_lt hf
  have hceiling : (BlockStream.open (some f) position (getCursor s.store.db c.chainId)
      opened).ceiling =
        if s.store.kept.length = 0 then (f : Int) - 1 else s.store.kept.length - 1 := by
    rw [BlockStream.ceiling_open, h.cursor, hstart, cursorOver]
    split <;> rfl
  have hphase := BlockStream.phase_open f position (getCursor s.store.db c.chainId) opened
  rw [hstart] at hphase
  refine ⟨?_, ?_, 0, ?_⟩
  · show (position : Int) ≤ _
    rw [hceiling]
    split <;> omega
  · rw [hceiling]
    split
    · exact Or.inr (by omega)
    · exact Or.inl (by omega)
  · unfold BlockStream.Reached
    rw [hphase]
    exact ⟨by simp, hle, rfl⟩

theorem StreamState.ForkFree.commit (h : s.ForkFree c) {blocks : List IndexableBlock}
    {db : Database} (hsent : s.unsent = []) (hnext : ConsecutiveFrom s.store.kept.length blocks)
    (hinsert : insertBlocks s.store.db c.chainId blocks c.extractor = some db)
    (hshaped : StreamState.Shaped
      { s with
        store := ⟨db, s.store.kept ++ blocks⟩
        unsent := blocks.filterMap blockRowFromWire
        subscriber := s.subscriber.note blocks }) :
    StreamState.ForkFree c
      { s with
        store := ⟨db, s.store.kept ++ blocks⟩
        unsent := blocks.filterMap blockRowFromWire
        subscriber := s.subscriber.note blocks } := by
  refine ⟨hshaped, h.kept.insert hnext hinsert, ?_, ?_, ?_⟩
  · show getCursor db c.chainId = cursorOver (s.store.kept ++ blocks).length
    rw [getCursor_insertBlocks hinsert, h.cursor, raiseCursor_consecutive hnext,
      List.length_append]
  · have hold := h.rows
    rw [hsent, List.append_nil] at hold
    have hnew : (blocks.filterMap blockRowFromWire).map (·.height) =
        heightsFrom s.store.kept.length blocks.length := by
      have hrows := congrArg (List.map Prod.fst) (rows_of_insertBlocks hinsert)
      rw [List.map_map, List.map_map] at hrows
      have hblocks : blocks.map (fun b => (b.height : Int)) =
          heightsFrom s.store.kept.length blocks.length := by
        rw [heightsFrom, ← hnext, List.map_map]
        rfl
      exact hrows.trans hblocks
    show (s.sent ++ blocks.filterMap blockRowFromWire).map (·.height) = _
    rw [List.map_append, hold, hnew, List.length_append, ← heightsFrom_append, Nat.zero_add]
  · intro stream hstream f hfrom hf hle
    show stream.Gapless (s.store.kept ++ blocks).length f
    cases hsub : s.subscriber with
    | absent | subscribed _ _ =>
        rw [hsub] at hstream
        cases hstream
    | streaming old =>
        rw [hsub] at hstream
        cases hstream
        have hgapless := h.stream old hsub f hfrom hf hle
        rw [List.length_append]
        have hmono := hgapless.mono (Nat.le_add_right _ blocks.length)
        exact ⟨hmono.since_le, hmono.stored, hmono.reached⟩

variable [Collation]

theorem forkFree_step {s' : StreamState} {op : StreamOp} (h : s.ForkFree c)
    (hs : s.Stepped c op s') (hsmooth : op.Smooth) : s'.ForkFree c := by
  have hshaped : s'.Shaped := shaped_step h.shaped hs
  cases hs with
  | refused => exact h
  | commit hsent hnext hinsert => exact h.commit hsent hnext hinsert hshaped
  | @broadcast row rest hunsent =>
      refine ⟨hshaped, h.kept, h.cursor, ?_, h.stream⟩
      have hrows := h.rows
      rw [hunsent] at hrows
      show ((s.sent ++ [row]) ++ rest).map (·.height) = _
      rw [List.append_assoc]
      exact hrows
  | rollback _ _ => exact absurd hsmooth id
  | subscribe _ =>
      exact ⟨hshaped, h.kept, h.cursor, h.rows, fun stream hstream => nomatch hstream⟩
  | @readTip fromHeight position hsub =>
      refine ⟨hshaped, h.kept, h.cursor, h.rows, ?_⟩
      intro stream hstream f hfrom hf hle
      have hposition := h.shaped.of_subscribed hsub
      cases hstream
      cases hfrom
      exact h.open hposition hf s.store.kept hle
  | @advance old new hsub hadvance =>
      refine ⟨hshaped, h.kept, h.cursor, h.rows, ?_⟩
      intro stream hstream f hfrom hf hle
      have hold := h.shaped.of_streaming hsub
      cases hstream
      obtain ⟨hfromOld, hceiling⟩ := hadvance.fixed
      rw [hfromOld] at hfrom
      rw [hceiling] at hle
      exact (h.stream old hsub f hfrom hf hle).advance hold h.kept h.sent_heights hadvance
  | fail _ _ => exact absurd hsmooth id

/-- The heights emitted are those from `f` on, each once and in order; and when a stream that
did not lag has nothing left to do, and everything is broadcast, none is missing. -/
theorem replay_hands_over_once {ops : List StreamOp} {stream : BlockStream} {f : Nat}
    (hsmooth : ∀ op ∈ ops, op.Smooth) (hrun : exec (streamStep c) {} ops = some s)
    (hstream : s.subscriber = .streaming stream) (hfrom : stream.fromHeight = some f)
    (hf : f < 2 ^ 63) (hle : f ≤ stream.ceiling + 1) :
    stream.emitted.map (·.height) = heightsFrom f stream.emitted.length ∧
      (stream.advance c s.store.db s.sent = none → stream.phase ≠ .lagged → s.unsent = [] →
        stream.emitted.length = s.store.kept.length - f) := by
  have h0 : StreamState.ForkFree c {} := ⟨trivial, kept_empty, rfl, rfl, fun _ h => nomatch h⟩
  have hsteps : Always (streamStep c) (fun _ op _ => op.Smooth) {} ops := always_of_forall hsmooth
  have h : s.ForkFree c := by
    apply always_invariant _ h0 hsteps hrun
    intro s op s' h hs hsmooth
    exact forkFree_step h (stepped_of_streamStep hs) hsmooth
  have hgapless := h.stream stream hstream f hfrom hf hle
  refine ⟨hgapless.emitted_heights, fun hidle hnotLagged hunsent => ?_⟩
  rcases BlockStream.idle_of_advance hidle with hlagged | ⟨hlive, hdrained⟩
  · exact absurd hlagged hnotLagged
  · have hall := h.sent_length
    rw [hunsent, List.length_nil] at hall
    have hposition := (h.shaped.of_streaming hstream).position_le
    exact hgapless.emitted_length hlive (by omega)

end

/-! ## A concrete run -/

/-- Block 1 is committed before the subscription and broadcast after it, block 2 is both
committed and broadcast before the live tail, and block 3 comes live. -/
def handedOver : List StreamOp :=
  [.commit [.bare 0 "g" "", .bare 1 "a" "g"], .broadcast, .subscribe (some 0), .broadcast,
    .commit [.bare 2 "b" "a"], .readTip] ++ List.replicate 4 .advance ++ [.broadcast] ++
    List.replicate 9 .advance ++ [.commit [.bare 3 "c" "b"], .broadcast] ++
    List.replicate 3 .advance

theorem replay_hands_over_once_run :
    ∃ stream, streamAfter handedOver = some stream ∧
      stream.emitted.map (·.height) = heightsFrom 0 4 := by
  have hsome : (streamAfter handedOver).map (fun stream =>
      (stream.fromHeight, stream.ceiling, stream.emitted.length)) = some (some 0, 2, 4) := by
    decide
  obtain ⟨stream, hstream, hall⟩ := Option.map_eq_some_iff.mp hsome
  obtain ⟨hfrom, hrest⟩ := Prod.mk.inj hall
  obtain ⟨hceiling, hlength⟩ := Prod.mk.inj hrest
  obtain ⟨s, hs, hsub⟩ := exec_of_streamAfter hstream
  have hheights := (@replay_hands_over_once .plain .small s .plain handedOver stream 0
    (by decide) hs hsub hfrom (by decide) (by rw [hceiling]; decide)).1
  rw [hlength] at hheights
  exact ⟨stream, hstream, hheights⟩

end Retracer
