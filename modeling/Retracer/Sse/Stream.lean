import Retracer.Library.Broadcast
import Retracer.Storage.TornReads

/-! # Block streams

The indexer commits a batch and then broadcasts its rows one by one, all of it before the
next commit or rollback. Beside it a task opens a block stream: it subscribes, reads the
tip, replays the stored blocks up to that tip page by page, and then follows the
broadcasts above it. Every await is a step of its own, and a replay read is as many steps
as it has statements.
-/

namespace Retracer

open KeyedTable Execution Broadcast

structure StreamConfig where
  chainId : String
  extractor : AddressExtractor
  /-- `BLOCK_PAGE`. -/
  pageSize : Nat
  pageSize_pos : 0 < pageSize
  /-- `BLOCK_BROADCAST_CAPACITY`. -/
  capacity : Nat

/-! ## The stream -/

inductive StreamPhase where
  /-- The next height to read, and what is left of the page read last. -/
  | replay (next : Int) (page : List BlockRow)
  | reading (r : OpenRead)
  | live
  | lagged

/-- The last four fields are what the proofs follow; the code has no such thing. -/
structure BlockStream where
  fromHeight : Option Nat
  ceiling : Int
  position : Nat
  phase : StreamPhase
  emitted : List BlockRow := []
  /-- Where in the channel the subscription began. -/
  since : Nat
  /-- The stored blocks when the tip was read. -/
  opened : List IndexableBlock
  /-- The blocks committed from then on. -/
  committed : List IndexableBlock := []
  /-- What had been emitted when the replay stopped before the tip. -/
  stopped : Option (List BlockRow) := none

/-- Without a height there is no replay, and the cursor is not read. -/
def BlockStream.open (fromHeight : Option Nat) (position : Nat) (cursor : Option Int)
    (opened : List IndexableBlock) : BlockStream :=
  let tip :=
    match fromHeight with
    | some f => cursor.getD (asI64 f - 1)
    | none => -1
  let start :=
    match fromHeight with
    | some f => asI64 f
    | none => tip + 1
  { fromHeight, ceiling := tip, position, phase := .replay start [], since := position, opened }

theorem BlockStream.ceiling_open (f position : Nat) (cursor : Option Int)
    (opened : List IndexableBlock) :
    (BlockStream.open (some f) position cursor opened).ceiling = cursor.getD (asI64 f - 1) := rfl

theorem BlockStream.phase_open (f position : Nat) (cursor : Option Int)
    (opened : List IndexableBlock) :
    (BlockStream.open (some f) position cursor opened).phase = .replay (asI64 f) [] := rfl

/-- The replay ends here; what is chained to it does not. -/
def BlockStream.stop (s : BlockStream) : BlockStream :=
  { s with phase := .live, stopped := some s.emitted }

/-- What a statement of a page read gave. An empty page stops the replay too. -/
def BlockStream.settle (s : BlockStream) : ReadResult → BlockStream
  | .failed => s.stop
  | .reading r => { s with phase := .reading r }
  | .done blocks =>
      match blocks.getLast? with
      | none => s.stop
      | some last => { s with phase := .replay (last.height + 1) blocks }

/-- A live row, unless the replay covers its height. -/
def BlockStream.receive (s : BlockStream) (row : BlockRow) : BlockStream :=
  { s with
    position := s.position + 1
    emitted := s.emitted ++ if s.ceiling < row.height then [row] else [] }

/-- One poll that makes progress. -/
def BlockStream.advance [Collation] (c : StreamConfig) (db : Database) (sent : List BlockRow)
    (s : BlockStream) : Option BlockStream :=
  match s.phase with
  | .replay next (row :: page) =>
      some { s with phase := .replay next page, emitted := s.emitted ++ [row] }
  | .replay next [] =>
      if s.ceiling < next then some { s with phase := .live }
      else
        some (s.settle (BlocksRead.start db c.chainId (.inRange next s.ceiling c.pageSize)))
  | .reading r => some (s.settle (r.next db c.chainId))
  | .live =>
      match recv c.capacity sent s.position with
      | .empty => none
      | .lagged => some { s with phase := .lagged }
      | .got row => some (s.receive row)
  | .lagged => none

/-- A statement of a page read fails. -/
def BlockStream.fail (s : BlockStream) : Option BlockStream :=
  match s.phase with
  | .replay next [] => if s.ceiling < next then none else some s.stop
  | .reading _ => some s.stop
  | _ => none

/-! ## What a poll does -/

/-- Still reading or emitting stored blocks. -/
def BlockStream.replaying (s : BlockStream) : Bool :=
  match s.phase with
  | .replay _ _ | .reading _ => true
  | .live | .lagged => false

/-- At the live tail. -/
def BlockStream.following (s : BlockStream) : Bool :=
  match s.phase with
  | .live => true
  | .replay _ _ | .reading _ | .lagged => false

theorem BlockStream.not_lagged_of_following {s : BlockStream} (h : s.following = true) :
    s.phase ≠ .lagged := by
  intro hphase
  rw [BlockStream.following, hphase] at h
  cases h

/-- The ways a poll makes progress, each with what it found. -/
inductive BlockStream.Advanced [Collation] (c : StreamConfig) (db : Database)
    (sent : List BlockRow) (s : BlockStream) : BlockStream → Prop where
  | emit {next row page} (hphase : s.phase = .replay next (row :: page)) :
      Advanced c db sent s { s with phase := .replay next page, emitted := s.emitted ++ [row] }
  | finish {next} (hphase : s.phase = .replay next []) (hover : s.ceiling < next) :
      Advanced c db sent s { s with phase := .live }
  | start {next rows} (hphase : s.phase = .replay next []) (hmore : next ≤ s.ceiling)
      (hrows : selectBlocks db c.chainId next s.ceiling c.pageSize = rows) (hne : rows ≠ []) :
      Advanced c db sent s
        { s with phase := .reading { read := .inRange next s.ceiling c.pageSize, rows } }
  | empty {next} (hphase : s.phase = .replay next []) (hmore : next ≤ s.ceiling)
      (hrows : selectBlocks db c.chainId next s.ceiling c.pageSize = []) :
      Advanced c db sent s s.stop
  | actions {r found} (hphase : s.phase = .reading r) (hnone : r.actions = none)
      (hfound : selectActions db c.chainId r.lo r.hi = some found) :
      Advanced c db sent s { s with phase := .reading { r with actions := some found } }
  | undecoded {r} (hphase : s.phase = .reading r) (hnone : r.actions = none)
      (hfailed : selectActions db c.chainId r.lo r.hi = none) :
      Advanced c db sent s s.stop
  | page {r found blocks last} (hphase : s.phase = .reading r) (hsome : r.actions = some found)
      (hblocks : r.read.assemble r.rows found (droppedInRange db c.chainId r.lo r.hi) = blocks)
      (hlast : blocks.getLast? = some last) :
      Advanced c db sent s { s with phase := .replay (last.height + 1) blocks }
  | noBlocks {r found} (hphase : s.phase = .reading r) (hsome : r.actions = some found)
      (hblocks : r.read.assemble r.rows found (droppedInRange db c.chainId r.lo r.hi) = []) :
      Advanced c db sent s s.stop
  | lag (hphase : s.phase = .live) : Advanced c db sent s { s with phase := .lagged }
  | receive {row} (hphase : s.phase = .live) (hrow : sent[s.position]? = some row) :
      Advanced c db sent s (s.receive row)

theorem BlockStream.advanced [Collation] {c : StreamConfig} {db : Database}
    {sent : List BlockRow} {s s' : BlockStream} (h : s.advance c db sent = some s') :
    s.Advanced c db sent s' := by
  unfold BlockStream.advance at h
  split at h
  · next hphase =>
      cases h
      exact .emit hphase
  · next next hphase =>
      split at h
      · next hover =>
          cases h
          exact .finish hphase hover
      · next hmore =>
          cases h
          have hle : next ≤ s.ceiling := Int.not_lt.mp hmore
          cases hrows : selectBlocks db c.chainId next s.ceiling c.pageSize with
          | nil =>
              have hstart : BlocksRead.start db c.chainId (.inRange next s.ceiling c.pageSize) =
                  .done [] := by rw [BlocksRead.start, BlocksRead.select, hrows]
              rw [hstart]
              exact .empty hphase hle hrows
          | cons first rest =>
              have hstart : BlocksRead.start db c.chainId (.inRange next s.ceiling c.pageSize) =
                  .reading
                    { read := .inRange next s.ceiling c.pageSize, rows := first :: rest } := by
                rw [BlocksRead.start, BlocksRead.select, hrows]
              rw [hstart]
              exact .start hphase hle hrows (List.cons_ne_nil _ _)
  · next r hphase =>
      cases h
      unfold OpenRead.next
      cases hactions : r.actions with
      | none =>
          dsimp only
          cases hfound : selectActions db c.chainId r.lo r.hi with
          | none => exact .undecoded hphase hactions hfound
          | some found => exact .actions hphase hactions hfound
      | some found =>
          dsimp only [BlockStream.settle]
          split
          · next hempty => exact .noBlocks hphase hactions (List.getLast?_eq_none_iff.mp hempty)
          · next last hlast => exact .page hphase hactions rfl hlast
  · next hphase =>
      split at h
      · cases h
      · cases h
        exact .lag hphase
      · next row hrecv =>
          cases h
          exact .receive hphase (getElem?_of_recv hrecv)
  · cases h

/-- What was asked for, and the ceiling, stay. -/
theorem BlockStream.Advanced.fixed [Collation] {c : StreamConfig} {db : Database}
    {sent : List BlockRow} {s s' : BlockStream} (h : s.Advanced c db sent s') :
    s'.fromHeight = s.fromHeight ∧ s'.ceiling = s.ceiling := by
  cases h <;> exact ⟨rfl, rfl⟩

/-- Nothing left to do. -/
theorem BlockStream.idle_of_advance [Collation] {c : StreamConfig} {db : Database}
    {sent : List BlockRow} {s : BlockStream} (h : s.advance c db sent = none) :
    s.phase = .lagged ∨ s.phase = .live ∧ sent.length ≤ s.position := by
  unfold BlockStream.advance at h
  cases hphase : s.phase with
  | lagged => exact Or.inl rfl
  | live =>
      rw [hphase] at h
      dsimp only at h
      cases hrecv : recv c.capacity sent s.position with
      | empty => exact Or.inr ⟨rfl, length_le_of_recv hrecv⟩
      | lagged =>
          rw [hrecv] at h
          cases h
      | got row =>
          rw [hrecv] at h
          cases h
  | reading r =>
      rw [hphase] at h
      cases h
  | replay next page =>
      rw [hphase] at h
      cases page with
      | cons row page => cases h
      | nil =>
          dsimp only at h
          split at h <;> cases h

/-- A failure can only meet a replay. -/
theorem BlockStream.stop_of_fail {s s' : BlockStream} (h : s.fail = some s') :
    s.replaying = true ∧ s' = s.stop := by
  unfold BlockStream.fail at h
  split at h
  · next hphase =>
      split at h
      · cases h
      · cases h
        exact ⟨by rw [BlockStream.replaying, hphase], rfl⟩
  · next hphase =>
      cases h
      exact ⟨by rw [BlockStream.replaying, hphase], rfl⟩
  · cases h

/-! ## The system -/

inductive Subscriber where
  | absent
  | subscribed (fromHeight : Option Nat) (position : Nat)
  | streaming (s : BlockStream)

structure StreamState where
  store : StoreState := {}
  /-- Committed and still to be broadcast. -/
  unsent : List BlockRow := []
  /-- All that was broadcast. -/
  sent : List BlockRow := []
  subscriber : Subscriber := .absent

inductive StreamOp where
  | commit (blocks : List IndexableBlock)
  | broadcast
  | rollback (height : Int)
  | subscribe (fromHeight : Option Nat)
  | readTip
  | advance
  | fail

def Subscriber.note (blocks : List IndexableBlock) : Subscriber → Subscriber
  | .streaming s => .streaming { s with committed := s.committed ++ blocks }
  | other => other

variable [Postgres] [Collation]

def streamStep (c : StreamConfig) (s : StreamState) : StreamOp → Option StreamState
  | .commit blocks =>
      if s.unsent = [] ∧ ConsecutiveFrom s.store.kept.length blocks then
        match insertBlocks s.store.db c.chainId blocks c.extractor with
        | none => some s
        | some db =>
            some
              { s with
                store := ⟨db, s.store.kept ++ blocks⟩
                unsent := blocks.filterMap blockRowFromWire
                subscriber := s.subscriber.note blocks }
      else none
  | .broadcast =>
      match s.unsent with
      | [] => none
      | row :: rest => some { s with unsent := rest, sent := s.sent ++ [row] }
  | .rollback height =>
      if s.unsent = [] then
        (chainStep c.chainId c.extractor s.store (.rollback height)).map fun store =>
          { s with store }
      else none
  | .subscribe fromHeight =>
      match s.subscriber with
      | .absent => some { s with subscriber := .subscribed fromHeight s.sent.length }
      | _ => none
  | .readTip =>
      match s.subscriber with
      | .subscribed fromHeight position =>
          some
            { s with
              subscriber := .streaming
                (.open fromHeight position (getCursor s.store.db c.chainId) s.store.kept) }
      | _ => none
  | .advance =>
      match s.subscriber with
      | .streaming stream =>
          (stream.advance c s.store.db s.sent).map fun stream =>
            { s with subscriber := .streaming stream }
      | _ => none
  | .fail =>
      match s.subscriber with
      | .streaming stream =>
          stream.fail.map fun stream => { s with subscriber := .streaming stream }
      | _ => none

/-- The ways a step goes through. -/
inductive StreamState.Stepped (c : StreamConfig) (s : StreamState) :
    StreamOp → StreamState → Prop where
  | refused {blocks} : Stepped c s (.commit blocks) s
  | commit {blocks db} (hsent : s.unsent = [])
      (hnext : ConsecutiveFrom s.store.kept.length blocks)
      (hinsert : insertBlocks s.store.db c.chainId blocks c.extractor = some db) :
      Stepped c s (.commit blocks)
        { s with
          store := ⟨db, s.store.kept ++ blocks⟩
          unsent := blocks.filterMap blockRowFromWire
          subscriber := s.subscriber.note blocks }
  | broadcast {row rest} (hunsent : s.unsent = row :: rest) :
      Stepped c s .broadcast { s with unsent := rest, sent := s.sent ++ [row] }
  | rollback {height store} (hsent : s.unsent = [])
      (hstore : chainStep c.chainId c.extractor s.store (.rollback height) = some store) :
      Stepped c s (.rollback height) { s with store }
  | subscribe {fromHeight} (hsub : s.subscriber = .absent) :
      Stepped c s (.subscribe fromHeight)
        { s with subscriber := .subscribed fromHeight s.sent.length }
  | readTip {fromHeight position} (hsub : s.subscriber = .subscribed fromHeight position) :
      Stepped c s .readTip
        { s with
          subscriber := .streaming
            (.open fromHeight position (getCursor s.store.db c.chainId) s.store.kept) }
  | advance {stream stream'} (hsub : s.subscriber = .streaming stream)
      (hadvance : stream.Advanced c s.store.db s.sent stream') :
      Stepped c s .advance { s with subscriber := .streaming stream' }
  | fail {stream} (hsub : s.subscriber = .streaming stream)
      (hreplay : stream.replaying = true) :
      Stepped c s .fail { s with subscriber := .streaming stream.stop }

theorem stepped_of_streamStep {c : StreamConfig} {s s' : StreamState} {op : StreamOp}
    (h : streamStep c s op = some s') : s.Stepped c op s' := by
  cases op with
  | commit blocks =>
      simp only [streamStep] at h
      split at h
      · next hready =>
          cases hinsert : insertBlocks s.store.db c.chainId blocks c.extractor with
          | none =>
              rw [hinsert] at h
              cases h
              exact .refused
          | some db =>
              rw [hinsert] at h
              cases h
              exact .commit hready.1 hready.2 hinsert
      · cases h
  | broadcast =>
      simp only [streamStep] at h
      cases hunsent : s.unsent with
      | nil =>
          rw [hunsent] at h
          cases h
      | cons row rest =>
          rw [hunsent] at h
          cases h
          exact .broadcast hunsent
  | rollback height =>
      simp only [streamStep] at h
      split at h
      · next hsent =>
          obtain ⟨store, hstore, rfl⟩ := Option.map_eq_some_iff.mp h
          exact .rollback hsent hstore
      · cases h
  | subscribe fromHeight =>
      simp only [streamStep] at h
      cases hsub : s.subscriber with
      | absent =>
          rw [hsub] at h
          cases h
          exact .subscribe hsub
      | subscribed _ _ | streaming _ =>
          rw [hsub] at h
          cases h
  | readTip =>
      simp only [streamStep] at h
      cases hsub : s.subscriber with
      | subscribed fromHeight position =>
          rw [hsub] at h
          cases h
          exact .readTip hsub
      | absent | streaming _ =>
          rw [hsub] at h
          cases h
  | advance =>
      simp only [streamStep] at h
      cases hsub : s.subscriber with
      | streaming stream =>
          rw [hsub] at h
          obtain ⟨stream', hadvance, rfl⟩ := Option.map_eq_some_iff.mp h
          exact .advance hsub (BlockStream.advanced hadvance)
      | absent | subscribed _ _ =>
          rw [hsub] at h
          cases h
  | fail =>
      simp only [streamStep] at h
      cases hsub : s.subscriber with
      | streaming stream =>
          rw [hsub] at h
          obtain ⟨stream', hfail, rfl⟩ := Option.map_eq_some_iff.mp h
          obtain ⟨hreplay, rfl⟩ := BlockStream.stop_of_fail hfail
          exact .fail hsub hreplay
      | absent | subscribed _ _ =>
          rw [hsub] at h
          cases h

/-! ## Concrete runs -/

section

omit [Postgres] [Collation]

def Subscriber.stream : Subscriber → Option BlockStream
  | .streaming s => some s
  | _ => none

theorem Subscriber.eq_of_stream {subscriber : Subscriber} {s : BlockStream}
    (h : subscriber.stream = some s) : subscriber = .streaming s := by
  cases subscriber with
  | streaming s' =>
      cases h
      rfl
  | absent | subscribed _ _ => cases h

/-- Pages of one block and room for four rows. -/
def StreamConfig.small : StreamConfig where
  chainId := "main"
  extractor := .tierAOnly .empty
  pageSize := 1
  pageSize_pos := by decide
  capacity := 4

abbrev smallStep : StreamState → StreamOp → Option StreamState :=
  @streamStep .plain .plain .small

/-- The stream at the end of a run from the empty store. -/
def streamAfter (ops : List StreamOp) : Option BlockStream :=
  (exec smallStep {} ops).bind fun s => s.subscriber.stream

theorem exec_of_streamAfter {ops : List StreamOp} {stream : BlockStream}
    (h : streamAfter ops = some stream) :
    ∃ s, exec smallStep {} ops = some s ∧ s.subscriber = .streaming stream := by
  obtain ⟨s, hs, hstream⟩ := Option.bind_eq_some_iff.mp h
  exact ⟨s, hs, Subscriber.eq_of_stream hstream⟩

end

end Retracer
