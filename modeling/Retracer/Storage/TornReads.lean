import Retracer.Storage.Snapshots

/-! # Block reads beside inserts and rollbacks

One task reads blocks while another inserts the next ones and rolls back. As long as no
rollback reaches below the last height of a page that is being read, every row returned
is a block as it was stored at one moment.
-/

namespace Retracer

open KeyedTable Execution

/-- `moments` is every database there has been so far; the code has no such thing. -/
structure ReadState where
  store : StoreState := {}
  reading : Option OpenRead := none
  returned : List BlockRow := []
  moments : List Database := [.empty]

inductive ReadOp where
  | store (op : ChainOp)
  | start (read : BlocksRead)
  | next

/-- What a statement's result does to the task. -/
def ReadState.settle (s : ReadState) : ReadResult → ReadState
  | .failed => { s with reading := none }
  | .reading r => { s with reading := some r }
  | .done blocks => { s with reading := none, returned := s.returned ++ blocks }

variable [Postgres] [Collation]

def readStep (chainId : String) (extractor : AddressExtractor) (s : ReadState) :
    ReadOp → Option ReadState
  | .store op =>
      (chainStep chainId extractor s.store op).map fun store =>
        { s with store, moments := s.moments ++ [store.db] }
  | .start read =>
      if s.reading.isSome then none else some (s.settle (read.start s.store.db chainId))
  | .next => s.reading.map fun r => s.settle (r.next s.store.db chainId)

/-- A rollback leaves the page alone that is being read. -/
def RollbackSparesRead (s : ReadState) (op : ReadOp) (_ : ReadState) : Prop :=
  match op with
  | .store (.rollback height) => ∀ r ∈ s.reading, r.hi ≤ height
  | _ => True

omit [Postgres] [Collation] in
instance (s : ReadState) (op : ReadOp) (s' : ReadState) : Decidable (RollbackSparesRead s op s') :=
  match op with
  | .store (.rollback height) => inferInstanceAs (Decidable (∀ r ∈ s.reading, r.hi ≤ height))
  | .store (.insert _) => isTrue trivial
  | .start _ => isTrue trivial
  | .next => isTrue trivial

/-- A read in progress is still as of one of the moments. -/
structure ReadState.Sound (chainId : String) (extractor : AddressExtractor) (s : ReadState) :
    Prop where
  kept : Kept chainId extractor s.store
  now : s.store.db ∈ s.moments
  returned : ∀ row ∈ s.returned, ∃ db ∈ s.moments,
    storedBlock db chainId row.height = some row
  reading : ∀ r ∈ s.reading, r.hi < s.store.kept.length ∧
    ∃ db ∈ s.moments, r.AsOf db chainId ∧ SameUpTo chainId r.hi db s.store.db

variable {chainId : String} {extractor : AddressExtractor}

omit [Postgres] [Collation] in
theorem ConsecutiveFrom.le_height {n : Nat} {blocks : List IndexableBlock}
    (h : ConsecutiveFrom n blocks) {block : IndexableBlock} (hmem : block ∈ blocks) :
    n ≤ block.height := by
  have hin : block.height ∈ blocks.map (·.height) := List.mem_map_of_mem hmem
  rw [h, List.mem_range'_1] at hin
  exact hin.1

omit [Collation] in
/-- Inserts are above every stored height, rollbacks above the given one. -/
theorem sameUpTo_chainStep {s s' : StoreState} {op : ChainOp} {height : Int}
    (hstored : height < s.kept.length)
    (hspares : ∀ target, op = .rollback target → height ≤ target)
    (hs : chainStep chainId extractor s op = some s') :
    SameUpTo chainId height s.db s'.db ∧ height < s'.kept.length := by
  cases op with
  | insert blocks =>
      rcases chainStep_insert hs with rfl | ⟨hnext, db, hdb, rfl⟩
      · exact ⟨.refl, hstored⟩
      · constructor
        · apply SameUpTo.insertBlocks hdb
          intro b hb
          have hle := hnext.le_height hb
          omega
        · rw [List.length_append]
          omega
  | rollback target =>
      have hle := hspares target rfl
      cases hs
      refine ⟨.rollbackTo hle, ?_⟩
      rw [List.length_take]
      omega

theorem ReadState.Sound.store {s : ReadState} (h : s.Sound chainId extractor) {op : ChainOp}
    {store : StoreState} (hs : chainStep chainId extractor s.store op = some store)
    (hspares : ∀ target, op = .rollback target → ∀ r ∈ s.reading, r.hi ≤ target) :
    ({ s with store, moments := s.moments ++ [store.db] } : ReadState).Sound chainId extractor := by
  refine ⟨kept_step h.kept hs, by simp, ?_, ?_⟩
  · intro row hrow
    obtain ⟨db, hdb, hstored⟩ := h.returned row hrow
    exact ⟨db, List.mem_append_left _ hdb, hstored⟩
  · intro r hr
    obtain ⟨hlt, db, hdb, hasOf, hsame⟩ := h.reading r hr
    obtain ⟨hstep, hlt'⟩ :=
      sameUpTo_chainStep hlt (fun target htarget => hspares target htarget r hr) hs
    exact ⟨hlt', db, List.mem_append_left _ hdb, hasOf, hsame.trans hstep⟩

theorem ReadState.Sound.start {s : ReadState} (h : s.Sound chainId extractor)
    (read : BlocksRead) : (s.settle (read.start s.store.db chainId)).Sound chainId extractor := by
  unfold BlocksRead.start
  rcases OpenRead.asOf_select s.store.db chainId read with hasOf | hempty
  · split
    · exact ⟨h.kept, h.now, by simpa [ReadState.settle] using h.returned,
        fun r hr => by cases hr⟩
    · next rows hne =>
        refine ⟨h.kept, h.now, h.returned, ?_⟩
        intro r hr
        cases hr
        refine ⟨?_, s.store.db, h.now, hasOf, .refl⟩
        apply OpenRead.hi_lt hne
        intro b hb
        exact h.kept.row_lt (Table.find?_eq_some_iff.mp (hasOf.stored b hb)).1
  · rw [hempty]
    exact ⟨h.kept, h.now, by simpa [ReadState.settle] using h.returned, fun r hr => by cases hr⟩

theorem ReadState.Sound.next {s : ReadState} (h : s.Sound chainId extractor) {r : OpenRead}
    (hr : s.reading = some r) :
    (s.settle (r.next s.store.db chainId)).Sound chainId extractor := by
  obtain ⟨hlt, db, hdb, hasOf, hsame⟩ := h.reading r hr
  unfold OpenRead.next
  cases hactions : r.actions with
  | none =>
      dsimp only
      cases hselect : selectActions s.store.db chainId r.lo r.hi with
      | none => exact ⟨h.kept, h.now, h.returned, fun r hr => by cases hr⟩
      | some actions =>
          refine ⟨h.kept, h.now, h.returned, ?_⟩
          intro r' hr'
          cases hr'
          refine ⟨hlt, db, hdb, ⟨hasOf.stored, hasOf.bounds, hasOf.alone, ?_⟩, hsame⟩
          intro actions' heq
          cases heq
          exact (hsame.selectActions (Int.le_refl _)).symm.trans hselect
  | some actions =>
      refine ⟨h.kept, h.now, ?_, fun r hr => by cases hr⟩
      intro row hrow
      rcases List.mem_append.mp hrow with hold | hnew
      · exact h.returned row hold
      · exact ⟨db, hdb, hasOf.assemble hsame hactions hnew⟩

theorem sound_readStep {s s' : ReadState} {op : ReadOp} (h : s.Sound chainId extractor)
    (hs : readStep chainId extractor s op = some s') (hspares : RollbackSparesRead s op s') :
    s'.Sound chainId extractor := by
  cases op with
  | store op =>
      obtain ⟨store, hstore, rfl⟩ := Option.map_eq_some_iff.mp hs
      apply h.store hstore
      intro target htarget
      subst htarget
      exact hspares
  | start read =>
      simp only [readStep] at hs
      split at hs
      · cases hs
      · cases hs
        exact h.start read
  | next =>
      obtain ⟨r, hr, rfl⟩ := Option.map_eq_some_iff.mp hs
      exact h.next hr

/-- Every row returned is the block that was stored at its height at one moment. -/
theorem block_reads_are_snapshots {ops : List ReadOp} {s : ReadState}
    (hspares : Always (readStep chainId extractor) RollbackSparesRead {} ops)
    (hrun : exec (readStep chainId extractor) {} ops = some s) :
    ∀ row ∈ s.returned, ∃ db ∈ s.moments, storedBlock db chainId row.height = some row := by
  have h0 : ReadState.Sound chainId extractor {} :=
    ⟨kept_empty, List.mem_singleton_self _, by simp, by simp⟩
  exact (always_invariant (fun _ _ _ => sound_readStep) h0 hspares hrun).returned

/-! ## Concrete runs -/

section

omit [Postgres] [Collation]

abbrev plainRead : ReadState → ReadOp → Option ReadState :=
  @readStep .plain .plain "main" (.tierAOnly .empty)

/-- A block with one transfer, sent by `sender` under `identity`. -/
def IndexableBlock.transfer (height : Nat) (hash parentHash sender identity : String) :
    IndexableBlock :=
  { IndexableBlock.bare height hash parentHash with
    actions := [⟨sender, some identity, some (.obj [("Transfer", .obj [("to", .str "bob")])])⟩] }

/-- A commit and a rollback above the page while it is read. -/
def sparedRead : List ReadOp :=
  [.store (.insert [.bare 0 "g" "", .transfer 1 "a1" "g" "alice" "tx"]),
    .start (.inRange 0 1 500), .store (.insert [.bare 2 "a2" "a1"]), .next,
    .store (.rollback 1), .next]

theorem block_reads_are_snapshots_spared :
    ∃ s, exec plainRead {} sparedRead = some s ∧ s.returned.length = 2 ∧
      ∀ row ∈ s.returned, ∃ db ∈ s.moments,
        @storedBlock .plain db "main" row.height = some row := by
  have hsome : ((exec plainRead {} sparedRead).map (·.returned.length)) = some 2 := by decide
  obtain ⟨s, hs, hlength⟩ := Option.map_eq_some_iff.mp hsome
  have hspares : Always plainRead RollbackSparesRead {} sparedRead := by decide
  exact ⟨s, hs, hlength, @block_reads_are_snapshots .plain .plain _ _ _ _ hspares hs⟩

/-- Between the block rows and the actions another branch takes height 1. -/
def tornRead : List ReadOp :=
  [.store (.insert [.bare 0 "g" "", .transfer 1 "a1" "g" "alice" "tx"]),
    .start (.inRange 0 1 500), .store (.rollback 0),
    .store (.insert [.transfer 1 "b1" "g" "carol" "ty"]), .next, .next]

/-- The hash of a block with the identities of its actions. -/
def BlockRow.summary (row : BlockRow) : String × List String :=
  (row.hash, row.actions.map (·.actionHash))

/-- Hash `a1` with the action of `b1`. -/
theorem block_reads_are_not_snapshots :
    ¬ ∀ (ops : List ReadOp) (s : ReadState), exec plainRead {} ops = some s →
      ∀ row ∈ s.returned, ∃ db ∈ s.moments,
        @storedBlock .plain db "main" row.height = some row := by
  intro h
  have htorn : (exec plainRead {} tornRead).any (fun s => s.returned.any fun row =>
      s.moments.all fun db => (@storedBlock .plain db "main" row.height).all fun stored =>
        stored.summary ≠ row.summary) = true := by decide
  rw [Option.any_eq_true] at htorn
  obtain ⟨s, hs, hrows⟩ := htorn
  obtain ⟨row, hrow, hmoments⟩ := List.any_eq_true.mp hrows
  obtain ⟨db, hdb, hstored⟩ := h tornRead s hs row hrow
  have hdiffer := List.all_eq_true.mp hmoments db hdb
  rw [hstored] at hdiffer
  simp at hdiffer

end

end Retracer
