import Retracer.Storage.Heights
import Retracer.Storage.Kept

/-! # What the `disputed` flag says

The flag of a stored block is set by the effects of blocks inserted after it, or by its
own. No rollback clears it as long as the block itself stays. So it tells whether some
block since inserted disputed this one, and not whether that block is still there.
-/

namespace Retracer

open KeyedTable Execution

def IndexableBlock.disputedBlocks (block : IndexableBlock) : List Nat :=
  block.effects.elim [] (·.disputedBlocks)

/-- The block carries `height`, at or below its own. -/
def IndexableBlock.Disputes (block : IndexableBlock) (height : Int) : Prop :=
  height ≤ block.height ∧ height ∈ block.disputedBlocks.map asI64

instance (block : IndexableBlock) (height : Int) : Decidable (block.Disputes height) :=
  inferInstanceAs (Decidable (_ ∧ _))

/-! ## One block -/

theorem disputeRow_nil (chainId : String) (b : BlocksRow) : disputeRow chainId [] b = b := by
  simp [disputeRow]

variable [Postgres] {chainId : String} {extractor : AddressExtractor}

/-- The block rows after an insert, flags included. -/
theorem blocks_insertBlockInTx {db db' : Database} {block : IndexableBlock}
    (h : insertBlockInTx chainId extractor db block = some db') :
    db'.blocks = (db.blocks.insertRow (blocksRow chainId block)).modify
      (disputeRow chainId block.disputedBlocks) (key_disputeRow chainId block.disputedBlocks) := by
  unfold insertBlockInTx at h
  simp only [Option.bind_eq_bind, Option.bind_eq_some_iff, Option.some.injEq] at h
  obtain ⟨mid, hmid, writes, _, db₂, h₂, db₃, h₃, rfl⟩ := h
  have heq := insertBlocksRow_eq hmid
  subst heq
  obtain ⟨tokens, _, rfl, _⟩ := insertTokenEvents_spec h₂
  cases heffects : block.effects with
  | none =>
      have hnone : block.disputedBlocks = [] := by simp [IndexableBlock.disputedBlocks, heffects]
      rw [heffects] at h₃
      cases h₃
      have hid := Table.modify_eq_self (t := db.blocks.insertRow (blocksRow chainId block))
        (key_disputeRow chainId []) fun r _ => disputeRow_nil chainId r
      simp only [hnone]
      exact hid.symm
  | some effects =>
      have hsome : block.disputedBlocks = effects.disputedBlocks := by
        simp [IndexableBlock.disputedBlocks, heffects]
      rw [heffects] at h₃
      obtain ⟨db₄, h₄, rfl⟩ := Option.map_eq_some_iff.mp h₃
      obtain ⟨_, created, _, rfl⟩ := insertAssetRegistrations_spec h₄
      simp only [hsome]
      rfl

omit [Postgres] in
theorem disputed_disputeRow {heights : List Nat} {b : BlocksRow} (hb : b.chainId = chainId) :
    (disputeRow chainId heights b).disputed = true ↔
      b.disputed = true ∨ b.height ∈ heights.map asI64 := by
  unfold disputeRow
  by_cases hin : b.height ∈ heights.map asI64
  · rw [if_pos ⟨hb, hin⟩]
    simp [hin]
  · rw [if_neg fun h => hin h.2]
    simp [hin]

/-! ## Runs -/

/-- `since` has, for each kept block, the blocks inserted since it was, itself included;
some of them may be rolled back by now. The code keeps no such thing. -/
structure FlagState where
  store : StoreState := {}
  since : List (List IndexableBlock) := []

/-- One more block. -/
def record (since : List (List IndexableBlock)) (block : IndexableBlock) :
    List (List IndexableBlock) :=
  since.map (· ++ [block]) ++ [[block]]

/-- The steps of `chainStep`, with the record kept along. -/
def flagStep (chainId : String) (extractor : AddressExtractor) (s : FlagState) :
    ChainOp → Option FlagState
  | .insert blocks =>
      if ConsecutiveFrom s.store.kept.length blocks then
        match insertBlocks s.store.db chainId blocks extractor with
        | none => some s
        | some db => some ⟨⟨db, s.store.kept ++ blocks⟩, blocks.foldl record s.since⟩
      else none
  | .rollback height =>
      some
        ⟨⟨(rollbackTo s.store.db chainId height).1, s.store.kept.take (height + 1).toNat⟩,
          s.since.take (height + 1).toNat⟩

/-- The machine is `chainStep`. -/
theorem chainStep_of_flagStep {s s' : FlagState} {op : ChainOp}
    (h : flagStep chainId extractor s op = some s') :
    chainStep chainId extractor s.store op = some s'.store := by
  cases op with
  | insert blocks =>
      simp only [flagStep] at h
      simp only [chainStep]
      by_cases hnext : ConsecutiveFrom s.store.kept.length blocks
      · rw [if_pos hnext] at h ⊢
        cases hinsert : insertBlocks s.store.db chainId blocks extractor with
        | none =>
            rw [hinsert] at h
            cases h
            rfl
        | some db =>
            rw [hinsert] at h
            cases h
            rfl
      · rw [if_neg hnext] at h
        cases h
  | rollback height =>
      cases h
      rfl

/-- The flag of every stored block is what the blocks inserted since say. -/
structure FlagsRecorded (chainId : String) (extractor : AddressExtractor) (s : FlagState) :
    Prop where
  kept : Kept chainId extractor s.store
  length : s.since.length = s.store.kept.length
  flags : ∀ (n : Nat) since b, s.since[n]? = some since →
    s.store.db.blocks.find? (chainId, (n : Int)) = some b →
    (b.disputed = true ↔ ∃ block ∈ since, block.Disputes n)
  stored : ∀ (n : Nat) since, s.since[n]? = some since →
    ∀ block ∈ s.store.kept, n ≤ block.height → block ∈ since

omit [Postgres] in
theorem getElem?_record {since : List (List IndexableBlock)} {block : IndexableBlock} {n : Nat}
    {later : List IndexableBlock} (h : (record since block)[n]? = some later) :
    (n = since.length ∧ later = [block]) ∨
      ∃ older, since[n]? = some older ∧ later = older ++ [block] := by
  unfold record at h
  by_cases hlt : n < since.length
  · rw [List.getElem?_append_left (by simpa using hlt), List.getElem?_map,
      List.getElem?_eq_getElem hlt, Option.map_some, Option.some.injEq] at h
    exact Or.inr ⟨since[n], List.getElem?_eq_getElem hlt, h.symm⟩
  · have hbound := (List.getElem?_eq_some_iff.mp h).1
    simp only [List.length_append, List.length_map, List.length_singleton] at hbound
    have hlast : n = since.length := by omega
    rw [hlast, List.getElem?_append_right (by simp)] at h
    exact Or.inl ⟨hlast, by simpa using h.symm⟩

theorem FlagsRecorded.insertBlock {s : FlagState} (h : FlagsRecorded chainId extractor s)
    {block : IndexableBlock} {db : Database} (hnext : block.height = s.store.kept.length)
    (hdb : insertBlockInTx chainId extractor s.store.db block = some db) :
    FlagsRecorded chainId extractor ⟨⟨db, s.store.kept ++ [block]⟩, record s.since block⟩ := by
  have hone : ConsecutiveFrom s.store.kept.length [block] := by
    simp [ConsecutiveFrom, hnext]
  have hinsert : insertBlocks s.store.db chainId [block] extractor = some db := by
    rw [insertBlocks_cons, hdb]
    rfl
  refine ⟨h.kept.insert hone hinsert, by simp [record, h.length], ?_, ?_⟩
  · intro n since b hsince hb
    have hfind : ((s.store.db.blocks.find? (chainId, (n : Int))).or
        (if (block.height : Int) = n then some (blocksRow chainId block) else none)).map
          (disputeRow chainId block.disputedBlocks) = some b := by
      rw [← hb, blocks_insertBlockInTx hdb, Table.find?_modify, Table.find?_insertRow]
      simp only [blocksRow, key, Prod.mk.injEq, true_and]
    rcases getElem?_record hsince with ⟨hlast, rfl⟩ | ⟨older, holder, rfl⟩
    · -- The new block: nothing but its own effects can have flagged it.
      have hn : n = s.store.kept.length := hlast.trans h.length
      have hfresh : s.store.db.blocks.find? (chainId, (s.store.kept.length : Int)) = none := by
        rw [Table.find?_eq_none_iff]
        intro r hr hkey
        have hheight : r.height = s.store.kept.length := congrArg Prod.snd hkey
        have hlt := h.kept.row_lt hr
        omega
      rw [hn, hfresh, if_pos (by omega), Option.none_or, Option.map_some, Option.some.injEq]
        at hfind
      have hheight : (blocksRow chainId block).height = (n : Int) := by
        show (block.height : Int) = n
        omega
      have hdisputes : block.Disputes n ↔ (n : Int) ∈ block.disputedBlocks.map asI64 :=
        and_iff_right (by omega)
      rw [← hfind, disputed_disputeRow (by rfl), hheight, ← hdisputes]
      simp [blocksRow]
    · have hlt : n < s.since.length := (List.getElem?_eq_some_iff.mp holder).1
      have hlt' : n < s.store.kept.length := h.length ▸ hlt
      rw [if_neg (by omega), Option.or_none] at hfind
      obtain ⟨r, hr, rfl⟩ := Option.map_eq_some_iff.mp hfind
      have hkey : (r.chainId, r.height) = (chainId, (n : Int)) :=
        (Table.find?_eq_some_iff.mp hr).2
      obtain ⟨hchain, hheight⟩ := Prod.mk.inj hkey
      have hold := h.flags n older r holder hr
      have hdisputes : block.Disputes n ↔ (n : Int) ∈ block.disputedBlocks.map asI64 :=
        and_iff_right (by omega)
      rw [disputed_disputeRow hchain, hold, hheight, ← hdisputes]
      simp [or_and_right, exists_or]
  · intro n since hsince stored hstored hle
    rcases getElem?_record hsince with ⟨hlast, rfl⟩ | ⟨older, holder, rfl⟩
    · rcases List.mem_append.mp hstored with hold | hnew
      · have hlt := h.kept.heights.height_lt hold
        have hlength := h.length
        omega
      · exact hnew
    · rcases List.mem_append.mp hstored with hold | hnew
      · exact List.mem_append_left _ (h.stored n older holder stored hold hle)
      · exact List.mem_append_right _ hnew

theorem FlagsRecorded.insertBlocks {s : FlagState} (h : FlagsRecorded chainId extractor s)
    {blocks : List IndexableBlock} {db : Database}
    (hnext : ConsecutiveFrom s.store.kept.length blocks)
    (hdb : insertBlocks s.store.db chainId blocks extractor = some db) :
    FlagsRecorded chainId extractor
      ⟨⟨db, s.store.kept ++ blocks⟩, blocks.foldl record s.since⟩ := by
  induction blocks generalizing s with
  | nil =>
      cases hdb
      rw [List.append_nil]
      exact h
  | cons block blocks ih =>
      rw [insertBlocks_cons, Option.bind_eq_some_iff] at hdb
      obtain ⟨mid, hmid, hrest⟩ := hdb
      have hheights : block.height :: blocks.map (·.height) =
          s.store.kept.length :: List.range' (s.store.kept.length + 1) blocks.length := hnext
      obtain ⟨hheight, hheights'⟩ := List.cons.inj hheights
      have hnext' : ConsecutiveFrom (s.store.kept ++ [block]).length blocks := by
        rw [List.length_append]
        exact hheights'
      have hall := ih (h.insertBlock hheight hmid) hnext' hrest
      rw [List.append_assoc] at hall
      exact hall

theorem FlagsRecorded.rollback {s : FlagState} (h : FlagsRecorded chainId extractor s)
    (height : Int) :
    FlagsRecorded chainId extractor
      ⟨⟨(rollbackTo s.store.db chainId height).1, s.store.kept.take (height + 1).toNat⟩,
        s.since.take (height + 1).toNat⟩ := by
  refine ⟨h.kept.rollback height, by simp [h.length], ?_, ?_⟩
  · intro n since b hsince hb
    have hfind : ((s.store.db.blocks.find? (chainId, (n : Int))).filter fun r =>
        !above chainId height r) = some b := by
      rw [← Table.find?_deleteWhere]
      exact hb
    exact h.flags n since b (getElem?_of_take hsince) (Option.filter_eq_some_iff.mp hfind).1
  · intro n since hsince stored hstored
    exact h.stored n since (getElem?_of_take hsince) stored (List.mem_of_mem_take hstored)

theorem flagsRecorded_step {s s' : FlagState} {op : ChainOp}
    (h : FlagsRecorded chainId extractor s) (hs : flagStep chainId extractor s op = some s') :
    FlagsRecorded chainId extractor s' := by
  cases op with
  | insert blocks =>
      simp only [flagStep] at hs
      split at hs
      · next hnext =>
          split at hs
          · cases hs
            exact h
          · next db hdb =>
              cases hs
              exact h.insertBlocks hnext hdb
      · cases hs
  | rollback height =>
      cases hs
      exact h.rollback height

/-- The block stored at a height is flagged exactly when some block inserted since it was,
itself included and rolled back by now or not, carries its height. The stored blocks that
carry it are among those. -/
theorem disputed_since_stored {ops : List ChainOp} {s : FlagState}
    (hrun : exec (flagStep chainId extractor) {} ops = some s) :
    s.since.length = s.store.kept.length ∧
      ∀ (n : Nat) block since, s.store.kept[n]? = some block → s.since[n]? = some since →
        (∃ b, s.store.db.blocks.find? (chainId, (n : Int)) = some b ∧ b.hash = block.hash ∧
          (b.disputed = true ↔ ∃ later ∈ since, later.Disputes n)) ∧
        ∀ stored ∈ s.store.kept, stored.Disputes n → stored ∈ since := by
  have h0 : FlagsRecorded chainId extractor {} := by
    refine ⟨kept_empty, rfl, ?_, ?_⟩
    · intro n since b hsince
      cases hsince
    · intro n since hsince
      cases hsince
  have h := exec_preserves (fun _ _ _ => flagsRecorded_step) h0 hrun
  refine ⟨h.length, ?_⟩
  intro n block since hblock hsince
  have hfind := h.kept.find hblock
  rw [Database.undisputedBlocks, Table.find?_modify] at hfind
  obtain ⟨b, hb, hclear⟩ := Option.map_eq_some_iff.mp hfind
  have hhash : (clearDisputed b).hash = (blocksRow chainId block).hash := by rw [hclear]
  refine ⟨⟨b, hb, hhash, h.flags n since b hsince hb⟩, ?_⟩
  intro stored hstored hdisputes
  have hle : n ≤ stored.height := by
    have := hdisputes.1
    omega
  exact h.stored n since hsince stored hstored hle

/-! ## Concrete runs -/

section

omit [Postgres]

/-- A block whose effects name one disputed height. -/
def IndexableBlock.adjudicator (height : Nat) (hash parentHash : String) (disputed : Nat) :
    IndexableBlock :=
  { IndexableBlock.bare height hash parentHash with
    effects := some { disputedBlocks := [disputed] } }

/-- Block 2 disputes block 1 and is rolled back. -/
def adjudicatorRolledBack : List ChainOp :=
  [.insert [.bare 0 "g" "", .bare 1 "a1" "g", .adjudicator 2 "a2" "a1" 1], .rollback 1]

theorem disputed_since_stored_rolledBack :
    ∃ s, exec (@flagStep .plain "main" (.tierAOnly .empty)) {} adjudicatorRolledBack = some s ∧
      ∀ (n : Nat) block since, s.store.kept[n]? = some block → s.since[n]? = some since →
        (∃ b, s.store.db.blocks.find? ("main", (n : Int)) = some b ∧ b.hash = block.hash ∧
          (b.disputed = true ↔ ∃ later ∈ since, later.Disputes n)) ∧
        ∀ stored ∈ s.store.kept, stored.Disputes n → stored ∈ since := by
  have hsome : (exec (@flagStep .plain "main" (.tierAOnly .empty)) {}
      adjudicatorRolledBack).isSome := by decide
  obtain ⟨s, hs⟩ := Option.isSome_iff_exists.mp hsome
  exact ⟨s, hs, (@disputed_since_stored .plain _ _ _ _ hs).2⟩

/-- The flag outlives the only stored block that carried the height. -/
theorem disputed_outlives_adjudicator :
    ¬ ∀ (ops : List ChainOp) (s : StoreState),
      exec (@chainStep .plain "main" (.tierAOnly .empty)) {} ops = some s →
      ∀ (d : Int) (b : BlocksRow), s.db.blocks.find? ("main", d) = some b →
        (b.disputed = true ↔ ∃ block ∈ s.kept, block.Disputes d) := by
  intro h
  have hflag : (exec (@chainStep .plain "main" (.tierAOnly .empty)) {}
      adjudicatorRolledBack).any (fun s =>
        ((s.db.blocks.find? ("main", 1)).any (·.disputed)) &&
          s.kept.all fun block => ¬ block.Disputes 1) = true := by decide
  rw [Option.any_eq_true] at hflag
  obtain ⟨s, hs, hrow⟩ := hflag
  rw [Bool.and_eq_true, Option.any_eq_true] at hrow
  obtain ⟨⟨b, hb, hdisputed⟩, hnone⟩ := hrow
  obtain ⟨block, hblock, hcarries⟩ := (h adjudicatorRolledBack s hs 1 b hb).mp hdisputed
  have hnot := List.all_eq_true.mp hnone block hblock
  simp only [decide_eq_true_eq] at hnot
  exact hnot hcarries

end

end Retracer
