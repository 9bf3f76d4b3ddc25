import Retracer.Library.Execution
import Retracer.Library.Replay
import Retracer.Storage.Redelivery

/-! # The store is a function of the surviving blocks

Blocks are inserted in height order, some are delivered again, and a rollback takes the
last ones away. Whatever the order of these, the store is in the end the one that was
given each surviving block once. The `disputed` flag is left out: no rollback clears it.
-/

namespace Retracer

open KeyedTable Execution

variable [Postgres]

/-! ## Operations -/

inductive StoreOp where
  | insert (blocks : List IndexableBlock)
  | redeliver (height : Nat)
  | rollback (height : Int)

/-- A database and the blocks that survive in it. -/
structure StoreState where
  db : Database := .empty
  kept : List IndexableBlock := []

/-- The heights are `n`, `n + 1` and so on. -/
def ConsecutiveFrom (n : Nat) (blocks : List IndexableBlock) : Prop :=
  blocks.map (·.height) = List.range' n blocks.length

instance (n : Nat) (blocks : List IndexableBlock) : Decidable (ConsecutiveFrom n blocks) :=
  inferInstanceAs (Decidable (_ = _))

/-- A failed transaction leaves the database as it was. A rollback goes to a height from
`-1` up and below the last one. -/
def storeStep (chainId : String) (extractor : AddressExtractor) (s : StoreState) :
    StoreOp → Option StoreState
  | .insert blocks =>
      if ConsecutiveFrom s.kept.length blocks then
        match insertBlocks s.db chainId blocks extractor with
        | none => some s
        | some db => some ⟨db, s.kept ++ blocks⟩
      else none
  | .redeliver height =>
      (s.kept[height]?).map fun block =>
        { s with db := (insertBlock s.db chainId block extractor).getD s.db }
  | .rollback height =>
      if -1 ≤ height ∧ height + 1 < s.kept.length then
        some ⟨(rollbackTo s.db chainId height).1, s.kept.take (height + 1).toNat⟩
      else none

/-! ## The laws -/

def blockStore (chainId : String) (extractor : AddressExtractor) :
    Replay.Store Database IndexableBlock where
  init := .empty
  put := insertBlockInTx chainId extractor
  cut db n := (rollbackTo db chainId ((n : Int) - 1)).1
  same db db' := db.undisputed = db'.undisputed

section

omit [Postgres]

theorem ConsecutiveFrom.initial {n : Nat} {blocks more : List IndexableBlock}
    (h : ConsecutiveFrom n (blocks ++ more)) : ConsecutiveFrom n blocks := by
  have hsplit : blocks.map (·.height) ++ more.map (·.height) =
      List.range' n blocks.length ++ List.range' (n + blocks.length) more.length := by
    rw [← List.map_append, h, List.length_append, List.range'_append_1]
  exact (List.append_inj hsplit (by simp)).1

theorem ConsecutiveFrom.append {n : Nat} {blocks more : List IndexableBlock}
    (h : ConsecutiveFrom n blocks) (hmore : ConsecutiveFrom (n + blocks.length) more) :
    ConsecutiveFrom n (blocks ++ more) := by
  unfold ConsecutiveFrom at h hmore ⊢
  rw [List.map_append, h, hmore, List.length_append, List.range'_append_1]

theorem ConsecutiveFrom.height_lt {blocks : List IndexableBlock} (h : ConsecutiveFrom 0 blocks)
    {block : IndexableBlock} (hmem : block ∈ blocks) : block.height < blocks.length := by
  have hin : block.height ∈ blocks.map (·.height) := List.mem_map_of_mem hmem
  rw [h, List.mem_range'_1] at hin
  omega

theorem ConsecutiveFrom.height_last {blocks : List IndexableBlock} {block : IndexableBlock}
    (h : ConsecutiveFrom 0 (blocks ++ [block])) : block.height = blocks.length := by
  unfold ConsecutiveFrom at h
  rw [List.map_append, List.length_append, List.length_singleton, List.range'_1_concat] at h
  have hlast := (List.append_inj' h rfl).2
  simpa using hlast

end

variable {chainId : String} {extractor : AddressExtractor}

/-- A store that was given the blocks of a chain holds them, and nothing above them. -/
theorem blockStore_filled {blocks : List IndexableBlock} {db : Database}
    (hin : ConsecutiveFrom 0 blocks)
    (h : (blockStore chainId extractor).replay blocks = some db) :
    Topped chainId blocks.length db ∧
      ∀ block ∈ blocks, ∃ writes, Delivered chainId extractor block writes db := by
  induction blocks using List.reverseRecOn generalizing db with
  | nil =>
      cases h
      exact ⟨topped_empty chainId, fun block hmem => nomatch hmem⟩
  | append_singleton blocks last ih =>
      obtain ⟨before, hbefore, hput⟩ := (blockStore chainId extractor).replay_snoc h
      obtain ⟨htopped, hdelivered⟩ := ih hin.initial hbefore
      obtain ⟨writes, tokens, hwritten⟩ := written_of_insert hput
      have hheight : last.height = blocks.length := hin.height_last
      constructor
      · rw [List.length_append]
        exact htopped.written hwritten hheight
      · intro block hmem
        rcases List.mem_append.mp hmem with hold | hnew
        · obtain ⟨older, holder⟩ := hdelivered block hold
          have hlt := hin.initial.height_lt hold
          exact ⟨older, holder.later hwritten (by omega)⟩
        · cases List.mem_singleton.mp hnew
          exact ⟨writes, hwritten.delivered⟩

theorem blockStore_laws : (blockStore chainId extractor).Laws (ConsecutiveFrom 0) where
  refl _ := rfl
  symm := Eq.symm
  trans := Eq.trans
  initial := ConsecutiveFrom.initial
  put_congr := by
    intro db t db' block hsame hput
    have hmap : (insertBlockInTx chainId extractor t block).map Database.undisputed =
        some db'.undisputed := by
      rw [← insertBlockInTx_undisputed, ← hsame, insertBlockInTx_undisputed]
      exact congrArg (Option.map Database.undisputed) hput
    obtain ⟨t', ht', heq⟩ := Option.map_eq_some_iff.mp hmap
    exact ⟨t', ht', heq.symm⟩
  cut_congr := by
    intro db t n hsame
    show (rollbackTo db chainId _).1.undisputed = (rollbackTo t chainId _).1.undisputed
    rw [← rollbackTo_undisputed, ← rollbackTo_undisputed, hsame]
  cut_put := by
    intro blocks db db' block n hin hfill hput hn
    obtain ⟨htopped, _⟩ := blockStore_filled hin.initial hfill
    obtain ⟨writes, tokens, hwritten⟩ := written_of_insert hput
    have hheight : block.height = blocks.length := hin.height_last
    exact hwritten.rollbackTo htopped.parents (by omega)
  cut_all := by
    intro blocks db hin hfill
    exact (blockStore_filled hin hfill).1.rollbackTo
  put_again := by
    intro blocks db block hin hfill hmem
    obtain ⟨htopped, hdelivered⟩ := blockStore_filled hin hfill
    obtain ⟨writes, hthere⟩ := hdelivered block hmem
    have hlt := hin.height_lt hmem
    exact hthere.again (htopped.find_cursor (by omega)) (by omega)

/-! ## Runs -/

/-- The database holds what inserting the surviving blocks once gives. -/
structure Surviving (chainId : String) (extractor : AddressExtractor) (s : StoreState) : Prop where
  heights : ConsecutiveFrom 0 s.kept
  holds : (blockStore chainId extractor).Holds s.db s.kept

/-- Every stored block is taken again, and nothing changes. -/
theorem Surviving.redeliver {s : StoreState} (h : Surviving chainId extractor s)
    {block : IndexableBlock} (hmem : block ∈ s.kept) :
    ∃ db, insertBlock s.db chainId block extractor = some db ∧
      db.undisputed = s.db.undisputed := by
  obtain ⟨db, hput, hsame⟩ := blockStore_laws.put_again_of_holds h.holds h.heights hmem
  have hinsert : insertBlockInTx chainId extractor s.db block = some db := hput
  refine ⟨db, ?_, hsame⟩
  show (insertBlockInTx chainId extractor s.db block).bind some = some db
  rw [hinsert, Option.bind_some]

/-- The store after an insert of the next blocks. -/
theorem Surviving.insert {s : StoreState} (h : Surviving chainId extractor s)
    {blocks : List IndexableBlock} {db : Database} (hnext : ConsecutiveFrom s.kept.length blocks)
    (hinsert : insertBlocks s.db chainId blocks extractor = some db) :
    Surviving chainId extractor ⟨db, s.kept ++ blocks⟩ := by
  have hnext' : ConsecutiveFrom (0 + s.kept.length) blocks := by rwa [Nat.zero_add]
  exact ⟨h.heights.append hnext', blockStore_laws.holds_putAll h.holds hinsert⟩

/-- The store after a rollback that leaves `n` blocks. -/
theorem Surviving.rollback {s : StoreState} (h : Surviving chainId extractor s) {n : Nat}
    (hn : n ≤ s.kept.length) :
    Surviving chainId extractor ⟨(rollbackTo s.db chainId ((n : Int) - 1)).1, s.kept.take n⟩ := by
  have hall := h.heights
  rw [← List.take_append_drop n s.kept] at hall
  exact ⟨hall.initial, blockStore_laws.holds_cut h.holds h.heights hn⟩

theorem Surviving.rollback_insert {s : StoreState} (h : Surviving chainId extractor s)
    {blocks : List IndexableBlock} {db : Database} (hnext : ConsecutiveFrom s.kept.length blocks)
    (hinsert : insertBlocks s.db chainId blocks extractor = some db) :
    (rollbackTo db chainId ((s.kept.length : Int) - 1)).1.undisputed = s.db.undisputed := by
  have hback := (h.insert hnext hinsert).rollback (n := s.kept.length) (by simp)
  rw [List.take_left] at hback
  obtain ⟨t, ht, hsame⟩ := h.holds
  obtain ⟨t', ht', hsame'⟩ := hback.holds
  cases ht.symm.trans ht'
  exact hsame'.trans hsame.symm

theorem surviving_step {s s' : StoreState} {op : StoreOp} (h : Surviving chainId extractor s)
    (hs : storeStep chainId extractor s op = some s') : Surviving chainId extractor s' := by
  cases op with
  | insert blocks =>
      simp only [storeStep] at hs
      split at hs
      · next hnext =>
          split at hs
          · cases hs
            exact h
          · next db hdb =>
              cases hs
              exact h.insert hnext hdb
      · cases hs
  | redeliver height =>
      obtain ⟨block, hblock, rfl⟩ := Option.map_eq_some_iff.mp hs
      obtain ⟨db, hinsert, hsame⟩ := h.redeliver (List.mem_of_getElem? hblock)
      obtain ⟨t, ht, hheld⟩ := h.holds
      rw [hinsert]
      exact ⟨h.heights, t, ht, hsame.trans hheld⟩
  | rollback height =>
      simp only [storeStep] at hs
      split at hs
      · next hrange =>
          cases hs
          have hcut : ((height + 1).toNat : Int) - 1 = height := by omega
          have hback := h.rollback (n := (height + 1).toNat) (by omega)
          rwa [hcut] at hback
      · cases hs

/-- The store is the one that was given each surviving block once; so a block that is
there can be delivered again for nothing, and a rollback undoes the inserts above it. -/
theorem store_of_surviving_blocks {ops : List StoreOp} {s : StoreState}
    (hrun : exec (storeStep chainId extractor) {} ops = some s) :
    (∃ db, insertBlocks .empty chainId s.kept extractor = some db ∧
      s.db.undisputed = db.undisputed) ∧
    (∀ block ∈ s.kept, ∃ db, insertBlock s.db chainId block extractor = some db ∧
      db.undisputed = s.db.undisputed) ∧
    (∀ blocks db, ConsecutiveFrom s.kept.length blocks →
      insertBlocks s.db chainId blocks extractor = some db →
      (rollbackTo db chainId ((s.kept.length : Int) - 1)).1.undisputed = s.db.undisputed) := by
  have h0 : Surviving chainId extractor {} := ⟨rfl, blockStore_laws.holds_init⟩
  have h := exec_preserves (fun _ _ _ => surviving_step) h0 hrun
  refine ⟨h.holds, fun block hmem => h.redeliver hmem, ?_⟩
  intro blocks db hnext hinsert
  exact h.rollback_insert hnext hinsert

/-- Three blocks, one of them again, and a branch that replaces the last two. -/
def storedReorg : List StoreOp :=
  [.insert [.bare 0 "g" "", .bare 1 "a1" "g",
      { height := 2, hash := "a2", parentHash := "a1", timestamp := 7, proposer := some "carol"
        round := 1
        actions := [⟨"alice", some "tx", some (.obj [("Transfer", .obj [("to", .str "bob")])])⟩]
        effects := some
          { assetBalances := [⟨"gold", "bob", 5⟩], validatorSet := some .null
            disputedBlocks := [0] } }],
    .redeliver 2, .rollback 0, .insert [.bare 1 "b1" "g"]]

omit [Postgres] in
theorem store_of_surviving_blocks_reorg :
    ∃ s, exec (@storeStep .plain "main" (.tierAOnly .empty)) {} storedReorg = some s ∧
      ∃ db, @insertBlocks .plain .empty "main" s.kept (.tierAOnly .empty) = some db ∧
        s.db.undisputed = db.undisputed := by
  have hsome : (exec (@storeStep .plain "main" (.tierAOnly .empty)) {} storedReorg).isSome := by
    decide
  obtain ⟨s, hs⟩ := Option.isSome_iff_exists.mp hsome
  exact ⟨s, hs, (@store_of_surviving_blocks .plain _ _ _ _ hs).1⟩

end Retracer
