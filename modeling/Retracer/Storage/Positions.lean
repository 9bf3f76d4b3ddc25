import Retracer.Storage.Anchored
import Retracer.Storage.BlockActions
import Retracer.Storage.History
import Retracer.Storage.Maintained

/-! # Positions

Where the blocks of a chain come one after the other, no two of its actions have one position.
And the index of the asset references has the rows of the stored actions and no others, each
at the position of its action, whatever blocks came.
-/

namespace Retracer

open KeyedTable Execution

/-- What the server keeps of any blocks: the rows lie at stored blocks, and the references are
those of the actions. -/
structure Referenced (db : Database) : Prop where
  anchored : Anchored db
  assets : ∀ r, r ∈ db.assetActions.rows ↔ IsAssetAction db r

structure Placed (next : String → Nat) (db : Database) : Prop where
  referenced : Referenced db
  below : ∀ a ∈ db.actions.rows, a.blockHeight < next a.chainId
  unique : PositionsUnique db

section

variable {next : String → Nat} {db db' : Database} {chainId : String}
  {extractor : AddressExtractor}

theorem referenced_empty : Referenced .empty := by
  refine ⟨anchored_empty, fun r => iff_of_false (fun hr => nomatch hr) ?_⟩
  rintro ⟨a, ha, _⟩
  cases ha

theorem Referenced.rollbackTo (h : Referenced db) (height : Int) :
    Referenced (rollbackTo db chainId height).1 :=
  ⟨h.anchored.rollbackTo chainId height, assets_rollbackTo h.assets height⟩

theorem PositionsUnique.rollbackTo (h : PositionsUnique db) (height : Int) :
    PositionsUnique (rollbackTo db chainId height).1 := by
  intro a ha b hb
  exact h a (mem_deleteAbove.mp ha).1 b (mem_deleteAbove.mp hb).1

variable [Postgres]

theorem Referenced.insertBlockInTx {block : IndexableBlock} (h : Referenced db)
    (hdb : insertBlockInTx chainId extractor db block = some db') : Referenced db' := by
  obtain ⟨writes, tokens, hwritten⟩ := written_of_insert hdb
  exact ⟨h.anchored.written hwritten,
    assets_of_inserted (hwritten.rows .actions) hwritten.assets h.assets⟩

theorem Referenced.insertBlocks {blocks : List IndexableBlock} (h : Referenced db)
    (hdb : insertBlocks db chainId blocks extractor = some db') : Referenced db' := by
  induction blocks generalizing db with
  | nil =>
      cases hdb
      exact h
  | cons block blocks ih =>
      rw [insertBlocks_cons, Option.bind_eq_some_iff] at hdb
      obtain ⟨mid, hmid, hrest⟩ := hdb
      exact ih (h.insertBlockInTx hmid) hrest

omit [Postgres] in
/-- The actions of one block are told apart by their index. -/
theorem eq_of_index_batchActions {block : IndexableBlock} {a b : ActionsRow}
    (ha : a ∈ batchActions chainId extractor [block])
    (hb : b ∈ batchActions chainId extractor [block])
    (hindex : a.indexInBlock = b.indexInBlock) : a = b := by
  rw [batchActions, List.flatMap_singleton] at ha hb
  cases hbuild : BlockWrites.build block block.height extractor with
  | none =>
      rw [hbuild] at ha
      cases ha
  | some w =>
      rw [hbuild, Option.elim_some] at ha hb
      have hnodup : ((w.actionsRows chainId block.height).map (·.indexInBlock)).Nodup := by
        rw [indexes_actionsRows hbuild]
        exact List.nodup_range
      exact List.inj_on_of_nodup_map hnodup ha hb hindex

theorem PositionsUnique.insertBlockInTx {block : IndexableBlock} (h : PositionsUnique db)
    (hbelow : ∀ a ∈ db.actions.rows, a.chainId = chainId → a.blockHeight < block.height)
    (hdb : insertBlockInTx chainId extractor db block = some db') : PositionsUnique db' := by
  have hadds := addsRows_of_insert hdb
  intro a ha b hb hchain hheight hindex
  have hapart : ∀ x ∈ db.actions.rows, ∀ y ∈ batchActions chainId extractor [block],
      x.chainId = y.chainId → x.blockHeight ≠ y.blockHeight := by
    intro x hx y hy hsame
    obtain ⟨hychain, hyheight⟩ := hadds.stamped y hy
    have hlt := hbelow x hx (hsame.trans hychain)
    omega
  rcases (hadds.actions a).mp ha with holdA | hnewA
  · rcases (hadds.actions b).mp hb with holdB | hnewB
    · exact h a holdA b holdB hchain hheight hindex
    · exact absurd hheight (hapart a holdA b (Table.mem_inserted hnewB).1 hchain)
  · have hinA := (Table.mem_inserted hnewA).1
    rcases (hadds.actions b).mp hb with holdB | hnewB
    · exact absurd hheight.symm (hapart b holdB a hinA hchain.symm)
    · rw [eq_of_index_batchActions hinA (Table.mem_inserted hnewB).1 hindex]

theorem Placed.insertBlockInTx {block : IndexableBlock} (h : Placed next db)
    (hdb : insertBlockInTx chainId extractor db block = some db')
    (hheight : block.height = next chainId) :
    Placed (Function.update next chainId (next chainId + 1)) db' := by
  have hadds := addsRows_of_insert hdb
  refine ⟨h.referenced.insertBlockInTx hdb, ?_, h.unique.insertBlockInTx ?_ hdb⟩
  · intro a ha
    apply lt_next_insert
    rw [← hheight]
    refine ((hadds.actions a).mp ha).imp (h.below a) fun hin => ?_
    exact hadds.stamped a (Table.mem_inserted hin).1
  · intro a ha hchain
    have hlt := h.below a ha
    rw [hchain] at hlt
    omega

omit [Postgres] in
theorem Placed.rollbackTo (h : Placed next db) (height : Int) :
    Placed (Function.update next chainId (min (next chainId) (height + 1).toNat))
      (rollbackTo db chainId height).1 := by
  refine ⟨h.referenced.rollbackTo height, ?_, h.unique.rollbackTo height⟩
  intro a ha
  have hkept := mem_deleteAbove.mp ha
  exact lt_next_rollbackTo (h.below a hkept.1) hkept.2

theorem placed_run {extractors : String → AddressExtractor} {ops : List WriteOp}
    {s : ChainsState} (hrun : exec (consecutiveStep extractors) {} ops = some s) :
    Placed s.next s.db := by
  have hkept : KeptByConsecutive extractors (fun _ _ => True) Placed :=
    { empty := ⟨referenced_empty, (fun _ ha => nomatch ha), fun _ ha => nomatch ha⟩
      block := fun _ _ _ _ _ h hdb hheight _ => h.insertBlockInTx hdb hheight
      rollback := fun _ _ _ height h => h.rollbackTo height }
  exact hkept.run (fun _ _ _ _ _ => trivial) hrun

end

end Retracer
