import Retracer.Storage.AddressIndexes

/-! # Rows lie at stored blocks

The migrations give `actions` a foreign key to `blocks` and the other tables that are
deleted by height none. All the same none of them ever has a row at a height without a block:
every block puts its row into `blocks` before it writes the rest, and a rollback takes both.
-/

namespace Retracer

open KeyedTable Execution

/-- Every row of the tables that are deleted by height is at a height with a block. -/
def Anchored (db : Database) : Prop :=
  ∀ k, ∀ r ∈ (db.at k).rows,
    (db.blocks.find? (Stamped.chainOf r, Stamped.heightOf r)).isSome

/-- The foreign key of `actions`. -/
def ActionsHaveBlocks (db : Database) : Prop :=
  ∀ a ∈ db.actions.rows, (db.blocks.find? (a.chainId, a.blockHeight)).isSome

theorem Anchored.actionsHaveBlocks {db : Database} (h : Anchored db) : ActionsHaveBlocks db :=
  h .actions

theorem isSome_find_undisputed (db : Database) (k : String × Int) :
    (db.undisputedBlocks.find? k).isSome = (db.blocks.find? k).isSome := by
  rw [Database.undisputedBlocks, Table.find?_modify, Option.isSome_map]

theorem anchored_empty : Anchored .empty := by
  intro k r hr
  cases k <;> cases hr

/-- A rollback keeps the block of every row it keeps. -/
theorem find_rollbackTo {ρ : Type} [Stamped ρ] (db : Database) {chainId : String} {height : Int}
    {r : ρ} (hkept : above chainId height r = false) :
    (rollbackTo db chainId height).1.undisputedBlocks.find?
        (Stamped.chainOf r, Stamped.heightOf r) =
      db.undisputedBlocks.find? (Stamped.chainOf r, Stamped.heightOf r) := by
  rw [undisputedBlocks_rollbackTo, Table.find?_deleteWhere]
  cases hb : db.undisputedBlocks.find? (Stamped.chainOf r, Stamped.heightOf r) with
  | none => rfl
  | some b =>
      obtain ⟨_, hkey⟩ := Table.find?_eq_some_iff.mp hb
      simp only [key, Prod.mk.injEq] at hkey
      have hchain : Stamped.chainOf b = Stamped.chainOf r := hkey.1
      have hheight : Stamped.heightOf b = Stamped.heightOf r := hkey.2
      rw [Option.filter_some, above_congr hchain hheight, hkept]
      rfl

theorem Anchored.rollbackTo {db : Database} (h : Anchored db) (chainId : String)
    (height : Int) : Anchored (rollbackTo db chainId height).1 := by
  intro k r hr
  rw [at_rollbackTo, Table.rows_deleteWhere, List.mem_filter] at hr
  rw [← isSome_find_undisputed, find_rollbackTo db (by simpa using hr.2), isSome_find_undisputed]
  exact h k r hr.1

variable [Postgres] {chainId : String} {extractor : AddressExtractor} {db db' : Database}

theorem Anchored.written {block : IndexableBlock} {writes : BlockWrites}
    {tokens : List TokenEventsRow} (h : Anchored db)
    (hw : Written chainId extractor block writes tokens db db') : Anchored db' := by
  intro k r hr
  rw [← isSome_find_undisputed, hw.blocks, Table.find?_insertMissing, Option.isSome_or,
    isSome_find_undisputed]
  rw [hw.rows k] at hr
  rcases Table.mem_of_mem_insertMissing hr with hold | hnew
  · rw [h k r hold, Bool.true_or]
  · obtain ⟨hchain, hheight⟩ := stamped_blockRows hw.stamped k r hnew
    simp [hchain, hheight, blocksRow, key]

theorem Anchored.insertBlocks {blocks : List IndexableBlock} (h : Anchored db)
    (hdb : insertBlocks db chainId blocks extractor = some db') : Anchored db' := by
  induction blocks generalizing db with
  | nil =>
      cases hdb
      exact h
  | cons block blocks ih =>
      rw [insertBlocks_cons, Option.bind_eq_some_iff] at hdb
      obtain ⟨mid, hmid, hrest⟩ := hdb
      obtain ⟨writes, tokens, hw⟩ := written_of_insert hmid
      exact ih (h.written hw) hrest

theorem anchored_reachable {extractors : String → AddressExtractor} {ops : List WriteOp}
    (hrun : exec (writeStep extractors) .empty ops = some db) : Anchored db := by
  apply exec_preserves ?_ anchored_empty hrun
  intro db op db' h hs
  cases op with
  | insert chainId blocks => exact h.insertBlocks hs
  | rollback chainId height =>
      cases hs
      exact h.rollbackTo chainId height

omit [Postgres] in
/-- A free height has no rows. -/
theorem Anchored.ne_free (h : Anchored db) {height : Int}
    (hfree : db.blocks.find? (chainId, height) = none) {k : HeightTable} {r : k.Row}
    (hr : r ∈ (db.at k).rows) (hchain : Stamped.chainOf r = chainId) :
    Stamped.heightOf r ≠ height := by
  intro hheight
  have hsome := h k r hr
  rw [hchain, hheight, hfree] at hsome
  cases hsome

end Retracer
