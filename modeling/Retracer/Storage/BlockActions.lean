import Retracer.Storage.AddressIndexes

/-! # The actions of a block, one by one

`BlockWrites::build` fills parallel vectors, and the statement on `actions` unpacks them
again. Here the rows that come out are those of the actions themselves, in order.
-/

namespace Retracer

open KeyedTable Traverse

/-- The row of one action. -/
def storedAction (chainId : String) (height : Int) (entry : IndexableAction × Nat) :
    Option ActionsRow :=
  entry.1.payloadJson.map fun json =>
    { chainId, actionHash := identityOrPosition height entry.2 entry.1, blockHeight := height
      indexInBlock := entry.2, kind := (splitKind json).1, fromAddress := entry.1.sender
      payload := (splitKind json).2 }

/-- The identities that the actions of a block are stored under. -/
def IndexableBlock.actionHashes (block : IndexableBlock) : List String :=
  block.actions.zipIdx.map fun entry => identityOrPosition block.height entry.2 entry.1

theorem storedAction_eq_some {chainId : String} {height : Int} {entry : IndexableAction × Nat}
    {row : ActionsRow} (h : storedAction chainId height entry = some row) :
    row.chainId = chainId ∧ row.blockHeight = height ∧ row.indexInBlock = entry.2 ∧
      row.actionHash = identityOrPosition height entry.2 entry.1 := by
  obtain ⟨json, _, rfl⟩ := Option.map_eq_some_iff.mp h
  exact ⟨rfl, rfl, rfl, rfl⟩

variable {chainId : String} {height : Int} {extractor : AddressExtractor} {w : BlockWrites}

/-- What is inserted into `actions` are the actions of the block. -/
theorem mapM_storedAction {block : IndexableBlock}
    (h : BlockWrites.build block height extractor = some w) :
    block.actions.zipIdx.mapM (storedAction chainId height) =
      some (w.actionsRows chainId height) := by
  obtain ⟨rows, hrows, rfl⟩ := BlockWrites.exists_rows_of_build height extractor h
  have hstored : storedAction chainId height = fun entry =>
      (entry.1.payloadJson.map (entry, ·)).map (SerialisedAction.actionsRow chainId height) := by
    funext entry
    rw [storedAction, Option.map_map]
    rfl
  rw [serialiseAll] at hrows
  rw [hstored, mapM_map, hrows, Option.map_some, BlockWrites.actionsRows_ofRows]

/-! ## What can be read off the rows -/

theorem stamped_actionsRows : StampedWith chainId height (w.actionsRows chainId height) :=
  stamped_map fun _ => ⟨rfl, rfl⟩

variable {block : IndexableBlock}

theorem keys_actionsRows (chainId : String)
    (h : BlockWrites.build block block.height extractor = some w) :
    (w.actionsRows chainId block.height).map key =
      block.actionHashes.map fun hash => (chainId, hash) := by
  rw [IndexableBlock.actionHashes, List.map_map]
  apply map_of_mapM (mapM_storedAction h)
  intro entry row hrow
  obtain ⟨hchain, _, _, hhash⟩ := storedAction_eq_some hrow
  simp only [key, Function.comp_apply, hchain, hhash]

theorem indexes_actionsRows (h : BlockWrites.build block block.height extractor = some w) :
    (w.actionsRows chainId block.height).map (·.indexInBlock) =
      List.range block.actions.length := by
  have hindexes : (w.actionsRows chainId block.height).map (·.indexInBlock) =
      block.actions.zipIdx.map Prod.snd :=
    map_of_mapM (mapM_storedAction h) fun entry row hrow => (storedAction_eq_some hrow).2.2.1
  rw [hindexes, List.zipIdx_map_snd, List.range_eq_range']

/-- A block none of whose identities is taken or used twice adds a row for each action. -/
theorem rows_insertMissing_actions {actions : Table ActionsRow}
    (h : BlockWrites.build block block.height extractor = some w)
    (hdistinct : block.actionHashes.Nodup)
    (hnew : ∀ hash ∈ block.actionHashes, (chainId, hash) ∉ actions.rows.map key) :
    (actions.insertMissing (w.actionsRows chainId block.height)).rows =
      actions.rows ++ w.actionsRows chainId block.height := by
  have hkeys := keys_actionsRows chainId h
  apply Table.rows_insertMissing_of_fresh
  · rw [hkeys]
    exact hdistinct.map fun _ _ heq => (Prod.mk.injEq _ _ _ _ ▸ heq).2
  · intro row hrow
    have hin : key row ∈ block.actionHashes.map fun hash => (chainId, hash) :=
      hkeys ▸ List.mem_map_of_mem hrow
    obtain ⟨hash, hhash, hkey⟩ := List.mem_map.mp hin
    rw [← hkey]
    exact hnew hash hhash

end Retracer
