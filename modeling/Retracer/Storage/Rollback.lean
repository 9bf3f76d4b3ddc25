import Retracer.Storage.Database

/-! # Un-indexing

`rollback_to` removes every row strictly above a height for one chain, lowers the
webhook cursors and sets the ingestion cursor to the height, or removes it when the
height is negative. One transaction; the count of removed blocks is returned.
-/

namespace Retracer

open KeyedTable

/-- `ON DELETE CASCADE` from `actions`: the asset rows of a deleted action go too. -/
def cascadeAssetActions (deleted : List ActionsRow) (t : Table AssetActionsRow) :
    Table AssetActionsRow :=
  t.deleteWhere fun r =>
    deleted.any fun a => a.chainId = r.chainId ∧ a.actionHash = r.actionHash

def rewindWebhooks (chainId : String) (height : Int) (t : Table WebhooksRow) :
    Table WebhooksRow :=
  t.modify
    (fun w =>
      if w.chainId = chainId ∧ height < w.cursorHeight then { w with cursorHeight := height }
      else w)
    (by intro w; split <;> rfl)

def rewindCursor (chainId : String) (height : Int) (t : Table IngestionCursorRow) :
    Table IngestionCursorRow :=
  if height < 0 then t.deleteWhere fun c => c.chainId = chainId
  else t.upsert { chainId, lastHeight := height } (fun old => { old with lastHeight := height })
    (fun _ => rfl)

def rollbackTo (db : Database) (chainId : String) (height : Int) : Database × Nat :=
  let db' : Database :=
    { actionAddresses := db.actionAddresses.deleteWhere (above chainId height)
      tokenEvents := db.tokenEvents.deleteWhere (above chainId height)
      accountActions := db.accountActions.deleteWhere (above chainId height)
      actions := db.actions.deleteWhere (above chainId height)
      assetActions := cascadeAssetActions (db.actions.rows.filter (above chainId height))
        db.assetActions
      droppedActions := db.droppedActions.deleteWhere (above chainId height)
      accountState := db.accountState.deleteWhere (above chainId height)
      assetBalances := db.assetBalances.deleteWhere (above chainId height)
      assetHolderStates := db.assetHolderStates.deleteWhere (above chainId height)
      stakes := db.stakes.deleteWhere (above chainId height)
      validatorStatus := db.validatorStatus.deleteWhere (above chainId height)
      validatorSets := db.validatorSets.deleteWhere (above chainId height)
      assetRegistrations := db.assetRegistrations.deleteWhere (above chainId height)
      evidence := db.evidence.deleteWhere (above chainId height)
      blsKeys := db.blsKeys.deleteWhere (above chainId height)
      operators := db.operators.deleteWhere (above chainId height)
      attestors := db.attestors.deleteWhere (above chainId height)
      blocks := db.blocks.deleteWhere (above chainId height)
      webhooks := rewindWebhooks chainId height db.webhooks
      ingestionCursor := rewindCursor chainId height db.ingestionCursor }
  (db', (db.blocks.rows.filter (above chainId height)).length)

/-! ## What is kept -/

section

variable {ρ σ : Type} [Stamped ρ] [Stamped σ] {chainId : String} {height : Int}

theorem above_eq_false {r : ρ} : above chainId height r = false ↔
    ¬ (Stamped.chainOf r = chainId ∧ height < Stamped.heightOf r) := by
  simp [above]

/-- Rows of one height stay or go together, whatever their tables. -/
theorem above_congr {r : ρ} {s : σ} (hchain : Stamped.chainOf s = Stamped.chainOf r)
    (hheight : Stamped.heightOf s = Stamped.heightOf r) :
    above chainId height s = above chainId height r := by
  rw [above, above, hchain, hheight]

theorem mem_deleteAbove {κ : Type} [Keyed ρ κ] {t : Table ρ} {r : ρ} :
    r ∈ (t.deleteWhere (above chainId height)).rows ↔
      r ∈ t.rows ∧ ¬ (Stamped.chainOf r = chainId ∧ height < Stamped.heightOf r) := by
  rw [Table.rows_deleteWhere, List.mem_filter, Bool.not_eq_true', above_eq_false]

theorem mem_cascadeAssetActions {deleted : List ActionsRow} {t : Table AssetActionsRow}
    {r : AssetActionsRow} :
    r ∈ (cascadeAssetActions deleted t).rows ↔
      r ∈ t.rows ∧ ∀ a ∈ deleted, ¬ (a.chainId = r.chainId ∧ a.actionHash = r.actionHash) := by
  simp [cascadeAssetActions]

end

end Retracer
