import Retracer.Storage.Rollback
import Retracer.Storage.Statements

/-! # The tables that are deleted by height

`rollback_to` treats sixteen tables alike, and so does a block: each gets rows stamped
with its height, by `ON CONFLICT DO NOTHING`. `Database.at` reads them as one family, so
that what holds of each is said once.
-/

namespace Retracer

open KeyedTable

inductive HeightTable where
  | actions
  | accountActions
  | actionAddresses
  | tokenEvents
  | droppedActions
  | accountState
  | assetBalances
  | assetHolderStates
  | stakes
  | validatorStatus
  | validatorSets
  | assetRegistrations
  | evidence
  | blsKeys
  | operators
  | attestors
deriving DecidableEq, Repr

namespace HeightTable

@[reducible] def Row : HeightTable → Type
  | actions => ActionsRow
  | accountActions => AccountActionsRow
  | actionAddresses => ActionAddressesRow
  | tokenEvents => TokenEventsRow
  | droppedActions => DroppedActionsRow
  | accountState => AccountStateRow
  | assetBalances => AssetBalancesRow
  | assetHolderStates => AssetHolderStatesRow
  | stakes => StakesRow
  | validatorStatus => ValidatorStatusRow
  | validatorSets => ValidatorSetsRow
  | assetRegistrations => AssetRegistrationsRow
  | evidence => EvidenceRow
  | blsKeys => BlsKeysRow
  | operators => OperatorsRow
  | attestors => AttestorsRow

@[reducible] def Key : HeightTable → Type
  | actions | tokenEvents => String × String
  | accountActions => String × String × Int × String
  | actionAddresses => String × String × String × String
  | droppedActions => String × Int × String
  | accountState | validatorStatus | blsKeys | operators | attestors => String × String × Int
  | assetBalances | assetHolderStates | stakes => String × String × String × Int
  | validatorSets => String × Int
  | assetRegistrations => String × Int × Nat
  | evidence => String × Int × String × Int

instance instKeyed : (k : HeightTable) → Keyed k.Row k.Key
  | actions => inferInstanceAs (Keyed ActionsRow _)
  | accountActions => inferInstanceAs (Keyed AccountActionsRow _)
  | actionAddresses => inferInstanceAs (Keyed ActionAddressesRow _)
  | tokenEvents => inferInstanceAs (Keyed TokenEventsRow _)
  | droppedActions => inferInstanceAs (Keyed DroppedActionsRow _)
  | accountState => inferInstanceAs (Keyed AccountStateRow _)
  | assetBalances => inferInstanceAs (Keyed AssetBalancesRow _)
  | assetHolderStates => inferInstanceAs (Keyed AssetHolderStatesRow _)
  | stakes => inferInstanceAs (Keyed StakesRow _)
  | validatorStatus => inferInstanceAs (Keyed ValidatorStatusRow _)
  | validatorSets => inferInstanceAs (Keyed ValidatorSetsRow _)
  | assetRegistrations => inferInstanceAs (Keyed AssetRegistrationsRow _)
  | evidence => inferInstanceAs (Keyed EvidenceRow _)
  | blsKeys => inferInstanceAs (Keyed BlsKeysRow _)
  | operators => inferInstanceAs (Keyed OperatorsRow _)
  | attestors => inferInstanceAs (Keyed AttestorsRow _)

instance instStamped : (k : HeightTable) → Stamped k.Row
  | actions => inferInstanceAs (Stamped ActionsRow)
  | accountActions => inferInstanceAs (Stamped AccountActionsRow)
  | actionAddresses => inferInstanceAs (Stamped ActionAddressesRow)
  | tokenEvents => inferInstanceAs (Stamped TokenEventsRow)
  | droppedActions => inferInstanceAs (Stamped DroppedActionsRow)
  | accountState => inferInstanceAs (Stamped AccountStateRow)
  | assetBalances => inferInstanceAs (Stamped AssetBalancesRow)
  | assetHolderStates => inferInstanceAs (Stamped AssetHolderStatesRow)
  | stakes => inferInstanceAs (Stamped StakesRow)
  | validatorStatus => inferInstanceAs (Stamped ValidatorStatusRow)
  | validatorSets => inferInstanceAs (Stamped ValidatorSetsRow)
  | assetRegistrations => inferInstanceAs (Stamped AssetRegistrationsRow)
  | evidence => inferInstanceAs (Stamped EvidenceRow)
  | blsKeys => inferInstanceAs (Stamped BlsKeysRow)
  | operators => inferInstanceAs (Stamped OperatorsRow)
  | attestors => inferInstanceAs (Stamped AttestorsRow)

instance instDecidableEqKey : (k : HeightTable) → DecidableEq k.Key
  | actions | tokenEvents => inferInstanceAs (DecidableEq (String × String))
  | accountActions => inferInstanceAs (DecidableEq (String × String × Int × String))
  | actionAddresses => inferInstanceAs (DecidableEq (String × String × String × String))
  | droppedActions => inferInstanceAs (DecidableEq (String × Int × String))
  | accountState | validatorStatus | blsKeys | operators | attestors =>
      inferInstanceAs (DecidableEq (String × String × Int))
  | assetBalances | assetHolderStates | stakes =>
      inferInstanceAs (DecidableEq (String × String × String × Int))
  | validatorSets => inferInstanceAs (DecidableEq (String × Int))
  | assetRegistrations => inferInstanceAs (DecidableEq (String × Int × Nat))
  | evidence => inferInstanceAs (DecidableEq (String × Int × String × Int))

end HeightTable

def Database.at (db : Database) : (k : HeightTable) → Table k.Row
  | .actions => db.actions
  | .accountActions => db.accountActions
  | .actionAddresses => db.actionAddresses
  | .tokenEvents => db.tokenEvents
  | .droppedActions => db.droppedActions
  | .accountState => db.accountState
  | .assetBalances => db.assetBalances
  | .assetHolderStates => db.assetHolderStates
  | .stakes => db.stakes
  | .validatorStatus => db.validatorStatus
  | .validatorSets => db.validatorSets
  | .assetRegistrations => db.assetRegistrations
  | .evidence => db.evidence
  | .blsKeys => db.blsKeys
  | .operators => db.operators
  | .attestors => db.attestors

/-- The other four tables and the family are the whole database. -/
theorem Database.ext_at {db db' : Database} (hat : ∀ k, db.at k = db'.at k)
    (hblocks : db.blocks = db'.blocks) (hcursor : db.ingestionCursor = db'.ingestionCursor)
    (hassets : db.assetActions = db'.assetActions) (hhooks : db.webhooks = db'.webhooks) :
    db = db' := by
  have hactions : db.actions = db'.actions := hat .actions
  have haccounts : db.accountActions = db'.accountActions := hat .accountActions
  have haddresses : db.actionAddresses = db'.actionAddresses := hat .actionAddresses
  have hevents : db.tokenEvents = db'.tokenEvents := hat .tokenEvents
  have hdropped : db.droppedActions = db'.droppedActions := hat .droppedActions
  have hstate : db.accountState = db'.accountState := hat .accountState
  have hbalances : db.assetBalances = db'.assetBalances := hat .assetBalances
  have hholders : db.assetHolderStates = db'.assetHolderStates := hat .assetHolderStates
  have hstakes : db.stakes = db'.stakes := hat .stakes
  have hstatus : db.validatorStatus = db'.validatorStatus := hat .validatorStatus
  have hsets : db.validatorSets = db'.validatorSets := hat .validatorSets
  have hregs : db.assetRegistrations = db'.assetRegistrations := hat .assetRegistrations
  have hevidence : db.evidence = db'.evidence := hat .evidence
  have hkeys : db.blsKeys = db'.blsKeys := hat .blsKeys
  have hoperators : db.operators = db'.operators := hat .operators
  have hattestors : db.attestors = db'.attestors := hat .attestors
  cases db
  cases db'
  simp_all only

theorem at_rollbackTo (db : Database) (chainId : String) (height : Int) (k : HeightTable) :
    (rollbackTo db chainId height).1.at k = (db.at k).deleteWhere (above chainId height) := by
  cases k <;> rfl

/-! ## The rows of a block -/

/-- What a block writes to each of them; the token events are worked out by the database. -/
def blockRows (chainId : String) (block : IndexableBlock) (writes : BlockWrites)
    (tokens : List TokenEventsRow) : (k : HeightTable) → List k.Row
  | .actions => writes.actionsRows chainId block.height
  | .accountActions => writes.accountActionsRows chainId block.height
  | .actionAddresses => writes.actionAddressesRows chainId block.height
  | .tokenEvents => tokens
  | .droppedActions => block.effects.elim [] (·.droppedActionsRows chainId block.height)
  | .accountState => block.effects.elim [] (·.accountStateRows chainId block.height)
  | .assetBalances => block.effects.elim [] (·.assetBalancesRows chainId block.height)
  | .assetHolderStates => block.effects.elim [] (·.assetHolderStatesRows chainId block.height)
  | .stakes => block.effects.elim [] (·.stakesRows chainId block.height)
  | .validatorStatus => block.effects.elim [] (·.validatorStatusRows chainId block.height)
  | .validatorSets => block.effects.elim [] (·.validatorSetsRows chainId block.height)
  | .assetRegistrations => block.effects.elim [] (·.assetRegistrationsRows chainId block.height)
  | .evidence => block.effects.elim [] (·.evidenceRows chainId block.height)
  | .blsKeys => block.effects.elim [] (·.blsKeysRows chainId block.height)
  | .operators => block.effects.elim [] (·.operatorsRows chainId block.height)
  | .attestors => block.effects.elim [] (·.attestorsRows chainId block.height)

theorem stamped_effects {ρ : Type} [Stamped ρ] {chainId : String} {height : Int}
    {effects : Option BlockEffects} {f : BlockEffects → List ρ}
    (h : ∀ e, StampedWith chainId height (f e)) :
    StampedWith chainId height (effects.elim [] f) := by
  cases effects with
  | none => exact fun r hr => nomatch hr
  | some e => exact h e

/-- Whatever a block writes carries its height. -/
theorem stamped_blockRows {chainId : String} {block : IndexableBlock} {writes : BlockWrites}
    {tokens : List TokenEventsRow} (htokens : StampedWith chainId block.height tokens)
    (k : HeightTable) :
    StampedWith chainId block.height (blockRows chainId block writes tokens k) := by
  cases k with
  | actions => exact stamped_map fun _ => ⟨rfl, rfl⟩
  | accountActions => exact stamped_map fun _ => ⟨rfl, rfl⟩
  | actionAddresses => exact stamped_map fun _ => ⟨rfl, rfl⟩
  | tokenEvents => exact htokens
  | droppedActions => exact stamped_effects fun _ => stamped_map fun _ => ⟨rfl, rfl⟩
  | accountState => exact stamped_effects fun _ => stamped_map fun _ => ⟨rfl, rfl⟩
  | assetBalances => exact stamped_effects fun _ => stamped_map fun _ => ⟨rfl, rfl⟩
  | assetHolderStates => exact stamped_effects fun _ => stamped_map fun _ => ⟨rfl, rfl⟩
  | stakes => exact stamped_effects fun _ => stamped_map fun _ => ⟨rfl, rfl⟩
  | validatorStatus => exact stamped_effects fun _ => stamped_map fun _ => ⟨rfl, rfl⟩
  | validatorSets => exact stamped_effects fun _ => stamped_map fun _ => ⟨rfl, rfl⟩
  | assetRegistrations => exact stamped_effects fun _ => stamped_assetRegistrationsRows
  | evidence => exact stamped_effects fun _ => stamped_map fun _ => ⟨rfl, rfl⟩
  | blsKeys => exact stamped_effects fun _ => stamped_map fun _ => ⟨rfl, rfl⟩
  | operators => exact stamped_effects fun _ => stamped_map fun _ => ⟨rfl, rfl⟩
  | attestors =>
      exact stamped_effects fun _ =>
        StampedWith.append (stamped_map fun _ => ⟨rfl, rfl⟩) (stamped_map fun _ => ⟨rfl, rfl⟩)

end Retracer
