import Retracer.Library.Table
import Retracer.Storage.Wire
import Retracer.Tip

/-! # The database

One row type per table of the migrations, with its primary key and, where
`rollback_to` deletes by height, the column it deletes by. Foreign keys are not
part of a table: the statements keep them, and a proof that rests on one names it.

What Postgres itself decides is a parameter: the text of a non-string `jsonb`
value, `lower`, the cast of a text to `NUMERIC(39, 0)`, and the order in which a
join returns its rows.
-/

namespace Retracer

open KeyedTable

/-- Rows that carry a chain and the height they were written at. -/
class Stamped (ρ : Type) where
  chainOf : ρ → String
  heightOf : ρ → Int

/-- `chain_id = $1 AND height > $2`. -/
def above {ρ : Type} [Stamped ρ] (chainId : String) (height : Int) (r : ρ) : Bool :=
  Stamped.chainOf r = chainId ∧ height < Stamped.heightOf r

/-! ## Blocks and actions -/

structure BlocksRow where
  chainId : String
  height : Int
  hash : String
  parentHash : String
  timestamp : Int
  proposer : Option String
  round : Int
  disputed : Bool := false

instance : Keyed BlocksRow (String × Int) := ⟨fun r => (r.chainId, r.height)⟩
instance : Stamped BlocksRow := ⟨BlocksRow.chainId, BlocksRow.height⟩

structure ActionsRow where
  chainId : String
  actionHash : String
  blockHeight : Int
  indexInBlock : Nat
  kind : String
  fromAddress : String
  payload : Json

instance : Keyed ActionsRow (String × String) := ⟨fun r => (r.chainId, r.actionHash)⟩
instance : Stamped ActionsRow := ⟨ActionsRow.chainId, ActionsRow.blockHeight⟩

structure AccountActionsRow where
  chainId : String
  address : String
  blockHeight : Int
  actionHash : String

instance : Keyed AccountActionsRow (String × String × Int × String) :=
  ⟨fun r => (r.chainId, r.address, r.blockHeight, r.actionHash)⟩
instance : Stamped AccountActionsRow := ⟨AccountActionsRow.chainId, AccountActionsRow.blockHeight⟩

structure ActionAddressesRow where
  chainId : String
  actionHash : String
  address : String
  role : String
  blockHeight : Int

instance : Keyed ActionAddressesRow (String × String × String × String) :=
  ⟨fun r => (r.chainId, r.actionHash, r.address, r.role)⟩
instance : Stamped ActionAddressesRow :=
  ⟨ActionAddressesRow.chainId, ActionAddressesRow.blockHeight⟩

structure DroppedActionsRow where
  chainId : String
  blockHeight : Int
  signature : String
  sender : String
  reason : String

instance : Keyed DroppedActionsRow (String × Int × String) :=
  ⟨fun r => (r.chainId, r.blockHeight, r.signature)⟩
instance : Stamped DroppedActionsRow := ⟨DroppedActionsRow.chainId, DroppedActionsRow.blockHeight⟩

structure IngestionCursorRow where
  chainId : String
  lastHeight : Int

instance : Keyed IngestionCursorRow String := ⟨IngestionCursorRow.chainId⟩

/-! ## Projections of the actions -/

structure TokenEventsRow where
  chainId : String
  actionHash : String
  token : String
  event : String
  fromAddress : String
  toAddress : Option String
  amount : Option String
  blockHeight : Int
  blockTime : Int

instance : Keyed TokenEventsRow (String × String) := ⟨fun r => (r.chainId, r.actionHash)⟩
instance : Stamped TokenEventsRow := ⟨TokenEventsRow.chainId, TokenEventsRow.blockHeight⟩

structure AssetActionsRow where
  chainId : String
  assetRef : String
  actionHash : String
  blockHeight : Int
  indexInBlock : Nat

instance : Keyed AssetActionsRow (String × String × String) :=
  ⟨fun r => (r.chainId, r.assetRef, r.actionHash)⟩

/-! ## State by height -/

structure AccountStateRow where
  chainId : String
  address : String
  height : Int
  balance : Nat
  nonce : Int
  entry : Json

instance : Keyed AccountStateRow (String × String × Int) :=
  ⟨fun r => (r.chainId, r.address, r.height)⟩
instance : Stamped AccountStateRow := ⟨AccountStateRow.chainId, AccountStateRow.height⟩

structure AssetBalancesRow where
  chainId : String
  asset : String
  holder : String
  height : Int
  balance : Nat

instance : Keyed AssetBalancesRow (String × String × String × Int) :=
  ⟨fun r => (r.chainId, r.asset, r.holder, r.height)⟩
instance : Stamped AssetBalancesRow := ⟨AssetBalancesRow.chainId, AssetBalancesRow.height⟩

structure AssetHolderStatesRow where
  chainId : String
  asset : String
  holder : String
  height : Int
  state : Json

instance : Keyed AssetHolderStatesRow (String × String × String × Int) :=
  ⟨fun r => (r.chainId, r.asset, r.holder, r.height)⟩
instance : Stamped AssetHolderStatesRow :=
  ⟨AssetHolderStatesRow.chainId, AssetHolderStatesRow.height⟩

structure StakesRow where
  chainId : String
  master : String
  validator : String
  height : Int
  allocation : Option Json

instance : Keyed StakesRow (String × String × String × Int) :=
  ⟨fun r => (r.chainId, r.master, r.validator, r.height)⟩
instance : Stamped StakesRow := ⟨StakesRow.chainId, StakesRow.height⟩

structure ValidatorStatusRow where
  chainId : String
  address : String
  height : Int
  status : Option Json

instance : Keyed ValidatorStatusRow (String × String × Int) :=
  ⟨fun r => (r.chainId, r.address, r.height)⟩
instance : Stamped ValidatorStatusRow := ⟨ValidatorStatusRow.chainId, ValidatorStatusRow.height⟩

structure ValidatorSetsRow where
  chainId : String
  height : Int
  validators : Json

instance : Keyed ValidatorSetsRow (String × Int) := ⟨fun r => (r.chainId, r.height)⟩
instance : Stamped ValidatorSetsRow := ⟨ValidatorSetsRow.chainId, ValidatorSetsRow.height⟩

structure AssetRegistrationsRow where
  chainId : String
  height : Int
  indexInBlock : Nat
  record : Json

instance : Keyed AssetRegistrationsRow (String × Int × Nat) :=
  ⟨fun r => (r.chainId, r.height, r.indexInBlock)⟩
instance : Stamped AssetRegistrationsRow :=
  ⟨AssetRegistrationsRow.chainId, AssetRegistrationsRow.height⟩

/-! ## Validator bookkeeping -/

structure EvidenceRow where
  chainId : String
  height : Int
  proposer : String
  evidenceHeight : Int

instance : Keyed EvidenceRow (String × Int × String × Int) :=
  ⟨fun r => (r.chainId, r.height, r.proposer, r.evidenceHeight)⟩
instance : Stamped EvidenceRow := ⟨EvidenceRow.chainId, EvidenceRow.height⟩

structure BlsKeysRow where
  chainId : String
  address : String
  height : Int
  effectiveHeight : Int
  pubkey : Json

instance : Keyed BlsKeysRow (String × String × Int) := ⟨fun r => (r.chainId, r.address, r.height)⟩
instance : Stamped BlsKeysRow := ⟨BlsKeysRow.chainId, BlsKeysRow.height⟩

structure OperatorsRow where
  chainId : String
  validator : String
  height : Int
  operator : Option String

instance : Keyed OperatorsRow (String × String × Int) :=
  ⟨fun r => (r.chainId, r.validator, r.height)⟩
instance : Stamped OperatorsRow := ⟨OperatorsRow.chainId, OperatorsRow.height⟩

structure AttestorsRow where
  chainId : String
  attestor : String
  height : Int
  record : Option Json

instance : Keyed AttestorsRow (String × String × Int) :=
  ⟨fun r => (r.chainId, r.attestor, r.height)⟩
instance : Stamped AttestorsRow := ⟨AttestorsRow.chainId, AttestorsRow.height⟩

/-! ## Webhooks -/

structure WebhooksRow where
  id : Int
  chainId : String
  url : String
  secret : String
  address : Option String
  events : List String
  cursorHeight : Int
  enabled : Bool
  failingSince : Option Int
  lastError : Option String
  createdAt : Int

instance : Keyed WebhooksRow Int := ⟨WebhooksRow.id⟩

/-! ## The whole -/

structure Database where
  blocks : Table BlocksRow := .empty
  actions : Table ActionsRow := .empty
  accountActions : Table AccountActionsRow := .empty
  actionAddresses : Table ActionAddressesRow := .empty
  droppedActions : Table DroppedActionsRow := .empty
  ingestionCursor : Table IngestionCursorRow := .empty
  tokenEvents : Table TokenEventsRow := .empty
  assetActions : Table AssetActionsRow := .empty
  accountState : Table AccountStateRow := .empty
  assetBalances : Table AssetBalancesRow := .empty
  assetHolderStates : Table AssetHolderStatesRow := .empty
  stakes : Table StakesRow := .empty
  validatorStatus : Table ValidatorStatusRow := .empty
  validatorSets : Table ValidatorSetsRow := .empty
  assetRegistrations : Table AssetRegistrationsRow := .empty
  evidence : Table EvidenceRow := .empty
  blsKeys : Table BlsKeysRow := .empty
  operators : Table OperatorsRow := .empty
  attestors : Table AttestorsRow := .empty
  webhooks : Table WebhooksRow := .empty

def Database.empty : Database := {}

/-- What the database server decides and the code relies on. -/
class Postgres where
  jsonbText : Json → String
  lower : String → String
  numeric39 : String → Option String
  joinOrder : List (ActionsRow × AssetRegistrationsRow) → List (ActionsRow × AssetRegistrationsRow)
  joinOrder_perm : ∀ rows, (joinOrder rows).Perm rows

/-- A server for concrete runs: right on scalars, and joins come in row order. -/
@[reducible] def Postgres.plain : Postgres where
  jsonbText
    | .num digits => digits
    | .bool b => toString b
    | _ => ""
  lower s := s.toLower
  numeric39 s := (parseU64 s).map fun _ => s
  joinOrder rows := rows
  joinOrder_perm _ := .rfl

/-! ## Point reads -/

/-- `SELECT last_height FROM ingestion_cursor WHERE chain_id = $1`. -/
def getCursor (db : Database) (chainId : String) : Option Int :=
  (db.ingestionCursor.find? chainId).map (·.lastHeight)

/-- `SELECT hash FROM blocks WHERE chain_id = $1 AND height = $2`. -/
def getBlockHash (db : Database) (chainId : String) (height : Int) : Option String :=
  (db.blocks.find? (chainId, height)).map (·.hash)

end Retracer
