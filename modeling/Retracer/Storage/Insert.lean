import Mathlib.Data.List.Dedup
import Retracer.Storage.Database

/-! # Writing blocks

`insert_blocks` is one transaction: `none` is an error anywhere in it, after which
nothing of the batch is stored. A multi-row statement is skipped in the source
when it would have no rows; inserting no rows leaves a table as it is, so the
guards are not repeated here.

Two things that the database does not take are stored here. A height is the
natural number it is, where `insert_block_in_tx` binds `block.height() as i64`: a
result about any blocks is about heights below 2^63, which are all that the reader
sends. And PostgreSQL refuses U+0000 in TEXT and JSONB: an insert that succeeds
here would fail there, and store nothing, where a text of its blocks has one.
-/

namespace Retracer

open KeyedTable

/-! ## Column vectors -/

/-- One block's rows as the vectors bound to `UNNEST`. -/
structure BlockWrites where
  actionHash : List String := []
  indexInBlock : List Nat := []
  kind : List String := []
  fromAddress : List String := []
  payload : List Json := []
  addrActionHash : List String := []
  addrAddress : List String := []
  addrRole : List String := []

/-- The loop body: the action's address pairs, then its own columns. An index beyond
`i32` is an error. -/
def BlockWrites.push (height : Int) (extractor : AddressExtractor) (w : BlockWrites)
    (entry : IndexableAction × Nat) : Option BlockWrites := do
  let (action, index) := entry
  let hash := identityOrPosition height index action
  let (kind, payload) := splitKind (← action.payloadJson)
  let pairs := extractor.resolve kind payload
  if 2 ^ 31 ≤ index then none
  else
    some
      { actionHash := w.actionHash ++ [hash]
        indexInBlock := w.indexInBlock ++ [index]
        kind := w.kind ++ [kind]
        fromAddress := w.fromAddress ++ [action.sender]
        payload := w.payload ++ [payload]
        addrActionHash := w.addrActionHash ++ pairs.map fun _ => hash
        addrAddress := w.addrAddress ++ pairs.map (·.1)
        addrRole := w.addrRole ++ pairs.map (·.2.asStr) }

def BlockWrites.build (block : IndexableBlock) (height : Int) (extractor : AddressExtractor) :
    Option BlockWrites :=
  block.actions.zipIdx.foldlM (BlockWrites.push height extractor) {}

namespace BlockWrites

def actionsRows (w : BlockWrites) (chainId : String) (height : Int) : List ActionsRow :=
  (w.actionHash.zip (w.indexInBlock.zip (w.kind.zip (w.fromAddress.zip w.payload)))).map
    fun (hash, index, kind, sender, payload) =>
      { chainId, actionHash := hash, blockHeight := height, indexInBlock := index, kind,
        fromAddress := sender, payload }

def accountActionsRows (w : BlockWrites) (chainId : String) (height : Int) :
    List AccountActionsRow :=
  (w.fromAddress.zip w.actionHash).map fun (address, hash) =>
    { chainId, address, blockHeight := height, actionHash := hash }

def actionAddressesRows (w : BlockWrites) (chainId : String) (height : Int) :
    List ActionAddressesRow :=
  (w.addrActionHash.zip (w.addrAddress.zip w.addrRole)).map fun (hash, address, role) =>
    { chainId, actionHash := hash, address, role, blockHeight := height }

end BlockWrites

/-! ## Actions and their asset references -/

def isBech32Char (c : Char) : Bool :=
  c == '0' || ('2' ≤ c && c ≤ '9') || c == 'a' || ('c' ≤ c && c ≤ 'h') ||
    ('j' ≤ c && c ≤ 'n') || ('p' ≤ c && c ≤ 'z')

/-- `~ '^arxasset1[02-9ac-hj-np-z]{58}$'`. -/
def isAssetRef (s : String) : Bool :=
  s.toList.take 9 == "arxasset1".toList && (s.toList.drop 9).length == 58 &&
    (s.toList.drop 9).all isBech32Char

def assetRefs (payload : Json) : List String :=
  ((payload.valuesAt "asset" ++ payload.valuesAt "payout_asset" ++
    payload.valuesAt "token").filterMap Json.asStr).dedup.filter isAssetRef

/-- The rows `project_asset_action` adds for one inserted action. -/
def projectAssetAction (a : ActionsRow) : List AssetActionsRow :=
  (assetRefs a.payload).map fun ref =>
    { chainId := a.chainId, assetRef := ref, actionHash := a.actionHash,
      blockHeight := a.blockHeight, indexInBlock := a.indexInBlock }

/-- The trigger fires for the rows the statement inserted, not for skipped ones. -/
def insertActions (db : Database) (rows : List ActionsRow) : Database :=
  { db with
    actions := db.actions.insertMissing rows
    assetActions :=
      db.assetActions.insertMissing ((db.actions.inserted rows).flatMap projectAssetAction) }

/-! ## Rows of an effects record -/

namespace BlockEffects

variable (effects : BlockEffects) (chainId : String) (height : Int)

def accountStateRows : List AccountStateRow :=
  effects.accounts.map fun (address, e) =>
    { chainId, address, height, balance := e.balance, nonce := asI64 e.nonce,
      entry := .obj e.entry }

def assetBalancesRows : List AssetBalancesRow :=
  effects.assetBalances.map fun e =>
    { chainId, asset := e.asset, holder := e.owner, height, balance := e.balance }

def assetHolderStatesRows : List AssetHolderStatesRow :=
  effects.holderStates.map fun e =>
    { chainId, asset := e.asset, holder := e.holder, height, state := e.state }

def stakesRows : List StakesRow :=
  effects.stakes.map fun e =>
    { chainId, master := e.master, validator := e.validator, height, allocation := e.allocation }

def validatorStatusRows : List ValidatorStatusRow :=
  effects.validatorStatuses.map fun (address, status) => { chainId, address, height, status }

def validatorSetsRows : List ValidatorSetsRow :=
  effects.validatorSet.toList.map fun validators => { chainId, height, validators }

/-- `index_in_block` is an `i32` range over the records; past `i32::MAX` records the
range is short, `UNNEST` pads it with NULL and the statement fails. -/
def assetRegistrationsRows : List AssetRegistrationsRow :=
  effects.assetRegistrations.zipIdx.map fun (record, index) =>
    { chainId, height, indexInBlock := index, record }

def evidenceRows : List EvidenceRow :=
  effects.evidence.map fun e =>
    { chainId, height, proposer := e.proposer, evidenceHeight := asI64 e.height }

def blsKeysRows : List BlsKeysRow :=
  effects.blsKeys.map fun k =>
    { chainId, address := k.address, height, effectiveHeight := asI64 k.effectiveHeight,
      pubkey := k.pubkey }

def operatorsRows : List OperatorsRow :=
  effects.operatorAuthorization.map fun (validator, operator) =>
    { chainId, validator, height, operator }

/-- Registrations first, then deregistrations as NULL records. -/
def attestorsRows : List AttestorsRow :=
  effects.attestorRegistrations.map (fun r =>
      { chainId, attestor := r.attestor, height, record := some r.record }) ++
    effects.attestorDeregistrations.map fun attestor =>
      { chainId, attestor, height, record := none }

def droppedActionsRows : List DroppedActionsRow :=
  effects.dropped.map fun d =>
    { chainId, blockHeight := height, signature := d.signature, sender := d.sender,
      reason := d.reason }

end BlockEffects

/-! ## Token events -/

section

variable [Postgres]

/-- `value ->> name`: SQL NULL for a missing member and for a JSON null. -/
def Json.getText (value : Json) (name : String) : Option String :=
  match value.get? name with
  | none => none
  | some .null => none
  | some (.str s) => some s
  | some other => some (Postgres.jsonbText other)

/-- `(value ->> name)::numeric`: the outer `none` is a failed cast, the inner one NULL. -/
def Json.getNumeric (value : Json) (name : String) : Option (Option String) :=
  match value.getText name with
  | none => some none
  | some text => (Postgres.numeric39 text).map some

/-- The events of one stored action, one per member of its payload that names a token. -/
def tokenEventsRows (blockTime : Int) (a : ActionsRow) : Option (List TokenEventsRow) :=
  (a.payload.each.filterMap fun (event, body) =>
      (body.getText "token").map fun token => (event, body, token)).mapM
    fun (event, body, token) => do
      let amount ← body.getNumeric "amount"
      some
        { chainId := a.chainId, actionHash := a.actionHash, token
          event := Postgres.lower event, fromAddress := a.fromAddress
          toAddress := body.getText "to", amount, blockHeight := a.blockHeight, blockTime }

/-- Reads back the `actions` rows of the height, whoever wrote them. -/
def tokenActions (db : Database) (chainId : String) (height : Int) : List ActionsRow :=
  db.actions.rows.filter fun a =>
    a.chainId = chainId ∧ a.blockHeight = height ∧ a.kind = "Token"

/-- The events of the actions of the height. -/
def tokenEventRows (db : Database) (chainId : String) (height blockTime : Int) :
    Option (List TokenEventsRow) :=
  ((tokenActions db chainId height).mapM (tokenEventsRows blockTime)).map List.flatten

/-- Skipped for a block without actions, even if the height has some. -/
def insertTokenEvents (writes : BlockWrites) (db : Database) (chainId : String)
    (height blockTime : Int) : Option Database :=
  if writes.actionHash.isEmpty then some db
  else
    (tokenEventRows db chainId height blockTime).map fun rows =>
      { db with tokenEvents := db.tokenEvents.insertMissing rows }

/-- The join of `project_token_creations`: a `Create` action and a registration of
the same height by the same issuer under the same symbol. -/
def createdBy (a : ActionsRow) (r : AssetRegistrationsRow) : Bool :=
  match a.payload.get? "Create" with
  | some create =>
      create.isObject && r.chainId == a.chainId && r.height == a.blockHeight &&
        r.record.getText "issuer" == some a.fromAddress &&
        ((create.getText "symbol").map Postgres.lower).any
          (fun symbol => r.record.getText "asset_id" == some symbol) &&
        (r.record.getText "asset_ref").isSome
  | none => false

def creationRow (blockTime : Int) (a : ActionsRow) (r : AssetRegistrationsRow) :
    Option TokenEventsRow := do
  let create ← a.payload.get? "Create"
  let token ← r.record.getText "asset_ref"
  let amount ← create.getNumeric "initial_supply"
  some
    { chainId := a.chainId, actionHash := a.actionHash, token, event := "create"
      fromAddress := a.fromAddress, toAddress := some a.fromAddress, amount
      blockHeight := a.blockHeight, blockTime }

def creationPairs (db : Database) (chainId : String) (height : Int) :
    List (ActionsRow × AssetRegistrationsRow) :=
  Postgres.joinOrder <|
    (tokenActions db chainId height).flatMap fun a =>
      (db.assetRegistrations.rows.filter (createdBy a)).map fun r => (a, r)

/-- Without the block row the join is empty. -/
def projectTokenCreations (db : Database) (chainId : String) (height : Int) : Option Database :=
  match db.blocks.find? (chainId, height) with
  | none => some db
  | some block =>
      ((creationPairs db chainId height).mapM fun (a, r) =>
        creationRow block.timestamp a r).map fun rows =>
          { db with tokenEvents := db.tokenEvents.insertMissing rows }

/-! ## Effects -/

/-- The row trigger runs once per inserted registration, after all of them are in. -/
def insertAssetRegistrations (db : Database) (chainId : String) (height : Int)
    (effects : BlockEffects) : Option Database :=
  let rows := effects.assetRegistrationsRows chainId height
  if 2 ^ 31 ≤ effects.assetRegistrations.length then none
  else
    (db.assetRegistrations.inserted rows).foldlM
      (fun db r => projectTokenCreations db r.chainId r.height)
      { db with assetRegistrations := db.assetRegistrations.insertMissing rows }

/-- The statements before the registrations. -/
def insertStateRows (db : Database) (chainId : String) (height : Int)
    (effects : BlockEffects) : Database :=
  { db with
    accountState := db.accountState.insertMissing (effects.accountStateRows chainId height)
    assetBalances := db.assetBalances.insertMissing (effects.assetBalancesRows chainId height)
    assetHolderStates :=
      db.assetHolderStates.insertMissing (effects.assetHolderStatesRows chainId height)
    stakes := db.stakes.insertMissing (effects.stakesRows chainId height)
    validatorStatus :=
      db.validatorStatus.insertMissing (effects.validatorStatusRows chainId height)
    validatorSets := db.validatorSets.insertMissing (effects.validatorSetsRows chainId height) }

def disputeRow (chainId : String) (heights : List Nat) (b : BlocksRow) : BlocksRow :=
  if b.chainId = chainId ∧ b.height ∈ heights.map asI64 then { b with disputed := true } else b

omit [Postgres] in
theorem key_disputeRow (chainId : String) (heights : List Nat) (b : BlocksRow) :
    key (disputeRow chainId heights b) = key b := by
  unfold disputeRow
  split <;> rfl

/-- The statements after the registrations. -/
def insertValidatorRows (db : Database) (chainId : String) (height : Int)
    (effects : BlockEffects) : Database :=
  { db with
    evidence := db.evidence.insertMissing (effects.evidenceRows chainId height)
    blocks := db.blocks.modify (disputeRow chainId effects.disputedBlocks)
      (key_disputeRow chainId effects.disputedBlocks)
    blsKeys := db.blsKeys.insertMissing (effects.blsKeysRows chainId height)
    operators := db.operators.insertMissing (effects.operatorsRows chainId height)
    attestors := db.attestors.insertMissing (effects.attestorsRows chainId height)
    droppedActions := db.droppedActions.insertMissing (effects.droppedActionsRows chainId height) }

/-- A block without an effects record writes none of these tables. -/
def insertEffectsInTx (db : Database) (chainId : String) (height : Int) :
    Option BlockEffects → Option Database
  | none => some db
  | some effects =>
      (insertAssetRegistrations (insertStateRows db chainId height effects) chainId height
        effects).map fun db => insertValidatorRows db chainId height effects

/-! ## Blocks -/

def blocksRow (chainId : String) (block : IndexableBlock) : BlocksRow :=
  { chainId, height := block.height, hash := block.hash, parentHash := block.parentHash
    timestamp := asI64 block.timestamp, proposer := block.proposer, round := block.round }

/-- A taken height is left alone. A free height with a hash stored elsewhere on the
chain breaks the unique index and fails the statement. -/
def insertBlocksRow (db : Database) (row : BlocksRow) : Option Database :=
  if (db.blocks.find? (key row)).isSome then some db
  else if db.blocks.rows.any fun b => b.chainId = row.chainId ∧ b.hash = row.hash then none
  else some { db with blocks := db.blocks.insertRow row }

/-- `DO UPDATE ... WHERE last_height < EXCLUDED.last_height`. -/
def raiseTo (height : Int) (old : IngestionCursorRow) : IngestionCursorRow :=
  if old.lastHeight < height then { old with lastHeight := height } else old

omit [Postgres] in
theorem key_raiseTo (height : Int) (old : IngestionCursorRow) :
    key (raiseTo height old) = key old := by
  unfold raiseTo
  split <;> rfl

/-- The cursor only moves up here. -/
def advanceCursor (db : Database) (chainId : String) (height : Int) : Database :=
  { db with
    ingestionCursor := db.ingestionCursor.upsert { chainId, lastHeight := height }
      (raiseTo height) (key_raiseTo height) }

/-- The statements on `actions` and `account_actions`. -/
def insertActionRows (writes : BlockWrites) (db : Database) (chainId : String) (height : Int) :
    Database :=
  let db := insertActions db (writes.actionsRows chainId height)
  { db with
    accountActions := db.accountActions.insertMissing (writes.accountActionsRows chainId height) }

def insertActionAddresses (writes : BlockWrites) (db : Database) (chainId : String)
    (height : Int) : Database :=
  { db with
    actionAddresses :=
      db.actionAddresses.insertMissing (writes.actionAddressesRows chainId height) }

def insertBlockInTx (chainId : String) (extractor : AddressExtractor) (db : Database)
    (block : IndexableBlock) : Option Database := do
  let height : Int := block.height
  let db ← insertBlocksRow db (blocksRow chainId block)
  let writes ← BlockWrites.build block height extractor
  let db := insertActionRows writes db chainId height
  let db ← insertTokenEvents writes db chainId height (asI64 block.timestamp)
  let db := insertActionAddresses writes db chainId height
  let db ← insertEffectsInTx db chainId height block.effects
  some (advanceCursor db chainId height)

def insertBlocks (db : Database) (chainId : String) (blocks : List IndexableBlock)
    (extractor : AddressExtractor) : Option Database :=
  blocks.foldlM (insertBlockInTx chainId extractor) db

def insertBlock (db : Database) (chainId : String) (block : IndexableBlock)
    (extractor : AddressExtractor) : Option Database :=
  insertBlocks db chainId [block] extractor

end

/-! ## The broadcast row -/

/-- `none` when a payload does not serialise; such a block is then not broadcast. -/
def blockRowFromWire (block : IndexableBlock) : Option BlockRow := do
  let height : Int := block.height
  let actions ← block.actions.zipIdx.mapM fun (action, index) => do
    let (kind, payload) := splitKind (← action.payloadJson)
    some
      { actionHash := identityOrPosition height index action, blockHeight := height
        indexInBlock := index, kind, fromAddress := action.sender, payload
        blockTimestamp := asI64 block.timestamp : ActionRow }
  let dropped := block.effects.elim [] fun effects => effects.dropped.map fun d =>
    { blockHeight := height, signature := d.signature, sender := d.sender,
      reason := d.reason : DroppedRow }
  some
    { height, hash := block.hash, parentHash := block.parentHash
      timestamp := asI64 block.timestamp, proposer := block.proposer
      undecodedActionCount := countUndecoded actions, actions, dropped
      settlement := none, disputed := false }

end Retracer
