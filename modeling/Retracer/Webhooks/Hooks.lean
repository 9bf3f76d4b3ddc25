import Retracer.Storage.Snapshots

/-! # Webhooks

A hook keeps the height it was delivered up to in its row. Registering writes the row,
the dispatcher moves the cursor forward block by block, a rollback moves it back.
-/

namespace Retracer

open KeyedTable Sorting

/-! ## Registration -/

inductive ApiError where
  | badRequest (message : String)
  | forbidden (message : String)
deriving DecidableEq

structure RegisterWebhook where
  url : String
  secret : String
  address : Option String := none
  events : Option (List String) := none
  fromHeight : Option Nat := none

structure HookConfig where
  chainId : String
  extractor : AddressExtractor
  /-- `BLOCK_PAGE`. -/
  pageSize : Nat
  writable : Bool
  addressValidator : Option (String → Bool)
  /-- `Url::parse`: the scheme and the text of the parsed URL. -/
  parseUrl : String → Except String (String × String)

def eventAction : String := "action"

def eventDropped : String := "dropped"

def requireWritable (c : HookConfig) : Except ApiError Unit :=
  if c.writable then .ok ()
  else
    .error (.forbidden
      "webhooks need --auth-token: an open API must not be made to POST anywhere")

/-- What `upsert_webhook` is called with, but for the cursor. -/
structure HookRequest where
  url : String
  secret : String
  address : Option String
  events : List String
  fromHeight : Option Nat

/-- The part of `register` before it reads the tip. -/
def RegisterWebhook.check (c : HookConfig) (body : RegisterWebhook) :
    Except ApiError HookRequest := do
  requireWritable c
  let (scheme, url) ← (c.parseUrl body.url).mapError fun e => .badRequest ("url: " ++ e)
  if ¬ (scheme = "http" ∨ scheme = "https") then
    .error (.badRequest "url must be http or https")
  else if body.secret.utf8ByteSize < 16 then
    .error (.badRequest "secret must be at least 16 characters")
  else if (body.address.any fun address => c.addressValidator.any fun valid => !valid address) then
    .error (.badRequest "not a valid address for this chain")
  else
    let events := body.events.getD [eventAction, eventDropped]
    if events.isEmpty || events.any fun e => e ≠ eventAction ∧ e ≠ eventDropped then
      .error (.badRequest "events must be a non-empty subset of [\"action\", \"dropped\"]")
    else
      .ok { url, secret := body.secret, address := body.address, events
            fromHeight := body.fromHeight }

/-- Where delivery starts. `i64::try_from` fails from `2 ^ 63` on. -/
def registerCursor (tip : Int) (fromHeight : Option Nat) : Except ApiError Int :=
  match fromHeight with
  | some f =>
      if f < 2 ^ 63 ∧ (f : Int) ≤ tip + 1 then .ok (f - 1)
      else
        .error (.badRequest
          ("from_height must be at most " ++ toString (tip + 1) ++ ", the next block"))
  | none => .ok tip

/-! ## The statements -/

/-- The row as `upsert_webhook` rewrites it. -/
def HookRequest.rearm (r : HookRequest) (cursorHeight : Int) (w : WebhooksRow) : WebhooksRow :=
  { w with
    secret := r.secret
    address := r.address
    events := r.events
    cursorHeight
    enabled := true
    failingSince := none
    lastError := none }

/-- The row as it writes a new one. -/
def HookRequest.row (r : HookRequest) (chainId : String) (cursorHeight id createdAt : Int) :
    WebhooksRow :=
  { id, chainId, url := r.url, secret := r.secret, address := r.address, events := r.events
    cursorHeight, enabled := true, failingSince := none, lastError := none, createdAt }

/-- Only one row has this chain and this URL. The next value of the sequence is in no row. -/
def upsertWebhook (db : Database) (chainId : String) (r : HookRequest)
    (cursorHeight nextId now : Int) : Database × WebhooksRow :=
  match db.webhooks.rows.find? fun w => w.chainId = chainId ∧ w.url = r.url with
  | some old =>
      ({ db with
         webhooks := db.webhooks.modify
           (fun w => if w.id = old.id then r.rearm cursorHeight w else w)
           (by intro w; split <;> rfl) },
        r.rearm cursorHeight old)
  | none =>
      let row := r.row chainId cursorHeight nextId now
      ({ db with webhooks := db.webhooks.insertRow row }, row)

def listWebhooks (db : Database) (chainId : String) : List WebhooksRow :=
  (db.webhooks.rows.filter fun w => w.chainId = chainId).insertionSort
    (oldestFirst WebhooksRow.id)

def deleteWebhook (db : Database) (chainId : String) (id : Int) : Database × Bool :=
  ({ db with webhooks := db.webhooks.deleteWhere fun w => w.chainId = chainId ∧ w.id = id },
    db.webhooks.rows.any fun w => w.chainId = chainId ∧ w.id = id)

/-- `SELECT 1 FROM blocks WHERE chain_id = $1 AND height = $2 AND hash = $3`. -/
def blockIsStored (db : Database) (chainId : String) (height : Int) (hash : String) : Bool :=
  db.blocks.rows.any fun b => b.chainId = chainId ∧ b.height = height ∧ b.hash = hash

def webhookDelivered (db : Database) (id height : Int) (hash : String) : Database × Bool :=
  ({ db with
     webhooks := db.webhooks.modify
       (fun w =>
         if w.id = id ∧ blockIsStored db w.chainId height hash then
           { w with cursorHeight := height, failingSince := none, lastError := none }
         else w)
       (by intro w; split <;> rfl) },
    db.webhooks.rows.any fun w => w.id = id ∧ blockIsStored db w.chainId height hash)

def webhookFailed (db : Database) (id : Int) (error : String) (now disableBefore : Int) :
    Database :=
  { db with
    webhooks := db.webhooks.modify
      (fun w =>
        if w.id = id then
          { w with
            lastError := some error
            failingSince := some (w.failingSince.getD now)
            enabled := disableBefore < w.failingSince.getD now }
        else w)
      (by intro w; split <;> rfl) }

/-! ## What a block owes a hook -/

/-- Any role on the action, or its sender. -/
def actionMatchesAddress (extractor : AddressExtractor) (action : ActionRow) (address : String) :
    Bool :=
  action.fromAddress == address ||
    (extractor.resolve action.kind action.payload).any fun (addr, _) => addr == address

structure DroppedEvent where
  dropped : DroppedRow
  blockTimestamp : Int

inductive Delivery where
  | action (a : ActionRow)
  | dropped (e : DroppedEvent)

def Delivery.id : Delivery → String
  | .action a => toString a.blockHeight ++ ":" ++ toString a.indexInBlock
  | .dropped e => toString e.dropped.blockHeight ++ ":" ++ e.dropped.signature

def deliveries (hook : WebhooksRow) (extractor : AddressExtractor) (block : BlockRow) :
    List Delivery :=
  let actions :=
    if hook.events.any (· == eventAction) then
      (block.actions.filter fun a =>
        hook.address.all fun address => actionMatchesAddress extractor a address).map .action
    else []
  let dropped :=
    if hook.events.any (· == eventDropped) then
      (block.dropped.filter fun d => hook.address.all fun address => d.sender == address).map
        fun d => .dropped { dropped := d, blockTimestamp := block.timestamp }
    else []
  actions ++ dropped

/-- The indexed tip, capped at the finalized height when there is one. -/
def deliverableTip (indexed : Int) (finalized : Option Nat) : Int :=
  finalized.elim indexed fun f => min indexed (if f < 2 ^ 63 then f else 2 ^ 63 - 1)

end Retracer
