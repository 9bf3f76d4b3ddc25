import Retracer.Storage.TornReads
import Retracer.Webhooks.Hooks

/-! # The dispatcher

One task per chain delivers its webhooks: it wakes, lists the hooks, reads the tip, caps
it at the finalized height and then goes round the hooks behind it, a page each, until
none owes more. Every await is a step of its own, so commits, rollbacks, answers of the
node, registrations and restarts come between any two of them. What the dispatcher holds
of a hook is the row as it was listed, with the cursor moved along.
-/

namespace Retracer

open KeyedTable Execution

/-! ## The task -/

/-- Where `drain_page` is. -/
inductive DrainPhase where
  | page
  | reading (r : OpenRead)
  /-- `owed` is left of the block, `later` are the blocks after it. -/
  | posting (owed : List Delivery) (block : BlockRow) (later : List BlockRow)
  /-- It returned an error, which is still to be recorded. -/
  | failed (error : String)

inductive Dispatcher where
  | waiting
  | listing
  | readingTip (hooks : List WebhooksRow)
  | capping (hooks : List WebhooksRow) (indexed : Int)
  /-- `pending` is left of the round, `more` are the hooks of the next. -/
  | draining (tip : Int) (hook : WebhooksRow) (phase : DrainPhase)
      (pending more : List WebhooksRow)

/-- The next hook of the round, or of the next round. -/
def Dispatcher.proceed (tip : Int) (pending more : List WebhooksRow) : Dispatcher :=
  match pending, more with
  | hook :: pending, more => .draining tip hook .page pending more
  | [], hook :: more => .draining tip hook .page more []
  | [], [] => .waiting

/-- The rows it has copies of. -/
def Dispatcher.held : Dispatcher → List WebhooksRow
  | .waiting | .listing => []
  | .readingTip hooks | .capping hooks _ => hooks
  | .draining _ hook _ pending more => hook :: (pending ++ more)

theorem Dispatcher.held_proceed (tip : Int) (pending more : List WebhooksRow) :
    (Dispatcher.proceed tip pending more).held = pending ++ more := by
  cases pending with
  | cons hook pending => rfl
  | nil =>
      cases more with
      | cons hook more => simp [Dispatcher.proceed, Dispatcher.held]
      | nil => rfl

/-- Consecutive failures and the time of the next try, both of one hook. -/
abbrev Backoff := Int → Option (Nat × Nat)

def Backoff.remove (b : Backoff) (id : Int) : Backoff := fun i => if i = id then none else b i

/-- One second doubled with each failure up to the sixth, at most a minute. -/
def Backoff.fail (b : Backoff) (id : Int) (now : Nat) : Backoff :=
  let fails := (b id).elim 0 (·.1) + 1
  fun i => if i = id then some (fails, now + min (2 ^ min fails 6) 60) else b i

/-- `MAX_FAILING`. -/
def maxFailing : Int := 3 * 24 * 60 * 60

/-- The hooks to go round. -/
def pendingHooks (hooks : List WebhooksRow) (tip : Int) (backoff : Backoff) (now : Nat) :
    List WebhooksRow :=
  (hooks.filter fun h => h.enabled ∧ h.cursorHeight < tip).filter fun h =>
    (backoff h.id).all fun (_, again) => again ≤ now

/-! ## The system -/

/-- A POST and whether it was answered 2xx. -/
structure Post where
  hook : WebhooksRow
  block : BlockRow
  delivery : Delivery
  answered : Bool

/-- A request between its two statements. -/
structure Registration where
  request : HookRequest
  cursorHeight : Int

/-- The last three fields are what the proofs follow; the code has no such thing. -/
structure HookState where
  store : StoreState := {}
  /-- The next value of the sequence of the ids. -/
  nextId : Int := 1
  registering : List Registration := []
  /-- `finalized_height` of the network view. -/
  finalized : Option Nat := none
  backoff : Backoff := fun _ => none
  dispatcher : Dispatcher := .waiting
  /-- All the finalized heights the node has reported. -/
  reported : List Nat := []
  /-- What the registrations returned. -/
  registered : List WebhooksRow := []
  posts : List Post := []

inductive HookOp where
  | store (op : ChainOp)
  /-- An answer of the node. -/
  | status (finalized : Option Nat)
  | restart
  /-- A registration up to the tip it reads. -/
  | register (body : RegisterWebhook)
  /-- The second statement of the registration at this place. -/
  | upsert (place : Nat) (now : Int)
  | remove (id : Int)
  | wake
  | list
  | readTip
  | cap (now : Nat)
  | select
  | read
  /-- A POST with its answer: an error, or 2xx. -/
  | post (error : Option String)
  | mark
  /-- The statement that is next fails, and nothing changes. -/
  | fail (error : String)
  /-- A failed page, by both clocks, and whether `webhook_failed` goes through. -/
  | record (instant : Nat) (now : Int) (written : Bool)

/-- Either a commit or a rollback, or something that leaves the blocks alone. -/
theorem HookOp.store_or (op : HookOp) :
    (∃ chainOp, op = .store chainOp) ∨ ∀ chainOp, op ≠ .store chainOp := by
  cases op with
  | store chainOp => exact Or.inl ⟨chainOp, rfl⟩
  | _ => exact Or.inr fun _ => HookOp.noConfusion

def HookState.setDb (s : HookState) (db : Database) : HookState :=
  { s with store := { s.store with db } }

/-- The hook and the block that `webhook_delivered` is called for. -/
def HookState.marking (s : HookState) (op : HookOp) : Option (WebhooksRow × BlockRow) :=
  match op, s.dispatcher with
  | .mark, .draining _ hook (.posting [] block _) _ _ => some (hook, block)
  | _, _ => none

theorem HookState.marking_of_posting {s : HookState} {tip : Int} {hook : WebhooksRow}
    {block : BlockRow} {later : List BlockRow} {pending more : List WebhooksRow}
    (hphase : s.dispatcher = .draining tip hook (.posting [] block later) pending more) :
    s.marking .mark = some (hook, block) := by
  simp only [HookState.marking, hphase]

/-- `drain_page` returned `Ok(owed)`. -/
def HookState.finish (s : HookState) (tip : Int) (hook : WebhooksRow)
    (pending more : List WebhooksRow) (owed : Bool) : HookState :=
  { s with
    backoff := s.backoff.remove hook.id
    dispatcher := .proceed tip pending (if owed then more ++ [hook] else more) }

/-- On to the next block. The page ends with its last one, and more is owed below the tip. -/
def HookState.advance (s : HookState) (c : HookConfig) (tip : Int) (hook : WebhooksRow)
    (block : BlockRow) (later : List BlockRow) (pending more : List WebhooksRow) : HookState :=
  match later with
  | [] => s.finish tip hook pending more (block.height < tip)
  | next :: later =>
      { s with
        dispatcher := .draining tip hook (.posting (deliveries hook c.extractor next) next later)
          pending more }

variable [Postgres] [Collation]

/-- Rows that do not decode are a statement that fails. -/
def HookState.dispatch (c : HookConfig) (s : HookState) : HookOp → Option HookState
  | .wake =>
      match s.dispatcher with
      | .waiting => some { s with dispatcher := .listing }
      | _ => none
  | .list =>
      match s.dispatcher with
      | .listing =>
          let hooks := listWebhooks s.store.db c.chainId
          some
            { s with
              dispatcher := if hooks.all fun h => !h.enabled then .waiting else .readingTip hooks }
      | _ => none
  | .readTip =>
      match s.dispatcher with
      | .readingTip hooks =>
          some
            { s with
              dispatcher :=
                match getCursor s.store.db c.chainId with
                | some tip => .capping hooks tip
                | none => .waiting }
      | _ => none
  | .cap now =>
      match s.dispatcher with
      | .capping hooks indexed =>
          let tip := deliverableTip indexed s.finalized
          some { s with dispatcher := .proceed tip (pendingHooks hooks tip s.backoff now) [] }
      | _ => none
  | .select =>
      match s.dispatcher with
      | .draining tip hook .page pending more =>
          match selectBlocks s.store.db c.chainId (hook.cursorHeight + 1) tip c.pageSize with
          | [] => some (s.finish tip hook pending more false)
          | rows =>
              let read := .inRange (hook.cursorHeight + 1) tip c.pageSize
              some
                { s with dispatcher := .draining tip hook (.reading { read, rows }) pending more }
      | _ => none
  | .read =>
      match s.dispatcher with
      | .draining tip hook (.reading r) pending more =>
          match r.next s.store.db c.chainId with
          | .failed => none
          | .reading r => some { s with dispatcher := .draining tip hook (.reading r) pending more }
          | .done [] => some (s.finish tip hook pending more false)
          | .done (block :: later) =>
              some
                { s with
                  dispatcher := .draining tip hook
                    (.posting (deliveries hook c.extractor block) block later) pending more }
      | _ => none
  | .post error =>
      match s.dispatcher with
      | .draining tip hook (.posting (delivery :: owed) block later) pending more =>
          some
            { s with
              posts := s.posts ++ [{ hook, block, delivery, answered := error.isNone }]
              dispatcher := .draining tip hook
                (error.elim (.posting owed block later) fun e =>
                  .failed ("delivering " ++ delivery.id ++ ": " ++ e)) pending more }
      | _ => none
  | .mark =>
      match s.dispatcher with
      | .draining tip hook (.posting [] block later) pending more =>
          let (db, found) := webhookDelivered s.store.db hook.id block.height block.hash
          if found then
            some ((s.setDb db).advance c tip { hook with cursorHeight := block.height } block later
              pending more)
          else some ((s.setDb db).finish tip hook pending more false)
      | _ => none
  | .fail error =>
      match s.dispatcher with
      | .listing | .readingTip _ => some { s with dispatcher := .waiting }
      | .draining tip hook .page pending more
      | .draining tip hook (.reading _) pending more
      | .draining tip hook (.posting [] _ _) pending more =>
          some { s with dispatcher := .draining tip hook (.failed error) pending more }
      | _ => none
  | .record instant now written =>
      match s.dispatcher with
      | .draining tip hook (.failed error) pending more =>
          let db :=
            if written then webhookFailed s.store.db hook.id error now (now - maxFailing)
            else s.store.db
          some
            { s.setDb db with
              backoff := s.backoff.fail hook.id instant
              dispatcher := .proceed tip pending more }
      | _ => none
  | _ => none

def hookStep (c : HookConfig) (s : HookState) : HookOp → Option HookState
  | .store op =>
      (chainStep c.chainId c.extractor s.store op).map fun store => { s with store }
  | .status finalized =>
      some { s with finalized, reported := s.reported ++ finalized.toList }
  | .restart =>
      some
        { s with
          registering := []
          finalized := none
          backoff := fun _ => none
          dispatcher := .waiting }
  | .register body =>
      match body.check c with
      | .error _ => some s
      | .ok request =>
          match registerCursor ((getCursor s.store.db c.chainId).getD (-1)) request.fromHeight with
          | .error _ => some s
          | .ok cursorHeight =>
              some { s with registering := s.registering ++ [{ request, cursorHeight }] }
  | .upsert place now =>
      (s.registering[place]?).map fun r =>
        let (db, row) :=
          upsertWebhook s.store.db c.chainId r.request r.cursorHeight s.nextId now
        { s.setDb db with
          nextId := s.nextId + 1
          registering := s.registering.eraseIdx place
          registered := s.registered ++ [row] }
  | .remove id => some (s.setDb (deleteWebhook s.store.db c.chainId id).1)
  | op => s.dispatch c op

/-! ## What a step does -/

/-- The ways a step goes through, each with what it found. -/
inductive HookState.Stepped (c : HookConfig) (s : HookState) : HookOp → HookState → Prop where
  | store {op store} (hstore : chainStep c.chainId c.extractor s.store op = some store) :
      Stepped c s (.store op) { s with store }
  | status {finalized} :
      Stepped c s (.status finalized)
        { s with finalized, reported := s.reported ++ finalized.toList }
  | restart :
      Stepped c s .restart
        { s with
          registering := []
          finalized := none
          backoff := fun _ => none
          dispatcher := .waiting }
  | refused {body} : Stepped c s (.register body) s
  | register {body r}
      (hcursor : registerCursor ((getCursor s.store.db c.chainId).getD (-1)) r.request.fromHeight =
        .ok r.cursorHeight) :
      Stepped c s (.register body) { s with registering := s.registering ++ [r] }
  | upsert {place now r db row} (hplace : s.registering[place]? = some r)
      (hupsert : upsertWebhook s.store.db c.chainId r.request r.cursorHeight s.nextId now =
        (db, row)) :
      Stepped c s (.upsert place now)
        { s.setDb db with
          nextId := s.nextId + 1
          registering := s.registering.eraseIdx place
          registered := s.registered ++ [row] }
  | remove {id} : Stepped c s (.remove id) (s.setDb (deleteWebhook s.store.db c.chainId id).1)
  | wake (hphase : s.dispatcher = .waiting) : Stepped c s .wake { s with dispatcher := .listing }
  | allDisabled (hphase : s.dispatcher = .listing) :
      Stepped c s .list { s with dispatcher := .waiting }
  | list (hphase : s.dispatcher = .listing) :
      Stepped c s .list
        { s with dispatcher := .readingTip (listWebhooks s.store.db c.chainId) }
  | noTip {hooks} (hphase : s.dispatcher = .readingTip hooks) :
      Stepped c s .readTip { s with dispatcher := .waiting }
  | readTip {hooks tip} (hphase : s.dispatcher = .readingTip hooks) :
      Stepped c s .readTip { s with dispatcher := .capping hooks tip }
  | cap {now hooks indexed tip} (hphase : s.dispatcher = .capping hooks indexed)
      (htip : deliverableTip indexed s.finalized = tip) :
      Stepped c s (.cap now)
        { s with dispatcher := .proceed tip (pendingHooks hooks tip s.backoff now) [] }
  | selectNone {tip hook pending more}
      (hphase : s.dispatcher = .draining tip hook .page pending more) :
      Stepped c s .select (s.finish tip hook pending more false)
  | select {tip hook pending more rows}
      (hphase : s.dispatcher = .draining tip hook .page pending more)
      (hrows : selectBlocks s.store.db c.chainId (hook.cursorHeight + 1) tip c.pageSize = rows)
      (hne : rows ≠ []) :
      Stepped c s .select
        { s with
          dispatcher := .draining tip hook
            (.reading { read := .inRange (hook.cursorHeight + 1) tip c.pageSize, rows })
            pending more }
  | readActions {tip hook pending more r found}
      (hphase : s.dispatcher = .draining tip hook (.reading r) pending more)
      (hnone : r.actions = none)
      (hfound : selectActions s.store.db c.chainId r.lo r.hi = some found) :
      Stepped c s .read
        { s with
          dispatcher := .draining tip hook (.reading { r with actions := some found })
            pending more }
  | readNone {tip hook pending more r}
      (hphase : s.dispatcher = .draining tip hook (.reading r) pending more) :
      Stepped c s .read (s.finish tip hook pending more false)
  | read {tip hook pending more r found block later}
      (hphase : s.dispatcher = .draining tip hook (.reading r) pending more)
      (hsome : r.actions = some found)
      (hblocks : r.read.assemble r.rows found
        (droppedInRange s.store.db c.chainId r.lo r.hi) = block :: later) :
      Stepped c s .read
        { s with
          dispatcher := .draining tip hook
            (.posting (deliveries hook c.extractor block) block later) pending more }
  | post {tip hook pending more delivery owed block later}
      (hphase : s.dispatcher =
        .draining tip hook (.posting (delivery :: owed) block later) pending more) :
      Stepped c s (.post none)
        { s with
          posts := s.posts ++ [{ hook, block, delivery, answered := true }]
          dispatcher := .draining tip hook (.posting owed block later) pending more }
  | postFailed {tip hook pending more delivery owed block later e error}
      (hphase : s.dispatcher =
        .draining tip hook (.posting (delivery :: owed) block later) pending more) :
      Stepped c s (.post (some e))
        { s with
          posts := s.posts ++ [{ hook, block, delivery, answered := false }]
          dispatcher := .draining tip hook (.failed error) pending more }
  | mark {tip hook pending more block later}
      (hphase : s.dispatcher = .draining tip hook (.posting [] block later) pending more)
      (hfound : (webhookDelivered s.store.db hook.id block.height block.hash).2 = true) :
      Stepped c s .mark
        ((s.setDb (webhookDelivered s.store.db hook.id block.height block.hash).1).advance c tip
          { hook with cursorHeight := block.height } block later pending more)
  | markMissed {tip hook pending more block later}
      (hphase : s.dispatcher = .draining tip hook (.posting [] block later) pending more)
      (hmissed : (webhookDelivered s.store.db hook.id block.height block.hash).2 = false) :
      Stepped c s .mark
        ((s.setDb (webhookDelivered s.store.db hook.id block.height block.hash).1).finish tip hook
          pending more false)
  | failEarly {error} : Stepped c s (.fail error) { s with dispatcher := .waiting }
  | fail {tip hook phase pending more error}
      (hphase : s.dispatcher = .draining tip hook phase pending more) :
      Stepped c s (.fail error)
        { s with dispatcher := .draining tip hook (.failed error) pending more }
  | record {tip hook error pending more instant now written backoff db}
      (hphase : s.dispatcher = .draining tip hook (.failed error) pending more)
      (hdb : db = s.store.db ∨
        db = webhookFailed s.store.db hook.id error now (now - maxFailing)) :
      Stepped c s (.record instant now written)
        { s.setDb db with backoff, dispatcher := .proceed tip pending more }

variable {c : HookConfig} {s s' : HookState}

theorem HookState.stepped_read (h : s.dispatch c .read = some s') : s.Stepped c .read s' := by
  simp only [HookState.dispatch] at h
  split at h
  · next tip hook r pending more hphase =>
      unfold OpenRead.next at h
      cases hactions : r.actions with
      | none =>
          rw [hactions] at h
          dsimp only at h
          cases hfound : selectActions s.store.db c.chainId r.lo r.hi with
          | none =>
              rw [hfound] at h
              cases h
          | some found =>
              rw [hfound] at h
              cases h
              exact .readActions hphase hactions hfound
      | some found =>
          rw [hactions] at h
          dsimp only at h
          cases hblocks : r.read.assemble r.rows found
              (droppedInRange s.store.db c.chainId r.lo r.hi) with
          | nil =>
              rw [hblocks] at h
              cases h
              exact .readNone hphase
          | cons block later =>
              rw [hblocks] at h
              cases h
              exact .read hphase hactions hblocks
  · cases h

theorem HookState.stepped_of_dispatch {op : HookOp} (h : s.dispatch c op = some s') :
    s.Stepped c op s' := by
  cases op with
  | wake =>
      simp only [HookState.dispatch] at h
      split at h
      · next hphase =>
          cases h
          exact .wake hphase
      · cases h
  | list =>
      simp only [HookState.dispatch] at h
      split at h
      · next hphase =>
          cases h
          split
          · exact .allDisabled hphase
          · exact .list hphase
      · cases h
  | readTip =>
      simp only [HookState.dispatch] at h
      split at h
      · next hphase =>
          cases h
          split
          · exact .readTip hphase
          · exact .noTip hphase
      · cases h
  | cap now =>
      simp only [HookState.dispatch] at h
      split at h
      · next hphase =>
          cases h
          exact .cap hphase rfl
      · cases h
  | select =>
      simp only [HookState.dispatch] at h
      split at h
      · next hphase =>
          split at h
          · cases h
            exact .selectNone hphase
          · next hne =>
              cases h
              exact .select hphase rfl hne
      · cases h
  | read => exact HookState.stepped_read h
  | post error =>
      simp only [HookState.dispatch] at h
      split at h
      · next hphase =>
          cases h
          cases error with
          | none => exact .post hphase
          | some e => exact .postFailed hphase
      · cases h
  | mark =>
      simp only [HookState.dispatch] at h
      split at h
      · next hphase =>
          split at h
          · next hfound =>
              cases h
              exact .mark hphase hfound
          · next hmissed =>
              cases h
              exact .markMissed hphase (Bool.not_eq_true _ ▸ hmissed)
      · cases h
  | fail error =>
      simp only [HookState.dispatch] at h
      split at h
      · cases h
        exact .failEarly
      · cases h
        exact .failEarly
      · next hphase =>
          cases h
          exact .fail hphase
      · next hphase =>
          cases h
          exact .fail hphase
      · next hphase =>
          cases h
          exact .fail hphase
      · cases h
  | record instant now written =>
      simp only [HookState.dispatch] at h
      split at h
      · next hphase =>
          cases h
          apply HookState.Stepped.record hphase
          split
          · exact Or.inr rfl
          · exact Or.inl rfl
      · cases h
  | store _ | status _ | restart | register _ | upsert _ _ | remove _ => cases h

theorem HookState.stepped {op : HookOp} (h : hookStep c s op = some s') : s.Stepped c op s' := by
  cases op with
  | store op =>
      obtain ⟨store, hstore, rfl⟩ := Option.map_eq_some_iff.mp h
      exact .store hstore
  | status finalized =>
      cases h
      exact .status
  | restart =>
      cases h
      exact .restart
  | register body =>
      simp only [hookStep] at h
      split at h
      · cases h
        exact .refused
      · split at h
        · cases h
          exact .refused
        · next hcursor =>
            cases h
            exact .register hcursor
  | upsert place now =>
      obtain ⟨r, hplace, rfl⟩ := Option.map_eq_some_iff.mp h
      exact .upsert hplace rfl
  | remove id =>
      cases h
      exact .remove
  | wake | list | readTip | cap _ | select | read | post _ | mark | fail _ | record _ _ _ =>
      exact HookState.stepped_of_dispatch h

/-! ## Concrete runs -/

section

omit [Postgres] [Collation]

def HookConfig.small : HookConfig where
  chainId := "main"
  extractor := .tierAOnly .empty
  pageSize := 500
  writable := true
  addressValidator := none
  parseUrl url := .ok ("http", url)

abbrev smallHookStep : HookState → HookOp → Option HookState :=
  @hookStep .plain .plain .small

def RegisterWebhook.receiver (fromHeight : Nat) : RegisterWebhook where
  url := "http://receiver/"
  secret := "0123456789abcdef"
  fromHeight := some fromHeight

/-- Both statements. -/
def registration (fromHeight : Nat) : List HookOp :=
  [.register (.receiver fromHeight), .upsert 0 0]

/-- From the wake to the end of the first page's read. -/
def firstPage (now : Nat) : List HookOp :=
  [.wake, .list, .readTip, .cap now, .select, .read, .read]

/-- Ids and cursors, as registered and as stored. -/
def HookState.cursors (s : HookState) : List (Int × Int) × List (Int × Int) :=
  (s.registered.map fun w => (w.id, w.cursorHeight),
    s.store.db.webhooks.rows.map fun w => (w.id, w.cursorHeight))

theorem HookState.row_of_cursors {s : HookState} {id cursor : Int}
    (h : s.cursors.2 = [(id, cursor)]) :
    ∃ w ∈ s.store.db.webhooks.rows, w.id = id ∧ w.cursorHeight = cursor := by
  obtain ⟨w, hw, heq⟩ := List.map_eq_singleton_iff.mp h
  obtain ⟨hid, hcursor⟩ := Prod.mk.inj heq
  exact ⟨w, by simp [hw], hid, hcursor⟩

end

end Retracer
