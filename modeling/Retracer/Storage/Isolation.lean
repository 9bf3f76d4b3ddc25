import Retracer.Storage.ChainRows
import Retracer.Storage.Reindex
import Retracer.Webhooks.Rows

/-! # Chains on one server

Everything that is done for a chain, from its blocks to its webhooks, as one family of
operations. What an operation returns, and what it leaves of its own chain, is decided by
the rows of that chain; the rows of the others stay as they are.
-/

namespace Retracer

open KeyedTable

/-! ## The server -/

structure ChainsRow where
  chainId : String
  displayName : Option String
  blocksTopic : String
  syncProtocol : String
  finalityDepth : Int
  registeredAt : Int

instance : Keyed ChainsRow String := ⟨ChainsRow.chainId⟩
instance : Owned ChainsRow String := ⟨ChainsRow.chainId⟩
instance : OwnedByKey ChainsRow := ⟨fun h => h⟩

/-- The tables and the registry of chains. -/
structure Server where
  db : Database := .empty
  chains : Table ChainsRow := .empty

/-- The rows of one chain. -/
def Server.of (s : Server) (chainId : String) : Server :=
  ⟨s.db.of chainId, s.chains.only chainId⟩

/-- Every column but the time of the first registration is overwritten. -/
def ChainsRow.refresh (row old : ChainsRow) : ChainsRow :=
  { row with chainId := old.chainId, registeredAt := old.registeredAt }

theorem ChainsRow.key_refresh (row old : ChainsRow) : key (row.refresh old) = key old := rfl

def registerChain (chains : Table ChainsRow) (row : ChainsRow) : Table ChainsRow :=
  chains.upsert row row.refresh row.key_refresh

inductive ChainOperation where
  | insertBlocks (blocks : List IndexableBlock) (extractor : AddressExtractor)
  | rollbackTo (height : Int)
  | reindexActionAddresses (extractor : AddressExtractor)
  | registerChain (displayName : Option String) (blocksTopic syncProtocol : String)
      (finalityDepth now : Int)
  | upsertWebhook (request : HookRequest) (cursorHeight now : Int)
  | deleteWebhook (id : Int)
  | webhookDelivered (id height : Int) (hash : String)
  | webhookFailed (id : Int) (error : String) (now disableBefore : Int)

inductive OperationResult where
  | failed
  | done
  | count (n : Nat)
  | flag (b : Bool)
  | hook (w : WebhooksRow)

section

variable [Postgres]

/-- A failed operation leaves the rows as they were. A new hook gets the serial, if the
chain is registered as its foreign key asks. -/
def Server.perform (s : Server) (serial : Int) (chainId : String) :
    ChainOperation → Server × OperationResult
  | .insertBlocks blocks extractor =>
      match Retracer.insertBlocks s.db chainId blocks extractor with
      | none => (s, .failed)
      | some db => ({ s with db }, .done)
  | .rollbackTo height =>
      ({ s with db := (Retracer.rollbackTo s.db chainId height).1 },
        .count (Retracer.rollbackTo s.db chainId height).2)
  | .reindexActionAddresses extractor =>
      match Retracer.reindexActionAddresses s.db chainId extractor with
      | none => (s, .failed)
      | some (db, added) => ({ s with db }, .count added)
  | .registerChain displayName blocksTopic syncProtocol finalityDepth now =>
      ({ s with
         chains := Retracer.registerChain s.chains
           { chainId, displayName, blocksTopic, syncProtocol, finalityDepth,
             registeredAt := now } },
        .done)
  | .upsertWebhook request cursorHeight now =>
      if (s.db.webhooks.rows.find? fun w => w.chainId = chainId ∧ w.url = request.url) = none ∧
          s.chains.find? chainId = none then (s, .failed)
      else
        ({ s with
           db := (Retracer.upsertWebhook s.db chainId request cursorHeight serial now).1 },
          .hook (Retracer.upsertWebhook s.db chainId request cursorHeight serial now).2)
  | .deleteWebhook id =>
      ({ s with db := (Retracer.deleteWebhook s.db chainId id).1 },
        .flag (Retracer.deleteWebhook s.db chainId id).2)
  | .webhookDelivered id height hash =>
      ({ s with db := (Retracer.webhookDelivered s.db id height hash).1 },
        .flag (Retracer.webhookDelivered s.db id height hash).2)
  | .webhookFailed id error now disableBefore =>
      ({ s with db := Retracer.webhookFailed s.db id error now disableBefore }, .done)

end

/-- The two operations that are keyed by the id alone are on a hook of the chain. -/
def ChainOperation.OnOwnHook (s : Server) (chainId : String) : ChainOperation → Prop
  | .webhookDelivered id _ _ | .webhookFailed id _ _ _ =>
      ∀ w ∈ s.db.webhooks.rows, w.id = id → w.chainId = chainId
  | _ => True

/-- What a sequence returns is in no row. -/
def Server.Unused (s : Server) (serial : Int) : Prop := ∀ w ∈ s.db.webhooks.rows, w.id ≠ serial

/-! ## Hooks -/

section

variable {db : Database} {chainId other : String}

theorem setWebhooks_other {t : Table WebhooksRow} (h : t.only other = db.webhooks.only other) :
    ({ db with webhooks := t } : Database).of other = db.of other :=
  of_eq_of (fun k => by cases k <;> rfl) rfl rfl rfl h

theorem setWebhooks_of {t own : Table WebhooksRow} (h : own = t.only chainId) :
    { db.of chainId with webhooks := own } = ({ db with webhooks := t } : Database).of chainId := by
  rw [h]
  rfl

theorem find_own_hook (rows : List WebhooksRow) (chainId url : String) :
    ((rows.filter fun w => owner w = chainId).find? fun w => w.chainId = chainId ∧ w.url = url) =
      rows.find? fun w => w.chainId = chainId ∧ w.url = url := by
  induction rows with
  | nil => rfl
  | cons w rows ih =>
      have howner : owner w = w.chainId := rfl
      by_cases hchain : w.chainId = chainId
      · rw [List.filter_cons_of_pos (by simp [howner, hchain]), List.find?_cons,
          List.find?_cons, ih]
      · rw [List.filter_cons_of_neg (by simp [howner, hchain]), List.find?_cons, ih]
        simp [hchain]

theorem upsertWebhook_other {r : HookRequest} {cursorHeight serial now : Int}
    (h : chainId ≠ other) :
    (upsertWebhook db chainId r cursorHeight serial now).1.of other = db.of other := by
  unfold upsertWebhook
  split
  · next old hold =>
      obtain ⟨hmem, hfound⟩ := And.intro (List.mem_of_find?_eq_some hold) (List.find?_some hold)
      simp only [decide_eq_true_eq] at hfound
      apply setWebhooks_other
      apply Table.only_modify_other
      · intro w
        split <;> rfl
      · intro w hw ho
        rw [if_neg]
        intro hid
        have hsame := db.webhooks.eq_of_key_eq hw hmem hid
        exact h (hfound.1.symm.trans (hsame ▸ ho))
  · exact setWebhooks_other (Table.only_insertRow_other h)

theorem upsertWebhook_of {r : HookRequest} {cursorHeight serial now : Int}
    (hserial : ∀ w ∈ db.webhooks.rows, w.id ≠ serial) :
    upsertWebhook (db.of chainId) chainId r cursorHeight serial now =
      ((upsertWebhook db chainId r cursorHeight serial now).1.of chainId,
        (upsertWebhook db chainId r cursorHeight serial now).2) := by
  have hfind : ((db.of chainId).webhooks.rows.find? fun w => w.chainId = chainId ∧ w.url = r.url) =
      db.webhooks.rows.find? fun w => w.chainId = chainId ∧ w.url = r.url := by
    show ((db.webhooks.only chainId).rows.find? _) = _
    rw [Table.rows_only]
    exact find_own_hook db.webhooks.rows chainId r.url
  unfold upsertWebhook
  rw [hfind]
  split
  · refine Prod.ext ?_ rfl
    apply setWebhooks_of
    refine (Table.only_modify _ ?_).symm
    intro w
    split <;> rfl
  · refine Prod.ext ?_ rfl
    apply setWebhooks_of
    have hnew : ∀ t : Table WebhooksRow, t.rows ⊆ db.webhooks.rows →
        key (r.row chainId cursorHeight serial now) ∉ t.rows.map key := by
      intro t ht hmem
      obtain ⟨w, hw, hid⟩ := List.mem_map.mp hmem
      exact hserial w (ht hw) hid
    have hsub : (db.webhooks.only chainId).rows ⊆ db.webhooks.rows :=
      fun w hw => (Table.mem_only.mp hw).1
    show (db.webhooks.only chainId).insertRow (r.row chainId cursorHeight serial now) =
      (db.webhooks.insertRow (r.row chainId cursorHeight serial now)).only chainId
    ext1
    rw [Table.rows_insertRow_of_notMem (hnew _ hsub), Table.rows_only, Table.rows_only,
      Table.rows_insertRow_of_notMem (hnew _ (List.Subset.refl _)), List.filter_append]
    simp [HookRequest.row, owner]

theorem deleteWebhook_other {id : Int} (h : chainId ≠ other) :
    (deleteWebhook db chainId id).1.of other = db.of other := by
  apply setWebhooks_other
  apply Table.only_deleteWhere_other
  intro w _ ho
  have hchain : w.chainId ≠ chainId := fun hc => h (hc.symm.trans ho)
  simp [hchain]

theorem deleteWebhook_of (id : Int) :
    deleteWebhook (db.of chainId) chainId id =
      ((deleteWebhook db chainId id).1.of chainId, (deleteWebhook db chainId id).2) := by
  refine Prod.ext ?_ ?_
  · apply setWebhooks_of
    exact (Table.only_deleteWhere _ _ _).symm
  · show ((db.webhooks.only chainId).rows.any _) = _
    rw [Table.rows_only, List.any_filter]
    congr 1
    funext w
    by_cases hchain : w.chainId = chainId
    · simp [owner, hchain]
    · simp [hchain]

theorem webhookDelivered_other {id height : Int} {hash : String} (h : chainId ≠ other)
    (hown : ∀ w ∈ db.webhooks.rows, w.id = id → w.chainId = chainId) :
    (webhookDelivered db id height hash).1.of other = db.of other := by
  apply setWebhooks_other
  apply Table.only_modify_other
  · intro w
    split <;> rfl
  · intro w hw ho
    rw [if_neg fun hid => h ((hown w hw hid.1).symm.trans ho)]

theorem blockIsStored_of (height : Int) (hash : String) :
    blockIsStored (db.of chainId) chainId height hash = blockIsStored db chainId height hash := by
  show ((db.blocks.only chainId).rows.any _) = _
  rw [Table.rows_only, List.any_filter]
  congr 1
  funext b
  by_cases hchain : b.chainId = chainId
  · simp [owner, Stamped.chainOf, hchain]
  · simp [hchain]

theorem webhookDelivered_of {id height : Int} {hash : String}
    (hown : ∀ w ∈ db.webhooks.rows, w.id = id → w.chainId = chainId) :
    webhookDelivered (db.of chainId) id height hash =
      ((webhookDelivered db id height hash).1.of chainId,
        (webhookDelivered db id height hash).2) := by
  refine Prod.ext ?_ ?_
  · apply setWebhooks_of
    refine Eq.trans ?_ (Table.only_modify _ ?_).symm
    · ext1
      rw [Table.rows_modify]
      apply List.map_congr_left
      intro w hw
      have hchain : w.chainId = chainId := (Table.mem_only.mp hw).2
      rw [hchain, blockIsStored_of]
    · intro w
      split <;> rfl
  · rw [Bool.eq_iff_iff, found_webhookDelivered, found_webhookDelivered]
    constructor
    · rintro ⟨w, hw, hid, hstored⟩
      obtain ⟨hin, hchain⟩ := Table.mem_only.mp hw
      have hchain' : w.chainId = chainId := hchain
      rw [hchain', blockIsStored_of] at hstored
      exact ⟨w, hin, hid, hchain' ▸ hstored⟩
    · rintro ⟨w, hw, hid, hstored⟩
      have hchain := hown w hw hid
      refine ⟨w, Table.mem_only.mpr ⟨hw, hchain⟩, hid, ?_⟩
      rw [hchain, blockIsStored_of, ← hchain]
      exact hstored

theorem webhookFailed_other {id now disableBefore : Int} {error : String} (h : chainId ≠ other)
    (hown : ∀ w ∈ db.webhooks.rows, w.id = id → w.chainId = chainId) :
    (webhookFailed db id error now disableBefore).of other = db.of other := by
  apply setWebhooks_other
  apply Table.only_modify_other
  · intro w
    split <;> rfl
  · intro w hw ho
    rw [if_neg fun hid => h ((hown w hw hid).symm.trans ho)]

theorem webhookFailed_of (id : Int) (error : String) (now disableBefore : Int) :
    webhookFailed (db.of chainId) id error now disableBefore =
      (webhookFailed db id error now disableBefore).of chainId := by
  apply setWebhooks_of
  refine (Table.only_modify _ ?_).symm
  intro w
  split <;> rfl

end

/-! ## Reindexing -/

section

variable {chainId other : String} {extractor : AddressExtractor}

theorem pageRows_of (db : Database) (chainId : String) (after : Int × Int) :
    pageRows (db.of chainId) chainId after = pageRows db chainId after := by
  unfold pageRows pending
  congr 2
  apply Table.filter_only
  intro a ha
  exact (of_decide_eq_true ha).1

theorem owner_reindexRows {rows : List ActionsRow} :
    ∀ r ∈ reindexRows chainId extractor rows, owner r = chainId := by
  intro r hr
  obtain ⟨a, _, hin⟩ := List.mem_flatMap.mp hr
  obtain ⟨p, _, rfl⟩ := List.mem_map.mp hin
  rfl

theorem writePage_of (db : Database) (rows : List ActionsRow) :
    writePage (db.of chainId) chainId extractor rows =
      (writePage db chainId extractor rows).of chainId := by
  have hadded : (db.of chainId).actionAddresses.insertMissing
        (reindexRows chainId extractor rows) =
      (db.actionAddresses.insertMissing (reindexRows chainId extractor rows)).only chainId :=
    (Table.only_insertMissing owner_reindexRows).symm
  rw [writePage, hadded]
  rfl

theorem addedByPage_of (db : Database) (rows : List ActionsRow) :
    addedByPage (db.of chainId) chainId extractor rows =
      addedByPage db chainId extractor rows := by
  have hinserted : (db.of chainId).actionAddresses.inserted (reindexRows chainId extractor rows) =
      db.actionAddresses.inserted (reindexRows chainId extractor rows) :=
    Table.inserted_only owner_reindexRows
  rw [addedByPage, hinserted]
  rfl

theorem writePage_other (db : Database) (rows : List ActionsRow) (h : chainId ≠ other) :
    (writePage db chainId extractor rows).of other = db.of other := by
  have hat : ∀ k, ((writePage db chainId extractor rows).at k).only other =
      (db.at k).only other := by
    intro k
    cases k with
    | actionAddresses =>
        apply Table.only_insertMissing_other
        exact fun r hr ho => h ((owner_reindexRows r hr).symm.trans ho)
    | _ => rfl
  exact of_eq_of hat rfl rfl rfl rfl

theorem reindexFrom_of (fuel : Nat) (after : Int × Int) (added : Nat) (db : Database) :
    reindexFrom chainId extractor fuel after added (db.of chainId) =
      (reindexFrom chainId extractor fuel after added db).map fun p => (p.1.of chainId, p.2) := by
  induction fuel generalizing after added db with
  | zero => rfl
  | succ fuel ih =>
      rw [reindexFrom_succ, reindexFrom_succ]
      simp only [pageRows_of, writePage_of, addedByPage_of]
      cases (pageRows db chainId after).getLast? with
      | none => rfl
      | some last => exact ih _ _ _

theorem reindexFrom_other {fuel : Nat} {after : Int × Int} {added : Nat} {db : Database}
    {result : Database × Nat} (h : chainId ≠ other)
    (hrun : reindexFrom chainId extractor fuel after added db = some result) :
    result.1.of other = db.of other := by
  apply reindexFrom_preserves (I := fun mid => mid.of other = db.of other) ?_ rfl hrun
  intro mid rows hmid
  rw [writePage_other mid rows h, hmid]

theorem webhooks_reindexFrom {fuel : Nat} {after : Int × Int} {added : Nat} {db : Database}
    {result : Database × Nat}
    (hrun : reindexFrom chainId extractor fuel after added db = some result) :
    result.1.webhooks = db.webhooks := by
  apply reindexFrom_preserves (I := fun mid => mid.webhooks = db.webhooks) ?_ rfl hrun
  intro mid rows hmid
  exact hmid

/-- More rounds change nothing. -/
theorem reindexFrom_mono {fuel more : Nat} {after : Int × Int} {added : Nat} {db : Database}
    {result : Database × Nat} (hle : fuel ≤ more)
    (hrun : reindexFrom chainId extractor fuel after added db = some result) :
    reindexFrom chainId extractor more after added db = some result := by
  induction fuel generalizing more after added db with
  | zero => cases hrun
  | succ fuel ih =>
      obtain ⟨rest, rfl⟩ : ∃ rest, more = rest + 1 := ⟨more - 1, by omega⟩
      rw [reindexFrom_succ] at hrun ⊢
      cases hlast : (pageRows db chainId after).getLast? with
      | none =>
          simp only [hlast] at hrun ⊢
          exact hrun
      | some last =>
          simp only [hlast] at hrun ⊢
          exact ih (by omega) hrun

theorem reindexActionAddresses_of (db : Database) :
    reindexActionAddresses (db.of chainId) chainId extractor =
      (reindexActionAddresses db chainId extractor).map fun p => (p.1.of chainId, p.2) := by
  obtain ⟨result, hresult⟩ := Option.isSome_iff_exists.mp
    (reindexActionAddresses_isSome (db.of chainId) chainId extractor)
  have hle : (db.of chainId).actions.rows.length + 1 ≤ db.actions.rows.length + 1 := by
    have hfilter : (db.of chainId).actions.rows =
        db.actions.rows.filter fun r => owner r = chainId :=
      Table.rows_only _ _
    rw [hfilter]
    have := List.length_filter_le (fun r : ActionsRow => decide (owner r = chainId)) db.actions.rows
    omega
  rw [hresult]
  exact (reindexFrom_mono hle hresult).symm.trans (reindexFrom_of _ _ _ _)

end

/-! ## The operations -/

section

variable [Postgres] {s : Server} {serial : Int} {chainId other : String} {op : ChainOperation}

/-- The rows of another chain stay. -/
theorem perform_other (h : chainId ≠ other) (hown : op.OnOwnHook s chainId) :
    (s.perform serial chainId op).1.of other = s.of other := by
  have hdb : ∀ {db : Database}, db.of other = s.db.of other →
      ({ s with db } : Server).of other = s.of other := by
    intro db hsame
    rw [Server.of, Server.of, hsame]
  cases op with
  | insertBlocks blocks extractor =>
      simp only [Server.perform]
      cases hinsert : insertBlocks s.db chainId blocks extractor with
      | none => rfl
      | some db => exact hdb (insertBlocks_other h hinsert)
  | rollbackTo height => exact hdb (rollbackTo_other s.db height h)
  | reindexActionAddresses extractor =>
      simp only [Server.perform]
      cases hrun : reindexActionAddresses s.db chainId extractor with
      | none => rfl
      | some result => exact hdb (reindexFrom_other h hrun)
  | registerChain displayName blocksTopic syncProtocol finalityDepth now =>
      have hchains : (registerChain s.chains ⟨chainId, displayName, blocksTopic, syncProtocol,
          finalityDepth, now⟩).only other = s.chains.only other := by
        apply Table.only_upsert_other (ChainsRow.key_refresh _) fun _ => rfl
        · intro c _ hkey ho
          exact h ((owner_of_key hkey).symm.trans ho)
        · exact h
      exact congrArg (Server.mk (s.db.of other)) hchains
  | upsertWebhook request cursorHeight now =>
      simp only [Server.perform]
      split
      · rfl
      · exact hdb (upsertWebhook_other h)
  | deleteWebhook id => exact hdb (deleteWebhook_other h)
  | webhookDelivered id height hash => exact hdb (webhookDelivered_other h hown)
  | webhookFailed id error now disableBefore => exact hdb (webhookFailed_other h hown)

/-- What is done for a chain is what would be done with its rows alone. -/
theorem perform_of (hown : op.OnOwnHook s chainId) (hserial : s.Unused serial) :
    (s.of chainId).perform serial chainId op =
      ((s.perform serial chainId op).1.of chainId, (s.perform serial chainId op).2) := by
  cases op with
  | insertBlocks blocks extractor =>
      simp only [Server.perform, Server.of, insertBlocks_of]
      cases insertBlocks s.db chainId blocks extractor <;> rfl
  | rollbackTo height =>
      obtain ⟨hrows, hcount⟩ := rollbackTo_of s.db chainId height
      simp only [Server.perform, Server.of, hrows, hcount]
  | reindexActionAddresses extractor =>
      simp only [Server.perform, Server.of, reindexActionAddresses_of]
      cases reindexActionAddresses s.db chainId extractor <;> rfl
  | registerChain displayName blocksTopic syncProtocol finalityDepth now =>
      let row : ChainsRow :=
        ⟨chainId, displayName, blocksTopic, syncProtocol, finalityDepth, now⟩
      have hchains : registerChain (s.chains.only chainId) row =
          (registerChain s.chains row).only chainId :=
        (Table.only_upsert row.key_refresh (fun _ => rfl) rfl).symm
      rw [Server.perform, Server.perform, Server.of, hchains]
      rfl
  | upsertWebhook request cursorHeight now =>
      have hfind : ((s.db.of chainId).webhooks.rows.find? fun w =>
            w.chainId = chainId ∧ w.url = request.url) =
          s.db.webhooks.rows.find? fun w => w.chainId = chainId ∧ w.url = request.url := by
        show ((s.db.webhooks.only chainId).rows.find? _) = _
        rw [Table.rows_only]
        exact find_own_hook s.db.webhooks.rows chainId request.url
      have hregistered : (s.chains.only chainId).find? chainId = s.chains.find? chainId :=
        Table.find?_only fun _ hkey => hkey
      simp only [Server.perform, Server.of, hfind, hregistered, upsertWebhook_of hserial]
      split <;> rfl
  | deleteWebhook id => simp only [Server.perform, Server.of, deleteWebhook_of]
  | webhookDelivered id height hash =>
      simp only [Server.perform, Server.of, webhookDelivered_of hown]
  | webhookFailed id error now disableBefore =>
      simp only [Server.perform, Server.of, webhookFailed_of]

/-- An operation other than a registration gives no hook an id. -/
theorem hooks_perform {w : WebhooksRow} (hop : ∀ r c n, op ≠ .upsertWebhook r c n)
    (hw : w ∈ (s.perform serial chainId op).1.db.webhooks.rows) :
    ∃ old ∈ s.db.webhooks.rows, old.id = w.id := by
  have hmodify : ∀ {f : WebhooksRow → WebhooksRow}, (∀ r, (f r).id = r.id) →
      w ∈ s.db.webhooks.rows.map f → ∃ old ∈ s.db.webhooks.rows, old.id = w.id := by
    intro f hf hin
    obtain ⟨old, hold, rfl⟩ := List.mem_map.mp hin
    exact ⟨old, hold, (hf old).symm⟩
  cases op with
  | insertBlocks blocks extractor =>
      simp only [Server.perform] at hw
      cases hinsert : insertBlocks s.db chainId blocks extractor with
      | none =>
          rw [hinsert] at hw
          exact ⟨w, hw, rfl⟩
      | some db =>
          rw [hinsert] at hw
          have hhooks := webhooks_insertBlocks hinsert
          exact ⟨w, hhooks ▸ hw, rfl⟩
  | rollbackTo height =>
      refine hmodify ?_ hw
      intro r
      split <;> rfl
  | reindexActionAddresses extractor =>
      simp only [Server.perform] at hw
      cases hrun : reindexActionAddresses s.db chainId extractor with
      | none =>
          rw [hrun] at hw
          exact ⟨w, hw, rfl⟩
      | some result =>
          rw [hrun] at hw
          exact ⟨w, webhooks_reindexFrom hrun ▸ hw, rfl⟩
  | registerChain displayName blocksTopic syncProtocol finalityDepth now => exact ⟨w, hw, rfl⟩
  | upsertWebhook request cursorHeight now => exact absurd rfl (hop request cursorHeight now)
  | deleteWebhook id => exact ⟨w, List.mem_of_mem_filter hw, rfl⟩
  | webhookDelivered id height hash =>
      refine hmodify ?_ hw
      intro r
      split <;> rfl
  | webhookFailed id error now disableBefore =>
      refine hmodify ?_ hw
      intro r
      split <;> rfl

end

/-! ## The serial of a new hook -/

def WebhooksRow.renumber (serial serial' : Int) (w : WebhooksRow) : WebhooksRow :=
  if w.id = serial then { w with id := serial' } else w

def OperationResult.renumber (serial serial' : Int) : OperationResult → OperationResult
  | .hook w => .hook (w.renumber serial serial')
  | result => result

/-- The rows of a server, with the hooks as a list. -/
structure ServerRows where
  tables : Database
  hooks : List WebhooksRow
  chains : List ChainsRow

def Server.contents (s : Server) : ServerRows :=
  ⟨{ s.db with webhooks := .empty }, s.db.webhooks.rows, s.chains.rows⟩

def ServerRows.renumber (serial serial' : Int) (rows : ServerRows) : ServerRows :=
  { rows with hooks := rows.hooks.map (WebhooksRow.renumber serial serial') }

theorem renumber_of_ne {serial serial' : Int} {w : WebhooksRow} (h : w.id ≠ serial) :
    w.renumber serial serial' = w := if_neg h

theorem contents_renumber {s : Server} {serial serial' : Int} (h : s.Unused serial) :
    s.contents.renumber serial serial' = s.contents := by
  have hhooks : s.db.webhooks.rows.map (WebhooksRow.renumber serial serial') =
      s.db.webhooks.rows := by
    conv_rhs => rw [← List.map_id s.db.webhooks.rows]
    exact List.map_congr_left fun w hw => renumber_of_ne (h w hw)
  rw [ServerRows.renumber, Server.contents, hhooks]

section

variable [Postgres] {s s' : Server} {serial serial' : Int} {chainId : String}
  {op : ChainOperation}

/-- Nothing but the id of a new hook comes from the sequence. -/
theorem perform_renumber (h : s.Unused serial) (h' : s.Unused serial') :
    (s.perform serial' chainId op).1.contents =
        (s.perform serial chainId op).1.contents.renumber serial serial' ∧
      (s.perform serial' chainId op).2 =
        (s.perform serial chainId op).2.renumber serial serial' := by
  by_cases hop : ∀ r c n, op ≠ .upsertWebhook r c n
  · have hsame : s.perform serial' chainId op = s.perform serial chainId op := by
      cases op with
      | upsertWebhook r c n => exact absurd rfl (hop r c n)
      | _ => rfl
    have hunused : (s.perform serial chainId op).1.Unused serial := by
      intro w hw hid
      obtain ⟨old, hold, hsameId⟩ := hooks_perform hop hw
      exact h old hold (hsameId.trans hid)
    rw [hsame, contents_renumber hunused]
    refine ⟨rfl, ?_⟩
    cases op with
    | upsertWebhook r c n => exact absurd rfl (hop r c n)
    | insertBlocks blocks extractor =>
        simp only [Server.perform]
        cases insertBlocks s.db chainId blocks extractor <;> rfl
    | reindexActionAddresses extractor =>
        simp only [Server.perform]
        cases reindexActionAddresses s.db chainId extractor <;> rfl
    | _ => rfl
  · simp only [not_forall, not_not] at hop
    obtain ⟨r, cursorHeight, now, rfl⟩ := hop
    simp only [Server.perform]
    split
    · exact ⟨(contents_renumber h).symm, rfl⟩
    · unfold upsertWebhook
      split
      · next old hold =>
          have hmem := List.mem_of_find?_eq_some hold
          refine ⟨(contents_renumber ?_).symm, ?_⟩
          · intro w hw hid
            obtain ⟨w', hw', rfl⟩ := List.mem_map.mp hw
            apply h w' hw'
            rw [← hid]
            split <;> rfl
          · have hrearmed : (r.rearm cursorHeight old).id ≠ serial := h old hmem
            exact congrArg OperationResult.hook (renumber_of_ne hrearmed).symm
      · have hnew : ∀ n, s.Unused n →
            (s.db.webhooks.insertRow (r.row chainId cursorHeight n now)).rows =
              s.db.webhooks.rows ++ [r.row chainId cursorHeight n now] := by
          intro n hn
          apply Table.rows_insertRow_of_notMem
          intro hmem
          obtain ⟨w, hw, hid⟩ := List.mem_map.mp hmem
          exact hn w hw hid
        have hrow : (r.row chainId cursorHeight serial now).renumber serial serial' =
            r.row chainId cursorHeight serial' now := if_pos rfl
        have hold : s.db.webhooks.rows.map (WebhooksRow.renumber serial serial') =
            s.db.webhooks.rows := congrArg ServerRows.hooks (contents_renumber h)
        constructor
        · simp only [Server.contents, ServerRows.renumber, hnew serial h, hnew serial' h',
            List.map_append, List.map_cons, List.map_nil, hrow, hold]
        · exact congrArg OperationResult.hook hrow.symm

/-- Two servers with the same rows of a chain. An operation for the chain leaves the rows of
every other one, and its result and the rows it leaves of the chain itself are the same on
both servers, up to the serial of a new hook. -/
theorem chains_isolated (hsame : s.of chainId = s'.of chainId)
    (hown : op.OnOwnHook s chainId) (hown' : op.OnOwnHook s' chainId)
    (hserial : s.Unused serial) (hserial' : s'.Unused serial') :
    (∀ other, chainId ≠ other → (s.perform serial chainId op).1.of other = s.of other) ∧
      ((s'.perform serial' chainId op).1.of chainId).contents =
        ((s.perform serial chainId op).1.of chainId).contents.renumber serial serial' ∧
      (s'.perform serial' chainId op).2 =
        (s.perform serial chainId op).2.renumber serial serial' := by
  have hunused : ∀ {t : Server} {n : Int}, t.Unused n → (t.of chainId).Unused n :=
    fun h w hw => h w (Table.mem_only.mp hw).1
  have hleft := perform_of hown hserial
  have hright := perform_of hown' hserial'
  have hrenumber := @perform_renumber _ (s.of chainId) serial serial' chainId op
    (hunused hserial) (hsame ▸ hunused hserial')
  rw [hleft, hsame, hright] at hrenumber
  exact ⟨fun other h => perform_other h hown, hrenumber⟩

end

def hookRow (id : Int) (chainId : String) : WebhooksRow :=
  { id, chainId, url := "https://example", secret := "0123456789abcdef", address := none
    events := [eventAction], cursorHeight := 0, enabled := true, failingSince := none
    lastError := none, createdAt := 0 }

/-- Two chains, each with one hook. -/
def twoTenants : Server where
  db := { webhooks := Table.empty.insertMissing [hookRow 1 "a", hookRow 2 "b"] }
  chains := Table.empty.insertMissing [⟨"a", none, "t", "p", 0, 0⟩, ⟨"b", none, "t", "p", 0, 0⟩]

/-- The first of them alone. -/
def oneTenant : Server where
  db := { webhooks := Table.empty.insertMissing [hookRow 1 "a"] }
  chains := Table.empty.insertMissing [⟨"a", none, "t", "p", 0, 0⟩]

def newHook : ChainOperation :=
  .upsertWebhook { url := "https://new", secret := "0123456789abcdef", address := none,
                   events := [eventAction], fromHeight := none } 7 0

theorem chains_isolated_newHook :
    (∀ other, "a" ≠ other →
        (@Server.perform .plain twoTenants 3 "a" newHook).1.of other = twoTenants.of other) ∧
      ((@Server.perform .plain oneTenant 2 "a" newHook).1.of "a").contents =
        ((@Server.perform .plain twoTenants 3 "a" newHook).1.of "a").contents.renumber 3 2 ∧
      (@Server.perform .plain oneTenant 2 "a" newHook).2 =
        (@Server.perform .plain twoTenants 3 "a" newHook).2.renumber 3 2 := by
  apply @chains_isolated .plain twoTenants oneTenant 3 2 "a" newHook
  · rfl
  · trivial
  · trivial
  · show ∀ w ∈ twoTenants.db.webhooks.rows, w.id ≠ 3
    decide
  · show ∀ w ∈ oneTenant.db.webhooks.rows, w.id ≠ 2
    decide

end Retracer
