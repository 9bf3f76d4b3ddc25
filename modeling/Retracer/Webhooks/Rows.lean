import Retracer.Webhooks.Dispatch

/-! # The rows of the hooks

What a registration writes stays in a row until the next one. Only the cursor moves: back
with a rollback, and to the height of a block that was delivered. The dispatcher holds
copies of rows, and moves the cursor of a copy when it moves that of the row.
-/

namespace Retracer

open KeyedTable Sorting Execution

/-! ## One row -/

/-- All that a registration decides, but for the cursor. -/
structure WebhooksRow.SameHook (w w' : WebhooksRow) : Prop where
  id : w'.id = w.id
  chainId : w'.chainId = w.chainId
  url : w'.url = w.url
  secret : w'.secret = w.secret
  address : w'.address = w.address
  events : w'.events = w.events

theorem WebhooksRow.SameHook.refl {w : WebhooksRow} : w.SameHook w := ⟨rfl, rfl, rfl, rfl, rfl, rfl⟩

/-- The cursor is not of what a registration decides. -/
theorem WebhooksRow.SameHook.moved {u v : WebhooksRow} (h : u.SameHook v) (cursorHeight : Int) :
    u.SameHook { v with cursorHeight } :=
  ⟨h.id, h.chainId, h.url, h.secret, h.address, h.events⟩

theorem WebhooksRow.SameHook.trans {u v w : WebhooksRow} (h : u.SameHook v) (h' : v.SameHook w) :
    u.SameHook w :=
  ⟨h'.id.trans h.id, h'.chainId.trans h.chainId, h'.url.trans h.url, h'.secret.trans h.secret,
    h'.address.trans h.address, h'.events.trans h.events⟩

theorem mem_listWebhooks {db : Database} {chainId : String} {w : WebhooksRow}
    (h : w ∈ listWebhooks db chainId) : w ∈ db.webhooks.rows ∧ w.chainId = chainId := by
  have hmem := List.mem_filter.mp ((List.mem_insertionSort _).mp h)
  exact ⟨hmem.1, of_decide_eq_true hmem.2⟩

/-! ## The rows after a statement -/

section

variable {db db' : Database} {chainId : String} {w' row : WebhooksRow}

theorem mem_rewindWebhooks {height : Int}
    (h : w' ∈ (rewindWebhooks chainId height db.webhooks).rows) :
    ∃ w ∈ db.webhooks.rows, w.SameHook w' ∧
      (height < w.cursorHeight ∧ w'.cursorHeight = height ∨
        w'.cursorHeight = w.cursorHeight ∧ (w.chainId = chainId → w.cursorHeight ≤ height)) := by
  obtain ⟨w, hw, rfl⟩ := List.mem_map.mp h
  refine ⟨w, hw, ?_⟩
  split
  · next habove => exact ⟨⟨rfl, rfl, rfl, rfl, rfl, rfl⟩, Or.inl ⟨habove.2, rfl⟩⟩
  · next hbelow =>
      refine ⟨.refl, Or.inr ⟨rfl, fun hchain => ?_⟩⟩
      exact Int.not_lt.mp fun hlt => hbelow ⟨hchain, hlt⟩

theorem mem_webhookDelivered {id height : Int} {hash : String}
    (h : w' ∈ (webhookDelivered db id height hash).1.webhooks.rows) :
    ∃ w ∈ db.webhooks.rows, w.SameHook w' ∧
      (w'.cursorHeight = w.cursorHeight ∨ w.id = id ∧
        blockIsStored db w.chainId height hash = true ∧ w'.cursorHeight = height) := by
  obtain ⟨w, hw, rfl⟩ := List.mem_map.mp h
  refine ⟨w, hw, ?_⟩
  split
  · next hhit => exact ⟨⟨rfl, rfl, rfl, rfl, rfl, rfl⟩, Or.inr ⟨hhit.1, hhit.2, rfl⟩⟩
  · exact ⟨.refl, Or.inl rfl⟩

theorem found_webhookDelivered {id height : Int} {hash : String} :
    (webhookDelivered db id height hash).2 = true ↔
      ∃ w ∈ db.webhooks.rows, w.id = id ∧ blockIsStored db w.chainId height hash = true := by
  simp [webhookDelivered]

theorem mem_webhookFailed {id now disableBefore : Int} {error : String}
    (h : w' ∈ (webhookFailed db id error now disableBefore).webhooks.rows) :
    ∃ w ∈ db.webhooks.rows, w.SameHook w' ∧ w'.cursorHeight = w.cursorHeight := by
  obtain ⟨w, hw, rfl⟩ := List.mem_map.mp h
  refine ⟨w, hw, ?_⟩
  split
  · exact ⟨⟨rfl, rfl, rfl, rfl, rfl, rfl⟩, rfl⟩
  · exact ⟨.refl, rfl⟩

theorem upsertWebhook_webhooks (db : Database) (chainId : String) (r : HookRequest)
    (cursorHeight nextId now : Int) :
    ∃ t, (upsertWebhook db chainId r cursorHeight nextId now).1 = { db with webhooks := t } := by
  unfold upsertWebhook
  split
  · exact ⟨_, rfl⟩
  · exact ⟨_, rfl⟩

/-- The row a registration returns: the old one rewritten, or a new one. -/
structure HookRequest.Wrote (r : HookRequest) (db : Database) (chainId : String)
    (cursorHeight nextId : Int) (row : WebhooksRow) : Prop where
  chainId : row.chainId = chainId
  url : row.url = r.url
  secret : row.secret = r.secret
  address : row.address = r.address
  events : row.events = r.events
  cursor : row.cursorHeight = cursorHeight
  id : row.id = nextId ∨ ∃ old ∈ db.webhooks.rows, old.url = r.url ∧ old.id = row.id

theorem upsertWebhook_spec {r : HookRequest} {cursorHeight nextId now : Int}
    (hfresh : ∀ w ∈ db.webhooks.rows, w.id ≠ nextId)
    (h : upsertWebhook db chainId r cursorHeight nextId now = (db', row)) :
    r.Wrote db chainId cursorHeight nextId row ∧
      ∀ w ∈ db'.webhooks.rows, w = row ∨ w ∈ db.webhooks.rows ∧ w.id ≠ row.id := by
  unfold upsertWebhook at h
  split at h
  · next old hold =>
      cases h
      have hmem := List.mem_of_find?_eq_some hold
      have hurl := List.find?_some hold
      simp only [decide_eq_true_eq] at hurl
      refine ⟨⟨hurl.1, hurl.2, rfl, rfl, rfl, rfl, Or.inr ⟨old, hmem, hurl.2, rfl⟩⟩, ?_⟩
      intro w hw
      obtain ⟨w, hin, rfl⟩ := List.mem_map.mp hw
      split
      · next hid => exact Or.inl (congrArg _ (db.webhooks.eq_of_key_eq hin hmem hid))
      · next hid => exact Or.inr ⟨hin, hid⟩
  · cases h
    refine ⟨⟨rfl, rfl, rfl, rfl, rfl, rfl, Or.inl rfl⟩, ?_⟩
    intro w hw
    have hnew : key (r.row chainId cursorHeight nextId now) ∉ db.webhooks.rows.map key := by
      intro hmem
      obtain ⟨old, hold, hid⟩ := List.mem_map.mp hmem
      exact hfresh old hold hid
    rw [Table.rows_insertRow_of_notMem hnew] at hw
    rcases List.mem_append.mp hw with hin | hlast
    · exact Or.inr ⟨hin, hfresh w hin⟩
    · exact Or.inl (List.mem_singleton.mp hlast)

end

/-! ## A step -/

/-- What is known of every row and of every copy: a registration returned it. -/
structure HookState.Sane (c : HookConfig) (s : HookState) : Prop where
  rows : ∀ w ∈ s.store.db.webhooks.rows, w.chainId = c.chainId ∧ ∃ r ∈ s.registered, r.id = w.id
  held : ∀ w ∈ s.dispatcher.held, ∃ r ∈ s.registered, r.id = w.id
  ids : ∀ r ∈ s.registered, r.id < s.nextId

/-- How a step moves the cursor of a row. -/
inductive HookState.Moved (c : HookConfig) (s : HookState) (w w' : WebhooksRow) :
    HookOp → Prop where
  | stays {op} (hcursor : w'.cursorHeight = w.cursorHeight)
      (hspares : ∀ height, op = .store (.rollback height) → w.cursorHeight ≤ height) :
      Moved c s w w' op
  | rewound {height} (hlt : height < w.cursorHeight) (hcursor : w'.cursorHeight = height) :
      Moved c s w w' (.store (.rollback height))
  | delivered {tip hook block later pending more}
      (hphase : s.dispatcher = .draining tip hook (.posting [] block later) pending more)
      (hid : w.id = hook.id)
      (hstored : blockIsStored s.store.db c.chainId block.height block.hash = true)
      (hcursor : w'.cursorHeight = block.height) : Moved c s w w' .mark

section

variable {c : HookConfig} {s s' : HookState} {op : HookOp}

theorem HookState.Sane.fresh (h : s.Sane c) : ∀ w ∈ s.store.db.webhooks.rows, w.id ≠ s.nextId := by
  intro w hw heq
  obtain ⟨_, r, hr, hid⟩ := h.rows w hw
  have hlt := h.ids r hr
  omega

variable [Postgres] [Collation]

omit [Collation] in
theorem webhooks_insertBlocks {db db' : Database} {chainId : String} {extractor : AddressExtractor}
    {blocks : List IndexableBlock} (h : insertBlocks db chainId blocks extractor = some db') :
    db'.webhooks = db.webhooks := by
  induction blocks generalizing db with
  | nil =>
      cases h
      rfl
  | cons block blocks ih =>
      rw [insertBlocks_cons, Option.bind_eq_some_iff] at h
      obtain ⟨mid, hmid, hrest⟩ := h
      obtain ⟨_, _, hwritten⟩ := written_of_insert hmid
      rw [ih hrest, hwritten.webhooks]

omit [Collation] in
theorem HookState.row_of_chainStep {op : ChainOp} {store : StoreState}
    (hs : chainStep c.chainId c.extractor s.store op = some store) (hsane : s.Sane c)
    {w' : WebhooksRow} (hw' : w' ∈ store.db.webhooks.rows) :
    ∃ w ∈ s.store.db.webhooks.rows, w.SameHook w' ∧ s.Moved c w w' (.store op) := by
  cases op with
  | insert blocks =>
      have hrows : store.db.webhooks = s.store.db.webhooks := by
        rcases chainStep_insert hs with rfl | ⟨_, db, hdb, rfl⟩
        · rfl
        · exact webhooks_insertBlocks hdb
      rw [hrows] at hw'
      exact ⟨w', hw', .refl, .stays rfl (fun _ hop => by cases hop)⟩
  | rollback height =>
      cases hs
      obtain ⟨w, hw, hsame, hmoved⟩ := mem_rewindWebhooks hw'
      refine ⟨w, hw, hsame, ?_⟩
      rcases hmoved with ⟨hlt, hcursor⟩ | ⟨hcursor, hle⟩
      · exact .rewound hlt hcursor
      · apply HookState.Moved.stays hcursor
        intro target hop
        cases hop
        exact hle (hsane.rows w hw).1

omit [Postgres] [Collation] in
theorem HookState.row_of_mark {tip : Int} {hook : WebhooksRow} {block : BlockRow}
    {later : List BlockRow} {pending more : List WebhooksRow}
    (hphase : s.dispatcher = .draining tip hook (.posting [] block later) pending more)
    (hsane : s.Sane c) {w' : WebhooksRow}
    (hw' : w' ∈ (webhookDelivered s.store.db hook.id block.height block.hash).1.webhooks.rows) :
    ∃ w ∈ s.store.db.webhooks.rows, w.SameHook w' ∧ s.Moved c w w' .mark := by
  obtain ⟨w, hw, hsame, hmoved⟩ := mem_webhookDelivered hw'
  refine ⟨w, hw, hsame, ?_⟩
  rcases hmoved with hcursor | ⟨hid, hstored, hcursor⟩
  · exact .stays hcursor (fun _ hop => nomatch hop)
  · rw [(hsane.rows w hw).1] at hstored
    exact .delivered hphase hid hstored hcursor

omit [Postgres] [Collation] in
theorem HookState.store_advance (s : HookState) (tip : Int) (hook : WebhooksRow) (block : BlockRow)
    (later : List BlockRow) (pending more : List WebhooksRow) :
    (s.advance c tip hook block later pending more).store = s.store := by
  cases later <;> rfl

omit [Postgres] [Collation] in
theorem HookState.registered_advance (s : HookState) (tip : Int) (hook : WebhooksRow)
    (block : BlockRow) (later : List BlockRow) (pending more : List WebhooksRow) :
    (s.advance c tip hook block later pending more).registered = s.registered := by
  cases later <;> rfl

/-- Every row after a step is a row before it, or what a registration wrote. -/
theorem HookState.Stepped.row (hs : s.Stepped c op s') (hsane : s.Sane c) {w' : WebhooksRow}
    (hw' : w' ∈ s'.store.db.webhooks.rows) :
    (∃ w ∈ s.store.db.webhooks.rows, w.SameHook w' ∧ s.Moved c w w' op ∧
      ∀ row ∈ s'.registered.drop s.registered.length, w.id ≠ row.id) ∨
      ∃ place now r, op = .upsert place now ∧ s.registering[place]? = some r ∧
        r.request.Wrote s.store.db c.chainId r.cursorHeight s.nextId w' ∧
        s'.registered = s.registered ++ [w'] := by
  have hnone : ∀ (w : WebhooksRow), ∀ row ∈ s.registered.drop s.registered.length, w.id ≠ row.id :=
    fun w row hrow => by simp at hrow
  have hstays : ∀ op', (∀ height, op' ≠ .store (.rollback height)) →
      w' ∈ s.store.db.webhooks.rows →
      ∃ w ∈ s.store.db.webhooks.rows, w.SameHook w' ∧ s.Moved c w w' op' ∧
        ∀ row ∈ s.registered.drop s.registered.length, w.id ≠ row.id := by
    intro op' hop hmem
    exact ⟨w', hmem, .refl, .stays rfl fun height heq => absurd heq (hop height), hnone w'⟩
  cases hs with
  | store hstore =>
      obtain ⟨w, hw, hsame, hmoved⟩ := HookState.row_of_chainStep hstore hsane hw'
      exact Or.inl ⟨w, hw, hsame, hmoved, hnone w⟩
  | upsert hplace hupsert =>
      obtain ⟨hwrote, hrows⟩ := upsertWebhook_spec hsane.fresh hupsert
      rcases hrows w' hw' with rfl | ⟨hmem, hne⟩
      · exact Or.inr ⟨_, _, _, rfl, hplace, hwrote, rfl⟩
      · refine Or.inl ⟨w', hmem, .refl, .stays rfl (fun _ hop => nomatch hop), ?_⟩
        intro row hrow
        rw [List.drop_left, List.mem_singleton] at hrow
        rw [hrow]
        exact hne
  | remove =>
      exact Or.inl (hstays _ (fun _ => HookOp.noConfusion) (List.mem_of_mem_filter hw'))
  | mark hphase _ =>
      rw [HookState.store_advance] at hw'
      obtain ⟨w, hw, hsame, hmoved⟩ := HookState.row_of_mark hphase hsane hw'
      rw [HookState.registered_advance]
      exact Or.inl ⟨w, hw, hsame, hmoved, hnone w⟩
  | markMissed hphase _ =>
      obtain ⟨w, hw, hsame, hmoved⟩ := HookState.row_of_mark hphase hsane hw'
      exact Or.inl ⟨w, hw, hsame, hmoved, hnone w⟩
  | record hphase hdb =>
      rcases hdb with rfl | rfl
      · exact Or.inl (hstays _ (fun _ => HookOp.noConfusion) hw')
      · obtain ⟨w, hw, hsame, hcursor⟩ := mem_webhookFailed hw'
        exact Or.inl ⟨w, hw, hsame, .stays hcursor (fun _ hop => nomatch hop), hnone w⟩
  | status | restart | refused | register _ | wake _ | allDisabled _ | list _ | noTip _
  | readTip _ | cap _ _ | selectNone _ | select _ _ _ | readActions _ _ _ | readNone _
  | read _ _ _ | post _ | postFailed _ | failEarly | fail _ =>
      exact Or.inl (hstays _ (fun _ => HookOp.noConfusion) hw')

/-- Whatever is not a commit or a rollback changes the hooks at most. -/
theorem HookState.Stepped.store_eq (hs : s.Stepped c op s') (hop : ∀ chainOp, op ≠ .store chainOp) :
    ∃ t, s'.store = { s.store with db := { s.store.db with webhooks := t } } := by
  cases hs with
  | store _ => exact absurd rfl (hop _)
  | @upsert place now r db row hplace hupsert =>
      obtain ⟨t, ht⟩ :=
        upsertWebhook_webhooks s.store.db c.chainId r.request r.cursorHeight s.nextId now
      rw [hupsert] at ht
      exact ⟨t, by rw [← ht]; rfl⟩
  | mark _ _ =>
      rw [HookState.store_advance]
      exact ⟨_, rfl⟩
  | record _ hdb =>
      rcases hdb with rfl | rfl
      · exact ⟨s.store.db.webhooks, rfl⟩
      · exact ⟨_, rfl⟩
  | remove | markMissed _ _ => exact ⟨_, rfl⟩
  | _ => exact ⟨s.store.db.webhooks, rfl⟩

/-- Where a copy comes from. -/
inductive HookState.Copied (c : HookConfig) (s : HookState) (op : HookOp) (w : WebhooksRow) :
    Prop where
  | held (hheld : w ∈ s.dispatcher.held) : Copied c s op w
  | listed (hop : op = .list) (hlisted : w ∈ listWebhooks s.store.db c.chainId) : Copied c s op w
  | moved {tip hook block later pending more} (hop : op = .mark)
      (hphase : s.dispatcher = .draining tip hook (.posting [] block later) pending more)
      (hfound : (webhookDelivered s.store.db hook.id block.height block.hash).2 = true)
      (hcopy : w = { hook with cursorHeight := block.height }) : Copied c s op w

omit [Postgres] [Collation] in
/-- The copies of a round are those that are left, once the hook is done. -/
theorem HookState.held_finish (s : HookState) {tip : Int} {hook w : WebhooksRow}
    {pending more : List WebhooksRow} {owed : Bool}
    (hw : w ∈ (s.finish tip hook pending more owed).dispatcher.held) :
    w = hook ∨ w ∈ pending ++ more := by
  have hheld : (s.finish tip hook pending more owed).dispatcher.held =
      pending ++ (if owed then more ++ [hook] else more) := Dispatcher.held_proceed _ _ _
  rw [hheld] at hw
  cases owed with
  | false => exact Or.inr hw
  | true =>
      rw [if_pos rfl, ← List.append_assoc] at hw
      rcases List.mem_append.mp hw with hin | hlast
      · exact Or.inr hin
      · exact Or.inl (List.mem_singleton.mp hlast)

omit [Postgres] [Collation] in
theorem HookState.mem_held {tip : Int} {hook w : WebhooksRow} {phase : DrainPhase}
    {pending more : List WebhooksRow}
    (hphase : s.dispatcher = .draining tip hook phase pending more)
    (hw : w = hook ∨ w ∈ pending ++ more) : w ∈ s.dispatcher.held := by
  rw [hphase]
  exact List.mem_cons.mpr hw

theorem HookState.Stepped.copied (hs : s.Stepped c op s') {w : WebhooksRow}
    (hw : w ∈ s'.dispatcher.held) : s.Copied c op w := by
  cases hs with
  | store _ | status | refused | register _ | upsert _ _ | remove => exact .held hw
  | restart | wake _ | allDisabled _ | noTip _ | failEarly => cases hw
  | list _ => exact .listed rfl hw
  | readTip hphase =>
      apply HookState.Copied.held
      rw [hphase]
      exact hw
  | cap hphase _ =>
      apply HookState.Copied.held
      rw [hphase]
      rw [Dispatcher.held_proceed, List.append_nil] at hw
      exact List.mem_of_mem_filter (List.mem_of_mem_filter hw)
  | selectNone hphase => exact .held (HookState.mem_held hphase (s.held_finish hw))
  | select hphase _ _ => exact .held (HookState.mem_held hphase (List.mem_cons.mp hw))
  | readActions hphase _ _ => exact .held (HookState.mem_held hphase (List.mem_cons.mp hw))
  | readNone hphase => exact .held (HookState.mem_held hphase (s.held_finish hw))
  | read hphase _ _ => exact .held (HookState.mem_held hphase (List.mem_cons.mp hw))
  | post hphase => exact .held (HookState.mem_held hphase (List.mem_cons.mp hw))
  | postFailed hphase => exact .held (HookState.mem_held hphase (List.mem_cons.mp hw))
  | @mark tip hook pending more block later hphase hfound =>
      have hor : w = { hook with cursorHeight := block.height } ∨ w ∈ pending ++ more := by
        cases later with
        | nil => exact HookState.held_finish _ hw
        | cons next later => exact List.mem_cons.mp hw
      rcases hor with hcopy | hin
      · exact .moved rfl hphase hfound hcopy
      · exact .held (HookState.mem_held hphase (Or.inr hin))
  | markMissed hphase _ => exact .held (HookState.mem_held hphase (HookState.held_finish _ hw))
  | fail hphase => exact .held (HookState.mem_held hphase (List.mem_cons.mp hw))
  | record hphase _ =>
      rw [Dispatcher.held_proceed] at hw
      exact .held (HookState.mem_held hphase (Or.inr hw))

/-- Registrations are only added. -/
theorem HookState.Stepped.registered (hs : s.Stepped c op s') :
    s.registered <+: s'.registered := by
  cases hs with
  | upsert _ _ => exact List.prefix_append _ _
  | mark _ _ =>
      rw [HookState.registered_advance]
      exact List.prefix_refl _
  | _ => exact List.prefix_refl _

/-- Posts are only added. -/
theorem HookState.Stepped.posts (hs : s.Stepped c op s') : s.posts <+: s'.posts := by
  cases hs with
  | post _ | postFailed _ => exact List.prefix_append _ _
  | @mark _ _ _ _ _ later _ _ => cases later <;> exact List.prefix_refl _
  | _ => exact List.prefix_refl _

theorem HookState.Stepped.answered (hs : s.Stepped c (.post none) s') {tip : Int}
    {hook : WebhooksRow} {delivery : Delivery} {owed : List Delivery} {block : BlockRow}
    {later : List BlockRow} {pending more : List WebhooksRow}
    (hphase : s.dispatcher =
      .draining tip hook (.posting (delivery :: owed) block later) pending more) :
    { hook, block, delivery, answered := true } ∈ s'.posts.drop s.posts.length := by
  cases hs with
  | post hphase' =>
      cases hphase'.symm.trans hphase
      rw [List.drop_left]
      exact List.mem_singleton_self _

theorem sane_step (h : s.Sane c) (hs : s.Stepped c op s') : s'.Sane c := by
  have hgrows : ∀ {id : Int}, (∃ r ∈ s.registered, r.id = id) → ∃ r ∈ s'.registered, r.id = id := by
    rintro id ⟨r, hr, hid⟩
    exact ⟨r, hs.registered.subset hr, hid⟩
  refine ⟨?_, ?_, ?_⟩
  · intro w' hw'
    rcases hs.row h hw' with ⟨w, hw, hsame, _⟩ | ⟨_, _, r, _, _, hwrote, hadded⟩
    · obtain ⟨hchain, hreg⟩ := h.rows w hw
      rw [hsame.chainId, hsame.id]
      exact ⟨hchain, hgrows hreg⟩
    · rw [hadded]
      exact ⟨hwrote.chainId, w', List.mem_append_right _ (List.mem_singleton_self _), rfl⟩
  · intro w hw
    cases hs.copied hw with
    | held hheld => exact hgrows (h.held w hheld)
    | listed _ hlisted => exact hgrows (h.rows w (mem_listWebhooks hlisted).1).2
    | moved _ hphase _ hcopy =>
        have hhook := h.held _ (HookState.mem_held hphase (Or.inl rfl))
        rw [hcopy]
        exact hgrows hhook
  · cases hs with
    | @upsert place now r db row hplace hupsert =>
        intro r' hr'
        show r'.id < s.nextId + 1
        rcases List.mem_append.mp hr' with hold | hnew
        · have hlt := h.ids r' hold
          omega
        · rw [List.mem_singleton.mp hnew]
          rcases (upsertWebhook_spec h.fresh hupsert).1.id with hid | ⟨old, hold, _, hid⟩
          · omega
          · obtain ⟨_, r₀, hr₀, heq⟩ := h.rows old hold
            have hlt := h.ids r₀ hr₀
            omega
    | @mark _ _ _ _ _ later _ _ => cases later <;> exact h.ids
    | _ => exact h.ids

omit [Postgres] [Collation] in
theorem sane_empty : HookState.Sane c {} :=
  ⟨(fun _ hw => nomatch hw), (fun _ hw => nomatch hw), fun _ hr => nomatch hr⟩

end

end Retracer
