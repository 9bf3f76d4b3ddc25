import Mathlib.Data.List.Infix
import Retracer.Webhooks.Pages

/-! # Registering again

A registration rewrites the row of its URL while the dispatcher may hold a copy from before.
The copy is listed anew before the next round, but until then it can still mark blocks, and
the cursor it writes is where the old registration had come. What is posted after the
registration can be followed from the first copy that was made after it.
-/

namespace Retracer

open KeyedTable Execution

/-! ## The runs in question -/

/-- The dispatcher may still have copies from before: it has not listed the hooks since. -/
def stale (before : Bool) (_ : HookState) (op : HookOp) (_ : HookState) : Bool :=
  match op with
  | .list | .restart => false
  | _ => before

/-- A copy from before does not find its block stored. -/
def MarksFresh (c : HookConfig) (id : Int) (before : Bool) (s : HookState) (op : HookOp)
    (_ : HookState) : Prop :=
  ∀ marked ∈ s.marking op, before = true → marked.1.id = id →
    blockIsStored s.store.db c.chainId marked.2.height marked.2.hash = false

/-- No rollback, and no other registration of the URL. -/
def Undisturbed (url : String) (s : HookState) (op : HookOp) (_ : HookState) : Prop :=
  match op with
  | .store (.rollback _) => False
  | .upsert place _ => ∀ r ∈ s.registering[place]?, r.request.url ≠ url
  | _ => True

instance (c : HookConfig) (id : Int) (before : Bool) (s : HookState) (op : HookOp)
    (s' : HookState) : Decidable (MarksFresh c id before s op s') :=
  inferInstanceAs (Decidable (∀ marked ∈ s.marking op, _ → _ → _))

instance (url : String) (s : HookState) (op : HookOp) (s' : HookState) :
    Decidable (Undisturbed url s op s') := by
  unfold Undisturbed
  split <;> infer_instance

def HookState.PostedSince (s : HookState) (n : Nat) (id : Int) (d : Delivery) : Prop :=
  ∃ post ∈ s.posts.drop n, post.hook.id = id ∧ post.delivery = d

/-! ## Cursors of registrations -/

/-- A request that asks for a height starts right below it. -/
def HookState.Requested (s : HookState) : Prop :=
  ∀ r ∈ s.registering, ∀ f, r.request.fromHeight = some f → r.cursorHeight = (f : Int) - 1

theorem registerCursor_some {tip cursor : Int} {f : Nat}
    (h : registerCursor tip (some f) = .ok cursor) : cursor = (f : Int) - 1 := by
  simp only [registerCursor] at h
  split at h
  · cases h
    rfl
  · cases h

section

variable [Postgres] [Collation] {c : HookConfig} {s s' : HookState} {op : HookOp}

theorem requested_step (h : s.Requested) (hs : s.Stepped c op s') : s'.Requested := by
  cases hs with
  | @register body r hcursor =>
      intro r' hr' f hf
      rcases List.mem_append.mp hr' with hold | hnew
      · exact h r' hold f hf
      · rw [List.mem_singleton.mp hnew] at hf ⊢
        rw [hf] at hcursor
        exact registerCursor_some hcursor
  | upsert _ _ => exact fun r hr => h r (List.mem_of_mem_eraseIdx hr)
  | restart => exact fun r hr => nomatch hr
  | @mark _ _ _ _ _ later _ _ => cases later <;> exact h
  | _ => exact h

end

/-! ## After the registration -/

/-- A row or a copy that has what was registered, and covers what is stored from there on. -/
structure HookState.Armed [Collation] (c : HookConfig) (w₁ : WebhooksRow) (n : Nat)
    (s : HookState) (w : WebhooksRow) : Prop where
  hook : w₁.SameHook w
  cursor : w₁.cursorHeight ≤ w.cursorHeight
  covers : Covers c (s.PostedSince n w₁.id) w₁.cursorHeight w₁ s.store w.cursorHeight

/-- All that is stored when a page is read stays. -/
def SeenPrefix (now : StoreState) (seen : StoreState) (trust : Int) : Prop :=
  trust + 1 = seen.kept.length ∧ seen.kept <+: now.kept

/-- `n` is the number of posts when `w₁` was registered. -/
structure HookState.Rearmed [Postgres] [Collation] (c : HookConfig) (w₁ : WebhooksRow) (n : Nat)
    (before : Bool) (s : HookState) : Prop where
  sane : s.Sane c
  kept : Kept c.chainId c.extractor s.store
  registered : w₁ ∈ s.registered
  posts : n ≤ s.posts.length
  rows : ∀ w ∈ s.store.db.webhooks.rows, w.id = w₁.id → s.Armed c w₁ n w
  held : before = false → ∀ w ∈ s.dispatcher.held, w.id = w₁.id → s.Armed c w₁ n w
  page : before = false → s.dispatcher.PageOk c (s.PostedSince n w₁.id) w₁.cursorHeight w₁.id
    (SeenPrefix s.store) s.store

section

variable [Postgres] [Collation] {c : HookConfig} {w₁ w : WebhooksRow} {n : Nat} {before : Bool}
  {s s' : HookState} {op : HookOp}

theorem HookState.Stepped.posted_mono (hs : s.Stepped c op s') (n : Nat) (id : Int) :
    ∀ d, s.PostedSince n id d → s'.PostedSince n id d := by
  rintro d ⟨post, hpost, hposted⟩
  exact ⟨post, (List.IsPrefix.drop hs.posts n).subset hpost, hposted⟩

/-- What was stored is stored, and what was covered is covered. -/
theorem HookState.Stepped.covers (hs : s.Stepped c op s')
    (hquiet : Undisturbed w₁.url s op s') {k : Int}
    (h : Covers c (s.PostedSince n w₁.id) w₁.cursorHeight w₁ s.store k) :
    Covers c (s'.PostedSince n w₁.id) w₁.cursorHeight w₁ s'.store k := by
  rcases op.store_or with ⟨chainOp, rfl⟩ | hop
  · cases hs with
    | store hstore =>
        apply h.chainStep hstore
        intro target htarget
        subst htarget
        exact absurd hquiet id
  · obtain ⟨t, ht⟩ := hs.store_eq hop
    rw [ht]
    exact (h.withHooks t).mono (hs.posted_mono n w₁.id)

theorem HookState.Stepped.kept_prefix (hs : s.Stepped c op s')
    (hquiet : Undisturbed w₁.url s op s') : s.store.kept <+: s'.store.kept := by
  rcases op.store_or with ⟨chainOp, rfl⟩ | hop
  · cases hs with
    | store hstore =>
        cases chainOp with
        | rollback height => exact absurd hquiet id
        | insert blocks =>
            rcases chainStep_insert hstore with rfl | ⟨_, db, _, rfl⟩
            · exact List.prefix_refl _
            · exact List.prefix_append _ _
  · obtain ⟨t, ht⟩ := hs.store_eq hop
    rw [ht]

theorem HookState.Armed.step (h : s.Armed c w₁ n w) (hs : s.Stepped c op s')
    (hquiet : Undisturbed w₁.url s op s') : s'.Armed c w₁ n w :=
  ⟨h.hook, h.cursor, hs.covers hquiet h.covers⟩

/-- A block that is marked from a copy made since covers up to it. -/
theorem HookState.Rearmed.marked (h : s.Rearmed c w₁ n false) {tip : Int} {hook : WebhooksRow}
    {block : BlockRow} {later : List BlockRow} {pending more : List WebhooksRow}
    (hphase : s.dispatcher = .draining tip hook (.posting [] block later) pending more)
    (hid : hook.id = w₁.id) :
    w₁.cursorHeight ≤ block.height ∧
      Covers c (s.PostedSince n w₁.id) w₁.cursorHeight w₁ s.store block.height := by
  have harmed := h.held rfl hook (HookState.mem_held hphase (Or.inl rfl)) hid
  have hpage := h.page rfl
  rw [hphase] at hpage
  obtain ⟨seen, trust, ⟨htrust, rest, hprefix⟩, hposted⟩ := hpage hid
  have hbelow := hposted.below block List.mem_cons_self
  have habove := hposted.above block List.mem_cons_self
  have hcursor := harmed.cursor
  have hcovered := (hposted.covered (by omega)).filter harmed.hook.address.symm
    harmed.hook.events.symm
  have htake : seen.kept.take (block.height + 1).toNat =
      s.store.kept.take (block.height + 1).toNat := by
    rw [← hprefix, List.take_append_of_le_length (by omega)]
  have hlength : seen.kept.length ≤ s.store.kept.length := by
    rw [← hprefix, List.length_append]
    exact Nat.le_add_right _ _
  exact ⟨by omega, hcovered.same (hposted.kept.sameUpTo h.kept htake) (Or.inr (by omega))⟩

theorem HookState.Rearmed.rows_step (h : s.Rearmed c w₁ n before) (hs : s.Stepped c op s')
    (hquiet : Undisturbed w₁.url s op s') (hmarks : MarksFresh c w₁.id before s op s') :
    ∀ w ∈ s'.store.db.webhooks.rows, w.id = w₁.id → s'.Armed c w₁ n w := by
  intro w' hw' hid
  rcases hs.row h.sane hw' with ⟨w, hw, hsame, hmoved, _⟩ | ⟨place, _, r, rfl, hplace, hwrote, _⟩
  · have hwid : w.id = w₁.id := hsame.id.symm.trans hid
    have harmed := h.rows w hw hwid
    cases hmoved with
    | stays hcursor _ =>
        refine ⟨harmed.hook.trans hsame, ?_, ?_⟩
        · rw [hcursor]
          exact harmed.cursor
        · rw [hcursor]
          exact hs.covers hquiet harmed.covers
    | rewound _ _ => exact absurd hquiet id
    | @delivered tip hook block later pending more hphase hhookId hstored hcursor =>
        have hhook : hook.id = w₁.id := hhookId.symm.trans hwid
        have hmarked := hmarks _ (HookState.marking_of_posting hphase)
        have hfresh : before = false := by
          rw [← Bool.not_eq_true]
          intro hbefore
          rw [hmarked hbefore hhook] at hstored
          cases hstored
        subst hfresh
        obtain ⟨hle, hcovers⟩ := h.marked hphase hhook
        refine ⟨harmed.hook.trans hsame, ?_, ?_⟩
        · rw [hcursor]
          exact hle
        · rw [hcursor]
          exact hs.covers hquiet hcovers
  · rcases hwrote.id with hnext | ⟨old, hold, hurl, holdId⟩
    · have hlt := h.sane.ids w₁ h.registered
      omega
    · have harmed := h.rows old hold (holdId.trans hid)
      exact absurd (hurl.symm.trans harmed.hook.url) (hquiet r hplace)

theorem HookState.Rearmed.held_step (h : s.Rearmed c w₁ n false) (hs : s.Stepped c op s')
    (hquiet : Undisturbed w₁.url s op s') :
    ∀ w ∈ s'.dispatcher.held, w.id = w₁.id → s'.Armed c w₁ n w := by
  intro w hw hid
  cases hs.copied hw with
  | held hheld => exact (h.held rfl w hheld hid).step hs hquiet
  | listed _ hlisted => exact (h.rows w (mem_listWebhooks hlisted).1 hid).step hs hquiet
  | @moved tip hook block later pending more _ hphase _ hcopy =>
      subst hcopy
      have hhook := (h.held rfl hook (HookState.mem_held hphase (Or.inl rfl)) hid).hook
      obtain ⟨hle, hcovers⟩ := h.marked hphase hid
      exact ⟨hhook.moved block.height, hle, hs.covers hquiet hcovers⟩

/-- Copies made now, or none. -/
theorem HookState.Rearmed.listed (h : s.Rearmed c w₁ n true) (hs : s.Stepped c op s')
    (hquiet : Undisturbed w₁.url s op s') (hlisted : stale true s op s' = false) :
    (∀ w ∈ s'.dispatcher.held, w.id = w₁.id → s'.Armed c w₁ n w) ∧
      s'.dispatcher.PageOk c (s'.PostedSince n w₁.id) w₁.cursorHeight w₁.id
        (SeenPrefix s'.store) s'.store := by
  have hall := hs
  cases hs with
  | restart => exact ⟨(fun w hw => nomatch hw), trivial⟩
  | allDisabled _ => exact ⟨(fun w hw => nomatch hw), trivial⟩
  | list _ =>
      refine ⟨fun w hw hid => ?_, trivial⟩
      exact (h.rows w (mem_listWebhooks hw).1 hid).step hall hquiet
  | _ => cases hlisted

theorem HookState.Rearmed.page_step (h : s.Rearmed c w₁ n false) (hs : s.Stepped c op s')
    (hquiet : Undisturbed w₁.url s op s') :
    s'.dispatcher.PageOk c (s'.PostedSince n w₁.id) w₁.cursorHeight w₁.id
      (SeenPrefix s'.store) s'.store := by
  have hprefix := hs.kept_prefix hquiet
  have hseen : ∀ seen trust, SeenPrefix s.store seen trust → SeenPrefix s'.store seen trust :=
    fun seen trust hseen => ⟨hseen.1, hseen.2.trans hprefix⟩
  rcases op.store_or with ⟨chainOp, rfl⟩ | hop
  · cases hs with
    | store hstore =>
        cases chainOp with
        | rollback height => exact absurd hquiet id
        | insert blocks => exact (h.page rfl).insert hstore hseen
  · apply hs.pageOk hop h.sane h.kept (fun _ => h.page rfl) (hs.posted_mono n w₁.id)
      (fun seen trust _ => hseen seen trust)
    · intro tip hook r pending more hselect hphase hid _ _
      subst hselect
      have hcopy := hs.copied (HookState.mem_held hphase (Or.inl rfl))
      cases hcopy with
      | held hheld =>
          have harmed := h.held rfl hook hheld hid
          have hcovers := harmed.covers.filter harmed.hook.address harmed.hook.events
          refine ⟨hcovers.mono (hs.posted_mono n w₁.id), s.store.kept.length - 1, ⟨?_, hprefix⟩, ?_⟩
          · omega
          · omega
      | listed hop _ => cases hop
      | moved hop _ _ _ => cases hop
    · intro tip hook delivery owed block later pending more hpost hphase hid
      subst hpost
      exact ⟨{ hook, block, delivery, answered := true },
        List.drop_subset_drop_left _ h.posts (hs.answered hphase), hid, rfl⟩
    · intro tip hook block later pending more seen trust _ _ _ _ hseen hposted
      have hbelow := hposted.below block List.mem_cons_self
      have htrust := hseen.1
      omega

theorem HookState.Rearmed.step (h : s.Rearmed c w₁ n before) (hs : s.Stepped c op s')
    (hquiet : Undisturbed w₁.url s op s') (hmarks : MarksFresh c w₁.id before s op s') :
    s'.Rearmed c w₁ n (stale before s op s') := by
  have hcopies : stale before s op s' = false →
      (∀ w ∈ s'.dispatcher.held, w.id = w₁.id → s'.Armed c w₁ n w) ∧
        s'.dispatcher.PageOk c (s'.PostedSince n w₁.id) w₁.cursorHeight w₁.id
          (SeenPrefix s'.store) s'.store := by
    intro hstale
    cases before with
    | true => exact h.listed hs hquiet hstale
    | false => exact ⟨h.held_step hs hquiet, h.page_step hs hquiet⟩
  exact ⟨sane_step h.sane hs, hs.kept h.kept, hs.registered.subset h.registered,
    h.posts.trans hs.posts.length_le, h.rows_step hs hquiet hmarks,
    fun hstale => (hcopies hstale).1, fun hstale => (hcopies hstale).2⟩

/-- Right after the registration nothing above its cursor is covered, and nothing needs to be. -/
theorem HookState.rearmed {s₁ : HookState} {place : Nat} {now : Int} {r : Registration}
    (hsane : s.Sane c) (hkept : Kept c.chainId c.extractor s.store)
    (hplace : s.registering[place]? = some r) (hs : s.Stepped c (.upsert place now) s₁)
    (hrow : s₁.registered = s.registered ++ [w₁]) :
    s₁.Rearmed c w₁ s₁.posts.length true ∧
      r.request.Wrote s.store.db c.chainId r.cursorHeight s.nextId w₁ := by
  have hsane₁ := sane_step hsane hs
  have hkept₁ := hs.kept hkept
  have hmem : w₁ ∈ s₁.registered := by
    rw [hrow]
    exact List.mem_append_right _ (List.mem_singleton_self _)
  cases hs with
  | @upsert _ _ r' db row hplace' hupsert =>
      obtain ⟨hwrote, hrows⟩ := upsertWebhook_spec hsane.fresh hupsert
      obtain rfl : r' = r := Option.some.inj (hplace'.symm.trans hplace)
      obtain rfl : row = w₁ := List.singleton_inj.mp (List.append_cancel_left hrow)
      refine ⟨⟨hsane₁, hkept₁, hmem, Nat.le_refl _, ?_, (fun h => nomatch h),
        fun h => nomatch h⟩,
        hwrote⟩
      intro w hw hid
      rcases hrows w hw with rfl | ⟨_, hne⟩
      · exact ⟨.refl, Int.le_refl _, .of_le_base (Int.le_refl _)⟩
      · exact absurd hid hne

end

/-- Once a registration from a height has returned, and until the next one or a rollback, the
row keeps its filter, and its cursor only stands above a height when all that the blocks from
there on owe it was posted since. -/
theorem registration_is_not_undone [Postgres] [Collation] {c : HookConfig} {w₁ : WebhooksRow}
    {earlier later : List HookOp} {s₀ s₁ s : HookState} {place f : Nat} {now : Int}
    {r : Registration} (hbefore : exec (hookStep c) {} earlier = some s₀)
    (hplace : s₀.registering[place]? = some r) (hfrom : r.request.fromHeight = some f)
    (hreturned : hookStep c s₀ (.upsert place now) = some s₁)
    (hrow : s₁.registered = s₀.registered ++ [w₁])
    (hquiet : Always (hookStep c) (Undisturbed r.request.url) s₁ later)
    (hmarks : EveryStep (hookStep c) stale (MarksFresh c w₁.id) true s₁ later)
    (hafter : exec (hookStep c) s₁ later = some s) :
    ∀ w ∈ s.store.db.webhooks.rows, w.id = w₁.id →
      w.secret = r.request.secret ∧ w.address = r.request.address ∧
        w.events = r.request.events ∧ (f : Int) - 1 ≤ w.cursorHeight ∧
        ∀ h : Int, f ≤ h → h ≤ w.cursorHeight →
          ∀ b, storedBlock s.store.db c.chainId h = some b →
            ∀ d ∈ deliveries w c.extractor b, ∃ post ∈ s.posts.drop s₁.posts.length,
              post.hook.id = w.id ∧ post.delivery = d := by
  have hreached : s₀.Sane c ∧ Kept c.chainId c.extractor s₀.store ∧ s₀.Requested := by
    apply exec_preserves _ ⟨sane_empty, kept_empty, fun r hr => nomatch hr⟩ hbefore
    rintro s op s' ⟨hsane, hkept, hrequested⟩ hs
    have hstepped := HookState.stepped hs
    exact ⟨sane_step hsane hstepped, hstepped.kept hkept, requested_step hrequested hstepped⟩
  obtain ⟨hsane, hkept, hrequested⟩ := hreached
  obtain ⟨h₁, hwrote⟩ := HookState.rearmed hsane hkept hplace (HookState.stepped hreturned) hrow
  rw [← hwrote.url] at hquiet
  obtain ⟨before, h⟩ := exec_invariant (I := fun before s =>
      HookState.Rearmed c w₁ s₁.posts.length before s)
    (by
      rintro before s op s' h hs ⟨hquiet, hmarks⟩
      exact h.step (HookState.stepped hs) hquiet hmarks)
    h₁ ((everyStep_of_always hquiet).and hmarks) hafter
  intro w hw hid
  have harmed := h.rows w hw hid
  have hcursor : w₁.cursorHeight = (f : Int) - 1 := by
    rw [hwrote.cursor]
    exact hrequested r (List.mem_of_getElem? hplace) f hfrom
  have hle := harmed.cursor
  refine ⟨harmed.hook.secret.trans hwrote.secret, harmed.hook.address.trans hwrote.address,
    harmed.hook.events.trans hwrote.events, by omega, ?_⟩
  intro n hlo hhi b hb d hd
  obtain ⟨post, hpost, hpostId, hdelivery⟩ :=
    (harmed.covers.filter harmed.hook.address harmed.hook.events).events n (by omega) hhi b hb d hd
  exact ⟨post, hpost, hpostId.trans hid.symm, hdelivery⟩

/-! ## Concrete runs -/

/-- The states before and after a registration of the receiver, and at the end. -/
def aroundRegistration (earlier later : List HookOp) :
    Option (HookState × HookState × HookState) := do
  let s₀ ← exec smallHookStep {} earlier
  let s₁ ← smallHookStep s₀ (.upsert 0 0)
  let s ← exec smallHookStep s₁ later
  some (s₀, s₁, s)

theorem runs_of_aroundRegistration {earlier later : List HookOp} {s₀ s₁ s : HookState}
    (h : aroundRegistration earlier later = some (s₀, s₁, s)) :
    exec smallHookStep {} earlier = some s₀ ∧ smallHookStep s₀ (.upsert 0 0) = some s₁ ∧
      exec smallHookStep s₁ later = some s := by
  simp only [aroundRegistration, Option.bind_eq_bind, Option.bind_eq_some_iff, Option.some.injEq,
    Prod.mk.injEq] at h
  obtain ⟨_, h₀, _, h₁, _, h₂, rfl, rfl, rfl⟩ := h
  exact ⟨h₀, h₁, h₂⟩

/-- What the request was, the row it wrote, and whether nothing disturbs it. -/
def wroteFrom (f : Nat) (later : List HookOp) (s₀ s₁ : HookState) : Bool :=
  (s₀.registering[0]?).any fun r => (s₁.registered.getLast?).any fun w =>
    s₁.registered.length = s₀.registered.length + 1 ∧ r.request.fromHeight = some f ∧ w.id = 1 ∧
      Always smallHookStep (Undisturbed r.request.url) s₁ later

theorem spec_of_wroteFrom {f : Nat} {later : List HookOp} {s₀ s₁ : HookState}
    (hreturned : smallHookStep s₀ (.upsert 0 0) = some s₁)
    (h : wroteFrom f later s₀ s₁ = true) :
    ∃ r w₁, s₀.registering[0]? = some r ∧ r.request.fromHeight = some f ∧ w₁.id = 1 ∧
      s₁.registered = s₀.registered ++ [w₁] ∧
      Always smallHookStep (Undisturbed r.request.url) s₁ later := by
  simp only [wroteFrom, Option.any_eq_true, decide_eq_true_eq] at h
  obtain ⟨r, hr, w, hw, hlength, hfrom, hid, hquiet⟩ := h
  have hstepped := @HookState.stepped .plain .plain _ _ _ _ hreturned
  obtain ⟨added, hadded⟩ := @HookState.Stepped.registered _ _ _ _ .plain .plain hstepped
  rw [← hadded, List.length_append, Nat.add_left_cancel_iff] at hlength
  obtain ⟨w', rfl⟩ := List.length_eq_one_iff.mp hlength
  rw [← hadded, List.getLast?_concat, Option.some.injEq] at hw
  subst hw
  exact ⟨r, w', hr, hfrom, hid, hadded.symm, hquiet⟩

/-- A hook that is owed block 1, and a second registration while the page is posted. -/
def halfPosted : List HookOp :=
  [.store (.insert [.bare 0 "g" "", .transfer 1 "a" "g" "alice" "tx", .bare 2 "b" "a"])] ++
    registration 1 ++ firstPage 0

/-- The post in progress fails, and the next page is from the new row. -/
def postedAgain : List HookOp :=
  [.post (some "receiver answered 503"), .record 0 0 true] ++ firstPage 5 ++
    [.post none, .mark, .mark]

theorem registration_is_not_undone_posted_again :
    ∃ s₁ s, (∃ s₀, aroundRegistration (halfPosted ++ [.register (.receiver 1)]) postedAgain =
        some (s₀, s₁, s)) ∧ s₁.posts.length = 0 ∧ s.posts.length = 2 ∧
      ∃ w ∈ s.store.db.webhooks.rows, w.cursorHeight = 2 ∧
        ∀ b, @storedBlock .plain s.store.db "main" 1 = some b →
          ∀ d ∈ deliveries w (.tierAOnly .empty) b, ∃ post ∈ s.posts.drop s₁.posts.length,
            post.hook.id = w.id ∧ post.delivery = d := by
  have hany : (aroundRegistration (halfPosted ++ [.register (.receiver 1)]) postedAgain).any
      (fun (s₀, s₁, s) => wroteFrom 1 postedAgain s₀ s₁ ∧
        EveryStep smallHookStep stale (MarksFresh .small 1) true s₁ postedAgain ∧
        s₁.posts.length = 0 ∧ s.posts.length = 2 ∧ s.cursors.2 = [(1, 2)]) = true := by decide
  obtain ⟨⟨s₀, s₁, s⟩, hrun, hfacts⟩ := (Option.any_eq_true _ _).mp hany
  obtain ⟨hwrote, hmarks, hposts₁, hposts, hrows⟩ := of_decide_eq_true hfacts
  obtain ⟨hbefore, hreturned, hafter⟩ := runs_of_aroundRegistration hrun
  obtain ⟨r, w₁, hplace, hfrom, hid₁, hrow, hquiet⟩ := spec_of_wroteFrom hreturned hwrote
  obtain ⟨w, hmem, hid, hcursor⟩ := HookState.row_of_cursors hrows
  rw [← hid₁] at hmarks
  have hposted := (@registration_is_not_undone .plain .plain .small w₁ _ _ s₀ s₁ s 0 1 0 r hbefore
    hplace hfrom hreturned hrow hquiet hmarks hafter w hmem (hid.trans hid₁.symm)).2.2.2.2
    1 (Int.le_refl _) (by omega)
  exact ⟨s₁, s, ⟨s₀, hrun⟩, hposts₁, hposts, w, hmem, hcursor, hposted⟩

/-- Block 1 is marked before the second registration, and block 2 after it. -/
def markedAcross : List HookOp := halfPosted ++ [.post none, .mark, .register (.receiver 1)]

theorem registration_is_undone :
    ¬ ∀ (earlier later : List HookOp) (s₀ s₁ s : HookState) (place f : Nat) (now : Int)
      (r : Registration) (w₁ : WebhooksRow), exec smallHookStep {} earlier = some s₀ →
      s₀.registering[place]? = some r → r.request.fromHeight = some f →
      smallHookStep s₀ (.upsert place now) = some s₁ →
      s₁.registered = s₀.registered ++ [w₁] →
      Always smallHookStep (Undisturbed r.request.url) s₁ later →
      exec smallHookStep s₁ later = some s →
      ∀ w ∈ s.store.db.webhooks.rows, w.id = w₁.id →
        ∀ h : Int, f ≤ h → h ≤ w.cursorHeight →
          ∀ b, @storedBlock .plain s.store.db "main" h = some b →
            ∀ d ∈ deliveries w (.tierAOnly .empty) b, ∃ post ∈ s.posts.drop s₁.posts.length,
              post.hook.id = w.id ∧ post.delivery = d := by
  intro hclaim
  have hany : (aroundRegistration markedAcross [.mark]).any
      (fun (s₀, s₁, s) => wroteFrom 1 [.mark] s₀ s₁ ∧ s.posts.length = s₁.posts.length ∧
        s.cursors.2 = [(1, 2)] ∧ (s.store.db.webhooks.rows.all fun w =>
          (@storedBlock .plain s.store.db "main" 1).any fun b =>
            (deliveries w (.tierAOnly .empty) b).length = 1) = true) = true := by decide
  obtain ⟨⟨s₀, s₁, s⟩, hrun, hfacts⟩ := (Option.any_eq_true _ _).mp hany
  obtain ⟨hwrote, hposts, hrows, howed⟩ := of_decide_eq_true hfacts
  obtain ⟨hbefore, hreturned, hafter⟩ := runs_of_aroundRegistration hrun
  obtain ⟨r, w₁, hplace, hfrom, hid₁, hrow, hquiet⟩ := spec_of_wroteFrom hreturned hwrote
  obtain ⟨w, hmem, hid, hcursor⟩ := HookState.row_of_cursors hrows
  obtain ⟨b, hb, hone⟩ := (Option.any_eq_true _ _).mp (List.all_eq_true.mp howed w hmem)
  obtain ⟨d, hd⟩ := List.length_eq_one_iff.mp (of_decide_eq_true hone)
  obtain ⟨post, hpost, _⟩ := hclaim markedAcross [.mark] s₀ s₁ s 0 1 0 r w₁ hbefore hplace hfrom
    hreturned hrow hquiet hafter w hmem (hid.trans hid₁.symm) 1 (Int.le_refl _) (by omega) b hb d
    (by simp [hd])
  rw [← hposts, List.drop_length] at hpost
  cases hpost

end Retracer
