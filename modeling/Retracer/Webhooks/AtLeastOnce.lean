import Retracer.Library.HashChain
import Retracer.Webhooks.Pages

/-! # Delivered at least once, across reorgs

A cursor may stand on a block only when all that the stored blocks up to it owe was
answered. The hash that `webhook_delivered` looks for stands for the whole chain below it,
so a page of an orphaned branch marks nothing. That needs the page to be one of the branch:
read from a cursor that no rollback had gone below since the dispatcher copied it, and not
cut into by a rollback between its statements.
-/

namespace Retracer

open KeyedTable Execution HashChain

/-! ## The runs in question -/

/-- Every block names the one before as its parent. -/
abbrev Chained (blocks : List IndexableBlock) : Prop :=
  HashChain.Linked IndexableBlock.hash IndexableBlock.parentHash blocks

def HookOp.commits : HookOp → List IndexableBlock
  | .store (.insert blocks) => blocks
  | _ => []

/-- Up to which height the page in progress is relied on: its last, when it starts at a
cursor the row still has, and lower after a rollback while it is being read. -/
def trusted (trust : Option Int) (s : HookState) (op : HookOp) (s' : HookState) : Option Int :=
  match op, s'.dispatcher with
  | .select, .draining _ hook (.reading r) _ _ =>
      if ∃ w ∈ s.store.db.webhooks.rows, w.id = hook.id ∧ hook.cursorHeight ≤ w.cursorHeight then
        some r.hi
      else none
  | .store (.rollback height), d => trust.map (d.cut height)
  | _, _ => trust

/-- A block of the hook that is found stored is one the page is relied on for. -/
def MarksTrusted (c : HookConfig) (id : Int) (trust : Option Int) (s : HookState) (op : HookOp)
    (_ : HookState) : Prop :=
  ∀ marked ∈ s.marking op, marked.1.id = id →
    blockIsStored s.store.db c.chainId marked.2.height marked.2.hash = true →
      (trust.any fun T => marked.2.height ≤ T) = true

instance (c : HookConfig) (id : Int) (trust : Option Int) (s : HookState) (op : HookOp)
    (s' : HookState) : Decidable (MarksTrusted c id trust s op s') :=
  inferInstanceAs (Decidable (∀ marked ∈ s.marking op, _ → _ → _))

def HookState.Answered (s : HookState) (id : Int) (d : Delivery) : Prop :=
  ∃ post ∈ s.posts, post.hook.id = id ∧ post.delivery = d ∧ post.answered = true

def HookState.RegisteredOnce (s : HookState) (w : WebhooksRow) : Prop :=
  s.registered.filter (·.id = w.id) = [w]

/-! ## Along a run -/

/-- Read from a chain of known blocks, and relied on up to there. -/
def SeenChain (Known : IndexableBlock → Prop) (trust : Int) (seen : StoreState) (T : Int) : Prop :=
  T = trust ∧ Chained seen.kept ∧ ∀ b ∈ seen.kept, Known b

/-- The row covers what is stored up to its cursor, and so do the pages. -/
structure HookState.Served [Postgres] [Collation] (c : HookConfig) (w₀ : WebhooksRow)
    (Known : IndexableBlock → Prop) (trust : Option Int) (s : HookState) : Prop where
  rows : ∀ w ∈ s.store.db.webhooks.rows, w.id = w₀.id → w₀.SameHook w ∧
    Covers c (s.Answered w₀.id) w₀.cursorHeight w₀ s.store w.cursorHeight
  held : ∀ w ∈ s.dispatcher.held, w.id = w₀.id → w₀.SameHook w
  page : ∀ T ∈ trust, s.dispatcher.PageOk c (s.Answered w₀.id) w₀.cursorHeight w₀.id
    (SeenChain Known T) s.store

structure HookState.Tracked [Postgres] [Collation] (c : HookConfig) (w₀ : WebhooksRow)
    (Known : IndexableBlock → Prop) (trust : Option Int) (s : HookState) : Prop where
  sane : s.Sane c
  kept : Kept c.chainId c.extractor s.store
  chained : Chained s.store.kept
  known : ∀ b ∈ s.store.kept, Known b
  served : s.RegisteredOnce w₀ → s.Served c w₀ Known trust

section

variable [Postgres] [Collation] {c : HookConfig} {w₀ : WebhooksRow}
  {Known : IndexableBlock → Prop} {trust : Option Int} {s s' : HookState} {op : HookOp}

theorem HookState.Stepped.answered_mono (hs : s.Stepped c op s') (id : Int) :
    ∀ d, s.Answered id d → s'.Answered id d := by
  rintro d ⟨post, hpost, hanswered⟩
  exact ⟨post, hs.posts.subset hpost, hanswered⟩

/-- A hook that is registered once was so before, or is so from now on. -/
theorem HookState.Stepped.registeredOnce (hs : s.Stepped c op s')
    (honce : s'.RegisteredOnce w₀) :
    s.RegisteredOnce w₀ ∧ (∀ row ∈ s'.registered.drop s.registered.length, row.id ≠ w₀.id) ∨
      ∀ r ∈ s.registered, r.id ≠ w₀.id := by
  obtain ⟨added, hadded⟩ := hs.registered
  unfold HookState.RegisteredOnce at honce ⊢
  rw [← hadded, List.filter_append] at honce
  rw [← hadded, List.drop_left]
  cases hold : s.registered.filter (·.id = w₀.id) with
  | nil =>
      refine Or.inr fun r hr hid => ?_
      have hmem : r ∈ s.registered.filter (·.id = w₀.id) :=
        List.mem_filter.mpr ⟨hr, decide_eq_true hid⟩
      rw [hold] at hmem
      cases hmem
  | cons w rest =>
      rw [hold, List.cons_append, List.cons.injEq, List.append_eq_nil_iff] at honce
      obtain ⟨rfl, rfl, hnone⟩ := honce
      refine Or.inl ⟨rfl, fun row hrow hid => ?_⟩
      have hmem : row ∈ added.filter (·.id = w.id) :=
        List.mem_filter.mpr ⟨hrow, decide_eq_true hid⟩
      rw [hnone] at hmem
      cases hmem

omit [Collation] in
theorem known_chainStep {store store' : StoreState} {op : ChainOp}
    (hknown : ∀ b ∈ store.kept, Known b) (hcommits : ∀ b ∈ (HookOp.store op).commits, Known b)
    (hstep : chainStep c.chainId c.extractor store op = some store') :
    ∀ b ∈ store'.kept, Known b := by
  cases op with
  | insert blocks =>
      rcases chainStep_insert hstep with rfl | ⟨_, db, _, rfl⟩
      · exact hknown
      · intro b hb
        rcases List.mem_append.mp hb with hold | hnew
        · exact hknown b hold
        · exact hcommits b hnew
  | rollback height =>
      cases hstep
      exact fun b hb => hknown b (List.mem_of_mem_take hb)

/-- No row and no copy of a hook that is new is older than it. -/
theorem HookState.Tracked.first (h : s.Tracked c w₀ Known trust) (hs : s.Stepped c op s')
    (hnew : ∀ r ∈ s.registered, r.id ≠ w₀.id) (honce : s'.RegisteredOnce w₀)
    (trust' : Option Int) : s'.Served c w₀ Known trust' := by
  have hrow : ∀ w ∈ s.store.db.webhooks.rows, w.id ≠ w₀.id := by
    intro w hw hid
    obtain ⟨_, r, hr, heq⟩ := h.sane.rows w hw
    exact hnew r hr (heq.trans hid)
  have hcopy : ∀ w ∈ s.dispatcher.held, w.id ≠ w₀.id := by
    intro w hw hid
    obtain ⟨r, hr, heq⟩ := h.sane.held w hw
    exact hnew r hr (heq.trans hid)
  have hheld : ∀ w ∈ s'.dispatcher.held, w.id ≠ w₀.id := by
    intro w hw
    cases hs.copied hw with
    | held hheld => exact hcopy w hheld
    | listed _ hlisted => exact hrow w (mem_listWebhooks hlisted).1
    | moved _ hphase _ hmoved =>
        have hhook := hcopy _ (HookState.mem_held hphase (Or.inl rfl))
        rw [hmoved]
        exact hhook
  refine ⟨?_, fun w hw hid => absurd hid (hheld w hw), fun T _ => Dispatcher.pageOk_of_held hheld⟩
  intro w' hw' hid
  rcases hs.row h.sane hw' with ⟨w, hw, hsame, _⟩ | ⟨_, _, r, _, _, _, hadded⟩
  · exact absurd (hsame.id.symm.trans hid) (hrow w hw)
  · have hmem : w' ∈ s'.registered.filter (·.id = w₀.id) := by
      rw [hadded]
      exact List.mem_filter.mpr ⟨List.mem_append_right _ (List.mem_singleton_self _),
        decide_eq_true hid⟩
    rw [honce, List.mem_singleton] at hmem
    subst hmem
    exact ⟨.refl, .of_le_base (Int.le_refl _)⟩

omit [Collation] in
/-- The block found is the one seen, and so is all that is below it. -/
theorem sameUpTo_of_isStored [Collation] {seen now : StoreState} {block : BlockRow}
    (hseen : Kept c.chainId c.extractor seen) (hnow : Kept c.chainId c.extractor now)
    (hchained : Chained seen.kept) (hchained' : Chained now.kept)
    (hknown : ∀ b ∈ seen.kept, Known b) (hknown' : ∀ b ∈ now.kept, Known b)
    (hdistinct : Distinct IndexableBlock.hash Known)
    (hblock : storedBlock seen.db c.chainId block.height = some block)
    (hstored : blockIsStored now.db c.chainId block.height block.hash = true) :
    SameUpTo c.chainId block.height seen.db now.db ∧ block.height < now.kept.length := by
  obtain ⟨row, hrow, hhash, _⟩ := find_of_storedBlock hblock
  obtain ⟨hmem, hkey⟩ := Table.find?_eq_some_iff.mp hrow
  have hheight : row.height = block.height := congrArg Prod.snd hkey
  obtain ⟨row', hmem', hfound⟩ := List.any_eq_true.mp hstored
  simp only [decide_eq_true_eq] at hfound
  obtain ⟨_, hheight', hhash'⟩ := hfound
  obtain ⟨n, a, ha, hn, hahash⟩ := hseen.block_of_row hmem
  obtain ⟨m, b, hb, hm, hbhash⟩ := hnow.block_of_row hmem'
  have heq : m = n := by omega
  subst heq
  have htake : seen.kept.take (m + 1) = now.kept.take (m + 1) := by
    apply hchained.take_eq hchained' hdistinct hknown hknown' ha hb
    rw [hahash, hhash, hbhash, hhash']
  have hlength : m < now.kept.length := (List.getElem?_eq_some_iff.mp hb).1
  refine ⟨hseen.sameUpTo hnow ?_, by omega⟩
  have hcast : (block.height + 1).toNat = m + 1 := by omega
  rw [hcast]
  exact htake

/-- A block that is marked moves the cover up to it. -/
theorem HookState.Served.marked (h : s.Tracked c w₀ Known trust)
    (hserved : s.Served c w₀ Known trust) (hdistinct : Distinct IndexableBlock.hash Known)
    {tip : Int} {hook : WebhooksRow} {block : BlockRow} {later : List BlockRow}
    {pending more : List WebhooksRow}
    (hphase : s.dispatcher = .draining tip hook (.posting [] block later) pending more)
    (hid : hook.id = w₀.id)
    (hstored : blockIsStored s.store.db c.chainId block.height block.hash = true)
    (hmarks : MarksTrusted c w₀.id trust s .mark s') :
    Covers c (s.Answered w₀.id) w₀.cursorHeight w₀ s.store block.height := by
  obtain ⟨T, hT, hle⟩ := (Option.any_eq_true _ _).mp
    (hmarks _ (HookState.marking_of_posting hphase) hid hstored)
  simp only [decide_eq_true_eq] at hle
  have hpage := hserved.page T hT
  rw [hphase] at hpage
  obtain ⟨seen, _, ⟨rfl, hchained, hknown⟩, hposted⟩ := hpage hid
  have hhook := hserved.held hook (HookState.mem_held hphase (Or.inl rfl)) hid
  obtain ⟨hsame, hlt⟩ := sameUpTo_of_isStored hposted.kept h.kept hchained h.chained hknown
    h.known hdistinct (hposted.stored block List.mem_cons_self hle) hstored
  have hcovered := (hposted.covered hle).filter hhook.address.symm hhook.events.symm
  exact hcovered.same hsame (Or.inr hlt)

theorem HookState.Served.rows_step (h : s.Tracked c w₀ Known trust)
    (hserved : s.Served c w₀ Known trust) (hs : s.Stepped c op s')
    (hadded : ∀ row ∈ s'.registered.drop s.registered.length, row.id ≠ w₀.id)
    (hdistinct : Distinct IndexableBlock.hash Known)
    (hmarks : MarksTrusted c w₀.id trust s op s') :
    ∀ w ∈ s'.store.db.webhooks.rows, w.id = w₀.id → w₀.SameHook w ∧
      Covers c (s'.Answered w₀.id) w₀.cursorHeight w₀ s'.store w.cursorHeight := by
  intro w' hw' hid
  rcases hs.row h.sane hw' with ⟨w, hw, hsame, hmoved, _⟩ | ⟨_, _, r, _, _, _, hreg⟩
  · have hwid : w.id = w₀.id := hsame.id.symm.trans hid
    obtain ⟨hhook, hcovers⟩ := hserved.rows w hw hwid
    refine ⟨hhook.trans hsame, ?_⟩
    rcases op.store_or with ⟨chainOp, rfl⟩ | hop
    · cases hs with
      | store hstore =>
          cases hmoved with
          | stays hcursor hspares =>
              rw [hcursor]
              apply hcovers.chainStep hstore
              intro target htarget
              subst htarget
              exact hspares target rfl
          | rewound hlt hcursor =>
              rw [hcursor]
              apply (hcovers.below (Int.le_of_lt hlt)).chainStep hstore
              intro target htarget
              cases htarget
              exact Int.le_refl _
    · obtain ⟨t, ht⟩ := hs.store_eq hop
      rw [ht]
      apply (Covers.withHooks _ t).mono (hs.answered_mono w₀.id)
      cases hmoved with
      | stays hcursor _ =>
          rw [hcursor]
          exact hcovers
      | rewound _ _ => exact absurd rfl (hop _)
      | delivered hphase hhookId hstored hcursor =>
          rw [hcursor]
          exact hserved.marked h hdistinct hphase (hhookId.symm.trans hwid) hstored hmarks
  · have hmem : w' ∈ s'.registered.drop s.registered.length := by
      rw [hreg, List.drop_left]
      exact List.mem_singleton_self _
    exact absurd hid (hadded w' hmem)

theorem HookState.Served.held_step (hserved : s.Served c w₀ Known trust)
    (hs : s.Stepped c op s') : ∀ w ∈ s'.dispatcher.held, w.id = w₀.id → w₀.SameHook w := by
  intro w hw hid
  cases hs.copied hw with
  | held hheld => exact hserved.held w hheld hid
  | listed _ hlisted => exact (hserved.rows w (mem_listWebhooks hlisted).1 hid).1
  | @moved tip hook block later pending more _ hphase _ hcopy =>
      subst hcopy
      have hhook := hserved.held hook (HookState.mem_held hphase (Or.inl rfl)) hid
      exact hhook.moved block.height

/-- A page that starts is relied on when its cursor is covered. -/
theorem HookState.Served.selected (h : s.Tracked c w₀ Known trust)
    (hserved : s.Served c w₀ Known trust) {T tip : Int} {hook : WebhooksRow} {r : OpenRead}
    {pending more : List WebhooksRow}
    (hphase : s'.dispatcher = .draining tip hook (.reading r) pending more)
    (hhook : w₀.SameHook hook) (hne : r.rows ≠ [])
    (hrows : r.rows = selectBlocks s.store.db c.chainId (hook.cursorHeight + 1) tip c.pageSize)
    (hT : T ∈ trusted trust s .select s') :
    Covers c (s.Answered w₀.id) w₀.cursorHeight hook s.store hook.cursorHeight ∧
      ∃ trust, SeenChain Known T s.store trust ∧ trust < s.store.kept.length := by
  simp only [trusted, hphase] at hT
  split at hT
  · next hcursor =>
      cases hT
      obtain ⟨w, hw, hwid, hle⟩ := hcursor
      have hcovers := (hserved.rows w hw (hwid.trans hhook.id)).2
      refine ⟨(hcovers.below hle).filter hhook.address hhook.events, r.hi,
        ⟨rfl, h.chained, h.known⟩, ?_⟩
      apply OpenRead.hi_lt hne
      intro b hb
      rw [hrows] at hb
      exact h.kept.lt_of_selectBlocks hb
  · cases hT

theorem trusted_of_ne_select (hs : s.Stepped c op s') (hop : ∀ chainOp, op ≠ .store chainOp)
    (hne : op ≠ .select) : trusted trust s op s' = trust := by
  cases op with
  | select => exact absurd rfl hne
  | store chainOp => exact absurd rfl (hop chainOp)
  | _ => rfl

theorem HookState.Served.page_step (h : s.Tracked c w₀ Known trust)
    (hserved : s.Served c w₀ Known trust) (hs : s.Stepped c op s')
    (hmarks : MarksTrusted c w₀.id trust s op s') :
    ∀ T ∈ trusted trust s op s', s'.dispatcher.PageOk c (s'.Answered w₀.id) w₀.cursorHeight w₀.id
      (SeenChain Known T) s'.store := by
  intro T hT
  rcases op.store_or with ⟨chainOp, rfl⟩ | hop
  · cases hs with
    | @store _ store hstore =>
        cases chainOp with
        | insert blocks => exact (hserved.page T hT).insert hstore fun _ _ hseen => hseen
        | rollback height =>
            obtain ⟨T₀, hT₀, rfl⟩ := Option.map_eq_some_iff.mp hT
            apply (hserved.page T₀ hT₀).rollback hstore
            rintro seen T' ⟨rfl, hseen⟩
            exact ⟨rfl, hseen⟩
  · have hsame : op ≠ .select → T ∈ trust := by
      intro hne
      rw [trusted_of_ne_select hs hop hne] at hT
      exact hT
    apply hs.pageOk hop h.sane h.kept (fun hne => hserved.page T (hsame hne))
      (hs.answered_mono w₀.id) (fun _ _ _ hseen => hseen)
    · intro tip hook r pending more hselect hphase hid hne hrows
      subst hselect
      have hcopy : hook ∈ s'.dispatcher.held := HookState.mem_held hphase (Or.inl rfl)
      have hhook := hserved.held_step hs hook hcopy hid
      obtain ⟨hcovers, htrust⟩ := hserved.selected h hphase hhook hne hrows hT
      exact ⟨hcovers.mono (hs.answered_mono w₀.id), htrust⟩
    · intro tip hook delivery owed block later pending more hpost hphase hid
      subst hpost
      exact ⟨_, List.mem_of_mem_drop (hs.answered hphase), hid, rfl, rfl⟩
    · intro tip hook block later pending more seen T' hmark hphase hid hstored hseen _
      subst hmark
      obtain ⟨T₀, hT₀, hle⟩ := (Option.any_eq_true _ _).mp
        (hmarks _ (HookState.marking_of_posting hphase) hid hstored)
      rw [hseen.1, Option.some.inj (hT₀.symm.trans (hsame HookOp.noConfusion))] at *
      exact of_decide_eq_true hle

theorem HookState.Tracked.step (h : s.Tracked c w₀ Known trust) (hs : s.Stepped c op s')
    (hchained : Chained s'.store.kept) (hknown : ∀ b ∈ op.commits, Known b)
    (hdistinct : Distinct IndexableBlock.hash Known)
    (hmarks : MarksTrusted c w₀.id trust s op s') :
    s'.Tracked c w₀ Known (trusted trust s op s') := by
  have hknown' : ∀ b ∈ s'.store.kept, Known b := by
    rcases op.store_or with ⟨chainOp, rfl⟩ | hop
    · cases hs with
      | store hstore => exact known_chainStep h.known hknown hstore
    · obtain ⟨t, ht⟩ := hs.store_eq hop
      rw [ht]
      exact h.known
  refine ⟨sane_step h.sane hs, hs.kept h.kept, hchained, hknown', ?_⟩
  intro honce
  rcases hs.registeredOnce honce with ⟨hbefore, hadded⟩ | hnew
  · have hserved := h.served hbefore
    exact ⟨hserved.rows_step h hs hadded hdistinct hmarks, hserved.held_step hs,
      hserved.page_step h hs hmarks⟩
  · exact h.first hs hnew honce _

end

/-- Above the height at which a hook was registered, every event that the stored blocks up to
its cursor owe it was answered. -/
theorem every_event_is_answered [Postgres] [Collation] {c : HookConfig} {w₀ : WebhooksRow}
    {ops : List HookOp} {s : HookState}
    (hchained : Always (hookStep c) (fun _ _ s' => Chained s'.store.kept) {} ops)
    (hdistinct : Distinct IndexableBlock.hash (· ∈ ops.flatMap HookOp.commits))
    (hmarks : EveryStep (hookStep c) trusted (MarksTrusted c w₀.id) none {} ops)
    (hrun : exec (hookStep c) {} ops = some s) (honce : s.RegisteredOnce w₀) :
    ∀ w ∈ s.store.db.webhooks.rows, w.id = w₀.id →
      ∀ h, w₀.cursorHeight < h → h ≤ w.cursorHeight →
        ∀ b, storedBlock s.store.db c.chainId h = some b →
          ∀ d ∈ deliveries w c.extractor b, ∃ post ∈ s.posts,
            post.hook.id = w.id ∧ post.delivery = d ∧ post.answered = true := by
  have h0 : HookState.Tracked c w₀ (· ∈ ops.flatMap HookOp.commits) none {} := by
    refine ⟨sane_empty, kept_empty, .nil, (fun b hb => nomatch hb), ?_⟩
    intro honce
    cases honce
  have hcommits : Always (hookStep c)
      (fun _ op _ => ∀ b ∈ op.commits, b ∈ ops.flatMap HookOp.commits) {} ops := by
    apply always_of_forall
    intro op hop b hb
    exact List.mem_flatMap.mpr ⟨op, hop, hb⟩
  have hsteps := ((everyStep_of_always hchained).and (everyStep_of_always hcommits)).and hmarks
  obtain ⟨trust, htracked⟩ :=
    exec_invariant (I := HookState.Tracked c w₀ (· ∈ ops.flatMap HookOp.commits))
      (by
        rintro trust s op s' htracked hs ⟨⟨hchained, hknown⟩, hmarks⟩
        exact htracked.step (HookState.stepped hs) hchained hknown hdistinct hmarks)
      h0 hsteps hrun
  intro w hw hid h hlo hhi b hb d hd
  obtain ⟨hhook, hcovers⟩ := (htracked.served honce).rows w hw hid
  obtain ⟨post, hpost, hpostId, hrest⟩ :=
    (hcovers.filter hhook.address hhook.events).events h hlo hhi b hb d hd
  exact ⟨post, hpost, hpostId.trans hid.symm, hrest⟩

/-! ## Concrete runs -/

/-- The receiver refuses once, and after the delivery another branch takes height 1. -/
def redelivered : List HookOp :=
  [.store (.insert [.bare 0 "g" ""])] ++ registration 1 ++
    [.store (.insert [.transfer 1 "a" "g" "alice" "tx"])] ++ firstPage 0 ++
    [.post (some "receiver answered 503"), .record 0 0 true] ++ firstPage 5 ++
    [.post none, .mark, .store (.rollback 0),
      .store (.insert [.transfer 1 "b" "g" "carol" "ty"])] ++ firstPage 10 ++ [.post none, .mark]

theorem registeredOnce_of_cursors {s : HookState} {id cursor : Int}
    (h : s.registered.map (fun w => (w.id, w.cursorHeight)) = [(id, cursor)]) :
    ∃ w, s.RegisteredOnce w ∧ w.id = id ∧ w.cursorHeight = cursor := by
  obtain ⟨w, hw, heq⟩ := List.map_eq_singleton_iff.mp h
  obtain ⟨hid, hcursor⟩ := Prod.mk.inj heq
  exact ⟨w, by simp [HookState.RegisteredOnce, hw], hid, hcursor⟩

theorem every_event_is_answered_redelivered :
    ∃ s, exec smallHookStep {} redelivered = some s ∧ s.posts.length = 3 ∧
      ∃ w ∈ s.store.db.webhooks.rows, w.cursorHeight = 1 ∧
        ∀ b, @storedBlock .plain s.store.db "main" 1 = some b →
          ∀ d ∈ deliveries w (.tierAOnly .empty) b, ∃ post ∈ s.posts,
            post.hook.id = w.id ∧ post.delivery = d ∧ post.answered = true := by
  have hsome : (exec smallHookStep {} redelivered).map (fun s => (s.posts.length, s.cursors)) =
      some (3, [(1, 0)], [(1, 1)]) := by decide
  obtain ⟨s, hs, hall⟩ := Option.map_eq_some_iff.mp hsome
  obtain ⟨hlength, hcursors⟩ := Prod.mk.inj hall
  obtain ⟨hregistered, hrows⟩ := Prod.mk.inj hcursors
  obtain ⟨w₀, honce, hid₀, hcursor₀⟩ := registeredOnce_of_cursors hregistered
  obtain ⟨w, hmem, hid, hcursor⟩ := HookState.row_of_cursors hrows
  have hchained : Always smallHookStep (fun _ _ s' => Chained s'.store.kept) {} redelivered := by
    decide
  have hdistinct : Distinct IndexableBlock.hash (· ∈ redelivered.flatMap HookOp.commits) :=
    distinct_of_nodup (by decide)
  have hmarks : EveryStep smallHookStep trusted (MarksTrusted .small w₀.id) none {}
      redelivered := by
    rw [hid₀]
    decide
  have hanswered := @every_event_is_answered .plain .plain .small w₀ redelivered s hchained
    hdistinct hmarks hs honce w hmem (hid.trans hid₀.symm) 1 (by omega) (by omega)
  exact ⟨s, hs, hlength, w, hmem, hcursor, hanswered⟩

/-- After block 1 is delivered the hook is listed again, and before its page is read another
branch takes heights 1 and 2: the page starts at height 2. -/
def skippedBlock : List HookOp :=
  [.store (.insert [.bare 0 "g" "", .bare 1 "a1" "g"])] ++ registration 1 ++ firstPage 0 ++
    [.mark, .store (.insert [.bare 2 "a2" "a1"]), .wake, .list, .readTip, .store (.rollback 0),
      .store (.insert [.transfer 1 "b1" "g" "alice" "tx", .bare 2 "b2" "b1"]), .cap 0, .select,
      .read, .read, .mark]

theorem skipped_event_is_not_answered :
    ¬ ∀ (ops : List HookOp) (s : HookState) (w₀ : WebhooksRow),
      Always smallHookStep (fun _ _ s' => Chained s'.store.kept) {} ops →
      Distinct IndexableBlock.hash (· ∈ ops.flatMap HookOp.commits) →
      exec smallHookStep {} ops = some s → s.RegisteredOnce w₀ →
      ∀ w ∈ s.store.db.webhooks.rows, w.id = w₀.id →
        ∀ h, w₀.cursorHeight < h → h ≤ w.cursorHeight →
          ∀ b, @storedBlock .plain s.store.db "main" h = some b →
            ∀ d ∈ deliveries w (.tierAOnly .empty) b, ∃ post ∈ s.posts,
              post.hook.id = w.id ∧ post.delivery = d ∧ post.answered = true := by
  intro hclaim
  have hsome : (exec smallHookStep {} skippedBlock).map (fun s => (s.posts.length, s.cursors)) =
      some (0, [(1, 0)], [(1, 2)]) := by decide
  obtain ⟨s, hs, hall⟩ := Option.map_eq_some_iff.mp hsome
  obtain ⟨hlength, hcursors⟩ := Prod.mk.inj hall
  obtain ⟨hregistered, hrows⟩ := Prod.mk.inj hcursors
  obtain ⟨w₀, honce, hid₀, hcursor₀⟩ := registeredOnce_of_cursors hregistered
  obtain ⟨w, hmem, hid, hcursor⟩ := HookState.row_of_cursors hrows
  have howed : (exec smallHookStep {} skippedBlock).all (fun s =>
      s.store.db.webhooks.rows.all fun w => (@storedBlock .plain s.store.db "main" 1).any fun b =>
        (deliveries w (.tierAOnly .empty) b).length = 1) = true := by decide
  rw [hs, Option.all_some] at howed
  obtain ⟨b, hb, hone⟩ := (Option.any_eq_true _ _).mp (List.all_eq_true.mp howed w hmem)
  obtain ⟨d, hd⟩ := List.length_eq_one_iff.mp (of_decide_eq_true hone)
  have hchained : Always smallHookStep (fun _ _ s' => Chained s'.store.kept) {} skippedBlock := by
    decide
  obtain ⟨post, hpost, _⟩ := hclaim skippedBlock s w₀ hchained (distinct_of_nodup (by decide)) hs
    honce w hmem (hid.trans hid₀.symm) 1 (by omega) (by omega) b hb d (by simp [hd])
  rw [List.eq_nil_of_length_eq_zero hlength] at hpost
  cases hpost

/-- A rollback between the statements of a page's read: block 1 is read without its action,
committed again, and found stored. -/
example : (exec smallHookStep {} ([.store (.insert [.bare 0 "g" ""])] ++ registration 1 ++
    [.store (.insert [.transfer 1 "a" "g" "alice" "tx"]), .wake, .list, .readTip, .cap 0, .select,
      .store (.rollback 0), .read, .store (.insert [.transfer 1 "a" "g" "alice" "tx"]), .read,
      .mark])).map (fun s => (s.posts.length, s.cursors)) = some (0, [(1, 0)], [(1, 1)]) := by
  decide

end Retracer
