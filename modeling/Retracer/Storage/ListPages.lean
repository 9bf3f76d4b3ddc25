import Retracer.Library.Keyset
import Retracer.Storage.HistoryPages
import Retracer.Storage.ListReads
import Retracer.Storage.Positions

/-! # Walking the lists

Each list is a keyset: its cursor takes up the key of its `ORDER BY`. Blocks that are appended
above the first page leave the rows from the first one received on as they are, so a walk
receives every row once.
-/

namespace Retracer

open KeyedTable Sorting Paging Execution Traverse

/-! ## Blocks that come in meanwhile -/

/-- Pages of a list. Between them, blocks may come in above the first row received. -/
def listPager {σ α : Type} (limit : Int) (page : σ → Option α → Option (List α))
    (heightOf : α → Int) (insert : σ → List IndexableBlock → Option σ) :
    Pager σ α (List IndexableBlock) where
  limit := limit.toNat
  page := page
  change received store blocks :=
    received.head?.bind fun newest =>
      if ∀ b ∈ blocks, heightOf newest < (b.height : Int) then insert store blocks else none

/-- Up to a height, `Same` holds of the store and whatever blocks above that height make of it. -/
structure LeftBelow {σ : Type} (insert : σ → List IndexableBlock → Option σ) (store : σ)
    (Same : Int → σ → Prop) : Prop where
  start : ∀ n, Same n store
  append : ∀ n mid blocks store', Same n mid → (∀ b ∈ blocks, n < (b.height : Int)) →
    insert mid blocks = some store' → Same n store'

/-- What a walk knows of the store: nothing up to the first row received has changed. -/
def SeenBelow {σ α : Type} (heightOf : α → Int) (Same : Int → σ → Prop) (store : σ)
    (received : List α) (store' : σ) : Prop :=
  received.head?.elim (store' = store) fun first => Same (heightOf first) store'

section

variable {σ ρ α κ : Type} {heightOf : α → Int} {insert : σ → List IndexableBlock → Option σ}
  {store store' : σ} {Same : Int → σ → Prop} {received : List α}

theorem SeenBelow.same (h : SeenBelow heightOf Same store received store') {first : α}
    (hfirst : received.head? = some first) : Same (heightOf first) store' := by
  rw [SeenBelow, hfirst] at h
  exact h

theorem LeftBelow.exists_same (hleft : LeftBelow insert store Same)
    (h : SeenBelow heightOf Same store received store') : ∃ n, Same n store' := by
  cases received with
  | nil =>
      have hstore : store' = store := h
      exact ⟨0, hstore ▸ hleft.start 0⟩
  | cons first rest => exact ⟨heightOf first, h⟩

theorem LeftBelow.seen_more (hleft : LeftBelow insert store Same)
    (h : SeenBelow heightOf Same store received store') (rows : List α) :
    SeenBelow heightOf Same store (received ++ rows) store' := by
  cases received with
  | cons first rest => exact h
  | nil =>
      have hstore : store' = store := h
      cases rows with
      | nil => exact hstore
      | cons first rest => exact hstore ▸ hleft.start (heightOf first)

theorem LeftBelow.seen_change (hleft : LeftBelow insert store Same) {limit : Int}
    {page : σ → Option α → Option (List α)} {mid : σ} {blocks : List IndexableBlock}
    (h : SeenBelow heightOf Same store received mid)
    (hchange : (listPager limit page heightOf insert).change received mid blocks = some store') :
    SeenBelow heightOf Same store received store' := by
  obtain ⟨first, hfirst, hinsert⟩ := Option.bind_eq_some_iff.mp hchange
  have hsame := h.same hfirst
  rw [SeenBelow, hfirst]
  split at hinsert
  · next habove => exact hleft.append _ _ _ _ hsame habove hinsert
  · cases hinsert

variable {q : Keyset σ ρ α κ} [DecidableRel q.order] [DecidableRel q.before]
  [IsTrans ρ q.order] [Std.Total q.order] [IsTrans κ q.before] [Std.Asymm q.before]
  {limit : Int} {page : σ → Option α → Option (List α)} {matching : α → Prop}

/-- A list whose pages are those of a keyset is read completely, when the rows from a key on are
among what blocks above it leave. -/
theorem LeftBelow.complete (hleft : LeftBelow insert store Same) (hkeyed : q.Keyed store)
    (hlimit : 1 ≤ limit) (hmatching : ∀ a, (∃ x ∈ q.rows store, q.out store x = a) ↔ matching a)
    (hagree : ∀ first store', Same (heightOf first) store' →
      q.AgreesFrom (q.keyOf first) store store')
    (hpage : ∀ n store' last, Same n store' →
      (∀ a, last = some a → ∃ x ∈ q.rows store, q.out store x = a) →
      page store' last = some (q.page limit.toNat store' last)) :
    (listPager limit page heightOf insert).Complete q.Behind matching store := by
  have hserves : (listPager limit page heightOf insert).Serves q.Behind (q.history store)
      (SeenBelow heightOf Same store) := by
    apply hkeyed.serves
    · exact fun store' hseen => hseen
    · exact fun received first store' hfirst hseen => hagree first store' (hseen.same hfirst)
    · intro received store' hbeginning hseen
      obtain ⟨n, hsame⟩ := hleft.exists_same hseen
      apply hpage n store' _ hsame
      intro a ha
      exact Keyset.mem_history.mp (hbeginning.subset (List.mem_of_getLast? ha))
    · exact fun received rows store' hseen => hleft.seen_more hseen rows
    · exact fun received mid blocks store' hseen hchange => hleft.seen_change hseen hchange
  have hpositive : 1 ≤ limit.toNat := by omega
  exact (hserves.complete rfl hpositive).congr fun a =>
    Keyset.mem_history.trans (hmatching a)

end

def appended [Postgres] (chainId : String) (extractor : AddressExtractor) (db : Database)
    (blocks : List IndexableBlock) : Option Database :=
  insertBlocks db chainId blocks extractor

/-- Nothing up to the height has changed, and the store is still in order. -/
def SameRows (chainId : String) (db : Database) (n : Int) (db' : Database) : Prop :=
  SameUpTo chainId n db db' ∧ Referenced db'

theorem leftBelow_appended [Postgres] {db : Database} (h : Referenced db) (chainId : String)
    (extractor : AddressExtractor) :
    LeftBelow (appended chainId extractor) db (SameRows chainId db) where
  start _ := ⟨.refl, h⟩
  append _ _ _ _ hsame habove hinsert :=
    ⟨hsame.1.trans (.insertBlocks hinsert habove), hsame.2.insertBlocks hinsert⟩

/-- The rows that a filter selects of one table are the same up to the height. -/
theorem SameUpTo.agreesFrom {σ α κ : Type} {chainId : String} {store store' : σ} {n : Int}
    {k : HeightTable} {q : Keyset σ k.Row α κ} {p : k.Row → Bool} {first : κ}
    {dbOf : σ → Database} (h : SameUpTo chainId n (dbOf store) (dbOf store'))
    (hrows : ∀ store, q.rows store = ((dbOf store).at k).rows.filter p)
    (hchain : ∀ r, p r = true → Stamped.chainOf r = chainId)
    (hfrom : ∀ r, q.From first r → Stamped.heightOf r ≤ n)
    (hout : ∀ r ∈ q.rows store, q.From first r → q.out store' r = q.out store r) :
    q.AgreesFrom first store store' where
  nodup := by
    rw [hrows]
    exact ((dbOf store').at k).nodup_rows.filter p
  rows r hr := by
    rw [hrows, hrows, List.mem_filter, List.mem_filter]
    exact and_congr_left fun hp => h.mem_iff (hchain r hp) (hfrom r hr)
  out := hout

/-- From a row on, the heights do not rise. -/
theorem height_le_of_from {κ : Type} {le : κ → κ → Prop} {first row : Int × κ}
    (h : row = first ∨ newerThen le first row) : row.1 ≤ first.1 := by
  rcases h with rfl | hbehind
  · exact Int.le_refl _
  · exact fst_le_of_newerThen hbehind

/-! ## Token events -/

section

variable [Collation]

@[reducible] def tokenEventsKeyset (chainId token : String) :
    Keyset Database TokenEventsRow TokenEventRow (Int × String) where
  rows db := db.tokenEvents.rows.filter fun r => r.chainId = chainId ∧ r.token = token
  key r := (r.blockHeight, r.actionHash)
  order := newestEvent
  out _ := tokenEventColumns
  keyOf row := (row.blockHeight, row.actionHash)
  before := newerThen textLe

variable {db : Database} {chainId token : String}

theorem tokenEvents_keyed : (tokenEventsKeyset chainId token).Keyed db where
  distinct := by
    refine db.tokenEvents.nodup_map_filter fun r s hr hs hsame _ _ => ?_
    simp only [decide_eq_true_eq] at hr hs
    simp only [Prod.mk.injEq] at hsame
    simp only [key, hr.1, hs.1, hsame.2]
  ordered x _ y _ horder hne := newerThen_of_orderBy (fun hrest => hrest.1) horder hne
  out _ _ := rfl

theorem getTokenEventsPage_eq {limit : Int} {last : Option TokenEventRow} :
    getTokenEventsPage db chainId token limit
        (last.map fun row => (row.blockHeight, row.actionHash)) =
      (tokenEventsKeyset chainId token).page limit.toNat db last := by
  apply Keyset.top_eq_page (q := tokenEventsKeyset chainId token) rfl
  intro r _
  cases last with
  | none => simp [Keyset.reached]
  | some row => simp [Keyset.reached, newerThen, strictly, Bool.and_assoc]

def tokenEventsPager [Postgres] (chainId : String) (extractor : AddressExtractor)
    (token : String) (limit : Int) : Pager Database TokenEventRow (List IndexableBlock) :=
  listPager limit
    (fun db last => some (getTokenEventsPage db chainId token limit
      (last.map fun row => (row.blockHeight, row.actionHash))))
    TokenEventRow.blockHeight (appended chainId extractor)

theorem tokenEvents_pages [Postgres] (hreferenced : Referenced db)
    (extractor : AddressExtractor) {limit : Int} (hlimit : 1 ≤ limit) :
    (tokenEventsPager chainId extractor token limit).Complete
      (fun a b => newerThen textLe (a.blockHeight, a.actionHash) (b.blockHeight, b.actionHash))
      (fun row => ∃ r ∈ db.tokenEvents.rows, r.chainId = chainId ∧ r.token = token ∧
        tokenEventColumns r = row) db := by
  have hkeyed : (tokenEventsKeyset chainId token).Keyed db := tokenEvents_keyed
  apply (leftBelow_appended hreferenced chainId extractor).complete hkeyed hlimit
  · intro row
    simp [List.mem_filter, and_assoc]
  · intro first db' hsame
    apply hsame.1.agreesFrom (k := .tokenEvents) (fun _ => rfl)
    · intro r hr
      exact (of_decide_eq_true hr).1
    · exact fun r hr => height_le_of_from hr
    · exact fun _ _ _ => rfl
  · intro n db' last _ _
    exact congrArg some getTokenEventsPage_eq

/-! ## Dropped actions -/

/-- The rows below the height that a first page starts from. -/
@[reducible] def droppedKeyset (chainId : String) (sender asset : Option String) :
    Keyset Database DroppedActionsRow DroppedRow (Int × String) where
  rows db := db.droppedActions.rows.filter fun r =>
    droppedMatches chainId sender asset r && decide (r.blockHeight < i64Max)
  key r := (r.blockHeight, r.signature)
  order := newestDropped
  out _ := DroppedActionsRow.read
  keyOf row := (row.blockHeight, row.signature)
  before := newerThen textGe

variable {sender asset : Option String}

omit [Collation] in
theorem chainId_of_droppedMatches {r : DroppedActionsRow}
    (h : droppedMatches chainId sender asset r = true) : r.chainId = chainId :=
  (of_decide_eq_true h).1

theorem dropped_keyed : (droppedKeyset chainId sender asset).Keyed db where
  distinct := by
    refine db.droppedActions.nodup_map_filter fun r s hr hs hsame _ _ => ?_
    rw [Bool.and_eq_true] at hr hs
    simp only [Prod.mk.injEq] at hsame
    simp only [key, chainId_of_droppedMatches hr.1, chainId_of_droppedMatches hs.1, hsame.1,
      hsame.2]
  ordered x _ y _ horder hne := newerThen_of_orderBy (fun hrest => hrest.1) horder hne
  out _ _ := rfl

/-- No signature is below the empty text, so the first page has what is below its height. -/
theorem listDroppedActions_eq {limit : Int} {last : Option DroppedRow}
    (hlast : ∀ row, last = some row → row.blockHeight < i64Max) :
    listDroppedActions db chainId sender asset
        (last.map fun row => (row.blockHeight, row.signature)) limit =
      (droppedKeyset chainId sender asset).page limit.toNat db last := by
  apply Keyset.top_eq_page (q := droppedKeyset chainId sender asset) rfl
  intro r _
  cases last with
  | none => simp [Keyset.reached, Collation.empty_le]
  | some row =>
      have hbelow := hlast row rfl
      rw [Bool.eq_iff_iff]
      simp only [Option.map_some, Bool.and_eq_true, decide_eq_true_eq, Keyset.reached,
        Option.all_some, and_assoc]
      apply and_congr_right
      intro _
      constructor
      · intro hbehind
        exact ⟨by omega, hbehind⟩
      · exact fun hboth => hboth.2

def droppedPager [Postgres] (chainId : String) (extractor : AddressExtractor)
    (sender asset : Option String) (limit : Int) :
    Pager Database DroppedRow (List IndexableBlock) :=
  listPager limit
    (fun db last => some (listDroppedActions db chainId sender asset
      (last.map fun row => (row.blockHeight, row.signature)) limit))
    DroppedRow.blockHeight (appended chainId extractor)

theorem dropped_pages [Postgres] (hreferenced : Referenced db)
    (extractor : AddressExtractor) {limit : Int} (hlimit : 1 ≤ limit) :
    (droppedPager chainId extractor sender asset limit).Complete
      (fun a b => newerThen textGe (a.blockHeight, a.signature) (b.blockHeight, b.signature))
      (fun row => ∃ r ∈ db.droppedActions.rows, droppedMatches chainId sender asset r = true ∧
        r.blockHeight < i64Max ∧ r.read = row) db := by
  have hkeyed : (droppedKeyset chainId sender asset).Keyed db := dropped_keyed
  apply (leftBelow_appended hreferenced chainId extractor).complete hkeyed hlimit
  · intro row
    simp [List.mem_filter, and_assoc]
  · intro first db' hsame
    apply hsame.1.agreesFrom (k := .droppedActions) (fun _ => rfl)
    · intro r hr
      exact chainId_of_droppedMatches (Bool.and_eq_true _ _ ▸ hr).1
    · exact fun r hr => height_le_of_from hr
    · exact fun _ _ _ => rfl
  · intro n db' last _ hlast
    apply congrArg some
    apply listDroppedActions_eq
    intro row hrow
    obtain ⟨r, hr, rfl⟩ := hlast row hrow
    simp only [List.mem_filter, Bool.and_eq_true, decide_eq_true_eq] at hr
    exact hr.2.2

end

/-! ## Actions -/

section

variable {chainId : String} {db db' : Database}

theorem mapM_actionColumns {ρ : Type} {f : ρ → ActionsRow} {rows : List ρ}
    (hblocks : ActionsHaveBlocks db) (h : ∀ r ∈ rows, f r ∈ db.actions.rows) :
    rows.mapM (fun r => actionColumns db (f r)) = some (rows.map fun r => readAction db (f r)) := by
  rw [mapM_congr fun r hr => actionColumns_readAction hblocks (h r hr)]
  exact List.mapM_pure

theorem readAction_undisputed (a : ActionsRow) :
    readAction db a =
      a.dated ((db.undisputedBlocks.find? (a.chainId, a.blockHeight)).elim 0 (·.timestamp)) := by
  rw [readAction, Database.undisputedBlocks, Table.find?_modify]
  cases db.blocks.find? (a.chainId, a.blockHeight) <;> rfl

theorem SameUpTo.readAction {n : Int} (h : SameUpTo chainId n db db') {a : ActionsRow}
    (hchain : a.chainId = chainId) (hle : a.blockHeight ≤ n) :
    Retracer.readAction db' a = Retracer.readAction db a := by
  rw [readAction_undisputed, readAction_undisputed, hchain, h.blocks _ hle]

end

section

variable [ProjectionHost] [Postgres] {chainId : String} {filter : Option ActionFilter}
  {store store' : IndexedStore}

/-- The kind is that of the filter, and so is the projected value. -/
def ActionFilter.selects (filter : ActionFilter) (a : ActionsRow) : Bool :=
  filter.kind == a.kind && filter.projects a.payload == some true

/-- The caller looked the projection up among those that have an index, for this kind, and has
checked the value. -/
def ActionFilter.Declared (filter : ActionFilter) (indexes : List Projection) : Prop :=
  ∀ p, filter.projection = some p →
    p ∈ indexes ∧ p.kind = filter.kind ∧ filter.value.all p.ty.casts = true

/-- The index has taken every row on which the projection is evaluated. -/
theorem ActionFilter.Declared.isSome_projects {filter : ActionFilter} {indexes : List Projection}
    {actions : List ActionsRow} (h : filter.Declared indexes) (hfits : Fits indexes actions)
    {a : ActionsRow} (ha : a ∈ actions) (hkind : filter.kind = a.kind) :
    (filter.projects a.payload).isSome := by
  unfold ActionFilter.projects
  cases hp : filter.projection with
  | none => rfl
  | some p =>
      obtain ⟨hindexed, hsame, hvalue⟩ := h p hp
      have htakes := hfits p hindexed a ha
      have hcasts : (p.value a.payload).all p.ty.casts = true := by
        simpa [Projection.takes, hsame, hkind] using htakes
      simp [hcasts, hvalue]

abbrev actionsKeyset (chainId : String) (filter : Option ActionFilter) :
    Keyset IndexedStore ActionsRow ActionRow (Int × Nat) :=
  positionKeyset IndexedStore.db fun a => a.chainId = chainId ∧ filter.all fun f => f.selects a

theorem listActions_eq (hblocks : ActionsHaveBlocks store.db)
    (hdeclared : ∀ f ∈ filter, f.Declared store.indexes) {limit : Int} {last : Option ActionRow} :
    listActions store.db chainId limit (last.map ActionRow.position) filter =
      some ((actionsKeyset chainId filter).page limit.toNat store last) := by
  have hcasts : ((listedActions store.db chainId (last.map ActionRow.position) filter).all
      fun a => filter.all fun f => (f.projects a.payload).isSome) = true := by
    rw [List.all_eq_true]
    intro a ha
    simp only [listedActions, List.mem_filter, decide_eq_true_eq] at ha
    cases filter with
    | none => rfl
    | some f =>
        have hkind : f.kind = a.kind := beq_iff_eq.mp ha.2.2.2
        exact (hdeclared f rfl).isSome_projects store.fits ha.1 hkind
  rw [listActions, if_pos hcasts, mapM_actionColumns (f := fun a => a) hblocks ?_]
  · congr 1
    rw [listedActions, List.filter_filter]
    apply Keyset.top_eq_page (q := actionsKeyset chainId filter) rfl
    intro a _
    have hcursor : beforeCursor (last.map ActionRow.position) a.blockHeight a.indexInBlock =
        (actionsKeyset chainId filter).reached last a := by
      cases last with
      | none => rfl
      | some row => exact beforeCursor_place row _ _
    rw [hcursor]
    cases filter with
    | none => simp
    | some f =>
        rw [Bool.eq_iff_iff]
        simp only [Option.all_some, ActionFilter.selects, Bool.and_eq_true, decide_eq_true_eq]
        tauto
  · intro a ha
    have hin := List.mem_of_mem_filter (mem_of_mem_top ha)
    exact List.mem_of_mem_filter hin

theorem IndexedStore.insertBlocks_spec {extractor : AddressExtractor}
    {blocks : List IndexableBlock} (h : store.insertBlocks chainId blocks extractor = some store') :
    Retracer.insertBlocks store.db chainId blocks extractor = some store'.db ∧
      store'.indexes = store.indexes := by
  induction blocks generalizing store with
  | nil =>
      cases h
      exact ⟨rfl, rfl⟩
  | cons block blocks ih =>
      rw [IndexedStore.insertBlocks, List.foldlM_cons] at h
      obtain ⟨mid, hmid, hrest⟩ := Option.bind_eq_some_iff.mp h
      obtain ⟨hdb, hindexes⟩ := insertBlockInTx_eq_some hmid
      obtain ⟨hdb', hindexes'⟩ := ih hrest
      rw [insertBlocks_cons, hdb]
      exact ⟨hdb', hindexes'.trans hindexes⟩

/-- The rows and the indexes. -/
def SameIndexed (chainId : String) (store : IndexedStore) (n : Int) (store' : IndexedStore) :
    Prop :=
  SameRows chainId store.db n store'.db ∧ store'.indexes = store.indexes

/-- Every row of the appended blocks goes through the indexes too. -/
def appendedIndexed (chainId : String) (extractor : AddressExtractor) (store : IndexedStore)
    (blocks : List IndexableBlock) : Option IndexedStore :=
  store.insertBlocks chainId blocks extractor

theorem leftBelow_appendedIndexed (h : Referenced store.db) (extractor : AddressExtractor) :
    LeftBelow (appendedIndexed chainId extractor) store (SameIndexed chainId store) where
  start _ := ⟨⟨.refl, h⟩, rfl⟩
  append _ _ _ _ hsame habove hinsert := by
    obtain ⟨⟨hup, hreferenced⟩, hindexes⟩ := hsame
    obtain ⟨hdb, hindexes'⟩ := IndexedStore.insertBlocks_spec hinsert
    exact ⟨⟨hup.trans (.insertBlocks hdb habove), hreferenced.insertBlocks hdb⟩,
      hindexes'.trans hindexes⟩

def actionsPager (chainId : String) (extractor : AddressExtractor) (filter : Option ActionFilter)
    (limit : Int) : Pager IndexedStore ActionRow (List IndexableBlock) :=
  listPager limit
    (fun store last => listActions store.db chainId limit (last.map ActionRow.position) filter)
    ActionRow.blockHeight (appendedIndexed chainId extractor)

theorem actions_pages (hreferenced : Referenced store.db) (hunique : PositionsUnique store.db)
    (hdeclared : ∀ f ∈ filter, f.Declared store.indexes) (extractor : AddressExtractor)
    {limit : Int} (hlimit : 1 ≤ limit) :
    (actionsPager chainId extractor filter limit).Complete
      (fun a b => laterPosition a.place b.place)
      (fun row => ∃ a ∈ store.db.actions.rows, a.chainId = chainId ∧
        (∀ f ∈ filter, f.selects a = true) ∧ actionColumns store.db a = some row) store := by
  have hkeyed : (actionsKeyset chainId filter).Keyed store :=
    position_keyed (fun a ha => (of_decide_eq_true ha).1) hunique
  have hblocks : ActionsHaveBlocks store.db := hreferenced.anchored.actionsHaveBlocks
  apply (leftBelow_appendedIndexed hreferenced extractor).complete hkeyed hlimit
  · intro row
    simp only [List.mem_filter, decide_eq_true_eq, and_assoc]
    apply exists_congr
    intro a
    apply and_congr_right
    intro ha
    rw [actionColumns_readAction hblocks ha, Option.some.injEq]
    cases filter <;> simp
  · intro first store' hsame
    apply hsame.1.1.agreesFrom (k := .actions) (fun _ => rfl)
    · intro a ha
      exact (of_decide_eq_true ha).1
    · exact fun a ha => height_le_of_from ha
    · intro a ha hfrom
      simp only [List.mem_filter, decide_eq_true_eq] at ha
      exact hsame.1.1.readAction ha.2.1 (height_le_of_from hfrom)
  · intro n store' last hsame _
    apply listActions_eq hsame.1.2.anchored.actionsHaveBlocks
    rw [hsame.2]
    exact hdeclared

end

/-! ## Actions that name an asset -/

section

variable {db db' : Database} {chainId assetRef : String}

/-- Each reference comes with its action. -/
theorem mem_referencedActions (h : Referenced db) {x : AssetActionsRow × ActionsRow} :
    x ∈ referencedActions db chainId assetRef ↔ x.2 ∈ db.actions.rows ∧ x.2.chainId = chainId ∧
      x.1 ∈ projectAssetAction x.2 ∧ x.1.assetRef = assetRef := by
  obtain ⟨r, a⟩ := x
  simp only [referencedActions, List.mem_filterMap, List.mem_filter, decide_eq_true_eq,
    Option.map_eq_some_iff, Prod.mk.injEq, Table.find?_eq_some_iff]
  constructor
  · rintro ⟨r, ⟨hr, hchain, href⟩, a, ⟨ha, hkey⟩, rfl, rfl⟩
    obtain ⟨b, hb, hproject⟩ := (h.assets _).mp hr
    have hsame : key b = key a := (key_assetAction hproject).1.symm.trans hkey.symm
    rw [db.actions.eq_of_key_eq hb ha hsame] at hproject
    exact ⟨ha, (congrArg Prod.fst hkey).trans hchain, hproject, href⟩
  · rintro ⟨ha, hchain, hproject, href⟩
    have hkey := (key_assetAction hproject).1
    have hrchain : r.chainId = a.chainId := congrArg Prod.fst hkey
    exact ⟨r, ⟨(h.assets r).mpr ⟨a, ha, hproject⟩, hrchain.trans hchain, href⟩, a,
      ⟨ha, hkey.symm⟩, rfl, rfl⟩

theorem nodup_referencedActions : (referencedActions db chainId assetRef).Nodup := by
  refine (db.assetActions.nodup_rows.filter _).filterMap fun r s x hr hs => ?_
  obtain ⟨_, _, rfl⟩ := Option.map_eq_some_iff.mp hr
  obtain ⟨_, _, heq⟩ := Option.map_eq_some_iff.mp hs
  exact (congrArg Prod.fst heq).symm

@[reducible] def assetActionsKeyset (chainId assetRef : String) :
    Keyset Database (AssetActionsRow × ActionsRow) ActionRow (Int × Nat) where
  rows db := referencedActions db chainId assetRef
  key x := (x.1.blockHeight, x.1.indexInBlock)
  order := newestReference
  out db x := readAction db x.2
  keyOf := ActionRow.place
  before := laterPosition

theorem assetActions_keyed (h : Referenced db) (hunique : PositionsUnique db) :
    (assetActionsKeyset chainId assetRef).Keyed db where
  distinct := by
    refine nodup_referencedActions.map_on fun x hx y hy hsame => ?_
    obtain ⟨hx, hxchain, hxproject, hxref⟩ := (mem_referencedActions h).mp hx
    obtain ⟨hy, hychain, hyproject, hyref⟩ := (mem_referencedActions h).mp hy
    obtain ⟨_, hxheight, hxindex⟩ := key_assetAction hxproject
    obtain ⟨_, hyheight, hyindex⟩ := key_assetAction hyproject
    simp only [Prod.mk.injEq, hxheight, hyheight, hxindex, hyindex] at hsame
    have haction : x.2 = y.2 := db.actions.eq_of_key_eq hx hy
      (hunique _ hx _ hy (hxchain.trans hychain.symm) hsame.1 hsame.2)
    have hreference : x.1 = y.1 := by
      obtain ⟨_, _, hrow⟩ := List.mem_map.mp hxproject
      obtain ⟨_, _, hrow'⟩ := List.mem_map.mp hyproject
      rw [← hrow] at hxref ⊢
      rw [← hrow'] at hyref ⊢
      simp only at hxref hyref
      rw [hxref, hyref, haction]
    exact Prod.ext hreference haction
  ordered x _ y _ horder hne :=
    newerThen_of_orderBy (f := fun x : AssetActionsRow × ActionsRow => x.1.blockHeight)
      (g := fun x => x.1.indexInBlock) (fun hrest => Int.ofNat_le.mp hrest) horder hne
  out x hx := by
    obtain ⟨_, _, hproject, _⟩ := (mem_referencedActions h).mp hx
    obtain ⟨_, hheight, hindex⟩ := key_assetAction hproject
    exact Prod.ext hheight.symm hindex.symm

theorem getAssetActions_eq (h : Referenced db) {limit : Int} {last : Option ActionRow} :
    getAssetActions db chainId assetRef limit (last.map ActionRow.position) =
      some ((assetActionsKeyset chainId assetRef).page limit.toNat db last) := by
  rw [getAssetActions, mapM_actionColumns h.anchored.actionsHaveBlocks ?_]
  · apply congrArg some
    have hall : referencedActions db chainId assetRef =
        (referencedActions db chainId assetRef).filter fun _ => true := by simp
    apply Keyset.top_eq_page (q := assetActionsKeyset chainId assetRef) hall
    intro x _
    rw [Bool.true_and]
    cases last with
    | none => rfl
    | some row => exact beforeCursor_place row _ _
  · intro x hx
    have hin := List.mem_of_mem_filter (mem_of_mem_top hx)
    exact ((mem_referencedActions h).mp hin).1

variable [Postgres]

def assetActionsPager (chainId : String) (extractor : AddressExtractor) (assetRef : String)
    (limit : Int) : Pager Database ActionRow (List IndexableBlock) :=
  listPager limit
    (fun db last => getAssetActions db chainId assetRef limit (last.map ActionRow.position))
    ActionRow.blockHeight (appended chainId extractor)

theorem assetActions_pages (hreferenced : Referenced db) (hunique : PositionsUnique db)
    (extractor : AddressExtractor) {limit : Int} (hlimit : 1 ≤ limit) :
    (assetActionsPager chainId extractor assetRef limit).Complete
      (fun a b => laterPosition a.place b.place)
      (fun row => ∃ a ∈ db.actions.rows, a.chainId = chainId ∧ assetRef ∈ assetRefs a.payload ∧
        actionColumns db a = some row) db := by
  have hkeyed : (assetActionsKeyset chainId assetRef).Keyed db :=
    assetActions_keyed hreferenced hunique
  have hblocks : ActionsHaveBlocks db := hreferenced.anchored.actionsHaveBlocks
  apply (leftBelow_appended hreferenced chainId extractor).complete hkeyed hlimit
  · intro row
    constructor
    · rintro ⟨x, hx, rfl⟩
      obtain ⟨ha, hchain, hproject, rfl⟩ := (mem_referencedActions hreferenced).mp hx
      obtain ⟨ref, href, hrow⟩ := List.mem_map.mp hproject
      refine ⟨x.2, ha, hchain, ?_, actionColumns_readAction hblocks ha⟩
      rw [← hrow]
      exact href
    · rintro ⟨a, ha, hchain, href, hcolumns⟩
      rw [actionColumns_readAction hblocks ha, Option.some.injEq] at hcolumns
      have hproject := List.mem_map_of_mem (f := fun ref => AssetActionsRow.mk a.chainId ref
        a.actionHash a.blockHeight a.indexInBlock) href
      exact ⟨⟨_, a⟩, (mem_referencedActions hreferenced).mpr ⟨ha, hchain, hproject, rfl⟩, hcolumns⟩
  · rintro first db' ⟨hup, hreferenced'⟩
    refine ⟨nodup_referencedActions, ?_, ?_⟩
    · intro x hfrom
      have hle : x.1.blockHeight ≤ first.blockHeight := height_le_of_from hfrom
      rw [mem_referencedActions hreferenced', mem_referencedActions hreferenced]
      apply and_congr_left
      rintro ⟨hchain, hproject, _⟩
      rw [(key_assetAction hproject).2.1] at hle
      exact hup.mem_iff (k := .actions) hchain hle
    · intro x hx hfrom
      have hle : x.1.blockHeight ≤ first.blockHeight := height_le_of_from hfrom
      obtain ⟨_, hchain, hproject, _⟩ := (mem_referencedActions hreferenced).mp hx
      rw [(key_assetAction hproject).2.1] at hle
      exact hup.readAction hchain hle
  · intro n db' last hsame _
    exact getAssetActions_eq hsame.2

end

end Retracer
