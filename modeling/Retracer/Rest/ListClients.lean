import Retracer.Rest.Lists

/-! # Clients of the lists

A client repeats its query with the cursor of the last row it has, until a page has fewer rows
than the limit that its own was cut to. Whatever blocks come in above the first row, it has then
received every row that matched, once. The cursor of a token event is not taken back when the
hash is empty or longer than 256 bytes.
-/

namespace Retracer

open KeyedTable Sorting Paging Execution Traverse

/-! ## Cut limits -/

theorem clampLimit_bounds {limit : Option Int} {n : Int} (h : clampLimit limit = .ok n) :
    1 ≤ n ∧ n ≤ maxPageSize := by
  unfold clampLimit at h
  split at h
  · cases h
    decide
  · next m =>
      split at h
      · cases h
      · cases h
        simp only [maxPageSize]
        omega

/-- One query, again and again. -/
def clientPager {σ α : Type} (limit : Int)
    (respond : σ → Option α → Except LookupError (List α)) (heightOf : α → Int)
    (insert : σ → List IndexableBlock → Option σ) : Pager σ α (List IndexableBlock) :=
  listPager limit (fun store last => (respond store last).toOption) heightOf insert

/-! ## The next request -/

def BlockPage.next (page : BlockPage) (last : Option BlockSummary) : BlockPage :=
  { page with before := last.map (·.height) }

def ActionPage.next (page : ActionPage) (last : Option ActionRow) : ActionPage :=
  { page with
    beforeHeight := last.map (·.blockHeight)
    beforeIndex := last.map fun row => (row.indexInBlock : Int) }

def EventPage.next (page : EventPage) (last : Option TokenEventRow) : EventPage :=
  { page with beforeHeight := last.map (·.blockHeight), afterHash := last.map (·.actionHash) }

def DroppedPage.next (page : DroppedPage) (last : Option DroppedRow) : DroppedPage :=
  { page with
    beforeHeight := last.map (·.blockHeight), beforeSignature := last.map (·.signature) }

def HolderPage.next (page : HolderPage) (last : Option HolderRow) : HolderPage :=
  { page with after := last.map (·.holder) }

theorem ActionPage.cursor_next (page : ActionPage) (last : Option ActionRow) :
    (page.next last).cursor = .ok (last.map ActionRow.position) := by
  cases last <;> rfl

theorem DroppedPage.cursor_next (page : DroppedPage) (last : Option DroppedRow) :
    (page.next last).cursor = .ok (last.map fun row => (row.blockHeight, row.signature)) := by
  cases last <;> rfl

/-- The cursor of the last event is taken. -/
def takesLast (last : Option TokenEventRow) : Bool :=
  last.all fun row => takesEvent row.blockHeight row.actionHash

theorem EventPage.cursor_next (page : EventPage) (last : Option TokenEventRow) :
    (page.next last).cursor.toOption =
      if takesLast last then some (last.map fun row => (row.blockHeight, row.actionHash))
      else none := by
  cases last with
  | none => rfl
  | some row =>
      have htakes : takesLast (some row) = takesEvent row.blockHeight row.actionHash := rfl
      rw [htakes]
      simp only [EventPage.cursor, EventPage.next, Option.map_some]
      cases takesEvent row.blockHeight row.actionHash <;> rfl

/-- The block as far as it stays, when later blocks may dispute these heights and the node may
settle any. -/
def BlockSummary.lasting (disputable : Int → Bool) (b : BlockSummary) : BlockSummary :=
  { b.settled disputable with settlement := none }

theorem toOption_answered {α : Type} (a : Option α) : (answered a).toOption = a := by
  cases a <;> rfl

section

variable [ProjectionHost] [Postgres] [Collation] {server : ListServer} {chainId : String}
  {chain : ListChain} {n : Int} {db : Database}

omit [ProjectionHost] [Postgres] [Collation] in
theorem toOption_listBlocks (hchain : server.chain chainId = .ok chain) {page : BlockPage}
    (hlimit : clampLimit page.limit = .ok n) (view : NetworkView) (disputable : Int → Bool)
    (last : Option BlockSummary) :
    ((server.listBlocks db chainId view (page.next last)).map
        (·.map (BlockSummary.lasting disputable))).toOption =
      some ((listBlocks db chainId n (last.map BlockSummary.height)).map
        (BlockSummary.settled disputable)) := by
  have hanswer : server.listBlocks db chainId view (page.next last) =
      .ok ((listBlocks db chainId n (last.map BlockSummary.height)).map
        (BlockSummary.settlementBy view)) := by
    have hcut : clampLimit (page.next last).limit = .ok n := hlimit
    rw [ListServer.listBlocks, hchain]
    simp only [hcut, ok_bind]
    rfl
  rw [hanswer]
  show some (List.map _ (List.map _ _)) = _
  rw [List.map_map]
  congr 1
  apply List.map_congr_left
  intro b hb
  obtain ⟨row, _, rfl⟩ := List.mem_map.mp hb
  rfl

omit [Collation] in
theorem toOption_listActions (hchain : server.chain chainId = .ok chain) {page : ActionPage}
    (hlimit : clampLimit page.limit = .ok n) {filter : Option ActionFilter}
    (hfilter : actionFilter server chain page = .ok filter) (last : Option ActionRow) :
    (server.listActions db chainId (page.next last)).toOption =
      listActions db chainId n (last.map ActionRow.position) filter := by
  have hanswer : server.listActions db chainId (page.next last) =
      answered (listActions db chainId n (last.map ActionRow.position) filter) := by
    have hsame : actionFilter server chain (page.next last) = .ok filter := hfilter
    have hcut : clampLimit (page.next last).limit = .ok n := hlimit
    rw [ListServer.listActions, hchain]
    simp only [hcut, hsame, page.cursor_next last, ok_bind]
  rw [hanswer, toOption_answered]

/-- Without roles, those of the signer. -/
def askedRoles (roles : List String) : List String := if roles.isEmpty then ["from"] else roles

omit [ProjectionHost] [Postgres] [Collation] in
theorem getAccountActions_askedRoles (address : String) (before : Option (Int × Int))
    (roles : List String) :
    getAccountActions db chainId address n before roles =
      getAccountActions db chainId address n before (askedRoles roles) := by
  cases roles <;> rfl

omit [ProjectionHost] [Postgres] [Collation] in
theorem toOption_getAccountActions (hchain : server.chain chainId = .ok chain) {page : ActionPage}
    (hlimit : clampLimit page.limit = .ok n) {address : String}
    (haddress : checkAddress chain address = .ok ()) {roles : List String}
    (hroles : parseRoles page.role = .ok roles) (last : Option ActionRow) :
    (server.getAccountActions db chainId address (page.next last)).toOption =
      getAccountActions db chainId address n (last.map ActionRow.position) (askedRoles roles) := by
  have hcut : clampLimit (page.next last).limit = .ok n := hlimit
  have hnames : parseRoles (page.next last).role = .ok roles := hroles
  rw [ListServer.getAccountActions, hchain]
  simp only [haddress, hcut, hnames, page.cursor_next last, ok_bind,
    getAccountActions_askedRoles address _ roles]
  exact toOption_answered _

omit [ProjectionHost] [Postgres] [Collation] in
theorem toOption_getAssetActions (hchain : server.chain chainId = .ok chain) {page : ActionPage}
    (hlimit : clampLimit page.limit = .ok n) (asset : String) (last : Option ActionRow) :
    (server.getAssetActions db chainId asset (page.next last)).toOption =
      getAssetActions db chainId asset n (last.map ActionRow.position) := by
  have hcut : clampLimit (page.next last).limit = .ok n := hlimit
  rw [ListServer.getAssetActions, hchain]
  simp only [hcut, page.cursor_next last, ok_bind]
  exact toOption_answered _

omit [ProjectionHost] [Postgres] in
theorem toOption_getAssetEvents (hchain : server.chain chainId = .ok chain) {page : EventPage}
    (hlimit : clampLimit page.limit = .ok n) (asset : String) (last : Option TokenEventRow) :
    (server.getAssetEvents db chainId asset (page.next last)).toOption =
      if takesLast last then
        some (getTokenEventsPage db chainId asset n
          (last.map fun row => (row.blockHeight, row.actionHash)))
      else none := by
  have hcut : clampLimit (page.next last).limit = .ok n := hlimit
  have hcursor := page.cursor_next last
  rw [ListServer.getAssetEvents, hchain]
  simp only [hcut, ok_bind]
  cases hpage : (page.next last).cursor with
  | error e =>
      rw [hpage] at hcursor
      split at hcursor
      · cases hcursor
      · next hrefused =>
          rw [if_neg hrefused]
          rfl
  | ok before =>
      rw [hpage] at hcursor
      split at hcursor
      · next htakes =>
          cases hcursor
          rw [if_pos htakes]
          rfl
      · cases hcursor

omit [ProjectionHost] [Postgres] in
theorem toOption_listDroppedActions (hchain : server.chain chainId = .ok chain)
    {page : DroppedPage} (hlimit : clampLimit page.limit = .ok n)
    (hsender : ∀ sender ∈ page.sender, checkAddress chain sender = .ok ())
    (last : Option DroppedRow) :
    (server.listDroppedActions db chainId (page.next last)).toOption =
      some (listDroppedActions db chainId page.sender page.asset
        (last.map fun row => (row.blockHeight, row.signature)) n) := by
  have hcut : clampLimit (page.next last).limit = .ok n := hlimit
  have hsame : (page.next last).sender = page.sender := rfl
  rw [ListServer.listDroppedActions, hchain]
  simp only [hcut, hsame, page.cursor_next last, ok_bind]
  cases hby : page.sender with
  | none => rfl
  | some sender =>
      simp only [hsender sender hby]
      rfl

omit [ProjectionHost] in
theorem toOption_getAssetHolders (hchain : server.chain chainId = .ok chain) {page : HolderPage}
    (hlimit : clampLimit page.limit = .ok n) {height : Int} (hheight : asOf page.at = .ok height)
    (asset : String) (last : Option HolderRow) :
    (server.getAssetHolders db chainId asset (page.next last)).toOption =
      some (getAssetHolders db chainId asset height page.jurisdiction
        (last.map HolderRow.holder) n) := by
  have hcut : clampLimit (page.next last).limit = .ok n := hlimit
  have hat : asOf (page.next last).at = .ok height := hheight
  rw [ListServer.getAssetHolders, hchain]
  simp only [hcut, hat, ok_bind]
  rfl

end

/-! ## Walks of the lists -/

/-- A client that repeats its query with the last row receives every row that matched when it
began, once and in the order of the list, whatever limit was taken. -/
theorem lists_served [ProjectionHost] [Postgres] [Collation]
    {extractors : String → AddressExtractor} {ops : List WriteOp} {s : ChainsState}
    (hrun : exec (consecutiveStep extractors) {} ops = some s) {server : ListServer}
    {chainId : String} {chain : ListChain} (hchain : server.chain chainId = .ok chain) :
    (∀ (page : BlockPage) (n : Int) (views : Option BlockSummary → NetworkView)
        (disputable : Int → Bool), clampLimit page.limit = .ok n →
      (clientPager n
        (fun db last => (server.listBlocks db chainId (views last) (page.next last)).map
          (·.map (BlockSummary.lasting disputable))) BlockSummary.height
        (appendedDisputing chainId (extractors chainId) disputable)).Complete
          (fun a b => b.height < a.height)
          (fun row => ∃ b ∈ s.db.blocks.rows, b.chainId = chainId ∧
            (blockSummary s.db b).lasting disputable = row) s.db) ∧
    (∀ (store : IndexedStore) (page : ActionPage) (n : Int) (filter : Option ActionFilter),
      store.db = s.db → clampLimit page.limit = .ok n →
      actionFilter server chain page = .ok filter → store.Started chain.projections →
      (∀ f ∈ filter, ∀ p ∈ f.projection, ∀ value ∈ f.value, p.ty.casts value = true) →
      (clientPager n (fun store last => server.listActions store.db chainId (page.next last))
        ActionRow.blockHeight (appendedIndexed chainId (extractors chainId))).Complete
          (fun a b => laterPosition a.place b.place)
          (fun row => ∃ a ∈ s.db.actions.rows, a.chainId = chainId ∧
            (∀ f ∈ filter, f.selects a = true) ∧ actionColumns s.db a = some row) store) ∧
    (∀ (asset : String) (page : ActionPage) (n : Int), clampLimit page.limit = .ok n →
      (clientPager n (fun db last => server.getAssetActions db chainId asset (page.next last))
        ActionRow.blockHeight (appended chainId (extractors chainId))).Complete
          (fun a b => laterPosition a.place b.place)
          (fun row => ∃ a ∈ s.db.actions.rows, a.chainId = chainId ∧
            asset ∈ assetRefs a.payload ∧ actionColumns s.db a = some row) s.db) ∧
    (∀ (page : DroppedPage) (n : Int), clampLimit page.limit = .ok n →
      (∀ sender ∈ page.sender, checkAddress chain sender = .ok ()) →
      (clientPager n (fun db last => server.listDroppedActions db chainId (page.next last))
        DroppedRow.blockHeight (appended chainId (extractors chainId))).Complete
          (fun a b => newerThen textGe (a.blockHeight, a.signature) (b.blockHeight, b.signature))
          (fun row => ∃ r ∈ s.db.droppedActions.rows,
            droppedMatches chainId page.sender page.asset r = true ∧ r.blockHeight < i64Max ∧
              r.read = row) s.db) ∧
    ∀ (asset : String) (page : HolderPage) (n height : Int), clampLimit page.limit = .ok n →
      asOf page.at = .ok height → (∀ r ∈ s.db.assetBalances.rows, r.holder ≠ "") →
      (clientPager n (fun db last => server.getAssetHolders db chainId asset (page.next last))
        (fun _ => height) (appended chainId (extractors chainId))).Complete
          (fun a b => strictly textLe a.holder b.holder)
          (fun row => ∃ r, newestBalance s.db chainId asset r.holder height = some r ∧
            0 < r.balance ∧ (∀ wanted ∈ page.jurisdiction, row.jurisdiction = some wanted) ∧
            holderRow s.db chainId asset height r = row) s.db := by
  have hplaced := placed_run hrun
  refine ⟨?_, ?_, ?_, ?_, ?_⟩
  · intro page n views disputable hlimit
    unfold clientPager
    simp only [toOption_listBlocks hchain hlimit]
    exact blocks_pages _ (clampLimit_bounds hlimit).1
  · intro store page n filter hdb hlimit hfilter hstarted hcasts
    rw [← hdb] at hplaced ⊢
    have hdeclared := actionFilter_declared hstarted.indexed hcasts hfilter
    unfold clientPager
    simp only [toOption_listActions hchain hlimit hfilter]
    exact actions_pages hplaced.referenced hplaced.unique hdeclared _ (clampLimit_bounds hlimit).1
  · intro asset page n hlimit
    unfold clientPager
    simp only [toOption_getAssetActions hchain hlimit]
    exact assetActions_pages hplaced.referenced hplaced.unique _ (clampLimit_bounds hlimit).1
  · intro page n hlimit hsender
    unfold clientPager
    simp only [toOption_listDroppedActions hchain hlimit hsender]
    exact dropped_pages hplaced.referenced _ (clampLimit_bounds hlimit).1
  · intro asset page n height hlimit hheight hnonempty
    unfold clientPager
    simp only [toOption_getAssetHolders hchain hlimit hheight]
    exact holders_pages hplaced.referenced hnonempty _ (clampLimit_bounds hlimit).1

/-- The payments of five, one to a page, with one more of them after the first page. -/
def fiveWalk (store : @IndexedStore .plain .plain) :
    Option (Walk (@IndexedStore .plain .plain) ActionRow) :=
  exec (clientPager 1
    (fun store last => @ListServer.listActions .plain .plain amountServer
      (@IndexedStore.db .plain .plain store) "main" (fiveOnly.next last))
    ActionRow.blockHeight (@appendedIndexed .plain .plain "main" (.tierAOnly .empty))).step
    { store } [.fetch,
      .change [{ IndexableBlock.bare 2 "a2" "a1" with actions := [paying "5" "t3"] }],
      .fetch, .fetch]

theorem lists_served_five :
    ∃ s store w filter,
      exec (@consecutiveStep .plain fun _ => .tierAOnly .empty) {} paidOps = some s ∧
      amountsIndexed s.db = some store ∧ fiveWalk store = some w ∧
      actionFilter amountServer { chainId := "main", projections := [amountProjection] }
        fiveOnly = .ok filter ∧
      w.received.map (·.actionHash) = ["t2", "t0"] ∧
      ∀ row, row ∈ w.received ↔ ∃ a ∈ s.db.actions.rows, a.chainId = "main" ∧
        (∀ f ∈ filter, @ActionFilter.selects .plain .plain f a = true) ∧
          actionColumns s.db a = some row := by
  have hall : (exec (@consecutiveStep .plain fun _ => .tierAOnly .empty) {} paidOps).any (fun s =>
      (amountsIndexed s.db).any fun store => (fiveWalk store).any fun w => w.done &&
        decide (w.received.map (·.actionHash) = ["t2", "t0"])) = true := by
    decide
  obtain ⟨s, hs, hrest⟩ := (Option.any_eq_true _ _).mp hall
  obtain ⟨store, hstore, hrest⟩ := (Option.any_eq_true _ _).mp hrest
  obtain ⟨w, hw, hboth⟩ := (Option.any_eq_true _ _).mp hrest
  rw [Bool.and_eq_true, decide_eq_true_eq] at hboth
  have hdb := (amountsIndexed_spec hstore).1
  have hcasts : ∀ f ∈ some paidFive, ∀ p ∈ f.projection, ∀ value ∈ f.value,
      @ProjectionType.casts .plain p.ty value = true := by
    rintro f ⟨⟩ p ⟨⟩ value ⟨⟩
    decide
  obtain ⟨_, hactions, _⟩ := @lists_served .plain .plain .plain (fun _ => .tierAOnly .empty)
    paidOps s hs amountServer "main" { chainId := "main", projections := [amountProjection] } rfl
  have hended := (hactions store fiveOnly 1 (some paidFive) hdb rfl rfl
    (amountsIndexed_started hstore) hcasts).ended _ w hw hboth.1
  exact ⟨s, store, w, _, hs, hstore, hw, rfl, hboth.2, hended.2⟩

/-- The events of a token are received too, unless the client stops at an event whose hash is
empty or longer than 256 bytes. -/
theorem events_served [Postgres] [Collation] {extractors : String → AddressExtractor}
    {ops : List WriteOp} {s : ChainsState}
    (hrun : exec (consecutiveStep extractors) {} ops = some s) {server : ListServer}
    {chainId : String} {chain : ListChain} (hchain : server.chain chainId = .ok chain)
    {asset : String} {page : EventPage} {n : Int} (hlimit : clampLimit page.limit = .ok n) :
    (clientPager n (fun db last => server.getAssetEvents db chainId asset (page.next last))
      TokenEventRow.blockHeight (appended chainId (extractors chainId))).CompleteUnless takesLast
        (fun a b => newerThen textLe (a.blockHeight, a.actionHash) (b.blockHeight, b.actionHash))
        (fun row => ∃ r ∈ s.db.tokenEvents.rows, r.chainId = chainId ∧ r.token = asset ∧
          tokenEventColumns r = row) s.db ∧
    ((∀ r ∈ s.db.tokenEvents.rows, r.chainId = chainId → r.token = asset →
        takesEvent r.blockHeight r.actionHash = true) →
      (clientPager n (fun db last => server.getAssetEvents db chainId asset (page.next last))
        TokenEventRow.blockHeight (appended chainId (extractors chainId))).Complete
          (fun a b => newerThen textLe (a.blockHeight, a.actionHash) (b.blockHeight, b.actionHash))
          (fun row => ∃ r ∈ s.db.tokenEvents.rows, r.chainId = chainId ∧ r.token = asset ∧
            tokenEventColumns r = row) s.db) := by
  have hpager : clientPager n
      (fun db last => server.getAssetEvents db chainId asset (page.next last))
      TokenEventRow.blockHeight (appended chainId (extractors chainId)) =
        (tokenEventsPager chainId (extractors chainId) asset n).refusing takesLast := by
    unfold clientPager
    simp only [toOption_getAssetEvents hchain hlimit]
    rfl
  have hall : (tokenEventsPager chainId (extractors chainId) asset n).Complete _ _ s.db :=
    tokenEvents_pages (placed_run hrun).referenced _ (clampLimit_bounds hlimit).1
  rw [hpager]
  refine ⟨hall.refusing takesLast, fun htakes => hall.refusing_of_takes rfl ?_⟩
  rintro _ ⟨r, hr, hsame, htoken, rfl⟩
  exact htakes r hr hsame htoken

/-- The newer transfer has an empty hash. -/
def namelessTransfer : List WriteOp :=
  [.insert "main" [.acting 0 "g" "" "alice" "x" (goldTokenTo "bob") {},
    .acting 1 "a1" "g" "alice" "" (goldTokenTo "bob") {}]]

def goldEvents : Pager Database TokenEventRow (List IndexableBlock) :=
  clientPager 1
    (fun db last => @ListServer.getAssetEvents .plain amountServer db "main" "gold"
      (({ limit := some 1 } : EventPage).next last))
    TokenEventRow.blockHeight (@appended .plain "main" (.tierAOnly .empty))

theorem events_served_nameless :
    ∃ s w, exec (@consecutiveStep .plain fun _ => .tierAOnly .empty) {} namelessTransfer = some s ∧
      exec goldEvents.step { store := s.db } [.fetch] = some w ∧
      w.received.map (·.actionHash) = [""] ∧ w.done = false ∧
      ((goldEvents.step w .fetch).isSome ↔ takesLast w.received.getLast? = true) ∧
      takesLast w.received.getLast? = false := by
  have hall : (exec (@consecutiveStep .plain fun _ => .tierAOnly .empty) {} namelessTransfer).any
      (fun s => (exec goldEvents.step { store := s.db } [.fetch]).any fun w =>
        decide (w.received.map (·.actionHash) = [""] ∧ w.done = false ∧
          takesLast w.received.getLast? = false)) = true := by
    decide +kernel
  obtain ⟨s, hs, hrest⟩ := (Option.any_eq_true _ _).mp hall
  obtain ⟨w, hw, hrest⟩ := (Option.any_eq_true _ _).mp hrest
  obtain ⟨hreceived, hdone, hrefused⟩ := of_decide_eq_true hrest
  have hserved := @events_served .plain .plain (fun _ => .tierAOnly .empty) namelessTransfer s hs
    amountServer "main" { chainId := "main", projections := [amountProjection] } rfl "gold"
    { limit := some 1 } 1 rfl
  obtain ⟨_, hgoing⟩ := hserved.1.going
  exact ⟨s, w, hs, hw, hreceived, hdone, (hgoing [.fetch] w hw hdone).1, hrefused⟩

/-- The heights are checked and nothing else. -/
theorem exec_writeStep_of_consecutive [Postgres] {extractors : String → AddressExtractor}
    {ops : List WriteOp} {s s' : ChainsState}
    (hrun : exec (consecutiveStep extractors) s ops = some s') :
    exec (writeStep extractors) s.db ops = some s'.db := by
  induction ops generalizing s with
  | nil =>
      cases hrun
      rfl
  | cons op ops ih =>
      rw [exec_cons, Option.bind_eq_some_iff] at hrun
      obtain ⟨mid, hmid, hrest⟩ := hrun
      have hstep : writeStep extractors s.db op = some mid.db := by
        cases op with
        | insert chainId blocks =>
            simp only [consecutiveStep] at hmid
            split at hmid
            · obtain ⟨db, hdb, rfl⟩ := Option.map_eq_some_iff.mp hmid
              exact hdb
            · cases hmid
        | rollback chainId height =>
            cases hmid
            rfl
      rw [exec_cons_of_step hstep]
      exact ih hrest

/-- So is the history of an account: every action in which it has one of the roles that the text
lists, or that it signed when there is no text. -/
theorem history_served [Postgres] {extractors : String → AddressExtractor} {ops : List WriteOp}
    {s : ChainsState} (hrun : exec (consecutiveStep extractors) {} ops = some s)
    (hagree : Always (writeStep extractors) (fun _ _ db => IndexesAgree extractors db) .empty ops)
    {server : ListServer} {chainId : String} {chain : ListChain}
    (hchain : server.chain chainId = .ok chain) {address : String}
    (haddress : checkAddress chain address = .ok ()) {page : ActionPage} {n : Int}
    (hlimit : clampLimit page.limit = .ok n) {roles : List String}
    (hroles : parseRoles page.role = .ok roles) :
    (clientPager n (fun db last => server.getAccountActions db chainId address (page.next last))
      ActionRow.blockHeight (appended chainId (extractors chainId))).Complete Behind
        (fun row => ∃ a ∈ heldActions extractors s.db chainId address (askedRoles roles),
          actionColumns s.db a = some row) s.db := by
  have hwrites : exec (writeStep extractors) .empty ops = some s.db :=
    exec_writeStep_of_consecutive hrun
  have hindexes : IndexesAgree extractors s.db := by
    apply always_invariant (I := IndexesAgree extractors) (fun _ _ _ _ _ hafter => hafter) ?_
      hagree hwrites
    constructor
    · exact fun r hr => nomatch hr
    · exact fun r hr => nomatch hr
  have hcomplete := indexesComplete_reachable hagree hwrites
  have hplaced := placed_run hrun
  have hblocks : ActionsHaveBlocks s.db := hplaced.referenced.anchored.actionsHaveBlocks
  have hne : askedRoles roles ≠ [] := by
    cases roles with
    | nil => exact List.cons_ne_nil _ _
    | cons role roles => exact List.cons_ne_nil _ _
  have hpager : clientPager n
      (fun db last => server.getAccountActions db chainId address (page.next last))
      ActionRow.blockHeight (appended chainId (extractors chainId)) =
        historyPager extractors chainId address n (askedRoles roles) := by
    unfold clientPager
    simp only [toOption_getAccountActions hchain hlimit haddress hroles]
    rfl
  have hserves : (historyPager extractors chainId address n (askedRoles roles)).Serves Behind
      (accountHistory extractors s.db chainId address (askedRoles roles))
      (SeenFrom chainId s.db) :=
    historyPager_serves hindexes hcomplete hplaced.unique hblocks hne
  have hpositive : 1 ≤ n.toNat := by
    have hbounds := clampLimit_bounds hlimit
    omega
  rw [hpager]
  exact (hserves.complete rfl hpositive).congr fun row => mem_accountHistory hblocks

/-- What Alice sent and received. -/
def sentAndReceived : ActionPage where
  limit := some 2
  role := some "from, to"

theorem history_served_alice :
    ∃ s, exec (@consecutiveStep .plain fun _ => transferTo) {} aliceOps = some s ∧
      (heldActions (fun _ => transferTo) s.db "main" "alice" ["from", "to"]).length = 3 ∧
      (clientPager 2 (fun db last => amountServer.getAccountActions db "main" "alice"
        (sentAndReceived.next last)) ActionRow.blockHeight
        (@appended .plain "main" transferTo)).Complete Behind
          (fun row => ∃ a ∈ heldActions (fun _ => transferTo) s.db "main" "alice" ["from", "to"],
            actionColumns s.db a = some row) s.db := by
  have hall : (exec (@consecutiveStep .plain fun _ => transferTo) {} aliceOps).any (fun s =>
      decide ((heldActions (fun _ => transferTo) s.db "main" "alice" ["from", "to"]).length =
        3)) = true := by
    decide
  have hagree : Always (@writeStep .plain fun _ => transferTo)
      (fun _ _ db => IndexesAgree (fun _ => transferTo) db) .empty aliceOps := by decide
  obtain ⟨s, hs, hlength⟩ := (Option.any_eq_true _ _).mp hall
  exact ⟨s, hs, of_decide_eq_true hlength, @history_served .plain (fun _ => transferTo) aliceOps s
    hs hagree amountServer "main" { chainId := "main", projections := [amountProjection] } rfl
    "alice" rfl sentAndReceived 2 rfl ["from", "to"] rfl⟩

end Retracer
