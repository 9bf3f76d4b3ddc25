import Retracer.Storage.DisputedFlag
import Retracer.Storage.ListPages

/-! # Walking any of the lists

The blocks are rows that later blocks change: their flag may be set while they are read. The
holders are those of a height, and blocks above it do not touch them. With the lists of the
module before, a walk through any of the six receives what the store had when it began.
-/

namespace Retracer

open KeyedTable Sorting Paging Execution

/-! ## Blocks -/

/-- The block as far as it stays, when blocks that come in may dispute these heights. -/
def BlocksRow.settled (disputable : Int → Bool) (b : BlocksRow) : BlocksRow :=
  { b with disputed := b.disputed && !disputable b.height }

def BlockSummary.settled (disputable : Int → Bool) (b : BlockSummary) : BlockSummary :=
  { b with disputed := b.disputed && !disputable b.height }

@[reducible] def blocksKeyset (chainId : String) (disputable : Int → Bool) :
    Keyset Database BlocksRow BlockSummary Int where
  rows db := (db.blocks.rows.filter fun b => b.chainId = chainId).map
    (BlocksRow.settled disputable)
  key := BlocksRow.height
  order := newestFirst BlocksRow.height
  out := blockSummary
  keyOf := BlockSummary.height
  before := (· > ·)

section

variable {chainId : String} {disputable : Int → Bool} {db db' : Database}

theorem blocks_keyed : (blocksKeyset chainId disputable).Keyed db where
  distinct := by
    rw [List.map_map]
    refine db.blocks.nodup_map_filter fun a b ha hb hsame _ _ => ?_
    simp only [decide_eq_true_eq] at ha hb
    have hheight : a.height = b.height := hsame
    simp only [key, ha, hb, hheight]
  ordered _ _ _ _ horder hne := lt_of_le_of_ne horder (Ne.symm hne)
  out _ _ := rfl

theorem mem_blocksKeyset {b : BlocksRow} :
    b ∈ (blocksKeyset chainId disputable).rows db ↔ b.chainId = chainId ∧
      (db.blocks.find? (chainId, b.height)).map (BlocksRow.settled disputable) = some b := by
  simp only [List.mem_map, List.mem_filter, decide_eq_true_eq, Option.map_eq_some_iff,
    Table.find?_eq_some_iff]
  constructor
  · rintro ⟨a, ⟨ha, hchain⟩, rfl⟩
    refine ⟨hchain, a, ⟨ha, ?_⟩, rfl⟩
    rw [← hchain]
    rfl
  · rintro ⟨_, a, ⟨ha, hkey⟩, rfl⟩
    exact ⟨a, ⟨ha, congrArg Prod.fst hkey⟩, rfl⟩

theorem listBlocks_eq {limit : Int} {last : Option BlockSummary} :
    (listBlocks db chainId limit (last.map BlockSummary.height)).map
        (BlockSummary.settled disputable) =
      (blocksKeyset chainId disputable).page limit.toNat db last := by
  have hrows : ((blocksKeyset chainId disputable).rows db).filter
      ((blocksKeyset chainId disputable).reached last) =
        (db.blocks.rows.filter fun b => b.chainId = chainId ∧
          (last.map BlockSummary.height).all fun height => b.height < height).map
            (BlocksRow.settled disputable) := by
    rw [List.filter_map, List.filter_filter]
    congr 2
    funext b
    cases last with
    | none => simp [Keyset.reached]
    | some row => simp [Keyset.reached, BlocksRow.settled, Bool.and_comm]
  have htop := fun l : List BlocksRow => map_top (r := newestFirst BlocksRow.height)
    (s := newestFirst BlocksRow.height) (f := BlocksRow.settled disputable) (k := limit.toNat)
    (l := l) fun _ _ _ _ => Iff.rfl
  rw [Keyset.page, hrows, ← htop, listBlocks, List.map_map, List.map_map]
  rfl

/-- The number of actions is that of the stored ones. -/
theorem SameUpTo.blockSummary {n : Int} (h : SameUpTo chainId n db db') {b : BlocksRow}
    (hchain : b.chainId = chainId) (hle : b.height ≤ n) :
    Retracer.blockSummary db' b = Retracer.blockSummary db b := by
  have hat : (fun a : ActionsRow => decide (a.chainId = b.chainId ∧ a.blockHeight = b.height)) =
      within chainId b.height b.height := by
    funext a
    rw [within, decide_eq_decide, hchain]
    exact and_congr_right fun _ => eq_comm.trans le_antisymm_iff
  have hactions : db'.actions.rows.filter (within chainId b.height b.height) =
      db.actions.rows.filter (within chainId b.height b.height) := h.rows .actions _ _ hle
  rw [Retracer.blockSummary, Retracer.blockSummary, hat, hactions]

/-- The flags below the height are left where they may not be set. -/
def SameBlocks (chainId : String) (disputable : Int → Bool) (db : Database) (n : Int)
    (db' : Database) : Prop :=
  SameUpTo chainId n db db' ∧ ∀ m ≤ n,
    (db'.blocks.find? (chainId, m)).map (BlocksRow.settled disputable) =
      (db.blocks.find? (chainId, m)).map (BlocksRow.settled disputable)

theorem settled_disputeRow {heights : List Nat}
    (h : ∀ d ∈ heights, disputable (asI64 d) = true) (b : BlocksRow) :
    (disputeRow chainId heights b).settled disputable = b.settled disputable := by
  unfold disputeRow
  split
  · next hin =>
      obtain ⟨d, hd, hheight⟩ := List.mem_map.mp hin.2
      have hmay := h d hd
      rw [hheight] at hmay
      simp [BlocksRow.settled, hmay]
  · rfl

variable [Postgres]

/-- Blocks that dispute nothing else. -/
def appendedDisputing (chainId : String) (extractor : AddressExtractor) (disputable : Int → Bool)
    (db : Database) (blocks : List IndexableBlock) : Option Database :=
  if ∀ b ∈ blocks, ∀ d ∈ b.disputedBlocks, disputable (asI64 d) = true then
    insertBlocks db chainId blocks extractor
  else none

theorem settled_insertBlocks {extractor : AddressExtractor} {blocks : List IndexableBlock}
    (hmay : ∀ b ∈ blocks, ∀ d ∈ b.disputedBlocks, disputable (asI64 d) = true) {m : Int}
    (habove : ∀ b ∈ blocks, m < (b.height : Int))
    (h : insertBlocks db chainId blocks extractor = some db') :
    (db'.blocks.find? (chainId, m)).map (BlocksRow.settled disputable) =
      (db.blocks.find? (chainId, m)).map (BlocksRow.settled disputable) := by
  induction blocks generalizing db with
  | nil =>
      cases h
      rfl
  | cons block blocks ih =>
      rw [insertBlocks_cons, Option.bind_eq_some_iff] at h
      obtain ⟨mid, hmid, hrest⟩ := h
      rw [List.forall_mem_cons] at hmay habove
      rw [ih hmay.2 habove.2 hrest, blocks_insertBlockInTx hmid, Table.find?_modify,
        Table.find?_insertRow, Option.map_map]
      have hne : key (blocksRow chainId block) ≠ (chainId, m) := by
        intro hkey
        have hheight : (block.height : Int) = m := congrArg Prod.snd hkey
        omega
      rw [if_neg hne, Option.or_none]
      congr 1
      funext b
      exact settled_disputeRow hmay.1 b

theorem leftBelow_appendedDisputing (extractor : AddressExtractor) :
    LeftBelow (appendedDisputing chainId extractor disputable) db
      (SameBlocks chainId disputable db) where
  start _ := ⟨.refl, fun _ _ => rfl⟩
  append n mid blocks db' hsame habove hinsert := by
    unfold appendedDisputing at hinsert
    split at hinsert
    · next hmay =>
        refine ⟨hsame.1.trans (.insertBlocks hinsert habove), fun m hm => ?_⟩
        have hrest : ∀ b ∈ blocks, m < (b.height : Int) := fun b hb => hm.trans_lt (habove b hb)
        exact (settled_insertBlocks hmay hrest hinsert).trans (hsame.2 m hm)
    · cases hinsert

def blocksPager (chainId : String) (extractor : AddressExtractor) (disputable : Int → Bool)
    (limit : Int) : Pager Database BlockSummary (List IndexableBlock) :=
  listPager limit
    (fun db last => some ((listBlocks db chainId limit (last.map BlockSummary.height)).map
      (BlockSummary.settled disputable)))
    BlockSummary.height (appendedDisputing chainId extractor disputable)

theorem blocks_pages (extractor : AddressExtractor) {limit : Int} (hlimit : 1 ≤ limit) :
    (blocksPager chainId extractor disputable limit).Complete (fun a b => b.height < a.height)
      (fun row => ∃ b ∈ db.blocks.rows, b.chainId = chainId ∧
        (blockSummary db b).settled disputable = row) db := by
  have hkeyed : (blocksKeyset chainId disputable).Keyed db := blocks_keyed
  apply (leftBelow_appendedDisputing extractor).complete hkeyed hlimit
  · intro row
    simp only [List.mem_map, List.mem_filter, decide_eq_true_eq]
    constructor
    · rintro ⟨_, ⟨b, ⟨hb, hchain⟩, rfl⟩, rfl⟩
      exact ⟨b, hb, hchain, rfl⟩
    · rintro ⟨b, hb, hchain, rfl⟩
      exact ⟨_, ⟨b, ⟨hb, hchain⟩, rfl⟩, rfl⟩
  · rintro first db' ⟨hup, hflags⟩
    have hchecked : (blocksKeyset chainId disputable).Keyed db' := blocks_keyed
    refine ⟨hchecked.nodup, ?_, ?_⟩
    · intro b hfrom
      have hle : b.height ≤ first.height := hfrom.elim (fun h => h.le) fun h => le_of_lt h
      rw [mem_blocksKeyset, mem_blocksKeyset, hflags _ hle]
    · intro b hb hfrom
      have hle : b.height ≤ first.height := hfrom.elim (fun h => h.le) fun h => le_of_lt h
      exact hup.blockSummary (mem_blocksKeyset.mp hb).1 hle
  · intro n db' last _ _
    exact congrArg some listBlocks_eq

end

/-! ## Holders -/

section

variable {chainId : String} {n : Int} {db db' : Database}

theorem exists_le_heights {ρ : Type} [Stamped ρ] (rows : List ρ) :
    ∃ lo, ∀ r ∈ rows, lo ≤ Stamped.heightOf r := by
  induction rows with
  | nil => exact ⟨0, fun _ hr => nomatch hr⟩
  | cons r rows ih =>
      obtain ⟨lo, hlo⟩ := ih
      refine ⟨min lo (Stamped.heightOf r), List.forall_mem_cons.mpr ⟨min_le_right _ _, ?_⟩⟩
      exact fun s hs => (min_le_left _ _).trans (hlo s hs)

/-- What is read as of a height has no lower end, but there are finitely many rows. -/
theorem SameUpTo.filter_upTo (h : SameUpTo chainId n db db') (k : HeightTable)
    (p : k.Row → Bool) :
    (db'.at k).rows.filter (fun r => upTo chainId n r && p r) =
      (db.at k).rows.filter fun r => upTo chainId n r && p r := by
  obtain ⟨lo, hlo⟩ := exists_le_heights ((db'.at k).rows ++ (db.at k).rows)
  have hwithin : ∀ rows : List k.Row, (∀ r ∈ rows, lo ≤ Stamped.heightOf r) →
      rows.filter (fun r => upTo chainId n r && p r) =
        (rows.filter (within chainId lo n)).filter p := by
    intro rows hrows
    rw [List.filter_filter]
    apply List.filter_congr
    intro r hr
    have hlow := hrows r hr
    simp [upTo, within, hlow, Bool.and_comm]
  rw [hwithin _ fun r hr => hlo r (List.mem_append_left _ hr),
    hwithin _ fun r hr => hlo r (List.mem_append_right _ hr), h.rows k lo n (Int.le_refl n)]

theorem SameUpTo.holderRow [Postgres] (h : SameUpTo chainId n db db') (asset : String) :
    holderRow db' chainId asset n = Retracer.holderRow db chainId asset n := by
  have haccounts := fun address => h.filter_upTo .accountState fun r => r.address == address
  have hstates := fun holder => h.filter_upTo .assetHolderStates fun r =>
    r.asset == asset && r.holder == holder
  simp only [← Bool.and_assoc] at hstates
  funext r
  have haccount : newestAccount db' chainId r.holder n = newestAccount db chainId r.holder n :=
    congrArg _ (haccounts r.holder)
  have hstate : newestHolderState db' chainId asset r.holder n =
      newestHolderState db chainId asset r.holder n := congrArg _ (hstates r.holder)
  rw [Retracer.holderRow, Retracer.holderRow, haccount, hstate]

end

section

variable [Postgres] [Collation] {chainId asset : String} {n : Int}
  {jurisdiction : Option String} {db db' : Database}

/-- The newest balance of each holder, where there is one. -/
def balanceRows (db : Database) (chainId asset : String) (n : Int) : List AssetBalancesRow :=
  (newestPer AssetBalancesRow.holder (db.assetBalances.rows.filter fun r =>
    upTo chainId n r && r.asset == asset)).filter fun r => 0 < r.balance

/-- An empty address would be behind no cursor. -/
@[reducible] def holdersKeyset (chainId asset : String) (n : Int) (jurisdiction : Option String) :
    Keyset Database HolderRow HolderRow String where
  rows db := ((balanceRows db chainId asset n).map (holderRow db chainId asset n)).filter fun h =>
    h.holder ≠ "" ∧ jurisdiction.all fun wanted => h.jurisdiction == some wanted
  key := HolderRow.holder
  order := orderBy textLe HolderRow.holder anyOrder
  out _ h := h
  keyOf := HolderRow.holder
  before := strictly textLe

theorem holders_keyed : (holdersKeyset chainId asset n jurisdiction).Keyed db where
  distinct := by
    have hnames : ((balanceRows db chainId asset n).map AssetBalancesRow.holder).Nodup := by
      rw [List.Nodup, List.pairwise_map]
      exact pairwise_distinctOn.sublist List.filter_sublist
    have hholders : ((balanceRows db chainId asset n).map (holderRow db chainId asset n)).map
        HolderRow.holder = (balanceRows db chainId asset n).map AssetBalancesRow.holder := by
      rw [List.map_map]
      rfl
    rw [← hholders] at hnames
    exact hnames.sublist (List.filter_sublist.map _)
  ordered _ _ _ _ horder hne := strictly_of_ne horder.1 hne
  out _ _ := rfl

theorem getAssetHolders_eq {limit : Int} {last : Option HolderRow} :
    getAssetHolders db chainId asset n jurisdiction (last.map HolderRow.holder) limit =
      (holdersKeyset chainId asset n jurisdiction).page limit.toNat db last := by
  have hpage : getAssetHolders db chainId asset n jurisdiction (last.map HolderRow.holder) limit =
      (top (holdersKeyset chainId asset n jurisdiction).order limit.toNat
        (((balanceRows db chainId asset n).map (holderRow db chainId asset n)).filter fun h =>
          !Collation.le h.holder ((last.map HolderRow.holder).getD "") &&
            jurisdiction.all fun wanted => h.jurisdiction == some wanted)).map
        ((holdersKeyset chainId asset n jurisdiction).out db) := (List.map_id' _).symm
  rw [hpage]
  apply Keyset.top_eq_page (q := holdersKeyset chainId asset n jurisdiction) rfl
  intro h _
  cases last with
  | none =>
      have hempty : Collation.le h.holder "" = decide (h.holder = "") := by
        rw [Bool.eq_iff_iff, decide_eq_true_eq]
        constructor
        · exact fun hle => Collation.le_antisymm hle (Collation.empty_le _)
        · intro heq
          rw [heq]
          exact Collation.empty_le ""
      simp [Keyset.reached, hempty]
  | some row =>
      by_cases hle : Collation.le h.holder row.holder = true
      · simp [Keyset.reached, strictly, hle]
      · have hne : h.holder ≠ "" := by
          intro heq
          rw [heq] at hle
          exact hle (Collation.empty_le _)
        simp [Keyset.reached, strictly, hle, hne]

/-- The newest balance of a holder as of the height. -/
def newestBalance (db : Database) (chainId asset holder : String) (n : Int) :
    Option AssetBalancesRow :=
  newest AssetBalancesRow.height (db.assetBalances.rows.filter fun r =>
    decide (r.holder = holder) && (upTo chainId n r && r.asset == asset))

omit [Postgres] in
theorem mem_balanceRows {r : AssetBalancesRow} :
    r ∈ balanceRows db chainId asset n ↔
      newestBalance db chainId asset r.holder n = some r ∧ 0 < r.balance := by
  rw [balanceRows, List.mem_filter, mem_newestPer, List.filter_filter, decide_eq_true_eq]
  exact Iff.rfl

/-- Nothing above the height is read. -/
theorem SameUpTo.holders (h : SameUpTo chainId n db db') :
    (holdersKeyset chainId asset n jurisdiction).rows db' =
      (holdersKeyset chainId asset n jurisdiction).rows db := by
  have hbalances : db'.assetBalances.rows.filter (fun r => upTo chainId n r && r.asset == asset) =
      db.assetBalances.rows.filter fun r => upTo chainId n r && r.asset == asset :=
    h.filter_upTo .assetBalances _
  have hrows : balanceRows db' chainId asset n = balanceRows db chainId asset n := by
    rw [balanceRows, balanceRows, hbalances]
  show List.filter _ _ = List.filter _ _
  rw [hrows, h.holderRow]

/-- Pages of the holders as of a height. Blocks may come in above it, not above a holder. -/
def holdersPager (chainId : String) (extractor : AddressExtractor) (asset : String) (n : Int)
    (jurisdiction : Option String) (limit : Int) : Pager Database HolderRow (List IndexableBlock) :=
  listPager limit
    (fun db last => some (getAssetHolders db chainId asset n jurisdiction
      (last.map HolderRow.holder) limit))
    (fun _ => n) (appended chainId extractor)

theorem holders_pages (hreferenced : Referenced db)
    (hnonempty : ∀ r ∈ db.assetBalances.rows, r.holder ≠ "") (extractor : AddressExtractor)
    {limit : Int} (hlimit : 1 ≤ limit) :
    (holdersPager chainId extractor asset n jurisdiction limit).Complete
      (fun a b => strictly textLe a.holder b.holder)
      (fun row => ∃ r, newestBalance db chainId asset r.holder n = some r ∧ 0 < r.balance ∧
        (∀ wanted ∈ jurisdiction, row.jurisdiction = some wanted) ∧
        holderRow db chainId asset n r = row) db := by
  have hkeyed : (holdersKeyset chainId asset n jurisdiction).Keyed db := holders_keyed
  apply (leftBelow_appended hreferenced chainId extractor).complete hkeyed hlimit
  · intro row
    constructor
    · rintro ⟨_, hrow, rfl⟩
      simp only [List.mem_filter, List.mem_map, decide_eq_true_eq, Option.all_eq_true] at hrow
      obtain ⟨⟨r, hr, rfl⟩, _, hwanted⟩ := hrow
      obtain ⟨hnewest, hpositive⟩ := mem_balanceRows.mp hr
      exact ⟨r, hnewest, hpositive, fun wanted hin => beq_iff_eq.mp (hwanted wanted hin), rfl⟩
    · rintro ⟨r, hnewest, hpositive, hwanted, rfl⟩
      have hr := mem_balanceRows.mpr ⟨hnewest, hpositive⟩
      have hselected := (List.mem_insertionSort _).mp (List.mem_of_head? hnewest)
      have hname : r.holder ≠ "" := hnonempty r (List.mem_of_mem_filter hselected)
      refine ⟨_, List.mem_filter.mpr ⟨List.mem_map_of_mem hr, ?_⟩, rfl⟩
      rw [decide_eq_true_eq, Option.all_eq_true]
      exact ⟨hname, fun wanted hin => beq_iff_eq.mpr (hwanted wanted hin)⟩
  · intro first db' hsame
    have hrows : (holdersKeyset chainId asset n jurisdiction).rows db' =
        (holdersKeyset chainId asset n jurisdiction).rows db := hsame.1.holders
    refine ⟨?_, fun _ _ => by rw [hrows], fun _ _ _ => rfl⟩
    rw [hrows]
    exact hkeyed.nodup
  · intro m db' last _ _
    exact congrArg some getAssetHolders_eq

end

/-! ## The six lists -/

/-- A walk through a list receives every row that matched when it began, once and in the order of
the list, and ends. Blocks that come in above the first row received, for the holders above their
height, change the flag of a block that they dispute and nothing else. -/
theorem lists_walked [ProjectionHost] [Postgres] [Collation]
    {extractors : String → AddressExtractor} {ops : List WriteOp} {s : ChainsState}
    (hrun : exec (consecutiveStep extractors) {} ops = some s) (chainId : String) {limit : Int}
    (hlimit : 1 ≤ limit) :
    (∀ disputable, (blocksPager chainId (extractors chainId) disputable limit).Complete
      (fun a b => b.height < a.height)
      (fun row => ∃ b ∈ s.db.blocks.rows, b.chainId = chainId ∧
        (blockSummary s.db b).settled disputable = row) s.db) ∧
    (∀ (store : IndexedStore) (filter : Option ActionFilter), store.db = s.db →
      (∀ f ∈ filter, f.Declared store.indexes) →
      (actionsPager chainId (extractors chainId) filter limit).Complete
        (fun a b => laterPosition a.place b.place)
        (fun row => ∃ a ∈ s.db.actions.rows, a.chainId = chainId ∧
          (∀ f ∈ filter, f.selects a = true) ∧ actionColumns s.db a = some row) store) ∧
    (∀ assetRef, (assetActionsPager chainId (extractors chainId) assetRef limit).Complete
      (fun a b => laterPosition a.place b.place)
      (fun row => ∃ a ∈ s.db.actions.rows, a.chainId = chainId ∧
        assetRef ∈ assetRefs a.payload ∧ actionColumns s.db a = some row) s.db) ∧
    (∀ token, (tokenEventsPager chainId (extractors chainId) token limit).Complete
      (fun a b => newerThen textLe (a.blockHeight, a.actionHash) (b.blockHeight, b.actionHash))
      (fun row => ∃ r ∈ s.db.tokenEvents.rows, r.chainId = chainId ∧ r.token = token ∧
        tokenEventColumns r = row) s.db) ∧
    (∀ sender asset, (droppedPager chainId (extractors chainId) sender asset limit).Complete
      (fun a b => newerThen textGe (a.blockHeight, a.signature) (b.blockHeight, b.signature))
      (fun row => ∃ r ∈ s.db.droppedActions.rows,
        droppedMatches chainId sender asset r = true ∧ r.blockHeight < i64Max ∧ r.read = row)
      s.db) ∧
    ∀ asset height jurisdiction, (∀ r ∈ s.db.assetBalances.rows, r.holder ≠ "") →
      (holdersPager chainId (extractors chainId) asset height jurisdiction limit).Complete
        (fun a b => strictly textLe a.holder b.holder)
        (fun row => ∃ r, newestBalance s.db chainId asset r.holder height = some r ∧
          0 < r.balance ∧ (∀ wanted ∈ jurisdiction, row.jurisdiction = some wanted) ∧
          holderRow s.db chainId asset height r = row) s.db := by
  have hplaced := placed_run hrun
  refine ⟨fun _ => blocks_pages _ hlimit, ?_, fun _ => ?_, fun _ => ?_, fun _ _ => ?_, ?_⟩
  · intro store filter hdb hdeclared
    rw [← hdb] at hplaced ⊢
    exact actions_pages hplaced.referenced hplaced.unique hdeclared _ hlimit
  · exact assetActions_pages hplaced.referenced hplaced.unique _ hlimit
  · exact tokenEvents_pages hplaced.referenced _ hlimit
  · exact dropped_pages hplaced.referenced _ hlimit
  · intro asset height jurisdiction hnonempty
    exact holders_pages hplaced.referenced hnonempty _ hlimit

/-! ## Concrete walks -/

def paying (amount identity : String) : IndexableAction :=
  ⟨"alice", some identity, some (.obj [("Transfer", .obj [("amount", .num amount)])])⟩

/-- Three payments, and what is left of the gold. -/
def paidOps : List WriteOp :=
  [.insert "main" [
    { IndexableBlock.bare 0 "g" "" with actions := [paying "5" "t0", paying "7" "t1"] },
    { IndexableBlock.bare 1 "a1" "g" with
      actions := [paying "5" "t2"]
      effects := some { assetBalances := [⟨"gold", "alice", 1⟩, ⟨"gold", "bob", 9⟩] } }]]

def paidFive : ActionFilter :=
  { kind := "Transfer", projection := some amountProjection, value := some "5" }

/-- The store with the index of the amounts. -/
def amountsIndexed (db : Database) : Option (@IndexedStore .plain .plain) :=
  if h : @Fits .plain .plain [amountProjection] db.actions.rows then
    some (@IndexedStore.mk .plain .plain db [amountProjection] h)
  else none

theorem amountsIndexed_spec {db : Database} {store : @IndexedStore .plain .plain}
    (h : amountsIndexed db = some store) :
    @IndexedStore.db .plain .plain store = db ∧
      @IndexedStore.indexes .plain .plain store = [amountProjection] := by
  unfold amountsIndexed at h
  split at h
  · cases h
    exact ⟨rfl, rfl⟩
  · cases h

/-- It is what the start of a chain makes of a store without indexes. -/
theorem amountsIndexed_started {db : Database} {store : @IndexedStore .plain .plain}
    (h : amountsIndexed db = some store) :
    @IndexedStore.Started .plain .plain store [amountProjection] := by
  unfold amountsIndexed at h
  split at h
  · next hfits =>
      cases h
      have hnone : @Fits .plain .plain [] db.actions.rows := by
        intro p hp
        cases hp
      refine ⟨@IndexedStore.mk .plain .plain db [] hnone, _, 1, ?_, ?_, List.Subset.refl _⟩
      · simp [IndexedStore.createProjectionIndexes, IndexedStore.createIndex, hfits]
      · intro p hp q hq _
        rw [List.mem_singleton.mp hp, List.mem_singleton.mp hq]
  · cases h

/-- The payments of five, one to a page, with one more of them after the first page. -/
def paidWalk (store : @IndexedStore .plain .plain) :
    Option (Walk (@IndexedStore .plain .plain) ActionRow) :=
  exec (@actionsPager .plain .plain "main" (.tierAOnly .empty) (some paidFive) 1).step { store }
    [.fetch, .change [{ IndexableBlock.bare 2 "a2" "a1" with actions := [paying "5" "t3"] }],
      .fetch, .fetch]

theorem lists_walked_paid :
    ∃ s store w, exec (@consecutiveStep .plain fun _ => .tierAOnly .empty) {} paidOps = some s ∧
      amountsIndexed s.db = some store ∧ paidWalk store = some w ∧
      w.received.map (·.actionHash) = ["t2", "t0"] ∧
      (∀ row, row ∈ w.received ↔ ∃ a ∈ s.db.actions.rows, a.chainId = "main" ∧
        (∀ f ∈ some paidFive, @ActionFilter.selects .plain .plain f a = true) ∧
          actionColumns s.db a = some row) ∧
      (@holdersPager .plain .plain "main" (.tierAOnly .empty) "gold" 1 none 1).Complete
        (fun a b => strictly (@textLe .plain) a.holder b.holder)
        (fun row => ∃ r, newestBalance s.db "main" "gold" r.holder 1 = some r ∧ 0 < r.balance ∧
          (∀ wanted ∈ none, row.jurisdiction = some wanted) ∧
          @holderRow .plain s.db "main" "gold" 1 r = row) s.db := by
  have hall : (exec (@consecutiveStep .plain fun _ => .tierAOnly .empty) {} paidOps).any (fun s =>
      decide (∀ r ∈ s.db.assetBalances.rows, r.holder ≠ "") &&
        (amountsIndexed s.db).any fun store => (paidWalk store).any fun w => w.done &&
          decide (w.received.map (·.actionHash) = ["t2", "t0"])) = true := by
    decide
  obtain ⟨s, hs, hrest⟩ := (Option.any_eq_true _ _).mp hall
  rw [Bool.and_eq_true, decide_eq_true_eq] at hrest
  obtain ⟨hnonempty, hrest⟩ := hrest
  obtain ⟨store, hstore, hrest⟩ := (Option.any_eq_true _ _).mp hrest
  obtain ⟨w, hw, hboth⟩ := (Option.any_eq_true _ _).mp hrest
  rw [Bool.and_eq_true, decide_eq_true_eq] at hboth
  obtain ⟨hdb, hindexes⟩ := amountsIndexed_spec hstore
  have hdeclared : ∀ f ∈ some paidFive, @ActionFilter.Declared .plain f
      (@IndexedStore.indexes .plain .plain store) := by
    rintro f ⟨⟩ p ⟨⟩
    rw [hindexes]
    exact ⟨List.mem_singleton_self _, rfl, by decide⟩
  obtain ⟨_, hactions, _, _, _, hholders⟩ := @lists_walked .plain .plain .plain
    (fun _ => .tierAOnly .empty) paidOps s hs "main" 1 (by decide)
  have hended := (hactions store (some paidFive) hdb hdeclared).ended _ w hw hboth.1
  exact ⟨s, store, w, hs, hstore, hw, hboth.2, hended.2, hholders "gold" 1 none hnonempty⟩

def twoBare : List WriteOp := [.insert "main" [.bare 0 "g" "", .bare 1 "a1" "g"]]

/-- One block to a page, and after the first page a block that disputes the other. -/
def disputedWalk (db : Database) : Option (Walk Database BlockSummary) :=
  exec (listPager 1
    (fun db last => some (listBlocks db "main" 1 (last.map BlockSummary.height)))
    BlockSummary.height (@appended .plain "main" (.tierAOnly .empty))).step { store := db }
    [.fetch, .change [.adjudicator 2 "a2" "a1" 0], .fetch, .fetch]

/-- The flag is read with the block, and a block that comes in after the first page sets it. -/
theorem lists_walked_disputed :
    ¬ ∀ (ops : List WriteOp) (s : ChainsState),
      exec (@consecutiveStep .plain fun _ => .tierAOnly .empty) {} ops = some s →
      ∀ (chainId : String) (limit : Int), 1 ≤ limit →
        (listPager limit
          (fun db last => some (listBlocks db chainId limit (last.map BlockSummary.height)))
          BlockSummary.height (@appended .plain chainId (.tierAOnly .empty))).Complete
          (fun a b => b.height < a.height)
          (fun row => ∃ b ∈ s.db.blocks.rows, b.chainId = chainId ∧ blockSummary s.db b = row)
          s.db := by
  intro h
  have hflag : (exec (@consecutiveStep .plain fun _ => .tierAOnly .empty) {} twoBare).any (fun s =>
      (s.db.blocks.rows.all fun b => !b.disputed) &&
        (disputedWalk s.db).any fun w => w.done && w.received.any (·.disputed)) = true := by
    decide
  obtain ⟨s, hs, hrest⟩ := (Option.any_eq_true _ _).mp hflag
  rw [Bool.and_eq_true, List.all_eq_true] at hrest
  obtain ⟨hclear, hrest⟩ := hrest
  obtain ⟨w, hw, hboth⟩ := (Option.any_eq_true _ _).mp hrest
  rw [Bool.and_eq_true, List.any_eq_true] at hboth
  obtain ⟨hdone, row, hrow, hdisputed⟩ := hboth
  have hended := (h twoBare s hs "main" 1 (by decide)).ended _ w hw hdone
  obtain ⟨b, hb, _, rfl⟩ := (hended.2 row).mp hrow
  have hnot := hclear b hb
  rw [show b.disputed = true from hdisputed] at hnot
  cases hnot

end Retracer
