import Retracer.Rest.AuditCsv
import Retracer.Storage.FirstSeen
import Retracer.Storage.ListReads
import Retracer.Storage.Validators

/-! # Audit reads

`list_asset_audit_transfers` reports a transfer with the compliance states that held before
its block, `height < block_height` in both lateral joins. `list_asset_audit_holders` is the
list of the holders without a page limit.
-/

namespace Retracer

open KeyedTable Sorting Execution

/-! ## The reads -/

/-- `BASELINE_ASSET_TRANSFER_KINDS`. -/
def baselineAssetTransferKinds : List String :=
  ["TransferAsset", "IssuerForcedTransfer", "TokenTransfer"]

section

variable [Postgres]

/-- The `WHERE` of the common table expression `t`. -/
def isAuditTransfer (chainId asset : String) (a : ActionsRow) : Bool :=
  a.chainId = chainId ∧
    ((a.kind ∈ baselineAssetTransferKinds ∧ a.payload.getText "asset" = some asset) ∨
      a.kind = "Token" ∧ (a.payload.get? "Transfer").bind (·.getText "token") = some asset)

/-- The columns `kind`, `sender` and `p` of `t`. -/
def auditKind (a : ActionsRow) : String := if a.kind = "Token" then "TokenTransfer" else a.kind

def auditSender (a : ActionsRow) : Option String :=
  if a.kind ∈ ["TransferAsset", "Token"] then some a.fromAddress else a.payload.getText "from"

def auditPayload (a : ActionsRow) : Option Json :=
  if a.kind = "Token" then a.payload.get? "Transfer" else some a.payload

/-- A lateral join. Nothing is equal to a holder that is NULL. -/
def stateBefore (db : Database) (chainId asset : String) (height : Int) (holder : Option String) :
    Option Json :=
  holder.bind fun name =>
    (newest AssetHolderStatesRow.height (db.assetHolderStates.rows.filter fun r =>
      r.chainId = chainId ∧ r.asset = asset ∧ r.holder = name ∧ r.height < height)).map (·.state)

/-- `JOIN blocks`. -/
def auditTransferRow (db : Database) (asset : String) (a : ActionsRow) :
    Option AuditTransferRow :=
  (db.blocks.find? (a.chainId, a.blockHeight)).map fun b =>
    { actionHash := a.actionHash, blockHeight := a.blockHeight, indexInBlock := a.indexInBlock
      blockHash := b.hash, timestamp := b.timestamp, kind := auditKind a
      «from» := auditSender a
      «to» := (auditPayload a).bind (·.getText "to")
      amount := (auditPayload a).bind (·.getText "amount")
      fromState := stateBefore db a.chainId asset a.blockHeight (auditSender a)
      toState := stateBefore db a.chainId asset a.blockHeight
        ((auditPayload a).bind (·.getText "to")) }

def listAssetAuditTransfers (db : Database) (chainId asset : String) : List AuditTransferRow :=
  ((db.actions.rows.filter (isAuditTransfer chainId asset)).insertionSort byPosition).filterMap
    (auditTransferRow db asset)

def listAssetAuditHolders [Collation] (db : Database) (chainId asset : String) (height : Int) :
    List HolderRow :=
  getAssetHolders db chainId asset height none none i64Max

/-! ## What the transfers should say -/

/-- The compliance state that the block gives the holder. -/
def IndexableBlock.holderStateOf (asset holder : String) (b : IndexableBlock) : Option Json :=
  (b.effects.bind fun e =>
    e.holderStates.find? fun x => (x.asset, x.holder) = (asset, holder)).map (·.state)

/-- The state after the last of the blocks that names the holder. -/
def complianceAfter (blocks : List IndexableBlock) (asset holder : String) : Option Json :=
  blocks.reverse.findSome? (·.holderStateOf asset holder)

/-- The actions of the blocks in order, each identity once. -/
def chainActions (chainId : String) (extractor : AddressExtractor)
    (blocks : List IndexableBlock) : List ActionsRow :=
  distinctOn key (batchActions chainId extractor blocks)

/-- The transfer as of its block, with the states that the blocks below left. -/
def reportedTransfer (blocks : List IndexableBlock) (asset : String) (a : ActionsRow) :
    Option AuditTransferRow :=
  (blocks[a.blockHeight.toNat]?).map fun b =>
    { actionHash := a.actionHash, blockHeight := a.blockHeight, indexInBlock := a.indexInBlock
      blockHash := b.hash, timestamp := asI64 b.timestamp, kind := auditKind a
      «from» := auditSender a
      «to» := (auditPayload a).bind (·.getText "to")
      amount := (auditPayload a).bind (·.getText "amount")
      fromState := (auditSender a).bind
        (complianceAfter (blocks.take a.blockHeight.toNat) asset)
      toState := ((auditPayload a).bind (·.getText "to")).bind
        (complianceAfter (blocks.take a.blockHeight.toNat) asset) }

def reportedTransfers (chainId : String) (extractor : AddressExtractor)
    (blocks : List IndexableBlock) (asset : String) : List AuditTransferRow :=
  ((chainActions chainId extractor blocks).filter (isAuditTransfer chainId asset)).filterMap
    (reportedTransfer blocks asset)

/-! ## The rows read -/

variable {chainId asset : String} {extractor : AddressExtractor} {s : StoreState}

theorem Kept.actions_eq (h : Kept chainId extractor s) :
    s.db.actions.rows = chainActions chainId extractor s.kept := by
  obtain ⟨t, ht, hsame⟩ := h.holds
  have hinsert : insertBlocks .empty chainId s.kept extractor = some t := ht
  have hactions : s.db.actions = t.actions := (content_eq_iff.mp hsame).1 .actions
  rw [hactions, (insertBlocks_indexes hinsert).1, Table.rows_insertMissing_firsts]
  · rfl
  · intro a _ hmem
    cases hmem

omit [Postgres] in
theorem ConsecutiveFrom.filter_lt {blocks : List IndexableBlock} (h : ConsecutiveFrom 0 blocks)
    (height : Nat) :
    (blocks.filter fun b => (b.height : Int) < height) = blocks.take height := by
  induction blocks using List.reverseRecOn with
  | nil => simp
  | append_singleton blocks last ih =>
      have hlast : last.height = blocks.length := h.height_last
      rw [List.filter_append, ih h.initial, List.take_append]
      by_cases hlt : blocks.length < height
      · obtain ⟨n, hn⟩ := Nat.exists_eq_add_of_lt hlt
        have htake : height - blocks.length = n + 1 := by omega
        rw [htake]
        simp [hlast, hlt]
      · have htake : height - blocks.length = 0 := by omega
        rw [htake]
        simp [hlast, hlt]

omit [Postgres] in
theorem ConsecutiveFrom.filter_from {blocks : List IndexableBlock} (h : ConsecutiveFrom 0 blocks)
    (height : Nat) :
    (blocks.filter fun b => (height : Int) ≤ (b.height : Int)) = blocks.drop height := by
  induction blocks using List.reverseRecOn with
  | nil => simp
  | append_singleton blocks last ih =>
      have hlast : last.height = blocks.length := h.height_last
      rw [List.filter_append, ih h.initial, List.drop_append]
      by_cases hle : height ≤ blocks.length
      · have hdrop : height - blocks.length = 0 := by omega
        rw [hdrop]
        simp [hlast, hle]
      · obtain ⟨n, hn⟩ := Nat.exists_eq_add_of_lt (Nat.lt_of_not_le hle)
        have hdrop : height - blocks.length = n + 1 := by omega
        rw [hdrop]
        simp [hlast, hle]

/-- Below a height the newest row of a key is that of the blocks below it. -/
theorem Sparse.newest_below {k : HeightTable} {ε κ : Type} [DecidableEq κ]
    (table : Sparse chainId k ε κ) (h : Kept chainId extractor s) {selected : k.Row → Bool}
    {n : κ} {height : Nat} (named : k.Row → Bool)
    (hnamed : ∀ x, named (table.row x) = decide (table.name x.2 = n))
    (hselected : ∀ r, selected r = (decide (Stamped.heightOf r < (height : Int)) && named r)) :
    newest Stamped.heightOf ((s.db.at k).rows.filter selected) =
      (s.kept.take height).reverse.findSome? (table.rowOf n) := by
  have hrows : (s.db.at k).rows.filter selected =
      (s.kept.take height).filterMap (table.rowOf n) := by
    have hsplit : selected = fun r => decide (Stamped.heightOf r < (height : Int)) && named r :=
      funext hselected
    rw [hsplit, ← List.filter_filter, table.kept_named h hnamed, List.filter_filterMap,
      ← h.heights.filter_lt, List.filterMap_filter]
    apply List.filterMap_congr
    intro b _
    cases hrow : table.rowOf n b with
    | none => simp
    | some r =>
        have hversion := table.version_rowOf n b r hrow
        by_cases hlt : (b.height : Int) < height <;> simp [Option.filter_some, hversion, hlt]
  have hasc : ((s.kept.take height).filterMap (table.rowOf n)).Pairwise fun a b =>
      Stamped.heightOf a < Stamped.heightOf b := by
    have hall := h.ascending_filterMap (table.version_rowOf n)
    exact hall.sublist ((List.take_sublist height s.kept).filterMap _)
  rw [hrows, newest, newestFirst_of_ascending hasc, ← List.filterMap_reverse,
    List.head?_filterMap]

/-- The lateral joins read the states below the block of the transfer. -/
theorem Kept.stateBefore_eq (h : Kept chainId extractor s) (n : Nat) (holder : Option String) :
    stateBefore s.db chainId asset n holder =
      holder.bind (complianceAfter (s.kept.take n) asset) := by
  unfold stateBefore
  congr 1
  funext name
  have hnewest : newest Stamped.heightOf ((s.db.at .assetHolderStates).rows.filter fun r =>
      r.chainId = chainId ∧ r.asset = asset ∧ r.holder = name ∧ r.height < (n : Int)) =
        (s.kept.take n).reverse.findSome?
          ((holderStateTable chainId).rowOf (asset, name)) := by
    apply (holderStateTable chainId).newest_below h fun r =>
      r.chainId = chainId ∧ r.asset = asset ∧ r.holder = name
    · intro x
      simp [holderStateTable]
    · intro r
      rw [Bool.eq_iff_iff]
      simp only [Bool.and_eq_true, decide_eq_true_eq]
      constructor
      · rintro ⟨hchain, hasset, hholder, hlt⟩
        exact ⟨hlt, hchain, hasset, hholder⟩
      · rintro ⟨hlt, hchain, hasset, hholder⟩
        exact ⟨hchain, hasset, hholder, hlt⟩
  have hread : complianceAfter (s.kept.take n) asset name =
      ((s.kept.take n).reverse.findSome? ((holderStateTable chainId).rowOf (asset, name))).bind
        fun r => some r.state := by
    apply findSome?_bind
    intro b _
    refine ⟨?_, fun _ _ => rfl⟩
    rw [Sparse.rowOf, find_entries, IndexableBlock.holderStateOf, Option.bind_map,
      Option.map_eq_bind]
    rfl
  rw [hread, ← hnewest, Option.map_eq_bind]
  rfl

theorem Kept.auditTransferRow_eq (h : Kept chainId extractor s) {a : ActionsRow}
    (ha : a ∈ s.db.actions.rows) :
    auditTransferRow s.db asset a = reportedTransfer s.kept asset a := by
  have hchain : a.chainId = chainId := by
    rw [h.actions_eq] at ha
    exact chainId_batchActions (distinctOn_sublist.subset ha)
  obtain ⟨hpos, hlt⟩ := h.heights_lt.1 .actions a ha
  obtain ⟨n, hn⟩ := Int.eq_ofNat_of_zero_le hpos
  have hheight : a.blockHeight = n := hn
  have hbound : n < s.kept.length := by
    have hlt' : a.blockHeight < s.kept.length := hlt
    omega
  obtain ⟨b, hb, _, hhash, htime⟩ := h.find_block (List.getElem?_eq_getElem hbound)
  simp only [auditTransferRow, reportedTransfer, hchain, hheight, hb, Int.toNat_natCast,
    List.getElem?_eq_getElem hbound, Option.map_some, hhash, htime, h.stateBefore_eq]

theorem Kept.listAssetAuditTransfers_eq (h : Kept chainId extractor s) (asset : String) :
    listAssetAuditTransfers s.db chainId asset =
      reportedTransfers chainId extractor s.kept asset := by
  have hsorted : (s.db.actions.rows.filter (isAuditTransfer chainId asset)).Pairwise
      byPosition := by
    rw [h.actions_eq]
    exact (positions_batchActions h.ascending).sublist
      (List.filter_sublist.trans distinctOn_sublist)
  rw [listAssetAuditTransfers, hsorted.insertionSort_eq, reportedTransfers, ← h.actions_eq]
  apply List.filterMap_congr
  intro a ha
  exact h.auditTransferRow_eq (List.mem_of_mem_filter ha)

/-! ## Blocks that come later -/

omit [Postgres] in
theorem height_of_batchActions {blocks : List IndexableBlock} {a : ActionsRow}
    (ha : a ∈ batchActions chainId extractor blocks) :
    ∃ block ∈ blocks, (block.height : Int) = a.blockHeight := by
  obtain ⟨block, hblock, rows, _, _, row, _, rfl⟩ := mem_batchActions.mp ha
  exact ⟨block, hblock, rfl⟩

/-- Nothing above its block is in what is reported of a transfer. -/
theorem reportedTransfer_append {blocks more : List IndexableBlock} {a : ActionsRow}
    (hlt : a.blockHeight.toNat < blocks.length) :
    reportedTransfer (blocks ++ more) asset a = reportedTransfer blocks asset a := by
  have htake : (blocks ++ more).take a.blockHeight.toNat =
      blocks.take a.blockHeight.toNat := List.take_append_of_le_length hlt.le
  rw [reportedTransfer, reportedTransfer, List.getElem?_append_left hlt, htake]

omit [Postgres] in
theorem ConsecutiveFrom.following {n : Nat} {blocks more : List IndexableBlock}
    (h : ConsecutiveFrom n (blocks ++ more)) : ConsecutiveFrom (n + blocks.length) more := by
  have hsplit : blocks.map (·.height) ++ more.map (·.height) =
      List.range' n blocks.length ++ List.range' (n + blocks.length) more.length := by
    rw [← List.map_append, h, List.length_append, List.range'_append_1]
  exact (List.append_inj hsplit (by simp)).2

/-- The blocks that follow add transfers behind those of the blocks before. -/
theorem reportedTransfers_append (chainId asset : String) (extractor : AddressExtractor)
    {blocks more : List IndexableBlock} (hin : ConsecutiveFrom 0 (blocks ++ more)) :
    ∃ rest, reportedTransfers chainId extractor (blocks ++ more) asset =
        reportedTransfers chainId extractor blocks asset ++ rest ∧
      (∀ r ∈ reportedTransfers chainId extractor blocks asset, r.blockHeight < blocks.length) ∧
      ∀ r ∈ rest, (blocks.length : Int) ≤ r.blockHeight := by
  have hbelow : ∀ a ∈ chainActions chainId extractor blocks,
      0 ≤ a.blockHeight ∧ a.blockHeight < blocks.length := by
    intro a ha
    obtain ⟨block, hblock, hheight⟩ := height_of_batchActions (distinctOn_sublist.subset ha)
    have hlt := hin.initial.height_lt hblock
    omega
  have hmore : ∀ a ∈ distinctOn key (batchActions chainId extractor more),
      (blocks.length : Int) ≤ a.blockHeight := by
    intro a ha
    obtain ⟨block, hblock, hheight⟩ := height_of_batchActions (distinctOn_sublist.subset ha)
    have hfrom : ConsecutiveFrom blocks.length more := by
      have hrest := hin.following
      rwa [Nat.zero_add] at hrest
    have hmem : block.height ∈ more.map (·.height) := List.mem_map_of_mem hblock
    rw [hfrom, List.mem_range'_1] at hmem
    omega
  have hheight : ∀ {chain : List IndexableBlock} {a : ActionsRow} {r : AuditTransferRow},
      reportedTransfer chain asset a = some r → r.blockHeight = a.blockHeight := by
    intro chain a r hr
    obtain ⟨_, _, rfl⟩ := Option.map_eq_some_iff.mp hr
    rfl
  have hsplit : batchActions chainId extractor (blocks ++ more) =
      batchActions chainId extractor blocks ++ batchActions chainId extractor more :=
    List.flatMap_append
  rw [reportedTransfers, chainActions, hsplit, distinctOn_append, List.filter_append,
    List.filterMap_append]
  refine ⟨_, congrArg (· ++ _) ?_, ?_, ?_⟩
  · apply List.filterMap_congr
    intro a ha
    have hrange := hbelow a (List.mem_of_mem_filter ha)
    exact reportedTransfer_append (by omega)
  · intro r hr
    obtain ⟨a, ha, hreported⟩ := List.mem_filterMap.mp hr
    rw [hheight hreported]
    exact (hbelow a (List.mem_of_mem_filter ha)).2
  · intro r hr
    obtain ⟨a, ha, hreported⟩ := List.mem_filterMap.mp hr
    rw [hheight hreported]
    exact hmore a (List.mem_of_mem_filter (List.mem_of_mem_filter ha))

/-! ## In every state -/

/-- In every state reached the audit export of an asset reports each of its transfers once, in
the order of the chain, with its block and with the states that the kept blocks below left. -/
theorem audit_transfers_of_kept_blocks {ops : List ChainOp}
    (hrun : exec (chainStep chainId extractor) {} ops = some s) (asset : String) :
    listAssetAuditTransfers s.db chainId asset =
      reportedTransfers chainId extractor s.kept asset := by
  have hkept : Kept chainId extractor s :=
    exec_preserves (fun _ _ _ h hs => kept_step h hs) kept_empty hrun
  exact hkept.listAssetAuditTransfers_eq asset

end

/-- A block with one action that carries an identity, and with the given effects. -/
def IndexableBlock.acting (height : Nat) (hash parentHash sender identity : String)
    (payload : Json) (effects : BlockEffects) : IndexableBlock :=
  { IndexableBlock.affecting height hash parentHash effects with
    actions := [⟨sender, some identity, some payload⟩] }

def goldTo (receiver : String) : Json :=
  .obj [("TransferAsset", .obj [("asset", .str "gold"), ("to", .str receiver),
    ("amount", .str "5")])]

def goldTokenTo (receiver : String) : Json :=
  .obj [("Token", .obj [("Transfer", .obj [("token", .str "gold"), ("to", .str receiver),
    ("amount", .str "1")])])]

/-- Alice is frozen by the block that her transfer is in, and a later branch has the same transfer
again. -/
def frozenByItsBlock : List ChainOp :=
  [.insert [.affecting 0 "g" "" { holderStates := [⟨"gold", "alice", .str "Active"⟩] },
    .acting 1 "a1" "g" "alice" "x" (goldTo "bob")
      { holderStates := [⟨"gold", "alice", .str "Frozen"⟩] },
    .acting 2 "a2" "a1" "alice" "y" (goldTo "bob") {}],
    .rollback 1,
    .insert [.acting 2 "b2" "a1" "alice" "z" (goldTokenTo "carol") {},
      .acting 3 "b3" "b2" "alice" "x" (goldTo "bob") {}]]

abbrev goldTransfers (s : StoreState) : List AuditTransferRow :=
  @listAssetAuditTransfers .plain s.db "main" "gold"

theorem audit_transfers_of_kept_blocks_frozen :
    ∃ s, exec plainChain {} frozenByItsBlock = some s ∧
      (goldTransfers s).map (fun r =>
          (r.actionHash, r.blockHeight, r.kind, r.fromState.bind Json.asStr)) =
        [("x", 1, "TransferAsset", some "Active"), ("z", 2, "TokenTransfer", some "Frozen")] ∧
      goldTransfers s = @reportedTransfers .plain "main" (.tierAOnly .empty) s.kept "gold" := by
  have hsome : ((exec plainChain {} frozenByItsBlock).map fun s =>
      (goldTransfers s).map fun r =>
        (r.actionHash, r.blockHeight, r.kind, r.fromState.bind Json.asStr)) =
      some [("x", 1, "TransferAsset", some "Active"),
        ("z", 2, "TokenTransfer", some "Frozen")] := by decide +kernel
  obtain ⟨s, hs, hrows⟩ := Option.map_eq_some_iff.mp hsome
  exact ⟨s, hs, hrows, @audit_transfers_of_kept_blocks .plain _ _ _ _ hs "gold"⟩

end Retracer
