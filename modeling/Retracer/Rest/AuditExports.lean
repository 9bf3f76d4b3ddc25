import Retracer.Rest.Search
import Retracer.Storage.AuditReads
import Retracer.Storage.ListWalks

/-! # Audit exports over HTTP

An export is something to compare with a later one. The transfers of two exports are the same
below the height from which the chain was replaced. The holders are those of one height, and the
response names it even when the request did not.
-/

namespace Retracer

open KeyedTable Sorting Execution

/-! ## The endpoints -/

/-- The chains that are served, and what the responses are made with. -/
structure AuditServer where
  known : List String
  /-- `format!("{:?}", text)`. -/
  debugText : String → String
  /-- `serde_json::to_string`. -/
  jsonText : Json → String
  hexSha256 : ByteArray → String

/-- `AppState::chain`. -/
def AuditServer.chain (server : AuditServer) (chainId : String) : Except LookupError Unit :=
  if chainId ∈ server.known then .ok ()
  else
    .error (.notFound ("unknown chain " ++ server.debugText chainId ++
      "; GET /v1/chains lists the ones this indexer serves"))

/-- `AsOf::height`. -/
def asOf : Option Int → Except LookupError Int
  | none => .ok i64Max
  | some h => if h < 0 then .error (.badRequest "at must be >= 0") else .ok h

structure AuditFormat where
  format : Option String := none
  «at» : Option Int := none

/-- `AuditFormat::format`. -/
def AuditFormat.exportFormat (query : AuditFormat) : Except LookupError ExportFormat :=
  match query.format.getD "json" with
  | "json" => .ok .json
  | "csv" => .ok .csv
  | _ => .error (.badRequest "format must be json or csv")

structure AuditMetadata where
  chainId : String
  assetRef : String
  baselineTransferKinds : List String
  asOfHeight : Option Int

structure AuditExport where
  metadata : AuditMetadata
  records : AuditRecords

/-! What `serde` derives. -/

def optionalJson (value : Option Json) : Json := value.getD .null

def optionalText (value : Option String) : Json := optionalJson (value.map .str)

def numberJson (n : Int) : Json := .num (toString n)

def AuditTransferRow.json (row : AuditTransferRow) : Json :=
  .obj [("action_hash", .str row.actionHash), ("block_height", numberJson row.blockHeight),
    ("index_in_block", numberJson row.indexInBlock), ("block_hash", .str row.blockHash),
    ("timestamp", numberJson row.timestamp), ("kind", .str row.kind),
    ("from", optionalText row.from), ("to", optionalText row.to),
    ("amount", optionalText row.amount), ("from_state", optionalJson row.fromState),
    ("to_state", optionalJson row.toState)]

def HolderRow.json (row : HolderRow) : Json :=
  .obj [("holder", .str row.holder), ("balance", .str row.balance),
    ("height", numberJson row.height), ("state", optionalJson row.state),
    ("jurisdiction", optionalText row.jurisdiction)]

def AuditMetadata.json (metadata : AuditMetadata) : Json :=
  .obj [("chain_id", .str metadata.chainId), ("asset_ref", .str metadata.assetRef),
    ("baseline_transfer_kinds", .arr (metadata.baselineTransferKinds.map .str)),
    ("as_of_height", optionalJson (metadata.asOfHeight.map numberJson))]

def AuditRecords.json : AuditRecords → Json
  | .transfers rows => .arr (rows.map (·.json))
  | .holders rows => .arr (rows.map (·.json))

def AuditExport.json (artifact : AuditExport) : Json :=
  .obj [("metadata", artifact.metadata.json), ("records", artifact.records.json)]

/-- The end of both handlers. -/
def AuditServer.respond (server : AuditServer) (artifact : AuditExport) (format : ExportFormat)
    (name : String) : AuditResponse :=
  match format with
  | .json =>
      auditResponse server.hexSha256 (server.jsonText artifact.json) format
        ("attachment; filename=\"" ++ name ++ ".json\"")
  | .csv =>
      auditResponse server.hexSha256 (artifact.records.csv server.jsonText) format
        ("attachment; filename=\"" ++ name ++ ".csv\"")

section

variable [Postgres] (server : AuditServer)

def transfersExport (db : Database) (chainId asset : String) : AuditExport :=
  { metadata :=
      { chainId, assetRef := asset, baselineTransferKinds := baselineAssetTransferKinds
        asOfHeight := none }
    records := .transfers (listAssetAuditTransfers db chainId asset) }

def getAssetAuditTransfers (db : Database) (chainId asset : String) (query : AuditFormat) :
    Except LookupError AuditResponse := do
  server.chain chainId
  let format ← query.exportFormat
  return server.respond (transfersExport db chainId asset) format "audit-transfers"

/-- The height that the export is made for. -/
def exportHeight (db : Database) (chainId : String) : Option Int → Except LookupError Int
  | some height => asOf (some height)
  | none => .ok ((getCursor db chainId).getD i64Max)

def holdersExport [Collation] (db : Database) (chainId asset : String) (height : Int) :
    AuditExport :=
  { metadata :=
      { chainId, assetRef := asset, baselineTransferKinds := baselineAssetTransferKinds
        asOfHeight := if height ≠ i64Max then some height else none }
    records := .holders (listAssetAuditHolders db chainId asset height) }

/-- The cursor and the records are read one after the other. -/
def getAssetAuditHolders [Collation] (cursorDb recordsDb : Database) (chainId asset : String)
    (query : AuditFormat) : Except LookupError AuditResponse := do
  server.chain chainId
  let format ← query.exportFormat
  let height ← exportHeight cursorDb chainId query.at
  return server.respond (holdersExport recordsDb chainId asset height) format "audit-holders"

end

/-! ## Transfers -/

theorem prefix_csvBody (header : String) (rows more : List (List String)) :
    (csvBody header rows).toList <+: (csvBody header (rows ++ more)).toList := by
  rw [toList_csvBody, toList_csvBody, List.flatMap_append, ← List.append_assoc]
  exact List.prefix_append _ _

section

variable [Postgres] {chainId : String} {extractor : AddressExtractor} {s s' : StoreState}

/-- The transfers of the first blocks come first. -/
theorem Kept.transfers_below (h : Kept chainId extractor s) (asset : String)
    {shared : List IndexableBlock} (hshared : shared <+: s.kept) :
    ∃ rest, listAssetAuditTransfers s.db chainId asset =
        reportedTransfers chainId extractor shared asset ++ rest ∧
      (∀ r ∈ reportedTransfers chainId extractor shared asset,
        r.blockHeight < shared.length) ∧
      ∀ r ∈ rest, (shared.length : Int) ≤ r.blockHeight := by
  obtain ⟨more, hmore⟩ := hshared
  have hin := h.heights
  rw [← hmore] at hin
  have hsplit := reportedTransfers_append chainId asset extractor hin
  rwa [hmore, ← h.listAssetAuditTransfers_eq] at hsplit

theorem getAssetAuditTransfers_csv {server : AuditServer} {db : Database} {asset : String}
    {response : AuditResponse} :
    getAssetAuditTransfers server db chainId asset { format := some "csv" } = .ok response ↔
      chainId ∈ server.known ∧
        server.respond (transfersExport db chainId asset) .csv "audit-transfers" = response := by
  unfold getAssetAuditTransfers AuditServer.chain
  by_cases hknown : chainId ∈ server.known
  · rw [if_pos hknown, and_iff_right hknown]
    exact ⟨Except.ok.inj, congrArg Except.ok⟩
  · rw [if_neg hknown]
    exact iff_of_false (fun h => nomatch h) fun h => hknown h.1

/-- The transfers of two exports are the same as far as the states share their blocks, and they
come first. While nothing is rolled back a later CSV file continues the earlier one. -/
theorem transfers_export_shared {ops ops' : List ChainOp}
    (hrun : exec (chainStep chainId extractor) {} ops = some s)
    (hrun' : exec (chainStep chainId extractor) {} ops' = some s') (asset : String) :
    (∀ shared, shared <+: s.kept → shared <+: s'.kept →
      ∃ common rest rest' : List AuditTransferRow,
        listAssetAuditTransfers s.db chainId asset = common ++ rest ∧
        listAssetAuditTransfers s'.db chainId asset = common ++ rest' ∧
        (∀ r ∈ common, r.blockHeight < shared.length) ∧
        ∀ r ∈ rest ++ rest', (shared.length : Int) ≤ r.blockHeight) ∧
    (s.kept <+: s'.kept → ∀ server response,
      getAssetAuditTransfers server s.db chainId asset { format := some "csv" } = .ok response →
        ∃ response', getAssetAuditTransfers server s'.db chainId asset
            { format := some "csv" } = .ok response' ∧
          response.body.toList <+: response'.body.toList) := by
  have hkept : Kept chainId extractor s :=
    exec_preserves (fun _ _ _ h hs => kept_step h hs) kept_empty hrun
  have hkept' : Kept chainId extractor s' :=
    exec_preserves (fun _ _ _ h hs => kept_step h hs) kept_empty hrun'
  constructor
  · intro shared hshared hshared'
    obtain ⟨rest, hsplit, hbelow, hrest⟩ := hkept.transfers_below asset hshared
    obtain ⟨rest', hsplit', _, hrest'⟩ := hkept'.transfers_below asset hshared'
    refine ⟨_, rest, rest', hsplit, hsplit', hbelow, fun r hr => ?_⟩
    exact (List.mem_append.mp hr).elim (hrest r) (hrest' r)
  · intro hcontinues server response hresponse
    obtain ⟨hknown, rfl⟩ := getAssetAuditTransfers_csv.mp hresponse
    obtain ⟨rest, hsplit, _⟩ := hkept'.transfers_below asset hcontinues
    rw [← hkept.listAssetAuditTransfers_eq] at hsplit
    refine ⟨_, getAssetAuditTransfers_csv.mpr ⟨hknown, rfl⟩, ?_⟩
    have hfields : (transfersExport s'.db chainId asset).records.fields server.jsonText =
        (transfersExport s.db chainId asset).records.fields server.jsonText ++
          rest.map (·.values server.jsonText) := by
      simp only [transfersExport, AuditRecords.fields, hsplit, List.map_append]
    show (csvBody _ _).toList <+: (csvBody _ _).toList
    rw [hfields]
    exact prefix_csvBody _ _ _

end

/-- Alice sells gold, and then Bob does. -/
def soldByAlice : List IndexableBlock :=
  [.affecting 0 "g" "" {}, .acting 1 "a1" "g" "alice" "x" (goldTo "bob") {}]

def soldByBob : List IndexableBlock := [.acting 2 "a2" "a1" "bob" "y" (goldTo "carol") {}]

theorem transfers_export_shared_sold :
    ∃ s s', exec plainChain {} [.insert soldByAlice] = some s ∧
      plainChain s (.insert soldByBob) = some s' ∧
      (goldTransfers s).length = 1 ∧ (goldTransfers s').length = 2 ∧
      ∀ server response,
        @getAssetAuditTransfers .plain server s.db "main" "gold" { format := some "csv" } =
            .ok response →
          ∃ response', @getAssetAuditTransfers .plain server s'.db "main" "gold"
              { format := some "csv" } = .ok response' ∧
            response.body.toList <+: response'.body.toList := by
  have hsome : ((exec plainChain {} [.insert soldByAlice]).bind fun s =>
      (plainChain s (.insert soldByBob)).map fun s' =>
        ((goldTransfers s).length, (goldTransfers s').length)) = some (1, 2) := by
    decide +kernel
  obtain ⟨s, hs, hnext⟩ := Option.bind_eq_some_iff.mp hsome
  obtain ⟨s', hs', hlengths⟩ := Option.map_eq_some_iff.mp hnext
  have hrun' : exec plainChain {} ([.insert soldByAlice] ++ [.insert soldByBob]) = some s' := by
    rw [exec_append_of_exec hs, exec_cons_of_step hs', exec]
  have hcontinues : s.kept <+: s'.kept := by
    rcases @chainStep_insert .plain _ _ _ _ _ hs' with rfl | ⟨_, db, _, rfl⟩
    · exact List.prefix_refl _
    · exact List.prefix_append _ _
  obtain ⟨hfirst, hsecond⟩ := Prod.mk.inj hlengths
  exact ⟨s, s', hs, hs', hfirst, hsecond,
    (@transfers_export_shared .plain _ _ _ _ _ _ hs hrun' "gold").2 hcontinues⟩

/-! ## Holders -/

section

variable [Postgres] [Collation] {chainId : String} {extractor : AddressExtractor}
  {s s' s'' : StoreState}

theorem SameUpTo.holdersExport {height : Int} {db db' : Database}
    (h : SameUpTo chainId height db db') (asset : String) :
    holdersExport db' chainId asset height = Retracer.holdersExport db chainId asset height := by
  have hlist : ∀ db, listAssetAuditHolders db chainId asset height =
      (holdersKeyset chainId asset height none).page i64Max.toNat db none := by
    intro db
    rw [← getAssetHolders_eq]
    rfl
  have hrows : (holdersKeyset chainId asset height none).rows db' =
      (holdersKeyset chainId asset height none).rows db := h.holders
  have hpage : listAssetAuditHolders db' chainId asset height =
      listAssetAuditHolders db chainId asset height := by
    rw [hlist, hlist, Paging.Keyset.page, Paging.Keyset.page, hrows]
  rw [Retracer.holdersExport, Retracer.holdersExport, hpage]

/-- The response is made for the height of the cursor, whatever comes in before the records are
read. -/
theorem getAssetAuditHolders_at {server : AuditServer} {db db' db'' : Database} {height : Int}
    {asset : String} {format : Option String} (hcursor : getCursor db chainId = some height)
    (hpos : 0 ≤ height) (hsame : SameUpTo chainId height db'' db') :
    getAssetAuditHolders server db db' chainId asset { format } =
      getAssetAuditHolders server db'' db'' chainId asset { format, «at» := some height } := by
  have hnamed : exportHeight db chainId none = .ok height := by
    rw [exportHeight, hcursor]
    rfl
  have hgiven : exportHeight db'' chainId (some height) = .ok height := by
    rw [exportHeight, asOf, if_neg (Int.not_lt.mpr hpos)]
  unfold getAssetAuditHolders
  simp only [hnamed, hgiven, bind, Except.bind, hsame.holdersExport]
  rfl

/-- An export of the holders without a height is that of the height its cursor named. Whatever
blocks were committed while it was made, the request that names the height gets the same
response, with the same digest, as long as no block up to there is replaced. -/
theorem holders_export_pinned {ops later again : List StoreOp}
    (hrun : exec (storeStep chainId extractor) {} ops = some s)
    (hlater : exec (storeStep chainId extractor) s later = some s')
    (hagain : exec (storeStep chainId extractor) {} again = some s'')
    (hstored : s.kept ≠ []) (hlaterKept : s.kept <+: s'.kept) (hagainKept : s.kept <+: s''.kept)
    (server : AuditServer) (asset : String) (format : Option String) :
    getAssetAuditHolders server s.db s'.db chainId asset { format } =
      getAssetAuditHolders server s''.db s''.db chainId asset
        { format, «at» := some ((s.kept.length : Int) - 1) } := by
  have hempty : Surviving chainId extractor {} := ⟨rfl, blockStore_laws.holds_init⟩
  have hs : Surviving chainId extractor s :=
    exec_preserves (fun _ _ _ => surviving_step) hempty hrun
  have hs' : Surviving chainId extractor s' :=
    exec_preserves (fun _ _ _ => surviving_step) hs hlater
  have hs'' : Surviving chainId extractor s'' :=
    exec_preserves (fun _ _ _ => surviving_step) hempty hagain
  have hpos : 0 < s.kept.length := List.length_pos_iff.mpr hstored
  have htake : ∀ {t : StoreState}, s.kept <+: t.kept →
      t.kept.take ((s.kept.length : Int) - 1 + 1).toNat = s.kept := by
    intro t ht
    have hlength : ((s.kept.length : Int) - 1 + 1).toNat = s.kept.length := by omega
    rw [hlength]
    exact (List.prefix_iff_eq_take.mp ht).symm
  apply getAssetAuditHolders_at
  · rw [hs.cursor, if_neg hstored]
  · omega
  · apply hs''.kept.sameUpTo hs'.kept
    rw [htake hlaterKept, htake hagainKept]

end

abbrev plainStore : StoreState → StoreOp → Option StoreState :=
  @storeStep .plain "main" (.tierAOnly .empty)

def heldByAlice : IndexableBlock :=
  .affecting 0 "g" "" { assetBalances := [⟨"gold", "alice", 10⟩] }

def halfToBob : IndexableBlock :=
  .affecting 1 "a1" "g" { assetBalances := [⟨"gold", "alice", 5⟩, ⟨"gold", "bob", 5⟩] }

abbrev goldHeld (s : StoreState) (height : Int) : List HolderRow :=
  @listAssetAuditHolders .plain .plain s.db "main" "gold" height

/-- Bob gets half of the gold while the holders are exported. -/
theorem holders_export_pinned_sold :
    ∃ s s', exec plainStore {} [.insert [heldByAlice]] = some s ∧
      plainStore s (.insert [halfToBob]) = some s' ∧
      (goldHeld s' i64Max).length = 2 ∧ (goldHeld s' 0).length = 1 ∧
      ∀ server, @getAssetAuditHolders .plain server .plain s.db s'.db "main" "gold" {} =
        @getAssetAuditHolders .plain server .plain s'.db s'.db "main" "gold"
          { «at» := some ((s.kept.length : Int) - 1) } := by
  have hsome : ((exec plainStore {} [.insert [heldByAlice]]).bind fun s =>
      (plainStore s (.insert [halfToBob])).map fun s' =>
        (s.kept.length, (goldHeld s' i64Max).length, (goldHeld s' 0).length)) =
      some (1, 2, 1) := by decide +kernel
  obtain ⟨s, hs, hnext⟩ := Option.bind_eq_some_iff.mp hsome
  obtain ⟨s', hs', hlengths⟩ := Option.map_eq_some_iff.mp hnext
  obtain ⟨hkept, hholders⟩ := Prod.mk.inj hlengths
  obtain ⟨htip, hearlier⟩ := Prod.mk.inj hholders
  have hstored : s.kept ≠ [] := by
    intro hempty
    rw [hempty] at hkept
    cases hkept
  have hlater : exec plainStore s [.insert [halfToBob]] = some s' := by
    rw [exec_cons_of_step hs', exec]
  have hagain : exec plainStore {} ([.insert [heldByAlice]] ++ [.insert [halfToBob]]) =
      some s' := by
    rw [exec_append_of_exec hs, hlater]
  have hcontinues : s.kept <+: s'.kept := by
    simp only [plainStore, storeStep] at hs'
    split at hs'
    · split at hs' <;> cases hs'
      · exact List.prefix_refl _
      · exact List.prefix_append _ _
    · cases hs'
  exact ⟨s, s', hs, hs', htip, hearlier, fun server =>
    @holders_export_pinned .plain .plain _ _ _ _ _ _ _ _ hs hlater hagain hstored hcontinues
      hcontinues server "gold" none⟩

end Retracer
