import Retracer.Storage.TokenEvents

/-! # Incremental tables and their rebuild

`token_events` and `asset_actions` are kept up block by block. The migrations that brought
them in filled them once from what was stored by then. Over blocks that come in order, each
at a height where nothing is, both ways give the same rows.
-/

namespace Retracer

open KeyedTable Execution Traverse

/-! ## The backfills -/

/-- The order in which a `SELECT` without `ORDER BY` returns its rows. -/
class ScanOrder where
  scan : ∀ {ρ : Type}, List ρ → List ρ
  scan_perm : ∀ {ρ : Type} (rows : List ρ), (scan rows).Perm rows

@[reducible] def ScanOrder.plain : ScanOrder where
  scan rows := rows
  scan_perm _ := .rfl

section

variable [ScanOrder]

/-- `actions JOIN blocks`, for the kind `Token`. -/
def tokenActionsWithBlocks (db : Database) : List (ActionsRow × BlocksRow) :=
  ScanOrder.scan <|
    (db.actions.rows.filter fun a => a.kind = "Token").flatMap fun a =>
      (db.blocks.find? (a.chainId, a.blockHeight)).toList.map fun b => (a, b)

/-- The backfill of migration 0009. -/
def backfillTokenEvents [Postgres] (db : Database) : Option Database :=
  ((tokenActionsWithBlocks db).mapM fun p => tokenEventsRows p.2.timestamp p.1).map fun lists =>
    { db with tokenEvents := db.tokenEvents.insertMissing (List.flatten lists) }

/-- The backfill of migration 0011. -/
def backfillAssetActions (db : Database) : Database :=
  { db with
    assetActions :=
      db.assetActions.insertMissing ((ScanOrder.scan db.actions.rows).flatMap projectAssetAction) }

/-- `SELECT DISTINCT chain_id, height FROM asset_registrations`. -/
def registrationHeights (db : Database) : List (String × Int) :=
  ScanOrder.scan (db.assetRegistrations.rows.map fun r => (r.chainId, r.height)).dedup

/-- The backfill of migration 0012. -/
def backfillTokenCreations [Postgres] (db : Database) : Option Database :=
  (registrationHeights db).foldlM (fun db p => projectTokenCreations db p.1 p.2) db

/-- The three of them, into empty tables. -/
def rebuild [Postgres] (db : Database) : Option Database := do
  let db ← backfillTokenEvents { db with tokenEvents := .empty, assetActions := .empty }
  backfillTokenCreations (backfillAssetActions db)

end

/-! ## What the rebuild gives -/

/-- What makes the tables a function of the stored rows. -/
structure Unambiguous [Postgres] (db : Database) : Prop where
  single : ∀ a ∈ db.actions.rows, a.kind = "Token" → SingleVariant a
  once : ∀ a ∈ db.actions.rows, a.kind = "Token" → CreatedOnce db.assetRegistrations.rows a
  casts : ∀ a time, TokenActionAt db a time → CastsAt db.assetRegistrations.rows time a

theorem key_injective_actions {db : Database} {a b : ActionsRow} (ha : a ∈ db.actions.rows)
    (hb : b ∈ db.actions.rows) (h : key a = key b) : a = b :=
  db.actions.eq_of_key_eq ha hb h

/-- Two actions at one key are one, and so are the times of their block. -/
theorem TokenActionAt.eq_of_key {db : Database} {a b : ActionsRow} {time time' : Int}
    (ha : TokenActionAt db a time) (hb : TokenActionAt db b time') (h : key a = key b) :
    a = b ∧ time = time' := by
  have hsame := key_injective_actions ha.1 hb.1 h
  subst hsame
  exact ⟨rfl, Option.some.inj (ha.2.2.symm.trans hb.2.2)⟩

theorem mem_tokenActions {db : Database} {chainId : String} {height : Int} {a : ActionsRow} :
    a ∈ tokenActions db chainId height ↔
      a ∈ db.actions.rows ∧ a.chainId = chainId ∧ a.blockHeight = height ∧ a.kind = "Token" := by
  simp [tokenActions]

theorem mem_tokenActionsWithBlocks [ScanOrder] {db : Database} {a : ActionsRow} {b : BlocksRow} :
    (a, b) ∈ tokenActionsWithBlocks db ↔
      a ∈ db.actions.rows ∧ a.kind = "Token" ∧
        db.blocks.find? (a.chainId, a.blockHeight) = some b := by
  rw [tokenActionsWithBlocks, (ScanOrder.scan_perm _).mem_iff]
  simp only [List.mem_flatMap, List.mem_filter, decide_eq_true_eq, List.mem_map,
    Option.mem_toList, Prod.mk.injEq]
  constructor
  · rintro ⟨a', ⟨ha, hkind⟩, b', hb, rfl, rfl⟩
    exact ⟨ha, hkind, hb⟩
  · rintro ⟨ha, hkind, hb⟩
    exact ⟨a, ⟨ha, hkind⟩, b, hb, rfl, rfl⟩

theorem key_assetAction {a : ActionsRow} {r : AssetActionsRow} (h : r ∈ projectAssetAction a) :
    (r.chainId, r.actionHash) = key a ∧ r.blockHeight = a.blockHeight ∧
      r.indexInBlock = a.indexInBlock := by
  obtain ⟨_, _, rfl⟩ := List.mem_map.mp h
  exact ⟨rfl, rfl, rfl⟩

/-- The position of an asset row is that of its action, so its key decides it. -/
theorem assetAction_eq_of_key {actions : List ActionsRow} (hnodup : (actions.map key).Nodup)
    {r s : AssetActionsRow} (hr : r ∈ actions.flatMap projectAssetAction)
    (hs : s ∈ actions.flatMap projectAssetAction) (h : key r = key s) : r = s := by
  obtain ⟨a, ha, hra⟩ := List.mem_flatMap.mp hr
  obtain ⟨b, hb, hsb⟩ := List.mem_flatMap.mp hs
  obtain ⟨hrKey, hrHeight, hrIndex⟩ := key_assetAction hra
  obtain ⟨hsKey, hsHeight, hsIndex⟩ := key_assetAction hsb
  cases r
  cases s
  simp only [key, Prod.mk.injEq] at h hrKey hsKey hrHeight hsHeight hrIndex hsIndex
  have hsame : a = b := by
    apply List.inj_on_of_nodup_map hnodup ha hb
    simp only [key, ← hrKey.1, ← hrKey.2, ← hsKey.1, ← hsKey.2, h.1, h.2.2]
  subst hsame
  simp only [AssetActionsRow.mk.injEq]
  exact ⟨h.1, h.2.1, h.2.2, hrHeight.trans hsHeight.symm, hrIndex.trans hsIndex.symm⟩

theorem mem_backfillAssetActions [ScanOrder] {db : Database} (hempty : db.assetActions.rows = [])
    (r : AssetActionsRow) :
    r ∈ (backfillAssetActions db).assetActions.rows ↔ IsAssetAction db r := by
  have hmem : ∀ s, s ∈ (ScanOrder.scan db.actions.rows).flatMap projectAssetAction ↔
      s ∈ db.actions.rows.flatMap projectAssetAction := by
    intro s
    simp only [List.mem_flatMap, (ScanOrder.scan_perm db.actions.rows).mem_iff]
  have hone : ∀ s ∈ (ScanOrder.scan db.actions.rows).flatMap projectAssetAction,
      ∀ s' ∈ (ScanOrder.scan db.actions.rows).flatMap projectAssetAction,
        key s = key s' → s = s' := by
    intro s hs s' hs'
    exact assetAction_eq_of_key db.actions.nodup ((hmem s).mp hs) ((hmem s').mp hs')
  have hrows := Table.mem_insertMissing_iff (t := db.assetActions) (r := r) hone
  show r ∈ (db.assetActions.insertMissing _).rows ↔ _
  rw [hrows, hempty, hmem]
  simp [IsAssetAction]

section

variable [Postgres] [ScanOrder] {db : Database}

theorem backfillTokenEvents_spec (h : Unambiguous db) :
    ∃ events, backfillTokenEvents db =
        some { db with tokenEvents := db.tokenEvents.insertMissing events } ∧
      ∀ r, r ∈ events ↔ ∃ a time, TokenActionAt db a time ∧ r ∈ eventsOf time a := by
  have hat : ∀ a b, (a, b) ∈ tokenActionsWithBlocks db → TokenActionAt db a b.timestamp := by
    intro a b hab
    obtain ⟨ha, hkind, hb⟩ := mem_tokenActionsWithBlocks.mp hab
    exact ⟨ha, hkind, by rw [timeAt, hb, Option.map_some]⟩
  have hcasts : ∀ p ∈ tokenActionsWithBlocks db,
      (tokenEventsRows p.2.timestamp p.1).isSome := by
    rintro ⟨a, b⟩ hab
    exact (h.casts a b.timestamp (hat a b hab)).1
  obtain ⟨lists, hlists⟩ := Option.isSome_iff_exists.mp (isSome_mapM_iff.mpr hcasts)
  refine ⟨lists.flatten, ?_, ?_⟩
  · show ((tokenActionsWithBlocks db).mapM fun p => tokenEventsRows p.2.timestamp p.1).map _ = _
    rw [hlists]
    rfl
  · intro r
    rw [List.mem_flatten]
    constructor
    · rintro ⟨list, hlist, hr⟩
      obtain ⟨⟨a, b⟩, hab, hrows⟩ := (mem_mapM_iff hlists).mp hlist
      refine ⟨a, b.timestamp, hat a b hab, ?_⟩
      rw [eventsOf, hrows]
      exact hr
    · rintro ⟨a, time, ⟨ha, hkind, htime⟩, hr⟩
      obtain ⟨b, hb, rfl⟩ := Option.map_eq_some_iff.mp htime
      have hab := mem_tokenActionsWithBlocks.mpr ⟨ha, hkind, hb⟩
      obtain ⟨list, hlist⟩ := Option.isSome_iff_exists.mp (hcasts _ hab)
      refine ⟨list, (mem_mapM_iff hlists).mpr ⟨_, hab, hlist⟩, ?_⟩
      rw [eventsOf, hlist] at hr
      exact hr

theorem backfillTokenCreations_spec (h : Unambiguous db) :
    ∃ creations, backfillTokenCreations db =
        some { db with tokenEvents := db.tokenEvents.insertMissing creations } ∧
      ∀ r, r ∈ creations ↔ ∃ a time, TokenActionAt db a time ∧
        r ∈ creationsOf db.assetRegistrations.rows time a := by
  have hsome : ∀ p ∈ registrationHeights db, (creationRows db p.1 p.2).isSome := by
    rintro ⟨chainId, height⟩ _
    unfold creationRows
    cases htime : timeAt db chainId height with
    | none => rfl
    | some time =>
        apply isSome_mapM_iff.mpr
        rintro ⟨a, reg⟩ hpair
        obtain ⟨ha, hreg, hmatch⟩ := mem_creationPairs.mp hpair
        obtain ⟨hstored, rfl, rfl, hkind⟩ := mem_tokenActions.mp ha
        exact (h.casts a time ⟨hstored, hkind, htime⟩).2 reg hreg hmatch
  obtain ⟨db', hdb⟩ := Option.isSome_iff_exists.mp (projectHeights_isSome hsome)
  obtain ⟨_, creations, rfl, hcreations⟩ := projectHeights_spec hdb
  refine ⟨creations, hdb, ?_⟩
  intro r
  rw [hcreations]
  constructor
  · rintro ⟨⟨chainId, height⟩, _, a, ha, time, htime, hr⟩
    obtain ⟨hstored, rfl, rfl, hkind⟩ := mem_tokenActions.mp ha
    exact ⟨a, time, ⟨hstored, hkind, htime⟩, hr⟩
  · rintro ⟨a, time, ⟨hstored, hkind, htime⟩, hr⟩
    obtain ⟨reg, hreg, hmatch, _⟩ := mem_creationsOf.mp hr
    obtain ⟨hchain, hheight⟩ := createdBy_at hmatch
    refine ⟨(a.chainId, a.blockHeight), ?_, a, ?_, time, htime, hr⟩
    · rw [registrationHeights, (ScanOrder.scan_perm _).mem_iff, List.mem_dedup, List.mem_map]
      exact ⟨reg, hreg, by rw [hchain, hheight]⟩
    · exact mem_tokenActions.mpr ⟨hstored, rfl, rfl, hkind⟩

/-- The rebuild fills the tables with what the stored rows make of them. -/
theorem rebuild_spec (h : Unambiguous db) :
    ∃ db', rebuild db = some db' ∧
      (∀ r, r ∈ db'.tokenEvents.rows ↔ IsTokenEvent db r) ∧
        ∀ r, r ∈ db'.assetActions.rows ↔ IsAssetAction db r := by
  let start : Database := { db with tokenEvents := .empty, assetActions := .empty }
  have hstart : Unambiguous start := ⟨h.single, h.once, h.casts⟩
  obtain ⟨events, hevents, hmemEvents⟩ := backfillTokenEvents_spec hstart
  let mid : Database :=
    backfillAssetActions { start with tokenEvents := start.tokenEvents.insertMissing events }
  have hmid : Unambiguous mid := ⟨h.single, h.once, h.casts⟩
  obtain ⟨creations, hcreations, hmemCreations⟩ := backfillTokenCreations_spec hmid
  refine ⟨{ mid with tokenEvents := mid.tokenEvents.insertMissing creations }, ?_, ?_, ?_⟩
  · show (backfillTokenEvents start).bind
      (fun db => backfillTokenCreations (backfillAssetActions db)) = _
    rw [hevents]
    exact hcreations
  · intro r
    have hprojected := mem_projected (TokenActionAt db) db.assetRegistrations.rows .empty
      (fun a time b time' ha hb => ha.eq_of_key hb)
      (fun a time ha => ⟨h.single a ha.1 ha.2.1, h.once a ha.1 ha.2.1⟩)
      hmemEvents hmemCreations (fun a time _ hmem => by cases hmem) r
    refine hprojected.trans ?_
    simp [Table.empty, IsTokenEvent]
  · intro r
    exact mem_backfillAssetActions rfl r

end

end Retracer
