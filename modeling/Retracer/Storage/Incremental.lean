import Retracer.Storage.Rebuild

/-! # What a block adds to the token events

At a height where nothing is, the statements of a block insert the events and the creations
of the actions stored at that height after it, whatever the order of actions and
registrations in the block.
-/

namespace Retracer

open KeyedTable Traverse

/-- Nothing that the two tables are made of is stored at the height. -/
structure FreeHeight (db : Database) (chainId : String) (height : Int) : Prop where
  actions : ∀ a ∈ db.actions.rows, ¬ (a.chainId = chainId ∧ a.blockHeight = height)
  registrations : ∀ r ∈ db.assetRegistrations.rows, ¬ (r.chainId = chainId ∧ r.height = height)
  block : timeAt db chainId height = none

section

variable [Postgres] {db db' : Database} {chainId : String} {height time : Int}

/-- Skipped for a block without actions, whose height then has none. -/
theorem events_of_actions {writes : BlockWrites}
    (h : insertTokenEvents writes db chainId height time = some db')
    (hempty : writes.actionHash = [] → tokenActions db chainId height = []) :
    ∃ events, db' = { db with tokenEvents := db.tokenEvents.insertMissing events } ∧
      (∀ r, r ∈ events ↔ ∃ a ∈ tokenActions db chainId height, r ∈ eventsOf time a) ∧
      ∀ a ∈ tokenActions db chainId height, (tokenEventsRows time a).isSome := by
  unfold insertTokenEvents at h
  split at h
  · next hnone =>
      cases h
      have hactions := hempty (List.isEmpty_iff.mp hnone)
      exact ⟨[], rfl, by simp [hactions], by simp [hactions]⟩
  · obtain ⟨events, hevents, rfl⟩ := Option.map_eq_some_iff.mp h
    refine ⟨events, rfl, fun r => mem_tokenEventRows hevents, ?_⟩
    obtain ⟨lists, hlists, _⟩ := Option.map_eq_some_iff.mp hevents
    exact isSome_mapM_iff.mp (Option.isSome_of_eq_some hlists)

/-- What creates a token action of a height is registered there. -/
theorem registered_at {a : ActionsRow} {reg : AssetRegistrationsRow}
    (ha : a ∈ tokenActions db chainId height) (hmatch : createdBy a reg = true) :
    reg.chainId = chainId ∧ reg.height = height := by
  obtain ⟨_, hchain, hheight, _⟩ := mem_tokenActions.mp ha
  obtain ⟨hregChain, hregHeight⟩ := createdBy_at hmatch
  exact ⟨hregChain.trans hchain, hregHeight.trans hheight⟩

/-- The trigger runs once a registration. All its runs insert the same rows. -/
theorem creations_of_registrations {effects : BlockEffects}
    (h : insertAssetRegistrations db chainId height effects = some db')
    (hfree : ∀ r ∈ db.assetRegistrations.rows, ¬ (r.chainId = chainId ∧ r.height = height))
    (htime : timeAt db chainId height = some time) :
    ∃ creations, db' =
        { db with
          assetRegistrations :=
            db.assetRegistrations.insertMissing (effects.assetRegistrationsRows chainId height)
          tokenEvents := db.tokenEvents.insertMissing creations } ∧
      (∀ r, r ∈ creations ↔ ∃ a ∈ tokenActions db chainId height,
        r ∈ creationsOf db'.assetRegistrations.rows time a) ∧
      ∀ a ∈ tokenActions db chainId height, ∀ reg ∈ db'.assetRegistrations.rows,
        createdBy a reg = true → (creationRow time a reg).isSome := by
  unfold insertAssetRegistrations at h
  dsimp only at h
  split at h
  · cases h
  let rows := effects.assetRegistrationsRows chainId height
  have hat : ∀ r ∈ db.assetRegistrations.inserted rows, r.chainId = chainId ∧ r.height = height :=
    fun r hr => stamped_assetRegistrationsRows r (Table.mem_inserted hr).1
  have hpairs : ((db.assetRegistrations.inserted rows).map fun r => (r.chainId, r.height)).foldlM
      (fun db p => projectTokenCreations db p.1 p.2)
      { db with assetRegistrations := db.assetRegistrations.insertMissing rows } = some db' := by
    rw [List.foldlM_map]
    exact h
  obtain ⟨hsome, creations, rfl, hcreations⟩ := projectHeights_spec hpairs
  -- a registration that matches an action of the height was added by this statement
  have hadded : ∀ a ∈ tokenActions db chainId height,
      ∀ reg ∈ (db.assetRegistrations.insertMissing rows).rows, createdBy a reg = true →
        (chainId, height) ∈
          (db.assetRegistrations.inserted rows).map fun r => (r.chainId, r.height) := by
    intro a ha reg hreg hmatch
    obtain ⟨hchain, hheight⟩ := registered_at ha hmatch
    rw [Table.rows_insertMissing, List.mem_append] at hreg
    have hnew := hreg.resolve_left fun hold => hfree reg hold ⟨hchain, hheight⟩
    exact List.mem_map.mpr ⟨reg, hnew, by rw [hchain, hheight]⟩
  refine ⟨creations, rfl, ?_, ?_⟩
  · intro r
    rw [hcreations]
    constructor
    · rintro ⟨p, hp, a, ha, time', htime', hr⟩
      obtain ⟨reg, hreg, rfl⟩ := List.mem_map.mp hp
      obtain ⟨hchain, hheight⟩ := hat reg hreg
      simp only [hchain, hheight] at ha htime'
      have hsame : time' = time := Option.some.inj (htime'.symm.trans htime)
      rw [hsame] at hr
      exact ⟨a, ha, hr⟩
    · rintro ⟨a, ha, hr⟩
      obtain ⟨reg, hreg, hmatch, _⟩ := mem_creationsOf.mp hr
      exact ⟨(chainId, height), hadded a ha reg hreg hmatch, a, ha, time, htime, hr⟩
  · intro a ha reg hreg hmatch
    have hcast := hsome (chainId, height) (hadded a ha reg hreg hmatch)
    obtain ⟨created, hcreated⟩ := Option.isSome_iff_exists.mp hcast
    have htime' : timeAt { db with assetRegistrations := db.assetRegistrations.insertMissing rows }
        chainId height = some time := htime
    unfold creationRows at hcreated
    simp only [htime'] at hcreated
    exact isSome_mapM_iff.mp (Option.isSome_of_eq_some hcreated) (a, reg)
      (mem_creationPairs.mpr ⟨ha, hreg, hmatch⟩)

/-- What one block adds. -/
structure AddsEvents (db db' : Database) (chainId : String) (height time : Int) : Prop where
  tables : ∃ events creations,
    db'.tokenEvents = (db.tokenEvents.insertMissing events).insertMissing creations ∧
      (∀ r, r ∈ events ↔ ∃ a ∈ tokenActions db' chainId height, r ∈ eventsOf time a) ∧
        ∀ r, r ∈ creations ↔ ∃ a ∈ tokenActions db' chainId height,
          r ∈ creationsOf db'.assetRegistrations.rows time a
  casts : ∀ a ∈ tokenActions db' chainId height, CastsAt db'.assetRegistrations.rows time a

omit [Postgres] in
/-- The block itself is found at its free height. -/
theorem FreeHeight.timeAt_block {block : IndexableBlock}
    (hfree : FreeHeight db chainId block.height) :
    ((db.blocks.insertRow (blocksRow chainId block)).find? (chainId, (block.height : Int))).map
      (·.timestamp) = some (asI64 block.timestamp) := by
  have hnone : db.blocks.find? (chainId, (block.height : Int)) = none :=
    Option.map_eq_none_iff.mp hfree.block
  rw [Table.find?_insertRow, hnone]
  simp [blocksRow, key]

omit [Postgres] in
/-- A block without actions finds none at its height either. -/
theorem FreeHeight.tokenActions_eq_nil (hfree : FreeHeight db chainId height)
    {writes : BlockWrites} (hempty : writes.actionHash = []) :
    tokenActions { db with actions := db.actions.insertMissing (writes.actionsRows chainId height) }
      chainId height = [] := by
  have hrows : writes.actionsRows chainId height = [] := by
    simp [BlockWrites.actionsRows, hempty]
  apply List.filter_eq_nil_iff.mpr
  intro a ha
  have hold : a ∈ db.actions.rows := by simpa [hrows] using ha
  have hother := hfree.actions a hold
  simp only [decide_eq_true_eq]
  tauto

theorem addsEvents_of_insert {extractor : AddressExtractor} {block : IndexableBlock}
    (h : insertBlockInTx chainId extractor db block = some db')
    (hfree : FreeHeight db chainId block.height) :
    AddsEvents db db' chainId block.height (asI64 block.timestamp) := by
  unfold insertBlockInTx at h
  simp only [Option.bind_eq_bind, Option.bind_eq_some_iff, Option.some.injEq] at h
  obtain ⟨mid, hmid, writes, hbuild, db₂, h₂, db₃, h₃, rfl⟩ := h
  have heq := insertBlocksRow_eq hmid
  subst heq
  obtain ⟨events, rfl, hevents, hcasts⟩ := events_of_actions h₂ hfree.tokenActions_eq_nil
  cases heffects : block.effects with
  | none =>
      rw [heffects] at h₃
      cases h₃
      refine ⟨⟨events, [], rfl, hevents, ?_⟩, ?_⟩
      · intro r
        constructor
        · intro hr
          cases hr
        · rintro ⟨a, ha, hr⟩
          obtain ⟨reg, hreg, hmatch, _⟩ := mem_creationsOf.mp hr
          exact absurd (registered_at ha hmatch) (hfree.registrations reg hreg)
      · intro a ha
        refine ⟨hcasts a ha, ?_⟩
        intro reg hreg hmatch
        exact absurd (registered_at ha hmatch) (hfree.registrations reg hreg)
  | some effects =>
      rw [heffects] at h₃
      obtain ⟨db₄, h₄, rfl⟩ := Option.map_eq_some_iff.mp h₃
      obtain ⟨creations, rfl, hcreations, hcreationCasts⟩ :=
        creations_of_registrations h₄ hfree.registrations hfree.timeAt_block
      exact ⟨⟨events, creations, rfl, hevents, hcreations⟩,
        fun a ha => ⟨hcasts a ha, hcreationCasts a ha⟩⟩

end

end Retracer
