import Retracer.Storage.AddressIndexes

/-! # Token events and asset rows, said once

The statements that fill `token_events` and `asset_actions` read rows that are stored
already. Here is what they amount to: the event of an action, given the time of its block
and the registrations of its height, and the asset rows of an action.
-/

namespace Retracer

open KeyedTable Traverse

/-! ## The event of an action -/

/-- The time of the block stored at a height. -/
def timeAt (db : Database) (chainId : String) (height : Int) : Option Int :=
  (db.blocks.find? (chainId, height)).map (·.timestamp)

theorem timeAt_undisputed (db : Database) (chainId : String) (height : Int) :
    timeAt db chainId height =
      (db.undisputedBlocks.find? (chainId, height)).map (·.timestamp) := by
  rw [Database.undisputedBlocks, Table.find?_modify, Option.map_map]
  rfl

theorem timeAt_rollbackTo (db : Database) (chainId : String) (height : Int) (c : String)
    (n : Int) :
    timeAt (rollbackTo db chainId height).1 c n =
      if c = chainId ∧ height < n then none else timeAt db c n := by
  simp only [timeAt, rollbackTo, Table.find?_deleteWhere]
  cases hf : db.blocks.find? (c, n) with
  | none => simp
  | some b =>
      obtain ⟨_, hkey⟩ := Table.find?_eq_some_iff.mp hf
      simp only [key, Prod.mk.injEq] at hkey
      simp only [Option.filter_some, above, Stamped.chainOf, Stamped.heightOf, hkey.1, hkey.2]
      by_cases hgone : c = chainId ∧ height < n <;> simp [hgone]

section

variable [Postgres]

/-- The rows of its payload. -/
def eventsOf (time : Int) (a : ActionsRow) : List TokenEventsRow :=
  (tokenEventsRows time a).getD []

/-- The rows of the registrations it matches. -/
def creationsOf (registrations : List AssetRegistrationsRow) (time : Int) (a : ActionsRow) :
    List TokenEventsRow :=
  (registrations.filter (createdBy a)).filterMap (creationRow time a)

/-- A registration counts for an action whose payload names no token. -/
def tokenEventsOf (registrations : List AssetRegistrationsRow) (time : Int) (a : ActionsRow) :
    List TokenEventsRow :=
  if eventsOf time a = [] then creationsOf registrations time a else eventsOf time a

/-- The stored token actions whose block is stored, with its time. -/
def TokenActionAt (db : Database) (a : ActionsRow) (time : Int) : Prop :=
  a ∈ db.actions.rows ∧ a.kind = "Token" ∧ timeAt db a.chainId a.blockHeight = some time

/-- What the stored actions, blocks and registrations make of the tokens. -/
def IsTokenEvent (db : Database) (r : TokenEventsRow) : Prop :=
  ∃ a time, TokenActionAt db a time ∧ r ∈ tokenEventsOf db.assetRegistrations.rows time a

/-- What the stored actions make of the assets. -/
def IsAssetAction (db : Database) (r : AssetActionsRow) : Prop :=
  ∃ a ∈ db.actions.rows, r ∈ projectAssetAction a

/-- Every cast in the rows of an action succeeds. -/
def CastsAt (registrations : List AssetRegistrationsRow) (time : Int) (a : ActionsRow) : Prop :=
  (tokenEventsRows time a).isSome ∧
    ∀ reg ∈ registrations, createdBy a reg = true → (creationRow time a reg).isSome

/-! ### Its key -/

theorem key_eventsOf {time : Int} {a : ActionsRow} {r : TokenEventsRow}
    (h : r ∈ eventsOf time a) : key r = key a := by
  cases hrows : tokenEventsRows time a with
  | none =>
      rw [eventsOf, hrows] at h
      cases h
  | some rows =>
      rw [eventsOf, hrows, Option.getD_some] at h
      obtain ⟨⟨event, body, token⟩, _, hrow⟩ := (mem_mapM_iff hrows).mp h
      simp only [Option.bind_eq_bind, Option.bind_eq_some_iff, Option.some.injEq] at hrow
      obtain ⟨amount, _, rfl⟩ := hrow
      rfl

theorem key_creationRow {time : Int} {a : ActionsRow} {reg : AssetRegistrationsRow}
    {r : TokenEventsRow} (h : creationRow time a reg = some r) : key r = key a := by
  simp only [creationRow, Option.bind_eq_bind, Option.bind_eq_some_iff, Option.some.injEq] at h
  obtain ⟨create, _, token, _, amount, _, rfl⟩ := h
  rfl

theorem mem_creationsOf {registrations : List AssetRegistrationsRow} {time : Int}
    {a : ActionsRow} {r : TokenEventsRow} :
    r ∈ creationsOf registrations time a ↔
      ∃ reg ∈ registrations, createdBy a reg = true ∧ creationRow time a reg = some r := by
  simp [creationsOf, and_assoc]

theorem key_creationsOf {registrations : List AssetRegistrationsRow} {time : Int}
    {a : ActionsRow} {r : TokenEventsRow} (h : r ∈ creationsOf registrations time a) :
    key r = key a := by
  obtain ⟨reg, _, _, hrow⟩ := mem_creationsOf.mp h
  exact key_creationRow hrow

theorem mem_tokenEventsOf {registrations : List AssetRegistrationsRow} {time : Int}
    {a : ActionsRow} {r : TokenEventsRow} :
    r ∈ tokenEventsOf registrations time a ↔
      r ∈ eventsOf time a ∨ eventsOf time a = [] ∧ r ∈ creationsOf registrations time a := by
  rw [tokenEventsOf]
  split
  · next hempty => simp [hempty]
  · next hsome => simp [hsome]

theorem key_tokenEventsOf {registrations : List AssetRegistrationsRow} {time : Int}
    {a : ActionsRow} {r : TokenEventsRow} (h : r ∈ tokenEventsOf registrations time a) :
    key r = key a := by
  rcases mem_tokenEventsOf.mp h with hevent | ⟨_, hcreated⟩
  · exact key_eventsOf hevent
  · exact key_creationsOf hcreated

/-! ### At most one -/

/-- The payload has one variant. -/
def SingleVariant (a : ActionsRow) : Prop := a.payload.each.length ≤ 1

/-- At most one registration matches the action. -/
def CreatedOnce (registrations : List AssetRegistrationsRow) (a : ActionsRow) : Prop :=
  ∀ r ∈ registrations, ∀ s ∈ registrations,
    createdBy a r = true → createdBy a s = true → r = s

omit [Postgres] in
theorem eq_of_mem_of_length_le_one {α : Type} {l : List α} (h : l.length ≤ 1) {a b : α}
    (ha : a ∈ l) (hb : b ∈ l) : a = b := by
  cases l with
  | nil => cases ha
  | cons c l =>
      have hnil : l = [] := by
        apply List.eq_nil_of_length_eq_zero
        rw [List.length_cons] at h
        omega
      subst hnil
      rw [List.mem_singleton] at ha hb
      rw [ha, hb]

theorem eventsOf_single {time : Int} {a : ActionsRow} (h : SingleVariant a)
    {r s : TokenEventsRow} (hr : r ∈ eventsOf time a) (hs : s ∈ eventsOf time a) : r = s := by
  cases hrows : tokenEventsRows time a with
  | none =>
      rw [eventsOf, hrows] at hr
      cases hr
  | some rows =>
      rw [eventsOf, hrows, Option.getD_some] at hr hs
      obtain ⟨x, hx, hxr⟩ := (mem_mapM_iff hrows).mp hr
      obtain ⟨y, hy, hys⟩ := (mem_mapM_iff hrows).mp hs
      rw [eq_of_mem_of_length_le_one ((List.length_filterMap_le _ _).trans h) hx hy] at hxr
      exact Option.some.inj (hxr.symm.trans hys)

theorem creationsOf_single {registrations : List AssetRegistrationsRow} {time : Int}
    {a : ActionsRow} (h : CreatedOnce registrations a) {r s : TokenEventsRow}
    (hr : r ∈ creationsOf registrations time a) (hs : s ∈ creationsOf registrations time a) :
    r = s := by
  obtain ⟨x, hx, hxa, hxr⟩ := mem_creationsOf.mp hr
  obtain ⟨y, hy, hya, hys⟩ := mem_creationsOf.mp hs
  rw [h x hx y hy hxa hya] at hxr
  exact Option.some.inj (hxr.symm.trans hys)

/-! ## The two statements together -/

/-- The events of some actions, and then their creations, inserted into a table that has no
row of theirs. `At` says which actions, with the times of their blocks. -/
theorem mem_projected (At : ActionsRow → Int → Prop)
    (registrations : List AssetRegistrationsRow) (t : Table TokenEventsRow)
    {events creations : List TokenEventsRow}
    (hone : ∀ a time b time', At a time → At b time' → key a = key b → a = b ∧ time = time')
    (hsingle : ∀ a time, At a time → SingleVariant a ∧ CreatedOnce registrations a)
    (hevents : ∀ r, r ∈ events ↔ ∃ a time, At a time ∧ r ∈ eventsOf time a)
    (hcreations : ∀ r, r ∈ creations ↔
      ∃ a time, At a time ∧ r ∈ creationsOf registrations time a)
    (hfree : ∀ a time, At a time → key a ∉ t.rows.map key) (r : TokenEventsRow) :
    r ∈ ((t.insertMissing events).insertMissing creations).rows ↔
      r ∈ t.rows ∨ ∃ a time, At a time ∧ r ∈ tokenEventsOf registrations time a := by
  have honeEvents : ∀ r ∈ events, ∀ s ∈ events, key r = key s → r = s := by
    intro r hr s hs hkey
    obtain ⟨a, time, ha, hra⟩ := (hevents r).mp hr
    obtain ⟨b, time', hb, hsb⟩ := (hevents s).mp hs
    rw [key_eventsOf hra, key_eventsOf hsb] at hkey
    obtain ⟨rfl, rfl⟩ := hone a time b time' ha hb hkey
    exact eventsOf_single (hsingle a time ha).1 hra hsb
  have honeCreations : ∀ r ∈ creations, ∀ s ∈ creations, key r = key s → r = s := by
    intro r hr s hs hkey
    obtain ⟨a, time, ha, hra⟩ := (hcreations r).mp hr
    obtain ⟨b, time', hb, hsb⟩ := (hcreations s).mp hs
    rw [key_creationsOf hra, key_creationsOf hsb] at hkey
    obtain ⟨rfl, rfl⟩ := hone a time b time' ha hb hkey
    exact creationsOf_single (hsingle a time ha).2 hra hsb
  have hadded : ∀ s, s ∈ (t.insertMissing events).rows ↔ s ∈ t.rows ∨ s ∈ events := by
    intro s
    rw [Table.mem_insertMissing_iff honeEvents]
    refine or_congr_right (and_iff_left_of_imp fun hs => ?_)
    obtain ⟨a, time, ha, hsa⟩ := (hevents s).mp hs
    rw [key_eventsOf hsa]
    exact hfree a time ha
  rw [Table.mem_insertMissing_iff honeCreations, hadded, or_assoc]
  apply or_congr_right
  constructor
  · rintro (hevent | ⟨hcreated, hnew⟩)
    · obtain ⟨a, time, ha, hra⟩ := (hevents r).mp hevent
      exact ⟨a, time, ha, mem_tokenEventsOf.mpr (Or.inl hra)⟩
    · obtain ⟨a, time, ha, hra⟩ := (hcreations r).mp hcreated
      refine ⟨a, time, ha, mem_tokenEventsOf.mpr (Or.inr ⟨?_, hra⟩)⟩
      apply List.eq_nil_iff_forall_not_mem.mpr
      intro s hs
      apply hnew
      rw [key_creationsOf hra, ← key_eventsOf hs]
      exact List.mem_map_of_mem ((hadded s).mpr (Or.inr ((hevents s).mpr ⟨a, time, ha, hs⟩)))
  · rintro ⟨a, time, ha, hra⟩
    rcases mem_tokenEventsOf.mp hra with hevent | ⟨hnone, hcreated⟩
    · exact Or.inl ((hevents r).mpr ⟨a, time, ha, hevent⟩)
    · refine Or.inr ⟨(hcreations r).mpr ⟨a, time, ha, hcreated⟩, ?_⟩
      rw [key_creationsOf hcreated]
      intro hmem
      obtain ⟨s, hs, hkey⟩ := List.mem_map.mp hmem
      rcases (hadded s).mp hs with hold | hevent
      · exact hfree a time ha (hkey ▸ List.mem_map_of_mem hold)
      · obtain ⟨b, time', hb, hsb⟩ := (hevents s).mp hevent
        rw [key_eventsOf hsb] at hkey
        obtain ⟨rfl, rfl⟩ := hone b time' a time hb ha hkey
        rw [hnone] at hsb
        cases hsb

/-! ## What the statements insert -/

/-- The rows of `project_token_creations`. -/
def creationRows (db : Database) (chainId : String) (height : Int) :
    Option (List TokenEventsRow) :=
  match timeAt db chainId height with
  | none => some []
  | some time => (creationPairs db chainId height).mapM fun (a, r) => creationRow time a r

theorem projectTokenCreations_eq (db : Database) (chainId : String) (height : Int) :
    projectTokenCreations db chainId height =
      (creationRows db chainId height).map fun rows =>
        { db with tokenEvents := db.tokenEvents.insertMissing rows } := by
  unfold projectTokenCreations creationRows timeAt
  cases db.blocks.find? (chainId, height) <;> rfl

theorem mem_creationPairs {db : Database} {chainId : String} {height : Int} {a : ActionsRow}
    {reg : AssetRegistrationsRow} :
    (a, reg) ∈ creationPairs db chainId height ↔
      a ∈ tokenActions db chainId height ∧ reg ∈ db.assetRegistrations.rows ∧
        createdBy a reg = true := by
  rw [creationPairs, (Postgres.joinOrder_perm _).mem_iff]
  simp only [List.mem_flatMap, List.mem_map, List.mem_filter, Prod.mk.injEq]
  constructor
  · rintro ⟨a', ha', reg', ⟨hreg, hmatch⟩, rfl, rfl⟩
    exact ⟨ha', hreg, hmatch⟩
  · rintro ⟨ha, hreg, hmatch⟩
    exact ⟨a, ha, reg, ⟨hreg, hmatch⟩, rfl, rfl⟩

theorem mem_creationRows {db : Database} {chainId : String} {height : Int}
    {rows : List TokenEventsRow} (h : creationRows db chainId height = some rows)
    {r : TokenEventsRow} :
    r ∈ rows ↔ ∃ a ∈ tokenActions db chainId height, ∃ time ∈ timeAt db chainId height,
      r ∈ creationsOf db.assetRegistrations.rows time a := by
  unfold creationRows at h
  cases htime : timeAt db chainId height with
  | none =>
      rw [htime] at h
      cases h
      simp
  | some time =>
      rw [htime] at h
      rw [mem_mapM_iff h]
      simp only [Option.mem_some_iff, exists_eq_left', mem_creationsOf]
      constructor
      · rintro ⟨⟨a, reg⟩, hpair, hrow⟩
        obtain ⟨ha, hreg, hmatch⟩ := mem_creationPairs.mp hpair
        exact ⟨a, ha, reg, hreg, hmatch, hrow⟩
      · rintro ⟨a, ha, reg, hreg, hmatch, hrow⟩
        exact ⟨(a, reg), mem_creationPairs.mpr ⟨ha, hreg, hmatch⟩, hrow⟩

theorem mem_tokenEventRows {db : Database} {chainId : String} {height time : Int}
    {rows : List TokenEventsRow} (h : tokenEventRows db chainId height time = some rows)
    {r : TokenEventsRow} :
    r ∈ rows ↔ ∃ a ∈ tokenActions db chainId height, r ∈ eventsOf time a := by
  obtain ⟨lists, hlists, rfl⟩ := Option.map_eq_some_iff.mp h
  rw [List.mem_flatten]
  constructor
  · rintro ⟨list, hlist, hr⟩
    obtain ⟨a, ha, hrows⟩ := (mem_mapM_iff hlists).mp hlist
    refine ⟨a, ha, ?_⟩
    rw [eventsOf, hrows]
    exact hr
  · rintro ⟨a, ha, hr⟩
    obtain ⟨list, hlist⟩ := Option.isSome_iff_exists.mp
      (isSome_mapM_iff.mp (Option.isSome_of_eq_some hlists) a ha)
    refine ⟨list, (mem_mapM_iff hlists).mpr ⟨a, ha, hlist⟩, ?_⟩
    rw [eventsOf, hlist] at hr
    exact hr

theorem createdBy_at {a : ActionsRow} {reg : AssetRegistrationsRow}
    (h : createdBy a reg = true) : reg.chainId = a.chainId ∧ reg.height = a.blockHeight := by
  unfold createdBy at h
  split at h
  · simp only [Bool.and_eq_true, beq_iff_eq] at h
    exact ⟨h.1.1.1.1.2, h.1.1.1.2⟩
  · cases h

/-- The creations of several heights, one after another. -/
theorem projectHeights_spec {heights : List (String × Int)} {db db' : Database}
    (h : heights.foldlM (fun db p => projectTokenCreations db p.1 p.2) db = some db') :
    (∀ p ∈ heights, (creationRows db p.1 p.2).isSome) ∧
      ∃ rows, db' = { db with tokenEvents := db.tokenEvents.insertMissing rows } ∧
        ∀ r, r ∈ rows ↔ ∃ p ∈ heights, ∃ a ∈ tokenActions db p.1 p.2,
          ∃ time ∈ timeAt db p.1 p.2, r ∈ creationsOf db.assetRegistrations.rows time a := by
  induction heights generalizing db with
  | nil =>
      cases h
      exact ⟨by simp, [], rfl, by simp⟩
  | cons p heights ih =>
      simp only [List.foldlM_cons, Option.bind_eq_bind, Option.bind_eq_some_iff,
        projectTokenCreations_eq, Option.map_eq_some_iff] at h
      obtain ⟨mid, ⟨first, hfirst, rfl⟩, hrest⟩ := h
      simp only [← projectTokenCreations_eq] at hrest
      obtain ⟨hsome, rows, rfl, hrows⟩ := ih hrest
      refine ⟨?_, first ++ rows, by rw [Table.insertMissing_append], ?_⟩
      · intro q hq
        rcases List.mem_cons.mp hq with rfl | hin
        · rw [hfirst]
          rfl
        · exact hsome q hin
      · intro r
        rw [List.mem_append, mem_creationRows hfirst, hrows]
        simp only [List.exists_mem_cons_iff]
        rfl

theorem projectHeights_isSome {heights : List (String × Int)} {db : Database}
    (h : ∀ p ∈ heights, (creationRows db p.1 p.2).isSome) :
    (heights.foldlM (fun db p => projectTokenCreations db p.1 p.2) db).isSome := by
  induction heights generalizing db with
  | nil => rfl
  | cons p heights ih =>
      obtain ⟨rows, hrows⟩ := Option.isSome_iff_exists.mp (h p List.mem_cons_self)
      rw [List.foldlM_cons, projectTokenCreations_eq, hrows]
      exact ih fun q hq => h q (List.mem_cons_of_mem _ hq)

end

end Retracer
