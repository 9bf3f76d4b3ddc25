import Retracer.Library.Traverse
import Retracer.Storage.Insert

/-! # What the statements write

The block row is a plain insert wherever it succeeds. Token events come out of rows that
are already stored: from the actions of the height and, per inserted registration, from a
join. Either way the statement only adds rows to `token_events`, and it stamps them with
the height it was run for.
-/

namespace Retracer

open KeyedTable Traverse

/-- All rows carry this chain and this height. -/
def StampedWith {ρ : Type} [Stamped ρ] (chainId : String) (height : Int) (rows : List ρ) : Prop :=
  ∀ r ∈ rows, Stamped.chainOf r = chainId ∧ Stamped.heightOf r = height

theorem StampedWith.append {ρ : Type} [Stamped ρ] {chainId : String} {height : Int}
    {rows more : List ρ} (h : StampedWith chainId height rows)
    (h' : StampedWith chainId height more) : StampedWith chainId height (rows ++ more) := by
  intro r hr
  rcases List.mem_append.mp hr with hold | hnew
  · exact h r hold
  · exact h' r hnew

theorem StampedWith.above {ρ : Type} [Stamped ρ] {chainId : String} {height target : Int}
    {rows : List ρ} (h : StampedWith chainId height rows) (hlt : target < height) :
    ∀ r ∈ rows, above chainId target r = true := by
  intro r hr
  obtain ⟨hchain, hheight⟩ := h r hr
  simp [Retracer.above, hchain, hheight, hlt]

theorem stamped_map {α ρ : Type} [Stamped ρ] {chainId : String} {height : Int} {as : List α}
    {f : α → ρ} (h : ∀ a, Stamped.chainOf (f a) = chainId ∧ Stamped.heightOf (f a) = height) :
    StampedWith chainId height (as.map f) := by
  intro r hr
  obtain ⟨a, _, rfl⟩ := List.mem_map.mp hr
  exact h a

theorem stamped_assetRegistrationsRows {effects : BlockEffects} {chainId : String}
    {height : Int} : StampedWith chainId height (effects.assetRegistrationsRows chainId height) :=
  stamped_map fun _ => ⟨rfl, rfl⟩

theorem stamped_tokenActions {db : Database} {chainId : String} {height : Int} {a : ActionsRow}
    (h : a ∈ tokenActions db chainId height) : a.chainId = chainId ∧ a.blockHeight = height := by
  have hkeep := (List.mem_filter.mp h).2
  simp only [decide_eq_true_eq] at hkeep
  exact ⟨hkeep.1, hkeep.2.1⟩

/-- Where the statement succeeds it is a plain insert. -/
theorem insertBlocksRow_eq {db db' : Database} {row : BlocksRow}
    (h : insertBlocksRow db row = some db') :
    db' = { db with blocks := db.blocks.insertRow row } := by
  unfold insertBlocksRow at h
  split at h
  · next htaken =>
      cases h
      obtain ⟨b, hb⟩ := Option.isSome_iff_exists.mp htaken
      obtain ⟨hmem, hkey⟩ := Table.find?_eq_some_iff.mp hb
      have hin : key row ∈ db.blocks.rows.map key := hkey ▸ List.mem_map_of_mem hmem
      rw [Table.insertRow_of_mem hin]
  · split at h
    · cases h
    · cases h
      rfl

variable [Postgres]

theorem stamped_tokenEventsRows {time : Int} {a : ActionsRow} {rows : List TokenEventsRow}
    (h : tokenEventsRows time a = some rows) : StampedWith a.chainId a.blockHeight rows := by
  intro r hr
  obtain ⟨⟨event, body, token⟩, _, hrow⟩ := (mem_mapM_iff h).mp hr
  simp only [Option.bind_eq_bind, Option.bind_eq_some_iff, Option.some.injEq] at hrow
  obtain ⟨amount, _, rfl⟩ := hrow
  exact ⟨rfl, rfl⟩

theorem stamped_creationRow {time : Int} {a : ActionsRow} {reg : AssetRegistrationsRow}
    {row : TokenEventsRow} (h : creationRow time a reg = some row) :
    row.chainId = a.chainId ∧ row.blockHeight = a.blockHeight := by
  simp only [creationRow, Option.bind_eq_bind, Option.bind_eq_some_iff, Option.some.injEq] at h
  obtain ⟨create, _, token, _, amount, _, rfl⟩ := h
  exact ⟨rfl, rfl⟩

section

variable {writes : BlockWrites} {db db' : Database} {chainId : String} {height time : Int}
  {effects : BlockEffects}

theorem stamped_tokenEventRows {rows : List TokenEventsRow}
    (h : tokenEventRows db chainId height time = some rows) :
    StampedWith chainId height rows := by
  obtain ⟨lists, hlists, rfl⟩ := Option.map_eq_some_iff.mp h
  intro r hr
  obtain ⟨list, hlist, hin⟩ := List.mem_flatten.mp hr
  obtain ⟨a, ha, hrows⟩ := (mem_mapM_iff hlists).mp hlist
  obtain ⟨hchain, hheight⟩ := stamped_tokenActions ha
  have hstamp := stamped_tokenEventsRows hrows r hin
  rwa [hchain, hheight] at hstamp

theorem insertTokenEvents_spec (h : insertTokenEvents writes db chainId height time = some db') :
    ∃ rows, StampedWith chainId height rows ∧
      db' = { db with tokenEvents := db.tokenEvents.insertMissing rows } ∧
      (writes.actionHash ≠ [] → tokenEventRows db chainId height time = some rows) := by
  unfold insertTokenEvents at h
  split at h
  · next hempty =>
      cases h
      exact ⟨[], by simp [StampedWith], rfl, fun hne => absurd (List.isEmpty_iff.mp hempty) hne⟩
  · obtain ⟨rows, hrows, rfl⟩ := Option.map_eq_some_iff.mp h
    exact ⟨rows, stamped_tokenEventRows hrows, rfl, fun _ => hrows⟩

theorem projectTokenCreations_spec (h : projectTokenCreations db chainId height = some db') :
    ∃ rows, StampedWith chainId height rows ∧
      db' = { db with tokenEvents := db.tokenEvents.insertMissing rows } := by
  unfold projectTokenCreations at h
  split at h
  · cases h
    exact ⟨[], by simp [StampedWith], rfl⟩
  · obtain ⟨rows, hrows, rfl⟩ := Option.map_eq_some_iff.mp h
    refine ⟨rows, ?_, rfl⟩
    intro r hr
    obtain ⟨⟨a, reg⟩, hpair, hrow⟩ := (mem_mapM_iff hrows).mp hr
    have hjoined := (Postgres.joinOrder_perm _).mem_iff.mp hpair
    obtain ⟨a', ha', hin⟩ := List.mem_flatMap.mp hjoined
    obtain ⟨reg', _, heq⟩ := List.mem_map.mp hin
    cases heq
    obtain ⟨hchain, hheight⟩ := stamped_tokenActions ha'
    obtain ⟨hc, hh⟩ := stamped_creationRow hrow
    exact ⟨hc.trans hchain, hh.trans hheight⟩

theorem projectAll_spec {regs : List AssetRegistrationsRow}
    (hregs : StampedWith chainId height regs)
    (h : regs.foldlM (fun db r => projectTokenCreations db r.chainId r.height) db = some db') :
    ∃ rows, StampedWith chainId height rows ∧
      db' = { db with tokenEvents := db.tokenEvents.insertMissing rows } := by
  induction regs generalizing db with
  | nil =>
      cases h
      exact ⟨[], by simp [StampedWith], rfl⟩
  | cons r regs ih =>
      simp only [List.foldlM_cons, Option.bind_eq_bind, Option.bind_eq_some_iff] at h
      obtain ⟨mid, hmid, hrest⟩ := h
      have hchain : r.chainId = chainId := (hregs r List.mem_cons_self).1
      have hheight : r.height = height := (hregs r List.mem_cons_self).2
      rw [hchain, hheight] at hmid
      obtain ⟨rows, hrows, rfl⟩ := projectTokenCreations_spec hmid
      obtain ⟨more, hmore, rfl⟩ := ih (fun s hs => hregs s (List.mem_cons_of_mem _ hs)) hrest
      refine ⟨rows ++ more, hrows.append hmore, ?_⟩
      rw [Table.insertMissing_append]

theorem insertAssetRegistrations_spec
    (h : insertAssetRegistrations db chainId height effects = some db') :
    effects.assetRegistrations.length < 2 ^ 31 ∧
    ∃ rows, StampedWith chainId height rows ∧ db' =
      { db with
        assetRegistrations :=
          db.assetRegistrations.insertMissing (effects.assetRegistrationsRows chainId height)
        tokenEvents := db.tokenEvents.insertMissing rows } := by
  unfold insertAssetRegistrations at h
  dsimp only at h
  split at h
  · cases h
  · next hfits =>
      have hstamped : StampedWith chainId height
          (db.assetRegistrations.inserted (effects.assetRegistrationsRows chainId height)) :=
        fun r hr => stamped_assetRegistrationsRows r (Table.mem_inserted hr).1
      obtain ⟨rows, hrows, rfl⟩ := projectAll_spec hstamped h
      exact ⟨by omega, rows, hrows, rfl⟩

end

end Retracer
