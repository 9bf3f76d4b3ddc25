import Retracer.Storage.Incremental
import Retracer.Storage.Surviving

/-! # The incremental tables equal their rebuild

The invariant: the two tables hold what the stored rows make of them. A block at the next
height of its chain keeps it, and so does any rollback, for all the chains of a database.
-/

namespace Retracer

open KeyedTable Execution

/-! ## Blocks with ordinary tokens -/

def registrationRows (chainId : String) (block : IndexableBlock) : List AssetRegistrationsRow :=
  block.effects.elim [] fun effects => effects.assetRegistrationsRows chainId block.height

/-- Token payloads have one variant, and a token is registered once. -/
structure OrdinaryTokens [Postgres] (chainId : String) (extractor : AddressExtractor)
    (block : IndexableBlock) : Prop where
  single : ∀ a ∈ batchActions chainId extractor [block], a.kind = "Token" → SingleVariant a
  once : ∀ a ∈ batchActions chainId extractor [block], a.kind = "Token" →
    CreatedOnce (registrationRows chainId block) a

/-- The two tables hold what the stored rows make of them. `next` is the first height of a
chain from which on nothing is stored. -/
structure Maintained [Postgres] (next : String → Nat) (db : Database) : Prop where
  actions : ∀ a ∈ db.actions.rows, a.blockHeight < next a.chainId
  registrations : ∀ r ∈ db.assetRegistrations.rows, r.height < next r.chainId
  blocks : ∀ b ∈ db.blocks.rows, b.height < next b.chainId
  unambiguous : Unambiguous db
  events : ∀ r, r ∈ db.tokenEvents.rows ↔ IsTokenEvent db r
  assets : ∀ r, r ∈ db.assetActions.rows ↔ IsAssetAction db r

section

variable [Postgres] {next : String → Nat} {db db' : Database} {chainId : String}

theorem maintained_empty : Maintained (fun _ => 0) .empty := by
  have hnone : ∀ a time, ¬ TokenActionAt .empty a time := by
    rintro a time ⟨ha, _⟩
    cases ha
  refine ⟨?_, ?_, ?_, ⟨?_, ?_, ?_⟩, ?_, ?_⟩
  · intro a ha
    cases ha
  · intro r hr
    cases hr
  · intro b hb
    cases hb
  · intro a ha
    cases ha
  · intro a ha
    cases ha
  · intro a time ha
    exact absurd ha (hnone a time)
  · intro r
    refine iff_of_false (by rintro ⟨⟩) ?_
    rintro ⟨a, time, ha, _⟩
    exact hnone a time ha
  · intro r
    refine iff_of_false (by rintro ⟨⟩) ?_
    rintro ⟨a, ha, _⟩
    cases ha

theorem Maintained.free (h : Maintained next db) (chainId : String) :
    FreeHeight db chainId (next chainId) := by
  refine ⟨?_, ?_, ?_⟩
  · rintro a ha ⟨rfl, hheight⟩
    have := h.actions a ha
    omega
  · rintro r hr ⟨rfl, hheight⟩
    have := h.registrations r hr
    omega
  · apply Option.map_eq_none_iff.mpr
    apply Table.find?_eq_none_iff.mpr
    intro b hb hkey
    simp only [key, Prod.mk.injEq] at hkey
    have hlt := h.blocks b hb
    rw [hkey.1] at hlt
    omega

theorem stamped_tokenEventsOf {registrations : List AssetRegistrationsRow} {time : Int}
    {a : ActionsRow} {r : TokenEventsRow} (h : r ∈ tokenEventsOf registrations time a) :
    r.chainId = a.chainId ∧ r.blockHeight = a.blockHeight := by
  rcases mem_tokenEventsOf.mp h with hevent | ⟨_, hcreated⟩
  · cases hrows : tokenEventsRows time a with
    | none =>
        rw [eventsOf, hrows] at hevent
        cases hevent
    | some rows =>
        rw [eventsOf, hrows] at hevent
        exact stamped_tokenEventsRows hrows r hevent
  · obtain ⟨reg, _, _, hrow⟩ := mem_creationsOf.mp hcreated
    exact stamped_creationRow hrow

/-- Registrations of another height do not count. -/
theorem tokenEventsOf_congr {registrations registrations' : List AssetRegistrationsRow}
    {time : Int} {a : ActionsRow}
    (h : ∀ reg, createdBy a reg = true → (reg ∈ registrations ↔ reg ∈ registrations'))
    (r : TokenEventsRow) :
    r ∈ tokenEventsOf registrations time a ↔ r ∈ tokenEventsOf registrations' time a := by
  rw [mem_tokenEventsOf, mem_tokenEventsOf, mem_creationsOf, mem_creationsOf]
  apply or_congr_right
  apply and_congr_right
  intro _
  constructor
  · rintro ⟨reg, hreg, hmatch, hrow⟩
    exact ⟨reg, (h reg hmatch).mp hreg, hmatch, hrow⟩
  · rintro ⟨reg, hreg, hmatch, hrow⟩
    exact ⟨reg, (h reg hmatch).mpr hreg, hmatch, hrow⟩

/-! ## A block keeps them -/

section

variable {extractor : AddressExtractor} {block : IndexableBlock}

theorem timeAt_insertBlockInTx (h : insertBlockInTx chainId extractor db block = some db')
    (c : String) (n : Int) :
    timeAt db' c n = (timeAt db c n).or
      (if (chainId, (block.height : Int)) = (c, n) then some (asI64 block.timestamp)
        else none) := by
  obtain ⟨writes, tokens, hwritten⟩ := written_of_insert h
  rw [timeAt_undisputed, timeAt_undisputed, hwritten.blocks]
  simp only [Table.insertMissing_cons, Table.insertMissing_nil, Table.find?_insertRow,
    Option.map_or]
  congr 1
  have hkey : key (blocksRow chainId block) = (chainId, (block.height : Int)) := rfl
  by_cases hat : (chainId, (block.height : Int)) = (c, n)
  · rw [if_pos (hkey.trans hat), if_pos hat]
    simp [blocksRow]
  · rw [if_neg fun h => hat (hkey.symm.trans h), if_neg hat, Option.map_none]

/-- The stored rows after a block: those from before, elsewhere, and those of its height. -/
structure AddsRows (db db' : Database) (chainId : String) (height time : Int)
    (batch : List ActionsRow) (added : List AssetRegistrationsRow) : Prop where
  actions : ∀ a, a ∈ db'.actions.rows ↔ a ∈ db.actions.rows ∨ a ∈ db.actions.inserted batch
  stamped : ∀ a ∈ batch, a.chainId = chainId ∧ a.blockHeight = height
  registrations : ∀ r ∈ db'.assetRegistrations.rows, r ∈ db.assetRegistrations.rows ∨ r ∈ added
  kept : ∀ r ∈ db.assetRegistrations.rows, r ∈ db'.assetRegistrations.rows
  stamps : ∀ r ∈ added, r.chainId = chainId ∧ r.height = height
  time : ∀ (c : String) (n : Int), timeAt db' c n =
    (timeAt db c n).or (if (chainId, height) = (c, n) then some time else none)

theorem addsRows_of_insert (h : insertBlockInTx chainId extractor db block = some db') :
    AddsRows db db' chainId block.height (asI64 block.timestamp)
      (batchActions chainId extractor [block]) (registrationRows chainId block) := by
  obtain ⟨writes, tokens, hwritten⟩ := written_of_insert h
  have hbatch : batchActions chainId extractor [block] =
      writes.actionsRows chainId block.height := by
    simp [batchActions, hwritten.build]
  have hactions : db'.actions = db.actions.insertMissing
      (writes.actionsRows chainId block.height) := hwritten.rows .actions
  have hregs : db'.assetRegistrations = db.assetRegistrations.insertMissing
      (registrationRows chainId block) := hwritten.rows .assetRegistrations
  refine ⟨?_, ?_, ?_, ?_, ?_, timeAt_insertBlockInTx h⟩
  · intro a
    rw [hactions, hbatch, Table.rows_insertMissing, List.mem_append]
  · intro a ha
    rw [hbatch] at ha
    exact stamped_blockRows hwritten.stamped .actions a ha
  · intro r hr
    rw [hregs] at hr
    exact Table.mem_of_mem_insertMissing hr
  · intro r hr
    rw [hregs]
    exact (Table.insertMissing_extends _ _).subset hr
  · have hstamps := @stamped_blockRows chainId block writes tokens hwritten.stamped
      .assetRegistrations
    exact hstamps

section

variable {height time : Int} {batch : List ActionsRow}
  {added : List AssetRegistrationsRow}
  (hadds : AddsRows db db' chainId height time batch added)
  (hfree : FreeHeight db chainId height)

include hadds hfree

omit [Postgres] in
/-- The token actions of the height are the new ones. -/
theorem AddsRows.mem_tokenActions {a : ActionsRow} (ha : a ∈ db'.actions.rows)
    (hkind : a.kind = "Token") :
    a ∈ tokenActions db' chainId height ↔ a ∈ db.actions.inserted batch := by
  rw [Retracer.mem_tokenActions]
  constructor
  · rintro ⟨_, hchain, hheight, _⟩
    exact ((hadds.actions a).mp ha).resolve_left fun hold => hfree.actions a hold ⟨hchain, hheight⟩
  · intro hnew
    obtain ⟨hchain, hheight⟩ := hadds.stamped a (Table.mem_inserted hnew).1
    exact ⟨ha, hchain, hheight, hkind⟩

omit [Postgres] in
theorem AddsRows.timeAt_new : timeAt db' chainId height = some time := by
  rw [hadds.time, hfree.block, if_pos rfl]
  rfl

omit [Postgres] in
theorem AddsRows.timeAt_old {a : ActionsRow} (ha : a ∈ db.actions.rows) :
    timeAt db' a.chainId a.blockHeight = timeAt db a.chainId a.blockHeight := by
  rw [hadds.time, if_neg, Option.or_none]
  intro hat
  simp only [Prod.mk.injEq] at hat
  exact hfree.actions a ha ⟨hat.1.symm, hat.2.symm⟩

omit [Postgres] in
/-- A token action of before, or one of the height. -/
theorem AddsRows.tokenActionAt {a : ActionsRow} {t : Int} :
    TokenActionAt db' a t ↔
      TokenActionAt db a t ∨ a ∈ tokenActions db' chainId height ∧ t = time := by
  constructor
  · rintro ⟨ha, hkind, ht⟩
    rcases (hadds.actions a).mp ha with hold | hnew
    · rw [hadds.timeAt_old hfree hold] at ht
      exact Or.inl ⟨hold, hkind, ht⟩
    · obtain ⟨hchain, hheight⟩ := hadds.stamped a (Table.mem_inserted hnew).1
      rw [hchain, hheight, hadds.timeAt_new hfree, Option.some.injEq] at ht
      exact Or.inr ⟨(hadds.mem_tokenActions hfree ha hkind).mpr hnew, ht.symm⟩
  · rintro (⟨hold, hkind, ht⟩ | ⟨ha, rfl⟩)
    · exact ⟨(hadds.actions a).mpr (Or.inl hold), hkind, by rw [hadds.timeAt_old hfree hold, ht]⟩
    · obtain ⟨hstored, hchain, hheight, hkind⟩ := Retracer.mem_tokenActions.mp ha
      refine ⟨hstored, hkind, ?_⟩
      rw [hchain, hheight]
      exact hadds.timeAt_new hfree

omit hfree in
/-- A registration that matches an action of before is one of before. -/
theorem AddsRows.registration_old {a : ActionsRow} (ha : ¬ (a.chainId = chainId ∧
    a.blockHeight = height)) {reg : AssetRegistrationsRow} (hmatch : createdBy a reg = true) :
    reg ∈ db'.assetRegistrations.rows ↔ reg ∈ db.assetRegistrations.rows := by
  refine ⟨fun hreg => ?_, hadds.kept reg⟩
  apply (hadds.registrations reg hreg).resolve_right
  intro hnew
  obtain ⟨hchain, hheight⟩ := hadds.stamps reg hnew
  obtain ⟨hregChain, hregHeight⟩ := createdBy_at hmatch
  exact ha ⟨hregChain.symm.trans hchain, hregHeight.symm.trans hheight⟩

/-- One that matches an action of the height is a new one. -/
theorem AddsRows.registration_new {a : ActionsRow} (ha : a.chainId = chainId ∧
    a.blockHeight = height) {reg : AssetRegistrationsRow} (hreg : reg ∈ db'.assetRegistrations.rows)
    (hmatch : createdBy a reg = true) : reg ∈ added := by
  apply (hadds.registrations reg hreg).resolve_left
  intro hold
  obtain ⟨hregChain, hregHeight⟩ := createdBy_at hmatch
  exact hfree.registrations reg hold ⟨hregChain.trans ha.1, hregHeight.trans ha.2⟩

theorem AddsRows.unambiguous (h : Unambiguous db)
    (hadded : AddsEvents db db' chainId height time)
    (hsingle : ∀ a ∈ batch, a.kind = "Token" → SingleVariant a)
    (honce : ∀ a ∈ batch, a.kind = "Token" → CreatedOnce added a) : Unambiguous db' := by
  refine ⟨?_, ?_, ?_⟩
  · intro a ha hkind
    rcases (hadds.actions a).mp ha with hold | hnew
    · exact h.single a hold hkind
    · exact hsingle a (Table.mem_inserted hnew).1 hkind
  · intro a ha hkind r hr s hs hra hsa
    rcases (hadds.actions a).mp ha with hold | hnew
    · have hother := hfree.actions a hold
      exact h.once a hold hkind r ((hadds.registration_old hother hra).mp hr) s
        ((hadds.registration_old hother hsa).mp hs) hra hsa
    · have hin := (Table.mem_inserted hnew).1
      exact honce a hin hkind r (hadds.registration_new hfree (hadds.stamped a hin) hr hra) s
        (hadds.registration_new hfree (hadds.stamped a hin) hs hsa) hra hsa
  · intro a t hat
    rcases (hadds.tokenActionAt hfree).mp hat with hold | ⟨hnew, rfl⟩
    · obtain ⟨hevents, hcreations⟩ := h.casts a t hold
      refine ⟨hevents, fun reg hreg hmatch => ?_⟩
      exact hcreations reg
        ((hadds.registration_old (hfree.actions a hold.1) hmatch).mp hreg) hmatch
    · exact hadded.casts a hnew

/-- The table of the events after the block. -/
theorem AddsRows.events (h' : Unambiguous db') (hadded : AddsEvents db db' chainId height time)
    (hevents : ∀ r, r ∈ db.tokenEvents.rows ↔ IsTokenEvent db r) (r : TokenEventsRow) :
    r ∈ db'.tokenEvents.rows ↔ IsTokenEvent db' r := by
  obtain ⟨events, creations, htable, hmemEvents, hmemCreations⟩ := hadded.tables
  let At : ActionsRow → Int → Prop := fun a t => a ∈ tokenActions db' chainId height ∧ t = time
  have hat : ∀ a t, At a t → TokenActionAt db' a t :=
    fun a t ha => (hadds.tokenActionAt hfree).mpr (Or.inr ha)
  have hfreeKey : ∀ a t, At a t → key a ∉ db.tokenEvents.rows.map key := by
    rintro a t ⟨ha, _⟩ hmem
    obtain ⟨s, hs, hkey⟩ := List.mem_map.mp hmem
    obtain ⟨b, time', hb, hsb⟩ := (hevents s).mp hs
    obtain ⟨hstored, hchain, hheight, _⟩ := Retracer.mem_tokenActions.mp ha
    rw [key_tokenEventsOf hsb] at hkey
    have hsame := key_injective_actions ((hadds.actions b).mpr (Or.inl hb.1)) hstored hkey
    subst hsame
    exact hfree.actions b hb.1 ⟨hchain, hheight⟩
  have hmemEvents' : ∀ r, r ∈ events ↔ ∃ a t, At a t ∧ r ∈ eventsOf t a := by
    intro r
    simp [hmemEvents, At]
  have hmemCreations' : ∀ r, r ∈ creations ↔
      ∃ a t, At a t ∧ r ∈ creationsOf db'.assetRegistrations.rows t a := by
    intro r
    simp [hmemCreations, At]
  have hprojected := mem_projected At db'.assetRegistrations.rows db.tokenEvents
    (fun a t b t' ha hb => (hat a t ha).eq_of_key (hat b t' hb))
    (fun a t ha => ⟨h'.single a (hat a t ha).1 (hat a t ha).2.1,
      h'.once a (hat a t ha).1 (hat a t ha).2.1⟩) hmemEvents' hmemCreations' hfreeKey r
  rw [htable, hprojected, hevents]
  constructor
  · rintro (⟨a, t, hold, hr⟩ | ⟨a, t, hnew, hr⟩)
    · refine ⟨a, t, (hadds.tokenActionAt hfree).mpr (Or.inl hold), ?_⟩
      exact (tokenEventsOf_congr (fun reg hmatch =>
        (hadds.registration_old (hfree.actions a hold.1) hmatch).symm) r).mp hr
    · exact ⟨a, t, hat a t hnew, hr⟩
  · rintro ⟨a, t, ha, hr⟩
    rcases (hadds.tokenActionAt hfree).mp ha with hold | hnew
    · refine Or.inl ⟨a, t, hold, ?_⟩
      exact (tokenEventsOf_congr (fun reg hmatch =>
        hadds.registration_old (hfree.actions a hold.1) hmatch) r).mp hr
    · exact Or.inr ⟨a, t, hnew, hr⟩

end

omit [Postgres] in
theorem assets_of_inserted {batch : List ActionsRow}
    (hactions : db'.actions = db.actions.insertMissing batch)
    (htable : db'.assetActions =
      db.assetActions.insertMissing ((db.actions.inserted batch).flatMap projectAssetAction))
    (h : ∀ r, r ∈ db.assetActions.rows ↔ IsAssetAction db r) (r : AssetActionsRow) :
    r ∈ db'.assetActions.rows ↔ IsAssetAction db' r := by
  have hrows : db'.actions.rows = db.actions.rows ++ db.actions.inserted batch := by
    rw [hactions, Table.rows_insertMissing]
  have hnodup : ((db.actions.inserted batch).map key).Nodup := by
    have hall := db'.actions.nodup
    rw [hrows, List.map_append] at hall
    exact (List.nodup_append.mp hall).2.1
  have hone : ∀ s ∈ (db.actions.inserted batch).flatMap projectAssetAction,
      ∀ s' ∈ (db.actions.inserted batch).flatMap projectAssetAction, key s = key s' → s = s' :=
    fun s hs s' hs' => assetAction_eq_of_key hnodup hs hs'
  rw [htable, Table.mem_insertMissing_iff hone, h]
  simp only [IsAssetAction, hrows, List.mem_append, List.mem_flatMap]
  constructor
  · rintro (⟨a, ha, hr⟩ | ⟨⟨a, ha, hr⟩, _⟩)
    · exact ⟨a, Or.inl ha, hr⟩
    · exact ⟨a, Or.inr ha, hr⟩
  · rintro ⟨a, hold | hnew, hr⟩
    · exact Or.inl ⟨a, hold, hr⟩
    · refine Or.inr ⟨⟨a, hnew, hr⟩, ?_⟩
      intro hmem
      obtain ⟨s, hs, hkey⟩ := List.mem_map.mp hmem
      obtain ⟨b, hb, hsb⟩ := (h s).mp hs
      have hab : key b = key a := by
        rw [← (key_assetAction hsb).1, ← (key_assetAction hr).1]
        simp only [key, Prod.mk.injEq] at hkey ⊢
        exact ⟨hkey.1, hkey.2.2⟩
      exact (Table.mem_inserted hnew).2 (hab ▸ List.mem_map_of_mem hb)

omit [Postgres] in
/-- What was stored and what is added are below the height after the block. -/
theorem lt_next_insert {c : String} {n : Int}
    (h : n < next c ∨ c = chainId ∧ n = (next chainId : Int)) :
    n < Function.update next chainId (next chainId + 1) c := by
  by_cases hc : c = chainId
  · subst hc
    rw [Function.update_self]
    omega
  · rw [Function.update_of_ne hc]
    exact h.resolve_right fun hnew => hc hnew.1

/-- The height after the last one stored. -/
theorem Maintained.insertBlockInTx (h : Maintained next db)
    (hinsert : insertBlockInTx chainId extractor db block = some db')
    (hheight : block.height = next chainId) (hblock : OrdinaryTokens chainId extractor block) :
    Maintained (Function.update next chainId (next chainId + 1)) db' := by
  have hfree : FreeHeight db chainId block.height := by
    rw [hheight]
    exact h.free chainId
  have hadds := addsRows_of_insert hinsert
  have hadded := addsEvents_of_insert hinsert hfree
  have hunambiguous := hadds.unambiguous hfree h.unambiguous hadded hblock.single hblock.once
  obtain ⟨writes, tokens, hwritten⟩ := written_of_insert hinsert
  refine ⟨?_, ?_, ?_, hunambiguous, hadds.events hfree hunambiguous hadded h.events, ?_⟩
  · intro a ha
    apply lt_next_insert
    rw [← hheight]
    refine ((hadds.actions a).mp ha).imp (h.actions a) fun hin => ?_
    exact hadds.stamped a (Table.mem_inserted hin).1
  · intro r hr
    apply lt_next_insert
    rw [← hheight]
    exact (hadds.registrations r hr).imp (h.registrations r) (hadds.stamps r)
  · intro b hb
    apply lt_next_insert
    rw [← hheight]
    have hmem : clearDisputed b ∈ db'.undisputedBlocks.rows := List.mem_map_of_mem hb
    rw [hwritten.blocks] at hmem
    rcases Table.mem_of_mem_insertMissing hmem with hold | hin
    · obtain ⟨old, hin, heq⟩ := List.mem_map.mp hold
      have hlt := h.blocks old hin
      have hchain : (clearDisputed old).chainId = (clearDisputed b).chainId := by rw [heq]
      have hat : (clearDisputed old).height = (clearDisputed b).height := by rw [heq]
      simp only [clearDisputed] at hchain hat
      rw [hchain, hat] at hlt
      exact Or.inl hlt
    · exact Or.inr (stamped_blocksRow (clearDisputed b) hin)
  · have hbatch : batchActions chainId extractor [block] =
        writes.actionsRows chainId block.height := by
      simp [batchActions, hwritten.build]
    have hactions : db'.actions = db.actions.insertMissing
        (writes.actionsRows chainId block.height) := hwritten.rows .actions
    exact assets_of_inserted hactions hwritten.assets h.assets

end

/-! ## So does a rollback -/

omit [Postgres] in
/-- The token actions that are left. -/
theorem tokenActionAt_rollbackTo {height : Int} {a : ActionsRow} {time : Int} :
    TokenActionAt (rollbackTo db chainId height).1 a time ↔
      TokenActionAt db a time ∧ ¬ (a.chainId = chainId ∧ height < a.blockHeight) := by
  have hmem : a ∈ (rollbackTo db chainId height).1.actions.rows ↔
      a ∈ db.actions.rows ∧ ¬ (a.chainId = chainId ∧ height < a.blockHeight) := mem_deleteAbove
  rw [TokenActionAt, TokenActionAt, hmem, timeAt_rollbackTo]
  by_cases hgone : a.chainId = chainId ∧ height < a.blockHeight
  · simp [hgone]
  · simp [hgone]

omit [Postgres] in
/-- What is left is below the next height of its chain. -/
theorem lt_next_rollbackTo {height : Int} {c : String} {n : Int} (hlt : n < next c)
    (hkept : ¬ (c = chainId ∧ height < n)) :
    n < Function.update next chainId (min (next chainId) (height + 1).toNat) c := by
  by_cases hc : c = chainId
  · subst hc
    rw [Function.update_self]
    have hle : n ≤ height := by
      by_contra hgt
      exact hkept ⟨rfl, by omega⟩
    omega
  · rw [Function.update_of_ne hc]
    exact hlt

theorem Unambiguous.rollbackTo (h : Unambiguous db) (height : Int) :
    Unambiguous (rollbackTo db chainId height).1 := by
  refine ⟨?_, ?_, ?_⟩
  · intro a ha
    exact h.single a (mem_deleteAbove.mp ha).1
  · intro a ha hkind r hr s hs
    exact h.once a (mem_deleteAbove.mp ha).1 hkind r (mem_deleteAbove.mp hr).1 s
      (mem_deleteAbove.mp hs).1
  · intro a time ha
    obtain ⟨hevents, hcreations⟩ := h.casts a time (tokenActionAt_rollbackTo.mp ha).1
    exact ⟨hevents, fun reg hreg => hcreations reg (mem_deleteAbove.mp hreg).1⟩

/-- The registrations of an action that stays stay too. -/
theorem tokenEventsOf_rollbackTo {height : Int} {a : ActionsRow} {time : Int}
    (hkept : ¬ (a.chainId = chainId ∧ height < a.blockHeight)) (r : TokenEventsRow) :
    r ∈ tokenEventsOf (rollbackTo db chainId height).1.assetRegistrations.rows time a ↔
      r ∈ tokenEventsOf db.assetRegistrations.rows time a := by
  apply tokenEventsOf_congr
  intro reg hmatch
  obtain ⟨hchain, hheight⟩ := createdBy_at hmatch
  have hreg : reg ∈ (rollbackTo db chainId height).1.assetRegistrations.rows ↔
      reg ∈ db.assetRegistrations.rows ∧ ¬ (reg.chainId = chainId ∧ height < reg.height) :=
    mem_deleteAbove
  rw [hreg, hchain, hheight]
  exact and_iff_left hkept

theorem Maintained.events_rollbackTo (h : Maintained next db) (height : Int)
    (r : TokenEventsRow) :
    r ∈ (rollbackTo db chainId height).1.tokenEvents.rows ↔
      IsTokenEvent (rollbackTo db chainId height).1 r := by
  have hrow : r ∈ (rollbackTo db chainId height).1.tokenEvents.rows ↔
      r ∈ db.tokenEvents.rows ∧ ¬ (r.chainId = chainId ∧ height < r.blockHeight) :=
    mem_deleteAbove
  rw [hrow, h.events]
  constructor
  · rintro ⟨⟨a, time, ha, hr⟩, hkept⟩
    obtain ⟨hchain, hheight⟩ := stamped_tokenEventsOf hr
    rw [hchain, hheight] at hkept
    exact ⟨a, time, tokenActionAt_rollbackTo.mpr ⟨ha, hkept⟩,
      (tokenEventsOf_rollbackTo hkept r).mpr hr⟩
  · rintro ⟨a, time, ha, hr⟩
    obtain ⟨hat, hkept⟩ := tokenActionAt_rollbackTo.mp ha
    obtain ⟨hchain, hheight⟩ := stamped_tokenEventsOf hr
    rw [hchain, hheight]
    exact ⟨⟨a, time, hat, (tokenEventsOf_rollbackTo hkept r).mp hr⟩, hkept⟩

omit [Postgres] in
theorem assets_rollbackTo (h : ∀ r, r ∈ db.assetActions.rows ↔ IsAssetAction db r) (height : Int)
    (r : AssetActionsRow) :
    r ∈ (rollbackTo db chainId height).1.assetActions.rows ↔
      IsAssetAction (rollbackTo db chainId height).1 r := by
  have hrow : r ∈ (rollbackTo db chainId height).1.assetActions.rows ↔
      r ∈ db.assetActions.rows ∧ ∀ a ∈ db.actions.rows.filter (above chainId height),
        ¬ (a.chainId = r.chainId ∧ a.actionHash = r.actionHash) := mem_cascadeAssetActions
  rw [hrow, h]
  constructor
  · rintro ⟨⟨a, ha, hr⟩, hkept⟩
    have hkey := (key_assetAction hr).1
    simp only [key, Prod.mk.injEq] at hkey
    refine ⟨a, mem_deleteAbove.mpr ⟨ha, ?_⟩, hr⟩
    intro hgone
    refine hkept a (List.mem_filter.mpr ⟨ha, ?_⟩) ⟨hkey.1.symm, hkey.2.symm⟩
    simpa [above] using hgone
  · rintro ⟨a, ha, hr⟩
    obtain ⟨hin, hkept⟩ := mem_deleteAbove.mp ha
    refine ⟨⟨a, hin, hr⟩, ?_⟩
    rintro b hb ⟨hchain, hhash⟩
    obtain ⟨hbin, hgone⟩ := List.mem_filter.mp hb
    have hsame : b = a := by
      apply key_injective_actions hbin hin
      rw [← (key_assetAction hr).1, ← hchain, ← hhash]
      rfl
    subst hsame
    simp only [above, decide_eq_true_eq] at hgone
    exact hkept hgone

theorem Maintained.rollbackTo (h : Maintained next db) (height : Int) :
    Maintained (Function.update next chainId (min (next chainId) (height + 1).toNat))
      (rollbackTo db chainId height).1 where
  actions a ha :=
    have hkept := mem_deleteAbove.mp ha
    lt_next_rollbackTo (h.actions a hkept.1) hkept.2
  registrations r hr :=
    have hkept := mem_deleteAbove.mp hr
    lt_next_rollbackTo (h.registrations r hkept.1) hkept.2
  blocks b hb :=
    have hkept := mem_deleteAbove.mp hb
    lt_next_rollbackTo (h.blocks b hkept.1) hkept.2
  unambiguous := h.unambiguous.rollbackTo height
  events := h.events_rollbackTo height
  assets := assets_rollbackTo h.assets height

/-! ## Runs -/

omit [Postgres] in
theorem ConsecutiveFrom.uncons {n : Nat} {block : IndexableBlock} {blocks : List IndexableBlock}
    (h : ConsecutiveFrom n (block :: blocks)) :
    block.height = n ∧ ConsecutiveFrom (n + 1) blocks := by
  simp only [ConsecutiveFrom, List.map_cons, List.length_cons, List.range'_succ,
    List.cons.injEq] at h
  exact h

end

/-- The database and, for each chain, the height of its next block. -/
structure ChainsState where
  db : Database := .empty
  next : String → Nat := fun _ => 0

section

variable [Postgres] (extractors : String → AddressExtractor)

/-- The next blocks of any chain, or a rollback of it to any height. -/
def consecutiveStep (s : ChainsState) : WriteOp → Option ChainsState
  | .insert chainId blocks =>
      if ConsecutiveFrom (s.next chainId) blocks then
        (insertBlocks s.db chainId blocks (extractors chainId)).map fun db =>
          ⟨db, Function.update s.next chainId (s.next chainId + blocks.length)⟩
      else none
  | .rollback chainId height =>
      some ⟨(rollbackTo s.db chainId height).1,
        Function.update s.next chainId (min (s.next chainId) (height + 1).toNat)⟩

variable {extractors}

/-- What a block at the next height of its chain keeps, and a rollback too. -/
structure KeptByConsecutive (extractors : String → AddressExtractor)
    (C : String → IndexableBlock → Prop) (I : (String → Nat) → Database → Prop) : Prop where
  empty : I (fun _ => 0) .empty
  block : ∀ next db chainId block db', I next db →
    insertBlockInTx chainId (extractors chainId) db block = some db' →
    block.height = next chainId → C chainId block →
    I (Function.update next chainId (next chainId + 1)) db'
  rollback : ∀ next db chainId height, I next db →
    I (Function.update next chainId (min (next chainId) (height + 1).toNat))
      (rollbackTo db chainId height).1

section

variable {C : String → IndexableBlock → Prop} {I : (String → Nat) → Database → Prop}

theorem KeptByConsecutive.insertBlocks (h : KeptByConsecutive extractors C I)
    {next : String → Nat} {db db' : Database} {chainId : String} {blocks : List IndexableBlock}
    (hI : I next db) (hdb : insertBlocks db chainId blocks (extractors chainId) = some db')
    (hnext : ConsecutiveFrom (next chainId) blocks) (hC : ∀ block ∈ blocks, C chainId block) :
    I (Function.update next chainId (next chainId + blocks.length)) db' := by
  induction blocks generalizing db next with
  | nil =>
      cases hdb
      rw [List.length_nil, Nat.add_zero, Function.update_eq_self]
      exact hI
  | cons block blocks ih =>
      rw [insertBlocks_cons, Option.bind_eq_some_iff] at hdb
      obtain ⟨mid, hmid, hrest⟩ := hdb
      obtain ⟨hheight, hconsecutive⟩ := hnext.uncons
      have hfirst := h.block next db chainId block mid hI hmid hheight (hC block List.mem_cons_self)
      have hall := ih hfirst hrest (by rwa [Function.update_self])
        fun b hb => hC b (List.mem_cons_of_mem _ hb)
      rw [Function.update_self, Function.update_idem] at hall
      rw [List.length_cons, Nat.add_comm blocks.length 1, ← Nat.add_assoc]
      exact hall

/-- It holds in every state that a run reaches whose blocks meet the condition. -/
theorem KeptByConsecutive.run (h : KeptByConsecutive extractors C I) {ops : List WriteOp}
    {s : ChainsState}
    (hops : ∀ chainId blocks, .insert chainId blocks ∈ ops → ∀ block ∈ blocks, C chainId block)
    (hrun : exec (consecutiveStep extractors) {} ops = some s) : I s.next s.db := by
  apply always_invariant (I := fun s : ChainsState => I s.next s.db) ?_ h.empty
    (always_of_forall (C := fun op => ∀ chainId blocks, op = .insert chainId blocks →
      ∀ block ∈ blocks, C chainId block) ?_) hrun
  · intro s op s' hI hs hC
    cases op with
    | insert chainId blocks =>
        simp only [consecutiveStep] at hs
        split at hs
        · next hnext =>
            obtain ⟨db, hdb, rfl⟩ := Option.map_eq_some_iff.mp hs
            exact h.insertBlocks hI hdb hnext (hC chainId blocks rfl)
        · cases hs
    | rollback chainId height =>
        cases hs
        exact h.rollback s.next s.db chainId height hI
  · rintro _ hop chainId blocks rfl
    exact hops chainId blocks hop

end

/-- The condition on the blocks of a step. -/
def InsertsOrdinaryTokens (extractors : String → AddressExtractor) : WriteOp → Prop
  | .insert chainId blocks =>
      ∀ block ∈ blocks, OrdinaryTokens chainId (extractors chainId) block
  | .rollback _ _ => True

theorem maintained_run {ops : List WriteOp} {s : ChainsState}
    (hops : ∀ op ∈ ops, InsertsOrdinaryTokens extractors op)
    (hrun : exec (consecutiveStep extractors) {} ops = some s) : Maintained s.next s.db := by
  have hkept : KeptByConsecutive extractors
      (fun chainId block => OrdinaryTokens chainId (extractors chainId) block) Maintained :=
    { empty := maintained_empty
      block := fun _ _ _ _ _ h hdb hheight hblock => h.insertBlockInTx hdb hheight hblock
      rollback := fun _ _ _ height h => h.rollbackTo height }
  exact hkept.run (fun _ _ hop => hops _ hop) hrun

/-- In every state reached, the rebuild succeeds and gives the same rows. -/
theorem incremental_eq_rebuild [ScanOrder] {ops : List WriteOp} {s : ChainsState}
    (hops : ∀ op ∈ ops, InsertsOrdinaryTokens extractors op)
    (hrun : exec (consecutiveStep extractors) {} ops = some s) :
    ∃ db, rebuild s.db = some db ∧ s.db.tokenEvents.rows.Perm db.tokenEvents.rows ∧
      s.db.assetActions.rows.Perm db.assetActions.rows := by
  have h := maintained_run hops hrun
  obtain ⟨db, hdb, hevents, hassets⟩ := rebuild_spec h.unambiguous
  refine ⟨db, hdb, ?_, ?_⟩
  · exact Table.perm_of_mem_iff fun r => (h.events r).trans (hevents r).symm
  · exact Table.perm_of_mem_iff fun r => (h.assets r).trans (hassets r).symm

end

/-- A server for concrete runs on ASCII texts. -/
@[reducible] def Postgres.ascii : Postgres :=
  { Postgres.plain with lower := fun s => String.ofList (s.toList.map Char.toLower) }

/-- Alice creates a token, which the node registers, and sends some of it to Bob. -/
def tokenBlock (height : Nat) (hash parentHash : String) : IndexableBlock :=
  let create : Json :=
    .obj [("Create", .obj [("symbol", .str "ABC"), ("initial_supply", .num "5")])]
  let transfer : Json := .obj
    [("Transfer", .obj [("token", .str "arxabc"), ("to", .str "bob"), ("amount", .num "3")])]
  let registration : Json := .obj
    [("issuer", .str "alice"), ("asset_id", .str "abc"), ("asset_ref", .str "arxabc")]
  { IndexableBlock.bare height hash parentHash with
    actions :=
      [⟨"alice", none, some (.obj [("Token", create)])⟩,
        ⟨"alice", none, some (.obj [("Token", transfer)])⟩]
    effects := some { assetRegistrations := [registration] } }

theorem ordinaryTokens_tokenBlock (height : Nat) (hash parentHash : String)
    (extractor : AddressExtractor) :
    @OrdinaryTokens .ascii "main" extractor (tokenBlock height hash parentHash) := by
  refine @OrdinaryTokens.mk .ascii _ _ _ ?_ ?_
  · have hall : ∀ a ∈ batchActions "main" extractor [tokenBlock height hash parentHash],
        SingleVariant a := by
      simp [batchActions, BlockWrites.build, tokenBlock, BlockWrites.push, splitKind,
        BlockWrites.actionsRows, SingleVariant, Json.each]
    exact fun a ha _ => hall a ha
  · intro a _ _ r hr s hs _ _
    simp only [registrationRows, tokenBlock, Option.elim_some, BlockEffects.assetRegistrationsRows,
      List.zipIdx_cons, List.zipIdx_nil, List.map_cons, List.map_nil, List.mem_singleton] at hr hs
    rw [hr, hs]

/-- The block at height 0 is rolled back and another one takes its place. -/
theorem incremental_eq_rebuild_create :
    ∃ s, exec (@consecutiveStep .ascii fun _ => .tierAOnly .empty) {}
        [.insert "main" [tokenBlock 0 "g" ""], .rollback "main" (-1),
          .insert "main" [tokenBlock 0 "h" "", tokenBlock 1 "a1" "h"]] = some s ∧
      s.db.tokenEvents.rows.length = 4 ∧
      ∃ db, @rebuild .plain .ascii s.db = some db ∧
        s.db.tokenEvents.rows.Perm db.tokenEvents.rows ∧
        s.db.assetActions.rows.Perm db.assetActions.rows := by
  have hrun : (exec (@consecutiveStep .ascii fun _ => .tierAOnly .empty) {}
      [.insert "main" [tokenBlock 0 "g" ""], .rollback "main" (-1),
        .insert "main" [tokenBlock 0 "h" "", tokenBlock 1 "a1" "h"]]).map
          (·.db.tokenEvents.rows.length) = some 4 := by
    decide +kernel
  obtain ⟨s, hs, hlength⟩ := Option.map_eq_some_iff.mp hrun
  refine ⟨s, hs, hlength, @incremental_eq_rebuild .ascii _ .plain _ s ?_ hs⟩
  intro op hop
  simp only [List.mem_cons, List.not_mem_nil, or_false] at hop
  rcases hop with rfl | rfl | rfl
  · simp [InsertsOrdinaryTokens, ordinaryTokens_tokenBlock]
  · trivial
  · simp [InsertsOrdinaryTokens, ordinaryTokens_tokenBlock]

end Retracer
