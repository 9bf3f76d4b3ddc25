import Retracer.Storage.HistoryPages
import Retracer.Webhooks.Hooks

/-! # The live filter and the history

A filtered stream asks of each action whether an address has a role in it, the history looks
the address up in the two indexes. Where no identity is used twice, the answers agree.
-/

namespace Retracer

open KeyedTable Execution

/-- What the actions of a batch, committed or not, are called. -/
def offeredIdentities (extractors : String → AddressExtractor) :
    WriteOp → List (String × String)
  | .insert chainId blocks => (batchActions chainId (extractors chainId) blocks).map key
  | .rollback _ _ => []

/-- A row of an index has the address and the action. -/
def HasIndexRow (db : Database) (a : ActionsRow) (address : String) : Prop :=
  (∃ r ∈ db.accountActions.rows,
      r.chainId = a.chainId ∧ r.actionHash = a.actionHash ∧ r.address = address) ∨
    ∃ r ∈ db.actionAddresses.rows,
      r.chainId = a.chainId ∧ r.actionHash = a.actionHash ∧ r.address = address

section

variable {extractors : String → AddressExtractor} {db : Database} {a : ActionsRow}
  {address : String}

theorem actionMatchesAddress_iff {extractor : AddressExtractor} {timestamp : Int} :
    actionMatchesAddress extractor (a.dated timestamp) address = true ↔
      a.fromAddress = address ∨ ∃ role, (address, role) ∈ rolePairs extractor a := by
  simp only [actionMatchesAddress, ActionsRow.dated, Bool.or_eq_true, beq_iff_eq,
    List.any_eq_true, rolePairs, List.mem_map, Prod.mk.injEq]
  apply or_congr_right
  constructor
  · rintro ⟨p, hp, haddress⟩
    exact ⟨p.2.asStr, p, hp, haddress, rfl⟩
  · rintro ⟨_, p, hp, haddress, _⟩
    exact ⟨p, hp, haddress⟩

/-- Indexes that agree with the actions and miss none have what the payloads say. -/
theorem hasIndexRow_iff (hagree : IndexesAgree extractors db)
    (hcomplete : IndexesComplete extractors db) (ha : a ∈ db.actions.rows) :
    HasIndexRow db a address ↔
      a.fromAddress = address ∨ ∃ role, (address, role) ∈ rolePairs (extractors a.chainId) a := by
  have hunique : ∀ b ∈ db.actions.rows, b.chainId = a.chainId → b.actionHash = a.actionHash →
      b = a := by
    intro b hb hchain hhash
    apply db.actions.eq_of_key_eq hb ha
    simp only [key, hchain, hhash]
  constructor
  · rintro (⟨r, hr, hchain, hhash, haddress⟩ | ⟨r, hr, hchain, hhash, haddress⟩)
    · obtain ⟨b, hb, hc, hh, _, hfrom⟩ := hagree.senders r hr
      obtain rfl := hunique b hb (hc.trans hchain) (hh.trans hhash)
      exact .inl (hfrom.trans haddress)
    · obtain ⟨b, hb, hc, hh, _, hpair⟩ := hagree.roles r hr
      obtain rfl := hunique b hb (hc.trans hchain) (hh.trans hhash)
      rw [haddress] at hpair
      exact .inr ⟨r.role, hpair⟩
  · rintro (hfrom | ⟨role, hpair⟩)
    · exact .inl ⟨senderRow a, hcomplete.senders a ha, rfl, rfl, hfrom⟩
    · exact .inr ⟨_, hcomplete.roles a ha _ (List.mem_map_of_mem hpair), rfl, rfl, rfl⟩

end

/-! ## Stores without a repeated identity -/

section

variable [Postgres] {extractors : String → AddressExtractor} {db db' : Database}

omit [Postgres] in
/-- Identities that are new and distinct are kept. -/
theorem keepsIdentities_of_fresh {extractor : AddressExtractor} {stored batch : List ActionsRow}
    (h : ((stored ++ batch).map key).Nodup) : KeepsIdentities extractor stored batch := by
  intro b hb a ha
  have hkey : key a = key b := by simpa using List.find?_some ha
  have hsame : a = b := List.inj_on_of_nodup_map h (List.mem_of_find?_eq_some ha)
    (List.mem_append_right stored hb) hkey
  rw [hsame]
  exact ⟨rfl, rfl, fun _ hp => hp⟩

/-- What is stored, followed by what is still offered. -/
def DistinctFrom (extractors : String → AddressExtractor) (db : Database)
    (ops : List WriteOp) : Prop :=
  (db.actions.rows.map key ++ ops.flatMap (offeredIdentities extractors)).Nodup

theorem DistinctFrom.step {op : WriteOp} {ops : List WriteOp}
    (h : DistinctFrom extractors db (op :: ops))
    (hstep : writeStep extractors db op = some db') :
    CommitsKeepIdentities extractors db op db' ∧ DistinctFrom extractors db' ops := by
  unfold DistinctFrom at h ⊢
  rw [List.flatMap_cons, ← List.append_assoc] at h
  cases op with
  | insert chainId blocks =>
      rw [offeredIdentities, ← List.map_append] at h
      obtain ⟨hnow, hlater, hapart⟩ := List.nodup_append.mp h
      refine ⟨keepsIdentities_of_fresh hnow, ?_⟩
      have hactions := (insertBlocks_indexes hstep).1
      refine List.nodup_append.mpr ⟨db'.actions.nodup, hlater, ?_⟩
      intro k hk
      apply hapart
      obtain ⟨a, ha, rfl⟩ := List.mem_map.mp hk
      rw [hactions] at ha
      exact List.mem_map_of_mem
        (List.mem_append.mpr (Table.mem_of_mem_insertMissing ha))
  | rollback chainId height =>
      cases hstep
      refine ⟨trivial, h.sublist ?_⟩
      rw [offeredIdentities, List.append_nil]
      exact (List.filter_sublist.map key).append (List.Sublist.refl _)

theorem DistinctFrom.always {ops : List WriteOp} (h : DistinctFrom extractors db ops) :
    Always (writeStep extractors) (CommitsKeepIdentities extractors) db ops := by
  induction ops generalizing db with
  | nil => trivial
  | cons op ops ih =>
      cases hstep : writeStep extractors db op with
      | none => exact everyStep_cons_of_none hstep
      | some db' =>
          obtain ⟨hkeeps, hrest⟩ := h.step hstep
          rw [Always, everyStep_cons_of_step hstep]
          exact ⟨hkeeps, ih hrest⟩

/-- On every store that was written with one extractor for a chain and whose identities were
all distinct, the live filter passes an action exactly when an index has the address for it. -/
theorem liveFilter_iff_hasIndexRow {ops : List WriteOp}
    (hdistinct : (ops.flatMap (offeredIdentities extractors)).Nodup)
    (hrun : exec (writeStep extractors) .empty ops = some db) :
    ∀ a ∈ db.actions.rows, ∀ (timestamp : Int) (address : String),
      actionMatchesAddress (extractors a.chainId) (a.dated timestamp) address = true ↔
        HasIndexRow db a address := by
  have hkeeps : Always (writeStep extractors) (CommitsKeepIdentities extractors)
      .empty ops := DistinctFrom.always hdistinct
  have halways := (address_indexes_agree extractors ops).mpr hkeeps
  have hcomplete := indexesComplete_reachable halways hrun
  have hagree : IndexesAgree extractors db := by
    apply always_invariant ?_ ?_ halways hrun
    · intro _ _ _ _ _ h
      exact h
    · constructor
      · intro r hr
        cases hr
      · intro r hr
        cases hr
  intro a ha timestamp address
  rw [actionMatchesAddress_iff, hasIndexRow_iff hagree hcomplete ha]

end

/-- Alice's history, filtered live. -/
theorem liveFilter_iff_hasIndexRow_alice :
    ∃ db, exec (@writeStep .plain fun _ => transferTo) .empty aliceOps = some db ∧
      ∀ a ∈ db.actions.rows, ∀ (timestamp : Int) (address : String),
        actionMatchesAddress transferTo (a.dated timestamp) address = true ↔
          HasIndexRow db a address := by
  have hsome : (exec (@writeStep .plain fun _ => transferTo) .empty aliceOps).isSome := by
    decide
  obtain ⟨db, hdb⟩ := Option.isSome_iff_exists.mp hsome
  exact ⟨db, hdb, @liveFilter_iff_hasIndexRow .plain (fun _ => transferTo) db aliceOps
    (by decide) hdb⟩

end Retracer
