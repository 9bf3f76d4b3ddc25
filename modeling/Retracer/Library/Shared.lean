import Retracer.Library.Table

/-! # Tables that several owners share

Each row belongs to somebody, and its key says to whom. `only` keeps the rows of one
owner. A statement about rows of one owner commutes with keeping them, and one about rows
of another owner does not show.
-/

namespace KeyedTable

class Owned (ρ : Type) (ω : outParam Type) where
  owner : ρ → ω

export Owned (owner)

/-- Rows at one key belong to one owner. -/
class OwnedByKey (ρ : Type) {κ ω : Type} [Keyed ρ κ] [Owned ρ ω] : Prop where
  owner_of_key : ∀ {r s : ρ}, key r = key s → owner r = owner s

export OwnedByKey (owner_of_key)

namespace Table

variable {ρ κ ω : Type} [Keyed ρ κ] [Owned ρ ω] [DecidableEq ω]

/-- The rows of one owner. -/
def only (t : Table ρ) (o : ω) : Table ρ := t.deleteWhere fun r => owner r ≠ o

theorem rows_only (t : Table ρ) (o : ω) : (t.only o).rows = t.rows.filter fun r => owner r = o := by
  rw [only, rows_deleteWhere]
  apply List.filter_congr
  intro r _
  simp

theorem mem_only {t : Table ρ} {o : ω} {r : ρ} :
    r ∈ (t.only o).rows ↔ r ∈ t.rows ∧ owner r = o := by
  simp [rows_only]

/-- A condition that only rows of the owner meet. -/
theorem filter_only {t : Table ρ} {o : ω} {p : ρ → Bool} (h : ∀ r, p r = true → owner r = o) :
    (t.only o).rows.filter p = t.rows.filter p := by
  rw [rows_only, List.filter_filter]
  apply List.filter_congr
  intro r _
  cases hp : p r with
  | false => rfl
  | true => simp [h r hp]

/-! ## Deletion and update in place -/

theorem only_deleteWhere (t : Table ρ) (p : ρ → Bool) (o : ω) :
    (t.deleteWhere p).only o = (t.only o).deleteWhere p := by
  ext1
  simp only [rows_only, rows_deleteWhere, List.filter_filter, Bool.and_comm]

theorem only_deleteWhere_other {t : Table ρ} {p : ρ → Bool} {o : ω}
    (h : ∀ r ∈ t.rows, owner r = o → p r = false) : (t.deleteWhere p).only o = t.only o := by
  rw [only_deleteWhere]
  apply deleteWhere_eq_self
  intro r hr
  obtain ⟨hin, ho⟩ := mem_only.mp hr
  exact h r hin ho

theorem only_modify {t : Table ρ} {f : ρ → ρ} (hf : ∀ r, key (f r) = key r) {o : ω}
    (howner : ∀ r, owner (f r) = owner r) : (t.modify f hf).only o = (t.only o).modify f hf := by
  ext1
  simp only [rows_only, rows_modify, List.filter_map, Function.comp_def, howner]

theorem only_modify_other {t : Table ρ} {f : ρ → ρ} (hf : ∀ r, key (f r) = key r) {o : ω}
    (howner : ∀ r, owner (f r) = owner r) (h : ∀ r ∈ t.rows, owner r = o → f r = r) :
    (t.modify f hf).only o = t.only o := by
  rw [only_modify hf howner]
  apply modify_eq_self hf
  intro r hr
  obtain ⟨hin, ho⟩ := mem_only.mp hr
  exact h r hin ho

variable [DecidableEq κ]

/-- Looking up a key of the owner. -/
theorem find?_only {t : Table ρ} {o : ω} {k : κ} (h : ∀ r : ρ, key r = k → owner r = o) :
    (t.only o).find? k = t.find? k := by
  cases hf : t.find? k with
  | none =>
      rw [find?_eq_none_iff] at hf ⊢
      exact fun s hs => hf s (mem_only.mp hs).1
  | some s =>
      rw [find?_eq_some_iff] at hf ⊢
      exact ⟨mem_only.mpr ⟨hf.1, h s hf.2⟩, hf.2⟩

/-! ## Insertion -/

/-- Rows of others are kept out. -/
theorem only_insertRow_other {t : Table ρ} {r : ρ} {o : ω} (h : owner r ≠ o) :
    (t.insertRow r).only o = t.only o := by
  by_cases hr : key r ∈ t.rows.map key
  · rw [insertRow_of_mem hr]
  · ext1
    rw [rows_only, rows_only, rows_insertRow_of_notMem hr, List.filter_append]
    simp [h]

theorem only_insertMissing_other {t : Table ρ} {rs : List ρ} {o : ω}
    (h : ∀ r ∈ rs, owner r ≠ o) : (t.insertMissing rs).only o = t.only o := by
  induction rs generalizing t with
  | nil => rfl
  | cons r rs ih =>
      rw [insertMissing_cons, ih fun s hs => h s (List.mem_cons_of_mem _ hs),
        only_insertRow_other (h r List.mem_cons_self)]

theorem only_upsert_other {t : Table ρ} {r : ρ} {f : ρ → ρ} (hf : ∀ s, key (f s) = key s) {o : ω}
    (howner : ∀ s, owner (f s) = owner s) (hkey : ∀ s ∈ t.rows, key s = key r → owner s ≠ o)
    (hr : owner r ≠ o) : (t.upsert r f hf).only o = t.only o := by
  unfold upsert
  split
  · apply only_modify_other
    · intro s
      split
      · exact howner s
      · rfl
    · intro s hs ho
      rw [if_neg fun hk => hkey s hs hk ho]
  · exact only_insertRow_other hr

section

variable [OwnedByKey ρ]

omit [DecidableEq κ] in
/-- The key of a row of the owner is taken by a row of the owner. -/
theorem mem_keys_only {t : Table ρ} {o : ω} {r : ρ} (h : owner r = o) :
    key r ∈ (t.only o).rows.map key ↔ key r ∈ t.rows.map key := by
  constructor
  · intro hmem
    obtain ⟨s, hs, hk⟩ := List.mem_map.mp hmem
    exact List.mem_map.mpr ⟨s, (mem_only.mp hs).1, hk⟩
  · intro hmem
    obtain ⟨s, hs, hk⟩ := List.mem_map.mp hmem
    exact List.mem_map.mpr ⟨s, mem_only.mpr ⟨hs, (owner_of_key hk).trans h⟩, hk⟩

theorem only_insertRow {t : Table ρ} {r : ρ} {o : ω} (h : owner r = o) :
    (t.insertRow r).only o = (t.only o).insertRow r := by
  by_cases hr : key r ∈ t.rows.map key
  · rw [insertRow_of_mem hr, insertRow_of_mem ((mem_keys_only h).mpr hr)]
  · ext1
    rw [rows_insertRow_of_notMem fun hin => hr ((mem_keys_only h).mp hin), rows_only, rows_only,
      rows_insertRow_of_notMem hr, List.filter_append]
    simp [h]

theorem only_insertMissing {t : Table ρ} {rs : List ρ} {o : ω} (h : ∀ r ∈ rs, owner r = o) :
    (t.insertMissing rs).only o = (t.only o).insertMissing rs := by
  induction rs generalizing t with
  | nil => rfl
  | cons r rs ih =>
      rw [insertMissing_cons, insertMissing_cons, ih fun s hs => h s (List.mem_cons_of_mem _ hs),
        only_insertRow (h r List.mem_cons_self)]

/-- The rows that are added are the same ones. -/
theorem inserted_only {t : Table ρ} {rs : List ρ} {o : ω} (h : ∀ r ∈ rs, owner r = o) :
    (t.only o).inserted rs = t.inserted rs := by
  have hall : (t.inserted rs).filter (fun r => owner r = o) = t.inserted rs := by
    apply List.filter_eq_self.mpr
    intro r hr
    simp [h r (mem_inserted hr).1]
  have hrows : ((t.insertMissing rs).only o).rows = ((t.only o).insertMissing rs).rows := by
    rw [only_insertMissing h]
  rw [rows_only, rows_insertMissing, rows_insertMissing, List.filter_append, hall, rows_only,
    List.append_cancel_left_eq] at hrows
  exact hrows.symm

theorem only_upsert {t : Table ρ} {r : ρ} {f : ρ → ρ} (hf : ∀ s, key (f s) = key s) {o : ω}
    (howner : ∀ s, owner (f s) = owner s) (h : owner r = o) :
    (t.upsert r f hf).only o = (t.only o).upsert r f hf := by
  unfold upsert
  by_cases hr : key r ∈ t.rows.map key
  · rw [if_pos hr, if_pos ((mem_keys_only h).mpr hr)]
    apply only_modify
    intro s
    split
    · exact howner s
    · rfl
  · rw [if_neg hr, if_neg fun hin => hr ((mem_keys_only h).mp hin)]
    exact only_insertRow h

end

end Table

end KeyedTable
