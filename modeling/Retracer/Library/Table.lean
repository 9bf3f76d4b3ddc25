import Mathlib.Data.List.Nodup

/-! # Tables with a primary key

A table is the list of its rows in insertion order together with the proof that
no two rows share a key. The operations are the SQL statements a single-writer
store needs: insert with `ON CONFLICT DO NOTHING`, insert with
`ON CONFLICT DO UPDATE`, delete by predicate and update in place. Each has one
lookup law, and the insert laws say which rows a statement really adds.
-/

namespace KeyedTable

class Keyed (ρ : Type) (κ : outParam Type) where
  key : ρ → κ

export Keyed (key)

structure Table (ρ : Type) {κ : Type} [Keyed ρ κ] where
  rows : List ρ
  nodup : (rows.map key).Nodup

namespace Table

variable {ρ κ : Type} [Keyed ρ κ]

@[ext] theorem ext {t u : Table ρ} (h : t.rows = u.rows) : t = u := by
  cases t
  cases u
  cases h
  rfl

def empty : Table ρ := ⟨[], List.nodup_nil⟩

theorem eq_of_key_eq (t : Table ρ) {r s : ρ} (hr : r ∈ t.rows) (hs : s ∈ t.rows)
    (h : key r = key s) : r = s :=
  List.inj_on_of_nodup_map t.nodup hr hs h

theorem nodup_rows (t : Table ρ) : t.rows.Nodup := t.nodup.of_map

/-- What tells apart the keys of the rows selected tells the rows apart. -/
theorem nodup_map_filter {τ : Type} (t : Table ρ) {p : ρ → Bool} {f : ρ → τ}
    (h : ∀ r s, p r = true → p s = true → f r = f s → r ∈ t.rows → s ∈ t.rows → key r = key s) :
    ((t.rows.filter p).map f).Nodup := by
  refine (t.nodup_rows.filter p).map_on fun r hr s hs hsame => ?_
  rw [List.mem_filter] at hr hs
  exact t.eq_of_key_eq hr.1 hs.1 (h r s hr.2 hs.2 hsame hr.1 hs.1)

/-- Tables with the same rows differ in the order of insertion only. -/
theorem perm_of_mem_iff {t u : Table ρ} (h : ∀ r, r ∈ t.rows ↔ r ∈ u.rows) :
    t.rows.Perm u.rows :=
  (List.perm_ext_iff_of_nodup t.nodup_rows u.nodup_rows).mpr h

/-! ## Deletion and update in place -/

/-- `DELETE ... WHERE p`. -/
def deleteWhere (t : Table ρ) (p : ρ → Bool) : Table ρ :=
  ⟨t.rows.filter (fun r => !p r), t.nodup.sublist (List.filter_sublist.map key)⟩

@[simp] theorem rows_deleteWhere (t : Table ρ) (p : ρ → Bool) :
    (t.deleteWhere p).rows = t.rows.filter (fun r => !p r) := rfl

theorem deleteWhere_eq_self {t : Table ρ} {p : ρ → Bool} (h : ∀ r ∈ t.rows, p r = false) :
    t.deleteWhere p = t := by
  ext1
  simpa [List.filter_eq_self] using h

theorem deleteWhere_congr {t : Table ρ} {p q : ρ → Bool} (h : ∀ r ∈ t.rows, p r = q r) :
    t.deleteWhere p = t.deleteWhere q := by
  ext1
  simp only [rows_deleteWhere]
  exact List.filter_congr fun r hr => by rw [h r hr]

/-- `UPDATE ... SET`, on columns outside the key. -/
def modify (t : Table ρ) (f : ρ → ρ) (hf : ∀ r, key (f r) = key r) : Table ρ :=
  ⟨t.rows.map f, by simpa [List.map_map, Function.comp_def, hf] using t.nodup⟩

@[simp] theorem rows_modify (t : Table ρ) (f : ρ → ρ) (hf : ∀ r, key (f r) = key r) :
    (t.modify f hf).rows = t.rows.map f := rfl

/-- Updates that change nothing. -/
theorem modify_eq_self {t : Table ρ} {f : ρ → ρ} (hf : ∀ s, key (f s) = key s)
    (h : ∀ r ∈ t.rows, f r = r) : t.modify f hf = t := by
  ext1
  conv_rhs => rw [← List.map_id t.rows]
  exact List.map_congr_left h

variable [DecidableEq κ]

/-! ## Lookup -/

def find? (t : Table ρ) (k : κ) : Option ρ := t.rows.find? (fun r => decide (key r = k))

theorem find?_eq_some_iff {t : Table ρ} {k : κ} {r : ρ} :
    t.find? k = some r ↔ r ∈ t.rows ∧ key r = k := by
  constructor
  · intro h
    exact ⟨List.mem_of_find?_eq_some h, by simpa using List.find?_some h⟩
  · rintro ⟨hr, hk⟩
    cases hf : t.find? k with
    | none => exact absurd hk (by simpa using List.find?_eq_none.mp hf r hr)
    | some s =>
        have hs : s ∈ t.rows := List.mem_of_find?_eq_some hf
        have hks : key s = k := by simpa using List.find?_some hf
        rw [t.eq_of_key_eq hs hr (hks.trans hk.symm)]

theorem find?_eq_none_iff {t : Table ρ} {k : κ} :
    t.find? k = none ↔ ∀ r ∈ t.rows, key r ≠ k := by
  simp [find?]

theorem find?_deleteWhere (t : Table ρ) (p : ρ → Bool) (k : κ) :
    (t.deleteWhere p).find? k = (t.find? k).filter (fun r => !p r) := by
  cases hf : t.find? k with
  | none =>
      rw [find?_eq_none_iff] at hf
      exact find?_eq_none_iff.mpr fun r hr => hf r (List.mem_of_mem_filter hr)
  | some r =>
      obtain ⟨hr, hk⟩ := find?_eq_some_iff.mp hf
      by_cases hp : p r = true
      · simp only [Option.filter_some, hp, Bool.not_true, Bool.false_eq_true, if_false]
        refine find?_eq_none_iff.mpr fun s hs hks => ?_
        obtain ⟨hmem, hkeep⟩ := List.mem_filter.mp hs
        rw [t.eq_of_key_eq hmem hr (hks.trans hk.symm), hp] at hkeep
        exact absurd hkeep (by decide)
      · simp only [Bool.not_eq_true] at hp
        simp only [Option.filter_some, hp, Bool.not_false, if_true]
        exact find?_eq_some_iff.mpr ⟨List.mem_filter.mpr ⟨hr, by simp [hp]⟩, hk⟩

theorem find?_modify (t : Table ρ) (f : ρ → ρ) (hf : ∀ r, key (f r) = key r) (k : κ) :
    (t.modify f hf).find? k = (t.find? k).map f := by
  have hsame : (fun r => decide (key r = k)) ∘ f = fun r => decide (key r = k) := by
    funext r
    rw [Function.comp_apply, hf]
  rw [find?, modify, List.find?_map, hsame]
  rfl

/-! ## Insertion -/

/-- `INSERT ... ON CONFLICT (key) DO NOTHING` of one row. -/
def insertRow (t : Table ρ) (r : ρ) : Table ρ :=
  if h : key r ∈ t.rows.map key then t
  else ⟨t.rows ++ [r], by
    rw [List.map_append, List.map_singleton]
    exact List.nodup_append.mpr ⟨t.nodup, List.nodup_singleton _, by
      intro a ha b hb
      rw [List.mem_singleton] at hb
      exact fun hab => h (hb ▸ hab ▸ ha)⟩⟩

theorem insertRow_of_mem {t : Table ρ} {r : ρ} (h : key r ∈ t.rows.map key) :
    t.insertRow r = t := by
  simp [insertRow, h]

theorem rows_insertRow_of_notMem {t : Table ρ} {r : ρ} (h : key r ∉ t.rows.map key) :
    (t.insertRow r).rows = t.rows ++ [r] := by
  simp [insertRow, h]

theorem find?_insertRow (t : Table ρ) (r : ρ) (k : κ) :
    (t.insertRow r).find? k = (t.find? k).or (if key r = k then some r else none) := by
  by_cases h : key r ∈ t.rows.map key
  · rw [insertRow_of_mem h]
    by_cases hk : key r = k
    · subst hk
      obtain ⟨s, hs, hks⟩ := List.mem_map.mp h
      simp [find?_eq_some_iff.mpr ⟨hs, hks⟩]
    · simp [hk]
  · simp only [find?, rows_insertRow_of_notMem h, List.find?_append, List.find?_singleton,
      decide_eq_true_eq]

/-- Updates that leave the new row as it is. -/
theorem modify_insertRow {t : Table ρ} {r : ρ} {f : ρ → ρ} (hf : ∀ s, key (f s) = key s)
    (hr : f r = r) : (t.insertRow r).modify f hf = (t.modify f hf).insertRow r := by
  have hkeys : (t.modify f hf).rows.map key = t.rows.map key := by
    simp [List.map_map, Function.comp_def, hf]
  ext1
  by_cases h : key r ∈ t.rows.map key
  · rw [insertRow_of_mem h, insertRow_of_mem (hkeys ▸ h)]
  · rw [rows_insertRow_of_notMem (hkeys ▸ h), rows_modify, rows_modify,
      rows_insertRow_of_notMem h, List.map_append, List.map_singleton, hr]

/-- The multi-row form: rows are taken in order, so the first of two rows with
one key wins. -/
def insertMissing (t : Table ρ) (rs : List ρ) : Table ρ := rs.foldl insertRow t

@[simp] theorem insertMissing_nil (t : Table ρ) : t.insertMissing [] = t := rfl

@[simp] theorem insertMissing_cons (t : Table ρ) (r : ρ) (rs : List ρ) :
    t.insertMissing (r :: rs) = (t.insertRow r).insertMissing rs := rfl

theorem insertMissing_append (t : Table ρ) (rs ss : List ρ) :
    t.insertMissing (rs ++ ss) = (t.insertMissing rs).insertMissing ss :=
  List.foldl_append

theorem find?_insertMissing (t : Table ρ) (rs : List ρ) (k : κ) :
    (t.insertMissing rs).find? k = (t.find? k).or (rs.find? (fun r => decide (key r = k))) := by
  induction rs generalizing t with
  | nil => simp
  | cons r rs ih =>
      rw [insertMissing_cons, ih, find?_insertRow, Option.or_assoc, List.find?_cons]
      by_cases hk : key r = k <;> simp [hk]

/-- The rows a multi-row insert really adds; the ones a row-level trigger sees. -/
def inserted (t : Table ρ) (rs : List ρ) : List ρ :=
  (t.insertMissing rs).rows.drop t.rows.length

theorem insertRow_extends (t : Table ρ) (r : ρ) : t.rows <+: (t.insertRow r).rows := by
  by_cases h : key r ∈ t.rows.map key
  · simp [insertRow_of_mem h]
  · rw [rows_insertRow_of_notMem h]
    exact List.prefix_append _ _

theorem insertMissing_extends (t : Table ρ) (rs : List ρ) :
    t.rows <+: (t.insertMissing rs).rows := by
  induction rs generalizing t with
  | nil => exact List.prefix_refl _
  | cons r rs ih => exact (insertRow_extends t r).trans (ih (t.insertRow r))

theorem rows_insertMissing (t : Table ρ) (rs : List ρ) :
    (t.insertMissing rs).rows = t.rows ++ t.inserted rs := by
  obtain ⟨suffix, hs⟩ := insertMissing_extends t rs
  rw [inserted, ← hs, List.drop_left]

theorem mem_of_mem_insertMissing {t : Table ρ} {rs : List ρ} {r : ρ}
    (h : r ∈ (t.insertMissing rs).rows) : r ∈ t.rows ∨ r ∈ rs := by
  induction rs generalizing t with
  | nil => exact Or.inl h
  | cons s rs ih =>
      rcases ih h with hrow | hrest
      · by_cases hs : key s ∈ t.rows.map key
        · rw [insertRow_of_mem hs] at hrow
          exact Or.inl hrow
        · rw [rows_insertRow_of_notMem hs, List.mem_append, List.mem_singleton] at hrow
          rcases hrow with hold | rfl
          · exact Or.inl hold
          · exact Or.inr List.mem_cons_self
      · exact Or.inr (List.mem_cons_of_mem _ hrest)

/-- An inserted row comes from the statement and its key was free. -/
theorem mem_inserted {t : Table ρ} {rs : List ρ} {r : ρ} (h : r ∈ t.inserted rs) :
    r ∈ rs ∧ key r ∉ t.rows.map key := by
  have hnew : key r ∉ t.rows.map key := by
    intro hk
    have hnd := (t.insertMissing rs).nodup
    rw [rows_insertMissing, List.map_append, List.nodup_append] at hnd
    exact hnd.2.2 _ hk _ (List.mem_map_of_mem h) rfl
  have hmem : r ∈ (t.insertMissing rs).rows := by
    rw [rows_insertMissing]
    exact List.mem_append_right _ h
  refine ⟨(mem_of_mem_insertMissing hmem).resolve_left ?_, hnew⟩
  exact fun hr => hnew (List.mem_map_of_mem hr)

/-! ## Redelivery and deletion of a stamped statement -/

/-- Every key the statement would write is already taken. -/
def Holds (t : Table ρ) (rs : List ρ) : Prop := ∀ r ∈ rs, key r ∈ t.rows.map key

theorem insertMissing_of_holds {t : Table ρ} {rs : List ρ} (h : t.Holds rs) :
    t.insertMissing rs = t := by
  induction rs with
  | nil => rfl
  | cons r rs ih =>
      rw [insertMissing_cons, insertRow_of_mem (h r List.mem_cons_self)]
      exact ih fun s hs => h s (List.mem_cons_of_mem _ hs)

theorem inserted_of_holds {t : Table ρ} {rs : List ρ} (h : t.Holds rs) : t.inserted rs = [] := by
  rw [inserted, insertMissing_of_holds h, List.drop_length]

omit [DecidableEq κ] in
theorem holds_of_prefix {t u : Table ρ} {rs : List ρ} (h : t.Holds rs) (hp : t.rows <+: u.rows) :
    u.Holds rs := by
  intro r hr
  obtain ⟨s, hs, hk⟩ := List.mem_map.mp (h r hr)
  exact List.mem_map.mpr ⟨s, hp.subset hs, hk⟩

theorem holds_insertMissing (t : Table ρ) (rs : List ρ) : (t.insertMissing rs).Holds rs := by
  intro r hr
  have hf : ((t.insertMissing rs).find? (key r)).isSome := by
    rw [find?_insertMissing, Option.isSome_or]
    have : (rs.find? (fun s => decide (key s = key r))).isSome :=
      List.find?_isSome.mpr ⟨r, hr, by simp⟩
    simp [this]
  obtain ⟨s, hs⟩ := Option.isSome_iff_exists.mp hf
  obtain ⟨hmem, hk⟩ := find?_eq_some_iff.mp hs
  exact List.mem_map.mpr ⟨s, hmem, hk⟩

/-- A statement all of whose keys are new adds all its rows. -/
theorem rows_insertMissing_of_fresh {t : Table ρ} {rs : List ρ} (hrs : (rs.map key).Nodup)
    (hfresh : ∀ r ∈ rs, key r ∉ t.rows.map key) : (t.insertMissing rs).rows = t.rows ++ rs := by
  induction rs generalizing t with
  | nil => simp
  | cons r rs ih =>
      obtain ⟨hr, hrest⟩ := List.nodup_cons.mp hrs
      have hrow : (t.insertRow r).rows = t.rows ++ [r] :=
        rows_insertRow_of_notMem (hfresh r List.mem_cons_self)
      rw [insertMissing_cons, ih hrest, hrow, List.append_assoc]
      · rfl
      · intro s hs hmem
        rw [hrow, List.map_append, List.map_singleton, List.mem_append, List.mem_singleton] at hmem
        rcases hmem with hold | hnew
        · exact hfresh s (List.mem_cons_of_mem _ hs) hold
        · exact hr (hnew ▸ List.mem_map_of_mem hs)

/-- Where no two rows of the statement share a key, a row is added exactly when its key
is new. A row may come twice. -/
theorem mem_insertMissing_iff {t : Table ρ} {rs : List ρ} {r : ρ}
    (hone : ∀ a ∈ rs, ∀ b ∈ rs, key a = key b → a = b) :
    r ∈ (t.insertMissing rs).rows ↔ r ∈ t.rows ∨ r ∈ rs ∧ key r ∉ t.rows.map key := by
  constructor
  · intro h
    rw [rows_insertMissing, List.mem_append] at h
    exact h.imp_right mem_inserted
  · rintro (hold | ⟨hr, hnew⟩)
    · rw [rows_insertMissing]
      exact List.mem_append_left _ hold
    · obtain ⟨s, hs, hkey⟩ := List.mem_map.mp (t.holds_insertMissing rs r hr)
      rw [rows_insertMissing, List.mem_append] at hs
      rcases hs with hold | hadded
      · exact absurd (hkey ▸ List.mem_map_of_mem hold) hnew
      · have hsame := hone s (mem_inserted hadded).1 r hr hkey
        rw [rows_insertMissing, ← hsame]
        exact List.mem_append_right _ hadded

/-- Deleting by a stamp that every row of the statement carries undoes it. -/
theorem deleteWhere_insertMissing {t : Table ρ} {rs : List ρ} {p : ρ → Bool}
    (h : ∀ r ∈ rs, p r = true) : (t.insertMissing rs).deleteWhere p = t.deleteWhere p := by
  ext1
  have hnone : (t.inserted rs).filter (fun r => !p r) = [] := by
    rw [List.filter_eq_nil_iff]
    intro r hr
    simp [h r (mem_inserted hr).1]
  simp [rows_insertMissing, hnone]

/-! ## Upsert -/

/-- `INSERT ... ON CONFLICT (key) DO UPDATE`: `f` rewrites the row that is there. -/
def upsert (t : Table ρ) (r : ρ) (f : ρ → ρ) (hf : ∀ s, key (f s) = key s) : Table ρ :=
  if key r ∈ t.rows.map key then
    t.modify (fun s => if key s = key r then f s else s) (by intro s; split <;> simp [hf])
  else t.insertRow r

theorem find?_upsert (t : Table ρ) (r : ρ) (f : ρ → ρ) (hf : ∀ s, key (f s) = key s) (k : κ) :
    (t.upsert r f hf).find? k =
      if k = key r then some ((t.find? k).elim r f) else t.find? k := by
  by_cases h : key r ∈ t.rows.map key
  · rw [upsert, if_pos h, find?_modify]
    obtain ⟨s, hs, hks⟩ := List.mem_map.mp h
    by_cases hk : k = key r
    · subst hk
      have hfind : t.find? (key r) = some s := find?_eq_some_iff.mpr ⟨hs, hks⟩
      simp [hfind, hks]
    · rw [if_neg hk]
      cases hfind : t.find? k with
      | none => rfl
      | some u =>
          have hu : key u ≠ key r := fun hku => hk ((find?_eq_some_iff.mp hfind).2 ▸ hku)
          simp [hu]
  · rw [upsert, if_neg h, find?_insertRow]
    by_cases hk : k = key r
    · subst hk
      have hnone : t.find? (key r) = none := find?_eq_none_iff.mpr fun s hs hks =>
        h (List.mem_map.mpr ⟨s, hs, hks⟩)
      simp [hnone]
    · simp [hk, Ne.symm hk]

theorem upsert_of_mem {t : Table ρ} {r : ρ} {f : ρ → ρ} (hf : ∀ s, key (f s) = key s)
    (h : key r ∈ t.rows.map key) :
    (t.upsert r f hf).rows = t.rows.map fun s => if key s = key r then f s else s := by
  rw [upsert, if_pos h, rows_modify]

theorem upsert_of_notMem {t : Table ρ} {r : ρ} {f : ρ → ρ} (hf : ∀ s, key (f s) = key s)
    (h : key r ∉ t.rows.map key) : (t.upsert r f hf).rows = t.rows ++ [r] := by
  rw [upsert, if_neg h, rows_insertRow_of_notMem h]

/-- Writing what is there. -/
theorem upsert_eq_self {t : Table ρ} {r s : ρ} {f : ρ → ρ} (hf : ∀ s, key (f s) = key s)
    (h : t.find? (key r) = some s) (hfs : f s = s) : t.upsert r f hf = t := by
  obtain ⟨hs, hk⟩ := find?_eq_some_iff.mp h
  ext1
  rw [upsert_of_mem hf (List.mem_map.mpr ⟨s, hs, hk⟩)]
  conv_rhs => rw [← List.map_id t.rows]
  apply List.map_congr_left
  intro u hu
  by_cases hku : key u = key r
  · rw [if_pos hku, t.eq_of_key_eq hu hs (hku.trans hk.symm), hfs]
    rfl
  · rw [if_neg hku]
    rfl

/-- Deleting the row written. -/
theorem deleteWhere_upsert {t : Table ρ} {r : ρ} {f : ρ → ρ} (hf : ∀ s, key (f s) = key s)
    {p : ρ → Bool} (hp : ∀ s, key s = key r → p s = true) :
    (t.upsert r f hf).deleteWhere p = t.deleteWhere p := by
  ext1
  rw [rows_deleteWhere, rows_deleteWhere]
  by_cases h : key r ∈ t.rows.map key
  · rw [upsert_of_mem hf h]
    induction t.rows with
    | nil => rfl
    | cons u rest ih =>
        rw [List.map_cons, List.filter_cons, List.filter_cons, ih]
        by_cases hku : key u = key r
        · rw [if_pos hku, hp u hku, hp (f u) ((hf u).trans hku)]
          rfl
        · rw [if_neg hku]
  · rw [upsert_of_notMem hf h, List.filter_append]
    simp [hp r rfl]

/-- One row has the key, and the others are as before. -/
theorem length_upsert (t : Table ρ) (r : ρ) (f : ρ → ρ) (hf : ∀ s, key (f s) = key s) :
    (t.upsert r f hf).rows.length =
      (t.deleteWhere fun s => decide (key s = key r)).rows.length + 1 := by
  have hthere : key r ∈ (t.upsert r f hf).rows.map key := by
    have hfind := find?_upsert t r f hf (key r)
    rw [if_pos rfl] at hfind
    obtain ⟨hmem, hkey⟩ := find?_eq_some_iff.mp hfind
    exact List.mem_map.mpr ⟨_, hmem, hkey⟩
  have hone : (t.upsert r f hf).rows.countP (fun s => decide (key s = key r)) = 1 := by
    have hcount := List.count_eq_one_of_mem (t.upsert r f hf).nodup hthere
    rw [List.count, List.countP_map] at hcount
    simpa only [Function.comp_def, beq_eq_decide] using hcount
  have hothers : (t.upsert r f hf).deleteWhere (fun s => decide (key s = key r)) =
      t.deleteWhere fun s => decide (key s = key r) :=
    deleteWhere_upsert hf fun s hs => decide_eq_true hs
  rw [← hothers, rows_deleteWhere, ← List.countP_eq_length_filter,
    List.length_eq_countP_add_countP (fun s => decide (key s = key r)), hone, Nat.add_comm]
  simp only [Bool.not_eq_true, Bool.decide_eq_false]

/-- The second of two writes to one key wins. -/
theorem upsert_upsert {t : Table ρ} {r r' : ρ} {f g : ρ → ρ} (hf : ∀ s, key (f s) = key s)
    (hg : ∀ s, key (g s) = key s) (hkey : key r' = key r)
    (hgf : ∀ s, key s = key r → g (f s) = g s) (hgr : g r = r') :
    (t.upsert r f hf).upsert r' g hg = t.upsert r' g hg := by
  ext1
  by_cases h : key r ∈ t.rows.map key
  · have hkeys : (t.rows.map fun s => if key s = key r then f s else s).map key =
        t.rows.map key := by
      rw [List.map_map]
      apply List.map_congr_left
      intro s _
      by_cases hks : key s = key r <;> simp [hks, hf]
    have hthere : key r' ∈ (t.upsert r f hf).rows.map key := by
      rw [upsert_of_mem hf h, hkeys, hkey]
      exact h
    have hold : key r' ∈ t.rows.map key := by
      rw [hkey]
      exact h
    rw [upsert_of_mem hg hthere, upsert_of_mem hf h, upsert_of_mem hg hold, List.map_map]
    apply List.map_congr_left
    intro s _
    by_cases hks : key s = key r
    · simp [hks, hkey, hf, hgf s hks]
    · simp [hks, hkey]
  · have hnew : key r' ∈ (t.upsert r f hf).rows.map key := by
      rw [upsert_of_notMem hf h]
      simp [hkey]
    rw [upsert_of_mem hg hnew, upsert_of_notMem hf h, upsert_of_notMem hg (hkey ▸ h),
      List.map_append, List.map_singleton, if_pos hkey.symm, hgr]
    congr 1
    conv_rhs => rw [← List.map_id t.rows]
    apply List.map_congr_left
    intro s hs
    rw [if_neg fun hks => h (List.mem_map.mpr ⟨s, hs, hks.trans hkey⟩)]
    rfl

end Table

end KeyedTable
