import Mathlib.Data.List.Induction
import Retracer.Library.Sorting
import Retracer.Library.Table

/-! # The first row of each key

In ascending order the first row of a kind is the least. A multi-row insert that skips conflicts
skips those within the statement too. Where all its keys are new it therefore adds the first row
of each key, in order.
-/

namespace KeyedTable

open Sorting

/-- The first row of an ascending list that has a property is below the others that do. -/
theorem le_of_find? {β : Type} {version : β → Int} {items : List β} {p : β → Bool} {a b : β}
    (hasc : items.Pairwise fun a b => version a ≤ version b) (hfind : items.find? p = some a)
    (hb : b ∈ items) (hp : p b = true) : version a ≤ version b := by
  obtain ⟨_, before, after, rfl, hbefore⟩ := List.find?_eq_some_iff_append.mp hfind
  rcases List.mem_append.mp hb with hb | hb
  · have hnot := hbefore b hb
    rw [hp] at hnot
    cases hnot
  · rcases List.mem_cons.mp hb with rfl | hb
    · exact Int.le_refl _
    · have hrest := (List.pairwise_append.mp hasc).2.1
      exact (List.pairwise_cons.mp hrest).1 b hb

section

variable {α κ : Type} [DecidableEq κ] {f : α → κ} {l : List α}

theorem distinctOn_concat (a : α) :
    distinctOn f (l ++ [a]) = distinctOn f l ++ if f a ∈ l.map f then [] else [a] := by
  induction l with
  | nil => rfl
  | cons b l ih =>
      rw [List.cons_append, distinctOn, ih, List.filter_append, distinctOn, List.cons_append,
        List.map_cons]
      by_cases hb : f a = f b
      · rw [if_pos (List.mem_cons.mpr (Or.inl hb))]
        by_cases ha : f a ∈ l.map f
        · rw [if_pos ha, List.filter_nil]
        · rw [if_neg ha]
          simp [hb]
      · by_cases ha : f a ∈ l.map f
        · rw [if_pos ha, if_pos (List.mem_cons_of_mem _ ha), List.filter_nil]
        · rw [if_neg ha, if_neg (List.not_mem_cons_of_ne_of_not_mem hb ha)]
          simp [hb]

/-- Of the later items those are left that the earlier ones do not hide. -/
theorem distinctOn_append {l' : List α} :
    distinctOn f (l ++ l') = distinctOn f l ++ (distinctOn f l').filter fun a => f a ∉ l.map f := by
  induction l with
  | nil => simp [distinctOn]
  | cons b l ih =>
      rw [List.cons_append, distinctOn, distinctOn, ih, List.filter_append, List.cons_append,
        List.filter_filter]
      congr 2
      apply List.filter_congr
      intro a _
      simp [List.mem_cons, not_or]

theorem mem_map_distinctOn {k : κ} : k ∈ (distinctOn f l).map f ↔ k ∈ l.map f := by
  simp only [List.mem_map, mem_distinctOn]
  constructor
  · rintro ⟨a, ha, hk⟩
    exact ⟨a, List.mem_of_find?_eq_some ha, hk⟩
  · rintro ⟨b, hb, rfl⟩
    have hsome : (l.find? fun c => decide (f c = f b)).isSome :=
      List.find?_isSome.mpr ⟨b, hb, decide_eq_true rfl⟩
    obtain ⟨a, ha⟩ := Option.isSome_iff_exists.mp hsome
    have hk : f a = f b := by simpa using List.find?_some ha
    exact ⟨a, hk ▸ ha, hk⟩

/-- Of one key the first row is left, if there is one. -/
theorem filter_distinctOn (k : κ) :
    ((distinctOn f l).filter fun a => f a = k) = (l.find? fun a => f a = k).toList := by
  induction l using List.reverseRecOn with
  | nil => rfl
  | append_singleton l a ih =>
      rw [distinctOn_concat, List.filter_append, ih, List.find?_append]
      by_cases hk : f a = k
      · subst hk
        by_cases ha : f a ∈ l.map f
        · obtain ⟨b, hb, hfb⟩ := List.mem_map.mp ha
          have hsome : (l.find? fun b => decide (f b = f a)).isSome :=
            List.find?_isSome.mpr ⟨b, hb, decide_eq_true hfb⟩
          obtain ⟨c, hc⟩ := Option.isSome_iff_exists.mp hsome
          simp [ha, hc]
        · have hnone : (l.find? fun b => decide (f b = f a)) = none := by
            rw [List.find?_eq_none]
            intro b hb hfb
            exact ha (List.mem_map.mpr ⟨b, hb, of_decide_eq_true hfb⟩)
          simp [ha, hnone]
      · have hrest : ((if f a ∈ l.map f then [] else [a]).filter fun b => decide (f b = k)) =
            [] := by
          split <;> simp [hk]
        rw [hrest]
        simp [hk]

theorem distinctOn_sublist : (distinctOn f l).Sublist l := by
  induction l with
  | nil => exact List.Sublist.refl _
  | cons a l ih => exact (List.filter_sublist.trans ih).cons_cons a

theorem distinctOn_map {β : Type} {g : β → α} {bs : List β} :
    distinctOn f (bs.map g) = (distinctOn (fun b => f (g b)) bs).map g := by
  induction bs with
  | nil => rfl
  | cons b bs ih =>
      rw [List.map_cons, distinctOn, distinctOn, List.map_cons, ih, List.filter_map]
      rfl

/-- Keys that agree on the same rows keep the same ones. -/
theorem distinctOn_congr {κ' : Type} [DecidableEq κ'] {g : α → κ'}
    (h : ∀ a ∈ l, ∀ b ∈ l, f a = f b ↔ g a = g b) : distinctOn f l = distinctOn g l := by
  induction l with
  | nil => rfl
  | cons a l ih =>
      have hrest := ih fun b hb c hc =>
        h b (List.mem_cons_of_mem _ hb) c (List.mem_cons_of_mem _ hc)
      rw [distinctOn, distinctOn, hrest]
      congr 1
      apply List.filter_congr
      intro b hb
      have hiff := h b (List.mem_cons_of_mem _ (distinctOn_sublist.subset hb)) a
        List.mem_cons_self
      simp [hiff]

end

variable {ρ κ : Type} [Keyed ρ κ] [DecidableEq κ]

/-- A statement none of whose keys is taken. -/
theorem Table.rows_insertMissing_firsts {t : Table ρ} {rs : List ρ}
    (hnew : ∀ r ∈ rs, key r ∉ t.rows.map key) :
    (t.insertMissing rs).rows = t.rows ++ distinctOn key rs := by
  induction rs using List.reverseRecOn with
  | nil => simp [distinctOn]
  | append_singleton rs r ih =>
      have hrows := ih fun s hs => hnew s (List.mem_append_left _ hs)
      have hfree := hnew r (List.mem_append_right _ (List.mem_singleton_self r))
      have htaken : key r ∈ (t.insertMissing rs).rows.map key ↔ key r ∈ rs.map key := by
        rw [hrows, List.map_append, List.mem_append, mem_map_distinctOn]
        exact or_iff_right hfree
      rw [Table.insertMissing_append, Table.insertMissing_cons, Table.insertMissing_nil,
        distinctOn_concat]
      by_cases hk : key r ∈ rs.map key
      · rw [Table.insertRow_of_mem (htaken.mpr hk), hrows, if_pos hk, List.append_nil]
      · rw [Table.rows_insertRow_of_notMem fun hmem => hk (htaken.mp hmem), hrows, if_neg hk,
          List.append_assoc]

/-- Rows that come in ascending order leave the least of each key in an empty table. -/
theorem Table.first_of_key {rows : List ρ} {r : ρ} (version : ρ → Int)
    (hasc : rows.Pairwise fun a b => version a ≤ version b) (hr : r ∈ rows) :
    ∃ s ∈ (Table.empty.insertMissing rows).rows, key s = key r ∧ version s ≤ version r := by
  have hsome : (rows.find? fun s => decide (key s = key r)).isSome :=
    List.find?_isSome.mpr ⟨r, hr, decide_eq_true rfl⟩
  obtain ⟨s, hs⟩ := Option.isSome_iff_exists.mp hsome
  have hfind : (Table.empty.insertMissing rows).find? (key r) = some s := by
    rw [Table.find?_insertMissing]
    exact hs
  obtain ⟨hmem, hkey⟩ := Table.find?_eq_some_iff.mp hfind
  exact ⟨s, hmem, hkey, le_of_find? hasc hs hr (decide_eq_true rfl)⟩

end KeyedTable
