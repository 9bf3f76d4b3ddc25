import Mathlib.Algebra.BigOperators.Group.Finset.Piecewise
import Mathlib.Algebra.GroupWithZero.Nat
import Mathlib.Data.List.Dedup
import Retracer.Library.Firsts

/-! # GROUP BY

A grouped query has one row for each key among the rows it selects, computed from the rows
of that key. The groups share out the rows: what is added up over each group adds up to what
it is over all rows.
-/

namespace Grouping

open KeyedTable

variable {ρ κ σ : Type} [DecidableEq κ]

/-- The rows of one key. -/
def group (f : ρ → κ) (rows : List ρ) (k : κ) : List ρ := rows.filter fun r => f r = k

/-- `SELECT out ... GROUP BY f`, in no order that a query may rely on. -/
def groupBy (f : ρ → κ) (out : κ → List ρ → σ) (rows : List ρ) : List σ :=
  (rows.map f).dedup.map fun k => out k (group f rows k)

variable {f : ρ → κ} {out : κ → List ρ → σ} {rows : List ρ} {k : κ}

theorem mem_group {r : ρ} : r ∈ group f rows k ↔ r ∈ rows ∧ f r = k := by
  simp [group]

theorem group_ne_nil (h : k ∈ rows.map f) : group f rows k ≠ [] := by
  obtain ⟨r, hr, hk⟩ := List.mem_map.mp h
  exact List.ne_nil_of_mem (mem_group.mpr ⟨hr, hk⟩)

theorem mem_groupBy {x : σ} :
    x ∈ groupBy f out rows ↔ ∃ k ∈ rows.map f, out k (group f rows k) = x := by
  simp [groupBy]

/-- The key of a row of the result tells the row apart. -/
theorem nodup_groupBy {name : σ → κ} (h : ∀ k g, name (out k g) = k) :
    ((groupBy f out rows).map name).Nodup := by
  have hnames : (groupBy f out rows).map name = (rows.map f).dedup := by
    rw [groupBy, List.map_map]
    simp only [Function.comp_def, h, List.map_id']
  rw [hnames]
  exact List.nodup_dedup _

theorem group_eq_nil_iff : group f rows k = [] ↔ k ∉ rows.map f := by
  constructor
  · exact fun hnil hk => group_ne_nil hk hnil
  · intro hk
    rw [group, List.filter_eq_nil_iff]
    exact fun r hr hrk => hk (List.mem_map.mpr ⟨r, hr, of_decide_eq_true hrk⟩)

/-- Rows may be selected before or after they are grouped. -/
theorem filter_group (p : ρ → Bool) : (group f rows k).filter p = group f (rows.filter p) k := by
  simp only [group, List.filter_filter, Bool.and_comm]

/-- The row of a key. -/
theorem find?_groupBy {name : σ → κ} (h : ∀ k g, name (out k g) = k) :
    (groupBy f out rows).find? (fun x => name x = k) =
      if k ∈ rows.map f then some (out k (group f rows k)) else none := by
  have hkeys : (rows.map f).dedup.find? (fun k' => decide (k' = k)) =
      if k ∈ rows.map f then some k else none := by
    split
    · next hk =>
        cases hfind : (rows.map f).dedup.find? (fun k' => decide (k' = k)) with
        | none =>
            have hno := List.find?_eq_none.mp hfind k (List.mem_dedup.mpr hk)
            exact absurd (decide_eq_true rfl) hno
        | some k' =>
            have hsame := List.find?_some hfind
            rw [of_decide_eq_true hsame]
    · next hk =>
        rw [List.find?_eq_none]
        intro k' hk' hsame
        rw [of_decide_eq_true hsame] at hk'
        exact hk (List.mem_dedup.mp hk')
  rw [groupBy, List.find?_map]
  simp only [Function.comp_def, h]
  rw [hkeys]
  split <;> rfl

section

variable {κ' : Type} [DecidableEq κ'] {g : ρ → κ'} {k' : κ'}

/-- Groups within a group. -/
theorem group_prod :
    group (fun r => (f r, g r)) rows (k, k') = group g (group f rows k) k' := by
  rw [group, group, group, List.filter_filter]
  apply List.filter_congr
  intro r _
  rw [Bool.eq_iff_iff]
  simp [and_comm]

theorem mem_map_prod :
    (k, k') ∈ rows.map (fun r => (f r, g r)) ↔ k' ∈ (group f rows k).map g := by
  rw [← not_iff_not, ← group_eq_nil_iff, ← group_eq_nil_iff, group_prod]

end

/-! ## Sums -/

section

variable {M : Type} [AddCommMonoid M] {w : ρ → M}

/-- Over keys that cover the rows without repetition. -/
theorem sum_groups {keys : List κ} (hnodup : keys.Nodup) (hcover : ∀ r ∈ rows, f r ∈ keys) :
    (keys.map fun k => ((group f rows k).map w).sum).sum = (rows.map w).sum := by
  rw [← List.sum_toFinset _ hnodup]
  induction rows with
  | nil => simp [group]
  | cons r rows ih =>
      have hcons : ∀ k, ((group f (r :: rows) k).map w).sum =
          (if f r = k then w r else 0) + ((group f rows k).map w).sum := by
        intro k
        by_cases hk : f r = k <;> simp [group, hk]
      have hr : f r ∈ keys.toFinset := List.mem_toFinset.mpr (hcover r List.mem_cons_self)
      simp only [hcons]
      rw [Finset.sum_add_distrib, ih fun s hs => hcover s (List.mem_cons_of_mem _ hs),
        Finset.sum_ite_eq, if_pos hr, List.map_cons, List.sum_cons]

/-- A sum of the result is the sum over all rows. -/
theorem sum_groupBy {total : σ → M} (h : ∀ k, total (out k (group f rows k)) =
    ((group f rows k).map w).sum) :
    ((groupBy f out rows).map total).sum = (rows.map w).sum := by
  have hgroups := sum_groups (w := w) (List.nodup_dedup (rows.map f))
    fun r hr => List.mem_dedup.mpr (List.mem_map_of_mem hr)
  rw [← hgroups, groupBy, List.map_map]
  simp only [Function.comp_def, h]

end

/-- The groups have all rows. -/
theorem sum_length_groupBy {count : σ → Nat}
    (h : ∀ k, count (out k (group f rows k)) = (group f rows k).length) :
    ((groupBy f out rows).map count).sum = rows.length := by
  have hones : ∀ l : List ρ, (l.map fun _ => 1).sum = l.length := by simp
  rw [sum_groupBy (w := fun _ => 1) fun k => by rw [h, hones], hones]

/-! ## The least value -/

/-- `LEAST`, which passes over NULL. -/
def least : Option Int → Option Int → Option Int
  | some a, some b => some (min a b)
  | a, none => a
  | none, b => b

/-- The least of two minimums is the minimum of both lists. -/
theorem least_min? (xs ys : List Int) : least xs.min? ys.min? = (xs ++ ys).min? := by
  cases hx : xs.min? with
  | none =>
      rw [List.min?_eq_none_iff.mp hx, List.nil_append]
      cases ys.min? <;> rfl
  | some a =>
      obtain ⟨ha, hleA⟩ := List.min?_eq_some_iff.mp hx
      symm
      cases hy : ys.min? with
      | none =>
          rw [List.min?_eq_none_iff.mp hy, List.append_nil]
          exact hx
      | some b =>
          obtain ⟨hb, hleB⟩ := List.min?_eq_some_iff.mp hy
          apply List.min?_eq_some_iff.mpr
          constructor
          · rcases Int.le_total a b with h | h
            · rw [Int.min_eq_left h]
              exact List.mem_append_left _ ha
            · rw [Int.min_eq_right h]
              exact List.mem_append_right _ hb
          · intro c hc
            rcases List.mem_append.mp hc with hc | hc
            · exact (Int.min_le_left a b).trans (hleA c hc)
            · exact (Int.min_le_right a b).trans (hleB c hc)

/-- In ascending order the first item of a kind has the least version of its kind, and a list
of versions that is no finer says the same. -/
theorem min?_eq_find? {β : Type} {version : β → Int} {items : List β} {p : β → Bool}
    {versions : List Int} (hasc : items.Pairwise fun a b => version a < version b)
    (hsound : ∀ n ∈ versions, ∃ b ∈ items, p b = true ∧ version b = n)
    (hcover : ∀ b ∈ items, p b = true → ∃ n ∈ versions, n ≤ version b) :
    versions.min? = (items.find? p).map version := by
  cases hfind : items.find? p with
  | none =>
      rw [Option.map_none, List.min?_eq_none_iff, List.eq_nil_iff_forall_not_mem]
      intro n hn
      obtain ⟨b, hb, hp, _⟩ := hsound n hn
      exact List.find?_eq_none.mp hfind b hb hp
  | some b =>
      have hleast : ∀ n ∈ versions, version b ≤ n := by
        intro n hn
        obtain ⟨c, hc, hpc, rfl⟩ := hsound n hn
        exact le_of_find? (hasc.imp Int.le_of_lt) hfind hc hpc
      obtain ⟨n, hn, hle⟩ := hcover b (List.mem_of_find?_eq_some hfind) (List.find?_some hfind)
      have heq : n = version b := Int.le_antisymm hle (hleast n hn)
      exact List.min?_eq_some_iff.mpr ⟨heq ▸ hn, hleast⟩

end Grouping
