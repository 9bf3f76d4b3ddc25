import Mathlib.Algebra.BigOperators.Group.Finset.Basic
import Mathlib.Algebra.Ring.Nat
import Mathlib.Data.List.Rotate
import Retracer.Library.Table

/-! # Counters by key

A map from keys to counters that a loop raises by one. Such a map knows how often each key
came and no other key. Turns that are taken by position modulo the length of a list are a
rotation of that list.
-/

namespace Counting

open List KeyedTable

/-! ## Counters -/

structure Counter (κ : Type) where
  name : κ
  count : Nat

instance (κ : Type) : Keyed (Counter κ) κ := ⟨Counter.name⟩

section

variable {κ : Type} [DecidableEq κ]

/-- `*counts.entry(k).or_insert(0) += 1`. -/
def bump (counts : Table (Counter κ)) (k : κ) : Table (Counter κ) :=
  counts.upsert ⟨k, 1⟩ (fun c => { c with count := c.count + 1 }) fun _ => rfl

/-- `counts.get(k).copied().unwrap_or(0)`. -/
def countOf (counts : Table (Counter κ)) (k : κ) : Nat :=
  (counts.find? k).elim 0 Counter.count

def names (counts : Table (Counter κ)) : List κ := counts.rows.map Counter.name

variable {counts : Table (Counter κ)} {j k : κ} {ks : List κ}

theorem find?_bump : (bump counts k).find? j =
    if j = k then some ((counts.find? j).elim ⟨k, 1⟩ fun c => { c with count := c.count + 1 })
    else counts.find? j :=
  Table.find?_upsert counts ⟨k, 1⟩ _ _ j

theorem countOf_bump :
    countOf (bump counts k) j = countOf counts j + if k = j then 1 else 0 := by
  rw [countOf, find?_bump]
  by_cases h : j = k
  · rw [if_pos h, if_pos h.symm, countOf]
    cases counts.find? j <;> rfl
  · rw [if_neg h, if_neg (Ne.symm h)]
    rfl

theorem mem_names_iff : k ∈ names counts ↔ (counts.find? k).isSome := by
  simp only [names, List.mem_map, Option.isSome_iff_exists, Table.find?_eq_some_iff]
  rfl

theorem mem_names_bump : j ∈ names (bump counts k) ↔ j ∈ names counts ∨ j = k := by
  rw [mem_names_iff, mem_names_iff, find?_bump]
  by_cases h : j = k
  · simp [h]
  · simp [h]

/-- Every counter counts the keys of the loop that are its own. -/
theorem countOf_foldl_bump (ks : List κ) (counts : Table (Counter κ)) :
    countOf (ks.foldl bump counts) j = countOf counts j + ks.count j := by
  induction ks generalizing counts with
  | nil => rfl
  | cons k ks ih =>
      rw [List.foldl_cons, ih, countOf_bump, List.count_cons]
      simp only [beq_iff_eq]
      omega

theorem mem_names_foldl_bump (ks : List κ) (counts : Table (Counter κ)) :
    j ∈ names (ks.foldl bump counts) ↔ j ∈ names counts ∨ j ∈ ks := by
  induction ks generalizing counts with
  | nil => simp
  | cons k ks ih => rw [List.foldl_cons, ih, mem_names_bump, List.mem_cons, or_assoc]

/-- The counters of a list of keys. -/
def countsOf (ks : List κ) : Table (Counter κ) := ks.foldl bump .empty

@[simp] theorem countOf_countsOf : countOf (countsOf ks) j = ks.count j := by
  rw [countsOf, countOf_foldl_bump]
  exact Nat.zero_add _

@[simp] theorem mem_names_countsOf : j ∈ names (countsOf ks) ↔ j ∈ ks := by
  rw [countsOf, mem_names_foldl_bump]
  exact or_iff_right List.not_mem_nil

/-- A loop that raises one of its counters by what it finds in a row. -/
theorem foldl_bump_of_step {σ ρ : Type} {step : σ → ρ → σ} (counts : σ → Table (Counter κ))
    (found : ρ → Option κ)
    (hstep : ∀ s row, counts (step s row) = (found row).elim (counts s) (bump (counts s)))
    (rows : List ρ) (s : σ) :
    counts (rows.foldl step s) = (rows.filterMap found).foldl bump (counts s) := by
  induction rows generalizing s with
  | nil => rfl
  | cons row rows ih =>
      rw [List.foldl_cons, ih, hstep]
      cases h : found row with
      | none => rw [List.filterMap_cons_none h, Option.elim_none]
      | some k => rw [List.filterMap_cons_some h, Option.elim_some, List.foldl_cons]

/-- Over names that cover a list without repetition, the counts add up to its length. -/
theorem sum_count {ns : List κ} (hns : ns.Nodup) (hks : ∀ k ∈ ks, k ∈ ns) :
    (ns.map fun n => ks.count n).sum = ks.length := by
  rw [← List.sum_toFinset (fun n => ks.count n) hns]
  have hcover : ∀ k ∈ (ks : Multiset κ), k ∈ ns.toFinset := fun k hk =>
    List.mem_toFinset.mpr (hks k hk)
  simpa only [Multiset.coe_count, Multiset.coe_card] using Multiset.sum_count_eq_card hcover

end

/-! ## Turns -/

section

variable {α : Type} {l : List α} {start : Nat}

/-- One round of turns, wherever it starts. -/
theorem turns_eq_rotate (hl : l ≠ []) :
    (List.range' start l.length).map (fun i => l[i % l.length]?) = (l.rotate start).map some := by
  have hpos : 0 < l.length := List.length_pos_of_ne_nil hl
  apply List.ext_getElem
  · simp
  · intro i hi _
    simp only [List.getElem_map, List.getElem_range', List.getElem_rotate, Nat.one_mul]
    rw [Nat.add_comm start i, List.getElem?_eq_getElem (Nat.mod_lt _ hpos)]

/-- In whole rounds everyone has the same number of turns. -/
theorem count_turns [DecidableEq α] (hl : l ≠ []) (hnodup : l.Nodup) {a : α} (ha : a ∈ l)
    (k : Nat) :
    ((List.range' start (l.length * k)).map fun i => l[i % l.length]?).count (some a) = k := by
  induction k generalizing start with
  | zero => simp
  | succ k ih =>
      have hone : ((l.rotate start).map some).count (some a) = 1 := by
        apply List.count_eq_one_of_mem
        · exact (List.nodup_rotate.mpr hnodup).map (Option.some_injective α)
        · exact List.mem_map_of_mem (List.mem_rotate.mpr ha)
      rw [Nat.mul_succ, Nat.add_comm, ← List.range'_append_1, List.map_append, List.count_append,
        turns_eq_rotate hl, hone, ih, Nat.add_comm]

end

end Counting
