import Mathlib.Data.List.Induction
import Mathlib.Logic.Function.Basic
import Retracer.Library.Sorting

/-! # Sparse rows and plain maps

A sparse table has one row for each change of a key, stamped with a version. Read as of a
version it should be the plain map in which each write replaced the one before. It is, if
the writes came in the order of their versions and no version writes a key twice: both
are then the last write of the key.
-/

namespace Versioned

open Sorting

/-! ## Plain maps -/

section

variable {κ ν : Type} [DecidableEq κ]

/-- Each write replaces what its key had; writing `none` removes it. -/
def writeAll (m : κ → Option ν) (ws : List (κ × Option ν)) : κ → Option ν :=
  ws.foldl (fun m w => Function.update m w.1 w.2) m

theorem writeAll_append (m : κ → Option ν) (ws more : List (κ × Option ν)) :
    writeAll m (ws ++ more) = writeAll (writeAll m ws) more :=
  List.foldl_append

/-- The last write of a key decides. -/
theorem writeAll_apply (m : κ → Option ν) (ws : List (κ × Option ν)) (k : κ) :
    writeAll m ws k = ((ws.filter fun w => w.1 = k).getLast?).elim (m k) (·.2) := by
  induction ws using List.reverseRecOn with
  | nil => rfl
  | append_singleton ws w ih =>
      rw [writeAll_append, List.filter_append]
      by_cases hk : w.1 = k
      · subst hk
        simp [writeAll]
      · have hk' : k ≠ w.1 := Ne.symm hk
        have hnone : [w].filter (fun w => w.1 = k) = [] := by simp [hk]
        rw [hnone, List.append_nil, ← ih]
        exact Function.update_of_ne hk' w.2 (writeAll m ws)

end

/-! ## Stamped entries -/

section

variable {β ε κ : Type}

/-- The entries of every item, each with the version of its item. -/
def stamped (version : β → Int) (entries : β → List ε) (items : List β) : List (Int × ε) :=
  items.flatMap fun b => (entries b).map fun e => (version b, e)

variable {version : β → Int} {entries : β → List ε} {items : List β}

theorem stamped_cons (b : β) (items : List β) :
    stamped version entries (b :: items) =
      (entries b).map (fun e => (version b, e)) ++ stamped version entries items := rfl

theorem mem_stamped {x : Int × ε} :
    x ∈ stamped version entries items ↔ ∃ b ∈ items, x.1 = version b ∧ x.2 ∈ entries b := by
  simp only [stamped, List.mem_flatMap, List.mem_map]
  constructor
  · rintro ⟨b, hb, e, he, rfl⟩
    exact ⟨b, hb, rfl, he⟩
  · rintro ⟨b, hb, hversion, he⟩
    exact ⟨b, hb, x.2, he, by rw [← hversion]⟩

/-- Entries up to a version are those of the items up to it. -/
theorem filter_stamped (upTo : Int) :
    (stamped version entries items).filter (fun x => x.1 ≤ upTo) =
      stamped version entries (items.filter fun b => version b ≤ upTo) := by
  induction items with
  | nil => rfl
  | cons b items ih =>
      rw [stamped_cons, List.filter_append, ih, List.filter_map, List.filter_cons]
      by_cases hle : version b ≤ upTo
      · have hall : (entries b).filter ((fun x : Int × ε => decide (x.1 ≤ upTo)) ∘
            fun e => (version b, e)) = entries b := by
          rw [List.filter_eq_self]
          intro e _
          simpa using hle
        simp only [hle, decide_true, if_true]
        rw [hall, stamped_cons]
      · have hnone : (entries b).filter ((fun x : Int × ε => decide (x.1 ≤ upTo)) ∘
            fun e => (version b, e)) = [] := by
          rw [List.filter_eq_nil_iff]
          intro e _
          simpa using hle
        simp only [hle, decide_false, Bool.false_eq_true, if_false]
        rw [hnone]
        rfl

variable [DecidableEq κ] {key : ε → κ}

/-- Of one key there is at most one entry per version, in the order of the versions. -/
theorem ascending_stamped (hasc : items.Pairwise fun a b => version a < version b)
    (hkeys : ∀ b ∈ items, ((entries b).map key).Nodup) (k : κ) :
    ((stamped version entries items).filter fun x => key x.2 = k).Pairwise
      fun x y => x.1 < y.1 := by
  induction items with
  | nil => exact List.Pairwise.nil
  | cons b items ih =>
      obtain ⟨hb, hrest⟩ := List.pairwise_cons.mp hasc
      rw [stamped_cons, List.filter_append, List.pairwise_append]
      refine ⟨?_, ih hrest fun b hb => hkeys b (List.mem_cons_of_mem _ hb), ?_⟩
      · have hnodup : (entries b).Pairwise fun e e' => key e ≠ key e' :=
          List.pairwise_map.mp (hkeys b List.mem_cons_self)
        rw [List.filter_map, List.pairwise_map]
        apply List.Pairwise.imp_of_mem _ (hnodup.sublist List.filter_sublist)
        intro e e' he he' hne
        have hk : key e = k := by simpa using (List.mem_filter.mp he).2
        have hk' : key e' = k := by simpa using (List.mem_filter.mp he').2
        exact absurd (hk.trans hk'.symm) hne
      · intro x hx y hy
        obtain ⟨e, _, rfl⟩ := List.mem_map.mp (List.mem_of_mem_filter hx)
        obtain ⟨b', hb', hversion, _⟩ := mem_stamped.mp (List.mem_of_mem_filter hy)
        rw [hversion]
        exact hb b' hb'

/-- The last entry of a key at or below a version. -/
def lastOf (version : β → Int) (entries : β → List ε) (key : ε → κ) (items : List β)
    (upTo : Int) (k : κ) : Option (Int × ε) :=
  ((stamped version entries (items.filter fun b => version b ≤ upTo)).filter
    fun x => key x.2 = k).getLast?

theorem key_lastOf {upTo : Int} {k : κ} {x : Int × ε}
    (h : lastOf version entries key items upTo k = some x) : key x.2 = k := by
  simpa using (List.mem_filter.mp (List.mem_of_getLast? h)).2

theorem le_of_lastOf {upTo : Int} {k : κ} {x : Int × ε}
    (h : lastOf version entries key items upTo k = some x) : x.1 ≤ upTo := by
  have hmem := List.mem_of_mem_filter (List.mem_of_getLast? h)
  rw [← filter_stamped] at hmem
  simpa using (List.mem_filter.mp hmem).2

/-! ## The two readings -/

/-- The newest row of a key in a table that has one row for each entry. -/
theorem newest_eq_lastOf {ρ : Type} {rowVersion : ρ → Int} {mk : Int × ε → ρ}
    {rows : List ρ} {selected : ρ → Bool} {upTo : Int} {k : κ}
    (hrows : rows = (stamped version entries items).map mk)
    (hversion : ∀ x, rowVersion (mk x) = x.1)
    (hselected : ∀ x, selected (mk x) = (decide (key x.2 = k) && decide (x.1 ≤ upTo)))
    (hasc : items.Pairwise fun a b => version a < version b)
    (hkeys : ∀ b ∈ items, ((entries b).map key).Nodup) :
    newest rowVersion (rows.filter selected) =
      (lastOf version entries key items upTo k).map mk := by
  have hfilter : rows.filter selected =
      ((stamped version entries (items.filter fun b => version b ≤ upTo)).filter
        fun x => key x.2 = k).map mk := by
    rw [hrows, List.filter_map, ← filter_stamped, List.filter_filter]
    congr 1
    apply List.filter_congr
    intro x _
    exact hselected x
  have hascending : ((stamped version entries (items.filter fun b => version b ≤ upTo)).filter
      fun x => key x.2 = k).Pairwise fun x y => x.1 < y.1 :=
    ascending_stamped (hasc.sublist List.filter_sublist)
      (fun b hb => hkeys b (List.mem_of_mem_filter hb)) k
  rw [hfilter, newest_of_ascending, List.getLast?_map, lastOf]
  rw [List.pairwise_map]
  apply hascending.imp
  intro x y hlt
  rw [hversion, hversion]
  exact hlt

/-- The plain map after the writes of the items up to a version. -/
theorem writeAll_eq_lastOf {ν : Type} {value : Int × ε → Option ν} {upTo : Int} {k : κ} :
    writeAll (fun _ => none) ((stamped version entries (items.filter fun b =>
        version b ≤ upTo)).map fun x => (key x.2, value x)) k =
      (lastOf version entries key items upTo k).bind value := by
  rw [writeAll_apply, List.filter_map, List.getLast?_map]
  have hcomp : ((fun w : κ × Option ν => decide (w.1 = k)) ∘
      fun x : Int × ε => (key x.2, value x)) = fun x => decide (key x.2 = k) := rfl
  rw [hcomp, ← lastOf]
  cases lastOf version entries key items upTo k <;> rfl

end

end Versioned
