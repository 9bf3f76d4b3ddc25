import Retracer.Library.Firsts

/-! # At least once, each in its turn

The items of a list are offered to a receiver that may refuse. One is offered only when all
before it were accepted, and then any number of times. A receiver that drops what it has seen
is left with a beginning of the list.
-/

namespace InTurn

open Sorting KeyedTable

variable {α : Type}

/-- The items of the attempts that were not refused. -/
def accepted (attempts : List (α × Bool)) : List α := (attempts.filter (·.2)).map (·.1)

/-- Each attempt is at an item of the list of which all before it were accepted. -/
inductive Offered (items : List α) : List (α × Bool) → Prop where
  | none : Offered items []
  | attempt {attempts before after} {item : α} {answer : Bool} (h : Offered items attempts)
      (hsplit : items = before ++ item :: after) (hbefore : ∀ a ∈ before, a ∈ accepted attempts) :
      Offered items (attempts ++ [(item, answer)])

section

variable {items : List α} {attempts : List (α × Bool)} {item : α}

@[simp] theorem accepted_accept (attempts : List (α × Bool)) (item : α) :
    accepted (attempts ++ [(item, true)]) = accepted attempts ++ [item] := by
  simp [accepted]

@[simp] theorem accepted_refuse (attempts : List (α × Bool)) (item : α) :
    accepted (attempts ++ [(item, false)]) = accepted attempts := by
  simp [accepted]

theorem mem_accepted : item ∈ accepted attempts ↔ (item, true) ∈ attempts := by
  simp [accepted]

/-- Items may be added at the end. -/
theorem Offered.append (h : Offered items attempts) (more : List α) :
    Offered (items ++ more) attempts := by
  induction h with
  | none => exact .none
  | @attempt attempts before after item answer _ hsplit hbefore ih =>
      have hmore : items ++ more = before ++ item :: (after ++ more) := by
        rw [hsplit, List.append_assoc, List.cons_append]
      exact .attempt ih hmore hbefore

variable {κ : Type} {key : α → κ}

/-- A beginning of a list with distinct keys is no longer than one that has all its keys. -/
theorem length_le_of_keys {before rest : List α} {n : Nat}
    (hkeys : ((before ++ rest).map key).Nodup)
    (hbefore : ∀ a ∈ before, key a ∈ ((before ++ rest).take n).map key) : before.length ≤ n := by
  by_contra hlt
  have hsome : (before ++ rest)[n]? = before[n]? := List.getElem?_append_left (by omega)
  obtain ⟨a, ha⟩ : ∃ a, before[n]? = some a := ⟨_, List.getElem?_eq_getElem (by omega)⟩
  have hdropped : a ∈ (before ++ rest).drop n := by
    apply List.mem_of_getElem? (i := 0)
    rw [List.getElem?_drop, Nat.add_zero, hsome, ha]
  rw [← List.take_append_drop n (before ++ rest), List.map_append, List.nodup_append] at hkeys
  exact hkeys.2.2 _ (hbefore a (List.mem_of_getElem? ha)) _ (List.mem_map_of_mem hdropped) rfl

variable [DecidableEq κ]

/-- Of what was accepted, the first item of each key makes a beginning of the list. -/
theorem Offered.distinctOn_accepted (h : Offered items attempts) (hkeys : (items.map key).Nodup) :
    ∃ n ≤ items.length, distinctOn key (accepted attempts) = items.take n := by
  induction h with
  | none => exact ⟨0, Nat.zero_le _, rfl⟩
  | @attempt attempts before after item answer _ hsplit hbefore ih =>
      obtain ⟨n, hn, htaken⟩ := ih
      cases answer with
      | false =>
          rw [accepted_refuse]
          exact ⟨n, hn, htaken⟩
      | true =>
          subst hsplit
          have hseen : ∀ a, key a ∈ (accepted attempts).map key ↔
              key a ∈ ((before ++ item :: after).take n).map key := by
            intro a
            rw [← htaken, mem_map_distinctOn]
          have hle : before.length ≤ n := by
            apply length_le_of_keys hkeys
            intro a ha
            exact (hseen a).mp (List.mem_map_of_mem (hbefore a ha))
          rw [accepted_accept, distinctOn_concat, htaken]
          rcases Nat.lt_or_eq_of_le hle with hlt | rfl
          · -- It was accepted before.
            have hmem : item ∈ (before ++ item :: after).take n := by
              apply List.mem_of_getElem? (i := before.length)
              rw [List.getElem?_take_of_lt hlt, List.getElem?_append_right (Nat.le_refl _),
                Nat.sub_self]
              rfl
            rw [if_pos ((hseen item).mpr (List.mem_map_of_mem hmem)), List.append_nil]
            exact ⟨n, hn, rfl⟩
          · have hnew : key item ∉ ((before ++ item :: after).take before.length).map key := by
              rw [List.take_left]
              intro hmem
              rw [List.map_append, List.map_cons, List.nodup_append] at hkeys
              exact hkeys.2.2 _ hmem _ List.mem_cons_self rfl
            rw [if_neg (mt (hseen item).mp hnew), List.take_left]
            refine ⟨before.length + 1, ?_, ?_⟩
            · rw [List.length_append, List.length_cons]
              omega
            · rw [List.take_length_add_append]
              rfl

end

end InTurn
