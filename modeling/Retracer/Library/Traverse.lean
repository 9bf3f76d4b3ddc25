import Mathlib.Data.List.Basic

/-! # Partial maps over lists

A partial function runs over a list as a whole: the run succeeds exactly when every element
has a value, and then gives the values in order.
-/

namespace Traverse

variable {α β γ : Type} {f g : α → Option β} {as : List α} {bs : List β}

theorem mapM_eq_some_iff : as.mapM f = some bs ↔ as.map f = bs.map some := by
  induction as generalizing bs with
  | nil => cases bs <;> simp
  | cons a as ih =>
      simp only [List.mapM_cons, Option.bind_eq_bind, Option.bind_eq_some_iff, Option.pure_def,
        Option.some.injEq, ih]
      constructor
      · rintro ⟨b, hb, rest, hrest, rfl⟩
        rw [List.map_cons, List.map_cons, hb, hrest]
      · intro h
        cases bs with
        | nil => cases h
        | cons b bs =>
            obtain ⟨hb, hrest⟩ := List.cons.inj h
            exact ⟨b, hb, bs, hrest, rfl⟩

theorem mem_mapM_iff (h : as.mapM f = some bs) {b : β} : b ∈ bs ↔ ∃ a ∈ as, f a = some b := by
  rw [← List.mem_map, mapM_eq_some_iff.mp h, List.mem_map]
  simp

/-- The same for a function that may fail with an error. -/
theorem mem_mapM_ok {ε : Type} {f : α → Except ε β} {as : List α} {bs : List β}
    (h : as.mapM f = .ok bs) {b : β} : b ∈ bs ↔ ∃ a ∈ as, f a = .ok b := by
  induction as generalizing bs with
  | nil =>
      cases h
      simp
  | cons a as ih =>
      rw [List.mapM_cons] at h
      cases ha : f a with
      | error e =>
          rw [ha] at h
          cases h
      | ok c =>
          rw [ha] at h
          cases has : as.mapM f with
          | error e =>
              rw [has] at h
              cases h
          | ok cs =>
              rw [has] at h
              cases h
              rw [List.mem_cons, ih has, List.exists_mem_cons_iff, ha, Except.ok.injEq,
                eq_comm (a := b)]

theorem isSome_mapM_iff : (as.mapM f).isSome ↔ ∀ a ∈ as, (f a).isSome := by
  induction as with
  | nil => simp
  | cons a as ih =>
      rw [List.mapM_cons, List.forall_mem_cons, ← ih]
      cases f a with
      | none => simp
      | some b => cases as.mapM f <;> simp

theorem mapM_congr (h : ∀ a ∈ as, f a = g a) : as.mapM f = as.mapM g := by
  induction as with
  | nil => rfl
  | cons a as ih =>
      rw [List.forall_mem_cons] at h
      rw [List.mapM_cons, List.mapM_cons, h.1, ih h.2]

theorem mapM_map (f : α → Option β) (g : β → γ) (as : List α) :
    (as.mapM fun a => (f a).map g) = (as.mapM f).map (List.map g) := by
  induction as with
  | nil => rfl
  | cons a as ih =>
      rw [List.mapM_cons, List.mapM_cons, ih]
      cases f a with
      | none => rfl
      | some b => cases as.mapM f <;> rfl

/-- What the values have in common with the elements. -/
theorem map_of_mapM {p : β → γ} {q : α → γ} (h : as.mapM f = some bs)
    (hpq : ∀ a b, f a = some b → p b = q a) : bs.map p = as.map q := by
  induction as generalizing bs with
  | nil =>
      cases h
      rfl
  | cons a as ih =>
      simp only [List.mapM_cons, Option.bind_eq_bind, Option.bind_eq_some_iff, Option.pure_def,
        Option.some.injEq] at h
      obtain ⟨b, hb, rest, hrest, rfl⟩ := h
      rw [List.map_cons, List.map_cons, hpq a b hb, ih hrest]

/-- Selecting before or after, where both tell the same. -/
theorem mapM_filter {p : α → Bool} {q : β → Bool} (hpq : ∀ a b, f a = some b → q b = p a)
    (h : as.mapM f = some bs) : (as.filter p).mapM f = some (bs.filter q) := by
  induction as generalizing bs with
  | nil =>
      cases h
      rfl
  | cons a as ih =>
      simp only [List.mapM_cons, Option.bind_eq_bind, Option.bind_eq_some_iff, Option.pure_def,
        Option.some.injEq] at h
      obtain ⟨b, hb, rest, hrest, rfl⟩ := h
      rw [List.filter_cons, List.filter_cons, hpq a b hb]
      split
      · simp [hb, ih hrest]
      · exact ih hrest

/-! ## One after the other -/

section

variable {ε : Type} {x : Except ε α} {next : α → Except ε β} {e : ε} {b : β}

theorem ok_bind (a : α) : (.ok a : Except ε α) >>= next = next a := rfl

theorem bind_eq_ok : x >>= next = .ok b ↔ ∃ a, x = .ok a ∧ next a = .ok b := by
  cases x with
  | error e => exact iff_of_false (fun h => nomatch h) fun ⟨_, h, _⟩ => nomatch h
  | ok a =>
      constructor
      · exact fun h => ⟨a, rfl, h⟩
      · rintro ⟨_, ⟨⟩, h⟩
        exact h

end

end Traverse
