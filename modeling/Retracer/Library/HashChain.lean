import Mathlib.Data.List.Chain
import Mathlib.Data.List.Nodup

/-! # Hash chains

Each item names the one before it by its hash. Where no two items share a hash, an item
stands for everything below it: two chains that have one in common are the same up to
there.
-/

namespace HashChain

variable {α κ : Type} (hash parent : α → κ)

def Linked (L : List α) : Prop := L.IsChain fun lower upper => parent upper = hash lower

/-- Different items have different hashes. -/
def Distinct (P : α → Prop) : Prop := ∀ a b, P a → P b → hash a = hash b → a = b

instance [DecidableEq κ] (L : List α) : Decidable (Linked hash parent L) :=
  inferInstanceAs (Decidable (L.IsChain fun lower upper => parent upper = hash lower))

variable {hash parent} {L L' : List α} {P : α → Prop}

theorem Linked.parent_eq (h : Linked hash parent L) {n : Nat} {lower upper : α}
    (hl : L[n]? = some lower) (hu : L[n + 1]? = some upper) : parent upper = hash lower := by
  obtain ⟨_, rfl⟩ := List.getElem?_eq_some_iff.mp hl
  obtain ⟨hlt, rfl⟩ := List.getElem?_eq_some_iff.mp hu
  exact List.isChain_iff_getElem.mp h n hlt

theorem distinct_of_nodup (h : (L.map hash).Nodup) : Distinct hash (· ∈ L) :=
  fun _ _ ha hb hhash => List.inj_on_of_nodup_map h ha hb hhash

/-- One item in common at one place. -/
theorem Linked.take_eq (h : Linked hash parent L) (h' : Linked hash parent L')
    (hdistinct : Distinct hash P) (hL : ∀ a ∈ L, P a) (hL' : ∀ a ∈ L', P a) {n : Nat} {a b : α}
    (ha : L[n]? = some a) (hb : L'[n]? = some b) (hhash : hash a = hash b) :
    L.take (n + 1) = L'.take (n + 1) := by
  have hsame : ∀ {n : Nat} {a b : α}, L[n]? = some a → L'[n]? = some b → hash a = hash b →
      L[n]? = L'[n]? := by
    intro n a b ha hb hhash
    rw [ha, hb, hdistinct a b (hL a (List.mem_of_getElem? ha)) (hL' b (List.mem_of_getElem? hb))
      hhash]
  have hstep : ∀ (K : List α) (n : Nat), K.take (n + 1) = K.take n ++ K[n]?.toList :=
    fun _ _ => List.take_add_one
  induction n generalizing a b with
  | zero => rw [hstep L, hstep L', hsame ha hb hhash, List.take_zero, List.take_zero]
  | succ n ih =>
      obtain ⟨lower, hl⟩ : ∃ lower, L[n]? = some lower :=
        ⟨_, List.getElem?_eq_getElem (Nat.lt_of_succ_lt (List.getElem?_eq_some_iff.mp ha).1)⟩
      obtain ⟨lower', hl'⟩ : ∃ lower, L'[n]? = some lower :=
        ⟨_, List.getElem?_eq_getElem (Nat.lt_of_succ_lt (List.getElem?_eq_some_iff.mp hb).1)⟩
      have heq : a = b := hdistinct a b (hL a (List.mem_of_getElem? ha))
        (hL' b (List.mem_of_getElem? hb)) hhash
      have hlower : hash lower = hash lower' := by
        rw [← h.parent_eq hl ha, ← h'.parent_eq hl' hb, heq]
      rw [hstep L, hstep L', ih hl hl' hlower, hsame ha hb hhash]

end HashChain
