import Mathlib.Data.BitVec

/-! # Masks of leading bits

A mask of `n` leading ones is made by a left shift, which is in range for every `n` but
zero. Two words agree under the mask exactly when their first `n` bits are the same.
-/

namespace Prefixes

variable {w : Nat}

/-- `x << amount`, which needs the amount to be below the width. -/
def shiftLeft (x : BitVec w) (amount : Nat) (_ : amount < w) : BitVec w := x <<< amount

/-- `n` leading ones. -/
def mask (w n : Nat) (hn : n ≤ w) : BitVec w :=
  if h : n = 0 then 0
  else shiftLeft (BitVec.allOnes w) (w - n) (by omega)

theorem getMsbD_mask {n i : Nat} (hn : n ≤ w) (hi : i < w) :
    (mask w n hn).getMsbD i = decide (i < n) := by
  unfold mask
  split
  · rename_i h
    subst h
    simp
  · rename_i h
    rw [shiftLeft, BitVec.getMsbD_shiftLeft, BitVec.getMsbD, BitVec.getLsbD_allOnes]
    by_cases hin : i < n
    · simp only [hin, decide_true, Bool.and_eq_true, decide_eq_true_eq]
      omega
    · have hout : ¬ i + (w - n) < w := by omega
      simp [hin, hout]

/-- The first `n` bits are the same. -/
def SamePrefix (n : Nat) (x y : BitVec w) : Prop := ∀ i < n, x.getMsbD i = y.getMsbD i

instance (n : Nat) (x y : BitVec w) : Decidable (SamePrefix n x y) :=
  inferInstanceAs (Decidable (∀ i < n, _))

theorem SamePrefix.mono {m n : Nat} {x y : BitVec w} (h : SamePrefix n x y) (hmn : m ≤ n) :
    SamePrefix m x y := fun i hi => h i (Nat.lt_of_lt_of_le hi hmn)

theorem and_mask_eq_iff {n : Nat} (hn : n ≤ w) (x y : BitVec w) :
    x &&& mask w n hn = y &&& mask w n hn ↔ SamePrefix n x y := by
  constructor
  · intro h i hi
    have hbit := congrArg (fun z => z.getMsbD i) h
    simpa [BitVec.getMsbD_and, getMsbD_mask hn (Nat.lt_of_lt_of_le hi hn), hi] using hbit
  · intro h
    apply BitVec.eq_of_getMsbD_eq
    intro i hi
    rw [BitVec.getMsbD_and, BitVec.getMsbD_and, getMsbD_mask hn hi]
    by_cases hin : i < n
    · rw [h i hin]
    · simp [hin]

end Prefixes
