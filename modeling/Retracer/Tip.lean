import Mathlib.Algebra.Order.Ring.Int
import Mathlib.Data.List.Basic
import Mathlib.Tactic.Cases

/-! # What an incoming block means relative to what is stored

Heights are `BIGINT`s in the store and `i64`s here. A block's own height enters
as the natural number it is: the reader sends a block only at the height it asked
for, one above the previous one, so no block ever numbered 2^63 is sent. The
finalized height is different, since it is whatever number the node reports; its
cast is `asI64`.
-/

namespace Retracer

/-- `n as i64` for a `u64`: two's complement, so `2 ^ 63` and above turn negative. -/
def asI64 (n : Nat) : Int := (n : Int).bmod (2 ^ 64)

theorem asI64_of_lt {n : Nat} (h : n < 2 ^ 63) : asI64 n = n := by
  unfold asI64
  rw [Int.bmod_eq_of_le] <;> omega

/-! ## Hashes -/

/-- `strip_prefix("0x")`, else `strip_prefix("0X")`, else the string itself. -/
def stripHexMark : List Char → List Char
  | '0' :: 'x' :: rest => rest
  | '0' :: 'X' :: rest => rest
  | cs => cs

def normalize (s : String) : List Char := (stripHexMark s.toList).map Char.toLower

/-- Equality of hex hashes up to case and the `0x` mark. -/
def hashesMatch (a b : String) : Prop := normalize a = normalize b

instance (a b : String) : Decidable (hashesMatch a b) :=
  inferInstanceAs (Decidable (normalize a = normalize b))

theorem hashesMatch_symm {a b : String} (h : hashesMatch a b) : hashesMatch b a := Eq.symm h

theorem hashesMatch_trans {a b c : String} (hab : hashesMatch a b) (hbc : hashesMatch b c) :
    hashesMatch a c := Eq.trans hab hbc

/-! ## Classification -/

/-- The highest height indexed and its hash. -/
structure Tip where
  height : Int
  hash : String
deriving DecidableEq, Repr

inductive TipAction where
  | extend
  | gap
  | stale
  | fork (rollbackTo : Int)
  | forkBelowFinalized (wouldRollbackTo finalizedHeight : Int)
  | forkTooDeep (wouldRollbackTo : Int) (depth : Nat)
deriving DecidableEq, Repr

def classify (tip : Option Tip) (incomingHeight : Int) (incomingParentHash : String)
    (rewoundFrom : Option Int) (finalityDepth : Nat) (finalizedHeight : Option Int) : TipAction :=
  match tip with
  | none => .extend
  | some tip =>
      if incomingHeight ≤ tip.height then .stale
      else if incomingHeight > tip.height + 1 then .gap
      else if hashesMatch incomingParentHash tip.hash then .extend
      else
        let rollbackTo := tip.height - 1
        let depth := (max (rewoundFrom.getD tip.height - rollbackTo) 0).toNat
        match finalizedHeight.filter (rollbackTo < ·) with
        | some finalized => .forkBelowFinalized rollbackTo finalized
        | none =>
            if depth > finalityDepth then .forkTooDeep rollbackTo depth
            else .fork rollbackTo

theorem classify_none (h : Int) (parent : String) (rewoundFrom : Option Int) (depth : Nat)
    (finalized : Option Int) : classify none h parent rewoundFrom depth finalized = .extend := rfl

section

variable {tip : Tip} {h : Int} {parent : String} {rewoundFrom : Option Int} {depth : Nat}
  {finalized : Option Int}

/-- The six outcomes against a known tip, each with all that its branch checked. -/
theorem classify_cases (tip : Tip) (h : Int) (parent : String) (rewoundFrom : Option Int)
    (depth : Nat) (finalized : Option Int) :
    let action := classify (some tip) h parent rewoundFrom depth finalized
    (h ≤ tip.height ∧ action = .stale) ∨
    (tip.height + 1 < h ∧ action = .gap) ∨
    (h = tip.height + 1 ∧ hashesMatch parent tip.hash ∧ action = .extend) ∨
    (h = tip.height + 1 ∧ ¬ hashesMatch parent tip.hash ∧
      ((∃ f, finalized = some f ∧ tip.height - 1 < f ∧
          action = .forkBelowFinalized (tip.height - 1) f) ∨
        ((∀ f, finalized = some f → f ≤ tip.height - 1) ∧
          (∃ d : Nat, d = max (rewoundFrom.getD tip.height - (tip.height - 1)) 0 ∧
            depth < d ∧ action = .forkTooDeep (tip.height - 1) d)) ∨
        ((∀ f, finalized = some f → f ≤ tip.height - 1) ∧
          rewoundFrom.getD tip.height - (tip.height - 1) ≤ depth ∧
          action = .fork (tip.height - 1)))) := by
  dsimp only [classify]
  by_cases hstale : h ≤ tip.height
  · exact Or.inl ⟨hstale, if_pos hstale⟩
  rw [if_neg hstale]
  by_cases hgap : h > tip.height + 1
  · exact Or.inr (Or.inl ⟨by omega, if_pos hgap⟩)
  rw [if_neg hgap]
  have hnext : h = tip.height + 1 := by omega
  by_cases hm : hashesMatch parent tip.hash
  · exact Or.inr (Or.inr (Or.inl ⟨hnext, hm, if_pos hm⟩))
  rw [if_neg hm]
  refine Or.inr (Or.inr (Or.inr ⟨hnext, hm, ?_⟩))
  cases hf : finalized.filter (tip.height - 1 < ·) with
  | some f =>
      rw [Option.filter_eq_some_iff] at hf
      exact Or.inl ⟨f, hf.1, by simpa using hf.2, rfl⟩
  | none =>
      have hbelow : ∀ f, finalized = some f → f ≤ tip.height - 1 := by
        intro f hfin
        simpa using Option.filter_eq_none_iff.mp hf f hfin
      by_cases hdeep : (max (rewoundFrom.getD tip.height - (tip.height - 1)) 0).toNat > depth
      · refine Or.inr (Or.inl ⟨hbelow, _, ?_, hdeep, if_pos hdeep⟩)
        exact Int.toNat_of_nonneg (by omega)
      · exact Or.inr (Or.inr ⟨hbelow, by omega, if_neg hdeep⟩)

theorem classify_extend_spec
    (hc : classify (some tip) h parent rewoundFrom depth finalized = .extend) :
    h = tip.height + 1 ∧ hashesMatch parent tip.hash := by
  rcases classify_cases tip h parent rewoundFrom depth finalized with
    ⟨_, ha⟩ | ⟨_, ha⟩ | ⟨hh, hm, _⟩ | ⟨_, _, ⟨_, _, _, ha⟩ | ⟨_, _, _, _, ha⟩ | ⟨_, _, ha⟩⟩
  case inr.inr.inl => exact ⟨hh, hm⟩
  all_goals cases hc.symm.trans ha

theorem classify_gap_spec
    (hc : classify (some tip) h parent rewoundFrom depth finalized = .gap) :
    tip.height + 1 < h := by
  rcases classify_cases tip h parent rewoundFrom depth finalized with
    ⟨_, ha⟩ | ⟨hh, _⟩ | ⟨_, _, ha⟩ | ⟨_, _, ⟨_, _, _, ha⟩ | ⟨_, _, _, _, ha⟩ | ⟨_, _, ha⟩⟩
  case inr.inl => exact hh
  all_goals cases hc.symm.trans ha

/-- A rollback decision: the block is the next one and disagrees, the certificate
allows the target and so does the depth guard. -/
theorem classify_fork_spec {target : Int}
    (hc : classify (some tip) h parent rewoundFrom depth finalized = .fork target) :
    target = tip.height - 1 ∧ h = tip.height + 1 ∧ ¬ hashesMatch parent tip.hash ∧
      (∀ f, finalized = some f → f ≤ target) ∧
      rewoundFrom.getD tip.height - target ≤ depth := by
  rcases classify_cases tip h parent rewoundFrom depth finalized with
    ⟨_, ha⟩ | ⟨_, ha⟩ | ⟨_, _, ha⟩ | ⟨hh, hm, ⟨_, _, _, ha⟩ | ⟨_, _, _, _, ha⟩ | ⟨hf, hd, ha⟩⟩
  case inr.inr.inr.inr.inr =>
    cases hc.symm.trans ha
    exact ⟨rfl, hh, hm, hf, hd⟩
  all_goals cases hc.symm.trans ha

end

/-- Depth is cumulative: from 20 down to 17 is within 3, one more is not. -/
example :
    classify (some ⟨18, "0xaaa"⟩) 19 "0xdifferent" (some 20) 3 none = .fork 17 ∧
      classify (some ⟨17, "0xaaa"⟩) 18 "0xdifferent" (some 20) 3 none = .forkTooDeep 16 4 := by
  decide

end Retracer
