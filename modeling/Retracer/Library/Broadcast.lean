import Mathlib.Data.List.Basic

/-! # A broadcast channel

Every value sent goes to every receiver. A receiver is a position in all that was ever
sent; the channel holds the last `capacity` values, and a receiver that is further behind
than that is told so instead of getting a value.
-/

namespace Broadcast

variable {α : Type}

inductive Received (α : Type) where
  | empty
  | lagged
  | got (a : α)

def recv (capacity : Nat) (sent : List α) (position : Nat) : Received α :=
  match sent[position]? with
  | none => .empty
  | some a => if capacity < sent.length - position then .lagged else .got a

theorem getElem?_of_recv {capacity position : Nat} {sent : List α} {a : α}
    (h : recv capacity sent position = .got a) : sent[position]? = some a := by
  unfold recv at h
  cases hget : sent[position]? with
  | none =>
      rw [hget] at h
      cases h
  | some b =>
      rw [hget] at h
      dsimp only at h
      split at h
      · cases h
      · cases h
        rfl

theorem length_le_of_recv {capacity position : Nat} {sent : List α}
    (h : recv capacity sent position = .empty) : sent.length ≤ position := by
  unfold recv at h
  cases hget : sent[position]? with
  | none => exact List.getElem?_eq_none_iff.mp hget
  | some a =>
      rw [hget] at h
      dsimp only at h
      split at h <;> cases h

/-! ## What a receiver has had -/

/-- The values between where the receiver began and where it is. -/
def delivered (sent : List α) (since position : Nat) : List α := (sent.take position).drop since

@[simp] theorem delivered_self (sent : List α) (since : Nat) : delivered sent since since = [] := by
  rw [delivered, List.drop_eq_nil_iff, List.length_take]
  omega

theorem delivered_succ {sent : List α} {since position : Nat} {a : α} (hle : since ≤ position)
    (h : sent[position]? = some a) :
    delivered sent since (position + 1) = delivered sent since position ++ [a] := by
  obtain ⟨hlt, hget⟩ := List.getElem?_eq_some_iff.mp h
  unfold delivered
  rw [List.take_add_one, h, Option.toList_some, List.drop_append_of_le_length]
  rw [List.length_take]
  omega

/-- Later values change nothing about those had. -/
theorem delivered_append {sent : List α} {since position : Nat} (h : position ≤ sent.length)
    (more : List α) : delivered (sent ++ more) since position = delivered sent since position := by
  rw [delivered, List.take_append_of_le_length h, delivered]

theorem delivered_length (sent : List α) (since : Nat) :
    delivered sent since sent.length = sent.drop since := by
  rw [delivered, List.take_length]

end Broadcast
