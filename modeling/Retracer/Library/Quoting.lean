import Mathlib.Data.List.Basic
import Retracer.Library.Execution

/-! # Quoting by doubling

Text between two quotes, where a quote inside the text is written twice. All a reader has
to remember is whether the quote it saw last may still be the first of two, so every
machine with such a pair of states reads the text back, whatever else it reads.
-/

namespace Quoting

open Execution

/-! ## Replacing a character -/

/-- `s.replace(c, replacement)`. -/
def replaceChar (c : Char) (replacement s : String) : String :=
  String.ofList (s.toList.flatMap fun d => if d = c then replacement.toList else [d])

theorem toList_replaceChar (c : Char) (replacement s : String) :
    (replaceChar c replacement s).toList =
      s.toList.flatMap fun d => if d = c then replacement.toList else [d] := by
  rw [replaceChar, String.toList_ofList]

/-! ## Doubling -/

section

variable {α : Type} [DecidableEq α]

def doubled (q : α) (text : List α) : List α :=
  text.flatMap fun c => if c = q then [q, q] else [c]

theorem doubled_cons (q c : α) (text : List α) :
    doubled q (c :: text) = (if c = q then [q, q] else [c]) ++ doubled q text :=
  List.flatMap_cons

/-- What a machine does inside quotes: `inside` has read a text so far, and `closing` has
read it and then a quote. -/
structure ReadsDoubled {σ : Type} (step : σ → α → Option σ) (q : α)
    (inside closing : List α → σ) : Prop where
  text : ∀ acc c, c ≠ q → step (inside acc) c = some (inside (acc ++ [c]))
  quote : ∀ acc, step (inside acc) q = some (closing acc)
  again : ∀ acc, step (closing acc) q = some (inside (acc ++ [q]))

variable {σ : Type} {step : σ → α → Option σ} {q : α} {inside closing : List α → σ}

theorem ReadsDoubled.exec_doubled (h : ReadsDoubled step q inside closing) (acc text : List α) :
    exec step (inside acc) (doubled q text) = some (inside (acc ++ text)) := by
  induction text generalizing acc with
  | nil => simp [doubled, exec]
  | cons c text ih =>
      have hrest := ih (acc ++ [c])
      rw [List.append_assoc, List.singleton_append] at hrest
      rw [doubled_cons]
      by_cases hc : c = q
      · subst hc
        rw [if_pos rfl, List.cons_append, exec_cons_of_step (h.quote acc), List.cons_append,
          exec_cons_of_step (h.again acc)]
        exact hrest
      · rw [if_neg hc, List.cons_append, exec_cons_of_step (h.text acc c hc)]
        exact hrest

/-- The doubled text and the closing quote leave exactly the text. -/
theorem ReadsDoubled.exec_closed (h : ReadsDoubled step q inside closing) (text : List α) :
    exec step (inside []) (doubled q text ++ [q]) = some (closing text) := by
  rw [exec_append_of_exec (h.exec_doubled [] text), List.nil_append,
    exec_cons_of_step (h.quote text)]
  rfl

end

theorem toList_replaceChar_twice (q : Char) (s : String) :
    (replaceChar q (String.ofList [q, q]) s).toList = doubled q s.toList := by
  rw [toList_replaceChar, String.toList_ofList]
  rfl

end Quoting
