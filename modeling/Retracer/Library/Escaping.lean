import Mathlib.Algebra.Ring.Parity
import Mathlib.Data.List.DropRight

/-! # Escaping by a mark

Some characters of a text are written as a mark and a letter. A reader that takes the
character behind every mark as a letter gets the text back, and stops at a closing
character exactly where the text ends.
-/

namespace Escaping

variable {α : Type}

/-- The letters of the escaped characters, the mark itself among them. -/
structure Scheme (α : Type) where
  mark : α
  code : α → Option α
  decode : α → Option α
  mark_escaped : (code mark).isSome
  decode_code : ∀ {c l}, code c = some l → decode l = some c

namespace Scheme

variable (S : Scheme α)

/-- What is written for one character. -/
def block (c : α) : List α := (S.code c).elim [c] fun l => [S.mark, l]

def escape (text : List α) : List α := text.flatMap S.block

variable [DecidableEq α]

def unescape : List α → Option (List α)
  | [] => some []
  | [c] => if c = S.mark then none else some [c]
  | c :: l :: rest =>
      if c = S.mark then
        (S.decode l).bind fun d => (unescape rest).map fun text => d :: text
      else (unescape (l :: rest)).map fun text => c :: text

/-- The text up to a closing character, and what is behind it. -/
def readUntil (close : α) : List α → Option (List α × List α)
  | [] => none
  | [c] => if c = close then some ([], []) else none
  | c :: l :: rest =>
      if c = close then some ([], l :: rest)
      else if c = S.mark then
        (S.decode l).bind fun d => (readUntil close rest).map fun (text, rest) => (d :: text, rest)
      else (readUntil close (l :: rest)).map fun (text, rest) => (c :: text, rest)

variable {S}

omit [DecidableEq α] in
theorem ne_mark {c : α} (h : S.code c = none) : c ≠ S.mark := by
  rintro rfl
  have hmark := S.mark_escaped
  rw [h] at hmark
  cases hmark

omit [DecidableEq α] in
theorem escape_cons (c : α) (text : List α) : S.escape (c :: text) = S.block c ++ S.escape text :=
  List.flatMap_cons

omit [DecidableEq α] in
theorem escape_concat (text : List α) (c : α) :
    S.escape (text ++ [c]) = S.escape text ++ S.block c := by
  simp [escape]

/-! ## Reading back -/

theorem unescape_cons_of_ne {c : α} (h : c ≠ S.mark) (rest : List α) :
    S.unescape (c :: rest) = (S.unescape rest).map fun text => c :: text := by
  cases rest with
  | nil => simp [unescape, h]
  | cons l rest => rw [unescape, if_neg h]

theorem unescape_escape (text : List α) : S.unescape (S.escape text) = some text := by
  induction text with
  | nil => rfl
  | cons c text ih =>
      rw [escape_cons, block]
      cases hcode : S.code c with
      | none =>
          simp only [Option.elim_none, List.singleton_append]
          rw [unescape_cons_of_ne (ne_mark hcode), ih]
          rfl
      | some l =>
          simp only [Option.elim_some, List.cons_append, List.nil_append]
          rw [unescape, if_pos rfl, S.decode_code hcode, ih]
          rfl

theorem escape_injective {text other : List α} (h : S.escape text = S.escape other) :
    text = other := by
  have hread := unescape_escape (S := S) text
  rw [h, unescape_escape] at hread
  exact (Option.some.inj hread).symm

theorem readUntil_cons_of_ne {close c : α} (hc : c ≠ close) (h : c ≠ S.mark) {rest : List α}
    (hrest : rest ≠ []) :
    S.readUntil close (c :: rest) =
      (S.readUntil close rest).map fun (text, rest) => (c :: text, rest) := by
  cases rest with
  | nil => exact absurd rfl hrest
  | cons l rest => rw [readUntil, if_neg hc, if_neg h]

/-- An escaped closing character does not close. -/
theorem readUntil_escape {close : α} (hclose : (S.code close).isSome) (hmark : S.mark ≠ close)
    (text rest : List α) :
    S.readUntil close (S.escape text ++ close :: rest) = some (text, rest) := by
  induction text with
  | nil =>
      cases rest with
      | nil => simp [escape, readUntil]
      | cons l rest => simp [escape, readUntil]
  | cons c text ih =>
      rw [escape_cons, block]
      cases hcode : S.code c with
      | none =>
          have hc : c ≠ close := by
            rintro rfl
            rw [hcode] at hclose
            cases hclose
          simp only [Option.elim_none, List.cons_append, List.nil_append]
          rw [readUntil_cons_of_ne hc (ne_mark hcode) (by simp), ih]
          rfl
      | some l =>
          simp only [Option.elim_some, List.cons_append, List.nil_append]
          rw [readUntil, if_neg hmark, if_pos rfl, S.decode_code hcode, ih]
          rfl

/-! ## What is not written -/

omit [DecidableEq α] in
/-- An escaped character that is no letter and no mark does not come up at all. -/
theorem notMem_escape {d : α} (hd : (S.code d).isSome) (hmark : d ≠ S.mark)
    (hletter : ∀ c, S.code c ≠ some d) (text : List α) : d ∉ S.escape text := by
  rw [escape, List.mem_flatMap]
  rintro ⟨c, _, hin⟩
  rw [block] at hin
  cases hcode : S.code c with
  | none =>
      rw [hcode, Option.elim_none, List.mem_singleton] at hin
      subst hin
      rw [hcode] at hd
      cases hd
  | some l =>
      rw [hcode, Option.elim_some, List.mem_pair] at hin
      obtain rfl | rfl := hin
      · exact hmark rfl
      · exact hletter c hcode

variable (S) in
/-- The length of the run of marks at the end. -/
def markRun (text : List α) : Nat := (text.rtakeWhile fun c => decide (c = S.mark)).length

theorem markRun_concat_mark (text : List α) :
    S.markRun (text ++ [S.mark]) = S.markRun text + 1 := by
  rw [markRun, List.rtakeWhile_concat_pos _ _ _ (by simp), List.length_append]
  rfl

theorem markRun_concat_of_ne {c : α} (h : c ≠ S.mark) (text : List α) :
    S.markRun (text ++ [c]) = 0 := by
  rw [markRun, List.rtakeWhile_concat_neg _ _ _ (by simpa using h)]
  rfl

/-- The marks at the end of escaped text are letters of marks, each behind another mark. -/
theorem even_markRun_escape (text : List α) : Even (S.markRun (S.escape text)) := by
  induction text using List.reverseRecOn with
  | nil => exact ⟨0, rfl⟩
  | append_singleton text c ih =>
      rw [escape_concat, block]
      cases hcode : S.code c with
      | none =>
          rw [Option.elim_none, markRun_concat_of_ne (ne_mark hcode)]
          exact ⟨0, rfl⟩
      | some l =>
          have hsplit : S.escape text ++ [S.mark, l] = (S.escape text ++ [S.mark]) ++ [l] := by
            simp
          rw [Option.elim_some, hsplit]
          by_cases hl : l = S.mark
          · rw [hl, markRun_concat_mark, markRun_concat_mark]
            obtain ⟨n, hn⟩ := ih
            exact ⟨n + 1, by omega⟩
          · rw [markRun_concat_of_ne hl]
            exact ⟨0, rfl⟩

/-- Where an escaped character comes up it is the letter behind a mark: the run of marks
before it is odd. -/
theorem odd_markRun_before {d : α} (hd : (S.code d).isSome) (hmark : d ≠ S.mark)
    (text : List α) {before after : List α} (h : S.escape text = before ++ d :: after) :
    Odd (S.markRun before) := by
  induction text using List.reverseRecOn generalizing after with
  | nil => simp [escape] at h
  | append_singleton text c ih =>
      have hblock : ∀ tail, S.block c ≠ d :: tail := by
        intro tail hblock
        rw [block] at hblock
        cases hcode : S.code c with
        | none =>
            rw [hcode] at hblock
            rw [← (List.cons.inj hblock).1, hcode] at hd
            cases hd
        | some l =>
            rw [hcode] at hblock
            exact hmark (List.cons.inj hblock).1.symm
      rw [escape_concat, List.append_eq_append_iff] at h
      obtain ⟨front, rfl, hfront⟩ | ⟨rest, htext, hrest⟩ := h
      · cases front with
        | nil => exact absurd hfront (hblock after)
        | cons m front =>
            -- a block of two, the mark and the character as its letter
            rw [block] at hfront
            cases hcode : S.code c with
            | none =>
                rw [hcode] at hfront
                simp at hfront
            | some l =>
                rw [hcode, Option.elim_some, List.cons_append] at hfront
                obtain ⟨rfl, htail⟩ := List.cons.inj hfront
                cases front with
                | nil =>
                    rw [markRun_concat_mark]
                    exact (even_markRun_escape text).add_one
                | cons m' front => simp at htail
      · cases rest with
        | nil => exact absurd hrest.symm (hblock after)
        | cons d' rest =>
            obtain ⟨rfl, _⟩ := List.cons.inj hrest
            exact ih htext

end Scheme

end Escaping
