import Retracer.Library.Quoting

/-! # Reading SQL text

The part of the PostgreSQL lexer that plain statements use, as a machine over characters:
words, operators of `<`, `=`, `>` and `-`, casts, parameters, punctuation and string
constants with standard conforming strings. Whatever else the lexer knows (other quotes,
comments, numbers, constants with a prefix or in several parts) is refused here, so text
that is read is read by these rules alone.
-/

namespace Sql

open Execution Quoting

/-! ## The lexer -/

inductive Token where
  | word (text : List Char)
  | op (text : List Char)
  | typecast
  | param (digits : List Char)
  | punct (c : Char)
  | text (value : List Char)
deriving DecidableEq

def isSpace (c : Char) : Bool := c == ' ' || (9 ≤ c.toNat && c.toNat ≤ 13)

def isIdentStart (c : Char) : Bool := c.isAlpha || c == '_'

def isIdentPart (c : Char) : Bool := c.isAlphanum || c == '_' || c == '$'

def isOperator (c : Char) : Bool := c == '<' || c == '=' || c == '>' || c == '-'

def isPunct (c : Char) : Bool := c == '(' || c == ')' || c == ',' || c == ';'

/-- What is being read. Between two tokens it matters whether a constant came last, since
the next one might continue it. -/
inductive Mode where
  | between (afterText : Bool)
  | word (text : List Char)
  | op (text : List Char)
  | colon
  | param (digits : List Char)
  | inside (text : List Char)
  | closing (text : List Char)

namespace Mode

/-- The token that a mode is in, if it may end here. -/
def pending : Mode → Option (List Token)
  | between _ => some []
  | word text => some [.word text]
  | op text => some [.op text]
  | colon => none
  | param digits => if digits.isEmpty then none else some [.param digits]
  | inside _ => none
  | closing text => some [.text text]

def afterText : Mode → Bool
  | between afterText => afterText
  | closing _ => true
  | _ => false

/-- A character that the token goes on with. -/
def grow : Mode → Char → Option Mode
  | word text, c => if isIdentPart c then some (word (text ++ [c])) else none
  | op text, c => if isOperator c && c != '-' then some (op (text ++ [c])) else none
  | param digits, c => if c.isDigit then some (param (digits ++ [c])) else none
  | inside text, c => if c = '\'' then some (closing text) else some (inside (text ++ [c]))
  | closing text, c => if c = '\'' then some (inside (text ++ [c])) else none
  | _, _ => none

/-- A character that may not stand right behind the token: it would be the prefix of a
constant, a comment or a bad parameter. -/
def clashes : Mode → Char → Bool
  | word _, c => c == '\''
  | op _, c => c == '-'
  | param _, c => isIdentStart c
  | _, _ => false

/-- The first character of a token. -/
def first (afterText : Bool) (c : Char) : Option (Mode × List Token) :=
  if isIdentStart c then some (word [c], [])
  else if isSpace c then some (between afterText, [])
  else if isOperator c then some (op [c], [])
  else if isPunct c then some (between false, [.punct c])
  else if c = ':' then some (colon, [])
  else if c = '$' then some (param [], [])
  else if c = '\'' && !afterText then some (inside [], [])
  else none

end Mode

structure Lexer where
  mode : Mode
  tokens : List Token

def step (s : Lexer) (c : Char) : Option Lexer :=
  match s.mode with
  | .colon => if c = ':' then some ⟨.between false, s.tokens ++ [.typecast]⟩ else none
  | mode =>
      match mode.grow c with
      | some mode => some ⟨mode, s.tokens⟩
      | none =>
          if mode.clashes c then none
          else
            mode.pending.bind fun done =>
              (Mode.first mode.afterText c).map fun (mode, fresh) =>
                ⟨mode, s.tokens ++ (done ++ fresh)⟩

/-- The tokens of a whole text. -/
def lex (text : String) : Option (List Token) :=
  (exec step ⟨.between false, []⟩ text.toList).bind fun s => s.mode.pending.map (s.tokens ++ ·)

/-! ## Reading piece by piece -/

/-- The characters lead from one mode to another and complete some tokens. -/
def Reads (m : Mode) (cs : List Char) (m' : Mode) (tokens : List Token) : Prop :=
  exec step ⟨m, []⟩ cs = some ⟨m', tokens⟩

theorem step_tokens (m : Mode) (tokens : List Token) (c : Char) :
    step ⟨m, tokens⟩ c = (step ⟨m, []⟩ c).map fun s => ⟨s.mode, tokens ++ s.tokens⟩ := by
  unfold step
  cases m <;> simp only
  case colon => split <;> simp
  all_goals
    split
    · simp
    · split
      · rfl
      · simp [Option.map_bind, Function.comp_def]

theorem exec_tokens (m : Mode) (tokens : List Token) (cs : List Char) :
    exec step ⟨m, tokens⟩ cs =
      (exec step ⟨m, []⟩ cs).map fun s => ⟨s.mode, tokens ++ s.tokens⟩ := by
  induction cs generalizing m tokens with
  | nil => simp [exec]
  | cons c cs ih =>
      rw [exec_cons, exec_cons, step_tokens m tokens]
      cases step ⟨m, []⟩ c with
      | none => rfl
      | some s =>
          obtain ⟨m', done⟩ := s
          simp only [Option.map_some, Option.bind_some]
          rw [ih m' (tokens ++ done), ih m' done]
          simp [Function.comp_def]

theorem Reads.append {m m' m'' : Mode} {as bs : List Char} {ts us : List Token}
    (h : Reads m as m' ts) (h' : Reads m' bs m'' us) : Reads m (as ++ bs) m'' (ts ++ us) := by
  rw [Reads, exec_append_of_exec h, exec_tokens, h']
  rfl

theorem Reads.cons {m m' m'' : Mode} {c : Char} {cs : List Char} {ts us : List Token}
    (h : step ⟨m, []⟩ c = some ⟨m', ts⟩) (h' : Reads m' cs m'' us) :
    Reads m (c :: cs) m'' (ts ++ us) := by
  rw [Reads, exec_cons_of_step h, exec_tokens, h']
  rfl

theorem lex_of_reads {text : String} {m : Mode} {ts last : List Token}
    (h : Reads (.between false) text.toList m ts) (hlast : m.pending = some last) :
    lex text = some (ts ++ last) := by
  rw [lex, h, Option.bind_some, hlast, Option.map_some]

/-! ## Words and constants -/

theorem reads_word_more {cs : List Char} (acc : List Char)
    (h : ∀ c ∈ cs, isIdentPart c = true) : Reads (.word acc) cs (.word (acc ++ cs)) [] := by
  induction cs generalizing acc with
  | nil => simp [Reads, exec]
  | cons c cs ih =>
      rw [List.forall_mem_cons] at h
      have hstep : step ⟨.word acc, []⟩ c = some ⟨.word (acc ++ [c]), []⟩ := by
        simp [step, Mode.grow, h.1]
      have hrest := Reads.cons hstep (ih (acc ++ [c]) h.2)
      rw [List.append_assoc] at hrest
      exact hrest

/-- An identifier at the start of a token. -/
theorem reads_word {c : Char} {cs : List Char} (hc : isIdentStart c = true)
    (h : ∀ d ∈ cs, isIdentPart d = true) (afterText : Bool) :
    Reads (.between afterText) (c :: cs) (.word (c :: cs)) [] := by
  have hstep : step ⟨.between afterText, []⟩ c = some ⟨.word [c], []⟩ := by
    simp [step, Mode.grow, Mode.clashes, Mode.pending, Mode.first, hc]
  exact Reads.cons hstep (reads_word_more [c] h)

theorem readsDoubled : ReadsDoubled step '\'' (fun text => ⟨.inside text, []⟩)
    (fun text => ⟨.closing text, []⟩) where
  text := fun acc c hc => by simp [step, Mode.grow, hc]
  quote := fun acc => by simp [step, Mode.grow]
  again := fun acc => by simp [step, Mode.grow]

/-- A constant with its quotes doubled. -/
theorem reads_doubled (text : List Char) :
    Reads (.inside []) (doubled '\'' text ++ ['\'']) (.closing text) [] :=
  readsDoubled.exec_closed text

theorem doubled_of_notMem {q : Char} {text : List Char} (h : q ∉ text) :
    doubled q text = text := by
  induction text with
  | nil => rfl
  | cons c text ih =>
      rw [List.mem_cons, not_or] at h
      rw [doubled_cons, if_neg (Ne.symm h.1), ih h.2]
      rfl

/-- A constant without quotes in it. -/
theorem reads_plain {text : List Char} (h : '\'' ∉ text) :
    Reads (.inside []) (text ++ ['\'']) (.closing text) [] := by
  have hread := reads_doubled text
  rw [doubled_of_notMem h] at hread
  exact hread

end Sql
