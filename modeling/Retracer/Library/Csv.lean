import Retracer.Library.Quoting

/-! # Reading CSV

A reader of RFC 4180 as a machine over characters, with a line feed as the end of a line.
It is strict: a quote inside an unquoted field, text behind a closing quote, a carriage
return outside quotes and an unclosed quote are errors.
-/

namespace Csv

open Execution Quoting

/-! ## The reader -/

/-- Where the reader is within a field. -/
inductive Cell where
  | fresh
  | plain (text : List Char)
  | quoted (text : List Char)
  | closed (text : List Char)

structure Reader where
  cell : Cell
  record : List String
  records : List (List String)

namespace Reader

def start : Reader := ⟨.fresh, [], []⟩

def endCell (r : Reader) (text : List Char) : Reader :=
  { r with cell := .fresh, record := r.record ++ [String.ofList text] }

def endRecord (r : Reader) (text : List Char) : Reader :=
  { cell := .fresh, record := [], records := r.records ++ [r.record ++ [String.ofList text]] }

/-- A character behind a field: it has to end the field. -/
def separator (r : Reader) (text : List Char) (c : Char) : Option Reader :=
  if c = ',' then some (r.endCell text)
  else if c = '\n' then some (r.endRecord text)
  else none

/-- A character of an unquoted field. -/
def plainChar (r : Reader) (text : List Char) (c : Char) : Option Reader :=
  if c = '"' ∨ c = '\r' then none
  else if c = ',' ∨ c = '\n' then r.separator text c
  else some { r with cell := .plain (text ++ [c]) }

def step (r : Reader) (c : Char) : Option Reader :=
  match r.cell with
  | .fresh => if c = '"' then some { r with cell := .quoted [] } else r.plainChar [] c
  | .plain text => r.plainChar text c
  | .quoted text =>
      if c = '"' then some { r with cell := .closed text }
      else some { r with cell := .quoted (text ++ [c]) }
  | .closed text =>
      if c = '"' then some { r with cell := .quoted (text ++ [c]) } else r.separator text c

/-- The line end behind the last record is optional. -/
def finish (r : Reader) : Option (List (List String)) :=
  match r.cell with
  | .fresh => some (if r.record = [] then r.records else (r.endRecord []).records)
  | .plain text => some (r.endRecord text).records
  | .quoted _ => none
  | .closed text => some (r.endRecord text).records

end Reader

def read (text : String) : Option (List (List String)) :=
  (exec Reader.step .start text.toList).bind Reader.finish

/-! ## Cells -/

/-- Written at the start of a field, the characters leave a reader that takes a comma or a
line end as the end of exactly this field. -/
def Writes (written : List Char) (text : String) : Prop :=
  ∀ record records, ∃ r,
    exec Reader.step ⟨.fresh, record, records⟩ written = some r ∧
      r.step ',' = some ⟨.fresh, record ++ [text], records⟩ ∧
      r.step '\n' = some ⟨.fresh, [], records ++ [record ++ [text]]⟩

theorem readsDoubled (record : List String) (records : List (List String)) :
    ReadsDoubled Reader.step '"' (fun text => ⟨.quoted text, record, records⟩)
      (fun text => ⟨.closed text, record, records⟩) where
  text := fun acc c hc => by simp [Reader.step, hc]
  quote := fun acc => by simp [Reader.step]
  again := fun acc => by simp [Reader.step]

/-- A quoted field may hold anything. -/
theorem writes_quoted (text : String) :
    Writes ('"' :: (doubled '"' text.toList ++ ['"'])) text := by
  intro record records
  have hclosed := (readsDoubled record records).exec_closed text.toList
  refine ⟨⟨.closed text.toList, record, records⟩, ?_, ?_, ?_⟩
  · have hopen : Reader.step ⟨.fresh, record, records⟩ '"' = some ⟨.quoted [], record, records⟩ :=
      rfl
    rw [exec_cons_of_step hopen]
    exact hclosed
  · simp [Reader.step, Reader.separator, Reader.endCell]
  · simp [Reader.step, Reader.separator, Reader.endRecord]

/-- A field that may stand without quotes. -/
def isPlain (text : String) : Bool :=
  text.toList.all fun c => c != '"' && c != '\r' && c != ',' && c != '\n'

theorem plainChar_of_isPlain (r : Reader) (acc : List Char) {c : Char}
    (hc : c != '"' && c != '\r' && c != ',' && c != '\n') :
    r.plainChar acc c = some { r with cell := .plain (acc ++ [c]) } := by
  simp only [Bool.and_eq_true, bne_iff_ne, ne_eq] at hc
  obtain ⟨⟨⟨hquote, hreturn⟩, hcomma⟩, hline⟩ := hc
  simp [Reader.plainChar, hquote, hreturn, hcomma, hline]

theorem exec_plain {record : List String} {records : List (List String)} {cs : List Char}
    (acc : List Char) (h : cs.all fun c => c != '"' && c != '\r' && c != ',' && c != '\n') :
    exec Reader.step ⟨.plain acc, record, records⟩ cs =
      some ⟨.plain (acc ++ cs), record, records⟩ := by
  induction cs generalizing acc with
  | nil => simp [exec]
  | cons c cs ih =>
      rw [List.all_cons, Bool.and_eq_true] at h
      have hstep : Reader.step ⟨.plain acc, record, records⟩ c =
          some ⟨.plain (acc ++ [c]), record, records⟩ := plainChar_of_isPlain _ acc h.1
      rw [exec_cons_of_step hstep, ih (acc ++ [c]) h.2, List.append_assoc]
      rfl

theorem writes_plain {text : String} (h : isPlain text) : Writes text.toList text := by
  intro record records
  cases hcs : text.toList with
  | nil =>
      have hempty : text = "" := String.toList_eq_nil_iff.mp hcs
      subst hempty
      exact ⟨⟨.fresh, record, records⟩, rfl, by simp [Reader.step, Reader.plainChar,
        Reader.separator, Reader.endCell], by simp [Reader.step, Reader.plainChar,
        Reader.separator, Reader.endRecord]⟩
  | cons c cs =>
      rw [isPlain, hcs, List.all_cons, Bool.and_eq_true] at h
      have hquote : c ≠ '"' := by
        rintro rfl
        exact absurd h.1 (by decide)
      have hstep : Reader.step ⟨.fresh, record, records⟩ c =
          some ⟨.plain [c], record, records⟩ := by
        rw [Reader.step, if_neg hquote]
        exact plainChar_of_isPlain _ [] h.1
      have htext : String.ofList (c :: cs) = text := by rw [← hcs, String.ofList_toList]
      refine ⟨⟨.plain (c :: cs), record, records⟩, ?_, ?_, ?_⟩
      · rw [exec_cons_of_step hstep]
        exact exec_plain [c] h.2
      · simp [Reader.step, Reader.plainChar, Reader.separator, Reader.endCell, htext]
      · simp [Reader.step, Reader.plainChar, Reader.separator, Reader.endRecord, htext]

/-! ## Records -/

/-- Fields between commas, then a line end. -/
def line (cells : List (List Char)) : List Char := [','].intercalate cells ++ ['\n']

theorem line_cons_cons (cell next : List Char) (cells : List (List Char)) :
    line (cell :: next :: cells) = cell ++ ',' :: line (next :: cells) := by
  simp [line, List.intercalate]

/-- A line whose fields are written properly is one record of them. -/
theorem exec_line (record : List String) (records : List (List String))
    {write : String → List Char} {texts : List String}
    (hwrite : ∀ text ∈ texts, Writes (write text) text) (hne : texts ≠ []) :
    exec Reader.step ⟨.fresh, record, records⟩ (line (texts.map write)) =
      some ⟨.fresh, [], records ++ [record ++ texts]⟩ := by
  induction texts generalizing record with
  | nil => exact absurd rfl hne
  | cons text texts ih =>
      obtain ⟨r, hcell, hcomma, hline⟩ := hwrite text List.mem_cons_self record records
      cases texts with
      | nil =>
          simp only [List.map_cons, List.map_nil, line, List.intercalate_singleton]
          rw [exec_append_of_exec hcell, exec_cons_of_step hline]
          rfl
      | cons next texts =>
          have hrest := ih (record ++ [text])
            (fun t ht => hwrite t (List.mem_cons_of_mem text ht)) (List.cons_ne_nil next texts)
          rw [List.append_assoc, List.singleton_append] at hrest
          rw [List.map_cons, List.map_cons, line_cons_cons, exec_append_of_exec hcell,
            exec_cons_of_step hcomma, ← List.map_cons]
          exact hrest

theorem exec_lines {records : List (List String)} {write : String → List Char}
    (hwrite : ∀ text, Writes (write text) text) {rows : List (List String)}
    (hne : ∀ row ∈ rows, row ≠ []) :
    exec Reader.step ⟨.fresh, [], records⟩ (rows.flatMap fun row => line (row.map write)) =
      some ⟨.fresh, [], records ++ rows⟩ := by
  induction rows generalizing records with
  | nil => simp [exec]
  | cons row rows ih =>
      rw [List.forall_mem_cons] at hne
      rw [List.flatMap_cons,
        exec_append_of_exec (exec_line [] records (fun text _ => hwrite text) hne.1), ih hne.2]
      simp

/-- A header of plain fields and lines of quoted ones read back as they were written. -/
theorem read_document {header : List String} {rows : List (List String)}
    (hheader : ∀ text ∈ header, isPlain text) (hfields : header ≠ [])
    (hne : ∀ row ∈ rows, row ≠ []) {document : String}
    (h : document.toList = line (header.map String.toList) ++
      rows.flatMap fun row =>
        line (row.map fun text => '"' :: (doubled '"' text.toList ++ ['"']))) :
    read document = some (header :: rows) := by
  have hfirst := exec_line [] [] (fun text ht => writes_plain (hheader text ht)) hfields
  rw [read, h, Reader.start, exec_append_of_exec hfirst, exec_lines writes_quoted hne]
  rfl

end Csv
