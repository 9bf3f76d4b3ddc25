import Retracer.Library.Csv
import Retracer.Storage.StateReads

/-! # Audit exports

Both audit endpoints write their rows as CSV, every field in quotes, under a header
without quotes. The SHA-256 in the response is over the bytes of the body.
-/

namespace Retracer

open Quoting

/-! ## The rows -/

structure AuditTransferRow where
  actionHash : String
  blockHeight : Int
  indexInBlock : Int
  blockHash : String
  timestamp : Int
  kind : String
  «from» : Option String
  «to» : Option String
  amount : Option String
  fromState : Option Json
  toState : Option Json

/-- `jsonText` is the `to_string` of a JSON value. -/
def AuditTransferRow.values (jsonText : Json → String) (row : AuditTransferRow) : List String :=
  [ row.actionHash,
    toString row.blockHeight,
    toString row.indexInBlock,
    row.blockHash,
    toString row.timestamp,
    row.kind,
    row.from.getD "",
    row.to.getD "",
    row.amount.getD "",
    (row.fromState.map jsonText).getD "",
    (row.toState.map jsonText).getD "" ]

def HolderRow.values (jsonText : Json → String) (row : HolderRow) : List String :=
  [ row.holder,
    row.balance,
    toString row.height,
    (row.state.map jsonText).getD "",
    row.jurisdiction.getD "" ]

/-! ## The body -/

def csvCell (value : String) : String := "\"" ++ replaceChar '"' "\"\"" value ++ "\""

/-- The loop of both handlers, from the header on. -/
def csvBody (header : String) (rows : List (List String)) : String :=
  rows.foldl (fun out values => out ++ ",".intercalate (values.map csvCell) ++ "\n") header

/-- The records of either endpoint. -/
inductive AuditRecords where
  | transfers (rows : List AuditTransferRow)
  | holders (rows : List HolderRow)

namespace AuditRecords

/-- What the body starts with. -/
def headerLine : AuditRecords → String
  | transfers _ =>
      "action_hash,block_height,index_in_block,block_hash,timestamp,kind,from,to,amount," ++
        "from_state_h_minus_1,to_state_h_minus_1\n"
  | holders _ => "holder,balance,balance_height,compliance_state,jurisdiction\n"

def header : AuditRecords → List String
  | transfers _ =>
      ["action_hash", "block_height", "index_in_block", "block_hash", "timestamp", "kind",
        "from", "to", "amount", "from_state_h_minus_1", "to_state_h_minus_1"]
  | holders _ => ["holder", "balance", "balance_height", "compliance_state", "jurisdiction"]

/-- The field strings that are written, row by row. -/
def fields (jsonText : Json → String) : AuditRecords → List (List String)
  | transfers rows => rows.map (·.values jsonText)
  | holders rows => rows.map (·.values jsonText)

def csv (jsonText : Json → String) (records : AuditRecords) : String :=
  csvBody records.headerLine (records.fields jsonText)

end AuditRecords

inductive ExportFormat where
  | json
  | csv
deriving DecidableEq

structure AuditResponse where
  contentType : String
  contentDisposition : String
  auditSha256 : String
  body : String

/-- `body.as_bytes()`. -/
def hashInput (body : String) : ByteArray := body.toUTF8

/-- `hexSha256` is the hex text of the SHA-256 of some bytes. -/
def auditResponse (hexSha256 : ByteArray → String) (body : String) (format : ExportFormat)
    (filename : String) : AuditResponse :=
  { contentType :=
      match format with
      | .json => "application/json"
      | .csv => "text/csv; charset=utf-8"
    contentDisposition := filename
    auditSha256 := hexSha256 (hashInput body)
    body }

/-! ## Reading it back -/

theorem toList_csvCell (value : String) :
    (csvCell value).toList = '"' :: (doubled '"' value.toList ++ ['"']) := by
  have hdoubled := toList_replaceChar_twice '"' value
  simp only [csvCell, String.toList_append]
  rw [← hdoubled]
  rfl

theorem toList_csvLine (values : List String) :
    (",".intercalate (values.map csvCell) ++ "\n").toList =
      Csv.line (values.map fun value => '"' :: (doubled '"' value.toList ++ ['"'])) := by
  rw [String.toList_append, String.toList_intercalate, List.map_map, Csv.line]
  simp only [Function.comp_def, toList_csvCell]
  rfl

theorem toList_csvBody (header : String) (rows : List (List String)) :
    (csvBody header rows).toList = header.toList ++
      rows.flatMap fun values =>
        Csv.line (values.map fun value => '"' :: (doubled '"' value.toList ++ ['"'])) := by
  unfold csvBody
  induction rows generalizing header with
  | nil => simp
  | cons values rows ih =>
      rw [List.foldl_cons, ih, List.flatMap_cons, String.append_assoc, String.toList_append,
        toList_csvLine, List.append_assoc]

theorem read_csvBody {header : String} {names : List String} {rows : List (List String)}
    (hheader : header = ",".intercalate names ++ "\n") (hplain : ∀ name ∈ names, Csv.isPlain name)
    (hnames : names ≠ []) (hne : ∀ values ∈ rows, values ≠ []) :
    Csv.read (csvBody header rows) = some (names :: rows) := by
  apply Csv.read_document hplain hnames hne
  rw [toList_csvBody, hheader, String.toList_append, String.toList_intercalate]
  rfl

namespace AuditRecords

theorem headerLine_eq (records : AuditRecords) :
    records.headerLine = ",".intercalate records.header ++ "\n" := by
  cases records with
  | transfers rows =>
      have htransfers : (transfers []).headerLine =
          ",".intercalate (transfers []).header ++ "\n" := by decide +kernel
      exact htransfers
  | holders rows =>
      have hholders : (holders []).headerLine =
          ",".intercalate (holders []).header ++ "\n" := by decide +kernel
      exact hholders

theorem plain_header (records : AuditRecords) :
    ∀ name ∈ records.header, Csv.isPlain name := by
  cases records with
  | transfers rows => simp only [header]; decide
  | holders rows => simp only [header]; decide

theorem header_ne_nil (records : AuditRecords) : records.header ≠ [] := by
  cases records <;> exact List.cons_ne_nil _ _

variable (jsonText : Json → String)

theorem ne_nil_of_mem_fields (records : AuditRecords) :
    ∀ values ∈ records.fields jsonText, values ≠ [] := by
  intro values hvalues
  cases records with
  | transfers rows =>
      obtain ⟨row, _, rfl⟩ := List.mem_map.mp hvalues
      exact List.cons_ne_nil _ _
  | holders rows =>
      obtain ⟨row, _, rfl⟩ := List.mem_map.mp hvalues
      exact List.cons_ne_nil _ _

theorem read_csv (records : AuditRecords) :
    Csv.read (records.csv jsonText) = some (records.header :: records.fields jsonText) :=
  read_csvBody records.headerLine_eq records.plain_header records.header_ne_nil
    (records.ne_nil_of_mem_fields jsonText)

theorem csv_injective {records other : AuditRecords}
    (h : records.csv jsonText = other.csv jsonText) :
    records.header = other.header ∧ records.fields jsonText = other.fields jsonText := by
  have hread := read_csv jsonText records
  rw [h, read_csv jsonText other] at hread
  obtain ⟨hheader, hfields⟩ := List.cons.inj (Option.some.inj hread)
  exact ⟨hheader.symm, hfields.symm⟩

end AuditRecords

/-- A CSV reader gets back the header and the fields of every row, so exports that differ in
a field differ in their body and in what is hashed. -/
theorem audit_csv_reads_back (jsonText : Json → String) (records : AuditRecords) :
    Csv.read (records.csv jsonText) = some (records.header :: records.fields jsonText) ∧
      ∀ other : AuditRecords, other.fields jsonText ≠ records.fields jsonText →
        other.csv jsonText ≠ records.csv jsonText ∧
          hashInput (other.csv jsonText) ≠ hashInput (records.csv jsonText) := by
  refine ⟨records.read_csv jsonText, fun other hne => ?_⟩
  have hbody : other.csv jsonText ≠ records.csv jsonText := fun h =>
    hne (AuditRecords.csv_injective jsonText h).2
  exact ⟨hbody, fun h => hbody (String.toByteArray_inj.mp h)⟩

end Retracer
