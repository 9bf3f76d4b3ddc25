import Retracer.Library.Escaping
import Retracer.Library.Quoting

/-! # Metric labels

`render_metrics` writes chain ids and table names into label values. `escape_label` makes
three replacements one after the other; their order matters, since the later two write
backslashes too.
-/

namespace Retracer

open Quoting Escaping

/-! ## The page -/

def escapeLabel (value : String) : String :=
  replaceChar '\n' "\\n" (replaceChar '"' "\\\"" (replaceChar '\\' "\\\\" value))

example : escapeLabel "a\"b\\c" = "a\\\"b\\\\c" := by decide

structure TableSize where
  table : String
  totalBytes : Int
  rowsEstimate : Int

structure ChainMetrics where
  chainId : String
  indexedHeight : Option Int
  nodeTipHeight : Option Nat
  blocksBehind : Option Int
  finalizedHeight : Option Nat
  tipAgeSeconds : Option Int
  networkFresh : Bool

/-- The two comment lines above a metric. -/
def gaugeHeader (name help : String) : String :=
  "# HELP " ++ name ++ " " ++ help ++ "\n# TYPE " ++ name ++ " gauge\n"

/-- `name{label="value"} number`. -/
def sampleLine (name label value number : String) : String :=
  name ++ "\x7b" ++ label ++ "=\"" ++ escapeLabel value ++ "\"\x7d " ++ number ++ "\n"

/-- A metric with one sample per item that has a number. -/
def gauge {α : Type} (name help label : String) (value : α → String) (number : α → Option String)
    (items : List α) : String :=
  gaugeHeader name help ++
    String.join (items.filterMap fun item => (number item).map (sampleLine name label (value item)))

def databaseMetrics (size : Int) (tables : List TableSize) : String :=
  gaugeHeader "retracer_database_size_bytes" "Total on-disk size of the database." ++
    "retracer_database_size_bytes " ++ toString size ++ "\n" ++
    gauge "retracer_table_size_bytes" "Total on-disk size of one table, including indexes." "table"
      TableSize.table (fun t => some (toString t.totalBytes)) tables ++
    gauge "retracer_table_rows_estimate" "Planner row-count estimate for one table." "table"
      TableSize.table (fun t => some (toString t.rowsEstimate)) tables

def chainGauge (name help : String) (number : ChainMetrics → Option String)
    (chains : List ChainMetrics) : String :=
  gauge name help "chain_id" ChainMetrics.chainId number chains

/-- The page from the figures of each chain on. -/
def renderMetrics (chains : List ChainMetrics) (db : Option (Int × List TableSize)) : String :=
  gaugeHeader "retracer_database_up"
      "Whether the last database check for this scrape succeeded." ++
    "retracer_database_up " ++ (if db.isSome then "1" else "0") ++ "\n" ++
    db.elim "" (fun (size, tables) => databaseMetrics size tables) ++
    chainGauge "retracer_indexed_height" "Highest block height written to storage."
      (fun c => c.indexedHeight.map toString) chains ++
    chainGauge "retracer_node_tip_height"
      "Highest tip height reported by a currently connected, fresh peer."
      (fun c => c.nodeTipHeight.map toString) chains ++
    chainGauge "retracer_blocks_behind" "Gap between the indexed height and the network tip."
      (fun c => c.blocksBehind.map toString) chains ++
    chainGauge "retracer_finalized_height"
      "Highest height a connected peer holds a finality certificate for."
      (fun c => c.finalizedHeight.map toString) chains ++
    chainGauge "retracer_tip_age_seconds"
      "Age in seconds of the indexed tip's own on-chain timestamp."
      (fun c => c.tipAgeSeconds.map toString) chains ++
    chainGauge "retracer_network_fresh"
      "Whether this chain's network view is fresh (1) or stale/absent (0)."
      (fun c => some (if c.networkFresh then "1" else "0")) chains

/-! ## The exposition format -/

/-- Label values of the format: `\\`, `\"` and `\n`. -/
def prometheus : Scheme Char where
  mark := '\\'
  code c := if c = '\\' then some '\\' else if c = '"' then some '"'
    else if c = '\n' then some 'n' else none
  decode l := if l = '\\' then some '\\' else if l = '"' then some '"'
    else if l = 'n' then some '\n' else none
  mark_escaped := rfl
  decode_code := by
    intro c l h
    split at h
    · cases h
      simp [*]
    · split at h
      · cases h
        simp [*]
      · split at h
        · cases h
          simp [*]
        · cases h

/-- The three replacements are one pass. -/
theorem toList_escapeLabel (s : String) :
    (escapeLabel s).toList = prometheus.escape s.toList := by
  rw [escapeLabel, toList_replaceChar, toList_replaceChar, toList_replaceChar]
  induction s.toList with
  | nil => rfl
  | cons c cs ih =>
      rw [Scheme.escape_cons, ← ih, List.flatMap_cons, List.flatMap_append, List.flatMap_append]
      congr 1
      by_cases hmark : c = '\\'
      · subst hmark
        decide
      · by_cases hquote : c = '"'
        · subst hquote
          decide
        · by_cases hline : c = '\n'
          · subst hline
            decide
          · simp [Scheme.block, prometheus, hmark, hquote, hline]

def unescapeLabel (label : String) : Option String :=
  (prometheus.unescape label.toList).map String.ofList

/-- Written into a sample, the label reads back as the value, and what is left is the rest
of the line. -/
theorem readUntil_sampleLine (name label value number : String) :
    ∃ tail, (sampleLine name label value number).toList =
        (name ++ "\x7b" ++ label ++ "=\"").toList ++ tail ∧
      prometheus.readUntil '"' tail = some (value.toList, ("\x7d " ++ number ++ "\n").toList) := by
  refine ⟨(escapeLabel value).toList ++ '"' :: ("\x7d " ++ number ++ "\n").toList, ?_, ?_⟩
  · simp [sampleLine, String.toList_append]
  · rw [toList_escapeLabel]
    exact Scheme.readUntil_escape rfl (by decide) _ _

theorem newline_notMem_escapeLabel (s : String) : '\n' ∉ (escapeLabel s).toList := by
  rw [toList_escapeLabel]
  apply Scheme.notMem_escape rfl (by decide)
  intro c
  simp only [prometheus]
  split
  · decide
  · split
    · decide
    · split <;> decide

/-! ## Lines of the page -/

def newlines (text : String) : Nat := text.toList.count '\n'

theorem newlines_append (s t : String) : newlines (s ++ t) = newlines s + newlines t := by
  rw [newlines, String.toList_append, List.count_append]
  rfl

theorem newlines_join (texts : List String) :
    newlines (String.join texts) = (texts.map newlines).sum := by
  induction texts with
  | nil => rfl
  | cons text texts ih => rw [String.join_cons, newlines_append, ih, List.map_cons, List.sum_cons]

/-- The value of a label adds no line. -/
theorem newlines_sampleLine (name label value number : String) :
    newlines (sampleLine name label value number) = newlines (sampleLine name label "" number) := by
  have hnone : ∀ s, newlines (escapeLabel s) = 0 := fun s =>
    List.count_eq_zero.mpr (newline_notMem_escapeLabel s)
  simp only [sampleLine, newlines_append, hnone]

/-- The lines of a metric are told by its numbers. -/
theorem newlines_gauge {α : Type} (name help label : String) (value : α → String)
    (number : α → Option String) (items : List α) :
    newlines (gauge name help label value number items) = newlines (gaugeHeader name help) +
      ((items.filterMap number).map fun n => newlines (sampleLine name label "" n)).sum := by
  rw [gauge, newlines_append, newlines_join]
  congr 2
  induction items with
  | nil => rfl
  | cons item items ih =>
      cases hnumber : number item with
      | none => simpa [hnumber] using ih
      | some n => simpa [hnumber, newlines_sampleLine name label (value item)] using ih

/-- A chain by another name leaves the page with as many lines. -/
theorem newlines_renderMetrics (before after : List ChainMetrics) (chain : ChainMetrics)
    (name : String) (db : Option (Int × List TableSize)) :
    newlines (renderMetrics (before ++ { chain with chainId := name } :: after) db) =
      newlines (renderMetrics (before ++ chain :: after) db) := by
  simp only [renderMetrics, chainGauge, newlines_append, newlines_gauge, List.filterMap_append,
    List.filterMap_cons]

/-- Escaped labels have no line end and no bare quote, and read back as they were, alone and
in a sample; and no chain id changes the number of lines. -/
theorem escape_label_survives (s : String) :
    '\n' ∉ (escapeLabel s).toList ∧
      (∀ before after, (escapeLabel s).toList = before ++ '"' :: after →
        Odd (before.rtakeWhile fun c => decide (c = '\\')).length) ∧
      unescapeLabel (escapeLabel s) = some s ∧
      (∀ other, escapeLabel other = escapeLabel s → other = s) ∧
      (∀ name label number, ∃ tail, (sampleLine name label s number).toList =
          (name ++ "\x7b" ++ label ++ "=\"").toList ++ tail ∧
        prometheus.readUntil '"' tail =
          some (s.toList, ("\x7d " ++ number ++ "\n").toList)) ∧
      ∀ before chain after db,
        newlines (renderMetrics (before ++ { chain with chainId := s } :: after) db) =
          newlines (renderMetrics (before ++ chain :: after) db) := by
  refine ⟨newline_notMem_escapeLabel s, ?_, ?_, ?_,
    fun name label number => readUntil_sampleLine name label s number,
    fun before chain after db => newlines_renderMetrics before after chain s db⟩
  · intro before after h
    rw [toList_escapeLabel] at h
    exact Scheme.odd_markRun_before rfl (by decide) s.toList h
  · rw [unescapeLabel, toList_escapeLabel, Scheme.unescape_escape, Option.map_some,
      String.ofList_toList]
  · intro other h
    have hlist := congrArg String.toList h
    rw [toList_escapeLabel, toList_escapeLabel] at hlist
    exact String.toList_inj.mp (Scheme.escape_injective hlist)

end Retracer
