import Retracer.Storage.Anchored
import Retracer.Storage.Reads

/-! # Actions by hash

Identities are stored as the node gave them. A lookup has two candidates instead of the text
it was given: its hex digits in lower case, and the same with `0x` in front. The first one is
preferred. What is not hex is its own and only candidate.
-/

namespace Retracer

open KeyedTable Sorting

def isHexDigit (c : Char) : Bool := c.isDigit || ('a' ≤ c.toLower && c.toLower ≤ 'f')

/-- The bare form and the canonical one. -/
def actionLookupKeys (hash : String) : String × String :=
  let canonical := canonicalizeHash hash
  let bare :=
    match canonical.toList with
    | '0' :: 'x' :: hex =>
        if !hex.isEmpty && hex.all isHexDigit then String.ofList hex else canonical
    | _ => canonical
  (bare, canonical)

/-- `(action_hash = $2) DESC`. -/
def bareFirst (bare : String) (a b : ActionsRow) : Prop :=
  b.actionHash = bare → a.actionHash = bare

instance (bare : String) : DecidableRel (bareFirst bare) :=
  fun a b => inferInstanceAs (Decidable (b.actionHash = bare → a.actionHash = bare))

instance (bare : String) : IsTrans ActionsRow (bareFirst bare) :=
  ⟨fun _ _ _ hab hbc hc => hab (hbc hc)⟩

instance (bare : String) : Std.Total (bareFirst bare) where
  total a b := by
    by_cases h : a.actionHash = bare
    · exact Or.inl fun _ => h
    · exact Or.inr fun ha => absurd ha h

def selectAction (db : Database) (chainId bare canonical : String) : Option ActionsRow :=
  ((db.actions.rows.filter fun a =>
    a.chainId = chainId ∧ (a.actionHash = bare ∨ a.actionHash = canonical)).insertionSort
      (bareFirst bare)).head?

/-- The outer `none` is a row that does not decode. -/
def getActionByHash (db : Database) (chainId actionHash : String) : Option (Option ActionRow) :=
  match selectAction db chainId (actionLookupKeys actionHash).1 (actionLookupKeys actionHash).2 with
  | none => some none
  | some a => (actionColumns db a).map some

/-! ## What is found -/

theorem mem_selected (db : Database) (chainId bare canonical : String) (a : ActionsRow) :
    a ∈ (db.actions.rows.filter fun a =>
        a.chainId = chainId ∧ (a.actionHash = bare ∨ a.actionHash = canonical)).insertionSort
          (bareFirst bare) ↔
      a ∈ db.actions.rows ∧ (key a = (chainId, bare) ∨ key a = (chainId, canonical)) := by
  simp only [List.mem_insertionSort, List.mem_filter, decide_eq_true_eq, key, Prod.mk.injEq,
    and_or_left]

/-- The row with the bare form, else the one with the canonical form. -/
theorem selectAction_eq (db : Database) (chainId bare canonical : String) :
    selectAction db chainId bare canonical =
      (db.actions.find? (chainId, bare)).or (db.actions.find? (chainId, canonical)) := by
  have hsorted := List.pairwise_insertionSort (bareFirst bare) (db.actions.rows.filter fun a =>
    a.chainId = chainId ∧ (a.actionHash = bare ∨ a.actionHash = canonical))
  have hmem := mem_selected db chainId bare canonical
  unfold selectAction
  generalize (db.actions.rows.filter fun a =>
    a.chainId = chainId ∧ (a.actionHash = bare ∨ a.actionHash = canonical)).insertionSort
      (bareFirst bare) = rows at hsorted hmem ⊢
  cases rows with
  | nil =>
      have hnone : ∀ k, k = (chainId, bare) ∨ k = (chainId, canonical) →
          db.actions.find? k = none := by
        intro k hk
        refine Table.find?_eq_none_iff.mpr fun a ha hkey => ?_
        have hin := (hmem a).mpr ⟨ha, hkey ▸ hk⟩
        cases hin
      rw [hnone _ (Or.inl rfl), hnone _ (Or.inr rfl)]
      rfl
  | cons b rest =>
      obtain ⟨hb, hkey⟩ := (hmem b).mp List.mem_cons_self
      rw [List.head?_cons]
      by_cases hbare : key b = (chainId, bare)
      · rw [Table.find?_eq_some_iff.mpr ⟨hb, hbare⟩, Option.some_or]
      · have hnone : db.actions.find? (chainId, bare) = none := by
          refine Table.find?_eq_none_iff.mpr fun a ha hka => ?_
          rcases List.mem_cons.mp ((hmem a).mpr ⟨ha, Or.inl hka⟩) with rfl | hin
          · exact hbare hka
          · have hfirst := (List.pairwise_cons.mp hsorted).1 a hin
            simp only [key, Prod.mk.injEq] at hka hkey hbare
            exact hbare ⟨hkey.elim (·.1) (·.1), hfirst hka.2⟩
        rw [hnone, Option.none_or, Table.find?_eq_some_iff.mpr ⟨hb, hkey.resolve_left hbare⟩]

/-- The lookup of an action's own hash gives the action. -/
def FoundByHash (db : Database) (a : ActionsRow) : Prop :=
  ∃ row, actionColumns db a = some row ∧
    getActionByHash db a.chainId a.actionHash = some (some row)

/-- The hash is one of its own lookup keys, and no other action has the preferred one. -/
def IsOwnKey (db : Database) (a : ActionsRow) : Prop :=
  a.actionHash = (actionLookupKeys a.actionHash).1 ∨
    a.actionHash = (actionLookupKeys a.actionHash).2 ∧
      (a.chainId, (actionLookupKeys a.actionHash).1) ∉ db.actions.rows.map key

instance (db : Database) (a : ActionsRow) : Decidable (IsOwnKey db a) :=
  inferInstanceAs (Decidable (_ ∨ _ ∧ _))

theorem actionHash_actionColumns {db : Database} {a : ActionsRow} {row : ActionRow}
    (h : actionColumns db a = some row) : row.actionHash = a.actionHash := by
  obtain ⟨b, _, rfl⟩ := Option.map_eq_some_iff.mp h
  rfl

/-- A stored action is found under its hash exactly when the hash is its own key. -/
theorem foundByHash_iff {db : Database} (hblocks : ActionsHaveBlocks db) {a : ActionsRow}
    (ha : a ∈ db.actions.rows) : FoundByHash db a ↔ IsOwnKey db a := by
  have hself : db.actions.find? (a.chainId, a.actionHash) = some a :=
    Table.find?_eq_some_iff.mpr ⟨ha, rfl⟩
  unfold FoundByHash IsOwnKey getActionByHash
  rw [selectAction_eq]
  generalize (actionLookupKeys a.actionHash).1 = bare
  generalize (actionLookupKeys a.actionHash).2 = canonical
  constructor
  · rintro ⟨row, hrow, hfound⟩
    have hhash : ∀ b hash, db.actions.find? (a.chainId, hash) = some b →
        (actionColumns db b).map some = some (some row) → a.actionHash = hash := by
      intro b hash hb hcolumns
      obtain ⟨row', hrow', hsame⟩ := Option.map_eq_some_iff.mp hcolumns
      cases hsame
      have hkey := (Table.find?_eq_some_iff.mp hb).2
      simp only [key, Prod.mk.injEq] at hkey
      rw [← actionHash_actionColumns hrow, actionHash_actionColumns hrow', hkey.2]
    cases hbare : db.actions.find? (a.chainId, bare) with
    | some b =>
        rw [hbare, Option.some_or] at hfound
        exact Or.inl (hhash b bare hbare hfound)
    | none =>
        rw [hbare, Option.none_or] at hfound
        cases hcanonical : db.actions.find? (a.chainId, canonical) with
        | none =>
            rw [hcanonical] at hfound
            cases hfound
        | some b =>
            rw [hcanonical] at hfound
            refine Or.inr ⟨hhash b canonical hcanonical hfound, ?_⟩
            intro hmem
            obtain ⟨c, hc, hkey⟩ := List.mem_map.mp hmem
            exact Table.find?_eq_none_iff.mp hbare c hc hkey
  · intro hown
    have hselect : (db.actions.find? (a.chainId, bare)).or
        (db.actions.find? (a.chainId, canonical)) = some a := by
      rcases hown with hbare | ⟨hcanonical, hfree⟩
      · rw [← hbare, hself, Option.some_or]
      · have hnone : db.actions.find? (a.chainId, bare) = none := by
          refine Table.find?_eq_none_iff.mpr fun c hc hkey => ?_
          exact hfree (hkey ▸ List.mem_map_of_mem hc)
        rw [hnone, Option.none_or, ← hcanonical, hself]
    have hsome : (actionColumns db a).isSome := by
      rw [actionColumns, Option.isSome_map]
      exact hblocks a ha
    obtain ⟨row, hrow⟩ := Option.isSome_iff_exists.mp hsome
    refine ⟨row, hrow, ?_⟩
    rw [hselect]
    simp [hrow]

/-! ## Concrete stores -/

/-- A store with one action, under this identity. -/
def storeOf (identity : String) : Option Database :=
  @insertBlock .plain .empty "main"
    { IndexableBlock.bare 0 "g" "" with actions := [⟨"alice", some identity, some .null⟩] }
    (.tierAOnly .empty)

theorem foundByHash_iff_bare :
    ∃ db, storeOf "deadbeef" = some db ∧
      ∃ a ∈ db.actions.rows, FoundByHash db a ↔ IsOwnKey db a := by
  have hstored : (storeOf "deadbeef").any (fun db => !db.actions.rows.isEmpty) = true := by decide
  obtain ⟨db, hdb, hrows⟩ := (Option.any_eq_true _ _).mp hstored
  have hblocks : ActionsHaveBlocks db :=
    (@Anchored.insertBlocks .plain _ _ _ _ _ anchored_empty hdb).actionsHaveBlocks
  obtain ⟨a, ha⟩ := List.exists_mem_of_ne_nil db.actions.rows (by simpa using hrows)
  exact ⟨db, hdb, a, ha, foundByHash_iff hblocks ha⟩

/-- A hash in upper case is stored as it is and looked up in lower case. -/
theorem upper_case_hash_not_found :
    ¬ ∀ db, ActionsHaveBlocks db → ∀ a ∈ db.actions.rows, FoundByHash db a := by
  intro h
  have hmissed : (storeOf "ABCDEF").any (fun db => db.actions.rows.any fun a =>
      (getActionByHash db a.chainId a.actionHash).all Option.isNone) = true := by decide
  obtain ⟨db, hdb, hrows⟩ := (Option.any_eq_true _ _).mp hmissed
  obtain ⟨a, ha, hnone⟩ := List.any_eq_true.mp hrows
  have hblocks : ActionsHaveBlocks db :=
    (@Anchored.insertBlocks .plain _ _ _ _ _ anchored_empty hdb).actionsHaveBlocks
  obtain ⟨row, _, hfound⟩ := h db hblocks a ha
  rw [hfound] at hnone
  cases hnone

end Retracer
