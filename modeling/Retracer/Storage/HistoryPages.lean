import Retracer.Library.Keyset
import Retracer.Storage.History
import Retracer.Storage.Streamed

/-! # Paging through a history

The next page is asked for with the position of the last row received. Blocks that are
appended above the first page meanwhile are not seen.
-/

namespace Retracer

open KeyedTable Sorting Paging Execution Traverse

/-! ## The whole history -/

def ActionRow.position (row : ActionRow) : Int × Int := (row.blockHeight, row.indexInBlock)

/-- `(b.height, b.index) < (a.height, a.index)`. -/
def Behind (a b : ActionRow) : Prop :=
  beforeCursor (some a.position) b.blockHeight b.indexInBlock = true

instance : DecidableRel Behind := fun a b =>
  inferInstanceAs (Decidable (beforeCursor (some a.position) b.blockHeight b.indexInBlock = true))

theorem behind_iff {a b : ActionRow} : Behind a b ↔ b.blockHeight < a.blockHeight ∨
    b.blockHeight = a.blockHeight ∧ b.indexInBlock < a.indexInBlock := by
  simp [Behind, beforeCursor, ActionRow.position]

instance : Std.Asymm Behind where
  asymm a b hab hba := by
    rw [behind_iff] at hab hba
    omega

/-- An action with the columns that are read of it. -/
def readAction (db : Database) (a : ActionsRow) : ActionRow :=
  a.dated ((db.blocks.find? (a.chainId, a.blockHeight)).elim 0 (·.timestamp))

theorem actionColumns_readAction {db : Database} (hblocks : ActionsHaveBlocks db)
    {a : ActionsRow} (ha : a ∈ db.actions.rows) : actionColumns db a = some (readAction db a) := by
  obtain ⟨b, hb⟩ := Option.isSome_iff_exists.mp (hblocks a ha)
  rw [actionColumns, readAction, hb]
  rfl

/-! ### Rows in the order of their positions -/

def ActionRow.place (row : ActionRow) : Int × Nat := (row.blockHeight, row.indexInBlock)

/-- The second position comes after the first, newest first. -/
abbrev laterPosition : Int × Nat → Int × Nat → Prop := newerThen (· ≥ ·)

theorem beforeCursor_place (row : ActionRow) (height : Int) (index : Nat) :
    beforeCursor (some row.position) height index =
      decide (laterPosition row.place (height, index)) := by
  rw [beforeCursor, decide_eq_decide]
  simp [ActionRow.position, ActionRow.place, newerThen, strictly]

/-- The actions that a filter selects. -/
@[reducible] def positionKeyset {σ : Type} (dbOf : σ → Database) (p : ActionsRow → Bool) :
    Keyset σ ActionsRow ActionRow (Int × Nat) where
  rows store := (dbOf store).actions.rows.filter p
  key a := (a.blockHeight, a.indexInBlock)
  order := newestPosition
  out store := readAction (dbOf store)
  keyOf := ActionRow.place
  before := laterPosition

theorem position_keyed {σ : Type} {dbOf : σ → Database} {p : ActionsRow → Bool} {store : σ}
    {chainId : String} (hchain : ∀ a, p a = true → a.chainId = chainId)
    (hunique : PositionsUnique (dbOf store)) : (positionKeyset dbOf p).Keyed store where
  distinct := by
    refine (dbOf store).actions.nodup_map_filter fun a b ha hb hsame hina hinb => ?_
    simp only [Prod.mk.injEq] at hsame
    exact hunique a hina b hinb ((hchain a ha).trans (hchain b hb).symm) hsame.1 hsame.2
  ordered x _ y _ horder hne := newerThen_of_orderBy (fun hrest => Int.ofNat_le.mp hrest) horder hne
  out _ _ := rfl

/-! ### The history of an account -/

/-- What an unlimited page would hold. -/
def accountHistory (extractors : String → AddressExtractor) (db : Database)
    (chainId address : String) (roles : List String) : List ActionRow :=
  ((heldActions extractors db chainId address roles).insertionSort newestPosition).map
    (readAction db)

section

variable {extractors : String → AddressExtractor} {db db' : Database}
  {chainId address : String} {roles : List String} {limit : Int}

theorem mem_sorted_heldActions {a : ActionsRow} :
    a ∈ (heldActions extractors db chainId address roles).insertionSort newestPosition ↔
      a ∈ heldActions extractors db chainId address roles :=
  List.mem_insertionSort newestPosition

theorem mem_accountHistory (hblocks : ActionsHaveBlocks db) {row : ActionRow} :
    row ∈ accountHistory extractors db chainId address roles ↔
      ∃ a ∈ heldActions extractors db chainId address roles, actionColumns db a = some row := by
  simp only [accountHistory, List.mem_map, mem_sorted_heldActions]
  apply exists_congr
  intro a
  apply and_congr_right
  intro ha
  rw [actionColumns_readAction hblocks (List.mem_of_mem_filter ha), Option.some.injEq]

/-- Unique positions make the order strict. -/
theorem pairwise_accountHistory (hpositions : PositionsUnique db) :
    (accountHistory extractors db chainId address roles).Pairwise Behind := by
  have hkeyed : (positionKeyset (fun db => db) fun a =>
      a.chainId = chainId ∧ ∃ role ∈ roles, HoldsRole extractors address a role).Keyed db :=
    position_keyed (fun a ha => (of_decide_eq_true ha).1) hpositions
  refine hkeyed.pairwise_history.imp fun {a b} hbehind => ?_
  rw [Behind, beforeCursor_place]
  exact decide_eq_true hbehind

/-- A page is the next part of the history, on any store that is the same behind the cursor. -/
theorem getAccountActions_eq (hagree : IndexesAgree extractors db)
    (hcomplete : IndexesComplete extractors db) (hpositions : PositionsUnique db)
    (hblocks : ActionsHaveBlocks db) (hroles : roles ≠ []) {last : Option ActionRow}
    (hsame : SameBefore chainId (last.map ActionRow.position) db db') :
    getAccountActions db' chainId address limit (last.map ActionRow.position) roles =
      some ((behind Behind last (accountHistory extractors db chainId address roles)).take
        limit.toNat) := by
  have hbehind : behind Behind last (accountHistory extractors db chainId address roles) =
      (((heldActions extractors db chainId address roles).filter fun a =>
        beforeCursor (last.map ActionRow.position) a.blockHeight a.indexInBlock).insertionSort
          newestPosition).map (readAction db) := by
    rw [← filter_insertionSort, accountHistory]
    cases last with
    | none => simp [behind, beforeCursor]
    | some row =>
        rw [behind, List.filter_map]
        congr 1
        apply List.filter_congr
        intro a _
        exact Bool.decide_coe _
  have hempty : roles.isEmpty = false := by simpa using hroles
  simp only [getAccountActions, hempty, Bool.false_eq_true, if_false]
  rw [top_unionBranches hagree hcomplete hsame hpositions, hbehind, ← List.map_take, top]
  have hcolumns : ∀ a ∈ (((heldActions extractors db chainId address roles).filter fun a =>
      beforeCursor (last.map ActionRow.position) a.blockHeight a.indexInBlock).insertionSort
        newestPosition).take limit.toNat, actionColumns db' a = some (readAction db a) := by
    intro a ha
    have hin := (List.mem_insertionSort _).mp (List.mem_of_mem_take ha)
    obtain ⟨hheld, hbefore⟩ := List.mem_filter.mp hin
    simp only [heldActions, List.mem_filter, decide_eq_true_eq] at hheld
    rw [← actionColumns_readAction hblocks hheld.1, actionColumns_undisputed,
      actionColumns_undisputed, hheld.2.1, (hsame _ _ hbefore).blocks _ (Int.le_refl _)]
  rw [mapM_congr hcolumns]
  exact List.mapM_pure

end

/-! ## The walk -/

section

variable [Postgres] (extractors : String → AddressExtractor) (chainId address : String)
  (limit : Int) (roles : List String)

/-- Pages of one account. Between them, blocks may come in above the first page. -/
def historyPager : Pager Database ActionRow (List IndexableBlock) where
  limit := limit.toNat
  page db last := getAccountActions db chainId address limit (last.map ActionRow.position) roles
  change received db blocks :=
    received.head?.bind fun newest =>
      if ∀ b ∈ blocks, newest.blockHeight < (b.height : Int) then
        insertBlocks db chainId blocks (extractors chainId)
      else none

/-- Up to the first row received, the store is the one the walk started on. -/
def SeenFrom (db : Database) (received : List ActionRow) (db' : Database) : Prop :=
  match received.head? with
  | none => db' = db
  | some newest => SameUpTo chainId newest.blockHeight db db'

variable {extractors chainId address limit roles} {db db' : Database}

omit [Postgres] in
theorem SeenFrom.sameBefore {history received : List ActionRow}
    (h : SeenFrom chainId db received db') (hordered : history.Pairwise Behind)
    (hbeginning : received <+: history) :
    SameBefore chainId (received.getLast?.map ActionRow.position) db db' := by
  intro n i hbefore
  cases received with
  | nil =>
      cases h
      exact .refl
  | cons newest rest =>
      have hsame : SameUpTo chainId newest.blockHeight db db' := h
      apply hsame.mono
      have hpairwise := hordered.sublist hbeginning.sublist
      obtain ⟨last, hlast⟩ := Option.ne_none_iff_exists'.mp
        (mt List.getLast?_eq_none_iff.mp (List.cons_ne_nil newest rest))
      rw [hlast] at hbefore
      have hle : last.blockHeight ≤ newest.blockHeight := by
        rcases List.mem_cons.mp (List.mem_of_getLast? hlast) with heq | hin
        · rw [heq]
        · have hbehind := behind_iff.mp ((List.pairwise_cons.mp hpairwise).1 last hin)
          omega
      simp only [Option.map_some, beforeCursor, ActionRow.position, decide_eq_true_eq] at hbefore
      omega

theorem historyPager_serves (hagree : IndexesAgree extractors db)
    (hcomplete : IndexesComplete extractors db) (hpositions : PositionsUnique db)
    (hblocks : ActionsHaveBlocks db) (hroles : roles ≠ []) :
    (historyPager extractors chainId address limit roles).Serves Behind
      (accountHistory extractors db chainId address roles) (SeenFrom chainId db) where
  ordered := pairwise_accountHistory hpositions
  page received store hbeginning hseen :=
    getAccountActions_eq hagree hcomplete hpositions hblocks hroles
      (hseen.sameBefore (pairwise_accountHistory hpositions) hbeginning)
  more received rows store hseen := by
    cases received with
    | nil =>
        cases hseen
        cases rows with
        | nil => rfl
        | cons newest rest => exact SameUpTo.refl
    | cons newest rest => exact hseen
  change received store blocks store' hseen hchange := by
    obtain ⟨newest, hnewest, hinsert⟩ := Option.bind_eq_some_iff.mp hchange
    unfold SeenFrom at hseen ⊢
    rw [hnewest] at hseen ⊢
    split at hinsert
    · next habove => exact hseen.trans (.insertBlocks hinsert habove)
    · cases hinsert

/-- However the pages and the appended blocks are interleaved, a walk that has ended received
every action in which the address has one of the roles, newest first, and any other walk goes
on after at most as many pages as there are such actions. That every action has its block is
the foreign key of `actions`. -/
theorem accountHistory_pages (hagree : IndexesAgree extractors db)
    (hcomplete : IndexesComplete extractors db) (hpositions : PositionsUnique db)
    (hblocks : ActionsHaveBlocks db) (hroles : roles ≠ []) (hlimit : 1 ≤ limit)
    {ops : List (WalkOp (List IndexableBlock))} {w : Walk Database ActionRow}
    (hrun : exec (historyPager extractors chainId address limit roles).step { store := db } ops =
      some w) :
    (w.done = true → w.received.Pairwise Behind ∧ ∀ row, row ∈ w.received ↔
        ∃ a ∈ heldActions extractors db chainId address roles, actionColumns db a = some row) ∧
      (w.done = false →
        ((historyPager extractors chainId address limit roles).step w .fetch).isSome ∧
          w.pages ≤ (heldActions extractors db chainId address roles).length) := by
  have hserves : (historyPager extractors chainId address limit roles).Serves Behind
      (accountHistory extractors db chainId address roles) (SeenFrom chainId db) :=
    historyPager_serves hagree hcomplete hpositions hblocks hroles
  obtain ⟨hended, hgoing⟩ := hserves.walk rfl hrun
  constructor
  · intro hdone
    rw [hended hdone]
    exact ⟨pairwise_accountHistory hpositions, fun row => mem_accountHistory hblocks⟩
  · intro hdone
    obtain ⟨hnext, hpages⟩ := hgoing hdone
    refine ⟨hnext, ?_⟩
    have hlength : (accountHistory extractors db chainId address roles).length =
        (heldActions extractors db chainId address roles).length := by
      rw [accountHistory, List.length_map, List.length_insertionSort]
    have hpositive : 1 ≤ limit.toNat := by omega
    calc w.pages = w.pages * 1 := (Nat.mul_one _).symm
      _ ≤ w.pages * limit.toNat := Nat.mul_le_mul_left _ hpositive
      _ ≤ _ := hlength ▸ hpages

end

/-! ## A concrete walk -/

/-- A transfer's recipient, as a schema of one path says it. -/
def transferTo : AddressExtractor :=
  .tierAOnly ⟨fun kind => if kind = "Transfer" then some [⟨"$.to", .to⟩] else none⟩

def transfers (height : Nat) (hash parentHash : String)
    (actions : List (String × String × String)) : IndexableBlock :=
  { IndexableBlock.bare height hash parentHash with
    actions := actions.map fun (sender, identity, recipient) =>
      ⟨sender, some identity, some (.obj [("Transfer", .obj [("to", .str recipient)])])⟩ }

/-- Alice sends, receives, and sends to herself. -/
def aliceOps : List WriteOp :=
  [.insert "main" [transfers 0 "g" "" [("alice", "sent", "bob")],
    transfers 1 "a1" "g" [("carol", "unrelated", "dave"), ("bob", "received", "alice")],
    transfers 2 "a2" "a1" [("alice", "self", "alice")]]]

/-- Two pages, with one more transfer of hers in between. -/
def aliceWalk (db : Database) : Option (Walk Database ActionRow) :=
  exec (@historyPager .plain (fun _ => transferTo) "main" "alice" 2 ["from", "to", "from"]).step
    { store := db } [.fetch, .change [transfers 3 "a3" "a2" [("alice", "late", "bob")]], .fetch]

theorem accountHistory_pages_alice :
    ∃ db w, exec (@writeStep .plain fun _ => transferTo) .empty aliceOps = some db ∧
      aliceWalk db = some w ∧ w.received.map (·.actionHash) = ["self", "received", "sent"] ∧
      w.received.Pairwise Behind ∧ ∀ row, row ∈ w.received ↔
        ∃ a ∈ heldActions (fun _ => transferTo) db "main" "alice" ["from", "to", "from"],
          actionColumns db a = some row := by
  have hall : (exec (@writeStep .plain fun _ => transferTo) .empty aliceOps).any (fun db =>
      decide (IndexesAgree (fun _ => transferTo) db ∧ PositionsUnique db) &&
        (aliceWalk db).any fun w => w.done &&
          decide (w.received.map (·.actionHash) = ["self", "received", "sent"])) = true := by
    decide
  obtain ⟨db, hdb, hrest⟩ := Option.any_eq_true _ _ |>.mp hall
  simp only [Bool.and_eq_true, decide_eq_true_eq] at hrest
  obtain ⟨⟨hagree, hpositions⟩, hwalk⟩ := hrest
  obtain ⟨w, hw, hboth⟩ := Option.any_eq_true _ _ |>.mp hwalk
  simp only [Bool.and_eq_true, decide_eq_true_eq] at hboth
  have halways : Always (@writeStep .plain fun _ => transferTo)
      (fun _ _ db => IndexesAgree (fun _ => transferTo) db) .empty aliceOps := by decide
  refine ⟨db, w, hdb, hw, hboth.2, ?_⟩
  exact (@accountHistory_pages .plain (fun _ => transferTo) "main" "alice" 2
    ["from", "to", "from"] db hagree (@indexesComplete_reachable .plain _ _ _ halways hdb)
    hpositions (@anchored_reachable .plain _ _ _ hdb).actionsHaveBlocks (by decide) (by decide)
    _ w hw).1 hboth.1

end Retracer
