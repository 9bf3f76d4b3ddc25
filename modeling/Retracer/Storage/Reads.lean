import Mathlib.Data.String.Basic
import Retracer.Library.Sorting
import Retracer.Storage.Kept

/-! # Reading blocks back

`get_blocks_in_range`, `get_block_by_height` and `get_block_by_hash` take three
statements each, and nothing holds the database still between them: first the block
rows, then the actions of the heights found, then the dropped actions. A read in
progress is what the statements so far returned.
-/

namespace Retracer

open KeyedTable Sorting

/-- The order in which the database compares texts. -/
class Collation where
  le : String → String → Bool
  le_trans : ∀ {a b c}, le a b → le b c → le a c
  le_total : ∀ a b, le a b ∨ le b a
  le_antisymm : ∀ {a b}, le a b → le b a → a = b
  empty_le : ∀ s, le "" s

/-- Code point by code point. -/
@[reducible] def Collation.plain : Collation where
  le a b := a ≤ b
  le_trans hab hbc := by
    simp only [decide_eq_true_eq] at hab hbc ⊢
    exact hab.trans hbc
  le_total a b := by
    simp only [decide_eq_true_eq]
    exact total_of (· ≤ ·) a b
  le_antisymm hab hba := by
    simp only [decide_eq_true_eq] at hab hba
    exact hab.antisymm hba
  empty_le s := by
    simp only [decide_eq_true_eq]
    rw [← not_lt, String.lt_iff_toList_lt]
    exact List.not_lt_nil _

section

variable [Collation]

/-- `a <= b` on texts. -/
abbrev textLe (a b : String) : Prop := Collation.le a b = true

instance : IsTrans String textLe := ⟨fun _ _ _ => Collation.le_trans⟩
instance : Std.Total textLe := ⟨Collation.le_total⟩
instance : Std.Antisymm textLe := ⟨fun _ _ => Collation.le_antisymm⟩

end

/-! ## The statements -/

/-- `chain_id = $1 AND height >= $2 AND height <= $3`. -/
def within {ρ : Type} [Stamped ρ] (chainId : String) (lo hi : Int) (r : ρ) : Bool :=
  Stamped.chainOf r = chainId ∧ lo ≤ Stamped.heightOf r ∧ Stamped.heightOf r ≤ hi

def selectBlocks (db : Database) (chainId : String) (lo hi limit : Int) : List BlocksRow :=
  ((db.blocks.rows.filter (within chainId lo hi)).insertionSort
    (oldestFirst BlocksRow.height)).take limit.toNat

/-- `ACTION_COLUMNS`: the timestamp is looked up on the block's key. Without the block it
is NULL, which does not decode. -/
def actionColumns (db : Database) (a : ActionsRow) : Option ActionRow :=
  (db.blocks.find? (a.chainId, a.blockHeight)).map fun b =>
    { actionHash := a.actionHash, blockHeight := a.blockHeight, indexInBlock := a.indexInBlock
      kind := a.kind, fromAddress := a.fromAddress, payload := a.payload
      blockTimestamp := b.timestamp }

abbrev byPosition : ActionsRow → ActionsRow → Prop :=
  orderBy (· ≤ ·) ActionsRow.blockHeight (oldestFirst fun a => a.indexInBlock)

def selectActions (db : Database) (chainId : String) (lo hi : Int) : Option (List ActionRow) :=
  ((db.actions.rows.filter (within chainId lo hi)).insertionSort byPosition).mapM
    (actionColumns db)

section

variable [Collation]

abbrev bySignature : DroppedActionsRow → DroppedActionsRow → Prop :=
  orderBy (· ≤ ·) DroppedActionsRow.blockHeight (orderBy textLe (·.signature) anyOrder)

def droppedInRange (db : Database) (chainId : String) (lo hi : Int) : List DroppedRow :=
  ((db.droppedActions.rows.filter (within chainId lo hi)).insertionSort bySignature).map fun d =>
    { blockHeight := d.blockHeight, signature := d.signature, sender := d.sender
      reason := d.reason }

end

/-- `0x` and lower case for what is hex, anything else as it is. -/
def canonicalizeHash (hash : String) : String :=
  let hex := stripHexMark hash.toList
  if !hex.isEmpty && hex.all fun c => c.isDigit || ('a' ≤ c.toLower && c.toLower ≤ 'f') then
    "0x" ++ String.ofList (hex.map Char.toLower)
  else hash

/-- The columns of one block with the rows that belong to it. -/
def blockRow (b : BlocksRow) (actions : List ActionRow) (dropped : List DroppedRow) : BlockRow :=
  { height := b.height, hash := b.hash, parentHash := b.parentHash, timestamp := b.timestamp
    proposer := b.proposer, undecodedActionCount := countUndecoded actions, actions, dropped
    settlement := none, disputed := b.disputed }

/-! ## The three functions -/

inductive BlocksRead where
  | inRange (lo hi limit : Int)
  | byHeight (height : Int)
  | byHash (hash : String)

/-- The first statement. -/
def BlocksRead.select (db : Database) (chainId : String) : BlocksRead → List BlocksRow
  | .inRange lo hi limit => selectBlocks db chainId lo hi limit
  | .byHeight height => (db.blocks.find? (chainId, height)).toList
  | .byHash hash =>
      (db.blocks.rows.find? fun b => b.chainId = chainId ∧ b.hash = canonicalizeHash hash).toList

/-- What is returned. A range groups by height, a single block takes all there is. -/
def BlocksRead.assemble (read : BlocksRead) (rows : List BlocksRow) (actions : List ActionRow)
    (dropped : List DroppedRow) : List BlockRow :=
  match read with
  | .inRange _ _ _ =>
      rows.map fun b =>
        blockRow b (actions.filter (·.blockHeight = b.height))
          (dropped.filter (·.blockHeight = b.height))
  | .byHeight _ | .byHash _ => rows.map fun b => blockRow b actions dropped

theorem BlocksRead.heights_assemble (read : BlocksRead) (rows : List BlocksRow)
    (actions : List ActionRow) (dropped : List DroppedRow) :
    (read.assemble rows actions dropped).map (·.height) = rows.map (·.height) := by
  cases read <;> simp [BlocksRead.assemble, blockRow, Function.comp_def]

/-- Between two statements: the block rows, and the actions once they are read. -/
structure OpenRead where
  read : BlocksRead
  rows : List BlocksRow
  actions : Option (List ActionRow) := none

inductive ReadResult where
  | failed
  | reading (r : OpenRead)
  | done (blocks : List BlockRow)

def BlocksRead.start (db : Database) (chainId : String) (read : BlocksRead) : ReadResult :=
  match read.select db chainId with
  | [] => .done []
  | rows => .reading { read, rows }

def OpenRead.lo (r : OpenRead) : Int := (r.rows.head?.map (·.height)).getD 0

def OpenRead.hi (r : OpenRead) : Int := (r.rows.getLast?.map (·.height)).getD 0

def OpenRead.next [Collation] (db : Database) (chainId : String) (r : OpenRead) : ReadResult :=
  match r.actions with
  | none =>
      match selectActions db chainId r.lo r.hi with
      | none => .failed
      | some actions => .reading { r with actions := some actions }
  | some actions =>
      .done (r.read.assemble r.rows actions (droppedInRange db chainId r.lo r.hi))

/-- The whole of the block stored at a height: the three statements at one moment. -/
def storedBlock [Collation] (db : Database) (chainId : String) (height : Int) :
    Option BlockRow :=
  (db.blocks.find? (chainId, height)).bind fun b =>
    (selectActions db chainId height height).map fun actions =>
      blockRow b actions (droppedInRange db chainId height height)

end Retracer
