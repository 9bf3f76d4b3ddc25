import Retracer.Storage.History
import Retracer.Storage.Projections
import Retracer.Storage.StateReads
import Retracer.Storage.Streamed

/-! # The lists

Each list is one statement: rows of a chain that a filter selects, behind a cursor, in an
order, cut to the limit. A negative limit, an error in SQL, takes nothing.
-/

namespace Retracer

open KeyedTable Sorting Paging

/-! ## Blocks -/

structure BlockSummary where
  height : Int
  hash : String
  parentHash : String
  timestamp : Int
  proposer : Option String
  actionCount : Nat
  settlement : Option String
  disputed : Bool
deriving DecidableEq

def blockSummary (db : Database) (b : BlocksRow) : BlockSummary :=
  { height := b.height, hash := b.hash, parentHash := b.parentHash, timestamp := b.timestamp
    proposer := b.proposer
    actionCount := (db.actions.rows.filter fun a =>
      a.chainId = b.chainId ∧ a.blockHeight = b.height).length
    settlement := none, disputed := b.disputed }

def listBlocks (db : Database) (chainId : String) (limit : Int) (before : Option Int) :
    List BlockSummary :=
  (top (newestFirst BlocksRow.height) limit.toNat (db.blocks.rows.filter fun b =>
    b.chainId = chainId ∧ before.all fun height => b.height < height)).map (blockSummary db)

/-! ## Actions -/

/-- How the server compares two texts that it has cast. -/
class ProjectionHost extends IndexHost where
  sameNumeric : String → String → Bool
  sameBigInt : String → String → Bool

/-- A host for concrete runs: right on unsigned integers. -/
@[reducible] def ProjectionHost.plain : ProjectionHost :=
  { IndexHost.plain with
    sameNumeric := fun a b => parseU64 a == parseU64 b
    sameBigInt := fun a b => parseU64 a == parseU64 b }

structure ActionFilter where
  kind : String
  projection : Option Projection := none
  value : Option String := none

section

variable [ProjectionHost] [Postgres]

omit [Postgres] in
def ProjectionType.same : ProjectionType → String → String → Bool
  | .text, a, b => a == b
  | .numeric, a, b => ProjectionHost.sameNumeric a b
  | .bigInt, a, b => ProjectionHost.sameBigInt a b

/-- `(payload->>..)::T = ($6::TEXT)::T`. A cast that fails is an error, and nothing is equal
to SQL NULL. -/
def ActionFilter.projects (filter : ActionFilter) (payload : Json) : Option Bool :=
  match filter.projection with
  | none => some true
  | some p =>
      if (p.value payload).all p.ty.casts && filter.value.all p.ty.casts then
        some ((p.value payload).any fun text => filter.value.any fun value =>
          p.ty.same text value)
      else none

/-- The rows of the kind behind the cursor, on which the projection is evaluated. -/
def listedActions (db : Database) (chainId : String) (before : Option (Int × Int))
    (filter : Option ActionFilter) : List ActionsRow :=
  db.actions.rows.filter fun a =>
    a.chainId = chainId ∧ beforeCursor before a.blockHeight a.indexInBlock ∧
      filter.all fun f => f.kind == a.kind

def listActions (db : Database) (chainId : String) (limit : Int) (before : Option (Int × Int))
    (filter : Option ActionFilter) : Option (List ActionRow) := do
  let rows := listedActions db chainId before filter
  if rows.all fun a => filter.all fun f => (f.projects a.payload).isSome then
    (top newestPosition limit.toNat (rows.filter fun a =>
      filter.all fun f => f.projects a.payload == some true)).mapM (actionColumns db)
  else none

end

/-! ## Actions that name an asset -/

/-- `asset_actions aa JOIN actions a`. -/
def referencedActions (db : Database) (chainId assetRef : String) :
    List (AssetActionsRow × ActionsRow) :=
  (db.assetActions.rows.filter fun r => r.chainId = chainId ∧ r.assetRef = assetRef).filterMap
    fun r => (db.actions.find? (r.chainId, r.actionHash)).map fun a => (r, a)

abbrev newestReference : AssetActionsRow × ActionsRow → AssetActionsRow × ActionsRow → Prop :=
  orderBy (· ≥ ·) (fun r => r.1.blockHeight) (newestFirst fun r => r.1.indexInBlock)

def getAssetActions (db : Database) (chainId assetRef : String) (limit : Int)
    (before : Option (Int × Int)) : Option (List ActionRow) :=
  (top newestReference limit.toNat ((referencedActions db chainId assetRef).filter fun r =>
    beforeCursor before r.1.blockHeight r.1.indexInBlock)).mapM fun r => actionColumns db r.2

/-! ## Token events -/

structure TokenEventRow where
  actionHash : String
  event : String
  fromAddress : String
  toAddress : Option String
  amount : Option String
  blockHeight : Int
  blockTime : Int

def tokenEventColumns (r : TokenEventsRow) : TokenEventRow :=
  { actionHash := r.actionHash, event := r.event, fromAddress := r.fromAddress
    toAddress := r.toAddress, amount := r.amount, blockHeight := r.blockHeight
    blockTime := r.blockTime }

section

variable [Collation]

abbrev newestEvent : TokenEventsRow → TokenEventsRow → Prop :=
  orderBy (· ≥ ·) TokenEventsRow.blockHeight (orderBy textLe TokenEventsRow.actionHash anyOrder)

def getTokenEventsPage (db : Database) (chainId token : String) (limit : Int)
    (before : Option (Int × String)) : List TokenEventRow :=
  (top newestEvent limit.toNat (db.tokenEvents.rows.filter fun r =>
    r.chainId = chainId ∧ r.token = token ∧
      before.all fun (height, hash) =>
        r.blockHeight < height ∨ r.blockHeight = height ∧ ¬ textLe r.actionHash hash)).map
    tokenEventColumns

end

/-! ## Dropped actions -/

/-- `LIKE`: a percent sign stands for any text, an underscore for one character, a backslash
takes the next character as it is. -/
def likeMatches : List Char → List Char → Bool
  | [], text => text.isEmpty
  | '%' :: pattern, text => text.tails.any fun rest => likeMatches pattern rest
  | '_' :: pattern, text => !text.isEmpty && likeMatches pattern text.tail
  | '\\' :: c :: pattern, text => text.head? == some c && likeMatches pattern text.tail
  | c :: pattern, text => text.head? == some c && likeMatches pattern text.tail

/-- `i64::MAX`. -/
def i64Max : Int := 9223372036854775807

section

variable [Collation]

/-- `a >= b` on texts. -/
abbrev textGe (a b : String) : Prop := textLe b a

instance : IsTrans String textGe := ⟨fun _ _ _ hab hbc => trans_of textLe hbc hab⟩
instance : Std.Total textGe := ⟨fun a b => total_of textLe b a⟩
instance : Std.Antisymm textGe := ⟨fun _ _ hab hba => antisymm_of textLe hba hab⟩

abbrev newestDropped : DroppedActionsRow → DroppedActionsRow → Prop :=
  orderBy (· ≥ ·) DroppedActionsRow.blockHeight
    (orderBy textGe DroppedActionsRow.signature anyOrder)

omit [Collation] in
/-- What the two filters and the chain select. -/
def droppedMatches (chainId : String) (sender asset : Option String) (r : DroppedActionsRow) :
    Bool :=
  r.chainId = chainId ∧ (sender.all fun s => r.sender == s) ∧
    asset.all fun a => likeMatches ('%' :: (a.toList ++ ['%'])) r.reason.toList

/-- Without a cursor the page starts below the largest `i64`. -/
def listDroppedActions (db : Database) (chainId : String) (sender asset : Option String)
    (before : Option (Int × String)) (limit : Int) : List DroppedRow :=
  let (beforeHeight, beforeSig) := before.getD (i64Max, "")
  (top newestDropped limit.toNat (db.droppedActions.rows.filter fun r =>
    droppedMatches chainId sender asset r ∧
      (r.blockHeight < beforeHeight ∨
        r.blockHeight = beforeHeight ∧ ¬ textLe beforeSig r.signature))).map DroppedActionsRow.read

end

end Retracer
