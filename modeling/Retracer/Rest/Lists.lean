import Retracer.Auth.Cidr
import Retracer.Ingestion.Rpc
import Retracer.Rest.AuditExports
import Retracer.Storage.SchemaConfig

/-! # Lists over HTTP

A list request names a limit, which is cut to a hundred rows, and the last row that the client
has. The handlers turn the text of a request into the arguments of a list read; what is left is
that every row a client is sent can be sent back as a cursor, and that a filter names a payload
path for which there is an index.
-/

namespace Retracer

open KeyedTable Sorting Paging Execution Traverse

/-! ## Requests -/

/-- `MAX_PAGE_SIZE`. -/
def maxPageSize : Int := 100

def clampLimit : Option Int → Except LookupError Int
  | none => .ok maxPageSize
  | some n =>
      if n ≤ 0 then .error (.badRequest "limit must be greater than zero")
      else .ok (min n maxPageSize)

/-- `MAX_ROLES`. -/
def maxRoles : Nat := 8

def parseRoles : Option String → Except LookupError (List String)
  | none => .ok []
  | some role =>
      let roles := (role.toList.splitOn ',').map fun part => String.ofList (trim part)
      if roles.any (·.isEmpty) then
        .error (.badRequest "role must be a comma-separated list of role names")
      else if maxRoles < roles.length then
        .error (.badRequest ("at most " ++ toString maxRoles ++ " roles per request"))
      else .ok roles

structure BlockPage where
  limit : Option Int := none
  before : Option Int := none

structure ActionPage where
  limit : Option Int := none
  beforeHeight : Option Int := none
  beforeIndex : Option Int := none
  role : Option String := none
  kind : Option String := none
  field : Option String := none
  value : Option String := none

/-- `ActionPage::cursor`. -/
def ActionPage.cursor (page : ActionPage) : Except LookupError (Option (Int × Int)) :=
  match page.beforeHeight, page.beforeIndex with
  | some h, some i => .ok (some (h, i))
  | none, none => .ok none
  | _, _ => .error (.badRequest "before_height and before_index must be sent together")

structure EventPage where
  limit : Option Int := none
  beforeHeight : Option Int := none
  afterHash : Option String := none

/-- What `EventPage::cursor` takes of a height and a hash. -/
def takesEvent (height : Int) (hash : String) : Bool :=
  0 ≤ height && !hash.isEmpty && hash.utf8ByteSize ≤ 256

/-- `EventPage::cursor`. -/
def EventPage.cursor (page : EventPage) : Except LookupError (Option (Int × String)) :=
  let refused : Except LookupError (Option (Int × String)) :=
    .error (.badRequest "before_height and a non-empty after_hash must be supplied together")
  match page.beforeHeight, page.afterHash with
  | none, none => .ok none
  | some height, some hash => if takesEvent height hash then .ok (some (height, hash)) else refused
  | _, _ => refused

structure DroppedPage where
  sender : Option String := none
  asset : Option String := none
  limit : Option Int := none
  beforeHeight : Option Int := none
  beforeSignature : Option String := none

/-- The beginning of `list_dropped_actions`. -/
def DroppedPage.cursor (page : DroppedPage) : Except LookupError (Option (Int × String)) :=
  match page.beforeHeight, page.beforeSignature with
  | some h, some s => .ok (some (h, s))
  | none, none => .ok none
  | _, _ => .error (.badRequest "before_height and before_signature must be sent together")

structure HolderPage where
  «at» : Option Int := none
  jurisdiction : Option String := none
  limit : Option Int := none
  after : Option String := none

/-! ## The chains -/

/-- What the lists need to know about a chain. -/
structure ListChain where
  chainId : String
  addressValidator : Option (String → Bool) := none
  projections : List Projection := []

structure ListServer where
  chains : List ListChain
  /-- `format!("{:?}", text)`. -/
  debugText : String → String

/-- `AppState::chain`. -/
def ListServer.chain (server : ListServer) (chainId : String) : Except LookupError ListChain :=
  match server.chains.find? fun chain => chain.chainId = chainId with
  | some chain => .ok chain
  | none =>
      .error (.notFound ("unknown chain " ++ server.debugText chainId ++
        "; GET /v1/chains lists the ones this indexer serves"))

def checkAddress (chain : ListChain) (address : String) : Except LookupError Unit :=
  if chain.addressValidator.any fun valid => !valid address then
    .error (.badRequest "not a valid address for this chain")
  else .ok ()

/-! ## Filters -/

/-- The `$.a.b.c` form. -/
def Projection.path (p : Projection) : String := "$." ++ ".".intercalate p.segments

/-- Digits with at most one point among them, and maybe an exponent. -/
def isFloatNumber (cs : List Char) : Bool :=
  let mantissa := cs.takeWhile (· ≠ 'e')
  let digits := mantissa.takeWhile (· ≠ '.') ++ (mantissa.dropWhile (· ≠ '.')).tail
  !digits.isEmpty && digits.all Char.isDigit &&
    match cs.dropWhile (· ≠ 'e') with
    | 'e' :: '+' :: power | 'e' :: '-' :: power | 'e' :: power =>
        !power.isEmpty && power.all Char.isDigit
    | _ => true

/-- `str::parse::<f64>` takes the text. -/
def isF64 (s : String) : Bool :=
  let cs := s.toList.map Char.toLower
  let unsigned := match cs with
    | '+' :: rest | '-' :: rest => rest
    | _ => cs
  ["inf", "infinity", "nan"].any (fun name => name.toList == unsigned) || isFloatNumber unsigned

/-- The check of a value before it goes into the statement. -/
def ProjectionType.parses : ProjectionType → String → Bool
  | .text, _ => true
  | .numeric, value => isF64 value
  | .bigInt, value => (parseI64 value).isSome

/-- `format!("{:?}", texts)`. -/
def ListServer.debugTexts (server : ListServer) (texts : List String) : String :=
  "[" ++ ", ".intercalate (texts.map server.debugText) ++ "]"

def actionFilter (server : ListServer) (chain : ListChain) (page : ActionPage) :
    Except LookupError (Option ActionFilter) :=
  match page.kind with
  | none =>
      if page.field.isSome || page.value.isSome then
        .error (.badRequest "field/value require kind")
      else .ok none
  | some kind =>
      match page.field, page.value with
      | none, none => .ok (some { kind })
      | some field, some value =>
          match chain.projections.find? fun p => p.kind = kind ∧ p.path = field with
          | none =>
              let declared := (chain.projections.filter fun p => p.kind = kind).map Projection.path
              .error (.badRequest (field ++ " is not an indexed field of " ++ kind ++
                "; indexed: " ++ server.debugTexts declared))
          | some projection =>
              if projection.ty.parses value then
                .ok (some { kind, projection := some projection, value := some value })
              else
                .error (.badRequest ("value " ++ server.debugText value ++ " is not a " ++
                  projection.ty.sqlCast))
      | _, _ => .error (.badRequest "field and value must be sent together")

/-! ## The endpoints -/

/-- An error of the database. -/
def answered {α : Type} : Option α → Except LookupError α
  | none => .error .internal
  | some a => .ok a

/-- `settlement` against the watermarks of the node. -/
def BlockSummary.settlementBy (view : NetworkView) (b : BlockSummary) : BlockSummary :=
  { b with
    settlement := some
      (Retracer.settlement b.height b.disputed view.settledHeight view.finalWatermark) }

section

variable [ProjectionHost] [Postgres] [Collation] (server : ListServer) (db : Database)
  (chainId : String)

def ListServer.listBlocks (view : NetworkView) (page : BlockPage) :
    Except LookupError (List BlockSummary) := do
  let _ ← server.chain chainId
  let limit ← clampLimit page.limit
  return (Retracer.listBlocks db chainId limit page.before).map (BlockSummary.settlementBy view)

def ListServer.listActions (page : ActionPage) : Except LookupError (List ActionRow) := do
  let chain ← server.chain chainId
  let limit ← clampLimit page.limit
  let filter ← actionFilter server chain page
  let before ← page.cursor
  answered (Retracer.listActions db chainId limit before filter)

def ListServer.getAccountActions (address : String) (page : ActionPage) :
    Except LookupError (List ActionRow) := do
  let chain ← server.chain chainId
  checkAddress chain address
  let limit ← clampLimit page.limit
  let roles ← parseRoles page.role
  let before ← page.cursor
  answered (Retracer.getAccountActions db chainId address limit before roles)

def ListServer.getAssetActions (asset : String) (page : ActionPage) :
    Except LookupError (List ActionRow) := do
  let _ ← server.chain chainId
  let limit ← clampLimit page.limit
  let before ← page.cursor
  answered (Retracer.getAssetActions db chainId asset limit before)

def ListServer.getAssetEvents (asset : String) (page : EventPage) :
    Except LookupError (List TokenEventRow) := do
  let _ ← server.chain chainId
  let limit ← clampLimit page.limit
  let before ← page.cursor
  return getTokenEventsPage db chainId asset limit before

def ListServer.listDroppedActions (page : DroppedPage) : Except LookupError (List DroppedRow) := do
  let chain ← server.chain chainId
  match page.sender with
  | some sender => checkAddress chain sender
  | none => pure ()
  let before ← page.cursor
  let limit ← clampLimit page.limit
  return Retracer.listDroppedActions db chainId page.sender page.asset before limit

def ListServer.getAssetHolders (asset : String) (page : HolderPage) :
    Except LookupError (List HolderRow) := do
  let _ ← server.chain chainId
  let height ← asOf page.at
  let limit ← clampLimit page.limit
  return Retracer.getAssetHolders db chainId asset height page.jurisdiction page.after limit

end

/-! ## Paths -/

section

variable {config : RawConfig} {parsed : ParsedSchema} {kind field value : String}

variable {server : ListServer} {chain : ListChain} {page : ActionPage}

/-- The first projection of the kind with the path. -/
def ListChain.projectionOf (chain : ListChain) (kind field : String) : Option Projection :=
  chain.projections.find? fun p => p.kind = kind ∧ p.path = field

theorem actionFilter_field (hkind : page.kind = some kind) (hfield : page.field = some field)
    (hvalue : page.value = some value) {filter : Option ActionFilter} :
    actionFilter server chain page = .ok filter ↔
      ∃ p, chain.projectionOf kind field = some p ∧ p.ty.parses value = true ∧
        filter = some { kind, projection := some p, value := some value } := by
  simp only [actionFilter, hkind, hfield, hvalue, ListChain.projectionOf]
  cases chain.projections.find? fun p => p.kind = kind ∧ p.path = field with
  | none => simp
  | some p =>
      dsimp only
      by_cases hparses : p.ty.parses value = true
      · rw [if_pos hparses, Except.ok.injEq]
        constructor
        · exact fun h => ⟨p, rfl, hparses, h.symm⟩
        · rintro ⟨_, ⟨⟩, _, rfl⟩
          rfl
      · rw [if_neg hparses]
        constructor
        · exact fun h => nomatch h
        · rintro ⟨_, ⟨⟩, hyes, _⟩
          exact absurd hyes hparses

theorem projectionOf_spec {p : Projection} (h : chain.projectionOf kind field = some p) :
    p ∈ chain.projections ∧ p.kind = kind ∧ p.path = field := by
  have hsame := List.find?_some h
  exact ⟨List.mem_of_find?_eq_some h, of_decide_eq_true hsame⟩

end

section

variable [ProjectionHost] [Postgres] {server : ListServer} {chain : ListChain} {page : ActionPage}
  {db : Database} {chainId : String}

omit [Postgres] in
/-- The filter of a request whose value the server casts. -/
theorem actionFilter_declared {filter : Option ActionFilter} {indexes : List Projection}
    (hindexed : ∀ p ∈ chain.projections, p ∈ indexes)
    (hcasts : ∀ f ∈ filter, ∀ p ∈ f.projection, ∀ value ∈ f.value, p.ty.casts value = true)
    (h : actionFilter server chain page = .ok filter) : ∀ f ∈ filter, f.Declared indexes := by
  rintro f rfl p hp
  unfold actionFilter at h
  split at h
  · split at h
    · cases h
    · cases h
  · next kind hkind =>
      split at h
      · cases h
        cases hp
      · next field value hfield hvalue =>
          obtain ⟨q, hq, -, hfilter⟩ := (actionFilter_field hkind hfield hvalue).mp (by
            rw [actionFilter, hkind, hfield, hvalue]
            exact h)
          cases hfilter
          cases hp
          obtain ⟨hin, hsame, -⟩ := projectionOf_spec hq
          exact ⟨hindexed p hin, hsame, hcasts _ rfl p rfl value rfl⟩
      · cases h

end

/-! ## What a filter request gets -/

def amountServer : ListServer where
  chains := [{ chainId := "main", projections := [amountProjection] }]
  debugText := id

/-- The payments of five. -/
def fiveOnly : ActionPage where
  limit := some 1
  kind := some "Transfer"
  field := some "$.amount"
  value := some "5"

end Retracer
