import Retracer.Storage.AddressIndexes

/-! # Projection indexes

A chain's `kind_schema.toml` may declare payload paths queryable. Each becomes an expression
index on `actions` that is partial on the kind and on nothing else: the rows of every chain
pass through it, and a value that its cast does not take fails the statement adding the row.
-/

namespace Retracer

open KeyedTable

/-! ## Declared projections -/

inductive ProjectionType where
  | text
  | numeric
  | bigInt
deriving DecidableEq, Repr

def ProjectionType.sqlCast : ProjectionType → String
  | .text => "TEXT"
  | .numeric => "NUMERIC"
  | .bigInt => "BIGINT"

def isSafeSegment (segment : String) : Bool :=
  !segment.isEmpty && segment.utf8ByteSize ≤ 63 &&
    segment.toList.all fun c => c.isAlphanum || c == '_'

/-- The segments go into DDL, so a projection has been through the parser's checks. -/
structure Projection where
  kind : String
  segments : List String
  ty : ProjectionType
  nonempty : segments ≠ []
  safe : ∀ s ∈ segments, isSafeSegment s = true

/-- Which texts the server casts, and the digest that goes into an index name. -/
class IndexHost where
  isNumeric : String → Bool
  isBigInt : String → Bool
  digest : String → List String → String → UInt32

/-- A host for concrete runs: right on unsigned integers. -/
@[reducible] def IndexHost.plain : IndexHost where
  isNumeric text := (parseU64 text).isSome
  isBigInt text := (parseU64 text).any (· < 2 ^ 63)
  digest _ _ _ := 0

/-- `{:08x}`. -/
def hex8 (n : UInt32) : String :=
  let digits := Nat.toDigits 16 n.toNat
  String.ofList (List.replicate (8 - digits.length) '0' ++ digits)

def sanitize (s : String) : String :=
  String.ofList ((s.toList.map fun c => if c.isAlphanum then c.toLower else '_').take 18)

section

variable [IndexHost]

def Projection.indexName (p : Projection) : String :=
  "actions_proj_" ++ sanitize p.kind ++ "_" ++ sanitize ("_".intercalate p.segments) ++ "_" ++
    hex8 (IndexHost.digest p.kind p.segments p.ty.sqlCast)

/-- The cast to the type succeeds. -/
def ProjectionType.casts : ProjectionType → String → Bool
  | .text, _ => true
  | .numeric, value => IndexHost.isNumeric value
  | .bigInt, value => IndexHost.isBigInt value

variable [Postgres]

omit [IndexHost] in
/-- `payload->'a'->'b'->>'c'`; SQL NULL where the path does not lead to a value. -/
def Projection.value (p : Projection) (payload : Json) : Option String :=
  (p.segments.dropLast.foldlM Json.get? payload).bind fun parent =>
    parent.getText (p.segments.getLast p.nonempty)

/-- The index takes the row: it is of another kind, or its value is NULL or casts. -/
def Projection.takes (p : Projection) (a : ActionsRow) : Bool :=
  a.kind != p.kind || (p.value a.payload).all p.ty.casts

/-! ## The store with its indexes -/

/-- Every row has gone through every index. -/
def Fits (indexes : List Projection) (actions : List ActionsRow) : Prop :=
  ∀ p ∈ indexes, ∀ a ∈ actions, p.takes a = true

instance (indexes : List Projection) (actions : List ActionsRow) :
    Decidable (Fits indexes actions) :=
  inferInstanceAs (Decidable (∀ p ∈ indexes, ∀ a ∈ actions, p.takes a = true))

theorem fits_append {indexes : List Projection} {rows more : List ActionsRow} :
    Fits indexes (rows ++ more) ↔ Fits indexes rows ∧ Fits indexes more := by
  simp only [Fits, List.forall_mem_append]
  exact ⟨fun h => ⟨fun p hp => (h p hp).1, fun p hp => (h p hp).2⟩,
    fun h p hp => ⟨h.1 p hp, h.2 p hp⟩⟩

structure IndexedStore where
  db : Database
  indexes : List Projection
  fits : Fits indexes db.actions.rows

/-- `CREATE INDEX IF NOT EXISTS`: nothing for a name that is taken. Building the index
evaluates it on the rows there are. -/
def IndexedStore.createIndex (s : IndexedStore) (p : Projection) : Option IndexedStore :=
  if s.indexes.any fun q => q.indexName == p.indexName then some s
  else if h : Fits [p] s.db.actions.rows then
    some
      { db := s.db, indexes := s.indexes ++ [p]
        fits := by
          intro q hq
          rcases List.mem_append.mp hq with hold | hnew
          · exact s.fits q hold
          · exact h q hnew }
  else none

/-- One statement per projection, each by itself: an error leaves the indexes made so far.
`none` is the error, which ends the start of the chain. -/
def IndexedStore.createProjectionIndexes (s : IndexedStore) :
    List Projection → IndexedStore × Option Nat
  | [] => (s, some 0)
  | p :: projections =>
      match s.createIndex p with
      | none => (s, none)
      | some s =>
          let (s, made) := s.createProjectionIndexes projections
          (s, made.map (· + 1))

/-- The rows a transaction added to `actions`. -/
def addedActions (db db' : Database) : List ActionsRow :=
  db'.actions.rows.drop db.actions.rows.length

omit [IndexHost] in
theorem actions_insertBlockInTx {db db' : Database} {chainId : String}
    {extractor : AddressExtractor} {block : IndexableBlock}
    (h : Retracer.insertBlockInTx chainId extractor db block = some db') :
    db'.actions.rows = db.actions.rows ++ addedActions db db' := by
  have hblocks : insertBlocks db chainId [block] extractor = some db' := by
    rw [insertBlocks_cons, h]
    rfl
  have hactions := (insertBlocks_indexes hblocks).1
  rw [addedActions, hactions, Table.rows_insertMissing, List.drop_left]

/-- The statement on `actions` evaluates the indexes on the rows it adds. -/
def IndexedStore.insertBlockInTx (chainId : String) (extractor : AddressExtractor)
    (s : IndexedStore) (block : IndexableBlock) : Option IndexedStore :=
  match h : Retracer.insertBlockInTx chainId extractor s.db block with
  | none => none
  | some db =>
      if hfit : Fits s.indexes (addedActions s.db db) then
        some
          { db, indexes := s.indexes
            fits := by
              rw [actions_insertBlockInTx h]
              exact fits_append.mpr ⟨s.fits, hfit⟩ }
      else none

def IndexedStore.insertBlocks (s : IndexedStore) (chainId : String)
    (blocks : List IndexableBlock) (extractor : AddressExtractor) : Option IndexedStore :=
  blocks.foldlM (IndexedStore.insertBlockInTx chainId extractor) s

/-! ## What a declared projection changes -/

variable {s s' : IndexedStore} {chainId : String} {extractor : AddressExtractor}

theorem insertBlockInTx_eq_some {block : IndexableBlock}
    (h : IndexedStore.insertBlockInTx chainId extractor s block = some s') :
    Retracer.insertBlockInTx chainId extractor s.db block = some s'.db ∧
      s'.indexes = s.indexes := by
  unfold IndexedStore.insertBlockInTx at h
  split at h
  · cases h
  · next db hdb =>
      split at h
      · cases h
        exact ⟨hdb, rfl⟩
      · cases h

theorem createIndex_spec {p : Projection} (h : s.createIndex p = some s') :
    s'.db = s.db ∧ s.indexes <+: s'.indexes := by
  unfold IndexedStore.createIndex at h
  split at h
  · cases h
    exact ⟨rfl, List.prefix_refl _⟩
  · split at h
    · cases h
      exact ⟨rfl, List.prefix_append _ _⟩
    · cases h

theorem createProjectionIndexes_spec (s : IndexedStore) (projections : List Projection) :
    (s.createProjectionIndexes projections).1.db = s.db ∧
      s.indexes <+: (s.createProjectionIndexes projections).1.indexes := by
  induction projections generalizing s with
  | nil => exact ⟨rfl, List.prefix_refl _⟩
  | cons p projections ih =>
      unfold IndexedStore.createProjectionIndexes
      cases hp : s.createIndex p with
      | none => exact ⟨rfl, List.prefix_refl _⟩
      | some mid =>
          obtain ⟨hdb, hindexes⟩ := createIndex_spec hp
          obtain ⟨hdb', hindexes'⟩ := ih mid
          exact ⟨hdb'.trans hdb, hindexes.trans hindexes'⟩

/-- No projection has the name of another index, declared with it or there before. -/
def NamedApart (indexes projections : List Projection) : Prop :=
  ∀ p ∈ projections, ∀ q ∈ indexes ++ projections, q.indexName = p.indexName → q = p

theorem mem_createIndex {p : Projection} (h : s.createIndex p = some s')
    (hnames : ∀ q ∈ s.indexes, q.indexName = p.indexName → q = p) :
    p ∈ s'.indexes ∧ s'.indexes ⊆ s.indexes ++ [p] := by
  unfold IndexedStore.createIndex at h
  split at h
  · next htaken =>
      cases h
      obtain ⟨q, hq, hname⟩ := List.any_eq_true.mp htaken
      obtain rfl := hnames q hq (beq_iff_eq.mp hname)
      exact ⟨hq, List.subset_append_left _ _⟩
  · split at h
    · cases h
      exact ⟨List.mem_append_right _ (List.mem_singleton_self p), List.Subset.refl _⟩
    · cases h

/-- A start that succeeds has made every index, unless its name was another's. -/
theorem mem_createProjectionIndexes {projections : List Projection} {made : Nat}
    (h : s.createProjectionIndexes projections = (s', some made))
    (hnames : NamedApart s.indexes projections) : ∀ p ∈ projections, p ∈ s'.indexes := by
  induction projections generalizing s made with
  | nil => exact fun p hp => nomatch hp
  | cons p projections ih =>
      unfold IndexedStore.createProjectionIndexes at h
      cases hp : s.createIndex p with
      | none => simp [hp] at h
      | some mid =>
          have hother : ∀ q ∈ s.indexes, q.indexName = p.indexName → q = p := fun q hq =>
            hnames p List.mem_cons_self q (List.mem_append_left _ hq)
          obtain ⟨hin, hindexes⟩ := mem_createIndex hp hother
          simp only [hp, Prod.mk.injEq, Option.map_eq_some_iff] at h
          obtain ⟨rfl, rest, hrest, -⟩ := h
          have hkept := (createProjectionIndexes_spec mid projections).2
          have hapart : NamedApart mid.indexes projections := by
            intro q hq r hr
            apply hnames q (List.mem_cons_of_mem _ hq)
            rcases List.mem_append.mp hr with hold | hnew
            · have hbefore := hindexes hold
              simp only [List.mem_append, List.mem_singleton] at hbefore
              rcases hbefore with hin | rfl
              · exact List.mem_append_left _ hin
              · exact List.mem_append_right _ List.mem_cons_self
            · exact List.mem_append_right _ (List.mem_cons_of_mem _ hnew)
          intro q hq
          rcases List.mem_cons.mp hq with rfl | hq
          · exact hkept.subset hin
          · exact ih (Prod.ext rfl hrest) hapart q hq

/-- The start of a chain made the indexes of its projections, and they are there still. -/
def IndexedStore.Started (store : IndexedStore) (projections : List Projection) : Prop :=
  ∃ (before started : IndexedStore) (made : Nat),
    before.createProjectionIndexes projections = (started, some made) ∧
      NamedApart before.indexes projections ∧ started.indexes ⊆ store.indexes

theorem IndexedStore.Started.indexed {projections : List Projection} (h : s.Started projections) :
    ∀ p ∈ projections, p ∈ s.indexes := by
  obtain ⟨before, started, made, hmade, hnames, hkept⟩ := h
  exact fun p hp => hkept (mem_createProjectionIndexes hmade hnames p hp)

end

/-- `amount` of a transfer, as a number. -/
def amountProjection : Projection :=
  { kind := "Transfer", segments := ["amount"], ty := .numeric, nonempty := by decide
    safe := by decide }

def IndexedStore.empty [IndexHost] [Postgres] : IndexedStore :=
  { db := {}, indexes := [], fits := by simp [Fits] }

end Retracer
