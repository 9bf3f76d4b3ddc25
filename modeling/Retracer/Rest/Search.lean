import Retracer.Storage.Lookup
import Retracer.Storage.Streamed

/-! # Search and block lookup

Both endpoints take a height or a block hash. `GET blocks/{q}` brings a hash into its stored
form before it looks for it, search compares the text as it came.
-/

namespace Retracer

open KeyedTable

/-! ## The endpoints -/

/-- What the endpoints need to know about a chain. -/
structure RestChain where
  chainId : String
  addressValidator : Option (String → Bool)
  settledHeight : Option Nat
  finalWatermark : Option Nat

/-- The cases of `ApiError` that a lookup returns. -/
inductive LookupError where
  | notFound (message : String)
  | badRequest (message : String)
  | internal
deriving DecidableEq

inductive SearchHit where
  | blockHeight (height : Int)
  | accountAddress (address : String)
  | actionHash (actionHash : String)
deriving DecidableEq

/-- `str::parse::<i64>`: digits after an optional sign, within the range. -/
def parseI64 (s : String) : Option Int :=
  let (negative, digits) :=
    match s.toList with
    | '-' :: rest => (true, rest)
    | '+' :: rest => (false, rest)
    | cs => (false, cs)
  let n := digits.foldl (fun n c => 10 * n + (c.toNat - '0'.toNat)) 0
  if digits.isEmpty || !digits.all Char.isDigit then none
  else if negative then if n ≤ 2 ^ 63 then some (-n) else none
  else if n < 2 ^ 63 then some n else none

def settlement (height : Int) (disputed : Bool) (settledHeight finalWatermark : Option Nat) :
    String :=
  let atOrBelow := fun mark : Option Nat => mark.any fun m => 0 ≤ height && height ≤ m
  if disputed then "disputed"
  else if atOrBelow settledHeight then "final"
  else if atOrBelow finalWatermark then "attested"
  else "pending"

def blockExistsAtHeight (db : Database) (chainId : String) (height : Int) : Bool :=
  (getBlockHash db chainId height).isSome

def blockHeightByHash (db : Database) (chainId hash : String) : Option Int :=
  (db.blocks.rows.find? fun b => b.chainId = chainId ∧ b.hash = hash).map (·.height)

/-- `MAX_SEARCH_LEN`, in bytes. -/
def maxSearchLen : Nat := 256

def search (chain : RestChain) (db : Database) (q : String) : Except LookupError SearchHit :=
  if maxSearchLen < q.utf8ByteSize then
    .error (.badRequest ("q must be " ++ toString maxSearchLen ++ " characters or fewer"))
  else
    match (parseI64 q).filter (blockExistsAtHeight db chain.chainId) with
    | some height => .ok (.blockHeight height)
    | none =>
        if chain.addressValidator.any fun valid => valid q then .ok (.accountAddress q)
        else
          match blockHeightByHash db chain.chainId q with
          | some height => .ok (.blockHeight height)
          | none =>
              match getActionByHash db chain.chainId q with
              | none => .error .internal
              | some (some _) => .ok (.actionHash q)
              | some none => .error (.notFound "no block, account, or action matches")

/-- `get_block_by_height` or `get_block_by_hash`, and the settlement of what is found. -/
def getBlock [Collation] (chain : RestChain) (db : Database) (height : String) :
    Except LookupError BlockRow :=
  let read : BlocksRead :=
    match parseI64 height with
    | some h => .byHeight h
    | none => .byHash height
  match read.run db chain.chainId with
  | none => .error .internal
  | some [] => .error (.notFound "block not found")
  | some (row :: _) =>
      .ok { row with
            settlement := some
              (settlement row.height row.disputed chain.settledHeight chain.finalWatermark) }

/-! ## Stored hashes are canonical -/

def lowerHexDigits : List Char := "0123456789abcdef".toList

/-- `0x` and at least 20 hex digits in lower case. -/
def IsBlockHash (hash : String) : Prop :=
  ∃ digits, hash.toList = '0' :: 'x' :: digits ∧ 20 ≤ digits.length ∧
    ∀ c ∈ digits, c ∈ lowerHexDigits

theorem lowerHexDigits_fixed : ∀ c ∈ lowerHexDigits,
    (c.isDigit || ('a' ≤ c.toLower && c.toLower ≤ 'f')) = true ∧ c.toLower = c := by
  have hall : (lowerHexDigits.all fun c => decide ((c.isDigit ||
      ('a' ≤ c.toLower && c.toLower ≤ 'f')) = true ∧ c.toLower = c)) = true := by decide
  rw [List.all_eq_true] at hall
  exact fun c hc => of_decide_eq_true (hall c hc)

theorem IsBlockHash.canonical {hash : String} (h : IsBlockHash hash) :
    canonicalizeHash hash = hash := by
  obtain ⟨digits, hlist, hlength, hdigits⟩ := h
  have hne : digits.isEmpty = false := by
    cases digits with
    | nil => simp at hlength
    | cons _ _ => rfl
  have hall : (digits.all fun c => c.isDigit || ('a' ≤ c.toLower && c.toLower ≤ 'f')) = true :=
    List.all_eq_true.mpr fun c hc => (lowerHexDigits_fixed c (hdigits c hc)).1
  have hlower : digits.map Char.toLower = digits := by
    conv_rhs => rw [← List.map_id digits]
    exact List.map_congr_left fun c hc => (lowerHexDigits_fixed c (hdigits c hc)).2
  have hstrip : stripHexMark hash.toList = digits := by rw [hlist, stripHexMark]
  unfold canonicalizeHash
  simp only [hstrip, hne, hall, Bool.not_false, Bool.and_self, if_true, hlower]
  apply String.toList_inj.mp
  rw [String.toList_append, hlist]
  simp

/-! ## What the two answer -/

section

variable {chain : RestChain} {db : Database} {q : String}

/-- A text that is neither a height nor an address is searched as a hash. -/
theorem search_eq_blockHeight_iff (hheight : parseI64 q = none)
    (haddress : ∀ valid ∈ chain.addressValidator, valid q = false) (h : Int) :
    search chain db q = .ok (.blockHeight h) ↔
      q.utf8ByteSize ≤ maxSearchLen ∧ blockHeightByHash db chain.chainId q = some h := by
  have hvalid : (chain.addressValidator.any fun valid => valid q) = false := by
    cases hval : chain.addressValidator with
    | none => rfl
    | some valid => simpa using haddress valid hval
  unfold search
  by_cases hlong : maxSearchLen < q.utf8ByteSize
  · rw [if_pos hlong]
    have hnot : ¬ q.utf8ByteSize ≤ maxSearchLen := by omega
    simp [hnot]
  · rw [if_neg hlong, hheight, Option.filter_none]
    have hle : q.utf8ByteSize ≤ maxSearchLen := by omega
    simp only [hvalid, Bool.false_eq_true, if_false, hle, true_and]
    cases blockHeightByHash db chain.chainId q with
    | some height => simp
    | none =>
        cases getActionByHash db chain.chainId q with
        | none => simp
        | some found => cases found <;> simp

theorem getBlock_height_iff [Collation] (hblocks : ActionsHaveBlocks db)
    (hheight : parseI64 q = none) (h : Int) :
    (∃ row, getBlock chain db q = .ok row ∧ row.height = h) ↔
      blockHeightByHash db chain.chainId (canonicalizeHash q) = some h := by
  have hsome : ((BlocksRead.byHash q).run db chain.chainId).isSome :=
    BlocksRead.isSome_run hblocks _
  obtain ⟨page, hpage⟩ := Option.isSome_iff_exists.mp hsome
  have hheights : page.map (·.height) =
      (blockHeightByHash db chain.chainId (canonicalizeHash q)).toList := by
    rw [BlocksRead.heights_run hpage, BlocksRead.select, blockHeightByHash, Option.toList_map]
  unfold getBlock
  simp only [hheight, hpage]
  cases page with
  | nil =>
      have hnone : blockHeightByHash db chain.chainId (canonicalizeHash q) = none :=
        Option.toList_eq_nil_iff.mp hheights.symm
      simp [hnone]
  | cons row rest =>
      have hfound : blockHeightByHash db chain.chainId (canonicalizeHash q) = some row.height := by
        cases hb : blockHeightByHash db chain.chainId (canonicalizeHash q) with
        | none => simp [hb] at hheights
        | some height =>
            simp only [hb, List.map_cons, Option.toList_some, List.cons.injEq] at hheights
            rw [hheights.1]
      simp [hfound]

theorem mem_of_blockHeightByHash {chainId hash : String} {h : Int}
    (hfound : blockHeightByHash db chainId hash = some h) :
    ∃ b ∈ db.blocks.rows, b.chainId = chainId ∧ b.hash = hash ∧ b.height = h := by
  obtain ⟨b, hb, hheight⟩ := Option.map_eq_some_iff.mp hfound
  have hkeep := List.find?_some hb
  simp only [decide_eq_true_eq] at hkeep
  exact ⟨b, List.mem_of_find?_eq_some hb, hkeep.1, hkeep.2, hheight⟩

/-- Search names the block that the block endpoint serves. -/
def SearchAgrees [Collation] (chain : RestChain) (db : Database) (q : String) : Prop :=
  ∀ h, search chain db q = .ok (.blockHeight h) ↔
    ∃ row, getBlock chain db q = .ok row ∧ row.height = h

/-- On texts that are neither a height nor an address, search agrees with the block endpoint
exactly when the canonical form is not the hash of a block, or is the text itself and short
enough. -/
theorem searchAgrees_iff [Collation] (hblocks : ActionsHaveBlocks db)
    (hhashes : ∀ b ∈ db.blocks.rows, b.chainId = chain.chainId → IsBlockHash b.hash)
    (hheight : parseI64 q = none)
    (haddress : ∀ valid ∈ chain.addressValidator, valid q = false) :
    SearchAgrees chain db q ↔
      (∀ b ∈ db.blocks.rows, b.chainId = chain.chainId → b.hash ≠ canonicalizeHash q) ∨
        q = canonicalizeHash q ∧ q.utf8ByteSize ≤ maxSearchLen := by
  unfold SearchAgrees
  simp only [search_eq_blockHeight_iff hheight haddress, getBlock_height_iff hblocks hheight]
  constructor
  · intro hsame
    by_cases hnone : ∀ b ∈ db.blocks.rows, b.chainId = chain.chainId → b.hash ≠ canonicalizeHash q
    · exact Or.inl hnone
    · push Not at hnone
      obtain ⟨b, hb, hchain, hhash⟩ := hnone
      have hsome : (blockHeightByHash db chain.chainId (canonicalizeHash q)).isSome := by
        rw [blockHeightByHash, Option.isSome_map]
        exact List.find?_isSome.mpr ⟨b, hb, by simp [hchain, hhash]⟩
      obtain ⟨h, hcanonical⟩ := Option.isSome_iff_exists.mp hsome
      obtain ⟨hshort, hraw⟩ := (hsame h).mpr hcanonical
      obtain ⟨b₁, hb₁, hc₁, hhash₁, hh₁⟩ := mem_of_blockHeightByHash hcanonical
      obtain ⟨b₂, hb₂, hc₂, hhash₂, hh₂⟩ := mem_of_blockHeightByHash hraw
      have hkey : key b₂ = key b₁ := Prod.ext (hc₂.trans hc₁.symm) (hh₂.trans hh₁.symm)
      rw [db.blocks.eq_of_key_eq hb₂ hb₁ hkey, hhash₁] at hhash₂
      exact Or.inr ⟨hhash₂.symm, hshort⟩
  · rintro (hnone | ⟨hself, hshort⟩) h
    · constructor
      · rintro ⟨_, hraw⟩
        obtain ⟨b, hb, hchain, hhash, _⟩ := mem_of_blockHeightByHash hraw
        have hcanonical := (hhashes b hb hchain).canonical
        rw [hhash] at hcanonical
        exact absurd (hhash.trans hcanonical.symm) (hnone b hb hchain)
      · intro hcanonical
        obtain ⟨b, hb, hchain, hhash, _⟩ := mem_of_blockHeightByHash hcanonical
        exact absurd hhash (hnone b hb hchain)
    · rw [← hself]
      exact and_iff_right hshort

end

/-! ## Concrete stores -/

def hashDigits : String := "00112233445566778899aabb"

/-- A store with one block, under this hash. -/
def hashedStore : Option Database :=
  @insertBlock .plain .empty "main" (.bare 0 ("0x" ++ hashDigits) "") (.tierAOnly .empty)

/-- A chain without a validator whose node has not answered. -/
def silentChain : RestChain :=
  { chainId := "main", addressValidator := none, settledHeight := none, finalWatermark := none }

theorem isBlockHash_hashedStore {db : Database} (h : hashedStore = some db) :
    ActionsHaveBlocks db ∧ ∀ b ∈ db.blocks.rows, b.chainId = "main" → IsBlockHash b.hash := by
  refine ⟨(@Anchored.insertBlocks .plain _ _ _ _ _ anchored_empty h).actionsHaveBlocks, ?_⟩
  have hall : hashedStore.all (fun db => db.blocks.rows.all fun b =>
      b.hash = "0x" ++ hashDigits) = true := by decide
  have hlower : (hashDigits.toList.all fun c => decide (c ∈ lowerHexDigits)) = true := by decide
  rw [h, Option.all_some, List.all_eq_true] at hall
  rw [List.all_eq_true] at hlower
  intro b hb _
  have hhash := hall b hb
  simp only [decide_eq_true_eq] at hhash
  refine ⟨hashDigits.toList, by rw [hhash]; decide, by decide, ?_⟩
  exact fun c hc => of_decide_eq_true (hlower c hc)

theorem searchAgrees_iff_canonical :
    ∃ db, hashedStore = some db ∧
      (@SearchAgrees .plain silentChain db ("0x" ++ hashDigits) ↔
        (∀ b ∈ db.blocks.rows, b.chainId = "main" →
          b.hash ≠ canonicalizeHash ("0x" ++ hashDigits)) ∨
        "0x" ++ hashDigits = canonicalizeHash ("0x" ++ hashDigits) ∧
          ("0x" ++ hashDigits).utf8ByteSize ≤ maxSearchLen) := by
  have hsome : hashedStore.isSome := by decide
  obtain ⟨db, hdb⟩ := Option.isSome_iff_exists.mp hsome
  obtain ⟨hblocks, hhashes⟩ := isBlockHash_hashedStore hdb
  exact ⟨db, hdb, @searchAgrees_iff silentChain db _ .plain hblocks hhashes (by decide) (by decide)⟩

/-- The hash without its mark: the endpoint serves the block, search has no match. -/
theorem search_misses_bare_hash :
    ¬ ∀ (chain : RestChain) (db : Database) (q : String), ActionsHaveBlocks db →
      (∀ b ∈ db.blocks.rows, b.chainId = chain.chainId → IsBlockHash b.hash) →
      parseI64 q = none → (∀ valid ∈ chain.addressValidator, valid q = false) →
      @SearchAgrees .plain chain db q := by
  intro h
  have hdiffer : hashedStore.any (fun db =>
      (search silentChain db hashDigits).toOption.isNone &&
        ((@getBlock .plain silentChain db hashDigits).toOption.map (·.height)) = some 0) =
      true := by decide
  obtain ⟨db, hdb, hanswers⟩ := (Option.any_eq_true _ _).mp hdiffer
  obtain ⟨hblocks, hhashes⟩ := isBlockHash_hashedStore hdb
  simp only [Bool.and_eq_true, decide_eq_true_eq] at hanswers
  cases hrow : @getBlock .plain silentChain db hashDigits with
  | error e => simp [hrow, Except.toOption] at hanswers
  | ok row =>
      have hheight : row.height = 0 := by simpa [hrow, Except.toOption] using hanswers.2
      have hsearch := (h silentChain db hashDigits hblocks hhashes (by decide) (by decide) 0).mpr
        ⟨row, hrow, hheight⟩
      simp [hsearch, Except.toOption] at hanswers

end Retracer
