import Retracer.Storage.Reads

/-! # State reads

The state tables have one row per change, so a read at a height takes the newest row of
each key at or below it, and only then drops the rows that say the key is gone.
-/

namespace Retracer

open KeyedTable Sorting

/-- `chain_id = $1 AND height <= $2`. -/
def upTo {ρ : Type} [Stamped ρ] (chainId : String) (height : Int) (r : ρ) : Bool :=
  Stamped.chainOf r = chainId ∧ Stamped.heightOf r ≤ height

structure AssetHolding where
  asset : String
  balance : String
  height : Int

structure StakeRow where
  validator : String
  allocation : Json
  height : Int

structure AccountState where
  address : String
  height : Int
  balance : String
  nonce : Int
  entry : Json
  assets : List AssetHolding
  stakes : List StakeRow

structure HolderRow where
  holder : String
  balance : String
  height : Int
  state : Option Json
  jurisdiction : Option String

structure AttestorRow where
  attestor : String
  height : Int
  record : Json

/-- `... ORDER BY height DESC LIMIT 1` over the account's rows. -/
def newestAccount (db : Database) (chainId address : String) (height : Int) :
    Option AccountStateRow :=
  newest AccountStateRow.height
    (db.accountState.rows.filter fun r => upTo chainId height r && r.address == address)

def newestHolderState (db : Database) (chainId asset holder : String) (height : Int) :
    Option AssetHolderStatesRow :=
  newest AssetHolderStatesRow.height
    (db.assetHolderStates.rows.filter fun r =>
      upTo chainId height r && r.asset == asset && r.holder == holder)

section

variable [Collation]

/-- `SELECT DISTINCT ON (f) ... ORDER BY f, height DESC`. -/
def newestPer {ρ : Type} [Stamped ρ] (f : ρ → String) (rows : List ρ) : List ρ :=
  distinctOn f (rows.insertionSort (orderBy textLe f (newestFirst Stamped.heightOf)))

/-- Each row that is kept is the newest of its key. -/
theorem mem_newestPer {ρ : Type} [Stamped ρ] {f : ρ → String} {rows : List ρ} {r : ρ} :
    r ∈ newestPer f rows ↔
      newest Stamped.heightOf (rows.filter fun s => f s = f r) = some r := by
  apply mem_distinctOn_sorted
  intro a b hab
  have hle : textLe (f a) (f b) := by
    rw [hab]
    exact (total_of textLe (f b) (f b)).elim id id
  exact ⟨fun hr => hr.2 hab, fun hr => ⟨hle, fun _ => hr⟩⟩

/-- `ORDER BY f`. -/
def sortedBy {α : Type} (f : α → String) (rows : List α) : List α :=
  rows.insertionSort (orderBy textLe f anyOrder)

def accountAssets (db : Database) (chainId address : String) (height : Int) :
    List AssetHolding :=
  (sortedBy AssetBalancesRow.asset
    ((newestPer AssetBalancesRow.asset (db.assetBalances.rows.filter fun r =>
      upTo chainId height r && r.holder == address)).filter fun r => 0 < r.balance)).map
    fun r => { asset := r.asset, balance := toString r.balance, height := r.height }

def accountStakes (db : Database) (chainId address : String) (height : Int) : List StakeRow :=
  (sortedBy StakesRow.validator
    ((newestPer StakesRow.validator (db.stakes.rows.filter fun r =>
      upTo chainId height r && r.master == address)).filter fun r => r.allocation.isSome)).map
    fun r =>
      { validator := r.validator, allocation := r.allocation.getD .null, height := r.height }

def getAccountState (db : Database) (chainId address : String) (height : Int) :
    Option AccountState :=
  (newestAccount db chainId address height).map fun row =>
    { address, height := row.height, balance := toString row.balance, nonce := row.nonce
      entry := row.entry, assets := accountAssets db chainId address height
      stakes := accountStakes db chainId address height }

/-- The two lateral joins of a holder's balance. -/
def holderRow [Postgres] (db : Database) (chainId asset : String) (height : Int)
    (r : AssetBalancesRow) : HolderRow :=
  { holder := r.holder, balance := toString r.balance, height := r.height
    state := (newestHolderState db chainId asset r.holder height).map (·.state)
    jurisdiction := (newestAccount db chainId r.holder height).bind fun a =>
      a.entry.getText "jurisdiction" }

/-- `after` is the last holder of the page before; none is the empty text. A negative
limit, an error in SQL, takes nothing. -/
def getAssetHolders [Postgres] (db : Database) (chainId asset : String) (height : Int)
    (jurisdiction after : Option String) (limit : Int) : List HolderRow :=
  (sortedBy HolderRow.holder
    ((((newestPer AssetBalancesRow.holder (db.assetBalances.rows.filter fun r =>
        upTo chainId height r && r.asset == asset)).filter fun r => 0 < r.balance).map
      (holderRow db chainId asset height)).filter fun h =>
        !Collation.le h.holder (after.getD "") &&
          jurisdiction.all fun wanted => h.jurisdiction == some wanted)).take limit.toNat

def listAttestors (db : Database) (chainId : String) (height : Int) : List AttestorRow :=
  (sortedBy AttestorsRow.attestor
    ((newestPer AttestorsRow.attestor (db.attestors.rows.filter fun r =>
      upTo chainId height r)).filter fun r => r.record.isSome)).map fun r =>
    { attestor := r.attestor, height := r.height, record := r.record.getD .null }

end

end Retracer
