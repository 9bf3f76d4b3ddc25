import Retracer.Storage.ChainState

/-! # Reads as of a height

The reads pick the newest row of each key first and drop the removed ones after, so they
return the maps of the replayed effects. Holders are listed from after the empty text: one
without an address is never listed.
-/

namespace Retracer

open KeyedTable Sorting Versioned Execution

/-! ## What the reads should return -/

/-- The rows of a map, one per key, in the order of the keys. -/
structure Lists [Collation] {ρ : Type} (name : ρ → String) (m : String → Option ρ)
    (rows : List ρ) : Prop where
  ascending : rows.Pairwise fun a b => textLe (name a) (name b) ∧ name a ≠ name b
  mem : ∀ r, r ∈ rows ↔ m (name r) = some r

namespace ChainState

variable (m : ChainState)

def holding (address asset : String) : Option AssetHolding :=
  (m.assetBalances (asset, address)).map fun x =>
    { asset, balance := toString x.2, height := x.1 }

def stake (address validator : String) : Option StakeRow :=
  (m.stakes (address, validator)).map fun x => { validator, allocation := x.2, height := x.1 }

def attestor (attestor : String) : Option AttestorRow :=
  (m.attestors attestor).map fun x => { attestor, height := x.1, record := x.2 }

/-- A holder with its compliance state and the jurisdiction of its account. -/
def holder [Postgres] (asset holder : String) : Option HolderRow :=
  (m.assetBalances (asset, holder)).map fun x =>
    { holder, balance := toString x.2, height := x.1
      state := (m.holderStates (asset, holder)).map (·.2)
      jurisdiction := (m.accounts holder).bind fun a =>
        (Json.obj a.2.entry).getText "jurisdiction" }

/-- The account, if it has an entry at all. -/
def IsAccount [Collation] (address : String) : Option AccountState → Prop
  | none => m.accounts address = none
  | some account =>
      account.address = address ∧
        (∃ e, m.accounts address = some (account.height, e) ∧
          account.balance = toString e.balance ∧ account.nonce = asI64 e.nonce ∧
          account.entry = .obj e.entry) ∧
        Lists AssetHolding.asset (m.holding address) account.assets ∧
        Lists StakeRow.validator (m.stake address) account.stakes

end ChainState

/-- No list of the record names a key twice, and no attestor is in both of its lists. -/
def BlockEffects.NamesKeysOnce (effects : BlockEffects) : Prop :=
  (effects.accounts.map (·.1)).Nodup ∧
    (effects.assetBalances.map fun e => (e.asset, e.owner)).Nodup ∧
    (effects.holderStates.map fun e => (e.asset, e.holder)).Nodup ∧
    (effects.stakes.map fun e => (e.master, e.validator)).Nodup ∧
    (effects.attestorRegistrations.map (·.attestor) ++ effects.attestorDeregistrations).Nodup

instance (effects : BlockEffects) : Decidable effects.NamesKeysOnce := by
  unfold BlockEffects.NamesKeysOnce
  infer_instance

/-! ## The newest rows -/

section

variable [Postgres] {chainId : String} {extractor : AddressExtractor} {k : HeightTable}
  {ε κ : Type} [DecidableEq κ] (table : Sparse chainId k ε κ) {s : StoreState} {height : Int}

theorem Kept.ascending (h : Kept chainId extractor s) :
    s.kept.Pairwise fun a b => (a.height : Int) < b.height := by
  have hrange : (s.kept.map (·.height)).Pairwise (· < ·) := by
    rw [h.heights]
    exact List.pairwise_lt_range'
  apply (List.pairwise_map.mp hrange).imp
  intro a b hlt
  omega

theorem Sparse.newest_rows (h : Kept chainId extractor s)
    (hdistinct : ∀ b ∈ s.kept, table.Distinct b) {selected : k.Row → Bool} {name : κ}
    (hselected : ∀ x, selected (table.row x) = true ↔
      table.name x.2 = name ∧ x.1 ≤ height) :
    newest Stamped.heightOf ((s.db.at k).rows.filter selected) =
      (table.lastOf s.kept height name).map table.row := by
  apply newest_eq_lastOf (table.kept_rows h hdistinct) table.heightOf _ h.ascending hdistinct
  intro x
  rw [Bool.eq_iff_iff, hselected, Bool.and_eq_true, decide_eq_true_iff, decide_eq_true_iff]

variable [Collation]

/-! ## Lists of rows -/

/-- `SELECT DISTINCT ON (column) ... WHERE wanted` less the rows that are not live, and what
each part says of the entries. -/
structure Listing (table : Sparse chainId k ε κ) (height : Int) (ρ : Type) where
  column : k.Row → String
  wanted : k.Row → Bool
  live : k.Row → Bool
  out : k.Row → ρ
  name : ρ → String
  nameOf : String → κ
  value : String → Int × ε → Option ρ
  wanted_iff : ∀ x n, column (table.row x) = n ∧ wanted (table.row x) = true ↔
    table.name x.2 = nameOf n ∧ x.1 ≤ height
  name_out : ∀ r, name (out r) = column r
  value_row : ∀ x, value (column (table.row x)) x =
    if live (table.row x) then some (out (table.row x)) else none

section

variable {table} {ρ : Type} (listing : Listing table height ρ)

/-- The newest row of each key, live or not. -/
def Listing.newest (db : Database) : List k.Row :=
  newestPer listing.column ((db.at k).rows.filter listing.wanted)

def Listing.rows (db : Database) : List ρ :=
  sortedBy listing.name (((listing.newest db).filter listing.live).map listing.out)

theorem Listing.mem_newest (h : Kept chainId extractor s)
    (hdistinct : ∀ b ∈ s.kept, table.Distinct b) {r : k.Row} :
    r ∈ listing.newest s.db ↔
      (table.lastOf s.kept height (listing.nameOf (listing.column r))).map table.row =
        some r := by
  have hnewest : Sorting.newest Stamped.heightOf ((s.db.at k).rows.filter fun a =>
      decide (listing.column a = listing.column r) && listing.wanted a) =
        (table.lastOf s.kept height (listing.nameOf (listing.column r))).map table.row := by
    apply table.newest_rows h hdistinct
    intro x
    rw [Bool.and_eq_true, decide_eq_true_iff]
    exact listing.wanted_iff x (listing.column r)
  rw [← hnewest, ← List.filter_filter]
  exact mem_newestPer

omit [Postgres] [DecidableEq κ] in
theorem ascending_sortedBy {name : ρ → String} {rows : List ρ}
    (h : rows.Pairwise fun a b => name a ≠ name b) :
    (sortedBy name rows).Pairwise fun a b => textLe (name a) (name b) ∧ name a ≠ name b := by
  have hsorted : (sortedBy name rows).Pairwise (orderBy textLe name anyOrder) :=
    List.pairwise_insertionSort _ rows
  have hdistinct : (sortedBy name rows).Pairwise fun a b => name a ≠ name b :=
    h.perm (List.perm_insertionSort _ rows).symm fun hne => hne.symm
  exact (hsorted.imp fun hle => hle.1).and hdistinct

omit [Postgres] [DecidableEq κ] in
theorem Listing.sorted_map (rows : List k.Row) :
    (sortedBy listing.column rows).map listing.out =
      sortedBy listing.name (rows.map listing.out) := by
  apply List.map_insertionSort
  intro a _ b _
  simp [orderBy, anyOrder, listing.name_out]

omit [Postgres] [Collation] in
/-- The row found last, with the name it was looked up under. -/
theorem Listing.column_lastOf {n : String} {x : Int × ε}
    (h : table.lastOf s.kept height (listing.nameOf n) = some x) :
    listing.column (table.row x) = n :=
  ((listing.wanted_iff x n).mpr ⟨key_lastOf h, le_of_lastOf h⟩).1

/-- What is listed is the last entry of each key, unless it removed the key. -/
theorem Listing.lists (h : Kept chainId extractor s)
    (hdistinct : ∀ b ∈ s.kept, table.Distinct b) :
    Lists listing.name
      (fun n => (table.lastOf s.kept height (listing.nameOf n)).bind (listing.value n))
      (listing.rows s.db) := by
  constructor
  · apply ascending_sortedBy
    rw [List.pairwise_map]
    simp only [listing.name_out]
    exact pairwise_distinctOn.sublist List.filter_sublist
  · intro r
    have hrow : r ∈ listing.rows s.db ↔
        ∃ a, (a ∈ listing.newest s.db ∧ listing.live a = true) ∧ listing.out a = r := by
      rw [Listing.rows, sortedBy, List.mem_insertionSort, List.mem_map]
      simp only [List.mem_filter]
    rw [hrow, Option.bind_eq_some_iff]
    constructor
    · rintro ⟨a, ⟨ha, hlive⟩, rfl⟩
      rw [listing.mem_newest h hdistinct, Option.map_eq_some_iff] at ha
      obtain ⟨x, hx, rfl⟩ := ha
      refine ⟨x, ?_, ?_⟩
      · rw [listing.name_out]
        exact hx
      · rw [listing.name_out, listing.value_row, if_pos hlive]
    · rintro ⟨x, hx, hvalue⟩
      have hcolumn := listing.column_lastOf hx
      rw [← hcolumn, listing.value_row] at hvalue
      split at hvalue
      · next hlive =>
          refine ⟨table.row x, ⟨?_, hlive⟩, Option.some.inj hvalue⟩
          rw [listing.mem_newest h hdistinct, hcolumn, hx]
          rfl
      · cases hvalue

end

end

/-! ## The three reads -/

section

variable [Postgres] [Collation] {chainId : String} {extractor : AddressExtractor}
  {s : StoreState} {height : Int}

omit [Postgres] [Collation] in
theorem Sparse.distinct_of_effects {k : HeightTable} {ε κ : Type} (table : Sparse chainId k ε κ)
    {block : IndexableBlock}
    (h : ∀ e ∈ block.effects, ((table.entriesOf e).map table.name).Nodup) :
    table.Distinct block := by
  unfold Sparse.Distinct Sparse.entries
  cases heffects : block.effects with
  | none => exact List.nodup_nil
  | some e => exact h e heffects

/-- The five tables of a store whose effects name each key once. -/
structure StateTables (chainId : String) (s : StoreState) : Prop where
  accounts : ∀ b ∈ s.kept, (accountTable chainId).Distinct b
  assetBalances : ∀ b ∈ s.kept, (assetBalanceTable chainId).Distinct b
  holderStates : ∀ b ∈ s.kept, (holderStateTable chainId).Distinct b
  stakes : ∀ b ∈ s.kept, (stakeTable chainId).Distinct b
  attestors : ∀ b ∈ s.kept, (attestorTable chainId).Distinct b

omit [Postgres] [Collation] in
theorem stateTables_of_namesKeysOnce
    (h : ∀ b ∈ s.kept, ∀ e ∈ b.effects, e.NamesKeysOnce) : StateTables chainId s := by
  constructor
  · exact fun b hb => Sparse.distinct_of_effects _ fun e he => (h b hb e he).1
  · exact fun b hb => Sparse.distinct_of_effects _ fun e he => (h b hb e he).2.1
  · exact fun b hb => Sparse.distinct_of_effects _ fun e he => (h b hb e he).2.2.1
  · exact fun b hb => Sparse.distinct_of_effects _ fun e he => (h b hb e he).2.2.2.1
  · intro b hb
    apply Sparse.distinct_of_effects
    intro e he
    have hboth := (h b hb e he).2.2.2.2
    show (e.attestorEntries.map (·.1)).Nodup
    simpa [BlockEffects.attestorEntries, Function.comp_def] using hboth

omit [Collation] in
theorem newestAccount_eq (h : Kept chainId extractor s) (htables : StateTables chainId s)
    (address : String) :
    newestAccount s.db chainId address height =
      ((accountTable chainId).lastOf s.kept height address).map (accountTable chainId).row := by
  apply (accountTable chainId).newest_rows h htables.accounts
  intro x
  simp [accountTable, upTo, Stamped.chainOf, Stamped.heightOf, and_comm]

omit [Collation] in
theorem newestHolderState_eq (h : Kept chainId extractor s) (htables : StateTables chainId s)
    (asset holder : String) :
    newestHolderState s.db chainId asset holder height =
      ((holderStateTable chainId).lastOf s.kept height (asset, holder)).map
        (holderStateTable chainId).row := by
  apply (holderStateTable chainId).newest_rows h htables.holderStates
  intro x
  simp [holderStateTable, upTo, Stamped.chainOf, Stamped.heightOf, and_assoc, and_comm,
    and_left_comm]

def holdingListing (chainId address : String) (height : Int) :
    Listing (assetBalanceTable chainId) height AssetHolding where
  column r := r.asset
  wanted r := upTo chainId height r && r.holder == address
  live r := 0 < r.balance
  out r := { asset := r.asset, balance := toString r.balance, height := r.height }
  name := AssetHolding.asset
  nameOf asset := (asset, address)
  value asset x :=
    if 0 < x.2.balance then some { asset, balance := toString x.2.balance, height := x.1 }
    else none
  wanted_iff x n := by
    simp [assetBalanceTable, upTo, Stamped.chainOf, Stamped.heightOf, and_assoc, and_comm]
  name_out _ := rfl
  value_row x := by
    by_cases hpos : 0 < x.2.balance <;> simp [assetBalanceTable, hpos]

theorem lists_accountAssets (h : Kept chainId extractor s) (htables : StateTables chainId s)
    (address : String) :
    Lists AssetHolding.asset ((stateAt s.kept height).holding address)
      (accountAssets s.db chainId address height) := by
  have hlists := (holdingListing chainId address height).lists h htables.assetBalances
  rw [Listing.rows, ← Listing.sorted_map] at hlists
  have hmap : (stateAt s.kept height).holding address = fun asset =>
      ((assetBalanceTable chainId).lastOf s.kept height (asset, address)).bind
        ((holdingListing chainId address height).value asset) := by
    funext asset
    rw [ChainState.holding, assetBalances_stateAt chainId, Option.map_bind]
    congr 1
    funext x
    by_cases hpos : 0 < x.2.balance <;> simp [holdingListing, hpos]
  rw [hmap]
  exact hlists

def stakeListing (chainId address : String) (height : Int) :
    Listing (stakeTable chainId) height StakeRow where
  column r := r.validator
  wanted r := upTo chainId height r && r.master == address
  live r := r.allocation.isSome
  out r :=
    { validator := r.validator, allocation := r.allocation.getD .null, height := r.height }
  name := StakeRow.validator
  nameOf validator := (address, validator)
  value validator x :=
    x.2.allocation.map fun a => { validator, allocation := a, height := x.1 }
  wanted_iff x n := by
    simp only [stakeTable, upTo, Stamped.chainOf, Stamped.heightOf, Bool.and_eq_true,
      decide_eq_true_eq, beq_iff_eq, Prod.mk.injEq, true_and]
    exact ⟨fun ⟨hv, hle, hm⟩ => ⟨⟨hm, hv⟩, hle⟩, fun ⟨⟨hm, hv⟩, hle⟩ => ⟨hv, hle, hm⟩⟩
  name_out _ := rfl
  value_row := by
    rintro ⟨n, master, validator, allocation⟩
    cases allocation <;> rfl

theorem lists_accountStakes (h : Kept chainId extractor s) (htables : StateTables chainId s)
    (address : String) :
    Lists StakeRow.validator ((stateAt s.kept height).stake address)
      (accountStakes s.db chainId address height) := by
  have hlists := (stakeListing chainId address height).lists h htables.stakes
  rw [Listing.rows, ← Listing.sorted_map] at hlists
  have hmap : (stateAt s.kept height).stake address = fun validator =>
      ((stakeTable chainId).lastOf s.kept height (address, validator)).bind
        ((stakeListing chainId address height).value validator) := by
    funext validator
    rw [ChainState.stake, stakes_stateAt chainId, Option.map_bind]
    congr 1
    funext x
    rw [Function.comp_apply, Option.map_map]
    rfl
  rw [hmap]
  exact hlists

theorem isAccount_getAccountState (h : Kept chainId extractor s)
    (htables : StateTables chainId s) (address : String) :
    (stateAt s.kept height).IsAccount address
      (getAccountState s.db chainId address height) := by
  have hstate := accounts_stateAt chainId s.kept height address
  unfold getAccountState
  rw [newestAccount_eq h htables]
  cases hlast : (accountTable chainId).lastOf s.kept height address with
  | none =>
      rw [hlast] at hstate
      exact hstate
  | some x =>
      rw [hlast] at hstate
      have hrow : (accountTable chainId).row x =
          { chainId, address := x.2.1, height := x.1, balance := x.2.2.balance
            nonce := asI64 x.2.2.nonce, entry := .obj x.2.2.entry } := rfl
      rw [Option.map_some, Option.map_some, hrow]
      dsimp only [ChainState.IsAccount]
      refine ⟨rfl, ⟨x.2.2, hstate, rfl, rfl, rfl⟩, ?_, ?_⟩
      · exact lists_accountAssets h htables address
      · exact lists_accountStakes h htables address

omit [Collation] in
theorem state_eq (h : Kept chainId extractor s) (htables : StateTables chainId s)
    (asset holder : String) :
    (newestHolderState s.db chainId asset holder height).map (·.state) =
      ((stateAt s.kept height).holderStates (asset, holder)).map (·.2) := by
  rw [newestHolderState_eq h htables, holderStates_stateAt chainId]
  cases (holderStateTable chainId).lastOf s.kept height (asset, holder) <;> rfl

omit [Collation] in
theorem jurisdiction_eq (h : Kept chainId extractor s) (htables : StateTables chainId s)
    (holder : String) :
    ((newestAccount s.db chainId holder height).bind fun a =>
        a.entry.getText "jurisdiction") =
      ((stateAt s.kept height).accounts holder).bind fun a =>
        (Json.obj a.2.entry).getText "jurisdiction" := by
  rw [newestAccount_eq h htables, accounts_stateAt chainId]
  cases (accountTable chainId).lastOf s.kept height holder <;> rfl

/-- The joined columns are looked up where the balances are. -/
def holderListing (db : Database) (chainId asset : String) (height : Int) :
    Listing (assetBalanceTable chainId) height HolderRow where
  column r := r.holder
  wanted r := upTo chainId height r && r.asset == asset
  live r := 0 < r.balance
  out := holderRow db chainId asset height
  name := HolderRow.holder
  nameOf holder := (asset, holder)
  value holder x :=
    if 0 < x.2.balance then
      some (holderRow db chainId asset height
        { chainId, asset, holder, height := x.1, balance := x.2.balance })
    else none
  wanted_iff x n := by
    simp only [assetBalanceTable, upTo, Stamped.chainOf, Stamped.heightOf, Bool.and_eq_true,
      decide_eq_true_eq, beq_iff_eq, Prod.mk.injEq, true_and]
    exact ⟨fun ⟨hh, hle, ha⟩ => ⟨⟨ha, hh⟩, hle⟩, fun ⟨⟨ha, hh⟩, hle⟩ => ⟨hh, hle, ha⟩⟩
  name_out _ := rfl
  value_row x := by
    by_cases hpos : 0 < x.2.balance <;> simp [assetBalanceTable, holderRow, hpos]

theorem lists_holders (h : Kept chainId extractor s) (htables : StateTables chainId s)
    (asset : String) :
    Lists HolderRow.holder ((stateAt s.kept height).holder asset)
      ((holderListing s.db chainId asset height).rows s.db) := by
  have hmap : (stateAt s.kept height).holder asset = fun holder =>
      ((assetBalanceTable chainId).lastOf s.kept height (asset, holder)).bind
        ((holderListing s.db chainId asset height).value holder) := by
    funext holder
    rw [ChainState.holder, assetBalances_stateAt chainId, Option.map_bind]
    congr 1
    funext x
    by_cases hpos : 0 < x.2.balance
    · simp [holderListing, holderRow, hpos, state_eq h htables, jurisdiction_eq h htables]
    · simp [holderListing, hpos]
  rw [hmap]
  exact (holderListing s.db chainId asset height).lists h htables.assetBalances

def attestorListing (chainId : String) (height : Int) :
    Listing (attestorTable chainId) height AttestorRow where
  column r := r.attestor
  wanted r := upTo chainId height r
  live r := r.record.isSome
  out r := { attestor := r.attestor, height := r.height, record := r.record.getD .null }
  name := AttestorRow.attestor
  nameOf attestor := attestor
  value attestor x := x.2.2.map fun record => { attestor, height := x.1, record }
  wanted_iff x n := by
    simp [attestorTable, upTo, Stamped.chainOf, Stamped.heightOf]
  name_out _ := rfl
  value_row := by
    rintro ⟨n, attestor, record⟩
    cases record <;> rfl

theorem lists_listAttestors (h : Kept chainId extractor s) (htables : StateTables chainId s) :
    Lists AttestorRow.attestor (stateAt s.kept height).attestor
      (listAttestors s.db chainId height) := by
  have hlists := (attestorListing chainId height).lists h htables.attestors
  rw [Listing.rows, ← Listing.sorted_map] at hlists
  have hmap : (stateAt s.kept height).attestor = fun attestor =>
      ((attestorTable chainId).lastOf s.kept height attestor).bind
        ((attestorListing chainId height).value attestor) := by
    funext attestor
    rw [ChainState.attestor, attestors_stateAt chainId, Option.map_bind]
    congr 1
    funext x
    rw [Function.comp_apply, Option.map_map]
    rfl
  rw [hmap]
  exact hlists

/-- In every state reached the reads are those of the replayed effects. Of the holders, a
page has those after the one it starts from, which is the empty text at first. -/
theorem state_reads_replay_effects {ops : List ChainOp}
    (hrun : exec (chainStep chainId extractor) {} ops = some s)
    (honce : ∀ b ∈ s.kept, ∀ e ∈ b.effects, e.NamesKeysOnce) (height : Int) :
    (∀ address, (stateAt s.kept height).IsAccount address
        (getAccountState s.db chainId address height)) ∧
      (∀ asset, ∃ holders,
        Lists HolderRow.holder ((stateAt s.kept height).holder asset) holders ∧
          ∀ jurisdiction after limit,
            getAssetHolders s.db chainId asset height jurisdiction after limit =
              (holders.filter fun h => !Collation.le h.holder (after.getD "") &&
                jurisdiction.all fun wanted => h.jurisdiction == some wanted).take
                  limit.toNat) ∧
      Lists AttestorRow.attestor (stateAt s.kept height).attestor
        (listAttestors s.db chainId height) := by
  have hkept : Kept chainId extractor s :=
    exec_preserves (fun _ _ _ h hs => kept_step h hs) kept_empty hrun
  have htables : StateTables chainId s := stateTables_of_namesKeysOnce honce
  refine ⟨isAccount_getAccountState hkept htables, fun asset => ?_,
    lists_listAttestors hkept htables⟩
  refine ⟨_, lists_holders hkept htables asset, fun jurisdiction after limit => ?_⟩
  unfold Listing.rows getAssetHolders sortedBy
  rw [filter_insertionSort]
  rfl

end

/-! ## Concrete runs -/

section

/-- A block with the given effects. -/
def IndexableBlock.affecting (height : Nat) (hash parentHash : String) (effects : BlockEffects) :
    IndexableBlock :=
  { IndexableBlock.bare height hash parentHash with effects := some effects }

abbrev plainChain : StoreState → ChainOp → Option StoreState :=
  @chainStep .plain "main" (.tierAOnly .empty)

/-- Alice sells all her gold to Bob, and then another branch has Carol buy half of it. -/
def resold : List ChainOp :=
  [.insert [.affecting 0 "g" ""
      { accounts := [("alice", ⟨7, 0, [("jurisdiction", .str "CH")]⟩)]
        assetBalances := [⟨"gold", "alice", 10⟩] },
    .affecting 1 "a1" "g"
      { assetBalances := [⟨"gold", "alice", 0⟩, ⟨"gold", "bob", 10⟩] }],
    .rollback 0,
    .insert [.affecting 1 "b1" "g"
      { assetBalances := [⟨"gold", "alice", 5⟩, ⟨"gold", "carol", 5⟩] }]]

/-- Everyone who holds gold at height 1. -/
abbrev goldHolders (s : StoreState) : List HolderRow :=
  @getAssetHolders .plain .plain s.db "main" "gold" 1 none none 9223372036854775807

/-- Bob's row went with its block. -/
theorem state_reads_replay_effects_resold :
    ∃ s, exec plainChain {} resold = some s ∧
      (∀ address, @ChainState.IsAccount (stateAt s.kept 1) .plain address
        (@getAccountState .plain s.db "main" address 1)) ∧
      (goldHolders s).map (fun h => (h.holder, h.balance)) = [("alice", "5"), ("carol", "5")] := by
  have hsome : ((exec plainChain {} resold).map fun s =>
      (decide (∀ b ∈ s.kept, ∀ e ∈ b.effects, e.NamesKeysOnce),
        (goldHolders s).map fun h => (h.holder, h.balance))) =
      some (true, [("alice", "5"), ("carol", "5")]) := by decide
  obtain ⟨s, hs, hboth⟩ := Option.map_eq_some_iff.mp hsome
  obtain ⟨honce, hholders⟩ := Prod.mk.inj hboth
  have hreads := @state_reads_replay_effects .plain .plain _ _ _ _ hs
    (of_decide_eq_true honce) 1
  exact ⟨s, hs, hreads.1, hholders⟩

/-- Gold held by the empty text. -/
def heldByNobody : List ChainOp :=
  [.insert [.affecting 0 "g" "" { assetBalances := [⟨"gold", "", 5⟩] }]]

/-- It is a positive balance, and no page shows it. -/
theorem holders_are_not_all_listed :
    ¬ ∀ (ops : List ChainOp) (s : StoreState), exec plainChain {} ops = some s →
      (∀ b ∈ s.kept, ∀ e ∈ b.effects, e.NamesKeysOnce) →
        @Lists .plain _ HolderRow.holder (@ChainState.holder (stateAt s.kept 1) .plain "gold")
          (goldHolders s) := by
  intro h
  have hsome : ((exec plainChain {} heldByNobody).map fun s =>
      (decide (∀ b ∈ s.kept, ∀ e ∈ b.effects, e.NamesKeysOnce),
        (@ChainState.holder (stateAt s.kept 1) .plain "gold" "").map (·.holder),
        (goldHolders s).length)) = some (true, some "", 0) := by decide
  obtain ⟨s, hs, hall⟩ := Option.map_eq_some_iff.mp hsome
  obtain ⟨honce, hrest⟩ := Prod.mk.inj hall
  obtain ⟨hheld, hempty⟩ := Prod.mk.inj hrest
  obtain ⟨r, hr, hname⟩ := Option.map_eq_some_iff.mp hheld
  have hlists := h heldByNobody s hs (of_decide_eq_true honce)
  have hmem : r ∈ goldHolders s := by
    apply (@Lists.mem .plain _ _ _ _ hlists r).mpr
    rw [hname]
    exact hr
  rw [List.length_eq_zero_iff.mp hempty] at hmem
  cases hmem

end

end Retracer
