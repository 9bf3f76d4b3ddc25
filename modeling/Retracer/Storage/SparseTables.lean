import Retracer.Library.Versioned
import Retracer.Storage.StateReads

/-! # The state tables as stamped entries

Each of the five state tables that are read as of a height has a row for every entry of
the same name in the effects of the kept blocks, stamped with the height of the block, as
long as no effects record names a key of it twice.
-/

namespace Retracer

open KeyedTable Sorting Versioned

/-! ## A table and its entries -/

/-- How the entries of an effects record become rows of the table. -/
structure Sparse (chainId : String) (k : HeightTable) (ε κ : Type) where
  entriesOf : BlockEffects → List ε
  name : ε → κ
  row : Int × ε → k.Row
  chainOf : ∀ x, Stamped.chainOf (row x) = chainId
  heightOf : ∀ x, Stamped.heightOf (row x) = x.1
  key_iff : ∀ x y, key (row x) = key (row y) ↔ x.1 = y.1 ∧ name x.2 = name y.2
  rows : ∀ block writes tokens,
    blockRows chainId block writes tokens k =
      (block.effects.elim [] entriesOf).map fun e => row ((block.height : Int), e)

def Sparse.entries {chainId : String} {k : HeightTable} {ε κ : Type}
    (table : Sparse chainId k ε κ) (block : IndexableBlock) : List ε :=
  block.effects.elim [] table.entriesOf

/-- No effects record names a key of the table twice. -/
def Sparse.Distinct {chainId : String} {k : HeightTable} {ε κ : Type}
    (table : Sparse chainId k ε κ) (block : IndexableBlock) : Prop :=
  ((table.entries block).map table.name).Nodup

def accountTable (chainId : String) :
    Sparse chainId .accountState (String × AccountEffect) String where
  entriesOf := BlockEffects.accounts
  name e := e.1
  row x :=
    { chainId, address := x.2.1, height := x.1, balance := x.2.2.balance
      nonce := asI64 x.2.2.nonce, entry := .obj x.2.2.entry }
  chainOf _ := rfl
  heightOf _ := rfl
  key_iff x y := by
    simp [key, and_comm]
  rows block _ _ := by
    unfold blockRows
    cases block.effects <;> rfl

def assetBalanceTable (chainId : String) :
    Sparse chainId .assetBalances AssetBalanceEffect (String × String) where
  entriesOf := BlockEffects.assetBalances
  name e := (e.asset, e.owner)
  row x :=
    { chainId, asset := x.2.asset, holder := x.2.owner, height := x.1, balance := x.2.balance }
  chainOf _ := rfl
  heightOf _ := rfl
  key_iff x y := by
    simp [key, and_comm, and_left_comm]
  rows block _ _ := by
    unfold blockRows
    cases block.effects <;> rfl

def holderStateTable (chainId : String) :
    Sparse chainId .assetHolderStates HolderStateEffect (String × String) where
  entriesOf := BlockEffects.holderStates
  name e := (e.asset, e.holder)
  row x :=
    { chainId, asset := x.2.asset, holder := x.2.holder, height := x.1, state := x.2.state }
  chainOf _ := rfl
  heightOf _ := rfl
  key_iff x y := by
    simp [key, and_comm, and_left_comm]
  rows block _ _ := by
    unfold blockRows
    cases block.effects <;> rfl

def stakeTable (chainId : String) :
    Sparse chainId .stakes StakeEffect (String × String) where
  entriesOf := BlockEffects.stakes
  name e := (e.master, e.validator)
  row x :=
    { chainId, master := x.2.master, validator := x.2.validator, height := x.1
      allocation := x.2.allocation }
  chainOf _ := rfl
  heightOf _ := rfl
  key_iff x y := by
    simp [key, and_comm, and_left_comm]
  rows block _ _ := by
    unfold blockRows
    cases block.effects <;> rfl

/-- A deregistration is an entry without a record. -/
def BlockEffects.attestorEntries (effects : BlockEffects) : List (String × Option Json) :=
  effects.attestorRegistrations.map (fun r => (r.attestor, some r.record)) ++
    effects.attestorDeregistrations.map fun attestor => (attestor, none)

def attestorTable (chainId : String) :
    Sparse chainId .attestors (String × Option Json) String where
  entriesOf := BlockEffects.attestorEntries
  name e := e.1
  row x := { chainId, attestor := x.2.1, height := x.1, record := x.2.2 }
  chainOf _ := rfl
  heightOf _ := rfl
  key_iff x y := by
    simp [key, and_comm]
  rows block _ _ := by
    unfold blockRows
    cases block.effects with
    | none => rfl
    | some effects =>
        simp [BlockEffects.attestorsRows, BlockEffects.attestorEntries, Function.comp_def]

/-! ## What the tables hold -/

section

variable [Postgres] {chainId : String} {extractor : AddressExtractor} {k : HeightTable}
  {ε κ : Type} (table : Sparse chainId k ε κ)

/-- The entries of every block, stamped with its height. -/
abbrev Sparse.stamped (blocks : List IndexableBlock) : List (Int × ε) :=
  Versioned.stamped (fun b : IndexableBlock => (b.height : Int)) table.entries blocks

theorem Sparse.filled_rows {blocks : List IndexableBlock} {db : Database}
    (hin : ConsecutiveFrom 0 blocks) (hdistinct : ∀ b ∈ blocks, table.Distinct b)
    (h : (contentStore chainId extractor).replay blocks = some db) :
    (db.at k).rows = (table.stamped blocks).map table.row := by
  induction blocks using List.reverseRecOn generalizing db with
  | nil =>
      cases h
      cases k <;> rfl
  | append_singleton blocks last ih =>
      obtain ⟨before, hbefore, hput⟩ := (contentStore chainId extractor).replay_snoc h
      obtain ⟨writes, tokens, hwritten⟩ := written_of_insert hput
      have hheight : last.height = blocks.length := hin.height_last
      have hrows := ih hin.initial (fun b hb => hdistinct b (List.mem_append_left _ hb)) hbefore
      have hbelow := (filled_heights hin.initial hbefore).1 k
      rw [hwritten.rows k, table.rows, ← Sparse.entries, Table.rows_insertMissing_of_fresh, hrows]
      · simp [Sparse.stamped, Versioned.stamped, Function.comp_def]
      · have hlast := hdistinct last (List.mem_append_right _ (List.mem_singleton_self _))
        rw [List.map_map]
        unfold Sparse.Distinct List.Nodup at hlast
        rw [List.pairwise_map] at hlast
        apply List.pairwise_map.mpr
        apply hlast.imp
        intro e e' hne hkey
        exact hne ((table.key_iff _ _).mp hkey).2
      · intro r hr hmem
        obtain ⟨e, _, rfl⟩ := List.mem_map.mp hr
        obtain ⟨old, hold, hkey⟩ := List.mem_map.mp hmem
        have hlt := (hbelow old hold).2
        rw [hrows] at hold
        obtain ⟨x, _, rfl⟩ := List.mem_map.mp hold
        have hsame : x.1 = last.height := ((table.key_iff _ _).mp hkey).1
        rw [table.heightOf] at hlt
        omega

theorem Sparse.kept_rows {s : StoreState} (h : Kept chainId extractor s)
    (hdistinct : ∀ b ∈ s.kept, table.Distinct b) :
    (s.db.at k).rows = (table.stamped s.kept).map table.row := by
  obtain ⟨t, ht, hsame⟩ := h.holds
  rw [(content_eq_iff.mp hsame).1 k]
  exact table.filled_rows h.heights hdistinct ht

end

end Retracer
