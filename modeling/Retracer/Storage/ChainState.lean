import Retracer.Storage.SparseTables

/-! # The state of a chain at a height

It needs no tables: replay the effects of the blocks up to the height into plain maps,
where a zero balance, a null allocation and a deregistration remove. Each map then has
the last entry of a key, if that one did not remove it.
-/

namespace Retracer

open Versioned

/-! ## Replaying effects -/

/-- One value per key, with the height that wrote it. -/
structure ChainState where
  accounts : String → Option (Int × AccountEffect) := fun _ => none
  assetBalances : String × String → Option (Int × Nat) := fun _ => none
  holderStates : String × String → Option (Int × Json) := fun _ => none
  stakes : String × String → Option (Int × Json) := fun _ => none
  attestors : String → Option (Int × Json) := fun _ => none

def ChainState.apply (m : ChainState) (height : Int) (effects : BlockEffects) : ChainState where
  accounts := writeAll m.accounts (effects.accounts.map fun e => (e.1, some (height, e.2)))
  assetBalances :=
    writeAll m.assetBalances (effects.assetBalances.map fun e =>
      ((e.asset, e.owner), if 0 < e.balance then some (height, e.balance) else none))
  holderStates :=
    writeAll m.holderStates (effects.holderStates.map fun e =>
      ((e.asset, e.holder), some (height, e.state)))
  stakes :=
    writeAll m.stakes (effects.stakes.map fun e =>
      ((e.master, e.validator), e.allocation.map fun a => (height, a)))
  attestors :=
    writeAll (writeAll m.attestors (effects.attestorRegistrations.map fun r =>
      (r.attestor, some (height, r.record))))
      (effects.attestorDeregistrations.map fun attestor => (attestor, none))

def ChainState.applyBlock (m : ChainState) (block : IndexableBlock) : ChainState :=
  block.effects.elim m (m.apply block.height)

def stateAt (blocks : List IndexableBlock) (height : Int) : ChainState :=
  (blocks.filter fun b => (b.height : Int) ≤ height).foldl ChainState.applyBlock {}

/-! ## The maps keep the last entry -/

section

variable {chainId : String} {k : HeightTable} {ε κ : Type} [DecidableEq κ]
  (table : Sparse chainId k ε κ)

/-- The last entry of a key at or below a height. -/
abbrev Sparse.lastOf (blocks : List IndexableBlock) (height : Int) (name : κ) :
    Option (Int × ε) :=
  Versioned.lastOf (fun b : IndexableBlock => (b.height : Int)) table.entries table.name blocks
    height name

variable {ν : Type} {field : ChainState → κ → Option ν} {value : Int × ε → Option ν}

theorem Sparse.field_applyBlock
    (happly : ∀ m height effects, field (m.apply height effects) =
      writeAll (field m) ((table.entriesOf effects).map fun e => (table.name e, value (height, e))))
    (m : ChainState) (block : IndexableBlock) :
    field (m.applyBlock block) =
      writeAll (field m) ((table.stamped [block]).map fun x => (table.name x.2, value x)) := by
  have hone : table.stamped [block] =
      (block.effects.elim [] table.entriesOf).map fun e => ((block.height : Int), e) :=
    List.flatMap_singleton _ _
  rw [hone, List.map_map, ChainState.applyBlock]
  cases block.effects with
  | none => rfl
  | some effects => exact happly m block.height effects

theorem Sparse.field_stateAt (hinit : field {} = fun _ => none)
    (happly : ∀ m height effects, field (m.apply height effects) =
      writeAll (field m) ((table.entriesOf effects).map fun e => (table.name e, value (height, e))))
    (blocks : List IndexableBlock) (height : Int) (name : κ) :
    field (stateAt blocks height) name = (table.lastOf blocks height name).bind value := by
  have hfold : ∀ (m : ChainState) (blocks : List IndexableBlock),
      field (blocks.foldl ChainState.applyBlock m) =
        writeAll (field m) ((table.stamped blocks).map fun x => (table.name x.2, value x)) := by
    intro m blocks
    induction blocks generalizing m with
    | nil => rfl
    | cons block blocks ih =>
        have hsplit : table.stamped (block :: blocks) =
            table.stamped [block] ++ table.stamped blocks := by
          simp [Sparse.stamped, Versioned.stamped]
        rw [List.foldl_cons, ih, table.field_applyBlock happly, hsplit, List.map_append,
          writeAll_append]
  rw [stateAt, hfold, hinit]
  exact writeAll_eq_lastOf

end

section

variable (chainId : String) (blocks : List IndexableBlock) (height : Int)

theorem accounts_stateAt (address : String) :
    (stateAt blocks height).accounts address =
      ((accountTable chainId).lastOf blocks height address).bind fun x => some (x.1, x.2.2) :=
  (accountTable chainId).field_stateAt rfl (fun _ _ _ => rfl) blocks height address

theorem assetBalances_stateAt (name : String × String) :
    (stateAt blocks height).assetBalances name =
      ((assetBalanceTable chainId).lastOf blocks height name).bind fun x =>
        if 0 < x.2.balance then some (x.1, x.2.balance) else none :=
  (assetBalanceTable chainId).field_stateAt rfl (fun _ _ _ => rfl) blocks height name

theorem holderStates_stateAt (name : String × String) :
    (stateAt blocks height).holderStates name =
      ((holderStateTable chainId).lastOf blocks height name).bind fun x =>
        some (x.1, x.2.state) :=
  (holderStateTable chainId).field_stateAt rfl (fun _ _ _ => rfl) blocks height name

theorem stakes_stateAt (name : String × String) :
    (stateAt blocks height).stakes name =
      ((stakeTable chainId).lastOf blocks height name).bind fun x =>
        x.2.allocation.map fun a => (x.1, a) :=
  (stakeTable chainId).field_stateAt rfl (fun _ _ _ => rfl) blocks height name

theorem attestors_stateAt (attestor : String) :
    (stateAt blocks height).attestors attestor =
      ((attestorTable chainId).lastOf blocks height attestor).bind fun x =>
        x.2.2.map fun record => (x.1, record) := by
  apply (attestorTable chainId).field_stateAt rfl
  intro m height effects
  have hsplit : (attestorTable chainId).entriesOf effects = effects.attestorEntries := rfl
  rw [hsplit, BlockEffects.attestorEntries, List.map_append, writeAll_append, List.map_map,
    List.map_map]
  rfl

end

end Retracer
