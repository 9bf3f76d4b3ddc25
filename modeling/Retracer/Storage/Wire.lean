import Retracer.Storage.Schema

/-! # Blocks as storage reads them

`IndexableBlock` and `IndexableAction` are the two traits of the same names, each
given by the values its methods return. `payloadJson` is `none` when the payload
does not serialise.
-/

namespace Retracer

structure IndexableAction where
  sender : String
  identity : Option String
  payloadJson : Option Json

/-! ## Effects -/

structure AccountEffect where
  balance : Nat
  nonce : Nat
  entry : List (String × Json)

structure AssetBalanceEffect where
  asset : String
  owner : String
  balance : Nat

structure HolderStateEffect where
  asset : String
  holder : String
  state : Json

structure StakeEffect where
  master : String
  validator : String
  allocation : Option Json

structure EvidenceEffect where
  height : Nat
  proposer : String

structure BlsKeyEffect where
  address : String
  pubkey : Json
  effectiveHeight : Nat

structure AttestorEffect where
  attestor : String
  record : Json

structure DroppedEffect where
  signature : String
  sender : String
  reason : String

/-- The node's effects record. A `BTreeMap` is the list of its entries in key order. -/
structure BlockEffects where
  accounts : List (String × AccountEffect) := []
  assetBalances : List AssetBalanceEffect := []
  holderStates : List HolderStateEffect := []
  stakes : List StakeEffect := []
  validatorStatuses : List (String × Option Json) := []
  validatorSet : Option Json := none
  assetRegistrations : List Json := []
  evidence : List EvidenceEffect := []
  blsKeys : List BlsKeyEffect := []
  operatorAuthorization : List (String × Option String) := []
  attestorRegistrations : List AttestorEffect := []
  attestorDeregistrations : List String := []
  dropped : List DroppedEffect := []
  disputedBlocks : List Nat := []

/-! ## Blocks -/

structure IndexableBlock where
  height : Nat
  hash : String
  parentHash : String
  timestamp : Nat
  proposer : Option String
  round : Nat
  actions : List IndexableAction
  effects : Option BlockEffects

/-- A block without contents, for concrete runs. -/
def IndexableBlock.bare (height : Nat) (hash parentHash : String) : IndexableBlock :=
  { height, hash, parentHash, timestamp := 0, proposer := none, round := 0, actions := []
    effects := none }

/-- The identity an action is stored under: its own, else its `height:index` position. -/
def identityOrPosition (height : Int) (index : Nat) (action : IndexableAction) : String :=
  action.identity.getD (toString height ++ ":" ++ toString index)

/-! ## The row that is broadcast -/

structure ActionRow where
  actionHash : String
  blockHeight : Int
  indexInBlock : Nat
  kind : String
  fromAddress : String
  payload : Json
  blockTimestamp : Int

structure DroppedRow where
  blockHeight : Int
  signature : String
  sender : String
  reason : String

structure BlockRow where
  height : Int
  hash : String
  parentHash : String
  timestamp : Int
  proposer : Option String
  undecodedActionCount : Nat
  actions : List ActionRow
  dropped : List DroppedRow
  settlement : Option String
  disputed : Bool

def countUndecoded (actions : List ActionRow) : Nat :=
  (actions.filter (·.kind == "unknown")).length

end Retracer
