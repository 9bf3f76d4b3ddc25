import Retracer.Ingestion.Rpc
import Retracer.Storage.Wire

/-! # A block as the node's RPC serves it

`serde_json::from_value` for the effects record is a parameter: the reader stops on
its error and otherwise attaches what it returns.
-/

namespace Retracer

class SerdeJson where
  fromValue : Json → Except String BlockEffects

structure RpcAction where
  sender : String
  signature : Option String
  payloadJson : Json

structure RpcBlock where
  height : Nat
  hash : String
  parentHash : String
  timestamp : Nat
  proposer : Option String
  round : Nat := 0
  actions : List RpcAction
  /-- Attached by the reader, absent from the block's own JSON. -/
  effects : Option BlockEffects := none

instance [SerdeJson] : HasHeight RpcBlock where
  height := RpcBlock.height
  setEffects block effects :=
    (SerdeJson.fromValue effects).map fun effects => { block with effects := some effects }

def RpcAction.indexable (action : RpcAction) : IndexableAction :=
  { sender := action.sender, identity := action.signature, payloadJson := some action.payloadJson }

def RpcBlock.indexable (block : RpcBlock) : IndexableBlock :=
  { height := block.height, hash := block.hash, parentHash := block.parentHash
    timestamp := block.timestamp, proposer := block.proposer, round := block.round
    actions := block.actions.map RpcAction.indexable, effects := block.effects }

/-- Reads every effects record as one without entries, for concrete runs. -/
@[reducible] def SerdeJson.plain : SerdeJson := ⟨fun _ => .ok {}⟩

/-- A block without contents, for concrete runs. -/
def RpcBlock.bare (height : Nat) (hash parentHash : String) : RpcBlock :=
  { height, hash, parentHash, timestamp := 0, proposer := none, actions := [] }

end Retracer
