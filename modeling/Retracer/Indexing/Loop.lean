import Retracer.Ingestion.Rpc
import Retracer.Library.Execution
import Retracer.Storage.Heights

/-! # The indexing loop

`index_chain` as a machine that stops at every `await`. An action names the await
that returns and what it returned; `commits = false` is a commit that failed for a
reason outside the batch. A commit the database itself rejects fails either way.
The network view may change at any time, so `publish` is always enabled.
-/

namespace Retracer

structure ChainConfig where
  chainId : String
  finalityDepth : Nat
  extractor : AddressExtractor

def insertBatchBlocks : Nat := 200

inductive IndexPc where
  | receiving
  | draining
  | rollingBack (rollbackTo rewindingFrom : Int)
  | sendingRewind (height : Nat)
  | stopped
deriving DecidableEq, Repr

structure IndexState where
  db : Database
  networkView : NetworkView
  tip : Option Tip
  rewoundFrom : Option Int
  batch : List IndexableBlock
  inbox : List IndexableBlock
  pc : IndexPc
  /-- Everything sent on the broadcast channel, oldest first. -/
  broadcast : List BlockRow

inductive RollbackReply where
  | failed
  | lookupFailed
  | done
deriving DecidableEq, Repr

inductive IndexAction where
  | publish (view : NetworkView)
  | recvMany (blocks : List IndexableBlock)
  | channelClosed (commits : Bool)
  | handle (commits : Bool)
  | rollback (reply : RollbackReply)
  | rewindSent
  | endChunk (commits readable : Bool)

/-! ## Pieces of the loop -/

/-- The tip as the database has it. -/
def durableTip (db : Database) (chainId : String) : Option Tip :=
  (getCursor db chainId).bind fun height =>
    (getBlockHash db chainId height).map fun hash => { height, hash }

/-- The task's state before its first await; the tip is read at the cursor it is given. -/
def IndexState.start (c : ChainConfig) (db : Database) : IndexState :=
  { db
    networkView := {}
    tip :=
      match getCursor db c.chainId with
      | some height => (getBlockHash db c.chainId height).map fun hash => { height, hash }
      | none => none
    rewoundFrom := none
    batch := []
    inbox := []
    pc := .receiving
    broadcast := [] }

def IndexState.finalized (s : IndexState) : Option Int :=
  s.networkView.finalizedHeight.map asI64

def IndexState.verdict (c : ChainConfig) (s : IndexState) (block : IndexableBlock) : TipAction :=
  classify s.tip block.height block.parentHash s.rewoundFrom c.finalityDepth s.finalized

/-- The block that the step handles. -/
def IndexState.handling (s : IndexState) : IndexAction → Option IndexableBlock
  | .handle _ => s.inbox.head?
  | _ => none

theorem IndexState.handling_handle {s : IndexState} {commits : Bool} {block : IndexableBlock}
    {rest : List IndexableBlock} (h : s.inbox = block :: rest) :
    s.handling (.handle commits) = some block := by
  simp [handling, h]

/-- The end of the loop body: optimistic tip, episode over, block pending. -/
def IndexState.accept (s : IndexState) (block : IndexableBlock) : IndexState :=
  { s with
    tip := some { height := block.height, hash := block.hash }
    rewoundFrom := none
    batch := s.batch ++ [block] }

section

variable [Postgres]

/-- `false` is a failed commit; the batch is empty afterwards either way. -/
def flushBatch (c : ChainConfig) (commits : Bool) (s : IndexState) : Bool × IndexState :=
  if s.batch.isEmpty then (true, s)
  else
    match if commits then insertBlocks s.db c.chainId s.batch c.extractor else none with
    | some db =>
        (true,
          { s with
            db
            batch := []
            broadcast := s.broadcast ++ s.batch.filterMap blockRowFromWire })
    | none => (false, { s with batch := [] })

/-- The body of the `for` loop up to its next await but one: a fork stops before the
rollback. Only the flush at the end of a chunk looks at the result of the commit. -/
def handleBlock (c : ChainConfig) (commits : Bool) (s : IndexState) (block : IndexableBlock) :
    IndexState :=
  match s.verdict c block with
  | .stale => s
  | .extend | .gap =>
      let s := s.accept block
      if s.batch.length ≥ insertBatchBlocks then (flushBatch c commits s).2 else s
  | .fork rollbackTo =>
      { (flushBatch c commits s).2 with
        pc := .rollingBack rollbackTo (s.rewoundFrom.getD (block.height - 1)) }
  | .forkBelowFinalized _ _ | .forkTooDeep _ _ => (flushBatch c commits s).2

end

/-- An error of either statement ends the task. Below zero nothing is looked up. -/
def rollbackStep (c : ChainConfig) (s : IndexState) (rollbackTo rewindingFrom : Int)
    (reply : RollbackReply) : Option IndexState :=
  let db := (Retracer.rollbackTo s.db c.chainId rollbackTo).1
  match reply with
  | .failed => some { s with pc := .stopped }
  | .lookupFailed => if rollbackTo < 0 then none else some { s with db, pc := .stopped }
  | .done =>
      some
        { s with
          db
          tip :=
            if rollbackTo < 0 then none
            else (getBlockHash db c.chainId rollbackTo).map fun hash =>
              { height := rollbackTo, hash }
          rewoundFrom := some rewindingFrom
          pc := .sendingRewind (max (rollbackTo + 1) 0).toNat }

/-! ## One step -/

variable [Postgres]

def indexStep (c : ChainConfig) (s : IndexState) (a : IndexAction) : Option IndexState :=
  match a, s.pc, s.inbox with
  | .publish view, _, _ => some { s with networkView := view }
  | .recvMany blocks, .receiving, _ =>
      if blocks.isEmpty || blocks.length > insertBatchBlocks then none
      else some { s with inbox := blocks, pc := .draining }
  | .channelClosed commits, .receiving, _ =>
      some { (flushBatch c commits s).2 with pc := .stopped }
  | .handle commits, .draining, block :: rest =>
      some (handleBlock c commits { s with inbox := rest } block)
  | .rollback reply, .rollingBack rollbackTo rewindingFrom, _ =>
      rollbackStep c s rollbackTo rewindingFrom reply
  | .rewindSent, .sendingRewind _, _ => some { s with pc := .draining }
  | .endChunk commits readable, .draining, [] =>
      match flushBatch c commits s with
      | (true, s) => some { s with pc := .receiving }
      | (false, s) =>
          some
            { s with
              tip := if readable then durableTip s.db c.chainId else none
              pc := .receiving }
  | _, _, _ => none

/-! ## Concrete runs -/

def ChainConfig.bare (finalityDepth : Nat) : ChainConfig :=
  { chainId := "chain", finalityDepth, extractor := .tierAOnly .empty }

abbrev bareStep (finalityDepth : Nat) : IndexState → IndexAction → Option IndexState :=
  @indexStep .plain (.bare finalityDepth)

/-- A run from the empty store. -/
def bareRun (finalityDepth : Nat) (as : List IndexAction) : Option IndexState :=
  Execution.exec (bareStep finalityDepth) (.start (.bare finalityDepth) .empty) as

end Retracer
