import Retracer.Indexing.Transition
import Retracer.Ingestion.Pending

/-! # Reader, channels and loop together

`add_chain_with_source` starts the reader at the height after the cursor and the loop
at the cursor, and joins them by a channel of 300 blocks one way and one of 4 rewinds
the other way. A step of the system is one step of one task. The node's answers are
arbitrary; every interleaving is a run.
-/

namespace Retracer

open Execution

def blockCapacity : Nat := 300

def rewindCapacity : Nat := 4

structure System where
  index : IndexState
  reader : Reader RpcBlock
  blockChannel : List RpcBlock
  rewindChannel : List Nat

def System.start (c : ChainConfig) (db : Database) : System :=
  { index := .start c db
    reader := .start ((getCursor db c.chainId).map fun height => height.toNat + 1)
    blockChannel := []
    rewindChannel := [] }

inductive SystemAction where
  /-- The node answers, or a sleep of the reader is over. -/
  | answer (input : ReaderInput RpcBlock)
  | noRewind
  | takeRewind
  | rewindsClosed
  | send
  | sendFailed
  | recvMany (count : Nat)
  | channelClosed (commits : Bool)
  | handle (commits : Bool)
  | rollback (reply : RollbackReply)
  | sendRewind
  /-- The reader is gone; the loop ignores the error. -/
  | rewindUnheard
  | endChunk (commits readable : Bool)

def ReaderInput.isAnswer {B : Type} : ReaderInput B → Bool
  | .wake | .statusUnavailable | .status _ | .pageUnavailable | .page _ | .effectsUnavailable
  | .effects _ | .disputes _ => true
  | .noRewind | .rewind _ | .rewindsClosed | .sent | .sendFailed => false

/-- The watch channel: the loop sees the reader's latest view at once. -/
def System.withReader (w : System) (r : Reader RpcBlock) : System :=
  { w with reader := r, index := { w.index with networkView := r.networkTx } }

section

variable [SerdeJson]

/-- The reader's side, up to the network view. -/
def readerStep (w : System) : SystemAction → Option System
  | .answer input =>
      if input.isAnswer then (w.reader.step input).map w.withReader else none
  | .noRewind =>
      if w.rewindChannel.isEmpty then (w.reader.step .noRewind).map w.withReader else none
  | .takeRewind =>
      match w.rewindChannel with
      | height :: rest =>
          (w.reader.step (.rewind height)).map fun r =>
            { w.withReader r with rewindChannel := rest }
      | [] => none
  | .rewindsClosed =>
      if w.rewindChannel.isEmpty && w.index.pc == .stopped then
        (w.reader.step .rewindsClosed).map w.withReader
      else none
  | .send =>
      match w.reader.pc with
      | .offering _ block _ _ =>
          if w.blockChannel.length < blockCapacity && w.index.pc != .stopped then
            (w.reader.step .sent).map fun r =>
              { w.withReader r with blockChannel := w.blockChannel ++ [block] }
          else none
      | _ => none
  | .sendFailed =>
      if w.index.pc == .stopped then (w.reader.step .sendFailed).map w.withReader else none
  | _ => none

end

variable [Postgres]

def loopStep (c : ChainConfig) (w : System) : SystemAction → Option System
  | .recvMany count =>
      if count ≤ w.blockChannel.length then
        (indexStep c w.index
          (.recvMany ((w.blockChannel.take count).map RpcBlock.indexable))).map fun s =>
            { w with index := s, blockChannel := w.blockChannel.drop count }
      else none
  | .channelClosed commits =>
      if w.blockChannel.isEmpty && w.reader.isStopped then
        (indexStep c w.index (.channelClosed commits)).map fun s => { w with index := s }
      else none
  | .handle commits => (indexStep c w.index (.handle commits)).map fun s => { w with index := s }
  | .rollback reply => (indexStep c w.index (.rollback reply)).map fun s => { w with index := s }
  | .sendRewind =>
      match w.index.pc with
      | .sendingRewind height =>
          if w.rewindChannel.length < rewindCapacity && !w.reader.isStopped then
            (indexStep c w.index .rewindSent).map fun s =>
              { w with index := s, rewindChannel := w.rewindChannel ++ [height] }
          else none
      | _ => none
  | .rewindUnheard =>
      if w.reader.isStopped then
        (indexStep c w.index .rewindSent).map fun s => { w with index := s }
      else none
  | .endChunk commits readable =>
      (indexStep c w.index (.endChunk commits readable)).map fun s => { w with index := s }
  | _ => none

variable [SerdeJson]

def systemStep (c : ChainConfig) (w : System) (a : SystemAction) : Option System :=
  (readerStep w a).or (loopStep c w a)

/-! ## What one step can do -/

inductive Move (c : ChainConfig) (w : System) : SystemAction → System → Prop
  | answer {input : ReaderInput RpcBlock} {r : Reader RpcBlock} (hin : input.isAnswer = true)
      (hr : w.reader.step input = some r) : Move c w (.answer input) (w.withReader r)
  | noRewind {r : Reader RpcBlock} (hnil : w.rewindChannel = [])
      (hr : w.reader.step .noRewind = some r) : Move c w .noRewind (w.withReader r)
  | takeRewind {r : Reader RpcBlock} {height : Nat} {rest : List Nat}
      (hcons : w.rewindChannel = height :: rest)
      (hr : w.reader.step (.rewind height) = some r) :
      Move c w .takeRewind { w.withReader r with rewindChannel := rest }
  | rewindsClosed {r : Reader RpcBlock} (hnil : w.rewindChannel = [])
      (hstop : w.index.pc = .stopped) (hr : w.reader.step .rewindsClosed = some r) :
      Move c w .rewindsClosed (w.withReader r)
  | send {r : Reader RpcBlock} {height : Nat} {block : RpcBlock} {effects : List (Nat × Json)}
      {rest : List RpcBlock} (hpc : w.reader.pc = .offering height block effects rest)
      (hroom : w.blockChannel.length < blockCapacity) (hrun : w.index.pc ≠ .stopped)
      (hr : w.reader.step .sent = some r) :
      Move c w .send { w.withReader r with blockChannel := w.blockChannel ++ [block] }
  | sendFailed {r : Reader RpcBlock} (hstop : w.index.pc = .stopped)
      (hr : w.reader.step .sendFailed = some r) : Move c w .sendFailed (w.withReader r)
  | recvMany {count : Nat} {s : IndexState} (hle : count ≤ w.blockChannel.length)
      (hs : indexStep c w.index
        (.recvMany ((w.blockChannel.take count).map RpcBlock.indexable)) = some s) :
      Move c w (.recvMany count)
        { w with index := s, blockChannel := w.blockChannel.drop count }
  | channelClosed {commits : Bool} {s : IndexState} (hnil : w.blockChannel = [])
      (hstop : w.reader.isStopped = true)
      (hs : indexStep c w.index (.channelClosed commits) = some s) :
      Move c w (.channelClosed commits) { w with index := s }
  | handle {commits : Bool} {s : IndexState}
      (hs : indexStep c w.index (.handle commits) = some s) :
      Move c w (.handle commits) { w with index := s }
  | rollback {reply : RollbackReply} {s : IndexState}
      (hs : indexStep c w.index (.rollback reply) = some s) :
      Move c w (.rollback reply) { w with index := s }
  | sendRewind {height : Nat} {s : IndexState} (hpc : w.index.pc = .sendingRewind height)
      (hroom : w.rewindChannel.length < rewindCapacity) (hrun : w.reader.isStopped = false)
      (hs : indexStep c w.index .rewindSent = some s) :
      Move c w .sendRewind { w with index := s, rewindChannel := w.rewindChannel ++ [height] }
  | rewindUnheard {s : IndexState} (hstop : w.reader.isStopped = true)
      (hs : indexStep c w.index .rewindSent = some s) :
      Move c w .rewindUnheard { w with index := s }
  | endChunk {commits readable : Bool} {s : IndexState}
      (hs : indexStep c w.index (.endChunk commits readable) = some s) :
      Move c w (.endChunk commits readable) { w with index := s }

variable {c : ChainConfig} {w w' : System} {a : SystemAction}

theorem move_of_readerStep (h : readerStep w a = some w') : Move c w a w' := by
  unfold readerStep at h
  split at h
  · split at h
    · obtain ⟨r, hr, rfl⟩ := Option.map_eq_some_iff.mp h
      exact .answer (by assumption) hr
    · cases h
  · split at h
    · obtain ⟨r, hr, rfl⟩ := Option.map_eq_some_iff.mp h
      exact .noRewind (List.isEmpty_iff.mp (by assumption)) hr
    · cases h
  · split at h
    · obtain ⟨r, hr, rfl⟩ := Option.map_eq_some_iff.mp h
      exact .takeRewind (by assumption) hr
    · cases h
  · split at h
    · next hcond =>
        simp only [Bool.and_eq_true, List.isEmpty_iff, beq_iff_eq] at hcond
        obtain ⟨r, hr, rfl⟩ := Option.map_eq_some_iff.mp h
        exact .rewindsClosed hcond.1 hcond.2 hr
    · cases h
  · split at h
    · split at h
      · next hcond =>
          simp only [Bool.and_eq_true, decide_eq_true_eq, bne_iff_ne, ne_eq] at hcond
          obtain ⟨r, hr, rfl⟩ := Option.map_eq_some_iff.mp h
          exact .send (by assumption) hcond.1 hcond.2 hr
      · cases h
    · cases h
  · split at h
    · next hcond =>
        obtain ⟨r, hr, rfl⟩ := Option.map_eq_some_iff.mp h
        exact .sendFailed (by simpa using hcond) hr
    · cases h
  · cases h

theorem move_of_loopStep (h : loopStep c w a = some w') : Move c w a w' := by
  unfold loopStep at h
  split at h
  · split at h
    · obtain ⟨s, hs, rfl⟩ := Option.map_eq_some_iff.mp h
      exact .recvMany (by assumption) hs
    · cases h
  · split at h
    · next hcond =>
        simp only [Bool.and_eq_true, List.isEmpty_iff] at hcond
        obtain ⟨s, hs, rfl⟩ := Option.map_eq_some_iff.mp h
        exact .channelClosed hcond.1 hcond.2 hs
    · cases h
  · obtain ⟨s, hs, rfl⟩ := Option.map_eq_some_iff.mp h
    exact .handle hs
  · obtain ⟨s, hs, rfl⟩ := Option.map_eq_some_iff.mp h
    exact .rollback hs
  · split at h
    · split at h
      · next hcond =>
          simp only [Bool.and_eq_true, decide_eq_true_eq, Bool.not_eq_true'] at hcond
          obtain ⟨s, hs, rfl⟩ := Option.map_eq_some_iff.mp h
          exact .sendRewind (by assumption) hcond.1 hcond.2 hs
      · cases h
    · cases h
  · split at h
    · obtain ⟨s, hs, rfl⟩ := Option.map_eq_some_iff.mp h
      exact .rewindUnheard (by assumption) hs
    · cases h
  · obtain ⟨s, hs, rfl⟩ := Option.map_eq_some_iff.mp h
    exact .endChunk hs
  · cases h

theorem move_of_step (h : systemStep c w a = some w') : Move c w a w' := by
  unfold systemStep at h
  rcases Option.or_eq_some_iff.mp h with hread | ⟨_, hloop⟩
  · exact move_of_readerStep hread
  · exact move_of_loopStep hloop

/-! ## The loop inside the system -/

/-- What the loop does in a step of the system; a step of the reader is a `publish`. -/
def indexAction (w : System) (a : SystemAction) (w' : System) : IndexAction :=
  match a with
  | .recvMany count => .recvMany ((w.blockChannel.take count).map RpcBlock.indexable)
  | .channelClosed commits => .channelClosed commits
  | .handle commits => .handle commits
  | .rollback reply => .rollback reply
  | .sendRewind | .rewindUnheard => .rewindSent
  | .endChunk commits readable => .endChunk commits readable
  | _ => .publish w'.index.networkView

/-- A condition on the loop's steps, read in the system. -/
def OnIndex (C : IndexState → IndexAction → IndexState → Prop) (w : System) (a : SystemAction)
    (w' : System) : Prop :=
  C w.index (indexAction w a w') w'.index

instance (C : IndexState → IndexAction → IndexState → Prop) [∀ s a s', Decidable (C s a s')]
    (w : System) (a : SystemAction) (w' : System) : Decidable (OnIndex C w a w') := by
  unfold OnIndex
  infer_instance

theorem indexStep_of_systemStep (h : systemStep c w a = some w') :
    indexStep c w.index (indexAction w a w') = some w'.index := by
  cases move_of_step h with
  | answer _ _ => rfl
  | noRewind _ _ => rfl
  | takeRewind _ _ => rfl
  | rewindsClosed _ _ _ => rfl
  | send _ _ _ _ => rfl
  | sendFailed _ _ => rfl
  | recvMany _ hs => exact hs
  | channelClosed _ _ hs => exact hs
  | handle hs => exact hs
  | rollback hs => exact hs
  | sendRewind _ _ _ hs => exact hs
  | rewindUnheard _ hs => exact hs
  | endChunk hs => exact hs

/-- An invariant that the loop keeps under any input holds with the reader in front. -/
theorem index_invariant {I : IndexState → Prop}
    {C : IndexState → IndexAction → IndexState → Prop}
    (hstep : ∀ s a s', I s → indexStep c s a = some s' → C s a s' → I s')
    {as : List SystemAction} {t : System} (h0 : I w.index)
    (hC : Always (systemStep c) (OnIndex C) w as)
    (hrun : exec (systemStep c) w as = some t) : I t.index :=
  always_invariant (I := fun w => I w.index)
    (fun _ _ _ h hs hc => hstep _ _ _ h (indexStep_of_systemStep hs) hc) h0 hC hrun

/-! ## Concrete runs -/

abbrev plainSystemStep (finalityDepth : Nat) : System → SystemAction → Option System :=
  @systemStep .plain .plain (.bare finalityDepth)

/-- A run of both tasks from the empty store. -/
def systemRun (finalityDepth : Nat) (as : List SystemAction) : Option System :=
  exec (plainSystemStep finalityDepth) (.start (.bare finalityDepth) .empty) as

/-- The reader from the top of its loop to the end of a page without effects: the tip it
is told, the blocks it is given, and all of them sent. -/
def servePage (tipHeight : Nat) (finalized : Option Nat) (blocks : List RpcBlock) :
    List SystemAction :=
  [.noRewind,
    .answer (.status { version := some "0.3.0", tipHeight, finalizedHeight := finalized }),
    .answer (.page blocks), .answer (.effects [])] ++ blocks.map fun _ => .send

/-- The loop takes everything that waits and handles it, all commits succeeding. -/
def handleAll (count : Nat) : List SystemAction :=
  .recvMany count :: List.replicate count (.handle true)

end Retracer
