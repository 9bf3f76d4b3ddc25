import Retracer.Storage.Json

/-! # Block ingestion over the node's HTTP RPC

The reader polls `/status`, asks for a page of blocks from the height due, for the
effects of the same window, and sends the blocks one by one. Every `await` is one
input of `Reader.step`; what the task does between two awaits is done at once.
-/

namespace Retracer

/-- What the reader needs of a block type. `setEffects` fails on a shape mismatch. -/
class HasHeight (B : Type) where
  height : B → Nat
  setEffects : B → Json → Except String B

/-- What the node says about itself. The instant of the answer is left out. -/
structure NetworkView where
  activePeerCount : Nat := 0
  statusPeerCount : Nat := 0
  tipHeight : Option Nat := none
  finalizedHeight : Option Nat := none
  finalWatermark : Option Nat := none
  settledHeight : Option Nat := none
deriving DecidableEq, Repr

structure Status where
  version : Option String
  tipHeight : Nat
  finalizedHeight : Option Nat
  finalWatermark : Option Nat := none
  settledHeight : Option Nat := none

def Status.view (status : Status) : NetworkView :=
  { activePeerCount := 1
    statusPeerCount := 1
    tipHeight := some status.tipHeight
    finalizedHeight := status.finalizedHeight
    finalWatermark := status.finalWatermark
    settledHeight := status.settledHeight }

/-! ## The version gate -/

/-- Major, minor and patch; further parts are not looked at. -/
def parseVersion (v : String) : Option (Nat × Nat × Nat) :=
  match ((v.toList.dropWhile (· == 'v')).splitOn '.').map fun part =>
      parseU64 (String.ofList part) with
  | some major :: some minor :: some patch :: _ => some (major, minor, patch)
  | _ => none

/-- `v >= MIN_NODE_VERSION`, that is, at least 0.3.0. -/
def meetsMinNodeVersion : Nat × Nat × Nat → Bool
  | (0, minor, _) => 3 ≤ minor
  | _ => true

def checkVersion (status : Status) : Except String Unit :=
  let reported := status.version.getD "<none>"
  if (status.version.bind parseVersion).any meetsMinNodeVersion then .ok ()
  else
    .error ("node reports version " ++ reported ++ "; this retracer needs at least 0.3.0 " ++
      "(block JSON with `hash` and `payload_json`)")

/-! ## Effects -/

/-- Keyed by their own height; entries without one are dropped. -/
def effectsByHeight (page : List Json) : List (Nat × Json) :=
  page.filterMap fun e => (e.index "height").asU64.map (·, e)

/-- `HashMap::remove`: of two entries with one height the later one is in the map. -/
def removeEffects (height : Nat) (effects : List (Nat × Json)) :
    Option Json × List (Nat × Json) :=
  (((effects.filter (·.1 == height)).getLast?).map (·.2), effects.filter (·.1 != height))

def disputedHeights (effects : Json) : List Nat :=
  ((effects.index "evidence").items.filter fun e => !(e.index "disputed").isNull).filterMap
    fun e => (e.index "height").asU64

/-- The heights the node confirms, asked one at a time until it answers; `none` is a
pruned block. -/
def confirmedDisputes (answers : Nat → Option Json) (effects : Json) : List Nat :=
  (disputedHeights effects).filter fun height =>
    (answers height).any fun block => (block.index "settlement").asStr == some "disputed"

def withDisputes (effects : Json) (disputed : List Nat) : Json :=
  effects.setMember "disputed_blocks" (.arr (disputed.map fun h => .num (toString h)))

/-! ## The task -/

def pageSize : Nat := 100

/-- Where the task is suspended. -/
inductive ReaderPc (B : Type) where
  | top
  | askingStatus
  | idle
  | askingPage (upTo : Nat)
  | askingEffects (upTo : Nat) (page : List B)
  | confirming (block : B) (entry : Json) (effects : List (Nat × Json)) (rest : List B)
  | offering (height : Nat) (block : B) (effects : List (Nat × Json)) (rest : List B)
  | stopped (result : Except String Unit)

structure Reader (B : Type) where
  next : Nat
  versionChecked : Bool := false
  networkTx : NetworkView := {}
  pc : ReaderPc B := .top

/-- What the await the task is suspended at returns. -/
inductive ReaderInput (B : Type) where
  | noRewind
  | rewind (height : Nat)
  | rewindsClosed
  | wake
  | statusUnavailable
  | status (status : Status)
  | pageUnavailable
  | page (blocks : List B)
  | effectsUnavailable
  | effects (page : List Json)
  | disputes (answers : Nat → Option Json)
  | sent
  | sendFailed

namespace Reader

variable {B : Type} [HasHeight B]

/-- `resume_from`, else genesis. -/
def start (resumeFrom : Option Nat) : Reader B := { next := resumeFrom.getD 0 }

/-- The `for` loop up to its next await. -/
def forBlocks (r : Reader B) (effects : List (Nat × Json)) : List B → Reader B
  | [] => { r with pc := .top }
  | block :: rest =>
      let height := HasHeight.height block
      if height ≠ r.next then
        { r with pc := .stopped (.error ("node returned height " ++ toString height ++
          ", expected " ++ toString r.next)) }
      else
        match removeEffects height effects with
        | (some entry, effects) => { r with pc := .confirming block entry effects rest }
        | (none, effects) => { r with pc := .offering height block effects rest }

/-- After a status that passed the gate. -/
def afterStatus (r : Reader B) (status : Status) : Reader B :=
  { r with
    versionChecked := true
    networkTx := status.view
    pc := if r.next > status.tipHeight then .idle
      else .askingPage (min status.tipHeight (r.next + pageSize - 1)) }

def step (r : Reader B) (input : ReaderInput B) : Option (Reader B) :=
  match r.pc, input with
  | .top, .noRewind => some { r with pc := .askingStatus }
  | .top, .rewind height => some { r with next := height }
  | .askingStatus, .statusUnavailable => some { r with pc := .top }
  | .askingStatus, .status status =>
      match if r.versionChecked then .ok () else checkVersion status with
      | .error e => some { r with pc := .stopped (.error e) }
      | .ok () => some (r.afterStatus status)
  | .idle, .wake => some { r with pc := .top }
  | .idle, .rewind height => some { r with next := height, pc := .top }
  | .idle, .rewindsClosed => some { r with pc := .stopped (.ok ()) }
  | .askingPage _, .pageUnavailable => some { r with pc := .top }
  | .askingPage upTo, .page blocks =>
      if blocks.isEmpty then
        some { r with pc := .stopped (.error ("node returned no blocks for " ++
          toString r.next ++ "..=" ++ toString upTo)) }
      else some { r with pc := .askingEffects upTo blocks }
  | .askingEffects _ _, .effectsUnavailable => some r
  | .askingEffects _ blocks, .effects page =>
      some (r.forBlocks (effectsByHeight page) blocks)
  | .confirming block entry effects rest, .disputes answers =>
      match HasHeight.setEffects block (withDisputes entry (confirmedDisputes answers entry)) with
      | .error e => some { r with pc := .stopped (.error e) }
      | .ok filled => some { r with pc := .offering (HasHeight.height block) filled effects rest }
  | .offering height _ effects rest, .sent =>
      some ({ r with next := height + 1 }.forBlocks effects rest)
  | .offering _ _ _ _, .sendFailed => some { r with pc := .stopped (.ok ()) }
  | _, _ => none

end Reader

end Retracer
