import Retracer.Ingestion.Rpc
import Retracer.Sse.FromHeight
import Retracer.Storage.Proposers

/-! # Status and readiness

The status joins the cursor with the block at it in one statement, and the lag is counted from
the tip of the node. A chain is caught up when the two heights are equal, which is more than not
being behind. The service is ready when Postgres answers, however far behind a chain is.
-/

namespace Retracer

open KeyedTable Execution

/-! ## The status of a chain -/

structure IndexStatus where
  indexedHeight : Option Int
  tipTimestamp : Option Int
  nodeTipHeight : Option Int := none
  blocksBehind : Option Int := none
deriving DecidableEq

def getStatus (db : Database) (chainId : String) : IndexStatus :=
  match db.ingestionCursor.find? chainId with
  | some cursor =>
      { indexedHeight := some cursor.lastHeight
        tipTimestamp := (db.blocks.find? (chainId, cursor.lastHeight)).map (·.timestamp) }
  | none => { indexedHeight := none, tipTimestamp := none }

/-- `tip as i64` and two sums of `i64`s. -/
def IndexStatus.withNetworkTip (status : IndexStatus) (nodeTip : Option Nat) : IndexStatus :=
  { status with
    nodeTipHeight := nodeTip.map asI64
    blocksBehind :=
      match nodeTip, status.indexedHeight with
      | some tip, some indexed => some (max (wrapI64 (asI64 tip - indexed)) 0)
      | some tip, none => some (wrapI64 (asI64 tip + 1))
      | none, _ => none }

/-! ## The report -/

/-- `STATUS_FRESHNESS_TIMEOUT`, in nanoseconds. -/
def statusFreshnessTimeout : Nat := 15 * 1000000000

/-- The network view and the instant of the answer it is from. -/
structure DatedView where
  view : NetworkView
  lastStatusAt : Option Nat

def DatedView.hasFreshStatus (network : DatedView) (now : Nat) : Bool :=
  0 < network.view.activePeerCount && 0 < network.view.statusPeerCount &&
    network.view.tipHeight.isSome &&
      network.lastStatusAt.any fun seen => now - seen ≤ statusFreshnessTimeout

/-- What the report looks at of a `RestChain`. -/
structure ReadyChain where
  chainId : String
  networkView : DatedView

structure ChainReadiness where
  chainId : String
  networkVisible : Bool
  networkFresh : Bool
  nodeTipHeight : Option Nat
  indexedHeight : Option Int
  caughtUp : Bool
deriving DecidableEq

structure Readiness where
  ready : Bool
  postgres : Bool
  chains : List ChainReadiness

def ReadyChain.readiness (chain : ReadyChain) (statuses : String → Option IndexStatus)
    (now : Nat) : ChainReadiness :=
  let network := chain.networkView
  let networkFresh := network.hasFreshStatus now
  let freshTip := if networkFresh then network.view.tipHeight else none
  let status := (statuses chain.chainId).map (·.withNetworkTip freshTip)
  { chainId := chain.chainId
    networkVisible := network.view.tipHeight.isSome
    networkFresh
    nodeTipHeight := network.view.tipHeight
    indexedHeight := status.bind (·.indexedHeight)
    caughtUp := networkFresh && status.any fun status =>
      status.indexedHeight.isSome && status.indexedHeight == status.nodeTipHeight }

def readinessReport (postgres : Bool) (chains : List ReadyChain)
    (statuses : String → Option IndexStatus) (now : Nat) : Readiness :=
  { ready := postgres, postgres, chains := chains.map (·.readiness statuses now) }

inductive DbCheck (α : Type) where
  | ready (value : α)
  | failed (error : String)
  | timedOut

/-- One statement for each chain, each on the database as it is by then. -/
def loadIndexStatuses (dbOf : String → Database) (chains : List ReadyChain) :
    String → Option IndexStatus := fun chainId =>
  if chainId ∈ chains.map (·.chainId) then some (getStatus (dbOf chainId) chainId) else none

def readiness (chains : List ReadyChain) (check : DbCheck (String → Option IndexStatus))
    (now : Nat) : Readiness :=
  match check with
  | .ready statuses => readinessReport true chains statuses now
  | .failed _ => readinessReport false chains (fun _ => none) now
  | .timedOut => readinessReport false chains (fun _ => none) now

def readinessStatus (report : Readiness) : Nat := if report.ready then 200 else 503

/-! ## The lag -/

/-- A tip that does not fit turns negative and is nobody's height. -/
theorem asI64_eq_iff {tip n : Nat} (htip : tip < 2 ^ 64) (hn : n < 2 ^ 63) :
    asI64 tip = n ↔ tip = n := by
  constructor
  · intro h
    unfold asI64 at h
    have hmod : (tip : Int) % (2 ^ 64 : Nat) = tip := Int.emod_eq_of_lt (by omega) (by omega)
    rw [Int.bmod_def, hmod] at h
    split at h <;> omega
  · rintro rfl
    exact asI64_of_lt hn

section

variable [Postgres] {chainId : String} {extractor : AddressExtractor} {s : StoreState}

/-- The height and the time are those of the last block. -/
theorem Surviving.getStatus (h : Surviving chainId extractor s) :
    getStatus s.db chainId =
      { indexedHeight := s.kept.getLast?.map fun b => (b.height : Int)
        tipTimestamp := s.kept.getLast?.map fun b => asI64 b.timestamp } := by
  have hcursor := h.cursor
  unfold getCursor at hcursor
  unfold Retracer.getStatus
  by_cases hempty : s.kept = []
  · rw [if_pos hempty, Option.map_eq_none_iff] at hcursor
    rw [hcursor, hempty]
    rfl
  · rw [if_neg hempty, Option.map_eq_some_iff] at hcursor
    obtain ⟨cursor, hfind, hheight⟩ := hcursor
    have hpos : 0 < s.kept.length := List.length_pos_iff.mpr hempty
    have hlast : s.kept[s.kept.length - 1]? = some (s.kept.getLast hempty) := by
      rw [← List.getLast?_eq_getElem?, List.getLast?_eq_some_getLast hempty]
    obtain ⟨b, hb, _, _, htime⟩ := h.kept.find_block hlast
    have hcast : ((s.kept.length - 1 : Nat) : Int) = (s.kept.length : Int) - 1 := by omega
    have htip : ((s.kept.getLast hempty).height : Int) = (s.kept.length : Int) - 1 := by
      rw [h.heights.getElem_height hlast, hcast]
    rw [hcast] at hb
    simp only [hfind, hheight, hb, Option.map_some, htime,
      List.getLast?_eq_some_getLast hempty, htip]

theorem Surviving.last_height (h : Surviving chainId extractor s) {last : IndexableBlock}
    (hlast : last ∈ s.kept.getLast?) : last.height + 1 = s.kept.length := by
  obtain ⟨initial, hkept⟩ := List.getLast?_eq_some_iff.mp hlast
  have hin := h.heights
  rw [hkept] at hin
  rw [hkept, hin.height_last, List.length_append, List.length_singleton]

omit [Postgres] in
/-- A cast and then a sum wrap around as the sum alone does. -/
theorem wrapI64_asI64_add (n : Nat) (k : Int) : wrapI64 (asI64 n + k) = wrapI64 (n + k) :=
  Int.bmod_add_bmod

omit [Postgres] in
/-- Between 2^63 and 2^64 a sum wraps around once. -/
theorem wrapI64_of_overflow {n : Int} (hlow : 2 ^ 63 ≤ n) (hhigh : n ≤ 2 ^ 64) :
    wrapI64 n = n - 2 ^ 64 := by
  unfold wrapI64
  rw [← Int.sub_bmod_right, Int.bmod_eq_of_le] <;> omega

/-- What the lag is if so many heights up to the tip are not stored. -/
def lagOf (stored missing : Nat) : Int :=
  if missing < 2 ^ 63 then missing else if stored = 0 then (missing : Int) - 2 ^ 64 else 0

/-- The lag is the number of heights up to the tip that are not stored, if that fits. -/
theorem Surviving.blocksBehind (h : Surviving chainId extractor s)
    (hfits : s.kept.length ≤ 2 ^ 63) {tip : Nat} (htip : tip < 2 ^ 64) :
    ((Retracer.getStatus s.db chainId).withNetworkTip (some tip)).blocksBehind =
      some (lagOf s.kept.length (tip + 1 - s.kept.length)) := by
  rw [h.getStatus]
  cases hlast : s.kept.getLast? with
  | none =>
      have hnil : s.kept.length = 0 := by rw [List.getLast?_eq_none_iff.mp hlast]; rfl
      simp only [IndexStatus.withNetworkTip, Option.map_none, wrapI64_asI64_add, hnil,
        Nat.sub_zero, lagOf, if_pos, Option.some.injEq]
      by_cases hsmall : tip + 1 < 2 ^ 63
      · rw [if_pos hsmall, wrapI64_of_fits (by omega) (by omega)]
        rfl
      · rw [if_neg hsmall, wrapI64_of_overflow (by omega) (by omega)]
        omega
  | some last =>
      have hheight := h.last_height hlast
      have hstored : s.kept.length ≠ 0 := by omega
      have hsum : asI64 tip - last.height = asI64 tip + -(last.height : Int) := by omega
      simp only [IndexStatus.withNetworkTip, Option.map_some, hsum, wrapI64_asI64_add, lagOf,
        if_neg hstored, Option.some.injEq]
      by_cases hsmall : tip + 1 - s.kept.length < 2 ^ 63
      · rw [if_pos hsmall, wrapI64_of_fits (by omega) (by omega)]
        omega
      · rw [if_neg hsmall, wrapI64_of_overflow (by omega) (by omega)]
        omega

theorem Surviving.caughtUp_iff (h : Surviving chainId extractor s)
    (hfits : s.kept.length ≤ 2 ^ 63) {chain : ReadyChain}
    (htip : ∀ tip ∈ chain.networkView.view.tipHeight, tip < 2 ^ 64)
    {statuses : String → Option IndexStatus}
    (hstatus : statuses chain.chainId = some (Retracer.getStatus s.db chainId)) (now : Nat) :
    (chain.readiness statuses now).caughtUp = true ↔
      chain.networkView.hasFreshStatus now = true ∧ s.kept ≠ [] ∧
        chain.networkView.view.tipHeight = s.kept.getLast?.map (·.height) := by
  have hfreshTip : chain.networkView.hasFreshStatus now = true →
      ∃ tip, chain.networkView.view.tipHeight = some tip := by
    intro hfresh
    simp only [DatedView.hasFreshStatus, Bool.and_eq_true, Option.isSome_iff_exists] at hfresh
    exact hfresh.1.2
  simp only [ReadyChain.readiness, hstatus, h.getStatus, Option.map_some, Option.any_some,
    IndexStatus.withNetworkTip, Bool.and_eq_true, beq_iff_eq]
  refine and_congr_right fun hfresh => ?_
  obtain ⟨tip, hview⟩ := hfreshTip hfresh
  rw [if_pos hfresh, hview]
  cases hlast : s.kept.getLast? with
  | none => simp
  | some last =>
      have hheight := h.last_height hlast
      have hkept : s.kept ≠ [] := fun hnil => by simp [hnil] at hlast
      have heq := asI64_eq_iff (htip tip hview) (n := last.height) (by omega)
      simp [hkept, ← heq, eq_comm]

/-- In every state reached the status has the height and the time of the last kept block, the lag
is the number of heights up to the tip that are not stored where that is an `i64`, and a chain is
caught up exactly if a fresh answer of its node has the last block for its tip. The service is
ready exactly if Postgres answered. -/
theorem readiness_of_kept_blocks {ops : List StoreOp}
    (hrun : exec (storeStep chainId extractor) {} ops = some s)
    (hfits : s.kept.length ≤ 2 ^ 63) :
    Retracer.getStatus s.db chainId =
        { indexedHeight := s.kept.getLast?.map fun b => (b.height : Int)
          tipTimestamp := s.kept.getLast?.map fun b => asI64 b.timestamp } ∧
      (∀ tip : Nat, tip < 2 ^ 64 →
        ((Retracer.getStatus s.db chainId).withNetworkTip (some tip)).blocksBehind =
          some (lagOf s.kept.length (tip + 1 - s.kept.length))) ∧
      (∀ (dbOf : String → Database) (chains : List ReadyChain) (now : Nat), dbOf chainId = s.db →
        ∀ chain ∈ chains, chain.chainId = chainId →
        (∀ tip ∈ chain.networkView.view.tipHeight, tip < 2 ^ 64) →
          ((chain.readiness (loadIndexStatuses dbOf chains) now).caughtUp = true ↔
            chain.networkView.hasFreshStatus now = true ∧ s.kept ≠ [] ∧
              chain.networkView.view.tipHeight = s.kept.getLast?.map (·.height))) ∧
      ∀ chains check now, readinessStatus (readiness chains check now) = 200 ↔
        ∃ statuses, check = .ready statuses := by
  have hempty : Surviving chainId extractor {} := ⟨rfl, blockStore_laws.holds_init⟩
  have hs : Surviving chainId extractor s :=
    exec_preserves (fun _ _ _ => surviving_step) hempty hrun
  refine ⟨hs.getStatus, fun tip htip => hs.blocksBehind hfits htip, ?_, ?_⟩
  · rintro dbOf chains now hdb chain hmem rfl htip
    apply hs.caughtUp_iff hfits htip
    rw [loadIndexStatuses, if_pos (List.mem_map_of_mem hmem), hdb]
  · intro chains check now
    cases check <;> simp [readiness, readinessReport, readinessStatus]

end

/-- A node that has gone back to its first block, and answered just now. -/
def goneBack (now : Nat) : ReadyChain :=
  { chainId := "main"
    networkView :=
      { view := { activePeerCount := 1, statusPeerCount := 1, tipHeight := some 0 }
        lastStatusAt := some now } }

/-- The index is ahead of the node: no block is missing, and the chain is not caught up. -/
theorem readiness_of_kept_blocks_ahead :
    ∃ s, exec (@storeStep .plain "main" (.tierAOnly .empty)) {}
        [.insert [.bare 0 "g" "", .bare 1 "a1" "g"]] = some s ∧
      ((getStatus s.db "main").withNetworkTip (some 0)).blocksBehind = some 0 ∧
      (goneBack 7).networkView.hasFreshStatus 7 = true ∧
      ((goneBack 7).readiness (loadIndexStatuses (fun _ => s.db) [goneBack 7]) 7).caughtUp =
        false := by
  have hsome : ((exec (@storeStep .plain "main" (.tierAOnly .empty)) {}
      [.insert [.bare 0 "g" "", .bare 1 "a1" "g"]]).map fun s =>
        (s.kept.length, s.kept.getLast?.map (·.height))) = some (2, some 1) := by decide
  obtain ⟨s, hs, hboth⟩ := Option.map_eq_some_iff.mp hsome
  obtain ⟨hlength, hlast⟩ := Prod.mk.inj hboth
  obtain ⟨_, hbehind, hcaughtUp, _⟩ :=
    @readiness_of_kept_blocks .plain _ _ _ _ hs (by rw [hlength]; decide)
  have hnone := hbehind 0 (by decide)
  rw [hlength] at hnone
  refine ⟨s, hs, hnone, by decide, ?_⟩
  rw [Bool.eq_false_iff, ne_eq, hcaughtUp (fun _ => s.db) [goneBack 7] 7 rfl (goneBack 7)
    (List.mem_singleton_self _) rfl (by decide), hlast]
  exact fun h => absurd h.2.2 (by decide)

end Retracer
