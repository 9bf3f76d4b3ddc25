import Retracer.Ingestion.RpcBlock
import Retracer.Library.Execution

/-! # The sequence of blocks

The reader asks for pages from the height due and sends the blocks one by one, each with the
effects that the node has for its height. Its two sums are sums of `u64`, which wrap around in
a release build.
-/

namespace Retracer

open Execution

/-! ## The sums of the reader -/

section

variable {B : Type} [HasHeight B]

/-- `next + PAGE_SIZE - 1`. -/
def Reader.afterStatusU64 (r : Reader B) (status : Status) : Reader B :=
  { r with
    versionChecked := true
    networkTx := status.view
    pc := if r.next > status.tipHeight then .idle
      else .askingPage (min status.tipHeight ((r.next + pageSize - 1) % 2 ^ 64)) }

/-- The task with `u64` heights. -/
def Reader.stepU64 (r : Reader B) (input : ReaderInput B) : Option (Reader B) :=
  match r.pc, input with
  | .askingStatus, .status status =>
      match if r.versionChecked then .ok () else checkVersion status with
      | .error e => some { r with pc := .stopped (.error e) }
      | .ok () => some (r.afterStatusU64 status)
  | .offering height _ effects rest, .sent =>
      some ({ r with next := (height + 1) % 2 ^ 64 }.forBlocks effects rest)
  | _, _ => r.step input

/-- The sum of the step, if it has one, stays a `u64`. -/
def Reader.sumFits (r : Reader B) (input : ReaderInput B) : Bool :=
  match r.pc, input with
  | .askingStatus, .status status => status.tipHeight < r.next || r.next + pageSize ≤ 2 ^ 64
  | .offering height _ _ _, .sent => height + 1 < 2 ^ 64
  | _, _ => true

theorem Reader.stepU64_eq {r : Reader B} {input : ReaderInput B}
    (h : r.sumFits input = true) : r.stepU64 input = r.step input := by
  unfold Reader.sumFits at h
  unfold Reader.stepU64
  split
  · next status hpc =>
      rw [hpc] at h
      dsimp only at h
      unfold Reader.step
      rw [hpc]
      have hsame : r.afterStatusU64 status = r.afterStatus status := by
        unfold Reader.afterStatusU64 Reader.afterStatus
        by_cases hidle : r.next > status.tipHeight
        · rw [if_pos hidle, if_pos hidle]
        · rw [Bool.or_eq_true, decide_eq_true_eq, decide_eq_true_eq] at h
          have hpage := h.resolve_left hidle
          unfold pageSize at hpage ⊢
          rw [Nat.mod_eq_of_lt (by omega)]
      rewrite [hsame]
      rfl
  · next height block effects rest hpc =>
      rw [hpc] at h
      dsimp only at h
      unfold Reader.step
      rw [hpc, Nat.mod_eq_of_lt (of_decide_eq_true h)]
  · rfl

end

/-! ## What the reader does -/

inductive ReaderEvent where
  | rewound (height : Nat)
  | sent (height : Nat)
deriving DecidableEq

/-- What a run has done so far, and the pages it got last. -/
structure ReaderLog (B : Type) where
  events : List ReaderEvent := []
  page : List B := []
  effects : List Json := []

section

variable {B : Type}

def ReaderLog.push (log : ReaderLog B) (event : ReaderEvent) : ReaderLog B :=
  { log with events := log.events ++ [event] }

def ReaderLog.note (log : ReaderLog B) (r : Reader B) (input : ReaderInput B) (_ : Reader B) :
    ReaderLog B :=
  match r.pc, input with
  | .top, .rewind height => log.push (.rewound height)
  | .idle, .rewind height => log.push (.rewound height)
  | .askingPage _, .page blocks => { log with page := blocks }
  | .askingEffects _ _, .effects page => { log with effects := page }
  | .offering height _ _ _, .sent => log.push (.sent height)
  | _, _ => log

/-- The height that comes next: the first of all, the one after the block sent last, or that
of a rewind since. -/
def ReaderLog.due (log : ReaderLog B) (resumeFrom : Option Nat) : Nat :=
  match log.events.getLast? with
  | none => resumeFrom.getD 0
  | some (.rewound height) => height
  | some (.sent height) => height + 1

@[simp] theorem ReaderLog.due_push (log : ReaderLog B) (event : ReaderEvent)
    (resumeFrom : Option Nat) :
    (log.push event).due resumeFrom =
      match event with
      | .rewound height => height
      | .sent height => height + 1 := by
  unfold ReaderLog.due ReaderLog.push
  rw [List.getLast?_concat]
  cases event with
  | rewound height => rfl
  | sent height => rfl

/-- The last height of the window the reader is asking for. -/
def ReaderPc.asks : ReaderPc B → Option Nat
  | .askingPage upTo => some upTo
  | .askingEffects upTo _ => some upTo
  | _ => none

variable [HasHeight B]

/-- The block carries an entry of its own height, if there is one, and else nothing. -/
def Attached (effects : List Json) (original block : B) : Prop :=
  (∃ entry ∈ effects, (entry.index "height").asU64 = some (HasHeight.height original) ∧
      ∃ disputed, HasHeight.setEffects original (withDisputes entry disputed) = .ok block) ∨
    (∀ entry ∈ effects, (entry.index "height").asU64 ≠ some (HasHeight.height original)) ∧
      block = original

/-- The window starts at the height due, has at least one height and at most a page of them,
and ends within the tip of the last status. -/
structure Window (r : Reader B) (upTo : Nat) : Prop where
  nonempty : r.next ≤ upTo
  size : upTo < r.next + pageSize
  tip : ∃ tip, r.networkTx.tipHeight = some tip ∧ upTo ≤ tip

/-- What a step sends and what it asks for are due. -/
structure InSequence (resumeFrom : Option Nat) (log : ReaderLog B) (r : Reader B)
    (input : ReaderInput B) (r' : Reader B) : Prop where
  sent : ∀ height block effects rest, r.pc = .offering height block effects rest →
    input = .sent → height = log.due resumeFrom ∧ ∃ original ∈ log.page,
      HasHeight.height original = height ∧ Attached log.effects original block
  asked : ∀ upTo, r'.pc.asks = some upTo →
    r'.next = (log.note r input r').due resumeFrom ∧ Window r' upTo

/-! ## The invariant -/

/-- Of the heights from `low` on, the map has what the page of effects has. -/
def Remaining (page : List Json) (low : Nat) (effects : List (Nat × Json)) : Prop :=
  ∀ height, low ≤ height →
    effects.filter (·.1 == height) = (effectsByHeight page).filter (·.1 == height)

/-- What the task has in hand belongs to the pages of the log. -/
def HoldsPages (log : ReaderLog B) (r : Reader B) : Prop :=
  match r.pc with
  | .askingPage upTo => Window r upTo
  | .askingEffects upTo page => Window r upTo ∧ page = log.page
  | .confirming block entry effects rest =>
      HasHeight.height block = r.next ∧ block ∈ log.page ∧ entry ∈ log.effects ∧
        (entry.index "height").asU64 = some r.next ∧ rest ⊆ log.page ∧
          Remaining log.effects (r.next + 1) effects
  | .offering height block effects rest =>
      height = r.next ∧ (∃ original ∈ log.page, HasHeight.height original = height ∧
        Attached log.effects original block) ∧ rest ⊆ log.page ∧
          Remaining log.effects (r.next + 1) effects
  | _ => True

theorem mem_effectsByHeight {page : List Json} {height : Nat} {entry : Json} :
    (height, entry) ∈ effectsByHeight page ↔
      entry ∈ page ∧ (entry.index "height").asU64 = some height := by
  simp only [effectsByHeight, List.mem_filterMap, Option.map_eq_some_iff, Prod.mk.injEq]
  constructor
  · rintro ⟨e, he, _, hheight, rfl, rfl⟩
    exact ⟨he, hheight⟩
  · rintro ⟨he, hheight⟩
    exact ⟨entry, he, height, hheight, rfl, rfl⟩

/-- The loop takes the next block with the entry of its height, and leaves the entries of the
heights after it. -/
theorem holdsPages_forBlocks {log : ReaderLog B} {r : Reader B} {effects : List (Nat × Json)}
    {blocks : List B} (hblocks : blocks ⊆ log.page)
    (hremaining : Remaining log.effects r.next effects) :
    HoldsPages log (r.forBlocks effects blocks) := by
  cases blocks with
  | nil => trivial
  | cons block rest =>
      unfold Reader.forBlocks
      dsimp only
      by_cases hheight : HasHeight.height block = r.next
      · rw [if_neg (not_not_intro hheight), hheight]
        have hblock : block ∈ log.page := hblocks List.mem_cons_self
        have hrest : rest ⊆ log.page := fun b hb => hblocks (List.mem_cons_of_mem _ hb)
        have hlater : Remaining log.effects (r.next + 1)
            (effects.filter (·.1 != r.next)) := by
          intro height hle
          rw [← hremaining height (by omega), List.filter_filter]
          apply List.filter_congr
          intro e _
          by_cases he : e.1 = height
          · have hne : height ≠ r.next := by omega
            simp [he, hne]
          · simp [he]
        have hown := hremaining r.next (Nat.le_refl _)
        unfold removeEffects
        rw [hown]
        cases hlast : ((effectsByHeight log.effects).filter (·.1 == r.next)).getLast? with
        | none =>
            rw [List.getLast?_eq_none_iff, List.filter_eq_nil_iff] at hlast
            refine ⟨rfl, ⟨block, hblock, hheight, .inr ⟨?_, rfl⟩⟩, hrest, hlater⟩
            intro entry hentry hown
            rw [hheight] at hown
            exact hlast _ (mem_effectsByHeight.mpr ⟨hentry, hown⟩) (by simp)
        | some found =>
            obtain ⟨hfound, hsame⟩ := List.mem_filter.mp (List.mem_of_getLast? hlast)
            obtain ⟨height, entry⟩ := found
            obtain rfl : height = r.next := by simpa using hsame
            obtain ⟨hentry, hown⟩ := mem_effectsByHeight.mp hfound
            exact ⟨hheight, hblock, hentry, hown, hrest, hlater⟩
      · rw [if_pos hheight]
        trivial

theorem holdsPages_afterStatus (log : ReaderLog B) (r : Reader B) (status : Status) :
    HoldsPages log (r.afterStatus status) := by
  unfold HoldsPages
  by_cases hidle : r.next > status.tipHeight
  · have hpc : (r.afterStatus status).pc = .idle := if_pos hidle
    rw [hpc]
    trivial
  · have hpc : (r.afterStatus status).pc =
        .askingPage (min status.tipHeight (r.next + pageSize - 1)) := if_neg hidle
    rw [hpc]
    refine ⟨?_, ?_, status.tipHeight, rfl, Nat.min_le_left _ _⟩
    · show r.next ≤ min status.tipHeight (r.next + pageSize - 1)
      unfold pageSize
      omega
    · show min status.tipHeight (r.next + pageSize - 1) < r.next + pageSize
      unfold pageSize
      omega

theorem next_forBlocks (r : Reader B) (effects : List (Nat × Json)) (blocks : List B) :
    (r.forBlocks effects blocks).next = r.next := by
  unfold Reader.forBlocks
  cases blocks with
  | nil => rfl
  | cons block rest =>
      dsimp only
      split
      · rfl
      · split
        · rfl
        · rfl

/-- The invariant of the task. -/
structure Tracked (resumeFrom : Option Nat) (log : ReaderLog B) (r : Reader B) : Prop where
  due : r.next = log.due resumeFrom
  pages : HoldsPages log r

variable {resumeFrom : Option Nat} {log : ReaderLog B} {r r' : Reader B} {input : ReaderInput B}

theorem Tracked.step (h : Tracked resumeFrom log r) (hs : r.step input = some r') :
    Tracked resumeFrom (log.note r input r') r' := by
  obtain ⟨hdue, hpages⟩ := h
  unfold Reader.step at hs
  split at hs
  · next hpc =>
      cases hs
      simp only [ReaderLog.note, hpc]
      exact ⟨hdue, trivial⟩
  · next height hpc =>
      cases hs
      simp only [ReaderLog.note, hpc]
      refine ⟨by simp, ?_⟩
      simp [HoldsPages]
  · next hpc =>
      cases hs
      simp only [ReaderLog.note, hpc]
      exact ⟨hdue, trivial⟩
  · next status hpc =>
      split at hs
      · cases hs
        simp only [ReaderLog.note, hpc]
        exact ⟨hdue, trivial⟩
      · cases hs
        simp only [ReaderLog.note, hpc]
        exact ⟨hdue, holdsPages_afterStatus _ _ _⟩
  · next hpc =>
      cases hs
      simp only [ReaderLog.note, hpc]
      exact ⟨hdue, trivial⟩
  · next height hpc =>
      cases hs
      simp only [ReaderLog.note, hpc]
      exact ⟨by simp, trivial⟩
  · next hpc =>
      cases hs
      simp only [ReaderLog.note, hpc]
      exact ⟨hdue, trivial⟩
  · next hpc =>
      cases hs
      simp only [ReaderLog.note, hpc]
      exact ⟨hdue, trivial⟩
  · next upTo blocks hpc =>
      simp only [HoldsPages, hpc] at hpages
      split at hs
      · cases hs
        simp only [ReaderLog.note, hpc]
        exact ⟨hdue, trivial⟩
      · cases hs
        simp only [ReaderLog.note, hpc]
        exact ⟨hdue, ⟨hpages.nonempty, hpages.size, hpages.tip⟩, rfl⟩
  · next hpc =>
      cases hs
      simp only [ReaderLog.note, hpc]
      exact ⟨hdue, hpages⟩
  · next upTo blocks page hpc =>
      cases hs
      simp only [HoldsPages, hpc] at hpages
      simp only [ReaderLog.note, hpc]
      refine ⟨(next_forBlocks _ _ _).trans hdue, holdsPages_forBlocks ?_ ?_⟩
      · rw [hpages.2]
        exact List.Subset.refl _
      · intro height _
        rfl
  · next block entry effects rest answers hpc =>
      simp only [HoldsPages, hpc] at hpages
      obtain ⟨hheight, hblock, hentry, hown, hrest, hremaining⟩ := hpages
      split at hs
      · cases hs
        simp only [ReaderLog.note, hpc]
        exact ⟨hdue, trivial⟩
      · next filled hfilled =>
          cases hs
          simp only [ReaderLog.note, hpc]
          refine ⟨hdue, hheight, ⟨block, hblock, rfl, .inl ⟨entry, hentry, ?_, _, hfilled⟩⟩, hrest,
            hremaining⟩
          rw [hheight]
          exact hown
  · next height block effects rest hpc =>
      cases hs
      simp only [HoldsPages, hpc] at hpages
      simp only [ReaderLog.note, hpc]
      obtain ⟨hheight, _, hrest, hremaining⟩ := hpages
      refine ⟨?_, holdsPages_forBlocks hrest ?_⟩
      · rw [next_forBlocks, ReaderLog.due_push]
      · rw [hheight]
        exact hremaining
  · next hpc =>
      cases hs
      simp only [ReaderLog.note, hpc]
      exact ⟨hdue, trivial⟩
  · cases hs

theorem Tracked.inSequence (h : Tracked resumeFrom log r) (hs : r.step input = some r') :
    InSequence resumeFrom log r input r' := by
  have h' := h.step hs
  constructor
  · rintro height block effects rest hpc _
    have hpages := h.pages
    simp only [HoldsPages, hpc] at hpages
    exact ⟨hpages.1.trans h.due, hpages.2.1⟩
  · intro upTo hasks
    refine ⟨h'.due, ?_⟩
    have hpages := h'.pages
    unfold HoldsPages at hpages
    cases hpc : r'.pc with
    | askingPage last =>
        rw [hpc] at hasks hpages
        cases hasks
        exact hpages
    | askingEffects last page =>
        rw [hpc] at hasks hpages
        cases hasks
        exact hpages.1
    | _ =>
        rw [hpc] at hasks
        cases hasks

/-- As long as no sum overflows, the blocks are sent one height after the other, from where the
reader was told to start or to go back to, each with the effects of its own height, and a page
is asked for from the next height due. -/
theorem reader_in_sequence (resumeFrom : Option Nat) (inputs : List (ReaderInput B))
    (hsums : Always Reader.stepU64 (fun r input _ => r.sumFits input = true)
      (Reader.start resumeFrom) inputs) :
    EveryStep Reader.stepU64 ReaderLog.note (InSequence resumeFrom) {} (Reader.start resumeFrom)
      inputs := by
  apply everyStep_imp (I := Tracked resumeFrom) ?_ ?_ ?_ (everyStep_of_always hsums)
  · intro log r input r' h hs hsum
    rw [Reader.stepU64_eq hsum] at hs
    exact h.step hs
  · intro log r input r' h hs hsum
    rw [Reader.stepU64_eq hsum] at hs
    exact h.inSequence hs
  · exact ⟨rfl, trivial⟩

end

/-- Two blocks, of which the node has effects for the second. -/
def twoBlocks : List (ReaderInput RpcBlock) :=
  [.noRewind, .status { version := some "0.3.0", tipHeight := 1, finalizedHeight := none },
    .page [.bare 0 "g" "", .bare 1 "a1" "g"], .effects [.obj [("height", .num "1")]],
    .sent, .disputes fun _ => none, .sent]

theorem reader_in_sequence_two :
    EveryStep (@Reader.stepU64 RpcBlock (@instHasHeightRpcBlockOfSerdeJson .plain)) ReaderLog.note
      (@InSequence RpcBlock (@instHasHeightRpcBlockOfSerdeJson .plain) none) {} (Reader.start none)
      twoBlocks :=
  @reader_in_sequence RpcBlock (@instHasHeightRpcBlockOfSerdeJson .plain) none twoBlocks (by decide)

/-- At the end of `u64` the page is asked for backwards. -/
theorem page_beyond_u64 :
    ¬ ∀ (resumeFrom : Option Nat) (inputs : List (ReaderInput RpcBlock)),
      EveryStep (@Reader.stepU64 RpcBlock (@instHasHeightRpcBlockOfSerdeJson .plain)) ReaderLog.note
        (@InSequence RpcBlock (@instHasHeightRpcBlockOfSerdeJson .plain) resumeFrom) {}
        (Reader.start resumeFrom) inputs := by
  intro h
  have hrun := h (some (2 ^ 64 - 1))
    [.noRewind, .status
      { version := some "0.3.0", tipHeight := 2 ^ 64 - 1, finalizedHeight := none }]
  obtain ⟨_, ⟨_, hasked⟩, _⟩ := hrun
  have hwindow := (hasked 98 (by decide)).2.nonempty
  revert hwindow
  decide

end Retracer
