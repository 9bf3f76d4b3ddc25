import Retracer.Pipeline.System

/-! # The two bounded channels

The loop waits when it has a rewind to send and four are unread; the reader waits
when it offers a block and 300 are unread. The reader reads rewinds only between two
pages, so what decides is whether the rest of its page fits into the block channel.
-/

namespace Retracer

open Execution RpcBlock

def IndexPc.isSendingRewind : IndexPc → Bool
  | .sendingRewind _ => true
  | _ => false

def ReaderPc.isOffering {B : Type} : ReaderPc B → Bool
  | .offering _ _ _ _ => true
  | _ => false

def System.LoopWaits (w : System) : Prop :=
  w.index.pc.isSendingRewind = true ∧ w.rewindChannel.length = rewindCapacity

def System.ReaderWaits (w : System) : Prop :=
  w.reader.pc.isOffering = true ∧ w.blockChannel.length = blockCapacity

instance (w : System) : Decidable w.LoopWaits := by
  unfold System.LoopWaits
  infer_instance

instance (w : System) : Decidable w.ReaderWaits := by
  unfold System.ReaderWaits
  infer_instance

/-- When the loop comes to wait, the rest of the reader's page fits into the block
channel; so does a page the reader gets while the loop waits. -/
def PageFits (w : System) (a : SystemAction) (_ : System) : Prop :=
  match a with
  | .rollback .done => w.rewindChannel.length = rewindCapacity →
      w.blockChannel.length + w.reader.pending.length ≤ blockCapacity
  | .answer (.page page) => w.rewindChannel.length = rewindCapacity →
      w.index.pc.isSendingRewind = true → w.blockChannel.length + page.length ≤ blockCapacity
  | _ => True

instance (w : System) (a : SystemAction) (w' : System) : Decidable (PageFits w a w') := by
  unfold PageFits
  split <;> infer_instance

/-- While the loop waits there is room for all that the reader has in hand. -/
structure RoomKept (w : System) : Prop where
  atNext : w.reader.AtNext
  rewinds : w.rewindChannel.length ≤ rewindCapacity
  room : w.LoopWaits → w.blockChannel.length + w.reader.pending.length ≤ blockCapacity

section

variable {c : ChainConfig} [Postgres]

/-- The loop comes to send a rewind only by a rollback. -/
theorem sendingRewind_of_transition {s s' : IndexState} {a : IndexAction}
    (h : Transition c s a s') (hpc : s'.pc.isSendingRewind = true) :
    a = .rollback .done ∨ ∃ view, a = .publish view := by
  have hdraining : ∀ {s₁ : IndexState}, s₁.pc = .draining → ¬ s₁.pc.isSendingRewind = true := by
    intro s₁ hd
    rw [hd]
    exact Bool.false_ne_true
  cases h with
  | publish view => exact Or.inr ⟨view, rfl⟩
  | received _ _ _ => cases hpc
  | closed _ _ => cases hpc
  | stale hd _ _ => exact absurd hpc (hdraining hd)
  | accepted hd _ _ _ => exact absurd hpc (hdraining hd)
  | acceptedFull hd _ _ _ hf => exact absurd hpc (hdraining (hf.frame.2.2.2.1.trans hd))
  | forked _ _ _ _ => cases hpc
  | refused hd _ _ hf => exact absurd hpc (hdraining (hf.frame.2.2.2.1.trans hd))
  | rollbackFailed _ => cases hpc
  | lookupFailed _ _ => cases hpc
  | rolledBack _ => exact Or.inl rfl
  | rewindSent _ => cases hpc
  | chunkDone _ _ _ => cases hpc
  | chunkLost _ _ _ => cases hpc

variable [SerdeJson]

omit [SerdeJson] in
/-- A step of the loop: only a rollback makes it wait, and takes nothing from the reader. -/
theorem roomKept_of_index {w w' : System} {a : IndexAction} (h : RoomKept w)
    (hs : indexStep c w.index a = some w'.index) (hreader : w'.reader = w.reader)
    (hblocks : w'.blockChannel.length ≤ w.blockChannel.length)
    (hrewinds : w'.rewindChannel = w.rewindChannel)
    (hfits : a = .rollback .done → w.rewindChannel.length = rewindCapacity →
      w.blockChannel.length + w.reader.pending.length ≤ blockCapacity)
    (hview : ∀ view, a ≠ .publish view) : RoomKept w' := by
  refine ⟨hreader ▸ h.atNext, hrewinds ▸ h.rewinds, fun hwait => ?_⟩
  obtain ⟨hpc, hfull⟩ := hwait
  rw [hrewinds] at hfull
  rw [hreader]
  rcases sendingRewind_of_transition (transition_of_step hs) hpc with ha | ⟨view, ha⟩
  · have := hfits ha hfull
    omega
  · exact absurd ha (hview view)

omit [Postgres] in
/-- A step of the reader that sends nothing. -/
theorem roomKept_of_reader {w w' : System} {input : ReaderInput RpcBlock} {r : Reader RpcBlock}
    (h : RoomKept w) (hr : w.reader.step input = some r)
    (hw' : w' = w.withReader r) (hsent : input ≠ .sent)
    (hfits : ∀ page, input = .page page → w.LoopWaits →
      w.blockChannel.length + page.length ≤ blockCapacity) : RoomKept w' := by
  subst hw'
  obtain ⟨hmoved, hat⟩ := Reader.moved_of_step hr h.atNext
  refine ⟨hat, h.rewinds, fun hwait => ?_⟩
  have hroom := h.room hwait
  change w.blockChannel.length + r.pending.length ≤ blockCapacity
  cases hmoved with
  | rewound _ hnew _ _ => rw [hnew]; simp only [List.length_nil]; omega
  | paged _ _ hnew => rw [hnew]; exact hfits _ rfl hwait
  | sent _ _ _ => exact absurd rfl hsent
  | kept _ _ hnew =>
      rcases hnew with hsame | ⟨hnil, _⟩
      · have hlen := congrArg List.length hsame
        simp only [List.length_map] at hlen
        omega
      · rw [hnil]
        simp only [List.length_nil]
        omega

theorem roomKept_step {w w' : System} {a : SystemAction} (h : RoomKept w)
    (hstep : systemStep c w a = some w') (hC : PageFits w a w') : RoomKept w' := by
  cases move_of_step hstep with
  | @answer input r hin hr =>
      refine roomKept_of_reader h hr rfl (by rintro rfl; cases hin) ?_
      rintro page rfl ⟨hpc, hfull⟩
      exact hC hfull hpc
  | noRewind _ hr => exact roomKept_of_reader h hr rfl (by simp) (by simp)
  | @takeRewind r height rest hcons hr =>
      obtain ⟨_, hat⟩ := Reader.moved_of_step hr h.atNext
      have hlen : rest.length + 1 ≤ rewindCapacity := by
        simpa [hcons] using h.rewinds
      refine ⟨hat, by simp only; omega, fun hwait => ?_⟩
      have hfull : rest.length = rewindCapacity := hwait.2
      omega
  | rewindsClosed _ _ hr => exact roomKept_of_reader h hr rfl (by simp) (by simp)
  | @send r height block effects rest hpc hroom _ hr =>
      obtain ⟨hmoved, hat⟩ := Reader.moved_of_step hr h.atNext
      refine ⟨hat, h.rewinds, fun hwait => ?_⟩
      have hold := h.room hwait
      simp only [Reader.pending, hpc, List.length_cons] at hold
      simp only [List.length_append, List.length_singleton]
      change w.blockChannel.length + 1 + r.pending.length ≤ blockCapacity
      cases hmoved with
      | sent hpc' _ hnew =>
          cases hpc.symm.trans hpc'
          rcases hnew with hrest | ⟨hnil, _⟩
          · rw [hrest]
            omega
          · rw [hnil]
            simp only [List.length_nil]
            omega
      | kept hin _ _ => exact absurd rfl hin.1
  | sendFailed _ hr => exact roomKept_of_reader h hr rfl (by simp) (by simp)
  | @recvMany count s _ hs =>
      exact roomKept_of_index h hs rfl (by simp) rfl (by simp) (by simp)
  | channelClosed _ _ hs => exact roomKept_of_index h hs rfl (by simp) rfl (by simp) (by simp)
  | handle hs => exact roomKept_of_index h hs rfl (by simp) rfl (by simp) (by simp)
  | rollback hs =>
      refine roomKept_of_index h hs rfl (by simp) rfl ?_ (by simp)
      intro ha hfull
      simp only [IndexAction.rollback.injEq] at ha
      subst ha
      exact hC hfull
  | @sendRewind height s hpc hroom _ hs =>
      refine ⟨h.atNext, by simp only [List.length_append, List.length_singleton]; omega, ?_⟩
      rintro ⟨hpc', _⟩
      rcases sendingRewind_of_transition (transition_of_step hs) hpc' with ha | ⟨_, ha⟩
      · cases ha
      · cases ha
  | rewindUnheard _ hs => exact roomKept_of_index h hs rfl (by simp) rfl (by simp) (by simp)
  | endChunk hs => exact roomKept_of_index h hs rfl (by simp) rfl (by simp) (by simp)

/-- The two tasks never wait for each other as long as the reader's page fits. -/
theorem channels_never_deadlock {db : Database} {as : List SystemAction} {t : System}
    (hfits : Always (systemStep c) PageFits (.start c db) as)
    (hrun : exec (systemStep c) (.start c db) as = some t) :
    ¬ (t.LoopWaits ∧ t.ReaderWaits) := by
  have h0 : RoomKept (System.start c db) :=
    ⟨trivial, Nat.zero_le _, fun hwait => absurd hwait.1 Bool.false_ne_true⟩
  have hend : RoomKept t :=
    always_invariant (fun _ _ _ h hs hC => roomKept_step h hs hC) h0 hfits hrun
  rintro ⟨hloop, hoffer, hfull⟩
  have hroom := hend.room hloop
  have hpending : 0 < t.reader.pending.length := by
    unfold Reader.pending
    cases hpc : t.reader.pc <;> simp_all [ReaderPc.isOffering]
  omega

end

/-! ## Five forks in one inbox -/

/-- Blocks none of which follows the one before it. -/
def unlinkedPage (first count : Nat) : List RpcBlock :=
  (List.range' first count).map fun height => bare height "a" "b"

/-- A block is accepted, the next one forks and takes it back, and so on; the fifth
rewind finds four unread ones. -/
def fiveForks : List SystemAction :=
  (List.replicate 4 [.handle true, .handle true, .rollback .done, .sendRewind]).flatten ++
    [.handle true, .handle true, .rollback .done]

/-- Up to the offer of the first block of a page. -/
def offerPage (first : Nat) : List SystemAction :=
  (servePage 400 none (unlinkedPage first 1)).dropLast

theorem channels_never_deadlock_five_forks :
    ∃ t, systemRun 5 (servePage 400 none (unlinkedPage 0 10) ++ [.recvMany 10] ++ offerPage 10 ++
        fiveForks) = some t ∧ ¬ (t.LoopWaits ∧ t.ReaderWaits) := by
  refine ⟨(systemRun 5 _).get (by decide), (Option.some_get _).symm, ?_⟩
  exact @channels_never_deadlock (.bare 5) .plain .plain .empty _ _ (by decide)
    (Option.some_get _).symm

/-- Three more pages fill the block channel before the loop looks at its inbox. -/
def jammedChannels : List SystemAction :=
  servePage 400 none (unlinkedPage 0 10) ++ [.recvMany 10] ++
    servePage 400 none (unlinkedPage 10 100) ++ servePage 400 none (unlinkedPage 110 100) ++
    servePage 400 none (unlinkedPage 210 100) ++ offerPage 310 ++ fiveForks

theorem channels_deadlock :
    ∃ t, systemRun 5 jammedChannels = some t ∧ t.LoopWaits ∧ t.ReaderWaits := by
  have hjam : (systemRun 5 jammedChannels).any
      (fun t => decide (t.LoopWaits ∧ t.ReaderWaits)) = true := by decide +kernel
  obtain ⟨t, hrun, hwait⟩ := (Option.any_eq_true _ _).mp hjam
  exact ⟨t, hrun, of_decide_eq_true hwait⟩

end Retracer
