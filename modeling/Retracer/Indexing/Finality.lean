import Retracer.Indexing.Transition

/-! # What a rollback may delete

Two guards stand before a rollback: the certificate and the configured depth. Both
are stated over whole runs with a note of the past that the loop does not keep:
the finalized heights published so far, and the heights stored so far.
-/

namespace Retracer

open Execution

/-- The blocks of the chain a step removes all satisfy `p`. -/
def RemovesOnly (c : ChainConfig) (p : Int → Prop) (s s' : IndexState) : Prop :=
  ∀ b ∈ s.db.blocks.rows, b.chainId = c.chainId →
    headerAt s'.db c.chainId b.height = none → p b.height

instance (c : ChainConfig) (p : Int → Prop) [DecidablePred p] (s s' : IndexState) :
    Decidable (RemovesOnly c p s s') := by
  unfold RemovesOnly
  infer_instance

theorem removesOnly_of_transition [Postgres] {c : ChainConfig} {p : Int → Prop}
    {s s' : IndexState} {a : IndexAction} (h : Transition c s a s')
    (hp : ∀ target episode n, s.pc = .rollingBack target episode → target < n → p n) :
    RemovesOnly c p s s' := by
  intro b hb hc hremoved
  have hstored : headerAt s.db c.chainId b.height ≠ none := by simp [headerAt_of_mem hb hc]
  obtain ⟨target, episode, hpc, hlt⟩ := rollingBack_of_removed h hstored hremoved
  exact hp target episode b.height hpc hlt

/-! ## Finalized heights -/

/-- Every finalized height published, latest first, and the same list as it was when
the latest block was classified. -/
structure FinalityLog where
  published : List Nat := []
  beforeBlock : List Nat := []

def FinalityLog.note (m : FinalityLog) (_ : IndexState) (a : IndexAction) (_ : IndexState) :
    FinalityLog :=
  match a with
  | .publish view => { m with published := view.finalizedHeight.toList ++ m.published }
  | .handle _ => { m with beforeBlock := m.published }
  | _ => m

/-- Present whenever a block is handled, and never decreasing. -/
def RisingFinality (m : FinalityLog) (s : IndexState) (a : IndexAction) (_ : IndexState) : Prop :=
  match a with
  | .publish view => ∀ f ∈ view.finalizedHeight, ∀ g ∈ m.published, g ≤ f
  | .handle _ => s.networkView.finalizedHeight.isSome
  | _ => True

instance (m : FinalityLog) (s : IndexState) (a : IndexAction) (s' : IndexState) :
    Decidable (RisingFinality m s a s') :=
  match a with
  | .publish _ => inferInstanceAs (Decidable (∀ _ ∈ _, _))
  | .handle _ => inferInstanceAs (Decidable (_ = true))
  | .recvMany _ | .channelClosed _ | .rollback _ | .rewindSent | .endChunk _ _ => .isTrue trivial

/-- Every published finalized height is one `i64` has. -/
def FinalityInRange (_ : FinalityLog) (_ : IndexState) (a : IndexAction) (_ : IndexState) : Prop :=
  match a with
  | .publish view => ∀ f ∈ view.finalizedHeight, f < 2 ^ 63
  | _ => True

instance (m : FinalityLog) (s : IndexState) (a : IndexAction) (s' : IndexState) :
    Decidable (FinalityInRange m s a s') :=
  match a with
  | .publish _ => inferInstanceAs (Decidable (∀ _ ∈ _, _))
  | .handle _ | .recvMany _ | .channelClosed _ | .rollback _ | .rewindSent | .endChunk _ _ =>
      .isTrue trivial

/-- A block is removed only above every finalized height that was known when the fork
was classified. -/
def KeepsFinalized (c : ChainConfig) (m : FinalityLog) (s : IndexState) (_ : IndexAction)
    (s' : IndexState) : Prop :=
  RemovesOnly c (fun n => ∀ f ∈ m.beforeBlock, (f : Int) < n) s s'

instance (c : ChainConfig) (m : FinalityLog) (s : IndexState) (a : IndexAction)
    (s' : IndexState) : Decidable (KeepsFinalized c m s a s') := by
  unfold KeepsFinalized
  infer_instance

/-- The view, where it has a height, is the latest of a rising list, and a rollback under way
stays above what was known when it was decided. -/
structure FinalityKept (m : FinalityLog) (s : IndexState) : Prop where
  latest : ∀ f ∈ s.networkView.finalizedHeight, m.published.head? = some f
  rising : ∀ f ∈ m.published.head?, ∀ g ∈ m.published, g ≤ f
  inRange : ∀ f ∈ m.published, f < 2 ^ 63
  target : ∀ target episode, s.pc = .rollingBack target episode →
    ∀ f ∈ m.beforeBlock, (f : Int) ≤ target

section

variable {c : ChainConfig}

theorem finalityKept_publish {m : FinalityLog} {s s' : IndexState} {view : NetworkView}
    (h : FinalityKept m s) (hs' : s' = { s with networkView := view })
    (hrise : ∀ f ∈ view.finalizedHeight, ∀ g ∈ m.published, g ≤ f)
    (hrange : ∀ f ∈ view.finalizedHeight, f < 2 ^ 63) :
    FinalityKept { m with published := view.finalizedHeight.toList ++ m.published } s' := by
  subst hs'
  cases hf : view.finalizedHeight with
  | none => exact ⟨by simp [hf], h.rising, h.inRange, h.target⟩
  | some f =>
      have hle : ∀ g ∈ m.published, g ≤ f := hrise f (by simp [hf])
      have hlt : f < 2 ^ 63 := hrange f (by simp [hf])
      constructor
      · simp [hf]
      · intro f' hf' g hg
        simp only [Option.toList_some, List.singleton_append, List.head?_cons,
          Option.mem_def, Option.some.injEq, List.mem_cons] at hf' hg
        subst hf'
        rcases hg with rfl | hg
        · exact Nat.le_refl _
        · exact hle g hg
      · intro g hg
        simp only [Option.toList_some, List.singleton_append, List.mem_cons] at hg
        rcases hg with rfl | hg
        · exact hlt
        · exact h.inRange g hg
      · exact h.target

/-- Handling a block: a fork is let through only above the latest certificate, and
that one is the greatest. -/
theorem fork_target_above_published {m : FinalityLog} {s : IndexState} {block : IndexableBlock}
    {target : Int} (h : FinalityKept m s) (hknown : s.networkView.finalizedHeight.isSome)
    (hv : s.verdict c block = .fork target) : ∀ f ∈ m.published, (f : Int) ≤ target := by
  obtain ⟨f, hf⟩ := Option.isSome_iff_exists.mp hknown
  have hhead : m.published.head? = some f := h.latest f hf
  have hmem : f ∈ m.published := List.mem_of_mem_head? (by simp [hhead])
  obtain ⟨_, _, _, _, _, hfinal, _⟩ := tip_of_fork hv
  have hbound : asI64 f ≤ target := hfinal _ (by simp [IndexState.finalized, hf])
  rw [asI64_of_lt (h.inRange f hmem)] at hbound
  intro g hg
  have hgf : g ≤ f := h.rising f (by simp [hhead]) g hg
  omega

variable [Postgres]

theorem finalityKept_step {m : FinalityLog} {s s' : IndexState} {a : IndexAction}
    (h : FinalityKept m s) (hs : indexStep c s a = some s')
    (hC : RisingFinality m s a s' ∧ FinalityInRange m s a s') :
    FinalityKept (m.note s a s') s' := by
  -- outside a rollback the last field says nothing
  have hidle : ∀ {b : List Nat} {t : IndexState}, t.networkView = s.networkView →
      (∀ target episode, t.pc ≠ .rollingBack target episode) →
      FinalityKept { published := m.published, beforeBlock := b } t := by
    intro b t hview hpc
    exact ⟨hview ▸ h.latest, h.rising, h.inRange, fun target episode hroll =>
      absurd hroll (hpc target episode)⟩
  cases transition_of_step hs with
  | publish view => exact finalityKept_publish h rfl hC.1 hC.2
  | received _ _ _ => exact hidle rfl (by simp)
  | closed _ hf => exact hidle hf.frame.2.2.2.2 (by simp)
  | stale hpc _ _ => exact hidle rfl (by simp [hpc])
  | accepted hpc _ _ _ => exact hidle rfl (by simp [IndexState.accept, hpc])
  | acceptedFull hpc _ _ _ hf =>
      obtain ⟨_, _, _, hpc', hview⟩ := hf.frame
      exact hidle hview (by simp [hpc', IndexState.accept, hpc])
  | forked _ _ hv hf =>
      obtain ⟨_, _, _, _, hview⟩ := hf.frame
      refine ⟨hview ▸ h.latest, h.rising, h.inRange, ?_⟩
      intro t e hroll
      simp only [IndexPc.rollingBack.injEq] at hroll
      obtain ⟨rfl, rfl⟩ := hroll
      exact fork_target_above_published h hC.1 hv
  | refused hpc _ _ hf =>
      obtain ⟨_, _, _, hpc', hview⟩ := hf.frame
      exact hidle hview (by simp [hpc', hpc])
  | rollbackFailed _ => exact hidle rfl (by simp)
  | lookupFailed _ _ => exact hidle rfl (by simp)
  | rolledBack _ => exact hidle rfl (by simp)
  | rewindSent _ => exact hidle rfl (by simp)
  | chunkDone _ _ hf => exact hidle hf.frame.2.2.2.2 (by simp)
  | chunkLost _ _ hf => exact hidle hf.frame.2.2.2.2 (by simp)

/-- Finalized history is never un-indexed as long as the reported heights fit `i64`. -/
theorem rollback_keeps_finalized (db : Database) (as : List IndexAction)
    (hrise : EveryStep (indexStep c) FinalityLog.note RisingFinality {} (.start c db) as)
    (hrange : EveryStep (indexStep c) FinalityLog.note FinalityInRange {} (.start c db) as) :
    EveryStep (indexStep c) FinalityLog.note (KeepsFinalized c) {} (.start c db) as := by
  have h0 : FinalityKept {} (IndexState.start c db) :=
    ⟨by simp [IndexState.start], by simp, by simp, by simp [IndexState.start]⟩
  have hsteps := hrise.and hrange
  refine everyStep_imp (I := FinalityKept) ?_ ?_ h0 hsteps
  · intro m s a s' h hs hC
    exact finalityKept_step h hs hC
  intro m s a s' h hs _
  refine removesOnly_of_transition (transition_of_step hs) ?_
  intro target episode n hpc hlt f hf
  exact lt_of_le_of_lt (h.target target episode hpc f hf) hlt

end

section

open IndexableBlock

/-- Two stored blocks, a published certificate, and a fork at height 2. -/
def certifiedFork (finalized : Nat) : List IndexAction :=
  [.publish { finalizedHeight := some finalized },
    .recvMany [bare 0 "a0" "", bare 1 "a1" "a0", bare 2 "b2" "b1"],
    .handle true, .handle true, .handle true, .rollback .done, .rewindSent]

theorem rollback_keeps_finalized_zero :
    EveryStep (bareStep 5) FinalityLog.note (KeepsFinalized (.bare 5)) {}
      (.start (.bare 5) .empty) (certifiedFork 0) :=
  @rollback_keeps_finalized (.bare 5) .plain .empty (certifiedFork 0) (by decide) (by decide)

/-- `2 ^ 63` is a negative `i64`, so the certificate is read as lying below every target. -/
theorem certified_block_is_removed :
    (bareRun 5 (certifiedFork (2 ^ 63))).isSome ∧
    EveryStep (bareStep 5) FinalityLog.note RisingFinality {} (.start (.bare 5) .empty)
      (certifiedFork (2 ^ 63)) ∧
    ¬ EveryStep (bareStep 5) FinalityLog.note (KeepsFinalized (.bare 5)) {}
      (.start (.bare 5) .empty) (certifiedFork (2 ^ 63)) := by
  decide

end

/-! ## Depth -/

/-- Every height stored so far. -/
def noteHeights (c : ChainConfig) (m : List Int) (_ : IndexState) (_ : IndexAction)
    (s' : IndexState) : List Int :=
  m ++ storedHeights s'.db c.chainId

/-- A fork is only let through in an episode, or with the tip at the greatest height
stored so far. -/
def ForksFromTop (c : ChainConfig) (m : List Int) (s : IndexState) (a : IndexAction)
    (_ : IndexState) : Prop :=
  ∀ block ∈ s.handling a, (s.verdict c block).isFork →
    s.rewoundFrom.isSome ∨ ∀ tip ∈ s.tip, ∀ h ∈ m, h ≤ tip.height

instance (c : ChainConfig) (m : List Int) (s : IndexState) (a : IndexAction)
    (s' : IndexState) : Decidable (ForksFromTop c m s a s') := by
  unfold ForksFromTop
  infer_instance

/-- A removed block lies less than `finality_depth` below every height stored so far. -/
def KeepsDepth (c : ChainConfig) (m : List Int) (s : IndexState) (_ : IndexAction)
    (s' : IndexState) : Prop :=
  RemovesOnly c (fun n => ∀ h ∈ m, h - c.finalityDepth < n) s s'

instance (c : ChainConfig) (m : List Int) (s : IndexState) (a : IndexAction)
    (s' : IndexState) : Decidable (KeepsDepth c m s a s') := by
  unfold KeepsDepth
  infer_instance

/-- An episode starts no lower than anything stored so far and stores nothing. -/
structure DepthKept (c : ChainConfig) (m : List Int) (s : IndexState) : Prop where
  noted : ∀ n, headerAt s.db c.chainId n ≠ none → n ∈ m
  pending : ∀ b ∈ s.batch, ∃ tip, s.tip = some tip ∧ (b.height : Int) ≤ tip.height
  episode : ∀ r, s.rewoundFrom = some r → s.batch = [] ∧ ∀ h ∈ m, h ≤ r
  rolling : ∀ target r, s.pc = .rollingBack target r →
    s.batch = [] ∧ (∀ h ∈ m, h ≤ r) ∧ r - target ≤ c.finalityDepth

section

variable {c : ChainConfig}

/-- The note only ever adds what is stored; a bound on both bounds the new note. -/
theorem noteHeights_le {m : List Int} {s' : IndexState} {r : Int}
    (hm : ∀ h ∈ m, h ≤ r) (hdb : ∀ n, headerAt s'.db c.chainId n ≠ none → n ≤ r) :
    ∀ h ∈ m ++ storedHeights s'.db c.chainId, h ≤ r := by
  intro h hh
  rcases List.mem_append.mp hh with hold | hnew
  · exact hm h hold
  · exact hdb h (mem_storedHeights.mp hnew)

theorem noted_noteHeights {m : List Int} {s' : IndexState} (n : Int)
    (h : headerAt s'.db c.chainId n ≠ none) : n ∈ m ++ storedHeights s'.db c.chainId :=
  List.mem_append_right _ (mem_storedHeights.mpr h)

/-- A step that stores nothing new and leaves the loop's variables alone. -/
theorem depthKept_of_subset {m : List Int} {s s' : IndexState} (h : DepthKept c m s)
    (hdb : ∀ n, headerAt s'.db c.chainId n ≠ none → headerAt s.db c.chainId n ≠ none)
    (hbatch : s'.batch = s.batch) (htip : s'.tip = s.tip)
    (hfrom : s'.rewoundFrom = s.rewoundFrom)
    (hpc : ∀ target r, s'.pc = .rollingBack target r → s.pc = .rollingBack target r) :
    DepthKept c (m ++ storedHeights s'.db c.chainId) s' := by
  have hle : ∀ {r : Int}, (∀ h ∈ m, h ≤ r) → ∀ h ∈ m ++ storedHeights s'.db c.chainId, h ≤ r :=
    fun hm => noteHeights_le hm fun n hn => hm n (h.noted n (hdb n hn))
  refine ⟨noted_noteHeights, ?_, ?_, ?_⟩
  · rw [hbatch, htip]
    exact h.pending
  · intro r hr
    obtain ⟨hb, hm⟩ := h.episode r (hfrom ▸ hr)
    exact ⟨hbatch ▸ hb, hle hm⟩
  · intro target r hroll
    obtain ⟨hb, hm, hdepth⟩ := h.rolling target r (hpc target r hroll)
    exact ⟨hbatch ▸ hb, hle hm, hdepth⟩

theorem DepthKept.inbox {m : List Int} {s : IndexState} (h : DepthKept c m s)
    (rest : List IndexableBlock) : DepthKept c m { s with inbox := rest } :=
  ⟨h.noted, h.pending, h.episode, h.rolling⟩

/-- Accepting ends the episode, and the new tip is above everything pending. -/
theorem depthKept_accept {m : List Int} {s : IndexState} {block : IndexableBlock}
    (h : DepthKept c m s) (hpc : s.pc = .draining)
    (hv : (s.verdict c block).isAccepted = true) : DepthKept c m (s.accept block) := by
  refine ⟨h.noted, ?_, by simp [IndexState.accept], by simp [IndexState.accept, hpc]⟩
  intro b hb
  refine ⟨_, rfl, ?_⟩
  simp only [IndexState.accept, List.mem_append, List.mem_singleton] at hb
  rcases hb with hold | rfl
  · obtain ⟨tip, htip, hle⟩ := h.pending b hold
    rcases tip_of_accepted hv with hnone | ⟨tip', hsome, hnext⟩
    · cases hnone.symm.trans htip
    · cases hsome.symm.trans htip
      rcases hnext with ⟨hnext, _⟩ | ⟨_, hbeyond⟩ <;> simp only <;> omega
  · exact Int.le_refl _

theorem depthKept_rolledBack {m : List Int} {s s' : IndexState} {target r : Int}
    (h : DepthKept c m s) (hpc : s.pc = .rollingBack target r)
    (hdb : s'.db = (rollbackTo s.db c.chainId target).1) (hbatch : s'.batch = s.batch)
    (hfrom : s'.rewoundFrom = some r) (hpc' : ∀ target r, s'.pc ≠ .rollingBack target r) :
    DepthKept c (m ++ storedHeights s'.db c.chainId) s' := by
  obtain ⟨hb, hm, _⟩ := h.rolling target r hpc
  refine ⟨noted_noteHeights, by simp [hbatch, hb], ?_, fun target r hroll =>
    absurd hroll (hpc' target r)⟩
  intro r' hr'
  rw [hfrom, Option.some.injEq] at hr'
  subst hr'
  refine ⟨hbatch.trans hb, noteHeights_le hm fun n hn => hm n (h.noted n ?_)⟩
  rw [hdb] at hn
  exact headerAt_ne_none_of_rollbackTo hn

variable [Postgres]

/-- In an episode there is nothing to flush. -/
theorem noteHeights_le_of_flushed {m : List Int} {s s₁ s' : IndexState} {commits ok : Bool}
    {r : Int} (h : DepthKept c m s) (hf : Flushed c commits s ok s₁)
    (hdb : s'.db = s₁.db) (hm : ∀ h ∈ m, h ≤ r)
    (hbatch : s.batch = [] ∨ ∀ tip ∈ s.tip, tip.height ≤ r) :
    ∀ h ∈ m ++ storedHeights s'.db c.chainId, h ≤ r := by
  refine noteHeights_le hm fun n hn => ?_
  rw [hdb] at hn
  rcases hf.stored_or_pending hn with hstored | ⟨b, hb, rfl⟩
  · exact hm n (h.noted n hstored)
  · obtain ⟨tip, htip, hle⟩ := h.pending b hb
    rcases hbatch with hnil | htop
    · rw [hnil] at hb
      cases hb
    · exact hle.trans (htop tip (by simp [htip]))

theorem depthKept_of_flushed {m : List Int} {s s₁ s' : IndexState} {commits ok : Bool}
    (h : DepthKept c m s) (hf : Flushed c commits s ok s₁)
    (hdb : s'.db = s₁.db) (hbatch : s'.batch = []) (hfrom : s'.rewoundFrom = s.rewoundFrom)
    (hpc : ∀ target r, s'.pc ≠ .rollingBack target r) :
    DepthKept c (m ++ storedHeights s'.db c.chainId) s' := by
  refine ⟨noted_noteHeights, by simp [hbatch], ?_, fun target r hroll =>
    absurd hroll (hpc target r)⟩
  intro r hr
  obtain ⟨hb, hm⟩ := h.episode r (hfrom ▸ hr)
  exact ⟨hbatch, noteHeights_le_of_flushed h hf hdb hm (Or.inl hb)⟩

theorem depthKept_fork {m : List Int} {s s₁ : IndexState} {block : IndexableBlock}
    {commits ok : Bool} {target : Int} (h : DepthKept c m s)
    (hv : s.verdict c block = .fork target)
    (htop : s.rewoundFrom.isSome ∨ ∀ tip ∈ s.tip, ∀ h ∈ m, h ≤ tip.height)
    (hf : Flushed c commits s ok s₁) {s' : IndexState} (hs' : s' =
      { s₁ with pc := .rollingBack target (s.rewoundFrom.getD (block.height - 1)) }) :
    DepthKept c (m ++ storedHeights s'.db c.chainId) s' := by
  obtain ⟨tip, htip, rfl, hheight, _, _, hdepth⟩ := tip_of_fork hv
  have hparent : (block.height : Int) - 1 = tip.height := by omega
  -- the episode's origin bounds all that was stored, the flushed batch included
  have horigin : ∀ h ∈ m ++ storedHeights s'.db c.chainId, h ≤ s.rewoundFrom.getD tip.height := by
    cases hfrom : s.rewoundFrom with
    | some r =>
        obtain ⟨hb, hm⟩ := h.episode r hfrom
        exact noteHeights_le_of_flushed h hf (by rw [hs']) hm (Or.inl hb)
    | none =>
        have hm : ∀ h ∈ m, h ≤ tip.height := by
          rcases htop with hsome | htop
          · simp [hfrom] at hsome
          · exact htop tip (by simp [htip])
        refine noteHeights_le_of_flushed h hf (by rw [hs']) hm (Or.inr ?_)
        intro tip' htip'
        rw [htip, Option.mem_some_iff] at htip'
        exact (congrArg Tip.height htip').ge
  obtain ⟨_, hfrom', _⟩ := hf.frame
  rw [hparent] at hs'
  subst hs'
  refine ⟨noted_noteHeights, by simp [hf.batch_nil], ?_, ?_⟩
  · intro r hr
    refine ⟨hf.batch_nil, ?_⟩
    have hr' : s.rewoundFrom = some r := hfrom' ▸ hr
    simpa [hr'] using horigin
  · intro t r hroll
    simp only [IndexPc.rollingBack.injEq] at hroll
    obtain ⟨rfl, rfl⟩ := hroll
    exact ⟨hf.batch_nil, horigin, hdepth⟩

theorem depthKept_step {m : List Int} {s s' : IndexState} {a : IndexAction}
    (h : DepthKept c m s) (hs : indexStep c s a = some s') (hC : ForksFromTop c m s a s') :
    DepthKept c (noteHeights c m s a s') s' := by
  cases transition_of_step hs with
  | publish _ => exact depthKept_of_subset h (fun _ hn => hn) rfl rfl rfl (fun _ _ hr => hr)
  | received _ _ _ => exact depthKept_of_subset h (fun _ hn => hn) rfl rfl rfl (by simp)
  | closed _ hf =>
      exact depthKept_of_flushed h hf rfl hf.batch_nil hf.frame.2.1 (by simp)
  | stale _ _ _ => exact depthKept_of_subset h (fun _ hn => hn) rfl rfl rfl (fun _ _ hr => hr)
  | @accepted block rest _ hpc _ hv _ =>
      have haccepted : DepthKept c m ({ s with inbox := rest }.accept block) :=
        depthKept_accept (h.inbox rest) hpc hv
      exact depthKept_of_subset haccepted (fun _ hn => hn) rfl rfl rfl (fun _ _ hr => hr)
  | @acceptedFull _ block rest _ _ hpc _ hv _ hf =>
      have haccepted : DepthKept c m ({ s with inbox := rest }.accept block) :=
        depthKept_accept (h.inbox rest) hpc hv
      obtain ⟨_, hfrom, _, hpc', _⟩ := hf.frame
      exact depthKept_of_flushed haccepted hf rfl hf.batch_nil hfrom
        (by simp [hpc', IndexState.accept, hpc])
  | @forked s₁ block rest _ _ _ _ hin hv hf =>
      have htop : s.rewoundFrom.isSome ∨ ∀ tip ∈ s.tip, ∀ h ∈ m, h ≤ tip.height := by
        apply hC block (IndexState.handling_handle hin)
        rw [hv]
        rfl
      exact depthKept_fork (h.inbox rest) hv htop hf rfl
  | @refused _ _ rest _ _ hpc _ _ hf =>
      obtain ⟨_, hfrom, _, hpc', _⟩ := hf.frame
      exact depthKept_of_flushed (h.inbox rest) hf rfl hf.batch_nil hfrom (by simp [hpc', hpc])
  | rollbackFailed _ => exact depthKept_of_subset h (fun _ hn => hn) rfl rfl rfl (by simp)
  | lookupFailed _ _ =>
      exact depthKept_of_subset h (fun _ hn => headerAt_ne_none_of_rollbackTo hn) rfl rfl rfl
        (by simp)
  | rolledBack hpc => exact depthKept_rolledBack h hpc rfl rfl rfl (by simp)
  | rewindSent _ => exact depthKept_of_subset h (fun _ hn => hn) rfl rfl rfl (by simp)
  | chunkDone _ _ hf =>
      exact depthKept_of_flushed h hf rfl hf.batch_nil hf.frame.2.1 (by simp)
  | chunkLost _ _ hf =>
      exact depthKept_of_flushed h hf rfl hf.batch_nil hf.frame.2.1 (by simp)

/-- The depth guard is cumulative as long as every episode starts at the top. -/
theorem rollback_keeps_depth (db : Database) (as : List IndexAction)
    (htop : EveryStep (indexStep c) (noteHeights c) (ForksFromTop c)
      (storedHeights db c.chainId) (.start c db) as) :
    EveryStep (indexStep c) (noteHeights c) (KeepsDepth c)
      (storedHeights db c.chainId) (.start c db) as := by
  have h0 : DepthKept c (storedHeights db c.chainId) (.start c db) :=
    ⟨fun _ hn => mem_storedHeights.mpr hn, by simp [IndexState.start],
      by simp [IndexState.start], by simp [IndexState.start]⟩
  refine everyStep_imp (I := DepthKept c) ?_ ?_ h0 htop
  · intro m s a s' h hs hC
    exact depthKept_step h hs hC
  intro m s a s' h hs _
  refine removesOnly_of_transition (transition_of_step hs) ?_
  intro target r n hpc hlt stored hmem
  obtain ⟨_, hm, hdepth⟩ := h.rolling target r hpc
  have hle : stored ≤ r := hm stored hmem
  omega

end

section

open IndexableBlock

/-- Four blocks and a fork three deep, peeled block by block. -/
def peeledFork : List IndexAction :=
  [.recvMany [bare 0 "a0" "", bare 1 "a1" "a0", bare 2 "a2" "a1", bare 3 "a3" "a2",
      bare 4 "b4" "b3", bare 3 "b3" "b2"],
    .handle true, .handle true, .handle true, .handle true,
    .handle true, .rollback .done, .rewindSent, .handle true, .rollback .done, .rewindSent]

theorem rollback_keeps_depth_peeled :
    EveryStep (bareStep 2) (noteHeights (.bare 2)) (KeepsDepth (.bare 2)) []
      (.start (.bare 2) .empty) peeledFork :=
  @rollback_keeps_depth (.bare 2) .plain .empty peeledFork (by decide)

/-- A block on the peeled tip ends the episode, and the next one starts at height 2. -/
def alternatingFork : List IndexAction :=
  peeledFork ++ [.endChunk true true,
    .recvMany [bare 2 "c2" "a1", bare 3 "b3" "b2", bare 2 "b2" "b1"],
    .handle true, .handle true, .rollback .done, .rewindSent,
    .handle true, .rollback .done, .rewindSent]

theorem alternating_fork_passes_depth :
    (bareRun 2 alternatingFork).map (fun s =>
      (headerAt s.db "chain" 0, headerAt s.db "chain" 1, s.networkView.finalizedHeight)) =
        some (some ⟨"a0", ""⟩, none, none) ∧
    ¬ EveryStep (bareStep 2) (noteHeights (.bare 2)) (KeepsDepth (.bare 2)) []
      (.start (.bare 2) .empty) alternatingFork := by
  decide

end

end Retracer
