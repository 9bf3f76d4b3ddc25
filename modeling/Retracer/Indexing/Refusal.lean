import Retracer.Indexing.Transition

/-! # After a refused fork

A refusal flushes what was accepted before it and drops one block; it leaves no
mark in the loop's state. The index stays as it is for as long as the blocks that
follow are stale or refused themselves. A block further up is a gap, and a gap is
indexed.
-/

namespace Retracer

open Execution

/-- Every block handled by the step is stale or refused. -/
def StaleOrRefused (c : ChainConfig) (s : IndexState) (a : IndexAction) (_ : IndexState) : Prop :=
  ∀ block ∈ s.handling a, s.verdict c block = .stale ∨ (s.verdict c block).isRefusal = true

/-- No block handled by the step is the next one on the tip. -/
def NoMatchingNext (s : IndexState) (a : IndexAction) (_ : IndexState) : Prop :=
  ∀ block ∈ s.handling a, ∀ tip ∈ s.tip,
    ¬ ((block.height : Int) = tip.height + 1 ∧ hashesMatch block.parentHash tip.hash)

instance (c : ChainConfig) (s : IndexState) (a : IndexAction) (s' : IndexState) :
    Decidable (StaleOrRefused c s a s') := by
  unfold StaleOrRefused
  infer_instance

instance (s : IndexState) (a : IndexAction) (s' : IndexState) :
    Decidable (NoMatchingNext s a s') := by
  unfold NoMatchingNext
  infer_instance

/-- The index as the refusal left it, with nothing pending. -/
structure Stalled (s₁ s : IndexState) : Prop where
  db : s.db = s₁.db
  broadcast : s.broadcast = s₁.broadcast
  tip : s.tip = s₁.tip
  batch : s.batch = []
  pc : s.pc = .receiving ∨ s.pc = .draining ∨ s.pc = .stopped

section

variable [Postgres] {c : ChainConfig}

theorem stalled_step {s₁ s s' : IndexState} {a : IndexAction} (h : Stalled s₁ s)
    (hs : indexStep c s a = some s') (hC : StaleOrRefused c s a s') : Stalled s₁ s' := by
  -- no other class reaches the arms that write
  have hclass : ∀ {block rest commits}, a = .handle commits → s.inbox = block :: rest →
      s.verdict c block = .stale ∨ (s.verdict c block).isRefusal = true := by
    intro block rest commits ha hin
    subst ha
    exact hC block (IndexState.handling_handle hin)
  cases transition_of_step hs with
  | publish view => exact ⟨h.db, h.broadcast, h.tip, h.batch, h.pc⟩
  | received _ _ _ => exact ⟨h.db, h.broadcast, h.tip, h.batch, Or.inr (Or.inl rfl)⟩
  | closed _ hf =>
      obtain ⟨_, rfl⟩ := hf.eq_of_batch_nil h.batch
      exact ⟨h.db, h.broadcast, h.tip, h.batch, Or.inr (Or.inr rfl)⟩
  | stale _ _ _ => exact ⟨h.db, h.broadcast, h.tip, h.batch, h.pc⟩
  | accepted _ hin hv _ =>
      rw [TipAction.not_isAccepted (hclass rfl hin)] at hv
      cases hv
  | acceptedFull _ hin hv _ _ =>
      rw [TipAction.not_isAccepted (hclass rfl hin)] at hv
      cases hv
  | forked _ hin hv _ =>
      have hfork := hclass rfl hin
      simp [hv, TipAction.isRefusal] at hfork
  | refused _ _ _ hf =>
      obtain ⟨_, rfl⟩ := hf.eq_of_batch_nil h.batch
      exact ⟨h.db, h.broadcast, h.tip, h.batch, h.pc⟩
  | rollbackFailed hpc => exact absurd h.pc (by simp [hpc])
  | lookupFailed hpc _ => exact absurd h.pc (by simp [hpc])
  | rolledBack hpc => exact absurd h.pc (by simp [hpc])
  | rewindSent hpc => exact absurd h.pc (by simp [hpc])
  | chunkDone _ _ hf =>
      obtain ⟨_, rfl⟩ := hf.eq_of_batch_nil h.batch
      exact ⟨h.db, h.broadcast, h.tip, h.batch, Or.inl rfl⟩
  | chunkLost _ _ hf => exact absurd (hf.eq_of_batch_nil h.batch).1 (by simp)

/-- The refusing step: the pending batch is written or lost, nothing else changes. -/
theorem refusal_spec {s s₁ : IndexState} {block : IndexableBlock} {rest : List IndexableBlock}
    {commits : Bool} (hin : s.inbox = block :: rest) (hv : (s.verdict c block).isRefusal = true)
    (hs : indexStep c s (.handle commits) = some s₁) :
    Stalled s₁ s₁ ∧ s₁.tip = s.tip ∧
      (s₁.db = s.db ∨ insertBlocks s.db c.chainId s.batch c.extractor = some s₁.db) := by
  cases transition_of_step hs with
  | stale _ hin' hv' =>
      cases hin.symm.trans hin'
      simp [hv', TipAction.isRefusal] at hv
  | accepted _ hin' hv' _ =>
      cases hin.symm.trans hin'
      simp [TipAction.not_isAccepted (Or.inr hv)] at hv'
  | acceptedFull _ hin' hv' _ _ =>
      cases hin.symm.trans hin'
      simp [TipAction.not_isAccepted (Or.inr hv)] at hv'
  | forked _ hin' hv' _ =>
      cases hin.symm.trans hin'
      simp [hv', TipAction.isRefusal] at hv
  | refused hpc _ _ hf =>
      obtain ⟨htip, _, _, hpc', _⟩ := hf.frame
      refine ⟨⟨rfl, rfl, rfl, hf.batch_nil, Or.inr (Or.inl (hpc'.trans hpc))⟩, htip, ?_⟩
      cases hf with
      | empty _ => exact Or.inl rfl
      | stored _ _ hdb => exact Or.inr hdb
      | lost _ _ => exact Or.inl rfl

/-- From any refusal on, a run whose blocks are all stale or refused stores nothing,
broadcasts nothing and moves no tip. The refusal itself writes at most the blocks
accepted before it. -/
theorem refused_fork_leaves_index {s s₁ t : IndexState} {block : IndexableBlock}
    {rest : List IndexableBlock} {commits : Bool} {as : List IndexAction}
    (hin : s.inbox = block :: rest) (hv : (s.verdict c block).isRefusal = true)
    (hs : indexStep c s (.handle commits) = some s₁)
    (hC : Always (indexStep c) (StaleOrRefused c) s₁ as)
    (hrun : exec (indexStep c) s₁ as = some t) :
    s₁.tip = s.tip ∧
      (s₁.db = s.db ∨ insertBlocks s.db c.chainId s.batch c.extractor = some s₁.db) ∧
      t.db = s₁.db ∧ t.broadcast = s₁.broadcast ∧ t.tip = s₁.tip := by
  obtain ⟨hstart, htip, hdb⟩ := refusal_spec hin hv hs
  have hend : Stalled s₁ t :=
    always_invariant (fun _ _ _ h hstep hc => stalled_step h hstep hc) hstart hC hrun
  exact ⟨htip, hdb, hend.db, hend.broadcast, hend.tip⟩

end

/-! ## Block 2 of a branch is refused, its block 3 is a gap -/

open IndexableBlock

/-- Two stored blocks, then `b2` at depth 1 against a finality depth of 0. -/
def untilRefusal : List IndexAction :=
  [.recvMany [bare 0 "a0" "", bare 1 "a1" "a0", bare 2 "b2" "b1"], .handle true, .handle true]

/-- The rest of the branch, as the reader keeps sending it. -/
def afterRefusal : List IndexAction :=
  [.endChunk true true, .recvMany [bare 3 "b3" "b2"], .handle true, .endChunk true true]

theorem refused_branch_is_indexed :
    (bareRun 0 untilRefusal).any (fun s =>
      s.inbox.head?.any fun block => (s.verdict (.bare 0) block).isRefusal) = true ∧
    (bareRun 0 (untilRefusal ++ [.handle true])).any (fun s =>
      decide (Always (bareStep 0) (fun s a s' => NoMatchingNext s a s') s afterRefusal)) = true ∧
    (bareRun 0 (untilRefusal ++ [.handle true])).map (fun s =>
      (headerAt s.db "chain" 3, s.tip, s.broadcast.map (·.hash))) =
        some (none, some ⟨1, "a1"⟩, ["a0", "a1"]) ∧
    (bareRun 0 (untilRefusal ++ [.handle true] ++ afterRefusal)).map (fun s =>
      (headerAt s.db "chain" 3, s.tip, s.broadcast.map (·.hash))) =
        some (some ⟨"b3", "b2"⟩, some ⟨3, "b3"⟩, ["a0", "a1", "b3"]) := by
  decide

/-- The refused block again and then a stale one. -/
def afterRefusalStale : List IndexAction :=
  [.endChunk true true, .recvMany [bare 2 "b2" "b1", bare 1 "a1" "a0"], .handle true,
    .handle false, .endChunk true true]

theorem refused_fork_leaves_index_stale :
    ∃ s s₁ t : IndexState,
      bareRun 0 untilRefusal = some s ∧ bareStep 0 s (.handle true) = some s₁ ∧
      exec (bareStep 0) s₁ afterRefusalStale = some t ∧
      s₁.tip = s.tip ∧
      (s₁.db = s.db ∨
        @insertBlocks .plain s.db "chain" s.batch (.tierAOnly .empty) = some s₁.db) ∧
      t.db = s₁.db ∧ t.broadcast = s₁.broadcast ∧ t.tip = s₁.tip := by
  let s := (bareRun 0 untilRefusal).get (by decide)
  let s₁ := (bareStep 0 s (.handle true)).get (by decide)
  let t := (exec (bareStep 0) s₁ afterRefusalStale).get (by decide)
  refine ⟨s, s₁, t, (Option.some_get _).symm, (Option.some_get _).symm,
    (Option.some_get _).symm, ?_⟩
  exact @refused_fork_leaves_index .plain (.bare 0) s s₁ t (bare 2 "b2" "b1") [] true
    afterRefusalStale (by rfl) (by decide) (Option.some_get _).symm (by decide)
    (Option.some_get _).symm

end Retracer
