import Retracer.Indexing.Loop

/-! # What one step of the loop can do

`Flushed` and `Transition` list the outcomes of a flush and of a step with
everything their branches checked. Invariants of the loop are proved by cases on
them; `indexStep` itself is not unfolded again.
-/

namespace Retracer

def TipAction.isRefusal : TipAction → Bool
  | .forkBelowFinalized _ _ | .forkTooDeep _ _ => true
  | _ => false

def TipAction.isAccepted : TipAction → Bool
  | .extend | .gap => true
  | _ => false

def TipAction.isFork : TipAction → Bool
  | .fork _ => true
  | _ => false

theorem TipAction.not_isAccepted {action : TipAction}
    (h : action = .stale ∨ action.isRefusal = true) : action.isAccepted = false := by
  cases action <;> simp_all [isRefusal, isAccepted]

section

variable {c : ChainConfig} {s : IndexState} {block : IndexableBlock}

theorem verdict_extend_of_tip_none (h : s.tip = none) : s.verdict c block = .extend := by
  unfold IndexState.verdict
  rw [h, classify_none]

theorem tip_of_fork {target : Int} (h : s.verdict c block = .fork target) :
    ∃ tip, s.tip = some tip ∧ target = tip.height - 1 ∧ (block.height : Int) = tip.height + 1 ∧
      ¬ hashesMatch block.parentHash tip.hash ∧ (∀ f, s.finalized = some f → f ≤ target) ∧
      s.rewoundFrom.getD tip.height - target ≤ c.finalityDepth := by
  cases htip : s.tip with
  | none => cases h.symm.trans (verdict_extend_of_tip_none htip)
  | some tip =>
      unfold IndexState.verdict at h
      rw [htip] at h
      exact ⟨tip, rfl, classify_fork_spec h⟩

/-- An accepted block starts the index, is the matching next one, or lies beyond. -/
theorem tip_of_accepted (h : (s.verdict c block).isAccepted = true) :
    s.tip = none ∨ ∃ tip, s.tip = some tip ∧
      ((block.height : Int) = tip.height + 1 ∧ hashesMatch block.parentHash tip.hash ∨
        s.verdict c block = .gap ∧ tip.height + 1 < block.height) := by
  cases htip : s.tip with
  | none => exact Or.inl rfl
  | some tip =>
      refine Or.inr ⟨tip, rfl, ?_⟩
      unfold IndexState.verdict at h ⊢
      rw [htip] at h ⊢
      cases hv : classify (some tip) block.height block.parentHash s.rewoundFrom
          c.finalityDepth s.finalized with
      | extend => exact Or.inl (classify_extend_spec hv)
      | gap => exact Or.inr ⟨rfl, classify_gap_spec hv⟩
      | stale => simp [hv, TipAction.isAccepted] at h
      | fork _ => simp [hv, TipAction.isAccepted] at h
      | forkBelowFinalized _ _ => simp [hv, TipAction.isAccepted] at h
      | forkTooDeep _ _ => simp [hv, TipAction.isAccepted] at h

theorem start_tip (db : Database) : (IndexState.start c db).tip = durableTip db c.chainId := by
  unfold IndexState.start durableTip
  cases getCursor db c.chainId <;> rfl

theorem durableTip_eq_some_iff {db : Database} {chainId : String} {tip : Tip} :
    durableTip db chainId = some tip ↔ getCursor db chainId = some tip.height ∧
      (headerAt db chainId tip.height).map (·.hash) = some tip.hash := by
  unfold durableTip
  constructor
  · intro h
    rw [Option.bind_eq_some_iff] at h
    obtain ⟨height, hcur, hhash⟩ := h
    rw [Option.map_eq_some_iff] at hhash
    obtain ⟨hash, hhash, rfl⟩ := hhash
    exact ⟨hcur, by rw [← getBlockHash_eq]; exact hhash⟩
  · rintro ⟨hcur, hhash⟩
    rw [← getBlockHash_eq] at hhash
    simp [hcur, hhash]

/-- After a rollback both sides look up the target. -/
theorem durableTip_rollbackTo (db : Database) (chainId : String) (target : Int) :
    (if target < 0 then none
      else (getBlockHash (rollbackTo db chainId target).1 chainId target).map
        fun hash => ({ height := target, hash } : Tip)) =
      durableTip (rollbackTo db chainId target).1 chainId := by
  unfold durableTip
  rw [getCursor_rollbackTo]
  split <;> rfl

end

variable [Postgres]

/-! ## Flushes -/

/-- What a flush comes to: nothing to commit, or whether the commit succeeds. -/
def flushOutcome (c : ChainConfig) (commits : Bool) (s : IndexState) : Option Bool :=
  if s.batch.isEmpty then none
  else some (commits && (insertBlocks s.db c.chainId s.batch c.extractor).isSome)

/-- What the flush of a step comes to; `none` also for a step without one. -/
def commitOutcome (c : ChainConfig) (s : IndexState) (a : IndexAction) : Option Bool :=
  match a, s.pc, s.inbox with
  | .channelClosed commits, .receiving, _ => flushOutcome c commits s
  | .handle commits, .draining, block :: _ =>
      match s.verdict c block with
      | .stale => none
      | .extend | .gap =>
          if s.batch.length + 1 ≥ insertBatchBlocks then flushOutcome c commits (s.accept block)
          else none
      | _ => flushOutcome c commits s
  | .endChunk commits _, .draining, [] => flushOutcome c commits s
  | _, _, _ => none

section

variable {c : ChainConfig} {s : IndexState} {commits : Bool} {block : IndexableBlock}
  {rest : List IndexableBlock}

theorem commitOutcome_full (hpc : s.pc = .draining) (hin : s.inbox = block :: rest)
    (hv : (s.verdict c block).isAccepted = true) (hfull : insertBatchBlocks ≤ s.batch.length + 1) :
    commitOutcome c s (.handle commits) = flushOutcome c commits (s.accept block) := by
  cases hverdict : s.verdict c block <;> simp_all [commitOutcome, TipAction.isAccepted]

theorem commitOutcome_fork {target : Int} (hpc : s.pc = .draining) (hin : s.inbox = block :: rest)
    (hv : s.verdict c block = .fork target) :
    commitOutcome c s (.handle commits) = flushOutcome c commits s := by
  simp [commitOutcome, hpc, hin, hv]

theorem commitOutcome_refused (hpc : s.pc = .draining) (hin : s.inbox = block :: rest)
    (hv : (s.verdict c block).isRefusal = true) :
    commitOutcome c s (.handle commits) = flushOutcome c commits s := by
  cases hverdict : s.verdict c block <;> simp_all [commitOutcome, TipAction.isRefusal]

theorem commitOutcome_endChunk {readable : Bool} (hpc : s.pc = .draining) (hin : s.inbox = []) :
    commitOutcome c s (.endChunk commits readable) = flushOutcome c commits s := by
  simp [commitOutcome, hpc, hin]

theorem commitOutcome_closed (hpc : s.pc = .receiving) :
    commitOutcome c s (.channelClosed commits) = flushOutcome c commits s := by
  simp [commitOutcome, hpc]

end

inductive Flushed (c : ChainConfig) (commits : Bool) (s : IndexState) : Bool → IndexState → Prop
  | empty (hb : s.batch = []) : Flushed c commits s true s
  | stored {db : Database} (hb : s.batch ≠ []) (hc : commits = true)
      (hdb : insertBlocks s.db c.chainId s.batch c.extractor = some db) :
      Flushed c commits s true
        { s with
          db
          batch := []
          broadcast := s.broadcast ++ s.batch.filterMap blockRowFromWire }
  | lost (hb : s.batch ≠ [])
      (hc : commits = false ∨ insertBlocks s.db c.chainId s.batch c.extractor = none) :
      Flushed c commits s false { s with batch := [] }

theorem flushBatch_spec (c : ChainConfig) (commits : Bool) (s : IndexState) :
    Flushed c commits s (flushBatch c commits s).1 (flushBatch c commits s).2 := by
  unfold flushBatch
  by_cases hb : s.batch = []
  · simp only [hb, List.isEmpty_nil, if_true]
    exact .empty hb
  · have hne : s.batch.isEmpty = false := by simpa using hb
    simp only [hne, Bool.false_eq_true, if_false]
    cases commits with
    | false => exact .lost hb (Or.inl rfl)
    | true =>
        cases hdb : insertBlocks s.db c.chainId s.batch c.extractor with
        | none => exact .lost hb (Or.inr hdb)
        | some db => exact .stored hb rfl hdb

namespace Flushed

variable {c : ChainConfig} {commits ok : Bool} {s s' : IndexState}

/-- What a flush leaves alone. -/
theorem frame (h : Flushed c commits s ok s') :
    s'.tip = s.tip ∧ s'.rewoundFrom = s.rewoundFrom ∧ s'.inbox = s.inbox ∧ s'.pc = s.pc ∧
      s'.networkView = s.networkView := by
  cases h <;> exact ⟨rfl, rfl, rfl, rfl, rfl⟩

theorem batch_nil (h : Flushed c commits s ok s') : s'.batch = [] := by
  cases h with
  | empty hb => exact hb
  | stored _ _ _ => rfl
  | lost _ _ => rfl

theorem eq_of_batch_nil (h : Flushed c commits s ok s') (hb : s.batch = []) :
    ok = true ∧ s' = s := by
  cases h with
  | empty _ => exact ⟨rfl, rfl⟩
  | stored hne _ _ => exact absurd hb hne
  | lost hne _ => exact absurd hb hne

theorem outcome (h : Flushed c commits s ok s') :
    flushOutcome c commits s = if s.batch.isEmpty then none else some ok := by
  unfold flushOutcome
  cases h with
  | empty hb => simp [hb]
  | stored _ hc hdb => simp [hc, hdb]
  | lost _ hc =>
      rcases hc with hc | hc
      · simp [hc]
      · simp [hc]

/-- A flush whose commit does not fail. -/
theorem ok_of_outcome (h : Flushed c commits s ok s')
    (hne : flushOutcome c commits s ≠ some false) : ok = true := by
  rw [h.outcome] at hne
  cases h with
  | empty _ => rfl
  | stored _ _ _ => rfl
  | lost hb _ =>
      have hbatch : s.batch.isEmpty = false := by simpa using hb
      simp [hbatch] at hne

theorem lost_outcome (h : Flushed c commits s false s') :
    flushOutcome c commits s = some false := by
  cases h with
  | lost hb hc =>
      have hbatch : s.batch.isEmpty = false := by simpa using hb
      rw [Flushed.outcome (.lost hb hc), hbatch]
      rfl

theorem db_eq (h : Flushed c commits s ok s') (hne : flushOutcome c commits s ≠ some true) :
    s'.db = s.db := by
  cases h with
  | empty _ => rfl
  | stored hb hc hdb =>
      have hbatch : s.batch.isEmpty = false := by simpa using hb
      rw [Flushed.outcome (.stored hb hc hdb), hbatch] at hne
      exact absurd rfl hne
  | lost _ _ => rfl

/-- A flush adds the headers of the batch where nothing is stored yet, or nothing. -/
theorem headerAt_eq (h : Flushed c commits s ok s') :
    (∀ n, headerAt s'.db c.chainId n = headerAt s.db c.chainId n) ∨
      ∀ n, headerAt s'.db c.chainId n = (headerAt s.db c.chainId n).or
        ((s.batch.find? fun b => (b.height : Int) = n).map IndexableBlock.header) := by
  cases h with
  | empty _ => exact Or.inl fun _ => rfl
  | stored _ _ hdb => exact Or.inr (headerAt_insertBlocks hdb)
  | lost _ _ => exact Or.inl fun _ => rfl

theorem covers (h : Flushed c commits s ok s') (hc : CursorCovers s.db c.chainId) :
    CursorCovers s'.db c.chainId := by
  cases h with
  | empty _ => exact hc
  | stored _ _ hdb => exact hc.insertBlocks hdb
  | lost _ _ => exact hc

/-- A height stored after a flush was stored before it or is in the batch. -/
theorem stored_or_pending (h : Flushed c commits s ok s') {n : Int}
    (hn : headerAt s'.db c.chainId n ≠ none) :
    headerAt s.db c.chainId n ≠ none ∨ ∃ b ∈ s.batch, (b.height : Int) = n := by
  rcases h.headerAt_eq with hsame | hadd
  · exact Or.inl (hsame n ▸ hn)
  · rw [hadd n] at hn
    by_cases hold : headerAt s.db c.chainId n = none
    · rw [hold, Option.none_or, ne_eq, Option.map_eq_none_iff] at hn
      obtain ⟨b, hb⟩ := Option.ne_none_iff_exists'.mp hn
      exact Or.inr ⟨b, List.mem_of_find?_eq_some hb, by simpa using List.find?_some hb⟩
    · exact Or.inl hold

end Flushed

/-! ## Transitions -/

inductive Transition (c : ChainConfig) : IndexState → IndexAction → IndexState → Prop
  | publish {s : IndexState} (view : NetworkView) :
      Transition c s (.publish view) { s with networkView := view }
  | received {s : IndexState} {blocks : List IndexableBlock} (hpc : s.pc = .receiving)
      (hne : blocks ≠ []) (hlen : blocks.length ≤ insertBatchBlocks) :
      Transition c s (.recvMany blocks) { s with inbox := blocks, pc := .draining }
  | closed {s s₁ : IndexState} {commits ok : Bool} (hpc : s.pc = .receiving)
      (hf : Flushed c commits s ok s₁) :
      Transition c s (.channelClosed commits) { s₁ with pc := .stopped }
  | stale {s : IndexState} {block : IndexableBlock} {rest : List IndexableBlock}
      {commits : Bool} (hpc : s.pc = .draining) (hin : s.inbox = block :: rest)
      (hv : s.verdict c block = .stale) :
      Transition c s (.handle commits) { s with inbox := rest }
  | accepted {s : IndexState} {block : IndexableBlock} {rest : List IndexableBlock}
      {commits : Bool} (hpc : s.pc = .draining) (hin : s.inbox = block :: rest)
      (hv : (s.verdict c block).isAccepted = true)
      (hroom : s.batch.length + 1 < insertBatchBlocks) :
      Transition c s (.handle commits) ({ s with inbox := rest }.accept block)
  | acceptedFull {s s₁ : IndexState} {block : IndexableBlock} {rest : List IndexableBlock}
      {commits ok : Bool} (hpc : s.pc = .draining) (hin : s.inbox = block :: rest)
      (hv : (s.verdict c block).isAccepted = true)
      (hfull : insertBatchBlocks ≤ s.batch.length + 1)
      (hf : Flushed c commits ({ s with inbox := rest }.accept block) ok s₁) :
      Transition c s (.handle commits) s₁
  | forked {s s₁ : IndexState} {block : IndexableBlock} {rest : List IndexableBlock}
      {commits ok : Bool} {target : Int} (hpc : s.pc = .draining) (hin : s.inbox = block :: rest)
      (hv : s.verdict c block = .fork target)
      (hf : Flushed c commits { s with inbox := rest } ok s₁) :
      Transition c s (.handle commits)
        { s₁ with pc := .rollingBack target (s.rewoundFrom.getD (block.height - 1)) }
  | refused {s s₁ : IndexState} {block : IndexableBlock} {rest : List IndexableBlock}
      {commits ok : Bool} (hpc : s.pc = .draining) (hin : s.inbox = block :: rest)
      (hv : (s.verdict c block).isRefusal = true)
      (hf : Flushed c commits { s with inbox := rest } ok s₁) :
      Transition c s (.handle commits) s₁
  | rollbackFailed {s : IndexState} {target episode : Int}
      (hpc : s.pc = .rollingBack target episode) :
      Transition c s (.rollback .failed) { s with pc := .stopped }
  | lookupFailed {s : IndexState} {target episode : Int}
      (hpc : s.pc = .rollingBack target episode) (hnonneg : 0 ≤ target) :
      Transition c s (.rollback .lookupFailed)
        { s with db := (rollbackTo s.db c.chainId target).1, pc := .stopped }
  | rolledBack {s : IndexState} {target episode : Int}
      (hpc : s.pc = .rollingBack target episode) :
      Transition c s (.rollback .done)
        { s with
          db := (rollbackTo s.db c.chainId target).1
          tip :=
            if target < 0 then none
            else (getBlockHash (rollbackTo s.db c.chainId target).1 c.chainId target).map
              fun hash => { height := target, hash }
          rewoundFrom := some episode
          pc := .sendingRewind (max (target + 1) 0).toNat }
  | rewindSent {s : IndexState} {height : Nat} (hpc : s.pc = .sendingRewind height) :
      Transition c s .rewindSent { s with pc := .draining }
  | chunkDone {s s₁ : IndexState} {commits readable : Bool} (hpc : s.pc = .draining)
      (hin : s.inbox = []) (hf : Flushed c commits s true s₁) :
      Transition c s (.endChunk commits readable) { s₁ with pc := .receiving }
  | chunkLost {s s₁ : IndexState} {commits readable : Bool} (hpc : s.pc = .draining)
      (hin : s.inbox = []) (hf : Flushed c commits s false s₁) :
      Transition c s (.endChunk commits readable)
        { s₁ with
          tip := if readable then durableTip s₁.db c.chainId else none
          pc := .receiving }

variable {c : ChainConfig} {s s' : IndexState} {a : IndexAction}

theorem handleBlock_transition {block : IndexableBlock} {rest : List IndexableBlock}
    {commits : Bool} (hpc : s.pc = .draining) (hin : s.inbox = block :: rest) :
    Transition c s (.handle commits) (handleBlock c commits { s with inbox := rest } block) := by
  have hflush := flushBatch_spec c commits { s with inbox := rest }
  have hsame : IndexState.verdict c { s with inbox := rest } block = s.verdict c block := rfl
  have haccept : (s.verdict c block).isAccepted = true →
      Transition c s (.handle commits)
        (if ({ s with inbox := rest }.accept block).batch.length ≥ insertBatchBlocks then
          (flushBatch c commits ({ s with inbox := rest }.accept block)).2
        else { s with inbox := rest }.accept block) := by
    intro hv
    have hlen : ({ s with inbox := rest }.accept block).batch.length = s.batch.length + 1 := by
      simp [IndexState.accept]
    split
    · next hfull => exact .acceptedFull hpc hin hv (hlen ▸ hfull) (flushBatch_spec _ _ _)
    · next hroom => exact .accepted hpc hin hv (by omega)
  unfold handleBlock
  rw [hsame]
  cases hv : s.verdict c block with
  | extend => exact haccept (by rw [hv]; rfl)
  | gap => exact haccept (by rw [hv]; rfl)
  | stale => exact .stale hpc hin hv
  | fork target => exact .forked hpc hin hv hflush
  | forkBelowFinalized _ _ => exact .refused hpc hin (by rw [hv]; rfl) hflush
  | forkTooDeep _ _ => exact .refused hpc hin (by rw [hv]; rfl) hflush

theorem rollbackStep_transition {target episode : Int} {reply : RollbackReply}
    (hpc : s.pc = .rollingBack target episode)
    (h : rollbackStep c s target episode reply = some s') :
    Transition c s (.rollback reply) s' := by
  unfold rollbackStep at h
  cases reply with
  | failed =>
      cases h
      exact .rollbackFailed hpc
  | lookupFailed =>
      dsimp only at h
      split at h
      · cases h
      · cases h
        exact .lookupFailed hpc (by omega)
  | done =>
      cases h
      exact .rolledBack hpc

theorem transition_of_step (h : indexStep c s a = some s') : Transition c s a s' := by
  unfold indexStep at h
  split at h
  · cases h
    exact .publish _
  · next blocks hpc =>
      split at h
      · cases h
      · next hsize =>
          simp only [Bool.or_eq_true, List.isEmpty_iff, decide_eq_true_eq, not_or] at hsize
          cases h
          exact .received hpc hsize.1 (by omega)
  · next hpc =>
      cases h
      exact .closed hpc (flushBatch_spec _ _ _)
  · next hpc hin =>
      cases h
      exact handleBlock_transition hpc hin
  · next hpc => exact rollbackStep_transition hpc h
  · next hpc =>
      cases h
      exact .rewindSent hpc
  · next commits readable hpc hin =>
      have hf := flushBatch_spec c commits s
      split at h
      · next hres =>
          rw [hres] at hf
          cases h
          exact .chunkDone hpc hin hf
      · next hres =>
          rw [hres] at hf
          cases h
          exact .chunkLost hpc hin hf
  · cases h

theorem handled_of_step {commits : Bool} (h : indexStep c s (.handle commits) = some s') :
    ∃ block rest, s.pc = .draining ∧ s.inbox = block :: rest := by
  cases transition_of_step h with
  | stale hpc hin _ => exact ⟨_, _, hpc, hin⟩
  | accepted hpc hin _ _ => exact ⟨_, _, hpc, hin⟩
  | acceptedFull hpc hin _ _ _ => exact ⟨_, _, hpc, hin⟩
  | forked hpc hin _ _ => exact ⟨_, _, hpc, hin⟩
  | refused hpc hin _ _ => exact ⟨_, _, hpc, hin⟩

theorem stopped_of_transition (h : Transition c s a s') (hpc : s.pc = .stopped) :
    s'.pc = .stopped := by
  cases h with
  | publish _ => exact hpc
  | received hrun _ _ => cases hpc.symm.trans hrun
  | closed _ _ => rfl
  | stale hrun _ _ => cases hpc.symm.trans hrun
  | accepted hrun _ _ _ => cases hpc.symm.trans hrun
  | acceptedFull hrun _ _ _ _ => cases hpc.symm.trans hrun
  | forked hrun _ _ _ => cases hpc.symm.trans hrun
  | refused hrun _ _ _ => cases hpc.symm.trans hrun
  | rollbackFailed _ => rfl
  | lookupFailed _ _ => rfl
  | rolledBack hrun => cases hpc.symm.trans hrun
  | rewindSent hrun => cases hpc.symm.trans hrun
  | chunkDone hrun _ _ => cases hpc.symm.trans hrun
  | chunkLost hrun _ _ => cases hpc.symm.trans hrun

/-- The three ways a step leaves the database. -/
theorem db_of_transition (h : Transition c s a s') :
    s'.db = s.db ∨
    (∃ blocks, blocks ≠ [] ∧ insertBlocks s.db c.chainId blocks c.extractor = some s'.db) ∨
    ∃ target episode reply, a = .rollback reply ∧ reply ≠ .failed ∧
      s.pc = .rollingBack target episode ∧ s'.db = (rollbackTo s.db c.chainId target).1 := by
  have hflush : ∀ {s₀ s₁ : IndexState} {commits ok : Bool}, Flushed c commits s₀ ok s₁ →
      s₁.db = s₀.db ∨
        ∃ blocks, blocks ≠ [] ∧ insertBlocks s₀.db c.chainId blocks c.extractor = some s₁.db := by
    intro s₀ s₁ commits ok hf
    cases hf with
    | empty _ => exact Or.inl rfl
    | stored hb _ hdb => exact Or.inr ⟨_, hb, hdb⟩
    | lost _ _ => exact Or.inl rfl
  cases h with
  | publish _ => exact Or.inl rfl
  | received _ _ _ => exact Or.inl rfl
  | closed _ hf => exact (hflush hf).imp_right Or.inl
  | stale _ _ _ => exact Or.inl rfl
  | accepted _ _ _ _ => exact Or.inl rfl
  | acceptedFull _ _ _ _ hf => exact (hflush hf).imp_right Or.inl
  | forked _ _ _ hf => exact (hflush hf).imp_right Or.inl
  | refused _ _ _ hf => exact (hflush hf).imp_right Or.inl
  | rollbackFailed _ => exact Or.inl rfl
  | lookupFailed hpc _ => exact Or.inr (Or.inr ⟨_, _, _, rfl, by simp, hpc, rfl⟩)
  | rolledBack hpc => exact Or.inr (Or.inr ⟨_, _, _, rfl, by simp, hpc, rfl⟩)
  | rewindSent _ => exact Or.inl rfl
  | chunkDone _ _ hf => exact (hflush hf).imp_right Or.inl
  | chunkLost _ _ hf => exact (hflush hf).imp_right Or.inl

/-- Without a successful commit and without a rollback the database stays. -/
theorem db_eq_of_transition (h : Transition c s a s') (hne : commitOutcome c s a ≠ some true)
    (hroll : ∀ target episode, s.pc ≠ .rollingBack target episode) : s'.db = s.db := by
  cases h with
  | publish _ => rfl
  | received _ _ _ => rfl
  | closed hpc hf =>
      rw [commitOutcome_closed hpc] at hne
      exact hf.db_eq hne
  | stale _ _ _ => rfl
  | accepted _ _ _ _ => rfl
  | acceptedFull hpc hin hv hfull hf =>
      rw [commitOutcome_full hpc hin hv hfull] at hne
      exact hf.db_eq hne
  | forked hpc hin hv hf =>
      rw [commitOutcome_fork hpc hin hv] at hne
      exact hf.db_eq hne
  | refused hpc hin hv hf =>
      rw [commitOutcome_refused hpc hin hv] at hne
      exact hf.db_eq hne
  | rollbackFailed _ => rfl
  | lookupFailed hpc _ => exact absurd hpc (hroll _ _)
  | rolledBack hpc => exact absurd hpc (hroll _ _)
  | rewindSent _ => rfl
  | chunkDone hpc hin hf =>
      rw [commitOutcome_endChunk hpc hin] at hne
      exact hf.db_eq hne
  | chunkLost hpc hin hf =>
      rw [commitOutcome_endChunk hpc hin] at hne
      exact hf.db_eq hne

/-- Only a rollback removes a block, and only above its target. -/
theorem rollingBack_of_removed (h : Transition c s a s') {n : Int}
    (hn : headerAt s.db c.chainId n ≠ none) (hn' : headerAt s'.db c.chainId n = none) :
    ∃ target episode, s.pc = .rollingBack target episode ∧ target < n := by
  rcases db_of_transition h with hsame | ⟨blocks, _, hdb⟩ | ⟨target, episode, _, _, _, hpc, hdb⟩
  · rw [hsame] at hn'
    exact absurd hn' hn
  · rw [headerAt_insertBlocks hdb] at hn'
    exact absurd (Option.or_eq_none_iff.mp hn').1 hn
  · rw [hdb] at hn'
    exact ⟨target, episode, hpc, lt_of_removed hn hn'⟩

end Retracer
