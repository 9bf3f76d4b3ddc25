import Retracer.Indexing.Transition

/-! # The tip between chunks

The tip runs ahead of the database while a batch fills up. What ties the two
together is that committing the batch would make the last accepted block the block
at the cursor, and that a flush that fails is noticed.
-/

namespace Retracer

open Execution

/-- Only replies in which the reads of `durable_tip` succeed. -/
def ReadsSucceed (_ : IndexState) (a : IndexAction) (_ : IndexState) : Prop :=
  match a with
  | .endChunk _ readable => readable = true
  | _ => True

instance (s : IndexState) (a : IndexAction) (s' : IndexState) :
    Decidable (ReadsSucceed s a s') := by
  unfold ReadsSucceed
  split <;> infer_instance

section

variable [Postgres]

/-- The two flushes inside a chunk whose result is dropped without a rollback succeed,
and a block accepted without a tip is not below the cursor. -/
def SettledInChunk (c : ChainConfig) (s : IndexState) (a : IndexAction) (_ : IndexState) : Prop :=
  match a, s.inbox with
  | .handle commits, block :: _ =>
      ((s.verdict c block).isRefusal = true → flushOutcome c commits s ≠ some false) ∧
      ((s.verdict c block).isAccepted = true →
        (insertBatchBlocks ≤ s.batch.length + 1 →
          flushOutcome c commits (s.accept block) ≠ some false) ∧
        (s.tip = none → ∀ last ∈ getCursor s.db c.chainId, last ≤ block.height))
  | _, _ => True

instance (c : ChainConfig) (s : IndexState) (a : IndexAction) (s' : IndexState) :
    Decidable (SettledInChunk c s a s') := by
  unfold SettledInChunk
  split <;> infer_instance

end

/-- Committing the batch makes `tip` the block at the cursor. -/
structure PendingTip (c : ChainConfig) (s : IndexState) (tip : Tip) : Prop where
  cursor : ∀ last, getCursor s.db c.chainId = some last → last ≤ tip.height
  free : headerAt s.db c.chainId tip.height = none
  mem : ∃ b ∈ s.batch, (b.height : Int) = tip.height
  top : ∀ b ∈ s.batch, (b.height : Int) ≤ tip.height ∧
    ((b.height : Int) = tip.height → b.hash = tip.hash)

structure TipKept (c : ChainConfig) (s : IndexState) : Prop where
  covers : CursorCovers s.db c.chainId
  settled : s.batch = [] → (∀ target episode, s.pc ≠ .rollingBack target episode) →
    s.pc ≠ .stopped → s.tip = durableTip s.db c.chainId
  pending : s.batch ≠ [] → ∃ tip, s.tip = some tip ∧ PendingTip c s tip
  quiet : s.pc = .receiving ∨ (∃ target episode, s.pc = .rollingBack target episode) →
    s.batch = []

section

variable {c : ChainConfig}

variable [Postgres]

theorem durableTip_of_stored {s : IndexState} {tip : Tip} {db : Database}
    (h : PendingTip c s tip)
    (hdb : insertBlocks s.db c.chainId s.batch c.extractor = some db) :
    durableTip db c.chainId = some tip := by
  obtain ⟨b, hb, hheight⟩ := h.mem
  rw [durableTip_eq_some_iff]
  constructor
  · obtain ⟨last, hlast, hold, hall, hattained⟩ :=
      raiseCursor_foldl_spec (getCursor s.db c.chainId) (List.ne_nil_of_mem hb)
    have hle : tip.height ≤ last := hheight ▸ hall b hb
    have hge : last ≤ tip.height := by
      rcases hattained with hself | ⟨b', hb', hlast'⟩
      · exact h.cursor last hself
      · exact hlast' ▸ (h.top b' hb').1
    rw [getCursor_insertBlocks hdb, hlast, le_antisymm hge hle]
  · rw [headerAt_insertBlocks hdb, h.free, Option.none_or]
    cases hfind : s.batch.find? fun b => (b.height : Int) = tip.height with
    | none =>
        have := List.find?_eq_none.mp hfind b hb
        simp [hheight] at this
    | some b' =>
        have hat : (b'.height : Int) = tip.height := by simpa using List.find?_some hfind
        have hhash := (h.top b' (List.mem_of_find?_eq_some hfind)).2 hat
        simp [IndexableBlock.header, hhash]

/-- A flush that succeeds settles the tip. -/
theorem tipKept_of_flushed {s s₁ s' : IndexState} {commits : Bool}
    (h : TipKept c s) (hf : Flushed c commits s true s₁)
    (hpc : ∀ target episode, s.pc ≠ .rollingBack target episode) (hpc' : s.pc ≠ .stopped)
    (hdb : s'.db = s₁.db) (hbatch : s'.batch = []) (htip : s'.tip = s₁.tip) :
    TipKept c s' := by
  have hcovers : CursorCovers s₁.db c.chainId := by
    cases hf with
    | empty _ => exact h.covers
    | stored _ _ hdb' => exact h.covers.insertBlocks hdb'
  refine ⟨hdb ▸ hcovers, fun _ _ _ => ?_, fun hne => absurd hbatch hne, fun _ => hbatch⟩
  rw [htip, hdb]
  cases hf with
  | empty hb => exact h.settled hb hpc hpc'
  | stored hne _ hdb' =>
      obtain ⟨tip, htip', hpending⟩ := h.pending hne
      exact htip'.trans (durableTip_of_stored hpending hdb').symm

omit [Postgres] in
theorem TipKept.inbox {s : IndexState} (h : TipKept c s) (rest : List IndexableBlock) :
    TipKept c { s with inbox := rest } :=
  ⟨h.covers, h.settled, fun hne =>
    let ⟨tip, htip, hp⟩ := h.pending hne
    ⟨tip, htip, ⟨hp.cursor, hp.free, hp.mem, hp.top⟩⟩, h.quiet⟩

omit [Postgres] in
/-- The new block is above everything stored and everything pending. -/
theorem tipKept_accept {s : IndexState} {block : IndexableBlock} (h : TipKept c s)
    (hpc : s.pc = .draining) (hv : (s.verdict c block).isAccepted = true)
    (hfloor : s.tip = none → ∀ last, getCursor s.db c.chainId = some last → last ≤ block.height) :
    TipKept c (s.accept block) := by
  have hsettled : s.batch = [] → s.tip = durableTip s.db c.chainId := fun hb =>
    h.settled hb (by simp [hpc]) (by simp [hpc])
  have hbelow : ∀ tip, s.tip = some tip → tip.height < block.height := by
    intro tip htip
    rcases tip_of_accepted hv with hnone | ⟨tip', hsome, hnext⟩
    · cases hnone.symm.trans htip
    · cases hsome.symm.trans htip
      rcases hnext with ⟨hnext, _⟩ | ⟨_, hbeyond⟩ <;> omega
  -- against a known tip the cursor is even strictly below
  have hstrict : ∀ tip last, s.tip = some tip → getCursor s.db c.chainId = some last →
      last ≤ tip.height := by
    intro tip last htip hlast
    by_cases hb : s.batch = []
    · have hdurable := durableTip_eq_some_iff.mp ((hsettled hb).symm.trans htip)
      cases hlast.symm.trans hdurable.1
      exact Int.le_refl _
    · obtain ⟨tip', htip', hpending⟩ := h.pending hb
      cases htip.symm.trans htip'
      exact hpending.cursor last hlast
  have hcursor : ∀ last, getCursor s.db c.chainId = some last → last ≤ block.height := by
    intro last hlast
    cases htip : s.tip with
    | none => exact hfloor htip last hlast
    | some tip => exact ((hstrict tip last htip hlast).trans_lt (hbelow tip htip)).le
  refine ⟨h.covers, fun hnil => absurd hnil (by simp [IndexState.accept]), fun _ =>
    ⟨_, rfl, hcursor, ?_, ⟨block, by simp [IndexState.accept], rfl⟩, ?_⟩,
    fun hq => absurd hq (by simp [IndexState.accept, hpc])⟩
  · by_contra hstored
    obtain ⟨_, last, hlast, hle⟩ := h.covers _ hstored
    cases htip : s.tip with
    | some tip =>
        have := hstrict tip last htip hlast
        have := hbelow tip htip
        simp only at hle
        omega
    | none =>
        have hb : s.batch = [] := by
          by_contra hne
          obtain ⟨tip, htip', _⟩ := h.pending hne
          cases htip.symm.trans htip'
        have hat : last = block.height := le_antisymm (hcursor last hlast) hle
        obtain ⟨header, hheader⟩ := Option.ne_none_iff_exists'.mp hstored
        have hfound : headerAt s.db c.chainId last = some header := hat ▸ hheader
        have hdurable : durableTip s.db c.chainId = some ⟨last, header.hash⟩ :=
          durableTip_eq_some_iff.mpr ⟨hlast, by simp [hfound]⟩
        cases htip.symm.trans ((hsettled hb).trans hdurable)
  · intro b hb
    simp only [IndexState.accept, List.mem_append, List.mem_singleton] at hb
    rcases hb with hold | rfl
    · obtain ⟨tip, htip, hpending⟩ := h.pending (List.ne_nil_of_mem hold)
      have hlt : (b.height : Int) < block.height :=
        (hpending.top b hold).1.trans_lt (hbelow tip htip)
      exact ⟨hlt.le, fun heq => absurd heq hlt.ne⟩
    · exact ⟨Int.le_refl _, fun _ => rfl⟩

theorem tipKept_step {s s' : IndexState} {a : IndexAction} (h : TipKept c s)
    (hs : indexStep c s a = some s') (hC : ReadsSucceed s a s' ∧ SettledInChunk c s a s') :
    TipKept c s' := by
  have hclass : ∀ {block rest commits}, a = .handle commits → s.inbox = block :: rest →
      ((s.verdict c block).isRefusal = true → flushOutcome c commits s ≠ some false) ∧
      ((s.verdict c block).isAccepted = true →
        (insertBatchBlocks ≤ s.batch.length + 1 →
          flushOutcome c commits (s.accept block) ≠ some false) ∧
        (s.tip = none → ∀ last ∈ getCursor s.db c.chainId, last ≤ block.height)) := by
    intro block rest commits ha hin
    subst ha
    simpa only [SettledInChunk, hin] using hC.2
  cases transition_of_step hs with
  | publish _ => exact ⟨h.covers, h.settled, fun hne =>
      let ⟨tip, htip, hp⟩ := h.pending hne
      ⟨tip, htip, ⟨hp.cursor, hp.free, hp.mem, hp.top⟩⟩, h.quiet⟩
  | received hpc _ _ =>
      have hb := h.quiet (Or.inl hpc)
      exact ⟨h.covers, fun _ _ _ => h.settled hb (by simp [hpc]) (by simp [hpc]),
        fun hne => absurd hb hne, fun _ => hb⟩
  | closed hpc hf =>
      have hb := h.quiet (Or.inl hpc)
      obtain ⟨_, rfl⟩ := hf.eq_of_batch_nil hb
      exact ⟨h.covers, fun _ _ hrun => absurd rfl hrun, fun hne => absurd hb hne, fun _ => hb⟩
  | stale _ _ _ => exact h.inbox _
  | @accepted block rest _ hpc hin hv _ =>
      exact tipKept_accept (h.inbox rest) hpc hv ((hclass rfl hin).2 hv).2
  | @acceptedFull _ block rest _ _ hpc hin hv hfull hf =>
      have haccepted : TipKept c ({ s with inbox := rest }.accept block) :=
        tipKept_accept (h.inbox rest) hpc hv ((hclass rfl hin).2 hv).2
      obtain rfl := hf.ok_of_outcome (((hclass rfl hin).2 hv).1 hfull)
      exact tipKept_of_flushed haccepted hf (by simp [IndexState.accept, hpc])
        (by simp [IndexState.accept, hpc]) rfl hf.batch_nil rfl
  | @forked _ _ rest _ _ _ _ _ _ hf =>
      exact ⟨hf.covers h.covers, fun _ hroll => absurd rfl (hroll _ _),
        fun hne => absurd hf.batch_nil hne, fun _ => hf.batch_nil⟩
  | @refused _ _ rest _ _ hpc hin hv hf =>
      obtain rfl := hf.ok_of_outcome ((hclass rfl hin).1 hv)
      exact tipKept_of_flushed (h.inbox rest) hf (by simp [hpc]) (by simp [hpc]) rfl
        hf.batch_nil rfl
  | rollbackFailed hpc =>
      have hb := h.quiet (Or.inr ⟨_, _, hpc⟩)
      exact ⟨h.covers, fun _ _ hrun => absurd rfl hrun, fun hne => absurd hb hne, fun _ => hb⟩
  | lookupFailed hpc _ =>
      have hb := h.quiet (Or.inr ⟨_, _, hpc⟩)
      exact ⟨h.covers.rollbackTo _, fun _ _ hrun => absurd rfl hrun, fun hne => absurd hb hne,
        fun _ => hb⟩
  | rolledBack hpc =>
      have hb := h.quiet (Or.inr ⟨_, _, hpc⟩)
      exact ⟨h.covers.rollbackTo _, fun _ _ _ => durableTip_rollbackTo _ _ _,
        fun hne => absurd hb hne, fun _ => hb⟩
  | rewindSent hpc =>
      exact ⟨h.covers, fun hb _ _ => h.settled hb (by simp [hpc]) (by simp [hpc]), fun hne =>
        let ⟨tip, htip, hp⟩ := h.pending hne
        ⟨tip, htip, ⟨hp.cursor, hp.free, hp.mem, hp.top⟩⟩, fun hq => absurd hq (by simp)⟩
  | chunkDone hpc _ hf =>
      exact tipKept_of_flushed h hf (by simp [hpc]) (by simp [hpc]) rfl hf.batch_nil rfl
  | chunkLost hpc _ hf =>
      have hread : _ = true := hC.1
      exact ⟨hf.covers h.covers, fun _ _ _ => by simp [hread],
        fun hne => absurd hf.batch_nil hne, fun _ => hf.batch_nil⟩

/-- Every time the loop is back at `recv_many` its tip is the durable one. -/
theorem tip_is_durable_between_chunks {db : Database} {as : List IndexAction} {t : IndexState}
    (hcovers : CursorCovers db c.chainId)
    (hreads : Always (indexStep c) ReadsSucceed (.start c db) as)
    (hsettled : Always (indexStep c) (SettledInChunk c) (.start c db) as)
    (hrun : exec (indexStep c) (.start c db) as = some t) (hpc : t.pc = .receiving) :
    t.batch = [] ∧ t.tip = durableTip t.db c.chainId := by
  have h0 : TipKept c (IndexState.start c db) :=
    ⟨hcovers, fun _ _ _ => start_tip db, fun hne => absurd rfl hne, fun _ => rfl⟩
  have hsteps := hreads.and hsettled
  have hend : TipKept c t :=
    always_invariant (fun _ _ _ h hs hC => tipKept_step h hs hC) h0 hsteps hrun
  have hb := hend.quiet (Or.inl hpc)
  exact ⟨hb, hend.settled hb (by simp [hpc]) (by simp [hpc])⟩

end

section

open IndexableBlock

/-- Two blocks accepted in one chunk and a third refused at finality depth 0; the flush
in the refusal arm gets `commits`. -/
def refusedInChunk (commits : Bool) : List IndexAction :=
  [.recvMany [bare 0 "a0" "", bare 1 "a1" "a0", bare 2 "b2" "b1"],
    .handle true, .handle true, .handle commits, .endChunk true true]

theorem tip_is_durable_after_refusal :
    ∃ t : IndexState, bareRun 0 (refusedInChunk true) = some t ∧
      t.batch = [] ∧ t.tip = durableTip t.db "chain" := by
  refine ⟨(bareRun 0 (refusedInChunk true)).get (by decide), (Option.some_get _).symm, ?_⟩
  exact @tip_is_durable_between_chunks (.bare 0) .plain .empty (refusedInChunk true) _
    (cursorCovers_empty _) (by decide) (by decide) (Option.some_get _).symm (by decide)

/-- The batch is empty when the chunk ends, so nothing notices that it was lost. -/
theorem tip_on_unwritten_height :
    Always (bareStep 0) ReadsSucceed (.start (.bare 0) .empty) (refusedInChunk false) ∧
    (bareRun 0 (refusedInChunk false)).map (fun t =>
      (t.pc, t.batch.length, t.tip, durableTip t.db "chain")) =
        some (.receiving, 0, some ⟨1, "a1"⟩, none) := by
  decide

end

end Retracer
