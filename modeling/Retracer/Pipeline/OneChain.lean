import Retracer.Pipeline.Following

/-! # A node with one chain

While the node serves a single chain no block is ever taken for a fork, whatever was
lost in between, and without a loss the line is an initial piece of that chain.
-/

namespace Retracer

open Execution

/-! ## The loop -/

section

variable {c : ChainConfig} {chain : NodeChain} {s s' : IndexState} {block : IndexableBlock}

theorem NodeChain.getElem?_of_mem {core : Core} (h : core ∈ chain.cores) :
    chain.cores[core.1]? = some core := by
  obtain ⟨i, hlt, hat⟩ := List.mem_iff_getElem.mp h
  have hheight : chain.cores[i].1 = i := chain.indexed i hlt
  rw [hat] at hheight
  rw [hheight, List.getElem?_eq_getElem hlt, hat]

theorem NodeChain.fits {lower upper : Core} (hl : lower ∈ chain.cores)
    (hu : upper ∈ chain.cores) (hnext : upper.1 = lower.1 + 1) :
    hashesMatch upper.2.parentHash lower.2.hash :=
  chain.joined.fits (NodeChain.getElem?_of_mem hl) (hnext ▸ NodeChain.getElem?_of_mem hu)

/-- The loop has never seen a block of another chain. -/
structure OnChain (c : ChainConfig) (chain : NodeChain) (s : IndexState) : Prop where
  stored : ∀ n header, headerAt s.db c.chainId n = some header →
    ∃ core ∈ chain.cores, (core.1 : Int) = n ∧ core.2 = header
  tip : ∀ tip, s.tip = some tip →
    ∃ core ∈ chain.cores, (core.1 : Int) = tip.height ∧ core.2.hash = tip.hash
  batch : ∀ b ∈ s.batch, b.core ∈ chain.cores
  inbox : ∀ b ∈ s.inbox, b.core ∈ chain.cores
  running : s.pc = .receiving ∨ s.pc = .draining ∨ s.pc = .stopped

theorem OnChain.not_rolling (h : OnChain c chain s) (target episode : Int) :
    s.pc ≠ .rollingBack target episode := by
  rcases h.running with hpc | hpc | hpc <;> simp [hpc]

/-- No block of the chain is taken for a fork. -/
theorem OnChain.verdict (h : OnChain c chain s) (hblock : block.core ∈ chain.cores) :
    s.verdict c block = .stale ∨ (s.verdict c block).isAccepted = true := by
  unfold IndexState.verdict
  cases htip : s.tip with
  | none => exact Or.inr rfl
  | some tip =>
      obtain ⟨core, hcore, hheight, hhash⟩ := h.tip tip htip
      rcases classify_cases tip block.height block.parentHash s.rewoundFrom c.finalityDepth
        s.finalized with ⟨_, ha⟩ | ⟨_, ha⟩ | ⟨_, _, ha⟩ | ⟨hnext, hmis, _⟩
      · exact Or.inl ha
      · exact Or.inr (by rw [ha]; rfl)
      · exact Or.inr (by rw [ha]; rfl)
      · have hsucc : block.core.1 = core.1 + 1 := by
          show block.height = core.1 + 1
          omega
        exact absurd (hhash ▸ NodeChain.fits hcore hblock hsucc) hmis

theorem OnChain.accept (h : OnChain c chain s) (hblock : block.core ∈ chain.cores) :
    OnChain c chain (s.accept block) := by
  refine ⟨h.stored, ?_, ?_, h.inbox, h.running⟩
  · intro tip htip
    cases htip
    exact ⟨block.core, hblock, rfl, rfl⟩
  · intro b hb
    rcases List.mem_append.mp hb with hold | hnew
    · exact h.batch b hold
    · rw [List.mem_singleton.mp hnew]
      exact hblock

theorem OnChain.durable (h : OnChain c chain s) {tip : Tip}
    (htip : durableTip s.db c.chainId = some tip) :
    ∃ core ∈ chain.cores, (core.1 : Int) = tip.height ∧ core.2.hash = tip.hash := by
  obtain ⟨_, hhash⟩ := durableTip_eq_some_iff.mp htip
  obtain ⟨header, hheader, hhash⟩ := Option.map_eq_some_iff.mp hhash
  obtain ⟨core, hcore, hheight, rfl⟩ := h.stored _ _ hheader
  exact ⟨core, hcore, hheight, hhash⟩

theorem OnChain.drop (h : OnChain c chain s) {rest : List IndexableBlock}
    (hin : s.inbox = block :: rest) :
    block.core ∈ chain.cores ∧ OnChain c chain { s with inbox := rest } := by
  have hall := h.inbox
  rw [hin] at hall
  exact ⟨hall block List.mem_cons_self,
    h.stored, h.tip, h.batch, fun b hb => hall b (List.mem_cons_of_mem _ hb), h.running⟩

variable [Postgres]

theorem OnChain.flushed {s₁ : IndexState} {commits ok : Bool} (h : OnChain c chain s)
    (hf : Flushed c commits s ok s₁) : OnChain c chain s₁ := by
  obtain ⟨htip, _, hinbox, hpc, _⟩ := hf.frame
  refine ⟨?_, htip ▸ h.tip, ?_, hinbox ▸ h.inbox, hpc ▸ h.running⟩
  · intro n header hheader
    rcases hf.headerAt_eq with hsame | hadd
    · exact h.stored n header (hsame n ▸ hheader)
    · rw [hadd, Option.or_eq_some_iff, Option.map_eq_some_iff] at hheader
      rcases hheader with hold | ⟨_, b, hb, rfl⟩
      · exact h.stored n header hold
      · have hheight : (b.height : Int) = n := by simpa using List.find?_some hb
        exact ⟨b.core, h.batch b (List.mem_of_find?_eq_some hb), hheight, rfl⟩
  · rw [hf.batch_nil]
    exact fun b hb => nomatch hb

theorem OnChain.step {a : IndexAction} (h : OnChain c chain s) (hs : Transition c s a s')
    (hrecv : ∀ blocks, a = .recvMany blocks → ∀ b ∈ blocks, b.core ∈ chain.cores) :
    OnChain c chain s' := by
  have hstill := h.running
  cases hs with
  | publish _ => exact ⟨h.stored, h.tip, h.batch, h.inbox, h.running⟩
  | received _ _ _ => exact ⟨h.stored, h.tip, h.batch, hrecv _ rfl, Or.inr (Or.inl rfl)⟩
  | closed _ hf =>
      have hflushed := h.flushed hf
      exact ⟨hflushed.stored, hflushed.tip, hflushed.batch, hflushed.inbox, Or.inr (Or.inr rfl)⟩
  | stale _ hin _ => exact (h.drop hin).2
  | accepted _ hin _ _ => exact (h.drop hin).2.accept (h.drop hin).1
  | acceptedFull _ hin _ _ hf => exact ((h.drop hin).2.accept (h.drop hin).1).flushed hf
  | forked _ hin hv _ =>
      rcases h.verdict (h.drop hin).1 with hstale | hacc
      · cases hv.symm.trans hstale
      · rw [hv] at hacc
        cases hacc
  | refused _ hin _ hf => exact (h.drop hin).2.flushed hf
  | rollbackFailed hpc => simp [hpc] at hstill
  | lookupFailed hpc _ => simp [hpc] at hstill
  | rolledBack hpc => simp [hpc] at hstill
  | rewindSent hpc => simp [hpc] at hstill
  | chunkDone _ _ hf =>
      have hflushed := h.flushed hf
      exact ⟨hflushed.stored, hflushed.tip, hflushed.batch, hflushed.inbox, Or.inl rfl⟩
  | @chunkLost s₁ _ readable _ _ hf =>
      have hflushed := h.flushed hf
      refine ⟨hflushed.stored, ?_, hflushed.batch, hflushed.inbox, Or.inl rfl⟩
      intro tip htip
      cases readable with
      | false => cases htip
      | true => exact hflushed.durable htip

end

/-! ## Both tasks -/

/-- Neither has the reader. -/
structure ChainServed (c : ChainConfig) (chain : NodeChain) (w : System) : Prop where
  index : OnChain c chain w.index
  channel : ∀ b ∈ w.blockChannel, b.core ∈ chain.cores
  pending : ∀ core ∈ w.reader.pending.map RpcBlock.core, core ∈ chain.cores
  atNext : w.reader.AtNext

section

variable {c : ChainConfig} {chain : NodeChain} {w w' : System} {a : SystemAction}

theorem chainServed_start {db : Database} {L : List Core} (hstores : Stores db c.chainId L)
    (hp : L <+: chain.cores) : ChainServed c chain (.start c db) := by
  have hindexed : Indexed L := Indexed.initial chain.indexed hp
  have hchannel : (System.start c db).blockChannel = [] := rfl
  have hpending : (System.start c db).reader.pending = [] := rfl
  refine ⟨⟨?_, ?_, by simp [System.start, IndexState.start],
    by simp [System.start, IndexState.start], Or.inl rfl⟩, by simp [hchannel],
    by simp [hpending], trivial⟩
  · intro n header hheader
    have hstored : headerAt db c.chainId n = some header := hheader
    rw [hstores.header] at hstored
    split at hstored
    · cases hstored
    · obtain ⟨core, hcore, rfl⟩ := Option.map_eq_some_iff.mp hstored
      refine ⟨core, hp.subset (List.mem_of_getElem? hcore), ?_, rfl⟩
      rw [hindexed.getElem? hcore]
      omega
  · intro tip htip
    have hlast : tipOf L = some tip := (stores_start hstores hindexed).symm.trans htip
    obtain ⟨core, hcore, rfl⟩ := Option.map_eq_some_iff.mp hlast
    exact ⟨core, hp.subset (List.mem_of_getLast? hcore), rfl, rfl⟩

/-- What the reader holds after a step, if the node serves the chain. -/
theorem pending_served [SerdeJson] {r r' : Reader RpcBlock} {input : ReaderInput RpcBlock}
    (hm : r.Moved input r') (hold : ∀ core ∈ r.pending.map RpcBlock.core, core ∈ chain.cores)
    (hpage : ∀ page, input = .page page → ∀ b ∈ page, b.core ∈ chain.cores) :
    ∀ core ∈ r'.pending.map RpcBlock.core, core ∈ chain.cores := by
  cases hm with
  | rewound _ hnew _ _ => simp [hnew]
  | paged _ _ hnew =>
      rw [hnew]
      intro core hcore
      obtain ⟨b, hb, rfl⟩ := List.mem_map.mp hcore
      exact hpage _ rfl b hb
  | sent hpc _ hnew =>
      rcases hnew with hrest | ⟨hnil, _⟩
      · intro core hcore
        rw [hrest] at hcore
        exact hold core (by simp only [Reader.pending, hpc, List.map_cons]; exact
          List.mem_cons_of_mem _ hcore)
      · simp [hnil]
  | kept _ _ hnew =>
      rcases hnew with hsame | ⟨hnil, _⟩
      · rwa [hsame]
      · simp [hnil]

variable [Postgres] [SerdeJson]

theorem ChainServed.step (h : ChainServed c chain w) (hstep : systemStep c w a = some w')
    (hserves : Serves chain w a w') : ChainServed c chain w' := by
  have hrecv : ∀ blocks, indexAction w a w' = .recvMany blocks →
      ∀ b ∈ blocks, b.core ∈ chain.cores := by
    intro blocks hblocks b hb
    cases a with
    | recvMany count =>
        cases hblocks
        obtain ⟨sent, hsent, rfl⟩ := List.mem_map.mp hb
        exact h.channel sent (List.mem_of_mem_take hsent)
    | _ => cases hblocks
  have hindex : OnChain c chain w'.index :=
    h.index.step (transition_of_step (indexStep_of_systemStep hstep)) hrecv
  have hread : ∀ {r : Reader RpcBlock} {input : ReaderInput RpcBlock},
      w.reader.step input = some r → (∀ page, input ≠ .page page) →
      (∀ core ∈ r.pending.map RpcBlock.core, core ∈ chain.cores) ∧ r.AtNext := by
    intro r input hr hnot
    obtain ⟨hmoved, hat⟩ := Reader.moved_of_step hr h.atNext
    exact ⟨pending_served hmoved h.pending fun page hpage => absurd hpage (hnot page), hat⟩
  cases move_of_step hstep with
  | @answer input r _ hr =>
      obtain ⟨hmoved, hat⟩ := Reader.moved_of_step hr h.atNext
      refine ⟨hindex, h.channel, pending_served hmoved h.pending ?_, hat⟩
      rintro page rfl b hb
      exact List.mem_of_mem_drop ((hserves page rfl).subset (List.mem_map_of_mem hb))
  | noRewind _ hr =>
      obtain ⟨hpending, hat⟩ := hread hr (by simp)
      exact ⟨hindex, h.channel, hpending, hat⟩
  | takeRewind _ hr =>
      obtain ⟨hpending, hat⟩ := hread hr (by simp)
      exact ⟨hindex, h.channel, hpending, hat⟩
  | rewindsClosed _ _ hr =>
      obtain ⟨hpending, hat⟩ := hread hr (by simp)
      exact ⟨hindex, h.channel, hpending, hat⟩
  | @send r height block effects rest hpc _ _ hr =>
      obtain ⟨hpending, hat⟩ := hread hr (by simp)
      refine ⟨hindex, ?_, hpending, hat⟩
      intro b hb
      rcases List.mem_append.mp hb with hold | hnew
      · exact h.channel b hold
      · rw [List.mem_singleton.mp hnew]
        exact h.pending block.core (by simp [Reader.pending, hpc])
  | sendFailed _ hr =>
      obtain ⟨hpending, hat⟩ := hread hr (by simp)
      exact ⟨hindex, h.channel, hpending, hat⟩
  | recvMany _ _ =>
      exact ⟨hindex, fun b hb => h.channel b (List.mem_of_mem_drop hb), h.pending, h.atNext⟩
  | channelClosed _ _ _ => exact ⟨hindex, h.channel, h.pending, h.atNext⟩
  | handle _ => exact ⟨hindex, h.channel, h.pending, h.atNext⟩
  | rollback _ => exact ⟨hindex, h.channel, h.pending, h.atNext⟩
  | sendRewind _ _ _ _ => exact ⟨hindex, h.channel, h.pending, h.atNext⟩
  | rewindUnheard _ _ => exact ⟨hindex, h.channel, h.pending, h.atNext⟩
  | endChunk _ => exact ⟨hindex, h.channel, h.pending, h.atNext⟩

/-! ## Until a commit fails -/

theorem following_step {L T : List Core} (h : Following c L T w) (hp : T <+: chain.cores)
    (hserved : ChainServed c chain w) (hstep : systemStep c w a = some w')
    (hserves : Serves chain w a w')
    (hkept : commitOutcome c w.index (indexAction w a w') ≠ some false) :
    ∃ L' T', Following c L' T' w' ∧ T' <+: chain.cores := by
  cases followed_of_step h hstep with
  | on h' => exact ⟨_, _, h', hp⟩
  | cut h' hp' _ => exact ⟨_, _, h', hp'.trans hp⟩
  | @paged page ha hnext h' =>
      subst ha
      have hpage : page.map RpcBlock.core <+: chain.cores.drop w.reader.next :=
        hserves page rfl
      have hp' : T ++ page.map RpcBlock.core <+: chain.cores := by
        obtain ⟨rest, hrest⟩ := hp
        rw [hnext, ← hrest, List.drop_left] at hpage
        rw [← hrest]
        exact (List.prefix_append_right_inj T).mpr hpage
      exact ⟨_, _, h' (Indexed.initial chain.indexed hp'), hp'⟩
  | forked h' =>
      exact absurd (Joined.initial chain.joined (h'.initial.trans hp)) h'.not_joined
  | refused _ hin hv =>
      rcases hserved.index.verdict (hserved.index.drop hin).1 with hstale | hacc
      · rw [hstale] at hv
        cases hv
      · cases hverdict : w.index.verdict c _ <;> rw [hverdict] at hv hacc <;> cases hv
        · cases hacc
        · cases hacc
  | lost hlost => exact absurd hlost hkept

end

end Retracer
