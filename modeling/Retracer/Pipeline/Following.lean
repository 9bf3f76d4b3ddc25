import Retracer.Pipeline.Spine

/-! # Following one line of blocks

As long as commits succeed and no fork is seen, everything the reader was ever served
lies in one line: stored, in the batch, in the inbox, in the channel, in the reader's
hands. `Following` says so, and `followed_of_step` lists the ways a step leaves it.
-/

namespace Retracer

/-- What is stored once the batch is committed. -/
def IndexState.spine (L : List Core) (s : IndexState) : List Core :=
  L ++ s.batch.map IndexableBlock.core

/-- Everything that is on its way to the batch. -/
def System.inFlight (w : System) : List Core :=
  w.index.inbox.map IndexableBlock.core ++
    (w.blockChannel.map RpcBlock.core ++ w.reader.pending.map RpcBlock.core)

/-! ## The loop -/

/-- Store, batch and tip belong to one chain. -/
structure OnSpine (c : ChainConfig) (L : List Core) (s : IndexState) : Prop where
  stores : Stores s.db c.chainId L
  joined : Joined (s.spine L)
  tip : s.tip = tipOf (s.spine L)

section

variable {c : ChainConfig} {L : List Core} {s s' : IndexState} {block : IndexableBlock}

theorem OnSpine.congr (h : OnSpine c L s) (hdb : s'.db = s.db) (hbatch : s'.batch = s.batch)
    (htip : s'.tip = s.tip) : OnSpine c L s' := by
  obtain ⟨hstores, hjoined, ht⟩ := h
  refine ⟨hdb ▸ hstores, ?_, ?_⟩
  · unfold IndexState.spine at hjoined ⊢
    rwa [hbatch]
  · unfold IndexState.spine at ht ⊢
    rw [htip, hbatch, ht]

theorem spine_accept : (s.accept block).spine L = s.spine L ++ [block.core] := by
  simp [IndexState.spine, IndexState.accept]

/-- The block at the end of the spine is accepted only if it fits. -/
theorem OnSpine.accept (h : OnSpine c L s) (hi : Indexed (s.spine L ++ [block.core]))
    (hv : (s.verdict c block).isAccepted = true) : OnSpine c L (s.accept block) := by
  have hheight : block.height = (s.spine L).length := hi.of_append
  refine ⟨h.stores, ?_, ?_⟩
  · rw [spine_accept]
    refine h.joined.snoc fun lower hlast => ?_
    have htip : s.tip = some ⟨lower.1, lower.2.hash⟩ := by rw [h.tip, tipOf, hlast]; rfl
    have hlow : lower.1 + 1 = (s.spine L).length := by
      obtain ⟨core, hcore, _, _, hlen⟩ :=
        tipOf_spec (hi.initial (List.prefix_append _ _)) (h.tip ▸ htip)
      cases hlast.symm.trans hcore
      dsimp only at hlen
      omega
    rcases tip_of_accepted hv with hnone | ⟨tip, hsome, ⟨_, hmatch⟩ | ⟨_, hbeyond⟩⟩
    · cases htip.symm.trans hnone
    · cases htip.symm.trans hsome
      exact hmatch
    · cases htip.symm.trans hsome
      dsimp only at hbeyond
      omega
  · rw [spine_accept, tipOf_snoc]
    rfl

/-- The block at the end of the spine is never behind the tip. -/
theorem OnSpine.not_stale (h : OnSpine c L s) (hi : Indexed (s.spine L ++ [block.core])) :
    s.verdict c block ≠ .stale := by
  intro hv
  have hheight : block.height = (s.spine L).length := hi.of_append
  unfold IndexState.verdict at hv
  cases htip : s.tip with
  | none =>
      rw [htip, classify_none] at hv
      cases hv
  | some tip =>
      obtain ⟨_, _, _, _, hlen⟩ :=
        tipOf_spec (hi.initial (List.prefix_append _ _)) (h.tip ▸ htip)
      rw [htip] at hv
      rcases classify_cases tip block.height block.parentHash s.rewoundFrom c.finalityDepth
        s.finalized with ⟨hle, _⟩ | ⟨_, ha⟩ | ⟨_, _, ha⟩ | ⟨_, _, ⟨_, _, _, ha⟩ |
        ⟨_, _, _, _, ha⟩ | ⟨_, _, ha⟩⟩
      case inl => omega
      all_goals cases hv.symm.trans ha

variable [Postgres]

/-- A flush that does not fail moves the whole spine into the store. -/
theorem OnSpine.flushed {s₁ : IndexState} {commits : Bool} (h : OnSpine c L s)
    (hi : Indexed (s.spine L)) (hf : Flushed c commits s true s₁) :
    OnSpine c (s.spine L) s₁ := by
  have hspine : s₁.spine (s.spine L) = s.spine L := by
    simp [IndexState.spine, hf.batch_nil]
  refine ⟨?_, by rw [hspine]; exact h.joined, ?_⟩
  · cases hf with
    | empty hb =>
        have hsame : s.spine L = L := by simp [IndexState.spine, hb]
        rw [hsame]
        exact h.stores
    | stored _ _ hdb => exact h.stores.insertBlocks hi hdb
  · rw [hspine, hf.frame.1, h.tip]

end

/-! ## Both tasks -/

structure Following (c : ChainConfig) (L T : List Core) (w : System) : Prop where
  spine : OnSpine c L w.index
  line : w.index.spine L ++ w.inFlight = T
  indexed : Indexed T
  next : w.reader.next + w.reader.pending.length = T.length
  atNext : w.reader.AtNext
  running : (w.index.pc = .receiving ∧ w.index.inbox = []) ∨ w.index.pc = .draining ∨
    w.index.pc = .stopped
  heard : w.rewindChannel = []

section

variable {c : ChainConfig} {L T : List Core} {w w' : System} {a : SystemAction}

theorem Following.indexed_spine (h : Following c L T w) : Indexed (w.index.spine L) :=
  h.indexed.initial ⟨_, h.line⟩

/-- The first block in the inbox comes right after the spine. -/
theorem Following.indexed_snoc (h : Following c L T w) {block : IndexableBlock}
    {rest : List IndexableBlock} (hin : w.index.inbox = block :: rest) :
    Indexed (w.index.spine L ++ [block.core]) := by
  refine h.indexed.initial ⟨rest.map IndexableBlock.core ++
    (w.blockChannel.map RpcBlock.core ++ w.reader.pending.map RpcBlock.core), ?_⟩
  rw [← h.line, System.inFlight, hin]
  simp

theorem following_start {db : Database} (hstores : Stores db c.chainId L) (hi : Indexed L)
    (hj : Joined L) : Following c L L (.start c db) := by
  have hspine : (System.start c db).index.spine L = L := by
    simp [IndexState.spine, System.start, IndexState.start]
  have hempty : (System.start c db).inFlight = [] := rfl
  refine ⟨⟨hstores, by rw [hspine]; exact hj, ?_⟩, ?_, hi, ?_, trivial, Or.inl ⟨rfl, rfl⟩, rfl⟩
  · rw [hspine]
    exact stores_start hstores hi
  · rw [hspine, hempty, List.append_nil]
  · show ((getCursor db c.chainId).map fun height => height.toNat + 1).getD 0 + 0 = L.length
    rw [hstores.cursor]
    by_cases hnil : L = []
    · simp [hnil]
    · have hpos : 0 < L.length := List.length_pos_of_ne_nil hnil
      rw [if_neg hnil, Option.map_some, Option.getD_some]
      omega

/-- The reader's state and what is in the channel change, the loop only hears of it. -/
theorem Following.withReader (h : Following c L T w) {r : Reader RpcBlock}
    {channel : List RpcBlock} {T' : List Core}
    (hline : T = w.index.spine L ++ (w.index.inbox.map IndexableBlock.core ++
        (w.blockChannel.map RpcBlock.core ++ w.reader.pending.map RpcBlock.core)) →
      w.index.spine L ++ (w.index.inbox.map IndexableBlock.core ++
        (channel.map RpcBlock.core ++ r.pending.map RpcBlock.core)) = T')
    (hi : Indexed T') (hnext : r.next + r.pending.length = T'.length) (hat : r.AtNext) :
    Following c L T' { w.withReader r with blockChannel := channel } :=
  ⟨h.spine.congr rfl rfl rfl, hline h.line.symm, hi, hnext, hat, h.running, h.heard⟩

/-- The loop moves blocks from the inbox to the spine and the spine into the store. -/
theorem Following.withIndex (h : Following c L T w) {L' : List Core} {s : IndexState}
    (hspine : OnSpine c L' s)
    (hline : s.spine L' ++ s.inbox.map IndexableBlock.core =
      w.index.spine L ++ w.index.inbox.map IndexableBlock.core)
    (hrun : (s.pc = .receiving ∧ s.inbox = []) ∨ s.pc = .draining ∨ s.pc = .stopped) :
    Following c L' T { w with index := s } := by
  refine ⟨hspine, ?_, h.indexed, h.next, h.atNext, hrun, h.heard⟩
  rw [← h.line]
  show s.spine L' ++ (s.inbox.map IndexableBlock.core ++ _) = _
  rw [← List.append_assoc, hline, List.append_assoc]
  rfl

theorem Following.received (h : Following c L T w) {count : Nat} {s : IndexState}
    (hpc : w.index.pc = .receiving)
    (hs : s = { w.index with
      inbox := (w.blockChannel.take count).map RpcBlock.indexable, pc := .draining }) :
    Following c L T { w with index := s, blockChannel := w.blockChannel.drop count } := by
  have hin : w.index.inbox = [] := by
    rcases h.running with ⟨_, hnil⟩ | hother | hother
    · exact hnil
    · cases hpc.symm.trans hother
    · cases hpc.symm.trans hother
  subst hs
  refine ⟨h.spine.congr rfl rfl rfl, ?_, h.indexed, h.next, h.atNext, Or.inr (Or.inl rfl),
    h.heard⟩
  rw [← h.line]
  have hmoved : (w.blockChannel.take count).map RpcBlock.core ++
      (w.blockChannel.drop count).map RpcBlock.core = w.blockChannel.map RpcBlock.core := by
    rw [← List.map_append, List.take_append_drop]
  have hcores : ((w.blockChannel.take count).map RpcBlock.indexable).map IndexableBlock.core =
      (w.blockChannel.take count).map RpcBlock.core := by
    simp [Function.comp_def]
  simp only [System.inFlight, IndexState.spine, hin, List.map_nil, List.nil_append]
  rw [hcores, ← hmoved]
  simp only [List.append_assoc]

/-- A fork is seen at the end of the spine: the spine is stored, its last block is about
to go, and whatever is in flight comes after the block that was dropped. -/
structure Forked (c : ChainConfig) (S T : List Core) (w : System) (dropped : Core) : Prop where
  stores : Stores w.index.db c.chainId S
  batch : w.index.batch = []
  line : S ++ dropped :: w.inFlight = T
  indexed : Indexed T
  misfit : ∃ lower, S.getLast? = some lower ∧
    ¬ hashesMatch dropped.2.parentHash lower.2.hash
  next : w.reader.next + w.reader.pending.length = T.length
  atNext : w.reader.AtNext
  rolling : ∃ episode, w.index.pc = .rollingBack ((S.length : Int) - 2) episode
  heard : w.rewindChannel = []

theorem Forked.not_joined {S T : List Core} {dropped : Core} (h : Forked c S T w dropped) :
    ¬ Joined (S ++ [dropped]) := by
  intro hj
  obtain ⟨lower, hlast, hmis⟩ := h.misfit
  exact hmis ((List.isChain_append.mp hj).2.2 lower hlast dropped rfl)

theorem Forked.initial {S T : List Core} {dropped : Core} (h : Forked c S T w dropped) :
    S ++ [dropped] <+: T :=
  ⟨w.inFlight, by rw [← h.line]; simp⟩

variable [Postgres]

/-- The ways a step continues or leaves the line. -/
inductive Followed (c : ChainConfig) (L T : List Core) (w : System) (a : SystemAction)
    (w' : System) : Prop
  | on {L' : List Core} (h : Following c L' T w')
  | cut {T' : List Core} (h : Following c L T' w') (hp : T' <+: T)
      (hstop : w'.reader.isStopped = true)
  | paged {page : List RpcBlock} (ha : a = .answer (.page page))
      (hnext : w.reader.next = T.length)
      (h : Indexed (T ++ page.map RpcBlock.core) →
        Following c L (T ++ page.map RpcBlock.core) w')
  | forked {dropped : Core} (h : Forked c (w.index.spine L) T w' dropped)
  | refused {block : IndexableBlock} {rest : List IndexableBlock} {commits : Bool}
      (ha : a = .handle commits) (hin : w.index.inbox = block :: rest)
      (hv : (w.index.verdict c block).isRefusal = true)
  | lost (h : commitOutcome c w.index (indexAction w a w') = some false)

/-! ## Steps of the reader -/

theorem Following.kept (h : Following c L T w) {r : Reader RpcBlock}
    (hnext : r.next = w.reader.next) (hat : r.AtNext)
    (hnew : r.pending.map RpcBlock.core = w.reader.pending.map RpcBlock.core ∨
      r.pending = [] ∧ r.isStopped = true) : Followed c L T w a (w.withReader r) := by
  have hlen := h.next
  rcases hnew with hsame | ⟨hnil, hstop⟩
  · have hcount : r.pending.length = w.reader.pending.length := by
      simpa using congrArg List.length hsame
    exact .on (h.withReader (fun hT => by rw [hsame, hT]) h.indexed (by omega) hat)
  · have hp : w.index.spine L ++ (w.index.inbox.map IndexableBlock.core ++
        w.blockChannel.map RpcBlock.core) <+: T := by
      refine ⟨w.reader.pending.map RpcBlock.core, ?_⟩
      rw [← h.line, System.inFlight, List.append_assoc, List.append_assoc]
    refine .cut (h.withReader (fun _ => by rw [hnil, List.map_nil, List.append_nil])
      (h.indexed.initial hp) ?_ hat) hp hstop
    have htotal := congrArg List.length h.line
    simp only [System.inFlight, List.length_append, List.length_map] at htotal ⊢
    rw [hnil, List.length_nil]
    omega

theorem Following.paged (h : Following c L T w) {r : Reader RpcBlock} {page : List RpcBlock}
    (hold : w.reader.pending = []) (hnext : r.next = w.reader.next) (hnew : r.pending = page)
    (hat : r.AtNext) : Followed c L T w (.answer (.page page)) (w.withReader r) := by
  have hlen := h.next
  rw [hold, List.length_nil, Nat.add_zero] at hlen
  refine .paged rfl hlen fun hi => h.withReader (fun hT => ?_) hi ?_ hat
  · rw [hnew, hT, hold]
    simp
  · rw [hnew, hnext, hlen, List.length_append, List.length_map]

theorem Following.sent (h : Following c L T w) {r : Reader RpcBlock} {height : Nat}
    {block : RpcBlock} {effects : List (Nat × Json)} {rest : List RpcBlock}
    (hpc : w.reader.pc = .offering height block effects rest) (hnext : r.next = height + 1)
    (hnew : r.pending = rest ∨ r.pending = [] ∧ r.isStopped = true) (hat : r.AtNext) :
    Followed c L T w a { w.withReader r with blockChannel := w.blockChannel ++ [block] } := by
  have hlen := h.next
  have hold : w.reader.pending = block :: rest := by simp [Reader.pending, hpc]
  have hdue : height = w.reader.next := by simpa [Reader.AtNext, hpc] using h.atNext
  rw [hold, List.length_cons] at hlen
  rcases hnew with hrest | ⟨hnil, hstop⟩
  · refine .on (h.withReader (fun hT => ?_) h.indexed ?_ hat)
    · rw [hT, hold, hrest]
      simp
    · rw [hrest]
      omega
  · have hp : w.index.spine L ++ (w.index.inbox.map IndexableBlock.core ++
        ((w.blockChannel ++ [block]).map RpcBlock.core)) <+: T := by
      refine ⟨rest.map RpcBlock.core, ?_⟩
      rw [← h.line, System.inFlight, hold]
      simp
    refine .cut (h.withReader (fun _ => by rw [hnil, List.map_nil, List.append_nil])
      (h.indexed.initial hp) ?_ hat) hp hstop
    have htotal := congrArg List.length h.line
    simp only [System.inFlight, List.length_append, List.length_map, hold, List.length_cons]
      at htotal ⊢
    rw [hnil, List.length_nil]
    omega

/-! ## Steps of the loop -/

/-- A flush on the line: it moves the spine into the store or is a failed commit. -/
theorem Following.flushed {s s₁ : IndexState} {commits ok : Bool} (hspine : OnSpine c L s)
    (hi : Indexed (s.spine L)) (hf : Flushed c commits s ok s₁) :
    (OnSpine c (s.spine L) s₁ ∧ s₁.spine (s.spine L) = s.spine L) ∨
      flushOutcome c commits s = some false := by
  cases ok with
  | true => exact Or.inl ⟨hspine.flushed hi hf, by simp [IndexState.spine, hf.batch_nil]⟩
  | false => exact Or.inr hf.lost_outcome

theorem Following.handled (h : Following c L T w) {commits : Bool} {s : IndexState}
    (hs : Transition c w.index (.handle commits) s) :
    Followed c L T w (.handle commits) { w with index := s } := by
  cases hs with
  | @stale block rest _ hpc hin hv =>
      exact absurd hv (h.spine.not_stale (h.indexed_snoc hin))
  | @accepted block rest _ hpc hin hv hroom =>
      have hi := h.indexed_snoc hin
      have hbefore : OnSpine c L { w.index with inbox := rest } := h.spine.congr rfl rfl rfl
      refine .on (h.withIndex (hbefore.accept hi hv) ?_ (Or.inr (Or.inl hpc)))
      rw [spine_accept]
      simp [IndexState.accept, IndexState.spine, hin]
  | @acceptedFull _ block rest _ ok hpc hin hv hfull hf =>
      have hi := h.indexed_snoc hin
      have hbefore : OnSpine c L { w.index with inbox := rest } := h.spine.congr rfl rfl rfl
      have haccepted := hbefore.accept hi hv
      have hframe := hf.frame
      rcases Following.flushed haccepted (by rw [spine_accept]; exact hi) hf with
        ⟨hspine, hsame⟩ | hlost
      · refine .on (h.withIndex hspine ?_ (Or.inr (Or.inl (hframe.2.2.2.1.trans hpc))))
        rw [hsame, hframe.2.2.1, spine_accept]
        simp [IndexState.accept, IndexState.spine, hin]
      · exact .lost ((commitOutcome_full hpc hin hv hfull).trans hlost)
  | @forked s₁ block rest _ ok target hpc hin hv hf =>
      have hi := h.indexed_snoc hin
      have hbefore : OnSpine c L { w.index with inbox := rest } := h.spine.congr rfl rfl rfl
      have hframe := hf.frame
      rcases Following.flushed hbefore h.indexed_spine hf with ⟨hspine, hsame⟩ | hlost
      · obtain ⟨tip, htip, htarget, hheight, hmis, _⟩ := tip_of_fork hv
        obtain ⟨core, hlast, _, hhash, hlen⟩ := tipOf_spec h.indexed_spine (h.spine.tip ▸ htip)
        have htwo : target = ((w.index.spine L).length : Int) - 2 := by omega
        have hline : w.index.spine L ++ block.core :: (s₁.inbox.map IndexableBlock.core ++
            (w.blockChannel.map RpcBlock.core ++ w.reader.pending.map RpcBlock.core)) = T := by
          rw [← h.line, System.inFlight, hin, hframe.2.2.1]
          rfl
        exact .forked ⟨hspine.stores, hf.batch_nil, hline, h.indexed, ⟨core, hlast, hhash ▸ hmis⟩,
          h.next, h.atNext, ⟨_, congrArg (IndexPc.rollingBack · _) htwo⟩, h.heard⟩
      · exact .lost ((commitOutcome_fork hpc hin hv).trans hlost)
  | refused hpc hin hv hf => exact .refused rfl hin hv

theorem Following.chunkEnded (h : Following c L T w) {commits readable : Bool} {s : IndexState}
    (hs : Transition c w.index (.endChunk commits readable) s) :
    Followed c L T w (.endChunk commits readable) { w with index := s } := by
  cases hs with
  | chunkDone hpc hin hf =>
      have hspine := h.spine.flushed h.indexed_spine hf
      have hframe := hf.frame
      refine .on (h.withIndex (hspine.congr rfl rfl rfl) ?_
        (Or.inl ⟨rfl, hframe.2.2.1.trans hin⟩))
      simp [IndexState.spine, hf.batch_nil, hframe.2.2.1]
  | chunkLost hpc hin hf =>
      exact .lost ((commitOutcome_endChunk hpc hin).trans hf.lost_outcome)

theorem Following.closed (h : Following c L T w) {commits : Bool} {s : IndexState}
    (hs : Transition c w.index (.channelClosed commits) s) :
    Followed c L T w (.channelClosed commits) { w with index := s } := by
  cases hs with
  | closed hpc hf =>
      have hframe := hf.frame
      rcases Following.flushed h.spine h.indexed_spine hf with ⟨hspine, hsame⟩ | hlost
      · refine .on (h.withIndex (hspine.congr rfl rfl rfl) ?_ (Or.inr (Or.inr rfl)))
        rw [← hsame, ← hframe.2.2.1]
        simp [IndexState.spine, hf.batch_nil]
      · exact .lost ((commitOutcome_closed hpc).trans hlost)

variable [SerdeJson]

/-- One step of either task from a line. -/
theorem followed_of_step (h : Following c L T w) (hstep : systemStep c w a = some w') :
    Followed c L T w a w' := by
  cases move_of_step hstep with
  | answer hin hr =>
      obtain ⟨hmoved, hat⟩ := Reader.moved_of_step hr h.atNext
      cases hmoved with
      | rewound _ _ _ _ => cases hin
      | paged hold hnext hnew => exact h.paged hold hnext hnew hat
      | sent _ _ _ => cases hin
      | kept _ hnext hnew => exact h.kept hnext hat hnew
  | noRewind _ hr =>
      obtain ⟨hmoved, hat⟩ := Reader.moved_of_step hr h.atNext
      cases hmoved with
      | kept _ hnext hnew => exact h.kept hnext hat hnew
  | takeRewind hcons _ => cases h.heard.symm.trans hcons
  | rewindsClosed _ _ hr =>
      obtain ⟨hmoved, hat⟩ := Reader.moved_of_step hr h.atNext
      cases hmoved with
      | kept _ hnext hnew => exact h.kept hnext hat hnew
  | send hpc _ _ hr =>
      obtain ⟨hmoved, hat⟩ := Reader.moved_of_step hr h.atNext
      cases hmoved with
      | sent hpc' hnext hnew =>
          cases hpc.symm.trans hpc'
          exact h.sent hpc hnext hnew hat
      | kept hin _ _ => exact absurd rfl hin.1
  | sendFailed _ hr =>
      obtain ⟨hmoved, hat⟩ := Reader.moved_of_step hr h.atNext
      cases hmoved with
      | kept _ hnext hnew => exact h.kept hnext hat hnew
  | recvMany _ hs =>
      cases transition_of_step hs with
      | received hpc _ _ => exact .on (h.received hpc rfl)
  | channelClosed _ _ hs => exact h.closed (transition_of_step hs)
  | handle hs => exact h.handled (transition_of_step hs)
  | rollback hs =>
      have hstill := h.running
      cases transition_of_step hs with
      | rollbackFailed hpc => simp [hpc] at hstill
      | lookupFailed hpc _ => simp [hpc] at hstill
      | rolledBack hpc => simp [hpc] at hstill
  | sendRewind hpc _ _ _ =>
      have hstill := h.running
      simp [hpc] at hstill
  | rewindUnheard _ hs =>
      have hstill := h.running
      cases transition_of_step hs with
      | rewindSent hpc => simp [hpc] at hstill
  | endChunk hs => exact h.chunkEnded (transition_of_step hs)

end

end Retracer
