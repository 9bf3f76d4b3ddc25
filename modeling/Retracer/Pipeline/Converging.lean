import Retracer.Pipeline.OneChain

/-! # A branch switch

The node serves chain A and then chain B. The blocks in one line are A's up to some
height and B's above it; a fork is seen exactly there, peels one block, and the line
starts again one lower, provided nothing was queued behind the block that revealed the
fork. Anything queued there is accepted as a gap and stays.
-/

namespace Retracer

open Execution

/-! ## Lines across a switch -/

section

variable {A B : NodeChain} {e : Nat} {S T : List Core}

/-- Blocks of A below height `e`, blocks of B from there. -/
structure Switched (A B : NodeChain) (e : Nat) (T : List Core) : Prop where
  old : ∀ i, i < e → T[i]? = A.cores[i]?
  new : ∀ i, e ≤ i → i < T.length → T[i]? = B.cores[i]?
  le : e ≤ T.length
  short : e < B.cores.length ∨ e = 0

/-- A hash names one block: matching hashes at one height are the same header. -/
def HashesIdentify (A B : NodeChain) : Prop :=
  ∀ (i : Nat) (a b : Core), A.cores[i]? = some a → B.cores[i]? = some b →
    hashesMatch a.2.hash b.2.hash → a = b

theorem Switched.length_le (h : Switched A B e T) : T.length ≤ B.cores.length := by
  by_contra hlt
  have hlong : e ≤ B.cores.length := by
    rcases h.short with hshort | hzero <;> omega
  have hat := h.new B.cores.length hlong (by omega)
  rw [List.getElem?_eq_none (Nat.le_refl _), List.getElem?_eq_none_iff] at hat
  omega

/-- A page continues the line with blocks of B. -/
theorem getElem?_append_page {page : List Core} (hpage : page <+: B.cores.drop T.length) {i : Nat}
    (hi : T.length ≤ i) (hlt : i < (T ++ page).length) : (T ++ page)[i]? = B.cores[i]? := by
  obtain ⟨rest, hrest⟩ := hpage
  rw [List.length_append] at hlt
  have hdrop : (B.cores.drop T.length)[i - T.length]? = B.cores[i]? := by
    rw [List.getElem?_drop, Nat.add_sub_cancel' hi]
  rw [List.getElem?_append_right hi, ← hdrop, ← hrest, List.getElem?_append_left (by omega)]

theorem Switched.append {page : List Core} (h : Switched A B e T)
    (hpage : page <+: B.cores.drop T.length) : Switched A B e (T ++ page) := by
  have hle := h.le
  refine ⟨?_, ?_, ?_, h.short⟩
  · intro i hi
    rw [List.getElem?_append_left (by omega), h.old i hi]
  · intro i hi hlt
    by_cases hin : i < T.length
    · rw [List.getElem?_append_left hin, h.new i hi hin]
    · exact getElem?_append_page hpage (by omega) hlt
  · rw [List.length_append]
    omega

theorem indexed_append {page : List Core} (hi : Indexed T)
    (hpage : page <+: B.cores.drop T.length) : Indexed (T ++ page) := by
  intro i hlt
  by_cases hin : i < T.length
  · rw [List.getElem_append_left hin]
    exact hi i hin
  · have hat := getElem?_append_page hpage (by omega) hlt
    rw [List.getElem?_eq_getElem hlt] at hat
    exact Indexed.getElem? B.indexed hat.symm

/-- The two chains can only part where the line changes from one to the other. -/
theorem Switched.misfit (h : Switched A B e T) {n : Nat} {lower upper : Core}
    (hl : T[n]? = some lower) (hu : T[n + 1]? = some upper)
    (hmis : ¬ hashesMatch upper.2.parentHash lower.2.hash) : n + 1 = e := by
  have hlt : n + 1 < T.length := (List.getElem?_eq_some_iff.mp hu).1
  rcases Nat.lt_trichotomy (n + 1) e with hbelow | heq | habove
  · rw [h.old n (by omega)] at hl
    rw [h.old (n + 1) hbelow] at hu
    exact absurd (A.joined.fits hl hu) hmis
  · exact heq
  · rw [h.new n (by omega) (by omega)] at hl
    rw [h.new (n + 1) (by omega) hlt] at hu
    exact absurd (B.joined.fits hl hu) hmis

/-- A line without a misfit that is as long as B is B. -/
theorem Switched.eq_of_joined (h : Switched A B e T) (hhash : HashesIdentify A B)
    (hj : Joined T) (hlen : B.cores.length ≤ T.length) : T = B.cores := by
  have hle := h.length_le
  -- downwards from height `e`: one child, hence matching parents, hence one parent
  have hdown : ∀ d n, n + d = e → e < T.length → T[n]? = B.cores[n]? := by
    intro d
    induction d with
    | zero =>
        intro n hn he
        exact h.new n (by omega) (by omega)
    | succ d ih =>
        intro n hn he
        have hchild := ih (n + 1) (by omega) he
        have hu : T[n + 1]? = some T[n + 1] := List.getElem?_eq_getElem (by omega)
        have hl : T[n]? = some T[n] := List.getElem?_eq_getElem (by omega)
        have hb : B.cores[n]? = some B.cores[n] := List.getElem?_eq_getElem (by omega)
        have hsame : hashesMatch T[n].2.hash B.cores[n].2.hash :=
          hashesMatch_trans (hashesMatch_symm (hj.fits hl hu))
            (B.joined.fits hb (hchild.symm.trans hu))
        rw [hl, hb, hhash n _ _ ((h.old n (by omega)).symm.trans hl) hb hsame]
  apply List.ext_getElem?
  intro n
  by_cases hn : n < T.length
  · by_cases hold : n < e
    · have he : e < T.length := by
        rcases h.short with hshort | hzero <;> omega
      exact hdown (e - n) n (by omega) he
    · exact h.new n (by omega) hn
  · rw [List.getElem?_eq_none (by omega), List.getElem?_eq_none (by omega)]

end

/-! ## Conditions on steps -/

/-- No commit fails. -/
def CommitsSucceed [Postgres] (c : ChainConfig) (s : IndexState) (a : IndexAction)
    (_ : IndexState) : Prop := commitOutcome c s a ≠ some false

/-- No block is refused, be it for a certificate or for depth. -/
def NotRefused (c : ChainConfig) (s : IndexState) (a : IndexAction) (_ : IndexState) : Prop :=
  ∀ block ∈ s.handling a, (s.verdict c block).isRefusal = false

/-- No block lies more than one above the tip, nor above zero without one. -/
def NotBeyond (s : IndexState) (a : IndexAction) (_ : IndexState) : Prop :=
  ∀ block ∈ s.handling a, (block.height : Int) ≤ s.tip.elim 0 fun tip => tip.height + 1

instance [Postgres] (c : ChainConfig) (s : IndexState) (a : IndexAction) (s' : IndexState) :
    Decidable (CommitsSucceed c s a s') := by
  unfold CommitsSucceed
  infer_instance

instance (c : ChainConfig) (s : IndexState) (a : IndexAction) (s' : IndexState) :
    Decidable (NotRefused c s a s') := by
  unfold NotRefused
  infer_instance

instance (s : IndexState) (a : IndexAction) (s' : IndexState) : Decidable (NotBeyond s a s') := by
  unfold NotBeyond
  infer_instance

/-- What every step after the switch to `B` satisfies. -/
structure Orderly [Postgres] (c : ChainConfig) (B : NodeChain) (w : System) (a : SystemAction)
    (w' : System) : Prop where
  serves : Serves B w a w'
  commits : OnIndex (CommitsSucceed c) w a w'
  refuses : OnIndex (NotRefused c) w a w'
  beyond : OnIndex NotBeyond w a w'

/-! ## After a fork -/

/-- The loop holds the first `k` blocks of A and nothing else. -/
structure Peeled (c : ChainConfig) (A : NodeChain) (k : Nat) (s : IndexState) : Prop where
  le : k ≤ A.cores.length
  stores : Stores s.db c.chainId (A.cores.take k)
  tip : s.tip = tipOf (A.cores.take k)
  batch : s.batch = []

/-- How far the loop is with the rewind to height `k`. -/
inductive Stage (c : ChainConfig) (A : NodeChain) (k : Nat) (w : System) : Prop
  | rolling {episode : Int} (hle : k + 1 ≤ A.cores.length)
      (hstores : Stores w.index.db c.chainId (A.cores.take (k + 1))) (hbatch : w.index.batch = [])
      (hpc : w.index.pc = .rollingBack ((k : Int) - 1) episode) (hheard : w.rewindChannel = [])
  | sending (h : Peeled c A k w.index) (hpc : w.index.pc = .sendingRewind k)
      (hheard : w.rewindChannel = [])
  | waiting (h : Peeled c A k w.index)
      (hidle : (w.index.pc = .receiving ∧ w.index.inbox = []) ∨ w.index.pc = .draining)
      (hsent : w.rewindChannel = [k])

/-- Everything in flight, and everything the reader would ask for, lies above height `k`. -/
structure Ahead (k : Nat) (w : System) : Prop where
  above : ∀ core ∈ w.inFlight, k < core.1
  next : k < w.reader.next
  atNext : w.reader.AtNext

/-- The rewind was heard while blocks above height `k` are still queued for the loop. -/
structure Stranded (c : ChainConfig) (A : NodeChain) (k : Nat) (w : System) : Prop where
  peeled : Peeled c A k w.index
  front : ∃ core rest, w.index.inbox.map IndexableBlock.core ++
    w.blockChannel.map RpcBlock.core = core :: rest ∧ k < core.1
  idle : (w.index.pc = .receiving ∧ w.index.inbox = []) ∨ w.index.pc = .draining
  heard : w.rewindChannel = []
  atNext : w.reader.AtNext

inductive Converging (c : ChainConfig) (A B : NodeChain) (w : System) : Prop
  | line {L T : List Core} {e : Nat} (h : Following c L T w) (hline : Switched A B e T)
  | rewinding {k : Nat} (hshort : k < B.cores.length) (hstage : Stage c A k w) (hahead : Ahead k w)
  | stranded {k : Nat} (h : Stranded c A k w)
  | dead (h : w.reader.isStopped = true ∨ w.index.pc = .stopped)

section

variable {c : ChainConfig} {A B : NodeChain} {k : Nat} {w w' : System} {a : SystemAction}

theorem NodeChain.indexed_take (A : NodeChain) (k : Nat) : Indexed (A.cores.take k) :=
  Indexed.initial A.indexed (List.take_prefix _ _)

theorem Peeled.congr {s s' : IndexState} (h : Peeled c A k s) (hdb : s'.db = s.db)
    (htip : s'.tip = s.tip) (hbatch : s'.batch = s.batch) : Peeled c A k s' :=
  ⟨h.le, hdb ▸ h.stores, htip ▸ h.tip, hbatch ▸ h.batch⟩

/-- Only a block at height `k` or below is not beyond the tip. -/
theorem Peeled.le_of_notBeyond {s s' : IndexState} {commits : Bool} {block : IndexableBlock}
    {rest : List IndexableBlock} (h : Peeled c A k s) (hin : s.inbox = block :: rest)
    (hC : NotBeyond s (.handle commits) s') : block.height ≤ k := by
  replace hC := hC block (IndexState.handling_handle hin)
  rw [h.tip] at hC
  have hlen := List.length_take_of_le h.le
  cases htip : tipOf (A.cores.take k) with
  | none =>
      rw [htip] at hC
      have hzero : (block.height : Int) ≤ 0 := hC
      omega
  | some tip =>
      obtain ⟨_, _, _, _, hheight⟩ := tipOf_spec (A.indexed_take k) htip
      rw [htip] at hC
      have hnext : (block.height : Int) ≤ tip.height + 1 := hC
      omega

/-- With nothing left in flight the rewind puts the reader behind the last stored block. -/
theorem Peeled.following (h : Peeled c A k w.index) (hpeeled : w.inFlight = [])
    (hnext : w.reader.next = k) (hat : w.reader.AtNext)
    (hidle : (w.index.pc = .receiving ∧ w.index.inbox = []) ∨ w.index.pc = .draining)
    (hheard : w.rewindChannel = []) :
    Following c (A.cores.take k) (A.cores.take k) w := by
  have hspine : w.index.spine (A.cores.take k) = A.cores.take k := by
    simp [IndexState.spine, h.batch]
  have hpending : w.reader.pending = [] := by
    simp only [System.inFlight, List.append_eq_nil_iff, List.map_eq_nil_iff] at hpeeled
    exact hpeeled.2.2
  refine ⟨⟨h.stores, ?_, by rw [hspine]; exact h.tip⟩, by rw [hspine, hpeeled, List.append_nil],
    A.indexed_take k, ?_, hat, ?_, hheard⟩
  · rw [hspine]
    exact Joined.initial A.joined (List.take_prefix _ _)
  · rw [hnext, hpending, List.length_take_of_le h.le, List.length_nil, Nat.add_zero]
  · rcases hidle with hrecv | hdrain
    · exact Or.inl hrecv
    · exact Or.inr (Or.inl hdrain)

theorem switched_take (hle : k ≤ A.cores.length) (hshort : k < B.cores.length) :
    Switched A B k (A.cores.take k) := by
  refine ⟨?_, ?_, ?_, Or.inl hshort⟩
  · intro i hi
    rw [List.getElem?_take, if_pos hi]
  · intro i hi hlt
    rw [List.length_take_of_le hle] at hlt
    omega
  · rw [List.length_take_of_le hle]

/-- The fork is at the height where the line changes chains, one block is peeled off, and
what is in flight lies above it. -/
theorem Switched.forked {S T : List Core} {e : Nat} {dropped : Core} (hline : Switched A B e T)
    (h : Forked c S T w dropped) : ∃ k, k < B.cores.length ∧ Stage c A k w ∧ Ahead k w := by
  obtain ⟨lower, hlast, hmis⟩ := h.misfit
  rw [List.getLast?_eq_getElem?] at hlast
  have hpos : S.length - 1 < S.length := (List.getElem?_eq_some_iff.mp hlast).1
  have hl : T[S.length - 1]? = some lower := by
    rw [← h.line, List.getElem?_append_left hpos, hlast]
  have hu : T[S.length - 1 + 1]? = some dropped := by
    rw [Nat.sub_add_cancel (by omega), ← h.line, List.getElem?_append_right (Nat.le_refl _)]
    simp
  have hat : S.length = e := by
    have := hline.misfit hl hu hmis
    omega
  have hS : S = A.cores.take e := by
    apply List.ext_getElem?
    intro i
    rw [List.getElem?_take]
    by_cases hi : i < e
    · rw [if_pos hi, ← hline.old i hi, ← h.line, List.getElem?_append_left (by omega)]
    · rw [if_neg hi, List.getElem?_eq_none (by omega)]
  have hlen : e ≤ A.cores.length := by
    have := congrArg List.length hS
    rw [List.length_take] at this
    omega
  have htotal := congrArg List.length h.line
  rw [List.length_append, List.length_cons] at htotal
  obtain ⟨k, rfl⟩ : ∃ k, e = k + 1 := ⟨e - 1, by omega⟩
  refine ⟨k, ?_, ?_, ?_, ?_, h.atNext⟩
  · have := hline.short
    omega
  · obtain ⟨episode, hpc⟩ := h.rolling
    have htarget : (S.length : Int) - 2 = (k : Int) - 1 := by omega
    exact .rolling hlen (hS ▸ h.stores) h.batch (htarget ▸ hpc) h.heard
  · intro core hcore
    obtain ⟨j, hj⟩ := List.mem_iff_getElem?.mp hcore
    have hin : T[S.length + (j + 1)]? = some core := by
      rw [← h.line, List.getElem?_append_right (by omega), Nat.add_sub_cancel_left,
        List.getElem?_cons_succ, hj]
    rw [h.indexed.getElem? hin]
    omega
  · have hnext := h.next
    have hheld : w.reader.pending.length ≤ w.inFlight.length := by
      simp only [System.inFlight, List.length_append, List.length_map]
      omega
    omega

/-! ### Steps of the reader -/

variable [SerdeJson]

/-- Between two sends the reader keeps what it holds, drops it, or gets a page of B. -/
theorem Ahead.read {r : Reader RpcBlock} {input : ReaderInput RpcBlock} (h : Ahead k w)
    (hr : w.reader.step input = some r) (hsent : input ≠ .sent)
    (hrewind : ∀ height, input ≠ .rewind height)
    (hpage : ∀ page, input = .page page →
      page.map RpcBlock.core <+: B.cores.drop w.reader.next) : Ahead k (w.withReader r) := by
  have habove : ∀ core, core ∈ w.index.inbox.map IndexableBlock.core ∨
      core ∈ w.blockChannel.map RpcBlock.core ∨ core ∈ w.reader.pending.map RpcBlock.core →
      k < core.1 := by
    intro core hcore
    apply h.above core
    simpa only [System.inFlight, List.mem_append] using hcore
  have hkeep : ∀ {cores : List Core}, r.pending.map RpcBlock.core = cores →
      (∀ core ∈ cores, k < core.1) → ∀ core ∈ (w.withReader r).inFlight, k < core.1 := by
    intro cores hsame hcores core hcore
    simp only [System.inFlight, List.mem_append] at hcore
    rcases hcore with hin | hchan | hheld
    · exact habove core (Or.inl hin)
    · exact habove core (Or.inr (Or.inl hchan))
    · exact hcores core (hsame ▸ hheld)
  obtain ⟨hmoved, hat⟩ := Reader.moved_of_step hr h.atNext
  cases hmoved with
  | rewound _ _ _ _ => exact absurd rfl (hrewind _)
  | sent _ _ _ => exact absurd rfl hsent
  | @paged r page hold hnext hnew =>
      refine ⟨hkeep (congrArg _ hnew) ?_, ?_, hat⟩
      · intro core hcore
        have hserved := (hpage page rfl).subset hcore
        obtain ⟨j, hj⟩ := List.mem_iff_getElem?.mp hserved
        rw [List.getElem?_drop] at hj
        have hheight := Indexed.getElem? B.indexed hj
        have := h.next
        omega
      · show k < r.next
        exact hnext ▸ h.next
  | @kept input r hin hnext hnew =>
      have hnext' : k < r.next := hnext ▸ h.next
      rcases hnew with hsame | ⟨hnil, _⟩
      · exact ⟨hkeep hsame fun core hcore => habove core (Or.inr (Or.inr hcore)), hnext', hat⟩
      · exact ⟨hkeep (congrArg _ hnil) (by simp), hnext', hat⟩

theorem Ahead.send {r : Reader RpcBlock} {height : Nat} {block : RpcBlock}
    {effects : List (Nat × Json)} {rest : List RpcBlock} (h : Ahead k w)
    (hpc : w.reader.pc = .offering height block effects rest)
    (hr : w.reader.step .sent = some r) :
    Ahead k { w.withReader r with blockChannel := w.blockChannel ++ [block] } := by
  obtain ⟨hmoved, hat⟩ := Reader.moved_of_step hr h.atNext
  have hold : w.reader.pending = block :: rest := by simp [Reader.pending, hpc]
  have hdue : height = w.reader.next := by simpa [Reader.AtNext, hpc] using h.atNext
  have hbefore := h.next
  cases hmoved with
  | kept hin _ _ => exact absurd rfl hin.1
  | sent hpc' hnext hnew =>
      cases hpc.symm.trans hpc'
      refine ⟨?_, by show k < r.next; omega, hat⟩
      intro core hcore
      apply h.above core
      simp only [System.inFlight, System.withReader, hold, List.map_append, List.map_cons,
        List.map_nil, List.mem_append, List.mem_cons, List.not_mem_nil, or_false] at hcore ⊢
      rcases hnew with hrest | ⟨hnil, _⟩
      · rw [hrest] at hcore
        tauto
      · rw [hnil, List.map_nil] at hcore
        simp only [List.not_mem_nil, or_false] at hcore
        tauto

/-! ### Steps of either task -/

omit [SerdeJson] in
theorem Stage.withReader (h : Stage c A k w) (r : Reader RpcBlock) (channel : List RpcBlock) :
    Stage c A k { w.withReader r with blockChannel := channel } := by
  cases h with
  | rolling hle hstores hbatch hpc hheard => exact .rolling hle hstores hbatch hpc hheard
  | sending hpeeled hpc hheard => exact .sending (hpeeled.congr rfl rfl rfl) hpc hheard
  | waiting hpeeled hidle hsent => exact .waiting (hpeeled.congr rfl rfl rfl) hidle hsent

variable [Postgres]

theorem dead_step (h : w.reader.isStopped = true ∨ w.index.pc = .stopped)
    (hstep : systemStep c w a = some w') :
    w'.reader.isStopped = true ∨ w'.index.pc = .stopped := by
  rcases h with hread | hloop
  · have hnone : ∀ {input : ReaderInput RpcBlock} {r : Reader RpcBlock},
        w.reader.step input ≠ some r := by
      intro input r hr
      cases (Reader.step_of_isStopped hread).symm.trans hr
    cases move_of_step hstep with
    | answer _ hr => exact absurd hr hnone
    | noRewind _ hr => exact absurd hr hnone
    | takeRewind _ hr => exact absurd hr hnone
    | rewindsClosed _ _ hr => exact absurd hr hnone
    | send _ _ _ hr => exact absurd hr hnone
    | sendFailed _ hr => exact absurd hr hnone
    | recvMany _ _ => exact Or.inl hread
    | channelClosed _ _ _ => exact Or.inl hread
    | handle _ => exact Or.inl hread
    | rollback _ => exact Or.inl hread
    | sendRewind _ _ _ _ => exact Or.inl hread
    | rewindUnheard _ _ => exact Or.inl hread
    | endChunk _ => exact Or.inl hread
  · exact Or.inr
      (stopped_of_transition (transition_of_step (indexStep_of_systemStep hstep)) hloop)

theorem line_step {L T : List Core} {e : Nat} (h : Following c L T w)
    (hline : Switched A B e T) (hstep : systemStep c w a = some w') (hC : Orderly c B w a w') :
    Converging c A B w' := by
  cases followed_of_step h hstep with
  | on h' => exact .line h' hline
  | cut _ _ hstop => exact .dead (Or.inl hstop)
  | @paged page ha hnext h' =>
      subst ha
      have hpage : page.map RpcBlock.core <+: B.cores.drop T.length :=
        hnext ▸ hC.serves page rfl
      exact .line (h' (indexed_append h.indexed hpage)) (hline.append hpage)
  | forked h' =>
      obtain ⟨k, hshort, hstage, hahead⟩ := hline.forked h'
      exact .rewinding hshort hstage hahead
  | refused ha hin hv =>
      subst ha
      have hno := hC.refuses _ (IndexState.handling_handle hin)
      cases hno.symm.trans hv
  | lost hlost => exact absurd hlost hC.commits

omit [Postgres] in
/-- The reader hears of the rewind: the line starts again, or blocks are stranded. -/
theorem Ahead.rewound {r : Reader RpcBlock} {height : Nat} {rest : List Nat} (h : Ahead k w)
    (hshort : k < B.cores.length) (hstage : Stage c A k w)
    (hcons : w.rewindChannel = height :: rest) (hr : w.reader.step (.rewind height) = some r) :
    Converging c A B { w.withReader r with rewindChannel := rest } := by
  obtain ⟨hmoved, hat⟩ := Reader.moved_of_step hr h.atNext
  cases hstage with
  | rolling _ _ _ _ hheard => cases hheard.symm.trans hcons
  | sending _ _ hheard => cases hheard.symm.trans hcons
  | waiting hpeeled hidle hsent =>
      cases hsent.symm.trans hcons
      cases hmoved with
      | kept hin _ _ => exact absurd rfl (hin.2 _)
      | rewound _ hnew hnext _ =>
          cases hqueue : w.index.inbox.map IndexableBlock.core ++
              w.blockChannel.map RpcBlock.core with
          | nil =>
              have hempty : System.inFlight { w.withReader r with rewindChannel := [] } = [] := by
                show w.index.inbox.map IndexableBlock.core ++
                  (w.blockChannel.map RpcBlock.core ++ r.pending.map RpcBlock.core) = []
                rw [← List.append_assoc, hqueue, hnew]
                rfl
              exact .line (Peeled.following (hpeeled.congr rfl rfl rfl) hempty hnext hat hidle rfl)
                (switched_take hpeeled.le hshort)
          | cons core queue =>
              refine .stranded (k := k)
                ⟨hpeeled.congr rfl rfl rfl, ⟨core, queue, hqueue, ?_⟩, hidle, rfl, hat⟩
              apply h.above core
              rw [System.inFlight, ← List.append_assoc, hqueue]
              simp

omit [Postgres] [SerdeJson] in
theorem Ahead.received {s : IndexState} (h : Ahead k w) (count : Nat)
    (hs : s = { w.index with
      inbox := (w.blockChannel.take count).map RpcBlock.indexable, pc := .draining }) :
    Ahead k { w with index := s, blockChannel := w.blockChannel.drop count } := by
  subst hs
  refine ⟨?_, h.next, h.atNext⟩
  intro core hcore
  apply h.above core
  simp only [System.inFlight, List.mem_append, List.mem_map] at hcore ⊢
  rcases hcore with ⟨b, ⟨sent, hsent, rfl⟩, rfl⟩ | ⟨b, hb, rfl⟩ | hheld
  · exact Or.inr (Or.inl ⟨sent, List.mem_of_mem_take hsent, rfl⟩)
  · exact Or.inr (Or.inl ⟨b, List.mem_of_mem_drop hb, rfl⟩)
  · exact Or.inr (Or.inr hheld)

omit [SerdeJson] in
/-- Whatever comes next to the loop is beyond its tip. -/
theorem Ahead.not_handled {commits : Bool} {s : IndexState} (h : Ahead k w)
    (hstage : Stage c A k w) (hs : indexStep c w.index (.handle commits) = some s) :
    ¬ NotBeyond w.index (.handle commits) s := by
  intro hC
  obtain ⟨block, rest, hpc, hin⟩ := handled_of_step hs
  cases hstage with
  | rolling _ _ _ hroll _ => cases hpc.symm.trans hroll
  | sending _ hsend _ => cases hpc.symm.trans hsend
  | waiting hpeeled _ _ =>
      have hle := hpeeled.le_of_notBeyond hin hC
      have habove : k < block.core.1 := by
        apply h.above
        simp [System.inFlight, hin]
      exact absurd hle (Nat.not_le_of_lt habove)

omit [SerdeJson] in
theorem Ahead.rolledBack {episode : Int} {reply : RollbackReply} {s : IndexState} (h : Ahead k w)
    (hshort : k < B.cores.length) (hle : k + 1 ≤ A.cores.length)
    (hstores : Stores w.index.db c.chainId (A.cores.take (k + 1))) (hbatch : w.index.batch = [])
    (hpc : w.index.pc = .rollingBack ((k : Int) - 1) episode) (hheard : w.rewindChannel = [])
    (hs : Transition c w.index (.rollback reply) s) : Converging c A B { w with index := s } := by
  cases hs with
  | rollbackFailed _ => exact .dead (Or.inr rfl)
  | lookupFailed _ _ => exact .dead (Or.inr rfl)
  | rolledBack hroll =>
      cases hpc.symm.trans hroll
      have hlen : (A.cores.take (k + 1)).length = k + 1 := List.length_take_of_le hle
      have hback := hstores.rollbackTo (by omega : k ≤ (A.cores.take (k + 1)).length)
      rw [List.take_take, Nat.min_eq_left (Nat.le_succ k)] at hback
      have htip := (durableTip_rollbackTo w.index.db c.chainId ((k : Int) - 1)).trans
        (hback.durableTip (A.indexed_take k))
      have hheight : (max ((k : Int) - 1 + 1) 0).toNat = k := by omega
      exact .rewinding hshort (.sending ⟨by omega, hback, htip, hbatch⟩
        (congrArg IndexPc.sendingRewind hheight) hheard) ⟨h.above, h.next, h.atNext⟩

/-- A rewind under way: the loop moves on by one stage or takes blocks out of the channel,
and it handles none of them. -/
theorem rewinding_step (hshort : k < B.cores.length) (hstage : Stage c A k w) (h : Ahead k w)
    (hstep : systemStep c w a = some w') (hC : Orderly c B w a w') : Converging c A B w' := by
  have hread : ∀ {r : Reader RpcBlock} {input : ReaderInput RpcBlock},
      w.reader.step input = some r → input ≠ .sent → (∀ height, input ≠ .rewind height) →
      (∀ page, input = .page page → page.map RpcBlock.core <+: B.cores.drop w.reader.next) →
      Converging c A B (w.withReader r) := by
    intro r input hr hsent hrewind hpage
    exact .rewinding hshort (hstage.withReader r _) (h.read hr hsent hrewind hpage)
  cases move_of_step hstep with
  | @answer input r hin hr =>
      refine hread hr ?_ ?_ ?_
      · rintro rfl
        cases hin
      · rintro height rfl
        cases hin
      · rintro page rfl
        exact hC.serves page rfl
  | noRewind _ hr => exact hread hr (by simp) (by simp) (by simp)
  | rewindsClosed _ _ hr => exact hread hr (by simp) (by simp) (by simp)
  | sendFailed _ hr => exact hread hr (by simp) (by simp) (by simp)
  | send hpc _ _ hr => exact .rewinding hshort (hstage.withReader _ _) (h.send hpc hr)
  | takeRewind hcons hr => exact h.rewound hshort hstage hcons hr
  | @recvMany count s _ hs =>
      cases hstage with
      | rolling _ _ _ hpc _ =>
          cases transition_of_step hs with
          | received hrun _ _ => cases hpc.symm.trans hrun
      | sending _ hpc _ =>
          cases transition_of_step hs with
          | received hrun _ _ => cases hpc.symm.trans hrun
      | waiting hpeeled hidle hsent =>
          cases transition_of_step hs with
          | received hrun _ _ =>
              exact .rewinding hshort
                (.waiting (hpeeled.congr rfl rfl rfl) (Or.inr rfl) hsent) (h.received count rfl)
  | channelClosed _ _ hs =>
      cases transition_of_step hs with
      | closed _ _ => exact .dead (Or.inr rfl)
  | handle hs => exact absurd hC.beyond (h.not_handled hstage hs)
  | rollback hs =>
      cases hstage with
      | rolling hle hstores hbatch hpc hheard =>
          exact h.rolledBack hshort hle hstores hbatch hpc hheard (transition_of_step hs)
      | sending _ hpc _ =>
          cases transition_of_step hs with
          | rollbackFailed hroll => cases hpc.symm.trans hroll
          | lookupFailed hroll _ => cases hpc.symm.trans hroll
          | rolledBack hroll => cases hpc.symm.trans hroll
      | waiting _ hidle _ =>
          cases transition_of_step hs with
          | rollbackFailed hroll => simp [hroll] at hidle
          | lookupFailed hroll _ => simp [hroll] at hidle
          | rolledBack hroll => simp [hroll] at hidle
  | sendRewind hpc _ _ hs =>
      cases hstage with
      | rolling _ _ _ hroll _ => cases hpc.symm.trans hroll
      | waiting _ hidle _ => simp [hpc] at hidle
      | sending hpeeled hsend hheard =>
          cases hpc.symm.trans hsend
          cases transition_of_step hs with
          | rewindSent _ =>
              exact .rewinding hshort (.waiting (hpeeled.congr rfl rfl rfl) (Or.inr rfl)
                (by rw [hheard]; rfl)) ⟨h.above, h.next, h.atNext⟩
  | rewindUnheard hstop _ => exact .dead (Or.inl hstop)
  | endChunk hs =>
      cases hstage with
      | rolling _ _ _ hpc _ =>
          cases transition_of_step hs with
          | chunkDone hrun _ _ => cases hpc.symm.trans hrun
          | chunkLost hrun _ _ => cases hpc.symm.trans hrun
      | sending _ hpc _ =>
          cases transition_of_step hs with
          | chunkDone hrun _ _ => cases hpc.symm.trans hrun
          | chunkLost hrun _ _ => cases hpc.symm.trans hrun
      | waiting hpeeled _ hsent =>
          cases transition_of_step hs with
          | chunkDone _ hin hf =>
              obtain ⟨_, rfl⟩ := hf.eq_of_batch_nil hpeeled.batch
              exact .rewinding hshort
                (.waiting (hpeeled.congr rfl rfl rfl) (Or.inl ⟨rfl, hin⟩) hsent)
                ⟨h.above, h.next, h.atNext⟩
          | chunkLost _ _ hf => cases (hf.eq_of_batch_nil hpeeled.batch).1

/-- Stranded blocks stay where they are. -/
theorem stranded_step (h : Stranded c A k w) (hstep : systemStep c w a = some w')
    (hC : Orderly c B w a w') : Converging c A B w' := by
  have hread : ∀ {r : Reader RpcBlock} {input : ReaderInput RpcBlock},
      w.reader.step input = some r → Converging c A B (w.withReader r) := by
    intro r input hr
    exact .stranded ⟨h.peeled.congr rfl rfl rfl, h.front, h.idle, h.heard,
      (Reader.moved_of_step hr h.atNext).2⟩
  have hidle := h.idle
  obtain ⟨core, queue, hqueue, habove⟩ := h.front
  cases move_of_step hstep with
  | answer _ hr => exact hread hr
  | noRewind _ hr => exact hread hr
  | takeRewind hcons _ => cases h.heard.symm.trans hcons
  | rewindsClosed _ _ hr => exact hread hr
  | sendFailed _ hr => exact hread hr
  | @send r height block _ _ _ _ _ hr =>
      refine .stranded ⟨h.peeled.congr rfl rfl rfl, ⟨core, queue ++ [block.core], ?_, habove⟩,
        h.idle, h.heard, (Reader.moved_of_step hr h.atNext).2⟩
      show w.index.inbox.map IndexableBlock.core ++
        (w.blockChannel ++ [block]).map RpcBlock.core = _
      rw [List.map_append, ← List.append_assoc, hqueue]
      rfl
  | @recvMany count _ _ hs =>
      cases transition_of_step hs with
      | received hrun _ _ =>
          have hin : w.index.inbox = [] := by simpa [hrun] using hidle
          refine .stranded ⟨h.peeled.congr rfl rfl rfl, ⟨core, queue, ?_, habove⟩,
            Or.inr rfl, h.heard, h.atNext⟩
          show ((w.blockChannel.take count).map RpcBlock.indexable).map IndexableBlock.core ++
            (w.blockChannel.drop count).map RpcBlock.core = _
          rw [← hqueue, hin, List.map_map, List.map_nil, List.nil_append]
          show (w.blockChannel.take count).map RpcBlock.core ++ _ = _
          rw [← List.map_append, List.take_append_drop]
  | channelClosed _ _ hs =>
      cases transition_of_step hs with
      | closed _ _ => exact .dead (Or.inr rfl)
  | handle hs =>
      obtain ⟨block, rest, _, hin⟩ := handled_of_step hs
      rw [hin] at hqueue
      cases hqueue
      have hle : block.height ≤ k := h.peeled.le_of_notBeyond hin hC.beyond
      exact absurd hle (Nat.not_le_of_lt habove)
  | rollback hs =>
      cases transition_of_step hs with
      | rollbackFailed hroll => simp [hroll] at hidle
      | lookupFailed hroll _ => simp [hroll] at hidle
      | rolledBack hroll => simp [hroll] at hidle
  | sendRewind hpc _ _ _ => simp [hpc] at hidle
  | rewindUnheard hstop _ => exact .dead (Or.inl hstop)
  | endChunk hs =>
      cases transition_of_step hs with
      | chunkDone _ hin hf =>
          obtain ⟨_, rfl⟩ := hf.eq_of_batch_nil h.peeled.batch
          exact .stranded ⟨h.peeled.congr rfl rfl rfl, ⟨core, queue, hqueue, habove⟩,
            Or.inl ⟨rfl, hin⟩, h.heard, h.atNext⟩
      | chunkLost _ _ hf => cases (hf.eq_of_batch_nil h.peeled.batch).1

theorem converging_step (h : Converging c A B w) (hstep : systemStep c w a = some w')
    (hC : Orderly c B w a w') : Converging c A B w' := by
  cases h with
  | line h hline => exact line_step h hline hstep hC
  | rewinding hshort hstage hahead => exact rewinding_step hshort hstage hahead hstep hC
  | stranded h => exact stranded_step h hstep hC
  | dead h => exact .dead (dead_step h hstep)

end

end Retracer
