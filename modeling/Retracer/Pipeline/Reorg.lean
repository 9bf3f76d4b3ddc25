import Retracer.Pipeline.Converging

/-! # Reorgs

A run against chain A, a switch, a run against chain B: whatever was in flight, a
quiescent state holds exactly B, provided nothing was ever handled beyond the tip. A
page of two blocks that reveals a fork breaks that proviso.
-/

namespace Retracer

open Execution

/-! ## Quiescent states -/

/-- Both tasks are running, nothing is on its way, and the reader is past B's tip. -/
structure Quiescent (B : NodeChain) (w : System) : Prop where
  past : B.blocks.length ≤ w.reader.next
  channel : w.blockChannel = []
  inbox : w.index.inbox = []
  batch : w.index.batch = []
  rewinds : w.rewindChannel = []
  loop : w.index.pc = .receiving ∨ w.index.pc = .draining
  reader : w.reader.isStopped = false

section

variable {c : ChainConfig} {A B : NodeChain} {w : System}

theorem Converging.stored (h : Converging c A B w) (hhash : HashesIdentify A B)
    (hq : Quiescent B w) : Stores w.index.db c.chainId B.cores := by
  have hloop := hq.loop
  cases h with
  | @line L T e hfollow hline =>
      have hlen := hline.length_le
      have hcount : B.cores.length = B.blocks.length := List.length_map _
      have hnext := hfollow.next
      have hpast := hq.past
      have hheld : w.reader.pending = [] := List.length_eq_zero_iff.mp (by omega)
      have hspine : w.index.spine L = L := by simp [IndexState.spine, hq.batch]
      have hflight : w.inFlight = [] := by
        simp [System.inFlight, hq.inbox, hq.channel, hheld]
      have hT : L = T := by
        rw [← hfollow.line, hspine, hflight, List.append_nil]
      have hjoined : Joined T := by
        rw [← hT, ← hspine]
        exact hfollow.spine.joined
      rw [← hline.eq_of_joined hhash hjoined (by omega), ← hT]
      exact hfollow.spine.stores
  | rewinding _ hstage _ =>
      cases hstage with
      | rolling _ _ _ hpc _ => simp [hpc] at hloop
      | sending _ hpc _ => simp [hpc] at hloop
      | waiting _ _ hsent => cases hsent.symm.trans hq.rewinds
  | stranded h =>
      obtain ⟨_, _, hqueue, _⟩ := h.front
      rw [hq.inbox, hq.channel] at hqueue
      cases hqueue
  | dead h =>
      rcases h with hread | hstop
      · cases hq.reader.symm.trans hread
      · simp [hstop] at hloop

/-! ## Runs -/

/-- The stored heights and hashes are those of B. -/
def HoldsChain (db : Database) (chainId : String) (B : NodeChain) : Prop :=
  ∀ n : Int, getBlockHash db chainId n =
    if n < 0 then none else B.cores[n.toNat]?.map (·.2.hash)

theorem Stores.holdsChain {db : Database} {chainId : String} (h : Stores db chainId B.cores) :
    HoldsChain db chainId B := by
  intro n
  rw [getBlockHash_eq, h.header n]
  by_cases hneg : n < 0
  · simp [hneg]
  · simp [hneg, Function.comp_def]

/-- The reader has been given less than B has, or just B. -/
def Outruns (A B : NodeChain) (w : System) : Prop :=
  w.reader.next + w.reader.pending.length < B.cores.length ∨
    A.cores.take (w.reader.next + w.reader.pending.length) = B.cores

theorem converging_switch {L T : List Core} (h : Following c L T w) (hp : T <+: A.cores)
    (hlong : Outruns A B w) : Converging c A B w := by
  have hT : A.cores.take T.length = T := List.prefix_iff_eq_take.mp hp |>.symm
  rcases hlong with hshort | hsame
  · rw [h.next] at hshort
    have hline := switched_take (B := B) hp.length_le hshort
    rw [hT] at hline
    exact .line h hline
  · rw [h.next, hT] at hsame
    have hswitched : Switched A B 0 T :=
      ⟨fun i hi => absurd hi (Nat.not_lt_zero i), fun i _ _ => by rw [hsame], Nat.zero_le _,
        Or.inr rfl⟩
    exact .line h hswitched

variable [Postgres] [SerdeJson] {db : Database} {L : List Core} {as bs : List SystemAction}
  {u t : System}

/-- Before the switch: one line, a piece of A. -/
theorem following_before_switch (hstores : Stores db c.chainId L) (hp : L <+: A.cores)
    (hserves : Always (systemStep c) (Serves A) (.start c db) as)
    (hcommits : Always (systemStep c) (OnIndex (CommitsSucceed c)) (.start c db) as)
    (hrun : exec (systemStep c) (.start c db) as = some u) :
    ∃ L' T, Following c L' T u ∧ T <+: A.cores := by
  have hindexed : Indexed L := Indexed.initial A.indexed hp
  have hjoined : Joined L := Joined.initial A.joined hp
  have hsteps := hserves.and hcommits
  have hend : ChainServed c A u ∧ ∃ L' T, Following c L' T u ∧ T <+: A.cores := by
    refine always_invariant (I := fun w => ChainServed c A w ∧
      ∃ L' T, Following c L' T w ∧ T <+: A.cores) ?_ ?_ hsteps hrun
    · intro w a w' h hstep hC
      obtain ⟨hserved, L', T, hline, hp'⟩ := h
      exact ⟨hserved.step hstep hC.1, following_step hline hp' hserved hstep hC.1 hC.2⟩
    · exact ⟨chainServed_start hstores hp, L, L, following_start hstores hindexed hjoined, hp⟩
  exact hend.2

/-- After a switch from A to B the store comes to hold exactly B, as long as B outruns what
the reader had been given and no block is handled beyond the tip. -/
theorem reorg_converges (hstores : Stores db c.chainId L) (hp : L <+: A.cores)
    (hserves : Always (systemStep c) (Serves A) (.start c db) as)
    (hcommits : Always (systemStep c) (OnIndex (CommitsSucceed c)) (.start c db) as)
    (hbefore : exec (systemStep c) (.start c db) as = some u)
    (hserves' : Always (systemStep c) (Serves B) u bs)
    (hcommits' : Always (systemStep c) (OnIndex (CommitsSucceed c)) u bs)
    (hrefused : Always (systemStep c) (OnIndex (NotRefused c)) u bs)
    (hafter : exec (systemStep c) u bs = some t)
    (hhash : HashesIdentify A B) (hlong : Outruns A B u)
    (hbeyond : Always (systemStep c) (OnIndex NotBeyond) u bs)
    (hq : Quiescent B t) : HoldsChain t.index.db c.chainId B := by
  obtain ⟨L', T, hline, hp'⟩ := following_before_switch hstores hp hserves hcommits hbefore
  have hsteps := (hserves'.and hcommits').and (hrefused.and hbeyond)
  have hend : Converging c A B t := by
    refine always_invariant (I := Converging c A B) ?_ (converging_switch hline hp' hlong) hsteps
      hafter
    intro w a w' h hstep hC
    exact converging_step h hstep ⟨hC.1.1, hC.1.2, hC.2.1, hC.2.2⟩
  exact (hend.stored hhash hq).holdsChain

end

/-! ## Two switches -/

section

open RpcBlock

def branchA : NodeChain := ⟨[bare 0 "g" "", bare 1 "a1" "g"], by decide, by decide⟩

def branchB : NodeChain :=
  ⟨[bare 0 "g" "", bare 1 "b1" "g", bare 2 "b2" "b1", bare 3 "b3" "b2"], by decide, by decide⟩

theorem branches_identify : HashesIdentify branchA branchB := by
  intro i a b ha hb hmatch
  match i with
  | 0 =>
      cases ha
      cases hb
      rfl
  | 1 =>
      cases ha
      cases hb
      exact absurd hmatch (by decide)
  | n + 2 => cases ha

def onBranchA : List SystemAction :=
  servePage 1 none [bare 0 "g" "", bare 1 "a1" "g"] ++ handleAll 2 ++ [.endChunk true true]

/-- Branch B shows with the page `first`, of which the loop handles `rest` after the fork
and before the reader hears of it; then everything is served again from height 1. -/
def ontoBranchB (first : List RpcBlock) (rest : List SystemAction) : List SystemAction :=
  servePage (first.length + 1) none first ++
    [.recvMany first.length, .handle true, .rollback .done, .sendRewind] ++ rest ++
    [.endChunk true true, .takeRewind] ++
    servePage 3 none [bare 1 "b1" "g", bare 2 "b2" "b1", bare 3 "b3" "b2"] ++ handleAll 3 ++
    [.endChunk true true]

def afterBranchA : System := (systemRun 5 onBranchA).get (by decide)

/-- The state after `bs` from there. -/
def thenRun (bs : List SystemAction) : Option System := exec (plainSystemStep 5) afterBranchA bs

/-- The fork shows with a page of one block: nothing is queued behind it. -/
theorem reorg_converges_single_block :
    ∃ t, thenRun (ontoBranchB [bare 2 "b2" "b1"] []) = some t ∧
      HoldsChain t.index.db "chain" branchB := by
  refine ⟨(thenRun (ontoBranchB [bare 2 "b2" "b1"] [])).get (by decide),
    (Option.some_get _).symm, ?_⟩
  exact @reorg_converges (.bare 5) branchA branchB .plain .plain .empty [] onBranchA
    (ontoBranchB [bare 2 "b2" "b1"] []) afterBranchA _ (stores_empty _) List.nil_prefix
    (by decide) (by decide) (Option.some_get _).symm (by decide) (by decide) (by decide)
    (Option.some_get _).symm branches_identify (Or.inl (by decide)) (by decide)
    ⟨by decide, by decide, by decide, by decide, by decide, by decide, by decide⟩

/-- Both blocks of the page that shows the fork are in the chunk. -/
def pageOfTwo : List SystemAction :=
  ontoBranchB [bare 2 "b2" "b1", bare 3 "b3" "b2"] [.handle true]

/-- The second block of that page goes in as a gap, and everything served after the rewind
is stale below it. -/
theorem reorg_leaves_hole :
    Always (plainSystemStep 5) (Serves branchA) (.start (.bare 5) .empty) onBranchA ∧
    Always (plainSystemStep 5) (Serves branchB) afterBranchA pageOfTwo ∧
    Always (plainSystemStep 5) (OnIndex (@CommitsSucceed .plain (.bare 5))) afterBranchA pageOfTwo ∧
    Always (plainSystemStep 5) (OnIndex (NotRefused (.bare 5))) afterBranchA pageOfTwo ∧
    (∀ n ∈ storedHeights afterBranchA.index.db "chain", n < branchB.blocks.length) ∧
    HashesIdentify branchA branchB ∧
    ∃ t, thenRun pageOfTwo = some t ∧ Quiescent branchB t ∧
      ¬ HoldsChain t.index.db "chain" branchB := by
  refine ⟨by decide, by decide, by decide, by decide, by decide, branches_identify,
    (thenRun pageOfTwo).get (by decide), (Option.some_get _).symm, ?_, fun h => ?_⟩
  · exact ⟨by decide, by decide, by decide, by decide, by decide, by decide, by decide⟩
  · exact absurd (h 1) (by decide)

end

end Retracer
