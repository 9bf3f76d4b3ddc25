import Retracer.Pipeline.OneChain

/-! # Failed commits

The loop drops a batch that failed to commit and the reader does not go back for it.
Against a node with one chain there is no fork either, so a lost height stays lost; it
is a hole as soon as anything above it is committed.
-/

namespace Retracer

open Execution

/-- Every height up to the cursor has a block. -/
def NoHoles (db : Database) (chainId : String) : Prop :=
  ∀ last, getCursor db chainId = some last →
    ∀ n, 0 ≤ n → n ≤ last → headerAt db chainId n ≠ none

theorem Stores.noHoles {db : Database} {chainId : String} {L : List Core}
    (h : Stores db chainId L) : NoHoles db chainId := by
  intro last hlast n hn hle
  rw [h.headerAt_ne_none]
  rw [h.cursor] at hlast
  split at hlast
  · cases hlast
  · cases hlast
    omega

section

variable {c : ChainConfig} {chain : NodeChain} {w w' : System} {a : SystemAction} [Postgres]
  [SerdeJson]

/-! ## Runs -/

/-- Whether a commit has failed since the start. -/
def noteLost (c : ChainConfig) (lost : Bool) (w : System) (a : SystemAction) (w' : System) :
    Bool :=
  lost || commitOutcome c w.index (indexAction w a w') == some false

/-- After a failed commit no other commit succeeds. -/
def NoCommitAfterLoss (c : ChainConfig) (lost : Bool) (w : System) (a : SystemAction)
    (w' : System) : Prop :=
  lost = true → commitOutcome c w.index (indexAction w a w') ≠ some true

instance (lost : Bool) (w : System) (a : SystemAction) (w' : System) :
    Decidable (NoCommitAfterLoss c lost w a w') := by
  unfold NoCommitAfterLoss
  infer_instance

/-- On the chain throughout; up to the first failed commit in one line. -/
structure CommitsKept (c : ChainConfig) (chain : NodeChain) (lost : Bool) (w : System) : Prop where
  served : ChainServed c chain w
  line : lost = false → ∃ L T, Following c L T w ∧ T <+: chain.cores
  whole : NoHoles w.index.db c.chainId

theorem commitsKept_step {lost : Bool} (h : CommitsKept c chain lost w)
    (hstep : systemStep c w a = some w')
    (hC : Serves chain w a w' ∧ NoCommitAfterLoss c lost w a w') :
    CommitsKept c chain (noteLost c lost w a w') w' := by
  have hserved := h.served.step hstep hC.1
  cases hlost : noteLost c lost w a w' with
  | false =>
      simp only [noteLost, Bool.or_eq_false_iff, beq_eq_false_iff_ne] at hlost
      obtain ⟨L, T, hline, hp⟩ := h.line hlost.1
      obtain ⟨L', T', hline', hp'⟩ := following_step hline hp h.served hstep hC.1 hlost.2
      exact ⟨hserved, fun _ => ⟨L', T', hline', hp'⟩, hline'.spine.stores.noHoles⟩
  | true =>
      have hno : commitOutcome c w.index (indexAction w a w') ≠ some true := by
        intro hcommit
        cases lost with
        | true => exact hC.2 rfl hcommit
        | false => simp [noteLost, hcommit] at hlost
      have hdb : w'.index.db = w.index.db :=
        db_eq_of_transition (transition_of_step (indexStep_of_systemStep hstep)) hno
          h.served.index.not_rolling
      exact ⟨hserved, by simp, hdb ▸ h.whole⟩

/-- Started on a prefix of the node's chain, the store has no holes as long as no commit
follows a failed one. -/
theorem no_height_is_lost {db : Database} {L : List Core} {as : List SystemAction} {t : System}
    (hstores : Stores db c.chainId L) (hp : L <+: chain.cores)
    (hserves : Always (systemStep c) (Serves chain) (.start c db) as)
    (hcommits : EveryStep (systemStep c) (noteLost c) (NoCommitAfterLoss c) false (.start c db) as)
    (hrun : exec (systemStep c) (.start c db) as = some t) :
    NoHoles t.index.db c.chainId := by
  have hindexed : Indexed L := Indexed.initial chain.indexed hp
  have hjoined : Joined L := Joined.initial chain.joined hp
  have h0 : CommitsKept c chain false (.start c db) :=
    ⟨chainServed_start hstores hp, fun _ => ⟨L, L, following_start hstores hindexed hjoined, hp⟩,
      hstores.noHoles⟩
  have hsteps := EveryStep.and (everyStep_of_always hserves) hcommits
  have hend : ∃ lost, CommitsKept c chain lost t := by
    refine exec_invariant (I := CommitsKept c chain) ?_ h0 hsteps hrun
    intro lost w a w' h hstep hC
    exact commitsKept_step h hstep hC
  obtain ⟨_, hkept⟩ := hend
  exact hkept.whole

end

/-! ## A lost height -/

section

open RpcBlock

def threeBlocks : NodeChain :=
  ⟨[bare 0 "a0" "", bare 1 "a1" "a0", bare 2 "a2" "a1"], by decide, by decide⟩

/-- Three pages of one block; the commits of the second and third get `second` and `third`. -/
def threePages (second third : Bool) : List SystemAction :=
  servePage 0 none [bare 0 "a0" ""] ++ handleAll 1 ++ [.endChunk true true] ++
    servePage 1 none [bare 1 "a1" "a0"] ++ handleAll 1 ++ [.endChunk second true] ++
    servePage 2 none [bare 2 "a2" "a1"] ++ handleAll 1 ++ [.endChunk third true]

/-- While the database is down, nothing is committed and nothing is missing below the
cursor. -/
theorem no_height_is_lost_outage :
    ∃ t, systemRun 5 (threePages false false) = some t ∧ NoHoles t.index.db "chain" := by
  refine ⟨(systemRun 5 (threePages false false)).get (by decide), (Option.some_get _).symm, ?_⟩
  exact @no_height_is_lost (.bare 5) threeBlocks .plain .plain .empty [] (threePages false false) _
    (stores_empty _) (List.nil_prefix) (by decide) (by decide) (Option.some_get _).symm

/-- One failed commit between two good ones: the block after it is taken as a gap. -/
theorem failed_commit_leaves_hole :
    ∃ t, systemRun 5 (threePages false true) = some t ∧
      Always (plainSystemStep 5) (Serves threeBlocks) (.start (.bare 5) .empty)
        (threePages false true) ∧ ¬ NoHoles t.index.db "chain" := by
  refine ⟨(systemRun 5 (threePages false true)).get (by decide), (Option.some_get _).symm,
    by decide, fun h => ?_⟩
  exact h 2 (by decide) 1 (by decide) (by decide) (by decide)

end

end Retracer
