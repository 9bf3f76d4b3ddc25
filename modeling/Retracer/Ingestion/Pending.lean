import Retracer.Ingestion.RpcBlock
import Retracer.Storage.Heights

/-! # What the reader has in hand

Between a page and the last of its sends the reader holds blocks that are not in the
channel yet. Every step either leaves them alone up to their effects, takes the first
one off, replaces none by a page, or ends the task.
-/

namespace Retracer

/-- A block without its contents: its height and its header. -/
abbrev Core := Nat × Header

def IndexableBlock.core (block : IndexableBlock) : Core := (block.height, block.header)

def RpcBlock.core (block : RpcBlock) : Core := (block.height, ⟨block.hash, block.parentHash⟩)

@[simp] theorem RpcBlock.core_indexable (block : RpcBlock) :
    block.indexable.core = block.core := rfl

def Reader.isStopped {B : Type} (r : Reader B) : Bool :=
  match r.pc with
  | .stopped _ => true
  | _ => false

def Reader.pending {B : Type} (r : Reader B) : List B :=
  match r.pc with
  | .askingEffects _ page => page
  | .confirming block _ _ rest => block :: rest
  | .offering _ block _ rest => block :: rest
  | _ => []

variable [SerdeJson] {r r' : Reader RpcBlock}

theorem Reader.step_of_isStopped {input : ReaderInput RpcBlock} (h : r.isStopped = true) :
    r.step input = none := by
  unfold Reader.isStopped at h
  unfold Reader.step
  split at h
  · next hpc => simp [hpc]
  · cases h

/-- The block under way is the one due. -/
def Reader.AtNext (r : Reader RpcBlock) : Prop :=
  match r.pc with
  | .confirming block _ _ _ => block.height = r.next
  | .offering height _ _ _ => height = r.next
  | _ => True

/-- The loop over a page: it goes on with the page as it is, or a height is wrong. -/
theorem Reader.forBlocks_spec (r : Reader RpcBlock) (effects : List (Nat × Json))
    (page : List RpcBlock) :
    (r.forBlocks effects page).next = r.next ∧ (r.forBlocks effects page).AtNext ∧
      ((r.forBlocks effects page).pending = page ∧ (r.forBlocks effects page).isStopped = false ∨
        (r.forBlocks effects page).pending = [] ∧ (r.forBlocks effects page).isStopped = true) := by
  unfold Reader.forBlocks
  cases page with
  | nil => exact ⟨rfl, trivial, Or.inl ⟨rfl, rfl⟩⟩
  | cons block rest =>
      dsimp only
      by_cases hheight : HasHeight.height block = r.next
      · rw [if_neg (not_not_intro hheight)]
        rcases removeEffects (HasHeight.height block) effects with ⟨_ | entry, remaining⟩
        · exact ⟨rfl, hheight, Or.inl ⟨rfl, rfl⟩⟩
        · exact ⟨rfl, hheight, Or.inl ⟨rfl, rfl⟩⟩
      · rw [if_pos hheight]
        exact ⟨rfl, trivial, Or.inr ⟨rfl, rfl⟩⟩

omit [SerdeJson] in
theorem Reader.afterStatus_spec (r : Reader RpcBlock) (status : Status) :
    (r.afterStatus status).pending = [] ∧ (r.afterStatus status).AtNext := by
  unfold Reader.pending Reader.AtNext Reader.afterStatus
  by_cases hnext : r.next > status.tipHeight <;> simp [hnext]

inductive Reader.Moved (r : Reader RpcBlock) : ReaderInput RpcBlock → Reader RpcBlock → Prop
  | rewound {r' : Reader RpcBlock} {height : Nat} (hold : r.pending = [])
      (hnew : r'.pending = []) (hnext : r'.next = height) (hrun : r'.isStopped = false) :
      Moved r (.rewind height) r'
  | paged {r' : Reader RpcBlock} {page : List RpcBlock} (hold : r.pending = [])
      (hnext : r'.next = r.next) (hnew : r'.pending = page) :
      Moved r (.page page) r'
  | sent {r' : Reader RpcBlock} {height : Nat} {block : RpcBlock} {effects : List (Nat × Json)}
      {rest : List RpcBlock} (hpc : r.pc = .offering height block effects rest)
      (hnext : r'.next = height + 1)
      (hnew : r'.pending = rest ∨ r'.pending = [] ∧ r'.isStopped = true) :
      Moved r .sent r'
  | kept {input : ReaderInput RpcBlock} {r' : Reader RpcBlock}
      (hin : input ≠ .sent ∧ ∀ height, input ≠ .rewind height)
      (hnext : r'.next = r.next)
      (hnew : r'.pending.map RpcBlock.core = r.pending.map RpcBlock.core ∨
        r'.pending = [] ∧ r'.isStopped = true) :
      Moved r input r'

theorem Reader.setEffects_core {block filled : RpcBlock} {entry : Json}
    (h : HasHeight.setEffects block entry = .ok filled) : filled.core = block.core := by
  simp only [HasHeight.setEffects, Except.map] at h
  split at h
  · cases h
  · cases h
    rfl

theorem Reader.moved_of_step {input : ReaderInput RpcBlock} (h : r.step input = some r')
    (hat : r.AtNext) : r.Moved input r' ∧ r'.AtNext := by
  unfold Reader.step at h
  split at h
  · next hpc =>
      cases h
      exact ⟨.kept (by simp) rfl (Or.inl (by simp [Reader.pending, hpc])), trivial⟩
  · next hpc =>
      cases h
      exact ⟨.rewound (by simp [Reader.pending, hpc]) (by simp [Reader.pending, hpc]) rfl
        (by simp [Reader.isStopped, hpc]), by simp [Reader.AtNext, hpc]⟩
  · next hpc =>
      cases h
      exact ⟨.kept (by simp) rfl (Or.inl (by simp [Reader.pending, hpc])), trivial⟩
  · next hpc =>
      split at h
      · cases h
        exact ⟨.kept (by simp) rfl (Or.inr ⟨rfl, rfl⟩), trivial⟩
      · cases h
        obtain ⟨hnone, hat'⟩ := Reader.afterStatus_spec r _
        refine ⟨.kept (by simp) rfl (Or.inl ?_), hat'⟩
        rw [hnone]
        simp [Reader.pending, hpc]
  · next hpc =>
      cases h
      exact ⟨.kept (by simp) rfl (Or.inl (by simp [Reader.pending, hpc])), trivial⟩
  · next hpc =>
      cases h
      exact ⟨.rewound (by simp [Reader.pending, hpc]) rfl rfl rfl, trivial⟩
  · next hpc =>
      cases h
      exact ⟨.kept (by simp) rfl (Or.inr ⟨rfl, rfl⟩), trivial⟩
  · next hpc =>
      cases h
      exact ⟨.kept (by simp) rfl (Or.inl (by simp [Reader.pending, hpc])), trivial⟩
  · next hpc =>
      split at h
      · cases h
        exact ⟨.kept (by simp) rfl (Or.inr ⟨rfl, rfl⟩), trivial⟩
      · cases h
        exact ⟨.paged (by simp [Reader.pending, hpc]) rfl rfl, trivial⟩
  · next hpc =>
      cases h
      exact ⟨.kept (by simp) rfl (Or.inl rfl), hat⟩
  · next hpc =>
      cases h
      obtain ⟨hnext, hat', hpage⟩ := Reader.forBlocks_spec r (effectsByHeight _) _
      refine ⟨.kept (by simp) hnext (hpage.imp_left fun hp => ?_), hat'⟩
      rw [hp.1]
      simp [Reader.pending, hpc]
  · next block entry effects rest answers hpc =>
      split at h
      · cases h
        exact ⟨.kept (by simp) rfl (Or.inr ⟨rfl, rfl⟩), trivial⟩
      · next filled hfilled =>
          cases h
          refine ⟨.kept (by simp) rfl (Or.inl ?_), ?_⟩
          · simp [Reader.pending, hpc, Reader.setEffects_core hfilled]
          · simp only [Reader.AtNext, hpc] at hat ⊢
            exact hat
  · next hpc =>
      cases h
      obtain ⟨hnext, hat', hpage⟩ := Reader.forBlocks_spec _ _ _
      exact ⟨.sent hpc hnext (hpage.imp_left And.left), hat'⟩
  · next hpc =>
      cases h
      exact ⟨.kept (by simp) rfl (Or.inr ⟨rfl, rfl⟩), trivial⟩
  · cases h

end Retracer
