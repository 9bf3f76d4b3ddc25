import Retracer.Webhooks.Dispatch

/-! # Delivery up to the finalized height

The dispatcher caps its tip at the height in the network view. A process that has just
started has no answer of the node in its view, and then nothing is capped: it must not
take a tip before the first answer.
-/

namespace Retracer

open KeyedTable Execution

/-! ## Heights of the blocks that are posted -/

def DrainPhase.UpTo (tip : Int) : DrainPhase → Prop
  | .reading r => ∀ b ∈ r.rows, b.height ≤ tip
  | .posting _ block later => ∀ b ∈ block :: later, b.height ≤ tip
  | .page | .failed _ => True

/-- The tip of a round is covered, and its page is below it. -/
def Dispatcher.UpTo (Covered : Int → Prop) : Dispatcher → Prop
  | .draining tip _ phase _ _ => Covered tip ∧ phase.UpTo tip
  | _ => True

section

variable {Covered Covered' : Int → Prop} {tip : Int} {hook : WebhooksRow} {phase : DrainPhase}
  {pending more : List WebhooksRow} {d : Dispatcher}

theorem Dispatcher.UpTo.mono (h : d.UpTo Covered) (hmono : ∀ n, Covered n → Covered' n) :
    d.UpTo Covered' := by
  cases d with
  | draining tip hook phase pending more => exact ⟨hmono tip h.1, h.2⟩
  | waiting | listing | readingTip _ | capping _ _ => trivial

theorem Dispatcher.UpTo.of_draining (h : d.UpTo Covered)
    (hphase : d = .draining tip hook phase pending more) : Covered tip ∧ phase.UpTo tip := by
  rw [hphase] at h
  exact h

theorem Dispatcher.upTo_proceed (h : pending ++ more ≠ [] → Covered tip) :
    (Dispatcher.proceed tip pending more).UpTo Covered := by
  cases pending with
  | cons hook pending => exact ⟨h (by simp), trivial⟩
  | nil =>
      cases more with
      | cons hook more => exact ⟨h (by simp), trivial⟩
      | nil => trivial

end

/-! ## The runs in question -/

/-- At or below a finalized height that the node has reported. -/
def HookState.Reported (s : HookState) (height : Int) : Prop := ∃ f ∈ s.reported, height ≤ (f : Int)

/-- A process that has just started, on any database. -/
structure HookState.Started (s : HookState) : Prop where
  registering : s.registering = []
  finalized : s.finalized = none
  dispatcher : s.dispatcher = .waiting
  posts : s.posts = []

/-- Every answer has a finalized height, no lower than any before. -/
def Finalizing (s : HookState) (op : HookOp) (_ : HookState) : Prop :=
  match op with
  | .status none => False
  | .status (some f) => ∀ g ∈ s.reported, g ≤ f
  | _ => True

/-- A tip is taken only with a height in the view. It does no harm either when a reported
height is no lower, or when no hook is behind the tip. -/
def TipIsCapped (s : HookState) (op : HookOp) (_ : HookState) : Prop :=
  match op, s.dispatcher with
  | .cap _, .capping hooks indexed =>
      s.finalized.isSome = true ∨ (∃ f ∈ s.reported, indexed ≤ (f : Int)) ∨
        ∀ h ∈ hooks, h.enabled = true → indexed ≤ h.cursorHeight
  | _, _ => True

instance (s : HookState) (op : HookOp) (s' : HookState) : Decidable (TipIsCapped s op s') := by
  unfold TipIsCapped
  split <;> infer_instance

instance (s : HookState) (op : HookOp) (s' : HookState) : Decidable (Finalizing s op s') := by
  unfold Finalizing
  split <;> infer_instance

/-! ## Along a run -/

structure HookState.Final (s : HookState) : Prop where
  view : ∀ f ∈ s.finalized, f ∈ s.reported
  posts : ∀ post ∈ s.posts, s.Reported post.block.height
  round : s.dispatcher.UpTo s.Reported

theorem deliverableTip_le {f : Nat} (indexed : Int) :
    deliverableTip indexed (some f) ≤ (f : Int) := by
  unfold deliverableTip
  rw [Option.elim_some]
  split <;> omega

section

variable [Postgres] [Collation] {c : HookConfig} {s s' : HookState} {op : HookOp}

omit [Postgres] [Collation] in
/-- No hook to go round is at or above the tip. -/
theorem pendingHooks_eq_nil {hooks : List WebhooksRow} {tip : Int}
    (h : ∀ w ∈ hooks, w.enabled = true → tip ≤ w.cursorHeight) (backoff : Backoff) (now : Nat) :
    pendingHooks hooks tip backoff now = [] := by
  have hnone : (hooks.filter fun w => w.enabled ∧ w.cursorHeight < tip) = [] := by
    rw [List.filter_eq_nil_iff]
    intro w hw
    simp only [decide_eq_true_eq, not_and, Int.not_lt]
    exact h w hw
  rw [pendingHooks, hnone]
  rfl

omit [Postgres] [Collation] in
theorem HookState.Final.finish (h : s.Final) {tip : Int} {hook : WebhooksRow}
    (htip : s.Reported tip) (pending more : List WebhooksRow) (owed : Bool) :
    (s.finish tip hook pending more owed).Final :=
  ⟨h.view, h.posts, Dispatcher.upTo_proceed fun _ => htip⟩

omit [Postgres] [Collation] in
theorem HookState.Final.setDb (h : s.Final) (db : Database) : (s.setDb db).Final :=
  ⟨h.view, h.posts, h.round⟩

omit [Postgres] [Collation] in
theorem HookState.Final.post (h : s.Final) {post : Post} {d : Dispatcher}
    (hpost : s.Reported post.block.height) (hround : d.UpTo s.Reported) :
    ({ s with posts := s.posts ++ [post], dispatcher := d } : HookState).Final := by
  refine ⟨h.view, ?_, hround⟩
  intro other hother
  rcases List.mem_append.mp hother with hold | hnew
  · exact h.posts other hold
  · rw [List.mem_singleton.mp hnew]
    exact hpost

omit [Postgres] [Collation] in
theorem HookState.Final.cap (h : s.Final) {hooks : List WebhooksRow} {indexed : Int}
    (hcapped : s.finalized.isSome = true ∨ (∃ f ∈ s.reported, indexed ≤ (f : Int)) ∨
      ∀ h ∈ hooks, h.enabled = true → indexed ≤ h.cursorHeight) (now : Nat) :
    (Dispatcher.proceed (deliverableTip indexed s.finalized)
      (pendingHooks hooks (deliverableTip indexed s.finalized) s.backoff now) []).UpTo
        s.Reported := by
  apply Dispatcher.upTo_proceed
  intro hpending
  cases hview : s.finalized with
  | some f => exact ⟨f, h.view f hview, deliverableTip_le indexed⟩
  | none =>
      rw [hview] at hcapped hpending
      rcases hcapped with hsome | hreported | hnone
      · cases hsome
      · exact hreported
      · rw [List.append_nil] at hpending
        exact absurd (pendingHooks_eq_nil hnone s.backoff now) hpending

theorem final_step (h : s.Final) (hs : s.Stepped c op s') (hcapped : TipIsCapped s op s') :
    s'.Final := by
  cases hs with
  | store _ => exact ⟨h.view, h.posts, h.round⟩
  | @status finalized =>
      have hmono : ∀ n, s.Reported n →
          HookState.Reported
            { s with finalized, reported := s.reported ++ finalized.toList } n := by
        rintro n ⟨f, hf, hle⟩
        exact ⟨f, List.mem_append_left _ hf, hle⟩
      refine ⟨?_, fun post hpost => hmono _ (h.posts post hpost), h.round.mono hmono⟩
      intro f hf
      exact List.mem_append_right _ (Option.mem_toList.mpr hf)
  | restart => exact ⟨(fun f hf => nomatch hf), h.posts, trivial⟩
  | refused => exact h
  | register _ => exact ⟨h.view, h.posts, h.round⟩
  | upsert _ _ => exact ⟨h.view, h.posts, h.round⟩
  | remove => exact h.setDb _
  | wake _ | allDisabled _ | list _ | noTip _ | readTip _ | failEarly =>
      exact ⟨h.view, h.posts, trivial⟩
  | @cap now hooks indexed tip hphase htip =>
      subst htip
      simp only [TipIsCapped, hphase] at hcapped
      exact ⟨h.view, h.posts, h.cap hcapped now⟩
  | selectNone hphase => exact h.finish (h.round.of_draining hphase).1 _ _ _
  | select hphase hrows _ =>
      refine ⟨h.view, h.posts, (h.round.of_draining hphase).1, ?_⟩
      intro b hb
      rw [← hrows] at hb
      exact (mem_selectBlocks hb).2.2
  | readActions hphase _ _ =>
      obtain ⟨htip, hrows⟩ := h.round.of_draining hphase
      exact ⟨h.view, h.posts, htip, hrows⟩
  | readNone hphase => exact h.finish (h.round.of_draining hphase).1 _ _ _
  | @read tip hook pending more r found block later hphase hsome hblocks =>
      obtain ⟨htip, hrows⟩ := h.round.of_draining hphase
      refine ⟨h.view, h.posts, htip, ?_⟩
      intro b hb
      rw [← hblocks] at hb
      have hheight := List.mem_map_of_mem (f := (·.height)) hb
      rw [BlocksRead.heights_assemble] at hheight
      obtain ⟨row, hrow, heq⟩ := List.mem_map.mp hheight
      rw [← heq]
      exact hrows row hrow
  | post hphase =>
      obtain ⟨htip, hpage⟩ := h.round.of_draining hphase
      obtain ⟨f, hf, hle⟩ := htip
      exact h.post ⟨f, hf, (hpage _ List.mem_cons_self).trans hle⟩ ⟨⟨f, hf, hle⟩, hpage⟩
  | postFailed hphase =>
      obtain ⟨htip, hpage⟩ := h.round.of_draining hphase
      obtain ⟨f, hf, hle⟩ := htip
      exact h.post ⟨f, hf, (hpage _ List.mem_cons_self).trans hle⟩ ⟨⟨f, hf, hle⟩, trivial⟩
  | @mark tip hook pending more block later hphase _ =>
      obtain ⟨htip, hpage⟩ := h.round.of_draining hphase
      have hmarked := h.setDb (webhookDelivered s.store.db hook.id block.height block.hash).1
      cases later with
      | nil => exact hmarked.finish htip pending more _
      | cons next later =>
          exact ⟨h.view, h.posts, htip, fun b hb => hpage b (List.mem_cons_of_mem _ hb)⟩
  | @markMissed tip hook pending more block later hphase _ =>
      have hmissed := h.setDb (webhookDelivered s.store.db hook.id block.height block.hash).1
      exact hmissed.finish (h.round.of_draining hphase).1 pending more false
  | fail hphase => exact ⟨h.view, h.posts, (h.round.of_draining hphase).1, trivial⟩
  | record hphase _ =>
      exact ⟨h.view, h.posts, Dispatcher.upTo_proceed fun _ => (h.round.of_draining hphase).1⟩

/-- Every block posted is at or below a finalized height the node had reported. -/
theorem only_finalized_blocks_are_posted {t : HookState} {ops : List HookOp} (hstart : s.Started)
    (hcapped : Always (hookStep c) TipIsCapped s ops) (hrun : exec (hookStep c) s ops = some t) :
    ∀ post ∈ t.posts, ∃ f ∈ t.reported, post.block.height ≤ (f : Int) := by
  have h0 : s.Final := by
    refine ⟨?_, ?_, ?_⟩
    · rw [hstart.finalized]
      exact fun f hf => nomatch hf
    · rw [hstart.posts]
      exact fun post hpost => nomatch hpost
    · rw [hstart.dispatcher]
      trivial
  have hfinal : t.Final := by
    apply always_invariant _ h0 hcapped hrun
    intro s op s' h hs hcapped
    exact final_step h (HookState.stepped hs) hcapped
  exact hfinal.posts

end

/-! ## Concrete runs -/

/-- Block 0 is final, block 1 is not yet, and a hook is owed both. -/
def unfinalizedBlock : List HookOp :=
  [.store (.insert [.bare 0 "g" "", .transfer 1 "a" "g" "alice" "tx"]), .status (some 0)] ++
    registration 0

/-- The process restarts, and its first answer has block 1. -/
def answeredFirst : List HookOp :=
  unfinalizedBlock ++ [.restart, .status (some 1)] ++ firstPage 0 ++ [.mark, .post none, .mark]

theorem only_finalized_blocks_are_posted_answered :
    ∃ t, exec smallHookStep {} answeredFirst = some t ∧ t.posts.length = 1 ∧
      ∀ post ∈ t.posts, ∃ f ∈ t.reported, post.block.height ≤ (f : Int) := by
  have hsome : (exec smallHookStep {} answeredFirst).map (·.posts.length) = some 1 := by decide
  obtain ⟨t, ht, hlength⟩ := Option.map_eq_some_iff.mp hsome
  have hstart : HookState.Started {} := ⟨rfl, rfl, rfl, rfl⟩
  have hcapped : Always smallHookStep TipIsCapped {} answeredFirst := by decide
  exact ⟨t, ht, hlength, @only_finalized_blocks_are_posted .plain .plain _ _ _ _ hstart hcapped ht⟩

/-- The process restarts, and the dispatcher wakes before the first answer. -/
def wokenFirst : List HookOp :=
  unfinalizedBlock ++ [.restart] ++ firstPage 0 ++ [.mark, .post none]

theorem unfinalized_block_is_posted :
    ¬ ∀ (s t : HookState) (ops : List HookOp), s.Started → Always smallHookStep Finalizing s ops →
      exec smallHookStep s ops = some t →
      ∀ post ∈ t.posts, ∃ f ∈ t.reported, post.block.height ≤ (f : Int) := by
  intro h
  have hposted : (exec smallHookStep {} wokenFirst).any (fun t =>
      t.posts.any fun post => t.reported.all fun f => (f : Int) < post.block.height) = true := by
    decide
  rw [Option.any_eq_true] at hposted
  obtain ⟨t, ht, hposts⟩ := hposted
  obtain ⟨post, hpost, hall⟩ := List.any_eq_true.mp hposts
  have hfinalizing : Always smallHookStep Finalizing {} wokenFirst := by decide
  obtain ⟨f, hf, hle⟩ := h {} t wokenFirst ⟨rfl, rfl, rfl, rfl⟩ hfinalizing ht post hpost
  have hlt := of_decide_eq_true (List.all_eq_true.mp hall f hf)
  omega

end Retracer
