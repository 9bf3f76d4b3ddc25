import Mathlib.Logic.Basic

/-! # Finite runs of a partial step function

`exec` runs a list of actions and fails at the first one that is not enabled.
A condition on a run is stated once per step, over the states before and after
it and over a note: a value folded along the run (a history, a running maximum,
a flag) that the machine itself never reads. Invariants are proved once per step
and lifted to runs here.
-/

namespace Execution

variable {σ α μ : Type}

def exec (step : σ → α → Option σ) : σ → List α → Option σ
  | s, [] => some s
  | s, a :: as => (step s a).bind fun s' => exec step s' as

variable {step : σ → α → Option σ}

theorem exec_cons (s : σ) (a : α) (as : List α) :
    exec step s (a :: as) = (step s a).bind fun s' => exec step s' as := rfl

theorem exec_cons_of_step {s s' : σ} {a : α} (h : step s a = some s') (as : List α) :
    exec step s (a :: as) = exec step s' as := by
  rw [exec_cons, h, Option.bind_some]

theorem exec_append (s : σ) (as bs : List α) :
    exec step s (as ++ bs) = (exec step s as).bind fun s' => exec step s' bs := by
  induction as generalizing s with
  | nil => rfl
  | cons a as ih =>
      rw [List.cons_append, exec_cons, exec_cons, Option.bind_assoc]
      exact congrArg _ (funext ih)

theorem exec_append_of_exec {s t : σ} {as : List α} (h : exec step s as = some t)
    (bs : List α) : exec step s (as ++ bs) = exec step t bs := by
  rw [exec_append, h, Option.bind_some]

/-- What every step keeps holds at the end. -/
theorem exec_preserves {I : σ → Prop} (hstep : ∀ s a s', I s → step s a = some s' → I s')
    {s t : σ} {as : List α} (h0 : I s) (hrun : exec step s as = some t) : I t := by
  induction as generalizing s with
  | nil =>
      cases hrun
      exact h0
  | cons a as ih =>
      rw [exec_cons, Option.bind_eq_some_iff] at hrun
      obtain ⟨s', hs, hrest⟩ := hrun
      exact ih (hstep s a s' h0 hs) hrest

/-- What every step keeps may name the steps taken so far. -/
theorem exec_history {I : List α → σ → Prop}
    (hstep : ∀ past s a s', I past s → step s a = some s' → I (past ++ [a]) s')
    {past : List α} {s t : σ} {as : List α} (h0 : I past s) (hrun : exec step s as = some t) :
    I (past ++ as) t := by
  induction as generalizing past s with
  | nil =>
      cases hrun
      rw [List.append_nil]
      exact h0
  | cons a as ih =>
      rw [exec_cons, Option.bind_eq_some_iff] at hrun
      obtain ⟨s', hs, hrest⟩ := hrun
      have hthen := ih (hstep past s a s' h0 hs) hrest
      rwa [List.append_assoc] at hthen

/-! ## Conditions on every step -/

/-- Every step that the run `as` takes from `s` satisfies `C`, the note being `m`
at the start and updated by `note` after each step. -/
def EveryStep (step : σ → α → Option σ) (note : μ → σ → α → σ → μ)
    (C : μ → σ → α → σ → Prop) : μ → σ → List α → Prop
  | _, _, [] => True
  | m, s, a :: as =>
      match step s a with
      | none => True
      | some s' => C m s a s' ∧ EveryStep step note C (note m s a s') s' as

/-- The same without a note. -/
abbrev Always (step : σ → α → Option σ) (C : σ → α → σ → Prop) (s : σ) (as : List α) : Prop :=
  EveryStep step (fun _ _ _ _ => ()) (fun _ => C) () s as

variable {note : μ → σ → α → σ → μ} {C D : μ → σ → α → σ → Prop}

theorem everyStep_cons_of_step {m : μ} {s s' : σ} {a : α} {as : List α}
    (h : step s a = some s') :
    EveryStep step note C m s (a :: as) ↔
      C m s a s' ∧ EveryStep step note C (note m s a s') s' as := by
  simp [EveryStep, h]

theorem everyStep_cons_of_none {m : μ} {s : σ} {a : α} {as : List α}
    (h : step s a = none) : EveryStep step note C m s (a :: as) := by
  simp [EveryStep, h]

instance EveryStep.decidable [∀ m s a s', Decidable (C m s a s')] :
    ∀ m s as, Decidable (EveryStep step note C m s as)
  | _, _, [] => inferInstanceAs (Decidable True)
  | m, s, a :: as =>
      match h : step s a with
      | none => isTrue (everyStep_cons_of_none h)
      | some s' =>
          have := EveryStep.decidable (note m s a s') s' as
          decidable_of_iff _ (everyStep_cons_of_step h).symm

/-- A step invariant that may use `C` holds at the end of a run whose steps all
satisfy `C`. -/
theorem exec_invariant {I : μ → σ → Prop}
    (hstep : ∀ m s a s', I m s → step s a = some s' → C m s a s' → I (note m s a s') s')
    {m : μ} {s t : σ} {as : List α} (h0 : I m s) (hC : EveryStep step note C m s as)
    (hrun : exec step s as = some t) : ∃ m', I m' t := by
  induction as generalizing m s with
  | nil =>
      cases hrun
      exact ⟨m, h0⟩
  | cons a as ih =>
      cases h : step s a with
      | none => simp [exec_cons, h] at hrun
      | some s' =>
          rw [everyStep_cons_of_step h] at hC
          rw [exec_cons_of_step h] at hrun
          exact ih (hstep m s a s' h0 h hC.1) hC.2 hrun

/-- The noteless form. -/
theorem always_invariant {I : σ → Prop} {C : σ → α → σ → Prop}
    (hstep : ∀ s a s', I s → step s a = some s' → C s a s' → I s')
    {s t : σ} {as : List α} (h0 : I s) (hC : Always step C s as)
    (hrun : exec step s as = some t) : I t := by
  obtain ⟨_, h⟩ := exec_invariant (I := fun _ => I) (fun _ s a s' => hstep s a s') h0 hC hrun
  exact h

/-- A step invariant turns a condition on every step into a consequence of it on
every step. -/
theorem everyStep_imp {I : μ → σ → Prop}
    (hstep : ∀ m s a s', I m s → step s a = some s' → C m s a s' → I (note m s a s') s')
    (hD : ∀ m s a s', I m s → step s a = some s' → C m s a s' → D m s a s')
    {m : μ} {s : σ} {as : List α} (h0 : I m s) (hC : EveryStep step note C m s as) :
    EveryStep step note D m s as := by
  induction as generalizing m s with
  | nil => trivial
  | cons a as ih =>
      cases h : step s a with
      | none => exact everyStep_cons_of_none h
      | some s' =>
          rw [everyStep_cons_of_step h] at hC ⊢
          exact ⟨hD m s a s' h0 h hC.1, ih (hstep m s a s' h0 h hC.1) hC.2⟩

theorem EveryStep.and {m : μ} {s : σ} {as : List α} (hC : EveryStep step note C m s as)
    (hD : EveryStep step note D m s as) :
    EveryStep step note (fun m s a s' => C m s a s' ∧ D m s a s') m s as := by
  induction as generalizing m s with
  | nil => trivial
  | cons a as ih =>
      cases h : step s a with
      | none => exact everyStep_cons_of_none h
      | some s' =>
          rw [everyStep_cons_of_step h] at hC hD ⊢
          exact ⟨⟨hC.1, hD.1⟩, ih hC.2 hD.2⟩

/-- A condition that reads no note, along any note. -/
theorem everyStep_of_always {C : σ → α → σ → Prop} {m : μ} {s : σ} {as : List α}
    (h : Always step C s as) : EveryStep step note (fun _ => C) m s as := by
  induction as generalizing m s with
  | nil => trivial
  | cons a as ih =>
      cases hs : step s a with
      | none => exact everyStep_cons_of_none hs
      | some s' =>
          rw [Always, everyStep_cons_of_step hs] at h
          rw [everyStep_cons_of_step hs]
          exact ⟨h.1, ih h.2⟩

/-- A condition on the actions alone. -/
theorem always_of_forall {C : α → Prop} {s : σ} {as : List α} (h : ∀ a ∈ as, C a) :
    Always step (fun _ a _ => C a) s as := by
  induction as generalizing s with
  | nil => trivial
  | cons a as ih =>
      cases hs : step s a with
      | none => exact everyStep_cons_of_none hs
      | some s' =>
          rw [Always, everyStep_cons_of_step hs]
          exact ⟨h a List.mem_cons_self, ih fun b hb => h b (List.mem_cons_of_mem _ hb)⟩

/-- Where a step keeps the invariant exactly under `C`, every state reached satisfies it
exactly when every step satisfies `C`. -/
theorem always_iff {I : σ → Prop} {C : σ → α → σ → Prop}
    (hstep : ∀ s a s', I s → step s a = some s' → (I s' ↔ C s a s'))
    {s : σ} (h0 : I s) (as : List α) :
    Always step (fun _ _ s' => I s') s as ↔ Always step C s as := by
  induction as generalizing s with
  | nil => exact Iff.rfl
  | cons a as ih =>
      cases h : step s a with
      | none => exact iff_of_true (everyStep_cons_of_none h) (everyStep_cons_of_none h)
      | some s' =>
          rw [Always, Always, everyStep_cons_of_step h, everyStep_cons_of_step h,
            hstep s a s' h0 h]
          constructor
          · rintro ⟨hc, hrest⟩
            exact ⟨hc, (ih ((hstep s a s' h0 h).mpr hc)).mp hrest⟩
          · rintro ⟨hc, hrest⟩
            exact ⟨hc, (ih ((hstep s a s' h0 h).mpr hc)).mpr hrest⟩

end Execution
