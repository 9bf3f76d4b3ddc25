import Mathlib.Data.List.Induction

/-! # Stores that are functions of what they keep

A store takes items in order, may be given one of them again, and is cut back to its
first items. `same` is the equality one is interested in. Under the laws below every
store reached this way is the same as one that was given each kept item once.
-/

namespace Replay

variable {σ β : Type}

structure Store (σ β : Type) where
  init : σ
  /-- `none` when the item is refused; nothing is changed then. -/
  put : σ → β → Option σ
  /-- Back to the first `n` items. -/
  cut : σ → Nat → σ
  same : σ → σ → Prop

namespace Store

def putAll (S : Store σ β) (s : σ) (items : List β) : Option σ := items.foldlM S.put s

def replay (S : Store σ β) (items : List β) : Option σ := S.putAll S.init items

/-- Up to `same`, the store that was given each item once, in order. -/
def Holds (S : Store σ β) (s : σ) (items : List β) : Prop :=
  ∃ t, S.replay items = some t ∧ S.same s t

variable (S : Store σ β)

theorem putAll_cons (s : σ) (item : β) (items : List β) :
    S.putAll s (item :: items) = (S.put s item).bind fun s' => S.putAll s' items := rfl

theorem putAll_append (s : σ) (items more : List β) :
    S.putAll s (items ++ more) = (S.putAll s items).bind fun s' => S.putAll s' more :=
  List.foldlM_append

theorem replay_snoc {items : List β} {item : β} {t : σ} (h : S.replay (items ++ [item]) = some t) :
    ∃ s, S.replay items = some s ∧ S.put s item = some t := by
  unfold replay at h
  rw [putAll_append, Option.bind_eq_some_iff] at h
  obtain ⟨s, hs, ht⟩ := h
  rw [putAll_cons, Option.bind_eq_some_iff] at ht
  obtain ⟨t', ht', heq⟩ := ht
  cases heq
  exact ⟨s, hs, ht'⟩

/-- `InOrder` says which lists of items belong into a store. The laws are about stores
that were just filled, so a proof of them may use whatever filling establishes. -/
structure Laws (InOrder : List β → Prop) : Prop where
  refl : ∀ s, S.same s s
  symm : ∀ {s t}, S.same s t → S.same t s
  trans : ∀ {s t u}, S.same s t → S.same t u → S.same s u
  initial : ∀ {items more}, InOrder (items ++ more) → InOrder items
  put_congr : ∀ {s t s'} {item : β}, S.same s t → S.put s item = some s' →
    ∃ t', S.put t item = some t' ∧ S.same s' t'
  cut_congr : ∀ {s t} (n : Nat), S.same s t → S.same (S.cut s n) (S.cut t n)
  cut_put : ∀ {items s s'} {item : β} {n : Nat}, InOrder (items ++ [item]) →
    S.replay items = some s → S.put s item = some s' → n ≤ items.length →
    S.same (S.cut s' n) (S.cut s n)
  cut_all : ∀ {items s}, InOrder items → S.replay items = some s →
    S.same (S.cut s items.length) s
  put_again : ∀ {items s} {item : β}, InOrder items → S.replay items = some s → item ∈ items →
    ∃ s', S.put s item = some s' ∧ S.same s' s

namespace Laws

variable {S} {InOrder : List β → Prop} {s s' t : σ} {items more : List β} {item : β}

theorem holds_init (h : S.Laws InOrder) : S.Holds S.init [] := ⟨S.init, rfl, h.refl _⟩

theorem putAll_congr (h : S.Laws InOrder) (hsame : S.same s t)
    (hput : S.putAll s items = some s') : ∃ t', S.putAll t items = some t' ∧ S.same s' t' := by
  induction items generalizing s t with
  | nil =>
      cases hput
      exact ⟨t, rfl, hsame⟩
  | cons item items ih =>
      rw [putAll_cons, Option.bind_eq_some_iff] at hput
      obtain ⟨mid, hmid, hrest⟩ := hput
      obtain ⟨mid', hmid', hsame'⟩ := h.put_congr hsame hmid
      obtain ⟨t', ht', hend⟩ := ih hsame' hrest
      exact ⟨t', by rw [putAll_cons, hmid', Option.bind_some, ht'], hend⟩

/-- New items. -/
theorem holds_putAll (h : S.Laws InOrder) (hs : S.Holds s items)
    (hput : S.putAll s more = some s') : S.Holds s' (items ++ more) := by
  obtain ⟨t, ht, hsame⟩ := hs
  obtain ⟨t', ht', hend⟩ := h.putAll_congr hsame hput
  refine ⟨t', ?_, hend⟩
  unfold replay at ht ⊢
  rw [putAll_append, ht, Option.bind_some, ht']

/-- An item that is already there is taken without a difference. -/
theorem put_again_of_holds (h : S.Laws InOrder) (hs : S.Holds s items) (hin : InOrder items)
    (hmem : item ∈ items) : ∃ s', S.put s item = some s' ∧ S.same s' s := by
  obtain ⟨t, ht, hsame⟩ := hs
  obtain ⟨t', ht', hback⟩ := h.put_again hin ht hmem
  obtain ⟨s', hs', hend⟩ := h.put_congr (h.symm hsame) ht'
  exact ⟨s', hs', h.trans (h.symm hend) (h.trans hback (h.symm hsame))⟩

/-- Cutting forgets what came after, put by put. -/
theorem cut_replay (h : S.Laws InOrder) (hin : InOrder (items ++ more))
    (ht : S.replay (items ++ more) = some t) :
    ∃ u, S.replay items = some u ∧ S.same (S.cut t items.length) u := by
  induction more using List.reverseRecOn generalizing t with
  | nil =>
      rw [List.append_nil] at hin ht
      exact ⟨t, ht, h.cut_all hin ht⟩
  | append_singleton more item ih =>
      rw [← List.append_assoc] at hin ht
      obtain ⟨s, hs, hput⟩ := S.replay_snoc ht
      obtain ⟨u, hu, hsame⟩ := ih (h.initial hin) hs
      refine ⟨u, hu, h.trans (h.cut_put hin hs hput ?_) hsame⟩
      rw [List.length_append]
      exact Nat.le_add_right _ _

/-- Cutting back to the first `n` items. -/
theorem holds_cut (h : S.Laws InOrder) (hs : S.Holds s items) (hin : InOrder items) {n : Nat}
    (hn : n ≤ items.length) : S.Holds (S.cut s n) (items.take n) := by
  obtain ⟨t, ht, hsame⟩ := hs
  rw [← List.take_append_drop n items] at hin ht
  obtain ⟨u, hu, hcut⟩ := h.cut_replay hin ht
  rw [List.length_take_of_le hn] at hcut
  exact ⟨u, hu, h.trans (h.cut_congr n hsame) hcut⟩

/-- The same store under a coarser equality, as long as taking and cutting respect it. -/
theorem coarser (h : S.Laws InOrder) {same : σ → σ → Prop} (heq : Equivalence same)
    (hsub : ∀ {s t}, S.same s t → same s t)
    (hput : ∀ {s t s'} {item : β}, same s t → S.put s item = some s' →
      ∃ t', S.put t item = some t' ∧ same s' t')
    (hcut : ∀ {s t} (n : Nat), same s t → same (S.cut s n) (S.cut t n)) :
    Laws { S with same } InOrder where
  refl := heq.refl
  symm := heq.symm
  trans := heq.trans
  initial := h.initial
  put_congr := hput
  cut_congr := hcut
  cut_put hin hfill hitem hn := hsub (h.cut_put hin hfill hitem hn)
  cut_all hin hfill := hsub (h.cut_all hin hfill)
  put_again := by
    intro items s item hin hfill hmem
    obtain ⟨s', hs', hsame⟩ := h.put_again hin hfill hmem
    exact ⟨s', hs', hsub hsame⟩

end Laws

end Store

end Replay
