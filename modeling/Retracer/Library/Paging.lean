import Retracer.Library.Execution
import Retracer.Library.Sorting

/-! # LIMIT and cursors

Parts may be cut to the limit before they are merged, because the first rows of the whole
are among the first rows of its parts. A reader that asks for the rows behind the last one
it has, in a strict order, takes a list page by page, and what changes the store in between
does not matter as long as it cannot be seen behind the cursor.
-/

namespace Paging

open List Sorting Execution

variable {α : Type}

/-! ## The first rows of a filtered list -/

section

variable {p : α → Bool} {k : Nat} {l : List α}

theorem filter_take_initial : (l.take k).filter p <+: (l.filter p).take k := by
  refine List.prefix_take_iff.mpr ⟨(List.take_prefix k l).filter p, ?_⟩
  exact (List.length_filter_le p (l.take k)).trans (List.length_take_le k l)

theorem mem_take_filter {a : α} (ha : a ∈ l.take k) (hp : p a = true) :
    a ∈ (l.filter p).take k :=
  filter_take_initial.subset (List.mem_filter.mpr ⟨ha, hp⟩)

/-- A filter that the first rows pass does not change them. -/
theorem take_filter (h : ∀ a ∈ l.take k, p a = true) : (l.filter p).take k = l.take k := by
  have hinitial := filter_take_initial (p := p) (k := k) (l := l)
  rw [List.filter_eq_self.mpr h] at hinitial
  have hlength : ((l.filter p).take k).length ≤ (l.take k).length := by
    rw [List.length_take, List.length_take]
    have hle := List.length_filter_le p l
    omega
  exact (hinitial.eq_of_length_le hlength).symm

end

/-! ## The first rows of a union -/

section

variable (r : α → α → Prop) [DecidableRel r]

/-- `ORDER BY r LIMIT k`. -/
def top (k : Nat) (l : List α) : List α := (l.insertionSort r).take k

variable {r} in
theorem mem_of_mem_top {k : Nat} {l : List α} {a : α} (h : a ∈ top r k l) : a ∈ l :=
  (List.mem_insertionSort r).mp (List.mem_of_mem_take h)

theorem nodup_top {k : Nat} {l : List α} (h : l.Nodup) : (top r k l).Nodup :=
  List.Nodup.sublist (List.take_sublist _ _) ((List.perm_insertionSort r l).nodup_iff.mpr h)

theorem map_top {β : Type} {s : β → β → Prop} [DecidableRel s] {f : α → β} {k : Nat} {l : List α}
    (h : ∀ a ∈ l, ∀ b ∈ l, r a b ↔ s (f a) (f b)) : (top r k l).map f = top s k (l.map f) := by
  rw [top, top, List.map_take, List.map_insertionSort r s f l h]

variable [IsTrans α r] [Std.Total r] {k : Nat} {l u b : List α} {p : α → Bool}

/-- Where the order tells the rows apart it does not matter how they came. -/
theorem insertionSort_of_perm (hperm : b.Perm l) (hl : ∀ x ∈ l, ∀ y ∈ l, r x y → r y x → x = y) :
    b.insertionSort r = l.insertionSort r := by
  apply List.Perm.eq_of_pairwise ?_ (List.pairwise_insertionSort r b)
    (List.pairwise_insertionSort r l)
  · exact (List.perm_insertionSort r b).trans (hperm.trans (List.perm_insertionSort r l).symm)
  · intro x y hx hy hxy hyx
    have hxl : x ∈ l := hperm.subset ((List.mem_insertionSort r).mp hx)
    exact hl x hxl y ((List.mem_insertionSort r).mp hy) hxy hyx

omit [DecidableRel r] [IsTrans α r] [Std.Total r] in
/-- Sorted by a key that tells them apart, rows are the same whichever list had them. -/
theorem insertionSort_of_keys {κ : Type} [DecidableEq κ] {le : κ → κ → Prop} [DecidableRel le]
    [IsTrans κ le] [Std.Total le] [Std.Antisymm le] {key : α → κ} (hb : (b.map key).Nodup)
    (hl : (l.map key).Nodup) (hmem : ∀ a, a ∈ b ↔ a ∈ l) :
    b.insertionSort (orderBy le key anyOrder) = l.insertionSort (orderBy le key anyOrder) := by
  apply insertionSort_of_perm
  · exact (List.perm_ext_iff_of_nodup (List.Nodup.of_map key hb)
      (List.Nodup.of_map key hl)).mpr hmem
  · intro x hx y hy hxy hyx
    exact List.inj_on_of_nodup_map hl hx hy (antisymm_of le hxy.1 hyx.1)

theorem insertionSort_of_subset (hb : b.Nodup) (hnodup : l.Nodup)
    (hl : ∀ x ∈ l, ∀ y ∈ l, r x y → r y x → x = y) (hp : ∀ a, a ∈ b ↔ a ∈ l ∧ p a = true) :
    b.insertionSort r = (l.insertionSort r).filter p := by
  rw [filter_insertionSort]
  apply insertionSort_of_perm
  · apply (List.perm_ext_iff_of_nodup hb (hnodup.filter p)).mpr
    intro a
    rw [hp a, List.mem_filter]
  · intro x hx y hy
    exact hl x (List.mem_of_mem_filter hx) y (List.mem_of_mem_filter hy)

/-- The parts may be cut before they are merged. -/
theorem top_union (bs : List (List α)) (hu : u.Nodup) (hnodup : l.Nodup)
    (hl : ∀ x ∈ l, ∀ y ∈ l, r x y → r y x → x = y) (hbs : ∀ b ∈ bs, b.Nodup)
    (hall : ∀ a, a ∈ l ↔ ∃ b ∈ bs, a ∈ b) (hcut : ∀ a, a ∈ u ↔ ∃ b ∈ bs, a ∈ top r k b) :
    top r k u = top r k l := by
  classical
  have hmem : ∀ a, a ∈ u ↔ a ∈ l ∧ decide (a ∈ u) = true := by
    intro a
    refine ⟨fun ha => ⟨?_, decide_eq_true ha⟩, fun ha => of_decide_eq_true ha.2⟩
    obtain ⟨b, hb, hin⟩ := (hcut a).mp ha
    exact (hall a).mpr ⟨b, hb, mem_of_mem_top hin⟩
  rw [top, insertionSort_of_subset r hu hnodup hl hmem]
  apply take_filter
  intro a ha
  obtain ⟨b, hb, hab⟩ := (hall a).mp (mem_of_mem_top ha)
  have hsub : ∀ x, x ∈ b ↔ x ∈ l ∧ decide (x ∈ b) = true := by
    intro x
    refine ⟨fun hx => ⟨(hall x).mpr ⟨b, hb, hx⟩, decide_eq_true hx⟩, fun hx => ?_⟩
    exact of_decide_eq_true hx.2
  -- among the rows of its own part it stands no further back
  have htop : a ∈ top r k b := by
    rw [top, insertionSort_of_subset r (hbs b hb) hnodup hl hsub]
    exact mem_take_filter ha (decide_eq_true hab)
  exact decide_eq_true ((hcut a).mpr ⟨b, hb, htop⟩)

end

/-! ## Behind a cursor -/

section

variable (r : α → α → Prop) [DecidableRel r]

/-- The rows behind the last one received. -/
def behind (last : Option α) (l : List α) : List α :=
  match last with
  | none => l
  | some a => l.filter fun b => r a b

theorem behind_append [Std.Asymm r] {received rest : List α}
    (h : (received ++ rest).Pairwise r) : behind r received.getLast? (received ++ rest) = rest := by
  cases hlast : received.getLast? with
  | none =>
      rw [List.getLast?_eq_none_iff.mp hlast]
      rfl
  | some a =>
      obtain ⟨initial, rfl⟩ := List.getLast?_eq_some_iff.mp hlast
      obtain ⟨hreceived, _, hbehind⟩ := List.pairwise_append.mp h
      have hgone : (initial ++ [a]).filter (fun b => decide (r a b)) = [] := by
        rw [List.filter_eq_nil_iff]
        intro b hb hab
        have hab' : r a b := of_decide_eq_true hab
        rcases List.mem_append.mp hb with hin | hin
        · have hba := (List.pairwise_append.mp hreceived).2.2 b hin a (List.mem_singleton_self a)
          exact asymm_of r hba hab'
        · rw [List.mem_singleton.mp hin] at hab'
          exact asymm_of r hab' hab'
      have hkept : rest.filter (fun b => decide (r a b)) = rest := by
        rw [List.filter_eq_self]
        intro b hb
        exact decide_eq_true (hbehind a (List.mem_append_right _ (List.mem_singleton_self a)) b hb)
      rw [behind, List.filter_append, hgone, hkept, List.nil_append]

end

/-! ## Walking the pages -/

/-- A list that is served in pages. `page` reads one behind a row, `change` is what else may
happen to the store after these rows have been received. -/
structure Pager (σ α ω : Type) where
  limit : Nat
  page : σ → Option α → Option (List α)
  change : List α → σ → ω → Option σ

/-- A reader on its way. -/
structure Walk (σ α : Type) where
  store : σ
  received : List α := []
  pages : Nat := 0
  done : Bool := false

inductive WalkOp (ω : Type) where
  | fetch
  | change (op : ω)

section

variable {σ ω : Type} (pager : Pager σ α ω)

/-- A page that is not full is the last. -/
def Pager.step (w : Walk σ α) : WalkOp ω → Option (Walk σ α)
  | .fetch =>
      if w.done then none
      else (pager.page w.store w.received.getLast?).map fun rows =>
        { store := w.store, received := w.received ++ rows, pages := w.pages + 1
          done := decide (rows.length < pager.limit) }
  | .change op =>
      (pager.change w.received w.store op).map fun store => { w with store }

/-- In every state that is `Seen` from a beginning of the history, a page holds the next rows
of the history. -/
structure Pager.Serves (r : α → α → Prop) [DecidableRel r] (history : List α)
    (Seen : List α → σ → Prop) : Prop where
  ordered : history.Pairwise r
  page : ∀ received store, received <+: history → Seen received store →
    pager.page store received.getLast? =
      some ((behind r received.getLast? history).take pager.limit)
  more : ∀ received rows store, Seen received store → Seen (received ++ rows) store
  change : ∀ received store op store', Seen received store →
    pager.change received store op = some store' → Seen received store'

/-- What the reader has is a beginning of the history, of full pages until the last. -/
structure Walk.Reads (history : List α) (w : Walk σ α) : Prop where
  beginning : ∃ rest, w.received ++ rest = history ∧ (w.done = true → rest = [])
  pages : w.done = false → w.received.length = w.pages * pager.limit

variable {pager} {r : α → α → Prop} [DecidableRel r] [Std.Asymm r] {history : List α}
  {Seen : List α → σ → Prop} {w w' : Walk σ α}

theorem Walk.Reads.page (h : w.Reads pager history) (hserves : pager.Serves r history Seen)
    (hseen : Seen w.received w.store) :
    ∃ rest, w.received ++ rest = history ∧
      pager.page w.store w.received.getLast? = some (rest.take pager.limit) := by
  obtain ⟨rest, hrest, _⟩ := h.beginning
  refine ⟨rest, hrest, ?_⟩
  have hordered := hserves.ordered
  rw [← hrest] at hordered
  rw [hserves.page _ _ ⟨rest, hrest⟩ hseen, ← hrest, behind_append r hordered]

theorem Walk.Reads.step (h : w.Reads pager history) (hserves : pager.Serves r history Seen)
    (hseen : Seen w.received w.store) {op : WalkOp ω} (hstep : pager.step w op = some w') :
    w'.Reads pager history ∧ Seen w'.received w'.store := by
  cases op with
  | fetch =>
      obtain ⟨rest, hrest, hpage⟩ := h.page hserves hseen
      have hnot : w.done = false := by
        by_contra hdone
        rw [Bool.not_eq_false] at hdone
        simp [Pager.step, hdone] at hstep
      rw [Pager.step, hnot, hpage] at hstep
      cases hstep
      refine ⟨⟨⟨rest.drop pager.limit, ?_, ?_⟩, ?_⟩, hserves.more _ _ _ hseen⟩
      · rw [List.append_assoc, List.take_append_drop, hrest]
      · intro hlast
        have hlt := of_decide_eq_true hlast
        rw [List.length_take] at hlt
        rw [List.drop_eq_nil_iff]
        omega
      · intro hfull
        have hge := of_decide_eq_false hfull
        rw [List.length_take] at hge
        rw [List.length_append, List.length_take, h.pages hnot, Nat.add_mul]
        omega
  | change op =>
      obtain ⟨store, hstore, rfl⟩ := Option.map_eq_some_iff.mp hstep
      exact ⟨⟨h.beginning, h.pages⟩, hserves.change _ _ _ _ hseen hstore⟩

/-- A walk that has ended took the history. One that has not can go on, and its pages so far
were full. -/
theorem Pager.Serves.walk (hserves : pager.Serves r history Seen) {store : σ}
    (hstart : Seen [] store) {ops : List (WalkOp ω)}
    (hrun : exec pager.step { store } ops = some w) :
    (w.done = true → w.received = history) ∧
      (w.done = false → (pager.step w .fetch).isSome ∧ w.pages * pager.limit ≤ history.length) := by
  have hinv : w.Reads pager history ∧ Seen w.received w.store := by
    apply exec_preserves ?_ ?_ hrun
    · intro w op w' ⟨hreads, hseen⟩ hstep
      exact hreads.step hserves hseen hstep
    · refine ⟨⟨⟨history, rfl, fun hdone => nomatch hdone⟩, fun _ => ?_⟩, hstart⟩
      simp
  obtain ⟨hreads, hseen⟩ := hinv
  obtain ⟨rest, hrest, hlast⟩ := hreads.beginning
  constructor
  · intro hdone
    rw [← hrest, hlast hdone, List.append_nil]
  · intro hdone
    obtain ⟨_, _, hpage⟩ := hreads.page hserves hseen
    constructor
    · simp [Pager.step, hdone, hpage]
    · rw [← hreads.pages hdone, ← hrest, List.length_append]
      exact Nat.le_add_right _ _

end

end Paging
