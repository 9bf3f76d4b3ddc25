import Retracer.Library.Paging

/-! # Lists read by their keys

A list selects rows of a store, puts them in the order of a key that tells them apart, and
returns something of each that still has the key. The next page is asked for with the key of
the last thing received. Whatever leaves the rows as they are from the first one received on
does not disturb a walk.
-/

namespace Paging

open List Sorting Execution

variable {σ ρ α κ ω : Type}

/-- A walk that has ended received what matches, in order and once, and any other can go on,
for a bounded number of pages. -/
structure Pager.Complete (pager : Pager σ α ω) (r : α → α → Prop) (matching : α → Prop)
    (store : σ) : Prop where
  ended : ∀ ops w, exec pager.step { store } ops = some w → w.done = true →
    w.received.Pairwise r ∧ ∀ a, a ∈ w.received ↔ matching a
  going : ∃ n, ∀ ops w, exec pager.step { store } ops = some w → w.done = false →
    (pager.step w .fetch).isSome ∧ w.pages ≤ n

theorem Pager.Serves.complete {pager : Pager σ α ω} {r : α → α → Prop} [DecidableRel r]
    [Std.Asymm r] {history : List α} {Seen : List α → σ → Prop} {store : σ}
    (h : pager.Serves r history Seen) (hstart : Seen [] store) (hlimit : 1 ≤ pager.limit) :
    pager.Complete r (· ∈ history) store := by
  constructor
  · intro ops w hrun hdone
    rw [(h.walk hstart hrun).1 hdone]
    exact ⟨h.ordered, fun _ => Iff.rfl⟩
  · refine ⟨history.length, fun ops w hrun hgoing => ?_⟩
    obtain ⟨hnext, hpages⟩ := (h.walk hstart hrun).2 hgoing
    exact ⟨hnext, (Nat.le_mul_of_pos_right _ hlimit).trans hpages⟩

theorem Pager.Complete.congr {pager : Pager σ α ω} {r : α → α → Prop} {p p' : α → Prop}
    {store : σ} (h : pager.Complete r p store) (hsame : ∀ a, p a ↔ p' a) :
    pager.Complete r p' store := by
  refine ⟨fun ops w hrun hdone => ?_, h.going⟩
  obtain ⟨hordered, hmem⟩ := h.ended ops w hrun hdone
  exact ⟨hordered, fun a => (hmem a).trans (hsame a)⟩

/-! ## Cursors that are not taken -/

/-- A server that takes some cursors only. -/
def Pager.refusing (pager : Pager σ α ω) (takes : Option α → Bool) : Pager σ α ω :=
  { pager with page := fun store last => if takes last then pager.page store last else none }

section

variable {pager : Pager σ α ω} {takes : Option α → Bool} {w w' : Walk σ α}

theorem Pager.step_of_refusing {op : WalkOp ω} (h : (pager.refusing takes).step w op = some w') :
    pager.step w op = some w' := by
  cases op with
  | change op => exact h
  | fetch =>
      simp only [Pager.step, Pager.refusing] at h ⊢
      by_cases htakes : takes w.received.getLast? = true
      · rwa [if_pos htakes] at h
      · rw [if_neg htakes, Option.map_none, ite_self] at h
        cases h

theorem Pager.isSome_refusing_fetch (h : (pager.step w .fetch).isSome) :
    ((pager.refusing takes).step w .fetch).isSome ↔ takes w.received.getLast? = true := by
  simp only [Pager.step, Pager.refusing] at h ⊢
  by_cases htakes : takes w.received.getLast? = true
  · rw [if_pos htakes]
    exact iff_of_true h htakes
  · rw [if_neg htakes, Option.map_none, ite_self]
    exact iff_of_false Bool.false_ne_true htakes

theorem Pager.exec_of_refusing {ops : List (WalkOp ω)}
    (h : exec (pager.refusing takes).step w ops = some w') : exec pager.step w ops = some w' := by
  induction ops generalizing w with
  | nil => exact h
  | cons op ops ih =>
      rw [exec_cons, Option.bind_eq_some_iff] at h
      obtain ⟨mid, hmid, hrest⟩ := h
      rw [exec_cons_of_step (Pager.step_of_refusing hmid)]
      exact ih hrest

/-- A walk reads what it would read of all cursors, or stops at one that is not taken. -/
structure Pager.CompleteUnless (pager : Pager σ α ω) (takes : Option α → Bool)
    (r : α → α → Prop) (matching : α → Prop) (store : σ) : Prop where
  ended : ∀ ops w, exec pager.step { store } ops = some w → w.done = true →
    w.received.Pairwise r ∧ ∀ a, a ∈ w.received ↔ matching a
  going : ∃ n, ∀ ops w, exec pager.step { store } ops = some w → w.done = false →
    ((pager.step w .fetch).isSome ↔ takes w.received.getLast? = true) ∧ w.pages ≤ n

theorem Pager.Complete.refusing {r : α → α → Prop} {matching : α → Prop} {store : σ}
    (h : pager.Complete r matching store) (takes : Option α → Bool) :
    (pager.refusing takes).CompleteUnless takes r matching store := by
  refine ⟨fun ops w hrun => h.ended ops w (Pager.exec_of_refusing hrun), ?_⟩
  obtain ⟨n, hgoing⟩ := h.going
  refine ⟨n, fun ops w hrun hdone => ?_⟩
  obtain ⟨hnext, hpages⟩ := hgoing ops w (Pager.exec_of_refusing hrun) hdone
  exact ⟨Pager.isSome_refusing_fetch hnext, hpages⟩

/-- Before its end too, a walk has received nothing but what matches. -/
theorem Pager.Complete.matching_of_received {r : α → α → Prop} {matching : α → Prop} {store : σ}
    (h : pager.Complete r matching store) {ops : List (WalkOp ω)}
    (hrun : exec pager.step { store } ops = some w) : ∀ a ∈ w.received, matching a := by
  obtain ⟨n, hgoing⟩ := h.going
  -- pages are fetched until it ends, and none of them takes a row back
  have hmore : ∀ k, ∀ ops w, exec pager.step { store } ops = some w → n < w.pages + k →
      ∀ a ∈ w.received, matching a := by
    intro k
    induction k with
    | zero =>
        intro ops w hrun hpages
        cases hdone : w.done with
        | true => exact fun a ha => ((h.ended ops w hrun hdone).2 a).mp ha
        | false =>
            have hle := (hgoing ops w hrun hdone).2
            omega
    | succ k ih =>
        intro ops w hrun hpages a ha
        cases hdone : w.done with
        | true => exact ((h.ended ops w hrun hdone).2 a).mp ha
        | false =>
            obtain ⟨w', hw'⟩ := Option.isSome_iff_exists.mp (hgoing ops w hrun hdone).1
            have hnext : exec pager.step { store } (ops ++ [.fetch]) = some w' := by
              rw [exec_append_of_exec hrun, exec_cons_of_step hw']
              rfl
            simp only [Pager.step, hdone, Bool.false_eq_true, if_false] at hw'
            obtain ⟨rows, _, rfl⟩ := Option.map_eq_some_iff.mp hw'
            apply ih _ _ hnext
            · simp only
              omega
            · exact List.mem_append_left rows ha
  exact hmore (n + 1) ops w hrun (by omega)

/-- Where the cursor of every row that matches is taken, nothing is refused. -/
theorem Pager.Complete.refusing_of_takes {r : α → α → Prop} {matching : α → Prop} {store : σ}
    (h : pager.Complete r matching store) (hnone : takes none = true)
    (hsome : ∀ a, matching a → takes (some a) = true) :
    (pager.refusing takes).Complete r matching store := by
  have hunless := h.refusing takes
  refine ⟨hunless.ended, ?_⟩
  obtain ⟨n, hgoing⟩ := hunless.going
  refine ⟨n, fun ops w hrun hdone => ?_⟩
  obtain ⟨hnext, hpages⟩ := hgoing ops w hrun hdone
  refine ⟨hnext.mpr ?_, hpages⟩
  cases hlast : w.received.getLast? with
  | none => exact hnone
  | some a =>
      have hmatching := h.matching_of_received (Pager.exec_of_refusing hrun)
      exact hsome a (hmatching a (List.mem_of_getLast? hlast))

end

/-! ## Rows with keys -/

structure Keyset (σ ρ α κ : Type) where
  rows : σ → List ρ
  key : ρ → κ
  /-- `ORDER BY`. -/
  order : ρ → ρ → Prop
  out : σ → ρ → α
  keyOf : α → κ
  /-- The second key is behind the first. -/
  before : κ → κ → Prop

namespace Keyset

/-- The keys tell the rows apart, and the order is theirs. -/
structure Keyed (q : Keyset σ ρ α κ) (s : σ) : Prop where
  distinct : ((q.rows s).map q.key).Nodup
  ordered : ∀ x ∈ q.rows s, ∀ y ∈ q.rows s, q.order x y → q.key x ≠ q.key y →
    q.before (q.key x) (q.key y)
  out : ∀ x ∈ q.rows s, q.keyOf (q.out s x) = q.key x

/-- The key is this one or comes behind it. -/
def From (q : Keyset σ ρ α κ) (k : κ) (x : ρ) : Prop := q.key x = k ∨ q.before k (q.key x)

/-- From a key on the two stores have the same rows. -/
structure AgreesFrom (q : Keyset σ ρ α κ) (k : κ) (s s' : σ) : Prop where
  nodup : (q.rows s').Nodup
  rows : ∀ x, q.From k x → (x ∈ q.rows s' ↔ x ∈ q.rows s)
  out : ∀ x ∈ q.rows s, q.From k x → q.out s' x = q.out s x

/-- One thing received is behind another. -/
def Behind (q : Keyset σ ρ α κ) (a b : α) : Prop := q.before (q.keyOf a) (q.keyOf b)

instance (q : Keyset σ ρ α κ) [DecidableRel q.before] : DecidableRel q.Behind :=
  fun _ _ => inferInstanceAs (Decidable (q.before _ _))

instance (q : Keyset σ ρ α κ) [Std.Asymm q.before] : Std.Asymm q.Behind where
  asymm _ _ hab hba := asymm_of q.before hab hba

section

variable (q : Keyset σ ρ α κ) [DecidableRel q.order] [DecidableRel q.before]

/-- `$1 IS NULL OR key < $1`. -/
def reached (last : Option α) (x : ρ) : Bool :=
  last.all fun a => decide (q.before (q.keyOf a) (q.key x))

def page (limit : Nat) (s : σ) (last : Option α) : List α :=
  (top q.order limit ((q.rows s).filter (q.reached last))).map (q.out s)

/-- What an unlimited first page would hold. -/
def history (s : σ) : List α := ((q.rows s).insertionSort q.order).map (q.out s)

variable {q} {s s' : σ}

/-- A statement whose `WHERE` has the filter of the rows and the cursor. -/
theorem top_eq_page {limit : Nat} {last : Option α} {rows : List ρ} {p p' : ρ → Bool}
    (hrows : q.rows s = rows.filter p) (hwhere : ∀ x ∈ rows, p' x = (p x && q.reached last x)) :
    (top q.order limit (rows.filter p')).map (q.out s) = q.page limit s last := by
  have hfilter : rows.filter p' = (rows.filter p).filter (q.reached last) := by
    rw [List.filter_filter]
    apply List.filter_congr
    intro x hx
    rw [hwhere x hx, Bool.and_comm]
  rw [page, hrows, hfilter]

omit [DecidableRel q.before] in
theorem mem_history {a : α} : a ∈ q.history s ↔ ∃ x ∈ q.rows s, q.out s x = a := by
  simp only [history, List.mem_map, List.mem_insertionSort]

omit [DecidableRel q.order] [DecidableRel q.before] in
theorem Keyed.nodup (h : q.Keyed s) : (q.rows s).Nodup := h.distinct.of_map

omit [DecidableRel q.order] [DecidableRel q.before] in
theorem Keyed.eq_of_key (h : q.Keyed s) {x y : ρ} (hx : x ∈ q.rows s) (hy : y ∈ q.rows s)
    (hkey : q.key x = q.key y) : x = y :=
  List.inj_on_of_nodup_map h.distinct hx hy hkey

omit [DecidableRel q.order] in
/-- What is behind the last thing received comes from the first one on. -/
theorem from_of_reached [IsTrans κ q.before] {received : List α} {first : α}
    (hordered : received.Pairwise q.Behind) (hfirst : received.head? = some first) {x : ρ}
    (hreached : q.reached received.getLast? x = true) : q.From (q.keyOf first) x := by
  cases received with
  | nil => cases hfirst
  | cons a rest =>
      cases hfirst
      obtain ⟨last, hlast⟩ := Option.ne_none_iff_exists'.mp
        (mt List.getLast?_eq_none_iff.mp (List.cons_ne_nil first rest))
      rw [hlast, reached, Option.all_some, decide_eq_true_eq] at hreached
      rcases List.mem_cons.mp (List.mem_of_getLast? hlast) with rfl | hin
      · exact Or.inr hreached
      · have hbehind : q.before (q.keyOf first) (q.keyOf last) :=
          (List.pairwise_cons.mp hordered).1 last hin
        exact Or.inr (trans_of q.before hbehind hreached)

variable [IsTrans ρ q.order] [Std.Total q.order] [Std.Asymm q.before]

omit [DecidableRel q.before] [Std.Asymm q.before] in
theorem Keyed.pairwise_history (h : q.Keyed s) : (q.history s).Pairwise q.Behind := by
  have hnodup : ((q.rows s).insertionSort q.order).Nodup :=
    (List.perm_insertionSort _ _).nodup_iff.mpr h.nodup
  have hboth := (List.pairwise_insertionSort q.order (q.rows s)).and hnodup
  rw [history, List.pairwise_map]
  apply hboth.imp_of_mem
  rintro x y hx hy ⟨horder, hne⟩
  rw [List.mem_insertionSort] at hx hy
  rw [Behind, h.out x hx, h.out y hy]
  exact h.ordered x hx y hy horder fun hkey => hne (h.eq_of_key hx hy hkey)

omit [IsTrans ρ q.order] [Std.Total q.order] [Std.Asymm q.before] in
/-- What is behind a cursor, in the order of the list. -/
theorem Keyed.behind_history (h : q.Keyed s) (last : Option α) :
    behind q.Behind last (q.history s) =
      (((q.rows s).insertionSort q.order).filter (q.reached last)).map (q.out s) := by
  rw [history]
  cases last with
  | none =>
      rw [behind, List.filter_eq_self.mpr]
      exact fun _ _ => rfl
  | some a =>
      rw [behind, List.filter_map]
      congr 1
      apply List.filter_congr
      intro x hx
      rw [List.mem_insertionSort] at hx
      have hsame : q.Behind a (q.out s x) ↔ q.before (q.keyOf a) (q.key x) := by
        rw [Behind, h.out x hx]
      rw [reached, Option.all_some, Function.comp_apply, decide_eq_decide]
      exact hsame

/-- A page has the next part of the list, on any store with the same rows behind the cursor. -/
theorem Keyed.page_eq (h : q.Keyed s) {limit : Nat} {last : Option α}
    (hnodup : (q.rows s').Nodup)
    (hrows : ∀ x, q.reached last x = true → (x ∈ q.rows s' ↔ x ∈ q.rows s))
    (hout : ∀ x ∈ q.rows s, q.reached last x = true → q.out s' x = q.out s x) :
    q.page limit s' last = (behind q.Behind last (q.history s)).take limit := by
  have hapart : ∀ x ∈ q.rows s, ∀ y ∈ q.rows s, q.order x y → q.order y x → x = y := by
    intro x hx y hy hxy hyx
    by_contra hne
    have hkey : q.key x ≠ q.key y := fun hkey => hne (h.eq_of_key hx hy hkey)
    exact asymm_of q.before (h.ordered x hx y hy hxy hkey)
      (h.ordered y hy x hx hyx (Ne.symm hkey))
  have hsorted : ((q.rows s').filter (q.reached last)).insertionSort q.order =
      ((q.rows s).insertionSort q.order).filter (q.reached last) := by
    apply insertionSort_of_subset q.order (hnodup.filter _) h.nodup hapart
    intro x
    rw [List.mem_filter]
    exact and_congr_left fun hreached => hrows x hreached
  rw [page, top, hsorted, h.behind_history last, ← List.map_take]
  apply List.map_congr_left
  intro x hx
  obtain ⟨hin, hreached⟩ := List.mem_filter.mp (List.mem_of_mem_take hx)
  exact hout x ((List.mem_insertionSort q.order).mp hin) hreached

/-- A pager whose pages are those of the list, on stores that agree with the first one from the
first thing received on. -/
theorem Keyed.serves [IsTrans κ q.before] (h : q.Keyed s) {pager : Pager σ α ω}
    {Seen : List α → σ → Prop} (hnone : ∀ s', Seen [] s' → s' = s)
    (hagree : ∀ received first s', received.head? = some first → Seen received s' →
      q.AgreesFrom (q.keyOf first) s s')
    (hpage : ∀ received s', received <+: q.history s → Seen received s' →
      pager.page s' received.getLast? = some (q.page pager.limit s' received.getLast?))
    (hmore : ∀ received rows s', Seen received s' → Seen (received ++ rows) s')
    (hchange : ∀ received s₁ op s₂, Seen received s₁ → pager.change received s₁ op = some s₂ →
      Seen received s₂) :
    pager.Serves q.Behind (q.history s) Seen where
  ordered := h.pairwise_history
  page received s' hbeginning hseen := by
    rw [hpage received s' hbeginning hseen]
    congr 1
    cases hfirst : received.head? with
    | none =>
        rw [List.head?_eq_none_iff] at hfirst
        rw [hfirst] at hseen
        rw [hnone s' hseen]
        exact h.page_eq h.nodup (fun _ _ => Iff.rfl) fun _ _ _ => rfl
    | some first =>
        have hsame := hagree received first s' hfirst hseen
        have hordered := h.pairwise_history.sublist hbeginning.sublist
        exact h.page_eq hsame.nodup
          (fun x hx => hsame.rows x (from_of_reached hordered hfirst hx))
          fun x hin hx => hsame.out x hin (from_of_reached hordered hfirst hx)
  more := hmore
  change := hchange

end

end Keyset

end Paging
