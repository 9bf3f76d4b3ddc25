import Mathlib.Data.List.Sort

/-! # ORDER BY, DISTINCT ON and the newest row

A query sorts the rows it selects and may then keep the first row of each key. The
lemmas say which rows those are: one filter commutes with the sort, and the first row of
a key in an order that takes high versions first is the newest of that key.
-/

namespace Sorting

open List

variable {α κ : Type}

/-! ## Sorting -/

section

variable (r : α → α → Prop) [DecidableRel r]

theorem orderedInsert_of_forall {a : α} {l : List α} (h : ∀ b ∈ l, r a b) :
    l.orderedInsert r a = a :: l := by
  cases l with
  | nil => rfl
  | cons b l => exact List.orderedInsert_cons_of_le r l (h b List.mem_cons_self)

theorem orderedInsert_of_forall_not {a : α} {l : List α} (h : ∀ b ∈ l, ¬ r a b) :
    l.orderedInsert r a = l ++ [a] := by
  induction l with
  | nil => rfl
  | cons b l ih =>
      rw [List.orderedInsert_of_not_le r l (h b List.mem_cons_self),
        ih fun c hc => h c (List.mem_cons_of_mem _ hc)]
      rfl

variable [IsTrans α r]

theorem filter_orderedInsert {a : α} {l : List α} (p : α → Bool) (hl : l.Pairwise r) :
    (l.orderedInsert r a).filter p =
      if p a then (l.filter p).orderedInsert r a else l.filter p := by
  induction l with
  | nil => cases hp : p a <;> simp [hp]
  | cons b l ih =>
      obtain ⟨hb, hrest⟩ := List.pairwise_cons.mp hl
      by_cases hab : r a b
      · have hall : ∀ c ∈ (b :: l).filter p, r a c := by
          intro c hc
          rcases List.mem_cons.mp (List.mem_of_mem_filter hc) with rfl | hin
          · exact hab
          · exact trans_of r hab (hb c hin)
        rw [List.orderedInsert_cons_of_le r l hab, List.filter_cons,
          orderedInsert_of_forall r hall]
      · rw [List.orderedInsert_of_not_le r l hab, List.filter_cons, ih hrest, List.filter_cons]
        cases hp : p b with
        | false => simp
        | true =>
            cases hq : p a with
            | false => simp
            | true => simp [List.orderedInsert_cons, hab]

theorem filter_insertionSort [Std.Total r] (p : α → Bool) (l : List α) :
    (l.insertionSort r).filter p = (l.filter p).insertionSort r := by
  induction l with
  | nil => rfl
  | cons a l ih =>
      rw [List.insertionSort_cons, filter_orderedInsert r p (List.pairwise_insertionSort r l), ih,
        List.filter_cons]
      cases hp : p a <;> simp

end

/-- Only the order among the sorted rows matters. -/
theorem insertionSort_congr {r s : α → α → Prop} [DecidableRel r] [DecidableRel s] {l : List α}
    (h : ∀ a ∈ l, ∀ b ∈ l, r a b ↔ s a b) : l.insertionSort r = l.insertionSort s := by
  have hmap := List.map_insertionSort r s id l h
  simpa using hmap

/-! ## Orders -/

/-- `ORDER BY f, rest`. -/
def orderBy (le : κ → κ → Prop) (f : α → κ) (rest : α → α → Prop) (a b : α) : Prop :=
  le (f a) (f b) ∧ (f a = f b → rest a b)

section

variable (le : κ → κ → Prop) (f : α → κ) (rest : α → α → Prop)

instance [DecidableEq κ] [DecidableRel le] [DecidableRel rest] :
    DecidableRel (orderBy le f rest) :=
  fun a b => inferInstanceAs (Decidable (le (f a) (f b) ∧ (f a = f b → rest a b)))

instance [IsTrans κ le] [Std.Antisymm le] [IsTrans α rest] : IsTrans α (orderBy le f rest) where
  trans a b c hab hbc := by
    refine ⟨trans_of le hab.1 hbc.1, fun hac => ?_⟩
    have heq : f a = f b := antisymm_of le hab.1 (hac ▸ hbc.1)
    exact trans_of rest (hab.2 heq) (hbc.2 (heq.symm.trans hac))

instance [Std.Total le] [Std.Total rest] : Std.Total (orderBy le f rest) where
  total a b := by
    by_cases heq : f a = f b
    · have hle : le (f a) (f a) := (total_of le (f a) (f a)).elim id id
      rcases total_of rest a b with h | h
      · exact Or.inl ⟨heq ▸ hle, fun _ => h⟩
      · exact Or.inr ⟨heq ▸ hle, fun _ => h⟩
    · rcases total_of le (f a) (f b) with h | h
      · exact Or.inl ⟨h, fun hab => absurd hab heq⟩
      · exact Or.inr ⟨h, fun hba => absurd hba.symm heq⟩

end

/-- No further `ORDER BY`. -/
def anyOrder (_ _ : α) : Prop := True

instance : DecidableRel (@anyOrder α) := fun _ _ => isTrue trivial
instance : IsTrans α anyOrder := ⟨fun _ _ _ _ _ => trivial⟩
instance : Std.Total (@anyOrder α) := ⟨fun _ _ => Or.inl trivial⟩

/-- `ORDER BY version`. -/
def oldestFirst (version : α → Int) (a b : α) : Prop := version a ≤ version b

instance (version : α → Int) : DecidableRel (oldestFirst version) :=
  fun a b => inferInstanceAs (Decidable (version a ≤ version b))

instance (version : α → Int) : IsTrans α (oldestFirst version) :=
  ⟨fun _ _ _ hab hbc => Int.le_trans hab hbc⟩

instance (version : α → Int) : Std.Total (oldestFirst version) :=
  ⟨fun a b => Int.le_total (version a) (version b)⟩

/-- `ORDER BY version DESC`. -/
def newestFirst (version : α → Int) (a b : α) : Prop := version b ≤ version a

instance (version : α → Int) : DecidableRel (newestFirst version) :=
  fun a b => inferInstanceAs (Decidable (version b ≤ version a))

instance (version : α → Int) : IsTrans α (newestFirst version) :=
  ⟨fun _ _ _ hab hbc => Int.le_trans hbc hab⟩

instance (version : α → Int) : Std.Total (newestFirst version) :=
  ⟨fun a b => Int.le_total (version b) (version a)⟩

/-! ## Strictly after -/

/-- The second comes after the first, as `>` does in an ascending order. -/
def strictly (le : κ → κ → Prop) (a b : κ) : Prop := ¬ le b a

/-- `f DESC, rest`: the second key comes after the first. -/
def newerThen (le : κ → κ → Prop) (a b : Int × κ) : Prop :=
  b.1 < a.1 ∨ b.1 = a.1 ∧ strictly le a.2 b.2

section

variable {le : κ → κ → Prop}

instance [DecidableRel le] : DecidableRel (strictly le) :=
  fun a b => inferInstanceAs (Decidable (¬ le b a))

instance [IsTrans κ le] [Std.Total le] : IsTrans κ (strictly le) where
  trans a b c hab hbc hca := by
    have hle : le a b := (total_of le a b).resolve_right hab
    exact hbc (trans_of le hca hle)

instance [Std.Total le] : Std.Asymm (strictly le) where
  asymm a b hab hba := (total_of le a b).elim hba hab

theorem strictly_of_ne [Std.Antisymm le] {a b : κ} (h : le a b) (hne : a ≠ b) : strictly le a b :=
  fun hba => hne (antisymm_of le h hba)

instance [DecidableEq κ] [DecidableRel le] : DecidableRel (newerThen le) :=
  fun a b => inferInstanceAs (Decidable (b.1 < a.1 ∨ b.1 = a.1 ∧ strictly le a.2 b.2))

instance [IsTrans κ le] [Std.Total le] : IsTrans (Int × κ) (newerThen le) where
  trans a b c hab hbc := by
    rcases hab with hlt | ⟨heq, hab⟩
    · exact Or.inl (hbc.elim (fun h => h.trans hlt) fun h => h.1 ▸ hlt)
    · rcases hbc with hlt | ⟨heq', hbc⟩
      · exact Or.inl (heq ▸ hlt)
      · exact Or.inr ⟨heq'.trans heq, trans_of (strictly le) hab hbc⟩

instance [Std.Total le] : Std.Asymm (newerThen le) where
  asymm a b hab hba := by
    rcases hab with hlt | ⟨heq, hab⟩
    · rcases hba with hgt | ⟨heq, _⟩
      · exact absurd hlt hgt.asymm
      · exact absurd heq hlt.ne'
    · rcases hba with hgt | ⟨_, hba⟩
      · exact absurd heq hgt.ne'
      · exact asymm_of (strictly le) hab hba

theorem fst_le_of_newerThen {a b : Int × κ} (h : newerThen le a b) : b.1 ≤ a.1 :=
  h.elim le_of_lt fun h => h.1.le

theorem newerThen_of_orderBy [Std.Antisymm le] {f : α → Int} {g : α → κ} {rest : α → α → Prop}
    {x y : α} (hrest : rest x y → le (g x) (g y)) (h : orderBy (· ≥ ·) f rest x y)
    (hne : (f x, g x) ≠ (f y, g y)) : newerThen le (f x, g x) (f y, g y) := by
  obtain ⟨hle, hthen⟩ := h
  rcases lt_or_eq_of_le hle with hlt | heq
  · exact Or.inl hlt
  · have hdiffer : g x ≠ g y := fun hg => hne (by rw [heq, hg])
    exact Or.inr ⟨heq, strictly_of_ne (hrest (hthen heq.symm)) hdiffer⟩

end

/-! ## The first row of each key -/

/-- `DISTINCT ON (f)` over rows already in order. -/
def distinctOn [DecidableEq κ] (f : α → κ) : List α → List α
  | [] => []
  | a :: l => a :: (distinctOn f l).filter fun b => f b ≠ f a

section

variable [DecidableEq κ] {f : α → κ} {l : List α}

/-- A row is kept when it is the first one of its key. -/
theorem mem_distinctOn {a : α} :
    a ∈ distinctOn f l ↔ l.find? (fun b => f b = f a) = some a := by
  induction l with
  | nil => simp [distinctOn]
  | cons b l ih =>
      rw [distinctOn, List.mem_cons, List.mem_filter, ih, List.find?_cons]
      by_cases hkey : f b = f a
      · have hab : f a = f b := hkey.symm
        simp [hkey, eq_comm]
      · have hne : a ≠ b := fun h => hkey (by rw [h])
        have hba : f a ≠ f b := Ne.symm hkey
        simp [hkey, hne, hba]

theorem pairwise_distinctOn : (distinctOn f l).Pairwise fun a b => f a ≠ f b := by
  induction l with
  | nil => exact List.Pairwise.nil
  | cons a l ih =>
      refine List.pairwise_cons.mpr ⟨?_, ih.sublist List.filter_sublist⟩
      intro b hb
      have hkeep := (List.mem_filter.mp hb).2
      simp only [decide_eq_true_eq] at hkeep
      exact Ne.symm hkeep

theorem nodup_distinctOn : (distinctOn f l).Nodup :=
  pairwise_distinctOn.imp fun hne heq => hne (congrArg f heq)

/-- Rows that their keys tell apart are all kept. -/
theorem mem_distinctOn_of_inj {a : α} (h : ∀ b ∈ l, ∀ c ∈ l, f b = f c → b = c) :
    a ∈ distinctOn f l ↔ a ∈ l := by
  rw [mem_distinctOn]
  refine ⟨List.mem_of_find?_eq_some, fun ha => ?_⟩
  have hsome : (l.find? fun b => f b = f a).isSome :=
    List.find?_isSome.mpr ⟨a, ha, by simp⟩
  obtain ⟨b, hb⟩ := Option.isSome_iff_exists.mp hsome
  have hkey : f b = f a := by simpa using List.find?_some hb
  rw [hb, h b (List.mem_of_find?_eq_some hb) a ha hkey]

end

/-! ## The newest row -/

/-- `ORDER BY version DESC LIMIT 1`. -/
def newest (version : α → Int) (l : List α) : Option α :=
  (l.insertionSort (newestFirst version)).head?

section

variable {version : α → Int} {l : List α}

/-- Rows that came in the order of their versions are turned around. -/
theorem newestFirst_of_ascending (h : l.Pairwise fun a b => version a < version b) :
    l.insertionSort (newestFirst version) = l.reverse := by
  induction l with
  | nil => rfl
  | cons a l ih =>
      obtain ⟨ha, hrest⟩ := List.pairwise_cons.mp h
      rw [List.insertionSort_cons, ih hrest, List.reverse_cons]
      apply orderedInsert_of_forall_not
      intro b hb
      have hlt := ha b (List.mem_reverse.mp hb)
      exact Int.not_le.mpr hlt

theorem newest_of_ascending (h : l.Pairwise fun a b => version a < version b) :
    newest version l = l.getLast? := by
  rw [newest, newestFirst_of_ascending h, List.head?_reverse]

end

/-- The row `DISTINCT ON (f)` keeps in an order by `f` and then by version, newest first. -/
theorem mem_distinctOn_sorted [DecidableEq κ] {f : α → κ} {version : α → Int} {l : List α}
    {r : α → α → Prop} [DecidableRel r] [IsTrans α r] [Std.Total r]
    (hr : ∀ a b, f a = f b → (r a b ↔ newestFirst version a b)) {a : α} :
    a ∈ distinctOn f (l.insertionSort r) ↔
      newest version (l.filter fun b => f b = f a) = some a := by
  have hsame : (l.filter fun b => f b = f a).insertionSort r =
      (l.filter fun b => f b = f a).insertionSort (newestFirst version) := by
    apply insertionSort_congr
    intro b hb c hc
    have hfb : f b = f a := by simpa using (List.mem_filter.mp hb).2
    have hfc : f c = f a := by simpa using (List.mem_filter.mp hc).2
    exact hr b c (hfb.trans hfc.symm)
  rw [mem_distinctOn, ← List.head?_filter, filter_insertionSort, hsame, newest]

end Sorting
