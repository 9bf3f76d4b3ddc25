import Retracer.Library.Firsts
import Retracer.Storage.AsOf

/-! # Validators

`get_validator` puts together what five tables say of an address, each of them sparse: a row
where a block names the address. Of two entries of one block for one key the insert keeps the
first, so the reads are those of the kept blocks whatever their effects repeat.
-/

namespace Retracer

open KeyedTable Sorting Execution

/-! ## The read -/

section

variable (db : Database) (chainId address : String)

end

/-! ## The five tables -/

section

variable [Postgres] {chainId : String} {extractor : AddressExtractor} {k : HeightTable}
  {ε κ : Type} [DecidableEq κ] (table : Sparse chainId k ε κ) {s : StoreState}

/-- The first entry of each key, block after block. -/
def Sparse.firsts (blocks : List IndexableBlock) : List k.Row :=
  blocks.flatMap fun b =>
    (distinctOn table.name (table.entries b)).map fun e => table.row ((b.height : Int), e)

theorem Sparse.filled_firsts {blocks : List IndexableBlock} {db : Database}
    (hin : ConsecutiveFrom 0 blocks)
    (h : (contentStore chainId extractor).replay blocks = some db) :
    (db.at k).rows = table.firsts blocks := by
  induction blocks using List.reverseRecOn generalizing db with
  | nil =>
      cases h
      cases k <;> rfl
  | append_singleton blocks last ih =>
      obtain ⟨before, hbefore, hput⟩ := (contentStore chainId extractor).replay_snoc h
      obtain ⟨writes, tokens, hwritten⟩ := written_of_insert hput
      have hheight : last.height = blocks.length := hin.height_last
      have hrows := ih hin.initial hbefore
      have hkey : ∀ e e', key (table.row ((last.height : Int), e)) =
          key (table.row ((last.height : Int), e')) ↔ table.name e = table.name e' := by
        intro e e'
        rw [table.key_iff]
        exact and_iff_right rfl
      rw [hwritten.rows k, table.rows, ← Sparse.entries, Table.rows_insertMissing_firsts, hrows,
        distinctOn_map, distinctOn_congr fun e _ e' _ => hkey e e']
      · simp [Sparse.firsts]
      · intro r hr hmem
        obtain ⟨e, _, rfl⟩ := List.mem_map.mp hr
        obtain ⟨old, hold, hsame⟩ := List.mem_map.mp hmem
        rw [hrows] at hold
        obtain ⟨b, hb, hin'⟩ := List.mem_flatMap.mp hold
        obtain ⟨e', _, rfl⟩ := List.mem_map.mp hin'
        have hlt := hin.initial.height_lt hb
        have heq : (b.height : Int) = last.height := ((table.key_iff _ _).mp hsame).1
        omega

theorem Sparse.kept_firsts (h : Kept chainId extractor s) :
    (s.db.at k).rows = table.firsts s.kept := by
  obtain ⟨t, ht, hsame⟩ := h.holds
  rw [(content_eq_iff.mp hsame).1 k]
  exact table.filled_firsts h.heights ht

/-- The row that a block has of a key. -/
def Sparse.rowOf (n : κ) (b : IndexableBlock) : Option k.Row :=
  ((table.entries b).find? fun e => table.name e = n).map fun e =>
    table.row ((b.height : Int), e)

/-- The rows of a key are one for each block that has an entry of it. -/
theorem Sparse.kept_named (h : Kept chainId extractor s) {named : k.Row → Bool} {n : κ}
    (hnamed : ∀ x, named (table.row x) = decide (table.name x.2 = n)) :
    (s.db.at k).rows.filter named = s.kept.filterMap (table.rowOf n) := by
  rw [table.kept_firsts h, Sparse.firsts, List.filter_flatMap,
    List.filterMap_eq_flatMap_toList]
  apply List.flatMap_congr
  intro b _
  have hcomp : (named ∘ fun e => table.row ((b.height : Int), e)) = fun e =>
      decide (table.name e = n) := by
    funext e
    exact hnamed _
  rw [List.filter_map, hcomp, filter_distinctOn, Sparse.rowOf]
  cases (table.entries b).find? fun e => decide (table.name e = n) <;> rfl

/-- They are in the order of the heights. -/
theorem Kept.ascending_filterMap (h : Kept chainId extractor s) {ρ : Type} {version : ρ → Int}
    {rowOf : IndexableBlock → Option ρ}
    (hversion : ∀ b, ∀ r ∈ rowOf b, version r = (b.height : Int)) :
    (s.kept.filterMap rowOf).Pairwise fun a b => version a < version b := by
  rw [List.pairwise_filterMap]
  apply h.ascending.imp
  intro a b hlt r hr r' hr'
  rw [hversion a r hr, hversion b r' hr']
  exact hlt

omit [Postgres] in
theorem Sparse.version_rowOf (n : κ) (b : IndexableBlock) :
    ∀ r ∈ table.rowOf n b, Stamped.heightOf r = (b.height : Int) := by
  intro r hr
  obtain ⟨e, _, rfl⟩ := Option.map_eq_some_iff.mp hr
  exact table.heightOf _

end

/-! ## What it should say -/

namespace IndexableBlock

variable (address : String) (b : IndexableBlock)

end IndexableBlock

section

variable [Postgres] {chainId : String} {extractor : AddressExtractor} {s : StoreState}
  (address : String)

omit [Postgres] in
theorem find_entries {k : HeightTable} {ε κ : Type} (table : Sparse chainId k ε κ)
    (b : IndexableBlock) (p : ε → Bool) :
    (table.entries b).find? p = b.effects.bind fun e => (table.entriesOf e).find? p := by
  unfold Sparse.entries
  cases b.effects <;> rfl

omit [Postgres] in
/-- Looking further at what is found first, where that always succeeds. -/
theorem findSome?_bind {α β γ : Type} {g : α → Option β} {f : β → Option γ} {g' : α → Option γ}
    {l : List α} (h : ∀ a ∈ l, g' a = (g a).bind f ∧ ∀ b ∈ g a, (f b).isSome) :
    l.findSome? g' = (l.findSome? g).bind f := by
  induction l with
  | nil => rfl
  | cons a l ih =>
      obtain ⟨hg', hsome⟩ := h a List.mem_cons_self
      rw [List.findSome?_cons, List.findSome?_cons, hg']
      cases hg : g a with
      | none => exact ih fun a' ha' => h a' (List.mem_cons_of_mem _ ha')
      | some b =>
          obtain ⟨c, hc⟩ := Option.isSome_iff_exists.mp (hsome b hg)
          simp [hc]

end

end Retracer
