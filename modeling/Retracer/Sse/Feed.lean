import Retracer.Sse.Stream
import Retracer.Storage.Transpose

/-! # What is broadcast and what is read back

Every block of a committed batch has a row to broadcast, and a page read from a store of
consecutive blocks has consecutive heights.
-/

namespace Retracer

open KeyedTable Sorting Execution Traverse

/-! ## Rows of a committed batch -/

theorem blockRowFromWire_spec {block : IndexableBlock} {row : BlockRow}
    (h : blockRowFromWire block = some row) :
    row.height = block.height ∧ row.hash = block.hash := by
  simp only [blockRowFromWire, Option.bind_eq_bind, Option.bind_eq_some_iff,
    Option.some.injEq] at h
  obtain ⟨actions, _, rfl⟩ := h
  exact ⟨rfl, rfl⟩

theorem payloads_of_build {block : IndexableBlock} {height : Int} {extractor : AddressExtractor}
    {writes : BlockWrites} (h : BlockWrites.build block height extractor = some writes) :
    ∀ entry ∈ block.actions.zipIdx, entry.1.payloadJson.isSome := by
  obtain ⟨rows, hrows, _⟩ := BlockWrites.exists_rows_of_build height extractor h
  exact serialiseAll_isSome.mp (Option.isSome_of_eq_some hrows)

theorem bind_mapM_isSome {α β γ : Type} {f : α → Option β} {g : List β → γ} {as : List α}
    (h : ∀ a ∈ as, (f a).isSome) : ∃ c, ((as.mapM f).bind fun bs => some (g bs)) = some c := by
  obtain ⟨bs, hbs⟩ := Option.isSome_iff_exists.mp (isSome_mapM_iff.mpr h)
  exact ⟨g bs, by rw [hbs]; rfl⟩

theorem blockRowFromWire_of_build {block : IndexableBlock} {height : Int}
    {extractor : AddressExtractor} {writes : BlockWrites}
    (h : BlockWrites.build block height extractor = some writes) :
    ∃ row, blockRowFromWire block = some row := by
  unfold blockRowFromWire
  apply bind_mapM_isSome
  intro entry hentry
  obtain ⟨json, hjson⟩ := Option.isSome_iff_exists.mp (payloads_of_build h entry hentry)
  simp [hjson]

variable [Postgres]

/-- No block of a committed batch is left out of the broadcast. -/
theorem rows_of_insertBlocks {db db' : Database} {chainId : String}
    {extractor : AddressExtractor} {blocks : List IndexableBlock}
    (h : insertBlocks db chainId blocks extractor = some db') :
    (blocks.filterMap blockRowFromWire).map (fun row => (row.height, row.hash)) =
      blocks.map fun b => ((b.height : Int), b.hash) := by
  induction blocks generalizing db with
  | nil => rfl
  | cons block blocks ih =>
      rw [insertBlocks_cons, Option.bind_eq_some_iff] at h
      obtain ⟨mid, hmid, hrest⟩ := h
      obtain ⟨writes, _, hwritten⟩ := written_of_insert hmid
      obtain ⟨row, hrow⟩ := blockRowFromWire_of_build hwritten.build
      obtain ⟨hheight, hhash⟩ := blockRowFromWire_spec hrow
      rw [List.filterMap_cons_some hrow, List.map_cons, List.map_cons, ih hrest, hheight, hhash]

/-! ## The cursor of consecutive blocks -/

/-- The cursor over `n` blocks. -/
def cursorOver (n : Nat) : Option Int := if n = 0 then none else some ((n : Int) - 1)

omit [Postgres] in
theorem raiseCursor_cursorOver (n : Nat) : raiseCursor (cursorOver n) n = cursorOver (n + 1) := by
  unfold raiseCursor cursorOver
  by_cases hzero : n = 0
  · subst hzero
    rfl
  · have hmax : max ((n : Int) - 1) n = n := by omega
    have hsucc : ((n + 1 : Nat) : Int) - 1 = n := by omega
    rw [if_neg hzero, if_neg (Nat.succ_ne_zero n), Option.elim_some, hmax, hsucc]

omit [Postgres] in
theorem raiseCursor_consecutive {n : Nat} {blocks : List IndexableBlock}
    (h : ConsecutiveFrom n blocks) :
    blocks.foldl (fun cursor b => raiseCursor cursor b.height) (cursorOver n) =
      cursorOver (n + blocks.length) := by
  induction blocks generalizing n with
  | nil => rfl
  | cons block blocks ih =>
      unfold ConsecutiveFrom at h
      rw [List.map_cons, List.length_cons, List.range'_succ, List.cons.injEq] at h
      rw [List.foldl_cons, h.1, raiseCursor_cursorOver, ih h.2, List.length_cons]
      congr 1
      omega

/-! ## Pages of consecutive blocks -/

/-- `f`, `f + 1` and so on, `n` of them. -/
def heightsFrom (f n : Nat) : List Int := (List.range' f n).map fun k : Nat => (k : Int)

omit [Postgres] in
theorem mem_heightsFrom {f n : Nat} {h : Int} :
    h ∈ heightsFrom f n ↔ (f : Int) ≤ h ∧ h < (f : Int) + n := by
  simp only [heightsFrom, List.mem_map, List.mem_range'_1]
  constructor
  · rintro ⟨k, hk, rfl⟩
    omega
  · intro hbounds
    exact ⟨h.toNat, by omega, by omega⟩

omit [Postgres] in
theorem heightsFrom_append (f m n : Nat) :
    heightsFrom f m ++ heightsFrom (f + m) n = heightsFrom f (m + n) := by
  rw [heightsFrom, heightsFrom, ← List.map_append, List.range'_append_1, heightsFrom]

omit [Postgres] in
theorem heightsFrom_succ (f n : Nat) :
    heightsFrom f (n + 1) = heightsFrom f n ++ [((f + n : Nat) : Int)] := by
  rw [← heightsFrom_append]
  rfl

omit [Postgres] in
theorem length_heightsFrom (f n : Nat) : (heightsFrom f n).length = n := by
  rw [heightsFrom, List.length_map, List.length_range']

omit [Postgres] in
theorem pairwise_heightsFrom (f n : Nat) : (heightsFrom f n).Pairwise (· < ·) := by
  have hrange : (List.range' f n).Pairwise (· < ·) := List.pairwise_lt_range'
  rw [heightsFrom, List.pairwise_map]
  apply hrange.imp
  intro a b hlt
  omega

omit [Postgres] in
theorem take_heightsFrom (f n limit : Nat) :
    (heightsFrom f n).take limit = heightsFrom f (min limit n) := by
  by_cases hle : limit ≤ n
  · rw [Nat.min_eq_left hle, heightsFrom, ← List.map_take, List.take_range'_of_length_ge hle,
      heightsFrom]
  · have hge : n ≤ limit := by omega
    rw [Nat.min_eq_right hge, heightsFrom, ← List.map_take, List.take_range'_of_length_le hge]

omit [Postgres] in
/-- A window of consecutive heights. -/
theorem filter_heightsFrom {lo hi : Int} {f n : Nat} (hlo : lo = f) (hle : lo ≤ hi) (hhi : hi < n) :
    (heightsFrom 0 n).filter (fun h => lo ≤ h ∧ h ≤ hi) = heightsFrom f (hi + 1 - lo).toNat := by
  have hbelow : (heightsFrom 0 f).filter (fun h => lo ≤ h ∧ h ≤ hi) = [] := by
    rw [List.filter_eq_nil_iff]
    intro h hh
    have hbounds := mem_heightsFrom.mp hh
    simp only [decide_eq_true_eq, not_and]
    omega
  have hin : (heightsFrom f (hi + 1 - lo).toNat).filter (fun h => lo ≤ h ∧ h ≤ hi) =
      heightsFrom f (hi + 1 - lo).toNat := by
    rw [List.filter_eq_self]
    intro h hh
    have hbounds := mem_heightsFrom.mp hh
    simp only [decide_eq_true_eq]
    omega
  have habove : (heightsFrom (f + (hi + 1 - lo).toNat) (n - (f + (hi + 1 - lo).toNat))).filter
      (fun h => lo ≤ h ∧ h ≤ hi) = [] := by
    rw [List.filter_eq_nil_iff]
    intro h hh
    have hbounds := mem_heightsFrom.mp hh
    simp only [decide_eq_true_eq, not_and]
    omega
  have hsplit : heightsFrom 0 n = heightsFrom 0 f ++ heightsFrom f (hi + 1 - lo).toNat ++
      heightsFrom (f + (hi + 1 - lo).toNat) (n - (f + (hi + 1 - lo).toNat)) := by
    have hsum : f + (hi + 1 - lo).toNat + (n - (f + (hi + 1 - lo).toNat)) = n := by omega
    have hfirst := heightsFrom_append 0 f (hi + 1 - lo).toNat
    have hsecond := heightsFrom_append 0 (f + (hi + 1 - lo).toNat)
      (n - (f + (hi + 1 - lo).toNat))
    rw [Nat.zero_add] at hfirst hsecond
    rw [hfirst, hsecond, hsum]
  rw [hsplit, List.filter_append, List.filter_append, hbelow, hin, habove, List.append_nil,
    List.nil_append]

variable {chainId : String} {extractor : AddressExtractor} {s : StoreState}

theorem Kept.row_heights (h : Kept chainId extractor s) :
    s.db.blocks.rows.map (·.height) = heightsFrom 0 s.kept.length := by
  have hundisputed : s.db.undisputedBlocks.rows.map (·.height) =
      s.db.blocks.rows.map (·.height) := by
    rw [Database.undisputedBlocks, Table.rows_modify, List.map_map]
    rfl
  have hkept : s.kept.map (fun b => (b.height : Int)) = heightsFrom 0 s.kept.length := by
    rw [heightsFrom, ← h.heights, List.map_map]
    rfl
  rw [← hundisputed, h.blocks, List.map_map, ← hkept]
  rfl

/-- A page starts where it should and has no holes. -/
theorem Kept.selectBlocks_heights (h : Kept chainId extractor s) {lo hi : Int} {f limit : Nat}
    (hlo : lo = f) (hle : lo ≤ hi) (hhi : hi < s.kept.length) :
    (selectBlocks s.db chainId lo hi limit).map (·.height) =
      heightsFrom f (min limit (hi + 1 - lo).toNat) := by
  have hfilter : (s.db.blocks.rows.filter (within chainId lo hi)).map (·.height) =
      heightsFrom f (hi + 1 - lo).toNat := by
    rw [← filter_heightsFrom hlo hle hhi, ← h.row_heights, List.filter_map]
    congr 1
    apply List.filter_congr
    intro b hb
    simp [within, Stamped.chainOf, Stamped.heightOf, h.row_chain b hb]
  have hsorted : (s.db.blocks.rows.filter (within chainId lo hi)).insertionSort
      (oldestFirst BlocksRow.height) = s.db.blocks.rows.filter (within chainId lo hi) := by
    apply List.Pairwise.insertionSort_eq
    have hpairwise := pairwise_heightsFrom f (hi + 1 - lo).toNat
    rw [← hfilter, List.pairwise_map] at hpairwise
    apply hpairwise.imp
    intro a b hlt
    exact Int.le_of_lt hlt
  rw [selectBlocks, hsorted, List.map_take, hfilter, Int.toNat_natCast, take_heightsFrom]

/-- The block of a stored action is stored, so its timestamp is there. -/
theorem Kept.selectActions_ne_none (h : Kept chainId extractor s) (lo hi : Int) :
    selectActions s.db chainId lo hi ≠ none := by
  have hall : ∀ a ∈ (s.db.actions.rows.filter (within chainId lo hi)).insertionSort byPosition,
      (actionColumns s.db a).isSome := by
    intro a ha
    obtain ⟨hmem, hin⟩ := List.mem_filter.mp ((List.mem_insertionSort _).mp ha)
    simp only [within, Stamped.chainOf, Stamped.heightOf, decide_eq_true_eq] at hin
    have hheights : 0 ≤ a.blockHeight ∧ a.blockHeight < s.kept.length :=
      h.heights_lt.1 .actions a hmem
    have hlt : a.blockHeight.toNat < s.kept.length := by omega
    have hcast : ((a.blockHeight.toNat : Nat) : Int) = a.blockHeight := by omega
    have hfind := h.find (List.getElem?_eq_getElem hlt)
    rw [hcast] at hfind
    rw [actionColumns_undisputed, hin.1, hfind]
    rfl
  obtain ⟨rows, hrows⟩ := Option.isSome_iff_exists.mp (isSome_mapM_iff.mpr hall)
  rw [selectActions, hrows]
  exact Option.some_ne_none rows

end Retracer
