import Mathlib.Data.Int.ConditionallyCompleteOrder
import Retracer.Library.Grouping
import Retracer.Rest.Uptime
import Retracer.Storage.AsOf

/-! # Proposers

`list_proposers` groups the blocks by proposer, and `list_proposed_heights` lists them by
height. Neither counts a block without a proposer. Both are computed from the block rows, so a
rollback leaves nothing of them to repair.
-/

namespace Retracer

open KeyedTable Sorting Grouping Execution

/-! ## The reads -/

structure ProposerRow where
  address : String
  blocksProposed : Nat
  firstProposedHeight : Int
  lastProposedHeight : Int
deriving DecidableEq

/-- The proposers of a chain's blocks, where there is one, with the heights. -/
def proposedBlocks (db : Database) (chainId : String) : List (String × Int) :=
  (db.blocks.rows.filter fun b => b.chainId = chainId).filterMap fun b =>
    b.proposer.map (·, b.height)

/-- `COUNT(*), MIN(height), MAX(height)`. A group is not empty. -/
def proposerRow (address : String) (blocks : List (String × Int)) : ProposerRow :=
  { address, blocksProposed := blocks.length
    firstProposedHeight := (blocks.map (·.2)).min?.getD 0
    lastProposedHeight := (blocks.map (·.2)).max?.getD 0 }

section

variable [Collation]

abbrev mostProposed : ProposerRow → ProposerRow → Prop :=
  orderBy (· ≥ ·) ProposerRow.blocksProposed (orderBy textLe ProposerRow.address anyOrder)

def listProposers (db : Database) (chainId : String) : List ProposerRow :=
  (groupBy Prod.fst proposerRow (proposedBlocks db chainId)).insertionSort mostProposed

end

def BlocksRow.proposed (b : BlocksRow) : Option ProposedHeight :=
  b.proposer.map fun proposer =>
    { height := .ofInt b.height, proposer, round := .ofInt b.round }

/-- `proposer IS NOT NULL AND height BETWEEN $2 AND $3`. -/
def listProposedHeights (db : Database) (chainId : String) (fromHeight toHeight : Int) :
    List ProposedHeight :=
  ((db.blocks.rows.filter (within chainId fromHeight toHeight)).insertionSort
    (oldestFirst BlocksRow.height)).filterMap BlocksRow.proposed

/-! ## What they should say -/

/-- The heights of the blocks of a proposer. -/
def heightsProposedBy (address : String) (blocks : List IndexableBlock) : List Int :=
  (blocks.filter fun b => b.proposer = some address).map fun b => (b.height : Int)

/-- The height of a block with its proposer and its round, where there is a proposer. -/
def IndexableBlock.proposed (b : IndexableBlock) : Option ProposedHeight :=
  b.proposer.map fun proposer =>
    { height := .ofInt b.height, proposer, round := .ofInt b.round }

/-- What the row says of the blocks. -/
structure ProposerRow.Counts (row : ProposerRow) (blocks : List IndexableBlock) : Prop where
  counted : row.blocksProposed = (heightsProposedBy row.address blocks).length
  first : IsLeast {h | h ∈ heightsProposedBy row.address blocks} row.firstProposedHeight
  last : IsGreatest {h | h ∈ heightsProposedBy row.address blocks} row.lastProposedHeight

/-! ## The rows of the kept blocks -/

section

variable [Postgres] {chainId : String} {extractor : AddressExtractor} {s : StoreState}

/-- What is read of the rows without their flag is read of the kept blocks. -/
theorem Kept.map_rows (h : Kept chainId extractor s) {α : Type} {f : BlocksRow → α}
    (hf : ∀ b, f (clearDisputed b) = f b) :
    s.db.blocks.rows.map f = s.kept.map fun b => f (blocksRow chainId b) := by
  have hclear : s.db.undisputedBlocks.rows.map f = s.db.blocks.rows.map f := by
    rw [Database.undisputedBlocks, Table.rows_modify, List.map_map]
    apply List.map_congr_left
    intro b _
    exact hf b
  rw [← hclear, h.blocks, List.map_map]
  rfl

/-- The row at a height is that of the kept block, but for the flag. -/
theorem Kept.find_block (h : Kept chainId extractor s) {n : Nat} {block : IndexableBlock}
    (hn : s.kept[n]? = some block) :
    ∃ b, s.db.blocks.find? (chainId, (n : Int)) = some b ∧ b.height = block.height ∧
      b.hash = block.hash ∧ b.timestamp = asI64 block.timestamp := by
  have hrow := h.find hn
  rw [Database.undisputedBlocks, Table.find?_modify, Option.map_eq_some_iff] at hrow
  obtain ⟨b, hb, hclear⟩ := hrow
  simp only [clearDisputed, blocksRow, BlocksRow.mk.injEq] at hclear
  obtain ⟨_, hheight, hhash, _, htime, _⟩ := hclear
  exact ⟨b, hb, hheight, hhash, htime⟩

theorem Kept.filterMap_rows (h : Kept chainId extractor s) {α : Type} {f : BlocksRow → Option α}
    (hf : ∀ b, f (clearDisputed b) = f b) :
    s.db.blocks.rows.filterMap f = s.kept.filterMap fun b => f (blocksRow chainId b) := by
  have hmap : s.db.blocks.rows.filterMap f = (s.db.blocks.rows.map f).filterMap id := by
    rw [List.filterMap_map]
    rfl
  rw [hmap, h.map_rows hf, List.filterMap_map]
  rfl

theorem Kept.proposedBlocks_eq (h : Kept chainId extractor s) :
    proposedBlocks s.db chainId =
      s.kept.filterMap fun b => b.proposer.map (·, (b.height : Int)) := by
  have hall : (s.db.blocks.rows.filter fun b => b.chainId = chainId) = s.db.blocks.rows := by
    rw [List.filter_eq_self]
    intro b hb
    exact decide_eq_true (h.row_chain b hb)
  rw [proposedBlocks, hall]
  exact h.filterMap_rows fun _ => rfl

omit [Postgres] in
theorem group_proposed (address : String) (blocks : List IndexableBlock) :
    (group Prod.fst (blocks.filterMap fun b => b.proposer.map (·, (b.height : Int)))
      address).map (·.2) = heightsProposedBy address blocks := by
  induction blocks with
  | nil => rfl
  | cons b blocks ih =>
      unfold group heightsProposedBy at ih ⊢
      cases hp : b.proposer with
      | none => simpa [hp] using ih
      | some proposer =>
          by_cases ha : proposer = address
          · simpa [hp, ha] using ih
          · simpa [hp, ha] using ih

/-- The kept blocks come in the order of their heights. -/
theorem Kept.rows_ascending (h : Kept chainId extractor s) :
    s.db.blocks.rows.Pairwise fun a b => a.height < b.height := by
  have hheights := h.map_rows (f := BlocksRow.height) fun _ => rfl
  have hkept : (s.kept.map fun b => (blocksRow chainId b).height).Pairwise (· < ·) :=
    List.pairwise_map.mpr h.ascending
  rw [← hheights] at hkept
  exact List.pairwise_map.mp hkept

/-- The statement for the heights, over the kept blocks. -/
theorem Kept.listProposedHeights_eq (h : Kept chainId extractor s) (lo hi : Int) :
    listProposedHeights s.db chainId lo hi =
      (s.kept.filter fun b => lo ≤ (b.height : Int) ∧ (b.height : Int) ≤ hi).filterMap
        IndexableBlock.proposed := by
  have hsorted : (s.db.blocks.rows.filter (within chainId lo hi)).insertionSort
      (oldestFirst BlocksRow.height) = s.db.blocks.rows.filter (within chainId lo hi) := by
    apply List.Pairwise.insertionSort_eq
    apply (h.rows_ascending.sublist List.filter_sublist).imp
    intro a b hlt
    exact Int.le_of_lt hlt
  rw [listProposedHeights, hsorted, List.filterMap_filter, List.filterMap_filter,
    h.filterMap_rows fun _ => rfl]
  apply List.filterMap_congr
  intro b _
  simp [within, Stamped.chainOf, Stamped.heightOf, blocksRow, IndexableBlock.proposed,
    BlocksRow.proposed]

end

/-! ## The list of proposers -/

section

variable [Collation]

theorem mem_listProposers {db : Database} {chainId : String} {row : ProposerRow} :
    row ∈ listProposers db chainId ↔
      ∃ a ∈ (proposedBlocks db chainId).map Prod.fst,
        proposerRow a (group Prod.fst (proposedBlocks db chainId) a) = row := by
  rw [listProposers, List.mem_insertionSort, mem_groupBy]

/-- Every address has one row, the busiest first, and those of one count by address. -/
theorem pairwise_listProposers (db : Database) (chainId : String) :
    (listProposers db chainId).Pairwise fun p q =>
      q.blocksProposed < p.blocksProposed ∨
        q.blocksProposed = p.blocksProposed ∧ strictly textLe p.address q.address := by
  have hsorted : (listProposers db chainId).Pairwise mostProposed :=
    List.pairwise_insertionSort mostProposed _
  have hnames : ((listProposers db chainId).map (·.address)).Nodup := by
    have hperm := List.perm_insertionSort mostProposed
      (groupBy Prod.fst proposerRow (proposedBlocks db chainId))
    exact (hperm.map _).nodup_iff.mpr (nodup_groupBy fun _ _ => rfl)
  apply (hsorted.and (List.pairwise_map.mp hnames)).imp
  rintro p q ⟨⟨hle, hthen⟩, hne⟩
  rcases lt_or_eq_of_le hle with hlt | heq
  · exact Or.inl hlt
  · exact Or.inr ⟨heq, strictly_of_ne (hthen heq.symm).1 hne⟩

variable [Postgres] {chainId : String} {extractor : AddressExtractor} {s : StoreState}

omit [Collation] [Postgres] in
/-- A row in terms of the heights of its group. -/
theorem counts_proposerRow {address : String} {rows : List (String × Int)}
    {blocks : List IndexableBlock} (hheights : rows.map (·.2) = heightsProposedBy address blocks)
    (hne : rows ≠ []) : (proposerRow address rows).Counts blocks := by
  have hsome : heightsProposedBy address blocks ≠ [] := by
    rw [← hheights]
    simpa using hne
  constructor
  · show rows.length = (heightsProposedBy address blocks).length
    rw [← hheights, List.length_map]
  · obtain ⟨least, hleast⟩ := Option.isSome_iff_exists.mp (List.isSome_min?_of_ne_nil hsome)
    show IsLeast _ ((rows.map (·.2)).min?.getD 0)
    rw [hheights, hleast]
    exact List.min?_eq_some_iff.mp hleast
  · obtain ⟨greatest, hgreatest⟩ := Option.isSome_iff_exists.mp (List.isSome_max?_of_ne_nil hsome)
    show IsGreatest _ ((rows.map (·.2)).max?.getD 0)
    rw [hheights, hgreatest]
    exact List.max?_eq_some_iff.mp hgreatest

theorem Kept.listProposers_counts (h : Kept chainId extractor s) {row : ProposerRow}
    (hrow : row ∈ listProposers s.db chainId) : row.Counts s.kept := by
  obtain ⟨a, ha, rfl⟩ := mem_listProposers.mp hrow
  apply counts_proposerRow _ (group_ne_nil ha)
  rw [h.proposedBlocks_eq]
  exact group_proposed a s.kept

/-- Every block with a proposer is counted once, for that proposer. -/
theorem Kept.sum_listProposers (h : Kept chainId extractor s) :
    ((listProposers s.db chainId).map (·.blocksProposed)).sum =
      (s.kept.filter fun b => b.proposer.isSome).length := by
  have hperm := List.perm_insertionSort mostProposed
    (groupBy Prod.fst proposerRow (proposedBlocks s.db chainId))
  rw [listProposers, (hperm.map _).sum_eq, sum_length_groupBy fun _ => rfl, h.proposedBlocks_eq,
    List.length_filterMap_eq_countP, List.countP_eq_length_filter]
  simp only [Option.isSome_map]

theorem Kept.mem_listProposers_of_proposed (h : Kept chainId extractor s) {b : IndexableBlock}
    (hb : b ∈ s.kept) {a : String} (ha : b.proposer = some a) :
    ∃ row ∈ listProposers s.db chainId, row.address = a := by
  refine ⟨_, mem_listProposers.mpr ⟨a, ?_, rfl⟩, rfl⟩
  rw [h.proposedBlocks_eq]
  exact List.mem_map.mpr ⟨(a, b.height), List.mem_filterMap.mpr ⟨b, hb, by rw [ha]; rfl⟩, rfl⟩

omit [Collation] [Postgres] in
theorem filter_proposed (address : String) (b : IndexableBlock) :
    b.proposed.filter (fun p => p.proposer = address) =
      if b.proposer = some address then b.proposed else none := by
  unfold IndexableBlock.proposed
  cases b.proposer with
  | none => rfl
  | some proposer =>
      by_cases ha : proposer = address
      · simp [ha]
      · simp [ha]

omit [Collation] in
/-- A range that reaches from the first block of a proposer to its last lists them all. -/
theorem Kept.filter_listProposedHeights (h : Kept chainId extractor s) {row : ProposerRow}
    (hrow : row.Counts s.kept) {lo hi : Int} (hlo : lo ≤ row.firstProposedHeight)
    (hhi : row.lastProposedHeight ≤ hi) :
    (listProposedHeights s.db chainId lo hi).filter (fun p => p.proposer = row.address) =
      (s.kept.filter fun b => b.proposer = some row.address).filterMap
        IndexableBlock.proposed := by
  rw [h.listProposedHeights_eq, List.filter_filterMap, List.filterMap_filter,
    List.filterMap_filter]
  apply List.filterMap_congr
  intro b hb
  rw [filter_proposed]
  by_cases ha : b.proposer = some row.address
  · have hmem : (b.height : Int) ∈ heightsProposedBy row.address s.kept :=
      List.mem_map.mpr ⟨b, List.mem_filter.mpr ⟨hb, decide_eq_true ha⟩, rfl⟩
    have hin : lo ≤ (b.height : Int) ∧ (b.height : Int) ≤ hi :=
      ⟨hlo.trans (hrow.first.2 hmem), (hrow.last.2 hmem).trans hhi⟩
    simp [ha, hin]
  · simp [ha]

/-- In every state reached the list accounts for the kept blocks: one row for each proposer,
in order, with its blocks counted. The heights listed for a range are those of its blocks with a
proposer, with their rounds, and a range that spans the heights of a row has just the row's blocks
for its proposer. -/
theorem proposers_of_kept_blocks {ops : List ChainOp}
    (hrun : exec (chainStep chainId extractor) {} ops = some s) :
    ((listProposers s.db chainId).Pairwise fun p q =>
        q.blocksProposed < p.blocksProposed ∨
          q.blocksProposed = p.blocksProposed ∧ strictly textLe p.address q.address) ∧
      (∀ b ∈ s.kept, ∀ a ∈ b.proposer, ∃ row ∈ listProposers s.db chainId, row.address = a) ∧
      ((listProposers s.db chainId).map (·.blocksProposed)).sum =
        (s.kept.filter fun b => b.proposer.isSome).length ∧
      (∀ lo hi, listProposedHeights s.db chainId lo hi =
        (s.kept.filter fun b => lo ≤ (b.height : Int) ∧ (b.height : Int) ≤ hi).filterMap
          IndexableBlock.proposed) ∧
      ∀ row ∈ listProposers s.db chainId, row.Counts s.kept ∧
        ∀ lo hi, lo ≤ row.firstProposedHeight → row.lastProposedHeight ≤ hi →
          (listProposedHeights s.db chainId lo hi).filter (fun p => p.proposer = row.address) =
            (s.kept.filter fun b => b.proposer = some row.address).filterMap
              IndexableBlock.proposed := by
  have hkept : Kept chainId extractor s :=
    exec_preserves (fun _ _ _ h hs => kept_step h hs) kept_empty hrun
  refine ⟨pairwise_listProposers s.db chainId, ?_, hkept.sum_listProposers,
    hkept.listProposedHeights_eq, ?_⟩
  · intro b hb a ha
    exact hkept.mem_listProposers_of_proposed hb ha
  · intro row hrow
    have hcounts := hkept.listProposers_counts hrow
    exact ⟨hcounts, fun lo hi hlo hhi => hkept.filter_listProposedHeights hcounts hlo hhi⟩

/-- A bare block with a proposer. -/
def IndexableBlock.proposedBy (height : Nat) (hash parentHash proposer : String) :
    IndexableBlock :=
  { IndexableBlock.bare height hash parentHash with proposer := some proposer }

/-- Bob's block is taken back, and the one in its place is Alice's second. -/
def reproposed : List ChainOp :=
  [.insert [.bare 0 "g" "", .proposedBy 1 "a1" "g" "alice", .proposedBy 2 "a2" "a1" "bob"],
    .rollback 1, .insert [.proposedBy 2 "b2" "a1" "alice"]]

omit [Collation] [Postgres] in
theorem proposers_of_kept_blocks_reproposed :
    ∃ s, exec plainChain {} reproposed = some s ∧
      @listProposers .plain s.db "main" = [⟨"alice", 2, 1, 2⟩] ∧
      ((@listProposers .plain s.db "main").map (·.blocksProposed)).sum =
        (s.kept.filter fun b => b.proposer.isSome).length := by
  have hsome : ((exec plainChain {} reproposed).map fun s =>
      @listProposers .plain s.db "main") = some [⟨"alice", 2, 1, 2⟩] := by decide
  obtain ⟨s, hs, hrows⟩ := Option.map_eq_some_iff.mp hsome
  exact ⟨s, hs, hrows, (@proposers_of_kept_blocks .plain .plain _ _ _ _ hs).2.2.1⟩

end

end Retracer
