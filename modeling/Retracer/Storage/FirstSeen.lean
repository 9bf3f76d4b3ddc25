import Retracer.Storage.Proposers
import Retracer.Storage.Streamed

/-! # First seen

`get_account_first_seen` takes the least height of an address in the two address indexes.
An identity that comes again keeps the row of its first height in one of them and has a row
for each height in the other, and the least height is that of the first block all the same.
-/

namespace Retracer

open KeyedTable Grouping Execution

/-! ## The read -/

structure FirstSeen where
  height : Int
  timestamp : Int
deriving DecidableEq

def senderHeights (db : Database) (chainId address : String) : List Int :=
  (db.accountActions.rows.filter fun r => r.chainId = chainId ∧ r.address = address).map
    (·.blockHeight)

def roleHeights (db : Database) (chainId address : String) : List Int :=
  (db.actionAddresses.rows.filter fun r => r.chainId = chainId ∧ r.address = address).map
    (·.blockHeight)

def getAccountFirstSeen (db : Database) (chainId address : String) : Option FirstSeen :=
  (least (senderHeights db chainId address).min? (roleHeights db chainId address).min?).bind
    fun height => (db.blocks.find? (chainId, height)).map fun b =>
      { height := b.height, timestamp := b.timestamp }

/-! ## What it should say -/

/-- The address signed the action, or has a role in what it says. -/
def IndexableAction.mentions (extractor : AddressExtractor) (address : String)
    (action : IndexableAction) : Bool :=
  action.sender == address ||
    action.payloadJson.any fun json =>
      (extractor.resolve (splitKind json).1 (splitKind json).2).any fun p => p.1 == address

def IndexableBlock.mentions (extractor : AddressExtractor) (address : String)
    (block : IndexableBlock) : Bool :=
  block.actions.any (·.mentions extractor address)

/-! ## The index rows of the kept blocks -/

section

variable {chainId : String} {extractor : AddressExtractor} {address : String}

theorem mem_batchActions {blocks : List IndexableBlock} {a : ActionsRow} :
    a ∈ batchActions chainId extractor blocks ↔ ∃ block ∈ blocks, ∃ rows,
      BlockWrites.build block block.height extractor =
          some (.ofRows block.height extractor rows) ∧
        serialiseAll block.actions.zipIdx = some rows ∧
        ∃ row ∈ rows, row.actionsRow chainId block.height = a := by
  simp only [batchActions, List.mem_flatMap]
  constructor
  · rintro ⟨block, hblock, hin⟩
    cases hbuild : BlockWrites.build block block.height extractor with
    | none =>
        rw [hbuild] at hin
        cases hin
    | some w =>
        obtain ⟨rows, hrows, rfl⟩ := BlockWrites.exists_rows_of_build _ extractor hbuild
        rw [hbuild, Option.elim_some, BlockWrites.actionsRows_ofRows, List.mem_map] at hin
        exact ⟨block, hblock, rows, hbuild, hrows, hin⟩
  · rintro ⟨block, hblock, rows, hbuild, _, hin⟩
    refine ⟨block, hblock, ?_⟩
    rw [hbuild, Option.elim_some, BlockWrites.actionsRows_ofRows, List.mem_map]
    exact hin

/-- The row of the action mentions the address. -/
def ActionsRow.Mentions (extractor : AddressExtractor) (address : String) (a : ActionsRow) :
    Prop :=
  a.fromAddress = address ∨ ∃ p ∈ rolePairs extractor a, p.1 = address

theorem mentions_actionsRow {row : SerialisedAction} {height : Int}
    (hjson : row.1.1.payloadJson = some row.2) :
    (row.actionsRow chainId height).Mentions extractor address ↔
      row.1.1.mentions extractor address = true := by
  simp only [ActionsRow.Mentions, SerialisedAction.actionsRow, rolePairs,
    IndexableAction.mentions, hjson, Option.any_some, Bool.or_eq_true, beq_iff_eq, List.any_eq_true,
    List.mem_map]
  constructor
  · rintro (hsender | ⟨_, ⟨p, hp, rfl⟩, haddress⟩)
    · exact Or.inl hsender
    · exact Or.inr ⟨p, hp, haddress⟩
  · rintro (hsender | ⟨p, hp, haddress⟩)
    · exact Or.inl hsender
    · exact Or.inr ⟨_, ⟨p, hp, rfl⟩, haddress⟩

/-- A block whose payloads serialise mentions what its rows mention. -/
theorem mentions_iff_rows {block : IndexableBlock} {rows : List SerialisedAction}
    (hrows : serialiseAll block.actions.zipIdx = some rows) (height : Int) :
    block.mentions extractor address = true ↔
      ∃ row ∈ rows, (row.actionsRow chainId height).Mentions extractor address := by
  obtain ⟨hfst, hown⟩ := map_fst_serialiseAll hrows
  have hactions : block.actions = rows.map (·.1.1) := by
    rw [← List.zipIdx_map_fst 0 block.actions, ← hfst, List.map_map]
    rfl
  rw [IndexableBlock.mentions, hactions, List.any_map, List.any_eq_true]
  constructor
  · rintro ⟨row, hrow, hmentions⟩
    exact ⟨row, hrow, (mentions_actionsRow (hown row hrow)).mpr hmentions⟩
  · rintro ⟨row, hrow, hmentions⟩
    exact ⟨row, hrow, (mentions_actionsRow (hown row hrow)).mp hmentions⟩

/-- The actions of ascending blocks are in the order of their positions. -/
theorem positions_batchActions {blocks : List IndexableBlock}
    (hasc : blocks.Pairwise fun a b => (a.height : Int) < b.height) :
    (batchActions chainId extractor blocks).Pairwise byPosition := by
  have hheight : ∀ block : IndexableBlock, ∀ a ∈ (BlockWrites.build block block.height
      extractor).elim [] fun w => w.actionsRows chainId block.height,
      a.blockHeight = block.height := by
    intro block a ha
    cases hbuild : BlockWrites.build block block.height extractor with
    | none =>
        rw [hbuild] at ha
        cases ha
    | some w =>
        rw [hbuild] at ha
        exact (stamped_actionsRows a ha).2
  rw [batchActions, List.pairwise_flatMap]
  constructor
  · intro block _
    cases hbuild : BlockWrites.build block block.height extractor with
    | none => exact List.Pairwise.nil
    | some w => exact pairwise_byPosition hbuild
  · apply hasc.imp
    intro b c hlt x hx y hy
    rw [← hheight b x hx, ← hheight c y hy] at hlt
    exact ⟨hlt.le, fun heq => absurd heq hlt.ne⟩

theorem ascending_batchActions {blocks : List IndexableBlock}
    (hasc : blocks.Pairwise fun a b => (a.height : Int) < b.height) :
    (batchActions chainId extractor blocks).Pairwise fun a b =>
      a.blockHeight ≤ b.blockHeight :=
  (positions_batchActions hasc).imp fun h => h.1

variable [Postgres] {s : StoreState}

/-- The two indexes were filled from the kept blocks alone. -/
theorem Kept.indexes (h : Kept chainId extractor s) :
    s.db.accountActions = Table.empty.insertMissing
        ((batchActions chainId extractor s.kept).map senderRow) ∧
      s.db.actionAddresses = Table.empty.insertMissing
        ((batchActions chainId extractor s.kept).flatMap (roleRows extractor)) := by
  obtain ⟨t, ht, hsame⟩ := h.holds
  have hat := (content_eq_iff.mp hsame).1
  have hinsert : insertBlocks .empty chainId s.kept extractor = some t := ht
  obtain ⟨_, hsenders, hroles⟩ := insertBlocks_indexes hinsert
  have hsender : s.db.accountActions = t.accountActions := hat .accountActions
  have hrole : s.db.actionAddresses = t.actionAddresses := hat .actionAddresses
  rw [hsender, hrole]
  exact ⟨hsenders, hroles⟩

theorem Kept.build_isSome (h : Kept chainId extractor s) {block : IndexableBlock}
    (hblock : block ∈ s.kept) :
    ∃ w, BlockWrites.build block block.height extractor = some w := by
  obtain ⟨t, ht, _⟩ := h.holds
  obtain ⟨before, after, hsplit⟩ := List.append_of_mem hblock
  have hall : (contentStore chainId extractor).replay (before ++ block :: after) = some t := by
    rw [← hsplit]
    exact ht
  unfold Replay.Store.replay at hall
  rw [Replay.Store.putAll_append, Option.bind_eq_some_iff] at hall
  obtain ⟨mid, _, hrest⟩ := hall
  rw [Replay.Store.putAll_cons, Option.bind_eq_some_iff] at hrest
  obtain ⟨next, hput, _⟩ := hrest
  obtain ⟨writes, tokens, hwritten⟩ := written_of_insert hput
  exact ⟨writes, hwritten.build⟩

theorem Kept.mentions_rows (h : Kept chainId extractor s) {block : IndexableBlock}
    (hblock : block ∈ s.kept) (hmentions : block.mentions extractor address = true) :
    ∃ a ∈ batchActions chainId extractor s.kept, a.blockHeight = block.height ∧
      a.Mentions extractor address := by
  obtain ⟨w, hbuild⟩ := h.build_isSome hblock
  obtain ⟨rows, hrows, rfl⟩ := BlockWrites.exists_rows_of_build _ extractor hbuild
  obtain ⟨row, hrow, hrowMentions⟩ := (mentions_iff_rows hrows block.height).mp hmentions
  exact ⟨_, mem_batchActions.mpr ⟨block, hblock, rows, hbuild, hrows, row, hrow, rfl⟩, rfl,
    hrowMentions⟩

omit [Postgres] in
theorem block_of_mentions {blocks : List IndexableBlock} {a : ActionsRow}
    (ha : a ∈ batchActions chainId extractor blocks) (hmentions : a.Mentions extractor address) :
    ∃ block ∈ blocks, block.mentions extractor address = true ∧
      (block.height : Int) = a.blockHeight := by
  obtain ⟨block, hblock, rows, _, hrows, row, hrow, rfl⟩ := mem_batchActions.mp ha
  exact ⟨block, hblock, (mentions_iff_rows hrows block.height).mpr ⟨row, hrow, hmentions⟩, rfl⟩

theorem Kept.mem_senderHeights (h : Kept chainId extractor s) {n : Int} :
    n ∈ senderHeights s.db chainId address ↔
      ∃ a ∈ batchActions chainId extractor s.kept, a.fromAddress = address ∧
        a.blockHeight = n := by
  rw [senderHeights, h.indexes.1]
  constructor
  · intro hn
    obtain ⟨r, hr, rfl⟩ := List.mem_map.mp hn
    obtain ⟨hmem, hwhere⟩ := List.mem_filter.mp hr
    obtain hin | hin := Table.mem_of_mem_insertMissing hmem
    · cases hin
    · obtain ⟨a, ha, rfl⟩ := List.mem_map.mp hin
      exact ⟨a, ha, (of_decide_eq_true hwhere).2, rfl⟩
  · rintro ⟨a, ha, hsender, rfl⟩
    refine List.mem_map.mpr ⟨senderRow a, List.mem_filter.mpr ⟨?_, ?_⟩, rfl⟩
    · exact senderRow_stored .empty ha
    · exact decide_eq_true ⟨chainId_batchActions ha, hsender⟩

theorem Kept.of_mem_roleHeights (h : Kept chainId extractor s) {n : Int}
    (hn : n ∈ roleHeights s.db chainId address) :
    ∃ a ∈ batchActions chainId extractor s.kept,
      (∃ p ∈ rolePairs extractor a, p.1 = address) ∧ a.blockHeight = n := by
  rw [roleHeights, h.indexes.2] at hn
  obtain ⟨r, hr, rfl⟩ := List.mem_map.mp hn
  obtain ⟨hmem, hwhere⟩ := List.mem_filter.mp hr
  obtain hin | hin := Table.mem_of_mem_insertMissing hmem
  · cases hin
  · obtain ⟨a, ha, hrow⟩ := List.mem_flatMap.mp hin
    obtain ⟨p, hp, rfl⟩ := List.mem_map.mp hrow
    exact ⟨a, ha, ⟨p, hp, (of_decide_eq_true hwhere).2⟩, rfl⟩

omit [Postgres] in
theorem ascending_roleRows {actions : List ActionsRow}
    (hasc : actions.Pairwise fun a b => a.blockHeight ≤ b.blockHeight) :
    (actions.flatMap (roleRows extractor)).Pairwise fun r r' => r.blockHeight ≤ r'.blockHeight := by
  have hheight : ∀ a, ∀ r ∈ roleRows extractor a, r.blockHeight = a.blockHeight := by
    intro a r hr
    obtain ⟨_, _, rfl⟩ := List.mem_map.mp hr
    rfl
  rw [List.pairwise_flatMap]
  constructor
  · intro a _
    apply List.pairwise_of_forall_mem_list
    intro r hr r' hr'
    rw [hheight a r hr, hheight a r' hr']
  · apply hasc.imp
    intro a b hle r hr r' hr'
    rw [hheight a r hr, hheight b r' hr']
    exact hle

/-- The row that is kept of a role is the one that came first, so it is no higher. -/
theorem Kept.roleHeights_cover (h : Kept chainId extractor s) {a : ActionsRow}
    (ha : a ∈ batchActions chainId extractor s.kept) {p : String × String}
    (hp : p ∈ rolePairs extractor a) (haddress : p.1 = address) :
    ∃ n ∈ roleHeights s.db chainId address, n ≤ a.blockHeight := by
  have hmem : { chainId := a.chainId, actionHash := a.actionHash, address := p.1, role := p.2
                blockHeight := a.blockHeight } ∈
      (batchActions chainId extractor s.kept).flatMap (roleRows extractor) :=
    List.mem_flatMap.mpr ⟨a, ha, List.mem_map.mpr ⟨p, hp, rfl⟩⟩
  obtain ⟨r, hr, hkey, hle⟩ := Table.first_of_key ActionAddressesRow.blockHeight
    (ascending_roleRows (ascending_batchActions h.ascending)) hmem
  simp only [key, Prod.mk.injEq] at hkey
  obtain ⟨hchain, _, hnamed, _⟩ := hkey
  rw [← h.indexes.2] at hr
  refine ⟨r.blockHeight, List.mem_map.mpr ⟨r, List.mem_filter.mpr ⟨hr, ?_⟩, rfl⟩, hle⟩
  exact decide_eq_true ⟨hchain.trans (chainId_batchActions ha), hnamed.trans haddress⟩

theorem Kept.leastHeight_eq (h : Kept chainId extractor s) (address : String) :
    least (senderHeights s.db chainId address).min? (roleHeights s.db chainId address).min? =
      (s.kept.find? (·.mentions extractor address)).map fun b => (b.height : Int) := by
  rw [least_min?]
  apply min?_eq_find? h.ascending
  · intro n hn
    rcases List.mem_append.mp hn with hn | hn
    · obtain ⟨a, ha, hsender, rfl⟩ := h.mem_senderHeights.mp hn
      exact block_of_mentions ha (Or.inl hsender)
    · obtain ⟨a, ha, hrole, rfl⟩ := h.of_mem_roleHeights hn
      exact block_of_mentions ha (Or.inr hrole)
  · intro block hblock hmentions
    obtain ⟨a, ha, hheight, hrow⟩ := h.mentions_rows hblock hmentions
    rcases hrow with hsender | ⟨p, hp, haddress⟩
    · refine ⟨a.blockHeight, List.mem_append_left _ ?_, hheight.le⟩
      exact h.mem_senderHeights.mpr ⟨a, ha, hsender, rfl⟩
    · obtain ⟨n, hn, hle⟩ := h.roleHeights_cover ha hp haddress
      exact ⟨n, List.mem_append_right _ hn, hle.trans hheight.le⟩

/-- In every state reached an address was first seen in the first kept block one of whose
actions it signed or has a role in, and not at all if there is none. -/
theorem first_seen_in_kept_blocks {ops : List ChainOp}
    (hrun : exec (chainStep chainId extractor) {} ops = some s) (address : String) :
    getAccountFirstSeen s.db chainId address =
      (s.kept.find? (·.mentions extractor address)).map fun b =>
        { height := b.height, timestamp := asI64 b.timestamp } := by
  have hkept : Kept chainId extractor s :=
    exec_preserves (fun _ _ _ h hs => kept_step h hs) kept_empty hrun
  rw [getAccountFirstSeen, hkept.leastHeight_eq address]
  cases hfind : s.kept.find? (·.mentions extractor address) with
  | none => rfl
  | some block =>
      obtain ⟨n, hn⟩ := List.getElem?_of_mem (List.mem_of_find?_eq_some hfind)
      obtain ⟨b, hb, hheight, _, htime⟩ := hkept.find_block hn
      rw [← hkept.heights.getElem_height hn] at hb
      simp only [Option.map_some, Option.bind_some, hb, hheight, htime]

/-- Dave signs at height 1 and again, under the same identity, at height 2; then his first block
is replaced by one without him. -/
def signedLater : List ChainOp :=
  [.insert [.bare 0 "g" "", reusedIdentity 1 "a1" "g" "dave", reusedIdentity 2 "a2" "a1" "dave"],
    .rollback 0, .insert [.bare 1 "b1" "g", reusedIdentity 2 "b2" "b1" "dave"]]

omit [Postgres] in
theorem first_seen_in_kept_blocks_signedLater :
    ∃ s, exec plainChain {} signedLater = some s ∧
      getAccountFirstSeen s.db "main" "dave" = some ⟨2, 0⟩ ∧
      getAccountFirstSeen s.db "main" "dave" =
        (s.kept.find? (·.mentions (.tierAOnly .empty) "dave")).map fun b =>
          { height := b.height, timestamp := asI64 b.timestamp } := by
  have hsome : ((exec plainChain {} signedLater).map fun s =>
      getAccountFirstSeen s.db "main" "dave") = some (some ⟨2, 0⟩) := by decide
  obtain ⟨s, hs, hseen⟩ := Option.map_eq_some_iff.mp hsome
  exact ⟨s, hs, hseen, @first_seen_in_kept_blocks _ _ .plain _ _ hs "dave"⟩

end

end Retracer
