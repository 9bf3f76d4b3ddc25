import Retracer.Storage.Anchored
import Retracer.Storage.BlockActions
import Retracer.Storage.Snapshots

/-! # The row that is broadcast and the row that is read back

`block_row_from_wire` builds a row from the block itself; the reads build it from three
tables. The actions come out in the same order, since their index in the block is what they
are read in. Dropped actions are broadcast as the node lists them and read by signature.
-/

namespace Retracer

open KeyedTable Sorting Execution Traverse

/-! ## Reads at one moment -/

section

variable [Collation]

/-- The three statements of a read, with nothing in between. -/
def BlocksRead.run (db : Database) (chainId : String) (read : BlocksRead) :
    Option (List BlockRow) :=
  match read.select db chainId with
  | [] => some []
  | rows =>
      let r : OpenRead := { read, rows }
      (selectActions db chainId r.lo r.hi).map fun actions =>
        read.assemble rows actions (droppedInRange db chainId r.lo r.hi)

def getBlocksInRange (db : Database) (chainId : String) (lo hi limit : Int) :
    Option (List BlockRow) :=
  (BlocksRead.inRange lo hi limit).run db chainId

variable {db : Database} {chainId : String}

/-- Every row of a read is the block stored at its height. -/
theorem BlocksRead.storedBlock_of_run {read : BlocksRead} {page : List BlockRow}
    (h : read.run db chainId = some page) {row : BlockRow} (hrow : row ∈ page) :
    storedBlock db chainId row.height = some row := by
  unfold BlocksRead.run at h
  split at h
  · cases h
    cases hrow
  · next hne =>
      dsimp only at h
      obtain ⟨actions, hactions, rfl⟩ := Option.map_eq_some_iff.mp h
      have hasOf := (OpenRead.asOf_select db chainId read).resolve_right hne
      have hread : OpenRead.AsOf db chainId
          { read, rows := read.select db chainId, actions := some actions } :=
        ⟨hasOf.stored, hasOf.bounds, hasOf.alone, fun actions' heq => by cases heq; exact hactions⟩
      exact hread.assemble .refl rfl hrow

theorem BlocksRead.heights_run {read : BlocksRead} {page : List BlockRow}
    (h : read.run db chainId = some page) :
    page.map (·.height) = (read.select db chainId).map (·.height) := by
  unfold BlocksRead.run at h
  split at h
  · next hnil =>
      cases h
      rw [hnil]
      rfl
  · obtain ⟨actions, _, rfl⟩ := Option.map_eq_some_iff.mp h
    exact read.heights_assemble _ _ _

omit [Collation] in
theorem isSome_selectActions (h : ActionsHaveBlocks db) (lo hi : Int) :
    (selectActions db chainId lo hi).isSome := by
  apply isSome_mapM_iff.mpr
  intro a ha
  have hin := List.mem_of_mem_filter ((List.mem_insertionSort _).mp ha)
  rw [actionColumns, Option.isSome_map]
  exact h a hin

/-- No read fails where every action has its block. -/
theorem BlocksRead.isSome_run (h : ActionsHaveBlocks db) (read : BlocksRead) :
    (read.run db chainId).isSome := by
  unfold BlocksRead.run
  split
  · rfl
  · rw [Option.isSome_map]
    exact isSome_selectActions h _ _

end

/-! ## One block -/

/-- The rejections of a block, in the node's order. -/
def IndexableBlock.dropped (block : IndexableBlock) : List DroppedEffect :=
  block.effects.elim [] (·.dropped)

/-- All the fields but `settlement` and `disputed`. -/
def BlockRow.shared (row : BlockRow) : BlockRow :=
  { row with settlement := none, disputed := false }

/-- What is broadcast of the block is what is read back of it, by height and in any range. -/
def StreamedAsStored [Collation] (db : Database) (chainId : String) (block : IndexableBlock) :
    Prop :=
  ∃ row, blockRowFromWire block = some row ∧
    (∃ stored, storedBlock db chainId block.height = some stored ∧ stored.shared = row.shared) ∧
    ∀ lo hi limit, ∃ page, getBlocksInRange db chainId lo hi limit = some page ∧
      ∀ stored ∈ page, stored.height = block.height → stored.shared = row.shared

/-- The rows of an action: the one stored, with the timestamp of its block. -/
def ActionsRow.dated (timestamp : Int) (a : ActionsRow) : ActionRow :=
  { actionHash := a.actionHash, blockHeight := a.blockHeight, indexInBlock := a.indexInBlock
    kind := a.kind, fromAddress := a.fromAddress, payload := a.payload
    blockTimestamp := timestamp }

def DroppedActionsRow.read (d : DroppedActionsRow) : DroppedRow :=
  { blockHeight := d.blockHeight, signature := d.signature, sender := d.sender, reason := d.reason }

def DroppedEffect.row (height : Int) (d : DroppedEffect) : DroppedRow :=
  { blockHeight := height, signature := d.signature, sender := d.sender, reason := d.reason }

theorem blockRowFromWire_eq {block : IndexableBlock} {extractor : AddressExtractor}
    {w : BlockWrites} (h : BlockWrites.build block block.height extractor = some w)
    (chainId : String) :
    blockRowFromWire block = some (blockRow (blocksRow chainId block)
      ((w.actionsRows chainId block.height).map (ActionsRow.dated (asI64 block.timestamp)))
      (block.dropped.map (DroppedEffect.row block.height))) := by
  have hactions := mapM_map (storedAction chainId block.height)
    (ActionsRow.dated (asI64 block.timestamp)) block.actions.zipIdx
  rw [mapM_storedAction h, Option.map_some] at hactions
  unfold blockRowFromWire
  dsimp only
  rw [mapM_congr (g := fun entry => (storedAction chainId block.height entry).map
    (ActionsRow.dated (asI64 block.timestamp))), hactions, Option.bind_eq_bind, Option.bind_some]
  · cases heffects : block.effects with
    | none => simp [blockRow, blocksRow, IndexableBlock.dropped, heffects]
    | some effects =>
        simp [blockRow, blocksRow, IndexableBlock.dropped, heffects, DroppedEffect.row]
  · rintro ⟨action, index⟩ _
    rw [storedAction]
    cases action.payloadJson <;> rfl

section

variable [Postgres] {chainId : String} {extractor : AddressExtractor} {block : IndexableBlock}
  {writes : BlockWrites} {tokens : List TokenEventsRow} {db db' : Database}

omit [Postgres] in
/-- The rows that a block puts at its free height are all that is read there. -/
theorem filter_insertMissing_free {k : HeightTable} {rows : List k.Row} (hanchored : Anchored db)
    {height : Int} (hfree : db.blocks.find? (chainId, height) = none)
    (hstamped : StampedWith chainId height rows)
    (hadded : ((db.at k).insertMissing rows).rows = (db.at k).rows ++ rows) :
    ((db.at k).insertMissing rows).rows.filter (within chainId height height) = rows := by
  have hold : (db.at k).rows.filter (within chainId height height) = [] := by
    rw [List.filter_eq_nil_iff]
    intro r hr hin
    simp only [within, decide_eq_true_eq] at hin
    exact hanchored.ne_free hfree hr hin.1 (by omega)
  have hnew : rows.filter (within chainId height height) = rows := by
    rw [List.filter_eq_self]
    intro r hr
    obtain ⟨hchain, hheight⟩ := hstamped r hr
    simp [within, hchain, hheight]
  rw [hadded, List.filter_append, hold, hnew, List.nil_append]

omit [Postgres] in
/-- The actions of a block are in the order they are read in. -/
theorem pairwise_byPosition
    (hbuild : BlockWrites.build block block.height extractor = some writes) :
    (writes.actionsRows chainId block.height).Pairwise byPosition := by
  have hindexes : ((writes.actionsRows chainId block.height).map (·.indexInBlock)).Pairwise
      (· < ·) := by
    rw [indexes_actionsRows hbuild]
    exact List.pairwise_lt_range
  rw [List.pairwise_map] at hindexes
  apply hindexes.imp_of_mem
  intro a b ha hb hlt
  have hheight : a.blockHeight = b.blockHeight :=
    (stamped_actionsRows a ha).2.trans (stamped_actionsRows b hb).2.symm
  refine ⟨hheight.le, fun _ => ?_⟩
  simp only [oldestFirst]
  omega

omit [Postgres] in
theorem nodup_dropped (hdistinct : (block.dropped.map (·.signature)).Nodup) :
    ((blockRows chainId block writes tokens .droppedActions).map key).Nodup := by
  have hkeys : (blockRows chainId block writes tokens .droppedActions).map key =
      (block.dropped.map (·.signature)).map fun s => (chainId, (block.height : Int), s) := by
    simp only [blockRows, IndexableBlock.dropped]
    cases block.effects with
    | none => rfl
    | some effects => simp [BlockEffects.droppedActionsRows, key, Function.comp_def]
  rw [hkeys]
  exact hdistinct.map fun _ _ heq => by simpa using heq

theorem Written.find_block (hw : Written chainId extractor block writes tokens db db')
    (hfree : db.blocks.find? (chainId, (block.height : Int)) = none) :
    ∃ b, db'.blocks.find? (chainId, (block.height : Int)) = some b ∧
      clearDisputed b = blocksRow chainId block := by
  have hold : db.undisputedBlocks.find? (chainId, (block.height : Int)) = none := by
    rw [Database.undisputedBlocks, Table.find?_modify, hfree]
    rfl
  have hfind : db'.undisputedBlocks.find? (chainId, (block.height : Int)) =
      some (blocksRow chainId block) := by
    rw [hw.blocks, Table.find?_insertMissing, hold]
    simp [blocksRow, key]
  rw [Database.undisputedBlocks, Table.find?_modify, Option.map_eq_some_iff] at hfind
  exact hfind

section

variable (hw : Written chainId extractor block writes tokens db db') (hanchored : Anchored db)
  (hfree : db.blocks.find? (chainId, (block.height : Int)) = none)

include hw hanchored hfree

theorem Written.selectActions (hdistinct : block.actionHashes.Nodup)
    (hnew : ∀ hash ∈ block.actionHashes, (chainId, hash) ∉ db.actions.rows.map key) :
    Retracer.selectActions db' chainId block.height block.height =
      some ((writes.actionsRows chainId block.height).map
        (ActionsRow.dated (asI64 block.timestamp))) := by
  obtain ⟨b, hb, hclear⟩ := hw.find_block hfree
  have hrows : db'.actions.rows.filter (within chainId block.height block.height) =
      writes.actionsRows chainId block.height := by
    have hactions : db'.actions =
        db.actions.insertMissing (writes.actionsRows chainId block.height) := hw.rows .actions
    rw [hactions]
    exact filter_insertMissing_free (k := .actions) hanchored hfree stamped_actionsRows
      (rows_insertMissing_actions hw.build hdistinct hnew)
  have hdated : ∀ a ∈ writes.actionsRows chainId block.height,
      actionColumns db' a = some (a.dated (asI64 block.timestamp)) := by
    intro a ha
    obtain ⟨hchain, hheight⟩ := stamped_actionsRows a ha
    have htime : (clearDisputed b).timestamp = (blocksRow chainId block).timestamp := by
      rw [hclear]
    simp only [clearDisputed, blocksRow] at htime
    have hfind : db'.blocks.find? (a.chainId, a.blockHeight) = some b := by
      rw [← hb]
      exact congrArg _ (Prod.ext hchain hheight)
    rw [actionColumns, hfind, Option.map_some, htime]
    rfl
  rw [Retracer.selectActions, hrows, (pairwise_byPosition hw.build).insertionSort_eq,
    mapM_congr hdated]
  exact List.mapM_pure

theorem Written.droppedInRange [Collation] (hdropped : (block.dropped.map (·.signature)).Nodup) :
    Retracer.droppedInRange db' chainId block.height block.height =
      ((blockRows chainId block writes tokens .droppedActions).insertionSort bySignature).map
        DroppedActionsRow.read := by
  have hstamped : StampedWith chainId block.height
      (blockRows chainId block writes tokens .droppedActions) :=
    stamped_blockRows hw.stamped .droppedActions
  have hfresh : ∀ r ∈ blockRows chainId block writes tokens .droppedActions,
      key r ∉ db.droppedActions.rows.map key := by
    intro r hr hmem
    obtain ⟨s, hs, hkey⟩ := List.mem_map.mp hmem
    obtain ⟨hchain, hheight⟩ := hstamped r hr
    simp only [key, Prod.mk.injEq] at hkey
    have hne := hanchored.ne_free hfree (k := .droppedActions) hs (hkey.1.trans hchain)
    exact hne (hkey.2.1.trans hheight)
  have hrows : db'.droppedActions.rows.filter (within chainId block.height block.height) =
      blockRows chainId block writes tokens .droppedActions := by
    have hall : db'.droppedActions = db.droppedActions.insertMissing
        (blockRows chainId block writes tokens .droppedActions) := hw.rows .droppedActions
    rw [hall]
    exact filter_insertMissing_free (k := .droppedActions) hanchored hfree hstamped
      (Table.rows_insertMissing_of_fresh (nodup_dropped hdropped) hfresh)
  rw [Retracer.droppedInRange, hrows]
  rfl

end

omit [Postgres] in
/-- Sorting by signature leaves the rejections alone exactly when they came in that order. -/
theorem sorted_dropped_iff [Collation] {rows : List DroppedActionsRow} {height : Int}
    (hstamped : StampedWith chainId height rows) :
    (rows.insertionSort bySignature).map DroppedActionsRow.read =
        rows.map DroppedActionsRow.read ↔
      (rows.map (·.signature)).Pairwise textLe := by
  constructor
  · intro hsame
    have hsignatures : (rows.insertionSort bySignature).map (·.signature) =
        rows.map (·.signature) := by
      have hmapped := congrArg (List.map DroppedRow.signature) hsame
      simpa only [List.map_map, Function.comp_def, DroppedActionsRow.read] using hmapped
    rw [← hsignatures, List.pairwise_map]
    apply (List.pairwise_insertionSort bySignature rows).imp_of_mem
    intro a b ha hb hle
    have hha := (hstamped a ((List.mem_insertionSort _).mp ha)).2
    have hhb := (hstamped b ((List.mem_insertionSort _).mp hb)).2
    exact (hle.2 (hha.trans hhb.symm)).1
  · intro hsorted
    rw [List.pairwise_map] at hsorted
    have hall : rows.Pairwise bySignature := by
      apply hsorted.imp_of_mem
      intro a b ha hb hle
      have hheight : a.blockHeight = b.blockHeight :=
        (hstamped a ha).2.trans (hstamped b hb).2.symm
      exact ⟨hheight.le, fun _ => ⟨hle, fun _ => trivial⟩⟩
    rw [hall.insertionSort_eq]

omit [Postgres] in
theorem read_dropped :
    (blockRows chainId block writes tokens .droppedActions).map DroppedActionsRow.read =
      block.dropped.map (DroppedEffect.row block.height) := by
  simp only [blockRows, IndexableBlock.dropped]
  cases block.effects with
  | none => rfl
  | some effects =>
      simp [BlockEffects.droppedActionsRows, DroppedEffect.row, DroppedActionsRow.read]

omit [Postgres] in
theorem signature_dropped :
    (blockRows chainId block writes tokens .droppedActions).map (·.signature) =
      block.dropped.map (·.signature) := by
  simp only [blockRows, IndexableBlock.dropped]
  cases block.effects with
  | none => rfl
  | some effects => simp [BlockEffects.droppedActionsRows]

omit [Postgres] in
theorem shared_blockRow_iff {b : BlocksRow} (hclear : clearDisputed b = blocksRow chainId block)
    {actions : List ActionRow} {dropped dropped' : List DroppedRow} :
    (blockRow b actions dropped).shared =
        (blockRow (blocksRow chainId block) actions dropped').shared ↔ dropped = dropped' := by
  have hshared : (blockRow b actions dropped).shared =
      (blockRow (clearDisputed b) actions dropped).shared := rfl
  rw [hshared, hclear]
  simp [BlockRow.shared, blockRow]

/-- A new block at a free height is read back as it was broadcast, exactly when the node
listed its rejections in the order of their signatures. -/
theorem streamedAsStored_iff [Collation] {extractors : String → AddressExtractor}
    {ops : List WriteOp} (hrun : exec (writeStep extractors) .empty ops = some db)
    (hfree : db.blocks.find? (chainId, (block.height : Int)) = none)
    (hdistinct : block.actionHashes.Nodup)
    (hnew : ∀ hash ∈ block.actionHashes, (chainId, hash) ∉ db.actions.rows.map key)
    (hdropped : (block.dropped.map (·.signature)).Nodup)
    (hinsert : insertBlock db chainId block extractor = some db') :
    StreamedAsStored db' chainId block ↔ (block.dropped.map (·.signature)).Pairwise textLe := by
  have hanchored := anchored_reachable hrun
  have hanchored' : Anchored db' := hanchored.insertBlocks hinsert
  rw [insertBlock, insertBlocks_cons, Option.bind_eq_some_iff] at hinsert
  obtain ⟨mid, hmid, hlast⟩ := hinsert
  cases hlast
  obtain ⟨writes, tokens, hw⟩ := written_of_insert hmid
  obtain ⟨b, hb, hclear⟩ := hw.find_block hfree
  have hwire := blockRowFromWire_eq hw.build chainId
  have hstored : storedBlock db' chainId block.height = some (blockRow b
      ((writes.actionsRows chainId block.height).map (ActionsRow.dated (asI64 block.timestamp)))
      (((blockRows chainId block writes tokens .droppedActions).insertionSort bySignature).map
        DroppedActionsRow.read)) := by
    rw [storedBlock, hb, Option.bind_some, hw.selectActions hanchored hfree hdistinct hnew,
      hw.droppedInRange hanchored hfree hdropped]
    rfl
  rw [← signature_dropped, ← sorted_dropped_iff (stamped_blockRows hw.stamped .droppedActions),
    read_dropped, ← shared_blockRow_iff hclear]
  constructor
  · rintro ⟨row, hrow, ⟨stored, hread, hsame⟩, _⟩
    rw [hwire, Option.some.injEq] at hrow
    rw [hstored, Option.some.injEq] at hread
    rw [hread, hrow]
    exact hsame
  · intro hsame
    refine ⟨_, hwire, ⟨_, hstored, hsame⟩, fun lo hi limit => ?_⟩
    obtain ⟨page, hpage⟩ := Option.isSome_iff_exists.mp
      (BlocksRead.isSome_run hanchored'.actionsHaveBlocks (.inRange lo hi limit))
    refine ⟨page, hpage, fun stored hin hheight => ?_⟩
    have hread := BlocksRead.storedBlock_of_run hpage hin
    rw [hheight, hstored, Option.some.injEq] at hread
    rw [← hread]
    exact hsame

end

/-- A first block with one action and these rejections. -/
def rejecting (signatures : List String) : IndexableBlock :=
  { IndexableBlock.bare 0 "g" "" with
    actions := [⟨"alice", none, some (.obj [("Transfer", .obj [("to", .str "bob")])])⟩]
    effects := some { dropped := signatures.map fun s => ⟨s, "carol", "nonce"⟩ } }

abbrev insertRejecting (signatures : List String) : Option Database :=
  @insertBlock .plain .empty "main" (rejecting signatures) (.tierAOnly .empty)

theorem streamedAsStored_iff_ascending :
    ∃ db, insertRejecting ["s1", "s2"] = some db ∧
      (@StreamedAsStored .plain db "main" (rejecting ["s1", "s2"]) ↔
        (["s1", "s2"] : List String).Pairwise (@textLe .plain)) := by
  have hsome : (insertRejecting ["s1", "s2"]).isSome := by decide
  obtain ⟨db, hdb⟩ := Option.isSome_iff_exists.mp hsome
  exact ⟨db, hdb, @streamedAsStored_iff .plain "main" (.tierAOnly .empty)
    (rejecting ["s1", "s2"]) .empty db .plain (fun _ => .tierAOnly .empty) [] rfl (by decide)
    (by decide) (by decide) (by decide) hdb⟩

/-- Two rejections listed against the order of their signatures. -/
theorem streamed_dropped_not_as_stored :
    ¬ ∀ (extractors : String → AddressExtractor) (ops : List WriteOp) (chainId : String)
        (block : IndexableBlock) (extractor : AddressExtractor) (db db' : Database),
      exec (@writeStep .plain extractors) .empty ops = some db →
      db.blocks.find? (chainId, (block.height : Int)) = none → block.actionHashes.Nodup →
      (∀ hash ∈ block.actionHashes, (chainId, hash) ∉ db.actions.rows.map key) →
      (block.dropped.map (·.signature)).Nodup →
      @insertBlock .plain db chainId block extractor = some db' →
      @StreamedAsStored .plain db' chainId block := by
  intro h
  have hdiffer : (insertRejecting ["s2", "s1"]).any (fun db =>
      ((@storedBlock .plain db "main" 0).map fun row => row.dropped.map (·.signature)) ≠
        (blockRowFromWire (rejecting ["s2", "s1"])).map fun row =>
          row.dropped.map (·.signature)) = true := by decide
  obtain ⟨db, hdb, hne⟩ := Option.any_eq_true _ _ |>.mp hdiffer
  obtain ⟨row, hrow, ⟨stored, hstored, hsame⟩, _⟩ := h (fun _ => .tierAOnly .empty) [] "main"
    (rejecting ["s2", "s1"]) (.tierAOnly .empty) .empty db rfl (by decide) (by decide) (by decide)
    (by decide) hdb
  have hdropped : stored.shared.dropped = row.shared.dropped := by rw [hsame]
  simp only [BlockRow.shared] at hdropped
  have hread : @storedBlock .plain db "main" 0 = some stored := hstored
  rw [hrow, hread] at hne
  simp [hdropped] at hne

end Retracer
