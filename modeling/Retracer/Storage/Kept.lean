import Retracer.Storage.Surviving

/-! # The content of the store

The cursor, the webhooks and the `disputed` flag have a life of their own: a rollback
leaves the first where it is told to, and the others answer to more than the stored
blocks. Everything else is the content, and it is that of the store given each kept
block once, for rollbacks to any height at all.
-/

namespace Retracer

open KeyedTable Execution

/-! ## Forgetting the rest -/

def Database.withoutHooks (db : Database) : Database :=
  { db with ingestionCursor := .empty, webhooks := .empty }

/-- What the stored blocks alone decide. -/
def Database.content (db : Database) : Database := db.undisputed.withoutHooks

theorem content_eq_iff {db db' : Database} :
    db.content = db'.content ↔
      (∀ k, db.at k = db'.at k) ∧ db.undisputedBlocks = db'.undisputedBlocks ∧
        db.assetActions = db'.assetActions := by
  constructor
  · intro h
    refine ⟨fun k => ?_, ?_, ?_⟩
    · have hk : db.content.at k = db'.content.at k := by rw [h]
      cases k <;> exact hk
    · have hblocks : db.content.blocks = db'.content.blocks := by rw [h]
      exact hblocks
    · have hassets : db.content.assetActions = db'.content.assetActions := by rw [h]
      exact hassets
  · rintro ⟨hat, hblocks, hassets⟩
    apply Database.ext_at
    · intro k
      have hk := hat k
      cases k <;> exact hk
    · exact hblocks
    · rfl
    · exact hassets
    · rfl

theorem content_of_undisputed {db db' : Database} (h : db.undisputed = db'.undisputed) :
    db.content = db'.content := by
  unfold Database.content
  rw [h]

theorem insertBlocksRow_withoutHooks (db : Database) (row : BlocksRow) :
    insertBlocksRow db.withoutHooks row = (insertBlocksRow db row).map Database.withoutHooks := by
  have hblocks : db.withoutHooks.blocks = db.blocks := rfl
  unfold insertBlocksRow
  rw [hblocks]
  split
  · rfl
  · split
    · rfl
    · rfl

section

variable [Postgres]

theorem insertTokenEvents_withoutHooks (writes : BlockWrites) (db : Database) (chainId : String)
    (height time : Int) :
    insertTokenEvents writes db.withoutHooks chainId height time =
      (insertTokenEvents writes db chainId height time).map Database.withoutHooks := by
  have hrows : tokenEventRows db.withoutHooks chainId height time =
      tokenEventRows db chainId height time := rfl
  unfold insertTokenEvents
  rw [hrows]
  split
  · rfl
  · rw [Option.map_map]
    rfl

theorem projectTokenCreations_withoutHooks (db : Database) (chainId : String) (height : Int) :
    projectTokenCreations db.withoutHooks chainId height =
      (projectTokenCreations db chainId height).map Database.withoutHooks := by
  have hpairs : creationPairs db.withoutHooks chainId height = creationPairs db chainId height :=
    rfl
  have hblocks : db.withoutHooks.blocks = db.blocks := rfl
  unfold projectTokenCreations
  rw [hpairs, hblocks]
  cases db.blocks.find? (chainId, height) with
  | none => rfl
  | some block =>
      simp only [Option.map_map]
      rfl

theorem projectAll_withoutHooks (regs : List AssetRegistrationsRow) (db : Database) :
    regs.foldlM (fun db r => projectTokenCreations db r.chainId r.height) db.withoutHooks =
      (regs.foldlM (fun db r => projectTokenCreations db r.chainId r.height) db).map
        Database.withoutHooks := by
  induction regs generalizing db with
  | nil => rfl
  | cons r regs ih =>
      rw [List.foldlM_cons, List.foldlM_cons, projectTokenCreations_withoutHooks]
      cases projectTokenCreations db r.chainId r.height with
      | none => rfl
      | some db' => exact ih db'

theorem insertEffectsInTx_withoutHooks (db : Database) (chainId : String) (height : Int)
    (effects : Option BlockEffects) :
    insertEffectsInTx db.withoutHooks chainId height effects =
      (insertEffectsInTx db chainId height effects).map Database.withoutHooks := by
  cases effects with
  | none => rfl
  | some effects =>
      have hregs : insertAssetRegistrations
            (insertStateRows db.withoutHooks chainId height effects) chainId height effects =
          (insertAssetRegistrations (insertStateRows db chainId height effects) chainId height
            effects).map Database.withoutHooks := by
        unfold insertAssetRegistrations
        dsimp only
        split
        · rfl
        · exact projectAll_withoutHooks _ { insertStateRows db chainId height effects with
            assetRegistrations := db.assetRegistrations.insertMissing
              (effects.assetRegistrationsRows chainId height) }
      dsimp only [insertEffectsInTx]
      rw [hregs, Option.map_map, Option.map_map]
      rfl

/-- No statement reads the cursor or the webhooks. -/
theorem insertBlockInTx_withoutHooks (chainId : String) (extractor : AddressExtractor)
    (db : Database) (block : IndexableBlock) :
    (insertBlockInTx chainId extractor db.withoutHooks block).map Database.withoutHooks =
      (insertBlockInTx chainId extractor db block).map Database.withoutHooks := by
  unfold insertBlockInTx
  simp only [Option.bind_eq_bind]
  rw [insertBlocksRow_withoutHooks]
  cases insertBlocksRow db (blocksRow chainId block) with
  | none => rfl
  | some db₁ =>
      cases BlockWrites.build block block.height extractor with
      | none => rfl
      | some writes =>
          have hactions : insertActionRows writes db₁.withoutHooks chainId block.height =
              (insertActionRows writes db₁ chainId block.height).withoutHooks := rfl
          simp only [Option.map_some, Option.bind_some]
          rw [hactions, insertTokenEvents_withoutHooks]
          cases insertTokenEvents writes (insertActionRows writes db₁ chainId block.height) chainId
              block.height (asI64 block.timestamp) with
          | none => rfl
          | some db₂ =>
              have haddresses : insertActionAddresses writes db₂.withoutHooks chainId
                    block.height =
                  (insertActionAddresses writes db₂ chainId block.height).withoutHooks := rfl
              simp only [Option.map_some, Option.bind_some]
              rw [haddresses, insertEffectsInTx_withoutHooks]
              cases insertEffectsInTx (insertActionAddresses writes db₂ chainId block.height)
                  chainId block.height block.effects with
              | none => rfl
              | some db₃ => rfl

theorem insertBlockInTx_content (chainId : String) (extractor : AddressExtractor)
    (db : Database) (block : IndexableBlock) :
    (insertBlockInTx chainId extractor db.content block).map Database.content =
      (insertBlockInTx chainId extractor db block).map Database.content := by
  have hsplit : ∀ result : Option Database,
      result.map Database.content =
        (result.map Database.withoutHooks).map Database.undisputed := by
    intro result
    cases result <;> rfl
  have hjoin : ∀ result : Option Database,
      result.map Database.content =
        (result.map Database.undisputed).map Database.withoutHooks := by
    intro result
    cases result <;> rfl
  calc (insertBlockInTx chainId extractor db.content block).map Database.content
      = (insertBlockInTx chainId extractor db.undisputed block).map Database.content := by
        rw [hsplit, hsplit]
        exact congrArg _ (insertBlockInTx_withoutHooks chainId extractor db.undisputed block)
    _ = (insertBlockInTx chainId extractor db block).map Database.content := by
        rw [hjoin, hjoin, insertBlockInTx_undisputed]

end

theorem rollbackTo_content (db : Database) (chainId : String) (height : Int) :
    (rollbackTo db.content chainId height).1.content =
      (rollbackTo db chainId height).1.content := by
  rw [content_eq_iff]
  refine ⟨fun k => ?_, ?_, rfl⟩
  · rw [at_rollbackTo, at_rollbackTo]
    cases k <;> rfl
  · have hclear : db.content.undisputedBlocks = db.undisputedBlocks :=
      congrArg Database.blocks (undisputed_undisputed db)
    rw [undisputedBlocks_rollbackTo, undisputedBlocks_rollbackTo, hclear]

/-- Two heights between which nothing is stored are the same target. -/
theorem rollbackTo_content_congr {db : Database} {chainId : String} {height target : Int}
    (hat : ∀ k, ∀ r ∈ (db.at k).rows, above chainId height r = above chainId target r)
    (hblocks : ∀ b ∈ db.undisputedBlocks.rows,
      above chainId height b = above chainId target b) :
    (rollbackTo db chainId height).1.content = (rollbackTo db chainId target).1.content := by
  rw [content_eq_iff]
  refine ⟨fun k => ?_, ?_, ?_⟩
  · rw [at_rollbackTo, at_rollbackTo]
    exact Table.deleteWhere_congr (hat k)
  · rw [undisputedBlocks_rollbackTo, undisputedBlocks_rollbackTo]
    exact Table.deleteWhere_congr hblocks
  · have hactions : db.actions.rows.filter (above chainId height) =
        db.actions.rows.filter (above chainId target) :=
      List.filter_congr fun a ha => hat .actions a ha
    show cascadeAssetActions (db.actions.rows.filter (above chainId height)) db.assetActions =
      cascadeAssetActions (db.actions.rows.filter (above chainId target)) db.assetActions
    rw [hactions]

/-! ## The store of contents -/

variable [Postgres] {chainId : String} {extractor : AddressExtractor}

def contentStore (chainId : String) (extractor : AddressExtractor) :
    Replay.Store Database IndexableBlock :=
  { blockStore chainId extractor with same := fun db db' => db.content = db'.content }

theorem contentStore_laws : (contentStore chainId extractor).Laws (ConsecutiveFrom 0) := by
  apply blockStore_laws.coarser
  · exact ⟨fun _ => rfl, Eq.symm, Eq.trans⟩
  · intro db db' h
    exact content_of_undisputed h
  · intro db db' db₁ block hsame hput
    have hinsert : insertBlockInTx chainId extractor db block = some db₁ := hput
    have hmap : (insertBlockInTx chainId extractor db' block).map Database.content =
        some db₁.content := by
      rw [← insertBlockInTx_content, ← hsame, insertBlockInTx_content, hinsert, Option.map_some]
    obtain ⟨db₂, h₂, heq⟩ := Option.map_eq_some_iff.mp hmap
    exact ⟨db₂, h₂, heq.symm⟩
  · intro db db' n hsame
    show (rollbackTo db chainId _).1.content = (rollbackTo db' chainId _).1.content
    rw [← rollbackTo_content, hsame, rollbackTo_content]

/-! ## Runs -/

inductive ChainOp where
  | insert (blocks : List IndexableBlock)
  | rollback (height : Int)

/-- The next blocks, or a rollback to any height. A failed insert changes nothing. -/
def chainStep (chainId : String) (extractor : AddressExtractor) (s : StoreState) :
    ChainOp → Option StoreState
  | .insert blocks =>
      if ConsecutiveFrom s.kept.length blocks then
        match insertBlocks s.db chainId blocks extractor with
        | none => some s
        | some db => some ⟨db, s.kept ++ blocks⟩
      else none
  | .rollback height =>
      some ⟨(rollbackTo s.db chainId height).1, s.kept.take (height + 1).toNat⟩

/-- The content is that of the kept blocks. -/
structure Kept (chainId : String) (extractor : AddressExtractor) (s : StoreState) : Prop where
  heights : ConsecutiveFrom 0 s.kept
  holds : (contentStore chainId extractor).Holds s.db s.kept

theorem kept_empty : Kept chainId extractor {} := ⟨rfl, contentStore_laws.holds_init⟩

/-- Rows of a filled store lie at the heights of its blocks. -/
theorem filled_heights {blocks : List IndexableBlock} {db : Database}
    (hin : ConsecutiveFrom 0 blocks)
    (h : (contentStore chainId extractor).replay blocks = some db) :
    (∀ k, ∀ r ∈ (db.at k).rows, 0 ≤ Stamped.heightOf r ∧ Stamped.heightOf r < blocks.length) ∧
      ∀ b ∈ db.undisputedBlocks.rows, 0 ≤ b.height ∧ b.height < blocks.length := by
  induction blocks using List.reverseRecOn generalizing db with
  | nil =>
      cases h
      have hempty := topped_empty chainId
      constructor
      · intro k r hr
        cases k <;> cases hr
      · intro b hb
        cases hb
  | append_singleton blocks last ih =>
      obtain ⟨before, hbefore, hput⟩ := (contentStore chainId extractor).replay_snoc h
      obtain ⟨hrows, hblocks⟩ := ih hin.initial hbefore
      obtain ⟨writes, tokens, hwritten⟩ := written_of_insert hput
      have hheight : last.height = blocks.length := hin.height_last
      rw [List.length_append, List.length_singleton]
      constructor
      · intro k r hr
        rw [hwritten.rows k] at hr
        rcases Table.mem_of_mem_insertMissing hr with hold | hnew
        · have := hrows k r hold
          omega
        · have := (stamped_blockRows hwritten.stamped k r hnew).2
          omega
      · intro b hb
        rw [hwritten.blocks] at hb
        rcases Table.mem_of_mem_insertMissing hb with hold | hnew
        · have := hblocks b hold
          omega
        · have : b.height = last.height := (stamped_blocksRow b hnew).2
          omega

theorem filled_blocks {blocks : List IndexableBlock} {db : Database}
    (hin : ConsecutiveFrom 0 blocks)
    (h : (contentStore chainId extractor).replay blocks = some db) :
    db.undisputedBlocks.rows = blocks.map (blocksRow chainId) := by
  induction blocks using List.reverseRecOn generalizing db with
  | nil =>
      cases h
      rfl
  | append_singleton blocks last ih =>
      obtain ⟨before, hbefore, hput⟩ := (contentStore chainId extractor).replay_snoc h
      obtain ⟨writes, tokens, hwritten⟩ := written_of_insert hput
      have hheight : last.height = blocks.length := hin.height_last
      have hfree : key (blocksRow chainId last) ∉ before.undisputedBlocks.rows.map key := by
        intro hmem
        obtain ⟨b, hb, hkey⟩ := List.mem_map.mp hmem
        have hlt := ((filled_heights hin.initial hbefore).2 b hb).2
        have hsame : b.height = last.height := congrArg Prod.snd hkey
        omega
      rw [hwritten.blocks, Table.insertMissing_cons, Table.insertMissing_nil,
        Table.rows_insertRow_of_notMem hfree, ih hin.initial hbefore, List.map_append]
      rfl

theorem Kept.heights_lt {s : StoreState} (h : Kept chainId extractor s) :
    (∀ k, ∀ r ∈ (s.db.at k).rows, 0 ≤ Stamped.heightOf r ∧ Stamped.heightOf r < s.kept.length) ∧
      ∀ b ∈ s.db.undisputedBlocks.rows, 0 ≤ b.height ∧ b.height < s.kept.length := by
  obtain ⟨t, ht, hsame⟩ := h.holds
  obtain ⟨hat, hblocks, _⟩ := content_eq_iff.mp hsame
  obtain ⟨hrows, hstored⟩ := filled_heights h.heights ht
  constructor
  · intro k
    rw [hat k]
    exact hrows k
  · rw [hblocks]
    exact hstored

/-- The block rows are those of the kept blocks, whatever their flags. -/
theorem Kept.blocks {s : StoreState} (h : Kept chainId extractor s) :
    s.db.undisputedBlocks.rows = s.kept.map (blocksRow chainId) := by
  obtain ⟨t, ht, hsame⟩ := h.holds
  rw [(content_eq_iff.mp hsame).2.1]
  exact filled_blocks h.heights ht

omit [Postgres] in
theorem ConsecutiveFrom.getElem_height {blocks : List IndexableBlock}
    (h : ConsecutiveFrom 0 blocks) {n : Nat} {block : IndexableBlock}
    (hn : blocks[n]? = some block) : block.height = n := by
  obtain ⟨hlt, hget⟩ := List.getElem?_eq_some_iff.mp hn
  have hmap : (blocks.map (·.height))[n]? = some block.height := by
    rw [List.getElem?_map, hn]
    rfl
  rw [h, List.getElem?_range' hlt, Option.some.injEq] at hmap
  omega

/-- What is stored at a height is the kept block there. -/
theorem Kept.find {s : StoreState} (h : Kept chainId extractor s) {n : Nat}
    {block : IndexableBlock} (hn : s.kept[n]? = some block) :
    s.db.undisputedBlocks.find? (chainId, n) = some (blocksRow chainId block) := by
  apply Table.find?_eq_some_iff.mpr
  constructor
  · rw [h.blocks]
    exact List.mem_map_of_mem (List.mem_of_getElem? hn)
  · rw [← h.heights.getElem_height hn]
    rfl

theorem Kept.row_chain {s : StoreState} (h : Kept chainId extractor s) :
    ∀ b ∈ s.db.blocks.rows, b.chainId = chainId := by
  intro b hb
  have hmem : clearDisputed b ∈ s.db.undisputedBlocks.rows := List.mem_map_of_mem hb
  rw [h.blocks] at hmem
  obtain ⟨block, _, heq⟩ := List.mem_map.mp hmem
  have hchain : (blocksRow chainId block).chainId = (clearDisputed b).chainId := by rw [heq]
  exact hchain.symm

theorem Kept.row_lt {s : StoreState} (h : Kept chainId extractor s) {b : BlocksRow}
    (hb : b ∈ s.db.blocks.rows) : b.height < s.kept.length := by
  have hmem : clearDisputed b ∈ s.db.undisputedBlocks.rows := List.mem_map_of_mem hb
  exact (h.heights_lt.2 _ hmem).2

theorem Kept.block_of_row {s : StoreState} (h : Kept chainId extractor s) {b : BlocksRow}
    (hb : b ∈ s.db.blocks.rows) :
    ∃ (n : Nat) (block : IndexableBlock), s.kept[n]? = some block ∧ (n : Int) = b.height ∧
      block.hash = b.hash := by
  have hmem : clearDisputed b ∈ s.db.undisputedBlocks.rows := List.mem_map_of_mem hb
  rw [h.blocks] at hmem
  obtain ⟨block, hblock, heq⟩ := List.mem_map.mp hmem
  obtain ⟨n, hn⟩ := List.getElem?_of_mem hblock
  have hheight : (block.height : Int) = b.height := congrArg BlocksRow.height heq
  have hhash : block.hash = b.hash := congrArg BlocksRow.hash heq
  exact ⟨n, block, hn, by rw [← h.heights.getElem_height hn, hheight], hhash⟩

theorem Kept.insert {s : StoreState} (h : Kept chainId extractor s)
    {blocks : List IndexableBlock} {db : Database} (hnext : ConsecutiveFrom s.kept.length blocks)
    (hinsert : insertBlocks s.db chainId blocks extractor = some db) :
    Kept chainId extractor ⟨db, s.kept ++ blocks⟩ := by
  have hnext' : ConsecutiveFrom (0 + s.kept.length) blocks := by rwa [Nat.zero_add]
  exact ⟨h.heights.append hnext', contentStore_laws.holds_putAll h.holds hinsert⟩

omit [Postgres] in
theorem getElem?_of_take {α : Type} {l : List α} {m n : Nat} {a : α}
    (h : (l.take m)[n]? = some a) : l[n]? = some a := by
  rw [List.getElem?_take] at h
  split at h
  · exact h
  · cases h

theorem Kept.rollback {s : StoreState} (h : Kept chainId extractor s) (height : Int) :
    Kept chainId extractor
      ⟨(rollbackTo s.db chainId height).1, s.kept.take (height + 1).toNat⟩ := by
  obtain ⟨hrows, hblocks⟩ := h.heights_lt
  let n := min (height + 1).toNat s.kept.length
  have hn : n ≤ s.kept.length := Nat.min_le_right _ _
  have htake : s.kept.take (height + 1).toNat = s.kept.take n := by
    rw [List.take_eq_take_iff]
    omega
  have hcut : (rollbackTo s.db chainId ((n : Int) - 1)).1.content =
      (rollbackTo s.db chainId height).1.content := by
    apply rollbackTo_content_congr
    · intro k r hr
      have := hrows k r hr
      have hiff : (n : Int) - 1 < Stamped.heightOf r ↔ height < Stamped.heightOf r := by omega
      simp [above, hiff]
    · intro b hb
      have := hblocks b hb
      have hiff : (n : Int) - 1 < b.height ↔ height < b.height := by omega
      simp [above, Stamped.heightOf, hiff]
  have hall := h.heights
  rw [← List.take_append_drop n s.kept] at hall
  obtain ⟨t, ht, hsame⟩ := contentStore_laws.holds_cut h.holds h.heights hn
  rw [htake]
  exact ⟨hall.initial, t, ht, hcut.symm.trans hsame⟩

/-- What an insert can do. -/
theorem chainStep_insert {s s' : StoreState} {blocks : List IndexableBlock}
    (hs : chainStep chainId extractor s (.insert blocks) = some s') :
    s' = s ∨ ConsecutiveFrom s.kept.length blocks ∧
      ∃ db, insertBlocks s.db chainId blocks extractor = some db ∧ s' = ⟨db, s.kept ++ blocks⟩ := by
  simp only [chainStep] at hs
  split at hs
  · next hnext =>
      split at hs
      · cases hs
        exact Or.inl rfl
      · next db hdb =>
          cases hs
          exact Or.inr ⟨hnext, db, hdb, rfl⟩
  · cases hs

theorem kept_step {s s' : StoreState} {op : ChainOp} (h : Kept chainId extractor s)
    (hs : chainStep chainId extractor s op = some s') : Kept chainId extractor s' := by
  cases op with
  | insert blocks =>
      rcases chainStep_insert hs with rfl | ⟨hnext, db, hdb, rfl⟩
      · exact h
      · exact h.insert hnext hdb
  | rollback height =>
      cases hs
      exact h.rollback height

theorem Surviving.kept {s : StoreState} (h : Surviving chainId extractor s) :
    Kept chainId extractor s := by
  obtain ⟨t, ht, hsame⟩ := h.holds
  exact ⟨h.heights, t, ht, content_of_undisputed hsame⟩

/-- The cursor is right below the height that comes next. -/
theorem Surviving.cursor {s : StoreState} (h : Surviving chainId extractor s) :
    getCursor s.db chainId =
      if s.kept = [] then none else some ((s.kept.length : Int) - 1) := by
  obtain ⟨t, ht, hsame⟩ := h.holds
  obtain ⟨htopped, _⟩ := blockStore_filled h.heights ht
  have hundisputed : s.db.undisputed = t.undisputed := hsame
  have hcursor : s.db.ingestionCursor = t.ingestionCursor := by
    show s.db.undisputed.ingestionCursor = t.undisputed.ingestionCursor
    rw [hundisputed]
  rw [getCursor, hcursor]
  by_cases hempty : s.kept = []
  · have hrows := htopped.cursor
    rw [hempty, if_pos List.length_nil] at hrows
    have hnone : t.ingestionCursor.find? chainId = none := by
      rw [Table.find?, hrows]
      rfl
    rw [hnone, if_pos hempty]
    rfl
  · rw [htopped.find_cursor (List.length_pos_iff.mpr hempty), if_neg hempty]
    rfl

end Retracer
