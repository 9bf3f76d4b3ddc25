import Retracer.Storage.Delivery

/-! # Stored headers and the cursor

The indexing loop sees the database through two reads: the block stored at a
height and the cursor. This module says what a committed batch and a rollback do
to each of them, whatever else they write.
-/

namespace Retracer

open KeyedTable

/-- What fork detection needs of a block. -/
structure Header where
  hash : String
  parentHash : String
deriving DecidableEq, Repr

def IndexableBlock.header (block : IndexableBlock) : Header := ⟨block.hash, block.parentHash⟩

def headerAt (db : Database) (chainId : String) (height : Int) : Option Header :=
  (db.blocks.find? (chainId, height)).map fun b => ⟨b.hash, b.parentHash⟩

theorem getBlockHash_eq (db : Database) (chainId : String) (height : Int) :
    getBlockHash db chainId height = (headerAt db chainId height).map (·.hash) := by
  simp [getBlockHash, headerAt, Function.comp_def]

/-- Headers do not read the flag. -/
theorem headerAt_undisputed (db : Database) (chainId : String) (height : Int) :
    headerAt db chainId height =
      (db.undisputedBlocks.find? (chainId, height)).map fun b => ⟨b.hash, b.parentHash⟩ := by
  rw [Database.undisputedBlocks, Table.find?_modify, Option.map_map]
  rfl

theorem headerAt_of_mem {db : Database} {chainId : String} {b : BlocksRow}
    (hb : b ∈ db.blocks.rows) (hc : b.chainId = chainId) :
    headerAt db chainId b.height = some ⟨b.hash, b.parentHash⟩ := by
  have hfind : db.blocks.find? (chainId, b.height) = some b :=
    Table.find?_eq_some_iff.mpr ⟨hb, by simp [key, hc]⟩
  simp [headerAt, hfind]

def storedHeights (db : Database) (chainId : String) : List Int :=
  (db.blocks.rows.filter fun b => b.chainId = chainId).map (·.height)

theorem mem_storedHeights {db : Database} {chainId : String} {n : Int} :
    n ∈ storedHeights db chainId ↔ headerAt db chainId n ≠ none := by
  constructor
  · intro h
    simp only [storedHeights, List.mem_map, List.mem_filter, decide_eq_true_eq] at h
    obtain ⟨b, ⟨hb, hc⟩, rfl⟩ := h
    simp [headerAt_of_mem hb hc]
  · intro h
    simp only [headerAt, ne_eq, Option.map_eq_none_iff] at h
    obtain ⟨b, hb⟩ := Option.ne_none_iff_exists'.mp h
    obtain ⟨hmem, hkey⟩ := Table.find?_eq_some_iff.mp hb
    simp only [key, Prod.mk.injEq] at hkey
    simp only [storedHeights, List.mem_map, List.mem_filter, decide_eq_true_eq]
    exact ⟨b, ⟨hmem, hkey.1⟩, hkey.2⟩

@[simp] theorem headerAt_empty (chainId : String) (height : Int) :
    headerAt Database.empty chainId height = none := rfl

/-! ## Insertion -/

/-- The cursor after one more inserted height. -/
def raiseCursor (cursor : Option Int) (height : Int) : Option Int :=
  some (cursor.elim height fun last => max last height)

theorem getCursor_advanceCursor (db : Database) (chainId : String) (height : Int) :
    getCursor (advanceCursor db chainId height) chainId =
      raiseCursor (getCursor db chainId) height := by
  simp only [getCursor, advanceCursor, raiseCursor, Table.find?_upsert, key, if_true,
    Option.map_some]
  cases db.ingestionCursor.find? chainId with
  | none => rfl
  | some old =>
      by_cases hlt : old.lastHeight < height
      · have hmax : max old.lastHeight height = height := by omega
        simp [raiseTo, hlt, hmax]
      · have hmax : max old.lastHeight height = old.lastHeight := by omega
        simp [raiseTo, hlt, hmax]

section

variable [Postgres]

theorem insertBlockInTx_spec {db db' : Database} {chainId : String} {extractor : AddressExtractor}
    {block : IndexableBlock} (h : insertBlockInTx chainId extractor db block = some db') :
    (∀ n, headerAt db' chainId n = (headerAt db chainId n).or
      (if (block.height : Int) = n then some block.header else none)) ∧
    getCursor db' chainId = raiseCursor (getCursor db chainId) block.height := by
  obtain ⟨writes, tokens, hwritten⟩ := written_of_insert h
  constructor
  · intro n
    rw [headerAt_undisputed, headerAt_undisputed, hwritten.blocks]
    simp only [Table.insertMissing_cons, Table.insertMissing_nil, Table.find?_insertRow,
      Option.map_or]
    congr 1
    simp only [blocksRow, key, Prod.mk.injEq, true_and, IndexableBlock.header]
    split <;> rfl
  · unfold getCursor
    rw [hwritten.cursor]
    exact getCursor_advanceCursor db chainId block.height

theorem insertBlocks_cons {db : Database} {chainId : String} {extractor : AddressExtractor}
    {block : IndexableBlock} {blocks : List IndexableBlock} :
    insertBlocks db chainId (block :: blocks) extractor =
      (insertBlockInTx chainId extractor db block).bind
        fun db => insertBlocks db chainId blocks extractor := rfl

theorem headerAt_insertBlocks {db db' : Database} {chainId : String} {extractor : AddressExtractor}
    {blocks : List IndexableBlock} (h : insertBlocks db chainId blocks extractor = some db')
    (n : Int) :
    headerAt db' chainId n = (headerAt db chainId n).or
      ((blocks.find? fun b => (b.height : Int) = n).map IndexableBlock.header) := by
  induction blocks generalizing db with
  | nil =>
      cases h
      simp
  | cons block blocks ih =>
      rw [insertBlocks_cons, Option.bind_eq_some_iff] at h
      obtain ⟨mid, hmid, hrest⟩ := h
      rw [ih hrest, (insertBlockInTx_spec hmid).1 n, Option.or_assoc, List.find?_cons]
      by_cases hn : (block.height : Int) = n <;> simp [hn]

theorem getCursor_insertBlocks {db db' : Database} {chainId : String}
    {extractor : AddressExtractor} {blocks : List IndexableBlock}
    (h : insertBlocks db chainId blocks extractor = some db') :
    getCursor db' chainId =
      blocks.foldl (fun cursor b => raiseCursor cursor b.height) (getCursor db chainId) := by
  induction blocks generalizing db with
  | nil =>
      cases h
      rfl
  | cons block blocks ih =>
      rw [insertBlocks_cons, Option.bind_eq_some_iff] at h
      obtain ⟨mid, hmid, hrest⟩ := h
      rw [ih hrest, (insertBlockInTx_spec hmid).2, List.foldl_cons]

end

/-- The cursor after a non-empty batch: the greatest of the old one and the heights. -/
theorem raiseCursor_foldl_spec {blocks : List IndexableBlock} (cursor : Option Int)
    (hne : blocks ≠ []) :
    ∃ last, blocks.foldl (fun cursor b => raiseCursor cursor b.height) cursor = some last ∧
      (∀ old, cursor = some old → old ≤ last) ∧ (∀ b ∈ blocks, (b.height : Int) ≤ last) ∧
      (cursor = some last ∨ ∃ b ∈ blocks, (b.height : Int) = last) := by
  induction blocks generalizing cursor with
  | nil => exact absurd rfl hne
  | cons block blocks ih =>
      rw [List.foldl_cons]
      cases hblocks : blocks with
      | nil =>
          cases cursor with
          | none => exact ⟨block.height, by simp [raiseCursor], by simp, by simp, by simp⟩
          | some old =>
              refine ⟨max old block.height, by simp [raiseCursor], ?_, ?_, ?_⟩
              · intro old' h
                cases h
                exact le_max_left _ _
              · simp
              · by_cases hle : (block.height : Int) ≤ old
                · exact Or.inl (by rw [max_eq_left hle])
                · exact Or.inr ⟨block, List.mem_cons_self, by omega⟩
      | cons next rest =>
          rw [hblocks] at ih
          obtain ⟨last, hlast, hold, hall, hattained⟩ :=
            ih (raiseCursor cursor block.height) (by simp)
          have hraised : ∀ old, cursor = some old → old ≤ last ∧ (block.height : Int) ≤ last := by
            intro old h
            have := hold (max old block.height) (by simp [raiseCursor, h])
            omega
          have hblock : (block.height : Int) ≤ last := by
            cases hcur : cursor with
            | none => exact hold block.height (by simp [raiseCursor, hcur])
            | some old => exact (hraised old hcur).2
          refine ⟨last, hlast, fun old h => (hraised old h).1, ?_, ?_⟩
          · intro b hb
            rcases List.mem_cons.mp hb with rfl | hb
            · exact hblock
            · exact hall b hb
          · rcases hattained with hself | ⟨b, hb, hlt⟩
            · cases hcur : cursor with
              | none =>
                  simp only [hcur, raiseCursor, Option.elim_none, Option.some.injEq] at hself
                  exact Or.inr ⟨block, List.mem_cons_self, hself⟩
              | some old =>
                  simp only [hcur, raiseCursor, Option.elim_some, Option.some.injEq] at hself
                  by_cases hle : (block.height : Int) ≤ old
                  · exact Or.inl (by rw [← hself, max_eq_left hle])
                  · exact Or.inr ⟨block, List.mem_cons_self, by omega⟩
            · exact Or.inr ⟨b, List.mem_cons_of_mem _ hb, hlt⟩

/-! ## Rollback -/

theorem headerAt_rollbackTo (db : Database) (chainId : String) (height n : Int) :
    headerAt (rollbackTo db chainId height).1 chainId n =
      if height < n then none else headerAt db chainId n := by
  simp only [headerAt, rollbackTo, Table.find?_deleteWhere]
  cases hf : db.blocks.find? (chainId, n) with
  | none => simp
  | some b =>
      obtain ⟨_, hkey⟩ := Table.find?_eq_some_iff.mp hf
      simp only [key, Prod.mk.injEq] at hkey
      by_cases hn : height < n <;>
        simp [Option.filter_some, above, Stamped.chainOf, Stamped.heightOf, hkey.1, hkey.2, hn]

theorem headerAt_of_rollbackTo {db : Database} {chainId : String} {target n : Int}
    {header : Header} (h : headerAt (rollbackTo db chainId target).1 chainId n = some header) :
    headerAt db chainId n = some header := by
  rw [headerAt_rollbackTo] at h
  split at h
  · cases h
  · exact h

theorem headerAt_ne_none_of_rollbackTo {db : Database} {chainId : String} {target n : Int}
    (h : headerAt (rollbackTo db chainId target).1 chainId n ≠ none) :
    headerAt db chainId n ≠ none := by
  obtain ⟨header, hheader⟩ := Option.ne_none_iff_exists'.mp h
  simp [headerAt_of_rollbackTo hheader]

theorem lt_of_removed {db : Database} {chainId : String} {target n : Int}
    (hn : headerAt db chainId n ≠ none)
    (hn' : headerAt (rollbackTo db chainId target).1 chainId n = none) : target < n := by
  rw [headerAt_rollbackTo] at hn'
  by_contra hle
  rw [if_neg hle] at hn'
  exact hn hn'

theorem getCursor_rollbackTo (db : Database) (chainId : String) (height : Int) :
    getCursor (rollbackTo db chainId height).1 chainId =
      if height < 0 then none else some height := by
  simp only [getCursor, rollbackTo, rewindCursor]
  by_cases hneg : height < 0
  · simp only [hneg, if_true, Table.find?_deleteWhere]
    cases hf : db.ingestionCursor.find? chainId with
    | none => rfl
    | some c =>
        have hkey : c.chainId = chainId := (Table.find?_eq_some_iff.mp hf).2
        simp [Option.filter_some, hkey]
  · simp only [hneg, if_false, Table.find?_upsert, key, if_true, Option.map_some]
    cases db.ingestionCursor.find? chainId <;> rfl

/-! ## Heights and the cursor -/

/-- No block is stored above the cursor or below zero. Every write keeps this. -/
def CursorCovers (db : Database) (chainId : String) : Prop :=
  ∀ n, headerAt db chainId n ≠ none → 0 ≤ n ∧ ∃ last, getCursor db chainId = some last ∧ n ≤ last

theorem cursorCovers_empty (chainId : String) : CursorCovers Database.empty chainId :=
  fun _ h => absurd rfl h

theorem CursorCovers.insertBlocks [Postgres] {db db' : Database} {chainId : String}
    {extractor : AddressExtractor} {blocks : List IndexableBlock} (h : CursorCovers db chainId)
    (hdb : insertBlocks db chainId blocks extractor = some db') : CursorCovers db' chainId := by
  intro n hn
  by_cases hne : blocks = []
  · subst hne
    cases hdb
    exact h n hn
  · obtain ⟨last, hlast, hold, hall, _⟩ :=
      raiseCursor_foldl_spec (getCursor db chainId) hne
    rw [← getCursor_insertBlocks hdb] at hlast
    rw [headerAt_insertBlocks hdb n] at hn
    by_cases hstored : headerAt db chainId n = none
    · rw [hstored, Option.none_or, ne_eq, Option.map_eq_none_iff] at hn
      obtain ⟨b, hb⟩ := Option.ne_none_iff_exists'.mp hn
      have hheight : (b.height : Int) = n := by simpa using List.find?_some hb
      have hle := hall b (List.mem_of_find?_eq_some hb)
      exact ⟨by omega, last, hlast, by omega⟩
    · obtain ⟨hnonneg, old, hcur, hle⟩ := h n hstored
      exact ⟨hnonneg, last, hlast, hle.trans (hold old hcur)⟩

theorem CursorCovers.rollbackTo {db : Database} {chainId : String} (h : CursorCovers db chainId)
    (target : Int) : CursorCovers (rollbackTo db chainId target).1 chainId := by
  intro n hn
  have hstored := h n (headerAt_ne_none_of_rollbackTo hn)
  rw [headerAt_rollbackTo] at hn
  have hle : n ≤ target := by
    by_contra hlt
    exact hn (if_pos (by omega))
  refine ⟨hstored.1, target, ?_, hle⟩
  rw [getCursor_rollbackTo, if_neg (by omega)]

end Retracer
