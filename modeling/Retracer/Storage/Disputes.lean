import Retracer.Storage.HeightTables

/-! # The `disputed` flag

A block with effects flags earlier blocks, and no statement reads the flag. So a
database can be looked at without it: every statement does the same to what is left.
-/

namespace Retracer

open KeyedTable

def clearDisputed (b : BlocksRow) : BlocksRow := { b with disputed := false }

theorem key_clearDisputed (b : BlocksRow) : key (clearDisputed b) = key b := rfl

/-- The blocks without their flag. -/
def Database.undisputedBlocks (db : Database) : Table BlocksRow :=
  db.blocks.modify clearDisputed key_clearDisputed

/-- The database without the flag, which later blocks set and no rollback clears. -/
def Database.undisputed (db : Database) : Database := { db with blocks := db.undisputedBlocks }

theorem clearDisputed_disputeRow (chainId : String) (heights : List Nat) (b : BlocksRow) :
    clearDisputed (disputeRow chainId heights b) = clearDisputed b := by
  unfold disputeRow
  split <;> rfl

theorem undisputedBlocks_insertValidatorRows (db : Database) (chainId : String) (height : Int)
    (effects : BlockEffects) :
    (insertValidatorRows db chainId height effects).undisputedBlocks = db.undisputedBlocks := by
  ext1
  simp only [Database.undisputedBlocks, insertValidatorRows, Table.rows_modify, List.map_map]
  apply List.map_congr_left
  intro b _
  exact clearDisputed_disputeRow chainId effects.disputedBlocks b

theorem clearDisputed_blocksRow (chainId : String) (block : IndexableBlock) :
    clearDisputed (blocksRow chainId block) = blocksRow chainId block := by
  simp only [clearDisputed, blocksRow]

theorem undisputedBlocks_insertBlocksRow {db db' : Database} {chainId : String}
    {block : IndexableBlock} (h : insertBlocksRow db (blocksRow chainId block) = some db') :
    db'.undisputedBlocks = db.undisputedBlocks.insertMissing [blocksRow chainId block] := by
  rw [insertBlocksRow_eq h]
  exact Table.modify_insertRow key_clearDisputed (clearDisputed_blocksRow chainId block)

theorem stamped_blocksRow {chainId : String} {block : IndexableBlock} :
    StampedWith chainId block.height [blocksRow chainId block] := by
  intro b hb
  cases List.mem_singleton.mp hb
  exact ⟨rfl, rfl⟩

theorem undisputed_undisputed (db : Database) : db.undisputed.undisputed = db.undisputed := by
  have hblocks : db.undisputed.undisputedBlocks = db.undisputedBlocks := by
    ext1
    simp only [Database.undisputedBlocks, Database.undisputed, Table.rows_modify, List.map_map]
    rfl
  unfold Database.undisputed at hblocks ⊢
  rw [hblocks]

theorem undisputed_insertValidatorRows (db : Database) (chainId : String) (height : Int)
    (effects : BlockEffects) :
    (insertValidatorRows db.undisputed chainId height effects).undisputed =
      (insertValidatorRows db chainId height effects).undisputed := by
  have hblocks : (insertValidatorRows db.undisputed chainId height effects).undisputedBlocks =
      (insertValidatorRows db chainId height effects).undisputedBlocks := by
    rw [undisputedBlocks_insertValidatorRows, undisputedBlocks_insertValidatorRows]
    exact congrArg Database.blocks (undisputed_undisputed db)
  apply Database.ext_at
  · intro k
    cases k <;> rfl
  · exact hblocks
  · rfl
  · rfl
  · rfl

theorem insertBlocksRow_undisputed (db : Database) {row : BlocksRow}
    (hclear : clearDisputed row = row) :
    insertBlocksRow db.undisputed row = (insertBlocksRow db row).map Database.undisputed := by
  have htaken : (db.undisputed.blocks.find? (key row)).isSome =
      (db.blocks.find? (key row)).isSome := by
    show (db.undisputedBlocks.find? _).isSome = _
    rw [Database.undisputedBlocks, Table.find?_modify, Option.isSome_map]
  have hhash : (db.undisputed.blocks.rows.any fun b =>
        b.chainId = row.chainId ∧ b.hash = row.hash) =
      db.blocks.rows.any fun b => b.chainId = row.chainId ∧ b.hash = row.hash := by
    show (db.blocks.rows.map clearDisputed).any _ = _
    rw [List.any_map]
    rfl
  have hinsert : db.undisputed.blocks.insertRow row =
      (db.blocks.insertRow row).modify clearDisputed key_clearDisputed :=
    (Table.modify_insertRow key_clearDisputed hclear).symm
  unfold insertBlocksRow
  rw [htaken, hhash, hinsert]
  split
  · rfl
  · split
    · rfl
    · rfl

section

variable [Postgres]

theorem insertTokenEvents_undisputed (writes : BlockWrites) (db : Database) (chainId : String)
    (height time : Int) :
    insertTokenEvents writes db.undisputed chainId height time =
      (insertTokenEvents writes db chainId height time).map Database.undisputed := by
  have hrows : tokenEventRows db.undisputed chainId height time =
      tokenEventRows db chainId height time := rfl
  unfold insertTokenEvents
  rw [hrows]
  split
  · rfl
  · rw [Option.map_map]
    rfl

theorem projectTokenCreations_undisputed (db : Database) (chainId : String) (height : Int) :
    projectTokenCreations db.undisputed chainId height =
      (projectTokenCreations db chainId height).map Database.undisputed := by
  have hpairs : creationPairs db.undisputed chainId height = creationPairs db chainId height := rfl
  have hblock : db.undisputed.blocks.find? (chainId, height) =
      (db.blocks.find? (chainId, height)).map clearDisputed :=
    Table.find?_modify db.blocks clearDisputed key_clearDisputed (chainId, height)
  unfold projectTokenCreations
  rw [hpairs, hblock]
  cases db.blocks.find? (chainId, height) with
  | none => rfl
  | some block =>
      simp only [Option.map_some, Option.map_map]
      rfl

theorem projectAll_undisputed (regs : List AssetRegistrationsRow) (db : Database) :
    regs.foldlM (fun db r => projectTokenCreations db r.chainId r.height) db.undisputed =
      (regs.foldlM (fun db r => projectTokenCreations db r.chainId r.height) db).map
        Database.undisputed := by
  induction regs generalizing db with
  | nil => rfl
  | cons r regs ih =>
      rw [List.foldlM_cons, List.foldlM_cons, projectTokenCreations_undisputed]
      cases projectTokenCreations db r.chainId r.height with
      | none => rfl
      | some db' => exact ih db'

theorem insertAssetRegistrations_undisputed (db : Database) (chainId : String) (height : Int)
    (effects : BlockEffects) :
    insertAssetRegistrations db.undisputed chainId height effects =
      (insertAssetRegistrations db chainId height effects).map Database.undisputed := by
  unfold insertAssetRegistrations
  dsimp only
  split
  · rfl
  · exact projectAll_undisputed _ { db with
      assetRegistrations :=
        db.assetRegistrations.insertMissing (effects.assetRegistrationsRows chainId height) }

/-- The one statement that writes the flag is forgotten afterwards. -/
theorem insertEffectsInTx_undisputed (db : Database) (chainId : String) (height : Int)
    (effects : Option BlockEffects) :
    (insertEffectsInTx db.undisputed chainId height effects).map Database.undisputed =
      (insertEffectsInTx db chainId height effects).map Database.undisputed := by
  cases effects with
  | none => exact congrArg some (undisputed_undisputed db)
  | some effects =>
      have hstate : insertStateRows db.undisputed chainId height effects =
          (insertStateRows db chainId height effects).undisputed := rfl
      dsimp only [insertEffectsInTx]
      rw [hstate, insertAssetRegistrations_undisputed]
      cases insertAssetRegistrations (insertStateRows db chainId height effects) chainId height
          effects with
      | none => rfl
      | some db' => exact congrArg some (undisputed_insertValidatorRows db' chainId height effects)

theorem insertBlockInTx_undisputed (chainId : String) (extractor : AddressExtractor)
    (db : Database) (block : IndexableBlock) :
    (insertBlockInTx chainId extractor db.undisputed block).map Database.undisputed =
      (insertBlockInTx chainId extractor db block).map Database.undisputed := by
  unfold insertBlockInTx
  simp only [Option.bind_eq_bind]
  rw [insertBlocksRow_undisputed db (clearDisputed_blocksRow chainId block)]
  cases insertBlocksRow db (blocksRow chainId block) with
  | none => rfl
  | some db₁ =>
      cases BlockWrites.build block block.height extractor with
      | none => rfl
      | some writes =>
          have hactions : insertActionRows writes db₁.undisputed chainId block.height =
              (insertActionRows writes db₁ chainId block.height).undisputed := rfl
          simp only [Option.map_some, Option.bind_some]
          rw [hactions, insertTokenEvents_undisputed]
          cases insertTokenEvents writes (insertActionRows writes db₁ chainId block.height) chainId
              block.height (asI64 block.timestamp) with
          | none => rfl
          | some db₂ =>
              have heffects := insertEffectsInTx_undisputed
                (insertActionAddresses writes db₂ chainId block.height) chainId block.height
                block.effects
              have hadvance : ∀ result : Option Database,
                  (result.bind fun db => some (advanceCursor db chainId block.height)).map
                      Database.undisputed =
                    (result.map Database.undisputed).map fun db =>
                      advanceCursor db chainId block.height := by
                intro result
                cases result <;> rfl
              simp only [Option.map_some, Option.bind_some]
              rw [hadvance, hadvance]
              exact congrArg _ heffects

end

/-! ## Rollback -/

theorem undisputedBlocks_rollbackTo (db : Database) (chainId : String) (height : Int) :
    (rollbackTo db chainId height).1.undisputedBlocks =
      db.undisputedBlocks.deleteWhere (above chainId height) := by
  ext1
  simp only [Database.undisputedBlocks, rollbackTo, Table.rows_modify, Table.rows_deleteWhere,
    List.filter_map]
  rfl

theorem rollbackTo_undisputed (db : Database) (chainId : String) (height : Int) :
    (rollbackTo db.undisputed chainId height).1 = (rollbackTo db chainId height).1.undisputed := by
  apply Database.ext_at
  · intro k
    rw [at_rollbackTo]
    exact (at_rollbackTo db chainId height k).symm
  · exact (undisputedBlocks_rollbackTo db chainId height).symm
  · rfl
  · rfl
  · rfl

end Retracer
