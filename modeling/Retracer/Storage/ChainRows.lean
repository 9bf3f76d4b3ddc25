import Retracer.Library.Shared
import Retracer.Storage.DisputedFlag
import Retracer.Storage.TokenEvents

/-! # The rows of one chain

All tables are shared by the chains of a server. A block or a rollback of one chain does to
the rows of that chain what it would do alone, and nothing to those of another.
-/

namespace Retracer

open KeyedTable

instance {ρ : Type} [Stamped ρ] : Owned ρ String := ⟨Stamped.chainOf⟩
instance : Owned IngestionCursorRow String := ⟨IngestionCursorRow.chainId⟩
instance : Owned AssetActionsRow String := ⟨AssetActionsRow.chainId⟩
instance : Owned WebhooksRow String := ⟨WebhooksRow.chainId⟩

/-! ## Keys begin with the chain -/

instance : OwnedByKey BlocksRow := ⟨fun h => congrArg Prod.fst h⟩
instance : OwnedByKey IngestionCursorRow := ⟨fun h => h⟩
instance : OwnedByKey AssetActionsRow := ⟨fun h => congrArg Prod.fst h⟩
instance : OwnedByKey ActionsRow := ⟨fun h => congrArg Prod.fst h⟩
instance : OwnedByKey ActionAddressesRow := ⟨fun h => congrArg Prod.fst h⟩
instance : OwnedByKey TokenEventsRow := ⟨fun h => congrArg Prod.fst h⟩
instance : OwnedByKey AssetRegistrationsRow := ⟨fun h => congrArg Prod.fst h⟩

instance (k : HeightTable) : OwnedByKey k.Row where
  owner_of_key h := by
    cases k <;> exact congrArg Prod.fst h

theorem StampedWith.owner {ρ : Type} [Stamped ρ] {chainId : String} {height : Int} {rows : List ρ}
    (h : StampedWith chainId height rows) : ∀ r ∈ rows, owner r = chainId := fun r hr => (h r hr).1

/-! ## The restriction -/

/-- The rows of one chain. -/
def Database.of (db : Database) (chainId : String) : Database :=
  { blocks := db.blocks.only chainId
    actions := db.actions.only chainId
    accountActions := db.accountActions.only chainId
    actionAddresses := db.actionAddresses.only chainId
    droppedActions := db.droppedActions.only chainId
    ingestionCursor := db.ingestionCursor.only chainId
    tokenEvents := db.tokenEvents.only chainId
    assetActions := db.assetActions.only chainId
    accountState := db.accountState.only chainId
    assetBalances := db.assetBalances.only chainId
    assetHolderStates := db.assetHolderStates.only chainId
    stakes := db.stakes.only chainId
    validatorStatus := db.validatorStatus.only chainId
    validatorSets := db.validatorSets.only chainId
    assetRegistrations := db.assetRegistrations.only chainId
    evidence := db.evidence.only chainId
    blsKeys := db.blsKeys.only chainId
    operators := db.operators.only chainId
    attestors := db.attestors.only chainId
    webhooks := db.webhooks.only chainId }

theorem at_of (db : Database) (chainId : String) (k : HeightTable) :
    (db.of chainId).at k = (db.at k).only chainId := by
  cases k <;> rfl

/-- What has to be shown of two databases that agree on a chain. -/
theorem of_eq_of {db db' : Database} {chainId : String}
    (hat : ∀ k, (db.at k).only chainId = (db'.at k).only chainId)
    (hblocks : db.blocks.only chainId = db'.blocks.only chainId)
    (hcursor : db.ingestionCursor.only chainId = db'.ingestionCursor.only chainId)
    (hassets : db.assetActions.only chainId = db'.assetActions.only chainId)
    (hhooks : db.webhooks.only chainId = db'.webhooks.only chainId) :
    db.of chainId = db'.of chainId := by
  apply Database.ext_at _ hblocks hcursor hassets hhooks
  intro k
  rw [at_of, at_of, hat]

/-! ## Blocks of another chain -/

section

variable {chainId other : String}

theorem only_raise_other (db : Database) (height : Int) (h : chainId ≠ other) :
    (advanceCursor db chainId height).ingestionCursor.only other =
      db.ingestionCursor.only other := by
  apply Table.only_upsert_other (key_raiseTo height)
  · intro s
    unfold raiseTo
    split <;> rfl
  · intro s _ hkey ho
    exact h ((owner_of_key hkey).symm.trans ho)
  · exact h

theorem owner_projectAssetAction {a : ActionsRow} {r : AssetActionsRow}
    (h : r ∈ projectAssetAction a) : owner r = owner a := by
  obtain ⟨_, _, rfl⟩ := List.mem_map.mp h
  rfl

variable [Postgres] {extractor : AddressExtractor} {db db' : Database}

theorem insertBlockInTx_other {block : IndexableBlock} (h : chainId ≠ other)
    (hdb : insertBlockInTx chainId extractor db block = some db') :
    db'.of other = db.of other := by
  obtain ⟨writes, tokens, hwritten⟩ := written_of_insert hdb
  apply of_eq_of
  · intro k
    rw [hwritten.rows k]
    apply Table.only_insertMissing_other
    intro r hr ho
    exact h (((stamped_blockRows hwritten.stamped k).owner r hr).symm.trans ho)
  · rw [blocks_insertBlockInTx hdb]
    have hdispute : ∀ b, owner (disputeRow chainId block.disputedBlocks b) = owner b := by
      intro b
      unfold disputeRow
      split <;> rfl
    rw [Table.only_modify_other (key_disputeRow chainId block.disputedBlocks) hdispute]
    · exact Table.only_insertRow_other h
    · intro b _ ho
      unfold disputeRow
      rw [if_neg fun hb => h (hb.1.symm.trans ho)]
  · rw [hwritten.cursor]
    exact only_raise_other db block.height h
  · rw [hwritten.assets]
    apply Table.only_insertMissing_other
    intro r hr ho
    obtain ⟨a, ha, hin⟩ := List.mem_flatMap.mp hr
    have hchain := (stamped_blockRows hwritten.stamped .actions).owner a (Table.mem_inserted ha).1
    exact h (hchain.symm.trans ((owner_projectAssetAction hin).symm.trans ho))
  · rw [hwritten.webhooks]

theorem insertBlocks_other {blocks : List IndexableBlock} (h : chainId ≠ other)
    (hdb : insertBlocks db chainId blocks extractor = some db') : db'.of other = db.of other := by
  induction blocks generalizing db with
  | nil =>
      cases hdb
      rfl
  | cons block blocks ih =>
      rw [insertBlocks_cons, Option.bind_eq_some_iff] at hdb
      obtain ⟨mid, hmid, hrest⟩ := hdb
      rw [ih hrest, insertBlockInTx_other h hmid]

omit [Postgres] in
theorem rollbackTo_other (db : Database) (height : Int) (h : chainId ≠ other) :
    (rollbackTo db chainId height).1.of other = db.of other := by
  have habove : ∀ {ρ : Type} [Stamped ρ] (r : ρ), owner r = other →
      above chainId height r = false := by
    intro ρ _ r ho
    have hchain : Stamped.chainOf r ≠ chainId := fun hc => h (hc.symm.trans ho)
    simp [above, hchain]
  apply of_eq_of
  · intro k
    rw [at_rollbackTo]
    exact Table.only_deleteWhere_other fun r _ ho => habove r ho
  · exact Table.only_deleteWhere_other fun r _ ho => habove r ho
  · show (rewindCursor chainId height db.ingestionCursor).only other = _
    unfold rewindCursor
    split
    · apply Table.only_deleteWhere_other
      intro c _ ho
      have hchain : c.chainId ≠ chainId := fun hc => h (hc.symm.trans ho)
      simp [hchain]
    · apply Table.only_upsert_other
      · exact fun _ => rfl
      · intro s _ hkey ho
        exact h ((owner_of_key hkey).symm.trans ho)
      · exact h
  · show (cascadeAssetActions _ db.assetActions).only other = _
    apply Table.only_deleteWhere_other
    intro r _ ho
    rw [List.any_eq_false]
    intro a ha hmatch
    obtain ⟨_, hgone⟩ := List.mem_filter.mp ha
    simp only [decide_eq_true_eq] at hmatch
    have hchain : owner a = other := hmatch.1.trans ho
    rw [habove a hchain] at hgone
    cases hgone
  · show (rewindWebhooks chainId height db.webhooks).only other = _
    apply Table.only_modify_other
    · intro w
      split <;> rfl
    · intro w _ ho
      rw [if_neg fun hw => h (hw.1.symm.trans ho)]

end

/-! ## Blocks of the chain itself -/

/-- A statement that adds rows of the chain to one table of the family. -/
theorem only_blockRows {chainId : String} {height : Int} (k : HeightTable) (t : Table k.Row)
    (rows : List k.Row) (h : StampedWith chainId height rows) :
    (t.only chainId).insertMissing rows = (t.insertMissing rows).only chainId :=
  (Table.only_insertMissing h.owner).symm

theorem insertBlocksRow_of (db : Database) (row : BlocksRow) :
    insertBlocksRow (db.of row.chainId) row =
      (insertBlocksRow db row).map fun db => db.of row.chainId := by
  have hfind : (db.of row.chainId).blocks.find? (key row) = db.blocks.find? (key row) :=
    Table.find?_only fun _ hkey => owner_of_key hkey
  have hhash : ((db.of row.chainId).blocks.rows.any fun b =>
        b.chainId = row.chainId ∧ b.hash = row.hash) =
      db.blocks.rows.any fun b => b.chainId = row.chainId ∧ b.hash = row.hash := by
    show ((db.blocks.only row.chainId).rows.any _) = _
    rw [Table.rows_only, List.any_filter]
    congr 1
    funext b
    by_cases hchain : b.chainId = row.chainId
    · simp [owner, Stamped.chainOf, hchain]
    · simp [hchain]
  have hrow : (db.of row.chainId).blocks.insertRow row =
      (db.blocks.insertRow row).only row.chainId := (Table.only_insertRow rfl).symm
  unfold insertBlocksRow
  rw [hfind, hhash, hrow]
  split
  · rfl
  · split
    · rfl
    · rfl

theorem owner_of_above {ρ : Type} [Stamped ρ] {chainId : String} {height : Int} {r : ρ}
    (h : above chainId height r = true) : owner r = chainId := (of_decide_eq_true h).1

theorem rollbackTo_of (db : Database) (chainId : String) (height : Int) :
    (rollbackTo (db.of chainId) chainId height).1 = (rollbackTo db chainId height).1.of chainId ∧
      (rollbackTo (db.of chainId) chainId height).2 = (rollbackTo db chainId height).2 := by
  have hactions : (db.actions.only chainId).rows.filter (above chainId height) =
      db.actions.rows.filter (above chainId height) := Table.filter_only fun _ => owner_of_above
  have hblocks : (db.blocks.only chainId).rows.filter (above chainId height) =
      db.blocks.rows.filter (above chainId height) := Table.filter_only fun _ => owner_of_above
  constructor
  · apply Database.ext_at
    · intro k
      rw [at_rollbackTo, at_of, at_of, at_rollbackTo]
      exact (Table.only_deleteWhere _ _ _).symm
    · exact (Table.only_deleteWhere _ _ _).symm
    · show rewindCursor chainId height (db.ingestionCursor.only chainId) =
        (rewindCursor chainId height db.ingestionCursor).only chainId
      unfold rewindCursor
      split
      · exact (Table.only_deleteWhere _ _ _).symm
      · have hupsert := @Table.only_upsert IngestionCursorRow String String _ _ _ _ _
          db.ingestionCursor { chainId, lastHeight := height }
          (fun old => { old with lastHeight := height }) (fun _ => rfl) chainId (fun _ => rfl) rfl
        exact hupsert.symm
    · show cascadeAssetActions ((db.actions.only chainId).rows.filter _)
          (db.assetActions.only chainId) =
        (cascadeAssetActions (db.actions.rows.filter _) db.assetActions).only chainId
      rw [hactions]
      exact (Table.only_deleteWhere _ _ _).symm
    · show rewindWebhooks chainId height (db.webhooks.only chainId) =
        (rewindWebhooks chainId height db.webhooks).only chainId
      refine (Table.only_modify _ ?_).symm
      intro w
      split <;> rfl
  · show ((db.blocks.only chainId).rows.filter _).length = _
    rw [hblocks]
    rfl

section

variable [Postgres]

omit [Postgres] in
theorem tokenActions_of (db : Database) (chainId : String) (height : Int) :
    tokenActions (db.of chainId) chainId height = tokenActions db chainId height := by
  apply Table.filter_only
  intro a ha
  exact (of_decide_eq_true ha).1

theorem tokenEventRows_of (db : Database) (chainId : String) (height time : Int) :
    tokenEventRows (db.of chainId) chainId height time = tokenEventRows db chainId height time := by
  rw [tokenEventRows, tokenActions_of]
  rfl

theorem insertTokenEvents_of (writes : BlockWrites) (db : Database) (chainId : String)
    (height time : Int) :
    insertTokenEvents writes (db.of chainId) chainId height time =
      (insertTokenEvents writes db chainId height time).map (·.of chainId) := by
  unfold insertTokenEvents
  rw [tokenEventRows_of]
  split
  · rfl
  · cases hrows : tokenEventRows db chainId height time with
    | none => rfl
    | some rows =>
        have hadded : (db.of chainId).tokenEvents.insertMissing rows =
            (db.tokenEvents.insertMissing rows).only chainId :=
          (Table.only_insertMissing (stamped_tokenEventRows hrows).owner).symm
        simp only [Option.map_some, hadded]
        rfl

theorem creationPairs_of (db : Database) (chainId : String) (height : Int) :
    creationPairs (db.of chainId) chainId height = creationPairs db chainId height := by
  unfold creationPairs
  rw [tokenActions_of]
  congr 1
  apply List.flatMap_congr
  intro a ha
  have hchain : a.chainId = chainId := (stamped_tokenActions ha).1
  congr 1
  apply Table.filter_only
  intro reg hmatch
  exact (createdBy_at hmatch).1.trans hchain

theorem projectTokenCreations_of (db : Database) (chainId : String) (height : Int) :
    projectTokenCreations (db.of chainId) chainId height =
      (projectTokenCreations db chainId height).map (·.of chainId) := by
  have htime : timeAt (db.of chainId) chainId height = timeAt db chainId height := by
    have hfind : (db.of chainId).blocks.find? (chainId, height) =
        db.blocks.find? (chainId, height) :=
      Table.find?_only fun _ hkey => congrArg Prod.fst hkey
    rw [timeAt, timeAt, hfind]
  have hrows : creationRows (db.of chainId) chainId height = creationRows db chainId height := by
    unfold creationRows
    rw [htime, creationPairs_of]
  rw [projectTokenCreations_eq, projectTokenCreations_eq, hrows]
  cases hcreated : creationRows db chainId height with
  | none => rfl
  | some rows =>
      have howner : ∀ r ∈ rows, owner r = chainId := by
        intro r hr
        obtain ⟨a, ha, time, _, hin⟩ := (mem_creationRows hcreated).mp hr
        have hkey := congrArg Prod.fst (key_creationsOf hin)
        exact hkey.trans (stamped_tokenActions ha).1
      have hadded : (db.of chainId).tokenEvents.insertMissing rows =
          (db.tokenEvents.insertMissing rows).only chainId :=
        (Table.only_insertMissing howner).symm
      simp only [Option.map_some, hadded]
      rfl

theorem projectAll_of {chainId : String} {regs : List AssetRegistrationsRow}
    (hregs : ∀ r ∈ regs, r.chainId = chainId) (db : Database) :
    regs.foldlM (fun db r => projectTokenCreations db r.chainId r.height) (db.of chainId) =
      (regs.foldlM (fun db r => projectTokenCreations db r.chainId r.height) db).map
        (·.of chainId) := by
  induction regs generalizing db with
  | nil => rfl
  | cons r regs ih =>
      rw [List.foldlM_cons, List.foldlM_cons, hregs r List.mem_cons_self, projectTokenCreations_of]
      cases projectTokenCreations db chainId r.height with
      | none => rfl
      | some db' => exact ih (fun s hs => hregs s (List.mem_cons_of_mem _ hs)) db'

theorem insertAssetRegistrations_of (db : Database) (chainId : String) (height : Int)
    (effects : BlockEffects) :
    insertAssetRegistrations (db.of chainId) chainId height effects =
      (insertAssetRegistrations db chainId height effects).map (·.of chainId) := by
  have howner := (@stamped_assetRegistrationsRows effects chainId height).owner
  have hinserted : (db.of chainId).assetRegistrations.inserted
        (effects.assetRegistrationsRows chainId height) =
      db.assetRegistrations.inserted (effects.assetRegistrationsRows chainId height) :=
    Table.inserted_only howner
  have hadded : (db.of chainId).assetRegistrations.insertMissing
        (effects.assetRegistrationsRows chainId height) =
      (db.assetRegistrations.insertMissing
        (effects.assetRegistrationsRows chainId height)).only chainId :=
    (Table.only_insertMissing howner).symm
  unfold insertAssetRegistrations
  dsimp only
  rw [hinserted, hadded]
  split
  · rfl
  · refine projectAll_of ?_ { db with
      assetRegistrations :=
        db.assetRegistrations.insertMissing (effects.assetRegistrationsRows chainId height) }
    exact fun r hr => howner r (Table.mem_inserted hr).1

omit [Postgres] in
/-- The rows of an effects record at any height. -/
theorem stamped_effectsRows (effects : BlockEffects) (chainId : String) (height : Nat)
    (k : HeightTable) :
    StampedWith chainId height (blockRows chainId
      { IndexableBlock.bare height "" "" with effects := some effects } {} [] k) := by
  have hnone : StampedWith chainId height ([] : List TokenEventsRow) := by
    intro r hr
    cases hr
  exact stamped_blockRows hnone k

omit [Postgres] in
theorem insertStateRows_of (db : Database) (chainId : String) (height : Nat)
    (effects : BlockEffects) :
    insertStateRows (db.of chainId) chainId height effects =
      (insertStateRows db chainId height effects).of chainId := by
  have hstamped := stamped_effectsRows effects chainId height
  apply Database.ext_at
  · intro k
    rw [at_of]
    cases k with
    | accountState => exact only_blockRows .accountState _ _ (hstamped .accountState)
    | assetBalances => exact only_blockRows .assetBalances _ _ (hstamped .assetBalances)
    | assetHolderStates => exact only_blockRows .assetHolderStates _ _ (hstamped .assetHolderStates)
    | stakes => exact only_blockRows .stakes _ _ (hstamped .stakes)
    | validatorStatus => exact only_blockRows .validatorStatus _ _ (hstamped .validatorStatus)
    | validatorSets => exact only_blockRows .validatorSets _ _ (hstamped .validatorSets)
    | _ => rfl
  · rfl
  · rfl
  · rfl
  · rfl

omit [Postgres] in
theorem insertValidatorRows_of (db : Database) (chainId : String) (height : Nat)
    (effects : BlockEffects) :
    insertValidatorRows (db.of chainId) chainId height effects =
      (insertValidatorRows db chainId height effects).of chainId := by
  have hstamped := stamped_effectsRows effects chainId height
  apply Database.ext_at
  · intro k
    rw [at_of]
    cases k with
    | evidence => exact only_blockRows .evidence _ _ (hstamped .evidence)
    | blsKeys => exact only_blockRows .blsKeys _ _ (hstamped .blsKeys)
    | operators => exact only_blockRows .operators _ _ (hstamped .operators)
    | attestors => exact only_blockRows .attestors _ _ (hstamped .attestors)
    | droppedActions => exact only_blockRows .droppedActions _ _ (hstamped .droppedActions)
    | _ => rfl
  · refine (Table.only_modify (key_disputeRow chainId effects.disputedBlocks) ?_).symm
    intro b
    unfold disputeRow
    split <;> rfl
  · rfl
  · rfl
  · rfl

theorem insertEffectsInTx_of (db : Database) (chainId : String) (height : Nat)
    (effects : Option BlockEffects) :
    insertEffectsInTx (db.of chainId) chainId height effects =
      (insertEffectsInTx db chainId height effects).map (·.of chainId) := by
  cases effects with
  | none => rfl
  | some effects =>
      dsimp only [insertEffectsInTx]
      rw [insertStateRows_of, insertAssetRegistrations_of, Option.map_map, Option.map_map]
      congr 1
      funext db
      exact insertValidatorRows_of db chainId height effects

omit [Postgres] in
theorem insertActionRows_of (writes : BlockWrites) (db : Database) (chainId : String)
    (height : Int) :
    insertActionRows writes (db.of chainId) chainId height =
      (insertActionRows writes db chainId height).of chainId := by
  have hactions : StampedWith chainId height (writes.actionsRows chainId height) :=
    stamped_map fun _ => ⟨rfl, rfl⟩
  have haccounts : StampedWith chainId height (writes.accountActionsRows chainId height) :=
    stamped_map fun _ => ⟨rfl, rfl⟩
  have hinserted : (db.of chainId).actions.inserted (writes.actionsRows chainId height) =
      db.actions.inserted (writes.actionsRows chainId height) := Table.inserted_only hactions.owner
  apply Database.ext_at
  · intro k
    rw [at_of]
    cases k with
    | actions => exact only_blockRows .actions _ _ hactions
    | accountActions => exact only_blockRows .accountActions _ _ haccounts
    | _ => rfl
  · rfl
  · rfl
  · show (db.assetActions.only chainId).insertMissing (((db.of chainId).actions.inserted
          (writes.actionsRows chainId height)).flatMap projectAssetAction) =
        (db.assetActions.insertMissing ((db.actions.inserted
          (writes.actionsRows chainId height)).flatMap projectAssetAction)).only chainId
    rw [hinserted, Table.only_insertMissing]
    intro r hr
    obtain ⟨a, ha, hin⟩ := List.mem_flatMap.mp hr
    exact (owner_projectAssetAction hin).trans (hactions.owner a (Table.mem_inserted ha).1)
  · rfl

omit [Postgres] in
theorem insertActionAddresses_of (writes : BlockWrites) (db : Database) (chainId : String)
    (height : Int) :
    insertActionAddresses writes (db.of chainId) chainId height =
      (insertActionAddresses writes db chainId height).of chainId := by
  have haddresses : StampedWith chainId height (writes.actionAddressesRows chainId height) :=
    stamped_map fun _ => ⟨rfl, rfl⟩
  apply Database.ext_at
  · intro k
    rw [at_of]
    cases k with
    | actionAddresses => exact only_blockRows .actionAddresses _ _ haddresses
    | _ => rfl
  · rfl
  · rfl
  · rfl
  · rfl

omit [Postgres] in
theorem advanceCursor_of (db : Database) (chainId : String) (height : Int) :
    advanceCursor (db.of chainId) chainId height =
      (advanceCursor db chainId height).of chainId := by
  apply Database.ext_at
  · intro k
    rw [at_of]
    cases k <;> rfl
  · rfl
  · refine (Table.only_upsert (key_raiseTo height) ?_ rfl).symm
    intro s
    unfold raiseTo
    split <;> rfl
  · rfl
  · rfl

/-- Inserting among the rows of the chain alone. -/
theorem insertBlockInTx_of (extractor : AddressExtractor) (db : Database) (chainId : String)
    (block : IndexableBlock) :
    insertBlockInTx chainId extractor (db.of chainId) block =
      (insertBlockInTx chainId extractor db block).map (·.of chainId) := by
  have hrow : insertBlocksRow (db.of chainId) (blocksRow chainId block) =
      (insertBlocksRow db (blocksRow chainId block)).map (·.of chainId) :=
    insertBlocksRow_of db (blocksRow chainId block)
  unfold insertBlockInTx
  simp only [Option.bind_eq_bind]
  rw [hrow]
  cases insertBlocksRow db (blocksRow chainId block) with
  | none => rfl
  | some db₁ =>
      cases BlockWrites.build block block.height extractor with
      | none => rfl
      | some writes =>
          simp only [Option.map_some, Option.bind_some]
          rw [insertActionRows_of, insertTokenEvents_of]
          cases insertTokenEvents writes (insertActionRows writes db₁ chainId block.height) chainId
              block.height (asI64 block.timestamp) with
          | none => rfl
          | some db₂ =>
              simp only [Option.map_some, Option.bind_some]
              rw [insertActionAddresses_of, insertEffectsInTx_of]
              cases insertEffectsInTx (insertActionAddresses writes db₂ chainId block.height)
                  chainId block.height block.effects with
              | none => rfl
              | some db₃ => exact congrArg some (advanceCursor_of db₃ chainId block.height)

theorem insertBlocks_of (extractor : AddressExtractor) (db : Database) (chainId : String)
    (blocks : List IndexableBlock) :
    insertBlocks (db.of chainId) chainId blocks extractor =
      (insertBlocks db chainId blocks extractor).map (·.of chainId) := by
  induction blocks generalizing db with
  | nil => rfl
  | cons block blocks ih =>
      rw [insertBlocks_cons, insertBlocks_cons, insertBlockInTx_of]
      cases insertBlockInTx chainId extractor db block with
      | none => rfl
      | some db' => exact ih db'

end

end Retracer
