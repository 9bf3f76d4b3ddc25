import Retracer.Storage.Disputes

/-! # What delivering a block writes

`Written` is the whole effect of one block on the database, table by table. What the
store looks like after a block, and that a rollback below the block forgets it, are read
off it; `insertBlockInTx` itself is not unfolded again.
-/

namespace Retracer

open KeyedTable

variable [Postgres]

/-! ## One block -/

structure Written (chainId : String) (extractor : AddressExtractor) (block : IndexableBlock)
    (writes : BlockWrites) (tokens : List TokenEventsRow) (db db' : Database) : Prop where
  build : BlockWrites.build block block.height extractor = some writes
  fits : ∀ effects, block.effects = some effects → effects.assetRegistrations.length < 2 ^ 31
  stamped : StampedWith chainId block.height tokens
  events : writes.actionHash ≠ [] → ∃ rows,
    tokenEventRows db' chainId block.height (asI64 block.timestamp) = some rows ∧ rows ⊆ tokens
  rows : ∀ k, db'.at k = (db.at k).insertMissing (blockRows chainId block writes tokens k)
  assets : db'.assetActions = db.assetActions.insertMissing
    ((db.actions.inserted (writes.actionsRows chainId block.height)).flatMap projectAssetAction)
  blocks : db'.undisputedBlocks = db.undisputedBlocks.insertMissing [blocksRow chainId block]
  cursor : db'.ingestionCursor = (advanceCursor db chainId block.height).ingestionCursor
  webhooks : db'.webhooks = db.webhooks

theorem written_of_insert {chainId : String} {extractor : AddressExtractor}
    {block : IndexableBlock} {db db' : Database}
    (h : insertBlockInTx chainId extractor db block = some db') :
    ∃ writes tokens, Written chainId extractor block writes tokens db db' := by
  unfold insertBlockInTx at h
  simp only [Option.bind_eq_bind, Option.bind_eq_some_iff, Option.some.injEq] at h
  obtain ⟨mid, hmid, writes, hbuild, db₂, h₂, db₃, h₃, rfl⟩ := h
  have hblocks := undisputedBlocks_insertBlocksRow hmid
  have heq := insertBlocksRow_eq hmid
  subst heq
  obtain ⟨tokens, htokens, rfl, hevents⟩ := insertTokenEvents_spec h₂
  cases heffects : block.effects with
  | none =>
      rw [heffects] at h₃
      cases h₃
      refine ⟨writes, tokens, hbuild, ?_, htokens, fun hne => ⟨tokens, hevents hne, fun _ => id⟩,
        ?_, rfl, hblocks, rfl, rfl⟩
      · intro effects hsome
        cases heffects.symm.trans hsome
      · intro k
        cases k <;> simp only [blockRows, heffects] <;> rfl
  | some effects =>
      rw [heffects] at h₃
      obtain ⟨db₄, h₄, rfl⟩ := Option.map_eq_some_iff.mp h₃
      obtain ⟨hfits, created, hcreated, rfl⟩ := insertAssetRegistrations_spec h₄
      refine ⟨writes, tokens ++ created, hbuild, ?_, htokens.append hcreated, ?_, ?_, rfl,
        ?_, rfl, rfl⟩
      · intro effects' hsome
        cases heffects.symm.trans hsome
        exact hfits
      · exact fun hne => ⟨tokens, hevents hne, List.subset_append_left _ _⟩
      · intro k
        cases k with
        | tokenEvents =>
            simp only [blockRows, Table.insertMissing_append]
            rfl
        | _ =>
            simp only [blockRows, heffects]
            rfl
      · rw [← hblocks]
        exact undisputedBlocks_insertValidatorRows _ chainId block.height effects

/-! ## Rollbacks forget blocks -/

section

omit [Postgres]

/-- Every asset row belongs to a stored action; the foreign key. -/
def AssetParents (db : Database) : Prop :=
  ∀ r ∈ db.assetActions.rows, (r.chainId, r.actionHash) ∈ db.actions.rows.map key

theorem key_projectAssetAction {a : ActionsRow} {r : AssetActionsRow}
    (h : r ∈ projectAssetAction a) : (r.chainId, r.actionHash) = key a := by
  obtain ⟨_, _, rfl⟩ := List.mem_map.mp h
  rfl

/-- The cascade takes the rows of the new actions and none of the old ones. -/
theorem cascade_inserted {actions : Table ActionsRow} {assets : Table AssetActionsRow}
    {rows : List ActionsRow} {p : ActionsRow → Bool}
    (hparents : ∀ r ∈ assets.rows, (r.chainId, r.actionHash) ∈ actions.rows.map key)
    (hp : ∀ a ∈ rows, p a = true) :
    cascadeAssetActions ((actions.insertMissing rows).rows.filter p)
        (assets.insertMissing ((actions.inserted rows).flatMap projectAssetAction)) =
      cascadeAssetActions (actions.rows.filter p) assets := by
  have hnew : ∀ a ∈ actions.inserted rows, a ∈ (actions.insertMissing rows).rows.filter p := by
    intro a ha
    rw [List.mem_filter, Table.rows_insertMissing]
    exact ⟨List.mem_append_right _ ha, hp a (Table.mem_inserted ha).1⟩
  unfold cascadeAssetActions
  rw [Table.deleteWhere_insertMissing]
  · apply Table.deleteWhere_congr
    intro r hr
    rw [Table.rows_insertMissing, List.filter_append, List.any_append]
    have hnone : ((actions.inserted rows).filter p).any
        (fun a => a.chainId = r.chainId ∧ a.actionHash = r.actionHash) = false := by
      rw [List.any_eq_false]
      intro a ha hmatch
      simp only [decide_eq_true_eq] at hmatch
      have hkey : key a = (r.chainId, r.actionHash) := by
        rw [← hmatch.1, ← hmatch.2]
        rfl
      exact (Table.mem_inserted (List.mem_of_mem_filter ha)).2 (hkey ▸ hparents r hr)
    rw [hnone, Bool.or_false]
  · intro r hr
    obtain ⟨a, ha, hin⟩ := List.mem_flatMap.mp hr
    have hkey := key_projectAssetAction hin
    rw [List.any_eq_true]
    refine ⟨a, hnew a ha, ?_⟩
    simp only [key, Prod.mk.injEq] at hkey
    simp [hkey.1, hkey.2]

theorem rewindCursor_advanceCursor (db : Database) (chainId : String) (height target : Int) :
    rewindCursor chainId target (advanceCursor db chainId height).ingestionCursor =
      rewindCursor chainId target db.ingestionCursor := by
  unfold rewindCursor advanceCursor
  split
  · refine Table.deleteWhere_upsert (key_raiseTo height) fun s hs => ?_
    have hchain : s.chainId = chainId := hs
    simp [hchain]
  · have hrewind : ∀ c : IngestionCursorRow, key { c with lastHeight := target } = key c :=
      fun _ => rfl
    have hkey : key (⟨chainId, target⟩ : IngestionCursorRow) =
        key (⟨chainId, height⟩ : IngestionCursorRow) := rfl
    apply Table.upsert_upsert (key_raiseTo height) hrewind hkey
    · intro c _
      unfold raiseTo
      split <;> rfl
    · rfl

end

variable {chainId : String} {extractor : AddressExtractor} {block : IndexableBlock}
  {writes : BlockWrites} {tokens : List TokenEventsRow} {db db' : Database}

/-- A rollback below a block gives what it would have given before the block. -/
theorem Written.rollbackTo (h : Written chainId extractor block writes tokens db db')
    (hparents : AssetParents db) {target : Int} (hlt : target < block.height) :
    (rollbackTo db' chainId target).1.undisputed =
      (Retracer.rollbackTo db chainId target).1.undisputed := by
  have hactions : db'.actions = db.actions.insertMissing
      (writes.actionsRows chainId block.height) := h.rows .actions
  have hgone : ∀ k, ∀ r ∈ blockRows chainId block writes tokens k,
      above chainId target r = true := fun k => (stamped_blockRows h.stamped k).above hlt
  apply Database.ext_at
  · intro k
    show (Retracer.rollbackTo db' chainId target).1.at k =
      (Retracer.rollbackTo db chainId target).1.at k
    rw [at_rollbackTo, at_rollbackTo, h.rows k, Table.deleteWhere_insertMissing (hgone k)]
  · show (Retracer.rollbackTo db' chainId target).1.undisputedBlocks =
      (Retracer.rollbackTo db chainId target).1.undisputedBlocks
    rw [undisputedBlocks_rollbackTo, undisputedBlocks_rollbackTo, h.blocks]
    exact Table.deleteWhere_insertMissing (stamped_blocksRow.above hlt)
  · show rewindCursor chainId target db'.ingestionCursor =
      rewindCursor chainId target db.ingestionCursor
    rw [h.cursor, rewindCursor_advanceCursor]
  · show cascadeAssetActions (db'.actions.rows.filter (above chainId target)) db'.assetActions =
      cascadeAssetActions (db.actions.rows.filter (above chainId target)) db.assetActions
    rw [h.assets, hactions]
    exact cascade_inserted hparents (hgone .actions)
  · show rewindWebhooks chainId target db'.webhooks = rewindWebhooks chainId target db.webhooks
    rw [h.webhooks]

/-! ## Stores with the first blocks of a chain -/

theorem Written.assetParents (h : Written chainId extractor block writes tokens db db')
    (hparents : AssetParents db) : AssetParents db' := by
  have hactions : db'.actions = db.actions.insertMissing
      (writes.actionsRows chainId block.height) := h.rows .actions
  intro r hr
  rw [hactions, Table.rows_insertMissing, List.map_append, List.mem_append]
  rw [h.assets] at hr
  rcases Table.mem_of_mem_insertMissing hr with hold | hnew
  · exact Or.inl (hparents r hold)
  · obtain ⟨a, ha, hin⟩ := List.mem_flatMap.mp hnew
    exact Or.inr (key_projectAssetAction hin ▸ List.mem_map_of_mem ha)

/-- Nothing is stored at height `n` or above, and the cursor is right below it. -/
structure Topped (chainId : String) (n : Nat) (db : Database) : Prop where
  below : ∀ k, ∀ r ∈ (db.at k).rows, Stamped.heightOf r < n
  blocks : ∀ b ∈ db.undisputedBlocks.rows, b.height < n
  parents : AssetParents db
  cursor : db.ingestionCursor.rows = if n = 0 then [] else [⟨chainId, (n : Int) - 1⟩]
  webhooks : db.webhooks.rows = []

section

omit [Postgres]

theorem topped_empty (chainId : String) : Topped chainId 0 .empty := by
  refine ⟨?_, ?_, ?_, rfl, rfl⟩
  · intro k r hr
    cases k <;> cases hr
  · intro b hb
    cases hb
  · intro r hr
    cases hr

theorem Topped.find_cursor {n : Nat} (h : Topped chainId n db) (hpos : 0 < n) :
    db.ingestionCursor.find? chainId = some ⟨chainId, (n : Int) - 1⟩ := by
  have hcursor := h.cursor
  rw [if_neg (by omega)] at hcursor
  exact Table.find?_eq_some_iff.mpr ⟨by simp [hcursor], rfl⟩

theorem Topped.advanceCursor {n : Nat} (h : Topped chainId n db) :
    (advanceCursor db chainId n).ingestionCursor.rows = [⟨chainId, n⟩] := by
  have hcursor := h.cursor
  have hupsert : (Retracer.advanceCursor db chainId n).ingestionCursor =
      db.ingestionCursor.upsert ⟨chainId, n⟩ (raiseTo n) (key_raiseTo n) := rfl
  rw [hupsert]
  by_cases hzero : n = 0
  · rw [if_pos hzero] at hcursor
    have hfree : key (⟨chainId, n⟩ : IngestionCursorRow) ∉ db.ingestionCursor.rows.map key := by
      simp [hcursor]
    rw [Table.upsert_of_notMem (key_raiseTo n) hfree, hcursor, List.nil_append]
  · rw [if_neg hzero] at hcursor
    have htaken : key (⟨chainId, n⟩ : IngestionCursorRow) ∈ db.ingestionCursor.rows.map key := by
      simp [hcursor, key]
    have hlt : (n : Int) - 1 < n := by omega
    have hraise : raiseTo n ⟨chainId, (n : Int) - 1⟩ = ⟨chainId, n⟩ := if_pos hlt
    rw [Table.upsert_of_mem (key_raiseTo n) htaken]
    simp [hcursor, key, hraise]

end

theorem Topped.written {n : Nat} (h : Topped chainId n db)
    (hw : Written chainId extractor block writes tokens db db') (hn : block.height = n) :
    Topped chainId (n + 1) db' := by
  refine ⟨?_, ?_, hw.assetParents h.parents, ?_, by rw [hw.webhooks, h.webhooks]⟩
  · intro k r hr
    rw [hw.rows k] at hr
    rcases Table.mem_of_mem_insertMissing hr with hold | hnew
    · have := h.below k r hold
      omega
    · have := (stamped_blockRows hw.stamped k r hnew).2
      omega
  · intro b hb
    rw [hw.blocks] at hb
    rcases Table.mem_of_mem_insertMissing hb with hold | hnew
    · have := h.blocks b hold
      omega
    · have : b.height = block.height := (stamped_blocksRow b hnew).2
      omega
  · rw [hw.cursor, hn, h.advanceCursor, if_neg (Nat.succ_ne_zero n)]
    simp

omit [Postgres] in
/-- Rolling back to the last block does nothing. -/
theorem Topped.rollbackTo {n : Nat} (h : Topped chainId n db) :
    (rollbackTo db chainId ((n : Int) - 1)).1.undisputed = db.undisputed := by
  have hnone : ∀ k, ∀ r ∈ (db.at k).rows, above chainId ((n : Int) - 1) r = false := by
    intro k r hr
    have := h.below k r hr
    simp only [above, decide_eq_false_iff_not, not_and]
    omega
  apply Database.ext_at
  · intro k
    show (Retracer.rollbackTo db chainId _).1.at k = db.at k
    rw [at_rollbackTo]
    exact Table.deleteWhere_eq_self (hnone k)
  · show (Retracer.rollbackTo db chainId _).1.undisputedBlocks = db.undisputedBlocks
    rw [undisputedBlocks_rollbackTo]
    apply Table.deleteWhere_eq_self
    intro b hb
    have hlt := h.blocks b hb
    simp only [above, Stamped.heightOf, decide_eq_false_iff_not, not_and]
    omega
  · show rewindCursor chainId _ db.ingestionCursor = db.ingestionCursor
    unfold rewindCursor
    by_cases hzero : n = 0
    · have hcursor := h.cursor
      rw [if_pos hzero] at hcursor
      rw [if_pos (by omega)]
      apply Table.deleteWhere_eq_self
      simp [hcursor]
    · rw [if_neg (by omega)]
      have hrewind : ∀ c : IngestionCursorRow, key { c with lastHeight := (n : Int) - 1 } = key c :=
        fun _ => rfl
      exact Table.upsert_eq_self hrewind (h.find_cursor (by omega)) rfl
  · show cascadeAssetActions (db.actions.rows.filter (above chainId _)) db.assetActions =
      db.assetActions
    have hempty : db.actions.rows.filter (above chainId ((n : Int) - 1)) = [] := by
      rw [List.filter_eq_nil_iff]
      intro a ha
      rw [hnone .actions a ha]
      simp
    rw [hempty]
    exact Table.deleteWhere_eq_self fun _ _ => rfl
  · show rewindWebhooks chainId _ db.webhooks = db.webhooks
    ext1
    simp [rewindWebhooks, h.webhooks]

end Retracer
