import Retracer.Storage.Delivery

/-! # Delivering a block again

A second delivery writes nothing as long as the rows of the first are there, since then
every key is taken. The token events are read off the stored actions, so for them the
actions of the height must be as they were.
-/

namespace Retracer

open KeyedTable

variable [Postgres]

/-- What a delivered block leaves behind. -/
structure Delivered (chainId : String) (extractor : AddressExtractor) (block : IndexableBlock)
    (writes : BlockWrites) (db : Database) : Prop where
  build : BlockWrites.build block block.height extractor = some writes
  fits : ∀ effects, block.effects = some effects → effects.assetRegistrations.length < 2 ^ 31
  rows : ∀ k, (db.at k).Holds (blockRows chainId block writes [] k)
  blocks : db.undisputedBlocks.Holds [blocksRow chainId block]
  events : writes.actionHash ≠ [] → ∃ rows,
    tokenEventRows db chainId block.height (asI64 block.timestamp) = some rows ∧
      db.tokenEvents.Holds rows

variable {chainId : String} {extractor : AddressExtractor} {block other : IndexableBlock}
  {writes more : BlockWrites} {tokens : List TokenEventsRow} {db db' : Database}

theorem Written.delivered (h : Written chainId extractor block writes tokens db db') :
    Delivered chainId extractor block writes db' := by
  have hrows : ∀ k, (db'.at k).Holds (blockRows chainId block writes tokens k) := by
    intro k
    rw [h.rows k]
    exact Table.holds_insertMissing _ _
  refine ⟨h.build, h.fits, ?_, ?_, ?_⟩
  · intro k
    cases k with
    | tokenEvents => exact fun r hr => nomatch hr
    | _ => exact hrows _
  · rw [h.blocks]
    exact Table.holds_insertMissing _ _
  · intro hne
    obtain ⟨rows, hevents, hsub⟩ := h.events hne
    exact ⟨rows, hevents, fun r hr => hrows .tokenEvents r (hsub hr)⟩

/-- A block of another height leaves the actions of this one alone. -/
theorem Written.tokenActions (h : Written chainId extractor block writes tokens db db')
    {height : Int} (hne : (block.height : Int) ≠ height) :
    tokenActions db' chainId height = Retracer.tokenActions db chainId height := by
  have hactions : db'.actions = db.actions.insertMissing
      (writes.actionsRows chainId block.height) := h.rows .actions
  unfold Retracer.tokenActions
  rw [hactions, Table.rows_insertMissing, List.filter_append]
  apply List.append_right_eq_self.mpr
  rw [List.filter_eq_nil_iff]
  intro a ha
  have hheight : a.blockHeight = block.height :=
    (stamped_blockRows h.stamped .actions a (Table.mem_inserted ha).1).2
  simp [hheight, hne]

theorem Delivered.later (h : Delivered chainId extractor block writes db)
    (hw : Written chainId extractor other more tokens db db')
    (hne : (other.height : Int) ≠ block.height) :
    Delivered chainId extractor block writes db' := by
  have hgrows : ∀ k, (db.at k).rows <+: (db'.at k).rows := by
    intro k
    rw [hw.rows k]
    exact Table.insertMissing_extends _ _
  refine ⟨h.build, h.fits, fun k => Table.holds_of_prefix (h.rows k) (hgrows k), ?_, ?_⟩
  · apply Table.holds_of_prefix h.blocks
    rw [hw.blocks]
    exact Table.insertMissing_extends _ _
  · intro hsome
    obtain ⟨rows, hevents, hheld⟩ := h.events hsome
    refine ⟨rows, ?_, Table.holds_of_prefix hheld (hgrows .tokenEvents)⟩
    unfold tokenEventRows at hevents ⊢
    rw [hw.tokenActions hne]
    exact hevents

/-! ## Statement by statement -/

theorem Delivered.insertBlocksRow (h : Delivered chainId extractor block writes db) :
    insertBlocksRow db (blocksRow chainId block) = some db := by
  obtain ⟨b, hb, hkey⟩ := List.mem_map.mp (h.blocks _ (List.mem_singleton_self _))
  obtain ⟨b', hb', rfl⟩ := List.mem_map.mp hb
  have hfind : db.blocks.find? (key (blocksRow chainId block)) = some b' :=
    Table.find?_eq_some_iff.mpr ⟨hb', hkey⟩
  simp [Retracer.insertBlocksRow, hfind]

theorem Delivered.insertActionRows (h : Delivered chainId extractor block writes db) :
    insertActionRows writes db chainId block.height = db := by
  have hactions : db.actions.Holds (writes.actionsRows chainId block.height) := h.rows .actions
  have haccounts : db.accountActions.Holds (writes.accountActionsRows chainId block.height) :=
    h.rows .accountActions
  simp [Retracer.insertActionRows, insertActions, Table.insertMissing_of_holds hactions,
    Table.inserted_of_holds hactions, Table.insertMissing_of_holds haccounts]

theorem Delivered.insertTokenEvents (h : Delivered chainId extractor block writes db) :
    insertTokenEvents writes db chainId block.height (asI64 block.timestamp) = some db := by
  unfold Retracer.insertTokenEvents
  split
  · rfl
  · next hne =>
      have hsome : writes.actionHash ≠ [] := by simpa using hne
      obtain ⟨rows, hevents, hheld⟩ := h.events hsome
      rw [hevents, Option.map_some, Table.insertMissing_of_holds hheld]

theorem Delivered.insertActionAddresses (h : Delivered chainId extractor block writes db) :
    insertActionAddresses writes db chainId block.height = db := by
  have haddresses : db.actionAddresses.Holds (writes.actionAddressesRows chainId block.height) :=
    h.rows .actionAddresses
  rw [Retracer.insertActionAddresses, Table.insertMissing_of_holds haddresses]

section

variable {effects : BlockEffects}

theorem Delivered.insertStateRows (h : Delivered chainId extractor block writes db)
    (heffects : block.effects = some effects) :
    insertStateRows db chainId block.height effects = db := by
  cases block
  cases heffects
  apply Database.ext_at
  · intro k
    have hkept := Table.insertMissing_of_holds (h.rows k)
    cases k with
    | accountState | assetBalances | assetHolderStates | stakes | validatorStatus
    | validatorSets => exact hkept
    | _ => rfl
  · rfl
  · rfl
  · rfl
  · rfl

/-- No registration is new, so the trigger does not fire. -/
theorem Delivered.insertAssetRegistrations (h : Delivered chainId extractor block writes db)
    (heffects : block.effects = some effects) :
    insertAssetRegistrations db chainId block.height effects = some db := by
  have hfits := h.fits effects heffects
  have hrows : blockRows chainId block writes [] .assetRegistrations =
      effects.assetRegistrationsRows chainId block.height := by
    rw [blockRows, heffects, Option.elim_some]
  have hheld : db.assetRegistrations.Holds
      (effects.assetRegistrationsRows chainId block.height) :=
    hrows ▸ h.rows .assetRegistrations
  unfold Retracer.insertAssetRegistrations
  dsimp only
  rw [if_neg (by omega), Table.inserted_of_holds hheld, Table.insertMissing_of_holds hheld]
  rfl

theorem Delivered.insertValidatorRows (h : Delivered chainId extractor block writes db)
    (heffects : block.effects = some effects) :
    (insertValidatorRows db chainId block.height effects).undisputed = db.undisputed := by
  cases block
  cases heffects
  apply Database.ext_at
  · intro k
    have hkept := Table.insertMissing_of_holds (h.rows k)
    cases k with
    | evidence | blsKeys | operators | attestors | droppedActions => exact hkept
    | _ => rfl
  · exact undisputedBlocks_insertValidatorRows db chainId _ effects
  · rfl
  · rfl
  · rfl

end

theorem Delivered.insertEffectsInTx (h : Delivered chainId extractor block writes db) :
    ∃ db', insertEffectsInTx db chainId block.height block.effects = some db' ∧
      db'.undisputed = db.undisputed := by
  cases heffects : block.effects with
  | none => exact ⟨db, rfl, rfl⟩
  | some effects =>
      refine ⟨_, ?_, h.insertValidatorRows heffects⟩
      rw [Retracer.insertEffectsInTx, h.insertStateRows heffects,
        h.insertAssetRegistrations heffects, Option.map_some]

/-- Redelivery is a no-op. -/
theorem Delivered.again (h : Delivered chainId extractor block writes db) {last : Int}
    (hcursor : db.ingestionCursor.find? chainId = some ⟨chainId, last⟩)
    (hle : (block.height : Int) ≤ last) :
    ∃ db', insertBlockInTx chainId extractor db block = some db' ∧
      db'.undisputed = db.undisputed := by
  obtain ⟨db', heffects, hsame⟩ := h.insertEffectsInTx
  have hlast : db'.undisputed.ingestionCursor = db.undisputed.ingestionCursor := by rw [hsame]
  have hfind : db'.ingestionCursor.find? chainId = some ⟨chainId, last⟩ :=
    (congrArg (Table.find? · chainId) hlast).trans hcursor
  have hadvance : advanceCursor db' chainId block.height = db' := by
    have hraise : raiseTo block.height ⟨chainId, last⟩ = ⟨chainId, last⟩ := by
      have hnot : ¬ last < (block.height : Int) := by omega
      simp [raiseTo, hnot]
    unfold advanceCursor
    rw [Table.upsert_eq_self (key_raiseTo block.height) hfind hraise]
  refine ⟨db', ?_, hsame⟩
  unfold insertBlockInTx
  simp only [Option.bind_eq_bind]
  rw [h.insertBlocksRow, Option.bind_some, h.build, Option.bind_some, h.insertActionRows,
    h.insertTokenEvents, Option.bind_some, h.insertActionAddresses, heffects, Option.bind_some,
    hadvance]

end Retracer
