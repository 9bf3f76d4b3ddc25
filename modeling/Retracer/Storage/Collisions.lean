import Retracer.Storage.Anchored
import Retracer.Storage.DisputedFlag
import Retracer.Storage.Redelivery

/-! # Height collisions

A block whose height is held by another one is logged, and then written like any block:
its row of `blocks` is skipped, and every other row goes in unless its key is taken. So the
store is left alone exactly when the block brings nothing new.
-/

namespace Retracer

open KeyedTable Execution

/-! ## One block -/

section

variable (chainId : String) (extractor : AddressExtractor) (db : Database)
  (block : IndexableBlock)

/-- The height is held by a block with another hash. -/
def Collides : Prop :=
  ∃ hash, getBlockHash db chainId block.height = some hash ∧ hash ≠ block.hash

variable [Postgres]

/-- Every row of the block has its key taken, every block it disputes is disputed, and the
cursor is past it. -/
structure NothingNew : Prop where
  rows : ∀ writes, BlockWrites.build block block.height extractor = some writes →
    ∀ k, (db.at k).Holds (blockRows chainId block writes [] k)
  events : ∀ writes, BlockWrites.build block block.height extractor = some writes →
    writes.actionHash ≠ [] → ∀ rows,
    tokenEventRows db chainId block.height (asI64 block.timestamp) = some rows →
    db.tokenEvents.Holds rows
  disputed : ∀ b ∈ db.blocks.rows, b.chainId = chainId →
    b.height ∈ block.disputedBlocks.map asI64 → b.disputed = true
  cursor : ∃ last, getCursor db chainId = some last ∧ (block.height : Int) ≤ last

end

section

variable [Postgres] {chainId : String} {extractor : AddressExtractor} {block : IndexableBlock}
  {writes : BlockWrites} {tokens : List TokenEventsRow} {db db' : Database}

omit [Postgres] in
theorem Collides.taken (h : Collides chainId db block) :
    key (blocksRow chainId block) ∈ db.blocks.rows.map key := by
  obtain ⟨hash, hhash, _⟩ := h
  obtain ⟨b, hb, _⟩ := Option.map_eq_some_iff.mp hhash
  obtain ⟨hmem, hkey⟩ := Table.find?_eq_some_iff.mp hb
  exact List.mem_map.mpr ⟨b, hmem, hkey⟩

omit [Postgres] in
theorem disputeRow_eq_self_iff {heights : List Nat} {b : BlocksRow} :
    disputeRow chainId heights b = b ↔
      (b.chainId = chainId → b.height ∈ heights.map asI64 → b.disputed = true) := by
  unfold disputeRow
  split
  · next h =>
      constructor
      · intro heq _ _
        rw [← heq]
      · intro hflag
        have hset := hflag h.1 h.2
        cases b
        simp only [BlocksRow.mk.injEq, true_and] at hset ⊢
        exact hset.symm
  · next h => exact iff_of_true rfl fun hc hh => absurd ⟨hc, hh⟩ h

theorem Written.tokenEventRows_of_held (hw : Written chainId extractor block writes tokens db db')
    (hheld : (db.at .actions).Holds (blockRows chainId block writes [] .actions)) (time : Int) :
    tokenEventRows db' chainId block.height time = tokenEventRows db chainId block.height time := by
  have hactions : db'.actions = db.actions := by
    have hrows : db'.actions = db.actions.insertMissing
        (blockRows chainId block writes [] .actions) := hw.rows .actions
    rw [hrows]
    exact Table.insertMissing_of_holds hheld
  simp only [tokenEventRows, Retracer.tokenActions, hactions]

/-- A collision that brings nothing new. -/
theorem NothingNew.unchanged (h : NothingNew chainId extractor db block)
    (hcollides : Collides chainId db block)
    (hinsert : insertBlockInTx chainId extractor db block = some db') : db' = db := by
  obtain ⟨writes, tokens, hw⟩ := written_of_insert hinsert
  have hrows := h.rows writes hw.build
  have hdelivered : Delivered chainId extractor block writes db := by
    refine ⟨hw.build, hw.fits, hrows, ?_, ?_⟩
    · intro row hrow
      rw [List.mem_singleton.mp hrow, Database.undisputedBlocks, Table.rows_modify, List.map_map]
      exact hcollides.taken
    · intro hne
      obtain ⟨rows, hevents, _⟩ := hw.events hne
      rw [hw.tokenEventRows_of_held (hrows .actions)] at hevents
      exact ⟨rows, hevents, h.events writes hw.build hne rows hevents⟩
  obtain ⟨last, hlast, hle⟩ := h.cursor
  obtain ⟨c, hc, rfl⟩ := Option.map_eq_some_iff.mp hlast
  have hkey : c.chainId = chainId := (Table.find?_eq_some_iff.mp hc).2
  have hcursor : db.ingestionCursor.find? chainId = some ⟨chainId, c.lastHeight⟩ := by
    rw [hc, ← hkey]
  obtain ⟨again, hagain, hsame⟩ := hdelivered.again hcursor hle
  obtain rfl : again = db' := Option.some.inj (hagain.symm.trans hinsert)
  have hblocks : again.blocks = db.blocks := by
    rw [blocks_insertBlockInTx hinsert]
    have hold : db.blocks.insertRow (blocksRow chainId block) = db.blocks :=
      Table.insertRow_of_mem hcollides.taken
    simp only [hold]
    exact Table.modify_eq_self _ fun b hb => disputeRow_eq_self_iff.mpr (h.disputed b hb)
  have hfields : ∀ {α : Type} (f : Database → α), f again.undisputed = f db.undisputed := by
    intro α f
    rw [hsame]
  apply Database.ext_at
  · intro k
    have hk := hfields fun db => db.at k
    cases k <;> exact hk
  · exact hblocks
  · exact hfields Database.ingestionCursor
  · exact hfields Database.assetActions
  · exact hfields Database.webhooks

/-- A collision that changes nothing. -/
theorem nothingNew_of_unchanged (hcollides : Collides chainId db block)
    (hinsert : insertBlockInTx chainId extractor db block = some db) :
    NothingNew chainId extractor db block := by
  obtain ⟨writes, tokens, hw⟩ := written_of_insert hinsert
  have hheld : ∀ k, (db.at k).Holds (blockRows chainId block writes tokens k) := by
    intro k
    have hholds := Table.holds_insertMissing (db.at k) (blockRows chainId block writes tokens k)
    rwa [← hw.rows k] at hholds
  refine ⟨?_, ?_, ?_, ?_⟩
  · intro writes' hbuild k
    obtain rfl : writes = writes' := Option.some.inj (hw.build.symm.trans hbuild)
    cases k with
    | tokenEvents => exact fun r hr => nomatch hr
    | _ => exact hheld _
  · intro writes' hbuild hne rows hevents
    obtain rfl : writes = writes' := Option.some.inj (hw.build.symm.trans hbuild)
    obtain ⟨rows', hevents', hsub⟩ := hw.events hne
    obtain rfl : rows = rows' := Option.some.inj (hevents.symm.trans hevents')
    exact fun r hr => hheld .tokenEvents r (hsub hr)
  · have hblocks := blocks_insertBlockInTx hinsert
    rw [Table.insertRow_of_mem hcollides.taken] at hblocks
    intro b hb
    apply disputeRow_eq_self_iff.mp
    have hset : disputeRow chainId block.disputedBlocks b ∈ db.blocks.rows := by
      rw [hblocks, Table.rows_modify]
      exact List.mem_map_of_mem hb
    exact db.blocks.eq_of_key_eq hset hb (key_disputeRow chainId _ b)
  · have hcursor := (insertBlockInTx_spec hinsert).2
    cases hlast : getCursor db chainId with
    | none => simp [hlast, raiseCursor] at hcursor
    | some last =>
        simp only [hlast, raiseCursor, Option.elim_some, Option.some.injEq] at hcursor
        exact ⟨last, rfl, by omega⟩

omit [Postgres] in
theorem getBlockHash_undisputed (db : Database) (c : String) (n : Int) :
    getBlockHash db c n = (db.undisputedBlocks.find? (c, n)).map (·.hash) := by
  rw [Database.undisputedBlocks, Table.find?_modify, Option.map_map]
  rfl

theorem Written.getBlockHash (hw : Written chainId extractor block writes tokens db db')
    (c : String) (n : Int) :
    getBlockHash db' c n = (Retracer.getBlockHash db c n).or
      (if key (blocksRow chainId block) = (c, n) then some block.hash else none) := by
  rw [getBlockHash_undisputed, getBlockHash_undisputed, hw.blocks, Table.insertMissing_cons,
    Table.insertMissing_nil, Table.find?_insertRow, Option.map_or]
  congr 1
  split <;> rfl

end

/-! ## Where rows come from -/

/-- The block writes the row. -/
def Brings (chainId : String) (extractor : AddressExtractor) (block : IndexableBlock)
    (k : HeightTable) (r : k.Row) : Prop :=
  ∃ writes, BlockWrites.build block block.height extractor = some writes ∧
    r ∈ blockRows chainId block writes [] k

/-- Every row that a block writes itself is one of a delivered block, of the one that has the
hash stored at the row's height. Token events are read off the actions and are left out. -/
def Sourced (extractors : String → AddressExtractor) (delivered : List (String × IndexableBlock))
    (db : Database) : Prop :=
  ∀ k, k ≠ .tokenEvents → ∀ r ∈ (db.at k).rows, ∃ block,
    (Stamped.chainOf r, block) ∈ delivered ∧ (block.height : Int) = Stamped.heightOf r ∧
      getBlockHash db (Stamped.chainOf r) (Stamped.heightOf r) = some block.hash ∧
      Brings (Stamped.chainOf r) (extractors (Stamped.chainOf r)) block k r

/-- The store with all blocks delivered so far; the code keeps no such list. -/
structure Deliveries where
  db : Database := .empty
  delivered : List (String × IndexableBlock) := []

def WriteOp.delivered : WriteOp → List (String × IndexableBlock)
  | .insert chainId blocks => blocks.map fun block => (chainId, block)
  | .rollback _ _ => []

section

variable [Postgres] (extractors : String → AddressExtractor)

def deliverStep (s : Deliveries) (op : WriteOp) : Option Deliveries :=
  (writeStep extractors s.db op).map fun db => { db, delivered := s.delivered ++ op.delivered }

/-- Whenever a block of the batch collides, it brings nothing new to the store as it is
then. -/
def BatchBringsNothing (chainId : String) (extractor : AddressExtractor) :
    Database → List IndexableBlock → Prop
  | _, [] => True
  | db, block :: blocks =>
      (Collides chainId db block → NothingNew chainId extractor db block) ∧
        (insertBlockInTx chainId extractor db block).elim True fun db =>
          BatchBringsNothing chainId extractor db blocks

def CollisionsBringNothing (s : Deliveries) (op : WriteOp) (_ : Deliveries) : Prop :=
  match op with
  | .insert chainId blocks => BatchBringsNothing chainId (extractors chainId) s.db blocks
  | .rollback _ _ => True

variable {extractors} {chainId : String} {db db' : Database}
  {delivered more : List (String × IndexableBlock)}

theorem Sourced.insertBlockInTx {block : IndexableBlock} (h : Sourced extractors delivered db)
    (hsub : delivered ⊆ more) (hmem : (chainId, block) ∈ more)
    (hnew : Collides chainId db block → NothingNew chainId (extractors chainId) db block)
    (hinsert : insertBlockInTx chainId (extractors chainId) db block = some db') :
    Sourced extractors more db' := by
  obtain ⟨writes, tokens, hw⟩ := written_of_insert hinsert
  intro k hk r hr
  rw [hw.rows k, Table.rows_insertMissing, List.mem_append] at hr
  rcases hr with hold | hadded
  · obtain ⟨source, hsource, hheight, hhash, hbrings⟩ := h k hk r hold
    exact ⟨source, hsub hsource, hheight, by rw [hw.getBlockHash, hhash, Option.some_or], hbrings⟩
  · obtain ⟨hrow, hfree⟩ := Table.mem_inserted hadded
    obtain ⟨hchain, hheight⟩ := stamped_blockRows hw.stamped k r hrow
    have hown : r ∈ blockRows chainId block writes [] k := by
      cases k with
      | tokenEvents => exact absurd rfl hk
      | _ => exact hrow
    refine ⟨block, by rw [hchain]; exact hmem, hheight.symm, ?_, writes, ?_, ?_⟩
    · rw [hchain, hheight, hw.getBlockHash]
      cases hstored : getBlockHash db chainId block.height with
      | none =>
          have hkey : key (blocksRow chainId block) = (chainId, (block.height : Int)) := rfl
          rw [Option.none_or, if_pos hkey]
      | some hash =>
          -- With another hash the row would have had its key taken.
          by_cases hsame : hash = block.hash
          · rw [hsame, Option.some_or]
          · have hheld := (hnew ⟨hash, hstored, hsame⟩).rows writes hw.build k
            exact absurd (hheld r hown) hfree
    · rw [hchain]
      exact hw.build
    · rw [hchain]
      exact hown

theorem Sourced.insertBlocks {blocks : List IndexableBlock} (h : Sourced extractors delivered db)
    (hsub : delivered ⊆ more) (hmem : ∀ block ∈ blocks, (chainId, block) ∈ more)
    (hnew : BatchBringsNothing chainId (extractors chainId) db blocks)
    (hinsert : insertBlocks db chainId blocks (extractors chainId) = some db') :
    Sourced extractors more db' := by
  induction blocks generalizing db delivered with
  | nil =>
      cases hinsert
      intro k hk r hr
      obtain ⟨block, hblock, hrest⟩ := h k hk r hr
      exact ⟨block, hsub hblock, hrest⟩
  | cons block blocks ih =>
      rw [insertBlocks_cons, Option.bind_eq_some_iff] at hinsert
      obtain ⟨mid, hmid, hrest⟩ := hinsert
      obtain ⟨hfirst, hlater⟩ := hnew
      rw [hmid, Option.elim_some] at hlater
      have hmidSourced := h.insertBlockInTx hsub (hmem block List.mem_cons_self) hfirst hmid
      exact ih hmidSourced (fun _ => id) (fun b hb => hmem b (List.mem_cons_of_mem _ hb)) hlater
        hrest

omit [Postgres] in
theorem Sourced.rollbackTo (h : Sourced extractors delivered db) (height : Int) :
    Sourced extractors delivered (rollbackTo db chainId height).1 := by
  intro k hk r hr
  rw [at_rollbackTo, Table.rows_deleteWhere, List.mem_filter] at hr
  obtain ⟨block, hblock, hheight, hhash, hbrings⟩ := h k hk r hr.1
  refine ⟨block, hblock, hheight, ?_, hbrings⟩
  rw [getBlockHash_undisputed, find_rollbackTo db (by simpa using hr.2),
    ← getBlockHash_undisputed]
  exact hhash

theorem sourced_deliverStep {s s' : Deliveries} {op : WriteOp}
    (h : Sourced extractors s.delivered s.db) (hs : deliverStep extractors s op = some s')
    (hnew : CollisionsBringNothing extractors s op s') :
    Sourced extractors s'.delivered s'.db := by
  obtain ⟨db, hdb, rfl⟩ := Option.map_eq_some_iff.mp hs
  cases op with
  | insert chainId blocks =>
      refine h.insertBlocks (List.subset_append_left _ _) ?_ hnew hdb
      intro block hblock
      exact List.mem_append_right _ (List.mem_map_of_mem hblock)
  | rollback chainId height =>
      cases hdb
      simp only [WriteOp.delivered, List.append_nil]
      exact h.rollbackTo height

/-- A block that collides changes no table exactly when it brings nothing new, and as long
as no colliding block does, every row comes from the block that has its height. -/
theorem height_collision_iff (extractors : String → AddressExtractor) :
    (∀ (db db' : Database) (chainId : String) (extractor : AddressExtractor)
        (block : IndexableBlock), Collides chainId db block →
      insertBlock db chainId block extractor = some db' →
      (db' = db ↔ NothingNew chainId extractor db block)) ∧
    ∀ (ops : List WriteOp) (s : Deliveries),
      Always (deliverStep extractors) (CollisionsBringNothing extractors) {} ops →
      exec (deliverStep extractors) {} ops = some s → Sourced extractors s.delivered s.db := by
  constructor
  · intro db db' chainId extractor block hcollides hinsert
    obtain ⟨mid, hmid, hlast⟩ := Option.bind_eq_some_iff.mp hinsert
    cases hlast
    constructor
    · rintro rfl
      exact nothingNew_of_unchanged hcollides hmid
    · exact fun h => h.unchanged hcollides hmid
  · intro ops s hnew hrun
    apply always_invariant (I := fun s : Deliveries => Sourced extractors s.delivered s.db)
      (fun _ _ _ => sourced_deliverStep) ?_ hnew hrun
    intro k _ r hr
    cases k <;> cases hr

end

/-- Two first blocks, the second of them without contents. -/
def emptyCollision : List WriteOp :=
  [.insert "main" [.bare 0 "g" ""], .insert "main" [.bare 0 "h" ""]]

abbrev plainDeliver : Deliveries → WriteOp → Option Deliveries :=
  @deliverStep .plain fun _ => .tierAOnly .empty

theorem nothingNew_bare [Postgres] {db : Database} {hash parentHash : String}
    (hcursor : getCursor db "main" = some 0) :
    NothingNew "main" (.tierAOnly .empty) db (.bare 0 hash parentHash) := by
  refine ⟨?_, ?_, ?_, 0, hcursor, Int.le_refl _⟩
  · intro writes hbuild k
    cases hbuild
    cases k <;> exact fun r hr => nomatch hr
  · intro writes hbuild hne
    cases hbuild
    exact absurd rfl hne
  · intro b _ _ hdisputed
    cases hdisputed

theorem batchBringsNothing_single [Postgres] {chainId : String} {extractor : AddressExtractor}
    {db : Database} {block : IndexableBlock}
    (h : Collides chainId db block → NothingNew chainId extractor db block) :
    BatchBringsNothing chainId extractor db [block] := by
  refine ⟨h, ?_⟩
  cases insertBlockInTx chainId extractor db block <;> trivial

theorem height_collision_empty :
    ∃ s, exec plainDeliver {} emptyCollision = some s ∧
      Sourced (fun _ => .tierAOnly .empty) s.delivered s.db := by
  have hsome : (exec plainDeliver {} emptyCollision).isSome := by decide
  obtain ⟨s, hs⟩ := Option.isSome_iff_exists.mp hsome
  obtain ⟨first, hfirst, hrest⟩ := Option.bind_eq_some_iff.mp hs
  obtain ⟨second, hsecond, _⟩ := Option.bind_eq_some_iff.mp hrest
  have hcursor : (plainDeliver {} (.insert "main" [.bare 0 "g" ""])).map
      (fun s => getCursor s.db "main") = some (some 0) := by decide
  rw [hfirst, Option.map_some, Option.some.injEq] at hcursor
  have hnew : Always plainDeliver (@CollisionsBringNothing .plain fun _ => .tierAOnly .empty) {}
      emptyCollision := by
    refine (everyStep_cons_of_step hfirst).mpr ⟨?_, (everyStep_cons_of_step hsecond).mpr ⟨?_, ?_⟩⟩
    · refine @batchBringsNothing_single .plain _ _ _ _ ?_
      rintro ⟨hash, hhash, _⟩
      cases hhash
    · exact @batchBringsNothing_single .plain _ _ _ _ fun _ => @nothingNew_bare .plain _ _ _ hcursor
    · trivial
  exact ⟨s, hs, (@height_collision_iff .plain fun _ => .tierAOnly .empty).2 _ s hnew hs⟩

/-- The second block comes with an action. -/
def secondGenesis : IndexableBlock := reusedIdentity 0 "h" "" "carol"

/-- The action of a block that is not stored. -/
theorem height_collision_mixes :
    ¬ ∀ (db : Database) (chainId : String) (extractor : AddressExtractor)
        (block : IndexableBlock), Collides chainId db block →
      (@insertBlock .plain db chainId block extractor).getD db = db := by
  intro h
  have hfirst : (@insertBlock .plain .empty "main" (.bare 0 "g" "")
      (.tierAOnly .empty)).any (fun db => getBlockHash db "main" 0 = some "g" ∧
        ((@insertBlock .plain db "main" secondGenesis (.tierAOnly .empty)).getD
          db).actions.rows.length ≠ db.actions.rows.length) = true := by decide
  obtain ⟨db, _, hdb⟩ := Option.any_eq_true _ _ |>.mp hfirst
  simp only [decide_eq_true_eq] at hdb
  have hsame := h db "main" (.tierAOnly .empty) secondGenesis ⟨"g", hdb.1, by decide⟩
  exact hdb.2 (by rw [hsame])

end Retracer
