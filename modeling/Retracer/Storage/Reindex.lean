import Retracer.Storage.AddressIndexes
import Retracer.Storage.Reads

/-! # Reindexing the addresses

`reindex_action_addresses` goes over the stored actions page by page. A page is read by one
statement and its address rows are written by a later one, so that a commit or a rollback
may stand between the two. `action_addresses` has no foreign key that would notice.
-/

namespace Retracer

open KeyedTable Execution

/-! ## One page -/

/-- `(block_height, index_in_block) > ($2, $3)`. -/
def beyond (after : Int × Int) (a : ActionsRow) : Bool :=
  after.1 < a.blockHeight ∨ a.blockHeight = after.1 ∧ after.2 < a.indexInBlock

theorem beyond_iff {after : Int × Int} {a : ActionsRow} :
    beyond after a = true ↔
      after.1 < a.blockHeight ∨ a.blockHeight = after.1 ∧ after.2 < a.indexInBlock := by
  simp [beyond]

def positionOf (a : ActionsRow) : Int × Int := (a.blockHeight, a.indexInBlock)

def reindexPageSize : Nat := 5000

/-- What one `SELECT` returns: rows of one chain, each identity once. -/
structure ReindexPage (chainId : String) where
  rows : List ActionsRow
  nodup : (rows.map key).Nodup
  chain : ∀ a ∈ rows, a.chainId = chainId

/-- What is left after a position. -/
def pending (db : Database) (chainId : String) (after : Int × Int) : List ActionsRow :=
  (db.actions.rows.filter fun a => a.chainId = chainId ∧ beyond after a = true).insertionSort
    byPosition

def pageRows (db : Database) (chainId : String) (after : Int × Int) : List ActionsRow :=
  (pending db chainId after).take reindexPageSize

theorem mem_pending {db : Database} {chainId : String} {after : Int × Int} {a : ActionsRow} :
    a ∈ pending db chainId after ↔
      a ∈ db.actions.rows ∧ a.chainId = chainId ∧ beyond after a = true := by
  rw [pending, List.mem_insertionSort, List.mem_filter, decide_eq_true_eq]

theorem mem_of_mem_pageRows {db : Database} {chainId : String} {after : Int × Int}
    {a : ActionsRow} (h : a ∈ pageRows db chainId after) :
    a ∈ db.actions.rows ∧ a.chainId = chainId ∧ beyond after a = true :=
  mem_pending.mp (List.mem_of_mem_take h)

def readPage (db : Database) (chainId : String) (after : Int × Int) : ReindexPage chainId where
  rows := pageRows db chainId after
  nodup := by
    have hfilter := db.actions.nodup.sublist
      ((List.filter_sublist (p := fun a => a.chainId = chainId ∧ beyond after a = true)
        (l := db.actions.rows)).map key)
    have hsorted := ((List.perm_insertionSort byPosition _).map key).nodup_iff.mpr hfilter
    exact hsorted.sublist ((List.take_sublist reindexPageSize _).map key)
  chain _ h := (mem_of_mem_pageRows h).2.1

def reindexRows (chainId : String) (extractor : AddressExtractor) (rows : List ActionsRow) :
    List ActionAddressesRow :=
  rows.flatMap fun a =>
    (extractor.resolve a.kind a.payload).map fun (address, role) =>
      { chainId, actionHash := a.actionHash, address, role := role.asStr
        blockHeight := a.blockHeight }

/-- The statement is skipped when there is no row to write. -/
def writePage (db : Database) (chainId : String) (extractor : AddressExtractor)
    (rows : List ActionsRow) : Database :=
  { db with
    actionAddresses := db.actionAddresses.insertMissing (reindexRows chainId extractor rows) }

/-- `rows_affected`. -/
def addedByPage (db : Database) (chainId : String) (extractor : AddressExtractor)
    (rows : List ActionsRow) : Nat :=
  (db.actionAddresses.inserted (reindexRows chainId extractor rows)).length

theorem reindexRows_page {chainId : String} (extractor : AddressExtractor)
    (page : ReindexPage chainId) :
    reindexRows chainId extractor page.rows = page.rows.flatMap (roleRows extractor) := by
  apply List.flatMap_congr
  intro a ha
  simp only [roleRows, rolePairs, List.map_map, page.chain a ha]
  rfl

/-! ## The whole of it -/

/-- The pages after a position, of any size. Each one moves the position up. -/
def reindexLoop (size : Nat) (chainId : String) (extractor : AddressExtractor) :
    Nat → Int × Int → Nat → Database → Option (Database × Nat)
  | 0, _, _, _ => none
  | fuel + 1, after, added, db =>
      let rows := (pending db chainId after).take size
      match rows.getLast? with
      | none => some (db, added)
      | some last =>
          reindexLoop size chainId extractor fuel (positionOf last)
            (added + addedByPage db chainId extractor rows) (writePage db chainId extractor rows)

/-- With the pages of the source. -/
def reindexFrom (chainId : String) (extractor : AddressExtractor) :
    Nat → Int × Int → Nat → Database → Option (Database × Nat) :=
  reindexLoop reindexPageSize chainId extractor

theorem reindexFrom_succ (chainId : String) (extractor : AddressExtractor) (fuel : Nat)
    (after : Int × Int) (added : Nat) (db : Database) :
    reindexFrom chainId extractor (fuel + 1) after added db =
      match (pageRows db chainId after).getLast? with
      | none => some (db, added)
      | some last =>
          reindexFrom chainId extractor fuel (positionOf last)
            (added + addedByPage db chainId extractor (pageRows db chainId after))
            (writePage db chainId extractor (pageRows db chainId after)) :=
  rfl

/-- Alone on the database. Each page but the last has an action, and no action comes twice,
so the rounds are enough. -/
def reindexActionAddresses (db : Database) (chainId : String) (extractor : AddressExtractor) :
    Option (Database × Nat) :=
  reindexFrom chainId extractor (db.actions.rows.length + 1) (-1, -1) 0 db

theorem beyond_trans {after : Int × Int} {a b : ActionsRow} (ha : beyond after a = true)
    (hb : beyond (positionOf a) b = true) : beyond after b = true := by
  rw [beyond_iff] at ha hb ⊢
  simp only [positionOf] at hb
  omega

theorem not_beyond_self (a : ActionsRow) : beyond (positionOf a) a = false := by
  simp [beyond, positionOf]

/-- Fewer rows are left after an action than after what came before it. -/
theorem countP_beyond_lt {rows : List ActionsRow} {after : Int × Int} {a : ActionsRow}
    (ha : a ∈ rows) (hbeyond : beyond after a = true) :
    rows.countP (beyond (positionOf a)) < rows.countP (beyond after) := by
  induction rows with
  | nil => cases ha
  | cons b rows ih =>
      have hmono : rows.countP (beyond (positionOf a)) ≤ rows.countP (beyond after) :=
        List.countP_mono_left fun c _ hc => beyond_trans hbeyond hc
      rw [List.countP_cons, List.countP_cons]
      rcases List.mem_cons.mp ha with rfl | hin
      · simp only [not_beyond_self, hbeyond, if_true, Bool.false_eq_true, if_false]
        omega
      · have hrest := ih hin
        have hb : (if beyond (positionOf a) b = true then 1 else 0) ≤
            if beyond after b = true then 1 else 0 := by
          split
          · rename_i hafter
            rw [if_pos (beyond_trans hbeyond hafter)]
          · omega
        omega

theorem reindexLoop_isSome (size : Nat) (chainId : String) (extractor : AddressExtractor)
    {fuel : Nat} {db : Database} {after : Int × Int} {added : Nat}
    (hfuel : db.actions.rows.countP (beyond after) < fuel) :
    (reindexLoop size chainId extractor fuel after added db).isSome := by
  induction fuel generalizing db after added with
  | zero => omega
  | succ fuel ih =>
      rw [reindexLoop]
      split
      · rfl
      · rename_i last hlast
        have hin := List.mem_of_mem_take (List.mem_of_getLast? hlast)
        obtain ⟨hstored, _, hbeyond⟩ := mem_pending.mp hin
        have hless := countP_beyond_lt hstored hbeyond
        apply ih
        change db.actions.rows.countP (beyond (positionOf last)) < fuel
        omega

/-- What every page keeps is kept by the loop. -/
theorem reindexFrom_preserves {I : Database → Prop} {chainId : String}
    {extractor : AddressExtractor} {fuel : Nat} {after : Int × Int} {added : Nat} {db : Database}
    {result : Database × Nat}
    (hpage : ∀ mid rows, I mid → I (writePage mid chainId extractor rows)) (h : I db)
    (hrun : reindexFrom chainId extractor fuel after added db = some result) : I result.1 := by
  induction fuel generalizing after added db with
  | zero => cases hrun
  | succ fuel ih =>
      rw [reindexFrom_succ] at hrun
      cases hlast : (pageRows db chainId after).getLast? with
      | none =>
          simp only [hlast, Option.some.injEq] at hrun
          rw [← hrun]
          exact h
      | some last =>
          simp only [hlast] at hrun
          exact ih (hpage db _ h) hrun

/-- The loop ends. -/
theorem reindexActionAddresses_isSome (db : Database) (chainId : String)
    (extractor : AddressExtractor) : (reindexActionAddresses db chainId extractor).isSome := by
  apply reindexLoop_isSome
  have hcount := List.countP_le_length (p := beyond (-1, -1)) (l := db.actions.rows)
  omega

/-! ## Beside ingestion -/

/-- A reindex in progress: the position it has read up to and the page not yet written. -/
structure ReindexTask where
  chainId : String
  extractor : AddressExtractor
  after : Int × Int := (-1, -1)
  page : Option (ReindexPage chainId) := none

structure Reindexing where
  db : Database := .empty
  task : Option ReindexTask := none

/-- The ingestion of every chain and one reindex, statement by statement. What is committed
may come from an earlier process with another schema. -/
inductive ReindexOp where
  | insert (chainId : String) (extractor : AddressExtractor) (blocks : List IndexableBlock)
  | rollback (chainId : String) (height : Int)
  | start (chainId : String) (extractor : AddressExtractor)
  | read
  | write

def ReindexTask.readNext (db : Database) (task : ReindexTask) : Option ReindexTask :=
  let page := readPage db task.chainId task.after
  page.rows.getLast?.map fun last => { task with after := positionOf last, page := some page }

section

variable [Postgres]

def reindexStep (s : Reindexing) : ReindexOp → Option Reindexing
  | .insert chainId extractor blocks =>
      (insertBlocks s.db chainId blocks extractor).map fun db => { s with db }
  | .rollback chainId height => some { s with db := (rollbackTo s.db chainId height).1 }
  | .start chainId extractor =>
      match s.task with
      | none => some { s with task := some { chainId, extractor } }
      | some _ => none
  | .read =>
      match s.task with
      | some task =>
          match task.page with
          | none => some { s with task := task.readNext s.db }
          | some _ => none
      | none => none
  | .write =>
      match s.task with
      | some task =>
          match task.page with
          | some page =>
              some
                { db := writePage s.db task.chainId task.extractor page.rows
                  task := some { task with page := none } }
          | none => none
      | none => none

end

section

variable [Postgres] {s s' : Reindexing}

theorem reindexStep_start {chainId : String} {extractor : AddressExtractor}
    (hs : reindexStep s (.start chainId extractor) = some s') : s'.db = s.db := by
  simp only [reindexStep] at hs
  split at hs
  · cases hs
    rfl
  · cases hs

theorem reindexStep_read (hs : reindexStep s .read = some s') : s'.db = s.db := by
  simp only [reindexStep] at hs
  split at hs
  · split at hs
    · cases hs
      rfl
    · cases hs
  · cases hs

theorem reindexStep_write (hs : reindexStep s .write = some s') :
    ∃ task, s.task = some task ∧ ∃ page, task.page = some page ∧
      s'.db = writePage s.db task.chainId task.extractor page.rows := by
  simp only [reindexStep] at hs
  split at hs
  · next task htask =>
      split at hs
      · next page hpage =>
          cases hs
          exact ⟨task, htask, page, hpage, rfl⟩
      · cases hs
  · cases hs

end

/-- Only a rollback takes actions away. -/
theorem actions_reindexStep [Postgres] {s s' : Reindexing} {op : ReindexOp}
    (hs : reindexStep s op = some s') :
    s.db.actions.rows <+: s'.db.actions.rows ∨ ∃ chainId height, op = .rollback chainId height ∧
      s'.db.actions = s.db.actions.deleteWhere (above chainId height) := by
  cases op with
  | insert chainId extractor blocks =>
      obtain ⟨db, hdb, rfl⟩ := Option.map_eq_some_iff.mp hs
      left
      simp only [(insertBlocks_indexes hdb).1]
      exact Table.insertMissing_extends _ _
  | rollback chainId height =>
      cases hs
      exact Or.inr ⟨chainId, height, rfl, rfl⟩
  | start chainId extractor =>
      rw [reindexStep_start hs]
      exact Or.inl (List.prefix_refl _)
  | read =>
      rw [reindexStep_read hs]
      exact Or.inl (List.prefix_refl _)
  | write =>
      obtain ⟨task, _, page, _, hdb⟩ := reindexStep_write hs
      rw [hdb]
      exact Or.inl (List.prefix_refl _)

/-! ## Rows without an action -/

/-- Every address row refers to an action stored at its height. -/
def AddressesStored (db : Database) : Prop :=
  ∀ r ∈ db.actionAddresses.rows, ∃ a ∈ db.actions.rows,
    a.chainId = r.chainId ∧ a.actionHash = r.actionHash ∧ a.blockHeight = r.blockHeight

instance (db : Database) : Decidable (AddressesStored db) :=
  inferInstanceAs (Decidable (∀ r ∈ db.actionAddresses.rows, _))

/-- The address rows a batch adds are at the height of the action, stored or of the batch,
that has their identity. -/
def BatchStored (db : Database) (extractor : AddressExtractor) (batch : List ActionsRow) : Prop :=
  ∀ r ∈ db.actionAddresses.inserted (batch.flatMap (roleRows extractor)),
    ∀ a ∈ (db.actions.rows ++ batch).find? fun a => decide (key a = (r.chainId, r.actionHash)),
      a.blockHeight = r.blockHeight

/-- An action that a page still has to index is stored where the page found it. -/
def PageStored (db : Database) (extractor : AddressExtractor) (rows : List ActionsRow) : Prop :=
  ∀ a ∈ rows, (∃ r ∈ roleRows extractor a, key r ∉ db.actionAddresses.rows.map key) →
    ∃ b ∈ db.actions.rows, key b = key a ∧ b.blockHeight = a.blockHeight

/-- The condition on a step. -/
def KeepsAddressesStored (s : Reindexing) (op : ReindexOp) (_ : Reindexing) : Prop :=
  match op with
  | .insert chainId extractor blocks =>
      BatchStored s.db extractor (batchActions chainId extractor blocks)
  | .write =>
      ∀ task ∈ s.task, ∀ page ∈ task.page, PageStored s.db task.extractor page.rows
  | _ => True

/-! ## Each step -/

section

variable {db db' : Database}

/-- What an insert of address rows has to add. -/
theorem addressesStored_insertMissing {rows : List ActionAddressesRow}
    (h : AddressesStored db) (hactions : db.actions.rows ⊆ db'.actions.rows)
    (haddresses : db'.actionAddresses = db.actionAddresses.insertMissing rows) :
    AddressesStored db' ↔
      ∀ r ∈ db.actionAddresses.inserted rows, ∃ a ∈ db'.actions.rows,
        a.chainId = r.chainId ∧ a.actionHash = r.actionHash ∧ a.blockHeight = r.blockHeight := by
  have hrows : db'.actionAddresses.rows =
      db.actionAddresses.rows ++ db.actionAddresses.inserted rows := by
    rw [haddresses, Table.rows_insertMissing]
  constructor
  · intro h' r hr
    apply h'
    rw [hrows]
    exact List.mem_append_right _ hr
  · intro hnew r hr
    rw [hrows, List.mem_append] at hr
    rcases hr with hold | hadded
    · obtain ⟨a, ha, hrest⟩ := h r hold
      exact ⟨a, hactions ha, hrest⟩
    · exact hnew r hadded

theorem addressesStored_insertBlocks [Postgres] {chainId : String} {extractor : AddressExtractor}
    {blocks : List IndexableBlock} (h : AddressesStored db)
    (hdb : insertBlocks db chainId blocks extractor = some db') :
    AddressesStored db' ↔ BatchStored db extractor (batchActions chainId extractor blocks) := by
  obtain ⟨hactions, _, haddresses⟩ := insertBlocks_indexes hdb
  have hkept : db.actions.rows ⊆ db'.actions.rows := by
    rw [hactions]
    exact (Table.insertMissing_extends _ _).subset
  rw [addressesStored_insertMissing h hkept haddresses]
  -- the action of an added row is the first one of its identity
  have hfirst : ∀ r ∈ db.actionAddresses.inserted
      ((batchActions chainId extractor blocks).flatMap (roleRows extractor)),
      ∃ a, (db.actions.rows ++ batchActions chainId extractor blocks).find?
          (fun a => decide (key a = (r.chainId, r.actionHash))) = some a ∧
        a ∈ db'.actions.rows ∧ key a = (r.chainId, r.actionHash) := by
    intro r hr
    obtain ⟨b, hb, hrow⟩ := List.mem_flatMap.mp (Table.mem_inserted hr).1
    obtain ⟨p, _, rfl⟩ := List.mem_map.mp hrow
    obtain ⟨a, ha, hmem, hkey⟩ := first_stored db.actions hb
    rw [← hactions] at hmem
    exact ⟨a, ha, hmem, hkey⟩
  constructor
  · intro hstored r hr a ha
    obtain ⟨b, hb, hchain, hhash, hheight⟩ := hstored r hr
    obtain ⟨a', ha', hmem, hkey⟩ := hfirst r hr
    cases ha'.symm.trans ha
    have hsame : b = a := by
      apply db'.actions.eq_of_key_eq hb hmem
      rw [hkey, ← hchain, ← hhash]
      rfl
    rw [← hsame]
    exact hheight
  · intro hbatch r hr
    obtain ⟨a, ha, hmem, hkey⟩ := hfirst r hr
    simp only [key, Prod.mk.injEq] at hkey
    exact ⟨a, hmem, hkey.1, hkey.2, hbatch r hr a ha⟩

theorem addressesStored_rollbackTo (h : AddressesStored db) (chainId : String) (height : Int) :
    AddressesStored (rollbackTo db chainId height).1 := by
  intro r hr
  obtain ⟨hin, hkept⟩ := List.mem_filter.mp hr
  obtain ⟨a, ha, hchain, hhash, hheight⟩ := h r hin
  refine ⟨a, List.mem_filter.mpr ⟨ha, ?_⟩, hchain, hhash, hheight⟩
  rw [above_congr (r := r) (s := a) hchain hheight]
  exact hkept

theorem addressesStored_writePage {chainId : String} {extractor : AddressExtractor}
    (h : AddressesStored db) (page : ReindexPage chainId) :
    AddressesStored (writePage db chainId extractor page.rows) ↔
      PageStored db extractor page.rows := by
  have haddresses : (writePage db chainId extractor page.rows).actionAddresses =
      db.actionAddresses.insertMissing (page.rows.flatMap (roleRows extractor)) := by
    rw [writePage, reindexRows_page]
  have hactions : db.actions.rows ⊆ (writePage db chainId extractor page.rows).actions.rows :=
    List.Subset.refl _
  rw [addressesStored_insertMissing h hactions haddresses]
  constructor
  · intro hstored a ha hmissing
    obtain ⟨r, hr, hfree⟩ := hmissing
    -- the row added under the key of `r` is one of the same action
    have hheld := db.actionAddresses.holds_insertMissing (page.rows.flatMap (roleRows extractor))
      r (List.mem_flatMap.mpr ⟨a, ha, hr⟩)
    rw [Table.rows_insertMissing, List.map_append, List.mem_append] at hheld
    obtain ⟨added, hadded, hkey⟩ := List.mem_map.mp (hheld.resolve_left hfree)
    obtain ⟨a', ha', hrow⟩ := List.mem_flatMap.mp (Table.mem_inserted hadded).1
    obtain ⟨b, hb, hchain, hhash, hheight⟩ := hstored added hadded
    obtain ⟨p, _, rfl⟩ := List.mem_map.mp hr
    obtain ⟨p', _, rfl⟩ := List.mem_map.mp hrow
    simp only [key, Prod.mk.injEq] at hkey
    have hsame : a' = a := by
      apply List.inj_on_of_nodup_map page.nodup ha' ha
      simp only [key, hkey.1, hkey.2.1]
    subst hsame
    refine ⟨b, hb, ?_, hheight⟩
    simp only [key, hchain, hhash]
  · intro hpage r hr
    obtain ⟨hin, hfree⟩ := Table.mem_inserted hr
    obtain ⟨a, ha, hrow⟩ := List.mem_flatMap.mp hin
    obtain ⟨b, hb, hkey, hheight⟩ := hpage a ha ⟨r, hrow, hfree⟩
    obtain ⟨p, _, rfl⟩ := List.mem_map.mp hrow
    simp only [key, Prod.mk.injEq] at hkey
    exact ⟨b, hb, hkey.1, hkey.2, hheight⟩

end

/-! ## Runs -/

/-- In every state reached each address row refers to an action stored at its height,
exactly when no batch stores an identity at one height and names its addresses at another,
and no page is written whose actions have gone. -/
theorem reindex_keeps_addresses_stored [Postgres] (ops : List ReindexOp) :
    Always reindexStep (fun _ _ s => AddressesStored s.db) {} ops ↔
      Always reindexStep KeepsAddressesStored {} ops := by
  apply always_iff (I := fun s : Reindexing => AddressesStored s.db)
  · intro s op s' h hs
    cases op with
    | insert chainId extractor blocks =>
        obtain ⟨db, hdb, rfl⟩ := Option.map_eq_some_iff.mp hs
        exact addressesStored_insertBlocks h hdb
    | rollback chainId height =>
        cases hs
        exact iff_of_true (addressesStored_rollbackTo h chainId height) trivial
    | start chainId extractor =>
        rw [reindexStep_start hs]
        exact iff_of_true h trivial
    | read =>
        rw [reindexStep_read hs]
        exact iff_of_true h trivial
    | write =>
        obtain ⟨task, htask, page, hpage, hdb⟩ := reindexStep_write hs
        simp only [hdb, KeepsAddressesStored, htask, Option.mem_some_iff, forall_eq', hpage]
        exact addressesStored_writePage h page
  · intro r hr
    cases hr

/-- A page is written as it should be when, since it was read, its chain was not rolled
back to below it. -/
theorem pageStored_of_undisturbed [Postgres] {s t : Reindexing} {chainId : String}
    {extractor : AddressExtractor} {page : ReindexPage chainId} {ops : List ReindexOp}
    (hread : ∀ a ∈ page.rows, a ∈ s.db.actions.rows)
    (hops : ∀ op ∈ ops, ∀ height, op = .rollback chainId height →
      ∀ a ∈ page.rows, a.blockHeight ≤ height)
    (hrun : exec reindexStep s ops = some t) : PageStored t.db extractor page.rows := by
  have hkept : ∀ a ∈ page.rows, a ∈ t.db.actions.rows := by
    apply always_invariant (I := fun s : Reindexing => ∀ a ∈ page.rows, a ∈ s.db.actions.rows)
      ?_ hread (always_of_forall hops) hrun
    intro s op s' h hs hop a ha
    rcases actions_reindexStep hs with hextends | ⟨c, height, rfl, hactions⟩
    · exact hextends.subset (h a ha)
    · rw [hactions]
      refine mem_deleteAbove.mpr ⟨h a ha, ?_⟩
      rintro ⟨hchain, hheight⟩
      have hsame : c = chainId := hchain.symm.trans (page.chain a ha)
      have hbelow : a.blockHeight ≤ height := hop height (by rw [hsame]) a ha
      exact absurd hheight (Int.not_lt.mpr hbelow)
  intro a ha _
  exact ⟨a, hkept a ha, rfl, rfl⟩

/-- A schema under which a transfer names its receiver. -/
def receiverSchema : AddressExtractor :=
  .tierAOnly ⟨fun kind => if kind = "Transfer" then some [⟨"$.to", .to⟩] else none⟩

/-- A page is read, its block is rolled back, and the page is written: the row of the
receiver is back, its action is not. -/
theorem reindex_outlives_action :
    ¬ ∀ ops : List ReindexOp,
      Always (@reindexStep .plain) (fun _ _ s => AddressesStored s.db) {} ops := by
  intro h
  have hrun := h
    [.insert "main" receiverSchema [.bare 0 "g" "", reusedIdentity 1 "a1" "g" "alice"],
      .start "main" receiverSchema, .read, .rollback "main" 0, .write]
  revert hrun
  decide

end Retracer
