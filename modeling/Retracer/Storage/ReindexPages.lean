import Retracer.Storage.HistoryPages
import Retracer.Storage.Maintained
import Retracer.Storage.Reindex

/-! # A whole reindex

Alone on the database, the loop visits every action of the chain once, whatever the size of
its pages. What it leaves is one insert of all the pairs, so the second run finds nothing to
add, and neither does a run with the schema of the ingestion.
-/

namespace Retracer

open KeyedTable Sorting Paging Execution

/-- `reindex_action_addresses` with the size of its pages left open. -/
def reindexPaged (size : Nat) (db : Database) (chainId : String) (extractor : AddressExtractor) :
    Option (Database × Nat) :=
  reindexLoop size chainId extractor (db.actions.rows.length + 1) (-1, -1) 0 db

theorem reindexActionAddresses_eq (db : Database) (chainId : String)
    (extractor : AddressExtractor) :
    reindexActionAddresses db chainId extractor =
      reindexPaged reindexPageSize db chainId extractor :=
  rfl

/-! ## Pages put together -/

section

variable {db : Database} {chainId : String} {extractor : AddressExtractor}

theorem addedByPage_nil : addedByPage db chainId extractor [] = 0 := by
  simp [addedByPage, reindexRows, Table.inserted]

theorem writePage_append (rows more : List ActionsRow) :
    writePage db chainId extractor (rows ++ more) =
      writePage (writePage db chainId extractor rows) chainId extractor more := by
  simp only [writePage, reindexRows, List.flatMap_append, Table.insertMissing_append]

/-- The count of a page is what its table has grown by. -/
theorem addedByPage_add (db : Database) (chainId : String) (extractor : AddressExtractor)
    (rows : List ActionsRow) :
    db.actionAddresses.rows.length + addedByPage db chainId extractor rows =
      (writePage db chainId extractor rows).actionAddresses.rows.length := by
  rw [writePage, addedByPage, Table.rows_insertMissing, List.length_append]

theorem addedByPage_append (rows more : List ActionsRow) :
    addedByPage db chainId extractor (rows ++ more) =
      addedByPage db chainId extractor rows +
        addedByPage (writePage db chainId extractor rows) chainId extractor more := by
  have hfirst := addedByPage_add db chainId extractor rows
  have hsecond := addedByPage_add (writePage db chainId extractor rows) chainId extractor more
  have hboth := addedByPage_add db chainId extractor (rows ++ more)
  rw [writePage_append] at hboth
  omega

/-! ## What a page leaves -/

/-- The second action comes after the first. -/
def Precedes (a b : ActionsRow) : Prop := beyond (positionOf a) b = true

instance : DecidableRel Precedes := fun a b =>
  inferInstanceAs (Decidable (beyond (positionOf a) b = true))

theorem precedes_iff {a b : ActionsRow} : Precedes a b ↔ a.blockHeight < b.blockHeight ∨
    b.blockHeight = a.blockHeight ∧ (a.indexInBlock : Int) < b.indexInBlock :=
  beyond_iff

instance : Std.Asymm Precedes where
  asymm a b hab hba := by
    rw [precedes_iff] at hab hba
    omega

/-- Unique positions make the order strict. -/
theorem pairwise_pending (hpositions : PositionsUnique db) (after : Int × Int) :
    (pending db chainId after).Pairwise Precedes := by
  have hnodup : (pending db chainId after).Nodup :=
    (List.perm_insertionSort _ _).nodup_iff.mpr (db.actions.nodup_rows.filter _)
  have hboth := (List.pairwise_insertionSort byPosition _).and hnodup
  apply hboth.imp_of_mem
  rintro a b ha hb ⟨⟨hle, hindex⟩, hne⟩
  obtain ⟨ha, hchain, _⟩ := mem_pending.mp ha
  obtain ⟨hb, hchain', _⟩ := mem_pending.mp hb
  rw [precedes_iff]
  by_cases hheight : a.blockHeight = b.blockHeight
  · have hdiffer : a.indexInBlock ≠ b.indexInBlock := fun hsame =>
      hne (db.actions.eq_of_key_eq ha hb
        (hpositions a ha b hb (hchain.trans hchain'.symm) hheight hsame))
    have hle : (a.indexInBlock : Int) ≤ b.indexInBlock := hindex hheight
    omega
  · omega

/-- After the last row of a page comes what the page has left. -/
theorem pending_page (hpositions : PositionsUnique db) {after : Int × Int} {size : Nat}
    {last : ActionsRow} (hlast : ((pending db chainId after).take size).getLast? = some last) :
    pending db chainId (positionOf last) = (pending db chainId after).drop size := by
  have hordered : (pending db chainId after).Pairwise Precedes := pairwise_pending hpositions after
  rw [← List.take_append_drop size (pending db chainId after)] at hordered
  have hbehind := behind_append Precedes hordered
  rw [hlast, List.take_append_drop] at hbehind
  have hin := (mem_pending.mp (List.mem_of_mem_take (List.mem_of_getLast? hlast))).2.2
  rw [← hbehind, behind, pending, pending, filter_insertionSort, List.filter_filter]
  congr 1
  apply List.filter_congr
  intro a _
  rw [Bool.eq_iff_iff]
  simp only [Bool.and_eq_true, decide_eq_true_eq, Precedes]
  constructor
  · rintro ⟨hchain, hbeyond⟩
    exact ⟨decide_eq_true hbeyond, hchain, beyond_trans hin hbeyond⟩
  · rintro ⟨hbeyond, hchain, _⟩
    exact ⟨hchain, of_decide_eq_true hbeyond⟩

/-- The loop writes what is left, as one page. -/
theorem reindexLoop_eq {size : Nat} (hsize : 1 ≤ size) (hpositions : PositionsUnique db)
    {fuel : Nat} {after : Int × Int} {added : Nat}
    (hfuel : (pending db chainId after).length < fuel) :
    reindexLoop size chainId extractor fuel after added db =
      some (writePage db chainId extractor (pending db chainId after),
        added + addedByPage db chainId extractor (pending db chainId after)) := by
  induction fuel generalizing after added db with
  | zero => omega
  | succ fuel ih =>
      rw [reindexLoop]
      cases hlast : ((pending db chainId after).take size).getLast? with
      | none =>
          have hnone : pending db chainId after = [] := by
            rw [List.getLast?_eq_none_iff, List.take_eq_nil_iff] at hlast
            exact hlast.resolve_left (by omega)
          rw [hnone, addedByPage_nil]
          rfl
      | some last =>
          have hrest := pending_page hpositions hlast
          have hmore : 0 < (pending db chainId after).length :=
            List.length_pos_of_mem (List.mem_of_mem_take (List.mem_of_getLast? hlast))
          have hsame : pending (writePage db chainId extractor ((pending db chainId after).take
              size)) chainId (positionOf last) = (pending db chainId after).drop size := hrest
          dsimp only
          rw [ih, hsame, ← writePage_append, Nat.add_assoc, ← addedByPage_append,
            List.take_append_drop]
          · exact hpositions
          · rw [hsame, List.length_drop]
            omega

/-! ## What is added -/

theorem mem_reindexRows {rows : List ActionsRow} {r : ActionAddressesRow} :
    r ∈ reindexRows chainId extractor rows ↔
      ∃ a ∈ rows, ∃ p ∈ extractor.resolve a.kind a.payload,
        r = { chainId, actionHash := a.actionHash, address := p.1, role := p.2.asStr
              blockHeight := a.blockHeight } := by
  simp only [reindexRows, List.mem_flatMap, List.mem_map, eq_comm (b := r)]

theorem mem_pending_start (hheights : ∀ a ∈ db.actions.rows, 0 ≤ a.blockHeight)
    {a : ActionsRow} :
    a ∈ pending db chainId (-1, -1) ↔ a ∈ db.actions.rows ∧ a.chainId = chainId := by
  rw [mem_pending]
  apply and_congr_right
  intro ha
  have hheight := hheights a ha
  rw [and_iff_left]
  rw [beyond_iff]
  omega

/-- Two pairs of one key are of one action, so of one height. -/
theorem eq_of_key_reindexRows {rows : List ActionsRow} (hrows : ∀ a ∈ rows,
    a ∈ db.actions.rows ∧ a.chainId = chainId) {r s : ActionAddressesRow}
    (hr : r ∈ reindexRows chainId extractor rows) (hs : s ∈ reindexRows chainId extractor rows)
    (hkey : key r = key s) : r = s := by
  obtain ⟨a, ha, p, _, rfl⟩ := mem_reindexRows.mp hr
  obtain ⟨b, hb, q, _, rfl⟩ := mem_reindexRows.mp hs
  simp only [key, Prod.mk.injEq, true_and] at hkey
  obtain ⟨hhash, haddress, hrole⟩ := hkey
  obtain ⟨ha, hchain⟩ := hrows a ha
  obtain ⟨hb, hchain'⟩ := hrows b hb
  have hsame : a = b := by
    apply db.actions.eq_of_key_eq ha hb
    simp only [key, hchain, hchain', hhash]
  subst hsame
  rw [haddress, hrole]

theorem mem_writePage {rows : List ActionsRow} (hrows : ∀ a ∈ rows,
    a ∈ db.actions.rows ∧ a.chainId = chainId) {r : ActionAddressesRow} :
    r ∈ (writePage db chainId extractor rows).actionAddresses.rows ↔
      r ∈ db.actionAddresses.rows ∨ key r ∉ db.actionAddresses.rows.map key ∧
        ∃ a ∈ rows, ∃ p ∈ extractor.resolve a.kind a.payload,
          r = { chainId, actionHash := a.actionHash, address := p.1, role := p.2.asStr
                blockHeight := a.blockHeight } := by
  rw [writePage, Table.mem_insertMissing_iff, mem_reindexRows, and_comm (a := ∃ _, _)]
  intro r hr s hs hkey
  exact eq_of_key_reindexRows hrows hr hs hkey

/-- Rows that are all there are not written. -/
theorem writePage_of_holds {rows : List ActionsRow}
    (h : db.actionAddresses.Holds (reindexRows chainId extractor rows)) :
    writePage db chainId extractor rows = db ∧ addedByPage db chainId extractor rows = 0 := by
  constructor
  · rw [writePage, Table.insertMissing_of_holds h]
  · rw [addedByPage, Table.inserted_of_holds h, List.length_nil]

theorem writePage_again (rows : List ActionsRow) :
    writePage (writePage db chainId extractor rows) chainId extractor rows =
        writePage db chainId extractor rows ∧
      addedByPage (writePage db chainId extractor rows) chainId extractor rows = 0 := by
  have hheld : (writePage db chainId extractor rows).actionAddresses.Holds
      (reindexRows chainId extractor rows) := db.actionAddresses.holds_insertMissing _
  exact writePage_of_holds hheld

/-- With every pair in the index the loop only reads. -/
theorem reindexLoop_of_holds (h : ∀ a ∈ db.actions.rows, a.chainId = chainId →
      db.actionAddresses.Holds (reindexRows chainId extractor [a]))
    {size fuel : Nat} {after : Int × Int} {added : Nat} {result : Database × Nat}
    (hrun : reindexLoop size chainId extractor fuel after added db = some result) :
    result = (db, added) := by
  induction fuel generalizing after added with
  | zero => cases hrun
  | succ fuel ih =>
      rw [reindexLoop] at hrun
      have hpage : db.actionAddresses.Holds
          (reindexRows chainId extractor ((pending db chainId after).take size)) := by
        intro r hr
        obtain ⟨a, ha, p, hp, hrow⟩ := mem_reindexRows.mp hr
        obtain ⟨hstored, hchain, _⟩ := mem_pending.mp (List.mem_of_mem_take ha)
        exact h a hstored hchain r
          (mem_reindexRows.mpr ⟨a, List.mem_singleton_self a, p, hp, hrow⟩)
      obtain ⟨hwrite, hadded⟩ := writePage_of_holds hpage
      cases hlast : ((pending db chainId after).take size).getLast? with
      | none =>
          simp only [hlast, Option.some.injEq] at hrun
          exact hrun.symm
      | some last =>
          simp only [hlast, hwrite, hadded] at hrun
          exact ih hrun

end

/-! ## After the ingestion -/

/-- Every pair of a stored action has a row that a rollback takes away with the action at
the latest. `next` bounds the heights of a chain. -/
structure PairsIndexed (extractors : String → AddressExtractor) (next : String → Nat)
    (db : Database) : Prop where
  below : ∀ r ∈ db.actionAddresses.rows, r.blockHeight < next r.chainId
  held : ∀ a ∈ db.actions.rows, ∀ r ∈ roleRows (extractors a.chainId) a,
    ∃ s ∈ db.actionAddresses.rows, key s = key r ∧ s.blockHeight ≤ a.blockHeight

section

variable [Postgres] {extractors : String → AddressExtractor} {next : String → Nat}
  {db db' : Database} {chainId : String}

theorem PairsIndexed.insertBlockInTx {block : IndexableBlock}
    (h : PairsIndexed extractors next db)
    (hdb : insertBlockInTx chainId (extractors chainId) db block = some db')
    (hheight : block.height = next chainId) :
    PairsIndexed extractors (Function.update next chainId (next chainId + 1)) db' := by
  have hblocks : Retracer.insertBlocks db chainId [block] (extractors chainId) = some db' := by
    rw [insertBlocks_cons, hdb]
    rfl
  obtain ⟨hactions, _, hroles⟩ := insertBlocks_indexes hblocks
  have hstamps := (addsRows_of_insert hdb).stamped
  have hadded : ∀ r ∈ (batchActions chainId (extractors chainId) [block]).flatMap
      (roleRows (extractors chainId)), r.chainId = chainId ∧ r.blockHeight = block.height := by
    intro r hr
    obtain ⟨a, ha, hrow⟩ := List.mem_flatMap.mp hr
    obtain ⟨p, _, rfl⟩ := List.mem_map.mp hrow
    exact hstamps a ha
  have hbelow : ∀ r ∈ db'.actionAddresses.rows, r.blockHeight < next r.chainId ∨
      r.chainId = chainId ∧ r.blockHeight = block.height := by
    intro r hr
    rw [hroles] at hr
    exact (Table.mem_of_mem_insertMissing hr).imp (h.below r) (hadded r)
  constructor
  · intro r hr
    by_cases hchain : r.chainId = chainId
    · rw [hchain, Function.update_self]
      rcases hbelow r hr with hold | ⟨_, hnew⟩
      · rw [hchain] at hold
        omega
      · omega
    · rw [Function.update_of_ne hchain]
      exact (hbelow r hr).resolve_right fun hnew => hchain hnew.1
  · intro a ha r hr
    rw [hactions] at ha
    rcases Table.mem_of_mem_insertMissing ha with hold | hnew
    · obtain ⟨s, hs, hkey, hle⟩ := h.held a hold r hr
      rw [hroles]
      exact ⟨s, (Table.insertMissing_extends _ _).subset hs, hkey, hle⟩
    · obtain ⟨hchain, hat⟩ := hstamps a hnew
      rw [hchain] at hr
      have hin : r ∈ (batchActions chainId (extractors chainId) [block]).flatMap
          (roleRows (extractors chainId)) := List.mem_flatMap.mpr ⟨a, hnew, hr⟩
      obtain ⟨s, hs, hkey⟩ := List.mem_map.mp (db.actionAddresses.holds_insertMissing _ r hin)
      rw [← hroles] at hs
      refine ⟨s, hs, hkey, ?_⟩
      have hsame : s.chainId = chainId :=
        (congrArg Prod.fst hkey).trans (hadded r hin).1
      rcases hbelow s hs with hold | ⟨_, hnew⟩
      · rw [hsame] at hold
        omega
      · omega

omit [Postgres] in
theorem PairsIndexed.rollbackTo (h : PairsIndexed extractors next db) (height : Int) :
    PairsIndexed extractors
      (Function.update next chainId (min (next chainId) (height + 1).toNat))
      (rollbackTo db chainId height).1 := by
  constructor
  · intro r hr
    obtain ⟨hin, hkept⟩ := mem_deleteAbove.mp hr
    have hlt := h.below r hin
    by_cases hchain : r.chainId = chainId
    · have hle : ¬ height < r.blockHeight := fun hgt => hkept ⟨hchain, hgt⟩
      rw [hchain] at hlt ⊢
      rw [Function.update_self]
      omega
    · rw [Function.update_of_ne hchain]
      exact hlt
  · intro a ha r hr
    obtain ⟨hin, hkept⟩ := mem_deleteAbove.mp ha
    obtain ⟨s, hs, hkey, hle⟩ := h.held a hin r hr
    refine ⟨s, mem_deleteAbove.mpr ⟨hs, ?_⟩, hkey, hle⟩
    rintro ⟨hchain, hgt⟩
    obtain ⟨p, _, rfl⟩ := List.mem_map.mp hr
    have hsame : s.chainId = a.chainId := congrArg Prod.fst hkey
    apply hkept
    exact ⟨hsame.symm.trans hchain, Int.lt_of_lt_of_le hgt hle⟩

omit [Postgres] in
theorem pairsIndexed_empty : PairsIndexed extractors (fun _ => 0) .empty :=
  ⟨(fun _ hr => nomatch hr), fun _ ha => nomatch ha⟩

theorem pairsIndexed_run {ops : List WriteOp} {s : ChainsState}
    (hrun : exec (consecutiveStep extractors) {} ops = some s) :
    PairsIndexed extractors s.next s.db := by
  have hkept : KeptByConsecutive extractors (fun _ _ => True) (PairsIndexed extractors) :=
    { empty := pairsIndexed_empty
      block := fun _ _ _ _ _ h hdb hheight _ => h.insertBlockInTx hdb hheight
      rollback := fun _ _ _ height h => h.rollbackTo height }
  exact hkept.run (fun _ _ _ _ _ => trivial) hrun

end

/-- What the ingestion of a schema leaves: of blocks one after the other with rollbacks between
them, or of blocks in any order whose identities stay apart. -/
inductive Ingested [Postgres] (extractors : String → AddressExtractor) : Database → Prop where
  | consecutive {ops : List WriteOp} {s : ChainsState}
      (hrun : exec (consecutiveStep extractors) {} ops = some s) : Ingested extractors s.db
  | agreeing {ops : List WriteOp} {db : Database}
      (hagree : Always (writeStep extractors) (fun _ _ db => IndexesAgree extractors db) .empty
        ops) (hrun : exec (writeStep extractors) .empty ops = some db) : Ingested extractors db

theorem Ingested.holds [Postgres] {extractors : String → AddressExtractor} {db : Database}
    (h : Ingested extractors db) {a : ActionsRow} (ha : a ∈ db.actions.rows) :
    db.actionAddresses.Holds (reindexRows a.chainId (extractors a.chainId) [a]) := by
  intro r hr
  have hrow : r ∈ roleRows (extractors a.chainId) a := by
    obtain ⟨b, hb, p, hp, rfl⟩ := mem_reindexRows.mp hr
    obtain rfl := List.mem_singleton.mp hb
    exact List.mem_map.mpr ⟨(p.1, p.2.asStr), List.mem_map_of_mem hp, rfl⟩
  cases h with
  | consecutive hrun =>
      obtain ⟨t, ht, hkey, _⟩ := (pairsIndexed_run hrun).held a ha r hrow
      exact List.mem_map.mpr ⟨t, ht, hkey⟩
  | agreeing hagree hrun =>
      exact List.mem_map_of_mem ((indexesComplete_reachable hagree hrun).roles a ha r hrow)

/-! ## The whole run -/

theorem reindexPaged_eq {size : Nat} (hsize : 1 ≤ size) {db : Database}
    (hpositions : PositionsUnique db) (chainId : String) (extractor : AddressExtractor) :
    reindexPaged size db chainId extractor =
      some (writePage db chainId extractor (pending db chainId (-1, -1)),
        addedByPage db chainId extractor (pending db chainId (-1, -1))) := by
  rw [reindexPaged, reindexLoop_eq hsize hpositions, Nat.zero_add]
  rw [pending, List.length_insertionSort]
  exact Nat.lt_succ_of_le (List.length_filter_le _ _)

/-- On a store with unique positions the loop ends, whatever the size of its pages, and adds
what the schema says of the stored actions, under the keys that were free. The next run adds
nothing, and a run with the schema of the ingestion never does. -/
theorem reindex_complete [Postgres] {size : Nat} (hsize : 1 ≤ size) :
    (∀ (db : Database) (chainId : String) (extractor : AddressExtractor),
      PositionsUnique db → (∀ a ∈ db.actions.rows, 0 ≤ a.blockHeight) →
      ∃ db' added, reindexPaged size db chainId extractor = some (db', added) ∧
        db' = { db with actionAddresses := db'.actionAddresses } ∧
        (∀ r, r ∈ db'.actionAddresses.rows ↔
          r ∈ db.actionAddresses.rows ∨ key r ∉ db.actionAddresses.rows.map key ∧
            ∃ a ∈ db.actions.rows, a.chainId = chainId ∧
              ∃ p ∈ extractor.resolve a.kind a.payload,
                r = { chainId, actionHash := a.actionHash, address := p.1, role := p.2.asStr
                      blockHeight := a.blockHeight }) ∧
        db.actionAddresses.rows.length + added = db'.actionAddresses.rows.length ∧
        reindexPaged size db' chainId extractor = some (db', 0)) ∧
      ∀ (extractors : String → AddressExtractor) (db : Database) (chainId : String),
        Ingested extractors db →
        reindexPaged size db chainId (extractors chainId) = some (db, 0) := by
  constructor
  · intro db chainId extractor hpositions hheights
    have hstored : ∀ a ∈ pending db chainId (-1, -1),
        a ∈ db.actions.rows ∧ a.chainId = chainId := fun a => (mem_pending_start hheights).mp
    refine ⟨_, _, reindexPaged_eq hsize hpositions chainId extractor, rfl, ?_,
      addedByPage_add _ _ _ _, ?_⟩
    · intro r
      simp only [mem_writePage hstored, mem_pending_start hheights, and_assoc]
    · have hpositions' : PositionsUnique
          (writePage db chainId extractor (pending db chainId (-1, -1))) := hpositions
      have hsame : pending (writePage db chainId extractor (pending db chainId (-1, -1)))
          chainId (-1, -1) = pending db chainId (-1, -1) := rfl
      obtain ⟨hwrite, hadded⟩ := writePage_again (pending db chainId (-1, -1))
      rw [reindexPaged_eq hsize hpositions', hsame, hwrite, hadded]
  · intro extractors db chainId hingested
    have hheld : ∀ a ∈ db.actions.rows, a.chainId = chainId →
        db.actionAddresses.Holds (reindexRows chainId (extractors chainId) [a]) := by
      rintro a ha rfl
      exact hingested.holds ha
    have hsome : (reindexPaged size db chainId (extractors chainId)).isSome :=
      reindexLoop_isSome _ _ _ (Nat.lt_succ_of_le List.countP_le_length)
    obtain ⟨result, hresult⟩ := Option.isSome_iff_exists.mp hsome
    rw [hresult, reindexLoop_of_holds hheld hresult]

/-- Alice's actions were stored under an empty schema. A reindex one action at a time finds
the recipients of the transfers. -/
theorem reindex_complete_alice :
    ∃ db db' added, exec (@writeStep .plain fun _ => .tierAOnly .empty) .empty aliceOps = some db ∧
      reindexPaged 1 db "main" transferTo = some (db', added) ∧
      db.actionAddresses.rows.length = 0 ∧
      db.actionAddresses.rows.length + added = db'.actionAddresses.rows.length ∧
      reindexPaged 1 db' "main" transferTo = some (db', 0) := by
  have hall : (exec (@writeStep .plain fun _ => .tierAOnly .empty) .empty aliceOps).any (fun db =>
      decide (PositionsUnique db) && decide (∀ a ∈ db.actions.rows, 0 ≤ a.blockHeight) &&
        decide (db.actionAddresses.rows.length = 0)) = true := by
    decide
  obtain ⟨db, hdb, hrest⟩ := Option.any_eq_true _ _ |>.mp hall
  simp only [Bool.and_eq_true, decide_eq_true_eq] at hrest
  obtain ⟨⟨hpositions, hheights⟩, hnone⟩ := hrest
  obtain ⟨db', added, hfirst, _, _, hcount, hagain⟩ :=
    (@reindex_complete .plain 1 (by decide)).1 db "main" transferTo hpositions hheights
  exact ⟨db, db', added, hdb, hfirst, hnone, hcount, hagain⟩

end Retracer
