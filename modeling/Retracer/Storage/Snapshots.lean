import Retracer.Storage.Heights
import Retracer.Storage.Reads

/-! # Reads that straddle transactions

What a read returns is what was stored when its first statement ran, provided that no
transaction in between touched the heights of the page. Inserts never do. A rollback
that reaches into the page does, and then the row can have the hash of one branch and
the actions of another.
-/

namespace Retracer

open KeyedTable Sorting Execution Traverse

/-! ## Nothing changed up to a height -/

structure SameUpTo (chainId : String) (height : Int) (db db' : Database) : Prop where
  rows : ∀ k lo hi, hi ≤ height →
    (db'.at k).rows.filter (within chainId lo hi) = (db.at k).rows.filter (within chainId lo hi)
  blocks : ∀ n ≤ height,
    db'.undisputedBlocks.find? (chainId, n) = db.undisputedBlocks.find? (chainId, n)

section

variable {chainId : String} {height : Int} {db db' db'' : Database}

theorem SameUpTo.refl : SameUpTo chainId height db db := ⟨fun _ _ _ _ => rfl, fun _ _ => rfl⟩

theorem SameUpTo.trans (h : SameUpTo chainId height db db')
    (h' : SameUpTo chainId height db' db'') : SameUpTo chainId height db db'' := by
  constructor
  · intro k lo hi hle
    exact (h'.rows k lo hi hle).trans (h.rows k lo hi hle)
  · intro n hle
    exact (h'.blocks n hle).trans (h.blocks n hle)

theorem SameUpTo.symm (h : SameUpTo chainId height db db') : SameUpTo chainId height db' db :=
  ⟨fun k lo hi hle => (h.rows k lo hi hle).symm, fun n hle => (h.blocks n hle).symm⟩

theorem SameUpTo.mono {low : Int} (h : SameUpTo chainId height db db') (hle : low ≤ height) :
    SameUpTo chainId low db db' :=
  ⟨fun k lo hi hhi => h.rows k lo hi (hhi.trans hle), fun n hn => h.blocks n (hn.trans hle)⟩

theorem SameUpTo.mem_iff {k : HeightTable} {r : k.Row} (h : SameUpTo chainId height db db')
    (hchain : Stamped.chainOf r = chainId) (hle : Stamped.heightOf r ≤ height) :
    r ∈ (db'.at k).rows ↔ r ∈ (db.at k).rows := by
  have hin : within chainId (Stamped.heightOf r) (Stamped.heightOf r) r = true := by
    simp [within, hchain]
  have hrows := h.rows k (Stamped.heightOf r) (Stamped.heightOf r) hle
  constructor
  · intro hr
    have hmem := List.mem_filter.mpr ⟨hr, hin⟩
    rw [hrows] at hmem
    exact List.mem_of_mem_filter hmem
  · intro hr
    have hmem := List.mem_filter.mpr ⟨hr, hin⟩
    rw [← hrows] at hmem
    exact List.mem_of_mem_filter hmem

theorem SameUpTo.rollbackTo {target : Int} (hle : height ≤ target) :
    SameUpTo chainId height db (rollbackTo db chainId target).1 := by
  constructor
  · intro k lo hi hhi
    rw [at_rollbackTo, Table.rows_deleteWhere, List.filter_filter]
    apply List.filter_congr
    intro r _
    by_cases hin : within chainId lo hi r = true
    · have hkeep : above chainId target r = false := by
        simp only [within, decide_eq_true_eq] at hin
        simp only [above, decide_eq_false_iff_not, not_and]
        omega
      rw [hin, hkeep]
      rfl
    · rw [Bool.not_eq_true] at hin
      rw [hin]
      rfl
  · intro n hn
    rw [undisputedBlocks_rollbackTo, Table.find?_deleteWhere]
    cases hfind : db.undisputedBlocks.find? (chainId, n) with
    | none => rfl
    | some b =>
        have hkey : b.height = n := congrArg Prod.snd (Table.find?_eq_some_iff.mp hfind).2
        have hkeep : above chainId target b = false := by
          simp only [above, Stamped.heightOf, decide_eq_false_iff_not, not_and]
          omega
        simp [hkeep]

theorem SameUpTo.of_content (h : db.content = db'.content) : SameUpTo chainId height db db' := by
  obtain ⟨hat, hblocks, _⟩ := content_eq_iff.mp h
  constructor
  · intro k lo hi _
    rw [hat k]
  · intro n _
    rw [hblocks]

variable [Postgres]

/-- The kept blocks up to a height decide what is stored up to there. -/
theorem Kept.sameUpTo {extractor : AddressExtractor} {s s' : StoreState}
    (h : Kept chainId extractor s) (h' : Kept chainId extractor s')
    (htake : s.kept.take (height + 1).toNat = s'.kept.take (height + 1).toNat) :
    SameUpTo chainId height s.db s'.db := by
  obtain ⟨t, ht, hsame⟩ := (h.rollback height).holds
  obtain ⟨t', ht', hsame'⟩ := (h'.rollback height).holds
  have heq : t = t' := by
    rw [htake] at ht
    exact Option.some.inj (ht.symm.trans ht')
  have hcontent : (rollbackTo s.db chainId height).1.content =
      (rollbackTo s'.db chainId height).1.content := by
    have hleft : (rollbackTo s.db chainId height).1.content = t.content := hsame
    have hright : (rollbackTo s'.db chainId height).1.content = t'.content := hsame'
    rw [hleft, hright, heq]
  have hcut : SameUpTo chainId height s.db (rollbackTo s.db chainId height).1 :=
    .rollbackTo (Int.le_refl _)
  have hcut' : SameUpTo chainId height s'.db (rollbackTo s'.db chainId height).1 :=
    .rollbackTo (Int.le_refl _)
  exact (hcut.trans (.of_content hcontent)).trans hcut'.symm

theorem SameUpTo.written {extractor : AddressExtractor} {block : IndexableBlock}
    {writes : BlockWrites} {tokens : List TokenEventsRow}
    (h : Written chainId extractor block writes tokens db db') (hlt : height < block.height) :
    SameUpTo chainId height db db' := by
  constructor
  · intro k lo hi hhi
    rw [h.rows k, Table.rows_insertMissing, List.filter_append]
    apply List.append_right_eq_self.mpr
    rw [List.filter_eq_nil_iff]
    intro r hr
    have hstamp := (stamped_blockRows h.stamped k r (Table.mem_inserted hr).1).2
    simp only [within, decide_eq_true_eq, not_and]
    omega
  · intro n hn
    rw [h.blocks, Table.find?_insertMissing]
    have hne : (block.height : Int) ≠ n := by omega
    simp [blocksRow, key, hne]

theorem SameUpTo.insertBlocks {extractor : AddressExtractor} {blocks : List IndexableBlock}
    (h : insertBlocks db chainId blocks extractor = some db')
    (hlt : ∀ b ∈ blocks, height < (b.height : Int)) : SameUpTo chainId height db db' := by
  induction blocks generalizing db with
  | nil =>
      cases h
      exact .refl
  | cons block blocks ih =>
      rw [insertBlocks_cons, Option.bind_eq_some_iff] at h
      obtain ⟨mid, hmid, hrest⟩ := h
      obtain ⟨writes, tokens, hwritten⟩ := written_of_insert hmid
      have hfirst := SameUpTo.written hwritten (hlt block List.mem_cons_self)
      exact hfirst.trans (ih hrest fun b hb => hlt b (List.mem_cons_of_mem _ hb))

end

/-! ## The statements see nothing else -/

section

variable {chainId : String} {height lo hi n : Int} {db db' : Database}

/-- The timestamp does not depend on the flag. -/
theorem actionColumns_undisputed (db : Database) (a : ActionsRow) :
    actionColumns db a = (db.undisputedBlocks.find? (a.chainId, a.blockHeight)).map fun b =>
      { actionHash := a.actionHash, blockHeight := a.blockHeight, indexInBlock := a.indexInBlock
        kind := a.kind, fromAddress := a.fromAddress, payload := a.payload
        blockTimestamp := b.timestamp } := by
  rw [Database.undisputedBlocks, Table.find?_modify, Option.map_map]
  rfl

theorem blockHeight_actionColumns {a : ActionsRow} {row : ActionRow}
    (h : actionColumns db a = some row) : row.blockHeight = a.blockHeight := by
  obtain ⟨b, _, rfl⟩ := Option.map_eq_some_iff.mp h
  rfl

theorem SameUpTo.selectActions (h : SameUpTo chainId height db db') (hle : hi ≤ height) :
    selectActions db' chainId lo hi = selectActions db chainId lo hi := by
  unfold Retracer.selectActions
  have hrows : db'.actions.rows.filter (within chainId lo hi) =
      db.actions.rows.filter (within chainId lo hi) := h.rows .actions lo hi hle
  rw [hrows]
  apply mapM_congr
  intro a ha
  have hin := (List.mem_filter.mp ((List.mem_insertionSort _).mp ha)).2
  simp only [within, Stamped.chainOf, Stamped.heightOf, decide_eq_true_eq] at hin
  rw [actionColumns_undisputed, actionColumns_undisputed, hin.1, h.blocks a.blockHeight (by omega)]

theorem SameUpTo.droppedInRange [Collation] (h : SameUpTo chainId height db db')
    (hle : hi ≤ height) : droppedInRange db' chainId lo hi = droppedInRange db chainId lo hi := by
  have hrows : db'.droppedActions.rows.filter (within chainId lo hi) =
      db.droppedActions.rows.filter (within chainId lo hi) := h.rows .droppedActions lo hi hle
  unfold Retracer.droppedInRange
  rw [hrows]

theorem within_single {ρ : Type} [Stamped ρ] (hlo : lo ≤ n) (hhi : n ≤ hi) (r : ρ) :
    (decide (Stamped.heightOf r = n) && within chainId lo hi r) = within chainId n n r := by
  unfold within
  by_cases heq : Stamped.heightOf r = n
  · simp [heq, hlo, hhi]
  · have hne : ¬ (n ≤ Stamped.heightOf r ∧ Stamped.heightOf r ≤ n) := by omega
    simp [heq, hne]

/-- One height out of a range. -/
theorem selectActions_single {actions : List ActionRow} (hlo : lo ≤ n) (hhi : n ≤ hi)
    (h : selectActions db chainId lo hi = some actions) :
    selectActions db chainId n n = some (actions.filter (·.blockHeight = n)) := by
  have hfilter := mapM_filter (p := fun a : ActionsRow => decide (a.blockHeight = n))
    (q := fun a : ActionRow => decide (a.blockHeight = n))
    (fun a b hab => by rw [blockHeight_actionColumns hab]) h
  rw [filter_insertionSort, List.filter_filter] at hfilter
  unfold selectActions
  rw [← hfilter]
  congr 2
  apply List.filter_congr
  intro a _
  exact (within_single hlo hhi a).symm

theorem droppedInRange_single [Collation] (hlo : lo ≤ n) (hhi : n ≤ hi) :
    droppedInRange db chainId n n =
      (droppedInRange db chainId lo hi).filter (·.blockHeight = n) := by
  unfold droppedInRange
  rw [List.filter_map]
  congr 1
  have hcomp : ((fun d : DroppedRow => decide (d.blockHeight = n)) ∘
      fun d : DroppedActionsRow =>
        ({ blockHeight := d.blockHeight, signature := d.signature, sender := d.sender
           reason := d.reason } : DroppedRow)) =
      fun d : DroppedActionsRow => decide (d.blockHeight = n) := rfl
  rw [hcomp, filter_insertionSort, List.filter_filter]
  congr 1
  apply List.filter_congr
  intro d _
  exact (within_single hlo hhi d).symm

end

/-! ## A read in progress -/

/-- All that was read so far is what `db` has. -/
structure OpenRead.AsOf (db : Database) (chainId : String) (r : OpenRead) : Prop where
  stored : ∀ b ∈ r.rows, db.blocks.find? (chainId, b.height) = some b
  bounds : ∀ b ∈ r.rows, r.lo ≤ b.height ∧ b.height ≤ r.hi
  alone : (∀ lo hi limit, r.read ≠ .inRange lo hi limit) → ∃ b, r.rows = [b]
  actions : ∀ actions, r.actions = some actions →
    Retracer.selectActions db chainId r.lo r.hi = some actions

section

variable {chainId : String} {db db' : Database}

theorem find_of_mem {b : BlocksRow} (hb : b ∈ db.blocks.rows) (hc : b.chainId = chainId) :
    db.blocks.find? (chainId, b.height) = some b := by
  apply Table.find?_eq_some_iff.mpr
  exact ⟨hb, by rw [← hc]; rfl⟩

theorem mem_selectBlocks {lo hi limit : Int} {b : BlocksRow}
    (h : b ∈ selectBlocks db chainId lo hi limit) :
    db.blocks.find? (chainId, b.height) = some b ∧ lo ≤ b.height ∧ b.height ≤ hi := by
  have hsorted := (List.mem_insertionSort _).mp (List.mem_of_mem_take h)
  obtain ⟨hb, hin⟩ := List.mem_filter.mp hsorted
  simp only [within, Stamped.chainOf, Stamped.heightOf, decide_eq_true_eq] at hin
  exact ⟨find_of_mem hb hin.1, hin.2⟩

theorem pairwise_selectBlocks {lo hi limit : Int} :
    (selectBlocks db chainId lo hi limit).Pairwise fun a b => a.height ≤ b.height :=
  (List.pairwise_insertionSort (oldestFirst BlocksRow.height) _).sublist (List.take_sublist _ _)

theorem BlocksRead.mem_select {read : BlocksRead} {b : BlocksRow}
    (h : b ∈ read.select db chainId) : db.blocks.find? (chainId, b.height) = some b := by
  cases read with
  | inRange lo hi limit => exact (mem_selectBlocks h).1
  | byHeight height =>
      have hfind := Option.mem_toList.mp h
      have hkey : b.height = height := congrArg Prod.snd (Table.find?_eq_some_iff.mp hfind).2
      rw [hkey]
      exact hfind
  | byHash hash =>
      have hfind := Option.mem_toList.mp h
      have hchain := List.find?_some hfind
      simp only [decide_eq_true_eq] at hchain
      exact find_of_mem (List.mem_of_find?_eq_some hfind) hchain.1

theorem pairwise_select {read : BlocksRead} :
    (read.select db chainId).Pairwise fun a b => a.height ≤ b.height := by
  cases read with
  | inRange lo hi limit => exact pairwise_selectBlocks
  | byHeight height =>
      show ((db.blocks.find? (chainId, height)).toList).Pairwise _
      cases db.blocks.find? (chainId, height) <;> simp
  | byHash hash =>
      show ((db.blocks.rows.find? _).toList).Pairwise _
      cases db.blocks.rows.find? fun b => b.chainId = chainId ∧ b.hash = canonicalizeHash hash <;>
        simp

theorem OpenRead.hi_lt {r : OpenRead} {n : Int} (hne : r.rows ≠ [])
    (h : ∀ b ∈ r.rows, b.height < n) : r.hi < n := by
  obtain ⟨last, hlast⟩ := Option.ne_none_iff_exists'.mp (mt List.getLast?_eq_none_iff.mp hne)
  have hlt := h last (List.mem_of_getLast? hlast)
  unfold OpenRead.hi
  rw [hlast]
  exact hlt

theorem OpenRead.bounds_of_pairwise {r : OpenRead}
    (h : r.rows.Pairwise fun a b => a.height ≤ b.height) {b : BlocksRow} (hb : b ∈ r.rows) :
    r.lo ≤ b.height ∧ b.height ≤ r.hi := by
  constructor
  · unfold OpenRead.lo
    cases hrows : r.rows with
    | nil =>
        rw [hrows] at hb
        cases hb
    | cons first rest =>
        rw [hrows] at h hb
        rcases List.mem_cons.mp hb with rfl | hin
        · exact Int.le_refl _
        · exact (List.pairwise_cons.mp h).1 b hin
  · unfold OpenRead.hi
    obtain ⟨last, hlast⟩ := Option.ne_none_iff_exists'.mp
      (mt List.getLast?_eq_none_iff.mp (List.ne_nil_of_mem hb))
    obtain ⟨initial, hinit⟩ := List.getLast?_eq_some_iff.mp hlast
    rw [hinit] at h hb
    rw [hlast]
    rcases List.mem_append.mp hb with hin | hin
    · exact (List.pairwise_append.mp h).2.2 b hin last (List.mem_singleton_self _)
    · rw [List.mem_singleton.mp hin]
      exact Int.le_refl _

theorem OpenRead.asOf_select (db : Database) (chainId : String) (read : BlocksRead) :
    OpenRead.AsOf db chainId { read, rows := read.select db chainId } ∨
      read.select db chainId = [] := by
  by_cases hempty : read.select db chainId = []
  · exact Or.inr hempty
  refine Or.inl ⟨fun b hb => BlocksRead.mem_select hb,
    fun b hb => OpenRead.bounds_of_pairwise pairwise_select hb, ?_, fun _ h => nomatch h⟩
  intro hsingle
  cases read with
  | inRange lo hi limit => exact absurd rfl (hsingle lo hi limit)
  | byHeight height =>
      obtain ⟨b, hb⟩ := Option.ne_none_iff_exists'.mp (mt Option.toList_eq_nil_iff.mpr hempty)
      exact ⟨b, Option.toList_eq_singleton_iff.mpr hb⟩
  | byHash hash =>
      obtain ⟨b, hb⟩ := Option.ne_none_iff_exists'.mp (mt Option.toList_eq_nil_iff.mpr hempty)
      exact ⟨b, Option.toList_eq_singleton_iff.mpr hb⟩

/-- The read is finished on what is still there up to its last height. -/
theorem OpenRead.AsOf.assemble [Collation] {r : OpenRead} (h : r.AsOf db chainId)
    (hsame : SameUpTo chainId r.hi db db') {actions : List ActionRow}
    (hactions : r.actions = some actions) {row : BlockRow}
    (hrow : row ∈ r.read.assemble r.rows actions
      (Retracer.droppedInRange db' chainId r.lo r.hi)) :
    storedBlock db chainId row.height = some row := by
  have hselect := h.actions actions hactions
  rw [hsame.droppedInRange (Int.le_refl _)] at hrow
  have hmany : ∀ b ∈ r.rows, storedBlock db chainId b.height =
      some (blockRow b (actions.filter (·.blockHeight = b.height))
        ((Retracer.droppedInRange db chainId r.lo r.hi).filter (·.blockHeight = b.height))) := by
    intro b hb
    obtain ⟨hlo, hhi⟩ := h.bounds b hb
    rw [storedBlock, h.stored b hb, Option.bind_some, selectActions_single hlo hhi hselect,
      Option.map_some, droppedInRange_single hlo hhi]
  have hone : ∀ b, r.rows = [b] → storedBlock db chainId b.height =
      some (blockRow b actions (Retracer.droppedInRange db chainId r.lo r.hi)) := by
    intro b hb
    have hlo : r.lo = b.height := by simp [OpenRead.lo, hb]
    have hhi : r.hi = b.height := by simp [OpenRead.hi, hb]
    rw [hlo, hhi] at hselect ⊢
    rw [storedBlock, h.stored b (by simp [hb]), Option.bind_some, hselect, Option.map_some]
  cases hread : r.read with
  | inRange lo hi limit =>
      rw [hread] at hrow
      obtain ⟨b, hb, rfl⟩ := List.mem_map.mp hrow
      exact hmany b hb
  | byHeight height =>
      obtain ⟨b, hb⟩ := h.alone fun lo hi limit heq => by rw [hread] at heq; cases heq
      rw [hread, hb] at hrow
      cases List.mem_singleton.mp hrow
      exact hone b hb
  | byHash hash =>
      obtain ⟨b, hb⟩ := h.alone fun lo hi limit heq => by rw [hread] at heq; cases heq
      rw [hread, hb] at hrow
      cases List.mem_singleton.mp hrow
      exact hone b hb

end

end Retracer
