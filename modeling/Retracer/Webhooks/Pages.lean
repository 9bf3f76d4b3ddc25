import Retracer.Webhooks.Rows

/-! # What a page covers

A cursor covers the stored blocks up to it when every event they owe the hook is accounted
for. A page that was read at one moment is taken block by block from the cursor it started
at, without holes, so each block that is done moves the cover up to its height. What is
accounted for is a parameter: answered with 2xx, or posted after some moment.
-/

namespace Retracer

open KeyedTable Sorting Execution

/-! ## Stored blocks, but for the flag -/

section

variable [Collation] {chainId : String} {height n : Int} {db db' : Database} {b : BlockRow}

/-- Nothing that is owed depends on the flag. -/
def BlockRow.undisputed (b : BlockRow) : BlockRow := { b with disputed := false }

omit [Collation] in
theorem deliveries_undisputed (hook : WebhooksRow) (extractor : AddressExtractor)
    (b : BlockRow) : deliveries hook extractor b.undisputed = deliveries hook extractor b := rfl

theorem storedBlock_undisputed (db : Database) (chainId : String) (n : Int) :
    (storedBlock db chainId n).map BlockRow.undisputed =
      (db.undisputedBlocks.find? (chainId, n)).bind fun b =>
        (selectActions db chainId n n).map fun actions =>
          blockRow b actions (droppedInRange db chainId n n) := by
  rw [storedBlock, Database.undisputedBlocks, Table.find?_modify]
  cases db.blocks.find? (chainId, n) with
  | none => rfl
  | some b =>
      cases selectActions db chainId n n with
      | none => rfl
      | some actions => rfl

theorem SameUpTo.storedBlock (h : SameUpTo chainId height db db') (hle : n ≤ height) :
    (Retracer.storedBlock db' chainId n).map BlockRow.undisputed =
      (Retracer.storedBlock db chainId n).map BlockRow.undisputed := by
  rw [storedBlock_undisputed, storedBlock_undisputed, h.blocks n hle, h.selectActions hle,
    h.droppedInRange hle]

theorem SameUpTo.deliveries (h : SameUpTo chainId height db db') (hle : n ≤ height)
    (hb : Retracer.storedBlock db' chainId n = some b) (hook : WebhooksRow)
    (extractor : AddressExtractor) :
    ∃ b', Retracer.storedBlock db chainId n = some b' ∧
      Retracer.deliveries hook extractor b' = Retracer.deliveries hook extractor b := by
  have hsame := h.storedBlock hle
  rw [hb, Option.map_some, eq_comm, Option.map_eq_some_iff] at hsame
  obtain ⟨b', hb', heq⟩ := hsame
  exact ⟨b', hb', by rw [← deliveries_undisputed, heq, deliveries_undisputed]⟩

theorem find_of_storedBlock (h : storedBlock db chainId n = some b) :
    ∃ row, db.blocks.find? (chainId, n) = some row ∧ row.hash = b.hash ∧ b.height = n := by
  obtain ⟨row, hrow, hrest⟩ := Option.bind_eq_some_iff.mp h
  obtain ⟨actions, _, rfl⟩ := Option.map_eq_some_iff.mp hrest
  exact ⟨row, hrow, rfl, congrArg Prod.snd (Table.find?_eq_some_iff.mp hrow).2⟩

theorem Kept.lt_of_storedBlock [Postgres] {extractor : AddressExtractor} {store : StoreState}
    (h : Kept chainId extractor store) (hb : storedBlock store.db chainId n = some b) :
    n < store.kept.length := by
  obtain ⟨row, hrow, _⟩ := find_of_storedBlock hb
  obtain ⟨hmem, hkey⟩ := Table.find?_eq_some_iff.mp hrow
  have hlt := h.row_lt hmem
  have hheight : row.height = n := congrArg Prod.snd hkey
  omega

end

/-! ## The block rows of a page -/

section

variable {chainId : String} {lo hi limit : Int} {db : Database} {a b : BlocksRow}

/-- No two of them have one height. -/
theorem pairwise_lt_selectBlocks :
    (selectBlocks db chainId lo hi limit).Pairwise fun a b => a.height < b.height := by
  have hnodup : (selectBlocks db chainId lo hi limit).Nodup := by
    apply List.Nodup.sublist (List.take_sublist _ _)
    rw [(List.perm_insertionSort _ _).nodup_iff]
    exact db.blocks.nodup_rows.filter _
  have hboth := pairwise_selectBlocks.and hnodup
  apply hboth.imp_of_mem
  intro a b ha hb hab
  have hne : a.height ≠ b.height := by
    intro heq
    have hfinda := (mem_selectBlocks ha).1
    have hfindb := (mem_selectBlocks hb).1
    rw [heq, hfindb] at hfinda
    exact hab.2 (Option.some.inj hfinda).symm
  have hle := hab.1
  omega

/-- A page has every block of its range up to its last. -/
theorem mem_selectBlocks_of_le (ha : db.blocks.find? (chainId, a.height) = some a)
    (hlo : lo ≤ a.height) (hb : b ∈ selectBlocks db chainId lo hi limit)
    (hle : a.height ≤ b.height) : a ∈ selectBlocks db chainId lo hi limit := by
  obtain ⟨hfind, _, hbound⟩ := mem_selectBlocks hb
  obtain ⟨hmem, hkey⟩ := Table.find?_eq_some_iff.mp ha
  have hchain : a.chainId = chainId := congrArg Prod.fst hkey
  have hin : a ∈ (db.blocks.rows.filter (within chainId lo hi)).insertionSort
      (oldestFirst BlocksRow.height) := by
    rw [List.mem_insertionSort, List.mem_filter]
    refine ⟨hmem, ?_⟩
    simp only [within, Stamped.chainOf, Stamped.heightOf, decide_eq_true_eq]
    exact ⟨hchain, hlo, hle.trans hbound⟩
  unfold selectBlocks at hb ⊢
  rw [← List.take_append_drop limit.toNat ((db.blocks.rows.filter
    (within chainId lo hi)).insertionSort (oldestFirst BlocksRow.height))] at hin
  rcases List.mem_append.mp hin with htaken | hdropped
  · exact htaken
  · have hsorted := List.pairwise_insertionSort (oldestFirst BlocksRow.height)
      (db.blocks.rows.filter (within chainId lo hi))
    rw [← List.take_append_drop limit.toNat ((db.blocks.rows.filter
      (within chainId lo hi)).insertionSort (oldestFirst BlocksRow.height)),
      List.pairwise_append] at hsorted
    have hge : b.height ≤ a.height := hsorted.2.2 b hb a hdropped
    rw [le_antisymm hge hle, ha] at hfind
    rw [Option.some.inj hfind]
    exact hb

end

/-! ## Cursors that cover -/

/-- Above `base`, everything owed up to `k` is accounted for. -/
structure Covers [Collation] (c : HookConfig) (Accounted : Delivery → Prop) (base : Int)
    (hook : WebhooksRow) (store : StoreState) (k : Int) : Prop where
  stored : k ≤ base ∨ k < store.kept.length
  events : ∀ n, base < n → n ≤ k → ∀ b, storedBlock store.db c.chainId n = some b →
    ∀ d ∈ deliveries hook c.extractor b, Accounted d

section

variable [Collation] {c : HookConfig} {Accounted Accounted' : Delivery → Prop} {base k : Int}
  {hook : WebhooksRow} {store store' : StoreState}

theorem Covers.of_le_base (hle : k ≤ base) : Covers c Accounted base hook store k :=
  ⟨Or.inl hle, fun n hlo hhi => by omega⟩

theorem Covers.mono (h : Covers c Accounted base hook store k)
    (hmono : ∀ d, Accounted d → Accounted' d) : Covers c Accounted' base hook store k :=
  ⟨h.stored, fun n hlo hhi b hb d hd => hmono d (h.events n hlo hhi b hb d hd)⟩

/-- The filter alone decides what is owed. -/
theorem Covers.filter {hook' : WebhooksRow} (h : Covers c Accounted base hook store k)
    (haddress : hook'.address = hook.address) (hevents : hook'.events = hook.events) :
    Covers c Accounted base hook' store k := by
  refine ⟨h.stored, ?_⟩
  intro n hlo hhi b hb d hd
  unfold deliveries at hd
  rw [haddress, hevents] at hd
  exact h.events n hlo hhi b hb d hd

theorem Covers.below {k' : Int} (h : Covers c Accounted base hook store k) (hle : k' ≤ k) :
    Covers c Accounted base hook store k' := by
  refine ⟨?_, fun n hlo hhi => h.events n hlo (hhi.trans hle)⟩
  have hstored := h.stored
  omega

/-- What is stored up to the cursor is the same. -/
theorem Covers.same (h : Covers c Accounted base hook store k)
    (hsame : SameUpTo c.chainId k store.db store'.db)
    (hstored : k ≤ base ∨ k < store'.kept.length) : Covers c Accounted base hook store' k := by
  refine ⟨hstored, ?_⟩
  intro n hlo hhi b hb d hd
  obtain ⟨b', hb', heq⟩ := hsame.deliveries hhi hb hook c.extractor
  rw [← heq] at hd
  exact h.events n hlo hhi b' hb' d hd

/-- The hooks are no blocks. -/
theorem Covers.withHooks (h : Covers c Accounted base hook store k) (t : Table WebhooksRow) :
    Covers c Accounted base hook { store with db := { store.db with webhooks := t } } k :=
  ⟨h.stored, h.events⟩

theorem Covers.chainStep [Postgres] {op : ChainOp} (h : Covers c Accounted base hook store k)
    (hs : chainStep c.chainId c.extractor store op = some store')
    (hspares : ∀ target, op = .rollback target → k ≤ target) :
    Covers c Accounted base hook store' k := by
  rcases h.stored with hbase | hlt
  · exact .of_le_base hbase
  · obtain ⟨hsame, hlt'⟩ := sameUpTo_chainStep hlt hspares hs
    exact h.same hsame (Or.inr hlt')

end

/-! ## Pages in progress -/

/-- A page that is being read since the store was `seen`, relied on up to `trust`. -/
structure PageRead [Postgres] [Collation] (c : HookConfig) (Accounted : Delivery → Prop)
    (base : Int) (hook : WebhooksRow) (tip : Int) (r : OpenRead) (seen : StoreState)
    (trust : Int) : Prop where
  kept : Kept c.chainId c.extractor seen
  covers : Covers c Accounted base hook seen hook.cursorHeight
  read : r.read = .inRange (hook.cursorHeight + 1) tip c.pageSize
  rows : r.rows = selectBlocks seen.db c.chainId (hook.cursorHeight + 1) tip c.pageSize
  actions : ∀ found, r.actions = some found → ∀ n ≤ trust, r.lo ≤ n → n ≤ r.hi →
    selectActions seen.db c.chainId n n = some (found.filter (·.blockHeight = n))

/-- The page was read, and some of it is posted. -/
structure PagePosted [Postgres] [Collation] (c : HookConfig) (Accounted : Delivery → Prop)
    (base : Int) (hook : WebhooksRow) (owed : List Delivery) (block : BlockRow)
    (later : List BlockRow) (seen : StoreState) (trust : Int) : Prop where
  kept : Kept c.chainId c.extractor seen
  covers : Covers c Accounted base hook seen hook.cursorHeight
  stored : ∀ x ∈ block :: later, x.height ≤ trust →
    storedBlock seen.db c.chainId x.height = some x
  above : ∀ x ∈ block :: later, hook.cursorHeight < x.height
  below : ∀ x ∈ block :: later, x.height < seen.kept.length
  sorted : (block :: later).Pairwise fun x y => x.height < y.height
  gapless : ∀ n, hook.cursorHeight < n → (∃ x ∈ block :: later, n ≤ x.height) →
    ∀ b, storedBlock seen.db c.chainId n = some b → ∃ x ∈ block :: later, x.height = n
  owed : ∀ d ∈ deliveries hook c.extractor block, d ∈ owed ∨ Accounted d

section

variable [Postgres] [Collation] {c : HookConfig} {Accounted Accounted' : Delivery → Prop}
  {base tip trust : Int} {hook : WebhooksRow} {r : OpenRead} {seen store : StoreState}
  {db : Database} {delivery : Delivery} {owed : List Delivery} {block next : BlockRow}
  {later : List BlockRow} {found : List ActionRow}

theorem PageRead.start (hkept : Kept c.chainId c.extractor store)
    (hcovers : Covers c Accounted base hook store hook.cursorHeight) {rows : List BlocksRow}
    (hrows : selectBlocks store.db c.chainId (hook.cursorHeight + 1) tip c.pageSize = rows)
    (trust : Int) :
    PageRead c Accounted base hook tip
      { read := .inRange (hook.cursorHeight + 1) tip c.pageSize, rows } store trust :=
  ⟨hkept, hcovers, rfl, hrows.symm, fun _ hsome => nomatch hsome⟩

theorem PageRead.mono (h : PageRead c Accounted base hook tip r seen trust)
    (hmono : ∀ d, Accounted d → Accounted' d) {trust' : Int} (hle : trust' ≤ trust) :
    PageRead c Accounted' base hook tip r seen trust' :=
  ⟨h.kept, h.covers.mono hmono, h.read, h.rows,
    fun found hsome n hn => h.actions found hsome n (hn.trans hle)⟩

theorem PageRead.bounds (h : PageRead c Accounted base hook tip r seen trust) {b : BlocksRow}
    (hb : b ∈ r.rows) : r.lo ≤ b.height ∧ b.height ≤ r.hi := by
  apply OpenRead.bounds_of_pairwise _ hb
  rw [h.rows]
  exact pairwise_selectBlocks

omit [Collation] in
theorem Kept.lt_of_selectBlocks {chainId : String} {extractor : AddressExtractor}
    (h : Kept chainId extractor store) {lo hi limit : Int} {b : BlocksRow}
    (hb : b ∈ selectBlocks store.db chainId lo hi limit) : b.height < store.kept.length :=
  h.row_lt (Table.find?_eq_some_iff.mp (mem_selectBlocks hb).1).1

theorem PageRead.lt_length (h : PageRead c Accounted base hook tip r seen trust) {b : BlocksRow}
    (hb : b ∈ r.rows) : b.height < seen.kept.length := by
  rw [h.rows] at hb
  exact h.kept.lt_of_selectBlocks hb

/-- The second statement. -/
theorem PageRead.withActions (h : PageRead c Accounted base hook tip r seen trust)
    (hsame : SameUpTo c.chainId trust seen.db db)
    (hfound : selectActions db c.chainId r.lo r.hi = some found) :
    PageRead c Accounted base hook tip { r with actions := some found } seen trust := by
  refine ⟨h.kept, h.covers, h.read, h.rows, ?_⟩
  intro found' hsome n hn hlo hhi
  cases hsome
  rw [← hsame.selectActions hn]
  exact selectActions_single hlo hhi hfound

/-- A row as the third statement completes it. -/
theorem PageRead.stored (h : PageRead c Accounted base hook tip r seen trust)
    (hsome : r.actions = some found) (hsame : SameUpTo c.chainId trust seen.db db)
    {b : BlocksRow} (hb : b ∈ r.rows) (hle : b.height ≤ trust) :
    storedBlock seen.db c.chainId b.height =
      some (blockRow b (found.filter (·.blockHeight = b.height))
        ((droppedInRange db c.chainId r.lo r.hi).filter (·.blockHeight = b.height))) := by
  obtain ⟨hlo, hhi⟩ := h.bounds hb
  have hfind : seen.db.blocks.find? (c.chainId, b.height) = some b := by
    rw [h.rows] at hb
    exact (mem_selectBlocks hb).1
  rw [storedBlock, hfind, Option.bind_some, h.actions found hsome b.height hle hlo hhi,
    Option.map_some, ← droppedInRange_single hlo hhi, hsame.droppedInRange hle]

/-- The third statement. -/
theorem PageRead.posted (h : PageRead c Accounted base hook tip r seen trust)
    (hsome : r.actions = some found) (hsame : SameUpTo c.chainId trust seen.db db)
    (hblocks : r.read.assemble r.rows found (droppedInRange db c.chainId r.lo r.hi) =
      block :: later) :
    PagePosted c Accounted base hook (deliveries hook c.extractor block) block later seen
      trust := by
  have hheights : (block :: later).map (·.height) = r.rows.map (·.height) := by
    rw [← hblocks, BlocksRead.heights_assemble]
  have hrow : ∀ x ∈ block :: later, ∃ b ∈ r.rows, b.height = x.height := by
    intro x hx
    have hheight := List.mem_map_of_mem (f := (·.height)) hx
    rw [hheights] at hheight
    exact List.mem_map.mp hheight
  refine ⟨h.kept, h.covers, ?_, ?_, ?_, ?_, ?_, fun d hd => Or.inl hd⟩
  · intro x hx hle
    rw [h.read] at hblocks
    rw [← hblocks] at hx
    obtain ⟨b, hb, rfl⟩ := List.mem_map.mp hx
    exact h.stored hsome hsame hb hle
  · intro x hx
    obtain ⟨b, hb, hheight⟩ := hrow x hx
    rw [h.rows] at hb
    have hlo := (mem_selectBlocks hb).2.1
    omega
  · intro x hx
    obtain ⟨b, hb, hheight⟩ := hrow x hx
    rw [← hheight]
    exact h.lt_length hb
  · have hsorted : (r.rows.map (·.height)).Pairwise (· < ·) := by
      rw [h.rows, List.pairwise_map]
      exact pairwise_lt_selectBlocks
    rw [← hheights, List.pairwise_map] at hsorted
    exact hsorted
  · rintro n hlo ⟨x, hx, hle⟩ b hb
    obtain ⟨last, hlast, hheight⟩ := hrow x hx
    obtain ⟨row, hfind, _⟩ := find_of_storedBlock hb
    have hn : row.height = n := congrArg Prod.snd (Table.find?_eq_some_iff.mp hfind).2
    subst hn
    rw [h.rows] at hlast
    have hmem := mem_selectBlocks_of_le hfind (by omega) hlast (by omega)
    rw [← h.rows] at hmem
    have hin := List.mem_map_of_mem (f := (·.height)) hmem
    rw [← hheights] at hin
    exact List.mem_map.mp hin

theorem PagePosted.mono (h : PagePosted c Accounted base hook owed block later seen trust)
    (hmono : ∀ d, Accounted d → Accounted' d) :
    PagePosted c Accounted' base hook owed block later seen trust :=
  ⟨h.kept, h.covers.mono hmono, h.stored, h.above, h.below, h.sorted, h.gapless,
    fun d hd => (h.owed d hd).imp_right (hmono d)⟩

theorem PagePosted.post (h : PagePosted c Accounted base hook (delivery :: owed) block later seen
    trust) (hmono : ∀ d, Accounted d → Accounted' d) (hdelivery : Accounted' delivery) :
    PagePosted c Accounted' base hook owed block later seen trust := by
  refine ⟨h.kept, h.covers.mono hmono, h.stored, h.above, h.below, h.sorted, h.gapless, ?_⟩
  intro d hd
  rcases h.owed d hd with howed | hdone
  · rcases List.mem_cons.mp howed with rfl | hrest
    · exact Or.inr hdelivery
    · exact Or.inl hrest
  · exact Or.inr (hmono d hdone)

/-- Nothing is left of a block. -/
theorem PagePosted.covered (h : PagePosted c Accounted base hook [] block later seen trust)
    (hle : block.height ≤ trust) : Covers c Accounted base hook seen block.height := by
  have hblock := h.stored block List.mem_cons_self hle
  refine ⟨Or.inr (h.kept.lt_of_storedBlock hblock), ?_⟩
  intro n hlo hhi b hb d hd
  by_cases hcursor : n ≤ hook.cursorHeight
  · exact h.covers.events n hlo hcursor b hb d hd
  · obtain ⟨x, hx, hheight⟩ :=
      h.gapless n (by omega) ⟨block, List.mem_cons_self, hhi⟩ b hb
    rcases List.mem_cons.mp hx with rfl | hin
    · subst hheight
      rw [hblock, Option.some.injEq] at hb
      subst hb
      exact (h.owed d hd).resolve_left (List.not_mem_nil)
    · have hlt := (List.pairwise_cons.mp h.sorted).1 x hin
      omega

/-- On to the next block. -/
theorem PagePosted.advance
    (h : PagePosted c Accounted base hook [] block (next :: later) seen trust)
    (hle : block.height ≤ trust) :
    PagePosted c Accounted base { hook with cursorHeight := block.height }
      (deliveries hook c.extractor next) next later seen trust := by
  have hcovered := h.covered hle
  have hcursor := h.above block List.mem_cons_self
  refine ⟨h.kept, ⟨hcovered.stored, hcovered.events⟩, ?_, ?_, ?_, ?_, ?_, fun d hd => Or.inl hd⟩
  · intro x hx
    exact h.stored x (List.mem_cons_of_mem _ hx)
  · exact (List.pairwise_cons.mp h.sorted).1
  · intro x hx
    exact h.below x (List.mem_cons_of_mem _ hx)
  · exact (List.pairwise_cons.mp h.sorted).2
  · rintro n hlo ⟨x, hx, hxle⟩ b hb
    have hlt : block.height < n := hlo
    obtain ⟨y, hy, hheight⟩ :=
      h.gapless n (hcursor.trans hlt) ⟨x, List.mem_cons_of_mem _ hx, hxle⟩ b hb
    rcases List.mem_cons.mp hy with rfl | hin
    · omega
    · exact ⟨y, hin, hheight⟩

end

/-! ## The page of a hook -/

/-- What is known of the page of the hook `id`, if one is in progress. `Seen` says what
store it was read from and up to where it is relied on. -/
def Dispatcher.PageOk [Postgres] [Collation] (c : HookConfig) (Accounted : Delivery → Prop)
    (base id : Int) (Seen : StoreState → Int → Prop) (now : StoreState) : Dispatcher → Prop
  | .draining tip hook (.reading r) _ _ =>
      hook.id = id → ∃ seen trust, Seen seen trust ∧
        PageRead c Accounted base hook tip r seen trust ∧
        SameUpTo c.chainId trust seen.db now.db ∧ trust < now.kept.length
  | .draining _ hook (.posting owed block later) _ _ =>
      hook.id = id → ∃ seen trust, Seen seen trust ∧
        PagePosted c Accounted base hook owed block later seen trust
  | _ => True

section

variable [Postgres] [Collation] {c : HookConfig} {Accounted Accounted' : Delivery → Prop}
  {base id : Int} {Seen Seen' : StoreState → Int → Prop} {now now' : StoreState} {d : Dispatcher}

omit [Postgres] [Collation] in
theorem SameUpTo.withHooks {chainId : String} {height : Int} {db db' : Database}
    (h : SameUpTo chainId height db db') (t : Table WebhooksRow) :
    SameUpTo chainId height db { db' with webhooks := t } := by
  refine ⟨fun k lo hi hle => ?_, h.blocks⟩
  have hrows := h.rows k lo hi hle
  cases k <;> exact hrows

theorem Dispatcher.PageOk.mono (h : d.PageOk c Accounted base id Seen now)
    (hmono : ∀ d, Accounted d → Accounted' d) (hseen : ∀ seen trust, Seen seen trust →
      Seen' seen trust)
    (hnow : ∀ trust db, SameUpTo c.chainId trust db now.db → trust < now.kept.length →
      SameUpTo c.chainId trust db now'.db ∧ trust < now'.kept.length) :
    d.PageOk c Accounted' base id Seen' now' := by
  cases d with
  | draining tip hook phase pending more =>
      cases phase with
      | reading r =>
          intro hid
          obtain ⟨seen, trust, hseenAt, hread, hsame, hlt⟩ := h hid
          obtain ⟨hsame', hlt'⟩ := hnow trust seen.db hsame hlt
          exact ⟨seen, trust, hseen seen trust hseenAt, hread.mono hmono (Int.le_refl _), hsame',
            hlt'⟩
      | posting owed block later =>
          intro hid
          obtain ⟨seen, trust, hseenAt, hposted⟩ := h hid
          exact ⟨seen, trust, hseen seen trust hseenAt, hposted.mono hmono⟩
      | page | failed _ => trivial
  | waiting | listing | readingTip _ | capping _ _ => trivial

theorem Dispatcher.pageOk_proceed (tip : Int) (pending more : List WebhooksRow) :
    (Dispatcher.proceed tip pending more).PageOk c Accounted base id Seen now := by
  cases pending with
  | cons hook pending => trivial
  | nil => cases more <;> trivial

/-- No page of this hook. -/
theorem Dispatcher.pageOk_of_held (h : ∀ w ∈ d.held, w.id ≠ id) :
    d.PageOk c Accounted base id Seen now := by
  cases d with
  | draining tip hook phase pending more =>
      have hne : hook.id ≠ id := h hook List.mem_cons_self
      cases phase with
      | reading r => exact fun hid => absurd hid hne
      | posting owed block later => exact fun hid => absurd hid hne
      | page | failed _ => trivial
  | waiting | listing | readingTip _ | capping _ _ => trivial

/-- How far a page is relied on after a rollback: one that is being read is cut there. -/
def Dispatcher.cut (d : Dispatcher) (height trust : Int) : Int :=
  match d with
  | .draining _ _ (.reading _) _ _ => min height trust
  | _ => trust

omit [Collation] in
theorem Kept.withHooks {chainId : String} {extractor : AddressExtractor} {store : StoreState}
    (h : Kept chainId extractor store) (t : Table WebhooksRow) :
    Kept chainId extractor { store with db := { store.db with webhooks := t } } :=
  ⟨h.heights, h.holds⟩

theorem Dispatcher.PageOk.rollback {height : Int} (h : d.PageOk c Accounted base id Seen now)
    (hstep : chainStep c.chainId c.extractor now (.rollback height) = some now')
    (hseen : ∀ seen trust, Seen seen trust → Seen' seen (d.cut height trust)) :
    d.PageOk c Accounted base id Seen' now' := by
  cases d with
  | draining tip hook phase pending more =>
      cases phase with
      | reading r =>
          intro hid
          obtain ⟨seen, trust, hseenAt, hread, hsame, hlt⟩ := h hid
          have hle : min height trust ≤ trust := Int.min_le_right _ _
          have hcut : ∀ target, ChainOp.rollback height = .rollback target →
              min height trust ≤ target := by
            rintro target ⟨⟩
            exact Int.min_le_left _ _
          obtain ⟨hstepped, hlt'⟩ := sameUpTo_chainStep (by omega) hcut hstep
          exact ⟨seen, min height trust, hseen seen trust hseenAt, hread.mono (fun _ hd => hd) hle,
            (hsame.mono hle).trans hstepped, hlt'⟩
      | posting owed block later =>
          intro hid
          obtain ⟨seen, trust, hseenAt, hposted⟩ := h hid
          exact ⟨seen, trust, hseen seen trust hseenAt, hposted⟩
      | page | failed _ => trivial
  | waiting | listing | readingTip _ | capping _ _ => trivial

theorem Dispatcher.PageOk.insert {blocks : List IndexableBlock}
    (h : d.PageOk c Accounted base id Seen now)
    (hstep : chainStep c.chainId c.extractor now (.insert blocks) = some now')
    (hseen : ∀ seen trust, Seen seen trust → Seen' seen trust) :
    d.PageOk c Accounted base id Seen' now' := by
  apply h.mono (fun _ hd => hd) hseen
  intro trust db hsame hlt
  obtain ⟨hstepped, hlt'⟩ := sameUpTo_chainStep hlt (fun _ => ChainOp.noConfusion) hstep
  exact ⟨hsame.trans hstepped, hlt'⟩

variable {s s' : HookState} {op : HookOp}

theorem HookState.Stepped.kept (hs : s.Stepped c op s')
    (h : Kept c.chainId c.extractor s.store) : Kept c.chainId c.extractor s'.store := by
  rcases op.store_or with ⟨chainOp, rfl⟩ | hop
  · cases hs with
    | store hstore => exact kept_step h hstore
  · obtain ⟨t, ht⟩ := hs.store_eq hop
    rw [ht]
    exact h.withHooks t

/-- What a step of the task, or of another, makes of the page. A page starts at the store of
its first statement, and a block of it may only be marked where the page is relied on. -/
theorem HookState.Stepped.pageOk (hs : s.Stepped c op s') (hop : ∀ chainOp, op ≠ .store chainOp)
    (hsane : s.Sane c) (hkept : Kept c.chainId c.extractor s.store)
    (h : op ≠ .select → s.dispatcher.PageOk c Accounted base id Seen s.store)
    (hmono : ∀ d, Accounted d → Accounted' d)
    (hseen : ∀ seen trust, op ≠ .select → Seen seen trust → Seen' seen trust)
    (hselect : ∀ tip hook r pending more, op = .select →
      s'.dispatcher = .draining tip hook (.reading r) pending more → hook.id = id → r.rows ≠ [] →
      r.rows = selectBlocks s.store.db c.chainId (hook.cursorHeight + 1) tip c.pageSize →
      Covers c Accounted' base hook s.store hook.cursorHeight ∧
        ∃ trust, Seen' s.store trust ∧ trust < s.store.kept.length)
    (hpost : ∀ tip hook delivery owed block later pending more, op = .post none →
      s.dispatcher = .draining tip hook (.posting (delivery :: owed) block later) pending more →
      hook.id = id → Accounted' delivery)
    (hmark : ∀ tip hook block later pending more seen trust, op = .mark →
      s.dispatcher = .draining tip hook (.posting [] block later) pending more → hook.id = id →
      blockIsStored s.store.db c.chainId block.height block.hash = true → Seen seen trust →
      PagePosted c Accounted base hook [] block later seen trust → block.height ≤ trust) :
    s'.dispatcher.PageOk c Accounted' base id Seen' s'.store := by
  obtain ⟨t, ht⟩ := hs.store_eq hop
  have hnow : ∀ trust db, SameUpTo c.chainId trust db s.store.db → trust < s.store.kept.length →
      SameUpTo c.chainId trust db s'.store.db ∧ trust < s'.store.kept.length := by
    intro trust db hsame hlt
    rw [ht]
    exact ⟨hsame.withHooks t, hlt⟩
  have hstays : op ≠ .select → s.dispatcher.PageOk c Accounted' base id Seen' s'.store :=
    fun hne => (h hne).mono hmono (fun seen trust => hseen seen trust hne) hnow
  cases hs with
  | store _ => exact absurd rfl (hop _)
  | status | refused | register _ | upsert _ _ | remove => exact hstays HookOp.noConfusion
  | restart | wake _ | allDisabled _ | list _ | noTip _ | readTip _ | failEarly | fail _
  | postFailed _ => trivial
  | cap _ _ | record _ _ => exact Dispatcher.pageOk_proceed _ _ _
  | selectNone _ | readNone _ | markMissed _ _ => exact Dispatcher.pageOk_proceed _ _ _
  | @select tip hook pending more rows hphase hrows hne =>
      intro hid
      obtain ⟨hcovers, trust, hseenAt, hlt⟩ :=
        hselect tip hook _ pending more rfl rfl hid hne hrows.symm
      exact ⟨s.store, trust, hseenAt, .start hkept hcovers hrows trust, .refl, hlt⟩
  | @readActions tip hook pending more r found hphase hnone hfound =>
      intro hid
      have hpage := hstays HookOp.noConfusion
      rw [hphase] at hpage
      obtain ⟨seen, trust, hseenAt, hread, hsame, hlt⟩ := hpage hid
      exact ⟨seen, trust, hseenAt, hread.withActions hsame hfound, hsame, hlt⟩
  | @read tip hook pending more r found block later hphase hsome hblocks =>
      intro hid
      have hpage := hstays HookOp.noConfusion
      rw [hphase] at hpage
      obtain ⟨seen, trust, hseenAt, hread, hsame, _⟩ := hpage hid
      exact ⟨seen, trust, hseenAt, hread.posted hsome hsame hblocks⟩
  | @post tip hook pending more delivery owed block later hphase =>
      intro hid
      have hpage := h HookOp.noConfusion
      rw [hphase] at hpage
      obtain ⟨seen, trust, hseenAt, hposted⟩ := hpage hid
      have hdelivery := hpost tip hook delivery owed block later pending more rfl hphase hid
      exact ⟨seen, trust, hseen seen trust HookOp.noConfusion hseenAt,
        hposted.post hmono hdelivery⟩
  | @mark tip hook pending more block later hphase hfound =>
      cases later with
      | nil => exact Dispatcher.pageOk_proceed _ _ _
      | cons next later =>
          intro hid
          have hpage := h HookOp.noConfusion
          rw [hphase] at hpage
          obtain ⟨seen, trust, hseenAt, hposted⟩ := hpage hid
          obtain ⟨w, hw, _, hstored⟩ := found_webhookDelivered.mp hfound
          rw [(hsane.rows w hw).1] at hstored
          have hle := hmark tip hook block _ pending more seen trust rfl hphase hid hstored
            hseenAt hposted
          exact ⟨seen, trust, hseen seen trust HookOp.noConfusion hseenAt,
            (hposted.advance hle).mono hmono⟩

end

end Retracer
