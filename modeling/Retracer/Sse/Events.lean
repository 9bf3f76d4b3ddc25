import Mathlib.Data.List.Forall2
import Retracer.Rest.Search
import Retracer.Sse.Handoff
import Retracer.Sse.LiveFilter
import Retracer.Storage.AuditReads

/-! # Event streams

The streams of actions and of rejections flatten the block stream: an event for each action of a
block, or for each rejection, that concerns the address. A client comes back with the height
after that of its last event.
-/

namespace Retracer

open KeyedTable Sorting Execution Traverse

/-! ## The events -/

/-- What follows `id:` and `data:`. -/
structure SseEvent (α : Type) where
  id : String
  data : α

/-- `stream_actions`. -/
def actionEvents (extractor : AddressExtractor) (address : Option String) (row : BlockRow) :
    List (SseEvent ActionRow) :=
  (row.actions.filter fun action => address.all fun a =>
    actionMatchesAddress extractor action a).map fun action =>
      ⟨toString action.blockHeight ++ ":" ++ toString action.indexInBlock, action⟩

/-- `stream_dropped`. -/
def droppedEvents (address : Option String) (row : BlockRow) : List (SseEvent DroppedEvent) :=
  (row.dropped.filter fun d => address.all fun a => d.sender = a).map fun dropped =>
    ⟨toString dropped.blockHeight ++ ":" ++ dropped.signature, dropped, row.timestamp⟩

/-- What is checked before the stream is opened. -/
def checkStreamAddress (chain : RestChain) (address : Option String) : Except LookupError Unit :=
  if address.any fun a => chain.addressValidator.any fun valid => !valid a then
    .error (.badRequest "not a valid address for this chain")
  else .ok ()

/-- What the client has been sent. -/
def streamActions (chain : RestChain) (extractor : AddressExtractor) (address : Option String)
    (blocks : BlockStream) : Except LookupError (List (SseEvent ActionRow)) := do
  checkStreamAddress chain address
  return blocks.emitted.flatMap (actionEvents extractor address)

def streamDropped (chain : RestChain) (address : Option String) (blocks : BlockStream) :
    Except LookupError (List (SseEvent DroppedEvent)) := do
  checkStreamAddress chain address
  return blocks.emitted.flatMap (droppedEvents address)

theorem streamActions_eq_ok {chain : RestChain} {extractor : AddressExtractor}
    {address : Option String} {blocks : BlockStream} {events : List (SseEvent ActionRow)}
    (h : streamActions chain extractor address blocks = .ok events) :
    events = blocks.emitted.flatMap (actionEvents extractor address) := by
  unfold streamActions checkStreamAddress at h
  split at h <;> cases h
  rfl

theorem streamDropped_eq_ok {chain : RestChain} {address : Option String} {blocks : BlockStream}
    {events : List (SseEvent DroppedEvent)}
    (h : streamDropped chain address blocks = .ok events) :
    events = blocks.emitted.flatMap (droppedEvents address) := by
  unfold streamDropped checkStreamAddress at h
  split at h <;> cases h
  rfl

/-! ## The row of a block, broadcast and stored -/

/-- The same block. The rejections may come in another order. -/
structure BlockRow.Like (row wire : BlockRow) : Prop where
  height : row.height = wire.height
  timestamp : row.timestamp = wire.timestamp
  actions : row.actions = wire.actions
  dropped : row.dropped.Perm wire.dropped

/-- No action comes twice in the chain, and no rejection twice in a block. -/
structure DistinctNames (blocks : List IndexableBlock) : Prop where
  actions : (blocks.flatMap (·.actionHashes)).Nodup
  dropped : ∀ b ∈ blocks, (b.dropped.map (·.signature)).Nodup

theorem DistinctNames.initial {blocks more : List IndexableBlock}
    (h : DistinctNames (blocks ++ more)) : DistinctNames blocks := by
  constructor
  · have hall := h.actions
    rw [List.flatMap_append] at hall
    exact (List.nodup_append.mp hall).1
  · intro b hb
    exact h.dropped b (List.mem_append_left _ hb)

section

variable [Postgres] {chainId : String} {extractor : AddressExtractor} {s : StoreState}

theorem Kept.actionHash_mem (h : Kept chainId extractor s) {hash : String}
    (hmem : (chainId, hash) ∈ s.db.actions.rows.map key) :
    hash ∈ s.kept.flatMap (·.actionHashes) := by
  rw [h.actions_eq] at hmem
  obtain ⟨a, ha, hkey⟩ := List.mem_map.mp hmem
  obtain ⟨block, hblock, hin⟩ := List.mem_flatMap.mp (distinctOn_sublist.subset ha)
  cases hbuild : BlockWrites.build block block.height extractor with
  | none =>
      rw [hbuild] at hin
      cases hin
  | some w =>
      rw [hbuild] at hin
      have hkeys := List.mem_map_of_mem (f := key) hin
      rw [Option.elim_some, keys_actionsRows chainId hbuild, hkey] at hkeys
      obtain ⟨hash', hhash, heq⟩ := List.mem_map.mp hkeys
      cases heq
      exact List.mem_flatMap.mpr ⟨block, hblock, hhash⟩

theorem insertBlocks_concat {db db' : Database} {blocks : List IndexableBlock}
    {last : IndexableBlock} (h : insertBlocks db chainId (blocks ++ [last]) extractor = some db') :
    ∃ mid, insertBlocks db chainId blocks extractor = some mid ∧
      insertBlockInTx chainId extractor mid last = some db' := by
  unfold insertBlocks at h
  rw [List.foldlM_append, Option.bind_eq_bind, Option.bind_eq_some_iff] at h
  obtain ⟨mid, hmid, hlast⟩ := h
  refine ⟨mid, hmid, ?_⟩
  rw [List.foldlM_cons, Option.bind_eq_bind, Option.bind_eq_some_iff] at hlast
  obtain ⟨_, hput, hnil⟩ := hlast
  cases hnil
  exact hput

/-- A block that was stored reads as it was broadcast. -/
theorem Kept.storedBlock_like [Collation] (h : Kept chainId extractor s)
    (hdistinct : DistinctNames s.kept) {n : Nat} {block : IndexableBlock}
    (hn : s.kept[n]? = some block) {row : BlockRow}
    (hrow : storedBlock s.db chainId n = some row) :
    ∃ wire, blockRowFromWire block = some wire ∧ row.Like wire := by
  have hlt : n < s.kept.length := (List.getElem?_eq_some_iff.mp hn).1
  have hheight : block.height = n := h.heights.getElem_height hn
  have htake : s.kept.take ((n : Int) + 1).toNat = s.kept.take n ++ [block] := by
    have hnat : ((n : Int) + 1).toNat = n + 1 := by omega
    rw [hnat, List.take_add_one, hn]
    rfl
  -- What is stored up to the block is what was when it was inserted.
  obtain ⟨t, ht, _⟩ := (h.rollback n).holds
  have hin : ConsecutiveFrom 0 (s.kept.take ((n : Int) + 1).toNat) := (h.rollback n).heights
  have hbefore : Kept chainId extractor ⟨t, s.kept.take ((n : Int) + 1).toNat⟩ :=
    ⟨hin, t, ht, rfl⟩
  have hsame : SameUpTo chainId n t s.db := by
    apply hbefore.sameUpTo h
    rw [List.take_take, Nat.min_self]
  rw [htake] at hin
  have hfilled : insertBlocks .empty chainId (s.kept.take n ++ [block]) extractor = some t := by
    rw [← htake]
    exact ht
  obtain ⟨mid, hmid, hlast⟩ := insertBlocks_concat hfilled
  have hkept : Kept chainId extractor ⟨mid, s.kept.take n⟩ := ⟨hin.initial, mid, hmid, rfl⟩
  obtain ⟨writes, tokens, hwritten⟩ := written_of_insert hlast
  have hfree : mid.blocks.find? (chainId, (block.height : Int)) = none := by
    cases hfind : mid.blocks.find? (chainId, (block.height : Int)) with
    | none => rfl
    | some b =>
        obtain ⟨hb, hkey⟩ := Table.find?_eq_some_iff.mp hfind
        have hrowlt : b.height < (s.kept.take n).length := hkept.row_lt hb
        have hrowheight : b.height = block.height := congrArg Prod.snd hkey
        rw [List.length_take] at hrowlt
        omega
  have hanchored : Anchored mid := anchored_empty.insertBlocks hmid
  have hnames : ((s.kept.take n ++ [block]).flatMap (·.actionHashes)).Nodup := by
    have hall := hdistinct
    rw [← List.take_append_drop ((n : Int) + 1).toNat s.kept, htake] at hall
    exact hall.initial.actions
  rw [List.flatMap_append, List.flatMap_singleton] at hnames
  obtain ⟨_, hown, hapart⟩ := List.nodup_append.mp hnames
  have hnew : ∀ hash ∈ block.actionHashes, (chainId, hash) ∉ mid.actions.rows.map key := by
    intro hash hhash hmem
    exact hapart hash (hkept.actionHash_mem hmem) hash hhash rfl
  have hselect := hwritten.selectActions hanchored hfree hown hnew
  have hdropped := hwritten.droppedInRange hanchored hfree
    (hdistinct.dropped block (List.mem_of_getElem? hn))
  rw [hheight] at hselect hdropped
  have hdropped' := (hsame.droppedInRange (Int.le_refl _)).trans hdropped
  have hselect' := (hsame.selectActions (Int.le_refl _)).trans hselect
  obtain ⟨b, hb, hrowheight, _, htime⟩ := h.find_block hn
  rw [storedBlock, hb, Option.bind_some, hselect', hdropped', Option.map_some] at hrow
  cases hrow
  refine ⟨_, blockRowFromWire_eq hwritten.build chainId, hrowheight, ?_, ?_, ?_⟩
  · simp only [blockRow, blocksRow, htime]
  · rw [hheight]
    rfl
  · have hperm := (List.perm_insertionSort bySignature
      (blockRows chainId block writes tokens .droppedActions)).map DroppedActionsRow.read
    rw [read_dropped] at hperm
    exact hperm

/-! ## What a stream shows -/

/-- The row is that of a kept block, if no name comes twice. -/
def BlockRow.Shows (kept : List IndexableBlock) (row : BlockRow) : Prop :=
  DistinctNames kept → ∃ block ∈ kept, ∃ wire, blockRowFromWire block = some wire ∧ row.Like wire

omit [Postgres] in
theorem BlockRow.Shows.append {kept : List IndexableBlock} {row : BlockRow} (h : row.Shows kept)
    (more : List IndexableBlock) : row.Shows (kept ++ more) := by
  intro hdistinct
  obtain ⟨block, hblock, hwire⟩ := h hdistinct.initial
  exact ⟨block, List.mem_append_left _ hblock, hwire⟩

theorem Kept.shows [Collation] (h : Kept chainId extractor s) {height : Int} {row : BlockRow}
    (hrow : storedBlock s.db chainId height = some row) : row.Shows s.kept := by
  intro hdistinct
  have hfound := hrow
  rw [storedBlock, Option.bind_eq_some_iff] at hfound
  obtain ⟨b, hb, _⟩ := hfound
  obtain ⟨hin, hkey⟩ := Table.find?_eq_some_iff.mp hb
  obtain ⟨n, block, hn, hheight, _⟩ := h.block_of_row hin
  have hrowheight : b.height = height := congrArg Prod.snd hkey
  rw [← hrowheight, ← hheight] at hrow
  exact ⟨block, List.mem_of_getElem? hn, h.storedBlock_like hdistinct hn hrow⟩

variable {c : StreamConfig}

/-- A page that is being read is as of a store with fewer blocks. -/
def OpenRead.Before (c : StreamConfig) (store : StoreState) (r : OpenRead) : Prop :=
  ∃ old : StoreState, Kept c.chainId c.extractor old ∧ (∃ more, store.kept = old.kept ++ more) ∧
    r.hi < old.kept.length ∧ r.AsOf old.db c.chainId ∧ SameUpTo c.chainId r.hi old.db store.db

structure BlockStream.Shows (c : StreamConfig) (store : StoreState) (stream : BlockStream) :
    Prop where
  emitted : ∀ row ∈ stream.emitted, row.Shows store.kept
  page : ∀ next page, stream.phase = .replay next page → ∀ row ∈ page, row.Shows store.kept
  reading : ∀ r, stream.phase = .reading r → r.Before c store

theorem BlockStream.Shows.stop {store : StoreState} {stream : BlockStream}
    (h : stream.Shows c store) : stream.stop.Shows c store :=
  ⟨h.emitted, fun _ _ hphase => (nomatch hphase), fun _ hphase => nomatch hphase⟩

/-- Of blocks that are committed meanwhile a stream does not know. -/
theorem BlockStream.Shows.commit {store : StoreState} {stream : BlockStream}
    (h : stream.Shows c store) {blocks : List IndexableBlock} {db : Database}
    (hnext : ConsecutiveFrom store.kept.length blocks)
    (hinsert : insertBlocks store.db c.chainId blocks c.extractor = some db) :
    stream.Shows c ⟨db, store.kept ++ blocks⟩ where
  emitted := fun row hrow => (h.emitted row hrow).append blocks
  page := fun next page hphase row hrow => (h.page next page hphase row hrow).append blocks
  reading := by
    intro r hphase
    obtain ⟨old, hold, ⟨more, hmore⟩, hlt, hasOf, hsame⟩ := h.reading r hphase
    refine ⟨old, hold, ⟨more ++ blocks, ?_⟩, hlt, hasOf, hsame.trans ?_⟩
    · rw [hmore, List.append_assoc]
    · apply SameUpTo.insertBlocks hinsert
      intro b hb
      have hle := hnext.le_height hb
      rw [hmore, List.length_append] at hle
      omega

theorem BlockStream.Shows.advance [Collation] {store : StoreState} {sent : List BlockRow}
    {stream stream' : BlockStream} (h : stream.Shows c store)
    (hkept : Kept c.chainId c.extractor store) (hsent : ∀ row ∈ sent, row.Shows store.kept)
    (hs : stream.Advanced c store.db sent stream') : stream'.Shows c store := by
  cases hs with
  | @emit next row page hphase =>
      have hpage := h.page next (row :: page) hphase
      refine ⟨?_, ?_, fun _ hreading => nomatch hreading⟩
      · intro row' hrow'
        rcases List.mem_append.mp hrow' with hold | hnew
        · exact h.emitted row' hold
        · rw [List.mem_singleton.mp hnew]
          exact hpage row List.mem_cons_self
      · intro next' page' hphase' row' hrow'
        cases hphase'
        exact hpage row' (List.mem_cons_of_mem _ hrow')
  | finish hphase hover =>
      exact ⟨h.emitted, fun _ _ hphase' => (nomatch hphase'), fun _ hreading => nomatch hreading⟩
  | @start next rows hphase hmore hrows hne =>
      refine ⟨h.emitted, fun _ _ hphase' => (nomatch hphase'), ?_⟩
      intro r hreading
      cases hreading
      have hselect : (BlocksRead.inRange next stream.ceiling c.pageSize).select store.db
          c.chainId = rows := hrows
      have hasOf := (OpenRead.asOf_select store.db c.chainId
        (.inRange next stream.ceiling c.pageSize)).resolve_right (by rwa [hselect])
      rw [hselect] at hasOf
      refine ⟨store, hkept, ⟨[], (List.append_nil _).symm⟩, ?_, hasOf, .refl⟩
      apply OpenRead.hi_lt hne
      intro b hb
      exact hkept.row_lt (Table.find?_eq_some_iff.mp (hasOf.stored b hb)).1
  | empty hphase hmore hrows => exact h.stop
  | @actions r found hphase hnone hfound =>
      refine ⟨h.emitted, fun _ _ hphase' => (nomatch hphase'), ?_⟩
      intro r' hreading
      cases hreading
      obtain ⟨old, hold, hmore, hlt, hasOf, hsame⟩ := h.reading r hphase
      refine ⟨old, hold, hmore, hlt, ⟨hasOf.stored, hasOf.bounds, hasOf.alone, ?_⟩, hsame⟩
      intro actions heq
      cases heq
      exact (hsame.selectActions (Int.le_refl _)).symm.trans hfound
  | undecoded hphase hnone hfailed => exact h.stop
  | @page r found blocks last hphase hsome hblocks hlast =>
      refine ⟨h.emitted, ?_, fun _ hreading => nomatch hreading⟩
      intro next' page' hphase' row hrow
      cases hphase'
      obtain ⟨old, hold, ⟨more, hmore⟩, _, hasOf, hsame⟩ := h.reading r hphase
      rw [← hblocks] at hrow
      have hshows := (hold.shows (hasOf.assemble hsame hsome hrow)).append more
      rwa [← hmore] at hshows
  | noBlocks hphase hsome hblocks => exact h.stop
  | lag hphase =>
      exact ⟨h.emitted, fun _ _ hphase' => (nomatch hphase'), fun _ hreading => nomatch hreading⟩
  | @receive row hphase hrow =>
      have hphase' : (stream.receive row).phase = .live := hphase
      refine ⟨?_, fun _ _ hreplay => ?_, fun _ hreading => ?_⟩
      · intro row' hrow'
        rcases List.mem_append.mp hrow' with hold | hnew
        · exact h.emitted row' hold
        · split at hnew
          · rw [List.mem_singleton.mp hnew]
            exact hsent row (List.mem_of_getElem? hrow)
          · cases hnew
      · rw [hphase'] at hreplay
        cases hreplay
      · rw [hphase'] at hreading
        cases hreading

structure StreamState.Shows (c : StreamConfig) (s : StreamState) : Prop where
  kept : Kept c.chainId c.extractor s.store
  rows : ∀ row ∈ s.sent ++ s.unsent, row.Shows s.store.kept
  stream : ∀ stream, s.subscriber = .streaming stream → stream.Shows c s.store

omit [Postgres] in
theorem Subscriber.stream_of_note {blocks : List IndexableBlock} {subscriber : Subscriber}
    {noted : BlockStream} (h : subscriber.note blocks = .streaming noted) :
    ∃ stream, subscriber = .streaming stream ∧
      noted = { stream with committed := stream.committed ++ blocks } := by
  cases subscriber with
  | absent => cases h
  | subscribed fromHeight position => cases h
  | streaming stream =>
      cases h
      exact ⟨stream, rfl, rfl⟩

theorem shows_step [Collation] {s s' : StreamState} {op : StreamOp} (h : s.Shows c)
    (hs : s.Stepped c op s') (hsmooth : op.Smooth) : s'.Shows c := by
  cases hs with
  | refused => exact h
  | @commit blocks db hsent hnext hinsert =>
      refine ⟨h.kept.insert hnext hinsert, ?_, ?_⟩
      · intro row hrow
        rcases List.mem_append.mp hrow with hold | hnew
        · exact (h.rows row (List.mem_append_left _ hold)).append blocks
        · obtain ⟨block, hblock, hwire⟩ := List.mem_filterMap.mp hnew
          exact fun _ => ⟨block, List.mem_append_right _ hblock, row, hwire, rfl, rfl, rfl, .refl _⟩
      · intro noted hnoted
        obtain ⟨stream, hstream, rfl⟩ := Subscriber.stream_of_note hnoted
        obtain ⟨hemitted, hpage, hreading⟩ := (h.stream stream hstream).commit hnext hinsert
        exact ⟨hemitted, hpage, hreading⟩
  | @broadcast row rest hunsent =>
      refine ⟨h.kept, ?_, h.stream⟩
      intro row' hrow'
      apply h.rows
      rw [hunsent]
      simpa using hrow'
  | rollback _ _ => exact absurd hsmooth id
  | subscribe _ => exact ⟨h.kept, h.rows, fun stream hstream => nomatch hstream⟩
  | @readTip fromHeight position hsub =>
      refine ⟨h.kept, h.rows, ?_⟩
      intro stream hstream
      cases hstream
      refine ⟨fun _ hrow => (nomatch hrow), ?_, fun _ hreading => nomatch hreading⟩
      intro next page hphase row hrow
      cases hphase
      cases hrow
  | @advance old new hsub hadvance =>
      refine ⟨h.kept, h.rows, ?_⟩
      intro stream hstream
      cases hstream
      apply (h.stream old hsub).advance h.kept ?_ hadvance
      exact fun row hrow => h.rows row (List.mem_append_left _ hrow)
  | fail _ _ => exact absurd hsmooth id

end

/-! ## The rows that were emitted -/

/-- Rows of consecutive heights are those of the blocks there. -/
theorem forall₂_emitted {kept : List IndexableBlock} {rows : List BlockRow} {f : Nat}
    (hin : ConsecutiveFrom 0 kept) (hdistinct : DistinctNames kept)
    (hheights : rows.map (·.height) = heightsFrom f rows.length)
    (hshows : ∀ row ∈ rows, row.Shows kept) :
    List.Forall₂ (fun row block => ∃ wire, blockRowFromWire block = some wire ∧ row.Like wire)
      rows ((kept.drop f).take rows.length) := by
  have hat : ∀ i (hi : i < rows.length), ∃ block, kept[f + i]? = some block ∧
      ∃ wire, blockRowFromWire block = some wire ∧ rows[i].Like wire := by
    intro i hi
    obtain ⟨block, hblock, wire, hwire, hlike⟩ := hshows rows[i] (List.getElem_mem hi) hdistinct
    have hrow : rows[i].height = ((f + i : Nat) : Int) := by
      have hmap : (rows.map (·.height))[i]? = some rows[i].height := by
        rw [List.getElem?_map, List.getElem?_eq_getElem hi]
        rfl
      rw [hheights, heightsFrom, List.getElem?_map, List.getElem?_range' hi] at hmap
      simpa using hmap.symm
    obtain ⟨n, hn⟩ := List.getElem?_of_mem hblock
    have hheight := hin.getElem_height hn
    have hsame : (block.height : Int) = ((f + i : Nat) : Int) := by
      rw [← hrow, hlike.height, (blockRowFromWire_spec hwire).1]
    have hindex : n = f + i := by omega
    exact ⟨block, hindex ▸ hn, wire, hwire, hlike⟩
  rw [List.forall₂_iff_get]
  constructor
  · have hlength : f + rows.length ≤ kept.length ∨ rows.length = 0 := by
      cases hrows : rows.length with
      | zero => exact Or.inr rfl
      | succ n =>
          obtain ⟨block, hblock, _⟩ := hat n (by omega)
          have hlt := (List.getElem?_eq_some_iff.mp hblock).1
          exact Or.inl (by omega)
    rw [List.length_take, List.length_drop]
    omega
  · intro i hi hblocks
    obtain ⟨block, hblock, hwire⟩ := hat i hi
    have hget : ((kept.drop f).take rows.length).get ⟨i, hblocks⟩ = block := by
      rw [List.get_eq_getElem, List.getElem_take, List.getElem_drop]
      exact (List.getElem?_eq_some_iff.mp hblock).2
    rw [hget]
    exact hwire

/-! ## The events of the blocks -/

/-- The events that go out when the block is broadcast. -/
def IndexableBlock.actionEvents (extractor : AddressExtractor) (address : Option String)
    (block : IndexableBlock) : List (SseEvent ActionRow) :=
  (blockRowFromWire block).elim [] (Retracer.actionEvents extractor address)

def IndexableBlock.droppedEvents (address : Option String) (block : IndexableBlock) :
    List (SseEvent DroppedEvent) :=
  (blockRowFromWire block).elim [] (Retracer.droppedEvents address)

theorem flatMap_actionEvents {extractor : AddressExtractor} {address : Option String}
    {rows : List BlockRow} {blocks : List IndexableBlock}
    (h : List.Forall₂ (fun row block => ∃ wire, blockRowFromWire block = some wire ∧
      row.Like wire) rows blocks) :
    rows.flatMap (actionEvents extractor address) =
      blocks.flatMap (·.actionEvents extractor address) := by
  induction h with
  | nil => rfl
  | cons hhead _ ih =>
      obtain ⟨wire, hwire, hlike⟩ := hhead
      rw [List.flatMap_cons, List.flatMap_cons, ih, IndexableBlock.actionEvents, hwire,
        Option.elim_some]
      simp only [actionEvents, hlike.actions]

theorem perm_flatMap_droppedEvents {address : Option String} {rows : List BlockRow}
    {blocks : List IndexableBlock}
    (h : List.Forall₂ (fun row block => ∃ wire, blockRowFromWire block = some wire ∧
      row.Like wire) rows blocks) :
    (rows.flatMap (droppedEvents address)).Perm (blocks.flatMap (·.droppedEvents address)) := by
  induction h with
  | nil => rfl
  | cons hhead _ ih =>
      obtain ⟨wire, hwire, hlike⟩ := hhead
      rw [List.flatMap_cons, List.flatMap_cons, IndexableBlock.droppedEvents, hwire,
        Option.elim_some]
      refine List.Perm.append ?_ ih
      unfold droppedEvents
      rw [hlike.timestamp]
      exact (hlike.dropped.filter _).map _

/-- A rejection names the height of its row. -/
theorem height_of_droppedEvents {block : IndexableBlock} {row wire : BlockRow}
    (hwire : blockRowFromWire block = some wire) (hlike : row.Like wire) {address : Option String} :
    ∀ e ∈ droppedEvents address row, e.data.dropped.blockHeight = row.height := by
  intro e he
  obtain ⟨d, hd, rfl⟩ := List.mem_map.mp he
  have hmem : d ∈ wire.dropped := hlike.dropped.mem_iff.mp (List.mem_of_mem_filter hd)
  rw [hlike.height]
  simp only [blockRowFromWire, Option.bind_eq_bind, Option.bind_eq_some_iff,
    Option.some.injEq] at hwire
  obtain ⟨actions, _, rfl⟩ := hwire
  cases heffects : block.effects with
  | none =>
      rw [heffects] at hmem
      cases hmem
  | some effects =>
      rw [heffects] at hmem
      obtain ⟨effect, _, rfl⟩ := List.mem_map.mp hmem
      rfl

/-- An action that comes before another in the chain. -/
def ActionRow.Precedes (a b : ActionRow) : Prop :=
  a.blockHeight < b.blockHeight ∨ a.blockHeight = b.blockHeight ∧ a.indexInBlock < b.indexInBlock

theorem positions_of_wire {block : IndexableBlock} {wire : BlockRow}
    (h : blockRowFromWire block = some wire) :
    wire.actions.map (fun a => (a.blockHeight, a.indexInBlock)) =
      (List.range block.actions.length).map fun i => ((block.height : Int), i) := by
  simp only [blockRowFromWire, Option.bind_eq_bind, Option.bind_eq_some_iff,
    Option.some.injEq] at h
  obtain ⟨actions, hactions, rfl⟩ := h
  have hpositions : actions.map (fun a => (a.blockHeight, a.indexInBlock)) =
      block.actions.zipIdx.map fun entry => ((block.height : Int), entry.2) := by
    apply map_of_mapM hactions
    rintro ⟨action, index⟩ row hrow
    obtain ⟨json, _, heq⟩ := Option.bind_eq_some_iff.mp hrow
    cases heq
    rfl
  have hindexes : block.actions.zipIdx.map (fun entry => ((block.height : Int), entry.2)) =
      (block.actions.zipIdx.map Prod.snd).map fun i => ((block.height : Int), i) := by
    rw [List.map_map]
    rfl
  rw [hpositions, hindexes, List.zipIdx_map_snd, List.range_eq_range']

theorem actionEvents_of_wire {extractor : AddressExtractor} {address : Option String}
    {block : IndexableBlock} :
    (block.actionEvents extractor address).Pairwise (fun a b => a.data.Precedes b.data) ∧
      ∀ e ∈ block.actionEvents extractor address, e.data.blockHeight = block.height := by
  unfold IndexableBlock.actionEvents
  cases hwire : blockRowFromWire block with
  | none => exact ⟨List.Pairwise.nil, fun e he => nomatch he⟩
  | some wire =>
      have hpositions := positions_of_wire hwire
      have hheight : ∀ a ∈ wire.actions, a.blockHeight = block.height := by
        intro a ha
        have hmem := List.mem_map_of_mem (f := fun a => (a.blockHeight, a.indexInBlock)) ha
        rw [hpositions] at hmem
        obtain ⟨i, _, heq⟩ := List.mem_map.mp hmem
        exact (congrArg Prod.fst heq).symm
      have hascending : wire.actions.Pairwise ActionRow.Precedes := by
        have hrange : ((List.range block.actions.length).map fun i =>
            ((block.height : Int), i)).Pairwise fun p q => p.1 < q.1 ∨ p.1 = q.1 ∧ p.2 < q.2 := by
          rw [List.pairwise_map]
          exact List.pairwise_lt_range.imp fun hlt => Or.inr ⟨rfl, hlt⟩
        rw [← hpositions, List.pairwise_map] at hrange
        exact hrange
      constructor
      · rw [Option.elim_some, actionEvents, List.pairwise_map]
        exact hascending.filter _
      · intro e he
        obtain ⟨a, ha, rfl⟩ := List.mem_map.mp he
        exact hheight a (List.mem_of_mem_filter ha)

/-- The events of ascending blocks come in the order of the chain. -/
theorem pairwise_actionEvents {extractor : AddressExtractor} {address : Option String}
    {blocks : List IndexableBlock}
    (hascending : blocks.Pairwise fun a b => (a.height : Int) < b.height) :
    (blocks.flatMap (·.actionEvents extractor address)).Pairwise fun a b =>
      a.data.Precedes b.data := by
  rw [List.pairwise_flatMap]
  refine ⟨fun block _ => actionEvents_of_wire.1, hascending.imp ?_⟩
  intro a b hlt e he e' he'
  refine Or.inl ?_
  rw [actionEvents_of_wire.2 e he, actionEvents_of_wire.2 e' he']
  exact hlt

/-! ## Along a run -/

section

variable [Postgres] [Collation] {c : StreamConfig} {s : StreamState} {stream : BlockStream}
  {f : Nat}

/-- A client that asked for the heights from `f` on, while nothing was rolled back and no read
failed. -/
structure Connected (c : StreamConfig) (s : StreamState) (stream : BlockStream) (f : Nat) :
    Prop where
  run : ∃ ops, (∀ op ∈ ops, op.Smooth) ∧ exec (streamStep c) {} ops = some s
  streaming : s.subscriber = .streaming stream
  asked : stream.fromHeight = some f
  fits : f < 2 ^ 63
  reached : f ≤ stream.ceiling + 1

/-- All is broadcast, and the client has nothing left to receive. -/
structure CaughtUp (c : StreamConfig) (s : StreamState) (stream : BlockStream) : Prop where
  idle : stream.advance c s.store.db s.sent = none
  following : stream.phase ≠ .lagged
  sent : s.unsent = []

/-- The stored blocks, and what became of the stream. -/
structure StreamedFrom (c : StreamConfig) (s : StreamState) (stream : BlockStream) (f : Nat) :
    Prop where
  heights : ConsecutiveFrom 0 s.store.kept
  ascending : s.store.kept.Pairwise fun a b => (a.height : Int) < b.height
  rows : stream.emitted.Pairwise fun a b => a.height < b.height
  shows : ∀ row ∈ stream.emitted, row.Shows s.store.kept
  emitted : DistinctNames s.store.kept →
    List.Forall₂ (fun row block => ∃ wire, blockRowFromWire block = some wire ∧ row.Like wire)
      stream.emitted ((s.store.kept.drop f).take stream.emitted.length)
  all : CaughtUp c s stream → stream.emitted.length = s.store.kept.length - f

theorem Connected.streamedFrom (h : Connected c s stream f) : StreamedFrom c s stream f := by
  obtain ⟨ops, hsmooth, hrun⟩ := h.run
  have hsteps : Always (streamStep c) (fun _ op _ => op.Smooth) {} ops := always_of_forall hsmooth
  have hforkFree : s.ForkFree c := by
    apply always_invariant _ ⟨trivial, kept_empty, rfl, rfl, fun _ h => nomatch h⟩ hsteps hrun
    intro s op s' h hs hsmooth
    exact forkFree_step h (stepped_of_streamStep hs) hsmooth
  have hshows : s.Shows c := by
    apply always_invariant _ ⟨kept_empty, fun _ hrow => (nomatch hrow), fun _ h => nomatch h⟩
      hsteps hrun
    intro s op s' h hs hsmooth
    exact shows_step h (stepped_of_streamStep hs) hsmooth
  have hgapless := hforkFree.stream stream h.streaming f h.asked h.fits h.reached
  refine ⟨hshows.kept.heights, hshows.kept.ascending, ?_,
    (hshows.stream stream h.streaming).emitted, fun hdistinct => ?_, fun hcaughtUp => ?_⟩
  · rw [← List.pairwise_map, hgapless.emitted_heights]
    exact pairwise_heightsFrom f stream.emitted.length
  · exact forall₂_emitted hshows.kept.heights hdistinct hgapless.emitted_heights
      (hshows.stream stream h.streaming).emitted
  · rcases BlockStream.idle_of_advance hcaughtUp.idle with hlagged | ⟨hlive, hdrained⟩
    · exact absurd hlagged hcaughtUp.following
    · have hall := hforkFree.sent_length
      rw [hcaughtUp.sent, List.length_nil] at hall
      have hposition := (hforkFree.shaped.of_streaming h.streaming).position_le
      exact hgapless.emitted_length hlive (by omega)

variable {chain : RestChain} {address : Option String}

omit [Postgres] in
theorem StreamedFrom.actionEvents (h : StreamedFrom c s stream f)
    (hdistinct : DistinctNames s.store.kept) {events : List (SseEvent ActionRow)}
    (hevents : streamActions chain c.extractor address stream = .ok events) :
    events = ((s.store.kept.drop f).take stream.emitted.length).flatMap
      (·.actionEvents c.extractor address) := by
  rw [streamActions_eq_ok hevents, flatMap_actionEvents (h.emitted hdistinct)]

omit [Postgres] in
theorem StreamedFrom.take_all (h : StreamedFrom c s stream f) (hcaughtUp : CaughtUp c s stream) :
    (s.store.kept.drop f).take stream.emitted.length = s.store.kept.drop f := by
  rw [h.all hcaughtUp, List.take_of_length_le]
  rw [List.length_drop]

omit [Postgres] in
theorem StreamedFrom.taken_ascending (h : StreamedFrom c s stream f) :
    ((s.store.kept.drop f).take stream.emitted.length).Pairwise fun a b =>
      (a.height : Int) < b.height :=
  h.ascending.sublist ((List.take_sublist _ _).trans (List.drop_sublist _ _))

/-- A client of the stream of actions is sent those of the stored blocks from `f` on that concern
its address, in the order of the chain, however many of them were read back and however many
came live. One that has caught up has them all. Of the rejections it is sent the same, in the
order of the chain up to their order within a block. -/
theorem events_of_kept_blocks (h : Connected c s stream f)
    (hdistinct : DistinctNames s.store.kept) :
    (∀ events, streamActions chain c.extractor address stream = .ok events →
      events.Pairwise (fun a b => a.data.Precedes b.data) ∧
        events = ((s.store.kept.drop f).take stream.emitted.length).flatMap
          (·.actionEvents c.extractor address)) ∧
      (∀ events, streamDropped chain address stream = .ok events →
        events.Pairwise (fun a b => a.data.dropped.blockHeight ≤ b.data.dropped.blockHeight) ∧
          events.Perm (((s.store.kept.drop f).take stream.emitted.length).flatMap
            (·.droppedEvents address))) ∧
      (CaughtUp c s stream →
        (s.store.kept.drop f).take stream.emitted.length = s.store.kept.drop f) := by
  have hstreamed := h.streamedFrom
  refine ⟨fun events hevents => ?_, fun events hevents => ?_, hstreamed.take_all⟩
  · have hblocks := hstreamed.actionEvents hdistinct hevents
    refine ⟨?_, hblocks⟩
    rw [hblocks]
    exact pairwise_actionEvents hstreamed.taken_ascending
  · have hsent := streamDropped_eq_ok hevents
    constructor
    · rw [hsent, List.pairwise_flatMap]
      have hheight : ∀ row ∈ stream.emitted, ∀ e ∈ droppedEvents address row,
          e.data.dropped.blockHeight = row.height := by
        intro row hrow
        obtain ⟨block, _, wire, hwire, hlike⟩ := hstreamed.shows row hrow hdistinct
        exact height_of_droppedEvents hwire hlike
      refine ⟨fun row hrow => ?_, hstreamed.rows.imp_of_mem ?_⟩
      · apply List.pairwise_of_forall_mem_list
        intro e he e' he'
        rw [hheight row hrow e he, hheight row hrow e' he']
      · intro a b ha hb hlt e he e' he'
        rw [hheight a ha e he, hheight b hb e' he']
        exact hlt.le
    · rw [hsent]
      exact perm_flatMap_droppedEvents (hstreamed.emitted hdistinct)

/-! ## A client that comes back -/

omit [Postgres] [Collation] in
theorem prefix_of_append {α : Type} {seen first rest : List α} {last : α}
    (hseen : seen <+: first ++ rest) (hlast : seen.getLast? = some last) (hnot : last ∉ rest) :
    seen <+: first := by
  rcases List.prefix_or_prefix_of_prefix hseen (List.prefix_append first rest) with hle | hge
  · exact hle
  · obtain ⟨beyond, rfl⟩ := hge
    rw [List.prefix_append_right_inj] at hseen
    cases hbeyond : beyond with
    | nil => exact ⟨[], by rw [List.append_nil, List.append_nil]⟩
    | cons e es =>
        rw [hbeyond, List.getLast?_append_cons] at hlast
        rw [hbeyond] at hseen
        exact absurd (hseen.subset (List.mem_of_getLast? hlast)) hnot

omit [Postgres] [Collation] in
theorem mem_actionEvents {extractor : AddressExtractor} {blocks : List IndexableBlock}
    {e : SseEvent ActionRow} (he : e ∈ blocks.flatMap (·.actionEvents extractor address)) :
    ∃ block ∈ blocks, e ∈ block.actionEvents extractor address ∧
      e.data.blockHeight = block.height := by
  obtain ⟨block, hblock, hin⟩ := List.mem_flatMap.mp he
  exact ⟨block, hblock, hin, actionEvents_of_wire.2 e hin⟩

omit [Postgres] [Collation] in
theorem ConsecutiveFrom.height_of_drop {blocks : List IndexableBlock} (h : ConsecutiveFrom 0 blocks)
    {n : Nat} {block : IndexableBlock} (hblock : block ∈ blocks.drop n) : n ≤ block.height := by
  obtain ⟨i, hi⟩ := List.getElem?_of_mem hblock
  rw [List.getElem?_drop] at hi
  rw [h.getElem_height hi]
  exact Nat.le_add_right n i

omit [Postgres] [Collation] in
theorem ConsecutiveFrom.height_of_take {blocks : List IndexableBlock} (h : ConsecutiveFrom 0 blocks)
    {n k : Nat} {block : IndexableBlock} (hblock : block ∈ (blocks.drop n).take k) :
    block.height < n + k := by
  obtain ⟨i, hi⟩ := List.getElem?_of_mem hblock
  rw [List.getElem?_take] at hi
  split at hi
  · next hlt =>
      rw [List.getElem?_drop] at hi
      rw [h.getElem_height hi]
      omega
  · cases hi

omit [Postgres] [Collation] in
theorem ConsecutiveFrom.eq_of_height {blocks : List IndexableBlock} (h : ConsecutiveFrom 0 blocks)
    {a b : IndexableBlock} (ha : a ∈ blocks) (hb : b ∈ blocks) (hheight : a.height = b.height) :
    a = b := by
  obtain ⟨i, hi⟩ := List.getElem?_of_mem ha
  obtain ⟨j, hj⟩ := List.getElem?_of_mem hb
  rw [h.getElem_height hi, h.getElem_height hj] at hheight
  rw [hheight, hj] at hi
  exact (Option.some.inj hi).symm

omit [Postgres] [Collation] in
/-- What is left of the block of the last event that was seen, before those of the blocks above. -/
theorem exists_missed {kept : List IndexableBlock} {extractor : AddressExtractor}
    {seen : List (SseEvent ActionRow)} {last : SseEvent ActionRow} {g : Nat}
    (hkept : ConsecutiveFrom 0 kept)
    (hascending : kept.Pairwise fun a b => (a.height : Int) < b.height)
    (hseen : seen <+: (kept.drop f).flatMap (·.actionEvents extractor address))
    (hlast : seen.getLast? = some last) (hg : (g : Int) = last.data.blockHeight + 1) :
    ∃ missed, seen ++ missed ++ (kept.drop g).flatMap (·.actionEvents extractor address) =
        (kept.drop f).flatMap (·.actionEvents extractor address) ∧
      (∀ e ∈ missed, e.data.blockHeight = last.data.blockHeight ∧ e ∉ seen) ∧
      ∀ e ∈ (kept.drop f).flatMap (·.actionEvents extractor address),
        e.data.blockHeight = last.data.blockHeight → e ∈ seen ++ missed := by
  have hlastSeen : last ∈ seen := List.mem_of_getLast? hlast
  have hfg : f < g := by
    obtain ⟨block, hblock, _, hheight⟩ := mem_actionEvents (hseen.subset hlastSeen)
    have hle := hkept.height_of_drop hblock
    omega
  let below := ((kept.drop f).take (g - f)).flatMap (·.actionEvents extractor address)
  let above := (kept.drop g).flatMap (·.actionEvents extractor address)
  have hall : (kept.drop f).flatMap (·.actionEvents extractor address) = below ++ above := by
    have hdrop : (kept.drop f).drop (g - f) = kept.drop g := by
      rw [List.drop_drop]
      congr 1
      omega
    show _ = _ ++ (kept.drop g).flatMap _
    rw [← hdrop, ← List.flatMap_append, List.take_append_drop]
  have hbelow : ∀ e ∈ below, e.data.blockHeight < g := by
    intro e he
    obtain ⟨block, hblock, _, hheight⟩ := mem_actionEvents he
    have hlt := hkept.height_of_take hblock
    omega
  have habove : ∀ e ∈ above, g ≤ e.data.blockHeight := by
    intro e he
    obtain ⟨block, hblock, _, hheight⟩ := mem_actionEvents he
    have hle := hkept.height_of_drop hblock
    omega
  obtain ⟨missed, hmissed⟩ : seen <+: below := by
    apply prefix_of_append (hall ▸ hseen) hlast
    intro hmem
    have hle := habove last hmem
    omega
  have hordered : (seen ++ missed).Pairwise fun a b => a.data.Precedes b.data := by
    rw [hmissed]
    apply pairwise_actionEvents
    exact hascending.sublist ((List.take_sublist _ _).trans (List.drop_sublist _ _))
  obtain ⟨_, _, hacross⟩ := List.pairwise_append.mp hordered
  refine ⟨missed, by rw [hmissed, hall], fun e he => ⟨?_, fun hagain => ?_⟩, ?_⟩
  · have hlt := hbelow e (hmissed ▸ List.mem_append_right _ he)
    rcases hacross last hlastSeen e he with hless | ⟨hsame, _⟩
    · omega
    · exact hsame.symm
  · -- An event does not precede itself.
    rcases hacross e hagain e he with hless | ⟨_, hless⟩
    · omega
    · omega
  · intro e he hsame
    rw [hall, ← hmissed] at he
    rcases List.mem_append.mp he with hin | hlate
    · exact hin
    · have hle := habove e hlate
      omega

/-- A client that comes back with the height after that of its last event has missed exactly what
was left of the block of that event; and nothing, exactly if it had all of that block. -/
theorem resumed_action_events {s' : StreamState} {stream' : BlockStream} {g : Nat}
    (h : Connected c s stream f) (h' : Connected c s' stream' g)
    {more : List IndexableBlock} (hmore : s'.store.kept = s.store.kept ++ more)
    (hdistinct : DistinctNames s'.store.kept) (hcaughtUp : CaughtUp c s' stream')
    {events events' seen : List (SseEvent ActionRow)} {last : SseEvent ActionRow}
    (hevents : streamActions chain c.extractor address stream = .ok events)
    (hevents' : streamActions chain c.extractor address stream' = .ok events')
    (hseen : seen <+: events) (hlast : seen.getLast? = some last)
    (hg : (g : Int) = last.data.blockHeight + 1) :
    ∃ missed, seen ++ missed ++ events' =
        (s'.store.kept.drop f).flatMap (·.actionEvents c.extractor address) ∧
      (∀ e ∈ missed, e.data.blockHeight = last.data.blockHeight ∧ e ∉ seen) ∧
      (missed = [] ↔ ∀ e ∈ events, e.data.blockHeight = last.data.blockHeight → e ∈ seen) := by
  have hfirst := h.streamedFrom
  have hsecond := h'.streamedFrom
  have hkept := hsecond.heights
  have hsent := hfirst.actionEvents (hmore ▸ hdistinct).initial hevents
  have hresumed := hsecond.actionEvents hdistinct hevents'
  rw [hsecond.take_all hcaughtUp] at hresumed
  -- What the first connection was sent is the beginning of all.
  obtain ⟨later, hlater⟩ : (s.store.kept.drop f).take stream.emitted.length <+:
      s'.store.kept.drop f := by
    rw [hmore, List.drop_append]
    exact (List.take_prefix _ _).trans (List.prefix_append _ _)
  have hbeginning : events <+:
      (s'.store.kept.drop f).flatMap (·.actionEvents c.extractor address) := by
    rw [← hlater, List.flatMap_append, ← hsent]
    exact List.prefix_append _ _
  obtain ⟨missed, hall, hmissed, hblock⟩ :=
    exists_missed hkept hsecond.ascending (hseen.trans hbeginning) hlast hg
  refine ⟨missed, hresumed ▸ hall, hmissed, ?_, ?_⟩
  · intro hnone e he hsame
    have hin := hblock e (hbeginning.subset he) hsame
    rwa [hnone, List.append_nil] at hin
  · intro hcomplete
    rw [List.eq_nil_iff_forall_not_mem]
    intro e he
    obtain ⟨hsame, hunseen⟩ := hmissed e he
    -- A block goes out whole: the event was sent with the last one that was seen.
    have hlastSent := hseen.subset (List.mem_of_getLast? hlast)
    rw [hsent] at hlastSent
    obtain ⟨own, hown, _, hownHeight⟩ := mem_actionEvents hlastSent
    obtain ⟨b, hb, hin, hheight⟩ :=
      mem_actionEvents (hall ▸ List.mem_append_left _ (List.mem_append_right _ he))
    have hown' : own ∈ s'.store.kept.drop f := hlater ▸ List.mem_append_left _ hown
    have heq : b = own := by
      apply hkept.eq_of_height (List.mem_of_mem_drop hb) (List.mem_of_mem_drop hown')
      omega
    apply hunseen
    apply hcomplete e _ hsame
    rw [hsent]
    exact List.mem_flatMap.mpr ⟨own, hown, heq ▸ hin⟩

end

/-! ## Two connections -/

/-- A block with two actions of Alice. -/
def IndexableBlock.twoTransfers (height : Nat) (hash parentHash : String)
    (names : String × String) : IndexableBlock :=
  { IndexableBlock.bare height hash parentHash with
    actions := [⟨"alice", some names.1, some (.obj [("Transfer", .obj [("to", .str "bob")])])⟩,
      ⟨"alice", some names.2, some (.obj [("Transfer", .obj [("to", .str "bob")])])⟩] }

/-- Block 1 is read back and block 2 comes live. -/
def connectedOnce : List StreamOp :=
  [.commit [.bare 0 "g" "", .twoTransfers 1 "a" "g" ("t1", "t2")], .broadcast, .broadcast,
    .subscribe (some 0), .readTip] ++ List.replicate 7 .advance ++
    [.commit [.transfer 2 "b" "a" "carol" "t3"], .broadcast] ++ List.replicate 3 .advance

/-- Again, from height 2 on. -/
def connectedAgain : List StreamOp :=
  [.commit [.bare 0 "g" "", .twoTransfers 1 "a" "g" ("t1", "t2"), .transfer 2 "b" "a" "carol" "t3"],
    .broadcast, .broadcast, .broadcast, .subscribe (some 2), .readTip] ++ List.replicate 5 .advance

/-- What the two connections see. -/
def connectedBlocks : List IndexableBlock :=
  [.bare 0 "g" "", .twoTransfers 1 "a" "g" ("t1", "t2"), .transfer 2 "b" "a" "carol" "t3"]

theorem distinctNames_connectedBlocks : DistinctNames connectedBlocks := ⟨by decide, by decide⟩

/-- Where the stream has come from and to, and whether anything is left to do. -/
def StreamState.outcome (s : StreamState) (stream : BlockStream) : Option Nat × Int × Bool :=
  (stream.fromHeight, stream.ceiling,
    (@BlockStream.advance .plain .small s.store.db s.sent stream).isNone &&
      stream.following && s.unsent.isEmpty)

theorem connected_of_outcome (ops : List StreamOp) {f : Nat} (ceiling : Int)
    (hsmooth : ∀ op ∈ ops, op.Smooth) (hf : f < 2 ^ 63) (hle : f ≤ ceiling + 1)
    (hkept : (exec smallStep {} ops).map (·.store.kept) = some connectedBlocks)
    (houtcome : ((exec smallStep {} ops).bind fun s => s.subscriber.stream.map s.outcome) =
      some (some f, ceiling, true)) :
    ∃ s stream, s.store.kept = connectedBlocks ∧ @Connected .plain .plain .small s stream f ∧
      @CaughtUp .plain .small s stream := by
  obtain ⟨s, hs, hstream⟩ := Option.bind_eq_some_iff.mp houtcome
  obtain ⟨stream, hsub, heq⟩ := Option.map_eq_some_iff.mp hstream
  simp only [StreamState.outcome, Prod.mk.injEq, Bool.and_eq_true, Option.isNone_iff_eq_none,
    List.isEmpty_iff] at heq
  obtain ⟨hfrom, rfl, ⟨hidle, hfollowing⟩, hunsent⟩ := heq
  rw [hs] at hkept
  refine ⟨s, stream, Option.some.inj hkept, ?_, ?_⟩
  · exact @Connected.mk .plain .plain _ _ _ _ ⟨ops, hsmooth, hs⟩ (Subscriber.eq_of_stream hsub)
      hfrom hf hle
  · exact @CaughtUp.mk .plain _ _ _ hidle (BlockStream.not_lagged_of_following hfollowing) hunsent

theorem connectedOnce_connectedBlocks :
    ∃ s stream, s.store.kept = connectedBlocks ∧ @Connected .plain .plain .small s stream 0 ∧
      @CaughtUp .plain .small s stream :=
  connected_of_outcome connectedOnce 1 (by decide) (by decide) (by decide) rfl (by decide)

theorem connectedAgain_connectedBlocks :
    ∃ s stream, s.store.kept = connectedBlocks ∧ @Connected .plain .plain .small s stream 2 ∧
      @CaughtUp .plain .small s stream :=
  connected_of_outcome connectedAgain 2 (by decide) (by decide) (by decide) rfl (by decide)

theorem events_of_kept_blocks_alice :
    ∃ s stream events, @Connected .plain .plain .small s stream 0 ∧
      streamActions silentChain StreamConfig.small.extractor (some "alice") stream = .ok events ∧
        events.map (·.id) = ["1:0", "1:1"] := by
  obtain ⟨s, stream, hkept, hconnected, hcaughtUp⟩ := connectedOnce_connectedBlocks
  obtain ⟨hactions, _, hall⟩ := @events_of_kept_blocks .plain .plain .small s stream 0 silentChain
    (some "alice") hconnected (hkept ▸ distinctNames_connectedBlocks)
  obtain ⟨_, hevents⟩ := hactions _ rfl
  rw [hall hcaughtUp, hkept] at hevents
  refine ⟨s, stream, _, hconnected, rfl, ?_⟩
  rw [hevents]
  decide

/-- The first connection breaks between the two actions of block 1. -/
theorem resumed_action_events_broken :
    ∃ s stream s' stream' events events' last missed,
      @Connected .plain .plain .small s stream 0 ∧ @Connected .plain .plain .small s' stream' 2 ∧
      streamActions silentChain StreamConfig.small.extractor none stream = .ok events ∧
      streamActions silentChain StreamConfig.small.extractor none stream' = .ok events' ∧
      events.head? = some last ∧ missed ≠ [] ∧
      [last] ++ missed ++ events' =
        connectedBlocks.flatMap (·.actionEvents StreamConfig.small.extractor none) := by
  obtain ⟨s, stream, hkept, hconnected, hcaughtUp⟩ := connectedOnce_connectedBlocks
  obtain ⟨s', stream', hkept', hconnected', hcaughtUp'⟩ := connectedAgain_connectedBlocks
  have hstreamed := @Connected.streamedFrom .plain .plain _ _ _ _ hconnected
  have hdistinct : DistinctNames s'.store.kept := hkept' ▸ distinctNames_connectedBlocks
  have hmore : s'.store.kept = s.store.kept ++ [] := by rw [hkept, hkept', List.append_nil]
  have hsent := @StreamedFrom.actionEvents .plain _ _ _ _ silentChain none hstreamed
    (hkept ▸ distinctNames_connectedBlocks) _ rfl
  rw [@StreamedFrom.take_all .plain _ _ _ _ hstreamed hcaughtUp, hkept] at hsent
  have hpositions : ((connectedBlocks.drop 0).flatMap
      (·.actionEvents StreamConfig.small.extractor none)).map
        (fun e => (e.data.blockHeight, e.data.indexInBlock)) = [(1, 0), (1, 1), (2, 0)] := by decide
  rw [← hsent] at hpositions
  obtain ⟨first, rest, heq, hfirst, hrest⟩ := List.map_eq_cons_iff.mp hpositions
  obtain ⟨second, _, rfl, hsecond, _⟩ := List.map_eq_cons_iff.mp hrest
  obtain ⟨hfirstHeight, hfirstIndex⟩ := Prod.mk.inj hfirst
  obtain ⟨hsecondHeight, hsecondIndex⟩ := Prod.mk.inj hsecond
  obtain ⟨missed, hall, _, hnone⟩ := @resumed_action_events .plain .plain .small s stream 0
    silentChain none s' stream' 2 hconnected hconnected' [] hmore hdistinct hcaughtUp' _ _ [first]
    first rfl rfl ⟨_, heq.symm⟩ rfl (by rw [hfirstHeight]; rfl)
  rw [hkept'] at hall
  refine ⟨s, stream, s', stream', _, _, first, missed, hconnected, hconnected', rfl, rfl, ?_, ?_,
    hall⟩
  · rw [heq]
    rfl
  · intro hmissed
    have hin := hnone.mp hmissed second (by rw [heq]; simp)
      (by rw [hsecondHeight, hfirstHeight])
    rw [List.mem_singleton.mp hin, hfirstIndex] at hsecondIndex
    cases hsecondIndex

end Retracer
