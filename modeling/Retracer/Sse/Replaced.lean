import Retracer.Sse.Handoff

/-! # Blocks that replace others

The live tail drops whatever is at or below the ceiling, also after a rollback has made
those heights new again. As long as every block committed after the tip was read is above
it, all of them are emitted, and the last row emitted for a height is that of the block
stored there.
-/

namespace Retracer

open KeyedTable Execution Broadcast

/-! ## The newest row of a height -/

/-- The hash of the last row of a height. -/
def lastHash (rows : List BlockRow) (height : Int) : Option String :=
  ((rows.filter fun row => row.height = height).getLast?).map (·.hash)

theorem lastHash_append (rows more : List BlockRow) (height : Int) :
    lastHash (rows ++ more) height = (lastHash more height).or (lastHash rows height) := by
  rw [lastHash, List.filter_append, List.getLast?_append, Option.map_or]
  rfl

theorem lastHash_eq_none {rows : List BlockRow} {height : Int}
    (h : ∀ row ∈ rows, row.height ≠ height) : lastHash rows height = none := by
  have hnone : rows.filter (fun row => row.height = height) = [] := by
    rw [List.filter_eq_nil_iff]
    intro row hrow
    simpa using h row hrow
  rw [lastHash, hnone]
  rfl

theorem mem_of_lastHash {rows : List BlockRow} {height : Int} {hash : String}
    (h : lastHash rows height = some hash) :
    ∃ row ∈ rows, row.height = height ∧ row.hash = hash := by
  obtain ⟨row, hlast, rfl⟩ := Option.map_eq_some_iff.mp h
  obtain ⟨hmem, hheight⟩ := List.mem_filter.mp (List.mem_of_getLast? hlast)
  exact ⟨row, hmem, by simpa using hheight, rfl⟩

/-- Where all rows of a height have one hash, and there is one. -/
theorem lastHash_eq_some {rows : List BlockRow} {height : Int} {hash : String}
    (hall : ∀ row ∈ rows, row.height = height → row.hash = hash)
    (hmem : ∃ row ∈ rows, row.height = height) : lastHash rows height = some hash := by
  cases hlast : lastHash rows height with
  | some other =>
      obtain ⟨row, hrow, hheight, rfl⟩ := mem_of_lastHash hlast
      rw [hall row hrow hheight]
  | none =>
      obtain ⟨row, hrow, hheight⟩ := hmem
      have hempty := List.getLast?_eq_none_iff.mp (Option.map_eq_none_iff.mp hlast)
      have hin : row ∈ rows.filter (fun row => row.height = height) :=
        List.mem_filter.mpr ⟨hrow, by simpa using hheight⟩
      rw [hempty] at hin
      cases hin

theorem BlocksRead.mem_assemble {read : BlocksRead} {rows : List BlocksRow}
    {actions : List ActionRow} {dropped : List DroppedRow} {row : BlockRow}
    (h : row ∈ read.assemble rows actions dropped) :
    ∃ b ∈ rows, row.height = b.height ∧ row.hash = b.hash := by
  cases read <;>
  · obtain ⟨b, hb, rfl⟩ := List.mem_map.mp h
    exact ⟨b, hb, rfl, rfl⟩

/-! ## What is asked of a stream -/

/-- Every block committed since the stream was opened is emitted, and the last row of a height
is that of the block stored there. -/
def BlockStream.UpToDate (kept : List IndexableBlock) (s : BlockStream) : Prop :=
  (∀ b ∈ s.committed, ∃ row ∈ s.emitted, row.height = b.height ∧ row.hash = b.hash) ∧
    ∀ (n : Nat) b, kept[n]? = some b → ∀ hash ∈ lastHash s.emitted n, hash = b.hash

/-- Nothing that a step stores is at or below the ceiling. -/
def StoresAboveCeiling (s : StreamState) (_ : StreamOp) (s' : StreamState) : Prop :=
  ∀ stream ∈ s.subscriber.stream, ∀ b ∈ s'.store.kept.drop s.store.kept.length,
    stream.ceiling < b.height

instance (s : StreamState) (op : StreamOp) (s' : StreamState) :
    Decidable (StoresAboveCeiling s op s') :=
  inferInstanceAs (Decidable (∀ stream ∈ s.subscriber.stream,
    ∀ b ∈ s'.store.kept.drop s.store.kept.length, stream.ceiling < b.height))

/-! ## What a stream has -/

/-- The block of this height and hash was stored when the tip was read. -/
def BlockStream.Opened (s : BlockStream) (height : Int) (hash : String) : Prop :=
  height ≤ s.ceiling ∧ ∃ n : Nat, (n : Int) = height ∧ ∃ b, s.opened[n]? = some b ∧ b.hash = hash

structure BlockStream.Follows (kept : List IndexableBlock) (sent unsent : List BlockRow)
    (s : BlockStream) : Prop where
  unchanged : ∀ (n : Nat) b, (n : Int) ≤ s.ceiling → kept[n]? = some b → s.opened[n]? = some b
  page : ∀ next page, s.phase = .replay next page → ∀ row ∈ page, s.Opened row.height row.hash
  reading : ∀ r, s.phase = .reading r → ∀ b ∈ r.rows, s.Opened b.height b.hash
  replayed : s.replaying = true → ∀ row ∈ s.emitted, s.Opened row.height row.hash
  live : s.replaying = false → ∃ replayed, s.emitted = replayed ++ s.passed sent ∧
    ∀ row ∈ replayed, s.Opened row.height row.hash
  committed : ∀ b ∈ s.committed, s.ceiling < b.height ∧
    ∃ row ∈ sent.drop s.since ++ unsent, row.height = b.height ∧ row.hash = b.hash

section

variable {kept : List IndexableBlock} {sent unsent : List BlockRow} {s s' : BlockStream}

/-- Nothing left to do: what was let through is all that was sent above the ceiling. -/
theorem BlockStream.Follows.upToDate (h : s.Follows kept sent [])
    (hlive : s.replaying = false) (hposition : s.position = sent.length)
    (hnewest : ∀ (n : Nat) b, kept[n]? = some b → lastHash sent n = some b.hash) :
    s.UpToDate kept := by
  obtain ⟨replayed, hemitted, hreplayed⟩ := h.live hlive
  have hpassed : s.passed sent = (sent.drop s.since).filter fun row => s.ceiling < row.height := by
    rw [BlockStream.passed, hposition, delivered_length]
  constructor
  · intro b hb
    obtain ⟨habove, row, hrow, hheight, hhash⟩ := h.committed b hb
    rw [List.append_nil] at hrow
    refine ⟨row, ?_, hheight, hhash⟩
    rw [hemitted, hpassed]
    apply List.mem_append_right
    exact List.mem_filter.mpr ⟨hrow, by simpa [hheight] using habove⟩
  · intro n b hb hash hhash
    rw [hemitted, lastHash_append] at hhash
    by_cases hle : (n : Int) ≤ s.ceiling
    · have hnone : lastHash (s.passed sent) n = none := by
        apply lastHash_eq_none
        intro row hrow
        have habove := (List.mem_filter.mp hrow).2
        simp only [decide_eq_true_eq] at habove
        omega
      rw [hnone, Option.none_or] at hhash
      obtain ⟨row, hrow, hheight, rfl⟩ := mem_of_lastHash hhash
      obtain ⟨_, m, hm, b', hb', hsame⟩ := hreplayed row hrow
      have hmn : m = n := by omega
      have hopened := h.unchanged n b hle hb
      rw [hmn, hopened, Option.some.injEq] at hb'
      rw [hb', hsame]
    · have hnone : lastHash replayed n = none := by
        apply lastHash_eq_none
        intro row hrow
        have hbelow := (hreplayed row hrow).1
        omega
      have hsame : lastHash (s.passed sent) n = lastHash (sent.drop s.since) n := by
        rw [hpassed, lastHash, lastHash, List.filter_filter]
        congr 3
        funext row
        by_cases hheight : row.height = n
        · have habove : s.ceiling < (n : Int) := by omega
          simp [hheight, habove]
        · simp [hheight]
      rw [hnone, Option.or_none, hsame] at hhash
      have hall := hnewest n b hb
      rw [← List.take_append_drop s.since sent, lastHash_append, hhash, Option.some_or,
        Option.some.injEq] at hall
      exact hall

/-- Still replaying: only the page and the open read are others. -/
theorem BlockStream.Follows.reread {phase : StreamPhase} (h : s.Follows kept sent unsent)
    (hreplay : s.replaying = true) (hphase : ({ s with phase } : BlockStream).replaying = true)
    (hpage : ∀ next page, phase = .replay next page → ∀ row ∈ page, s.Opened row.height row.hash)
    (hreading : ∀ r, phase = .reading r → ∀ b ∈ r.rows, s.Opened b.height b.hash) :
    ({ s with phase } : BlockStream).Follows kept sent unsent := by
  refine ⟨h.unchanged, hpage, hreading, fun _ => h.replayed hreplay, fun hlive => ?_, h.committed⟩
  rw [hphase] at hlive
  cases hlive

theorem BlockStream.Follows.stop (h : s.Follows kept sent unsent) (hshaped : s.Shaped sent)
    (hreplay : s.replaying = true) : s.stop.Follows kept sent unsent := by
  refine ⟨h.unchanged, fun next page hphase => (nomatch hphase), fun r hphase => (nomatch hphase),
    fun hno => (nomatch hno), fun _ => ⟨s.emitted, ?_, h.replayed hreplay⟩, h.committed⟩
  have hpassed : s.stop.passed sent = [] := hshaped.passed_eq_nil hreplay
  rw [hpassed, List.append_nil]
  rfl

variable [Postgres] [Collation] {c : StreamConfig} {store : StoreState}

theorem BlockStream.Follows.advance (h : s.Follows store.kept sent unsent)
    (hshaped : s.Shaped sent) (hkept : Kept c.chainId c.extractor store)
    (hs : s.Advanced c store.db sent s') : s'.Follows store.kept sent unsent := by
  cases hs with
  | @emit next row page hphase =>
      have hreplay : s.replaying = true := by rw [BlockStream.replaying, hphase]
      refine ⟨h.unchanged, ?_, fun r hreading => (by cases hreading), ?_, fun hno => (by cases hno),
        h.committed⟩
      · intro next' page' heq
        cases heq
        exact fun row' hrow' => h.page next _ hphase row' (List.mem_cons_of_mem _ hrow')
      · intro _ row' hrow'
        rcases List.mem_append.mp hrow' with hold | hnew
        · exact h.replayed hreplay row' hold
        · rw [List.mem_singleton.mp hnew]
          exact h.page next _ hphase row List.mem_cons_self
  | finish hphase hover =>
      have hreplay : s.replaying = true := by rw [BlockStream.replaying, hphase]
      refine ⟨h.unchanged, fun next page heq => (by cases heq), fun r heq => (by cases heq),
        fun hno => (by cases hno), fun _ => ⟨s.emitted, ?_, h.replayed hreplay⟩, h.committed⟩
      show s.emitted = s.emitted ++ s.passed sent
      rw [hshaped.passed_eq_nil hreplay, List.append_nil]
  | @start next rows hphase hmore hrows hne =>
      apply h.reread (by rw [BlockStream.replaying, hphase]) rfl (fun _ _ heq => by cases heq)
      intro r heq b hb
      cases heq
      rw [← hrows] at hb
      obtain ⟨hfind, _, hle⟩ := mem_selectBlocks hb
      obtain ⟨n, block, hn, hheight, hhash⟩ :=
        hkept.block_of_row (Table.find?_eq_some_iff.mp hfind).1
      exact ⟨hle, n, hheight, block, h.unchanged n block (by omega) hn, hhash⟩
  | empty hphase hmore hrows => exact h.stop hshaped (by rw [BlockStream.replaying, hphase])
  | @actions r found hphase hnone hfound =>
      apply h.reread (by rw [BlockStream.replaying, hphase]) rfl (fun _ _ heq => by cases heq)
      intro r' heq
      cases heq
      exact h.reading r hphase
  | undecoded hphase hnone hfailed =>
      exact h.stop hshaped (by rw [BlockStream.replaying, hphase])
  | @page r found blocks last hphase hsome hblocks hlast =>
      refine h.reread (by rw [BlockStream.replaying, hphase]) rfl ?_ (fun _ heq => by cases heq)
      intro next page heq row hrow
      cases heq
      rw [← hblocks] at hrow
      obtain ⟨b, hb, hheight, hhash⟩ := BlocksRead.mem_assemble hrow
      rw [hheight, hhash]
      exact h.reading r hphase b hb
  | noBlocks hphase hsome hblocks =>
      exact h.stop hshaped (by rw [BlockStream.replaying, hphase])
  | lag hphase =>
      have hlive : s.replaying = false := by rw [BlockStream.replaying, hphase]
      exact ⟨h.unchanged, fun next page heq => (by cases heq), fun r heq => (by cases heq),
        fun hno => (by cases hno), fun _ => h.live hlive, h.committed⟩
  | @receive row hphase hrow =>
      have hlive : s.replaying = false := by rw [BlockStream.replaying, hphase]
      have hlive' : (s.receive row).replaying = false := hlive
      obtain ⟨replayed, hemitted, hreplayed⟩ := h.live hlive
      refine ⟨h.unchanged, fun next page heq => h.page next page heq,
        fun r heq => h.reading r heq, fun hno => ?_, fun _ => ⟨replayed, ?_, hreplayed⟩,
        h.committed⟩
      · rw [hlive'] at hno
        cases hno
      · rw [BlockStream.passed_receive hshaped.since_le hrow, ← List.append_assoc, ← hemitted]
        rfl

omit [Postgres] [Collation] in
/-- A row goes from those to be broadcast to those that are. -/
theorem BlockStream.Follows.broadcast {row : BlockRow} {rest : List BlockRow}
    (h : s.Follows kept sent (row :: rest)) (hshaped : s.Shaped sent) :
    s.Follows kept (sent ++ [row]) rest := by
  refine ⟨h.unchanged, h.page, h.reading, h.replayed, fun hlive => ?_, ?_⟩
  · rw [hshaped.passed_append]
    exact h.live hlive
  · have hdrop : (sent ++ [row]).drop s.since ++ rest = sent.drop s.since ++ row :: rest := by
      rw [List.drop_append_of_le_length (hshaped.since_le.trans hshaped.position_le),
        List.append_assoc]
      rfl
    rw [hdrop]
    exact h.committed

omit [Postgres] [Collation] in
theorem BlockStream.Follows.rollback (h : s.Follows kept sent unsent) (n : Nat) :
    s.Follows (kept.take n) sent unsent :=
  ⟨fun m b hle hb => h.unchanged m b hle (getElem?_of_take hb), h.page, h.reading, h.replayed,
    h.live, h.committed⟩

omit [Postgres] [Collation] in
theorem BlockStream.follows_open {fromHeight : Option Nat} {position : Nat}
    {cursor : Option Int} :
    (BlockStream.open fromHeight position cursor kept).Follows kept sent unsent := by
  refine ⟨fun n b _ hb => hb, ?_, fun r heq => (by cases heq), fun _ row hrow => (by cases hrow),
    fun hno => (by cases hno), fun b hb => (by cases hb)⟩
  intro next page heq row hrow
  cases heq
  cases hrow

end

/-! ## Along a run -/

/-- The last row of every stored height is that of the stored block. -/
def Newest (kept : List IndexableBlock) (rows : List BlockRow) : Prop :=
  ∀ (n : Nat) b, kept[n]? = some b → lastHash rows n = some b.hash

section

variable {blocks : List IndexableBlock} {new : List BlockRow}
  (hnew : new.map (fun row => (row.height, row.hash)) =
    blocks.map fun b => ((b.height : Int), b.hash))

include hnew

theorem block_of_new {row : BlockRow} (hrow : row ∈ new) :
    ∃ b ∈ blocks, (b.height : Int) = row.height ∧ b.hash = row.hash := by
  have hmem : (row.height, row.hash) ∈ new.map fun row => (row.height, row.hash) :=
    List.mem_map_of_mem hrow
  rw [hnew] at hmem
  obtain ⟨b, hb, heq⟩ := List.mem_map.mp hmem
  exact ⟨b, hb, congrArg Prod.fst heq, congrArg Prod.snd heq⟩

theorem new_of_block {b : IndexableBlock} (hb : b ∈ blocks) :
    ∃ row ∈ new, row.height = b.height ∧ row.hash = b.hash := by
  have hpair : ((b.height : Int), b.hash) ∈ new.map fun row => (row.height, row.hash) := by
    rw [hnew]
    exact List.mem_map_of_mem hb
  obtain ⟨row, hrow, heq⟩ := List.mem_map.mp hpair
  exact ⟨row, hrow, congrArg Prod.fst heq, congrArg Prod.snd heq⟩

end

theorem Newest.commit {kept blocks : List IndexableBlock} {rows new : List BlockRow}
    (h : Newest kept rows) (hkept : ConsecutiveFrom 0 kept)
    (hnext : ConsecutiveFrom kept.length blocks)
    (hnew : new.map (fun row => (row.height, row.hash)) =
      blocks.map fun b => ((b.height : Int), b.hash)) :
    Newest (kept ++ blocks) (rows ++ new) := by
  have hall : ConsecutiveFrom 0 (kept ++ blocks) := by
    apply hkept.append
    rwa [Nat.zero_add]
  intro n b hb
  rw [lastHash_append]
  by_cases hlt : n < kept.length
  · have hnone : lastHash new n = none := by
      apply lastHash_eq_none
      intro row hrow
      obtain ⟨b', hb', hheight, _⟩ := block_of_new hnew hrow
      have hge := hnext.le_height hb'
      omega
    rw [List.getElem?_append_left hlt] at hb
    rw [hnone, Option.none_or]
    exact h n b hb
  · have hsome : lastHash new n = some b.hash := by
      apply lastHash_eq_some
      · intro row hrow hheight
        obtain ⟨b', hb', hheight', hhash⟩ := block_of_new hnew hrow
        obtain ⟨m, hm⟩ := List.getElem?_of_mem (List.mem_append_right kept hb')
        have hmn : m = n := by
          have := hall.getElem_height hm
          omega
        rw [hmn, hb, Option.some.injEq] at hm
        rw [← hhash, ← hm]
      · have hmem : b ∈ blocks := by
          rw [List.getElem?_append_right (Nat.not_lt.mp hlt)] at hb
          exact List.mem_of_getElem? hb
        obtain ⟨row, hrow, hheight, _⟩ := new_of_block hnew hmem
        exact ⟨row, hrow, by rw [hheight, hall.getElem_height hb]⟩
    rw [hsome]
    rfl

structure StreamState.Follows [Postgres] (c : StreamConfig) (s : StreamState) : Prop where
  shaped : s.Shaped
  kept : Kept c.chainId c.extractor s.store
  newest : Newest s.store.kept (s.sent ++ s.unsent)
  stream : ∀ stream, s.subscriber = .streaming stream →
    stream.Follows s.store.kept s.sent s.unsent

section

variable [Postgres] {c : StreamConfig} {s : StreamState}

theorem StreamState.Follows.commit (h : s.Follows c) {blocks : List IndexableBlock}
    {db : Database} (hsent : s.unsent = []) (hnext : ConsecutiveFrom s.store.kept.length blocks)
    (hinsert : insertBlocks s.store.db c.chainId blocks c.extractor = some db)
    (habove : ∀ stream, s.subscriber = .streaming stream → ∀ b ∈ blocks,
      stream.ceiling < (b.height : Int)) :
    Newest (s.store.kept ++ blocks) (s.sent ++ blocks.filterMap blockRowFromWire) ∧
      ∀ stream, s.subscriber.note blocks = .streaming stream →
        stream.Follows (s.store.kept ++ blocks) s.sent (blocks.filterMap blockRowFromWire) := by
  have hrows := rows_of_insertBlocks hinsert
  have hold := h.newest
  rw [hsent, List.append_nil] at hold
  refine ⟨hold.commit h.kept.heights hnext hrows, fun stream hstream => ?_⟩
  cases hsub : s.subscriber with
  | absent | subscribed _ _ =>
      rw [hsub] at hstream
      cases hstream
  | streaming old =>
      have hfollows := h.stream old hsub
      have hceiling := habove old hsub
      rw [hsub] at hstream
      cases hstream
      refine ⟨?_, hfollows.page, hfollows.reading, hfollows.replayed, hfollows.live, ?_⟩
      · intro n b hle hb
        by_cases hlt : n < s.store.kept.length
        · rw [List.getElem?_append_left hlt] at hb
          exact hfollows.unchanged n b hle hb
        · have hall : ConsecutiveFrom 0 (s.store.kept ++ blocks) := by
            apply h.kept.heights.append
            rwa [Nat.zero_add]
          have hheight := hall.getElem_height hb
          rw [List.getElem?_append_right (Nat.not_lt.mp hlt)] at hb
          have hgt := hceiling b (List.mem_of_getElem? hb)
          have hle' : (n : Int) ≤ old.ceiling := hle
          omega
      · intro b hb
        rcases List.mem_append.mp hb with hin | hnew
        · obtain ⟨hgt, row, hrow, heq⟩ := hfollows.committed b hin
          rw [hsent, List.append_nil] at hrow
          exact ⟨hgt, row, List.mem_append_left _ hrow, heq⟩
        · obtain ⟨row, hrow, heq⟩ := new_of_block hrows hnew
          exact ⟨hceiling b hnew, row, List.mem_append_right _ hrow, heq⟩

variable [Collation]

theorem follows_step {s' : StreamState} {op : StreamOp} (h : s.Follows c)
    (hs : s.Stepped c op s') (habove : StoresAboveCeiling s op s') : s'.Follows c := by
  have hshaped : s'.Shaped := shaped_step h.shaped hs
  cases hs with
  | refused => exact h
  | @commit blocks db hsent hnext hinsert =>
      have hcommit := h.commit hsent hnext hinsert (by
        intro stream hstream b hb
        apply habove stream (by rw [hstream]; rfl) b
        rw [List.drop_left]
        exact hb)
      exact ⟨hshaped, h.kept.insert hnext hinsert, hcommit.1, hcommit.2⟩
  | @broadcast row rest hunsent =>
      have hsame : (s.sent ++ [row]) ++ rest = s.sent ++ s.unsent := by
        rw [hunsent, List.append_assoc]
        rfl
      refine ⟨hshaped, h.kept, ?_, ?_⟩
      · show Newest _ ((s.sent ++ [row]) ++ rest)
        rw [hsame]
        exact h.newest
      · intro stream hstream
        have hfollows := h.stream stream hstream
        rw [hunsent] at hfollows
        exact hfollows.broadcast (h.shaped.of_streaming hstream)
  | @rollback height store hsent hstore =>
      cases hstore
      refine ⟨hshaped, h.kept.rollback height,
        fun n b hb => h.newest n b (getElem?_of_take hb), ?_⟩
      intro stream hstream
      exact (h.stream stream hstream).rollback (height + 1).toNat
  | subscribe _ => exact ⟨hshaped, h.kept, h.newest, fun stream hstream => by cases hstream⟩
  | @readTip fromHeight position hsub =>
      refine ⟨hshaped, h.kept, h.newest, ?_⟩
      intro stream hstream
      cases hstream
      exact BlockStream.follows_open
  | @advance old new hsub hadvance =>
      refine ⟨hshaped, h.kept, h.newest, ?_⟩
      intro stream hstream
      have hold := h.shaped.of_streaming hsub
      cases hstream
      exact (h.stream old hsub).advance hold h.kept hadvance
  | @fail old hsub hreplay =>
      refine ⟨hshaped, h.kept, h.newest, ?_⟩
      intro stream hstream
      have hold := h.shaped.of_streaming hsub
      cases hstream
      exact (h.stream old hsub).stop hold hreplay

/-- When a stream that did not lag has nothing left to do, and everything is broadcast, it has
emitted every block committed since it was opened, the newest of each height last. -/
theorem replaced_blocks_are_emitted {ops : List StreamOp} {stream : BlockStream}
    (habove : Always (streamStep c) StoresAboveCeiling {} ops)
    (hrun : exec (streamStep c) {} ops = some s) (hstream : s.subscriber = .streaming stream)
    (hidle : stream.advance c s.store.db s.sent = none) (hnotLagged : stream.phase ≠ .lagged)
    (hunsent : s.unsent = []) : stream.UpToDate s.store.kept := by
  have h0 : StreamState.Follows c {} :=
    ⟨trivial, kept_empty, fun n b hb => (nomatch hb), fun stream hstream => nomatch hstream⟩
  have h : s.Follows c := by
    apply always_invariant _ h0 habove hrun
    intro s op s' h hs habove
    exact follows_step h (stepped_of_streamStep hs) habove
  have hshaped := h.shaped.of_streaming hstream
  have hnewest := h.newest
  have hfollows := h.stream stream hstream
  rw [hunsent, List.append_nil] at hnewest
  rw [hunsent] at hfollows
  rcases BlockStream.idle_of_advance hidle with hlagged | ⟨hlive, hdrained⟩
  · exact absurd hlagged hnotLagged
  · have hposition : stream.position = s.sent.length :=
      Nat.le_antisymm hshaped.position_le hdrained
    exact hfollows.upToDate (by rw [BlockStream.replaying, hlive]) hposition hnewest

end

/-! ## Concrete runs -/

/-- Everything is broadcast, and the stream is at the live tail with nothing left to do. -/
def StreamState.idle (s : StreamState) (stream : BlockStream) : Bool :=
  s.unsent.isEmpty && stream.following &&
    (@BlockStream.advance .plain .small s.store.db s.sent stream).isNone

/-- A run that ends so, and the hashes the stream has emitted. -/
def idleRun (ops : List StreamOp) : Option (Bool × List String) :=
  (exec smallStep {} ops).bind fun s =>
    s.subscriber.stream.map fun stream => (s.idle stream, stream.emitted.map (·.hash))

theorem exec_of_idleRun {ops : List StreamOp} {hashes : List String}
    (h : idleRun ops = some (true, hashes)) :
    ∃ s stream, exec smallStep {} ops = some s ∧ s.subscriber = .streaming stream ∧
      @BlockStream.advance .plain .small s.store.db s.sent stream = none ∧
      stream.phase ≠ .lagged ∧ s.unsent = [] ∧ stream.emitted.map (·.hash) = hashes := by
  obtain ⟨s, hs, hstream⟩ := Option.bind_eq_some_iff.mp h
  obtain ⟨stream, hsub, hboth⟩ := Option.map_eq_some_iff.mp hstream
  obtain ⟨hidle, hhashes⟩ := Prod.mk.inj hboth
  simp only [StreamState.idle, Bool.and_eq_true, List.isEmpty_iff, Option.isNone_iff_eq_none]
    at hidle
  exact ⟨s, stream, hs, Subscriber.eq_of_stream hsub, hidle.2,
    BlockStream.not_lagged_of_following hidle.1.2, hidle.1.1, hhashes⟩

/-- Block 2 comes after the ceiling, and then another block 2. -/
def replacedAbove : List StreamOp :=
  [.commit [.bare 0 "g" "", .bare 1 "a" "g"], .broadcast, .broadcast, .subscribe (some 0),
    .readTip] ++ List.replicate 9 .advance ++ [.commit [.bare 2 "b" "a"], .broadcast, .advance,
    .rollback 1, .commit [.bare 2 "c" "a"], .broadcast, .advance]

theorem replaced_blocks_are_emitted_above :
    ∃ s stream, exec smallStep {} replacedAbove = some s ∧ s.subscriber = .streaming stream ∧
      stream.UpToDate s.store.kept ∧ stream.emitted.map (·.hash) = ["g", "a", "b", "c"] := by
  have hidle : idleRun replacedAbove = some (true, ["g", "a", "b", "c"]) := by decide
  obtain ⟨s, stream, hs, hsub, hdone, hphase, hunsent, hhashes⟩ := exec_of_idleRun hidle
  have habove : Always smallStep StoresAboveCeiling {} replacedAbove := by decide
  exact ⟨s, stream, hs, hsub, @replaced_blocks_are_emitted .plain .small s .plain _ stream habove
    hs hsub hdone hphase hunsent, hhashes⟩

/-- The other branch takes a height of the replay. -/
def replacedBelow : List StreamOp :=
  [.commit [.bare 0 "g" "", .bare 1 "a" "g"], .broadcast, .broadcast, .subscribe (some 0),
    .readTip] ++ List.replicate 9 .advance ++ [.rollback 0, .commit [.bare 1 "b" "g"], .broadcast,
    .advance]

/-- Block `b` was committed and broadcast, and the last block 1 emitted is still `a`. -/
theorem replaced_blocks_are_dropped :
    ¬ ∀ (ops : List StreamOp) (s : StreamState) (stream : BlockStream),
      exec smallStep {} ops = some s → s.subscriber = .streaming stream →
        @BlockStream.advance .plain .small s.store.db s.sent stream = none →
          stream.phase ≠ .lagged → s.unsent = [] → stream.UpToDate s.store.kept := by
  intro h
  have hidle : idleRun replacedBelow = some (true, ["g", "a"]) := by decide
  obtain ⟨s, stream, hs, hsub, hdone, hphase, hunsent, hhashes⟩ := exec_of_idleRun hidle
  have hcommitted : (exec smallStep {} replacedBelow).bind (fun s =>
      s.subscriber.stream.map fun stream => stream.committed.map (·.hash)) = some ["b"] := by
    decide
  rw [hs, Option.bind_some, hsub, Subscriber.stream, Option.map_some, Option.some.injEq]
    at hcommitted
  obtain ⟨b, hb, hhash⟩ := List.mem_map.mp (hcommitted ▸ List.mem_singleton_self "b")
  obtain ⟨row, hrow, _, hsame⟩ := (h _ s stream hs hsub hdone hphase hunsent).1 b hb
  have hmem : row.hash ∈ stream.emitted.map (·.hash) := List.mem_map_of_mem hrow
  rw [hhashes, hsame, hhash] at hmem
  simp at hmem

end Retracer
