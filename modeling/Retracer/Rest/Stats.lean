import Retracer.Sse.FromHeight
import Retracer.Storage.AuditReads

/-! # Chain totals

`get_stats` is five statements in no transaction, each true of the database at its own moment.
The average block time is over the last hundred blocks above genesis. It is the quotient of two
`f64`s, for which Lean's `Float` has the same rounding.
-/

namespace Retracer

open KeyedTable Sorting Execution

/-! ## The statements -/

structure Stats where
  totalBlocks : Nat
  totalActions : Nat
  totalAccounts : Nat
  actions24h : Nat
  avgBlockTimeSecs : Float

/-- The database as each statement found it. -/
structure StatsReads where
  blocks : Database
  actions : Database
  accounts : Database
  recent : Database
  window : Database

def countBlocks (db : Database) (chainId : String) : Nat :=
  (db.blocks.rows.filter fun b => b.chainId = chainId).length

def countActions (db : Database) (chainId : String) : Nat :=
  (db.actions.rows.filter fun a => a.chainId = chainId).length

/-- `COUNT(DISTINCT address)`. -/
def countAccounts (db : Database) (chainId : String) : Nat :=
  ((db.accountState.rows.filter fun r => r.chainId = chainId).map (·.address)).dedup.length

/-- `now` is the server's clock in seconds. -/
def countActions24h (db : Database) (chainId : String) (now : Int) : Nat :=
  (db.actions.rows.filter fun a => a.chainId = chainId ∧
    (db.blocks.find? (a.chainId, a.blockHeight)).any fun b => now - 86400 ≤ b.timestamp).length

/-- The times of the newest blocks, newest first. -/
def recentTimes (db : Database) (chainId : String) : List Int :=
  (((db.blocks.rows.filter fun b => b.chainId = chainId ∧ 0 < b.height).insertionSort
    (newestFirst BlocksRow.height)).take 100).map (·.timestamp)

/-- `n as f64` for an `i64`. -/
def asF64 (n : Int) : Float := .ofModel (.ofInt64 (.ofInt n))

def avgBlockTime (times : List Int) : Float :=
  match times.min?, times.max? with
  | some min, some max =>
      if 1 < times.length then asF64 (wrapI64 (max - min)) / asF64 (times.length - 1) else 0.0
  | _, _ => 0.0

def getStats (reads : StatsReads) (chainId : String) (now : Int) : Stats :=
  { totalBlocks := countBlocks reads.blocks chainId
    totalActions := countActions reads.actions chainId
    totalAccounts := countAccounts reads.accounts chainId
    actions24h := countActions24h reads.recent chainId now
    avgBlockTimeSecs := avgBlockTime (recentTimes reads.window chainId) }

/-! ## What they should count -/

/-- The addresses to whose accounts the blocks wrote. -/
def accountsWritten (blocks : List IndexableBlock) : List String :=
  blocks.flatMap fun b => (b.effects.elim [] BlockEffects.accounts).map (·.1)

/-- The actions of the blocks whose time is no more than a day before `now`. -/
def actionsWithinDay (chainId : String) (extractor : AddressExtractor)
    (blocks : List IndexableBlock) (now : Int) : List ActionsRow :=
  (chainActions chainId extractor blocks).filter fun a =>
    (blocks[a.blockHeight.toNat]?).any fun b => now - 86400 ≤ asI64 b.timestamp

/-- The times of the last hundred blocks above genesis, newest first. -/
def lastTimes (blocks : List IndexableBlock) : List Int :=
  ((blocks.drop 1).reverse.take 100).map fun b => asI64 b.timestamp

section

variable [Postgres] {chainId : String} {extractor : AddressExtractor} {s : StoreState}

theorem Kept.countBlocks_eq (h : Kept chainId extractor s) :
    countBlocks s.db chainId = s.kept.length := by
  have hall : (s.db.blocks.rows.filter fun b => b.chainId = chainId) = s.db.blocks.rows := by
    rw [List.filter_eq_self]
    intro b hb
    exact decide_eq_true (h.row_chain b hb)
  have hheights := congrArg List.length (h.map_rows (f := BlocksRow.height) fun _ => rfl)
  rw [List.length_map, List.length_map] at hheights
  rw [countBlocks, hall, hheights]

theorem Kept.action_chain (h : Kept chainId extractor s) :
    ∀ a ∈ s.db.actions.rows, a.chainId = chainId := by
  intro a ha
  rw [h.actions_eq] at ha
  exact chainId_batchActions (distinctOn_sublist.subset ha)

theorem Kept.countActions_eq (h : Kept chainId extractor s) :
    countActions s.db chainId = (chainActions chainId extractor s.kept).length := by
  have hall : (s.db.actions.rows.filter fun a => a.chainId = chainId) = s.db.actions.rows := by
    rw [List.filter_eq_self]
    intro a ha
    exact decide_eq_true (h.action_chain a ha)
  rw [countActions, hall, h.actions_eq]

theorem Kept.countAccounts_eq (h : Kept chainId extractor s) :
    countAccounts s.db chainId = (accountsWritten s.kept).dedup.length := by
  have hrows : s.db.accountState.rows = (accountTable chainId).firsts s.kept :=
    (accountTable chainId).kept_firsts h
  have hmem : ∀ address,
      address ∈ (s.db.accountState.rows.filter fun r => r.chainId = chainId).map (·.address) ↔
        address ∈ accountsWritten s.kept := by
    intro address
    have hentries : ∀ b : IndexableBlock,
        (accountTable chainId).entries b = b.effects.elim [] BlockEffects.accounts := by
      intro b
      unfold Sparse.entries accountTable
      cases b.effects <;> rfl
    have hname : (accountTable chainId).name = Prod.fst := rfl
    simp only [accountsWritten, ← hentries, hrows, Sparse.firsts, List.mem_map, List.mem_filter,
      List.mem_flatMap, decide_eq_true_eq]
    constructor
    · rintro ⟨_, ⟨⟨b, hb, e, he, rfl⟩, _⟩, rfl⟩
      exact ⟨b, hb, e, distinctOn_sublist.subset he, rfl⟩
    · rintro ⟨b, hb, hin⟩
      rw [← List.mem_map, ← hname, ← mem_map_distinctOn] at hin
      obtain ⟨e, he, rfl⟩ := List.mem_map.mp hin
      exact ⟨_, ⟨⟨b, hb, e, he, rfl⟩, rfl⟩, rfl⟩
  have hperm : ((s.db.accountState.rows.filter fun r => r.chainId = chainId).map
      (·.address)).dedup.Perm (accountsWritten s.kept).dedup := by
    apply (List.perm_ext_iff_of_nodup (List.nodup_dedup _) (List.nodup_dedup _)).mpr
    intro address
    rw [List.mem_dedup, List.mem_dedup, hmem address]
  exact hperm.length_eq

theorem Kept.countActions24h_eq (h : Kept chainId extractor s) (now : Int) :
    countActions24h s.db chainId now =
      (actionsWithinDay chainId extractor s.kept now).length := by
  rw [countActions24h, actionsWithinDay, ← h.actions_eq]
  congr 1
  apply List.filter_congr
  intro a ha
  have hchain := h.action_chain a ha
  obtain ⟨hpos, hlt⟩ := h.heights_lt.1 .actions a ha
  obtain ⟨n, hn⟩ := Int.eq_ofNat_of_zero_le hpos
  have hheight : a.blockHeight = n := hn
  have hbound : n < s.kept.length := by
    have hlt' : a.blockHeight < s.kept.length := hlt
    omega
  obtain ⟨b, hb, _, _, htime⟩ := h.find_block (List.getElem?_eq_getElem hbound)
  have hstored : (s.kept[a.blockHeight.toNat]?).any (fun b => now - 86400 ≤ asI64 b.timestamp) =
      (s.db.blocks.find? (a.chainId, a.blockHeight)).any fun b => now - 86400 ≤ b.timestamp := by
    rw [hchain, hheight, hb, Int.toNat_natCast, List.getElem?_eq_getElem hbound, Option.any_some,
      Option.any_some, htime]
  rw [hstored, Bool.eq_iff_iff, decide_eq_true_iff]
  exact and_iff_right hchain

theorem Kept.recentTimes_eq (h : Kept chainId extractor s) :
    recentTimes s.db chainId = lastTimes s.kept := by
  have hsorted : (s.db.blocks.rows.filter fun b => b.chainId = chainId ∧ 0 < b.height).insertionSort
      (newestFirst BlocksRow.height) =
        (s.db.blocks.rows.filter fun b => b.chainId = chainId ∧ 0 < b.height).reverse :=
    newestFirst_of_ascending (h.rows_ascending.sublist List.filter_sublist)
  have hchain : (s.db.blocks.rows.filter fun b => b.chainId = chainId ∧ 0 < b.height) =
      s.db.blocks.rows.filter fun b => 0 < b.height := by
    apply List.filter_congr
    intro b hb
    simp [h.row_chain b hb]
  have htimes : (s.db.blocks.rows.filter fun b => 0 < b.height).map (·.timestamp) =
      (s.kept.drop 1).map fun b => asI64 b.timestamp := by
    have hrows := h.filterMap_rows (f := fun b =>
      if decide (0 < b.height) = true then some b.timestamp else none) fun _ => rfl
    simp only [blocksRow] at hrows
    have habove : (s.kept.filter fun b => decide (0 < (b.height : Int))) = s.kept.drop 1 :=
      h.heights.filter_from 1
    rw [← List.filterMap_eq_map, List.filterMap_filter, ← habove, ← List.filterMap_eq_map,
      List.filterMap_filter]
    exact hrows
  rw [recentTimes, lastTimes, hsorted, hchain, List.map_take, List.map_take, List.map_reverse,
    List.map_reverse, htimes]

/-! ## The average -/

/-- The times between neighbours in a list of times, newest first. -/
def gaps (times : List Int) : List Int := times.zipWith (· - ·) times.tail

omit [Postgres] in
theorem length_gaps (times : List Int) : (gaps times).length = times.length - 1 := by
  rw [gaps, List.length_zipWith, List.length_tail]
  omega

omit [Postgres] in
theorem sum_gaps {newest oldest : Int} {times : List Int} (hlast : times.getLast? = some oldest) :
    (gaps (newest :: times)).sum = newest - oldest := by
  induction times generalizing newest with
  | nil => cases hlast
  | cons time times ih =>
      have hsum : (gaps (newest :: time :: times)).sum =
          newest - time + (gaps (time :: times)).sum := rfl
      cases times with
      | nil =>
          cases hlast
          rw [hsum]
          simp [gaps]
      | cons next times =>
          rw [List.getLast?_cons_cons] at hlast
          rw [hsum, ih hlast]
          omega

omit [Postgres] in
/-- Where time does not run backwards the average is that of the gaps. -/
theorem avgBlockTime_eq {times : List Int} (hdesc : times.Pairwise (· ≥ ·)) :
    avgBlockTime times =
      if gaps times = [] then 0.0
      else asF64 (wrapI64 (gaps times).sum) / asF64 (gaps times).length := by
  cases times with
  | nil => simp [avgBlockTime, gaps]
  | cons newest rest =>
      cases hlast : rest.getLast? with
      | none =>
          rw [List.getLast?_eq_none_iff.mp hlast]
          simp [avgBlockTime, gaps]
      | some oldest =>
          obtain ⟨initial, rfl⟩ := List.getLast?_eq_some_iff.mp hlast
          obtain ⟨hnewest, hrest⟩ := List.pairwise_cons.mp hdesc
          have holdest := (List.pairwise_append.mp hrest).2.2
          have hmem : oldest ∈ newest :: (initial ++ [oldest]) := by simp
          have hmax : (newest :: (initial ++ [oldest])).max? = some newest := by
            rw [List.max?_eq_some_iff]
            refine ⟨List.mem_cons_self, fun b hb => ?_⟩
            rcases List.mem_cons.mp hb with rfl | hb
            · exact Int.le_refl _
            · exact hnewest b hb
          have hmin : (newest :: (initial ++ [oldest])).min? = some oldest := by
            rw [List.min?_eq_some_iff]
            refine ⟨hmem, fun b hb => ?_⟩
            rcases List.mem_cons.mp hb with rfl | hb
            · exact hnewest oldest (by simp)
            · rcases List.mem_append.mp hb with hb | hb
              · exact holdest b hb oldest (List.mem_singleton_self _)
              · rw [List.mem_singleton.mp hb]
          have hlong : 1 < (newest :: (initial ++ [oldest])).length := by simp
          have hgaps : (gaps (newest :: (initial ++ [oldest]))).length =
              (newest :: (initial ++ [oldest])).length - 1 := length_gaps _
          have hsome : gaps (newest :: (initial ++ [oldest])) ≠ [] := by
            rw [← List.length_pos_iff, hgaps]
            omega
          have hcount : (((newest :: (initial ++ [oldest])).length : Int) - 1) =
              ((newest :: (initial ++ [oldest])).length - 1 : Nat) := by omega
          rw [avgBlockTime, hmin, hmax, if_neg hsome, sum_gaps hlast, hgaps, ← hcount]
          simp only [if_pos hlong]

/-! ## In every state -/

/-- Whatever states the five statements find, each number is that of the blocks kept there; and
where the times of the blocks do not decrease, the average is the sum of the gaps between the last
hundred of them by their number. -/
theorem stats_of_kept_blocks {states : Fin 5 → StoreState}
    (hrun : ∀ i, ∃ ops, exec (chainStep chainId extractor) {} ops = some (states i)) (now : Int) :
    getStats
        { blocks := (states 0).db, actions := (states 1).db, accounts := (states 2).db
          recent := (states 3).db, window := (states 4).db } chainId now =
      { totalBlocks := (states 0).kept.length
        totalActions := (chainActions chainId extractor (states 1).kept).length
        totalAccounts := (accountsWritten (states 2).kept).dedup.length
        actions24h := (actionsWithinDay chainId extractor (states 3).kept now).length
        avgBlockTimeSecs := avgBlockTime (lastTimes (states 4).kept) } ∧
    ((lastTimes (states 4).kept).Pairwise (· ≥ ·) →
      avgBlockTime (lastTimes (states 4).kept) =
        if gaps (lastTimes (states 4).kept) = [] then 0.0
        else asF64 (wrapI64 (gaps (lastTimes (states 4).kept)).sum) /
          asF64 (gaps (lastTimes (states 4).kept)).length) := by
  have hkept : ∀ i, Kept chainId extractor (states i) := by
    intro i
    obtain ⟨ops, hops⟩ := hrun i
    exact exec_preserves (fun _ _ _ h hs => kept_step h hs) kept_empty hops
  refine ⟨?_, avgBlockTime_eq⟩
  rw [getStats, (hkept 0).countBlocks_eq, (hkept 1).countActions_eq, (hkept 2).countAccounts_eq,
    (hkept 3).countActions24h_eq, (hkept 4).recentTimes_eq]

end

/-- Three blocks, the last two six seconds apart, with an action that comes twice. -/
def sixSecondsApart : List ChainOp :=
  [.insert [.affecting 0 "g" ""
      { accounts := [("alice", ⟨7, 0, []⟩), ("bob", ⟨1, 0, []⟩), ("alice", ⟨8, 0, []⟩)] },
    { reusedIdentity 1 "a1" "g" "alice" with timestamp := 10 },
    { reusedIdentity 2 "a2" "a1" "alice" with timestamp := 16 }]]

theorem stats_of_kept_blocks_sixSeconds :
    ∃ s, exec plainChain {} sixSecondsApart = some s ∧
      (getStats ⟨s.db, s.db, s.db, s.db, s.db⟩ "main" 86412).totalBlocks = 3 ∧
      (getStats ⟨s.db, s.db, s.db, s.db, s.db⟩ "main" 86412).totalActions = 1 ∧
      (getStats ⟨s.db, s.db, s.db, s.db, s.db⟩ "main" 86412).totalAccounts = 2 ∧
      (getStats ⟨s.db, s.db, s.db, s.db, s.db⟩ "main" 86412).actions24h = 0 ∧
      (getStats ⟨s.db, s.db, s.db, s.db, s.db⟩ "main" 86412).avgBlockTimeSecs =
        asF64 6 := by
  have hsome : ((exec plainChain {} sixSecondsApart).map fun s =>
      (s.kept.length, (chainActions "main" (.tierAOnly .empty) s.kept).length,
        (accountsWritten s.kept).dedup.length,
        (actionsWithinDay "main" (.tierAOnly .empty) s.kept 86412).length,
        lastTimes s.kept)) = some (3, 1, 2, 0, [16, 10]) := by decide +kernel
  obtain ⟨s, hs, hall⟩ := Option.map_eq_some_iff.mp hsome
  simp only [Prod.mk.injEq] at hall
  obtain ⟨hblocks, hactions, haccounts, hday, htimes⟩ := hall
  have hstats := (@stats_of_kept_blocks .plain _ _ (fun _ => s)
    (fun _ => ⟨_, hs⟩) 86412).1
  rw [hblocks, hactions, haccounts, hday, htimes] at hstats
  refine ⟨s, hs, ?_⟩
  rw [hstats]
  refine ⟨rfl, rfl, rfl, rfl, ?_⟩
  show avgBlockTime [16, 10] = asF64 6
  decide +kernel

end Retracer
