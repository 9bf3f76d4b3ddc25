import Retracer.Library.Grouping
import Retracer.Rest.Lists

/-! # Token rollups

`assets/{asset}/daily` has the activity of one token day by day, `token-stats` has the transfers
of several, by other statements. The days and the counts of the two are the same, and what they
add up to are the events of the window.
-/

namespace Retracer

open KeyedTable Sorting Paging Grouping Execution Traverse

/-! ## Days -/

/-- The server's dates, and sums of a `NUMERIC` column. -/
class Calendar where
  /-- `to_timestamp` takes the seconds. -/
  isTimestamp : Int → Bool
  /-- The text of a day that is so many days after the epoch. -/
  dayText : Int → String
  /-- `SUM(..)::text`. -/
  sum : List String → String

/-- A calendar for concrete runs. -/
@[reducible] def Calendar.plain : Calendar where
  isTimestamp seconds := 0 ≤ seconds
  dayText day := toString day
  sum amounts := toString (amounts.filterMap parseU64).sum

def secondsPerDay : Int := 86400

/-- A second, in the unit of the server's clock. -/
def microseconds : Int := 1000000

/-- `(now() AT TIME ZONE 'UTC')::date`. -/
def today (now : Int) : Int := now / (secondsPerDay * microseconds)

/-- `extract(epoch FROM now())::BIGINT` goes to the nearest second. -/
def epochSeconds (now : Int) : Int := (now + microseconds / 2) / microseconds

/-- The first second of the window of so many days. -/
def windowStart (now days : Int) : Int := (today now - (days - 1)) * secondsPerDay

/-! ## The statements -/

structure TokenDayRow where
  day : String
  transfers : Nat
  transferVolume : String
  mints : Nat
  burns : Nat

structure TokenDayCount where
  day : String
  transfers : Nat
deriving DecidableEq

structure TokenStats where
  token : String
  transfers24h : Nat
  daily : List TokenDayCount

/-- `FILTER (WHERE event = ..)`. -/
def eventsNamed (event : String) (rows : List TokenEventsRow) : List TokenEventsRow :=
  rows.filter fun r => r.event = event

/-- The events of a token from a second on. -/
def eventsSince (db : Database) (chainId token : String) (start : Int) : List TokenEventsRow :=
  db.tokenEvents.rows.filter fun r => r.chainId = chainId ∧ r.token = token ∧ start ≤ r.blockTime

/-- The transfers of the tokens from a second on. -/
def transfersSince (db : Database) (chainId : String) (tokens : List String) (start : Int) :
    List TokenEventsRow :=
  db.tokenEvents.rows.filter fun r =>
    r.chainId = chainId ∧ r.token ∈ tokens ∧ r.event = "transfer" ∧ start ≤ r.blockTime

section

variable [Calendar]

/-- `(to_timestamp(block_time) AT TIME ZONE 'UTC')::date::text`. -/
def TokenEventsRow.day (r : TokenEventsRow) : String :=
  Calendar.dayText (r.blockTime / secondsPerDay)

/-- `COALESCE(SUM(amount), 0)::text`. -/
def volume (rows : List TokenEventsRow) : String :=
  let amounts := rows.filterMap (·.amount)
  if amounts.isEmpty then "0" else Calendar.sum amounts

def tokenDayRow (day : String) (rows : List TokenEventsRow) : TokenDayRow :=
  { day
    transfers := (eventsNamed "transfer" rows).length
    transferVolume := volume (eventsNamed "transfer" rows)
    mints := (eventsNamed "mint" rows).length
    burns := (eventsNamed "burn" rows).length }

/-- Every row has a date. -/
def allDated (rows : List TokenEventsRow) : Bool :=
  rows.all fun r => Calendar.isTimestamp r.blockTime

variable [Collation]

abbrev byDay : TokenDayRow → TokenDayRow → Prop := orderBy textLe TokenDayRow.day anyOrder

def getTokenDaily (db : Database) (chainId token : String) (days now : Int) :
    Option (List TokenDayRow) :=
  let rows := eventsSince db chainId token (windowStart now days)
  if allDated rows then
    some ((groupBy TokenEventsRow.day tokenDayRow rows).insertionSort byDay)
  else none

/-- `(token, count)`. -/
def recentTransfers (db : Database) (chainId : String) (tokens : List String) (now : Int) :
    List (String × Nat) :=
  groupBy TokenEventsRow.token (fun token rows => (token, rows.length))
    (transfersSince db chainId tokens (epochSeconds now - secondsPerDay))

/-- `COUNT(*)`. -/
def transferCount (day : String) (rows : List TokenEventsRow) : TokenDayCount := ⟨day, rows.length⟩

/-- `GROUP BY token, day`. -/
def countsByToken (rows : List TokenEventsRow) : List (String × TokenDayCount) :=
  groupBy (fun r => (r.token, r.day)) (fun (token, day) rows => (token, transferCount day rows))
    rows

abbrev byTokenDay : String × TokenDayCount → String × TokenDayCount → Prop :=
  orderBy textLe Prod.fst (orderBy textLe (fun r => r.2.day) anyOrder)

def dailyTransfers (db : Database) (chainId : String) (tokens : List String) (days now : Int) :
    Option (List (String × TokenDayCount)) :=
  let rows := transfersSince db chainId tokens (windowStart now days)
  if allDated rows then
    some ((countsByToken rows).insertionSort byTokenDay)
  else none

/-- What the two statements of `get_token_stats` find, and when. -/
structure RollupReads where
  recent : Database
  recentNow : Int
  daily : Database
  dailyNow : Int

def getTokenStats (reads : RollupReads) (chainId : String) (tokens : List String) (days : Int) :
    Option (List TokenStats) := do
  let recent := recentTransfers reads.recent chainId tokens reads.recentNow
  let daily ← dailyTransfers reads.daily chainId tokens days reads.dailyNow
  return tokens.map fun token =>
    { token
      transfers24h := (recent.find? fun r => r.1 = token).elim 0 (·.2)
      daily := (daily.filter fun r => r.1 = token).map (·.2) }

/-! ## The endpoints -/

/-- `MAX_ROLLUP_DAYS`. -/
def maxRollupDays : Int := 366

def rollupDays (days : Option Int) (default : Int) : Except LookupError Int :=
  let n := days.getD default
  if 1 ≤ n ∧ n ≤ maxRollupDays then .ok n
  else .error (.badRequest ("days must be between 1 and " ++ toString maxRollupDays))

/-- `MAX_STATS_TOKENS`. -/
def maxStatsTokens : Nat := 100

structure StatsQuery where
  assets : String
  days : Option Int := none

/-- The tokens that the query lists. -/
def StatsQuery.tokens (q : StatsQuery) : List String :=
  ((q.assets.toList.splitOn ',').map fun part => String.ofList (trim part)).filter (· ≠ "")

def StatsQuery.check (q : StatsQuery) : Except LookupError Unit :=
  if q.tokens = [] ∨ maxStatsTokens < q.tokens.length then
    .error (.badRequest ("assets must list 1 to " ++ toString maxStatsTokens ++ " tokens"))
  else .ok ()

def ListServer.getAssetDaily (server : ListServer) (db : Database) (chainId asset : String)
    (days : Option Int) (now : Int) : Except LookupError (List TokenDayRow) := do
  let _ ← server.chain chainId
  let days ← rollupDays days 30
  answered (getTokenDaily db chainId asset days now)

def ListServer.getTokenStats (server : ListServer) (reads : RollupReads) (chainId : String)
    (q : StatsQuery) : Except LookupError (List TokenStats) := do
  let _ ← server.chain chainId
  q.check
  let days ← rollupDays q.days 14
  answered (Retracer.getTokenStats reads chainId q.tokens days)

end

/-! ## The transfers of a day -/

section

variable [Calendar] [Collation] {db : Database} {chainId token : String} {tokens : List String}
  {start days now : Int}

abbrev byCountDay : TokenDayCount → TokenDayCount → Prop :=
  orderBy textLe TokenDayCount.day anyOrder

/-- Days with a transfer of the token, oldest first, with the number of transfers. -/
def transferDays (db : Database) (chainId token : String) (start : Int) : List TokenDayCount :=
  (groupBy TokenEventsRow.day transferCount
    (eventsNamed "transfer" (eventsSince db chainId token start))).insertionSort byCountDay

omit [Calendar] [Collation] in
theorem group_transfersSince (htoken : token ∈ tokens) :
    group TokenEventsRow.token (transfersSince db chainId tokens start) token =
      eventsNamed "transfer" (eventsSince db chainId token start) := by
  rw [group, transfersSince, eventsNamed, eventsSince, List.filter_filter, List.filter_filter]
  apply List.filter_congr
  intro r _
  by_cases hsame : r.token = token
  · simp [hsame, htoken, Bool.and_left_comm]
  · simp [hsame]

omit [Collation] in
/-- The groups of one token are those of its rows. -/
theorem mem_countsByToken {rows : List TokenEventsRow} {x : TokenDayCount} :
    x ∈ ((countsByToken rows).filter fun r => r.1 = token).map (·.2) ↔
      x ∈ groupBy TokenEventsRow.day transferCount (group TokenEventsRow.token rows token) := by
  simp only [countsByToken, List.mem_map, List.mem_filter, mem_groupBy, decide_eq_true_eq]
  constructor
  · rintro ⟨_, ⟨⟨⟨t, day⟩, hkey, rfl⟩, rfl⟩, rfl⟩
    refine ⟨day, List.mem_map.mp (mem_map_prod.mp (List.mem_map.mpr hkey)), ?_⟩
    rw [group_prod]
  · rintro ⟨day, hday, rfl⟩
    refine ⟨_, ⟨⟨(token, day), ?_, rfl⟩, rfl⟩, ?_⟩
    · exact List.mem_map.mp (mem_map_prod.mpr (List.mem_map.mpr hday))
    · rw [group_prod]

omit [Collation] in
theorem nodup_days_countsByToken {rows : List TokenEventsRow} :
    ((((countsByToken rows).filter fun r => r.1 = token).map (·.2)).map (·.day)).Nodup := by
  have hkeys : ((countsByToken rows).map fun r => (r.1, r.2.day)).Nodup :=
    nodup_groupBy fun _ _ => rfl
  have hsome := hkeys.sublist
    ((List.filter_sublist (p := fun r : String × TokenDayCount => r.1 = token)).map _)
  rw [List.map_map]
  apply List.Nodup.of_map (fun day => (token, day))
  rw [List.map_map]
  convert hsome using 1
  apply List.map_congr_left
  intro r hr
  have htoken : r.1 = token := of_decide_eq_true (List.mem_filter.mp hr).2
  rw [htoken]
  rfl

/-- The part of the second statement that is about a token. -/
theorem daily_of_dailyTransfers (htoken : token ∈ tokens) {daily : List (String × TokenDayCount)}
    (h : dailyTransfers db chainId tokens days now = some daily) :
    (daily.filter fun r => r.1 = token).map (·.2) =
      transferDays db chainId token (windowStart now days) := by
  unfold dailyTransfers at h
  dsimp only at h
  split at h
  · cases h
    rw [filter_insertionSort, transferDays, List.map_insertionSort byTokenDay byCountDay]
    · apply insertionSort_of_keys
      · exact nodup_days_countsByToken
      · exact nodup_groupBy fun _ _ => rfl
      · intro x
        rw [← group_transfersSince htoken]
        exact mem_countsByToken
    · intro a ha b hb
      have hfirst : a.1 = b.1 := by
        have hta := (List.mem_filter.mp ha).2
        have htb := (List.mem_filter.mp hb).2
        rw [of_decide_eq_true hta, of_decide_eq_true htb]
      constructor
      · exact fun h => h.2 hfirst
      · intro h
        refine ⟨?_, fun _ => h⟩
        rw [hfirst]
        exact refl_of textLe b.1
  · cases h

/-- The days of the other endpoint on which there was a transfer. -/
theorem transfers_of_getTokenDaily {rows : List TokenDayRow}
    (h : getTokenDaily db chainId token days now = some rows) :
    (rows.filter fun r => r.transfers ≠ 0).map (fun r => ⟨r.day, r.transfers⟩) =
      transferDays db chainId token (windowStart now days) := by
  unfold getTokenDaily at h
  dsimp only at h
  split at h
  · cases h
    rw [filter_insertionSort, transferDays,
      List.map_insertionSort byDay byCountDay _ _ fun _ _ _ _ => Iff.rfl]
    apply insertionSort_of_keys
    · rw [List.map_map]
      have hdays : ((groupBy TokenEventsRow.day tokenDayRow
          (eventsSince db chainId token (windowStart now days))).map (·.day)).Nodup :=
        nodup_groupBy fun _ _ => rfl
      exact hdays.sublist (List.filter_sublist.map _)
    · exact nodup_groupBy fun _ _ => rfl
    · intro x
      have hgroup (day : String) : eventsNamed "transfer" (group TokenEventsRow.day
          (eventsSince db chainId token (windowStart now days)) day) =
            group TokenEventsRow.day (eventsNamed "transfer"
              (eventsSince db chainId token (windowStart now days))) day := filter_group _
      have hsome {day : String} : day ∈ (eventsNamed "transfer"
          (eventsSince db chainId token (windowStart now days))).map TokenEventsRow.day ↔
            (eventsNamed "transfer" (group TokenEventsRow.day
              (eventsSince db chainId token (windowStart now days)) day)).length ≠ 0 := by
        rw [hgroup, ne_eq, List.length_eq_zero_iff, group_eq_nil_iff, not_not]
      simp only [List.mem_map, List.mem_filter, mem_groupBy, decide_eq_true_eq]
      constructor
      · rintro ⟨_, ⟨⟨day, _, rfl⟩, htransfers⟩, rfl⟩
        refine ⟨day, List.mem_map.mp (hsome.mpr htransfers), ?_⟩
        rw [← hgroup]
        rfl
      · rintro ⟨day, hday, rfl⟩
        have htransfers := hsome.mp (List.mem_map.mpr hday)
        obtain ⟨r, hr, rfl⟩ := hday
        refine ⟨_, ⟨⟨r.day, ⟨r, List.mem_of_mem_filter hr, rfl⟩, rfl⟩, htransfers⟩, ?_⟩
        rw [← hgroup]
        rfl
  · cases h

/-! ## What the days add up to -/

theorem sum_transferDays :
    ((transferDays db chainId token start).map (·.transfers)).sum =
      (eventsNamed "transfer" (eventsSince db chainId token start)).length := by
  have hperm := List.perm_insertionSort byCountDay (groupBy TokenEventsRow.day transferCount
    (eventsNamed "transfer" (eventsSince db chainId token start)))
  rw [transferDays, (hperm.map _).sum_eq, sum_length_groupBy fun _ => rfl]

/-- Every event of the window is counted on its day. -/
theorem sum_getTokenDaily {event : String} {count : TokenDayRow → Nat}
    (hcount : ∀ day rows, count (tokenDayRow day rows) = (eventsNamed event rows).length)
    {rows : List TokenDayRow} (h : getTokenDaily db chainId token days now = some rows) :
    (rows.map count).sum =
      (eventsNamed event (eventsSince db chainId token (windowStart now days))).length := by
  unfold getTokenDaily at h
  dsimp only at h
  split at h
  · cases h
    have hones : ∀ l : List TokenEventsRow,
        (l.map fun r => if r.event = event then 1 else 0).sum = (eventsNamed event l).length := by
      intro l
      induction l with
      | nil => rfl
      | cons r l ih =>
          rw [List.map_cons, List.sum_cons, ih, eventsNamed, eventsNamed, List.filter_cons]
          by_cases hevent : r.event = event
          · simp [hevent, Nat.add_comm]
          · simp [hevent]
    have hperm := List.perm_insertionSort byDay (groupBy TokenEventsRow.day tokenDayRow
      (eventsSince db chainId token (windowStart now days)))
    rw [(hperm.map _).sum_eq, ← hones]
    exact sum_groupBy fun day => by rw [hcount, hones]
  · cases h

omit [Calendar] [Collation] in
theorem find?_recentTransfers (htoken : token ∈ tokens) :
    ((recentTransfers db chainId tokens now).find? fun r => r.1 = token).elim 0 (·.2) =
      (eventsNamed "transfer"
        (eventsSince db chainId token (epochSeconds now - secondsPerDay))).length := by
  rw [recentTransfers, find?_groupBy fun _ _ => rfl, ← group_transfersSince htoken]
  split
  · rfl
  · next hnone =>
      rw [group_eq_nil_iff.mpr hnone]
      rfl

omit [Calendar] [Collation] in
theorem length_eventsSince_le {start' : Int} (h : start ≤ start') :
    (eventsNamed "transfer" (eventsSince db chainId token start')).length ≤
      (eventsNamed "transfer" (eventsSince db chainId token start)).length := by
  apply List.Sublist.length_le
  apply List.Sublist.filter
  apply List.monotone_filter_right
  intro r hr
  simp only [decide_eq_true_eq] at hr ⊢
  exact ⟨hr.1, hr.2.1, h.trans hr.2.2⟩

omit [Calendar] [Collation] in
/-- A day ago was yesterday or today. -/
theorem windowStart_le (hdays : 2 ≤ days) :
    windowStart now days ≤ epochSeconds now - secondsPerDay := by
  have hday : today now * (secondsPerDay * microseconds) ≤ now :=
    Int.ediv_mul_le now (by decide)
  have hseconds : today now * secondsPerDay ≤ epochSeconds now := by
    rw [epochSeconds, Int.le_ediv_iff_mul_le (by decide)]
    simp only [secondsPerDay, microseconds] at hday ⊢
    omega
  simp only [windowStart, secondsPerDay] at hseconds ⊢
  omega

/-! ## The two endpoints -/

omit [Calendar] [Collation] in
theorem rollupDays_some {n m default : Int} (h : rollupDays (some n) default = .ok m) : m = n := by
  unfold rollupDays at h
  dsimp only [Option.getD_some] at h
  split at h
  · cases h
    rfl
  · cases h

omit [Calendar] [Collation] in
theorem answered_eq_ok {α : Type} {a : Option α} {b : α} : answered a = .ok b ↔ a = some b := by
  cases a <;> simp [answered]

/-- What `token-stats` says of the tokens asked for is what `daily` says of each, and both count
the transfers in the window, each on its day. The count of the last day is among them when the
window is longer than today. -/
theorem token_rollups_agree {server : ListServer} {reads : RollupReads} {q : StatsQuery}
    {stats : List TokenStats} (h : server.getTokenStats reads chainId q = .ok stats) :
    ∃ days, rollupDays q.days 14 = .ok days ∧ stats.map (·.token) = q.tokens ∧
      ∀ entry ∈ stats,
        (∀ rows, server.getAssetDaily reads.daily chainId entry.token (some days) reads.dailyNow =
            .ok rows →
          entry.daily = (rows.filter fun r => r.transfers ≠ 0).map
            (fun r => ⟨r.day, r.transfers⟩) ∧
          (rows.map (·.transfers)).sum = (entry.daily.map (·.transfers)).sum) ∧
        (entry.daily.map (·.transfers)).sum =
          (eventsNamed "transfer" (eventsSince reads.daily chainId entry.token
            (windowStart reads.dailyNow days))).length ∧
        entry.transfers24h =
          (eventsNamed "transfer" (eventsSince reads.recent chainId entry.token
            (epochSeconds reads.recentNow - secondsPerDay))).length ∧
        (2 ≤ days → reads.recent = reads.daily → reads.recentNow = reads.dailyNow →
          entry.transfers24h ≤ (entry.daily.map (·.transfers)).sum) := by
  unfold ListServer.getTokenStats at h
  simp only [bind_eq_ok, answered_eq_ok] at h
  obtain ⟨_, _, _, _, days, hdays, hread⟩ := h
  obtain ⟨daily, hdaily, hstats⟩ := Option.bind_eq_some_iff.mp hread
  cases hstats
  refine ⟨days, hdays, ?_, ?_⟩
  · rw [List.map_map]
    exact List.map_id' _
  · intro entry hentry
    obtain ⟨token, htoken, rfl⟩ := List.mem_map.mp hentry
    dsimp only
    rw [daily_of_dailyTransfers htoken hdaily, find?_recentTransfers htoken, sum_transferDays]
    refine ⟨?_, rfl, rfl, ?_⟩
    · intro rows hrows
      simp only [ListServer.getAssetDaily, bind_eq_ok, answered_eq_ok] at hrows
      obtain ⟨_, _, days', hdays', hread'⟩ := hrows
      obtain rfl := rollupDays_some hdays'
      exact ⟨(transfers_of_getTokenDaily hread').symm, sum_getTokenDaily (fun _ _ => rfl) hread'⟩
    · intro htwo hsame hnow
      rw [hsame, hnow]
      exact length_eventsSince_le (windowStart_le htwo)

end

/-- A transfer of gold on each of two days. -/
def goldOnTwoDays : List WriteOp :=
  [.insert "main" [
    { IndexableBlock.acting 0 "g" "" "alice" "x" (goldTokenTo "bob") {} with timestamp := 80000 },
    { IndexableBlock.acting 1 "a1" "g" "bob" "y" (goldTokenTo "carol") {} with
      timestamp := 90000 }]]

/-- On the second day. -/
def goldReads (db : Database) : RollupReads where
  recent := db
  recentNow := 100000 * microseconds
  daily := db
  dailyNow := 100000 * microseconds

def goldAndSilver : StatsQuery where
  assets := "gold, silver"
  days := some 2

def goldStats (db : Database) : Except LookupError (List TokenStats) :=
  @ListServer.getTokenStats .plain .plain amountServer (goldReads db) "main" goldAndSilver

theorem token_rollups_agree_gold :
    ∃ s stats, exec (@consecutiveStep .plain fun _ => .tierAOnly .empty) {} goldOnTwoDays = some s ∧
      goldStats s.db = .ok stats ∧
      (stats.map fun e => (e.token, e.transfers24h, e.daily.map fun d => (d.day, d.transfers))) =
        [("gold", 2, [("0", 1), ("1", 1)]), ("silver", 0, [])] ∧
      ∃ days, rollupDays goldAndSilver.days 14 = .ok days ∧
        ∀ entry ∈ stats, ∀ rows, @ListServer.getAssetDaily .plain .plain amountServer s.db "main"
            entry.token (some days) (100000 * microseconds) = .ok rows →
          entry.daily = (rows.filter fun r => r.transfers ≠ 0).map
            fun r => ⟨r.day, r.transfers⟩ := by
  have hsome : ((exec (@consecutiveStep .plain fun _ => .tierAOnly .empty) {} goldOnTwoDays).bind
      fun s => (goldStats s.db).toOption.map fun stats => stats.map fun e =>
        (e.token, e.transfers24h, e.daily.map fun d => (d.day, d.transfers))) =
      some [("gold", 2, [("0", 1), ("1", 1)]), ("silver", 0, [])] := by
    decide +kernel
  obtain ⟨s, hs, hstats⟩ := Option.bind_eq_some_iff.mp hsome
  obtain ⟨stats, hstats, hrows⟩ := Option.map_eq_some_iff.mp hstats
  have hok : goldStats s.db = .ok stats := by
    cases hcase : goldStats s.db with
    | error e =>
        rw [hcase] at hstats
        cases hstats
    | ok found =>
        rw [hcase] at hstats
        cases hstats
        rfl
  obtain ⟨days, hdays, _, hagree⟩ := @token_rollups_agree .plain .plain "main" amountServer
    (goldReads s.db) goldAndSilver stats hok
  refine ⟨s, stats, hs, hok, hrows, days, hdays, ?_⟩
  intro entry hentry rows hdaily
  exact ((hagree entry hentry).1 rows hdaily).1

end Retracer
