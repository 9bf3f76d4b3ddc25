import Mathlib.Data.Int.Interval
import Retracer.Library.Traverse
import Retracer.Rest.AuditExports
import Retracer.Rest.Uptime
import Retracer.Rest.UptimeCache
import Retracer.Storage.Proposers

/-! # The uptime endpoint

A request reads the proposed heights of its range and then the validator set of each height,
several at a time, from the cache or from the node. Other requests use the same cache meanwhile.
Each lookup is two steps: it looks into the cache, and if the set is not there the node answers
later. The node may give a height another set another time, so a cached set may be out of date.
-/

namespace Retracer

open KeyedTable Execution Traverse

/-! ## A request -/

structure UptimeQuery where
  «from» : UInt64
  «to» : UInt64

/-- `MAX_UPTIME_RANGE`. -/
def maxUptimeRange : UInt64 := 5000

/-- What is checked before the database is read. The sum wraps around in a release build. -/
def UptimeQuery.check (query : UptimeQuery) : Except LookupError Unit :=
  if query.to < query.from then .error (.badRequest "from must be <= to")
  else if maxUptimeRange < query.to - query.from + 1 then
    .error (.badRequest ("range too large; at most " ++ toString maxUptimeRange.toNat ++
      " heights per request"))
  else .ok ()

/-- The rows that the request is about. -/
def UptimeQuery.rows (query : UptimeQuery) (db : Database) (chainId : String) :
    List ProposedHeight :=
  listProposedHeights db chainId (asI64 query.from.toNat) (asI64 query.to.toNat)

/-- Where the lookup of a height is. -/
inductive SetLookup where
  | waiting
  | asked
  | done
deriving DecidableEq

/-- A result of `buffer_unordered`, in the order in which the lookups end. -/
abbrev FetchedSet : Type := Except String (UInt64 × List String)

structure UptimeRequest where
  chainId : String
  query : UptimeQuery
  rows : List ProposedHeight
  lookups : List (UInt64 × SetLookup)
  sets : List FetchedSet := []

def UptimeRequest.open (chainId : String) (query : UptimeQuery) (rows : List ProposedHeight) :
    UptimeRequest :=
  { chainId, query, rows, lookups := rows.map fun row => (row.height.toUInt64, .waiting) }

def UptimeRequest.isDone (request : UptimeRequest) : Bool :=
  request.lookups.all fun l => l.2 == .done

/-- A lookup ends. -/
def UptimeRequest.finish (request : UptimeRequest) (i : Nat) (height : UInt64)
    (set : FetchedSet) : UptimeRequest :=
  { request with
    lookups := request.lookups.set i (height, .done)
    sets := request.sets ++ [set] }

structure UptimeReport where
  «from» : UInt64
  «to» : UInt64
  heightsCounted : Nat
  validators : List ValidatorUptime

/-- `HashMap::insert` for each set: the last one counts. -/
def setOf (sets : List (UInt64 × List String)) (height : UInt64) : Option (List String) :=
  (sets.reverse.find? fun x => x.1 = height).map (·.2)

/-- The end of the handler. -/
def UptimeRequest.report (request : UptimeRequest) : Except LookupError UptimeReport :=
  if request.rows.isEmpty then
    .ok
      { «from» := request.query.from, «to» := request.query.to
        heightsCounted := 0
        validators := [] }
  else
    match request.sets.mapM fun set => set.toOption with
    | none => .error .internal
    | some sets =>
        .ok
          { «from» := request.query.from, «to» := request.query.to
            heightsCounted := request.rows.length
            validators := computeUptime request.rows (setOf sets) }

/-! ## The requests of a server -/

structure UptimeChains where
  served : AuditServer
  nodeRpcUrl : String → Option String

/-- The beginning of the handler. -/
def UptimeChains.open (chains : UptimeChains) (chainId : String) (query : UptimeQuery)
    (db : Database) : Except LookupError UptimeRequest := do
  chains.served.chain chainId
  if (chains.nodeRpcUrl chainId).isNone then
    throw (.badRequest ("chain " ++ chains.served.debugText chainId ++
      " has no node RPC URL configured; validator uptime is unavailable"))
  query.check
  return UptimeRequest.open chainId query (query.rows db chainId)

structure UptimeServer where
  cache : UptimeCache
  requests : List UptimeRequest := []

/-- What the node says of a height, and the instants of the insert that follows. -/
structure NodeAnswer where
  chainId : String
  height : UInt64
  validators : List String
  looked : String × UInt64 → Nat
  now : Nat

/-- `set.sort()`. -/
def sortedSet (set : List String) : List String := set.insertionSort (· ≤ ·)

def NodeAnswer.insert (told : NodeAnswer) : UptimeInsert :=
  { chainId := told.chainId, height := told.height, validators := sortedSet told.validators
    looked := told.looked, now := told.now }

/-- Request `r`, lookup `i`. -/
inductive UptimeEvent where
  | open (chainId : String) (query : UptimeQuery) (db : Database)
  | look (r i : Nat) (now : Nat)
  | answer (r i : Nat) (told : NodeAnswer)
  | fail (r i : Nat) (error : String)

def uptimeStep (chains : UptimeChains) (server : UptimeServer) :
    UptimeEvent → Option UptimeServer
  | .open chainId query db => do
      let request ← (chains.open chainId query db).toOption
      some { server with requests := server.requests ++ [request] }
  | .look r i now => do
      let request ← server.requests[r]?
      match request.lookups[i]? with
      | some (height, .waiting) =>
          let next :=
            match server.cache.get request.chainId height now with
            | some set => request.finish i height (.ok (height, set))
            | none => { request with lookups := request.lookups.set i (height, .asked) }
          some { server with requests := server.requests.set r next }
      | _ => none
  | .answer r i told => do
      let request ← server.requests[r]?
      match request.lookups[i]? with
      | some (height, .asked) =>
          if told.chainId = request.chainId ∧ told.height = height then
            some
              { cache := server.cache.insert told.insert
                requests := server.requests.set r
                  (request.finish i height (.ok (height, sortedSet told.validators))) }
          else none
      | _ => none
  | .fail r i error => do
      let request ← server.requests[r]?
      match request.lookups[i]? with
      | some (height, .asked) =>
          some { server with
                  requests := server.requests.set r (request.finish i height (.error error)) }
      | _ => none

/-! ## What a lookup should find -/

def UptimeEvent.told : UptimeEvent → Option NodeAnswer
  | .answer _ _ told => some told
  | _ => none

def NodeAnswer.isFor (told : NodeAnswer) (chainId : String) (height : UInt64) : Bool :=
  told.chainId = chainId ∧ told.height = height

/-- The last that the node said of the height, whoever asked. -/
def lastAnswer (events : List UptimeEvent) (chainId : String) (height : UInt64) :
    Option NodeAnswer :=
  ((events.filterMap UptimeEvent.told).filter (·.isFor chainId height)).getLast?

/-- Lookup `i` of request `r` got what the node told it, or else what the node had said last when
the lookup was made, less than the ttl before. -/
def Fetched (ttl : Nat) (events : List UptimeEvent) (r i : Nat) (told : NodeAnswer) : Prop :=
  .answer r i told ∈ events ∨
    ∃ before now after, events = before ++ .look r i now :: after ∧
      lastAnswer before told.chainId told.height = some told ∧ now - told.now < ttl

theorem lastAnswer_answer (events : List UptimeEvent) (r i : Nat) {told : NodeAnswer}
    {chainId : String} {height : UInt64} (hfor : told.isFor chainId height = true) :
    lastAnswer (events ++ [.answer r i told]) chainId height = some told := by
  simp [lastAnswer, List.filterMap_append, UptimeEvent.told, hfor]

theorem lastAnswer_other (events : List UptimeEvent) {event : UptimeEvent} {chainId : String}
    {height : UInt64} (hother : ∀ told ∈ event.told, told.isFor chainId height = false) :
    lastAnswer (events ++ [event]) chainId height = lastAnswer events chainId height := by
  unfold lastAnswer
  rw [List.filterMap_append, List.filter_append]
  cases htold : event.told with
  | none => simp [htold]
  | some told => simp [htold, hother told htold]

theorem mem_of_lastAnswer {events : List UptimeEvent} {chainId : String} {height : UInt64}
    {told : NodeAnswer} (h : lastAnswer events chainId height = some told) :
    (∃ r i, .answer r i told ∈ events) ∧ told.chainId = chainId ∧ told.height = height := by
  obtain ⟨hmem, hfor⟩ := List.mem_filter.mp (List.mem_of_getLast? h)
  obtain ⟨event, hevent, htold⟩ := List.mem_filterMap.mp hmem
  refine ⟨?_, of_decide_eq_true hfor⟩
  cases event with
  | answer r i told' =>
      cases htold
      exact ⟨r, i, hevent⟩
  | _ => cases htold

theorem Fetched.mono {ttl r i : Nat} {events : List UptimeEvent} {told : NodeAnswer}
    (h : Fetched ttl events r i told) (event : UptimeEvent) :
    Fetched ttl (events ++ [event]) r i told := by
  rcases h with hown | ⟨before, now, after, rfl, hlast⟩
  · exact Or.inl (List.mem_append_left _ hown)
  · refine Or.inr ⟨before, now, after ++ [event], ?_, hlast⟩
    rw [List.append_assoc, List.cons_append]

/-- Either way it is an answer of the node that some lookup of the run heard. -/
theorem Fetched.answered {ttl r i : Nat} {events : List UptimeEvent} {told : NodeAnswer}
    (h : Fetched ttl events r i told) : ∃ r' i', .answer r' i' told ∈ events := by
  rcases h with hown | ⟨before, now, after, rfl, hlast, -⟩
  · exact ⟨r, i, hown⟩
  · obtain ⟨⟨r', i', hmem⟩, -⟩ := mem_of_lastAnswer hlast
    exact ⟨r', i', List.mem_append_left _ hmem⟩

/-! ## What is in the cache and in the requests -/

section

variable {chains : UptimeChains} {events : List UptimeEvent} {event : UptimeEvent}
  {ttl maxEntries : Nat}

/-- Every entry of the cache is from the last answer of the node. -/
structure UptimeCache.FromNode (ttl : Nat) (events : List UptimeEvent) (cache : UptimeCache) :
    Prop where
  limit : cache.ttl = ttl
  entries : ∀ k, ∀ entry ∈ cache.entries.find? k, ∃ told, lastAnswer events k.1 k.2 = some told ∧
    entry.validators = sortedSet told.validators ∧ entry.fetched = told.now

theorem UptimeCache.FromNode.get {cache : UptimeCache} (h : cache.FromNode ttl events)
    {chainId : String} {height : UInt64} {now : Nat} {set : List String}
    (hget : cache.get chainId height now = some set) :
    ∃ told, lastAnswer events chainId height = some told ∧ set = sortedSet told.validators ∧
      now - told.now < ttl := by
  obtain ⟨entry, hentry, rfl⟩ := Option.map_eq_some_iff.mp hget
  obtain ⟨hfound, hyoung⟩ := Option.filter_eq_some_iff.mp hentry
  obtain ⟨told, hlast, hset, hfetched⟩ := h.entries (chainId, height) entry hfound
  refine ⟨told, hlast, hset, ?_⟩
  simpa [UptimeCacheEntry.isExpired, h.limit, hfetched] using hyoung

theorem UptimeCache.FromNode.other {cache : UptimeCache} (h : cache.FromNode ttl events)
    (hnone : event.told = none) : cache.FromNode ttl (events ++ [event]) where
  limit := h.limit
  entries := by
    intro k entry hentry
    rw [lastAnswer_other events (by simp [hnone])]
    exact h.entries k entry hentry

theorem UptimeCache.FromNode.insert {cache : UptimeCache} (h : cache.FromNode ttl events)
    (r i : Nat) (told : NodeAnswer) :
    (cache.insert told.insert).FromNode ttl (events ++ [.answer r i told]) where
  limit := h.limit
  entries := by
    intro k entry hentry
    rw [UptimeCache.find?_insert] at hentry
    by_cases hk : told.insert.key = k
    · rw [if_pos hk] at hentry
      cases hentry
      subst hk
      exact ⟨told, lastAnswer_answer events r i (decide_eq_true ⟨rfl, rfl⟩), rfl, rfl⟩
    · rw [if_neg hk] at hentry
      have hother : told.isFor k.1 k.2 = false := by
        apply decide_eq_false
        rintro ⟨hchain, hheight⟩
        exact hk (Prod.ext hchain hheight)
      have hfound : entry ∈ cache.entries.find? k := by
        unfold UptimeCache.swept at hentry
        split at hentry
        · rw [Table.find?_deleteWhere] at hentry
          exact (Option.filter_eq_some_iff.mp hentry).1
        · exact hentry
      rw [lastAnswer_other events (by simpa [UptimeEvent.told] using hother)]
      exact h.entries k entry hfound

/-- What request `r` has so far: the rows that it was opened with, a result for each lookup that
has ended, and what was fetched in those that did not fail. -/
structure UptimeRequest.FromNode (ttl : Nat) (events : List UptimeEvent) (r : Nat)
    (request : UptimeRequest) : Prop where
  opened : ∃ db, .open request.chainId request.query db ∈ events ∧
    request.query.check = .ok () ∧ request.rows = request.query.rows db request.chainId
  heights : request.lookups.map (·.1) = request.rows.map (·.height.toUInt64)
  fetched : ∀ height set, .ok (height, set) ∈ request.sets →
    ∃ i told, request.lookups[i]? = some (height, .done) ∧
      told.isFor request.chainId height = true ∧ set = sortedSet told.validators ∧
        Fetched ttl events r i told
  ended : ∀ height, (height, SetLookup.done) ∈ request.lookups →
    (∀ set ∈ request.sets, set.isOk = true) → ∃ set, .ok (height, set) ∈ request.sets
  looked : request.rows = [] → request.sets = []

/-- A request that is opened has passed the checks, and has its rows. -/
theorem UptimeChains.open_eq_ok {chainId : String} {query : UptimeQuery} {db : Database}
    {request : UptimeRequest} (h : (chains.open chainId query db).toOption = some request) :
    query.check = .ok () ∧ request = UptimeRequest.open chainId query (query.rows db chainId) := by
  unfold UptimeChains.open at h
  cases hchain : chains.served.chain chainId with
  | error e =>
      rw [hchain] at h
      cases h
  | ok =>
      rw [hchain] at h
      by_cases hurl : (chains.nodeRpcUrl chainId).isNone
      · rw [if_pos hurl] at h
        cases h
      · rw [if_neg hurl] at h
        cases hcheck : query.check with
        | error e =>
            rw [hcheck] at h
            cases h
        | ok =>
            rw [hcheck] at h
            cases h
            exact ⟨rfl, rfl⟩

theorem UptimeRequest.fromNode_open {chainId : String} {query : UptimeQuery} {db : Database}
    (r : Nat) (hcheck : query.check = .ok ()) :
    (UptimeRequest.open chainId query (query.rows db chainId)).FromNode ttl
      (events ++ [.open chainId query db]) r where
  opened := ⟨db, List.mem_append_right _ (List.mem_singleton_self _), hcheck, rfl⟩
  heights := by simp [UptimeRequest.open]
  fetched := by simp [UptimeRequest.open]
  ended := by simp [UptimeRequest.open]
  looked := fun _ => rfl

theorem map_fst_set {α β : Type} {l : List (α × β)} {i : Nat} {a : α} {b c : β}
    (hi : l[i]? = some (a, b)) : (l.set i (a, c)).map (·.1) = l.map (·.1) := by
  apply List.ext_getElem?
  intro j
  rw [List.map_set, List.getElem?_set, List.length_map, List.getElem?_map]
  by_cases hj : i = j
  · rw [← hj, hi]
    simp [(List.getElem?_eq_some_iff.mp hi).1]
  · rw [if_neg hj]

namespace UptimeRequest.FromNode

variable {request : UptimeRequest} {r i : Nat} {height : UInt64} {lookup : SetLookup}

theorem mono (h : request.FromNode ttl events r) (event : UptimeEvent) :
    request.FromNode ttl (events ++ [event]) r where
  opened := by
    obtain ⟨db, hmem, hopened⟩ := h.opened
    exact ⟨db, List.mem_append_left _ hmem, hopened⟩
  heights := h.heights
  fetched := by
    intro height set hset
    obtain ⟨i, told, hi, hfor, hsorted, hfetched⟩ := h.fetched height set hset
    exact ⟨i, told, hi, hfor, hsorted, hfetched.mono event⟩
  ended := h.ended
  looked := h.looked

/-- A lookup that has ended is not touched by another one. -/
theorem done_set (hi : request.lookups[i]? = some (height, lookup)) (hnot : lookup ≠ .done)
    (next : SetLookup) {j : Nat} {height' : UInt64}
    (hj : request.lookups[j]? = some (height', .done)) :
    (request.lookups.set i (height, next))[j]? = some (height', .done) := by
  have hne : i ≠ j := by
    rintro rfl
    rw [hi] at hj
    cases hj
    exact hnot rfl
  rw [List.getElem?_set_ne hne, hj]

theorem ask (h : request.FromNode ttl events r)
    (hi : request.lookups[i]? = some (height, .waiting)) :
    { request with lookups := request.lookups.set i (height, .asked) }.FromNode ttl events r where
  opened := h.opened
  heights := (map_fst_set hi).trans h.heights
  fetched := by
    intro height' set hset
    obtain ⟨j, told, hj, hfetched⟩ := h.fetched height' set hset
    exact ⟨j, told, done_set hi (by simp) .asked hj, hfetched⟩
  ended := by
    intro height' hdone hok
    rcases List.mem_or_eq_of_mem_set hdone with hmem | heq
    · exact h.ended height' hmem hok
    · cases heq
  looked := h.looked

theorem finish (h : request.FromNode ttl events r)
    (hi : request.lookups[i]? = some (height, lookup)) (hnot : lookup ≠ .done) {set : FetchedSet}
    (hset : ∀ x, set = .ok x → ∃ told : NodeAnswer, told.isFor request.chainId height = true ∧
      x = (height, sortedSet told.validators) ∧ Fetched ttl events r i told) :
    (request.finish i height set).FromNode ttl events r where
  opened := h.opened
  heights := (map_fst_set hi).trans h.heights
  fetched := by
    intro height' set' hmem
    rcases List.mem_append.mp hmem with hold | hnew
    · obtain ⟨j, told, hj, hfetched⟩ := h.fetched height' set' hold
      exact ⟨j, told, done_set hi hnot .done hj, hfetched⟩
    · obtain ⟨told, hfor, hx, hfetched⟩ := hset _ (List.mem_singleton.mp hnew).symm
      cases hx
      have hlt := (List.getElem?_eq_some_iff.mp hi).1
      exact ⟨i, told, List.getElem?_set_self hlt, hfor, rfl, hfetched⟩
  ended := by
    intro height' hdone hok
    rcases List.mem_or_eq_of_mem_set hdone with hmem | heq
    · obtain ⟨set', hset'⟩ := h.ended height' hmem fun x hx => hok x (List.mem_append_left _ hx)
      exact ⟨set', List.mem_append_left _ hset'⟩
    · cases heq
      have hnew := hok set (List.mem_append_right _ (List.mem_singleton_self _))
      cases set with
      | error e => cases hnew
      | ok x =>
          obtain ⟨told, _, rfl, _⟩ := hset x rfl
          exact ⟨_, List.mem_append_right _ (List.mem_singleton_self _)⟩
  looked := by
    intro hnil
    have hrows : request.rows = [] := hnil
    have hlookups := h.heights
    rw [hrows, List.map_nil, List.map_eq_nil_iff] at hlookups
    rw [hlookups] at hi
    cases hi

end UptimeRequest.FromNode

structure UptimeServer.FromNode (ttl : Nat) (events : List UptimeEvent) (server : UptimeServer) :
    Prop where
  cache : server.cache.FromNode ttl events
  requests : ∀ (r : Nat) (request : UptimeRequest), server.requests[r]? = some request →
    request.FromNode ttl events r

theorem UptimeServer.fromNode_empty :
    UptimeServer.FromNode ttl [] { cache := .withLimits ttl maxEntries } where
  cache := ⟨rfl, fun _ _ hentry => nomatch hentry⟩
  requests := fun _ _ hrequest => nomatch hrequest

theorem UptimeServer.FromNode.set {server : UptimeServer} (h : server.FromNode ttl events)
    {cache : UptimeCache} (hcache : cache.FromNode ttl (events ++ [event])) {r : Nat}
    {next : UptimeRequest} (hnext : next.FromNode ttl (events ++ [event]) r) :
    (UptimeServer.mk cache (server.requests.set r next)).FromNode ttl (events ++ [event]) := by
  refine ⟨hcache, fun j request hj => ?_⟩
  simp only [List.getElem?_set] at hj
  split at hj
  · next hsame =>
      split at hj
      · cases hj
        exact hsame ▸ hnext
      · cases hj
  · exact (h.requests j request hj).mono event

theorem fromNode_uptimeStep {server server' : UptimeServer} (h : server.FromNode ttl events)
    (hs : uptimeStep chains server event = some server') :
    server'.FromNode ttl (events ++ [event]) := by
  have hlast : event ∈ events ++ [event] := List.mem_append_right _ (List.mem_singleton_self _)
  cases event with
  | «open» chainId query db =>
      obtain ⟨opened, hopened, hs⟩ := Option.bind_eq_some_iff.mp hs
      cases hs
      obtain ⟨hcheck, rfl⟩ := UptimeChains.open_eq_ok hopened
      refine ⟨h.cache.other rfl, fun r request hr => ?_⟩
      rcases Nat.lt_or_ge r server.requests.length with hold | hnew
      · rw [List.getElem?_append_left hold] at hr
        exact (h.requests r request hr).mono _
      · rw [List.getElem?_append_right hnew] at hr
        obtain rfl := List.mem_singleton.mp (List.mem_of_getElem? hr)
        exact UptimeRequest.fromNode_open r hcheck
  | look r i now =>
      obtain ⟨request, hrequest, hs⟩ := Option.bind_eq_some_iff.mp hs
      have hgood := (h.requests r request hrequest).mono (.look r i now)
      split at hs
      · next height hi =>
          cases hs
          apply h.set (h.cache.other rfl)
          cases hget : server.cache.get request.chainId height now with
          | none => exact hgood.ask hi
          | some set =>
              apply hgood.finish hi (by simp)
              intro x hx
              cases hx
              obtain ⟨told, htold, rfl, hyoung⟩ := h.cache.get hget
              obtain ⟨-, hchain, hheight⟩ := mem_of_lastAnswer htold
              refine ⟨told, decide_eq_true ⟨hchain, hheight⟩, rfl, Or.inr ?_⟩
              exact ⟨events, now, [], rfl, hchain ▸ hheight ▸ htold, hyoung⟩
      · cases hs
  | answer r i told =>
      obtain ⟨request, hrequest, hs⟩ := Option.bind_eq_some_iff.mp hs
      have hgood := (h.requests r request hrequest).mono (.answer r i told)
      split at hs
      · next height hi =>
          split at hs
          · next hfor =>
              cases hs
              apply h.set (h.cache.insert r i told)
              apply hgood.finish hi (by simp)
              intro x hx
              cases hx
              exact ⟨told, decide_eq_true hfor, rfl, Or.inl hlast⟩
          · cases hs
      · cases hs
  | fail r i error =>
      obtain ⟨request, hrequest, hs⟩ := Option.bind_eq_some_iff.mp hs
      have hgood := (h.requests r request hrequest).mono (.fail r i error)
      split at hs
      · next height hi =>
          cases hs
          apply h.set (h.cache.other rfl)
          apply hgood.finish hi (by simp)
          intro x hx
          cases hx
      · cases hs

/-! ## The report -/

theorem mem_of_setOf {sets : List (UInt64 × List String)} {height : UInt64} {set : List String}
    (h : setOf sets height = some set) : (height, set) ∈ sets := by
  obtain ⟨⟨height', set'⟩, hfind, rfl⟩ := Option.map_eq_some_iff.mp h
  have hheight : height' = height := by simpa using List.find?_some hfind
  exact hheight ▸ List.mem_reverse.mp (List.mem_of_find?_eq_some hfind)

theorem isSome_setOf {sets : List (UInt64 × List String)} {height : UInt64} {set : List String}
    (hmem : (height, set) ∈ sets) : (setOf sets height).isSome := by
  rw [setOf, Option.isSome_map, List.find?_isSome]
  exact ⟨_, List.mem_reverse.mpr hmem, decide_eq_true rfl⟩

/-- The report depends on the sets of the heights of its rows. -/
theorem computeUptime_congr {rows : List ProposedHeight}
    {sets sets' : UInt64 → Option (List String)}
    (h : ∀ row ∈ rows, sets row.height.toUInt64 = sets' row.height.toUInt64) :
    computeUptime rows sets = computeUptime rows sets' := by
  unfold computeUptime
  have hcounts : rows.foldl (UptimeCounts.countRow sets) {} =
      rows.foldl (UptimeCounts.countRow sets') {} := by
    apply List.foldl_ext
    intro counts row hrow
    simp only [UptimeCounts.countRow, h row hrow]
  rw [hcounts]

theorem UptimeRequest.FromNode.mem_fetched {request : UptimeRequest} {r : Nat}
    (h : request.FromNode ttl events r) (hdone : request.isDone = true)
    (hok : ∀ set ∈ request.sets, set.isOk = true) {row : ProposedHeight}
    (hrow : row ∈ request.rows) : ∃ set, .ok (row.height.toUInt64, set) ∈ request.sets := by
  have hheight : row.height.toUInt64 ∈ request.lookups.map (·.1) := by
    rw [h.heights]
    exact List.mem_map_of_mem hrow
  obtain ⟨⟨height, lookup⟩, hlookup, rfl⟩ := List.mem_map.mp hheight
  have hstate : lookup = .done := by simpa using List.all_eq_true.mp hdone _ hlookup
  exact h.ended _ (hstate ▸ hlookup) hok

theorem toOption_eq_some {ε α : Type} {x : Except ε α} {a : α} :
    x.toOption = some a ↔ x = .ok a := by
  cases x <;> simp [Except.toOption]

/-- `result?` gets through all the sets exactly if each of them was fetched. -/
theorem isSome_mapM_toOption {sets : List FetchedSet} :
    (sets.mapM fun set : FetchedSet => set.toOption).isSome = sets.all Except.isOk := by
  rw [Bool.eq_iff_iff, isSome_mapM_iff, List.all_eq_true]
  apply forall₂_congr
  intro set _
  cases set <;> simp [Except.toOption, Except.isOk, Except.toBool]

/-- What the report should be, from the set of each height. -/
def UptimeQuery.reportOf (query : UptimeQuery) (rows : List ProposedHeight)
    (sets : UInt64 → Option (List String)) : UptimeReport :=
  { «from» := query.from, «to» := query.to
    heightsCounted := rows.length
    validators := computeUptime rows sets }

/-- Every row has a set that the node gave for its height, and that its lookup fetched. -/
def UptimeRequest.SetsFetched (request : UptimeRequest) (ttl : Nat) (events : List UptimeEvent)
    (r : Nat) (rows : List ProposedHeight) (sets : UInt64 → Option (List String)) : Prop :=
  ∀ row ∈ rows, ∃ i told, request.lookups[i]? = some (row.height.toUInt64, .done) ∧
    told.isFor request.chainId row.height.toUInt64 = true ∧
    sets row.height.toUInt64 = some (sortedSet told.validators) ∧ Fetched ttl events r i told

theorem UptimeRequest.FromNode.report {request : UptimeRequest} {r : Nat}
    (h : request.FromNode ttl events r) (hdone : request.isDone = true)
    (hall : request.sets.all Except.isOk = true) :
    ∃ sets, request.SetsFetched ttl events r request.rows sets ∧
      request.report = .ok (request.query.reportOf request.rows sets) := by
  unfold UptimeRequest.report
  by_cases hempty : request.rows = []
  · refine ⟨fun _ => none, fun row hrow => ?_, ?_⟩
    · rw [hempty] at hrow
      cases hrow
    · rw [hempty]
      rfl
  · have hisEmpty : request.rows.isEmpty = false := List.isEmpty_eq_false_iff.mpr hempty
    obtain ⟨sets, hsets⟩ := Option.isSome_iff_exists.mp (isSome_mapM_toOption.trans hall)
    rw [hisEmpty, hsets]
    have hfetched : ∀ x, x ∈ sets ↔ .ok x ∈ request.sets := by
      intro x
      rw [mem_mapM_iff hsets]
      simp [toOption_eq_some]
    refine ⟨setOf sets, fun row hrow => ?_, rfl⟩
    obtain ⟨_, hmem⟩ := h.mem_fetched hdone (List.all_eq_true.mp hall) hrow
    obtain ⟨set, hset⟩ :=
      Option.isSome_iff_exists.mp (isSome_setOf ((hfetched _).mpr hmem))
    obtain ⟨i, told, hi, hfor, rfl, htold⟩ :=
      h.fetched _ set ((hfetched _).mp (mem_of_setOf hset))
    exact ⟨i, told, hi, hfor, hset, htold⟩

theorem UptimeRequest.FromNode.report_error {request : UptimeRequest} {r : Nat}
    (h : request.FromNode ttl events r) (hfailed : request.sets.all Except.isOk = false) :
    request.report = .error .internal := by
  have hempty : request.rows.isEmpty = false := by
    apply List.isEmpty_eq_false_iff.mpr
    intro hnil
    rw [h.looked hnil] at hfailed
    cases hfailed
  unfold UptimeRequest.report
  rw [hempty]
  cases hsets : request.sets.mapM fun set => set.toOption with
  | none => rfl
  | some sets =>
      have hall : (request.sets.mapM fun set : FetchedSet => set.toOption).isSome = _ :=
        isSome_mapM_toOption
      rw [hsets, hfailed] at hall
      cases hall

/-- Where the node does not change its mind, it does not matter when it was asked. -/
theorem UptimeRequest.SetsFetched.computeUptime_eq {request : UptimeRequest} {r : Nat}
    {rows : List ProposedHeight} {sets : UInt64 → Option (List String)}
    (h : request.SetsFetched ttl events r rows sets) {nodeSet : String → UInt64 → List String}
    (hnode : ∀ r' i' told, .answer r' i' told ∈ events →
      told.validators = nodeSet told.chainId told.height) :
    computeUptime rows sets =
      computeUptime rows fun height => some (sortedSet (nodeSet request.chainId height)) := by
  apply computeUptime_congr
  intro row hrow
  obtain ⟨i, told, -, hfor, hset, hfetched⟩ := h row hrow
  obtain ⟨hchain, hheight⟩ := of_decide_eq_true hfor
  obtain ⟨r', i', hmem⟩ := hfetched.answered
  rw [hset, hnode r' i' told hmem, hchain, hheight]

/-! ## The rows -/

/-- The height of the block is in the range. The ends are bound as `i64`. -/
def UptimeQuery.covers (query : UptimeQuery) (b : IndexableBlock) : Bool :=
  asI64 query.from.toNat ≤ (b.height : Int) ∧ (b.height : Int) ≤ asI64 query.to.toNat

theorem UptimeQuery.check_eq_ok {query : UptimeQuery} (h : query.check = .ok ()) :
    query.from ≤ query.to ∧ query.to - query.from + 1 ≤ maxUptimeRange := by
  unfold UptimeQuery.check at h
  split at h
  · cases h
  · next hle =>
      split at h
      · cases h
      · next hrange => exact ⟨UInt64.not_lt.mp hle, UInt64.not_lt.mp hrange⟩

/-- So many heights lie between two. -/
theorem length_le_of_ascending {heights : List Int} {lo hi : Int}
    (hascending : heights.Pairwise (· < ·)) (hin : ∀ h ∈ heights, lo ≤ h ∧ h ≤ hi) :
    heights.length ≤ (hi + 1 - lo).toNat := by
  have hnodup : heights.Nodup := hascending.imp Int.ne_of_lt
  rw [← List.toFinset_card_of_nodup hnodup, ← Int.card_Icc]
  apply Finset.card_le_card
  intro h hh
  exact Finset.mem_Icc.mpr (hin h (List.mem_toFinset.mp hh))

/-- From 2^63 on a height of the query turns negative. -/
theorem asI64_neg {n : UInt64} (hn : 2 ^ 63 ≤ n.toNat) : asI64 n.toNat < 0 := by
  have hlt := n.toNat_lt
  unfold asI64
  have hmod : (n.toNat : Int) % (2 ^ 64 : Nat) = n.toNat := Int.emod_eq_of_lt (by omega) (by omega)
  rw [Int.bmod_def, hmod]
  split <;> omega

/-- A range that passes the checks has at most 5000 heights, also where its ends wrap around. -/
theorem Kept.length_rows_le [Postgres] {chainId : String} {extractor : AddressExtractor}
    {s : StoreState} (h : Kept chainId extractor s) {query : UptimeQuery}
    (hcheck : query.check = .ok ()) : (query.rows s.db chainId).length ≤ 5000 := by
  obtain ⟨hle, hrange⟩ := UptimeQuery.check_eq_ok hcheck
  have hrows : (query.rows s.db chainId).length ≤ (s.kept.filter query.covers).length := by
    rw [UptimeQuery.rows, h.listProposedHeights_eq]
    exact List.length_filterMap_le _ _
  have hheights : ((s.kept.filter query.covers).map fun b => (b.height : Int)).length ≤
      (asI64 query.to.toNat + 1 - asI64 query.from.toNat).toNat := by
    apply length_le_of_ascending
    · exact List.pairwise_map.mpr (h.ascending.sublist List.filter_sublist)
    · intro n hn
      obtain ⟨b, hb, rfl⟩ := List.mem_map.mp hn
      exact of_decide_eq_true (List.mem_filter.mp hb).2
  rw [List.length_map] at hheights
  by_cases hto : 2 ^ 63 ≤ query.to.toNat
  · -- No height is negative, so the range is empty.
    have hnone : s.kept.filter query.covers = [] := by
      rw [List.filter_eq_nil_iff]
      intro b _
      have hneg := asI64_neg hto
      rw [UptimeQuery.covers, decide_eq_true_eq]
      omega
    rw [hnone] at hrows
    exact hrows.trans (Nat.zero_le _)
  · have hends : query.from.toNat ≤ query.to.toNat := hle
    have hlength : (query.to.toNat - query.from.toNat + 1) % 2 ^ 64 ≤ 5000 := by
      have hone : (1 : UInt64).toNat = 1 := rfl
      rw [← hone, ← UInt64.toNat_sub_of_le _ _ hle, ← UInt64.toNat_add]
      exact hrange
    have hcount := hrows.trans hheights
    rw [asI64_of_lt (by omega), asI64_of_lt (by omega)] at hcount
    omega

theorem Kept.length_rows [Postgres] {chainId : String} {extractor : AddressExtractor}
    {s : StoreState} (h : Kept chainId extractor s) (query : UptimeQuery) :
    (query.rows s.db chainId).length =
      (s.kept.filter fun b => b.proposer.isSome && query.covers b).length := by
  rw [UptimeQuery.rows, h.listProposedHeights_eq, List.length_filterMap_eq_countP,
    List.countP_filter, ← List.countP_eq_length_filter]
  apply List.countP_congr
  intro b _
  simp [IndexableBlock.proposed, UptimeQuery.covers]

/-- In every order in which requests look into the cache and hear from the node, a request that
has ended and whose own lookups did not fail reports over sets that the node gave for its heights:
each was told to the lookup itself, or was the last that the node had told anyone when the lookup
was made, less than the ttl before. Where the node's sets do not change, that is what it would
report without the cache. It counts the stored blocks of its range that have a proposer, and asks
for 5000 heights at most. -/
theorem uptime_report_of_node_sets [Postgres] {server : UptimeServer}
    (hrun : exec (uptimeStep chains) { cache := .withLimits ttl maxEntries } events = some server)
    {r : Nat} {request : UptimeRequest} (hr : server.requests[r]? = some request)
    (hdone : request.isDone = true) :
    ∃ db, .open request.chainId request.query db ∈ events ∧
      (request.sets.all Except.isOk = true →
        ∃ sets, request.SetsFetched ttl events r (request.query.rows db request.chainId) sets ∧
          request.report =
            .ok (request.query.reportOf (request.query.rows db request.chainId) sets)) ∧
      (request.sets.all Except.isOk = true → ∀ nodeSet : String → UInt64 → List String,
        (∀ r' i' told, .answer r' i' told ∈ events →
          told.validators = nodeSet told.chainId told.height) →
        request.report =
          .ok (request.query.reportOf (request.query.rows db request.chainId) fun height =>
            some (sortedSet (nodeSet request.chainId height)))) ∧
      (request.sets.all Except.isOk = false → request.report = .error .internal) ∧
      ∀ (extractor : AddressExtractor) (ops : List ChainOp) (s : StoreState),
        exec (chainStep request.chainId extractor) {} ops = some s → s.db = db →
          request.lookups.length ≤ 5000 ∧
            (request.query.rows db request.chainId).length =
              (s.kept.filter fun b => b.proposer.isSome && request.query.covers b).length := by
  have hserver : server.FromNode ttl ([] ++ events) :=
    exec_history (I := UptimeServer.FromNode ttl) (fun _ _ _ _ h hs => fromNode_uptimeStep h hs)
      UptimeServer.fromNode_empty hrun
  rw [List.nil_append] at hserver
  have hrequest := hserver.requests r request hr
  obtain ⟨db, hevent, hcheck, hrows⟩ := hrequest.opened
  refine ⟨db, hevent, ?_, ?_, hrequest.report_error, ?_⟩
  · intro hall
    rw [← hrows]
    exact hrequest.report hdone hall
  · intro hall nodeSet hnode
    obtain ⟨sets, hfetched, hreport⟩ := hrequest.report hdone hall
    rw [hreport, ← hrows, UptimeQuery.reportOf, hfetched.computeUptime_eq hnode]
    rfl
  · rintro extractor ops s hops rfl
    have hkept : Kept request.chainId extractor s :=
      exec_preserves (fun _ _ _ h hs => kept_step h hs) kept_empty hops
    refine ⟨?_, hkept.length_rows request.query⟩
    have hlength := congrArg List.length hrequest.heights
    rw [List.length_map, List.length_map, hrows] at hlength
    rw [hlength]
    exact hkept.length_rows_le hcheck

end

/-- One chain, whose node is known. -/
def oneNode : UptimeChains :=
  { served :=
      { known := ["main"], debugText := id, jsonText := fun _ => "", hexSha256 := fun _ => "" }
    nodeRpcUrl := fun _ => some "http://node" }

/-- What the node says at an instant, and the insert at the next. -/
def toldAt (height : UInt64) (validators : List String) (now : Nat) : NodeAnswer :=
  ⟨"main", height, validators, fun _ => now, now + 1⟩

/-- The second request finds the set of its first height in the cache. -/
def sharedLookups (db : Database) : List UptimeEvent :=
  [.open "main" ⟨1, 1⟩ db, .look 0 0 5, .open "main" ⟨1, 2⟩ db,
    .answer 0 0 (toldAt 1 ["bob", "alice"] 5), .look 1 0 7, .look 1 1 7,
    .answer 1 1 (toldAt 2 ["bob", "alice"] 8)]

/-- Alice's block was Bob's turn, and Bob's was Alice's. -/
def swappedTurns : List ChainOp :=
  [.insert [.bare 0 "g" "", .proposedBy 1 "a1" "g" "alice", .proposedBy 2 "a2" "a1" "bob"]]

theorem uptime_report_of_node_sets_shared :
    ∃ s server, exec plainChain {} swappedTurns = some s ∧
      exec (uptimeStep oneNode) { cache := .withLimits 300 20000 } (sharedLookups s.db) =
        some server ∧
      ∃ request ∈ server.requests,
        request.report = .ok (UptimeQuery.reportOf ⟨1, 2⟩ (UptimeQuery.rows ⟨1, 2⟩ s.db "main")
          fun _ => some ["alice", "bob"]) := by
  have hsome : ((exec plainChain {} swappedTurns).bind fun s =>
      (exec (uptimeStep oneNode) { cache := .withLimits 300 20000 } (sharedLookups s.db)).bind
        fun server => server.requests[1]?.map fun request =>
          (request.isDone, request.sets.all Except.isOk, request.query.to)) =
      some (true, true, 2) := by
    decide +kernel
  obtain ⟨s, hs, hserver⟩ := Option.bind_eq_some_iff.mp hsome
  obtain ⟨server, hrun, hread⟩ := Option.bind_eq_some_iff.mp hserver
  obtain ⟨request, hrequest, hvalues⟩ := Option.map_eq_some_iff.mp hread
  simp only [Prod.mk.injEq] at hvalues
  obtain ⟨hdone, hok, hto⟩ := hvalues
  obtain ⟨db, hevent, _, hreport, _⟩ :=
    @uptime_report_of_node_sets _ _ _ _ .plain _ hrun _ _ hrequest hdone
  have hopened : request.chainId = "main" ∧ request.query = ⟨1, 2⟩ ∧ db = s.db := by
    simp only [sharedLookups, List.mem_cons, UptimeEvent.open.injEq, reduceCtorEq, false_or,
      List.not_mem_nil, or_false] at hevent
    rcases hevent with ⟨_, hquery, _⟩ | hsecond
    · rw [hquery] at hto
      cases hto
    · exact hsecond
  obtain ⟨hchain, hquery, rfl⟩ := hopened
  refine ⟨s, server, hs, hrun, request, List.mem_of_getElem? hrequest, ?_⟩
  have hsame := hreport hok (fun _ _ => ["bob", "alice"]) (by
    intro r' i' told htold
    simp only [sharedLookups, List.mem_cons, UptimeEvent.answer.injEq, reduceCtorEq, false_or,
      List.not_mem_nil, or_false] at htold
    rcases htold with ⟨_, _, rfl⟩ | ⟨_, _, rfl⟩ <;> rfl)
  rw [hsame, hquery, hchain]
  rfl

/-- The node gives height 1 another set. A lookup 299 instants after the first answer has the old
one, and a lookup at 300 asks again. -/
def changedMind (db : Database) : List UptimeEvent :=
  [.open "main" ⟨1, 1⟩ db, .look 0 0 5, .answer 0 0 (toldAt 1 ["bob", "alice"] 5),
    .open "main" ⟨1, 1⟩ db, .look 1 0 305, .open "main" ⟨1, 1⟩ db, .look 2 0 306,
    .answer 2 0 (toldAt 1 ["carol"] 306)]

example : (exec plainChain {} swappedTurns).any (fun s =>
    (exec (uptimeStep oneNode) { cache := .withLimits 300 20000 } (changedMind s.db)).any
      fun server => server.requests.map (fun request => request.sets.filterMap Except.toOption) =
        [[(1, ["alice", "bob"])], [(1, ["alice", "bob"])], [(1, ["carol"])]]) = true := by
  decide +kernel

end Retracer
