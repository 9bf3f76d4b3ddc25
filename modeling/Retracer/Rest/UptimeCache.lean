import Mathlib.Data.List.Dedup
import Mathlib.Data.List.Induction
import Retracer.Library.Sweeping

/-! # The validator-set cache

`UptimeCache` keeps the validator sets that the node was asked for. An insert that finds more
than `max_entries` of them first drops the expired ones. Time is a count of nanoseconds.
-/

namespace Retracer

open KeyedTable Sweeping

/-! ## The cache -/

/-- `UPTIME_CACHE_TTL`. -/
def uptimeCacheTtl : Nat := 300 * 1000000000

/-- `UPTIME_CACHE_MAX_ENTRIES`. -/
def uptimeCacheMaxEntries : Nat := 20000

structure UptimeCacheEntry where
  chainId : String
  height : UInt64
  fetched : Nat
  validators : List String

instance : Keyed UptimeCacheEntry (String × UInt64) := ⟨fun entry => (entry.chainId, entry.height)⟩

/-- `elapsed` is zero for an instant in the future. -/
def UptimeCacheEntry.isExpired (ttl now : Nat) (entry : UptimeCacheEntry) : Bool :=
  ttl ≤ now - entry.fetched

structure UptimeCache where
  ttl : Nat
  maxEntries : Nat
  entries : Table UptimeCacheEntry

/-- A call of `insert`. A sweep reads the clock at every entry, and the new entry is stamped
after it. -/
structure UptimeInsert where
  chainId : String
  height : UInt64
  validators : List String
  looked : String × UInt64 → Nat
  now : Nat

def UptimeInsert.key (call : UptimeInsert) : String × UInt64 := (call.chainId, call.height)

def UptimeInsert.entry (call : UptimeInsert) : UptimeCacheEntry :=
  ⟨call.chainId, call.height, call.now, call.validators⟩

/-- The new value under a key that is there. -/
def UptimeInsert.put (call : UptimeInsert) (entry : UptimeCacheEntry) : UptimeCacheEntry :=
  { entry with fetched := call.now, validators := call.validators }

theorem UptimeInsert.key_put (call : UptimeInsert) (entry : UptimeCacheEntry) :
    KeyedTable.key (call.put entry) = KeyedTable.key entry := rfl

namespace UptimeCache

def withLimits (ttl maxEntries : Nat) : UptimeCache := ⟨ttl, maxEntries, .empty⟩

def new : UptimeCache := withLimits uptimeCacheTtl uptimeCacheMaxEntries

def get (cache : UptimeCache) (chainId : String) (height : UInt64) (now : Nat) :
    Option (List String) :=
  ((cache.entries.find? (chainId, height)).filter fun entry =>
    !entry.isExpired cache.ttl now).map UptimeCacheEntry.validators

/-- The map as an insert finds it, after the sweep. -/
def swept (cache : UptimeCache) (call : UptimeInsert) : Table UptimeCacheEntry :=
  if cache.maxEntries < cache.entries.rows.length then
    cache.entries.deleteWhere fun entry =>
      entry.isExpired cache.ttl (call.looked (KeyedTable.key entry))
  else cache.entries

def insert (cache : UptimeCache) (call : UptimeInsert) : UptimeCache :=
  { cache with
    entries := (cache.swept call).upsert call.entry call.put call.key_put }

/-- The cache after some calls. -/
def run (cache : UptimeCache) (calls : List UptimeInsert) : UptimeCache :=
  calls.foldl insert cache

end UptimeCache

/-! ## What should be there -/

/-- The clock does not go back: a sweep reads it after the calls before and before the stamp. -/
def InClockOrder (calls : List UptimeInsert) : Prop :=
  (∀ call ∈ calls, ∀ k, call.looked k ≤ call.now) ∧
    calls.Pairwise fun earlier later => ∀ k, earlier.now ≤ later.looked k

/-- The last insert under a key. -/
def lastInsert (calls : List UptimeInsert) (k : String × UInt64) : Option UptimeInsert :=
  (calls.filter fun call => call.key = k).getLast?

/-- At most one entry more than the maximum, and under every key what was last inserted there,
as long as it is younger than the ttl. -/
structure UptimeCache.Serves (cache : UptimeCache) (calls : List UptimeInsert) : Prop where
  bounded : cache.entries.rows.length ≤ cache.maxEntries + 1
  get : ∀ chainId height now, (∀ call ∈ calls, call.now ≤ now) →
    cache.get chainId height now =
      ((lastInsert calls (chainId, height)).filter fun call => now - call.now < cache.ttl).map
        UptimeInsert.validators

/-- How many other keys have a last insert that the call finds younger than the ttl. -/
def youngOthers (ttl : Nat) (calls : List UptimeInsert) (call : UptimeInsert) : Nat :=
  ((calls.map UptimeInsert.key).dedup.filter fun k => (lastInsert calls k).any fun last =>
    !(last.entry.isExpired ttl (call.looked k) || k = call.key)).length

/-! ## What is there -/

theorem lastInsert_append (calls : List UptimeInsert) (call : UptimeInsert)
    (k : String × UInt64) :
    lastInsert (calls ++ [call]) k = if call.key = k then some call else lastInsert calls k := by
  unfold lastInsert
  rw [List.filter_append]
  by_cases hk : call.key = k
  · simp [hk]
  · simp [hk]

theorem mem_of_lastInsert {calls : List UptimeInsert} {call : UptimeInsert}
    {k : String × UInt64} (h : lastInsert calls k = some call) : call ∈ calls ∧ call.key = k := by
  have hmem := List.mem_of_getLast? h
  rw [List.mem_filter, decide_eq_true_eq] at hmem
  exact hmem

theorem UptimeCacheEntry.isExpired_of_le {ttl now later : Nat} {entry : UptimeCacheEntry}
    (hle : now ≤ later) (h : entry.isExpired ttl now = true) :
    entry.isExpired ttl later = true := by
  simp only [isExpired, decide_eq_true_eq] at h ⊢
  omega

namespace UptimeCache

variable {cache : UptimeCache} {calls : List UptimeInsert} {call : UptimeInsert}
  {k : String × UInt64}

/-- Every key holds its last insert, unless that has expired for all who may look. -/
def Holds (cache : UptimeCache) (calls : List UptimeInsert) : Prop :=
  ∀ k now, (∀ call ∈ calls, call.now ≤ now) →
    Kept (UptimeCacheEntry.isExpired cache.ttl now) (cache.entries.find? k)
      ((lastInsert calls k).map UptimeInsert.entry)

theorem find?_insert (cache : UptimeCache) (call : UptimeInsert) (k : String × UInt64) :
    (cache.insert call).entries.find? k =
      if call.key = k then some call.entry else (cache.swept call).find? k := by
  have hkey : KeyedTable.key call.entry = call.key := rfl
  simp only [insert]
  rw [Table.find?_upsert, hkey]
  by_cases hk : call.key = k
  · subst hk
    rw [if_pos rfl, if_pos rfl]
    cases hfound : (cache.swept call).find? call.key with
    | none => rfl
    | some entry =>
        obtain ⟨chainId, height, fetched, validators⟩ := entry
        have hsame := (Table.find?_eq_some_iff.mp hfound).2
        cases hsame
        rfl
  · rw [if_neg hk, if_neg (Ne.symm hk)]

/-- What a sweep drops has expired for all who look later. -/
theorem Holds.insert (h : cache.Holds calls) (hlooked : ∀ k, call.looked k ≤ call.now) :
    (cache.insert call).Holds (calls ++ [call]) := by
  intro k now hnow
  rw [List.forall_mem_append, List.forall_mem_singleton] at hnow
  rw [find?_insert, lastInsert_append]
  by_cases hk : call.key = k
  · rw [if_pos hk, if_pos hk]
    exact Kept.refl _ _
  · rw [if_neg hk, if_neg hk]
    have hbefore := h k now hnow.1
    unfold UptimeCache.swept
    split
    · refine Kept.deleteWhere hbefore fun entry hswept => ?_
      exact UptimeCacheEntry.isExpired_of_le (Nat.le_trans (hlooked _) hnow.2) hswept
    · exact hbefore

theorem holds_withLimits (ttl maxEntries : Nat) : (withLimits ttl maxEntries).Holds [] :=
  fun _ _ _ => Kept.refl _ none

/-- A reader takes what has expired for missing, so a sweep cannot be seen. -/
theorem Holds.get (h : cache.Holds calls) (chainId : String) (height : UInt64) {now : Nat}
    (hnow : ∀ call ∈ calls, call.now ≤ now) :
    cache.get chainId height now =
      ((lastInsert calls (chainId, height)).filter fun call => now - call.now < cache.ttl).map
        UptimeInsert.validators := by
  rw [UptimeCache.get, (h (chainId, height) now hnow).filter]
  cases lastInsert calls (chainId, height) with
  | none => rfl
  | some last =>
      by_cases hyoung : now - last.now < cache.ttl
      · have hlive : last.entry.isExpired cache.ttl now = false :=
          decide_eq_false (Nat.not_le_of_lt hyoung)
        simp only [Option.map_some, Option.filter_some, hlive, hyoung, decide_true, Bool.not_false,
          if_true]
        rfl
      · have hold : last.entry.isExpired cache.ttl now = true :=
          decide_eq_true (Nat.le_of_not_lt hyoung)
        simp only [Option.map_some, Option.filter_some, hold, hyoung, decide_false, Bool.not_true,
          Bool.false_eq_true, if_false, Option.map_none]

/-! ## How much is there -/

/-- Another key than the call's, or a last insert that the call finds expired. -/
def isAside (cache : UptimeCache) (call : UptimeInsert) (entry : UptimeCacheEntry) : Bool :=
  entry.isExpired cache.ttl (call.looked (KeyedTable.key entry)) ||
    KeyedTable.key entry = call.key

theorem Holds.length_live (h : cache.Holds calls)
    (hafter : ∀ earlier ∈ calls, ∀ k, earlier.now ≤ call.looked k) :
    (cache.entries.deleteWhere (cache.isAside call)).rows.length =
      youngOthers cache.ttl calls call := by
  have hkept : ∀ k, Kept (cache.isAside call) (cache.entries.find? k)
      ((lastInsert calls k).map UptimeInsert.entry) := by
    intro k
    have hlooked := h k (call.looked k) fun earlier hearlier => hafter earlier hearlier k
    refine hlooked.imp_right fun ⟨hnone, hall⟩ => ⟨hnone, fun entry hentry => ?_⟩
    obtain ⟨last, hlast, rfl⟩ := Option.map_eq_some_iff.mp hentry
    have hkey : KeyedTable.key last.entry = k := (mem_of_lastInsert hlast).2
    rw [isAside, hkey, hall last.entry hentry, Bool.true_or]
  rw [length_deleteWhere hkept (calls.map UptimeInsert.key).nodup_dedup ?_, youngOthers]
  · congr 1
    apply List.filter_congr
    intro k hk
    cases hlast : lastInsert calls k with
    | none => rfl
    | some last =>
        have hkey : KeyedTable.key last.entry = k := (mem_of_lastInsert hlast).2
        simp [isAside, hkey]
  · intro k entry hentry
    obtain ⟨last, hlast, rfl⟩ := Option.map_eq_some_iff.mp hentry
    obtain ⟨hmem, hkey⟩ := mem_of_lastInsert hlast
    exact List.mem_dedup.mpr (List.mem_map.mpr ⟨last, hmem, hkey⟩)

/-- An insert keeps to the bound exactly when it finds no more than the maximum of young
others: past the maximum it drops all the rest. -/
theorem Holds.bounded_insert_iff (h : cache.Holds calls)
    (hafter : ∀ earlier ∈ calls, ∀ k, earlier.now ≤ call.looked k) :
    (cache.insert call).entries.rows.length ≤ cache.maxEntries + 1 ↔
      youngOthers cache.ttl calls call ≤ cache.maxEntries := by
  have hlength : (cache.insert call).entries.rows.length =
      ((cache.swept call).deleteWhere fun entry => KeyedTable.key entry = call.key).rows.length +
        1 := Table.length_upsert (cache.swept call) call.entry call.put call.key_put
  have hlive := h.length_live hafter
  rw [hlength, Nat.add_le_add_iff_right, ← hlive]
  by_cases hgrown : cache.maxEntries < cache.entries.rows.length
  · rw [swept, if_pos hgrown]
    have hrows : (((cache.entries.deleteWhere fun entry =>
        entry.isExpired cache.ttl (call.looked (KeyedTable.key entry))).deleteWhere
          fun entry => KeyedTable.key entry = call.key)) =
        cache.entries.deleteWhere (cache.isAside call) := by
      ext1
      simp only [Table.rows_deleteWhere, List.filter_filter, isAside, Bool.not_or, Bool.and_comm]
    rw [hrows]
  · rw [swept, if_neg hgrown]
    have hle : ∀ p : UptimeCacheEntry → Bool,
        (cache.entries.deleteWhere p).rows.length ≤ cache.maxEntries := fun p =>
      Nat.le_trans (List.length_filter_le _ _) (Nat.le_of_not_lt hgrown)
    exact iff_of_true (hle _) (hle _)

/-! ## Runs -/

theorem run_append (cache : UptimeCache) (calls : List UptimeInsert) (call : UptimeInsert) :
    cache.run (calls ++ [call]) = (cache.run calls).insert call := by
  rw [run, List.foldl_append]
  rfl

theorem limits_run (cache : UptimeCache) (calls : List UptimeInsert) :
    (cache.run calls).ttl = cache.ttl ∧ (cache.run calls).maxEntries = cache.maxEntries := by
  induction calls generalizing cache with
  | nil => exact ⟨rfl, rfl⟩
  | cons call calls ih => exact ih (cache.insert call)

theorem holds_run (ttl maxEntries : Nat) {calls : List UptimeInsert}
    (hlooked : ∀ call ∈ calls, ∀ k, call.looked k ≤ call.now) :
    ((withLimits ttl maxEntries).run calls).Holds calls := by
  induction calls using List.reverseRecOn with
  | nil => exact holds_withLimits ttl maxEntries
  | append_singleton calls call ih =>
      rw [List.forall_mem_append, List.forall_mem_singleton] at hlooked
      rw [run_append]
      exact (ih hlooked.1).insert hlooked.2

/-- One insert of a run: it keeps to the bound exactly when it finds few enough young others. -/
theorem bounded_take_succ_iff (ttl maxEntries : Nat) {calls : List UptimeInsert}
    (hclock : InClockOrder calls) {i : Nat} (hi : i < calls.length) :
    ((withLimits ttl maxEntries).run (calls.take (i + 1))).entries.rows.length ≤ maxEntries + 1 ↔
      youngOthers ttl (calls.take i) calls[i] ≤ maxEntries := by
  have htake : calls.take (i + 1) = calls.take i ++ [calls[i]] :=
    List.take_succ_eq_append_getElem hi
  have hordered := hclock.2.sublist (List.take_sublist (i + 1) calls)
  rw [htake, List.pairwise_append] at hordered
  have hholds : ((withLimits ttl maxEntries).run (calls.take i)).Holds (calls.take i) :=
    holds_run ttl maxEntries fun call hcall => hclock.1 call (List.mem_of_mem_take hcall)
  have hbounded := hholds.bounded_insert_iff fun earlier hearlier =>
    hordered.2.2 earlier hearlier calls[i] (List.mem_singleton_self _)
  have hlimits := (withLimits ttl maxEntries).limits_run (calls.take i)
  rw [hlimits.1, hlimits.2] at hbounded
  rw [htake, run_append]
  exact hbounded

end UptimeCache

/-- From the first insert on, the cache stays within its bound and answers with what was last
inserted exactly when every insert finds at most the maximum of other keys young. -/
theorem uptime_cache_bounded_iff (ttl maxEntries : Nat) (calls : List UptimeInsert)
    (hclock : InClockOrder calls) :
    (∀ n ≤ calls.length,
      ((UptimeCache.withLimits ttl maxEntries).run (calls.take n)).Serves (calls.take n)) ↔
    ∀ i : Fin calls.length, youngOthers ttl (calls.take i) calls[i] ≤ maxEntries := by
  have hlimits := fun n => (UptimeCache.withLimits ttl maxEntries).limits_run (calls.take n)
  constructor
  · intro hserves i
    have hbounded := (hserves (i + 1) i.isLt).bounded
    rw [(hlimits (i + 1)).2] at hbounded
    exact (UptimeCache.bounded_take_succ_iff ttl maxEntries hclock i.isLt).mp hbounded
  · intro hyoung n hn
    have hholds : ((UptimeCache.withLimits ttl maxEntries).run (calls.take n)).Holds
        (calls.take n) := UptimeCache.holds_run ttl maxEntries fun call hcall =>
      hclock.1 call (List.mem_of_mem_take hcall)
    refine ⟨?_, fun chainId height now hnow => hholds.get chainId height hnow⟩
    rw [(hlimits n).2]
    cases n with
    | zero => exact Nat.zero_le _
    | succ i =>
        exact (UptimeCache.bounded_take_succ_iff ttl maxEntries hclock hn).mpr (hyoung ⟨i, hn⟩)

/-- An insert for a height of one chain, with the clock read once. -/
def insertAt (height : UInt64) (now : Nat) : UptimeInsert :=
  ⟨"arxium-1", height, ["arx1"], fun _ => now, now⟩

theorem inClockOrder_insertAt (calls : List (UInt64 × Nat))
    (h : calls.Pairwise fun earlier later => earlier.2 ≤ later.2) :
    InClockOrder (calls.map fun call => insertAt call.1 call.2) := by
  constructor
  · intro call hcall k
    obtain ⟨_, _, rfl⟩ := List.mem_map.mp hcall
    exact Nat.le_refl _
  · exact List.pairwise_map.mpr (h.imp fun hle _ => hle)

/-- The third insert finds two expired entries. -/
theorem uptime_cache_bounded_iff_sweep :
    ((UptimeCache.withLimits 5 1).run [insertAt 1 0, insertAt 2 0, insertAt 3 10]).Serves
      [insertAt 1 0, insertAt 2 0, insertAt 3 10] :=
  (uptime_cache_bounded_iff 5 1 [insertAt 1 0, insertAt 2 0, insertAt 3 10]
    (inClockOrder_insertAt [(1, 0), (2, 0), (3, 10)] (by decide))).mpr (by decide) 3
      (by decide)

/-- As many heights of one chain, all at one instant. -/
def burst (n : Nat) : List UptimeInsert :=
  (List.range n).map fun height => insertAt (UInt64.ofNat height) 0

theorem rows_run_burst {n : Nat} (hn : n ≤ UInt64.size) :
    (UptimeCache.new.run (burst n)).entries.rows = (burst n).map UptimeInsert.entry := by
  induction n with
  | zero => rfl
  | succ n ih =>
      have hrows := ih (by omega)
      have hburst : burst (n + 1) = burst n ++ [insertAt (UInt64.ofNat n) 0] := by
        simp [burst, List.range_succ]
      have hswept : (UptimeCache.new.run (burst n)).swept (insertAt (UInt64.ofNat n) 0) =
          (UptimeCache.new.run (burst n)).entries := by
        unfold UptimeCache.swept
        split
        · apply Table.deleteWhere_eq_self
          intro entry _
          rw [(UptimeCache.new.limits_run (burst n)).1]
          exact decide_eq_false (by simp [insertAt, UptimeCache.new, UptimeCache.withLimits,
            uptimeCacheTtl])
        · rfl
      have hfresh : KeyedTable.key (insertAt (UInt64.ofNat n) 0).entry ∉
          (UptimeCache.new.run (burst n)).entries.rows.map KeyedTable.key := by
        intro hmem
        rw [hrows, List.map_map, List.mem_map] at hmem
        obtain ⟨call, hcall, hkey⟩ := hmem
        obtain ⟨height, hheight, rfl⟩ := List.mem_map.mp hcall
        rw [List.mem_range] at hheight
        have hsame : UInt64.ofNat height = UInt64.ofNat n := congrArg Prod.snd hkey
        rw [← UInt64.toNat_inj, UInt64.toNat_ofNat_of_lt' (by omega),
          UInt64.toNat_ofNat_of_lt' (by omega)] at hsame
        omega
      rw [hburst, UptimeCache.run_append, List.map_append]
      simp only [UptimeCache.insert]
      rw [hswept, Table.upsert_of_notMem _ hfresh, hrows]
      rfl

/-- With the limits of the service, 20,002 heights within five minutes. -/
theorem uptime_cache_overflows :
    InClockOrder (burst 20002) ∧
      ¬ ∀ n ≤ (burst 20002).length,
        (UptimeCache.new.run ((burst 20002).take n)).Serves ((burst 20002).take n) := by
  constructor
  · have hcalls : burst 20002 = ((List.range 20002).map fun height =>
        (UInt64.ofNat height, 0)).map fun call => insertAt call.1 call.2 := by
      rw [List.map_map]
      rfl
    rw [hcalls]
    exact inClockOrder_insertAt _ (List.pairwise_map.mpr (List.pairwise_of_forall fun _ _ =>
      Nat.le_refl 0))
  · intro hserves
    have hbounded := (hserves _ (Nat.le_refl _)).bounded
    rw [List.take_length, rows_run_burst (by decide), List.length_map, burst, List.length_map,
      List.length_range, (UptimeCache.new.limits_run _).2] at hbounded
    exact absurd hbounded (by decide)

end Retracer
