import Mathlib.Data.List.Sort
import Mathlib.Data.String.Basic
import Retracer.Library.Counting

/-! # Validator uptime

`compute_uptime` charges every height to the validator whose turn round 0 was, and credits the
one that proposed it. A height whose set was not fetched, or is empty, is left out.
-/

namespace Retracer

open KeyedTable Counting

/-! ## Eligible proposers -/

/-- The validator entitled to propose the height at the round. `usize` has 64 bits. -/
def eligibleDesignee (sortedValidators : List String) (height round : UInt64) : Option String :=
  if sortedValidators.isEmpty then none
  else sortedValidators[(height + round).toNat % sortedValidators.length]?

theorem eligibleDesignee_zero (set : List String) (height : UInt64) :
    eligibleDesignee set height 0 = set[height.toNat % set.length]? := by
  cases set with
  | nil => rfl
  | cons first rest => simp [eligibleDesignee]

/-! ## The report -/

structure ProposedHeight where
  height : Int64
  proposer : String
  round : Int64

/-- A counter stays below the number of rows, so it does not reach the end of `u64`. -/
structure ValidatorUptime where
  address : String
  turnsOwed : Nat
  turnsProposed : Nat
  turnsMissed : Nat
  backupProposals : Nat
  uptime : Option Float

structure UptimeCounts where
  owed : Table (Counter String) := .empty
  proposed : Table (Counter String) := .empty
  backup : Table (Counter String) := .empty

/-- The loop body. The branches that only log are left out. -/
def UptimeCounts.countRow (sets : UInt64 → Option (List String)) (counts : UptimeCounts)
    (row : ProposedHeight) : UptimeCounts :=
  let height := row.height.toUInt64
  let round := row.round.toUInt64
  match sets height with
  | none => counts
  | some set =>
      match eligibleDesignee set height 0 with
      | none => counts
      | some primary =>
          let counts := { counts with owed := bump counts.owed primary }
          if round = 0 then
            if row.proposer = primary then
              { counts with proposed := bump counts.proposed primary }
            else counts
          else { counts with backup := bump counts.backup row.proposer }

/-- The keys of both maps in the order of a `BTreeSet`. -/
def UptimeCounts.addresses (counts : UptimeCounts) : List String :=
  (names counts.owed ++ names counts.backup).dedup.insertionSort (· ≤ ·)

def UptimeCounts.validator (counts : UptimeCounts) (address : String) : ValidatorUptime :=
  let turnsOwed := countOf counts.owed address
  let turnsProposed := countOf counts.proposed address
  { address, turnsOwed, turnsProposed
    turnsMissed := turnsOwed - turnsProposed
    backupProposals := countOf counts.backup address
    uptime := if 0 < turnsOwed then some (turnsProposed.toFloat / turnsOwed.toFloat) else none }

def computeUptime (rows : List ProposedHeight) (sets : UInt64 → Option (List String)) :
    List ValidatorUptime :=
  let counts := rows.foldl (UptimeCounts.countRow sets) {}
  counts.addresses.map counts.validator

/-! ## What a row counts for -/

section

variable (sets : UInt64 → Option (List String)) (row : ProposedHeight)

/-- The height has a set, and someone is in it. -/
def hasSet : Bool := (sets row.height.toUInt64).any fun set => !set.isEmpty

/-- `set[height mod |set|]`. -/
def turnOf : Option String :=
  (sets row.height.toUInt64).bind fun set => set[row.height.toUInt64.toNat % set.length]?

def filledBy : Option String :=
  (turnOf sets row).filter fun primary => row.round = 0 ∧ row.proposer = primary

def takenOverBy : Option String :=
  (turnOf sets row).bind fun _ => if row.round = 0 then none else some row.proposer

end

section

variable {sets : UInt64 → Option (List String)} {row : ProposedHeight}

theorem isSome_turnOf : (turnOf sets row).isSome = hasSet sets row := by
  unfold turnOf hasSet
  cases sets row.height.toUInt64 with
  | none => rfl
  | some set =>
      cases set with
      | nil => rfl
      | cons first rest =>
          have hlt : row.height.toUInt64.toNat % (first :: rest).length < (first :: rest).length :=
            Nat.mod_lt _ (Nat.succ_pos _)
          rw [Option.bind_some, List.getElem?_eq_getElem hlt]
          rfl

theorem toUInt64_eq_zero {n : Int64} : n.toUInt64 = 0 ↔ n = 0 := by
  constructor
  · intro h
    cases n
    cases h
    rfl
  · rintro rfl
    rfl

/-- What the row does to each of the counters. -/
theorem countRow_eq (counts : UptimeCounts) (row : ProposedHeight) :
    counts.countRow sets row =
      { owed := (turnOf sets row).elim counts.owed (bump counts.owed)
        proposed := (filledBy sets row).elim counts.proposed (bump counts.proposed)
        backup := (takenOverBy sets row).elim counts.backup (bump counts.backup) } := by
  have hround : row.round.toUInt64 = 0 ↔ row.round = 0 := toUInt64_eq_zero
  unfold UptimeCounts.countRow filledBy takenOverBy turnOf
  cases hset : sets row.height.toUInt64 with
  | none => simp [hset]
  | some set =>
      simp only [hset, eligibleDesignee_zero, Option.bind_some, hround]
      cases hprimary : set[row.height.toUInt64.toNat % set.length]? with
      | none => simp
      | some primary =>
          by_cases hzero : row.round = 0
          · by_cases hown : row.proposer = primary
            · simp [hzero, hown, Option.filter]
            · simp [hzero, hown, Option.filter]
          · simp [hzero, Option.filter]

end

/-- For each row, whose turn it was, who filled it and who took over. -/
def countsAtEnd (rows : List ProposedHeight) (sets : UInt64 → Option (List String)) :
    UptimeCounts :=
  { owed := countsOf (rows.filterMap (turnOf sets))
    proposed := countsOf (rows.filterMap (filledBy sets))
    backup := countsOf (rows.filterMap (takenOverBy sets)) }

theorem foldl_countRow (rows : List ProposedHeight) (sets : UInt64 → Option (List String)) :
    rows.foldl (UptimeCounts.countRow sets) {} = countsAtEnd rows sets := by
  have howed := foldl_bump_of_step UptimeCounts.owed (turnOf sets)
    (fun s row => congrArg UptimeCounts.owed (countRow_eq s row)) rows {}
  have hproposed := foldl_bump_of_step UptimeCounts.proposed (filledBy sets)
    (fun s row => congrArg UptimeCounts.proposed (countRow_eq s row)) rows {}
  have hbackup := foldl_bump_of_step UptimeCounts.backup (takenOverBy sets)
    (fun s row => congrArg UptimeCounts.backup (countRow_eq s row)) rows {}
  cases hcounts : rows.foldl (UptimeCounts.countRow sets) {} with
  | mk owed proposed backup =>
      rw [hcounts] at howed hproposed hbackup
      exact congr (congr (congrArg UptimeCounts.mk howed) hproposed) hbackup

theorem computeUptime_eq (rows : List ProposedHeight) (sets : UInt64 → Option (List String)) :
    computeUptime rows sets =
      (countsAtEnd rows sets).addresses.map (countsAtEnd rows sets).validator := by
  rw [computeUptime, foldl_countRow]

theorem nodup_addresses (counts : UptimeCounts) : counts.addresses.Nodup :=
  (List.perm_insertionSort _ _).nodup_iff.mpr (List.nodup_dedup _)

/-! ## The accounts -/

section

variable (rows : List ProposedHeight) (sets : UInt64 → Option (List String))

/-- The rows whose height has a set that is not empty. -/
def countedRows : List ProposedHeight := rows.filter (hasSet sets)

/-- Round 0 went to someone whose turn it was not. -/
def strayProposal (row : ProposedHeight) : Bool :=
  row.round = 0 ∧ turnOf sets row ≠ some row.proposer

variable {rows sets} {v : ValidatorUptime} {a : String}

theorem length_turns :
    (rows.filterMap (turnOf sets)).length = (countedRows rows sets).length := by
  rw [List.length_filterMap_eq_countP, countedRows, ← List.countP_eq_length_filter]
  simp only [isSome_turnOf]

/-- A counted row is a turn filled, a turn taken over or a stray proposal. -/
theorem length_countedRows :
    (countedRows rows sets).length = (rows.filterMap (filledBy sets)).length +
      (rows.filterMap (takenOverBy sets)).length +
        ((countedRows rows sets).filter (strayProposal sets)).length := by
  induction rows with
  | nil => rfl
  | cons row rows ih =>
      simp only [countedRows, List.filter_filter, List.length_filterMap_eq_countP,
        ← List.countP_eq_length_filter, List.countP_cons, ← isSome_turnOf] at ih ⊢
      have hrow : (if (turnOf sets row).isSome = true then 1 else 0) =
          (if (filledBy sets row).isSome = true then 1 else 0) +
            (if (takenOverBy sets row).isSome = true then 1 else 0) +
              if (strayProposal sets row && (turnOf sets row).isSome) = true then 1 else 0 := by
        unfold filledBy takenOverBy strayProposal
        cases turnOf sets row with
        | none => simp
        | some primary =>
            by_cases hzero : row.round = 0
            · by_cases hown : row.proposer = primary
              · simp [hzero, hown, Option.filter]
              · simp [hzero, hown, Ne.symm hown, Option.filter]
            · simp [hzero, Option.filter]
      omega

theorem count_filled_le :
    (rows.filterMap (filledBy sets)).count a ≤ (rows.filterMap (turnOf sets)).count a := by
  rw [List.count_filterMap, List.count_filterMap]
  apply List.countP_mono_left
  intro row _ hfilled
  rw [beq_iff_eq] at hfilled ⊢
  exact (Option.filter_eq_some_iff.mp hfilled).1

theorem mem_filled (h : a ∈ rows.filterMap (filledBy sets)) :
    a ∈ rows.filterMap (turnOf sets) := by
  obtain ⟨row, hrow, hfilled⟩ := List.mem_filterMap.mp h
  exact List.mem_filterMap.mpr ⟨row, hrow, (Option.filter_eq_some_iff.mp hfilled).1⟩

theorem mem_addresses : a ∈ (countsAtEnd rows sets).addresses ↔
    a ∈ rows.filterMap (turnOf sets) ∨ a ∈ rows.filterMap (takenOverBy sets) := by
  rw [UptimeCounts.addresses, List.mem_insertionSort, List.mem_dedup, List.mem_append]
  simp only [countsAtEnd, mem_names_countsOf]

theorem turnsOwed_validator : ((countsAtEnd rows sets).validator a).turnsOwed =
    (rows.filterMap (turnOf sets)).count a :=
  countOf_countsOf

theorem turnsProposed_validator : ((countsAtEnd rows sets).validator a).turnsProposed =
    (rows.filterMap (filledBy sets)).count a :=
  countOf_countsOf

theorem backupProposals_validator : ((countsAtEnd rows sets).validator a).backupProposals =
    (rows.filterMap (takenOverBy sets)).count a :=
  countOf_countsOf

theorem map_address_computeUptime :
    (computeUptime rows sets).map (·.address) = (countsAtEnd rows sets).addresses := by
  rw [computeUptime_eq, List.map_map]
  exact List.map_id _

/-- A counter, summed over the report, where every name it has is in it. -/
theorem sum_computeUptime {count : ValidatorUptime → Nat} {ks : List String}
    (hcount : ∀ a, count ((countsAtEnd rows sets).validator a) = ks.count a)
    (hks : ∀ a ∈ ks, a ∈ (countsAtEnd rows sets).addresses) :
    ((computeUptime rows sets).map count).sum = ks.length := by
  have hcounts : count ∘ (countsAtEnd rows sets).validator = fun a => ks.count a := funext hcount
  rw [computeUptime_eq, List.map_map, hcounts]
  exact sum_count (nodup_addresses _) hks

theorem count_turns_eq : (rows.filterMap (turnOf sets)).count a =
    ((countedRows rows sets).filter fun row => turnOf sets row = some a).length := by
  rw [List.count_filterMap, countedRows, List.filter_filter, ← List.countP_eq_length_filter]
  apply List.countP_congr
  intro row _
  simp only [beq_iff_eq, Bool.and_eq_true, decide_eq_true_eq, ← isSome_turnOf]
  constructor
  · intro h
    exact ⟨h, by rw [h]; rfl⟩
  · exact And.left

/-- Every counted row is one turn of the validator at `height mod |set|`, which it filled, or
lost to a backup, or to a proposer in round 0 that was not to propose. -/
theorem computeUptime_accounts (rows : List ProposedHeight)
    (sets : UInt64 → Option (List String)) :
    ((computeUptime rows sets).map (·.address)).Nodup ∧
      (∀ v ∈ computeUptime rows sets, v.turnsProposed ≤ v.turnsOwed ∧
        v.turnsMissed = v.turnsOwed - v.turnsProposed) ∧
      ((computeUptime rows sets).map (·.turnsOwed)).sum = (countedRows rows sets).length ∧
      (countedRows rows sets).length =
        ((computeUptime rows sets).map (·.turnsProposed)).sum +
          ((computeUptime rows sets).map (·.backupProposals)).sum +
            ((countedRows rows sets).filter (strayProposal sets)).length ∧
      (∀ row ∈ countedRows rows sets, ∃ v ∈ computeUptime rows sets,
        turnOf sets row = some v.address) ∧
      ∀ v ∈ computeUptime rows sets, v.turnsOwed =
        ((countedRows rows sets).filter fun row => turnOf sets row = some v.address).length := by
  have howed : ((computeUptime rows sets).map (·.turnsOwed)).sum =
      (rows.filterMap (turnOf sets)).length :=
    sum_computeUptime (fun _ => turnsOwed_validator) fun a ha => mem_addresses.mpr (.inl ha)
  have hproposed : ((computeUptime rows sets).map (·.turnsProposed)).sum =
      (rows.filterMap (filledBy sets)).length :=
    sum_computeUptime (fun _ => turnsProposed_validator)
      fun a ha => mem_addresses.mpr (.inl (mem_filled ha))
  have hbackup : ((computeUptime rows sets).map (·.backupProposals)).sum =
      (rows.filterMap (takenOverBy sets)).length :=
    sum_computeUptime (fun _ => backupProposals_validator)
      fun a ha => mem_addresses.mpr (.inr ha)
  refine ⟨?_, ?_, ?_, ?_, ?_, ?_⟩
  · rw [map_address_computeUptime]
    exact nodup_addresses _
  · intro v hv
    rw [computeUptime_eq] at hv
    obtain ⟨a, _, rfl⟩ := List.mem_map.mp hv
    constructor
    · rw [turnsProposed_validator, turnsOwed_validator]
      exact count_filled_le
    · rfl
  · rw [howed, length_turns]
  · rw [hproposed, hbackup]
    exact length_countedRows
  · intro row hrow
    obtain ⟨hin, hset⟩ := List.mem_filter.mp hrow
    rw [← isSome_turnOf] at hset
    obtain ⟨primary, hprimary⟩ := Option.isSome_iff_exists.mp hset
    have hturn : primary ∈ rows.filterMap (turnOf sets) :=
      List.mem_filterMap.mpr ⟨row, hin, hprimary⟩
    rw [computeUptime_eq]
    exact ⟨_, List.mem_map_of_mem (mem_addresses.mpr (.inl hturn)), hprimary⟩
  · intro v hv
    rw [computeUptime_eq] at hv
    obtain ⟨a, _, rfl⟩ := List.mem_map.mp hv
    rw [turnsOwed_validator]
    exact count_turns_eq

end

/-- Height 1 was b's turn, and c took it over. -/
example : ((computeUptime [⟨0, "a", 0⟩, ⟨1, "c", 1⟩, ⟨2, "c", 0⟩] fun _ => some ["a", "b", "c"]).map
    fun v => (v.address, v.turnsOwed, v.turnsProposed, v.backupProposals)) =
      [("a", 1, 1, 0), ("b", 1, 0, 0), ("c", 1, 1, 1)] := by
  decide

/-! ## Equal turns -/

section

variable {set : List String} {start turns : Nat} {sets : UInt64 → Option (List String)}
  {rows : List ProposedHeight}

theorem toNat_height {n : Nat} (h : n < 2 ^ 63) : (Int64.ofNat n).toUInt64.toNat = n := by
  rw [Int64.toUInt64_ofNat', UInt64.toNat_ofNat', Nat.mod_eq_of_lt]
  omega

/-- Rows with one of these heights each, and everyone on time. -/
structure OnTime (set : List String) (start turns : Nat)
    (sets : UInt64 → Option (List String)) (rows : List ProposedHeight) : Prop where
  below : start + set.length * turns < 2 ^ 63
  constant : ∀ h, start ≤ h → h < start + set.length * turns → sets (.ofNat h) = some set
  heights : (rows.map (·.height)).Perm
    ((List.range' start (set.length * turns)).map Int64.ofNat)
  proposed : ∀ row ∈ rows,
    row.round = 0 ∧ eligibleDesignee set row.height.toUInt64 0 = some row.proposer

theorem OnTime.turnOf_eq (h : OnTime set start turns sets rows) {row : ProposedHeight}
    (hrow : row ∈ rows) :
    turnOf sets row = set[row.height.toUInt64.toNat % set.length]? := by
  obtain ⟨n, hn, hheight⟩ := List.mem_map.mp (h.heights.subset (List.mem_map_of_mem hrow))
  rw [List.mem_range'_1] at hn
  have hset : sets row.height.toUInt64 = some set := by
    rw [← hheight, Int64.toUInt64_ofNat']
    exact h.constant n hn.1 hn.2
  rw [turnOf, hset, Option.bind_some]

theorem OnTime.turnOf_proposer (h : OnTime set start turns sets rows) {row : ProposedHeight}
    (hrow : row ∈ rows) : turnOf sets row = some row.proposer := by
  rw [h.turnOf_eq hrow, ← eligibleDesignee_zero]
  exact (h.proposed row hrow).2

theorem OnTime.filterMap_filled (h : OnTime set start turns sets rows) :
    rows.filterMap (filledBy sets) = rows.filterMap (turnOf sets) := by
  apply List.filterMap_congr
  intro row hrow
  simp [filledBy, h.turnOf_proposer hrow, (h.proposed row hrow).1, Option.filter]

theorem OnTime.filterMap_takenOver (h : OnTime set start turns sets rows) :
    rows.filterMap (takenOverBy sets) = [] := by
  rw [List.filterMap_eq_nil_iff]
  intro row hrow
  simp [takenOverBy, h.turnOf_proposer hrow, (h.proposed row hrow).1]

/-- The turns of the rows are those of the heights, one after the other. -/
theorem OnTime.count_turns (h : OnTime set start turns sets rows) (hne : set ≠ [])
    (hnodup : set.Nodup) {a : String} (ha : a ∈ set) :
    (rows.filterMap (turnOf sets)).count a = turns := by
  have hcount : (rows.filterMap (turnOf sets)).count a =
      (rows.map (·.height)).countP fun n => set[n.toUInt64.toNat % set.length]? == some a := by
    rw [List.count_filterMap, List.countP_map]
    apply List.countP_congr
    intro row hrow
    rw [h.turnOf_eq hrow]
    rfl
  have hheights : ((List.range' start (set.length * turns)).map Int64.ofNat).countP
      (fun n => set[n.toUInt64.toNat % set.length]? == some a) =
        ((List.range' start (set.length * turns)).map fun n => set[n % set.length]?).count
          (some a) := by
    rw [List.countP_map, List.count, List.countP_map]
    apply List.countP_congr
    intro n hn
    rw [List.mem_range'_1] at hn
    have hbelow := h.below
    rw [Function.comp_apply, Function.comp_apply, toNat_height (by omega)]
  rw [hcount, h.heights.countP_eq, hheights, Counting.count_turns hne hnodup ha]

theorem OnTime.mem_turns (h : OnTime set start turns sets rows) (hne : set ≠ [])
    (hnodup : set.Nodup) (hturns : 1 ≤ turns) {a : String} :
    a ∈ rows.filterMap (turnOf sets) ↔ a ∈ set := by
  constructor
  · intro ha
    obtain ⟨row, hrow, hturn⟩ := List.mem_filterMap.mp ha
    rw [h.turnOf_eq hrow] at hturn
    exact List.mem_of_getElem? hturn
  · intro ha
    apply List.count_pos_iff.mp
    rw [h.count_turns hne hnodup ha]
    exact hturns

/-- The designees of consecutive rounds are a rotation of the set. -/
theorem designees_eq_rotate (hne : set ≠ []) {height : UInt64} {round : Nat}
    (hrounds : height.toNat + round + set.length ≤ 2 ^ 64) :
    (List.range' round set.length).map (fun n => eligibleDesignee set height (.ofNat n)) =
      (set.rotate (height.toNat + round)).map some := by
  rw [← turns_eq_rotate hne, ← List.map_add_range', List.map_map]
  apply List.map_congr_left
  intro n hn
  rw [List.mem_range'_1] at hn
  have hround : (UInt64.ofNat n).toNat = n := by
    rw [UInt64.toNat_ofNat', Nat.mod_eq_of_lt]
    omega
  have hsum : (height + UInt64.ofNat n).toNat = height.toNat + n := by
    rw [UInt64.toNat_add, hround, Nat.mod_eq_of_lt (by omega)]
  rw [eligibleDesignee, if_neg (by simpa using hne), hsum]
  rfl

/-- Whole rounds in which everyone is on time give each validator the same report, and in
consecutive rounds of one height each is entitled once. -/
theorem equal_turns (hne : set ≠ []) (hnodup : set.Nodup) :
    (∀ start turns sets rows, 1 ≤ turns → OnTime set start turns sets rows →
      ((computeUptime rows sets).map (·.address)).Perm set ∧
        ∀ v ∈ computeUptime rows sets, v.turnsOwed = turns ∧ v.turnsProposed = turns ∧
          v.turnsMissed = 0 ∧ v.backupProposals = 0) ∧
      ∀ (height : UInt64) (round : Nat), height.toNat + round + set.length ≤ 2 ^ 64 →
        ∀ a ∈ set, ∃! n, (round ≤ n ∧ n < round + set.length) ∧
          eligibleDesignee set height (.ofNat n) = some a := by
  constructor
  · intro start turns sets rows hturns h
    have hmem : ∀ a, a ∈ (countsAtEnd rows sets).addresses ↔ a ∈ set := by
      intro a
      rw [mem_addresses, h.filterMap_takenOver, h.mem_turns hne hnodup hturns]
      exact or_iff_left List.not_mem_nil
    constructor
    · rw [map_address_computeUptime]
      exact (List.perm_ext_iff_of_nodup (nodup_addresses _) hnodup).mpr hmem
    · intro v hv
      rw [computeUptime_eq] at hv
      obtain ⟨a, ha, rfl⟩ := List.mem_map.mp hv
      have howed : ((countsAtEnd rows sets).validator a).turnsOwed = turns := by
        rw [turnsOwed_validator, h.count_turns hne hnodup ((hmem a).mp ha)]
      have hproposed : ((countsAtEnd rows sets).validator a).turnsProposed = turns := by
        rw [turnsProposed_validator, h.filterMap_filled, ← turnsOwed_validator, howed]
      refine ⟨howed, hproposed, ?_, ?_⟩
      · show ((countsAtEnd rows sets).validator a).turnsOwed -
          ((countsAtEnd rows sets).validator a).turnsProposed = 0
        rw [howed, hproposed, Nat.sub_self]
      · rw [backupProposals_validator, h.filterMap_takenOver, List.count_nil]
  · intro height round hrounds a ha
    have hrotate := designees_eq_rotate hne hrounds
    have hin : some a ∈ (set.rotate (height.toNat + round)).map some :=
      List.mem_map_of_mem (List.mem_rotate.mpr ha)
    rw [← hrotate] at hin
    obtain ⟨n, hn, hdesignee⟩ := List.mem_map.mp hin
    have hnodups : ((List.range' round set.length).map fun n =>
        eligibleDesignee set height (.ofNat n)).Nodup := by
      rw [hrotate]
      exact (List.nodup_rotate.mpr hnodup).map (Option.some_injective _)
    refine ⟨n, ⟨List.mem_range'_1.mp hn, hdesignee⟩, ?_⟩
    rintro m ⟨hm, hother⟩
    exact List.inj_on_of_nodup_map hnodups (List.mem_range'_1.mpr hm) hn
      (hother.trans hdesignee.symm)

end

/-- Three validators, from height 4 on. -/
theorem equal_turns_three :
    ((computeUptime [⟨4, "b", 0⟩, ⟨5, "c", 0⟩, ⟨6, "a", 0⟩] fun _ => some ["a", "b", "c"]).map
        (·.address)).Perm ["a", "b", "c"] ∧
      ∃! n, (7 ≤ n ∧ n < 10) ∧ eligibleDesignee ["a", "b", "c"] 4 (.ofNat n) = some "b" := by
  have hboth := @equal_turns ["a", "b", "c"] (by decide) (by decide)
  refine ⟨(hboth.1 4 1 (fun _ => some ["a", "b", "c"]) _ (by decide) ⟨?_, ?_, ?_, ?_⟩).1,
    hboth.2 4 7 (by decide) "b" (by decide)⟩
  · decide
  · exact fun _ _ _ => rfl
  · decide
  · decide

end Retracer
