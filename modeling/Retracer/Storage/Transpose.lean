import Retracer.Library.Traverse
import Retracer.Storage.Insert

/-! # The columns of a block

`UNNEST` zips the vectors of `BlockWrites` by position. They are the transpose of the
rows of the block: one row per action in the action columns, and one per resolved address
in the address columns.
-/

namespace Retracer

open Traverse

/-! ## Rows -/

/-- An action with its position, and its payload once it is serialised. -/
abbrev SerialisedAction := (IndexableAction × Nat) × Json

namespace SerialisedAction

def hash (height : Int) (row : SerialisedAction) : String :=
  identityOrPosition height row.1.2 row.1.1

def pairs (extractor : AddressExtractor) (row : SerialisedAction) : List (String × Role) :=
  extractor.resolve (splitKind row.2).1 (splitKind row.2).2

/-- The rows of `action_addresses` that the action asks for: hash, address and role. -/
def addressRows (height : Int) (extractor : AddressExtractor) (row : SerialisedAction) :
    List (String × String × String) :=
  (row.pairs extractor).map fun p => (row.hash height, p.1, p.2.asStr)

end SerialisedAction

/-- `none` when a payload does not serialise. -/
def serialiseAll (entries : List (IndexableAction × Nat)) : Option (List SerialisedAction) :=
  entries.mapM fun entry => entry.1.payloadJson.map (entry, ·)

/-- The rows, column by column. -/
def BlockWrites.ofRows (height : Int) (extractor : AddressExtractor)
    (rows : List SerialisedAction) : BlockWrites :=
  { actionHash := rows.map (·.hash height)
    indexInBlock := rows.map (·.1.2)
    kind := rows.map fun row => (splitKind row.2).1
    fromAddress := rows.map (·.1.1.sender)
    payload := rows.map fun row => (splitKind row.2).2
    addrActionHash := (rows.flatMap (·.addressRows height extractor)).map (·.1)
    addrAddress := (rows.flatMap (·.addressRows height extractor)).map (·.2.1)
    addrRole := (rows.flatMap (·.addressRows height extractor)).map (·.2.2) }

/-! ## The loop -/

section

variable (height : Int) (extractor : AddressExtractor)

theorem BlockWrites.push_ofRows (rows : List SerialisedAction)
    (entry : IndexableAction × Nat) :
    BlockWrites.push height extractor (.ofRows height extractor rows) entry =
      if entry.2 < 2 ^ 31 then
        entry.1.payloadJson.map fun json => .ofRows height extractor (rows ++ [(entry, json)])
      else none := by
  obtain ⟨action, index⟩ := entry
  cases hjson : action.payloadJson with
  | none => simp [BlockWrites.push, hjson]
  | some json =>
      simp only [BlockWrites.push, hjson, Option.bind_eq_bind, Option.bind_some]
      by_cases hindex : index < 2 ^ 31
      · rw [if_pos hindex, if_neg (Nat.not_le.mpr hindex)]
        simp [BlockWrites.ofRows, SerialisedAction.hash, SerialisedAction.addressRows,
          SerialisedAction.pairs, Function.comp_def]
      · rw [if_neg hindex, if_pos (Nat.not_lt.mp hindex)]

theorem serialiseAll_cons (entry : IndexableAction × Nat)
    (entries : List (IndexableAction × Nat)) :
    serialiseAll (entry :: entries) =
      entry.1.payloadJson.bind fun json =>
        (serialiseAll entries).map fun rows => (entry, json) :: rows := by
  simp only [serialiseAll, List.mapM_cons]
  cases entry.1.payloadJson with
  | none => rfl
  | some json =>
      cases entries.mapM fun entry => entry.1.payloadJson.map (entry, ·) <;> rfl

/-- The loop from any rows that are already in the columns. -/
theorem BlockWrites.foldlM_push (entries : List (IndexableAction × Nat))
    (rows : List SerialisedAction) :
    entries.foldlM (BlockWrites.push height extractor) (.ofRows height extractor rows) =
      if ∀ entry ∈ entries, entry.2 < 2 ^ 31 then
        (serialiseAll entries).map fun more => .ofRows height extractor (rows ++ more)
      else none := by
  induction entries generalizing rows with
  | nil => simp [serialiseAll]
  | cons entry entries ih =>
      rw [List.foldlM_cons, push_ofRows, serialiseAll_cons]
      by_cases hindex : entry.2 < 2 ^ 31
      · rw [if_pos hindex]
        simp only [List.forall_mem_cons, hindex, true_and]
        cases entry.1.payloadJson with
        | none => split <;> rfl
        | some json =>
            have hrest := ih (rows ++ [(entry, json)])
            simp only [List.append_assoc] at hrest
            simp only [Option.map_some, Option.bind_eq_bind, Option.bind_some, Option.map_map]
            exact hrest
      · have hfar : ¬ ∀ e ∈ entry :: entries, e.2 < 2 ^ 31 := fun hall =>
          hindex (hall entry List.mem_cons_self)
        rw [if_neg hindex, if_neg hfar]
        rfl

theorem forall_zipIdx_lt {α : Type} (actions : List α) (bound : Nat) :
    (∀ entry ∈ actions.zipIdx, entry.2 < bound) ↔ actions.length ≤ bound := by
  constructor
  · intro h
    by_contra hlt
    have hin : bound < actions.length := by omega
    have hmem : (actions[bound], bound) ∈ actions.zipIdx := by
      simp [List.mem_zipIdx_iff_getElem?]
    exact Nat.lt_irrefl _ (h _ hmem)
  · intro h entry hentry
    have hlt := List.snd_lt_of_mem_zipIdx hentry
    omega

/-- What `build` gives: the columns of the rows, or an error. -/
theorem BlockWrites.build_eq (block : IndexableBlock) :
    BlockWrites.build block height extractor =
      if block.actions.length ≤ 2 ^ 31 then
        (serialiseAll block.actions.zipIdx).map (.ofRows height extractor)
      else none := by
  have hloop := foldlM_push height extractor block.actions.zipIdx []
  simp only [forall_zipIdx_lt, List.nil_append] at hloop
  exact hloop

theorem BlockWrites.exists_rows_of_build {block : IndexableBlock} {w : BlockWrites}
    (h : BlockWrites.build block height extractor = some w) :
    ∃ rows, serialiseAll block.actions.zipIdx = some rows ∧ w = .ofRows height extractor rows := by
  rw [build_eq] at h
  split at h
  · obtain ⟨rows, hrows, hw⟩ := Option.map_eq_some_iff.mp h
    exact ⟨rows, hrows, hw.symm⟩
  · cases h

end

/-! ## The transpose -/

/-- The entries at a position are those of the action. -/
structure BlockWrites.EntryOf (w : BlockWrites) (height : Int) (index : Nat)
    (action : IndexableAction) (json : Json) : Prop where
  serialised : action.payloadJson = some json
  hash : w.actionHash[index]? = some (identityOrPosition height index action)
  position : w.indexInBlock[index]? = some index
  kind : w.kind[index]? = some (splitKind json).1
  sender : w.fromAddress[index]? = some action.sender
  payload : w.payload[index]? = some (splitKind json).2

/-- The address rows of the actions, one action after the other. -/
def IndexableBlock.addressRows (block : IndexableBlock) (height : Int)
    (extractor : AddressExtractor) : List (String × String × String) :=
  block.actions.zipIdx.flatMap fun entry =>
    (entry.1.payloadJson.map fun json =>
      SerialisedAction.addressRows height extractor (entry, json)).getD []

/-- The columns are those of the block's rows. -/
structure BlockWrites.Transposes (w : BlockWrites) (block : IndexableBlock) (height : Int)
    (extractor : AddressExtractor) : Prop where
  lengths : w.actionHash.length = block.actions.length ∧
    w.indexInBlock.length = block.actions.length ∧ w.kind.length = block.actions.length ∧
    w.fromAddress.length = block.actions.length ∧ w.payload.length = block.actions.length
  entries : ∀ index action, block.actions[index]? = some action →
    ∃ json, w.EntryOf height index action json
  addressLengths : w.addrAddress.length = w.addrActionHash.length ∧
    w.addrRole.length = w.addrActionHash.length
  addresses : w.addrActionHash = (block.addressRows height extractor).map (·.1) ∧
    w.addrAddress = (block.addressRows height extractor).map (·.2.1) ∧
    w.addrRole = (block.addressRows height extractor).map (·.2.2)

section

variable {height : Int} {extractor : AddressExtractor}

theorem serialiseAll_isSome {entries : List (IndexableAction × Nat)} :
    (serialiseAll entries).isSome ↔ ∀ entry ∈ entries, entry.1.payloadJson.isSome := by
  rw [serialiseAll, isSome_mapM_iff]
  simp only [Option.isSome_map]

/-- The rows are the entries in order, each with its own payload. -/
theorem map_fst_serialiseAll {entries : List (IndexableAction × Nat)}
    {rows : List SerialisedAction} (h : serialiseAll entries = some rows) :
    rows.map (·.1) = entries ∧ ∀ row ∈ rows, row.1.1.payloadJson = some row.2 := by
  induction entries generalizing rows with
  | nil =>
      cases h
      exact ⟨rfl, by simp⟩
  | cons entry entries ih =>
      rw [serialiseAll_cons] at h
      obtain ⟨json, hjson, hrest⟩ := Option.bind_eq_some_iff.mp h
      obtain ⟨more, hmore, rfl⟩ := Option.map_eq_some_iff.mp hrest
      obtain ⟨hfst, hown⟩ := ih hmore
      exact ⟨by rw [List.map_cons, hfst], List.forall_mem_cons.mpr ⟨hjson, hown⟩⟩

theorem BlockWrites.ofRows_transposes {block : IndexableBlock} {rows : List SerialisedAction}
    (h : serialiseAll block.actions.zipIdx = some rows) :
    (BlockWrites.ofRows height extractor rows).Transposes block height extractor := by
  obtain ⟨hfst, hown⟩ := map_fst_serialiseAll h
  have hlength : rows.length = block.actions.length := by
    have hmap := congrArg List.length hfst
    simpa using hmap
  constructor
  · simp [ofRows, hlength]
  · intro index action haction
    have hentry : (rows.map (·.1))[index]? = some (action, index) := by
      rw [hfst, List.getElem?_zipIdx, haction]
      simp
    rw [List.getElem?_map] at hentry
    obtain ⟨row, hrow, hpair⟩ := Option.map_eq_some_iff.mp hentry
    have hjson := hown row (List.mem_of_getElem? hrow)
    obtain ⟨entry, json⟩ := row
    cases hpair
    exact ⟨json, hjson, by simp [ofRows, hrow, SerialisedAction.hash],
      by simp [ofRows, hrow], by simp [ofRows, hrow], by simp [ofRows, hrow],
      by simp [ofRows, hrow]⟩
  · simp [ofRows]
  · have hrows : rows.flatMap (SerialisedAction.addressRows height extractor) =
        block.addressRows height extractor := by
      rw [IndexableBlock.addressRows, ← hfst, List.flatMap_map]
      apply List.flatMap_congr
      intro row hrow
      rw [hown row hrow]
      rfl
    rw [← hrows]
    exact ⟨rfl, rfl, rfl⟩

/-- A block of at most `2 ^ 31` actions that all serialise is transposed, and every other
block is an error. -/
theorem build_transposes (block : IndexableBlock) (height : Int)
    (extractor : AddressExtractor) :
    (block.actions.length ≤ 2 ^ 31 → (∀ action ∈ block.actions, action.payloadJson.isSome) →
      ∃ w, BlockWrites.build block height extractor = some w ∧
        w.Transposes block height extractor) ∧
      ((2 ^ 31 < block.actions.length ∨ ∃ action ∈ block.actions, action.payloadJson = none) →
        BlockWrites.build block height extractor = none) := by
  have hserialise : (serialiseAll block.actions.zipIdx).isSome ↔
      ∀ action ∈ block.actions, action.payloadJson.isSome := by
    rw [serialiseAll_isSome]
    conv_rhs => rw [← List.zipIdx_map_fst 0 block.actions, List.forall_mem_map]
  rw [BlockWrites.build_eq]
  constructor
  · intro hlength hall
    obtain ⟨rows, hrows⟩ := Option.isSome_iff_exists.mp (hserialise.mpr hall)
    rw [if_pos hlength, hrows]
    exact ⟨_, rfl, BlockWrites.ofRows_transposes hrows⟩
  · intro hbad
    split
    · rename_i hlength
      obtain hlong | ⟨action, haction, hnone⟩ := hbad
      · omega
      · have hfails : ¬ (serialiseAll block.actions.zipIdx).isSome := by
          intro hsome
          have hown := hserialise.mp hsome action haction
          rw [hnone] at hown
          cases hown
        rw [Option.not_isSome_iff_eq_none.mp hfails]
        rfl
    · rfl

end

/-- The two ends of a transfer. -/
def transferEnds : AddressExtractor :=
  .tierAOnly ⟨fun kind =>
    if kind = "Transfer" then some [⟨"$.from", .from⟩, ⟨"$.to", .to⟩] else none⟩

/-- A note names nobody, a transfer two, and one without a sender one. -/
def fannedOut : IndexableBlock :=
  { IndexableBlock.bare 9 "h" "p" with
    actions := [⟨"alice", some "n", some (.obj [("Note", .obj [("to", .str "bob")])])⟩,
      ⟨"alice", none,
        some (.obj [("Transfer", .obj [("from", .str "alice"), ("to", .str "bob")])])⟩,
      ⟨"carol", some "t", some (.obj [("Transfer", .obj [("to", .str "dave")])])⟩] }

theorem build_transposes_fannedOut :
    ∃ w, BlockWrites.build fannedOut 9 transferEnds = some w ∧
      w.addrActionHash = ["9:1", "9:1", "t"] ∧ w.addrAddress = ["alice", "bob", "dave"] ∧
      w.addrRole = ["from", "to", "to"] ∧
      ∀ index action, fannedOut.actions[index]? = some action →
        ∃ json, w.EntryOf 9 index action json := by
  obtain ⟨w, hw, htransposes⟩ :=
    (build_transposes fannedOut 9 transferEnds).1 (by decide) (by decide)
  obtain ⟨hhash, haddress, hrole⟩ := htransposes.addresses
  have hrows : fannedOut.addressRows 9 transferEnds =
      [("9:1", "alice", "from"), ("9:1", "bob", "to"), ("t", "dave", "to")] := by decide
  rw [hrows] at hhash haddress hrole
  exact ⟨w, hw, hhash, haddress, hrole, htransposes.entries⟩

/-- One action too many for the `INT` column: all of them serialise, and the block is
refused. -/
theorem build_refuses_full_block :
    ¬ ∀ (block : IndexableBlock) (height : Int) (extractor : AddressExtractor),
      (∀ action ∈ block.actions, action.payloadJson.isSome) →
        ∃ w, BlockWrites.build block height extractor = some w ∧
          w.Transposes block height extractor := by
  intro h
  obtain ⟨w, hw, _⟩ := h
    { IndexableBlock.bare 9 "h" "p" with
      actions := List.replicate (2 ^ 31 + 1) ⟨"alice", some "tx", some .null⟩ }
    9 (.tierAOnly .empty) (fun action haction => by rw [List.eq_of_mem_replicate haction]; rfl)
  rw [BlockWrites.build_eq, if_neg (by simp only [List.length_replicate]; omega)] at hw
  cases hw

end Retracer
