import Retracer.Library.Execution
import Retracer.Storage.Heights
import Retracer.Storage.Transpose

/-! # The address indexes

`account_actions` and `action_addresses` are filled from the vectors that fill `actions`,
but each table skips the conflicts of its own key. So an identity that is used twice is
dropped from `actions` and kept in the other two, unless its two uses agree.
-/

namespace Retracer

open KeyedTable Execution

/-! ## The rows of an action -/

section

variable (extractor : AddressExtractor)

/-- The addresses of the payload with their roles, as they are stored. -/
def rolePairs (a : ActionsRow) : List (String × String) :=
  (extractor.resolve a.kind a.payload).map fun p => (p.1, p.2.asStr)

def senderRow (a : ActionsRow) : AccountActionsRow :=
  { chainId := a.chainId, address := a.fromAddress, blockHeight := a.blockHeight
    actionHash := a.actionHash }

def roleRows (a : ActionsRow) : List ActionAddressesRow :=
  (rolePairs extractor a).map fun (address, role) =>
    { chainId := a.chainId, actionHash := a.actionHash, address, role
      blockHeight := a.blockHeight }

/-- The parallel vectors have one entry per action, and those of the pairs one per pair. -/
structure BlockWrites.Aligned (w : BlockWrites) : Prop where
  index : w.indexInBlock.length = w.actionHash.length
  kind : w.kind.length = w.actionHash.length
  sender : w.fromAddress.length = w.actionHash.length
  payload : w.payload.length = w.actionHash.length
  address : w.addrAddress.length = w.addrActionHash.length
  role : w.addrRole.length = w.addrActionHash.length

/-- The vectors say the same as the actions alone. -/
structure BlockWrites.Consistent (w : BlockWrites) (chainId : String) (height : Int) : Prop where
  aligned : w.Aligned
  senders : w.accountActionsRows chainId height = (w.actionsRows chainId height).map senderRow
  roles : w.actionAddressesRows chainId height =
    (w.actionsRows chainId height).flatMap (roleRows extractor)

/-- The row of `actions` for an action. -/
def SerialisedAction.actionsRow (chainId : String) (height : Int) (row : SerialisedAction) :
    ActionsRow :=
  { chainId, actionHash := row.hash height, blockHeight := height, indexInBlock := row.1.2
    kind := (splitKind row.2).1, fromAddress := row.1.1.sender, payload := (splitKind row.2).2 }

variable {extractor} {chainId : String} {height : Int} {w : BlockWrites}
  {rows : List SerialisedAction}

theorem BlockWrites.actionsRows_ofRows :
    (BlockWrites.ofRows height extractor rows).actionsRows chainId height =
      rows.map (·.actionsRow chainId height) := by
  simp only [actionsRows, ofRows, List.zip_map', List.map_map]
  rfl

theorem SerialisedAction.roleRows_actionsRow (row : SerialisedAction) :
    roleRows extractor (row.actionsRow chainId height) =
      (row.addressRows height extractor).map fun (hash, address, role) =>
        { chainId, actionHash := hash, address, role, blockHeight := height } := by
  simp only [roleRows, rolePairs, addressRows, pairs, List.map_map]
  rfl

theorem BlockWrites.consistent_ofRows :
    (BlockWrites.ofRows height extractor rows).Consistent extractor chainId height where
  aligned := by constructor <;> simp [ofRows]
  senders := by
    rw [actionsRows_ofRows, List.map_map]
    simp only [accountActionsRows, ofRows, List.zip_map', List.map_map]
    rfl
  roles := by
    rw [actionsRows_ofRows, List.flatMap_map]
    simp only [actionAddressesRows, ofRows, List.zip_map', List.map_map,
      SerialisedAction.roleRows_actionsRow]
    rw [← List.map_flatMap]
    rfl

theorem BlockWrites.consistent_build {block : IndexableBlock}
    (h : BlockWrites.build block height extractor = some w) :
    w.Consistent extractor chainId height := by
  obtain ⟨rows, _, rfl⟩ := exists_rows_of_build height extractor h
  exact consistent_ofRows

end

/-! ## Batches -/

/-- The actions of the blocks, in order. -/
def batchActions (chainId : String) (extractor : AddressExtractor)
    (blocks : List IndexableBlock) : List ActionsRow :=
  blocks.flatMap fun block =>
    (BlockWrites.build block block.height extractor).elim [] fun w =>
      w.actionsRows chainId block.height

theorem insertBlocks_indexes [Postgres] {db db' : Database} {chainId : String}
    {extractor : AddressExtractor} {blocks : List IndexableBlock}
    (h : insertBlocks db chainId blocks extractor = some db') :
    db'.actions = db.actions.insertMissing (batchActions chainId extractor blocks) ∧
      db'.accountActions = db.accountActions.insertMissing
        ((batchActions chainId extractor blocks).map senderRow) ∧
      db'.actionAddresses = db.actionAddresses.insertMissing
        ((batchActions chainId extractor blocks).flatMap (roleRows extractor)) := by
  induction blocks generalizing db with
  | nil =>
      cases h
      exact ⟨rfl, rfl, rfl⟩
  | cons block blocks ih =>
      rw [insertBlocks_cons, Option.bind_eq_some_iff] at h
      obtain ⟨mid, hmid, hrest⟩ := h
      obtain ⟨writes, tokens, hwritten⟩ := written_of_insert hmid
      obtain ⟨hactions, hsenders, hroles⟩ := ih hrest
      have hconsistent : writes.Consistent extractor chainId block.height :=
        BlockWrites.consistent_build hwritten.build
      have hbatch : batchActions chainId extractor (block :: blocks) =
          writes.actionsRows chainId block.height ++ batchActions chainId extractor blocks := by
        rw [batchActions, List.flatMap_cons, hwritten.build]
        rfl
      have hactions' : mid.actions = db.actions.insertMissing
          (writes.actionsRows chainId block.height) := hwritten.rows .actions
      have hsenders' : mid.accountActions = db.accountActions.insertMissing
          (writes.accountActionsRows chainId block.height) := hwritten.rows .accountActions
      have hroles' : mid.actionAddresses = db.actionAddresses.insertMissing
          (writes.actionAddressesRows chainId block.height) := hwritten.rows .actionAddresses
      rw [hbatch, List.map_append, List.flatMap_append, Table.insertMissing_append,
        Table.insertMissing_append, Table.insertMissing_append, ← hconsistent.senders,
        ← hconsistent.roles, ← hactions', ← hsenders', ← hroles']
      exact ⟨hactions, hsenders, hroles⟩

/-! ## Agreement -/

/-- Every index row points at a stored action of its height that has its address. -/
structure IndexesAgree (extractors : String → AddressExtractor) (db : Database) : Prop where
  senders : ∀ r ∈ db.accountActions.rows, ∃ a ∈ db.actions.rows,
    a.chainId = r.chainId ∧ a.actionHash = r.actionHash ∧ a.blockHeight = r.blockHeight ∧
      a.fromAddress = r.address
  roles : ∀ r ∈ db.actionAddresses.rows, ∃ a ∈ db.actions.rows,
    a.chainId = r.chainId ∧ a.actionHash = r.actionHash ∧ a.blockHeight = r.blockHeight ∧
      (r.address, r.role) ∈ rolePairs (extractors a.chainId) a

instance (extractors : String → AddressExtractor) (db : Database) :
    Decidable (IndexesAgree extractors db) :=
  decidable_of_iff
    ((∀ r ∈ db.accountActions.rows, ∃ a ∈ db.actions.rows,
        a.chainId = r.chainId ∧ a.actionHash = r.actionHash ∧ a.blockHeight = r.blockHeight ∧
          a.fromAddress = r.address) ∧
      ∀ r ∈ db.actionAddresses.rows, ∃ a ∈ db.actions.rows,
        a.chainId = r.chainId ∧ a.actionHash = r.actionHash ∧ a.blockHeight = r.blockHeight ∧
          (r.address, r.role) ∈ rolePairs (extractors a.chainId) a)
    ⟨fun h => ⟨h.1, h.2⟩, fun h => ⟨h.1, h.2⟩⟩

/-- The second action may stand under the identity of the first. -/
def SameAction (extractor : AddressExtractor) (a b : ActionsRow) : Prop :=
  a.blockHeight = b.blockHeight ∧ a.fromAddress = b.fromAddress ∧
    ∀ p ∈ rolePairs extractor b, p ∈ rolePairs extractor a

instance (extractor : AddressExtractor) (a b : ActionsRow) :
    Decidable (SameAction extractor a b) :=
  inferInstanceAs (Decidable (_ ∧ _ ∧ _))

/-- Whatever identity an action of the batch has, the first action under it, stored or
of the batch, is at the same height, of the same sender and mentions the same addresses. -/
def KeepsIdentities (extractor : AddressExtractor) (stored batch : List ActionsRow) : Prop :=
  ∀ b ∈ batch, ∀ a ∈ (stored ++ batch).find? fun a => decide (key a = key b),
    SameAction extractor a b

instance (extractor : AddressExtractor) (stored batch : List ActionsRow) :
    Decidable (KeepsIdentities extractor stored batch) :=
  inferInstanceAs (Decidable (∀ b ∈ batch, _))

section

variable [Postgres] {extractors : String → AddressExtractor} {db db' : Database}
  {chainId : String}

omit [Postgres] in
theorem chainId_batchActions {extractor : AddressExtractor} {blocks : List IndexableBlock}
    {a : ActionsRow} (h : a ∈ batchActions chainId extractor blocks) : a.chainId = chainId := by
  obtain ⟨block, _, hin⟩ := List.mem_flatMap.mp h
  cases hbuild : BlockWrites.build block block.height extractor with
  | none =>
      rw [hbuild] at hin
      cases hin
  | some w =>
      rw [hbuild] at hin
      obtain ⟨entry, _, rfl⟩ := List.mem_map.mp hin
      rfl

omit [Postgres] in
/-- The action stored in the end under the key of one that was inserted. -/
theorem first_stored (stored : Table ActionsRow) {batch : List ActionsRow} {b : ActionsRow}
    (hb : b ∈ batch) :
    ∃ a, (stored.rows ++ batch).find? (fun a => decide (key a = key b)) = some a ∧
      a ∈ (stored.insertMissing batch).rows ∧ key a = key b := by
  have hfind := stored.find?_insertMissing batch (key b)
  have hfirst : (stored.rows ++ batch).find? (fun a => decide (key a = key b)) =
      (stored.insertMissing batch).find? (key b) := by
    rw [hfind, List.find?_append]
    rfl
  have hsome : ((stored.rows ++ batch).find? fun a => decide (key a = key b)).isSome :=
    List.find?_isSome.mpr ⟨b, List.mem_append_right stored.rows hb, by simp⟩
  obtain ⟨a, ha⟩ := Option.isSome_iff_exists.mp hsome
  have hstored := Table.find?_eq_some_iff.mp (hfirst.symm.trans ha)
  exact ⟨a, ha, hstored.1, hstored.2⟩

omit [Postgres] in
/-- The columns of the table are its key: the row itself is there. -/
theorem senderRow_stored (stored : Table AccountActionsRow) {batch : List ActionsRow}
    {b : ActionsRow} (hb : b ∈ batch) :
    senderRow b ∈ (stored.insertMissing (batch.map senderRow)).rows := by
  have hheld := stored.holds_insertMissing (batch.map senderRow) (senderRow b)
    (List.mem_map_of_mem hb)
  obtain ⟨r, hr, hkey⟩ := List.mem_map.mp hheld
  have hsame : r = senderRow b := by
    cases r
    simp only [key, senderRow, Prod.mk.injEq] at hkey
    obtain ⟨rfl, rfl, rfl, rfl⟩ := hkey
    rfl
  rw [← hsame]
  exact hr

omit [Postgres] in
/-- A row of the pair is there, maybe of another height. -/
theorem roleRow_stored {extractor : AddressExtractor} (stored : Table ActionAddressesRow)
    {batch : List ActionsRow} {b : ActionsRow} (hb : b ∈ batch) {p : String × String}
    (hp : p ∈ rolePairs extractor b) :
    ∃ r ∈ (stored.insertMissing (batch.flatMap (roleRows extractor))).rows,
      r.chainId = b.chainId ∧ r.actionHash = b.actionHash ∧ (r.address, r.role) = p := by
  have hmem : { chainId := b.chainId, actionHash := b.actionHash, address := p.1, role := p.2
                blockHeight := b.blockHeight } ∈ batch.flatMap (roleRows extractor) :=
    List.mem_flatMap.mpr ⟨b, hb, List.mem_map.mpr ⟨p, hp, rfl⟩⟩
  have hheld := stored.holds_insertMissing _ _ hmem
  obtain ⟨r, hr, hkey⟩ := List.mem_map.mp hheld
  simp only [key, Prod.mk.injEq] at hkey
  obtain ⟨hchain, hhash, haddress, hrole⟩ := hkey
  exact ⟨r, hr, hchain, hhash, by rw [haddress, hrole]⟩

theorem keepsIdentities_of_insertBlocks {blocks : List IndexableBlock}
    (h : IndexesAgree extractors db')
    (hdb : insertBlocks db chainId blocks (extractors chainId) = some db') :
    KeepsIdentities (extractors chainId) db.actions.rows
      (batchActions chainId (extractors chainId) blocks) := by
  obtain ⟨hactions, hsenders, hroles⟩ := insertBlocks_indexes hdb
  intro b hb a ha
  obtain ⟨a', ha', hmem, hkey⟩ := first_stored db.actions hb
  cases ha'.symm.trans ha
  rw [← hactions] at hmem
  -- what the index rows of `b` point at can only be `a`
  have hunique : ∀ a' ∈ db'.actions.rows, a'.chainId = b.chainId →
      a'.actionHash = b.actionHash → a' = a := by
    intro a' ha' hc hh
    apply db'.actions.eq_of_key_eq ha' hmem
    rw [hkey]
    simp only [key, hc, hh]
  have hsender := senderRow_stored db.accountActions hb
  rw [← hsenders] at hsender
  obtain ⟨a₁, ha₁, hc₁, hh₁, hheight, hfrom⟩ := h.senders _ hsender
  cases hunique a₁ ha₁ hc₁ hh₁
  refine ⟨hheight, hfrom, ?_⟩
  intro p hp
  obtain ⟨r, hr, hrc, hrh, hrp⟩ := roleRow_stored db.actionAddresses hb hp
  rw [← hroles] at hr
  obtain ⟨a₂, ha₂, hc₂, hh₂, _, hpair⟩ := h.roles r hr
  cases hunique a₂ ha₂ (hc₂.trans hrc) (hh₂.trans hrh)
  have hchain : a.chainId = chainId := hc₁.trans (chainId_batchActions hb)
  rw [hrp, hchain] at hpair
  exact hpair

/-- An insert keeps the indexes in agreement exactly when it keeps identities. -/
theorem indexesAgree_insertBlocks {blocks : List IndexableBlock} (h : IndexesAgree extractors db)
    (hdb : insertBlocks db chainId blocks (extractors chainId) = some db') :
    IndexesAgree extractors db' ↔
      KeepsIdentities (extractors chainId) db.actions.rows
        (batchActions chainId (extractors chainId) blocks) := by
  refine ⟨fun h' => keepsIdentities_of_insertBlocks h' hdb, fun hkeeps => ?_⟩
  obtain ⟨hactions, hsenders, hroles⟩ := insertBlocks_indexes hdb
  have hold : ∀ a ∈ db.actions.rows, a ∈ db'.actions.rows := by
    rw [hactions]
    exact (Table.insertMissing_extends _ _).subset
  have hfirst : ∀ b ∈ batchActions chainId (extractors chainId) blocks, ∃ a ∈ db'.actions.rows,
      a.chainId = b.chainId ∧ a.actionHash = b.actionHash ∧
        SameAction (extractors chainId) a b := by
    intro b hb
    obtain ⟨a, ha, hmem, hkey⟩ := first_stored db.actions hb
    rw [← hactions] at hmem
    simp only [key, Prod.mk.injEq] at hkey
    exact ⟨a, hmem, hkey.1, hkey.2, hkeeps b hb a ha⟩
  constructor
  · intro r hr
    rw [hsenders] at hr
    rcases Table.mem_of_mem_insertMissing hr with hin | hin
    · obtain ⟨a, ha, hrest⟩ := h.senders r hin
      exact ⟨a, hold a ha, hrest⟩
    · obtain ⟨b, hb, rfl⟩ := List.mem_map.mp hin
      obtain ⟨a, ha, hc, hh, hheight, hfrom, _⟩ := hfirst b hb
      exact ⟨a, ha, hc, hh, hheight, hfrom⟩
  · intro r hr
    rw [hroles] at hr
    rcases Table.mem_of_mem_insertMissing hr with hin | hin
    · obtain ⟨a, ha, hrest⟩ := h.roles r hin
      exact ⟨a, hold a ha, hrest⟩
    · obtain ⟨b, hb, hin⟩ := List.mem_flatMap.mp hin
      obtain ⟨p, hp, rfl⟩ := List.mem_map.mp hin
      obtain ⟨a, ha, hc, hh, hheight, _, hpairs⟩ := hfirst b hb
      have hchain : a.chainId = chainId := hc.trans (chainId_batchActions hb)
      refine ⟨a, ha, hc, hh, hheight, ?_⟩
      rw [hchain]
      exact hpairs p hp

omit [Postgres] in
theorem indexesAgree_rollbackTo (h : IndexesAgree extractors db) (height : Int) :
    IndexesAgree extractors (rollbackTo db chainId height).1 := by
  constructor
  · intro r hr
    obtain ⟨hin, hkept⟩ := List.mem_filter.mp hr
    obtain ⟨a, ha, hc, hh, hheight, hfrom⟩ := h.senders r hin
    refine ⟨a, List.mem_filter.mpr ⟨ha, ?_⟩, hc, hh, hheight, hfrom⟩
    rw [above_congr (r := r) (s := a) hc hheight]
    exact hkept
  · intro r hr
    obtain ⟨hin, hkept⟩ := List.mem_filter.mp hr
    obtain ⟨a, ha, hc, hh, hheight, hpair⟩ := h.roles r hin
    refine ⟨a, List.mem_filter.mpr ⟨ha, ?_⟩, hc, hh, hheight, hpair⟩
    rw [above_congr (r := r) (s := a) hc hheight]
    exact hkept

end

/-! ## Runs -/

inductive WriteOp where
  | insert (chainId : String) (blocks : List IndexableBlock)
  | rollback (chainId : String) (height : Int)

section

variable [Postgres] (extractors : String → AddressExtractor)

/-- Any blocks at any heights, on any chain. An aborted insert changes nothing and is no
step. -/
def writeStep (db : Database) : WriteOp → Option Database
  | .insert chainId blocks => insertBlocks db chainId blocks (extractors chainId)
  | .rollback chainId height => some (rollbackTo db chainId height).1

/-- The condition on the blocks that a step commits. -/
def CommitsKeepIdentities (db : Database) (op : WriteOp) (_ : Database) : Prop :=
  match op with
  | .insert chainId blocks =>
      KeepsIdentities (extractors chainId) db.actions.rows
        (batchActions chainId (extractors chainId) blocks)
  | .rollback _ _ => True

/-- In every state reached the indexes agree with the actions they point to, exactly when
every batch committed on the way keeps identities. -/
theorem address_indexes_agree (ops : List WriteOp) :
    Always (writeStep extractors) (fun _ _ db => IndexesAgree extractors db) .empty ops ↔
      Always (writeStep extractors) (CommitsKeepIdentities extractors) .empty ops := by
  apply always_iff (I := IndexesAgree extractors)
  · intro db op db' h hs
    cases op with
    | insert chainId blocks => exact indexesAgree_insertBlocks h hs
    | rollback chainId height =>
        cases hs
        exact iff_of_true (indexesAgree_rollbackTo h height) trivial
  · constructor
    · intro r hr
      cases hr
    · intro r hr
      cases hr

end

/-- A block of one transfer whose sender is `sender` and whose identity is `tx`. -/
def reusedIdentity (height : Nat) (hash parentHash sender : String) : IndexableBlock :=
  { IndexableBlock.bare height hash parentHash with
    actions := [⟨sender, some "tx", some (.obj [("Transfer", .obj [("to", .str "bob")])])⟩] }

/-- Block 1 carries the action of block 0 again. The sender has a row at height 1, and
the action is stored at height 0 only. -/
theorem address_indexes_disagree :
    ¬ ∀ ops : List WriteOp,
      Always (@writeStep .plain fun _ => .tierAOnly .empty)
        (fun _ _ db => IndexesAgree (fun _ => .tierAOnly .empty) db) .empty ops := by
  intro h
  have hrun := h [.insert "main" [reusedIdentity 0 "g" "" "alice",
    reusedIdentity 1 "a1" "g" "alice"]]
  revert hrun
  decide

end Retracer
