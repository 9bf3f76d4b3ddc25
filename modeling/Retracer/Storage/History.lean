import Retracer.Library.Paging
import Retracer.Storage.AddressIndexes
import Retracer.Storage.Snapshots

/-! # The history of an account

`get_account_actions` has one branch for each role: the sender history is taken from
`account_actions`, any other role from `action_addresses`. A branch is joined to `actions`,
cut behind the cursor and to the limit, and what the branches leave is merged and cut again.
-/

namespace Retracer

open KeyedTable Sorting Paging Execution

/-! ## The query -/

/-- `payload_from` asks for the extracted role `from`. -/
def roleBind (role : String) : String := if role = "payload_from" then "from" else role

/-- The height and the action of what an index has for the role. -/
def roleEntries (db : Database) (chainId address role : String) : List (Int × String) :=
  if role = "from" then
    (db.accountActions.rows.filter fun r => r.chainId = chainId ∧ r.address = address).map
      fun r => (r.blockHeight, r.actionHash)
  else
    (db.actionAddresses.rows.filter fun r =>
      r.chainId = chainId ∧ r.address = address ∧ r.role = roleBind role).map
        fun r => (r.blockHeight, r.actionHash)

/-- `JOIN actions a ON a.chain_id = .. AND a.action_hash = ..`. The height stays that of the
index. -/
def joinActions (db : Database) (chainId : String) (entries : List (Int × String)) :
    List (Int × ActionsRow) :=
  entries.filterMap fun (height, hash) =>
    (db.actions.find? (chainId, hash)).map fun a => (height, a)

/-- `$3 IS NULL OR (height, index) < ($3, $4)`. -/
def beforeCursor (before : Option (Int × Int)) (height : Int) (index : Nat) : Bool :=
  match before with
  | none => true
  | some (h, i) => height < h ∨ height = h ∧ (index : Int) < i

abbrev newestEntry : Int × ActionsRow → Int × ActionsRow → Prop :=
  orderBy (· ≥ ·) Prod.fst (newestFirst fun r => r.2.indexInBlock)

abbrev newestPosition : ActionsRow → ActionsRow → Prop :=
  orderBy (· ≥ ·) ActionsRow.blockHeight (newestFirst fun a => a.indexInBlock)

/-- The rows of a branch before they are cut to the limit. -/
def branchRows (db : Database) (chainId address : String) (before : Option (Int × Int))
    (role : String) : List (Int × ActionsRow) :=
  (joinActions db chainId (roleEntries db chainId address role)).filter fun r =>
    beforeCursor before r.1 r.2.indexInBlock

def roleBranch (db : Database) (chainId address : String) (limit : Int)
    (before : Option (Int × Int)) (role : String) : List ActionsRow :=
  (top newestEntry limit.toNat (branchRows db chainId address before role)).map Prod.snd

/-- `UNION` drops what it has already, one branch alone stays as it is. Within a chain, rows
are the same when their identities are. -/
def unionBranches : List (List ActionsRow) → List ActionsRow
  | [branch] => branch
  | branches => distinctOn key branches.flatten

def getAccountActions (db : Database) (chainId address : String) (limit : Int)
    (before : Option (Int × Int)) (roles : List String) : Option (List ActionRow) :=
  let roles := if roles.isEmpty then ["from"] else roles
  let branches := roles.map (roleBranch db chainId address limit before)
  (top newestPosition limit.toNat (unionBranches branches)).mapM (actionColumns db)

/-! ## Complete indexes -/

/-- Every stored action has its rows in both indexes. -/
structure IndexesComplete (extractors : String → AddressExtractor) (db : Database) : Prop where
  senders : ∀ a ∈ db.actions.rows, senderRow a ∈ db.accountActions.rows
  roles : ∀ a ∈ db.actions.rows, ∀ r ∈ roleRows (extractors a.chainId) a,
    r ∈ db.actionAddresses.rows

section

variable [Postgres] {extractors : String → AddressExtractor} {db db' : Database}
  {chainId : String}

/-- A pair that was skipped is there at the height of its action, where the indexes agree. -/
theorem IndexesComplete.insertBlocks {blocks : List IndexableBlock}
    (h : IndexesComplete extractors db) (hagree : IndexesAgree extractors db')
    (hdb : insertBlocks db chainId blocks (extractors chainId) = some db') :
    IndexesComplete extractors db' := by
  obtain ⟨hactions, hsenders, hroles⟩ := insertBlocks_indexes hdb
  constructor
  · intro a ha
    rw [hactions] at ha
    rw [hsenders]
    rcases Table.mem_of_mem_insertMissing ha with hold | hnew
    · exact (Table.insertMissing_extends _ _).subset (h.senders a hold)
    · exact senderRow_stored _ hnew
  · intro a ha r hr
    have hstored := ha
    rw [hactions] at hstored
    rcases Table.mem_of_mem_insertMissing hstored with hold | hnew
    · rw [hroles]
      exact (Table.insertMissing_extends _ _).subset (h.roles a hold r hr)
    · obtain ⟨p, hp, rfl⟩ := List.mem_map.mp hr
      rw [chainId_batchActions hnew] at hp
      obtain ⟨s, hs, hchain, hhash, hpair⟩ := roleRow_stored db.actionAddresses hnew hp
      rw [← hroles] at hs
      obtain ⟨b, hb, hbc, hbh, hbn, _⟩ := hagree.roles s hs
      have heq : b = a := by
        apply db'.actions.eq_of_key_eq hb ha
        simp only [key, hbc, hbh, hchain, hhash]
      have hrow : s = { chainId := a.chainId, actionHash := a.actionHash, address := p.1
                        role := p.2, blockHeight := a.blockHeight } := by
        cases s
        subst heq hpair
        simp only at hchain hhash hbn ⊢
        rw [hchain, hhash, hbn]
      rw [hrow] at hs
      exact hs

omit [Postgres] in
theorem IndexesComplete.rollbackTo (h : IndexesComplete extractors db) (height : Int) :
    IndexesComplete extractors (rollbackTo db chainId height).1 := by
  constructor
  · intro a ha
    obtain ⟨hin, hkept⟩ := List.mem_filter.mp ha
    exact List.mem_filter.mpr ⟨h.senders a hin, hkept⟩
  · intro a ha r hr
    obtain ⟨hin, hkept⟩ := List.mem_filter.mp ha
    refine List.mem_filter.mpr ⟨h.roles a hin r hr, ?_⟩
    obtain ⟨p, _, rfl⟩ := List.mem_map.mp hr
    exact hkept

/-- Indexes that always agreed with the actions are complete. -/
theorem indexesComplete_reachable {ops : List WriteOp}
    (hagree : Always (writeStep extractors) (fun _ _ db => IndexesAgree extractors db) .empty ops)
    (hrun : exec (writeStep extractors) .empty ops = some db) :
    IndexesComplete extractors db := by
  apply always_invariant ?_ ?_ hagree hrun
  · intro db op db' h hs hagree'
    cases op with
    | insert chainId blocks => exact h.insertBlocks hagree' hs
    | rollback chainId height =>
        cases hs
        exact h.rollbackTo height
  · constructor
    · intro a ha
      cases ha
    · intro a ha
      cases ha

end

/-- The address has the role in the action. -/
def HoldsRole (extractors : String → AddressExtractor) (address : String) (a : ActionsRow)
    (role : String) : Prop :=
  if role = "from" then a.fromAddress = address
  else (address, roleBind role) ∈ rolePairs (extractors a.chainId) a

instance (extractors : String → AddressExtractor) (address : String) (a : ActionsRow)
    (role : String) : Decidable (HoldsRole extractors address a role) :=
  inferInstanceAs (Decidable (if role = "from" then a.fromAddress = address
    else (address, roleBind role) ∈ rolePairs (extractors a.chainId) a))

section

variable {extractors : String → AddressExtractor} {db db' : Database}
  {chainId address role : String} {before : Option (Int × Int)}

/-- The entries for a role are those of the actions in which the address has it. -/
theorem mem_roleEntries (hagree : IndexesAgree extractors db)
    (hcomplete : IndexesComplete extractors db) {n : Int} {hash : String} :
    (n, hash) ∈ roleEntries db chainId address role ↔ ∃ a ∈ db.actions.rows,
      a.chainId = chainId ∧ a.actionHash = hash ∧ a.blockHeight = n ∧
        HoldsRole extractors address a role := by
  unfold roleEntries HoldsRole
  by_cases hrole : role = "from"
  · simp only [if_pos hrole, List.mem_map, List.mem_filter, decide_eq_true_eq, Prod.mk.injEq]
    constructor
    · rintro ⟨r, ⟨hr, hchain, haddress⟩, rfl, rfl⟩
      obtain ⟨a, ha, hc, hh, hn, hfrom⟩ := hagree.senders r hr
      exact ⟨a, ha, hc.trans hchain, hh, hn, hfrom.trans haddress⟩
    · rintro ⟨a, ha, hchain, hhash, hn, hfrom⟩
      exact ⟨senderRow a, ⟨hcomplete.senders a ha, hchain, hfrom⟩, hn, hhash⟩
  · simp only [if_neg hrole, List.mem_map, List.mem_filter, decide_eq_true_eq, Prod.mk.injEq]
    constructor
    · rintro ⟨r, ⟨hr, hchain, haddress, hbind⟩, rfl, rfl⟩
      obtain ⟨a, ha, hc, hh, hn, hpair⟩ := hagree.roles r hr
      rw [haddress, hbind] at hpair
      exact ⟨a, ha, hc.trans hchain, hh, hn, hpair⟩
    · rintro ⟨a, ha, hchain, hhash, hn, hpair⟩
      exact ⟨_, ⟨hcomplete.roles a ha _ (List.mem_map_of_mem hpair), hchain, rfl, rfl⟩, hn, hhash⟩

/-- An index has no entry twice for a role. -/
theorem nodup_roleEntries : (roleEntries db chainId address role).Nodup := by
  unfold roleEntries
  split
  · refine db.accountActions.nodup_map_filter fun r s hr hs hsame _ _ => ?_
    simp only [decide_eq_true_eq] at hr hs
    simp only [Prod.mk.injEq] at hsame
    simp only [key, hr, hs, hsame]
  · refine db.actionAddresses.nodup_map_filter fun r s hr hs hsame _ _ => ?_
    simp only [decide_eq_true_eq] at hr hs
    simp only [Prod.mk.injEq] at hsame
    simp only [key, hr, hs, hsame]

theorem mem_joinActions {entries : List (Int × String)} {n : Int} {a : ActionsRow} :
    (n, a) ∈ joinActions db chainId entries ↔
      (n, a.actionHash) ∈ entries ∧ a ∈ db.actions.rows ∧ a.chainId = chainId := by
  simp only [joinActions, List.mem_filterMap, Prod.exists, Option.map_eq_some_iff, Prod.mk.injEq,
    Table.find?_eq_some_iff, key]
  constructor
  · rintro ⟨_, hash, hentry, _, ⟨ha, hchain, rfl⟩, rfl, rfl⟩
    exact ⟨hentry, ha, hchain⟩
  · rintro ⟨hentry, ha, hchain⟩
    exact ⟨n, a.actionHash, hentry, a, ⟨ha, hchain, rfl⟩, rfl, rfl⟩

theorem nodup_joinActions {entries : List (Int × String)} (h : entries.Nodup) :
    (joinActions db chainId entries).Nodup := by
  refine h.filterMap fun (n, hash) (m, other) row hrow hrow' => ?_
  obtain ⟨a, ha, rfl⟩ := Option.map_eq_some_iff.mp hrow
  obtain ⟨b, hb, hsame⟩ := Option.map_eq_some_iff.mp hrow'
  simp only [Prod.mk.injEq] at hsame
  obtain ⟨rfl, rfl⟩ := hsame
  have hkey := (Table.find?_eq_some_iff.mp ha).2.symm.trans (Table.find?_eq_some_iff.mp hb).2
  simp only [Prod.mk.injEq] at hkey ⊢
  exact ⟨trivial, hkey.2⟩

end

/-! ## A page -/

/-- Nothing that a cursor can reach has changed. -/
def SameBefore (chainId : String) (before : Option (Int × Int)) (db db' : Database) : Prop :=
  ∀ n i, beforeCursor before n i = true → SameUpTo chainId n db db'

/-- The actions in which the address has one of the roles. -/
def heldActions (extractors : String → AddressExtractor) (db : Database)
    (chainId address : String) (roles : List String) : List ActionsRow :=
  db.actions.rows.filter fun a =>
    a.chainId = chainId ∧ ∃ role ∈ roles, HoldsRole extractors address a role

/-- No two actions of a chain have one position. -/
def PositionsUnique (db : Database) : Prop :=
  ∀ a ∈ db.actions.rows, ∀ b ∈ db.actions.rows, a.chainId = b.chainId →
    a.blockHeight = b.blockHeight → a.indexInBlock = b.indexInBlock → key a = key b

instance (db : Database) : Decidable (PositionsUnique db) :=
  inferInstanceAs (Decidable (∀ a ∈ db.actions.rows, ∀ b ∈ db.actions.rows, _))

section

variable {extractors : String → AddressExtractor} {db db' : Database}
  {chainId address role : String} {roles : List String} {limit : Int}
  {before : Option (Int × Int)}

theorem PositionsUnique.eq_of_held (h : PositionsUnique db) {a b : ActionsRow}
    (ha : a ∈ heldActions extractors db chainId address roles)
    (hb : b ∈ heldActions extractors db chainId address roles)
    (hheight : a.blockHeight = b.blockHeight) (hindex : a.indexInBlock = b.indexInBlock) :
    a = b := by
  simp only [heldActions, List.mem_filter, decide_eq_true_eq] at ha hb
  have hchain : a.chainId = b.chainId := ha.2.1.trans hb.2.1.symm
  exact db.actions.eq_of_key_eq ha.1 hb.1 (h a ha.1 b hb.1 hchain hheight hindex)

theorem SameUpTo.roleEntries {n : Int} {hash : String} (h : SameUpTo chainId n db db')
    (hentry : (n, hash) ∈ Retracer.roleEntries db chainId address role) :
    (n, hash) ∈ Retracer.roleEntries db' chainId address role := by
  unfold Retracer.roleEntries at hentry ⊢
  by_cases hrole : role = "from"
  · simp only [if_pos hrole, List.mem_map, List.mem_filter, decide_eq_true_eq, Prod.mk.injEq]
      at hentry ⊢
    obtain ⟨r, ⟨hr, hchain, haddress⟩, hn, hhash⟩ := hentry
    have hr' := (h.mem_iff (k := .accountActions) hchain hn.le).mpr hr
    exact ⟨r, ⟨hr', hchain, haddress⟩, hn, hhash⟩
  · simp only [if_neg hrole, List.mem_map, List.mem_filter, decide_eq_true_eq, Prod.mk.injEq]
      at hentry ⊢
    obtain ⟨r, ⟨hr, hchain, hrest⟩, hn, hhash⟩ := hentry
    have hr' := (h.mem_iff (k := .actionAddresses) hchain hn.le).mpr hr
    exact ⟨r, ⟨hr', hchain, hrest⟩, hn, hhash⟩

variable (hagree : IndexesAgree extractors db) (hcomplete : IndexesComplete extractors db)
  (hsame : SameBefore chainId before db db')

include hagree hcomplete hsame

/-- A branch has the actions behind the cursor in which the address has the role. -/
theorem mem_branchRows {n : Int} {a : ActionsRow} :
    (n, a) ∈ branchRows db' chainId address before role ↔
      n = a.blockHeight ∧ a ∈ heldActions extractors db chainId address [role] ∧
        beforeCursor before a.blockHeight a.indexInBlock = true := by
  simp only [branchRows, List.mem_filter, mem_joinActions, heldActions, decide_eq_true_eq,
    List.mem_singleton, exists_eq_left]
  constructor
  · rintro ⟨⟨hentry, ha, hchain⟩, hbefore⟩
    have hup := hsame n _ hbefore
    obtain ⟨b, hb, hbc, hbh, hbn, hholds⟩ :=
      (mem_roleEntries hagree hcomplete).mp (hup.symm.roleEntries hentry)
    have hb' : b ∈ db'.actions.rows := (hup.mem_iff (k := .actions) hbc hbn.le).mpr hb
    have heq : b = a := by
      apply db'.actions.eq_of_key_eq hb' ha
      simp only [key, hbc, hchain, hbh]
    rw [heq] at hb hbn hholds
    exact ⟨hbn.symm, ⟨hb, hchain, hholds⟩, hbn.symm ▸ hbefore⟩
  · rintro ⟨rfl, ⟨ha, hchain, hholds⟩, hbefore⟩
    have hup := hsame _ _ hbefore
    have hentry : (a.blockHeight, a.actionHash) ∈ roleEntries db chainId address role :=
      (mem_roleEntries hagree hcomplete).mpr ⟨a, ha, hchain, rfl, rfl, hholds⟩
    have ha' : a ∈ db'.actions.rows := (hup.mem_iff (k := .actions) hchain (Int.le_refl _)).mpr ha
    exact ⟨⟨hup.roleEntries hentry, ha', hchain⟩, hbefore⟩

theorem mem_branch {a : ActionsRow} :
    a ∈ (branchRows db' chainId address before role).map Prod.snd ↔
      a ∈ heldActions extractors db chainId address [role] ∧
        beforeCursor before a.blockHeight a.indexInBlock = true := by
  simp [mem_branchRows hagree hcomplete hsame]

theorem nodup_branch : ((branchRows db' chainId address before role).map Prod.snd).Nodup := by
  have hrows : (branchRows db' chainId address before role).Nodup :=
    (nodup_joinActions nodup_roleEntries).filter _
  refine hrows.map_on fun (n, a) hp (m, b) hq hab => ?_
  have hn := ((mem_branchRows hagree hcomplete hsame).mp hp).1
  have hm := ((mem_branchRows hagree hcomplete hsame).mp hq).1
  simp only at hab
  rw [hn, hm, hab]

/-- The height of the index is that of the action, so a branch is cut in the order of the
whole page. -/
theorem roleBranch_eq : roleBranch db' chainId address limit before role =
    top newestPosition limit.toNat ((branchRows db' chainId address before role).map Prod.snd) := by
  have horder : ∀ p ∈ branchRows db' chainId address before role,
      ∀ q ∈ branchRows db' chainId address before role,
        newestEntry p q ↔ newestPosition p.2 q.2 := by
    rintro ⟨n, a⟩ hp ⟨m, b⟩ hq
    have hn := ((mem_branchRows hagree hcomplete hsame).mp hp).1
    have hm := ((mem_branchRows hagree hcomplete hsame).mp hq).1
    rw [hn, hm]
    exact Iff.rfl
  unfold roleBranch top
  rw [List.map_take, List.map_insertionSort newestEntry newestPosition Prod.snd _ horder]

omit hagree hcomplete hsame in
theorem nodup_unionBranches {branches : List (List ActionsRow)} (h : ∀ b ∈ branches, b.Nodup) :
    (unionBranches branches).Nodup := by
  unfold unionBranches
  split
  · exact h _ (List.mem_singleton_self _)
  · exact nodup_distinctOn

omit hagree hcomplete hsame in
theorem mem_unionBranches {branches : List (List ActionsRow)}
    (h : ∀ b ∈ branches, ∀ a ∈ b, a ∈ db.actions.rows) {a : ActionsRow} :
    a ∈ unionBranches branches ↔ ∃ b ∈ branches, a ∈ b := by
  unfold unionBranches
  split
  · simp
  · rw [mem_distinctOn_of_inj, List.mem_flatten]
    intro b hb c hc
    obtain ⟨branch, hbranch, hin⟩ := List.mem_flatten.mp hb
    obtain ⟨branch', hbranch', hin'⟩ := List.mem_flatten.mp hc
    exact db.actions.eq_of_key_eq (h branch hbranch b hin) (h branch' hbranch' c hin')

theorem nodup_roleBranch : (roleBranch db' chainId address limit before role).Nodup := by
  rw [roleBranch_eq hagree hcomplete hsame]
  exact nodup_top _ (nodup_branch hagree hcomplete hsame)

theorem stored_roleBranch {a : ActionsRow}
    (ha : a ∈ roleBranch db' chainId address limit before role) : a ∈ db.actions.rows := by
  rw [roleBranch_eq hagree hcomplete hsame] at ha
  have hheld := ((mem_branch hagree hcomplete hsame).mp (mem_of_mem_top ha)).1
  exact List.mem_of_mem_filter hheld

/-- The rows of a page: the next ones behind the cursor, whichever roles they are found
through. -/
theorem top_unionBranches (hpositions : PositionsUnique db) :
    top newestPosition limit.toNat
        (unionBranches (roles.map (roleBranch db' chainId address limit before))) =
      top newestPosition limit.toNat ((heldActions extractors db chainId address roles).filter
        fun a => beforeCursor before a.blockHeight a.indexInBlock) := by
  apply top_union newestPosition (roles.map fun role =>
    (branchRows db' chainId address before role).map Prod.snd)
  · apply nodup_unionBranches
    intro branch hin
    obtain ⟨role, _, rfl⟩ := List.mem_map.mp hin
    exact nodup_roleBranch hagree hcomplete hsame
  · exact (db.actions.nodup_rows.filter _).filter _
  · intro a ha b hb hab hba
    have hheight : a.blockHeight = b.blockHeight := le_antisymm hba.1 hab.1
    have hle := hab.2 hheight
    have hge := hba.2 hheight.symm
    simp only [newestFirst, Nat.cast_le] at hle hge
    exact hpositions.eq_of_held (List.mem_of_mem_filter ha) (List.mem_of_mem_filter hb) hheight
      (le_antisymm hge hle)
  · intro branch hin
    obtain ⟨role, _, rfl⟩ := List.mem_map.mp hin
    exact nodup_branch hagree hcomplete hsame
  · intro a
    simp only [List.mem_filter, List.mem_map (f := fun role => List.map Prod.snd _),
      exists_exists_and_eq_and, mem_branch hagree hcomplete hsame, heldActions,
      decide_eq_true_eq, List.mem_singleton, exists_eq_left]
    constructor
    · rintro ⟨⟨ha, hchain, role, hrole, hholds⟩, hbefore⟩
      exact ⟨role, hrole, ⟨ha, hchain, hholds⟩, hbefore⟩
    · rintro ⟨role, hrole, ⟨ha, hchain, hholds⟩, hbefore⟩
      exact ⟨⟨ha, hchain, role, hrole, hholds⟩, hbefore⟩
  · intro a
    have hstored : ∀ branch ∈ roles.map (roleBranch db' chainId address limit before),
        ∀ a ∈ branch, a ∈ db.actions.rows := by
      intro branch hin a ha
      obtain ⟨role, _, rfl⟩ := List.mem_map.mp hin
      exact stored_roleBranch hagree hcomplete hsame ha
    rw [mem_unionBranches hstored]
    simp only [List.mem_map, exists_exists_and_eq_and, roleBranch_eq hagree hcomplete hsame]

end

end Retracer
