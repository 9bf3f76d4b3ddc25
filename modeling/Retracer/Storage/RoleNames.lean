import Retracer.Storage.History
import Retracer.Storage.SchemaConfig

/-! # The names of roles

A role has three names: the one in the configuration, the text in `action_addresses` and the
one a query asks for. The label of `other:` is free, and may be a word the others reserve.
-/

namespace Retracer

open KeyedTable Sorting Paging

/-! ## From the configuration to the text -/

/-- The roles that are not written with `other:`. -/
def fixedRoles : List String := ["from", "to", "validator_subject", "delegator"]

def otherRole (label : String) : String := "other:" ++ label

theorem toList_otherRole (label : String) :
    (otherRole label).toList = 'o' :: 't' :: 'h' :: 'e' :: 'r' :: ':' :: label.toList := by
  rw [otherRole, String.toList_append]
  rfl

/-- A role is stored as it is written, or without its `other:`. -/
theorem Role.asStr_of_parse {raw : String} {role : Role} (h : Role.parse raw = some role) :
    raw ∈ fixedRoles ∧ role.asStr = raw ∨ raw = otherRole role.asStr := by
  unfold Role.parse at h
  split at h
  · next hraw =>
      cases h
      exact .inl ⟨by simp [hraw, fixedRoles], hraw.symm⟩
  split at h
  · next hraw =>
      cases h
      exact .inl ⟨by simp [hraw, fixedRoles], hraw.symm⟩
  split at h
  · next hraw =>
      cases h
      exact .inl ⟨by simp [hraw, fixedRoles], hraw.symm⟩
  split at h
  · next hraw =>
      cases h
      exact .inl ⟨by simp [hraw, fixedRoles], hraw.symm⟩
  split at h
  · next label hraw =>
      split at h
      · cases h
      · cases h
        refine .inr (String.toList_inj.mp ?_)
        rw [hraw, toList_otherRole, Role.asStr, String.toList_ofList]
  · cases h

theorem Role.parse_fixed {word : String} (h : word ∈ fixedRoles) :
    ∃ role, Role.parse word = some role ∧ role.asStr = word := by
  have hall : ∀ word ∈ fixedRoles, ((Role.parse word).map Role.asStr) = some word := by decide
  obtain ⟨role, hrole, htext⟩ := Option.map_eq_some_iff.mp (hall word h)
  exact ⟨role, hrole, htext⟩

theorem Role.parse_otherRole {label : String} (h : label ≠ "") :
    Role.parse (otherRole label) = some (.other label) := by
  have hne : ∀ word ∈ fixedRoles, otherRole label ≠ word := by
    intro word hword hsame
    have hhead : ∀ word ∈ fixedRoles, word.toList.head? ≠ some 'o' := by decide
    apply hhead word hword
    rw [← hsame, toList_otherRole]
    rfl
  have hlabel : label.toList.isEmpty = false := by simpa using h
  rw [Role.parse, if_neg (hne "from" (by decide)), if_neg (hne "to" (by decide)),
    if_neg (hne "validator_subject" (by decide)), if_neg (hne "delegator" (by decide)),
    toList_otherRole]
  simp [hlabel]

/-! ## From the text to the query -/

/-- The rows of `action_addresses` that are stored under the text. -/
def storedUnder (db : Database) (chainId address text : String) : List (Int × String) :=
  (db.actionAddresses.rows.filter fun r =>
    r.chainId = chainId ∧ r.address = address ∧ r.role = text).map
      fun r => (r.blockHeight, r.actionHash)

/-- A page of `get_account_actions` over the given entries of an index. -/
def pageOver (db : Database) (chainId : String) (limit : Int) (before : Option (Int × Int))
    (entries : List (Int × String)) : Option (List ActionRow) :=
  (top newestPosition limit.toNat
    ((top newestEntry limit.toNat ((joinActions db chainId entries).filter fun r =>
      beforeCursor before r.1 r.2.indexInBlock)).map Prod.snd)).mapM (actionColumns db)

theorem getAccountActions_single (db : Database) (chainId address : String) (limit : Int)
    (before : Option (Int × Int)) (name : String) :
    getAccountActions db chainId address limit before [name] =
      pageOver db chainId limit before (roleEntries db chainId address name) :=
  rfl

/-- Asked for by this name, exactly the actions stored under the text are found. -/
def Selects (name text : String) : Prop :=
  ∀ db chainId address limit before,
    getAccountActions db chainId address limit before [name] =
      pageOver db chainId limit before (storedUnder db chainId address text)

theorem selects_of_roleBind {name text : String} (hname : name ≠ "from")
    (hbind : roleBind name = text) : Selects name text := by
  intro db chainId address limit before
  rw [getAccountActions_single, roleEntries, if_neg hname, hbind]
  rfl

/-- One action that mentions bob under the text `payload_from`. -/
def aliasStored : Database where
  blocks := Table.empty.insertRow
    { chainId := "main", height := 0, hash := "g", parentHash := "", timestamp := 0
      proposer := none, round := 0 }
  actions := Table.empty.insertRow
    { chainId := "main", actionHash := "tx", blockHeight := 0, indexInBlock := 0
      kind := "Transfer", fromAddress := "alice", payload := .null }
  actionAddresses := Table.empty.insertRow
    { chainId := "main", actionHash := "tx", address := "bob", role := "payload_from"
      blockHeight := 0 }

/-- The alias stands for `from`, and nothing stands for it. -/
theorem not_selects_alias (name : String) : ¬ Selects name "payload_from" := by
  intro h
  have hbind : roleBind name ≠ "payload_from" := by
    unfold roleBind
    split
    · decide
    · next hne => exact hne
  have hentries : roleEntries aliasStored "main" "bob" name = [] := by
    unfold roleEntries
    split
    · rfl
    · rw [List.map_eq_nil_iff, List.filter_eq_nil_iff]
      intro r hr hheld
      obtain rfl := List.mem_singleton.mp hr
      exact hbind (of_decide_eq_true hheld).2.2.symm
  have hsame := h aliasStored "main" "bob" 1 none
  rw [getAccountActions_single, hentries] at hsame
  have hone := congrArg (Option.map List.length) hsame
  revert hone
  decide

theorem exists_selects_iff {text : String} :
    (∃ name, Selects name text) ↔ text ≠ "payload_from" := by
  constructor
  · rintro ⟨name, hname⟩ rfl
    exact not_selects_alias name hname
  · intro halias
    by_cases hfrom : text = "from"
    · exact ⟨"payload_from", selects_of_roleBind (by decide) (hfrom ▸ rfl)⟩
    · exact ⟨text, selects_of_roleBind hfrom (if_neg halias)⟩

/-! ## The names of a schema -/

/-- The file has the role for some path of some kind. -/
def DeclaresRole (config : RawConfig) (raw : String) : Prop :=
  ∃ entry ∈ config.kind, ∃ rule ∈ entry.roles, rule.role = raw

/-- Different roles have different texts. -/
def RolesDistinct (config : RawConfig) : Prop :=
  ∀ raw raw' role role', DeclaresRole config raw → DeclaresRole config raw' →
    Role.parse raw = some role → Role.parse raw' = some role' → raw ≠ raw' →
      role.asStr ≠ role'.asStr

/-- Every role can be asked for. -/
def RolesReachable (config : RawConfig) : Prop :=
  ∀ raw role, DeclaresRole config raw → Role.parse raw = some role →
    ∃ name, Selects name role.asStr

theorem rolesDistinct_iff (config : RawConfig) :
    RolesDistinct config ↔
      ∀ word ∈ fixedRoles, DeclaresRole config word → ¬ DeclaresRole config (otherRole word) := by
  constructor
  · intro h word hword hfixed hother
    obtain ⟨role, hparse, htext⟩ := Role.parse_fixed hword
    have hlabel : word ≠ "" := by
      rintro rfl
      revert hword
      decide
    have hne : word ≠ otherRole word := by
      intro hsame
      have hlength := congrArg (fun s => s.toList.length) hsame
      simp only [toList_otherRole, List.length_cons] at hlength
      omega
    exact h word (otherRole word) role (.other word) hfixed hother hparse
      (Role.parse_otherRole hlabel) hne htext
  · intro h raw raw' role role' hraw hraw' hparse hparse' hne hsame
    rcases Role.asStr_of_parse hparse with ⟨hfixed, htext⟩ | hother
    · rcases Role.asStr_of_parse hparse' with ⟨_, htext'⟩ | hother'
      · exact hne (htext.symm.trans (hsame.trans htext'))
      · rw [← hsame, htext] at hother'
        exact h raw hfixed hraw (hother' ▸ hraw')
    · rcases Role.asStr_of_parse hparse' with ⟨hfixed', htext'⟩ | hother'
      · rw [hsame, htext'] at hother
        exact h raw' hfixed' hraw' (hother ▸ hraw)
      · rw [hsame, ← hother'] at hother
        exact hne hother

theorem rolesReachable_iff (config : RawConfig) :
    RolesReachable config ↔ ¬ DeclaresRole config (otherRole "payload_from") := by
  constructor
  · intro h halias
    have hselects := h _ _ halias (Role.parse_otherRole (by decide))
    exact exists_selects_iff.mp hselects rfl
  · intro h raw role hraw hparse
    rw [exists_selects_iff]
    intro htext
    rcases Role.asStr_of_parse hparse with ⟨hfixed, hsame⟩ | hother
    · rw [← hsame, htext] at hfixed
      revert hfixed
      decide
    · rw [htext] at hother
      exact h (hother ▸ hraw)

/-- The roles of a schema stay apart and can be asked for, exactly when no label is a fixed
role that is declared as well, and none is the alias. -/
theorem roleNames_iff (config : RawConfig) :
    RolesDistinct config ∧ RolesReachable config ↔
      (∀ word ∈ fixedRoles, DeclaresRole config word →
        ¬ DeclaresRole config (otherRole word)) ∧
          ¬ DeclaresRole config (otherRole "payload_from") := by
  rw [rolesDistinct_iff, rolesReachable_iff]

/-- A label that is a role of its own. -/
def labelledFrom : RawConfig where
  kind := [{ name := "Transfer", roles := [⟨"$.from", "from"⟩, ⟨"$.payer", "other:from"⟩] }]

/-- A label that is the alias of the queries. -/
def labelledAlias : RawConfig where
  kind := [{ name := "Transfer", roles := [⟨"$.payer", "other:payload_from"⟩] }]

/-- Both schemas are accepted. In one the roles share their text, in the other the role cannot
be asked for. -/
theorem roleNames_fail :
    (∃ parsed, KindSchema.parse labelledFrom = .ok parsed ∧ ¬ RolesDistinct labelledFrom) ∧
      ∃ parsed, KindSchema.parse labelledAlias = .ok parsed ∧ ¬ RolesReachable labelledAlias := by
  refine ⟨⟨_, rfl, fun hdistinct => ?_⟩, ⟨_, rfl, fun hreachable => ?_⟩⟩
  · refine (rolesDistinct_iff _).mp hdistinct "from" (by decide) ?_ ?_
    · exact ⟨_, List.mem_singleton_self _, _, List.mem_cons_self, rfl⟩
    · exact ⟨_, List.mem_singleton_self _, ⟨"$.payer", "other:from"⟩,
        List.mem_cons_of_mem _ (List.mem_singleton_self _), by decide⟩
  · exact (rolesReachable_iff _).mp hreachable
      ⟨_, List.mem_singleton_self _, _, List.mem_singleton_self _, by decide⟩

end Retracer
