import Retracer.Library.Traverse
import Retracer.Storage.Projections

/-! # The configuration of a schema

`kind_schema.toml` declares, kind by kind, which payload paths are addresses and which are to
be queryable. The role paths are resolved with their `$.`, the index paths without it, and the
roles of a kind are those of its last entry.
-/

namespace Retracer

open Traverse

/-! ## The file -/

structure RawRole where
  path : String
  role : String

structure RawIndex where
  path : String
  type : String := "text"

structure RawKind where
  name : String
  roles : List RawRole := []
  index : List RawIndex := []

/-- What the TOML decoder makes of the file. -/
structure RawConfig where
  kind : List RawKind := []

inductive SchemaError where
  | unknownRole (kind raw : String)
  | unknownProjectionType (kind raw : String)
  | indexPath (kind path : String)
deriving DecidableEq

/-! ## Parsing -/

def Role.parse (raw : String) : Option Role :=
  if raw = "from" then some .from
  else if raw = "to" then some .to
  else if raw = "validator_subject" then some .validatorSubject
  else if raw = "delegator" then some .delegator
  else
    match raw.toList with
    | 'o' :: 't' :: 'h' :: 'e' :: 'r' :: ':' :: label =>
        if label.isEmpty then none else some (.other (String.ofList label))
    | _ => none

def ProjectionType.parse (raw : String) : Option ProjectionType :=
  if raw = "text" then some .text
  else if raw = "numeric" then some .numeric
  else if raw = "bigint" then some .bigInt
  else none

/-- `trim_start_matches("$.")`. -/
def trimDollar : List Char → List Char
  | '$' :: '.' :: rest => trimDollar rest
  | cs => cs

/-- The segments of an index path. -/
def fieldSegments (path : String) : List String :=
  ((trimDollar path.toList).splitOn '.').map String.ofList

def FieldRole.parse (kind : String) (raw : RawRole) : Except SchemaError FieldRole :=
  match Role.parse raw.role with
  | none => .error (.unknownRole kind raw.role)
  | some role => .ok { path := raw.path, role }

theorem fieldSegments_ne_nil (path : String) : fieldSegments path ≠ [] := by
  simp [fieldSegments, List.splitOn, List.splitOnP_ne_nil]

def Projection.parse (kind : String) (raw : RawIndex) : Except SchemaError Projection :=
  match ProjectionType.parse raw.type with
  | none => .error (.unknownProjectionType kind raw.type)
  | some ty =>
      if h : ∀ s ∈ fieldSegments raw.path, isSafeSegment s = true then
        .ok
          { kind, segments := fieldSegments raw.path, ty
            nonempty := fieldSegments_ne_nil raw.path, safe := h }
      else .error (.indexPath kind raw.path)

/-- `HashMap::insert`. -/
def KindSchema.insert (schema : KindSchema) (kind : String) (roles : List FieldRole) :
    KindSchema :=
  ⟨fun k => if k = kind then some roles else schema.kinds k⟩

structure ParsedSchema where
  roles : KindSchema := .empty
  projections : List Projection := []

/-- The loop body. -/
def ParsedSchema.push (parsed : ParsedSchema) (kind : RawKind) :
    Except SchemaError ParsedSchema := do
  let roles ← kind.roles.mapM (FieldRole.parse kind.name)
  let projections ← kind.index.mapM (Projection.parse kind.name)
  .ok
    { roles := parsed.roles.insert kind.name roles
      projections := parsed.projections ++ projections }

def KindSchema.parse (config : RawConfig) : Except SchemaError ParsedSchema :=
  config.kind.foldlM ParsedSchema.push {}

/-! ## The entry that stays -/

/-- Of the entries that name a kind, `insert` keeps the last. -/
def lastEntry (kinds : List RawKind) (kind : String) : Option RawKind :=
  (kinds.filter fun entry => entry.name = kind).getLast?

theorem FieldRole.parse_eq_ok {kind : String} {raw : RawRole} {field : FieldRole} :
    FieldRole.parse kind raw = .ok field ↔
      raw.path = field.path ∧ Role.parse raw.role = some field.role := by
  unfold FieldRole.parse
  cases Role.parse raw.role with
  | none => simp
  | some role =>
      cases field
      simp

/-- The roles that the map has for a kind: those of its last entry, or of the map before. -/
inductive KeptRoles (before after : Option (List FieldRole)) (kind : String) :
    Option RawKind → Prop where
  | old (h : after = before) : KeptRoles before after kind none
  | last {entry : RawKind} {roles : List FieldRole} (h : after = some roles)
      (hroles : entry.roles.mapM (FieldRole.parse kind) = .ok roles) :
      KeptRoles before after kind (some entry)

theorem ParsedSchema.push_spec {parsed parsed' : ParsedSchema} {entry : RawKind}
    (h : parsed.push entry = .ok parsed') :
    ∃ roles projections, entry.roles.mapM (FieldRole.parse entry.name) = .ok roles ∧
      entry.index.mapM (Projection.parse entry.name) = .ok projections ∧
      parsed' = ⟨parsed.roles.insert entry.name roles, parsed.projections ++ projections⟩ := by
  unfold ParsedSchema.push at h
  cases hroles : entry.roles.mapM (FieldRole.parse entry.name) with
  | error e =>
      rw [hroles] at h
      cases h
  | ok roles =>
      rw [hroles] at h
      cases hindex : entry.index.mapM (Projection.parse entry.name) with
      | error e =>
          rw [hindex] at h
          cases h
      | ok projections =>
          rw [hindex] at h
          cases h
          exact ⟨roles, projections, rfl, rfl, rfl⟩

theorem keptRoles_of_foldlM {kinds : List RawKind} {before after : ParsedSchema}
    (h : kinds.foldlM ParsedSchema.push before = .ok after) (kind : String) :
    KeptRoles (before.roles.kinds kind) (after.roles.kinds kind) kind (lastEntry kinds kind) := by
  induction kinds generalizing before with
  | nil =>
      cases h
      exact .old rfl
  | cons entry kinds ih =>
      rw [List.foldlM_cons] at h
      cases hpush : before.push entry with
      | error e =>
          rw [hpush] at h
          cases h
      | ok mid =>
          rw [hpush] at h
          obtain ⟨roles, projections, hroles, -, rfl⟩ := ParsedSchema.push_spec hpush
          have hrest := ih h
          unfold lastEntry at hrest ⊢
          by_cases hname : entry.name = kind
          · rw [List.filter_cons_of_pos (by simpa using hname), List.getLast?_cons]
            cases hlast : (kinds.filter fun entry => entry.name = kind).getLast? with
            | none =>
                rw [hlast] at hrest
                cases hrest with
                | old hold =>
                    subst hname
                    exact .last (hold.trans (if_pos rfl)) hroles
            | some other =>
                rw [hlast] at hrest
                cases hrest with
                | last hafter hothers => exact .last hafter hothers
          · rw [List.filter_cons_of_neg (by simpa using hname)]
            have hsame : (before.roles.insert entry.name roles).kinds kind =
                before.roles.kinds kind := if_neg (Ne.symm hname)
            rw [hsame] at hrest
            exact hrest

/-! ## Live rules -/

/-- The file says that in payloads of the kind the path has the role. -/
def Declares (config : RawConfig) (kind path : String) (role : Role) : Prop :=
  ∃ entry ∈ config.kind, entry.name = kind ∧
    ∃ raw ∈ entry.roles, raw.path = path ∧ Role.parse raw.role = some role

/-- What the path names, with or without its `$.`. -/
def fieldAt (payload : Json) (path : String) : Option Json :=
  (fieldSegments path).foldlM (fun v segment => v.get? segment) payload

/-- Whenever the field holds a text, the text has the role. -/
def RuleLives (schema : KindSchema) (kind path : String) (role : Role) : Prop :=
  ∀ payload a, fieldAt payload path = some (.str a) → (a, role) ∈ schema.resolve kind payload

/-- The path written with one `$.`. -/
def dollarPath (path : String) : String := String.ofList ('$' :: '.' :: trimDollar path.toList)

/-- The last entry of the kind gives the role to the path written with `$.`. -/
def KeepsRule (config : RawConfig) (kind path : String) (role : Role) : Prop :=
  ∃ entry, lastEntry config.kind kind = some entry ∧
    ∃ raw ∈ entry.roles, raw.path = dollarPath path ∧ Role.parse raw.role = some role

/-- The payload that has a text at the end of the segments and nothing else. -/
def nested (segments : List String) (a : String) : Json :=
  segments.foldr (fun segment v => .obj [(segment, v)]) (.str a)

theorem foldlM_nested (segments : List String) (a : String) :
    segments.foldlM (fun v segment => Json.get? v segment) (nested segments a) =
      some (.str a) := by
  induction segments with
  | nil => rfl
  | cons segment segments ih =>
      rw [List.foldlM_cons]
      simpa [nested, Json.get?] using ih

theorem eq_of_foldlM_nested {segments others : List String} {a b : String}
    (h : others.foldlM (fun v segment => Json.get? v segment) (nested segments a) =
      some (.str b)) : others = segments := by
  induction segments generalizing others with
  | nil =>
      cases others with
      | nil => rfl
      | cons other others => cases h
  | cons segment segments ih =>
      cases others with
      | nil => cases h
      | cons other others =>
          rw [List.foldlM_cons] at h
          by_cases hsame : segment = other
          · rw [hsame]
            congr 1
            apply ih
            simpa [nested, Json.get?, hsame] using h
          · simp [nested, Json.get?, hsame] at h

/-- A text is told by its segments. -/
theorem splitOn_map_inj {cs ds : List Char}
    (h : (cs.splitOn '.').map String.ofList = (ds.splitOn '.').map String.ofList) : cs = ds := by
  have hlists : cs.splitOn '.' = ds.splitOn '.' :=
    List.map_injective_iff.mpr (fun _ _ => String.ofList_injective) h
  calc cs = ['.'].intercalate (cs.splitOn '.') := (List.intercalate_splitOn '.').symm
    _ = ['.'].intercalate (ds.splitOn '.') := by rw [hlists]
    _ = ds := List.intercalate_splitOn '.'

theorem resolvePath_dollarPath (payload : Json) (path : String) :
    resolvePath payload (dollarPath path) = fieldAt payload path := by
  rw [resolvePath, dollarPath, String.toList_ofList]
  rfl

/-- Only the path with `$.` leads to the field and to nothing but it. -/
theorem eq_dollarPath {path other : String} {a b : String}
    (h : resolvePath (nested (fieldSegments path) a) other = some (.str b)) :
    other = dollarPath path := by
  unfold resolvePath at h
  split at h
  · next rest hrest =>
      have hsame := splitOn_map_inj (eq_of_foldlM_nested h)
      rw [dollarPath, ← hsame, ← hrest, String.ofList_toList]
  · cases h

theorem asStr_eq_some {value : Json} {a : String} : value.asStr = some a ↔ value = .str a := by
  cases value <;> simp [Json.asStr]

theorem KindSchema.mem_resolve {schema : KindSchema} {kind : String} {payload : Json} {a : String}
    {role : Role} {roles : List FieldRole} (h : schema.kinds kind = some roles) :
    (a, role) ∈ schema.resolve kind payload ↔
      ∃ field ∈ roles, resolvePath payload field.path = some (.str a) ∧ field.role = role := by
  simp only [KindSchema.resolve, h, List.mem_filterMap, Option.map_eq_some_iff,
    Option.bind_eq_some_iff, asStr_eq_some, Prod.mk.injEq]
  apply exists_congr
  intro field
  apply and_congr_right
  intro _
  constructor
  · rintro ⟨_, ⟨_, hpath, rfl⟩, rfl, hrole⟩
    exact ⟨hpath, hrole⟩
  · rintro ⟨hpath, hrole⟩
    exact ⟨a, ⟨_, hpath, rfl⟩, rfl, hrole⟩

section

variable {config : RawConfig} {parsed : ParsedSchema} {kind path : String} {role : Role}

/-- What the schema says of a kind is what its last entry says. -/
theorem mem_resolve_parsed (hparse : KindSchema.parse config = .ok parsed) {payload : Json}
    {a : String} :
    (a, role) ∈ parsed.roles.resolve kind payload ↔
      ∃ entry, lastEntry config.kind kind = some entry ∧ ∃ raw ∈ entry.roles,
        resolvePath payload raw.path = some (.str a) ∧ Role.parse raw.role = some role := by
  have hkept := keptRoles_of_foldlM hparse kind
  cases hlast : lastEntry config.kind kind with
  | none =>
      rw [hlast] at hkept
      cases hkept with
      | old hnone =>
          have hempty : parsed.roles.resolve kind payload = [] := by
            rw [KindSchema.resolve, hnone]
            rfl
          simp [hempty]
  | some entry =>
      rw [hlast] at hkept
      cases hkept with
      | last hsome hroles =>
          rw [KindSchema.mem_resolve hsome]
          simp only [mem_mapM_ok hroles, FieldRole.parse_eq_ok, Option.some.injEq,
            exists_eq_left']
          constructor
          · rintro ⟨field, ⟨raw, hraw, hpath, hrole⟩, hfield, rfl⟩
            exact ⟨raw, hraw, hpath ▸ hfield, hrole⟩
          · rintro ⟨raw, hraw, hfield, hrole⟩
            exact ⟨⟨raw.path, role⟩, ⟨raw, hraw, rfl, hrole⟩, hfield, rfl⟩

/-- A rule lives exactly when the last entry of its kind has it with a `$.`. -/
theorem ruleLives_iff (hparse : KindSchema.parse config = .ok parsed) :
    RuleLives parsed.roles kind path role ↔ KeepsRule config kind path role := by
  constructor
  · intro hlives
    have hin := hlives (nested (fieldSegments path) "a") "a" (foldlM_nested _ _)
    obtain ⟨entry, hentry, raw, hraw, hpath, hrole⟩ := (mem_resolve_parsed hparse).mp hin
    exact ⟨entry, hentry, raw, hraw, eq_dollarPath hpath, hrole⟩
  · rintro ⟨entry, hentry, raw, hraw, hpath, hrole⟩ payload a hfield
    rw [← resolvePath_dollarPath, ← hpath] at hfield
    exact (mem_resolve_parsed hparse).mpr ⟨entry, hentry, raw, hraw, hfield, hrole⟩

/-- No rule of the file is dead. -/
def RulesLive (config : RawConfig) (parsed : ParsedSchema) : Prop :=
  ∀ kind path role, Declares config kind path role → RuleLives parsed.roles kind path role

/-- No declared rule is dead exactly when each is among those of the last entry of its kind,
there with one `$.`. -/
theorem rulesLive_iff (hparse : KindSchema.parse config = .ok parsed) :
    RulesLive config parsed ↔
      ∀ kind path role, Declares config kind path role → KeepsRule config kind path role := by
  simp only [RulesLive, ruleLives_iff hparse]

end

/-- The second entry for transfers has the rule of the first and one more. -/
def transferRoles : RawConfig where
  kind := [{ name := "Transfer", roles := [⟨"$.to", "to"⟩] },
    { name := "Transfer", roles := [⟨"$.from", "from"⟩, ⟨"$.to", "to"⟩] }]

theorem rulesLive_iff_transfers :
    ∃ parsed, KindSchema.parse transferRoles = .ok parsed ∧ RulesLive transferRoles parsed := by
  refine ⟨_, rfl, (rulesLive_iff rfl).mpr ?_⟩
  rintro kind path role ⟨entry, hentry, rfl, raw, hraw, rfl, hrole⟩
  have hname : entry.name = "Transfer" ∧ raw ∈ [⟨"$.from", "from"⟩, ⟨"$.to", "to"⟩] := by
    rcases List.mem_pair.mp hentry with rfl | rfl
    · exact ⟨rfl, List.mem_cons_of_mem _ hraw⟩
    · exact ⟨rfl, hraw⟩
  obtain ⟨hname, hraw⟩ := hname
  have hdollar : raw.path = dollarPath raw.path := by
    rcases List.mem_pair.mp hraw with rfl | rfl <;> decide
  rw [hname]
  exact ⟨_, rfl, raw, hraw, hdollar, hrole⟩

/-- The second entry for transfers takes the place of the first. -/
def repeatedKind : RawConfig where
  kind := [{ name := "Transfer", roles := [⟨"$.to", "to"⟩] },
    { name := "Transfer", roles := [⟨"$.from", "from"⟩] }]

/-- A path as an index path may be written. -/
def bareRolePath : RawConfig where
  kind := [{ name := "Transfer", roles := [⟨"to", "to"⟩] }]

/-- Both are accepted, and the recipients of transfers are not found. -/
theorem rules_die :
    (∃ parsed, KindSchema.parse repeatedKind = .ok parsed ∧ ¬ RulesLive repeatedKind parsed) ∧
      ∃ parsed, KindSchema.parse bareRolePath = .ok parsed ∧ ¬ RulesLive bareRolePath parsed := by
  have hpayload : ∀ path ∈ ["$.to", "to"],
      fieldAt (.obj [("to", .str "bob")]) path = some (.str "bob") := by
    intro path hpath
    rcases List.mem_pair.mp hpath with rfl | rfl
    · rfl
    · rfl
  constructor
  · refine ⟨_, rfl, fun hlive => ?_⟩
    have hin := hlive "Transfer" "$.to" .to
      ⟨_, List.mem_cons_self, rfl, _, List.mem_singleton_self _, rfl, rfl⟩ _ _
      (hpayload "$.to" (by decide))
    revert hin
    decide
  · refine ⟨_, rfl, fun hlive => ?_⟩
    have hin := hlive "Transfer" "to" .to
      ⟨_, List.mem_cons_self, rfl, _, List.mem_singleton_self _, rfl, rfl⟩ _ _
      (hpayload "to" (by decide))
    revert hin
    decide

end Retracer
