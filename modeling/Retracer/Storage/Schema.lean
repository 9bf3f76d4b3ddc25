import Retracer.Storage.Json

/-! # Address extraction

Which addresses an action mentions besides its sender, and in what role. A kind
claimed by a registered resolver is resolved by it alone; every other kind by the
declared paths of the kind schema.
-/

namespace Retracer

inductive Role where
  | «from»
  | to
  | validatorSubject
  | delegator
  | other (label : String)
deriving DecidableEq, Repr

def Role.asStr : Role → String
  | .from => "from"
  | .to => "to"
  | .validatorSubject => "validator_subject"
  | .delegator => "delegator"
  | .other label => label

structure FieldRole where
  path : String
  role : Role

/-- The role half of a parsed `kind_schema.toml`. -/
structure KindSchema where
  kinds : String → Option (List FieldRole)

def KindSchema.empty : KindSchema := ⟨fun _ => none⟩

/-- Paths that do not lead to a string are skipped. -/
def KindSchema.resolve (schema : KindSchema) (kind : String) (payload : Json) :
    List (String × Role) :=
  match schema.kinds kind with
  | none => []
  | some roles =>
      roles.filterMap fun field =>
        ((resolvePath payload field.path).bind Json.asStr).map (·, field.role)

structure AddressExtractor where
  tierA : KindSchema
  tierB : String → Option (Json → List (String × Role))

def AddressExtractor.tierAOnly (tierA : KindSchema) : AddressExtractor := ⟨tierA, fun _ => none⟩

def AddressExtractor.resolve (extractor : AddressExtractor) (kind : String) (payload : Json) :
    List (String × Role) :=
  match extractor.tierB kind with
  | some resolver => resolver payload
  | none => extractor.tierA.resolve kind payload

end Retracer
