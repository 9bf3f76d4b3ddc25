import Mathlib.Algebra.Order.Ring.Int
import Mathlib.Data.List.Sort

/-! # JSON values as the store reads them

`serde_json` keeps the digits of a number, so a number is its text. The readers
below are the accessors the storage crate uses on a decoded payload and the
`jsonb` operators its SQL uses on a stored one. A string may have a U+0000 here,
which `jsonb` refuses.
-/

namespace Retracer

inductive Json where
  | null
  | bool (b : Bool)
  | num (digits : String)
  | str (s : String)
  | arr (items : List Json)
  | obj (fields : List (String × Json))

/-- `str::parse::<u64>`: digits after an optional `+`, below `2 ^ 64`. -/
def parseU64 (s : String) : Option Nat :=
  let digits :=
    match s.toList with
    | '+' :: rest => rest
    | cs => cs
  let n := digits.foldl (fun n c => 10 * n + (c.toNat - '0'.toNat)) 0
  if digits.isEmpty || !digits.all Char.isDigit || n ≥ 2 ^ 64 then none else some n

namespace Json

/-- `as_object()?.get(name)`, and `payload -> 'name'` in SQL. -/
def get? : Json → String → Option Json
  | obj fields, name => (fields.find? (fun f => f.1 == name)).map (·.2)
  | _, _ => none

def asStr : Json → Option String
  | str s => some s
  | _ => none

def asU64 : Json → Option Nat
  | num digits => parseU64 digits
  | _ => none

def isNull : Json → Bool
  | null => true
  | _ => false

def isObject : Json → Bool
  | obj _ => true
  | _ => false

/-- `value[name]`: null for a missing member and for anything but an object. -/
def index (value : Json) (name : String) : Json := (value.get? name).getD .null

/-- `as_array().into_iter().flatten()`. -/
def items : Json → List Json
  | arr items => items
  | _ => []

/-- `value[name] = member` on an object. -/
def setMember (name : String) (member : Json) : Json → Json
  | obj fields => obj (fields.filter (fun f => f.1 != name) ++ [(name, member)])
  | other => other

/-- `jsonb` keeps an object's keys by length and then by bytes. -/
def keyLe (a b : String × Json) : Bool :=
  a.1.utf8ByteSize < b.1.utf8ByteSize || (a.1.utf8ByteSize == b.1.utf8ByteSize && a.1 ≤ b.1)

/-- `jsonb_each`, over `'{}'` when the value is not an object. -/
def each : Json → List (String × Json)
  | obj fields => fields.mergeSort keyLe
  | _ => []

/-! ## `jsonb_path_query(payload, '$.**.name')` -/

mutual

/-- Every value under the key `name`, at any depth. -/
def valuesAt (name : String) : Json → List Json
  | arr items => valuesAtItems name items
  | obj fields => valuesAtFields name fields
  | _ => []

def valuesAtItems (name : String) : List Json → List Json
  | [] => []
  | item :: items => valuesAt name item ++ valuesAtItems name items

def valuesAtField (name : String) : String × Json → List Json
  | (key, value) => (if key = name then [value] else []) ++ valuesAt name value

def valuesAtFields (name : String) : List (String × Json) → List Json
  | [] => []
  | field :: fields => valuesAtField name field ++ valuesAtFields name fields

end

end Json

/-- `split_kind`: a one-key object names its kind, a bare string is a kind without
a payload, anything else is kept whole under `unknown`. -/
def splitKind : Json → String × Json
  | .obj [(kind, value)] => (kind, value)
  | .str kind => (kind, .null)
  | other => ("unknown", other)

/-! ## Dotted paths -/

/-- `resolve_path`: `$.a.b.c`, one object lookup per segment. -/
def resolvePath (value : Json) (path : String) : Option Json :=
  match path.toList with
  | '$' :: '.' :: rest =>
      ((rest.splitOn '.').map String.ofList).foldlM (fun v segment => v.get? segment) value
  | _ => none

end Retracer
