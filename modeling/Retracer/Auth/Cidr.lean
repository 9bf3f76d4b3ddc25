import Mathlib.Data.List.DropRight
import Retracer.Library.Prefixes

/-! # Addresses and ranges

`IpAddr` with the text forms that `str::parse` takes for it, and `Cidr`, the ranges of
addresses that a list of proxies is made of.
-/

namespace Retracer

open Prefixes

/-! ## Addresses -/

/-- An address by its bits, the first octet on top. -/
inductive IpAddr where
  | v4 (bits : BitVec 32)
  | v6 (bits : BitVec 128)
deriving DecidableEq

/-- The length of the addresses of the family. -/
def IpAddr.width : IpAddr → Nat
  | v4 _ => 32
  | v6 _ => 128

/-- `char::is_whitespace`. -/
def isWhitespace (c : Char) : Bool :=
  (9 ≤ c.toNat && c.toNat ≤ 13) || c.toNat == 0x20 || c.toNat == 0x85 || c.toNat == 0xA0 ||
    c.toNat == 0x1680 || (0x2000 ≤ c.toNat && c.toNat ≤ 0x200A) || c.toNat == 0x2028 ||
    c.toNat == 0x2029 || c.toNat == 0x202F || c.toNat == 0x205F || c.toNat == 0x3000

def trim (cs : List Char) : List Char := (cs.dropWhile isWhitespace).rdropWhile isWhitespace

/-! ## Parsing addresses

The parser of the standard library: every reader takes a prefix of the text or nothing. -/

namespace AddrParser

/-- `char::to_digit`. -/
def toDigit (radix : Nat) (c : Char) : Option Nat :=
  let value :=
    if '0' ≤ c ∧ c ≤ '9' then some (c.toNat - '0'.toNat)
    else if 'a' ≤ c ∧ c ≤ 'f' then some (c.toNat - 'a'.toNat + 10)
    else if 'A' ≤ c ∧ c ≤ 'F' then some (c.toNat - 'A'.toNat + 10)
    else none
  value.filter (· < radix)

/-- At least one digit and at most `maxDigits`, for a number below `bound`. -/
def readNumber (radix maxDigits bound : Nat) (allowZeroPrefix : Bool) (cs : List Char) :
    Option (Nat × List Char) :=
  let digits := cs.takeWhile fun c => (toDigit radix c).isSome
  let value := (digits.filterMap (toDigit radix)).foldl (fun n d => n * radix + d) 0
  if digits = [] ∨ maxDigits < digits.length then none
  else if !allowZeroPrefix && digits.head? == some '0' && 1 < digits.length then none
  else if value < bound then some (value, cs.drop digits.length)
  else none

/-- Every part but the first is behind a separator. -/
def readSeparator (separator : Char) (index : Nat) (cs : List Char) : Option (List Char) :=
  if index = 0 then some cs
  else
    match cs with
    | c :: rest => if c = separator then some rest else none
    | [] => none

/-- The four octets, from the one with the given index on. -/
def readOctets : Nat → Nat → List Char → Option (List Nat × List Char)
  | 0, _, cs => some ([], cs)
  | n + 1, index, cs => do
      let cs ← readSeparator '.' index cs
      let (octet, cs) ← readNumber 10 3 256 false cs
      let (octets, cs) ← readOctets n (index + 1) cs
      some (octet :: octets, cs)

/-- The number that the digits write in a base. -/
def join (base : Nat) (digits : List Nat) : Nat := digits.foldl (fun n d => n * base + d) 0

def readIpv4 (cs : List Char) : Option (BitVec 32 × List Char) :=
  (readOctets 4 0 cs).map fun (octets, rest) => (BitVec.ofNat 32 (join 256 octets), rest)

/-- At most `n` groups, from the one with the given index on. An embedded IPv4 address is
the last two of them, and the flag tells that there was one. -/
def readGroups : Nat → Nat → List Char → List Nat × Bool × List Char
  | 0, _, cs => ([], false, cs)
  | n + 1, index, cs =>
      let separated := readSeparator ':' index cs
      match if n = 0 then none else separated.bind readIpv4 with
      | some (embedded, rest) =>
          ([embedded.toNat / 2 ^ 16, embedded.toNat % 2 ^ 16], true, rest)
      | none =>
          match separated.bind (readNumber 16 4 (2 ^ 16) true) with
          | none => ([], false, cs)
          | some (group, rest) =>
              let (groups, embedded, rest) := readGroups n (index + 1) rest
              (group :: groups, embedded, rest)

/-- Eight groups, or fewer around one `::`. -/
def readIpv6 (cs : List Char) : Option (BitVec 128 × List Char) :=
  let (front, embedded, rest) := readGroups 8 0 cs
  if front.length = 8 then some (BitVec.ofNat 128 (join (2 ^ 16) front), rest)
  else if embedded then none
  else
    match rest with
    | ':' :: ':' :: rest =>
        let (back, _, rest) := readGroups (8 - (front.length + 1)) 0 rest
        let zeros := List.replicate (8 - front.length - back.length) 0
        some (BitVec.ofNat 128 (join (2 ^ 16) (front ++ zeros ++ back)), rest)
    | _ => none

end AddrParser

/-- `str::parse::<IpAddr>`: the whole text is an address. -/
def IpAddr.parse (cs : List Char) : Option IpAddr :=
  match AddrParser.readIpv4 cs with
  | some (bits, rest) => if rest = [] then some (.v4 bits) else none
  | none =>
      match AddrParser.readIpv6 cs with
      | some (bits, rest) => if rest = [] then some (.v6 bits) else none
      | none => none

example : IpAddr.parse "192.168.1.7".toList = some (.v4 0xC0A80107) := by decide

example : IpAddr.parse "2001:db8::ffff:10.0.0.8".toList =
    some (.v6 0x20010DB8000000000000FFFF0A000008) := by decide

/-! ## Ranges -/

/-- A prefix is no longer than the addresses of its family. -/
structure Cidr where
  network : IpAddr
  prefixLen : Nat
  valid : prefixLen ≤ network.width

/-- What `parse` refuses, each with the text it names. -/
inductive CidrError where
  | invalidPrefix (raw : List Char)
  | invalidAddress (raw : List Char)
  | prefixTooLong (prefixLen : Nat) (raw : List Char)
deriving DecidableEq

/-- `str::parse::<u8>`: decimal digits behind an optional plus. -/
def parseU8 (cs : List Char) : Option Nat :=
  let digits :=
    match cs with
    | '+' :: rest => rest
    | cs => cs
  let value := digits.foldl (fun n c => 10 * n + (c.toNat - '0'.toNat)) 0
  if digits.isEmpty || !digits.all Char.isDigit || 255 < value then none else some value

/-- `split_once('/')`. -/
def splitOnce (cs : List Char) : Option (List Char × List Char) :=
  match cs.dropWhile (· ≠ '/') with
  | [] => none
  | _ :: rest => some (cs.takeWhile (· ≠ '/'), rest)

/-- The address text and the prefix length of a trimmed range. -/
def Cidr.parts (raw : List Char) : Except CidrError (List Char × Nat) :=
  match splitOnce raw with
  | some (addr, suffix) =>
      match parseU8 (trim suffix) with
      | some prefixLen => .ok (trim addr, prefixLen)
      | none => .error (.invalidPrefix raw)
  | none => if ':' ∈ raw then .ok (raw, 128) else .ok (raw, 32)

def Cidr.parse (text : String) : Except CidrError Cidr := do
  let raw := trim text.toList
  let (addr, prefixLen) ← Cidr.parts raw
  match IpAddr.parse addr with
  | none => .error (.invalidAddress raw)
  | some network =>
      if h : prefixLen ≤ network.width then .ok ⟨network, prefixLen, h⟩
      else .error (.prefixTooLong prefixLen raw)

/-- A mask comparison within the family. -/
def Cidr.contains (cidr : Cidr) (ip : IpAddr) : Bool :=
  match cidr, ip with
  | ⟨.v4 net, prefixLen, valid⟩, .v4 ip =>
      net &&& mask 32 prefixLen valid == ip &&& mask 32 prefixLen valid
  | ⟨.v6 net, prefixLen, valid⟩, .v6 ip =>
      net &&& mask 128 prefixLen valid == ip &&& mask 128 prefixLen valid
  | _, _ => false

/-! ## Prefix equality -/

/-- Of the same family, with the same first bits. -/
def IpAddr.SharesPrefix (n : Nat) : IpAddr → IpAddr → Prop
  | .v4 a, .v4 b => SamePrefix n a b
  | .v6 a, .v6 b => SamePrefix n a b
  | _, _ => False

theorem IpAddr.SharesPrefix.mono {m n : Nat} {a b : IpAddr} (h : a.SharesPrefix n b)
    (hmn : m ≤ n) : a.SharesPrefix m b := by
  cases a <;> cases b
  · exact SamePrefix.mono h hmn
  · exact h
  · exact h
  · exact SamePrefix.mono h hmn

theorem Cidr.contains_iff (cidr : Cidr) (ip : IpAddr) :
    cidr.contains ip = true ↔ cidr.network.SharesPrefix cidr.prefixLen ip := by
  obtain ⟨network, prefixLen, valid⟩ := cidr
  cases network <;> cases ip
  · exact beq_iff_eq.trans (and_mask_eq_iff valid _ _)
  · simp [contains, IpAddr.SharesPrefix]
  · simp [contains, IpAddr.SharesPrefix]
  · exact beq_iff_eq.trans (and_mask_eq_iff valid _ _)

/-- The amount that the mask is shifted by. -/
theorem Cidr.shift_in_range (cidr : Cidr) :
    cidr.prefixLen = 0 ∨
      cidr.prefixLen ≤ cidr.network.width ∧
        cidr.network.width - cidr.prefixLen < cidr.network.width := by
  have hvalid := cidr.valid
  have hpos : 0 < cidr.network.width := by
    cases cidr.network <;> simp [IpAddr.width]
  omega

theorem Cidr.contains_of_longer {shorter longer : Cidr}
    (hnetwork : shorter.network = longer.network) (hlen : shorter.prefixLen ≤ longer.prefixLen)
    {ip : IpAddr} (h : longer.contains ip = true) : shorter.contains ip = true := by
  rw [contains_iff] at h ⊢
  rw [hnetwork]
  exact h.mono hlen

theorem Cidr.parse_eq_ok {text : String} {cidr : Cidr} (h : Cidr.parse text = .ok cidr) :
    ∃ addr, Cidr.parts (trim text.toList) = .ok (addr, cidr.prefixLen) ∧
      IpAddr.parse addr = some cidr.network := by
  simp only [Cidr.parse, bind, Except.bind] at h
  cases hparts : Cidr.parts (trim text.toList) with
  | error e => simp [hparts] at h
  | ok parts =>
      obtain ⟨addr, prefixLen⟩ := parts
      simp only [hparts] at h
      cases haddr : IpAddr.parse addr with
      | none => simp [haddr] at h
      | some network =>
          simp only [haddr] at h
          split at h
          · cases h
            exact ⟨addr, rfl, haddr⟩
          · cases h

/-- A range that was parsed contains the addresses of its family with its first bits. -/
theorem cidr_matches_by_bits (text : String) (cidr : Cidr) (h : Cidr.parse text = .ok cidr) :
    (∃ addr, Cidr.parts (trim text.toList) = .ok (addr, cidr.prefixLen) ∧
        IpAddr.parse addr = some cidr.network) ∧
      (∀ ip, cidr.contains ip = true ↔ cidr.network.SharesPrefix cidr.prefixLen ip) ∧
      (cidr.prefixLen = 0 ∨
        cidr.prefixLen ≤ cidr.network.width ∧
          cidr.network.width - cidr.prefixLen < cidr.network.width) ∧
      ∀ other shorter, Cidr.parse other = .ok shorter → shorter.network = cidr.network →
        shorter.prefixLen ≤ cidr.prefixLen →
          ∀ ip, cidr.contains ip = true → shorter.contains ip = true :=
  ⟨Cidr.parse_eq_ok h, cidr.contains_iff, cidr.shift_in_range, fun _ _ _ hnetwork hlen _ hip =>
    Cidr.contains_of_longer hnetwork hlen hip⟩

/-- A network with host bits set. -/
theorem cidr_matches_by_bits_eight :
    Cidr.parse "10.0.0.1/8" = .ok ⟨.v4 0x0A000001, 8, by decide⟩ ∧
      ∀ ip, (⟨.v4 0x0A000001, 8, by decide⟩ : Cidr).contains ip = true ↔
        (IpAddr.v4 0x0A000001).SharesPrefix 8 ip :=
  ⟨rfl, (cidr_matches_by_bits "10.0.0.1/8" _ rfl).2.1⟩

end Retracer
