import Retracer.Auth.Cidr

/-! # Whose request it is

The limiter counts a request for the peer of the connection, or for the left-most entry of
`X-Forwarded-For` when that peer is a trusted proxy. A proxy that appends leaves the
left-most entry to the client.
-/

namespace Retracer

/-! ## Trusted proxies -/

structure TrustedProxies where
  entries : List Cidr

namespace TrustedProxies

/-- A comma-separated list, in which blank entries are skipped. -/
def parseList (raw : String) : Except CidrError TrustedProxies :=
  (((raw.toList.splitOn ',').filter fun s => !(trim s).isEmpty).mapM fun s =>
    Cidr.parse (String.ofList s)).map TrustedProxies.mk

def contains (trusted : TrustedProxies) (ip : IpAddr) : Bool :=
  trusted.entries.any fun cidr => cidr.contains ip

def isEmpty (trusted : TrustedProxies) : Bool := trusted.entries.isEmpty

example : (parseList " , ").map isEmpty = .ok true := rfl

end TrustedProxies

/-! ## The effective address -/

/-- `split(',').next()`, trimmed. -/
def leftMost (forwardedFor : String) : List Char :=
  trim (forwardedFor.toList.takeWhile (· ≠ ','))

/-- Everything but an address from a trusted peer falls back to the peer. -/
def clientIp (peer : IpAddr) (forwardedFor : Option String) (trusted : Option TrustedProxies) :
    IpAddr :=
  match trusted with
  | none => peer
  | some trusted =>
      if !trusted.contains peer then peer
      else ((forwardedFor.map leftMost).bind IpAddr.parse).getD peer

abbrev HeaderValue := List UInt8

/-- `HeaderValue::to_str`, which takes visible ASCII: two values in a row are a text exactly if
both are, and a comma and a space are one. -/
class HeaderText where
  toStr : HeaderValue → Option String
  toStr_append : ∀ a b, toStr (a ++ b) = (toStr a).bind fun s => (toStr b).map fun t => s ++ t
  toStr_comma : toStr [44, 32] = some ", "

def HeaderValue.toStr [HeaderText] (value : HeaderValue) : Option String := HeaderText.toStr value

/-- Visible ASCII, spaces and tabs. -/
def visibleText (value : HeaderValue) : Option String :=
  if value.all fun b => (32 ≤ b && b < 127) || b == 9 then
    some (String.ofList (value.map fun b => Char.ofNat b.toNat))
  else none

theorem visibleText_append (a b : HeaderValue) :
    visibleText (a ++ b) = (visibleText a).bind fun s => (visibleText b).map fun t => s ++ t := by
  unfold visibleText
  rw [List.all_append]
  by_cases ha : a.all fun b => (32 ≤ b && b < 127) || b == 9
  · by_cases hb : b.all fun b => (32 ≤ b && b < 127) || b == 9
    · simp [ha, hb, String.ofList_append]
    · simp [ha, hb]
  · simp [ha]

@[reducible] def HeaderText.visibleAscii : HeaderText where
  toStr := visibleText
  toStr_append := visibleText_append
  toStr_comma := by decide

/-! ## A proxy that appends -/

/-- The header that a proxy sends on: what came, if anything, and its own entry. -/
def appendEntry (supplied : Option HeaderValue) (entry : HeaderValue) : HeaderValue :=
  match supplied with
  | none => entry
  | some value => value ++ [44, 32] ++ entry

/-- The address that the left-most entry of a header is. -/
def namedBy [HeaderText] (value : HeaderValue) : Option IpAddr :=
  value.toStr.bind fun text => IpAddr.parse (leftMost text)

theorem leftMost_append_comma (s t : String) : leftMost (s ++ ", " ++ t) = leftMost s := by
  have hlist : (s ++ ", " ++ t).toList = s.toList ++ ',' :: (' ' :: t.toList) := by
    simp [String.toList_append]
  rw [leftMost, leftMost, hlist]
  congr 1
  induction s.toList with
  | nil => rfl
  | cons c cs ih =>
      by_cases hc : c = ','
      · simp [hc]
      · simp only [List.cons_append, List.takeWhile_cons, hc, ne_eq, not_false_eq_true,
          decide_true, if_true]
        rw [← ih]

theorem namedBy_appendEntry [HeaderText] (value : HeaderValue) {entry : HeaderValue}
    (hentry : entry.toStr.isSome) : namedBy (appendEntry (some value) entry) = namedBy value := by
  obtain ⟨text, htext⟩ := Option.isSome_iff_exists.mp hentry
  have hread : HeaderText.toStr entry = some text := htext
  simp only [namedBy, appendEntry, HeaderValue.toStr, HeaderText.toStr_append,
    HeaderText.toStr_comma, hread]
  cases HeaderText.toStr value with
  | none => rfl
  | some s => simp [leftMost_append_comma]

section

variable {trusted : TrustedProxies}

/-- Whoever is not a trusted proxy is itself. -/
theorem clientIp_direct {client : IpAddr} (h : trusted.contains client = false)
    (forwardedFor : Option String) : clientIp client forwardedFor (some trusted) = client := by
  simp [clientIp, h]

theorem clientIp_proxied [HeaderText] {proxy : IpAddr} (h : trusted.contains proxy = true)
    (value : HeaderValue) :
    clientIp proxy value.toStr (some trusted) = (namedBy value).getD proxy := by
  simp only [clientIp, h, Bool.not_true, Bool.false_eq_true, if_false, namedBy]
  cases value.toStr <;> rfl

/-- A client that connects directly is itself, whatever it sends. Behind a trusted proxy it
is the address that its own left-most entry names, else the proxy, and it is itself if it
sends no header. -/
theorem client_ip_attribution [HeaderText] {client : IpAddr}
    (houtside : trusted.contains client = false) :
    (∀ supplied : Option HeaderValue,
        clientIp client (supplied.bind HeaderValue.toStr) (some trusted) = client) ∧
      ∀ proxy, trusted.contains proxy = true → ∀ entry, namedBy entry = some client →
        clientIp proxy (appendEntry none entry).toStr (some trusted) = client ∧
          ∀ value : HeaderValue,
            clientIp proxy (appendEntry (some value) entry).toStr (some trusted) =
              (namedBy value).getD proxy := by
  refine ⟨fun supplied => clientIp_direct houtside _, fun proxy hproxy entry hentry => ?_⟩
  have htext : entry.toStr.isSome := by
    rw [namedBy] at hentry
    cases htext : entry.toStr with
    | none =>
        rw [htext] at hentry
        cases hentry
    | some text => rfl
  constructor
  · rw [clientIp_proxied hproxy, appendEntry, hentry]
    rfl
  · intro value
    rw [clientIp_proxied hproxy, namedBy_appendEntry value htext]

end

/-! ## One client in two buckets -/

def headerOf (text : String) : HeaderValue := text.toList.map fun c => UInt8.ofNat c.toNat

/-- `10.0.0.0/8`. -/
def privateProxies : TrustedProxies := ⟨[⟨.v4 0x0A000000, 8, by decide⟩]⟩

/-- Both connection paths of `203.0.113.7`. -/
theorem client_ip_attribution_private_proxies :
    clientIp (.v4 0xCB007107) ((some (headerOf "1.1.1.1")).bind visibleText)
        (some privateProxies) = .v4 0xCB007107 ∧
      clientIp (.v4 0x0A000008)
        (visibleText (appendEntry (some (headerOf "1.1.1.1")) (headerOf "203.0.113.7")))
          (some privateProxies) = .v4 0x01010101 := by
  have houtside : privateProxies.contains (.v4 0xCB007107) = false := by decide
  have hclient := @client_ip_attribution privateProxies .visibleAscii _ houtside
  have hproxied := (hclient.2 (.v4 0x0A000008) (by decide) (headerOf "203.0.113.7")
    (by decide)).2 (headerOf "1.1.1.1")
  exact ⟨hclient.1 _, hproxied.trans (by decide)⟩

/-- The proxy `10.0.0.8` appends the address of the client behind what the client made up. -/
theorem client_ip_chosen_by_client :
    ¬ ∀ (trusted : TrustedProxies) (client : IpAddr), trusted.contains client = false →
      (∀ a b : Option HeaderValue,
          clientIp client (a.bind visibleText) (some trusted) =
            clientIp client (b.bind visibleText) (some trusted)) ∧
        ∀ proxy, trusted.contains proxy = true →
          ∀ entry, @namedBy .visibleAscii entry = some client →
            ∀ a b : Option HeaderValue,
              clientIp proxy (visibleText (appendEntry a entry)) (some trusted) =
                clientIp proxy (visibleText (appendEntry b entry)) (some trusted) := by
  intro h
  have hsame := (h privateProxies (.v4 0xCB007107) (by decide)).2 (.v4 0x0A000008) (by decide)
    (headerOf "203.0.113.7") (by decide) (some (headerOf "1.1.1.1")) (some (headerOf "2.2.2.2"))
  revert hsame
  decide

end Retracer
