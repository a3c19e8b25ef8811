import Mathlib
import Swarmy.Net.Address
import Swarmy.Js.Value

/-!
# The guard on upstream URLs

The URL of a provider is checked right before each call: its form, the name of its host and
every address the host resolves to.  The call then resolves the host again.  Reading a URL
is a parameter; the host of one that is read is an address in its canonical text, or a
name that is no number.
-/

namespace Swarmy.Ai

open Net

/-! ## Reading an address -/

/-- `/^\d{1,3}$/`. -/
def isOctet (p : List Char) : Bool := 0 < p.length && p.length ≤ 3 && p.all Char.isDigit

def parseIPv4 (s : List Char) : Option (List Nat) :=
  let parts := s.splitOn '.'
  if parts.length = 4 then
    parts.mapM fun p => if isOctet p && decValue p ≤ 255 then some (decValue p) else none
  else none

/-- `s.split('::')`. -/
def splitDouble : List Char → List (List Char)
  | [] => [[]]
  | [c] => [[c]]
  | c :: d :: rest =>
    if c = ':' ∧ d = ':' then [] :: splitDouble rest
    else (splitDouble (d :: rest)).modifyHead (c :: ·)

/-- `/^[0-9a-f]{1,4}$/`. -/
def isGroup (g : List Char) : Bool :=
  0 < g.length && g.length ≤ 4 && g.all fun c => c.isDigit || ('a' ≤ c && c ≤ 'f')

def toGroups (h : List Char) : Option (List Nat) :=
  if h = [] then some []
  else (h.splitOn ':').mapM fun g => if isGroup g then some (hexValue g) else none

/-- The groups of a text with no dotted tail. -/
def readGroups (s : List Char) : Option (List Nat) :=
  match splitDouble s with
  | [h] => (toGroups h).bind fun head => if head.length = 8 then some head else none
  | [h, r] =>
    (toGroups h).bind fun head => (toGroups r).bind fun rest =>
      let known := head.length + rest.length
      if known > 7 then none else some (head ++ List.replicate (8 - known) 0 ++ rest)
  | _ => none

/-- Up to the last colon. -/
def upToColon (s : List Char) : List Char := (s.reverse.dropWhile (· ≠ ':')).reverse

/-- What follows the last colon. -/
def afterColon (s : List Char) : List Char := (s.reverse.takeWhile (· ≠ ':')).reverse

/-- A dotted tail as two groups in hexadecimal. -/
def rewriteQuad (s : List Char) : Option (List Char) :=
  if '.' ∈ afterColon s then
    (parseIPv4 (afterColon s)).map fun v4 =>
      upToColon s ++ Nat.toDigits 16 ((v4.getD 0 0 <<< 8) ||| v4.getD 1 0) ++
        ':' :: Nat.toDigits 16 ((v4.getD 2 0 <<< 8) ||| v4.getD 3 0)
  else some s

def parseIPv6 (input : List Char) : Option (List Nat) :=
  let s := (input.map Char.toLower).takeWhile (· ≠ '%')
  if ':' ∈ s then (rewriteQuad s).bind readGroups else none

/-! ## Which addresses are blocked -/

def v4Blocked (b : List Nat) : Option String :=
  let a := b.getD 0 0
  let c := b.getD 1 0
  if a = 0 then some "unspecified address"
  else if a = 10 then some "private address (10/8)"
  else if a = 127 then some "loopback address"
  else if a = 169 ∧ c = 254 then some "link-local / metadata address"
  else if a = 172 ∧ c ≥ 16 ∧ c ≤ 31 then some "private address (172.16/12)"
  else if a = 192 ∧ c = 168 then some "private address (192.168/16)"
  else if a = 100 ∧ c ≥ 64 ∧ c ≤ 127 then some "carrier-grade NAT address (100.64/10)"
  else if a = 192 ∧ c = 0 ∧ b.getD 2 0 = 0 then some "IETF protocol address (192.0.0/24)"
  else if a = 198 ∧ (c = 18 ∨ c = 19) then some "benchmarking address (198.18/15)"
  else if a ≥ 224 then some "multicast / reserved address"
  else none

/-- The four bytes of the last two groups. -/
def embedded (g : List Nat) : List Nat :=
  [g.getD 6 0 >>> 8, g.getD 6 0 &&& 0xff, g.getD 7 0 >>> 8, g.getD 7 0 &&& 0xff]

def v6Blocked (g : List Nat) : Option String :=
  if g.all (· = 0) then some "unspecified address"
  else if (g.take 7).all (· = 0) ∧ g.getD 7 0 = 1 then some "loopback address"
  else if (g.take 5).all (· = 0) ∧ (g.getD 5 0 = 0xffff ∨ g.getD 5 0 = 0) then
    v4Blocked (embedded g)
  else if g.getD 0 0 = 0x64 ∧ g.getD 1 0 = 0xff9b ∧ ((g.take 6).drop 2).all (· = 0) then
    v4Blocked (embedded g)
  else if g.getD 0 0 &&& 0xffc0 = 0xfe80 then some "link-local address (fe80::/10)"
  else if g.getD 0 0 &&& 0xffc0 = 0xfec0 then some "site-local address (fec0::/10)"
  else if g.getD 0 0 &&& 0xfe00 = 0xfc00 then some "unique-local address (fc00::/7)"
  else if g.getD 0 0 &&& 0xff00 = 0xff00 then some "multicast address"
  else none

def blockedAddressReason (ip : List Char) : Option String :=
  match parseIPv4 ip with
  | some v4 => v4Blocked v4
  | none =>
    match parseIPv6 ip with
    | none => some "unparseable address"
    | some g => v6Blocked g

/-! ## The URL -/

/-- The code's `replace(/\.$/, '')`. -/
def stripDot (s : List Char) : List Char := if s.getLast? = some '.' then s.dropLast else s

/-- A name that a URL can have as its host. -/
structure Domain where
  text : List Char
  lower : text.map Char.toLower = text
  noColon : ':' ∉ text
  noBracket : '[' ∉ text ∧ ']' ∉ text
  noNumber : ∀ labels last, (stripDot text).splitOn '.' = labels ++ [last] →
    last ≠ [] → last.all Char.isDigit = false

/-- The host of a URL that was read. -/
inductive Host where
  | ipv4 (q : Quad)
  | ipv6 (t : Text6) (valid : t.Valid) (zone : t.zone = none)
    (lower : t.text.map Char.toLower = t.text)
  | domain (d : Domain)

/-- As a URL is serialised. -/
def Host.text : Host → List Char
  | .ipv4 q => q.text
  | .ipv6 t _ _ _ => '[' :: (t.text ++ [']'])
  | .domain d => d.text

structure Url where
  protocol : String
  username : String
  password : String
  hash : String
  search : String
  hostname : Host

structure CheckProviderUrlOptions where
  allowHosts : List (List Char)
  allowQuery : Bool

/-- The code's `replace(/^\[|\]$/g, '')`. -/
def stripBrackets (s : List Char) : List Char :=
  let s := if s.head? = some '[' then s.tail else s
  if s.getLast? = some ']' then s.dropLast else s

def BLOCKED_NAMES : List (List Char) :=
  ["localhost", "localhost.localdomain", "ip6-localhost", "ip6-loopback", "metadata",
    "metadata.google.internal", "metadata.goog", "instance-data",
    "instance-data.ec2.internal"].map String.toList

scoped instance instLawfulBEqHost : LawfulBEq (List Char) := inferInstance

def isInternal (host : List Char) : Bool :=
  host ∈ BLOCKED_NAMES || ".localhost".toList.isSuffixOf host || ".internal".toList.isSuffixOf host

/-- The name the checks are about. -/
def Url.host (url : Url) : List Char :=
  stripDot (stripBrackets (url.hostname.text.map Char.toLower))

/-- The checks on the form of the URL: the first that fails. -/
def formRefusal (raw : String) (opts : CheckProviderUrlOptions) (url : Url) : Option String :=
  if url.protocol ≠ "https:" ∧ url.protocol ≠ "http:" then some "only http(s) URLs are allowed"
  else if url.username ≠ "" ∨ url.password ≠ "" then some "credentials in the URL are not allowed"
  else if url.hash ≠ "" ∨ '#' ∈ raw.toList then some "a URL fragment is not allowed"
  else if opts.allowQuery = false ∧ (url.search ≠ "" ∨ '?' ∈ raw.toList) then
    some "a query string is not allowed"
  else if url.host = [] then some "missing host"
  else none

/-- A look-up of a name; it can fail. -/
abbrev HostResolver := List Char → Option (List (List Char))

/-- The addresses of a host that is checked. -/
def addressesOf (resolve : HostResolver) (host : List Char) : Except String (List (List Char)) :=
  if (parseIPv4 host).isSome ∨ (parseIPv6 host).isSome then .ok [host]
  else
    match resolve host with
    | none | some [] => .error ("host \"" ++ String.ofList host ++ "\" does not resolve")
    | some addresses => .ok addresses

def checkProviderUrl (parseUrl : String → Option Url) (resolve : HostResolver) (raw : String)
    (opts : CheckProviderUrlOptions) : Except String Url :=
  match parseUrl raw with
  | none => .error "not a valid URL"
  | some url =>
    match formRefusal raw opts url with
    | some reason => .error reason
    | none =>
      if url.host ∈ opts.allowHosts.map (·.map Char.toLower) then .ok url
      else if isInternal url.host then
        .error ("host \"" ++ String.ofList url.host ++ "\" is internal")
      else
        (addressesOf resolve url.host).bind fun addresses =>
          match addresses.findSome? blockedAddressReason with
          | some why =>
            .error ("host \"" ++ String.ofList url.host ++ "\" resolves to a " ++ why)
          | none => .ok url

/-! ## The call -/

/-- One call of a provider: the deployed hosts of the organisation, and when the host is
looked up, first by the guard and then by the call. -/
structure Call where
  url : String
  allowHosts : List (List Char)
  guardedAt : Nat
  fetchedAt : Nat

/-- The resolver, over time. -/
abbrev Resolver := Nat → HostResolver

def upstreamRefusal (parseUrl : String → Option Url) (resolve : Resolver) (x : Call) :
    Option String :=
  match checkProviderUrl parseUrl (resolve x.guardedAt) x.url ⟨x.allowHosts, true⟩ with
  | .ok _ => none
  | .error reason => some reason

/-- The addresses `upstreamFetch` may connect to.  No redirect is followed. -/
def upstreamFetch (resolve : Resolver) (x : Call) (url : Url) : List (List Char) :=
  match url.hostname with
  | .ipv4 q => [q.text]
  | .ipv6 t _ _ _ => [t.text]
  | .domain d => (resolve x.fetchedAt d.text).getD []

end Swarmy.Ai
