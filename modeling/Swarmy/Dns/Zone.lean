import Swarmy.Codec.Utf8
import Swarmy.Js.Value

/-!
# Zones

What a zone contains: `composeZoneSnapshot` of `packages/dns/src/compose.ts` over the record types
of `packages/core/src/protocol/dns.ts`.  Web records come from the routes, all else is entered by
hand, and what is entered wins.
-/

namespace Swarmy.Dns

/-- Manual record types. -/
inductive DnsRecordType where
  | a
  | aaaa
  | cname
  | txt
  | mx
  | srv
  | caa
  | ns
deriving DecidableEq

def DnsRecordType.text : DnsRecordType → String
  | .a => "A"
  | .aaaa => "AAAA"
  | .cname => "CNAME"
  | .txt => "TXT"
  | .mx => "MX"
  | .srv => "SRV"
  | .caa => "CAA"
  | .ns => "NS"

structure StaticDnsRecord where
  name : String
  type : DnsRecordType
  value : String
  ttl : Option Nat
  priority : Option Nat
deriving DecidableEq

/-- The schema of a manual record. -/
def StaticDnsRecord.valid (r : StaticDnsRecord) : Bool :=
  r.name ≠ "" && r.value ≠ "" && r.ttl.all (0 < ·)

structure GeoEndpoint where
  nodeId : String
  region : String
  ip : String
  healthy : Bool
  weight : Option Js.Num
deriving DecidableEq

inductive GeoSource where
  | route
  | statusPage
  | webhook
  | aiOutlet
  | apex
  | www
deriving DecidableEq

structure GeoRecord where
  host : String
  maxAnswers : Nat
  endpoints : List GeoEndpoint
  source : GeoSource
deriving DecidableEq

structure ZoneNameserver where
  label : String
  fqdn : String
  ip : String
  nodeId : String
deriving DecidableEq

structure DnsSoa where
  mname : String
  rname : String
  refresh : Nat
  retry : Nat
  expire : Nat
  minimum : Nat
deriving DecidableEq

structure DnsZoneSnapshot where
  zone : String
  serial : Nat
  ttl : Nat
  soa : DnsSoa
  nameservers : List ZoneNameserver
  geoRecords : List GeoRecord
  staticRecords : List StaticDnsRecord
deriving DecidableEq

/-- A pinned nameserver node. -/
structure Advertised where
  nodeId : String
  ip : String

structure ZoneComposeInput where
  name : String
  ttl : Nat
  serial : Nat
  apexToEdge : Bool
  autoWww : Bool
  advertised : List Advertised
  autoHosts : List (String × Option GeoSource)
  endpoints : List GeoEndpoint
  manualRecords : List StaticDnsRecord
  maxAnswers : Option Nat

structure ComposeConflict where
  name : String
  type : String
  reason : String

structure ComposeResult where
  snapshot : DnsZoneSnapshot
  conflicts : List ComposeConflict

/-! ## Names -/

/-- `s.replace(/\.+$/, '')`. -/
def dropDots (s : String) : String := String.ofList (s.toList.reverse.dropWhile (· = '.')).reverse

section

variable (toLowerCase : String → String)

def normalize (name : String) : String := dropDots (toLowerCase name)

/-- A label of the zone as a full name; `@` is the apex. -/
def relativeToFqdn (name zone : String) : String :=
  let n := normalize toLowerCase name
  if n = "@" ∨ n = "" ∨ n = zone then zone else n ++ "." ++ zone

/-! ## Composition -/

def nameserversOf (zone : String) (advertised : List Advertised) : List ZoneNameserver :=
  advertised.mapIdx fun i node =>
    ⟨"ns" ++ toString (i + 1), "ns" ++ toString (i + 1) ++ "." ++ zone, node.ip, node.nodeId⟩

/-- Why a manual record is not kept. -/
def refusedRecord (zone : String) (r : StaticDnsRecord) : Option ComposeConflict :=
  let fqdn := relativeToFqdn toLowerCase (normalize toLowerCase r.name) zone
  if r.type = .cname ∧ fqdn = zone then
    some ⟨fqdn, "CNAME",
      "CNAME at the zone apex is invalid (RFC 1034) — the apex already resolves to the edge; " ++
      "record ignored."⟩
  else if r.type = .ns ∧ fqdn = zone then
    some ⟨fqdn, "NS", "Apex NS records are managed by the pinned nameserver set; record ignored."⟩
  else none

/-- A manual record with its name as the zone has it. -/
def keptRecord (zone : String) (r : StaticDnsRecord) : StaticDnsRecord :=
  let name := normalize toLowerCase r.name
  { r with name := if name = zone then "@" else name }

def manualOf (zone : String) (records : List StaticDnsRecord) : List StaticDnsRecord :=
  (records.filter fun r => (refusedRecord toLowerCase zone r).isNone).map
    (keptRecord toLowerCase zone)

/-- The types of the manual records of a name, each once. -/
def manualTypes (zone : String) (manual : List StaticDnsRecord) (fqdn : String) :
    List DnsRecordType :=
  Js.unique ((manual.filter fun r => relativeToFqdn toLowerCase r.name zone = fqdn).map (·.type))

/-- The records that steer, and the conflicts found so far. -/
structure GeoState where
  geo : List GeoRecord
  conflicts : List ComposeConflict

def addGeo (zone : String) (manual : List StaticDnsRecord) (maxAnswers : Nat)
    (endpoints : List GeoEndpoint)
    (s : GeoState) (host : String) (source : GeoSource) : GeoState :=
  let fqdn := normalize toLowerCase host
  if fqdn ≠ zone ∧ ¬ Js.endsWith fqdn ("." ++ zone) then s
  else if s.geo.any (·.host = fqdn) then s
  else
    let types := (manualTypes toLowerCase zone manual fqdn).filter (· ∈ [.a, .aaaa, .cname])
    if types ≠ [] then
      { s with conflicts := s.conflicts ++ [⟨fqdn, "+".intercalate (types.map DnsRecordType.text),
        "Manual address record overrides the automatic geo-steered answer for this host."⟩] }
    else { s with geo := s.geo ++ [⟨fqdn, maxAnswers, endpoints, source⟩] }

def composeZoneSnapshot (input : ZoneComposeInput) : ComposeResult :=
  let zone := normalize toLowerCase input.name
  let maxAnswers := max 1 (input.maxAnswers.getD 2)
  let nameservers := nameserversOf zone input.advertised
  let manual := manualOf toLowerCase zone input.manualRecords
  let add := addGeo toLowerCase zone manual maxAnswers input.endpoints
  let s : GeoState := ⟨[], input.manualRecords.filterMap (refusedRecord toLowerCase zone)⟩
  let s := if input.apexToEdge then add s zone .apex else s
  let s := input.autoHosts.foldl (fun s auto => add s auto.1 (auto.2.getD .route)) s
  let s := if input.autoWww then add s ("www." ++ zone) .www else s
  { snapshot :=
      { zone
        serial := input.serial
        ttl := input.ttl
        soa := ⟨(nameservers.head?.map (·.fqdn)).getD zone, "hostmaster." ++ zone, 7200,
          3600, 1209600,
          min input.ttl 300⟩
        nameservers
        geoRecords := s.geo.insertionSort (·.host ≤ ·.host)
        staticRecords := manual }
    conflicts := s.conflicts ++
      if input.endpoints = [] ∧ s.geo ≠ [] then
        [⟨zone, "A", "No ingress+outlet endpoints with a public IP exist yet — geo hosts will " ++
          "answer empty."⟩]
      else [] }

end

end Swarmy.Dns

/-!
## Answers

`answerQuery` of `packages/dns/src/answer.ts`: what the nameserver says to one question.  A chase of
CNAMEs asks again, so that the depth of questions is explicit; without a depth there is no answer.
The cases of letters, the numbers of texts and the order of endpoints by distance are parameters.
-/

namespace Swarmy.Dns

/-- A target that may be steered to. -/
structure SteerTarget where
  target : String
  region : String
  healthy : Bool
  weight : Option Js.Num

/-- What the answers rest on. -/
structure Host (Client : Type) where
  toLowerCase : String → String
  toUpperCase : String → String
  /-- `Number(s)`. -/
  number : String → Js.Num
  /-- `steer`'s order: the healthy first, then the near, the heavy, and by name. -/
  rank : Client → List SteerTarget → List SteerTarget
  /-- Whether the client could be located. -/
  located : Client → Bool

/-! ## Answers -/

inductive Rcode where
  | noError
  | nxDomain
  | refused
deriving DecidableEq

/-- The data of a record, by its shape. -/
inductive Data where
  | text (s : String)
  | texts (ss : List String)
  | mx (preference : Nat) (exchange : String)
  | srv (priority : Nat) (weight port : Js.Num) (target : String)
  | caa (flags : Js.Num) (tag value : String)
  | soa (mname rname : String) (serial refresh retry expire minimum : Nat)
  | hinfo (cpu os : String)
deriving DecidableEq

structure Answer where
  name : String
  type : String
  ttl : Nat
  data : Data
deriving DecidableEq

structure DnsAnswer where
  rcode : Rcode
  aa : Bool
  answers : List Answer
  authorities : List Answer
  additionals : List Answer
  steered : Bool
  degraded : Bool
deriving DecidableEq

structure Question where
  name : String
  type : Option String

/-! ## Records -/

def bytes (s : String) : List UInt8 := Utf8.encode s.toList

/-- Where a piece that may be so long ends: never inside a character. -/
@[grind =] def cutEnd (rest : List UInt8) : Nat → Nat
  | 0 => 0
  | n + 1 => if n + 1 < rest.length ∧ Utf8.isContinuation (rest.getD (n + 1) 0) = true then
    cutEnd rest n else n + 1

/-- The pieces of at most 255 bytes; a piece without bytes would be cut for ever. -/
@[grind =] def txtPieces : Nat → List UInt8 → Option (List (List UInt8))
  | _, [] => some []
  | 0, _ :: _ => none
  | fuel + 1, b :: rest =>
    let n := cutEnd (b :: rest) (min 255 (rest.length + 1))
    (txtPieces fuel ((b :: rest).drop n)).map ((b :: rest).take n :: ·)

def txtStrings (value : String) : List String :=
  if (bytes value).length ≤ 255 then [value]
  else ((txtPieces (bytes value).length (bytes value)).getD []).map fun piece =>
    String.ofList (Utf8.decode piece)

/-- `/^(\d+)\s+(\S+)\s+"?([^"]*)"?$/`: flags, tag and value. -/
def caaMatch (value : String) : Option (String × String × String) :=
  match value.toList.span Char.isDigit with
  | ([], _) => none
  | (flags, r) =>
    match r.span Js.isSpace with
    | ([], _) => none
    | (_, r) =>
      match r.span fun c => !Js.isSpace c with
      | ([], _) => none
      | (tag, r) =>
        match r.span Js.isSpace with
        | ([], _) => none
        | (_, r) =>
          let r := if r.head? = some '"' then r.tail else r
          if r.dropWhile (· ≠ '"') ∈ [[], ['"']] then
            some (.ofList flags, .ofList tag, .ofList (r.takeWhile (· ≠ '"')))
          else none

section

variable {Client : Type} (H : Host Client)

def lower (name : String) : String := dropDots (H.toLowerCase name)

/-- The longest zone that a name is in. -/
def findZone (zones : List DnsZoneSnapshot) (qname : String) : Option DnsZoneSnapshot :=
  let name := lower H qname
  zones.foldl (fun best zone =>
    if name = zone.zone ∨ Js.endsWith name ("." ++ zone.zone) then
      match best with
      | none => some zone
      | some b => if Js.length zone.zone > Js.length b.zone then some zone else some b
    else best) none

def soaAnswer (zone : DnsZoneSnapshot) : Answer :=
  ⟨zone.zone, "SOA", zone.soa.minimum,
    .soa zone.soa.mname zone.soa.rname zone.serial zone.soa.refresh zone.soa.retry
    zone.soa.expire zone.soa.minimum⟩

/-- The data of a manual record. -/
@[grind =] def staticData (r : StaticDnsRecord) : Data :=
  match r.type with
  | .mx => .mx (r.priority.getD 10) r.value
  | .txt => if (txtStrings r.value).length = 1 then .text r.value else .texts (txtStrings r.value)
  | .srv =>
    let pieces := (Js.splitSpaces r.value.toList).map String.ofList
    .srv (r.priority.getD 0) (H.number (pieces[0]?.getD "0")) (H.number (pieces[1]?.getD "0"))
      (pieces[2]?.getD "")
  | .caa =>
    let found := caaMatch r.value
    let tag := (found.map (·.2.1)).getD "issue"
    .caa (H.number ((found.map (·.1)).getD "0")) (if tag = "issuewild" ∨
      tag = "iodef" then tag else "issue")
      ((found.map (·.2.2)).getD r.value)
  | .ns | .cname | .aaaa | .a => .text r.value

def staticToAnswer (r : StaticDnsRecord) (zone : DnsZoneSnapshot) : Answer :=
  ⟨relativeToFqdn H.toLowerCase r.name zone.zone, r.type.text, r.ttl.getD zone.ttl, staticData H r⟩

/-! ## Names -/

structure NameView where
  geo : Option GeoRecord
  statics : List StaticDnsRecord
  isApex : Bool
  nsGlueIps : List String
  nameExists : Bool

/-- The manual records of a name. -/
def staticsOf (zone : DnsZoneSnapshot) (fqdn : String) : List StaticDnsRecord :=
  zone.staticRecords.filter fun r => relativeToFqdn H.toLowerCase r.name zone.zone = fqdn

def viewName (zone : DnsZoneSnapshot) (fqdn : String) : NameView :=
  let geo := zone.geoRecords.find? (·.host = fqdn)
  let statics := staticsOf H zone fqdn
  let nsGlueIps := (zone.nameservers.filter (·.fqdn = fqdn)).map (·.ip)
  let isApex := decide (fqdn = zone.zone)
  let suffix := "." ++ fqdn
  { geo
    statics
    isApex
    nsGlueIps
    nameExists := isApex || geo.isSome || !statics.isEmpty || !nsGlueIps.isEmpty ||
      zone.geoRecords.any (fun g => Js.endsWith g.host suffix) ||
      zone.nameservers.any (fun ns => Js.endsWith ns.fqdn suffix) ||
      zone.staticRecords.any fun r =>
        Js.endsWith (relativeToFqdn H.toLowerCase r.name zone.zone) suffix }

/-- What follows each dot. -/
def parents : List Char → List (List Char)
  | [] => []
  | c :: cs => if c = '.' then cs :: parents cs else parents cs

/-- The wildcard of the nearest ancestor that exists. -/
def encloser (zone : DnsZoneSnapshot) : List String → Option (String × NameView)
  | [] => none
  | name :: names =>
    if name ≠ zone.zone ∧ ¬ Js.endsWith name ("." ++ zone.zone) then none
    else if ¬ (viewName H zone name).nameExists then if name = zone.zone then none
      else encloser zone names
    else
      let view := viewName H zone ("*." ++ name)
      if view.geo.isSome ∨ view.statics ≠ [] then some ("*." ++ name, view) else none

def wildcardFor (zone : DnsZoneSnapshot) (qname : String) : Option (String × NameView) :=
  if qname = zone.zone then none else encloser H zone ((parents qname.toList).map String.ofList)

/-! ## Resolution -/

/-- What `steerGeo` gives. -/
structure Steered where
  ips : List String
  steered : Bool
  degraded : Bool

def steerGeo (geo : GeoRecord) (client : Client) : Steered :=
  let targets : List SteerTarget := geo.endpoints.map fun e => ⟨e.ip, e.region, e.healthy, e.weight⟩
  if targets = [] then ⟨[], false, false⟩
  else
    let ranked := H.rank client targets
    let healthy := ranked.filter (·.healthy)
    let degraded := decide (healthy = []) && decide (ranked ≠ [])
    let pool := if degraded then ranked else healthy
    ⟨(pool.take (max 1 geo.maxAnswers)).map (·.target), H.located client, degraded⟩

structure Opts where
  rcode : Rcode := .noError
  authorities : Option (List Answer) := none
  additionals : List Answer := []
  steered : Bool := false
  degraded : Bool := false

def respond (zone : DnsZoneSnapshot) (answers : List Answer) (opts : Opts) : DnsAnswer :=
  { rcode := opts.rcode
    aa := true
    answers
    authorities := opts.authorities.getD (if answers = [] then [soaAnswer zone] else [])
    additionals := opts.additionals
    steered := opts.steered
    degraded := opts.degraded }

def qtypeOf (question : Question) : String := (question.type.map H.toUpperCase).getD "A"

/-- The manual records of one type. -/
def staticAnswers (zone : DnsZoneSnapshot) (view : NameView) (type : DnsRecordType) : List Answer :=
  (view.statics.filter (·.type = type)).map fun r => staticToAnswer H r zone

/-- The answers to a question for addresses that are not entered by hand. -/
def autoAnswers (zone : DnsZoneSnapshot) (qname : String) (client : Client) (view : NameView) :
    List Answer :=
  ((view.geo.map fun geo => (steerGeo H geo client).ips).getD [] ++ view.nsGlueIps).map fun ip =>
    ⟨qname, "A", zone.ttl, .text ip⟩

/-- The manual CNAME of a name that a question of this type follows. -/
def cnameOf (view : NameView) (qtype : String) : Option StaticDnsRecord :=
  if qtype = "CNAME" then none else view.statics.find? (·.type = .cname)

/-- A CNAME's target within the zone. -/
def inZoneTarget (zone : DnsZoneSnapshot) (cname : StaticDnsRecord) : Option String :=
  let target := lower H cname.value
  if target = zone.zone ∨ Js.endsWith target ("." ++ zone.zone) then some target else none

/-- The answer of a name that exists to a question of a type that it hosts. -/
def answerType (zone : DnsZoneSnapshot) (qname qtype : String) (client : Client) (view : NameView) :
    DnsAnswer :=
  if qtype = "A" then
    let geo := view.geo.map fun geo => steerGeo H geo client
    respond zone (autoAnswers H zone qname client view ++ staticAnswers H zone view .a)
      { steered := (geo.map (·.steered)).getD false, degraded := (geo.map (·.degraded)).getD false }
  else if qtype = "AAAA" then respond zone (staticAnswers H zone view .aaaa) {}
  else if qtype = "NS" then
    if view.isApex then
      respond zone (zone.nameservers.map fun ns => ⟨zone.zone, "NS", zone.ttl, .text ns.fqdn⟩)
        { additionals := zone.nameservers.map fun ns => ⟨ns.fqdn, "A", zone.ttl, .text ns.ip⟩ }
    else respond zone (staticAnswers H zone view .ns) {}
  else if qtype = "SOA" then
    if view.isApex then respond zone [soaAnswer zone] { authorities := some [] }
      else respond zone [] {}
  else
    match [DnsRecordType.mx, .txt, .srv, .caa, .cname].find? (·.text = qtype) with
    | some type => respond zone (staticAnswers H zone view type) {}
    | none => respond zone [] {}

/-- The answer of a name that exists; `chase` asks for a CNAME's target. -/
@[grind =] def answerExisting (chase : String → Option DnsAnswer) (zone : DnsZoneSnapshot)
    (qname : String)
    (question : Question) (client : Client) (view : NameView) : Option DnsAnswer :=
  let qtype := qtypeOf H question
  if qtype = "ANY" then some (respond zone [⟨qname, "HINFO", zone.ttl, .hinfo "RFC8482" ""⟩] {})
  else
    match cnameOf view qtype with
    | none => some (answerType H zone qname qtype client view)
    | some cname =>
      match inZoneTarget H zone cname with
      | none => some (respond zone [staticToAnswer H cname zone] { authorities := some [] })
      | some target => (chase target).map fun chased =>
          respond zone (staticToAnswer H cname zone :: chased.answers)
            { steered := chased.steered, degraded := chased.degraded, authorities := some [] }

def refused : DnsAnswer := ⟨.refused, false, [], [], [], false, false⟩

/-- An answer of the wildcard's is given in the name that was asked for. -/
def synthesize (owner qname : String) (a : DnsAnswer) : DnsAnswer :=
  { a with answers := a.answers.map fun x =>
    if lower H x.name = owner then { x with name := qname } else x }

@[grind =] def answerQuery : Nat → List DnsZoneSnapshot → Question → Client → Option DnsAnswer
  | 0, _, _, _ => none
  | depth + 1, zones, question, client =>
    let qname := lower H question.name
    match findZone H zones qname with
    | none => some refused
    | some zone =>
      let chase := fun target => answerQuery depth [zone] ⟨target, question.type⟩ client
      let view := viewName H zone qname
      if view.nameExists then answerExisting H chase zone qname question client view
      else
        match wildcardFor H zone qname with
        | none => some (respond zone [] { rcode := .nxDomain })
        | some (owner, view) =>
          (answerExisting H chase zone qname question client view).map (synthesize H owner qname)

end

end Swarmy.Dns
