import Swarmy.Mail.Smtp

/-!
# Reports

The parser of MIME messages, and that of delivery reports and complaints on it.  Decoding of
Base64 and UTF-8, and lower case, are the library's.
-/

namespace Mail

open Js

/-- The functions of the standard library: `toLowerCase`, `Buffer.from(s, 'base64')` and
`Buffer.from(s, 'latin1')` as UTF-8. -/
structure Library where
  toLowerCase : Text → Text
  base64 : Text → Text
  latin1 : Text → Text

variable (lib : Library)

/-! ## Texts -/

/-- `s.trim()`. -/
def trim (t : Text) : Text := ((t.dropWhile isSpace).reverse.dropWhile isSpace).reverse

/-- `s.split(/\r?\n/)`. -/
def splitLines (t : Text) : List Text :=
  let p := Codec.cut '\n' t
  p.1.map Session.chomp ++ [p.2]

/-- What is before and behind the first `c`. -/
def splitAt (c : Char) (t : Text) : Option (Text × Text) :=
  if c ∈ t then some (t.takeWhile (· ≠ c), (t.dropWhile (· ≠ c)).drop 1) else none

/-- The rest behind `\r?\n`. -/
def afterNewline : Text → Option Text
  | '\r' :: '\n' :: cs => some cs
  | '\n' :: cs => some cs
  | _ => none

/-- What is before and behind the first `\r?\n\r?\n`. -/
def splitHead : Text → Option (Text × Text)
  | [] => none
  | c :: cs =>
    match (afterNewline (c :: cs)).bind afterNewline with
    | some rest => some ([], rest)
    | none => (splitHead cs).map fun p => (c :: p.1, p.2)

/-- `/<([^>]+)>/.exec(t)`. -/
def angleMatch : Text → Option Text
  | [] => none
  | c :: cs =>
    if c = '<' ∧ cs.head? ≠ some '>' ∧ '>' ∈ cs then some (cs.takeWhile (· ≠ '>'))
    else angleMatch cs

/-- A header's address: what is in angle brackets, or all of it. -/
def angleOf (t : Text) : Text := trim ((angleMatch t).getD t)

/-! ## Headers -/

/-- Names in lower case and values, in order. -/
abbrev MimeHeaders := List (Text × Text)

namespace MimeHeaders

def all (h : MimeHeaders) (name : String) : List Text :=
  (h.filter fun p => p.1 = name.toList).map Prod.snd

def get (h : MimeHeaders) (name : String) : Option Text := (h.all name).head?

/-- A continuation line appends to the last value. -/
def unfoldLine (h : MimeHeaders) (line : Text) : MimeHeaders :=
  match h.getLast? with
  | some (name, v) => h.dropLast ++ [(name, v ++ ' ' :: trim line)]
  | none => h

end MimeHeaders

def isContinuation (line : Text) : Bool := line.head?.any fun c => c = ' ' || c = '\t'

/-- One line of a header block. -/
def headerLine (h : MimeHeaders) (line : Text) : MimeHeaders :=
  if isContinuation line ∧ h.getLast?.any (fun p => p.1 ≠ []) then h.unfoldLine line
  else
    match splitAt ':' line with
    | some (name, v) => if name = [] then h else h ++ [(lib.toLowerCase (trim name), trim v)]
    | none => h

def parseHeaderBlock (block : Text) : MimeHeaders := (splitLines block).foldl (headerLine lib) []

/-- `replace(/^"(.*)"$/, '$1')`. -/
def unquote (t : Text) : Text :=
  let inner := (t.drop 1).dropLast
  if t.length ≥ 2 ∧ t.head? = some '"' ∧ t.getLast? = some '"' ∧
    inner.all (fun c => !isLineTerminator c)
  then inner else t

structure ContentType where
  type : Text
  params : List (Text × Text)

def parseContentType (value : Option Text) : ContentType :=
  let parts := (value.getD "text/plain".toList).splitOn ';'
  { type := lib.toLowerCase (trim (parts.headD []))
    params := (parts.drop 1).filterMap fun p =>
      (splitAt '=' p).map fun (k, v) => (lib.toLowerCase (trim k), unquote (trim v)) }

/-- The last assignment counts. -/
def ContentType.boundary (c : ContentType) : Option Text :=
  ((c.params.reverse.lookup "boundary".toList)).filter (· ≠ [])

/-! ## Bodies -/

def hexDigit (c : Char) : Option Nat :=
  if c.isDigit then some (c.toNat - 48)
  else if 'A' ≤ c ∧ c ≤ 'F' then some (c.toNat - 55)
  else if 'a' ≤ c ∧ c ≤ 'f' then some (c.toNat - 87)
  else none

/-- `replace(/=([0-9A-F]{2})/gi, …)`. -/
def decodeHex : Text → Text
  | '=' :: a :: b :: cs =>
    match hexDigit a, hexDigit b with
    | some x, some y => Char.ofNat (16 * x + y) :: decodeHex cs
    | _, _ => '=' :: decodeHex (a :: b :: cs)
  | c :: cs => c :: decodeHex cs
  | [] => []

/-- `replace(/=\r?\n/g, '')`. -/
def joinSoft : Text → Text
  | '=' :: '\r' :: '\n' :: cs => joinSoft cs
  | '=' :: '\n' :: cs => joinSoft cs
  | c :: cs => c :: joinSoft cs
  | [] => []

def decodeBody (body : Text) (encoding : Option Text) : Text :=
  let enc := lib.toLowerCase (trim (encoding.getD []))
  if enc = "base64".toList then lib.base64 (body.filter fun c => !isSpace c)
  else if enc = "quoted-printable".toList then lib.latin1 (decodeHex (joinSoft body))
  else body

/-! ## Parts -/

/-- The rest behind `--`, the boundary, and the end of its line; whether `--` followed. -/
def afterBoundary (b t : Text) : Option (Bool × Text) :=
  let delim := '-' :: '-' :: b
  if delim.isPrefixOf t then
    let rest := t.drop delim.length
    let final := ['-', '-'].isPrefixOf rest
    let rest := (if final then rest.drop 2 else rest).dropWhile fun c => c = ' ' || c = '\t'
    let rest := if rest.head? = some '\r' then rest.drop 1 else rest
    some (final, if rest.head? = some '\n' then rest.drop 1 else rest)
  else none

/-- `\r?\n?` in front of a boundary. -/
def atBoundary (b : Text) : Text → Option (Bool × Text)
  | '\r' :: '\n' :: cs => afterBoundary b cs
  | '\r' :: cs => afterBoundary b cs
  | '\n' :: cs => afterBoundary b cs
  | cs => afterBoundary b cs

/-- The pieces of `split` at the boundary, with its group between them; the text is passed with
a bound on its length. -/
def splitBoundary (b : Text) : Nat → Text → Text → List (Option Text)
  | 0, piece, t => [some (piece.reverse ++ t)]
  | _ + 1, piece, [] => [some piece.reverse]
  | n + 1, piece, c :: cs =>
    match atBoundary b (c :: cs) with
    | some (final, rest) =>
      some piece.reverse :: (if final then some ['-', '-'] else none) :: splitBoundary b n [] rest
    | none => splitBoundary b n (c :: piece) cs

/-- The pieces that are parsed: none behind the preamble that is missing or `--`, and no last
one that is blank. -/
def partPieces (pieces : List (Option Text)) : List Text :=
  let parts := (pieces.drop 1).dropLast ++
    if pieces.length ≤ 1 then []
    else [(pieces.getLast?.bind id).filter fun t => t.any fun c => !isSpace c]
  (parts.filterMap id).filter (· ≠ ['-', '-'])

inductive MimePart where
  | mk (headers : MimeHeaders) (contentType body : Text) (parts : List MimePart)

namespace MimePart

def contentType : MimePart → Text
  | mk _ t _ _ => t

def body : MimePart → Text
  | mk _ _ b _ => b

mutual

/-- Depth first. -/
def findPart (type : Text) : MimePart → Option MimePart
  | mk h t b ps => if t = type then some (mk h t b ps) else findParts type ps

def findParts (type : Text) : List MimePart → Option MimePart
  | [] => none
  | p :: ps =>
    match findPart type p with
    | some hit => some hit
    | none => findParts type ps

end

end MimePart

/-- `parseMime`, with how much deeper parts may be. -/
def parseMimeAt : Nat → Text → MimePart
  | left, raw =>
    let (headBlock, bodyRaw) := (splitHead raw).getD (raw, [])
    let headers := parseHeaderBlock lib headBlock
    let ct := parseContentType lib (headers.get "content-type")
    let leaf := MimePart.mk headers ct.type
      (decodeBody lib bodyRaw (headers.get "content-transfer-encoding")) []
    match left, ct.boundary with
    | left + 1, some b =>
      if "multipart/".toList.isPrefixOf ct.type then
        .mk headers ct.type []
          ((partPieces (splitBoundary b bodyRaw.length [] bodyRaw)).map (parseMimeAt left))
      else leaf
    | _, _ => leaf

def parseMime (raw : Text) : MimePart := parseMimeAt lib 8 raw

/-! ## Encoded words -/

/-- An encoded word `=?charset?B?text?=` at the start: its decoding, and what follows. -/
def encodedWord (t : Text) : Option (Text × Text) :=
  match t with
  | '=' :: '?' :: rest => do
      let (charset, rest) ← splitAt '?' rest
      let (enc, rest) ← splitAt '?' rest
      let (word, rest) ← splitAt '?' rest
      if charset = [] ∨ rest.head? ≠ some '=' then none
      else if enc = ['B'] ∨ enc = ['b'] then some (lib.base64 word, rest.drop 1)
      else if enc = ['Q'] ∨ enc = ['q'] then
        some (lib.latin1 (decodeHex (word.map fun c => if c = '_' then ' ' else c)), rest.drop 1)
      else none
  | _ => none

/-- `decodeWords`, with a bound on the length. -/
def decodeWordsIn : Nat → Text → Text
  | 0, t => t
  | _ + 1, [] => []
  | n + 1, c :: cs =>
    match encodedWord lib (c :: cs) with
    | some (word, rest) => word ++ decodeWordsIn n rest
    | none => c :: decodeWordsIn n cs

def decodeWords (t : Text) : Text := decodeWordsIn lib t.length t

/-! ## Reports -/

inductive ReportKind where
  | bounce
  | delay
  | complaint
deriving DecidableEq

inductive Severity where
  | hard
  | soft
deriving DecidableEq

structure ReportRecipient where
  address : Text
  action : Text
  status : Option Text
  diagnostic : Option Text
  severity : Severity

structure ParsedReport where
  kind : ReportKind
  recipients : List ReportRecipient
  originalMessageId : Option Text
  originalSender : Option Text
  originalSubject : Option Text
  mtaMessageId : Option Text
  feedbackType : Option Text
  reportingMta : Option Text

/-- A value that is not empty. -/
def filled (t : Option Text) : Option Text := t.filter (· ≠ [])

/-- The value behind the type of `rfc822; a@b`. -/
def stripType (v : Option Text) : Option Text :=
  (filled v).bind fun v => filled (some (trim (((splitAt ';' v).map Prod.snd).getD v)))

def angle (v : Option Text) : Option Text := (filled v).bind fun v => filled (some (angleOf v))

/-- Where a blank line begins at a line feed: what follows the last line feed of the white
space behind it. -/
def afterBlank (cs : Text) : Option Text :=
  let space := cs.takeWhile isSpace
  if '\n' ∈ space then
    some ((space.reverse.takeWhile (· ≠ '\n')).reverse ++ cs.dropWhile isSpace)
  else none

/-- `split(/\n\s*\n/)`, with a bound on the length. -/
def splitBlank : Nat → Text → Text → List Text
  | 0, piece, t => [piece.reverse ++ t]
  | _ + 1, piece, [] => [piece.reverse]
  | n + 1, piece, c :: cs =>
    if c = '\n' then
      match afterBlank cs with
      | some rest => piece.reverse :: splitBlank n [] rest
      | none => splitBlank n (c :: piece) cs
    else splitBlank n (c :: piece) cs

/-- `replace(/\r\n/g, '\n')`. -/
def dropReturns : Text → Text
  | '\r' :: '\n' :: cs => '\n' :: dropReturns cs
  | c :: cs => c :: dropReturns cs
  | [] => []

def statusGroups (body : Text) : List MimeHeaders :=
  let t := dropReturns body
  ((splitBlank t.length [] t).filter fun b => b.any fun c => !isSpace c).map (parseHeaderBlock lib)

def originalHeaders (root : MimePart) : Option MimeHeaders :=
  let headersPart := (root.findPart "text/rfc822-headers".toList).or
    (root.findPart "message/rfc822-headers".toList)
  match headersPart with
  | some part => some (parseHeaderBlock lib part.body)
  | none => (root.findPart "message/rfc822".toList).map fun msg =>
      parseHeaderBlock lib (((splitHead msg.body).map Prod.fst).getD msg.body)

def severityOf (action : Text) (status : Option Text) : Severity :=
  if action = "failed".toList then
    if status.any fun s => s.head? = some '4' then .soft else .hard
  else .soft

/-- `replace(/^<|>$/g, '')`. -/
def unbracket (t : Text) : Text :=
  let t := if t.head? = some '<' then t.drop 1 else t
  if t.getLast? = some '>' then t.dropLast else t

/-- The original message, as its headers tell. -/
structure Original where
  messageId : Option Text
  sender : Option Text
  subject : Option Text

def originalOf (orig : Option MimeHeaders) : Original where
  messageId := angle (orig.bind (·.get "message-id"))
  sender := angle (orig.bind (·.get "from"))
  subject := (filled (orig.bind (·.get "subject"))).map (decodeWords lib)

def complaintOf (orig : Option MimeHeaders) (base : Original) (arf : MimePart) : ParsedReport :=
  let f := parseHeaderBlock lib arf.body
  let rcpts := (f.all "original-rcpt-to").filterMap fun a => angle (some a)
  let addresses := if rcpts ≠ [] then rcpts else (angle (orig.bind (·.get "to"))).toList
  { kind := .complaint
    recipients := addresses.map fun address =>
      ⟨lib.toLowerCase address, "complaint".toList, none, f.get "feedback-type", .hard⟩
    originalMessageId := base.messageId
    originalSender := (angle (f.get "original-mail-from")).or base.sender
    originalSubject := base.subject
    mtaMessageId := none
    feedbackType := some (lib.toLowerCase ((f.get "feedback-type").getD "abuse".toList))
    reportingMta := stripType (f.get "reporting-mta") }

def statusRecipient (g : MimeHeaders) : Option ReportRecipient :=
  ((stripType (g.get "final-recipient")).or (stripType (g.get "original-recipient"))).map
    fun address =>
    let action := lib.toLowerCase (trim ((g.get "action").getD []))
    let status := (g.get "status").map trim
    ⟨lib.toLowerCase (unbracket address), action, status, g.get "diagnostic-code",
      severityOf action status⟩

def statusReportOf (base : Original) (ds : MimePart) : ParsedReport :=
  let groups := statusGroups lib ds.body
  let perMessage := groups.head?
  let perRecipient := groups.drop 1
  let recipients :=
    (if perRecipient ≠ [] then perRecipient else perMessage.toList).filterMap (statusRecipient lib)
  { kind := if recipients.any fun r => r.action = "failed".toList then .bounce else .delay
    recipients := recipients
    originalMessageId := base.messageId
    originalSender := base.sender.or (stripType (perMessage.bind (·.get "x-maddy-sender")))
    originalSubject := base.subject
    mtaMessageId := (perMessage.bind (·.get "x-maddy-msgid")).map trim
    feedbackType := none
    reportingMta := stripType (perMessage.bind (·.get "reporting-mta")) }

def parseReport (raw : Text) : Option ParsedReport :=
  let root := parseMime lib raw
  let orig := originalHeaders lib root
  let base := originalOf lib orig
  match root.findPart "message/feedback-report".toList with
  | some arf => some (complaintOf lib orig base arf)
  | none => (root.findPart "message/delivery-status".toList).map (statusReportOf lib base)

structure Suppression where
  address : Text
  reason : ReportKind
  detail : Option Text

/-- The addresses that a report suppresses, for a bounce or a complaint. -/
def suppressionsFrom (report : ParsedReport) : List Suppression :=
  (report.recipients.filter (·.severity = .hard)).map fun r =>
    ⟨r.address, if report.kind = .complaint then .complaint else .bounce, r.diagnostic.or r.status⟩

end Mail

/-!
## Ingesting a report

A report goes to the organisation that sent the original message, as far as the controller
knows it, and else to the one it was posted for: its recipients are suppressed there, and
logged.
-/

namespace Mail

open Js

/-! ## Addresses -/

/-- `s.trim().toLowerCase().replace(/\.+$/, '')`. -/
def lc (lib : Library) (t : Text) : Text :=
  ((lib.toLowerCase (trim t)).reverse.dropWhile (· = '.')).reverse

/-- What is behind the last `@`, where something is before it. -/
def addressDomain (lib : Library) (address : Text) : Option Text :=
  let a := angleOf address
  let behind := a.reverse.takeWhile (· ≠ '@')
  if '@' ∈ a ∧ behind.length + 1 < a.length then some (lc lib behind.reverse) else none

def isWordChar (c : Char) : Bool := c.isAlphanum || c = '_'

/-- `Number(/\b([245]\d\d)\b/.exec(t)?.[1] ?? 0)`, behind a character that is a word's or not. -/
def smtpCode (behindWord : Bool) : Text → Nat
  | [] => 0
  | c :: cs =>
    if behindWord = false ∧ c ∈ ['2', '4', '5'] ∧ cs.length ≥ 2 ∧ (cs.take 2).all Char.isDigit ∧
        ((cs.drop 2).head?.any isWordChar) = false then
      ((c :: cs.take 2).foldl (fun n d => 10 * n + (d.toNat - 48)) 0)
    else smtpCode (isWordChar c) cs

/-- `s.slice(0, n)`, in UTF-16 code units. -/
def sliceTo : Nat → Text → Text
  | _, [] => []
  | n, c :: cs =>
    let w := if c.toNat < 0x10000 then 1 else 2
    if w ≤ n then c :: sliceTo (n - w) cs else []

/-! ## State -/

inductive EmailEventKind where
  | complained
  | bounced
  | deferred

section

variable (Org : Type)

structure EmailEvent where
  orgId : Org
  ts : Nat
  event : EmailEventKind
  mtaId : Text
  messageId : Text
  credential : Text
  sender : Text
  rcpt : Text
  domain : Text
  subject : Text
  smtpCode : Nat
  detail : Text

structure EmailDomain where
  orgId : Org
  domain : Text

structure EmailCredential where
  id : String
  orgId : Org
  smtpUsername : Text
  name : Text
  webhookUrl : Option Text

structure EmailSuppression where
  orgId : Org
  address : Text
  reason : ReportKind
  detail : Option Text
  credentialId : Option String
deriving DecidableEq

/-- The rows, the events that were recorded, and what the process remembers: who sent which
message, and the login of each id of the MTA's, per organisation. -/
@[ext] structure MailState where
  domains : List (EmailDomain Org)
  credentials : List (EmailCredential Org)
  suppressions : List (EmailSuppression Org)
  events : List (EmailEvent Org)
  sentIndex : Text → Option (Org × String)
  trackers : Org → Text → Option Text

end

/-! ## Ingest -/

inductive Webhook where
  | sent
  | failed
  | none

structure IngestResult (Org : Type) where
  /-- None is `ignored`. -/
  kind : Option ReportKind
  orgId : Option Org
  suppressed : List Text
  webhook : Webhook

section

variable {Org : Type} [DecidableEq Org] (lib : Library) (st : MailState Org) (report : ParsedReport)

/-- Who sent the original message. -/
def sentOriginal : Option (Org × String) :=
  (filled report.originalMessageId).bind fun id =>
    (st.sentIndex ('<' :: id ++ ['>'])).or (st.sentIndex id)

/-- The credential of an id of the MTA's. -/
def trackedCredential (orgId : Org) : Option String := do
  let username ← filled (st.trackers orgId (← filled report.mtaMessageId))
  (st.credentials.find? fun c => c.orgId = orgId ∧ c.smtpUsername = username).map EmailCredential.id

def orgForReport (hintOrgId : Option Org) : Option (Org × Option String) :=
  match sentOriginal st report with
  | some (orgId, credentialId) => some (orgId, some credentialId)
  | none =>
    let domain := filled (addressDomain lib (report.originalSender.getD []))
    let row := domain.bind fun domain =>
      st.domains.find? fun d => d.domain = domain ∧ hintOrgId.all (d.orgId = ·)
    ((row.map EmailDomain.orgId).or hintOrgId).map fun orgId =>
      (orgId, trackedCredential st report orgId)

/-- `emailSuppression.upsert`, which updates nothing. -/
def suppress (orgId : Org) (credentialId : Option String) (rows : List (EmailSuppression Org))
    (s : Suppression) : List (EmailSuppression Org) :=
  if rows.any fun r => r.orgId = orgId ∧ r.address = s.address then rows
  else rows ++ [⟨orgId, s.address, s.reason, s.detail.map (sliceTo 500), credentialId⟩]

def reportEvent (orgId : Org) (ts : Nat) (cred : Option (EmailCredential Org))
    (r : ReportRecipient) :
    EmailEvent Org where
  orgId := orgId
  ts := ts
  event :=
    if report.kind = .complaint then .complained
    else if report.kind = .bounce ∧ r.severity = .hard then .bounced
    else .deferred
  mtaId := report.mtaMessageId.getD []
  messageId := ((filled report.originalMessageId).map fun id => '<' :: id ++ ['>']).getD []
  credential := (cred.map EmailCredential.smtpUsername).getD []
  sender := lib.toLowerCase (report.originalSender.getD [])
  rcpt := r.address
  domain := (addressDomain lib (report.originalSender.getD [])).getD []
  subject := report.originalSubject.getD []
  smtpCode := smtpCode false (r.diagnostic.getD [])
  detail := (r.diagnostic.or r.status).getD []

/-- Act on a report of an organisation; `posts` says which webhooks are taken. -/
def actOn (posts : EmailCredential Org → ParsedReport → Bool) (ts : Nat) (orgId : Org)
    (credentialId : Option String) : MailState Org × IngestResult Org :=
  let cred := credentialId.bind fun id => st.credentials.find? fun c => c.id = id ∧ c.orgId = orgId
  let toSuppress := suppressionsFrom report
  ({ st with
      suppressions := toSuppress.foldl (suppress orgId credentialId) st.suppressions
      events := st.events ++ report.recipients.map (reportEvent lib report orgId ts cred) },
    { kind := some report.kind
      orgId := some orgId
      suppressed := toSuppress.map Suppression.address
      webhook := match cred.filter fun c => (filled c.webhookUrl).isSome ∧
          (report.kind = .bounce ∨ report.kind = .complaint) with
        | some c => if posts c report then .sent else .failed
        | none => .none })

def ingestReport (posts : EmailCredential Org → ParsedReport → Bool) (ts : Nat) (raw : Text)
    (hintOrgId : Option Org) : MailState Org × IngestResult Org :=
  match parseReport lib raw with
  | none => (st, ⟨none, none, [], .none⟩)
  | some report =>
    match orgForReport lib st report hintOrgId with
    | none => (st, ⟨some report.kind, none, [], .none⟩)
    | some (orgId, credentialId) => actOn lib st report posts ts orgId credentialId

end

end Mail
