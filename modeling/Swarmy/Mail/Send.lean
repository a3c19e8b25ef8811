import Swarmy.Mail.Report

/-!
# Sending as a credential

`sendAsCredential` up to what it gives to the mail server: the checks of the sender and the
recipients, the header of the message, and the envelope.  What is random, the clock, the body's
encoding and templates are the environment's.
-/

namespace Mail

open Js
open Sink (text)

/-! ## Addresses -/

/-- The bare address in lower case. -/
def bareAddress (lib : Library) (address : Text) : Text := lib.toLowerCase (angleOf address)

/-- `[^\s@<>,;]`. -/
def isAddressChar (c : Char) : Bool := !isSpace c && c ∉ ['@', '<', '>', ',', ';']

/-- `/^[^\s@<>,;]+@[^\s@<>,;]+\.[^\s@<>,;]+$/`. -/
def EMAIL_RE (t : Text) : Bool :=
  match splitAt '@' t with
  | some (a, b) => a ≠ [] && a.all isAddressChar && b.all isAddressChar && '.' ∈ (b.drop 1).dropLast
  | none => false

structure EmailApiError where
  status : Nat
  code : String
  message : Text

def normaliseList (lib : Library) (v : List Text) (what : String) :
    Except EmailApiError (List Text) :=
  let out := (v.map trim).filter (· ≠ [])
  match out.find? fun a => !EMAIL_RE (bareAddress lib a) with
  | some a => .error ⟨400, "invalid_address", text what ++ text ": \"" ++ a ++
    text "\" is not an email address"⟩
  | none => .ok out

/-! ## The message -/

def isNewline (c : Char) : Bool := c = '\r' || c = '\n'

/-- `v.replace(/[\r\n]+/g, ' ')`, behind a newline or not. -/
def collapse : Bool → Text → Text
  | _, [] => []
  | behind, c :: cs =>
    if isNewline c then if behind then collapse true cs else ' ' :: collapse true cs
    else c :: collapse false cs

def oneLine (v : Text) : Text := trim (collapse false v)

/-- What the environment adds: random hexadecimal digits, the date,
`Buffer.from(s).toString('base64')`, and the encoded body. -/
structure Around where
  id : Text
  boundary : Text
  date : Text
  base64 : Text → Text
  body : Option Text → Option Text → Text

def encodeWord (around : Around) (value : Text) : Text :=
  if value.all fun c => 0x20 ≤ c.toNat && c.toNat ≤ 0x7e then value
  else text "=?UTF-8?B?" ++ around.base64 value ++ text "?="

/-- `/^[A-Za-z0-9-]{1,64}$/`. -/
def HEADER_NAME (k : Text) : Bool :=
  k ≠ [] && k.length ≤ 64 && k.all fun c => c.isAlphanum || c = '-'

def RESERVED_HEADERS : List Text :=
  ["from", "to", "cc", "bcc", "subject", "date", "message-id", "mime-version", "content-type",
    "content-transfer-encoding", "dkim-signature"].map text

/-- `items.join(', ')`. -/
def joinList : List Text → Text
  | [] => []
  | [t] => t
  | t :: ts => t ++ text ", " ++ joinList ts

structure BuildMessageInput where
  «from» : Text
  «to» : List Text
  cc : List Text
  replyTo : Option Text
  subject : Text
  content : Option Text
  html : Option Text
  headers : List (Text × Text)
  messageIdDomain : Text

def replyFields : Option Text → List (Text × Text)
  | none | some [] => []
  | some r => [(text "Reply-To", oneLine r)]

def contentFields (around : Around) : Option Text → List (Text × Text)
  | none | some [] =>
    [(text "Content-Type", text "text/plain; charset=utf-8"),
      (text "Content-Transfer-Encoding", text "quoted-printable")]
  | some _ =>
    [(text "Content-Type", text "multipart/alternative; boundary=\"" ++
      around.boundary ++ text "\"")]

/-- The lines of a header, by name and value. -/
def headerFields (lib : Library) (around : Around) (input : BuildMessageInput) :
    List (Text × Text) :=
  [(text "From", oneLine input.from), (text "To", joinList (input.to.map oneLine))] ++
    (if input.cc = [] then [] else [(text "Cc", joinList (input.cc.map oneLine))]) ++
    replyFields input.replyTo ++
    [(text "Subject", encodeWord around (oneLine input.subject)), (text "Date", around.date),
      (text "Message-ID", text "<" ++ around.id ++ text "@" ++ input.messageIdDomain ++ text ">"),
      (text "MIME-Version", text "1.0")] ++
    ((input.headers.filter fun x =>
      HEADER_NAME x.1 && !RESERVED_HEADERS.contains (lib.toLowerCase x.1)).map
      fun x => (x.1, oneLine x.2)) ++
    contentFields around input.html

/-- `lines.join('\r\n')`. -/
def joinLines : List Text → Text
  | [] => []
  | [l] => l
  | l :: ls => l ++ CRLF ++ joinLines ls

def fieldLine (x : Text × Text) : Text := x.1 ++ text ": " ++ x.2

def buildMessage (lib : Library) (around : Around) (input : BuildMessageInput) : Text :=
  joinLines ((headerFields lib around input).map fieldLine) ++ CRLF ++ CRLF ++
    around.body input.content input.html

/-! ## `sendAsCredential` -/

def MAX_RECIPIENTS : Nat := 50

def MAX_BODY_BYTES : Nat := 512 * 1024

structure SendInput where
  «from» : Text
  «to» : List Text
  cc : List Text
  bcc : List Text
  replyTo : Option Text
  subject : Option Text
  content : Option Text
  html : Option Text
  template : Option Text
  headers : List (Text × Text)

structure EmailTemplate where
  name : Text
  subject : Text
  html : Option Text
  content : Option Text

structure CredentialRow where
  disabled : Bool
  /-- What `domainsOf` makes of the column. -/
  domains : List Text

/-- The rows of the credential's organisation. -/
structure OrgRows where
  enabled : Bool
  /-- The domains, and whether they are verified. -/
  domains : List (Text × Bool)
  templates : List EmailTemplate
  suppressions : List Text

/-- What is given to `smtpSubmit`. -/
structure Submission where
  «from» : Text
  «to» : List Text
  raw : Text

/-- The envelope as it is sent, `MAIL FROM` and `RCPT TO`. -/
def Submission.mailFrom (sub : Submission) : Text := angleOf sub.from

def Submission.rcptTo (sub : Submission) : List Text := sub.to.map angleOf

/-- `!v?.trim()`. -/
def isBlank (v : Option Text) : Bool := (v.getD []).all isSpace

/-- `renderTemplate` of a source, in HTML or not, with the request's variables. -/
abbrev Render := Text → Bool → Text

def byteLength (t : Text) : Nat := (t.map Char.utf8Size).sum

/-- The subject, the text and the HTML: the request's or a template's. -/
def contentOf (render : Render) (rows : OrgRows) (input : SendInput) :
    Except EmailApiError (Text × Option Text × Option Text) :=
  match input.template with
  | none | some [] => .ok (input.subject.getD [], input.content, input.html)
  | some name =>
    match rows.templates.find? (·.name = name) with
    | none => .error ⟨404, "template_not_found", text "No template named \"" ++ name ++ text "\"."⟩
    | some tpl => .ok (render (input.subject.getD tpl.subject) false,
        (filled tpl.content).map (render · false), (filled tpl.html).map (render · true))

/-- `if (c) throw new EmailApiError(…)`. -/
def throwIf (c : Bool) (status : Nat) (code : String) (message : Text) :
    Except EmailApiError Unit :=
  if c then .error ⟨status, code, message⟩ else .ok ()

def sendAsCredential (lib : Library) (around : Around) (render : Render) (rows : OrgRows)
    (cred : CredentialRow) (input : SendInput) : Except EmailApiError Submission := do
  throwIf (!rows.enabled) 503 "email_off" (text "The email service is turned off.")
  throwIf cred.disabled 403 "credential_disabled" (text "This email credential is disabled.")
  let fromDomain := (addressDomain lib input.from).getD []
  throwIf (fromDomain = [] || !EMAIL_RE (bareAddress lib input.from)) 400 "invalid_from"
    (text "\x60from\x60 must be an address at one of your verified domains.")
  throwIf ((fromDomain, true) ∉ rows.domains) 422 "domain_unverified" (fromDomain ++ text
    " is not a verified sending domain. Add it under Email and publish its DNS records.")
  throwIf (cred.domains ≠ [] && !cred.domains.contains fromDomain) 403 "domain_not_allowed"
    (text "This credential may not send from " ++ fromDomain ++ text ".")
  let recipients ← normaliseList lib input.to "to"
  let cc ← normaliseList lib input.cc "cc"
  let bcc ← normaliseList lib input.bcc "bcc"
  let all := recipients ++ cc ++ bcc
  throwIf (all = []) 400 "no_recipients" (text "Give at least one recipient in \x60to\x60.")
  throwIf (all.length > MAX_RECIPIENTS) 400 "too_many_recipients"
    (text "At most 50 recipients per message.")
  let (subject, content, html) ← contentOf render rows input
  throwIf (isBlank (some subject)) 400 "no_subject" (text "Give a \x60subject\x60 (or a template).")
  throwIf (isBlank content && isBlank html) 400 "no_body"
    (text "Give \x60text\x60, \x60html\x60 or a \x60template\x60.")
  throwIf (byteLength (content.getD [] ++ html.getD []) > MAX_BODY_BYTES) 400 "too_large"
    (text "The body is over 512 KiB.")
  let envelope := (all.map (bareAddress lib)).filter (!rows.suppressions.contains ·)
  throwIf (envelope = []) 422 "all_suppressed" (text "Every recipient is on the suppression list.")
  return ⟨input.from, envelope, buildMessage lib around
    ⟨input.from, recipients, cc, input.replyTo, subject, content, html, input.headers, fromDomain⟩⟩

theorem throwIf_ok {c : Bool} {status : Nat} {code : String} {message : Text} {α : Type}
    {f : Unit → Except EmailApiError α} {a : α}
    (h : (throwIf c status code message >>= f) = .ok a) :
    c = false ∧ f () = .ok a := by
  cases c with
  | true => cases h
  | false => exact ⟨rfl, h⟩

theorem bind_ok {α β : Type} {x : Except EmailApiError β} {f : β → Except EmailApiError α} {a : α}
    (h : (x >>= f) = .ok a) : ∃ b, x = .ok b ∧ f b = .ok a := by
  cases x with
  | error e => cases h
  | ok b => exact ⟨b, rfl, h⟩

end Mail
