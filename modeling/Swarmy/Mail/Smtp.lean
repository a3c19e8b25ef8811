import Swarmy.Codec.Lines
import Swarmy.Js.Value

/-!
# The bounce hook

The payload of a message after DATA, and the SMTP receiver that takes it.  Texts are lists of
characters: the socket decodes UTF-8, and a character that comes in two chunks is kept until
it is whole.
-/

namespace Mail

open Js

abbrev Text := List Char

/-! ## The payload -/

def CRLF : Text := ['\r', '\n']

/-- `raw.replace(/\r?\n/g, '\r\n')`. -/
def crlf : Text → Text
  | [] => []
  | '\n' :: cs => CRLF ++ crlf cs
  | '\r' :: '\n' :: cs => CRLF ++ crlf cs
  | c :: cs => c :: crlf cs

/-- What `^` of a multiline expression matches behind. -/
def isLineTerminator (c : Char) : Bool :=
  c = '\n' || c = '\r' || c.toNat = 0x2028 || c.toNat = 0x2029

/-- `replace(/^\./gm, '..')`, where a line begins or not. -/
@[grind =] def stuff (begins : Bool) : Text → Text
  | [] => []
  | c :: cs =>
    if begins = true ∧ c = '.' then '.' :: '.' :: stuff false cs
    else c :: stuff (isLineTerminator c) cs

/-- `s.endsWith('\r\n')`. -/
def endsLine (s : Text) : Bool := CRLF.isSuffixOf s

def dataPayload (raw : Text) : Text :=
  let stuffed := stuff true (crlf raw)
  stuffed ++ (if endsLine stuffed then [] else CRLF) ++ '.' :: CRLF

/-! ## The sink -/

structure SinkMessage where
  «from» : Text
  «to» : List Text
  raw : Text
  username : Text
deriving DecidableEq

/-- The options, the messages that `onMessage` does not throw on, and the functions of the
standard library that only commands are read with: `decode` is that of Base64 and UTF-8. -/
structure SinkOptions where
  hostname : Text
  auth : (username password : Text) → Bool
  accepts : SinkMessage → Bool
  maxBytes : Nat
  decode : Text → Text
  toUpperCase : Text → Text

/-- The state of a connection, but for what waits for the end of its line. -/
structure Sink where
  user : Option Text
  «from» : Text
  «to» : List Text
  data : Option (List Text)
  size : Nat
  authPending : Bool

/-- What a line does. -/
inductive Effect where
  | reply (s : Text)
  | onMessage (m : SinkMessage)
  | hangUp

namespace Sink

def start : Sink := ⟨none, [], [], none, 0, false⟩

variable (opts : SinkOptions) (s : Sink)

def reset : Sink := { s with «from» := [], «to» := [], data := none, size := 0 }

/-- A text of the program. -/
def text (t : String) : Text := t.toList

def reply (t : String) : Effect := .reply (text t)

/-- What is between the first `<` and the next `>`. -/
def angle (line : Text) : Text :=
  match (line.dropWhile (· ≠ '<')).drop 1 with
  | [] => []
  | rest => if '>' ∈ rest then rest.takeWhile (· ≠ '>') else []

/-- The word of `split(/\s+/)` behind the first, and what follows. -/
def nextWord (line : Text) : Text × Text :=
  let rest := (line.dropWhile fun c => !isSpace c).dropWhile isSpace
  (rest.takeWhile fun c => !isSpace c, rest)

/-- `s.slice(1)`, where it begins with two dots. -/
def unstuff : Text → Text
  | '.' :: '.' :: cs => '.' :: cs
  | l => l

/-- `s.length`, in UTF-16 code units. -/
def units (l : Text) : Nat := (l.map fun c => if c.toNat < 0x10000 then 1 else 2).sum

def tryAuth (b64 : Text) : Sink × List Effect :=
  let parts := (opts.decode b64).splitOn '\u0000'
  let u := parts.getD 1 []
  let p := parts.getD 2 []
  if opts.auth u p then ({ s with user := some u }, [reply "235 2.7.0 authenticated"])
  else (s, [reply "535 5.7.8 invalid credentials"])

/-- A user is one whose name is not empty. -/
def loggedIn : Bool := s.user.any (· ≠ [])

/-- A line of a message. -/
@[grind =] def handleData (data : List Text) (line : Text) : Sink × List Effect :=
  if line = ['.'] then
    let msg : SinkMessage := ⟨s.«from», s.«to», CRLF.intercalate data, s.user.getD []⟩
    (s.reset, [.onMessage msg, if opts.accepts msg then reply "250 2.0.0 accepted"
      else reply "451 4.3.0 processing failed, try again later"])
  else if s.size + (units line + 2) > opts.maxBytes then
    (s.reset, [reply "552 5.3.4 message too big"])
  else ({ s with size := s.size + (units line + 2), data := some (data ++ [unstuff line]) }, [])

/-- A line that is read as a command. -/
def handleCommand (line : Text) : Sink × List Effect :=
  if s.authPending then tryAuth opts { s with authPending := false }
    (trim (String.ofList line)).toList
  else
    let verb := opts.toUpperCase (line.take 4)
    if verb = text "EHLO" ∨ verb = text "HELO" then
      (s, [.reply (text "250-" ++ opts.hostname),
        .reply (text "250-SIZE " ++ text (toString opts.maxBytes)), reply "250 AUTH PLAIN"])
    else if verb = text "AUTH" then
      let (mech, rest) := nextWord line
      let arg := (nextWord rest).1
      if opts.toUpperCase mech ≠ text "PLAIN" then (s, [reply "504 5.5.4 only PLAIN"])
      else if arg ≠ [] then tryAuth opts s arg
      else ({ s with authPending := true }, [reply "334 "])
    else if verb = text "MAIL" then
      if s.loggedIn then ({ s with «from» := angle line }, [reply "250 2.1.0 ok"])
      else (s, [reply "530 5.7.0 authentication required"])
    else if verb = text "RCPT" then
      if s.loggedIn then ({ s with «to» := s.«to» ++ [angle line] }, [reply "250 2.1.5 ok"])
      else (s, [reply "530 5.7.0 authentication required"])
    else if verb = text "DATA" then
      if s.loggedIn ∧ s.«to» ≠ [] then
        ({ s with data := some [] }, [reply "354 end with <CRLF>.<CRLF>"])
      else (s, [reply "503 5.5.1 need RCPT first"])
    else if verb = text "RSET" then (s.reset, [reply "250 2.0.0 ok"])
    else if verb = text "NOOP" then (s, [reply "250 2.0.0 ok"])
    else if verb = text "QUIT" then (s, [reply "221 2.0.0 bye", .hangUp])
    else (s, [reply "502 5.5.2 not implemented"])

@[grind =] def handle (line : Text) : Sink × List Effect :=
  match s.data with
  | some data => s.handleData opts data line
  | none => s.handleCommand opts line

end Sink

/-! ## A connection -/

/-- A sink, with what it has done and which lines it read as commands. -/
structure Session where
  sink : Sink
  effects : List Effect
  commands : List Text

namespace Session

variable (opts : SinkOptions)

/-- The greeting. -/
def start : Session :=
  ⟨.start, [.reply (Sink.text "220 " ++ opts.hostname ++ Sink.text " ESMTP swarmy bounce hook")],
    []⟩

/-- `replace(/\r$/, '')`. -/
@[grind =] def chomp (line : Text) : Text :=
  if line.getLast? = some '\r' then line.dropLast else line

def line (s : Session) (l : Text) : Session where
  sink := (s.sink.handle opts (chomp l)).1
  effects := s.effects ++ (s.sink.handle opts (chomp l)).2
  commands := s.commands ++ if s.sink.data.isNone then [chomp l] else []

/-- What comes of some chunks after others, with what waits for the end of its line. -/
def run (s : Session × Text) (chunks : List Text) : Session × Text :=
  chunks.foldl (Codec.feed '\n' (line opts)) s

end Session

end Mail
