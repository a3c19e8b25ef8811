import Swarmy.Codec.Lines
import Swarmy.Js.Value
import Swarmy.Time.Calendar

/-!
# Cron schedules

`packages/trpc/src/services/schedule.ts`: the five fields of a cron expression, the
minutes in UTC that match it, the search for the next one and the rule by which a
scheduled job is due.  A `Date` is a number of milliseconds in the range of valid times.
-/

namespace Swarmy.Schedule

/-! ## Fields -/

/-- `s.split(sep)`. -/
def split (sep : Char) (s : List Char) : List (List Char) :=
  (Codec.cut sep s).1 ++ [(Codec.cut sep s).2]

/-- `/^\d+$/`. -/
def isDigits (s : List Char) : Bool := s ≠ [] && s.all Char.isDigit

/-- `Number.parseInt(s, 10)` of digits. -/
def parseInt (s : List Char) : Nat := Nat.ofDigitChars 10 s 0

/-- The first integer that is no more a finite number. -/
def infinite : Nat := 2 ^ 1024 - 2 ^ 970

/-- One part of a field: from `lo` to `hi` in steps. -/
structure Range where
  lo : Nat
  hi : Nat
  step : Nat

/-- `for (let v = lo; v <= hi; v += step)`. -/
def Range.values (r : Range) : List Nat :=
  (List.range ((r.hi - r.lo) / r.step + 1)).map (r.lo + r.step * ·)

/-- A field of an expression: the least and the greatest value, and its name. -/
structure Field where
  min : Nat
  max : Nat
  name : String

namespace Field

variable (f : Field)

/-- The step of a part. -/
def step (part : List Char) (stepPart : Option (List Char)) : Except String Nat :=
  match stepPart with
  | none => .ok 1
  | some s =>
    if isDigits s && 1 ≤ parseInt s && parseInt s < infinite then .ok (parseInt s)
    else .error s!"invalid cron step in \"{String.ofList part}\" ({f.name})"

/-- The ends of a part. -/
def ends (part rangePart : List Char) (stepped : Bool) : Except String (Nat × Nat) :=
  if rangePart = ['*'] then .ok (f.min, f.max)
  else if '-' ∈ rangePart then
    match split '-' rangePart with
    | a :: b :: _ =>
      if isDigits a && isDigits b then .ok (parseInt a, parseInt b)
      else .error s!"invalid cron range \"{String.ofList part}\" ({f.name})"
    | _ => .error s!"invalid cron range \"{String.ofList part}\" ({f.name})"
  else if isDigits rangePart then
    -- `5/15` means from 5 on in steps of 15; a bare value is just itself.
    .ok (parseInt rangePart, if stepped then f.max else parseInt rangePart)
  else .error s!"invalid cron value \"{String.ofList part}\" ({f.name})"

/-- One part of a field; what follows a second slash or dash is not looked at. -/
def parsePart (field part : List Char) : Except String Range := do
  if part = [] then throw s!"invalid cron {f.name} field \"{String.ofList field}\""
  let pieces := split '/' part
  let step ← f.step part pieces[1]?
  let (lo, hi) ← f.ends part (pieces.headD []) pieces[1]?.isSome
  if lo < f.min || f.max < hi || hi < lo then
    throw (s!"cron {f.name} value out of range in \"{String.ofList part}\" " ++
      s!"({f.min}-{f.max})")
  return ⟨lo, hi, step⟩

/-- `parseCronField`; no range is empty, and so is no field. -/
def parse (field : List Char) : Except String (List Nat) := do
  let ranges ← (split ',' field).mapM (f.parsePart field)
  return ranges.flatMap Range.values

end Field

/-- A parsed expression. -/
structure CronSpec where
  minutes : List Nat
  hours : List Nat
  daysOfMonth : List Nat
  months : List Nat
  daysOfWeek : List Nat
  /-- The day of month is no `*`. -/
  domRestricted : Bool
  /-- The day of week is no `*`. -/
  dowRestricted : Bool
deriving DecidableEq

/-- `expr.trim().split(/\s+/)`. -/
def fieldsOf (expr : String) : List (List Char) :=
  let s := (Js.trim expr).toList
  if s = [] then [[]] else (s.splitOnP Js.isSpace).filter (· ≠ [])

/-- Parse a five-field expression: minute, hour, day of month, month, day of week. -/
def parseCron (expr : String) : Except String CronSpec :=
  match fieldsOf expr with
  | [m, h, dom, mon, dow] => do
      let days ← (Field.mk 0 7 "day-of-week").parse dow
      -- Both 0 and 7 mean Sunday.
      let daysOfWeek := if 7 ∈ days then 0 :: days.filter (· ≠ 7) else days
      let minutes ← (Field.mk 0 59 "minute").parse m
      let hours ← (Field.mk 0 23 "hour").parse h
      let daysOfMonth ← (Field.mk 1 31 "day-of-month").parse dom
      let months ← (Field.mk 1 12 "month").parse mon
      return {
        minutes, hours, daysOfMonth, months, daysOfWeek
        domRestricted := dom ≠ ['*']
        dowRestricted := dow ≠ ['*'] }
  | _ => .error s!"cron \"{expr}\" must have exactly 5 fields (minute hour dom month dow)"

/-! ## Times -/

/-- The greatest time a `Date` holds. -/
def maxTime : Int := 8640000000000000

/-- A valid `Date`. -/
structure Date where
  /-- `getTime()`. -/
  ms : Int
  valid : -maxTime ≤ ms ∧ ms ≤ maxTime

/-- `new Date(t)`; `none` for an invalid one. -/
def newDate (t : Int) : Option Date :=
  if h : -maxTime ≤ t ∧ t ≤ maxTime then some ⟨t, h⟩ else none

def minuteMs : Int := 60000

def dayMs : Int := 86400000

namespace Date

variable (d : Date)

def minutes : Nat := (d.ms / minuteMs % 60).toNat

def hours : Nat := (d.ms / 3600000 % 24).toNat

/-- The day, from 1970 on. -/
def day : Int := d.ms / dayMs

end Date

/-- Whether a minute matches, in UTC. -/
def cronMatches (spec : CronSpec) (at' : Date) : Bool :=
  let domOk : Bool := Calendar.date at'.day ∈ spec.daysOfMonth
  let dowOk : Bool := Calendar.weekday at'.day ∈ spec.daysOfWeek
  (at'.minutes ∈ spec.minutes) && (at'.hours ∈ spec.hours) &&
    (Calendar.month at'.day ∈ spec.months) &&
      (if spec.domRestricted && spec.dowRestricted then domOk || dowOk
       else if spec.domRestricted then domOk
       else if spec.dowRestricted then dowOk
       else true)

/-- The horizon of a search: the minutes of 366 days. -/
def cronScanLimit : Nat := 366 * 24 * 60

def floorToMinute (d : Date) : Int := d.ms / minuteMs * minuteMs

section

variable (spec : CronSpec)

/-- The first of some minutes in a row to match.  An invalid `Date` matches nothing: its
minutes are `NaN`. -/
def scan : Nat → Int → Option Date
  | 0, _ => none
  | n + 1, t => ((newDate t).filter (cronMatches spec)).or (scan n (t + minuteMs))

/-- The first occurrence strictly after `start`, or `none` if there is none within a
year. -/
def cronNext (start : Date) : Option Date :=
  scan spec cronScanLimit (floorToMinute start + minuteMs)

/-- A job fires when the next occurrence after its last run, or its creation, has
passed. -/
def isJobDue (lastRunAt : Option Date) (createdAt now : Date) : Bool :=
  (cronNext spec (lastRunAt.getD createdAt)).any fun next => next.ms ≤ now.ms

end

end Swarmy.Schedule
