import Swarmy.Js.Json
import Mathlib.Logic.Function.Basic

/-!
# Backup intent follows the writer

`apps/api/src/workers/manageddb-pitr.core.ts`: `rehomeScheduleLabel` and
`planBackupIntentCarry`, and how `carryBackupIntent` of `manageddb-reconcile.ts` applies the
plan.  The schedule of a cluster, its PITR flag, its last run and its opt-out are labels, and
belong on whichever member is the live primary; what other members still hold is moved there.

The plan looks at a label's text in three ways only, which `Texts` names.  So the values of
labels are a parameter: they are texts, and for the question where a value comes from they are
texts with the place of the member they were on.
-/

namespace Swarmy.BackupIntent

open Function

open Js (Value Fields)

/-! ## Labels and their values -/

def scheduleLabel : String := "swarmy.db.backup.schedule"
def pitrLabel : String := "swarmy.db.backup.pitr"
def lastRunLabel : String := "swarmy.db.backup.lastRun"
def autoLabel : String := "swarmy.db.backup.auto"

/-- `BACKUP_INTENT_LABELS`. -/
def intentLabels : List String := [scheduleLabel, pitrLabel, lastRunLabel, autoLabel]

/-- What the plan does with the value of a label. -/
structure Texts (V : Type) where
  isAutoSchedule : V → Bool
  isOff : V → Bool
  rehomeScheduleLabel : V → V
  isAutoSchedule_rehome : ∀ v, isAutoSchedule (rehomeScheduleLabel v) = isAutoSchedule v

/-- `v === true`. -/
def isTrue : Option Value → Bool
  | some (.bool b) => b
  | _ => false

/-- `JSON`: what is printed of an object reads back as an object with the same fields set to
`true`.  How numbers are read is left open; `plainJson` is the one of texts without numbers. -/
structure Json where
  parse : String → Option Value
  stringify : Value → String
  parse_stringify : ∀ text fields k, parse text = some (.obj fields) →
    ∃ fields', parse (stringify (.obj (fields.filter (·.1 ≠ k)))) = some (.obj fields') ∧
      ∀ j ≠ k, isTrue (Fields.get fields' j) = isTrue (Fields.get fields j)

namespace Json

variable (J : Json)

/-- Whether a schedule is a default that swarmy has set. -/
def isAutoSchedule (raw : String) : Bool :=
  match J.parse raw with
  | some (.obj fields) => isTrue (Fields.get fields "auto")
  | _ => false

/-- A schedule for a new writer: the data volume of the old one is not there. -/
def rehomeScheduleLabel (raw : String) : String :=
  match J.parse raw with
  | some (.obj fields) =>
    if (Fields.get fields "dataVolume").isSome then
      J.stringify (.obj (fields.filter (·.1 ≠ "dataVolume")))
    else raw
  | _ => raw

theorem isAutoSchedule_rehome (raw : String) :
    J.isAutoSchedule (J.rehomeScheduleLabel raw) = J.isAutoSchedule raw := by
  unfold rehomeScheduleLabel
  split
  · next fields hparse =>
      split_ifs
      · obtain ⟨fields', hback, hget⟩ := J.parse_stringify raw fields "dataVolume" hparse
        unfold isAutoSchedule
        simp only [hback, hparse]
        exact hget "auto" (by decide)
      · rfl
  · rfl

/-- The texts of labels. -/
def texts : Texts String where
  isAutoSchedule := J.isAutoSchedule
  isOff raw := raw = "off"
  rehomeScheduleLabel := J.rehomeScheduleLabel
  isAutoSchedule_rehome := J.isAutoSchedule_rehome

end Json

abbrev Labels (V : Type) := String → Option V

structure Member (V : Type) where
  name : String
  labels : Labels V

/-! ## The plan -/

section

variable {V : Type} (T : Texts V)

/-- The plan under way: the labels the primary has by now, those to add, and those that were
taken from it. -/
structure Walk (V : Type) where
  have_ : Labels V
  add : Labels V
  removed : List String

/-- `delete have[k]`, of a label that is there. -/
def Walk.drop (w : Walk V) (k : String) : Walk V :=
  if (w.have_ k).isSome then
    ⟨update w.have_ k none, update w.add k none, w.removed ++ [k]⟩
  else w

/-- One label of a donor. -/
def Walk.take (w : Walk V) (l : Labels V) (overrides : Bool) (k : String) : Walk V :=
  match l k with
  | none => w
  | some v =>
    if (w.have_ k).isSome && !(overrides && (k = scheduleLabel || k = pitrLabel)) then w
    else
      let value := if k = scheduleLabel then T.rehomeScheduleLabel v else v
      { w with
        have_ := update w.have_ k (some value)
        add := update w.add k (some value) }

/-- A user's schedule in place of an automatic one. -/
def overridesAuto (schedule : Option V) (l : Labels V) : Bool :=
  schedule.any T.isAutoSchedule && (l scheduleLabel).any (!T.isAutoSchedule ·)

/-- A user's opt-out, against an automatic schedule. -/
def optsOut (schedule : Option V) (l : Labels V) : Bool :=
  schedule.any T.isAutoSchedule && (l autoLabel).any T.isOff && (l scheduleLabel).isNone

/-- The walk with the schedule and the flag of the primary dropped, if a donor opts out. -/
def Walk.opened (w : Walk V) (l : Labels V) : Walk V :=
  if optsOut T (w.have_ scheduleLabel) l then (w.drop scheduleLabel).drop pitrLabel else w

/-- A user's schedule without a flag does not inherit the flag of an automatic one. -/
def Walk.closed (w : Walk V) (l : Labels V) (overrides : Bool) : Walk V :=
  if overrides && (l pitrLabel).isNone && (w.have_ pitrLabel).isSome then
    { w with
      have_ := update w.have_ pitrLabel none
      removed := w.removed ++ [pitrLabel] }
  else w

/-- One donor. -/
def Walk.donor (w : Walk V) (l : Labels V) : Walk V :=
  let overrides := overridesAuto T (w.have_ scheduleLabel) l
  (intentLabels.foldl (fun w k => w.take T l overrides k) (w.opened T l)).closed l overrides

/-- The intent labels a member has. -/
def intentKeys (l : Labels V) : List String := intentLabels.filter fun k => (l k).isSome

/-- The members that hold intent the primary should have. -/
def donors (primary : Member V) (others : List (Member V)) : List (Member V) :=
  others.filter fun m => m.name ≠ primary.name && !(intentKeys m.labels).isEmpty

structure BackupIntentCarry (V : Type) where
  add : Labels V
  removeFromPrimary : List String
  donors : List (String × List String)

def walk (primary : Member V) (ds : List (Labels V)) : Walk V :=
  ds.foldl (Walk.donor T) ⟨primary.labels, fun _ => none, []⟩

def planBackupIntentCarry (primary : Member V) (others : List (Member V)) :
    Option (BackupIntentCarry V) :=
  match donors primary others with
  | [] => none
  | ds =>
    let w := walk T primary (ds.map (·.labels))
    some
      { add := w.add
        removeFromPrimary := w.removed.dedup.filter fun k => (w.add k).isNone
        donors := ds.map fun m => (m.name, intentKeys m.labels) }

/-! ## The plan, applied -/

/-- The primary with the labels of a plan. -/
def BackupIntentCarry.apply (carry : BackupIntentCarry V) (primary : Member V) : Member V :=
  { primary with
    labels := fun k =>
      if k ∈ carry.removeFromPrimary then none else (carry.add k).or (primary.labels k) }

/-- A member without the keys that the plan removes from the member of this name. -/
def BackupIntentCarry.strip (carry : BackupIntentCarry V) (m : Member V) : Member V :=
  { m with
    labels := fun k =>
      if carry.donors.any fun d => d.1 = m.name && k ∈ d.2 then none else m.labels k }

/-- The primary once the intent is carried. -/
def carried (primary : Member V) (others : List (Member V)) : Member V :=
  match planBackupIntentCarry T primary others with
  | none => primary
  | some carry => carry.apply primary

/-- The other members once the intent is carried. -/
def stripped (primary : Member V) (others : List (Member V)) : List (Member V) :=
  match planBackupIntentCarry T primary others with
  | none => others
  | some carry => others.map carry.strip

end

end Swarmy.BackupIntent
