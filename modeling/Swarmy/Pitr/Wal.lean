import Mathlib.Data.List.Sort
import Swarmy.Backup.Restic
import Swarmy.Pitr.Restore

/-! # The base backup and its WAL

The base backup that a target time is restored from, and the prefetch loop of the restore script,
which follows the timelines of the archive one by one. -/

namespace Swarmy.Pitr

open List Option Nat

/-! ## The base backup -/

/-- A row of `wal-g backup-list --json --detail`. -/
structure WalgBackupRow where
  backup_name : Option String
  time : Option String
  finish_time : Option String

section Pick

variable (parse : String → Option Int)

/-- `Date.parse(r.finish_time ?? r.time ?? '')` -/
def WalgBackupRow.finished (r : WalgBackupRow) : Option Int :=
  parse ((r.finish_time.or r.time).getD "")

/-- The backups with a name that finished at or before the target. -/
def eligible (rows : List WalgBackupRow) (target : Option Int) : List (String × Int) :=
  rows.filterMap fun r => do
    let name ← r.backup_name.filter (· ≠ "")
    let finished ← r.finished parse
    let t ← target
    if finished ≤ t then some (name, finished) else none

/-- A name other than `latest`. -/
def named (snapshotId : Option String) : Option String :=
  snapshotId.filter fun id => id ≠ "" && id.toLower ≠ "latest"

def assertSnapshotRef (id : String) : Except String String := do
  Restic.guard Restic.isSnapshotRef "snapshot id" id
  return id

/-- `list` is `none` where the list is no JSON. -/
def pickBaseBackup (list : Option (List WalgBackupRow)) (snapshotId targetTime : Option String) :
    Except String String :=
  match named snapshotId with
  | some id => assertSnapshotRef id
  | none =>
    match targetTime.filter (· ≠ "") with
    | none => .ok "LATEST"
    | some targetTime =>
      match list with
      | none => .error "could not read the wal-g backup list"
      | some rows =>
        match ((eligible parse rows (parse targetTime)).mergeSort fun a b => b.2 ≤ a.2).head? with
        | none => .error ("no base backup finished before " ++ targetTime ++
            " - pick a later time, or take a base backup first")
        | some b => assertSnapshotRef b.1

/-- No eligible backup finished later. -/
def Newest (rows : List WalgBackupRow) (targetTime name : String) : Prop :=
  ∃ b ∈ eligible parse rows (parse targetTime), b.1 = name ∧
    ∀ b' ∈ eligible parse rows (parse targetTime), b'.2 ≤ b.2

theorem assertSnapshotRef_ok {id name : String} (h : assertSnapshotRef id = .ok name) :
    id = name := by
  unfold assertSnapshotRef Restic.guard at h
  split at h
  · exact Except.ok.inj h
  · cases h

theorem le_of_head_mergeSort {bs : List (String × Int)} {b : String × Int}
    (h : (bs.mergeSort fun a b => b.2 ≤ a.2).head? = some b) : b ∈ bs ∧ ∀ b' ∈ bs, b'.2 ≤ b.2 := by
  have sorted : (bs.mergeSort fun a b => b.2 ≤ a.2).Pairwise fun a b => b.2 ≤ a.2 := by
    have h := @pairwise_mergeSort _ (fun a b : String × Int => b.2 ≤ a.2)
      (fun a b c hab hbc => decide_eq_true ((of_decide_eq_true hbc).trans (of_decide_eq_true hab)))
      (fun a b => by rcases le_total b.2 a.2 with h | h <;> simp [h]) bs
    simpa using h
  obtain ⟨tail, ht⟩ := List.head?_eq_some_iff.1 h
  rw [ht, pairwise_cons] at sorted
  have mem : ∀ b', b' ∈ bs ↔ b' = b ∨ b' ∈ tail := by
    intro b'
    rw [← (mergeSort_perm bs fun a b => b.2 ≤ a.2).mem_iff, ht, mem_cons]
  refine ⟨(mem b).2 (.inl rfl), fun b' hb' => ?_⟩
  rcases (mem b').1 hb' with rfl | hb'
  · exact le_rfl
  · exact sorted.1 b' hb'

/-- **The base backup of a target time** is the newest one that had finished, unless another was
asked for by name. -/
theorem newest_iff {list : Option (List WalgBackupRow)} {snapshotId : Option String}
    {targetTime name : String} (target : targetTime ≠ "")
    (h : pickBaseBackup parse list snapshotId (some targetTime) = .ok name) :
    Newest parse (list.getD []) targetTime name ↔
      ∀ id ∈ named snapshotId, Newest parse (list.getD []) targetTime id := by
  unfold pickBaseBackup at h
  cases hn : named snapshotId with
  | some id =>
    rw [hn] at h
    obtain rfl := assertSnapshotRef_ok h
    exact ⟨fun h b hb => some.inj hb ▸ h, fun h => h id rfl⟩
  | none =>
    simp only [hn, filter_some, ne_eq, target, not_false_eq_true, decide_true, if_true] at h
    refine iff_of_true ?_ fun id hid => by cases hid
    split at h
    · cases h
    · split at h
      · cases h
      · rename_i b hb
        obtain rfl := assertSnapshotRef_ok h
        obtain ⟨mem, le⟩ := le_of_head_mergeSort hb
        exact ⟨b, mem, rfl, le⟩

end Pick

/-! ## The WAL -/

/-- A line of a history file: the timeline left, and the LSN where. -/
structure Line where
  tli : Nat
  hi : Nat
  lo : Nat

/-- The number of the segment that holds the switch. -/
def Line.segment (l : Line) : Nat := l.hi * 256 + l.lo / 16777216

/-- The archive: its segments by timeline and number, and its history files by timeline. -/
structure Archive where
  segments : List (Nat × Nat)
  histories : List (Nat × List Line)

namespace Archive

def history (a : Archive) (tli : Nat) : Option (List Line) := a.histories.lookup tli

theorem history_mem {a : Archive} {tli : Nat} {lines : List Line}
    (h : a.history tli = some lines) : (tli, lines) ∈ a.histories := by
  obtain ⟨front, back, h, -⟩ := lookup_eq_some_iff.1 h
  rw [h]
  exact mem_append_right _ mem_cons_self

/-- The history files of later timelines. -/
def later (a : Archive) (tli : Nat) : List (Nat × List Line) := a.histories.filter (tli < ·.1)

/-- The segments of a timeline from a number on. -/
def onward (a : Archive) (tli no : Nat) : List (Nat × Nat) :=
  a.segments.filter fun s => s.1 = tli && no ≤ s.2

theorem length_filter_lt {α : Type} {p q : α → Bool} {xs : List α} (h : ∀ x, p x → q x) {x : α}
    (hx : x ∈ xs) (hq : q x) (hp : ¬ p x) : (xs.filter p).length < (xs.filter q).length := by
  have sub : (xs.filter p).Sublist (xs.filter q) := monotone_filter_right xs h
  refine lt_of_le_of_ne sub.length_le fun eq => hp ?_
  have mem : x ∈ xs.filter p := sub.eq_of_length eq ▸ mem_filter.2 ⟨hx, hq⟩
  exact (mem_filter.1 mem).2

theorem onward_lt {a : Archive} {tli no : Nat} (h : (tli, no) ∈ a.segments) :
    (a.onward tli (no + 1)).length < (a.onward tli no).length := by
  refine length_filter_lt (fun s hs => ?_) h (by simp) (by simp)
  simp only [Bool.and_eq_true, decide_eq_true_eq] at hs ⊢
  omega

theorem later_lt {a : Archive} {tli : Nat} {lines : List Line}
    (h : a.history (tli + 1) = some lines) : (a.later (tli + 1)).length < (a.later tli).length := by
  refine length_filter_lt (fun s hs => ?_) (history_mem h) (by simp) (by simp)
  simp only [decide_eq_true_eq] at hs ⊢
  omega

def has (a : Archive) (tli no : Nat) : Bool := a.segments.any fun s => s.1 = tli && s.2 = no

theorem has_iff {a : Archive} {tli no : Nat} : a.has tli no ↔ (tli, no) ∈ a.segments := by
  simp only [has, List.any_eq_true, Bool.and_eq_true, decide_eq_true_eq]
  constructor
  · rintro ⟨s, hs, rfl, rfl⟩
    exact hs
  · intro h
    exact ⟨_, h, rfl, rfl⟩

/-- The loop of the script: the next segment, else the next timeline from its last switch, and
`none` where a history file without a line stops the script. -/
def prefetch (a : Archive) (tli no : Nat) : Option (List (Nat × Nat)) :=
  if a.has tli no then ((tli, no) :: ·) <$> a.prefetch tli (no + 1)
  else match _h : a.history (tli + 1) with
    | none => some []
    | some lines => match lines.getLast? with
      | none => none
      | some l => a.prefetch (tli + 1) l.segment
termination_by ((a.later tli).length, (a.onward tli no).length)
decreasing_by
  · rename_i h
    exact Prod.Lex.right _ (onward_lt (has_iff.1 h))
  · exact Prod.Lex.left _ _ (later_lt _h)

/-- Every timeline up to the last one has its history file. -/
def Gapless (a : Archive) (tli : Nat) : Prop :=
  ∀ u, (a.history u).isSome → ∀ v, tli < v → v ≤ u → (a.history v).isSome

/-- The segments that a replay from the backup's start reads, along any chain of timelines: one
after another, and those of a timeline that left this one from its switch on. -/
inductive Needed (a : Archive) (tli no : Nat) : Nat → Nat → Prop
  | start : Needed a tli no tli no
  | next {t n : Nat} : Needed a tli no t n → (t, n) ∈ a.segments → Needed a tli no t (n + 1)
  | follow {t n u : Nat} {lines : List Line} {l : Line} : Needed a tli no t n →
      a.history u = some lines → lines.getLast? = some l → l.tli = t → t < u →
      Needed a tli no u l.segment

variable {a : Archive} {tli no : Nat} {got : List (Nat × Nat)}

theorem prefetch_segment (h : a.prefetch tli no = some got) (seg : (tli, no) ∈ a.segments) :
    ∃ rest, a.prefetch tli (no + 1) = some rest ∧ got = (tli, no) :: rest := by
  rw [prefetch, if_pos (has_iff.2 seg)] at h
  obtain ⟨rest, hr, rfl⟩ := map_eq_some_iff.1 h
  exact ⟨rest, hr, rfl⟩

/-- The segments of one timeline, as far as they follow each other. -/
theorem prefetch_run {k : Nat} (h : a.prefetch tli no = some got)
    (segs : ∀ j, no ≤ j → j ≤ no + k → (tli, j) ∈ a.segments) : (tli, no + k) ∈ got := by
  induction k generalizing no got with
  | zero =>
    obtain ⟨rest, -, rfl⟩ := prefetch_segment h (segs no le_rfl le_rfl)
    exact mem_cons_self
  | succ k ih =>
    obtain ⟨rest, hr, rfl⟩ := prefetch_segment h (segs no le_rfl (by omega))
    have mem := ih hr fun j h₁ h₂ => segs j (by omega) (by omega)
    rw [Nat.add_right_comm] at mem
    exact mem_cons_of_mem _ mem

/-- The loop comes to the next timeline that has a history file. -/
theorem prefetch_next {lines : List Line} (hl : a.history (tli + 1) = some lines)
    (h : a.prefetch tli no = some got) :
    ∃ l rest, lines.getLast? = some l ∧ a.prefetch (tli + 1) l.segment = some rest ∧
      rest ⊆ got := by
  generalize hm : (a.onward tli no).length = m
  induction m using Nat.strong_induction_on generalizing no got with
  | _ m ih =>
    by_cases seg : (tli, no) ∈ a.segments
    · obtain ⟨rest, hr, rfl⟩ := prefetch_segment h seg
      obtain ⟨l, rest', hl', hr', sub⟩ := ih _ (hm ▸ onward_lt seg) hr rfl
      exact ⟨l, rest', hl', hr', subset_cons_of_subset _ sub⟩
    · rw [prefetch, if_neg (has_iff.not.2 seg)] at h
      split at h
      · rename_i hn
        rw [hl] at hn
        cases hn
      · rename_i lines' hl'
        obtain rfl := some.inj (hl.symm.trans hl')
        split at h
        · cases h
        · rename_i l hlast
          exact ⟨l, got, hlast, h, List.Subset.refl _⟩

/-- And to every later one, in an archive without a gap. -/
theorem prefetch_later {u : Nat} (gapless : a.Gapless tli) (hu : tli < u)
    (some_u : (a.history u).isSome) (h : a.prefetch tli no = some got) :
    ∃ lines l rest, a.history u = some lines ∧ lines.getLast? = some l ∧
      a.prefetch u l.segment = some rest ∧ rest ⊆ got := by
  induction u, hu using le_induction with
  | base =>
    obtain ⟨lines, hl⟩ := isSome_iff_exists.1 some_u
    obtain ⟨l, rest, hlast, hr, sub⟩ := prefetch_next hl h
    exact ⟨lines, l, rest, hl, hlast, hr, sub⟩
  | succ u hu ih =>
    obtain ⟨_, _, rest, _, _, hr, sub⟩ := ih (gapless _ some_u u hu (le_succ u))
    obtain ⟨lines, hl⟩ := isSome_iff_exists.1 some_u
    obtain ⟨l, rest', hlast, hr', sub'⟩ := prefetch_next hl hr
    exact ⟨lines, l, rest', hl, hlast, hr', fun _ hx => sub (sub' hx)⟩

/-- Where a replay comes to a timeline. -/
def Entry (a : Archive) (tli no t n : Nat) : Prop :=
  (t = tli ∧ n = no) ∨
    tli < t ∧ ∃ lines l, a.history t = some lines ∧ lines.getLast? = some l ∧ n = l.segment

theorem Needed.entry {t n : Nat} (h : a.Needed tli no t n) :
    ∃ n₀, a.Entry tli no t n₀ ∧ n₀ ≤ n ∧ ∀ j, n₀ ≤ j → j < n → (t, j) ∈ a.segments := by
  induction h with
  | start => exact ⟨no, .inl ⟨rfl, rfl⟩, le_rfl, fun j h₁ h₂ => absurd h₂ (by omega)⟩
  | next _ seg ih =>
    obtain ⟨n₀, entry, le, segs⟩ := ih
    refine ⟨n₀, entry, by omega, fun j h₁ h₂ => ?_⟩
    rcases Nat.lt_succ_iff_lt_or_eq.1 h₂ with h₂ | rfl
    · exact segs j h₁ h₂
    · exact seg
  | @follow t n u lines l _ hl hlast _ lt ih =>
    obtain ⟨n₀, entry, -, -⟩ := ih
    have after : tli < u := by
      rcases entry with ⟨rfl, -⟩ | ⟨before, -⟩
      · exact lt
      · exact before.trans lt
    exact ⟨l.segment, .inr ⟨after, lines, l, hl, hlast, rfl⟩, le_rfl,
      fun j h₁ h₂ => absurd h₂ (by omega)⟩

/-- **The prefetch** has every archived segment that a replay reads. -/
theorem prefetch_needed (gapless : a.Gapless tli) (h : a.prefetch tli no = some got) {t n : Nat}
    (needed : a.Needed tli no t n) (seg : (t, n) ∈ a.segments) : (t, n) ∈ got := by
  obtain ⟨n₀, entry, le, segs⟩ := needed.entry
  obtain ⟨k, rfl⟩ := Nat.exists_eq_add_of_le le
  have all : ∀ j, n₀ ≤ j → j ≤ n₀ + k → (t, j) ∈ a.segments := by
    intro j h₁ h₂
    rcases lt_or_eq_of_le h₂ with h₂ | rfl
    · exact segs j h₁ h₂
    · exact seg
  rcases entry with ⟨rfl, rfl⟩ | ⟨after, lines, l, hl, hlast, rfl⟩
  · exact prefetch_run h all
  · obtain ⟨lines', l', rest, hl', hlast', hr, sub⟩ :=
      prefetch_later gapless after (by rw [hl]; rfl) h
    obtain rfl := some.inj (hl.symm.trans hl')
    obtain rfl := some.inj (hlast.symm.trans hlast')
    exact sub (prefetch_run hr all)

end Archive

/-! ## The restore -/

/-- A restore that is staged, whose server does not promote, and that is rolled back. -/
def siteRollsBack : List Event :=
  [.taskStops, .stopped, .agentBegins, .runs true, .runs true, .runs true, .runs true, .runs true,
    .runs true, .runs true, .taskStarts, .notPromoted true, .taskStops, .stopped, .agentBegins,
    .runs true, .runs true, .runs true, .runs true, .taskStarts]

/-- The sidecar has moved the data aside and made a new `$PGDATA` when the dispatch times out. -/
def siteTimesOut : List Event :=
  [.taskStops, .stopped, .agentBegins, .runs true, .runs true, .runs true, .runs true, .runs true,
    .lost]

end Swarmy.Pitr
