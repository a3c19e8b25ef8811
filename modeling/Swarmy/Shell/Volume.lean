import Mathlib.Tactic.Common
import Mathlib.Data.List.AList
import Mathlib.Data.List.Sort
import Mathlib.Data.List.Dedup
import Mathlib.Data.List.Forall2
import Mathlib.Algebra.BigOperators.Group.List.Basic
import Mathlib.Algebra.GroupWithZero.Nat

/-!
# Directories on a volume

What a shell script's `rm`, `mkdir`, `mv`, `rmdir`, `touch` and redirections do to
the directories of one volume.  A directory has its files and an identity, which a
`mv` keeps, and a mark in which a development records whatever it has to know about
the contents.  A `mv` onto a directory that exists goes inside it, as `mv` does.
What `rm` and `rmdir` take away is recorded in `removed`.
-/

namespace Shell

open List Option AList

section Keep

variable {α : Type} {β : α → Type} [DecidableEq α]

/-- The entries whose keys satisfy `p`. -/
def keep (p : α → Bool) (s : AList β) : AList β :=
  ⟨s.entries.filter fun e => p e.1, s.nodupKeys.sublist filter_sublist⟩

@[simp] theorem lookup_keep (p : α → Bool) (s : AList β) (a : α) :
    (keep p s).lookup a = if p a then s.lookup a else none := by
  refine Option.ext fun b => ?_
  have h : b ∈ (keep p s).lookup a ↔ b ∈ s.lookup a ∧ p a = true := by
    rw [mem_lookup_iff, mem_lookup_iff]
    exact mem_filter
  by_cases hp : p a = true
  · rw [if_pos hp]
    exact h.trans (and_iff_left hp)
  · rw [if_neg hp]
    exact ⟨fun hb => absurd (h.mp hb).2 hp, fun hb => by cases hb⟩

end Keep

/-- The files of a directory, by name. -/
abbrev Files := AList fun _ : String => String

/-- A directory. -/
structure Dir (M : Type) where
  /-- Which directory this is, under whatever name. -/
  ident : Nat
  files : Files
  /-- What is to be known about the contents. -/
  mark : M

namespace Dir

variable {M : Type} (d : Dir M)

/-- `test -f d/f`. -/
def hasFile (f : String) : Bool := (d.files.lookup f).isSome

/-- `test -s d/f`. -/
def nonEmpty (f : String) : Bool := (d.files.lookup f).any (· ≠ "")

/-- `$(cat d/f 2>/dev/null || true)`: without the newlines at its end. -/
def cat (f : String) : String :=
  .ofList ((((d.files.lookup f).getD "").toList.reverse.dropWhile (· = '\n')).reverse)

/-- `printf text > d/f`. -/
def write (f text : String) : Dir M := { d with files := d.files.insert f text }

/-- `touch d/f`. -/
def touch (f : String) : Dir M := if d.hasFile f then d else d.write f ""

/-- `rm -f` of files. -/
def rmFiles (fs : List String) : Dir M := { d with files := keep (fun f => !fs.contains f) d.files }

variable {d}

theorem hasFile_write (f g text : String) :
    (d.write f text).hasFile g = if g = f then true else d.hasFile g := by
  split
  · next h => rw [h, hasFile, write, lookup_insert, isSome_some]
  · next h => rw [hasFile, write, lookup_insert_ne h, hasFile]

theorem nonEmpty_write {f g : String} (h : g ≠ f) (text : String) :
    (d.write f text).nonEmpty g = d.nonEmpty g := by
  rw [nonEmpty, write, lookup_insert_ne h, nonEmpty]

theorem hasFile_touch_self (f : String) : (d.touch f).hasFile f = true := by
  unfold touch
  split
  · assumption
  · rw [hasFile_write, if_pos rfl]

/-- A file that is there is not changed by `touch`. -/
theorem nonEmpty_touch (f g : String) : (d.touch f).nonEmpty g = d.nonEmpty g := by
  unfold touch
  split
  · rfl
  · next h =>
    by_cases hg : g = f
    · have hn : d.files.lookup f = none := by simpa [hasFile] using h
      rw [hg, nonEmpty, write, lookup_insert, nonEmpty, hn]
      rfl
    · exact nonEmpty_write hg _

@[simp] theorem mark_touch (f : String) : (d.touch f).mark = d.mark := by
  unfold touch
  split <;> rfl

@[simp] theorem ident_touch (f : String) : (d.touch f).ident = d.ident := by
  unfold touch
  split <;> rfl

theorem nonEmpty_rmFiles {fs : List String} {g : String} (h : g ∉ fs) :
    (d.rmFiles fs).nonEmpty g = d.nonEmpty g := by
  rw [nonEmpty, rmFiles, lookup_keep, if_pos (by simpa using h), nonEmpty]

theorem hasFile_rmFiles {fs : List String} {g : String} (h : g ∉ fs) :
    (d.rmFiles fs).hasFile g = d.hasFile g := by
  rw [hasFile, rmFiles, lookup_keep, if_pos (by simpa using h), hasFile]

theorem ne_empty_of_nonEmpty {f : String} (h : d.nonEmpty f = true) : d.files ≠ ∅ := by
  intro he
  rw [nonEmpty, he] at h
  cases h

end Dir

/-- A volume. -/
structure Volume (M : Type) where
  /-- The directories at the top, by name. -/
  dirs : AList fun _ : String => Dir M
  /-- The directories that were moved into one of those, by its name. -/
  inside : List (String × Dir M)
  /-- What has been removed, by the name at the top it had. -/
  removed : List (String × Dir M)
  /-- The next directory's identity. -/
  next : Nat

namespace Volume

variable {M : Type}

/-- The directory of this name at the top. -/
def get (v : Volume M) (n : String) : Option (Dir M) := v.dirs.lookup n

/-- `rm -rf` of the directories whose names satisfy `p`. -/
def rm (p : String → Bool) (v : Volume M) : Volume M :=
  { v with
    dirs := keep (fun n => !p n) v.dirs
    inside := v.inside.filter fun e => !p e.1
    removed := v.removed ++ (v.dirs.entries.filter fun e => p e.1).map (fun e => (e.1, e.2)) ++
      v.inside.filter fun e => p e.1 }

/-- `mkdir -p n`. -/
def mkdir (n : String) (mark : M) (v : Volume M) : Volume M :=
  if (v.get n).isSome then v
  else { v with dirs := v.dirs.insert n ⟨v.next, ∅, mark⟩, next := v.next + 1 }

/-- Change the directory `n`, and whether there is one. -/
def modify (n : String) (f : Dir M → Dir M) (v : Volume M) : Bool × Volume M :=
  match v.get n with
  | some d => (true, { v with dirs := v.dirs.insert n (f d) })
  | none => (false, v)

/-- `rmdir n`, and whether it succeeds. -/
def rmdir (n : String) (v : Volume M) : Bool × Volume M :=
  match v.get n with
  | some d =>
    if d.files.entries.isEmpty && v.inside.all (·.1 ≠ n) then (true, v.rm (· = n)) else (false, v)
  | none => (false, v)

/-- `mv src dst`, and whether it succeeds: not where `src` is missing, and not where
`dst` already has something moved into it. -/
def mv (src dst : String) (v : Volume M) : Bool × Volume M :=
  match v.get src with
  | none => (false, v)
  | some d =>
    let dirs := v.dirs.erase src
    let inside := v.inside.map fun e => if e.1 = src then (dst, e.2) else e
    if (v.get dst).isNone then
      (true, { v with dirs := dirs.insert dst d, inside := inside })
    else if v.inside.all (·.1 ≠ dst) then
      (true, { v with dirs := dirs, inside := (dst, d) :: inside })
    else (false, v)

@[simp] theorem get_rm (p : String → Bool) (v : Volume M) (n : String) :
    (v.rm p).get n = if p n then none else v.get n := by
  rw [get, rm, lookup_keep, get]
  cases p n <;> rfl

theorem get_mkdir_self (n : String) (mark : M) (v : Volume M) (h : v.get n = none) :
    (v.mkdir n mark).get n = some ⟨v.next, ∅, mark⟩ := by
  rw [mkdir, if_neg (by simp [h])]
  exact lookup_insert _

theorem get_mkdir_ne {n m : String} (mark : M) (v : Volume M) (h : m ≠ n) :
    (v.mkdir n mark).get m = v.get m := by
  unfold mkdir
  split
  · rfl
  · exact lookup_insert_ne h

theorem modify_of_get {n : String} {v : Volume M} {d : Dir M} (f : Dir M → Dir M)
    (h : v.get n = some d) : v.modify n f = (true, { v with dirs := v.dirs.insert n (f d) }) := by
  rw [modify, h]

theorem modify_of_none {n : String} {v : Volume M} (f : Dir M → Dir M) (h : v.get n = none) :
    v.modify n f = (false, v) := by
  rw [modify, h]

@[simp] theorem get_modify (n m : String) (f : Dir M → Dir M) (v : Volume M) :
    (v.modify n f).2.get m = if m = n then (v.get m).map f else v.get m := by
  cases hd : v.get n with
  | none =>
    rw [modify_of_none f hd]
    split
    · next h => rw [h, hd, map_none]
    · rfl
  | some d =>
    rw [modify_of_get f hd]
    split
    · next h =>
      rw [h, hd]
      exact lookup_insert _
    · next h => exact lookup_insert_ne h

/-- `rmdir` takes away a directory that is empty, or nothing. -/
theorem rmdir_cases (n : String) (v : Volume M) :
    (∃ d, v.get n = some d ∧ d.files = ∅ ∧ (∀ e ∈ v.inside, e.1 ≠ n) ∧
      v.rmdir n = (true, v.rm (· = n))) ∨ v.rmdir n = (false, v) := by
  unfold rmdir
  split
  · next d hd =>
    split
    · next h =>
      simp only [Bool.and_eq_true, List.isEmpty_iff, List.all_eq_true, decide_eq_true_eq] at h
      exact .inl ⟨d, hd, AList.ext h.1, h.2, rfl⟩
    · exact .inr rfl
  · exact .inr rfl

/-- A `mv` that succeeds renames its source, or puts it inside what is already at its
destination. -/
theorem mv_cases {src dst : String} (hne : src ≠ dst) (v : Volume M) :
    v.mv src dst = (false, v) ∨ ∃ d, v.get src = some d ∧
      (v.mv src dst).1 = true ∧ (v.mv src dst).2.get src = none ∧
      (∀ n, n ≠ src → n ≠ dst → (v.mv src dst).2.get n = v.get n) ∧
      (v.get dst = none → (v.mv src dst).2.get dst = some d) ∧
      (∀ d', v.get dst = some d' → (v.mv src dst).2.get dst = some d' ∧
        (dst, d) ∈ (v.mv src dst).2.inside) ∧
      (∀ e ∈ v.inside, (if e.1 = src then (dst, e.2) else e) ∈ (v.mv src dst).2.inside) ∧
      (v.mv src dst).2.removed = v.removed := by
  cases hs : v.get src with
  | none => exact .inl (by simp [mv, hs])
  | some d =>
    have herase : ∀ n, n ≠ src → (v.dirs.erase src).lookup n = v.get n := fun n hn =>
      lookup_erase_ne hn
    cases hd : v.get dst with
    | none =>
      right
      have hmv : v.mv src dst = (true, { v with
          dirs := (v.dirs.erase src).insert dst d
          inside := v.inside.map fun e => if e.1 = src then (dst, e.2) else e }) := by
        simp [mv, hs, hd]
      rw [hmv]
      refine ⟨d, rfl, rfl, ?_, fun n hn hn' => ?_, fun _ => lookup_insert _,
        (fun _ h => by cases h), fun e he => mem_map_of_mem he, rfl⟩
      · exact (lookup_insert_ne hne).trans (lookup_erase _ _)
      · exact (lookup_insert_ne hn').trans (herase n hn)
    | some d₁ =>
      by_cases hall : v.inside.all (·.1 ≠ dst) = true
      · right
        have hmv : v.mv src dst = (true, { v with
            dirs := v.dirs.erase src
            inside := (dst, d) ::
              v.inside.map fun e => if e.1 = src then (dst, e.2) else e }) := by
          rw [mv, hs]
          dsimp only
          rw [if_neg (by simp [hd]), if_pos hall]
        rw [hmv]
        refine ⟨d, rfl, rfl, lookup_erase _ _, fun n hn _ => herase n hn,
          (fun h => by cases h), fun d' h => ⟨?_, mem_cons_self⟩,
          fun e he => mem_cons_of_mem _ (mem_map_of_mem he), rfl⟩
        exact (herase dst hne.symm).trans (hd.trans h)
      · left
        rw [mv, hs]
        dsimp only
        rw [if_neg (by simp [hd]), if_neg hall]

/-! ## What is kept -/

/-- Somewhere on the volume, under a name at the top, there is such a directory. -/
def Holds (P : String → Dir M → Prop) (v : Volume M) : Prop :=
  (∃ n d, v.get n = some d ∧ P n d) ∨ ∃ e ∈ v.inside, P e.1 e.2

/-- Such a directory has been removed. -/
def Lost (P : String → Dir M → Prop) (v : Volume M) : Prop := ∃ e ∈ v.removed, P e.1 e.2

variable {P Q : String → Dir M → Prop} {v : Volume M}

/-- What `rm` takes away is lost, and no more. -/
theorem Holds.rm (p : String → Bool) (h : v.Holds P) :
    (v.rm p).Holds P ∨ (v.rm p).Lost fun n d => p n = true ∧ P n d := by
  rcases h with ⟨n, d, hd, hP⟩ | ⟨e, he, hP⟩
  · by_cases hp : p n = true
    · refine .inr ⟨(n, d), ?_, hp, hP⟩
      refine mem_append_left _ (mem_append_right _ (mem_map.mpr ⟨⟨n, d⟩, ?_, rfl⟩))
      exact mem_filter.mpr ⟨mem_lookup_iff.mp hd, hp⟩
    · exact .inl (.inl ⟨n, d, by rw [get_rm, if_neg hp, hd], hP⟩)
  · by_cases hp : p e.1 = true
    · exact .inr ⟨e, mem_append_right _ (mem_filter.mpr ⟨he, hp⟩), hp, hP⟩
    · exact .inl (.inr ⟨e, mem_filter.mpr ⟨he, by simpa using hp⟩, hP⟩)

theorem Lost.rm (p : String → Bool) (h : v.Lost P) : (v.rm p).Lost P := by
  obtain ⟨e, he, hP⟩ := h
  exact ⟨e, mem_append_left _ (mem_append_left _ he), hP⟩

theorem Holds.mkdir (n : String) (mark : M) (h : v.Holds P) : (v.mkdir n mark).Holds P := by
  by_cases hn : (v.get n).isSome = true
  · rwa [Volume.mkdir, if_pos hn]
  · rcases h with ⟨m, d, hd, hP⟩ | ⟨e, he, hP⟩
    · have hm : m ≠ n := fun h => hn (by rw [← h, hd]; rfl)
      exact .inl ⟨m, d, by rw [get_mkdir_ne mark v hm, hd], hP⟩
    · exact .inr ⟨e, by rwa [Volume.mkdir, if_neg hn], hP⟩

theorem Lost.mkdir (n : String) (mark : M) (h : v.Lost P) : (v.mkdir n mark).Lost P := by
  unfold Volume.mkdir
  split <;> exact h

theorem inside_modify (n : String) (f : Dir M → Dir M) : (v.modify n f).2.inside = v.inside := by
  cases hd : v.get n with
  | none => rw [modify_of_none f hd]
  | some d => rw [modify_of_get f hd]

theorem removed_modify (n : String) (f : Dir M → Dir M) : (v.modify n f).2.removed = v.removed := by
  cases hd : v.get n with
  | none => rw [modify_of_none f hd]
  | some d => rw [modify_of_get f hd]

theorem Holds.modify (n : String) (f : Dir M → Dir M)
    (hf : ∀ d, v.get n = some d → P n d → P n (f d)) (h : v.Holds P) :
    (v.modify n f).2.Holds P := by
  rcases h with ⟨m, d, hd, hP⟩ | ⟨e, he, hP⟩
  · by_cases hm : m = n
    · subst hm
      exact .inl ⟨m, f d, by rw [get_modify, if_pos rfl, hd]; rfl, hf d hd hP⟩
    · exact .inl ⟨m, d, by rw [get_modify, if_neg hm, hd], hP⟩
  · exact .inr ⟨e, by rwa [inside_modify], hP⟩

theorem Lost.modify (n : String) (f : Dir M → Dir M) (h : v.Lost P) : (v.modify n f).2.Lost P := by
  obtain ⟨e, he, hP⟩ := h
  exact ⟨e, by rwa [removed_modify], hP⟩

/-- An empty directory apart, `rmdir` takes nothing away. -/
theorem Holds.rmdir (n : String) (hP : ∀ d, P n d → d.files ≠ ∅) (h : v.Holds P) :
    (v.rmdir n).2.Holds P := by
  rcases rmdir_cases n v with ⟨d₀, hd₀, hempty, hin, he⟩ | he
  · rw [he]
    rcases h with ⟨m, d, hd, hPd⟩ | ⟨e, hmem, hPe⟩
    · have hm : m ≠ n := by
        rintro rfl
        obtain rfl := some.inj (hd₀.symm.trans hd)
        exact hP _ hPd hempty
      exact .inl ⟨m, d, by rw [get_rm, if_neg (by simpa using hm), hd], hPd⟩
    · exact .inr ⟨e, mem_filter.mpr ⟨hmem, by simpa using hin e hmem⟩, hPe⟩
  · rwa [he]

theorem Lost.rmdir (n : String) (h : v.Lost P) : (v.rmdir n).2.Lost P := by
  rcases rmdir_cases n v with ⟨-, -, -, -, he⟩ | he
  · rw [he]
    exact h.rm _
  · rwa [he]

/-- A `mv` takes nothing away. -/
theorem Holds.mv {src dst : String} (hne : src ≠ dst) (hP : ∀ d, P src d → P dst d)
    (h : v.Holds P) : (v.mv src dst).2.Holds P := by
  rcases mv_cases hne v with he | ⟨d, hs, -, -, hother, hnew, hold, hin, -⟩
  · rwa [he]
  · rcases h with ⟨m, d', hd', hPd⟩ | ⟨e, hmem, hPe⟩
    · by_cases hm : m = src
      · subst hm
        obtain rfl := some.inj (hs.symm.trans hd')
        cases hdst : v.get dst with
        | none => exact .inl ⟨dst, d, hnew hdst, hP d hPd⟩
        | some d₁ => exact .inr ⟨(dst, d), (hold d₁ hdst).2, hP d hPd⟩
      · by_cases hm' : m = dst
        · subst hm'
          exact .inl ⟨m, d', (hold d' hd').1, hPd⟩
        · exact .inl ⟨m, d', (hother m hm hm').trans hd', hPd⟩
    · refine .inr ⟨_, hin e hmem, ?_⟩
      split
      · next he => exact hP e.2 (he ▸ hPe)
      · exact hPe

theorem Lost.mv {src dst : String} (hne : src ≠ dst) (h : v.Lost P) : (v.mv src dst).2.Lost P := by
  rcases mv_cases hne v with he | ⟨-, -, -, -, -, -, -, -, hr⟩
  · rwa [he]
  · obtain ⟨e, he, hP⟩ := h
    exact ⟨e, hr ▸ he, hP⟩

end Volume

end Shell
