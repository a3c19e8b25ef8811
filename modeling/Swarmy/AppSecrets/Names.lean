import Swarmy.Net.LinkName
import Mathlib.Data.List.TakeWhile

/-!
# Names of app secrets

`packages/core/src/app-secrets.ts`: the physical name of one version of a service's
variable, and how a name among those of a live service is read back.  A service name and a
variable may both hold the underscore that joins them, so a name does not say whose it is.
-/

namespace Swarmy.AppSecrets

open List Option

abbrev Text := List Char

scoped instance : LawfulBEq Text := inferInstance

/-- Docker caps object names at 64 characters. -/
def DOCKER_NAME_MAX : Nat := 64

/-- FNV-1a over the code units, as eight hex digits. -/
def fnv8 (s : Text) : Text :=
  (Links.hex8 (Links.half₁ (Links.codeUnits (String.ofList s)))).toList

/-- `_v${version}`. -/
def suffix (version : Nat) : Text := '_' :: 'v' :: Nat.toDigits 10 version

/-- `${service}_${key}${suffix}`. -/
def fullName (service key : Text) (version : Nat) : Text :=
  service ++ '_' :: (key ++ suffix version)

/-- `s.replace(/[_.-]+$/, '')`. -/
def stripEnd (s : Text) : Text :=
  (s.reverse.dropWhile fun c => c = '_' || c = '.' || c = '-').reverse

/-- Physical Docker secret name of one version. -/
def appSecretName (service key : Text) (version : Nat) : Text :=
  let full := fullName service key version
  if full.length ≤ DOCKER_NAME_MAX then full
  else
    let hash := fnv8 (service ++ Char.ofNat 0 :: key)
    let room := DOCKER_NAME_MAX - (suffix version).length - hash.length - 1
    stripEnd (full.take room) ++ '_' :: (hash ++ suffix version)

/-- The digits of `/_v(\d+)$/`, as a number.  The names are those of secrets, whose
versions are safe integers. -/
def versionOf (name : Text) : Option Nat :=
  let digits := (name.reverse.takeWhile Char.isDigit).reverse
  match digits, name.reverse.dropWhile Char.isDigit with
  | d :: ds, 'v' :: '_' :: _ => some (Nat.ofDigitChars 10 (d :: ds) 0)
  | _, _ => none

/-- The versions that some names say, of those that are names for the service and the
key. -/
def matching (service key : Text) (names : List Text) : List (Text × Nat) :=
  names.filterMap fun n =>
    (versionOf n).bind fun v => if appSecretName service key v = n then some (n, v) else none

/-- The first of the highest versions. -/
def best : Option (Text × Nat) → Text × Nat → Option (Text × Nat)
  | none, m => some m
  | some b, m => if m.2 > b.2 then some m else some b

/-- The physical name among `names` for a service and a key, if any. -/
def liveAppSecretFor (service key : Text) (names : List Text) : Option Text :=
  ((matching service key names).foldl best none).map (·.1)

/-! ## Names read back -/

theorem isDigit_of_mem_digits {n : Nat} {c : Char} (h : c ∈ Nat.toDigits 10 n) :
    c.isDigit = true := Nat.isDigit_of_mem_toDigits (by decide) (by decide) h

section

variable {s : Text} {v v' : Nat}

theorem takeWhile_suffix :
    (s ++ suffix v).reverse.takeWhile Char.isDigit = (Nat.toDigits 10 v).reverse := by
  rw [suffix, reverse_append, reverse_cons, reverse_cons, append_assoc,
    append_assoc, takeWhile_append_of_pos
      (fun c hc => isDigit_of_mem_digits (mem_reverse.mp hc)), singleton_append,
    takeWhile_cons_of_neg (by decide), append_nil]

theorem dropWhile_suffix :
    (s ++ suffix v).reverse.dropWhile Char.isDigit = 'v' :: '_' :: s.reverse := by
  rw [suffix, reverse_append, reverse_cons, reverse_cons, append_assoc,
    append_assoc, dropWhile_append_of_pos
      (fun c hc => isDigit_of_mem_digits (mem_reverse.mp hc)), singleton_append,
    dropWhile_cons_of_neg (by decide), singleton_append]

/-- The version of a name is the one that it was made with. -/
theorem versionOf_suffix : versionOf (s ++ suffix v) = some v := by
  unfold versionOf
  rw [takeWhile_suffix, dropWhile_suffix, reverse_reverse]
  obtain ⟨d, ds, hdigits⟩ := exists_cons_of_ne_nil (Nat.toDigits_ne_nil (n := v) (b := 10))
  rw [hdigits]
  show some (Nat.ofDigitChars 10 (d :: ds) 0) = some v
  rw [← hdigits, Nat.ofDigitChars_ten_toDigits]

theorem append_suffix_inj {s' : Text} : s ++ suffix v = s' ++ suffix v' ↔ s = s' ∧ v = v' := by
  constructor
  · intro h
    have hv : v = v' := by
      have := congrArg versionOf h
      rwa [versionOf_suffix, versionOf_suffix, Option.some.injEq] at this
    subst hv
    exact ⟨append_cancel_right h, rfl⟩
  · rintro ⟨rfl, rfl⟩
    rfl

end

/-! ## Names that clash -/

/-- One service is called as the other one, an underscore and some more, and that is what
the other's key begins with. -/
def Extends (service key service' key' : Text) : Prop :=
  ∃ x, service' = service ++ '_' :: x ∧ key = x ++ '_' :: key'

/-- Two services and keys whose joined names read the same. -/
def Clash (service key service' key' : Text) : Prop :=
  Extends service key service' key' ∨ Extends service' key' service key

section

variable {service key service' key' : Text} {version version' : Nat}

theorem joined_eq_iff : service ++ '_' :: key = service' ++ '_' :: key' ↔
    (service = service' ∧ key = key') ∨ Clash service key service' key' := by
  constructor
  · intro h
    rcases append_eq_append_iff.mp h with ⟨m, hs, hk⟩ | ⟨m, hs, hk⟩
    · cases m with
      | nil =>
        rw [append_nil] at hs
        exact .inl ⟨hs.symm, (List.cons.inj hk).2⟩
      | cons c x =>
        rw [cons_append, List.cons.injEq] at hk
        obtain ⟨rfl, hk⟩ := hk
        exact .inr (.inl ⟨x, hs, hk⟩)
    · cases m with
      | nil =>
        rw [append_nil] at hs
        exact .inl ⟨hs, (List.cons.inj hk).2.symm⟩
      | cons c x =>
        rw [cons_append, List.cons.injEq] at hk
        obtain ⟨rfl, hk⟩ := hk
        exact .inr (.inr ⟨x, hs, hk⟩)
  · rintro (⟨rfl, rfl⟩ | ⟨x, rfl, rfl⟩ | ⟨x, rfl, rfl⟩)
    · rfl
    · rw [append_assoc, cons_append]
    · rw [append_assoc, cons_append]

theorem fullName_eq_iff : fullName service key version = fullName service' key' version' ↔
    version = version' ∧ ((service = service' ∧ key = key') ∨ Clash service key service' key') := by
  have happend : ∀ s k v, fullName s k v = (s ++ '_' :: k) ++ suffix v := fun s k v => by
    rw [fullName, append_assoc, cons_append]
  rw [happend, happend, append_suffix_inj, joined_eq_iff, and_comm]

/-- No service or key clashes with itself. -/
theorem not_clash_self : ¬Clash service key service key := by
  rintro (⟨x, h, -⟩ | ⟨x, h, -⟩)
  · have := congrArg List.length h
    rw [length_append, length_cons] at this
    omega
  · have := congrArg List.length h
    rw [length_append, length_cons] at this
    omega

theorem appSecretName_of_fits (h : (fullName service key version).length ≤ DOCKER_NAME_MAX) :
    appSecretName service key version = fullName service key version := if_pos h

end

/-! ## The live name -/

/-- One version of a service's variable. -/
structure Identity where
  service : Text
  key : Text
  version : Nat
  positive : 0 < version
deriving DecidableEq

namespace Identity

variable (i : Identity)

def name : Text := appSecretName i.service i.key i.version

/-- The full name fits in what Docker allows. -/
def Fits : Prop := (fullName i.service i.key i.version).length ≤ DOCKER_NAME_MAX

instance : Decidable i.Fits := inferInstanceAs (Decidable (_ ≤ _))

end Identity

theorem mem_matching {service key : Text} {names : List Text} {n : Text} {v : Nat} :
    (n, v) ∈ matching service key names ↔
      n ∈ names ∧ versionOf n = some v ∧ appSecretName service key v = n := by
  unfold matching
  rw [mem_filterMap]
  constructor
  · rintro ⟨n', hn', h⟩
    obtain ⟨v', hv', h⟩ := bind_eq_some_iff.mp h
    split at h
    · next hname =>
      cases h
      exact ⟨hn', hv', hname⟩
    · cases h
  · rintro ⟨hn, hv, hname⟩
    exact ⟨n, hn, by rw [hv, bind_some, if_pos hname]⟩

theorem best_some (b m : Text × Nat) : best (some b) m = if m.2 > b.2 then some m else some b := rfl

/-- What is kept while the names are gone through is one of them, and none is higher. -/
theorem foldl_best {ms : List (Text × Nat)} {b : Option (Text × Nat)} {r : Text × Nat}
    (h : ms.foldl best b = some r) :
    (b = some r ∨ r ∈ ms) ∧ (∀ m ∈ ms, m.2 ≤ r.2) ∧ ∀ m, b = some m → m.2 ≤ r.2 := by
  induction ms generalizing b with
  | nil =>
    subst h
    exact ⟨.inl rfl, nofun, fun m hm => (some.inj hm).symm ▸ le_refl _⟩
  | cons m ms ih =>
    obtain ⟨hmem, hmax, hbest⟩ := ih h
    have hm : ∃ b', best b m = some b' ∧ m.2 ≤ b'.2 ∧ (b = some b' ∨ b' = m) ∧
        ∀ b₀, b = some b₀ → b₀.2 ≤ b'.2 := by
      cases b with
      | none => exact ⟨m, rfl, le_refl _, .inr rfl, nofun⟩
      | some b₀ =>
        rw [best_some]
        split
        · next hgt => exact ⟨m, rfl, le_refl _, .inr rfl, fun _ h => by cases h; omega⟩
        · next hle => exact ⟨b₀, rfl, by omega, .inl rfl, fun _ h => by cases h; omega⟩
    obtain ⟨b', hb', hmb', hfrom, hb⟩ := hm
    have hb'r := hbest b' hb'
    refine ⟨?_, ?_, fun b₀ h₀ => (hb b₀ h₀).trans hb'r⟩
    · rcases hmem with heq | hmem
      · obtain rfl : b' = r := some.inj (hb'.symm.trans heq)
        rcases hfrom with hfrom | rfl
        · exact .inl hfrom
        · exact .inr mem_cons_self
      · exact .inr (mem_cons_of_mem _ hmem)
    · intro m' hm'
      rcases mem_cons.mp hm' with rfl | hm'
      · exact hmb'.trans hb'r
      · exact hmax m' hm'

theorem foldl_best_isSome (ms : List (Text × Nat)) (b : Text × Nat) :
    ∃ r, ms.foldl best (some b) = some r := by
  induction ms generalizing b with
  | nil => exact ⟨b, rfl⟩
  | cons m ms ih =>
    rw [foldl_cons, best_some]
    split
    · exact ih m
    · exact ih b

section

variable {service key : Text} {names : List Text}

/-- A live name is one of the highest version among those that match. -/
theorem liveAppSecretFor_spec {n : Text} (h : liveAppSecretFor service key names = some n) :
    ∃ v, (n, v) ∈ matching service key names ∧
      ∀ m ∈ matching service key names, m.2 ≤ v := by
  obtain ⟨⟨n', v⟩, hfold, rfl⟩ := map_eq_some_iff.mp h
  obtain ⟨hmem, hmax, -⟩ := foldl_best hfold
  rcases hmem with hmem | hmem
  · cases hmem
  · exact ⟨v, hmem, hmax⟩

theorem liveAppSecretFor_isSome {m : Text × Nat} (h : m ∈ matching service key names) :
    ∃ n, liveAppSecretFor service key names = some n := by
  unfold liveAppSecretFor
  obtain ⟨first, rest, hms⟩ := exists_cons_of_ne_nil (ne_nil_of_mem h)
  obtain ⟨r, hr⟩ := foldl_best_isSome rest first
  exact ⟨r.1, by rw [hms, foldl_cons, best, hr, map_some]⟩

/-- The name that is found was created for the service and the key and no other. -/
def FindsOwn (service key : Text) (created : List Identity) : Prop :=
  ∀ n, liveAppSecretFor service key (created.map Identity.name) = some n →
    ∀ c ∈ created, c.name = n → c.service = service ∧ c.key = key

/-- What was created for a service and a key that clash is older than what was created for
the service and the key themselves. -/
def ClashesAreOlder (service key : Text) (created : List Identity) : Prop :=
  ∀ c ∈ created, Clash service key c.service c.key →
    ∃ d ∈ created, d.service = service ∧ d.key = key ∧ c.version < d.version

/-- What was created matches with the version that it was created with, when it is one's
own or clashes. -/
theorem mem_matching_created {created : List Identity}
    (hfits : ∀ c ∈ created, c.Fits ∧ (fullName service key c.version).length ≤ DOCKER_NAME_MAX)
    {c : Identity} (hc : c ∈ created) {v : Nat} :
    (c.name, v) ∈ matching service key (created.map Identity.name) ↔
      v = c.version ∧ ((service = c.service ∧ key = c.key) ∨
        Clash service key c.service c.key) := by
  obtain ⟨hfit, hfit'⟩ := hfits c hc
  have hname : c.name = fullName c.service c.key c.version := appSecretName_of_fits hfit
  have hversion : versionOf c.name = some c.version := by
    rw [hname, fullName, ← cons_append, ← append_assoc, versionOf_suffix]
  rw [mem_matching, hversion, Option.some.injEq]
  constructor
  · rintro ⟨-, rfl, heq⟩
    rw [appSecretName_of_fits hfit', hname, fullName_eq_iff] at heq
    exact ⟨rfl, heq.2⟩
  · rintro ⟨rfl, hown⟩
    refine ⟨mem_map_of_mem hc, rfl, ?_⟩
    rw [appSecretName_of_fits hfit', hname, fullName_eq_iff]
    exact ⟨rfl, hown⟩

theorem findsOwn_iff {created : List Identity}
    (hfits : ∀ c ∈ created, c.Fits ∧ (fullName service key c.version).length ≤ DOCKER_NAME_MAX) :
    FindsOwn service key created ↔ ClashesAreOlder service key created := by
  constructor
  · intro hown c hc hclash
    have hmem := (mem_matching_created hfits hc (v := c.version)).mpr ⟨rfl, .inr hclash⟩
    obtain ⟨n, hn⟩ := liveAppSecretFor_isSome hmem
    obtain ⟨v, hmatch, hmax⟩ := liveAppSecretFor_spec hn
    have hle : c.version ≤ v := hmax _ hmem
    obtain ⟨d, hd, rfl⟩ := mem_map.mp (mem_matching.mp hmatch).1
    obtain ⟨rfl, -⟩ := (mem_matching_created hfits hd).mp hmatch
    obtain ⟨hservice, hkey⟩ := hown _ hn d hd rfl
    refine ⟨d, hd, hservice, hkey, lt_of_le_of_ne hle fun heq => ?_⟩
    -- At equal versions the two have one name, which then is not the service's own.
    have hname : c.name = d.name := by
      have hc' := (mem_matching.mp hmem).2.2
      have hd' := (mem_matching.mp hmatch).2.2
      rw [← hc', ← hd', heq]
    obtain ⟨hs, hk⟩ := hown _ hn c hc hname
    rw [hs, hk] at hclash
    exact not_clash_self hclash
  · intro holder n hn c hc hname
    obtain ⟨v, hmatch, hmax⟩ := liveAppSecretFor_spec hn
    rw [← hname] at hmatch
    obtain ⟨rfl, hown | hclash⟩ := (mem_matching_created hfits hc).mp hmatch
    · exact ⟨hown.1.symm, hown.2.symm⟩
    · obtain ⟨d, hd, hs, hk, hlt⟩ := holder c hc hclash
      have := hmax _ ((mem_matching_created hfits hd).mpr ⟨rfl, .inl ⟨hs.symm, hk.symm⟩⟩)
      exact absurd this (not_le.mpr hlt)

end

/-- Two versions have one name only when their services and keys clash. -/
theorem name_ne_iff {a b : Identity} (hne : a ≠ b) (ha : a.Fits) (hb : b.Fits) :
    a.name ≠ b.name ↔ ¬(a.version = b.version ∧ Clash a.service a.key b.service b.key) := by
  have hname : a.name = b.name ↔ fullName a.service a.key a.version =
      fullName b.service b.key b.version := by
    rw [Identity.name, Identity.name, appSecretName_of_fits ha, appSecretName_of_fits hb]
  rw [not_iff_not, hname, fullName_eq_iff, and_congr_right_iff]
  intro hversion
  refine or_iff_right fun ⟨hs, hk⟩ => hne ?_
  cases a
  cases b
  cases hs
  cases hk
  cases hversion
  rfl

end Swarmy.AppSecrets
