import Mathlib
import Swarmy.App.Names
import Swarmy.Ingress.AutoAddress

/-!
# Automatic addresses are unique and valid, and settle

Whatever the services, the base and the hosts taken, a second plan over the services as the first
leaves them is empty, and the labels made for new services are valid.  The rest depends on the
passes that meet a host in use: the spare host is written down unchecked, and a moved label takes
its hash without being cut.
-/

namespace Swarmy.Ingress

open List Option

/-! ## Labels -/

/-- Letters, digits and dashes, the first not a dash. -/
structure Opens (l : Text) : Prop where
  chars : ∀ c ∈ l, isLabelChar c = true
  head : ∃ c ∈ l.head?, c ≠ '-'

/-- `^[a-z0-9]([a-z0-9-]*[a-z0-9])?$`, of at most 63 characters. -/
structure ValidLabel (l : Text) : Prop extends Opens l where
  last : ∀ c ∈ l.getLast?, c ≠ '-'
  length : l.length ≤ 63

theorem isLabelChar_iff {c : Char} : isLabelChar c = true ↔ App.isSlugChar c = true ∨ c = '-' := by
  simp [isLabelChar]

theorem ne_of_isLabelChar {c : Char} (h : isLabelChar c = true) : c ≠ '.' := by
  rintro rfl
  revert h
  decide

theorem ne_of_isSlugChar {c : Char} (h : App.isSlugChar c = true) : c ≠ '-' := by
  rintro rfl
  revert h
  decide

theorem length_hash6 (s : Text) : (hash6 s).length = 6 := by
  simp only [hash6, length_drop, length_append, length_replicate]
  omega

theorem mem_hash6 {s : Text} {c : Char} (h : c ∈ hash6 s) : App.isSlugChar c = true := by
  have hmem := mem_of_mem_drop h
  rw [mem_append] at hmem
  rcases hmem with hc | hc
  · rw [eq_of_mem_replicate hc]
    rfl
  · exact App.mem_base36 (by simp) c hc

/-- A hash behind a dash closes any label that opens well. -/
theorem valid_hash_iff {l s : Text} :
    ValidLabel (l ++ '-' :: hash6 s) ↔ Opens l ∧ l.length ≤ 56 := by
  have hlen := length_hash6 s
  constructor
  case mp =>
    rintro ⟨⟨hchars, hhead⟩, -, hmax⟩
    simp only [length_append, length_cons, hlen] at hmax
    refine ⟨⟨fun c hc => hchars c (by simp [hc]), ?_⟩, by omega⟩
    cases l with
    | nil => simp at hhead
    | cons c l => simpa using hhead
  case mpr =>
    rintro ⟨⟨hchars, c, hc, hne⟩, hmax⟩
    refine ⟨⟨?_, c, ?_, hne⟩, ?_, ?_⟩
    · intro d hd
      simp only [mem_append, mem_cons] at hd
      rcases hd with hd | rfl | hd
      · exact hchars d hd
      · rfl
      · exact isLabelChar_iff.2 (.inl (mem_hash6 hd))
    · simp only [mem_def] at hc
      simp [List.head?_append, hc]
    · intro d hd
      have hne : hash6 s ≠ [] := by
        intro h
        simp [h] at hlen
      have hd : d ∈ hash6 s := by
        rw [List.getLast?_append, List.getLast?_cons_of_ne_nil hne] at hd
        rw [List.getLast?_eq_some_getLast hne] at hd
        simp only [some_or, mem_some_iff] at hd
        exact hd ▸ getLast_mem hne
      exact ne_of_isSlugChar (mem_hash6 hd)
    · simp only [length_append, length_cons, hlen]
      omega

theorem Opens.trimmed {l : Text} (h : Opens l) : Opens (trimEndDash (l.take 56)) := by
  obtain ⟨hchars, c, hc, hne⟩ := h
  cases l with
  | nil => simp at hc
  | cons d l =>
    obtain rfl : d = c := by simpa using hc
    rw [trimEndDash]
    split
    case isTrue hlast =>
      have hnil : l.take 55 ≠ [] := by
        intro hnil
        simp [hnil] at hlast
        exact hne hlast
      refine ⟨fun e he => hchars e (mem_of_mem_take (dropLast_subset _ he)), d, ?_, hne⟩
      simp [dropLast_cons_of_ne_nil hnil]
    case isFalse => exact ⟨fun e he => hchars e (mem_of_mem_take he), d, by simp, hne⟩

theorem length_trimEndDash_le (s : Text) : (trimEndDash s).length ≤ s.length := by
  rw [trimEndDash]
  split
  · simp
  · exact le_rfl

theorem Opens.hashed {l : Text} (h : Opens l) (s : Text) : ValidLabel (hashed l s) :=
  valid_hash_iff.2 ⟨h.trimmed, (length_trimEndDash_le _).trans (by simp)⟩

/-! ## Slugs -/

theorem mem_replaceRuns {p : Char → Bool} {inRun : Bool} {s : Text} {c : Char}
    (h : c ∈ replaceRuns p inRun s) : c = '-' ∨ c ∈ s ∧ p c = false := by
  induction s generalizing inRun with
  | nil => simp [replaceRuns] at h
  | cons d s ih =>
    rw [replaceRuns] at h
    grind

theorem head_replaceRuns {s : Text} : ∀ c ∈ (replaceRuns (· = '-') true s).head?, c ≠ '-' := by
  induction s with
  | nil => simp [replaceRuns]
  | cons d s ih =>
    rw [replaceRuns]
    split
    case isTrue => simpa using ih
    case isFalse h => simpa using h

/-- No two dashes stand side by side once the runs are replaced. -/
theorem isChain_replaceRuns {inRun : Bool} {s : Text} :
    (replaceRuns (· = '-') inRun s).IsChain fun a b => a = '-' → b ≠ '-' := by
  induction s generalizing inRun with
  | nil => exact .nil
  | cons d s ih =>
    rw [replaceRuns]
    split
    case isTrue =>
      split
      · exact ih
      · exact isChain_cons.2 ⟨fun b hb _ => head_replaceRuns b hb, ih⟩
    case isFalse h => exact isChain_cons.2 ⟨fun b _ hd => absurd hd (by simpa using h), ih⟩

theorem mem_trimEndDash {s : Text} {c : Char} (h : c ∈ trimEndDash s) : c ∈ s := by
  rw [trimEndDash] at h
  split at h
  · exact dropLast_subset _ h
  · exact h

theorem mem_trimDashes {s : Text} {c : Char} (h : c ∈ trimDashes s) : c ∈ s := by
  have hmem := mem_trimEndDash h
  split at hmem
  · exact mem_of_mem_tail hmem
  · exact hmem

theorem last_trimEndDash {s : Text} (h : s.IsChain fun a b => a = '-' → b ≠ '-') :
    ∀ c ∈ (trimEndDash s).getLast?, c ≠ '-' := by
  intro c hc
  rw [trimEndDash] at hc
  split at hc
  case isTrue hlast =>
    obtain ⟨front, rfl⟩ := List.getLast?_eq_some_iff.1 hlast
    rw [dropLast_concat] at hc
    rintro rfl
    exact (isChain_append.1 h).2.2 '-' hc '-' rfl rfl rfl
  case isFalse hlast =>
    rintro rfl
    exact hlast hc

theorem head_trimEndDash {s : Text} {c : Char} (h : c ∈ (trimEndDash s).head?) : c ∈ s.head? := by
  rw [trimEndDash] at h
  split at h
  case isTrue =>
    cases s with
    | nil => exact h
    | cons d s =>
      cases s with
      | nil => simp at h
      | cons e s => simpa using h
  case isFalse => exact h

theorem head_trimDashes {s : Text} (h : s.IsChain fun a b => a = '-' → b ≠ '-') :
    ∀ c ∈ (trimDashes s).head?, c ≠ '-' := by
  intro c hc
  have hc := head_trimEndDash hc
  split at hc
  case isTrue hhead =>
    cases s with
    | nil => simp at hc
    | cons d s => exact (isChain_cons.1 h).1 c (by simpa using hc) (by simpa using hhead)
  case isFalse hhead =>
    rintro rfl
    exact hhead hc

theorem sanitizeLabel_eq_nil_or (L : Lang) (raw : Text) : sanitizeLabel L raw = [] ∨
      Opens (sanitizeLabel L raw) ∧ ∀ c ∈ (sanitizeLabel L raw).getLast?, c ≠ '-' := by
  rw [or_iff_not_imp_left]
  intro hne
  have hchain : (replaceRuns (· = '-') false
      (replaceRuns (!isLabelChar ·) false (L.toLowerCase raw))).IsChain
        fun a b => a = '-' → b ≠ '-' := isChain_replaceRuns
  obtain ⟨c, l, heq⟩ := exists_cons_of_ne_nil hne
  have hc : c ∈ (sanitizeLabel L raw).head? := by simp [heq]
  refine ⟨⟨?_, c, hc, head_trimDashes hchain c hc⟩, ?_⟩
  · intro d hd
    rcases mem_replaceRuns (mem_trimDashes hd) with rfl | ⟨hd, -⟩
    · rfl
    · rcases mem_replaceRuns hd with rfl | ⟨-, hd⟩
      · rfl
      · simpa using hd
  · refine last_trimEndDash ?_
    split
    · exact hchain.tail
    · exact hchain

/-- The label of a new service is valid. -/
theorem valid_autoLabelFor (L : Lang) (stack serviceName : Text) :
    ValidLabel (autoLabelFor L stack serviceName) := by
  unfold autoLabelFor
  extract_lets standalone svc raw slug label
  have hlabel : Opens label ∧ ∀ c ∈ label.getLast?, c ≠ '-' := by
    by_cases h : slug = []
    · have hspare : ValidLabel ("svc".toList ++ '-' :: hash6 serviceName) :=
        valid_hash_iff.2 ⟨⟨by simp [isLabelChar]; decide, by simp⟩, by decide⟩
      simp only [label, h, if_pos]
      exact ⟨hspare.toOpens, hspare.last⟩
    · simp only [label, h, if_false]
      exact (sanitizeLabel_eq_nil_or L raw).resolve_left h
  split
  case isTrue h => exact ⟨hlabel.1, hlabel.2, h⟩
  case isFalse => exact hlabel.1.hashed serviceName

/-! ## The promise and its condition -/

/-- The label of a host. -/
def labelOf (host : Text) : Text := host.takeWhile (· ≠ '.')

structure TakenHost where
  owner : Text
  host : Text

/-- What a plan is made for.  The base is in lower case, as edges and zones give it. -/
structure Org (L : Lang) where
  candidates : List AutoAddressCandidate
  base : Option Text
  taken : List TakenHost
  base_lower : ∀ b ∈ base, L.toLowerCase b = b

/-- What the loop wants of a service that it does not pass over. -/
inductive Wanted where
  | add (port : Nat)
  | rehost (marker : Text)

variable {L : Lang} {base : Text} {c : AutoAddressCandidate} {cs : List AutoAddressCandidate}
  {s : List Text × List AutoAddressAction} {w : Wanted}

def wanted (L : Lang) (base : Text) (c : AutoAddressCandidate) : Option Wanted :=
  if c.labels.lookup autoAddressLabel = some "false".toList then none
  else
    match c.marker with
    | some marker =>
      if marker ∈ c.routeHosts ∧ ¬ '.' :: base <:+ marker then some (.rehost marker) else none
    | none =>
      if c.routeHosts = [] then (autoAddressEligibility L c).toOption.map .add else none

namespace Wanted

def label (L : Lang) (c : AutoAddressCandidate) : Wanted → Text
  | .add _ => autoLabelFor L c.stack c.serviceName
  | .rehost marker => labelOf marker

/-- The label when the first one's host is in use. -/
def spare (L : Lang) (c : AutoAddressCandidate) : Wanted → Text
  | .add _ => hashed (autoLabelFor L c.stack c.serviceName) c.serviceName
  | .rehost marker => labelOf marker ++ '-' :: hash6 c.serviceName

def given (L : Lang) (base : Text) (taken : List Text) (c : AutoAddressCandidate) (w : Wanted) :
    Text :=
  if hostOf base (w.label L c) ∈ taken then hostOf base (w.spare L c) else hostOf base (w.label L c)

def action (c : AutoAddressCandidate) (host : Text) : Wanted → AutoAddressAction
  | .add port => .add c.serviceId c.serviceName host port
  | .rehost marker => .rehost c.serviceId c.serviceName host marker

end Wanted

namespace Org

def plan (o : Org L) : List AutoAddressAction :=
  planAutoAddresses L o.candidates o.base (o.taken.map (·.host))

/-- The hosts taken by others than this service. -/
def others (o : Org L) (id : Text) : List Text :=
  (o.taken.filter (·.owner ≠ id)).map (L.toLowerCase ·.host)

/-- The host of an action is nobody else's and has a valid label. -/
structure Fits (o : Org L) (a : AutoAddressAction) : Prop where
  foreign : L.toLowerCase a.host ∉ o.others a.serviceId
  label : ValidLabel (labelOf a.host)

/-- The hosts planned are distinct, free and valid, and once they are written down nothing is left
to plan, whichever hosts are then taken. -/
structure Addressed (o : Org L) : Prop where
  distinct : (o.plan.map (·.host)).Nodup
  fits : ∀ a ∈ o.plan, o.Fits a
  settled : ∀ taken, planAutoAddresses L (applyPlan o.plan o.candidates) o.base taken = []

/-- What a pass of the loop has to find: where the first host is in use, the spare host is not
another's and not planned, and a label that moves has room for the hash; where the first host is
free, a label that moves is valid. -/
def ClearPass (o : Org L) (base : Text) (s : List Text × List AutoAddressAction)
    (c : AutoAddressCandidate) : Prop :=
  ∀ w, wanted L base c = some w →
    if hostOf base (w.label L c) ∈ s.1 then
      (hostOf base (w.spare L c) ∉ s.2.map (·.host) ∧
        hostOf base (w.spare L c) ∉ o.others c.serviceId) ∧
      ∀ marker, w = .rehost marker → Opens (labelOf marker) ∧ (labelOf marker).length ≤ 56
    else ∀ marker, w = .rehost marker → ValidLabel (labelOf marker)

/-- Every pass over these services, from the state the passes before it leave. -/
def ClearFrom (o : Org L) (base : Text) :
    List Text × List AutoAddressAction → List AutoAddressCandidate → Prop
  | _, [] => True
  | s, c :: cs => o.ClearPass base s c ∧ o.ClearFrom base (planOne L base s c) cs

def Clear (o : Org L) : Prop :=
  ∀ base, o.base.filter (· ≠ []) = some base →
    o.ClearFrom base (o.taken.map (L.toLowerCase ·.host), []) (sorted o.candidates)

end Org

/-! ## One pass -/

theorem planOne_eq : planOne L base s c =
      match wanted L base c with
      | none => s
      | some w => (w.given L base s.1 c :: s.1, s.2 ++ [w.action c (w.given L base s.1 c)]) := by
  by_cases hauto : c.labels.lookup autoAddressLabel = some "false".toList
  · simp only [planOne, wanted, hauto, if_true]
  · rw [planOne, wanted, if_neg hauto, if_neg hauto]
    cases c.marker with
    | some marker =>
      by_cases hroute : marker ∈ c.routeHosts <;> by_cases hbase : '.' :: base <:+ marker <;>
        simp [hroute, hbase, Wanted.given, Wanted.action, Wanted.label, Wanted.spare, labelOf]
    | none =>
      by_cases hroute : c.routeHosts = []
      · cases autoAddressEligibility L c with
        | error => simp [hroute, Except.toOption]
        | ok port =>
          simp only [hroute, ne_eq, not_true_eq_false, if_true, if_false, Except.toOption,
            map_some]
          rfl
      · simp [hroute]

@[simp] theorem host_action {host : Text} : (w.action c host).host = host := by
  cases w <;> rfl

@[simp] theorem serviceId_action {host : Text} : (w.action c host).serviceId = c.serviceId := by
  cases w <;> rfl

theorem labelOf_hostOf {l : Text} (h : '.' ∉ l) : labelOf (hostOf base l) = l := by
  have hne : ∀ c ∈ l, decide (c ≠ '.') = true := fun c hc => by
    simpa using fun heq : c = '.' => h (heq ▸ hc)
  rw [labelOf, hostOf, takeWhile_append_of_pos hne]
  simp

theorem Opens.dotless {l : Text} (h : Opens l) : '.' ∉ l := fun hdot =>
  ne_of_isLabelChar (h.chars _ hdot) rfl

theorem dotless_labelOf (marker : Text) : '.' ∉ labelOf marker := fun h => by
  simpa using mem_takeWhile_imp h

theorem Wanted.labelOf_label : labelOf (hostOf base (w.label L c)) = w.label L c := by
  cases w with
  | add port => exact labelOf_hostOf (valid_autoLabelFor L _ _).dotless
  | rehost marker => exact labelOf_hostOf (dotless_labelOf marker)

theorem Wanted.labelOf_spare : labelOf (hostOf base (w.spare L c)) = w.spare L c := by
  cases w with
  | add port => exact labelOf_hostOf ((valid_autoLabelFor L _ _).hashed _).dotless
  | rehost marker =>
    refine labelOf_hostOf fun h => ?_
    simp only [spare, mem_append, mem_cons] at h
    rcases h with h | h | h
    · exact dotless_labelOf marker h
    · exact absurd h (by decide)
    · exact ne_of_isLabelChar (isLabelChar_iff.2 (.inl (mem_hash6 h))) rfl

theorem Wanted.valid_label_iff :
    ValidLabel (w.label L c) ↔ ∀ marker, w = .rehost marker → ValidLabel (labelOf marker) := by
  cases w with
  | add port => simp [label, valid_autoLabelFor]
  | rehost marker => simp [label]

theorem Wanted.valid_spare_iff : ValidLabel (w.spare L c) ↔
      ∀ marker, w = .rehost marker → Opens (labelOf marker) ∧ (labelOf marker).length ≤ 56 := by
  cases w with
  | add port => simpa [spare] using (valid_autoLabelFor L _ _).hashed _
  | rehost marker => simp [spare, valid_hash_iff]

theorem lower_hostOf (hbase : L.toLowerCase base = base) {l : Text} (h : ValidLabel l) :
    L.toLowerCase (hostOf base l) = hostOf base l := by
  rw [L.lower_fixed]
  intro c hc
  simp only [hostOf, mem_append, mem_cons] at hc
  rcases hc with hc | rfl | hc
  · exact L.lower_plain c ((isLabelChar_iff.1 (h.chars c hc)).imp_right .inl)
  · exact L.lower_plain _ (.inr (.inr rfl))
  · exact (L.lower_fixed base).1 hbase c hc

namespace Org

variable {o : Org L}

/-- Of a host with this label only its own place is in question. -/
theorem fits_iff (hbase : L.toLowerCase base = base) {a : AutoAddressAction} {l : Text}
    (hhost : a.host = hostOf base l) (hlabel : labelOf (hostOf base l) = l) :
    o.Fits a ↔ hostOf base l ∉ o.others a.serviceId ∧ ValidLabel l := by
  constructor
  case mp =>
    rintro ⟨hforeign, hvalid⟩
    rw [hhost] at hforeign hvalid
    rw [hlabel] at hvalid
    exact ⟨lower_hostOf hbase hvalid ▸ hforeign, hvalid⟩
  case mpr =>
    rintro ⟨hforeign, hvalid⟩
    refine ⟨?_, ?_⟩
    · rwa [hhost, lower_hostOf hbase hvalid]
    · rwa [hhost, hlabel]

/-- The state of the loop: the hosts taken, in lower case, and those planned. -/
def Inv (o : Org L) (s : List Text × List AutoAddressAction) : Prop :=
  ∀ h, h ∈ s.1 ↔ h ∈ o.taken.map (L.toLowerCase ·.host) ∨ h ∈ s.2.map (·.host)

theorem Inv.planOne (h : o.Inv s) : o.Inv (planOne L base s c) := by
  rw [planOne_eq]
  split
  · exact h
  · intro host
    simp only [mem_cons, h host, map_append, mem_append, map_cons, map_nil,
      host_action, not_mem_nil, or_false]
    tauto

theorem others_subset (o : Org L) (id : Text) : o.others id ⊆ o.taken.map (L.toLowerCase ·.host) :=
  map_subset _ (filter_subset_self _)

theorem clearPass_iff (hbase : L.toLowerCase base = base) (h : o.Inv s)
    (hw : wanted L base c = some w) :
    w.given L base s.1 c ∉ s.2.map (·.host) ∧ o.Fits (w.action c (w.given L base s.1 c)) ↔
      o.ClearPass base s c := by
  have hpass : o.ClearPass base s c ↔ _ :=
    ⟨fun hclear => hclear w hw, fun hclear w' hw' => by
      obtain rfl : w = w' := some.inj (hw.symm.trans hw')
      exact hclear⟩
  rw [hpass, Wanted.given]
  split
  case isTrue =>
    rw [fits_iff hbase host_action Wanted.labelOf_spare, serviceId_action, Wanted.valid_spare_iff,
      and_assoc]
  case isFalse hfree =>
    rw [fits_iff hbase host_action Wanted.labelOf_label, serviceId_action, Wanted.valid_label_iff]
    rw [h, not_or] at hfree
    exact ⟨fun hfits => hfits.2.2, fun hvalid =>
      ⟨hfree.2, fun hmem => hfree.1 (o.others_subset _ hmem), hvalid⟩⟩

/-! ## The whole loop -/

/-- Distinct hosts, each free and valid. -/
def Sound (o : Org L) (out : List AutoAddressAction) : Prop :=
  (out.map (·.host)).Nodup ∧ ∀ a ∈ out, o.Fits a

theorem sound_concat {out : List AutoAddressAction} {a : AutoAddressAction} :
    o.Sound (out ++ [a]) ↔ o.Sound out ∧ a.host ∉ out.map (·.host) ∧ o.Fits a := by
  rw [Sound, Sound, map_append, map_singleton, nodup_append_comm,
    singleton_append, nodup_cons]
  simp only [mem_append, mem_singleton, or_imp, forall_and, forall_eq]
  tauto

theorem sound_run (hbase : L.toLowerCase base = base) (h : o.Inv s) :
    o.Sound (cs.foldl (planOne L base) s).2 ↔ o.Sound s.2 ∧ o.ClearFrom base s cs := by
  induction cs generalizing s with
  | nil => simp [ClearFrom]
  | cons c cs ih =>
    rw [foldl_cons, ih h.planOne, ClearFrom, ← and_assoc]
    refine and_congr_left' ?_
    cases hw : wanted L base c with
    | none =>
      rw [planOne_eq, hw]
      exact ⟨fun hsound => ⟨hsound, fun w hw' => by simp [hw] at hw'⟩, And.left⟩
    | some w =>
      rw [planOne_eq, hw]
      rw [sound_concat, host_action, clearPass_iff hbase h hw]

end Org

/-! ## Settling -/

theorem ends_run (h : ∀ a ∈ s.2, '.' :: base <:+ a.host) :
    ∀ a ∈ (cs.foldl (planOne L base) s).2, '.' :: base <:+ a.host := by
  induction cs generalizing s with
  | nil => exact h
  | cons c cs ih =>
    refine ih ?_
    rw [planOne_eq]
    split
    · exact h
    · simp only [mem_append, mem_singleton]
      rintro a (ha | rfl)
      · exact h a ha
      · rw [host_action, Wanted.given]
        split <;> exact suffix_append _ _

/-- Who is acted on: those of whom the loop wants something. -/
theorem serviceIds_run : (cs.foldl (planOne L base) s).2.map (·.serviceId) =
      s.2.map (·.serviceId) ++ (cs.filter fun c => (wanted L base c).isSome).map (·.serviceId) := by
  induction cs generalizing s with
  | nil => simp
  | cons c cs ih =>
    rw [foldl_cons, ih, planOne_eq]
    cases hw : wanted L base c <;> simp [hw]

theorem run_idle (h : ∀ c ∈ cs, wanted L base c = none) : cs.foldl (planOne L base) s = s := by
  induction cs with
  | nil => rfl
  | cons c cs ih =>
    rw [forall_mem_cons] at h
    rw [foldl_cons, planOne_eq, h.1]
    exact ih h.2

theorem wanted_stamped {a : AutoAddressAction} (h : '.' :: base <:+ a.host) :
    wanted L base (c.stamped a) = none := by
  have hne : a.host ≠ [] := by
    intro heq
    simp [heq] at h
  have hmarker : (c.stamped a).marker = some a.host := by
    have hlookup : (c.stamped a).labels.lookup autoAddressHostLabel = some a.host := rfl
    simp [AutoAddressCandidate.marker, hlookup, hne]
  rw [wanted, hmarker]
  simp [h]

theorem mem_sorted : c ∈ sorted cs ↔ c ∈ cs := (perm_insertionSort _ cs).mem_iff

theorem Org.settled (o : Org L) (taken : List Text) :
    planAutoAddresses L (applyPlan o.plan o.candidates) o.base taken = [] := by
  cases hbase : o.base.filter (· ≠ []) with
  | none => simp only [planAutoAddresses, hbase]
  | some base =>
    simp only [planAutoAddresses, hbase]
    rw [run_idle]
    intro c hc
    obtain ⟨c, hmem, rfl⟩ := mem_map.1 (mem_sorted.1 hc)
    have hplan : o.plan = ((sorted o.candidates).foldl (planOne L base)
        ((o.taken.map (·.host)).map L.toLowerCase, [])).2 := by
      simp only [Org.plan, planAutoAddresses, hbase]
    cases hfind : o.plan.find? (·.serviceId = c.serviceId) with
    | some a =>
      have ha := mem_of_find?_eq_some hfind
      rw [hplan] at ha
      exact wanted_stamped (ends_run (by simp) a ha)
    | none =>
      by_contra hw
      have hid : c.serviceId ∈ o.plan.map (·.serviceId) := by
        rw [hplan, serviceIds_run]
        refine mem_append_right _ (mem_map_of_mem (mem_filter.2 ?_))
        exact ⟨mem_sorted.2 hmem, isSome_iff_ne_none.2 hw⟩
      obtain ⟨a, ha, heq⟩ := mem_map.1 hid
      simpa [heq] using List.find?_eq_none.1 hfind a ha

/-- Automatic addresses are unique and valid and settle exactly when every pass of the loop finds
the spare host free where it needs it, and a label to move that is valid and has the room. -/
theorem addressed_iff (L : Lang) (o : Org L) : o.Addressed ↔ o.Clear := by
  have hsound : o.Addressed ↔ o.Sound o.plan :=
    ⟨fun h => ⟨h.distinct, h.fits⟩, fun h => ⟨h.1, h.2, o.settled⟩⟩
  rw [hsound, Org.Clear, Org.plan, planAutoAddresses]
  cases hbase : o.base.filter (· ≠ []) with
  | none => simp [Org.Sound]
  | some base =>
    have hlower : L.toLowerCase base = base := o.base_lower base (filter_eq_some_iff.1 hbase).1
    have hinv : o.Inv (o.taken.map (L.toLowerCase ·.host), []) := fun h => by simp
    simp only [List.map_map]
    refine (Org.sound_run hlower hinv).trans ?_
    simp [Org.Sound]

/-- Lower-casing of the ASCII letters, and decimals for `Number`. -/
def asciiLang : Lang where
  toLowerCase := List.map Char.toLower
  number s := (String.ofList s).toInt?
  lower_fixed s := by
    induction s with
    | nil => simp
    | cons c s ih => simpa using fun _ => ih
  lower_plain c h := by
    have hsmall : ¬ (65 ≤ c.toNat ∧ c.toNat ≤ 90) := by
      rcases h with h | rfl | rfl
      · intro hupper
        simp only [App.isSlugChar, Char.isLower, Char.isDigit, Bool.or_eq_true, Bool.and_eq_true,
          decide_eq_true_eq, ge_iff_le, UInt32.le_iff_toNat_le] at h
        have : c.val.toNat = c.toNat := rfl
        simp at h
        omega
      · decide
      · decide
    simp [Char.toLower, UInt32.le_iff_toNat_le]
    intro h₁ h₂
    exact absurd ⟨h₁, h₂⟩ hsmall

/-- Both hosts `shop_web` could get belong to other services. -/
def crowdedOrg : Org asciiLang where
  candidates := [{
    serviceId := "s1".toList, serviceName := "shop_web".toList, stack := "shop".toList, labels := []
    ports := [⟨3000, "tcp".toList⟩], exposedTcp := [], routeHosts := [] }]
  base := some "10-0-0-1.sslip.io".toList
  taken := [⟨"s2".toList, "web-shop.10-0-0-1.sslip.io".toList⟩,
    ⟨"s3".toList, "web-shop-nia4ic.10-0-0-1.sslip.io".toList⟩]
  base_lower := by decide

theorem not_addressed_crowded : ¬ ∀ (L : Lang) (o : Org L), o.Addressed := by
  intro hclaim
  have hplan : crowdedOrg.plan = [.add "s1".toList "shop_web".toList
      "web-shop-nia4ic.10-0-0-1.sslip.io".toList 3000] := by decide +kernel
  have hfits := (hclaim asciiLang crowdedOrg).fits
  rw [hplan, forall_mem_singleton] at hfits
  exact hfits.foreign (by decide +kernel)

end Swarmy.Ingress
