import Swarmy.Dns.Zone
import Swarmy.Machine.Run

/-!
# The chase of CNAMEs

A question for a name with a CNAME asks again for its target.  The questions follow a walk over the
targets of the zone's CNAMEs, explicit names and names that a wildcard makes alike, and a nameserver
that keeps no note of where it has been answers them all exactly where no such walk comes back.
-/

namespace Swarmy.Dns

open List Option

variable {Client : Type} (H : Host Client)

/-- The view that answers a name: its own, or a wildcard's. -/
def answeringView (zone : DnsZoneSnapshot) (qname : String) : Option NameView :=
  if (viewName H zone qname).nameExists then some (viewName H zone qname)
  else (wildcardFor H zone qname).map (·.2)

/-- Where the CNAME of a name in the zone leads within the zone. -/
def followed (zone : DnsZoneSnapshot) (qname : String) : Option String :=
  ((answeringView H zone qname).bind fun view => view.statics.find? (·.type = .cname)).bind
    (inZoneTarget H zone)

/-- The next name that is asked for, when the zone is the only one. -/
def cnameTarget (zone : DnsZoneSnapshot) (name : String) : Option String :=
  if findZone H [zone] (lower H name) = some zone then followed H zone (lower H name) else none

variable {H}

variable {zone : DnsZoneSnapshot} {qname : String} {question : Question} {client : Client}

theorem findZone_singleton {z : DnsZoneSnapshot}
    (h : findZone H [zone] qname = some z) : z = zone := by
  simp only [findZone, foldl_cons, foldl_nil] at h
  split at h
  · exact (some.inj h).symm
  · cases h

/-- A question for another type than `ANY` and `CNAME` chases. -/
def Chases (H : Host Client) (question : Question) : Prop :=
  qtypeOf H question ≠ "ANY" ∧ qtypeOf H question ≠ "CNAME"

theorem isSome_answerExisting {chase : String → Option DnsAnswer} {view : NameView}
    (h : Chases H question) :
    (answerExisting H chase zone qname question client view).isSome = true ↔
      ∀ target, (view.statics.find? (·.type = .cname)).bind (inZoneTarget H zone) = some target →
        (chase target).isSome = true := by
  simp only [answerExisting, if_neg h.1, cnameOf, if_neg h.2]
  cases hcname : view.statics.find? (·.type = .cname) with
  | none => simp
  | some cname =>
    simp only [bind_some]
    cases htarget : inZoneTarget H zone cname with
    | none => simp
    | some target => simp

/-- A question that does not chase is answered at once. -/
theorem isSome_answerExisting_of_not {chase : String → Option DnsAnswer} {view : NameView}
    (h : ¬ Chases H question) :
    (answerExisting H chase zone qname question client view).isSome = true := by
  rw [Chases, not_and_or, not_not, not_not] at h
  by_cases hany : qtypeOf H question = "ANY"
  · simp only [answerExisting, if_pos hany, isSome_some]
  · simp only [answerExisting, if_neg hany, cnameOf, if_pos (h.resolve_left hany), isSome_some]

/-- One question. -/
theorem isSome_answerQuery_succ {depth : Nat} {zones : List DnsZoneSnapshot} (h : Chases H question)
    (hz : findZone H zones (lower H question.name) = some zone) :
    (answerQuery H (depth + 1) zones question client).isSome = true ↔
      ∀ target, followed H zone (lower H question.name) = some target →
        (answerQuery H depth [zone] ⟨target, question.type⟩ client).isSome = true := by
  simp only [answerQuery, hz, followed, answeringView]
  split
  · exact isSome_answerExisting h
  · cases hw : wildcardFor H zone (lower H question.name) with
    | none => simp
    | some p =>
      simp only [isSome_map, map_some, bind_some]
      exact isSome_answerExisting h

theorem isSome_answerQuery_none {depth : Nat} {zones : List DnsZoneSnapshot}
    (hz : findZone H zones (lower H question.name) = none) :
    (answerQuery H (depth + 1) zones question client).isSome = true := by
  simp only [answerQuery, hz, isSome_some]

theorem isSome_answerQuery_of_not {depth : Nat} {zones : List DnsZoneSnapshot}
    (h : ¬ Chases H question) :
    (answerQuery H (depth + 1) zones question client).isSome = true := by
  simp only [answerQuery]
  split
  · rfl
  · split
    · exact isSome_answerExisting_of_not h
    · split
      · rfl
      · rw [isSome_map]
        exact isSome_answerExisting_of_not h

/-- A chase within the zone is a walk. -/
theorem isSome_answerQuery_iff (h : Chases H question) (depth : Nat) (name : String) :
    (answerQuery H depth [zone] ⟨name, question.type⟩ client).isSome = true ↔
      Walk.place (cnameTarget H zone) depth name = none := by
  induction depth generalizing name with
  | zero => simp [answerQuery, Walk.place]
  | succ depth ih =>
    rw [Walk.place, cnameTarget]
    cases hz : findZone H [zone] (lower H name) with
    | none =>
      exact iff_of_true (isSome_answerQuery_none hz) rfl
    | some z =>
      obtain rfl := findZone_singleton hz
      have hsame : Chases H ⟨name, question.type⟩ := h
      rw [if_pos rfl, isSome_answerQuery_succ hsame hz, bind_eq_none_iff]
      exact forall_congr' fun target => imp_congr_right fun _ => ih target

/-- The targets of a zone's CNAMEs. -/
def targets (H : Host Client) (zone : DnsZoneSnapshot) : Finset String :=
  (zone.staticRecords.map fun r => lower H r.value).toFinset

theorem statics_subset {view : NameView}
    (h : answeringView H zone qname = some view) : ∀ r ∈ view.statics, r ∈ zone.staticRecords := by
  have hown : ∀ name, ∀ r ∈ (viewName H zone name).statics, r ∈ zone.staticRecords :=
    fun name r hr =>
    mem_of_mem_filter hr
  have hwild : ∀ names p, encloser H zone names = some p → ∃ name, p.2 = viewName H zone name :=
    fun names => by
    induction names with
    | nil => exact fun p hp => nomatch hp
    | cons name names ih =>
      intro p hp
      rw [encloser] at hp
      split at hp
      · cases hp
      · split at hp
        · split at hp
          · cases hp
          · exact ih p hp
        · simp only at hp
          split at hp
          · obtain rfl := some.inj hp
            exact ⟨_, rfl⟩
          · cases hp
  rw [answeringView] at h
  split at h
  · obtain rfl := some.inj h
    exact hown _
  · obtain ⟨p, hp, rfl⟩ := map_eq_some_iff.mp h
    rw [wildcardFor] at hp
    split at hp
    · cases hp
    · obtain ⟨name, hname⟩ := hwild _ p hp
      rw [hname]
      exact hown name

theorem followed_mem {target : String}
    (h : followed H zone qname = some target) : target ∈ targets H zone := by
  obtain ⟨cname, hcname, htarget⟩ := bind_eq_some_iff.mp h
  obtain ⟨view, hview, hfind⟩ := bind_eq_some_iff.mp hcname
  have hmem := statics_subset hview cname (mem_of_find?_eq_some hfind)
  rw [inZoneTarget] at htarget
  split at htarget
  · obtain rfl := some.inj htarget
    exact mem_toFinset.mpr (mem_map_of_mem hmem)
  · cases htarget

theorem cnameTarget_mem (name target : String)
    (h : cnameTarget H zone name = some target) : target ∈ targets H zone := by
  rw [cnameTarget] at h
  split at h
  · exact followed_mem h
  · cases h

/-- The nameserver answers what is asked of a zone, after no more questions than a bound of the
zone's. -/
def Answered (H : Host Client) (zone : DnsZoneSnapshot) : Prop :=
  ∃ depth, ∀ zones question client, (∀ z ∈ findZone H zones (lower H question.name), z = zone) →
    (answerQuery H depth zones question client).isSome = true

theorem answered_of_bounded {n : Nat}
    (h : ∀ name, Walk.place (cnameTarget H zone) n name = none) : Answered H zone := by
  refine ⟨n + 1, fun zones question client hzones => ?_⟩
  by_cases hchases : Chases H question
  · cases hz : findZone H zones (lower H question.name) with
    | none => exact isSome_answerQuery_none hz
    | some z =>
      obtain rfl := hzones z hz
      refine (isSome_answerQuery_succ hchases hz).mpr fun target _ => ?_
      exact (isSome_answerQuery_iff hchases n target).mpr (h target)
  · exact isSome_answerQuery_of_not hchases

theorem bounded_of_answered [Inhabited Client] (h : Answered H zone) :
    ∃ n, ∀ name, Walk.place (cnameTarget H zone) n name = none := by
  obtain ⟨depth, hdepth⟩ := h
  have hchases : Chases H ⟨"", none⟩ := by
    constructor
    · change "A" ≠ "ANY"
      decide
    · change "A" ≠ "CNAME"
      decide
  refine ⟨depth, fun name => ?_⟩
  have hname := hdepth [zone] ⟨name, none⟩ default fun z hz => findZone_singleton hz
  exact (isSome_answerQuery_iff hchases depth name).mp hname

/-- A composed zone's questions are all answered exactly where no name's CNAMEs, followed through
explicit names and wildcards, lead back to it. -/
theorem answered_iff [Inhabited Client] (H : Host Client) (input : ZoneComposeInput) :
    Answered H (composeZoneSnapshot H.toLowerCase input).snapshot ↔
      ∀ name, ¬ Walk.Returns
        (cnameTarget H (composeZoneSnapshot H.toLowerCase input).snapshot) name := by
  rw [← Walk.exists_fuel_iff cnameTarget_mem]
  exact ⟨bounded_of_answered, fun ⟨_, hn⟩ => answered_of_bounded hn⟩

/-! ## A record that names itself -/

/-- ASCII letters, decimal numbers, and the endpoints as they come. -/
def plainHost : Host Unit where
  toLowerCase := Js.toLowerCase
  toUpperCase := fun s => String.ofList (s.toList.map Char.toUpper)
  number := fun s => .int (Nat.ofDigitChars 10 s.toList 0)
  rank := fun _ ts => ts
  located := fun _ => false

/-- A zone with one record, a CNAME from `loop` to itself. -/
def loopInput : ZoneComposeInput where
  name := "acme.com"
  ttl := 30
  serial := 1
  apexToEdge := true
  autoWww := true
  advertised := []
  autoHosts := []
  endpoints := []
  manualRecords := [⟨"loop", .cname, "loop.acme.com", none, none⟩]
  maxAnswers := none

theorem loop_returns :
    cnameTarget plainHost (composeZoneSnapshot Js.toLowerCase loopInput).snapshot "loop.acme.com" =
      some "loop.acme.com" := by
  decide

/-- The nameserver does not answer all that a zone can hold. -/
theorem not_always_answered : ¬ ∀ input : ZoneComposeInput,
    (∀ r ∈ input.manualRecords, r.valid = true) →
    Answered plainHost (composeZoneSnapshot plainHost.toLowerCase input).snapshot := by
  intro hall
  obtain ⟨n, hn⟩ := bounded_of_answered (hall loopInput (by decide))
  have hreturns : Walk.Returns (cnameTarget plainHost
      (composeZoneSnapshot Js.toLowerCase loopInput).snapshot)
      "loop.acme.com" := ⟨0, by rw [Walk.place, loop_returns]; rfl⟩
  exact hreturns.place_ne_none n (hn _)

end Swarmy.Dns
