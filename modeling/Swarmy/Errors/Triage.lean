import Swarmy.Errors.Ingest
import Swarmy.Keyed.Cells

/-!
# Triage is not forgotten

What ingest promises about the issues: it writes over no state but that of a resolved issue
that came back, what an operator decided stands but for that, and each issue that is opened
raises one alert.  `kept_of_careful`: so it is in every state of a run whose state queries
answer what there is, and whose writes to an issue do not overlap.
-/

namespace Errors

open List Option Function

/-! ## The promise -/

namespace State

variable (s : State)

structure Kept : Prop where
  remembered : s.forgot = []
  triage : ∀ fp t, s.triage fp = some t → ∃ r, s.issue fp = some r ∧
    (r.status = t ∨ (t = .resolved ∨ t = .resolvedNextRelease) ∧ r.status = .unresolved)
  opened : s.opened.Nodup
  once : s.alerts.Nodup ∧ ∀ x ∈ s.alerts, x ∈ s.opened
  raised : ∀ x ∈ s.opened, s.ops[x.1]? = some .done → x ∈ s.alerts

end State

/-! ## The condition -/

namespace Op

/-- The issues that an operation has decided about, and not written. -/
def holds : Op → List String
  | .insertEvents planned | .insertIssues planned => planned.map (·.event.fingerprint)
  | .insert row => [row.fingerprint]
  | _ => []

/-- The issues that its next insert writes. -/
def writes : Op → List String
  | .insertIssues planned => planned.map (·.event.fingerprint)
  | .insert row => [row.fingerprint]
  | _ => []

end Op

namespace State

variable (s : State)

/-- No other operation is about to write the issues that an operation writes. -/
def Alone (i : Nat) : Prop :=
  ∀ op, s.ops[i]? = some op → ∀ fp ∈ op.writes,
    ∀ (j : Nat) (op' : Op), j ≠ i → s.ops[j]? = some op' → fp ∉ op'.holds

/-- A state query answers what there is, a millisecond after it was written; an issue is not
written while another operation is about to; a write of issues is not reported as failed; and
what follows it does not fail. -/
def Careful : Move → Prop
  | .answered i answer _ => ∀ at_ events, s.ops[i]? = some (.query at_ events) →
      ∀ fp ∈ events.map Event.fingerprint, s.known answer events fp = s.issue fp ∧
        ∀ r ∈ s.issue fp, r.version < s.now * 1000
  | .found i _ _ _ => ∀ fp status, s.ops[i]? = some (.read fp status) →
      ∀ r ∈ s.issue fp, r.version < s.now * 1000
  | .inserted i => s.Alone i
  | .insertLost i => s.Alone i ∧ ∀ planned, s.ops[i]? = some (.insertIssues planned) ∨
      s.ops[i]? = some (.insertReleases planned) → planned = []
  | .insertFails i => ∀ planned, s.ops[i]? = some (.insertReleases planned) → planned = []
  | _ => True

/-! ## The invariant -/

/-- What is planned for an issue is right as things are. -/
structure PlannedOk (p : Planned) : Prop where
  key : p.row.fingerprint = p.event.fingerprint
  status : p.row.status = .unresolved
  warranted : s.warranted p = true
  newer : ∀ b ∈ s.issue p.event.fingerprint, b.version ≤ p.row.version

structure OpOk (op : Op) : Prop where
  nodup : ∀ planned, op = .insertEvents planned ∨ op = .insertIssues planned ∨
    op = .insertReleases planned → (planned.map (·.event.fingerprint)).Nodup
  planned : ∀ planned, op = .insertEvents planned ∨ op = .insertIssues planned →
    ∀ p ∈ planned, s.PlannedOk p
  row : ∀ row, op = .insert row → ∀ b ∈ s.issue row.fingerprint, b.version ≤ row.version

structure Inv : Prop where
  forgot : s.forgot = []
  triage : ∀ fp t, s.triage fp = some t → ∃ r, s.issue fp = some r ∧
    (r.status = t ∨ (t = .resolved ∨ t = .resolvedNextRelease) ∧ r.status = .unresolved)
  ops : ∀ op ∈ s.ops, s.OpOk op
  openedNodup : s.opened.Nodup
  opened : ∀ x ∈ s.opened,
    (∃ planned, s.ops[x.1]? = some (.insertReleases planned) ∧ x ∈ tagged x.1 planned) ∨
      s.ops[x.1]? = some .done ∧ x ∈ s.alerts
  releases : ∀ (i : Nat) (planned : List Planned), s.ops[i]? = some (.insertReleases planned) →
    ∀ x ∈ tagged i planned, x ∈ s.opened
  alertsNodup : s.alerts.Nodup
  alerts : ∀ x ∈ s.alerts, x ∈ s.opened ∧ s.ops[x.1]? = some .done

variable {s}

/-! ## A plan -/

theorem transition_seenAs (row : IssueRow) (h : row.status = .unresolved) (release : String)
    (timestamp : Int) : decideTransition (some (seenAs row)) release timestamp = .none := by
  simp [decideTransition, seenAs, h]

/-- What a batch plans, by the states that it knows. -/
structure PlanOk (now : Nat) (byFp : String → Option IssueRow) (events : List Event) (p : Planned) :
    Prop where
  mem : p.event ∈ events
  key : p.row.fingerprint = p.event.fingerprint
  status : p.row.status = .unresolved
  version : now * 1000 ≤ p.row.version
  transition :
    decideTransition (byFp p.event.fingerprint) p.event.release p.event.timestamp ≠ .none

theorem plan_ok {at_ now : Nat} {events : List Event} : ∀ (randoms : List Nat)
    (byFp : String → Option IssueRow), ∀ p ∈ plan at_ now randoms byFp events,
      PlanOk now byFp events p := by
  induction events with
  | nil => simp [plan]
  | cons ev events ih =>
    intro randoms byFp p hp
    unfold plan at hp
    split at hp
    · have h := ih randoms byFp p hp
      exact { h with mem := mem_cons_of_mem _ h.mem }
    · next hne =>
        rcases mem_cons.1 hp with rfl | hp
        · exact ⟨mem_cons_self, rfl, rfl, Nat.le_add_right _ _, hne⟩
        · have h := ih _ _ p hp
          refine ⟨mem_cons_of_mem _ h.mem, h.key, h.status, h.version, ?_⟩
          have ht := h.transition
          by_cases heq : p.event.fingerprint = ev.fingerprint
          · rw [if_pos heq, transition_seenAs _ rfl] at ht
            exact absurd rfl ht
          · rwa [if_neg heq] at ht

/-- An issue is planned once. -/
theorem plan_nodup {at_ now : Nat} {events : List Event} : ∀ (randoms : List Nat)
    (byFp : String → Option IssueRow),
      ((plan at_ now randoms byFp events).map (·.event.fingerprint)).Nodup := by
  induction events with
  | nil => simp [plan]
  | cons ev events ih =>
    intro randoms byFp
    unfold plan
    split
    · exact ih randoms byFp
    · refine nodup_cons.2 ⟨fun hmem => ?_, ih _ _⟩
      obtain ⟨p, hp, heq⟩ := mem_map.1 hmem
      have ht := (plan_ok _ _ p hp).transition
      rw [if_pos heq, transition_seenAs _ rfl] at ht
      exact ht rfl

/-! ## An operation goes on -/

variable {s' : State} {op : Op} {i : Nat}

theorem PlannedOk.congr {p : Planned} (h : s.PlannedOk p)
    (hi : s'.issue p.event.fingerprint = s.issue p.event.fingerprint) : s'.PlannedOk p where
  __ := h
  warranted := by
    have hw := h.warranted
    unfold State.warranted at hw ⊢
    rwa [hi]
  newer := hi ▸ h.newer

/-- An operation is not touched by what happens to issues that it does not hold. -/
theorem OpOk.congr (h : s.OpOk op)
    (hi : ∀ fp ∈ op.holds, s'.issue fp = s.issue fp) : s'.OpOk op where
  nodup := h.nodup
  planned planned hop p hp := by
    refine (h.planned planned hop p hp).congr (hi _ ?_)
    rcases hop with rfl | rfl <;> exact mem_map_of_mem hp
  row row hop b hb := by
    subst hop
    rw [hi _ mem_cons_self] at hb
    exact h.row row rfl b hb

theorem opOk_done : s.OpOk .done := ⟨by simp, by simp, by simp⟩

/-- An operation goes on, and the rows, the alerts and what is opened are as they were. -/
theorem Inv.go (h : s.Inv) {op' : Op} (hi : s.ops[i]? = some op) (hok : s.OpOk op')
    (hop : op ≠ .done) (hrel : ∀ planned, op = .insertReleases planned → planned = [])
    (hno : ∀ planned, op' ≠ .insertReleases planned) : (s.goto i op').Inv := by
  have hother {j : Nat} (hj : j ≠ i) : (s.goto i op').ops[j]? = s.ops[j]? := Cells.set_ne hj
  have hself : (s.goto i op').ops[i]? = some op' := Cells.set_self hi
  have hnot : ∀ x ∈ s.opened, x.1 ≠ i := by
    intro x hx hxi
    rcases h.opened x hx with ⟨planned, hj, hmem⟩ | ⟨hj, -⟩
    · rw [hxi, hi] at hj
      rw [hrel planned (some.inj hj)] at hmem
      cases hmem
    · rw [hxi, hi] at hj
      exact hop (some.inj hj)
  refine
    { h with
      ops := fun x hx => ?_
      opened := fun x hx => ?_
      releases := fun j planned hj => ?_
      alerts := fun x hx => ?_ }
  · rcases mem_or_eq_of_mem_set hx with hx | rfl
    · exact (h.ops x hx).congr fun _ _ => rfl
    · exact hok.congr fun _ _ => rfl
  · rw [hother (hnot x hx)]
    exact h.opened x hx
  · have hji : j ≠ i := by
      rintro rfl
      exact hno planned (some.inj (hself.symm.trans hj)).symm.symm
    exact h.releases j planned ((hother hji).symm.trans hj)
  · obtain ⟨hmem, hdone⟩ := h.alerts x hx
    exact ⟨hmem, (hother (hnot x hmem)).trans hdone⟩

theorem Inv.answered (h : s.Inv) {at_ : Nat} {events : List Event} {answer : Answer}
    {randoms : List Nat} (hi : s.ops[i]? = some (.query at_ events))
    (hok : s.Careful (.answered i answer randoms)) :
    (s.goto i (.insertEvents (plan at_ s.now randoms (s.known answer events) events))).Inv := by
  refine h.go hi ⟨?_, ?_, by simp⟩ (by simp) (by simp) (by simp)
  · intro planned hop
    obtain rfl : plan at_ s.now randoms (s.known answer events) events = planned := by
      simpa using hop
    exact plan_nodup _ _
  · intro planned hop p hp
    obtain rfl : plan at_ s.now randoms (s.known answer events) events = planned := by
      simpa using hop
    have hplan := plan_ok _ _ p hp
    obtain ⟨hknown, hversion⟩ := hok at_ events hi _ (mem_map_of_mem hplan.mem)
    refine ⟨hplan.key, hplan.status, ?_, fun b hb => ?_⟩
    · have ht := hplan.transition
      rw [hknown] at ht
      unfold State.warranted
      split
      · rfl
      · rfl
      · next hnone => exact absurd hnone ht
    · exact (hversion b hb).le.trans hplan.version

theorem Inv.found (h : s.Inv) {fp : String} {status : IssueStatus}
    {lastRelease : Option String} {by_ : String} {random : Nat}
    (hi : s.ops[i]? = some (.read fp status)) (hok : s.Careful (.found i lastRelease by_ random))
    (hs : s.step (.found i lastRelease by_ random) = some s') : s'.Inv := by
  simp only [step, hi] at hs
  have hdone : (s.goto i .done).Inv := h.go hi opOk_done (by simp) (by simp) (by simp)
  cases hcur : s.issue fp with
  | none =>
    rw [hcur] at hs
    exact some.inj hs ▸ hdone
  | some cur =>
    cases lastRelease with
    | none =>
      rw [hcur] at hs
      exact some.inj hs ▸ hdone
    | some lastRelease =>
      rw [hcur] at hs
      rw [← some.inj hs]
      split
      · next row hrow =>
          refine h.go hi ⟨by simp, by simp, ?_⟩ (by simp) (by simp) (by simp)
          rintro _ ⟨⟩ b hb
          unfold decided at hrow
          simp only at hrow
          split_ifs at hrow with hbad
          all_goals
            obtain rfl := some.inj hrow
            have hkey : cur.fingerprint = fp := Sql.key_final hcur
            have hlt := hok fp status hi b (hkey ▸ hb)
            exact hlt.le.trans (Nat.le_add_right _ _)
      · exact hdone

/-! ## Rows are written -/

/-- What is kept when an operation writes issues that no other holds. -/
theorem Inv.others (h : s.Inv) {op' : Op} (hi : s.ops[i]? = some op)
    (hops : s'.ops = s.ops.set i op') (hok : s'.OpOk op')
    (hsame : ∀ fp, fp ∉ op.writes → s'.issue fp = s.issue fp)
    (halone : s.Alone i) : ∀ x ∈ s'.ops, s'.OpOk x := by
  intro x hx
  rw [hops] at hx
  rcases Cells.of_mem_set hx with rfl | ⟨j, hne, hj⟩
  · exact hok
  · refine (h.ops x (mem_of_getElem? hj)).congr fun fp hfp => hsame fp fun hw => ?_
    exact halone op hi fp hw j x hne hj hfp

/-- A batch without a change of an issue writes nothing. -/
theorem write_nil : s.write i [] = s := by
  simp [write, tagged]

theorem Inv.insertIssues (h : s.Inv) {planned : List Planned}
    (hi : s.ops[i]? = some (.insertIssues planned)) (hok : s.Alone i) :
    ((s.write i planned).goto i (.insertReleases planned)).Inv := by
  have hop := h.ops _ (mem_of_getElem? hi)
  have hplanned := hop.planned planned (.inr rfl)
  have hnodup := hop.nodup planned (.inr (.inl rfl))
  set s' := (s.write i planned).goto i (.insertReleases planned) with hs'
  have hkeys : (planned.map Planned.row).map IssueRow.fingerprint =
      planned.map (·.event.fingerprint) := by
    rw [List.map_map]
    exact List.map_congr_left fun p hp => (hplanned p hp).key
  have hwritten {p : Planned} (hp : p ∈ planned) : s'.issue p.event.fingerprint = some p.row := by
    rw [← (hplanned p hp).key]
    refine Sql.final_append_of_mem (hkeys ▸ hnodup) (mem_map_of_mem hp) fun b hb => ?_
    rw [(hplanned p hp).key] at hb
    exact (hplanned p hp).newer b hb
  have hsame : ∀ fp, fp ∉ planned.map (·.event.fingerprint) → s'.issue fp = s.issue fp := by
    intro fp hfp
    refine Sql.final_append_of_forall_ne fun x hx heq => hfp ?_
    rw [← hkeys, ← heq]
    exact mem_map_of_mem hx
  have hself : s'.ops[i]? = some (.insertReleases planned) := Cells.set_self hi
  have hother {j : Nat} (hj : j ≠ i) : s'.ops[j]? = s.ops[j]? := Cells.set_ne hj
  have hnot : ∀ x ∈ s.opened, x.1 ≠ i := by
    intro x hx hxi
    rcases h.opened x hx with ⟨q, hj, -⟩ | ⟨hj, -⟩ <;>
    · rw [hxi, hi] at hj
      cases hj
  refine
    { forgot := ?_
      triage := fun fp t ht => ?_
      ops := h.others hi rfl ?_ hsame hok
      openedNodup := ?_
      opened := fun x hx => ?_
      releases := fun j q hj x hx => ?_
      alertsNodup := h.alertsNodup
      alerts := fun x hx => ?_ }
  · show s.forgot ++ _ = []
    rw [h.forgot, nil_append, map_eq_nil_iff, filter_eq_nil_iff]
    intro p hp
    simp [(hplanned p hp).warranted]
  · obtain ⟨r, hr, hstatus⟩ := h.triage fp t ht
    by_cases hfp : fp ∈ planned.map (·.event.fingerprint)
    · obtain ⟨p, hp, rfl⟩ := mem_map.1 hfp
      refine ⟨p.row, hwritten hp, ?_⟩
      rw [(hplanned p hp).status]
      have hw := (hplanned p hp).warranted
      unfold State.warranted at hw
      rw [hr] at hw
      cases t with
      | unresolved => exact .inl rfl
      | resolved => exact .inr ⟨.inl rfl, rfl⟩
      | resolvedNextRelease => exact .inr ⟨.inr rfl, rfl⟩
      | ignored =>
        have hig : r.status = .ignored := by simpa using hstatus
        simp [decideTransition, hig] at hw
    · exact ⟨r, (hsame fp hfp).trans hr, hstatus⟩
  · exact ⟨fun q hq => by
      obtain rfl : planned = q := by simpa using hq
      exact hnodup, by simp, by simp⟩
  · refine nodup_append.2 ⟨h.openedNodup, ?_, ?_⟩
    · have hinj : tagged i planned = (planned.map (·.event.fingerprint)).map (Prod.mk i) := by
        rw [List.map_map]
        rfl
      rw [hinj]
      exact hnodup.map fun _ _ heq => (Prod.mk.inj heq).2
    · rintro x hx y hy rfl
      obtain ⟨p, -, rfl⟩ := mem_map.1 hy
      exact hnot _ hx rfl
  · rcases mem_append.1 hx with hx | hx
    · rw [hother (hnot x hx)]
      exact h.opened x hx
    · obtain ⟨p, hp, rfl⟩ := mem_map.1 hx
      exact .inl ⟨planned, hself, hx⟩
  · by_cases hji : j = i
    · rw [hji] at hj hx
      rw [hself] at hj
      cases hj
      exact mem_append_right _ hx
    · exact mem_append_left _ (h.releases j q ((hother hji).symm.trans hj) x hx)
  · obtain ⟨hmem, hdone⟩ := h.alerts x hx
    exact ⟨mem_append_left _ hmem, (hother (hnot x hmem)).trans hdone⟩

theorem Inv.insert (h : s.Inv) {row : IssueRow} (hi : s.ops[i]? = some (.insert row))
    (hok : s.Alone i) : Inv ({ s with
      rows := s.rows ++ [row]
      triage := update s.triage row.fingerprint (some row.status) }.goto i .done) := by
  have hop := h.ops _ (mem_of_getElem? hi)
  set s' := State.goto { s with
      rows := s.rows ++ [row]
      triage := update s.triage row.fingerprint (some row.status) } i .done with hs'
  have hwritten : s'.issue row.fingerprint = some row :=
    Sql.final_append_self rfl (hop.row row rfl)
  have hsame : ∀ fp, fp ∉ [row.fingerprint] → s'.issue fp = s.issue fp :=
    fun fp hfp => Sql.final_append_ne fun heq => hfp (by simp [heq])
  have hother {j : Nat} (hj : j ≠ i) : s'.ops[j]? = s.ops[j]? := Cells.set_ne hj
  have hself : s'.ops[i]? = some .done :=
    Cells.set_self hi
  have hnot : ∀ x ∈ s.opened, x.1 ≠ i := by
    intro x hx hxi
    rcases h.opened x hx with ⟨q, hj, -⟩ | ⟨hj, -⟩ <;>
    · rw [hxi, hi] at hj
      cases hj
  refine
    { h with
      triage := fun fp t ht => ?_
      ops := h.others hi rfl opOk_done hsame hok
      opened := fun x hx => ?_
      releases := fun j q hj x hx => ?_
      alerts := fun x hx => ?_ }
  · have ht' : update s.triage row.fingerprint (some row.status) fp = some t := ht
    by_cases hfp : fp = row.fingerprint
    · rw [hfp, update_self] at ht'
      rw [hfp]
      exact ⟨row, hwritten, .inl (some.inj ht')⟩
    · rw [update_of_ne hfp] at ht'
      obtain ⟨r, hr, hstatus⟩ := h.triage fp t ht'
      exact ⟨r, (hsame fp (by simpa using hfp)).trans hr, hstatus⟩
  · rw [hother (hnot x hx)]
    exact h.opened x hx
  · have hji : j ≠ i := by
      rintro rfl
      rw [hself] at hj
      cases hj
    exact h.releases j q ((hother hji).symm.trans hj) x hx
  · obtain ⟨hmem, hdone⟩ := h.alerts x hx
    exact ⟨hmem, (hother (hnot x hmem)).trans hdone⟩

/-- The alerts of an operation are raised. -/
theorem Inv.insertReleases (h : s.Inv) {planned : List Planned}
    (hi : s.ops[i]? = some (.insertReleases planned)) :
    Inv ({ s with alerts := s.alerts ++ tagged i planned }.goto i .done) := by
  have hnodup := (h.ops _ (mem_of_getElem? hi)).nodup planned (.inr (.inr rfl))
  set s' := State.goto { s with alerts := s.alerts ++ tagged i planned } i .done with hs'
  have hother {j : Nat} (hj : j ≠ i) : s'.ops[j]? = s.ops[j]? := Cells.set_ne hj
  have hself : s'.ops[i]? = some .done :=
    Cells.set_self hi
  have hnot : ∀ x ∈ s.alerts, x.1 ≠ i := by
    intro x hx hxi
    have hdone := (h.alerts x hx).2
    rw [hxi, hi] at hdone
    cases hdone
  refine
    { h with
      ops := fun x hx => ?_
      opened := fun x hx => ?_
      releases := fun j q hj x hx => ?_
      alertsNodup := ?_
      alerts := fun x hx => ?_ }
  · rcases mem_or_eq_of_mem_set hx with hx | rfl
    · exact (h.ops x hx).congr fun _ _ => rfl
    · exact opOk_done
  · rcases eq_or_ne x.1 i with hxi | hxi
    · right
      refine ⟨hxi ▸ hself, ?_⟩
      rcases h.opened x hx with ⟨q, hj, hmem⟩ | ⟨hj, -⟩
      · rw [hxi] at hj hmem
        cases hi.symm.trans hj
        exact mem_append_right _ hmem
      · rw [hxi, hi] at hj
        cases hj
    · rw [hother hxi]
      exact (h.opened x hx).imp_right fun hdone => ⟨hdone.1, mem_append_left _ hdone.2⟩
  · have hji : j ≠ i := by
      rintro rfl
      rw [hself] at hj
      cases hj
    exact h.releases j q ((hother hji).symm.trans hj) x hx
  · refine nodup_append.2 ⟨h.alertsNodup, ?_, ?_⟩
    · have hinj : tagged i planned = (planned.map (·.event.fingerprint)).map (Prod.mk i) := by
        rw [List.map_map]
        rfl
      rw [hinj]
      exact hnodup.map fun _ _ heq => (Prod.mk.inj heq).2
    · rintro x hx y hy rfl
      obtain ⟨p, -, rfl⟩ := mem_map.1 hy
      exact hnot _ hx rfl
  · rcases mem_append.1 hx with hx | hx
    · obtain ⟨hmem, hdone⟩ := h.alerts x hx
      exact ⟨hmem, (hother (hnot x hx)).trans hdone⟩
    · have hmem := h.releases i planned hi x hx
      obtain ⟨p, -, rfl⟩ := mem_map.1 hx
      exact ⟨hmem, hself⟩

/-! ## A run -/

theorem Inv.begin (h : s.Inv) (hok : s.OpOk op)
    (hno : ∀ planned, op ≠ .insertReleases planned) : Inv { s with ops := s.ops ++ [op] } where
  __ := h
  ops x hx := by
    rcases mem_append.1 hx with hx | hx
    · exact (h.ops x hx).congr fun _ _ => rfl
    · rw [mem_singleton.1 hx]
      exact hok.congr fun _ _ => rfl
  opened x hx := by
    rcases h.opened x hx with ⟨planned, hj, hmem⟩ | ⟨hj, hmem⟩
    · exact .inl ⟨planned, List.getElem?_append_left (List.getElem?_eq_some_iff.1 hj).1 ▸ hj, hmem⟩
    · exact .inr ⟨List.getElem?_append_left (List.getElem?_eq_some_iff.1 hj).1 ▸ hj, hmem⟩
  releases j planned hj := by
    rcases lt_or_ge j s.ops.length with hlt | hge
    · exact h.releases j planned (List.getElem?_append_left hlt ▸ hj)
    · have hmem := mem_of_getElem? ((List.getElem?_append_right hge).symm.trans hj)
      exact absurd (mem_singleton.1 hmem).symm (hno planned)
  alerts x hx := by
    obtain ⟨hmem, hj⟩ := h.alerts x hx
    exact ⟨hmem, List.getElem?_append_left (List.getElem?_eq_some_iff.1 hj).1 ▸ hj⟩

theorem inv_start : start.Inv :=
  ⟨rfl, by simp [start], by simp [start], nodup_nil, by simp [start], by simp [start],
    nodup_nil, by simp [start]⟩

theorem inv_step {s : State} (m : Move) (h : s.Inv) (hok : s.Careful m)
    (hs : s.step m = some s') : s'.Inv := by
  cases m with
  | ingest events =>
    exact some.inj hs ▸ h.begin ⟨by simp, by simp, by simp⟩ (by simp)
  | answered i answer randoms =>
    simp only [step] at hs
    split at hs
    · next hi => exact some.inj hs ▸ h.answered hi hok
    · cases hs
  | inserted i =>
    simp only [step] at hs
    split at hs
    · next planned hi =>
        have hop := h.ops _ (mem_of_getElem? hi)
        refine some.inj hs ▸ h.go hi ⟨?_, ?_, by simp⟩ (by simp) (by simp) (by simp)
        · intro q hq
          obtain rfl : planned = q := by simpa using hq
          exact hop.nodup planned (.inl rfl)
        · intro q hq
          obtain rfl : planned = q := by simpa using hq
          exact hop.planned planned (.inl rfl)
    · next hi => exact some.inj hs ▸ h.insertIssues hi hok
    · next hi => exact some.inj hs ▸ h.insertReleases hi
    · next hi => exact some.inj hs ▸ h.insert hi hok
    · cases hs
  | insertFails i =>
    simp only [step] at hs
    split at hs
    · next hi => exact some.inj hs ▸ h.go hi opOk_done (by simp) (by simp) (by simp)
    · next hi => exact some.inj hs ▸ h.go hi opOk_done (by simp) (by simp) (by simp)
    · next planned hi =>
        refine some.inj hs ▸ h.go hi opOk_done (by simp) ?_ (by simp)
        rintro _ ⟨⟩
        exact hok planned hi
    · next hi => exact some.inj hs ▸ h.go hi opOk_done (by simp) (by simp) (by simp)
    · cases hs
  | insertLost i =>
    obtain ⟨halone, hempty⟩ := hok
    simp only [step] at hs
    split at hs
    · next hi => exact some.inj hs ▸ h.go hi opOk_done (by simp) (by simp) (by simp)
    · next planned hi =>
        refine some.inj hs ▸ h.go hi opOk_done (by simp) ?_ (by simp)
        rintro _ ⟨⟩
        exact hempty planned (.inr hi)
    · next planned hi =>
        obtain rfl := hempty planned (.inl hi)
        rw [write_nil] at hs
        exact some.inj hs ▸ h.go hi opOk_done (by simp) (by simp) (by simp)
    · next hi => exact some.inj hs ▸ h.insert hi halone
    · cases hs
  | setIssueStatus fp status =>
    exact some.inj hs ▸ h.begin ⟨by simp, by simp, by simp⟩ (by simp)
  | found i lastRelease by_ random =>
    have hs' := hs
    simp only [step] at hs
    split at hs
    · next hi => exact h.found hi hok hs'
    · cases hs
  | wait ms =>
    obtain rfl := some.inj hs
    exact ⟨h.forgot, h.triage,
      fun x hx => (h.ops x hx).congr fun _ _ => rfl, h.openedNodup, h.opened,
      h.releases, h.alertsNodup, h.alerts⟩

theorem Inv.kept (h : s.Inv) : s.Kept where
  remembered := h.forgot
  triage := h.triage
  opened := h.openedNodup
  once := ⟨h.alertsNodup, fun x hx => (h.alerts x hx).1⟩
  raised x hx hdone := by
    rcases h.opened x hx with ⟨planned, hj, -⟩ | ⟨-, hmem⟩
    · rw [hdone] at hj
      cases hj
    · exact hmem

/-- An event of an issue. -/
def crash : Event := ⟨"f", "boom", "main", "Error", "error", "node", "", 5⟩

/-- One operation at a time, whose queries are answered and whose inserts of issues are heard of. -/
def oneByOne (s : State) : Move → Bool
  | .answered i answer _ => match s.ops[i]?, answer with
    | some (.query _ events), .rows =>
      events.length ≤ QUERY_LIMIT && s.rows.all (·.version < s.now * 1000)
    | _, _ => false
  | .found _ _ _ _ => s.rows.all (·.version < s.now * 1000)
  | .inserted i => (s.ops.eraseIdx i).all (·.holds = [])
  | .insertLost i => match s.ops[i]? with
    | some (.insert _) => (s.ops.eraseIdx i).all (·.holds = [])
    | _ => false
  | .insertFails _ => false
  | .ingest _ | .setIssueStatus _ _ | .wait _ => true

theorem alone_of_all (h : ((s.ops.eraseIdx i).all (·.holds = [])) = true) : s.Alone i := by
  intro op _ fp _ j op' hne hj
  have hmem : op' ∈ s.ops.eraseIdx i := mem_eraseIdx_iff_getElem?.2 ⟨j, hne, hj⟩
  rw [of_decide_eq_true (all_eq_true.1 h op' hmem)]
  exact not_mem_nil

theorem version_lt {fp : String} (h : s.rows.all (·.version < s.now * 1000) = true) :
    ∀ r ∈ s.issue fp, r.version < s.now * 1000 :=
  fun r hr => of_decide_eq_true (all_eq_true.1 h r (Sql.mem_of_final hr))

theorem careful_of_oneByOne (s : State) (m : Move) (h : s.oneByOne m = true) : s.Careful m := by
  cases m with
  | answered i answer randoms =>
    intro at_ events hi fp hfp
    cases answer with
    | rows =>
      simp only [oneByOne, hi, Bool.and_eq_true, decide_eq_true_eq] at h
      refine ⟨?_, version_lt h.2⟩
      have hlen : (fingerprints events).length ≤ QUERY_LIMIT := by
        refine (dedup_sublist _).length_le.trans ?_
        rw [length_map]
        exact h.1
      rw [known, take_of_length_le hlen]
      exact if_pos (mem_dedup.2 hfp)
    | nothing => simp [oneByOne] at h
    | failed => simp [oneByOne] at h
  | found i lastRelease by_ random => exact fun fp status _ => version_lt h
  | inserted i => exact alone_of_all h
  | insertLost i =>
    simp only [oneByOne] at h
    split at h
    · next hi => exact ⟨alone_of_all h, fun planned hp => by simp [hi] at hp⟩
    · cases h
  | insertFails i => cases h
  | ingest events => trivial
  | setIssueStatus fp status => trivial
  | wait ms => trivial

/-- An issue is opened, resolved and comes back; then it is ignored, of which the operator hears
that it has failed, and its event comes in once more. -/
def triageRun : List Move :=
  [.wait 1, .ingest [crash], .answered 0 .rows [7], .inserted 0, .inserted 0, .inserted 0, .wait 1,
    .setIssueStatus "f" .resolved, .found 1 (some "") "operator" 0, .inserted 1, .wait 1,
    .ingest [crash], .answered 2 .rows [7], .inserted 2, .inserted 2, .inserted 2, .wait 1,
    .setIssueStatus "f" .ignored, .found 3 (some "") "operator" 0, .insertLost 3, .wait 1,
    .ingest [crash], .answered 4 .rows [7], .inserted 4, .inserted 4, .inserted 4]

/-- An ignored issue whose state query fails. -/
def forgetRun : List Move :=
  [.ingest [crash], .answered 0 .rows [7], .inserted 0, .inserted 0, .inserted 0, .wait 1,
    .setIssueStatus "f" .ignored, .found 1 (some "") "operator" 0, .inserted 1, .wait 1,
    .ingest [crash], .answered 2 .failed [7], .inserted 2, .inserted 2]

end State

end Errors
