import Swarmy.Mail.Report

/-!
# A report stays in its organisation

A report that is posted for an organisation should change its rows only, and that by nothing
of the others'.  `postedOnly_iff`: so it is exactly where the report names no recipient or
the original message is not known to be another organisation's.
-/

namespace Mail

open List Option

variable {Org : Type} [DecidableEq Org]

/-- What is an organisation's. -/
def MailState.only (A : Org) (st : MailState Org) : MailState Org where
  domains := st.domains.filter (·.orgId = A)
  credentials := st.credentials.filter (·.orgId = A)
  suppressions := st.suppressions.filter (·.orgId = A)
  events := st.events.filter (·.orgId = A)
  sentIndex id := (st.sentIndex id).filter (·.1 = A)
  trackers B := if B = A then st.trackers A else fun _ => none

section

variable (lib : Library) (posts : EmailCredential Org → ParsedReport → Bool) (ts : Nat) (raw : Text)
  (A : Org) (st st' : MailState Org)

/-- What a report posted for `A` does in two states: the others' rows are as they were, and
`A`'s are alike after it where they were before. -/
structure PostedOnly : Prop where
  kept : ∀ B, B ≠ A → (ingestReport lib st posts ts raw (some A)).1.only B = st.only B
  kept' : ∀ B, B ≠ A → (ingestReport lib st' posts ts raw (some A)).1.only B = st'.only B
  same : st.only A = st'.only A →
    (ingestReport lib st posts ts raw (some A)).1.only A =
      (ingestReport lib st' posts ts raw (some A)).1.only A

/-- No message of another organisation's is known under the id that the report gives. -/
def OwnMessage (report : ParsedReport) : Prop := ∀ p, sentOriginal st report = some p → p.1 = A

/-- A report with recipients is about no message of another organisation's. -/
def OwnReport : Prop :=
  ∀ report, parseReport lib raw = some report → report.recipients ≠ [] → OwnMessage A st report

end

section

variable {lib : Library} {posts : EmailCredential Org → ParsedReport → Bool} {ts : Nat} {raw : Text}
  {A B : Org} {st st' : MailState Org} {report : ParsedReport} {c : Option String}

/-! ## What an organisation sees -/

/-- Searching among `A`'s credentials for one of `A`'s. -/
theorem find?_credential (p : EmailCredential Org → Prop) [DecidablePred p] :
    (st.only A).credentials.find? (fun r => r.orgId = A ∧ p r) =
      st.credentials.find? fun r => r.orgId = A ∧ p r := by
  simp only [MailState.only, List.find?_filter]
  congr 1
  funext r
  by_cases h : r.orgId = A <;> simp [h]

theorem only_only : (st.only A).only A = st.only A := by
  ext
  all_goals simp [MailState.only]

/-- A message that is not another's is known as far as it is `A`'s. -/
theorem sentOriginal_only (h : OwnMessage A st report) :
    sentOriginal (st.only A) report = sentOriginal st report := by
  unfold OwnMessage sentOriginal at h
  unfold sentOriginal
  cases hid : filled report.originalMessageId with
  | none => rfl
  | some id =>
    rw [hid] at h
    simp only [bind_some, MailState.only] at h ⊢
    cases hfirst : st.sentIndex ('<' :: id ++ ['>']) with
    | some p => simp [h p (by rw [hfirst]; rfl)]
    | none =>
      cases hsecond : st.sentIndex id with
      | none => rfl
      | some p => simp [h p (by rw [hfirst, hsecond]; rfl)]

theorem trackedCredential_only :
    trackedCredential (st.only A) report A = trackedCredential st report A := by
  have htracker : (st.only A).trackers A = st.trackers A := if_pos rfl
  unfold trackedCredential
  rw [htracker]
  simp only [find?_credential]

variable (lib) in
/-- A report of `A`'s is attributed to `A`, by what is `A`'s. -/
theorem orgForReport_own (h : OwnMessage A st report) :
    ∃ c, orgForReport lib st report (some A) = some (A, c) ∧
      orgForReport lib (st.only A) report (some A) = some (A, c) := by
  -- a row of the domain is found for `A` only
  have hrow (st : MailState Org) (domain : Option Text) :
      ((domain.bind fun domain => st.domains.find? fun d => d.domain = domain ∧
        (some A).all (d.orgId = ·)).map EmailDomain.orgId).or (some A) = some A := by
    cases domain with
    | none => rfl
    | some domain =>
      rw [bind_some]
      cases hfind : st.domains.find? fun d => d.domain = domain ∧ (some A).all (d.orgId = ·) with
      | none => rfl
      | some d =>
        have hd := List.find?_some hfind
        simp only [all_some, decide_eq_true_eq] at hd
        rw [map_some, some_or, hd.2]
  unfold orgForReport
  rw [sentOriginal_only h]
  cases hsent : sentOriginal st report with
  | some p =>
    obtain rfl : p.1 = A := h p hsent
    exact ⟨_, rfl, rfl⟩
  | none =>
    dsimp only
    rw [hrow, hrow]
    refine ⟨trackedCredential st report A, rfl, ?_⟩
    rw [map_some, trackedCredential_only]

/-! ## What acting changes -/

theorem filter_suppress_of_ne (h : B ≠ A) (rows : List (EmailSuppression Org)) (s : Suppression) :
    (suppress A c rows s).filter (·.orgId = B) = rows.filter (·.orgId = B) := by
  unfold suppress
  split
  next => rfl
  next => rw [filter_append]; simp [h.symm]

theorem filter_suppress_self (rows : List (EmailSuppression Org)) (s : Suppression) :
    (suppress A c rows s).filter (·.orgId = A) = suppress A c (rows.filter (·.orgId = A)) s := by
  have hany : (rows.filter (·.orgId = A)).any (fun r => r.orgId = A ∧ r.address = s.address) =
      rows.any fun r => r.orgId = A ∧ r.address = s.address := by
    simp [List.any_filter]
  unfold suppress
  rw [hany]
  split
  next => rfl
  next => rw [filter_append]; simp

theorem filter_foldl_suppress_of_ne (h : B ≠ A) (ss : List Suppression)
    (rows : List (EmailSuppression Org)) :
    (ss.foldl (suppress A c) rows).filter (·.orgId = B) = rows.filter (·.orgId = B) := by
  induction ss generalizing rows with
  | nil => rfl
  | cons s ss ih => rw [foldl_cons, ih, filter_suppress_of_ne h]

theorem filter_foldl_suppress_self (ss : List Suppression) (rows : List (EmailSuppression Org)) :
    (ss.foldl (suppress A c) rows).filter (·.orgId = A) =
      ss.foldl (suppress A c) (rows.filter (·.orgId = A)) := by
  induction ss generalizing rows with
  | nil => rfl
  | cons s ss ih => rw [foldl_cons, ih, filter_suppress_self, foldl_cons]

theorem filter_events_of_ne (h : B ≠ A) (cred : Option (EmailCredential Org))
    (rs : List ReportRecipient) :
    (rs.map (reportEvent lib report A ts cred)).filter (·.orgId = B) = [] := by
  refine filter_eq_nil_iff.mpr fun e he => ?_
  obtain ⟨r, -, rfl⟩ := mem_map.mp he
  simp [reportEvent, h.symm]

theorem filter_events_self (cred : Option (EmailCredential Org)) (rs : List ReportRecipient) :
    (rs.map (reportEvent lib report A ts cred)).filter (·.orgId = A) =
      rs.map (reportEvent lib report A ts cred) := by
  refine filter_eq_self.mpr fun e he => ?_
  obtain ⟨r, -, rfl⟩ := mem_map.mp he
  exact decide_eq_true rfl

/-- Acting for one organisation leaves the others' as it was. -/
theorem only_actOn_of_ne (h : B ≠ A) : (actOn lib st report posts ts A c).1.only B = st.only B := by
  simp only [actOn, MailState.only, filter_foldl_suppress_of_ne h, filter_append,
    filter_events_of_ne h, append_nil]

/-- Acting for an organisation depends on what is its own. -/
theorem only_actOn_self : (actOn lib st report posts ts A c).1.only A =
    (actOn lib (st.only A) report posts ts A c).1.only A := by
  have hcred (id : String) : (st.only A).credentials.find? (fun r => r.id = id ∧ r.orgId = A) =
      st.credentials.find? fun r => r.id = id ∧ r.orgId = A := by
    have h : (st.only A).credentials.find? (fun r => r.orgId = A ∧ r.id = id) = _ :=
      find?_credential _
    simpa only [and_comm] using h
  ext
  all_goals simp only [actOn, hcred]
  all_goals simp [MailState.only, filter_foldl_suppress_self, filter_events_self]

/-! ## Whether a report stays -/

/-- Without recipients nothing changes. -/
theorem ingestReport_nil (hreport : parseReport lib raw = some report) (h : report.recipients = [])
    (O : Option Org) : (ingestReport lib st posts ts raw O).1 = st := by
  unfold ingestReport
  rw [hreport]
  dsimp only
  split
  next => rfl
  next => simp [actOn, suppressionsFrom, h]

theorem ingestReport_own (posts : EmailCredential Org → ParsedReport → Bool) (ts : Nat)
    (h : OwnReport lib raw A st) :
    (∀ B, B ≠ A → (ingestReport lib st posts ts raw (some A)).1.only B = st.only B) ∧
    (ingestReport lib st posts ts raw (some A)).1.only A =
      (ingestReport lib (st.only A) posts ts raw (some A)).1.only A := by
  cases hreport : parseReport lib raw with
  | none =>
    unfold ingestReport
    rw [hreport]
    exact ⟨fun B _ => rfl, only_only.symm⟩
  | some report =>
    by_cases hnil : report.recipients = []
    · rw [ingestReport_nil hreport hnil, ingestReport_nil hreport hnil]
      exact ⟨fun B _ => rfl, only_only.symm⟩
    · obtain ⟨c, horg, honly⟩ := orgForReport_own lib (h report hreport hnil)
      unfold ingestReport
      rw [hreport]
      dsimp only
      rw [horg, honly]
      exact ⟨fun B hB => only_actOn_of_ne hB, only_actOn_self⟩

/-- A report about a message of another organisation's is logged there. -/
theorem ingestReport_foreign (posts : EmailCredential Org → ParsedReport → Bool) (ts : Nat)
    (h : ¬ OwnReport lib raw A st) :
    ∃ B, B ≠ A ∧ (ingestReport lib st posts ts raw (some A)).1.only B ≠ st.only B := by
  simp only [OwnReport, OwnMessage, not_forall] at h
  obtain ⟨report, hreport, hne, ⟨B, c⟩, hsent, hB⟩ := h
  refine ⟨B, hB, fun heq => hne ?_⟩
  have horg : orgForReport lib st report (some A) = some (B, some c) := by
    unfold orgForReport
    rw [hsent]
  -- the log of `B` has one event more for each recipient
  have hevents := congrArg (fun st => st.events.length) heq
  unfold ingestReport at hevents
  rw [hreport] at hevents
  dsimp only at hevents
  rw [horg] at hevents
  simp only [actOn, MailState.only, filter_append, filter_events_self, length_append,
    length_map] at hevents
  exact eq_nil_of_length_eq_zero (by omega)

end

/-- A report stays in the organisation it was posted for exactly where, in both states, it has
no recipients or its message is not known to be another organisation's. -/
theorem postedOnly_iff (lib : Library)
    (posts : EmailCredential Org → ParsedReport → Bool) (ts : Nat)
    (raw : Text) (A : Org) (st st' : MailState Org) :
    PostedOnly lib posts ts raw A st st' ↔ OwnReport lib raw A st ∧ OwnReport lib raw A st' := by
  constructor
  · intro h
    refine ⟨by_contra fun hforeign => ?_, by_contra fun hforeign => ?_⟩
    · obtain ⟨B, hB, hchanged⟩ := ingestReport_foreign posts ts hforeign
      exact hchanged (h.kept B hB)
    · obtain ⟨B, hB, hchanged⟩ := ingestReport_foreign posts ts hforeign
      exact hchanged (h.kept' B hB)
  · rintro ⟨hown, hown'⟩
    obtain ⟨hkept, hself⟩ := ingestReport_own posts ts hown
    obtain ⟨hkept', hself'⟩ := ingestReport_own posts ts hown'
    exact ⟨hkept, hkept', fun heq => by rw [hself, heq, hself']⟩

/-! ## A report about another organisation's message -/

/-- A library for texts in ASCII without encoded bodies. -/
def asciiLibrary : Library where
  toLowerCase t := t.map Char.toLower
  base64 := id
  latin1 := id

/-- A report that names a message. -/
def forgedReport : Text :=
  ("Content-Type: multipart/report; boundary=x\r\n\r\n" ++
    "--x\r\nContent-Type: message/delivery-status\r\n\r\nReporting-MTA: dns; mx\r\n\r\n" ++
    "Final-Recipient: rfc822; ceo@b.example\r\nAction: failed\r\nStatus: 5.1.1\r\n" ++
    "--x\r\nContent-Type: text/rfc822-headers\r\n\r\nMessage-ID: <m1@b.example>\r\n--x--\r\n").toList

/-- The second organisation has sent it. -/
def sentBySecond : MailState Bool where
  domains := []
  credentials := []
  suppressions := []
  events := []
  sentIndex id := if id = "<m1@b.example>".toList then some (true, "cred-b") else none
  trackers _ _ := none

/-- The first organisation posts it, and the second one's mailbox is suppressed. -/
theorem not_postedOnly_forged :
    ¬ ∀ (lib : Library) (posts : EmailCredential Bool → ParsedReport → Bool) (ts : Nat) (raw : Text)
      (A : Bool) (st st' : MailState Bool), PostedOnly lib posts ts raw A st st' := by
  intro hclaim
  have h := hclaim asciiLibrary (fun _ _ => true) 0 forgedReport false sentBySecond sentBySecond
  -- the kernel is slow to read a text that is put together
  have hparts {a b c d : List Char} : (String.ofList a ++ String.ofList b ++ String.ofList c ++
      String.ofList d).toList = a ++ b ++ c ++ d := by simp
  rw [show forgedReport = _ from hparts] at h
  have hrows := congrArg MailState.suppressions (h.kept true (by decide))
  revert hrows
  decide +kernel

end Mail
