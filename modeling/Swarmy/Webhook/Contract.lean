import Swarmy.Keyed.Cells
import Swarmy.Webhook.Dispatch

/-!
# The retry contract

What the worker promises of each delivery: a bounded number of requests that its row counts,
one at a time, none after it was taken, and a turn for every row that is due.
`contract_of_careful`: so it is in every state that is reached while drains do not overlap, lookups
and writes do not fail, and secrets of active endpoints can be decrypted.
-/

namespace Webhook

open List Option Nat

/-! ## The contract -/

namespace Phase

/-- The rows that a drain still has, with the one it is at. -/
def todo : Phase → List Delivery
  | .lookup row rest | .post row rest | .write row rest _ _ => row :: rest
  | .query | .done => []

/-- The rows that it has not begun. -/
def waiting : Phase → List Delivery
  | .lookup row rest => row :: rest
  | .post _ rest | .write _ rest _ _ => rest
  | .query | .done => []

/-- The row whose request is made or written down. -/
def begun : Phase → Option String
  | .post row _ | .write row _ _ _ => some row.id
  | .query | .lookup _ _ | .done => none

end Phase

namespace State

variable (s : State)

/-- No drain has begun the row. -/
def Idle (id : String) : Prop := ∀ d ∈ s.drains, d.phase.begun ≠ some id

structure Contract : Prop where
  limit : ∀ id, (s.sent id).posts ≤ MAX_ATTEMPTS
  counted : ∀ r ∈ s.rows, s.Idle r.id → r.attempts = (s.sent r.id).posts
  alone : ∀ (n m : Nat) (d e : Drain) (row row' : Delivery) (rest rest' : List Delivery),
    s.drains[n]? = some d → s.drains[m]? = some e →
    d.phase = .post row rest → e.phase = .post row' rest' → row.id = row'.id → n = m
  once : ∀ id, (s.sent id).again = false
  kept : ∀ r ∈ s.rows, (s.sent r.id).taken = true → r.status = .delivered ∨
    ∃ d ∈ s.drains, ∃ (row : Delivery) (rest : List Delivery) (attempts at_ : Nat) (inTry : Bool),
      d.phase = .write row rest (.delivered attempts at_) inTry ∧ row.id = r.id
  /-- Each drain makes what was due at an earlier time a batch shorter, whosever it is. -/
  fair : ∀ d ∈ s.drains, d.phase = .done → ∀ t < d.fetchedAt,
    s.rows.countP (·.due t) ≤ d.seen.countP (·.due t) - BATCH

/-! ## The condition -/

/-- A drain starts when the one before is over; no lookup fails, and no write but to a row that is
gone; and the secret of an active endpoint can be decrypted. -/
def Careful : Move → Prop
  | .tick => ∀ d ∈ s.drains, d.phase = .done
  | .lookupFails _ => False
  | .lookedUp n => ∀ d row rest, s.drains[n]? = some d → d.phase = .lookup row rest →
      ∀ e, s.endpoint? row.endpointId = some e → e.active = true → e.decryptable = true
  | .writeFails n _ => ∀ d row rest w inTry, s.drains[n]? = some d →
      d.phase = .write row rest w inTry → ∀ r ∈ s.rows, r.id ≠ row.id
  | _ => True

/-! ## The invariant -/

/-- A row that no drain has begun says what was sent of it. -/
structure Settled (r : Delivery) (x : Sent) : Prop where
  attempts : r.attempts = x.posts
  taken : x.taken = true ↔ r.status = .delivered
  open_ : r.status = .pending → r.attempts < MAX_ATTEMPTS

/-- Of what was due before the query, a drain has left what it did not take or has yet to do. -/
structure Fair (d : Drain) : Prop where
  batch : IsBatch d.seen d.fetchedAt d.batch
  seen : (d.seen.map Delivery.id).Nodup
  ahead : ∀ t < d.fetchedAt, ∀ r ∈ s.rows, r.due t = true →
    (∃ r' ∈ d.seen, r'.id = r.id ∧ r'.due t = true) ∧
      (r.id ∈ d.batch.map Delivery.id → r.id ∈ d.phase.todo.map Delivery.id)

/-- What a drain knows of the rows that it has. -/
structure DrainOk (d : Drain) : Prop where
  past : d.fetchedAt ≤ s.now
  nodup : (d.phase.todo.map Delivery.id).Nodup
  used : ∀ x ∈ d.phase.todo, x.id ∈ s.used
  waiting : ∀ x ∈ d.phase.waiting, s.sent x.id = ⟨x.attempts, false, false⟩ ∧
    x.attempts < MAX_ATTEMPTS
  post : ∀ row rest, d.phase = .post row rest →
    s.sent row.id = ⟨row.attempts + 1, false, false⟩ ∧ row.attempts < MAX_ATTEMPTS
  write : ∀ row rest w inTry, d.phase = .write row rest w inTry →
    ∀ r ∈ s.rows, r.id = row.id → Settled (w.apply r) (s.sent row.id)
  later : ∀ row rest a er next inTry, d.phase = .write row rest (.retry a er next) inTry →
    ∀ e ∈ s.drains, e.fetchedAt ≤ next
  fair : d.phase ≠ .query → s.Fair d

structure Inv : Prop where
  ids : (s.rows.map Delivery.id).Nodup
  used : ∀ r ∈ s.rows, r.id ∈ s.used
  fresh : ∀ id, id ∉ s.used → s.sent id = ⟨0, false, false⟩
  log : ∀ id, (s.sent id).posts ≤ MAX_ATTEMPTS ∧ (s.sent id).again = false
  lone : ∀ (n m : Nat) (d e : Drain), s.drains[n]? = some d → s.drains[m]? = some e →
    d.phase ≠ .done → e.phase ≠ .done → n = m
  drain : ∀ d ∈ s.drains, s.DrainOk d
  settled : ∀ r ∈ s.rows, s.Idle r.id → Settled r (s.sent r.id)

variable {s}

/-! ## A drain goes on -/

variable {d : Drain} {s' : State} {a n : Nat} {r row : Delivery} {rest : List Delivery}

theorem DrainOk.of_done (hd : d.phase = .done) (hp : d.fetchedAt ≤ s.now)
    (hf : s.Fair d) : s.DrainOk d where
  past := hp
  nodup := by simp [hd, Phase.todo]
  used := by simp [hd, Phase.todo]
  waiting := by simp [hd, Phase.waiting]
  post row rest h := by simp [hd] at h
  write row rest w inTry h := by simp [hd] at h
  later row rest a er next inTry h := by simp [hd] at h
  fair _ := hf

/-- Rows that were not due before are not what a drain has to answer for. -/
theorem Fair.rows (h : s.Fair d)
    (hr : ∀ r ∈ s'.rows, ∀ t < d.fetchedAt, r.due t = true → r ∈ s.rows) : s'.Fair d where
  __ := h
  ahead t ht r hrs hdue := h.ahead t ht r (hr r hrs t ht hdue) hdue

/-- The others are done. -/
theorem Inv.others (h : s.Inv) {d' e : Drain} (hn : s.drains[n]? = some d) (hd : d.phase ≠ .done)
    (he : e ∈ s.drains.set n d') : e = d' ∨ e ∈ s.drains ∧ e.phase = .done := by
  simpa using Cells.Lone.mem_set (P := fun d : Drain => d.phase ≠ .done) h.lone hn hd he

/-- One drain moves, with the rows and what was sent. -/
theorem Inv.set (h : s.Inv) {d' : Drain} (hn : s.drains[n]? = some d)
    (hd : d.phase ≠ .done) (hdrains : s'.drains = s.drains.set n d') (hnow : s'.now = s.now)
    (hused : s'.used = s.used) (hids : s'.rows.map Delivery.id = s.rows.map Delivery.id)
    (hfresh : ∀ id, id ∉ s.used → s'.sent id = s.sent id)
    (hlog : ∀ id, (s'.sent id).posts ≤ MAX_ATTEMPTS ∧ (s'.sent id).again = false)
    (hrows : ∀ e ∈ s.drains, ∀ r ∈ s'.rows, ∀ t < e.fetchedAt, r.due t = true → r ∈ s.rows)
    (hd' : s'.DrainOk d')
    (hset : ∀ r ∈ s'.rows, d'.phase.begun ≠ some r.id → Settled r (s'.sent r.id)) : s'.Inv where
  ids := hids ▸ h.ids
  used r hr := by
    have hmem : r.id ∈ s.rows.map Delivery.id := hids ▸ mem_map_of_mem hr
    obtain ⟨r₀, hr₀, hid⟩ := mem_map.1 hmem
    rw [hused, ← hid]
    exact h.used r₀ hr₀
  fresh id hid := by
    rw [hused] at hid
    rw [hfresh id hid, h.fresh id hid]
  log := hlog
  lone := hdrains ▸ Cells.Lone.set (P := fun d : Drain => d.phase ≠ .done) h.lone hn hd
  drain e he := by
    rw [hdrains] at he
    rcases h.others hn hd he with rfl | ⟨hmem, hdone⟩
    · exact hd'
    · have hok := h.drain e hmem
      refine .of_done hdone (hnow ▸ hok.past) ?_
      exact (hok.fair (by simp [hdone])).rows (hrows e hmem)
  settled r hr hidle := by
    apply hset r hr
    refine hidle d' ?_
    rw [hdrains]
    exact mem_set (List.getElem?_eq_some_iff.1 hn).1 d'

/-- A row that the active drain has not begun is idle. -/
theorem Inv.idle (h : s.Inv) (hn : s.drains[n]? = some d)
    (hd : d.phase ≠ .done) {id : String} (hid : d.phase.begun ≠ some id) : s.Idle id := by
  intro e he
  rcases Cells.Lone.mem (P := fun d : Drain => d.phase ≠ .done) h.lone hn hd he with rfl | hdone
  · exact hid
  · simp [not_not.1 hdone, Phase.begun]

/-- A drain stays at the row that it has. -/
theorem DrainOk.stay {phase : Phase} (h : s.DrainOk d) (hq : d.phase ≠ .query)
    (hnow : s'.now = s.now) (hused : s'.used = s.used) (hrows : s'.rows = s.rows)
    (htodo : phase.todo = d.phase.todo) (hwait : ∀ x ∈ phase.waiting, x ∈ d.phase.waiting)
    (hsent : ∀ x ∈ phase.waiting, s'.sent x.id = s.sent x.id)
    (hpost : ∀ row rest, phase = .post row rest →
      s'.sent row.id = ⟨row.attempts + 1, false, false⟩ ∧ row.attempts < MAX_ATTEMPTS)
    (hwrite : ∀ row rest w inTry, phase = .write row rest w inTry →
      ∀ r ∈ s.rows, r.id = row.id → Settled (w.apply r) (s'.sent row.id))
    (hlater : ∀ row rest a er next inTry, phase = .write row rest (.retry a er next) inTry →
      ∀ e ∈ s'.drains, e.fetchedAt ≤ next) : s'.DrainOk { d with phase } where
  past := hnow ▸ h.past
  nodup := by
    exact htodo ▸ h.nodup
  used x hx := by
    rw [hused]
    apply h.used x
    exact htodo ▸ hx
  waiting x hx := by
    rw [hsent x hx]
    exact h.waiting x (hwait x hx)
  post := hpost
  write row rest w inTry hp r hr := hwrite row rest w inTry hp r (hrows ▸ hr)
  later := hlater
  fair _ := by
    have hf : s'.Fair d := (h.fair hq).rows fun r hr _ _ _ => hrows ▸ hr
    refine ⟨hf.batch, hf.seen, fun t ht r hr hdue => ?_⟩
    exact htodo ▸ hf.ahead t ht r hr hdue

/-- A drain goes on to the next row, and the one it had is not due as it was. -/
theorem DrainOk.next (h : s.DrainOk d)
    (hq : d.phase ≠ .query) (htodo : d.phase.todo = row :: rest) (hwait : d.phase.waiting = rest)
    (hnow : s'.now = s.now) (hused : s'.used = s.used) (hsent : s'.sent = s.sent)
    (hrows : ∀ r ∈ s'.rows, ∀ t < d.fetchedAt, r.due t = true → r ∈ s.rows ∧ r.id ≠ row.id) :
    s'.DrainOk { d with phase := .next rest } := by
  have hnodup : (row.id :: rest.map Delivery.id).Nodup := by
    have h₀ := h.nodup
    rwa [htodo, map_cons] at h₀
  have hphase : (Phase.next rest).todo = rest ∧ (Phase.next rest).waiting = rest := by
    cases rest <;> exact ⟨rfl, rfl⟩
  refine
    { past := hnow ▸ h.past
      nodup := ?_
      used := fun x hx => ?_
      waiting := fun x hx => ?_
      post := fun row' rest' hp => ?_
      write := fun row' rest' w inTry hp => ?_
      later := fun row' rest' a er next inTry hp => ?_
      fair := fun _ => ?_ }
  · rw [hphase.1]
    exact (nodup_cons.1 hnodup).2
  · rw [hused]
    apply h.used x
    rw [htodo]
    exact mem_cons_of_mem _ (hphase.1 ▸ hx)
  · rw [hsent]
    apply h.waiting x
    rw [hwait]
    exact hphase.2 ▸ hx
  · cases rest <;> cases hp
  · cases rest <;> cases hp
  · cases rest <;> cases hp
  · have hf := h.fair hq
    refine ⟨hf.batch, hf.seen, fun t ht r hr hdue => ?_⟩
    obtain ⟨hrs, hne⟩ := hrows r hr t ht hdue
    obtain ⟨hseen, htaken⟩ := hf.ahead t ht r hrs hdue
    refine ⟨hseen, fun hb => ?_⟩
    have hmem := htaken hb
    rw [htodo, map_cons, mem_cons] at hmem
    rw [hphase.1]
    exact hmem.resolve_left hne

/-! ## What is written -/

@[simp] theorem apply_id (w : Write) (r : Delivery) : (w.apply r).id = r.id := by
  cases w <;> rfl

theorem due_apply {w : Write} {t : Nat} (h : (w.apply r).due t = true) :
    ∃ a er next, w = .retry a er next ∧ next ≤ t := by
  cases w with
  | retry a er next => exact ⟨a, er, next, rfl, by simpa [Write.apply, Delivery.due] using h⟩
  | _ => simp [Write.apply, Delivery.due] at h

theorem settled_schedule {now : Nat} {er : String} (r : Delivery) :
    Settled ((scheduleRetryOrFail a er now).apply r) ⟨a, false, false⟩ := by
  unfold scheduleRetryOrFail
  split
  · exact ⟨rfl, by simp [Write.apply], by simp [Write.apply]⟩
  · next h => exact ⟨rfl, by simp [Write.apply], fun _ => by simpa [Write.apply] using h⟩

theorem retry_schedule {now b next : Nat} {er er' : String}
    (h : scheduleRetryOrFail a er now = .retry b er' next) : now ≤ next := by
  unfold scheduleRetryOrFail at h
  split at h
  · cases h
  · cases h
    exact le_add_right _ _

theorem settled_delivered {at_ : Nat} :
    Settled ((Write.delivered a at_).apply r) ⟨a, true, false⟩ :=
  ⟨rfl, by simp [Write.apply], by simp [Write.apply]⟩

theorem Settled.missing (h : Settled r ⟨a, false, false⟩) :
    Settled (Write.missing.apply r) ⟨a, false, false⟩ :=
  ⟨h.attempts, by simp [Write.apply], by simp [Write.apply]⟩

/-! ## Moves of a drain -/

/-- A drain fetches its batch. -/
theorem Inv.fetched (h : s.Inv) {batch : List Delivery}
    (hn : s.drains[n]? = some d) (hq : d.phase = .query) (hb : IsBatch s.rows s.now batch) :
    Inv { s with drains := s.drains.set n ⟨.next batch, s.now, batch, s.rows⟩ } := by
  have hd : d.phase ≠ .done := by simp [hq]
  have hphase : (Phase.next batch).todo = batch ∧ (Phase.next batch).waiting = batch := by
    cases batch <;> exact ⟨rfl, rfl⟩
  have hidle (id : String) : s.Idle id := h.idle hn hd (by simp [hq, Phase.begun])
  have hinj {x y : Delivery} (hx : x ∈ s.rows) (hy : y ∈ s.rows) (hxy : x.id = y.id) : x = y :=
    inj_on_of_nodup_map h.ids hx hy hxy
  refine h.set hn hd rfl rfl rfl rfl (fun _ _ => rfl) h.log (fun _ _ _ hr _ _ _ => hr) ?_ ?_
  · refine
      { past := le_refl _
        nodup := ?_
        used := fun x hx => ?_
        waiting := fun x hx => ?_
        post := fun row rest hp => ?_
        write := fun row rest w inTry hp => ?_
        later := fun row rest a er next inTry hp => ?_
        fair := fun _ => ⟨hb, h.ids, fun t ht r hr hdue => ?_⟩ }
    · rw [hphase.1]
      refine hb.1.map_on fun x hx y hy hxy => ?_
      exact hinj (hb.2.1 x hx).1 (hb.2.1 y hy).1 hxy
    · exact h.used x (hb.2.1 x (hphase.1 ▸ hx)).1
    · obtain ⟨hmem, hdue⟩ := hb.2.1 x (hphase.2 ▸ hx)
      have hset := h.settled x hmem (hidle x.id)
      have hpending : x.status = .pending := by
        simp only [Delivery.due, Bool.and_eq_true, decide_eq_true_eq] at hdue
        exact hdue.1
      refine ⟨?_, hset.open_ hpending⟩
      have htaken : (s.sent x.id).taken = false := by
        by_contra hne
        rw [Bool.not_eq_false, hset.taken, hpending] at hne
        cases hne
      rw [hset.attempts]
      exact congr (congrArg (Sent.mk _) htaken) (h.log x.id).2
    · cases batch <;> cases hp
    · cases batch <;> cases hp
    · cases batch <;> cases hp
    · refine ⟨⟨r, hr, rfl, hdue⟩, fun hmem => ?_⟩
      rwa [hphase.1]
  · exact fun r hr _ => h.settled r hr (hidle r.id)

/-- The query fails, and the drain is over. -/
theorem Inv.queryFails (h : s.Inv) (hn : s.drains[n]? = some d)
    (hq : d.phase = .query) : Inv { s with drains := s.drains.set n ⟨.done, 0, [], []⟩ } := by
  have hd : d.phase ≠ .done := by simp [hq]
  refine h.set hn hd rfl rfl rfl rfl (fun _ _ => rfl) h.log (fun _ _ _ hr _ _ _ => hr) ?_ ?_
  · refine .of_done rfl (zero_le _) ⟨?_, nodup_nil, fun t ht => absurd ht (not_lt_zero t)⟩
    exact Sql.isPage_nil
  · exact fun r hr _ => h.settled r hr (h.idle hn hd (by simp [hq, Phase.begun]))

/-- The endpoint of a row is missing, disabled, or it is sent the row. -/
theorem Inv.lookedUp (h : s.Inv) (hn : s.drains[n]? = some d) (hp : d.phase = .lookup row rest)
    (hok : s.Careful (.lookedUp n)) : Inv (s.deliver n d row rest) := by
  have hd : d.phase ≠ .done := by simp [hp]
  have hq : d.phase ≠ .query := by simp [hp]
  have hdrain := h.drain d (mem_of_getElem? hn)
  have hidle (id : String) : s.Idle id := h.idle hn hd (by simp [hp, Phase.begun])
  have hwait := hdrain.waiting row (by simp [hp, Phase.waiting])
  have hmissing : Inv (s.goto n d (.write row rest .missing false)) := by
    refine h.set hn hd rfl rfl rfl rfl (fun _ _ => rfl) h.log (fun _ _ _ hr _ _ _ => hr) ?_ ?_
    · refine hdrain.stay hq rfl rfl rfl (by simp [hp, Phase.todo]) ?_ (fun _ _ => rfl) ?_ ?_ ?_
      · intro x hx
        simpa [hp, Phase.waiting] using .inr hx
      · simp
      · intro row' rest' w inTry hw r hr hid
        cases hw
        have hset := h.settled r hr (hidle r.id)
        rw [hid, hwait.1] at hset
        show Settled _ (s.sent row.id)
        rw [hwait.1]
        exact hset.missing
      · simp
    · exact fun r hr _ => h.settled r hr (hidle r.id)
  unfold deliver
  split
  · exact hmissing
  · next e he =>
      split_ifs with hact hdec
      · exact hmissing
      · have htrue := hok d row rest hn hp e he (by simpa using hact)
        rw [hdec] at htrue
        cases htrue
      · have hother {id : String} (hne : id ≠ row.id) : (s.posted row.id).sent id = s.sent id :=
          Function.update_of_ne hne _ _
        have hsame : (s.posted row.id).sent row.id = ⟨row.attempts + 1, false, false⟩ := by
          show Function.update s.sent row.id _ row.id = _
          rw [Function.update_self, hwait.1]
          rfl
        refine h.set hn hd rfl rfl rfl rfl ?_ ?_ (fun _ _ _ hr _ _ _ => hr) ?_ ?_
        · intro id hid
          refine hother ?_
          rintro rfl
          exact hid (hdrain.used row (by simp [hp, Phase.todo]))
        · intro id
          show ((s.posted row.id).sent id).posts ≤ _ ∧ ((s.posted row.id).sent id).again = _
          by_cases hid : id = row.id
          · rw [hid, hsame]
            exact ⟨hwait.2, rfl⟩
          · rw [hother hid]
            exact h.log id
        · refine hdrain.stay hq rfl rfl rfl (by simp [hp, Phase.todo]) ?_ ?_ ?_ ?_ ?_
          · intro x hx
            simpa [hp, Phase.waiting] using .inr hx
          · intro x hx
            refine hother fun heq => ?_
            have hnodup := hdrain.nodup
            rw [hp] at hnodup
            exact (nodup_cons.1 hnodup).1 (heq ▸ mem_map_of_mem hx)
          · intro row' rest' hpost
            cases hpost
            exact ⟨hsame, hwait.2⟩
          · simp
          · simp
        · intro r hr hne
          show Settled r ((s.posted row.id).sent r.id)
          have hid : r.id ≠ row.id := fun heq => hne (by simp [Phase.begun, heq])
          rw [hother hid]
          exact h.settled r hr (hidle r.id)

/-- The request is answered. -/
theorem Inv.answered (h : s.Inv) (hn : s.drains[n]? = some d) (hp : d.phase = .post row rest)
    (r : Response) : Inv (s.respond n d row rest r) := by
  have hd : d.phase ≠ .done := by simp [hp]
  have hq : d.phase ≠ .query := by simp [hp]
  have hdrain := h.drain d (mem_of_getElem? hn)
  have hpost := hdrain.post row rest hp
  have hbusy {r : Delivery} (hne : some row.id ≠ some r.id) : s.Idle r.id :=
    h.idle hn hd (by simpa [hp, Phase.begun] using hne)
  have hagain (er : String) (inTry : Bool) : Inv (s.goto n d
      (.write row rest (scheduleRetryOrFail (row.attempts + 1) er s.now) inTry)) := by
    refine h.set hn hd rfl rfl rfl rfl (fun _ _ => rfl) h.log (fun _ _ _ hr _ _ _ => hr) ?_ ?_
    · refine hdrain.stay hq rfl rfl rfl (by simp [hp, Phase.todo]) ?_ (fun _ _ => rfl) ?_ ?_ ?_
      · intro x hx
        simpa [hp, Phase.waiting] using hx
      · simp
      · intro row' rest' w b hw x _ _
        cases hw
        show Settled _ (s.sent row.id)
        rw [hpost.1]
        exact settled_schedule x
      · intro row' rest' a er' next b hw e he
        have hw' := (Phase.write.inj hw).2.2.1
        refine le_trans ?_ (retry_schedule hw')
        rcases h.others hn hd he with rfl | ⟨hmem, -⟩
        · exact hdrain.past
        · exact (h.drain e hmem).past
    · exact fun x hx hne => h.settled x hx (hbusy hne)
  cases r with
  | status code => exact hagain _ _
  | error message => exact hagain _ _
  | ok =>
    have hother {id : String} (hne : id ≠ row.id) : (s.took row.id).sent id = s.sent id :=
      Function.update_of_ne hne _ _
    have hsame : (s.took row.id).sent row.id = ⟨row.attempts + 1, true, false⟩ := by
      show Function.update s.sent row.id _ row.id = _
      rw [Function.update_self, hpost.1]
      rfl
    refine h.set hn hd rfl rfl rfl rfl ?_ ?_ (fun _ _ _ hr _ _ _ => hr) ?_ ?_
    · intro id hid
      refine hother ?_
      rintro rfl
      exact hid (hdrain.used row (by simp [hp, Phase.todo]))
    · intro id
      show ((s.took row.id).sent id).posts ≤ _ ∧ ((s.took row.id).sent id).again = _
      by_cases hid : id = row.id
      · rw [hid, hsame]
        exact ⟨hpost.2, rfl⟩
      · rw [hother hid]
        exact h.log id
    · refine hdrain.stay hq rfl rfl rfl (by simp [hp, Phase.todo]) ?_ ?_ ?_ ?_ ?_
      · intro x hx
        simpa [hp, Phase.waiting] using hx
      · intro x hx
        refine hother fun heq => ?_
        have hnodup := hdrain.nodup
        rw [hp] at hnodup
        exact (nodup_cons.1 hnodup).1 (heq ▸ mem_map_of_mem hx)
      · simp
      · intro row' rest' w b hw x _ _
        cases hw
        show Settled _ ((s.took row.id).sent row.id)
        rw [hsame]
        exact settled_delivered
      · simp
    · intro x hx hne
      show Settled x ((s.took row.id).sent x.id)
      have hid : x.id ≠ row.id := fun heq => hne (by simp [Phase.begun, heq])
      rw [hother hid]
      exact h.settled x hx (hbusy hne)

/-- The outcome is written down. -/
theorem Inv.written (h : s.Inv) {w : Write} {inTry : Bool} (hn : s.drains[n]? = some d)
    (hp : d.phase = .write row rest w inTry) : Inv ((s.update row.id w).goto n d (.next rest)) := by
  have hd : d.phase ≠ .done := by simp [hp]
  have hq : d.phase ≠ .query := by simp [hp]
  have hdrain := h.drain d (mem_of_getElem? hn)
  have hold : ∀ e ∈ s.drains, ∀ r ∈ (s.update row.id w).rows, ∀ t < e.fetchedAt,
      r.due t = true → r ∈ s.rows ∧ r.id ≠ row.id := by
    intro e he r hr t ht hdue
    obtain ⟨r₀, hr₀, rfl⟩ := mem_map.1 hr
    split_ifs at hdue ⊢ with hid
    · obtain ⟨a, er, next, rfl, hnext⟩ := due_apply hdue
      have hle := hdrain.later row rest a er next inTry hp e he
      omega
    · exact ⟨hr₀, hid⟩
  refine h.set hn hd rfl rfl rfl ?_ (fun _ _ => rfl) h.log ?_ ?_ ?_
  · show (s.rows.map _).map Delivery.id = _
    rw [List.map_map]
    apply List.map_congr_left
    intro r _
    simp only [Function.comp_apply]
    split_ifs <;> simp
  · exact fun e he r hr t ht hdue => (hold e he r hr t ht hdue).1
  · exact hdrain.next hq (by simp [hp, Phase.todo]) (by simp [hp, Phase.waiting]) rfl rfl rfl
      (hold d (mem_of_getElem? hn))
  · intro r hr _
    obtain ⟨r₀, hr₀, rfl⟩ := mem_map.1 hr
    split_ifs with hid
    · rw [apply_id, hid]
      exact hdrain.write row rest w inTry hp r₀ hr₀ hid
    · refine h.settled r₀ hr₀ (h.idle hn hd ?_)
      simpa [hp, Phase.begun] using Ne.symm hid

/-- The row is gone. -/
theorem Inv.writeFailed (h : s.Inv) {w : Write} {inTry : Bool} (hn : s.drains[n]? = some d)
    (hp : d.phase = .write row rest w inTry) (hgone : ∀ r ∈ s.rows, r.id ≠ row.id)
    (message : String) : Inv (s.writeFailed n d row rest inTry message) := by
  have hd : d.phase ≠ .done := by simp [hp]
  have hq : d.phase ≠ .query := by simp [hp]
  have hdrain := h.drain d (mem_of_getElem? hn)
  have hset (r : Delivery) (hr : r ∈ s.rows) : Settled r (s.sent r.id) := by
    refine h.settled r hr (h.idle hn hd ?_)
    simpa [hp, Phase.begun] using Ne.symm (hgone r hr)
  unfold State.writeFailed
  split_ifs with htry
  · refine h.set hn hd rfl rfl rfl rfl (fun _ _ => rfl) h.log (fun _ _ _ hr _ _ _ => hr) ?_ ?_
    · refine hdrain.stay hq rfl rfl rfl (by simp [hp, Phase.todo]) ?_ (fun _ _ => rfl) ?_ ?_ ?_
      · intro x hx
        simpa [hp, Phase.waiting] using hx
      · simp
      · intro row' rest' w' b hw r hr hid
        cases hw
        exact absurd hid (hgone r hr)
      · intro row' rest' a er' next b hw e he
        have hw' := (Phase.write.inj hw).2.2.1
        refine le_trans ?_ (retry_schedule hw')
        rcases h.others hn hd he with rfl | ⟨hmem, -⟩
        · exact hdrain.past
        · exact (h.drain e hmem).past
    · exact fun r hr _ => hset r hr
  · refine h.set hn hd rfl rfl rfl rfl (fun _ _ => rfl) h.log (fun _ _ _ hr _ _ _ => hr) ?_ ?_
    · exact hdrain.next hq (by simp [hp, Phase.todo]) (by simp [hp, Phase.waiting]) rfl rfl rfl
        fun r hr _ _ _ => ⟨hr, hgone r hr⟩
    · exact fun r hr _ => hset r hr

/-! ## What is around -/

/-- The rows that a drain has not seen are not due as far back as its query. -/
theorem DrainOk.around (h : s.DrainOk d) (hnow : s.now ≤ s'.now)
    (hused : ∀ id ∈ s.used, id ∈ s'.used) (hsent : s'.sent = s.sent)
    (hdrains : s'.drains = s.drains)
    (hrows : ∀ r ∈ s'.rows, r ∈ s.rows ∨ r.id ∉ s.used ∧ ∀ t < s.now, r.due t = false) :
    s'.DrainOk d where
  past := h.past.trans hnow
  nodup := h.nodup
  used x hx := hused _ (h.used x hx)
  waiting := hsent ▸ h.waiting
  post := hsent ▸ h.post
  write row rest w inTry hp r hr hid := by
    rw [hsent]
    rcases hrows r hr with hr | ⟨hnew, -⟩
    · exact h.write row rest w inTry hp r hr hid
    · refine absurd ?_ hnew
      rw [hid]
      exact h.used row (by simp [hp, Phase.todo])
  later := hdrains ▸ h.later
  fair hq := by
    refine (h.fair hq).rows fun r hr t ht hdue => ?_
    rcases hrows r hr with hr | ⟨-, hlate⟩
    · exact hr
    · rw [hlate t (ht.trans_le h.past)] at hdue
      cases hdue

theorem Inv.tick (h : s.Inv) (hok : s.Careful .tick) :
    Inv { s with drains := s.drains ++ [⟨.query, 0, [], []⟩] } where
  __ := h
  lone := Cells.lone_append (P := fun d : Drain => d.phase ≠ .done) fun d hd => not_not.2 (hok d hd)
  drain d hd := by
    rcases mem_append.1 hd with hd | hd
    · have hdrain := h.drain d hd
      exact .of_done (hok d hd) hdrain.past
        ((hdrain.fair (by simp [hok d hd])).rows fun _ hr _ _ _ => hr)
    · rw [mem_singleton] at hd
      subst hd
      refine ⟨zero_le _, ?_, ?_, ?_, ?_, ?_, ?_, fun hq => absurd rfl hq⟩ <;>
        simp [Phase.todo, Phase.waiting]
  settled r hr hidle := h.settled r hr fun d hd => hidle d (mem_append_left _ hd)

theorem Inv.enqueue (h : s.Inv) {id endpointId : String} (hid : id ∉ s.used) : Inv { s with
    used := id :: s.used
    rows := s.rows ++ [⟨id, endpointId, .pending, 0, none, some s.now, none⟩] } where
  ids := by
    rw [map_append]
    refine nodup_append.2 ⟨h.ids, by simp, ?_⟩
    rintro x hx y hy rfl
    obtain ⟨r, hr, rfl⟩ := mem_map.1 hx
    rw [map_singleton, mem_singleton] at hy
    have hmem := h.used r hr
    rw [hy] at hmem
    exact hid hmem
  used r hr := by
    rcases mem_append.1 hr with hr | hr
    · exact mem_cons_of_mem _ (h.used r hr)
    · rw [mem_singleton] at hr
      subst hr
      exact mem_cons_self
  fresh x hx := h.fresh x fun hmem => hx (mem_cons_of_mem _ hmem)
  __ := h
  drain d hd := by
    refine (h.drain d hd).around (le_refl _) (fun _ hx => mem_cons_of_mem _ hx) rfl rfl ?_
    intro r hr
    rcases mem_append.1 hr with hr | hr
    · exact .inl hr
    · rw [mem_singleton] at hr
      subst hr
      exact .inr ⟨hid, fun t ht => by simpa [Delivery.due] using ht⟩
  settled r hr hidle := by
    rcases mem_append.1 hr with hr | hr
    · exact h.settled r hr hidle
    · rw [mem_singleton] at hr
      subst hr
      rw [h.fresh id hid]
      exact ⟨rfl, by simp, fun _ => by simp [MAX_ATTEMPTS]⟩

theorem Inv.removeEndpoint (h : s.Inv) (id : String) (endpoints : List Endpoint) : Inv { s with
    endpoints
    rows := s.rows.filter (·.endpointId ≠ id) } where
  ids := h.ids.sublist ((filter_sublist).map _)
  used r hr := h.used r (mem_filter.1 hr).1
  __ := h
  drain d hd := (h.drain d hd).around (le_refl _) (fun _ hx => hx) rfl rfl
    fun _ hr => .inl (mem_filter.1 hr).1
  settled r hr := h.settled r (mem_filter.1 hr).1

theorem Inv.wait (h : s.Inv) (ms : Nat) : Inv { s with now := s.now + ms } where
  __ := h
  drain d hd := (h.drain d hd).around (le_add_right _ _) (fun _ hx => hx) rfl rfl
    fun _ hr => .inl hr

theorem Inv.setEndpoints (h : s.Inv) (endpoints : List Endpoint) : Inv { s with endpoints } where
  __ := h
  drain d hd := (h.drain d hd).around (le_refl _) (fun _ hx => hx) rfl rfl fun _ hr => .inl hr

/-! ## A run -/

theorem inv_start : start.Inv where
  ids := nodup_nil
  used := by simp [start]
  fresh _ _ := rfl
  log id := by simp [start]
  lone n m d e hn := by simp [start] at hn
  drain := by simp [start]
  settled := by simp [start]

theorem inv_step {s : State} (m : Move) (h : s.Inv) (hok : s.Careful m)
    (hs : s.step m = some s') : s'.Inv := by
  cases m with
  | tick => exact some.inj hs ▸ h.tick hok
  | fetched n batch =>
    simp only [step] at hs
    split at hs
    · next hn =>
        split_ifs at hs with hb
        exact some.inj hs ▸ h.fetched hn rfl hb
    · cases hs
  | queryFails n =>
    simp only [step] at hs
    split at hs
    · next hn => exact some.inj hs ▸ h.queryFails hn rfl
    · cases hs
  | lookedUp n =>
    simp only [step] at hs
    split at hs
    · next hn => exact some.inj hs ▸ h.lookedUp hn rfl hok
    · cases hs
  | lookupFails n => exact hok.elim
  | answered n r =>
    simp only [step] at hs
    split at hs
    · next hn => exact some.inj hs ▸ h.answered hn rfl r
    · cases hs
  | written n =>
    simp only [step] at hs
    split at hs
    · next hn =>
        split_ifs at hs
        have hw := h.written hn rfl
        exact some.inj hs ▸ hw
    · cases hs
  | writeFails n message =>
    simp only [step] at hs
    split at hs
    · next hn => exact some.inj hs ▸ h.writeFailed hn rfl (hok _ _ _ _ _ hn rfl) message
    · cases hs
  | enqueue id endpointId =>
    simp only [step] at hs
    split_ifs at hs with hid
    exact some.inj hs ▸ h.enqueue hid
  | setEndpoint e => exact some.inj hs ▸ h.setEndpoints _
  | removeEndpoint id => exact some.inj hs ▸ h.removeEndpoint id _
  | wait ms => exact some.inj hs ▸ h.wait ms

/-! ## What is due grows less -/

/-- What a batch takes is due as early as what it leaves. -/
theorem early_of_isBatch {rows batch : List Delivery} {now t : Nat} (h : IsBatch rows now batch)
    (hr : r ∈ rows) (hdue : r.due t = true) (ht : t ≤ now) (hb : r ∉ batch) :
    batch.length = BATCH ∧ ∀ e ∈ batch, e.due t = true := by
  have hnow : r.due now = true := by
    simp only [Delivery.due, Bool.and_eq_true, Option.any_eq_true, decide_eq_true_eq] at hdue ⊢
    obtain ⟨hp, n, hn, hle⟩ := hdue
    exact ⟨hp, n, hn, hle.trans ht⟩
  constructor
  · exact Sql.IsPage.full h hr hnow hb
  · intro e he
    have hle := Sql.IsPage.le h hr hnow hb he
    have hedue := Sql.IsPage.holds h he
    simp only [Delivery.due, Bool.and_eq_true, Option.any_eq_true,
      decide_eq_true_eq] at hdue hedue ⊢
    obtain ⟨-, n, hn, hnt⟩ := hdue
    obtain ⟨hpe, m, hm, -⟩ := hedue
    refine ⟨hpe, m, hm, ?_⟩
    rw [hn, hm] at hle
    exact le_trans hle hnt

theorem Fair.countP_le (h : s.Fair d) (hids : (s.rows.map Delivery.id).Nodup)
    (hdone : d.phase = .done) {t : Nat} (ht : t < d.fetchedAt) :
    s.rows.countP (·.due t) ≤ d.seen.countP (·.due t) - BATCH := by
  have hleft : ∀ r ∈ s.rows, r.due t = true →
      ∃ r' ∈ d.seen, r'.id = r.id ∧ r'.due t = true ∧ r' ∉ d.batch := by
    intro r hr hdue
    obtain ⟨⟨r', hr', hid, hdue'⟩, htaken⟩ := h.ahead t ht r hr hdue
    refine ⟨r', hr', hid, hdue', fun hb => ?_⟩
    have hmem := htaken (hid ▸ mem_map_of_mem hb)
    simp [hdone, Phase.todo] at hmem
  rcases Nat.eq_zero_or_pos (s.rows.countP (·.due t)) with hzero | hpos
  · omega
  obtain ⟨r, hr, hdue⟩ := countP_pos_iff.1 hpos
  obtain ⟨r', hr', -, hdue', hb'⟩ := hleft r hr hdue
  obtain ⟨hlen, hearly⟩ := early_of_isBatch h.batch hr' hdue' ht.le hb'
  have hinj {x y : Delivery} (hx : x ∈ d.seen) (hy : y ∈ d.seen) (hxy : x.id = y.id) : x = y :=
    inj_on_of_nodup_map h.seen hx hy hxy
  have hsub : ((s.rows.filter (·.due t)).map Delivery.id ++ d.batch.map Delivery.id).Subperm
      ((d.seen.filter (·.due t)).map Delivery.id) := by
    apply List.Nodup.subperm
    · refine nodup_append.2 ⟨hids.sublist ((filter_sublist).map _), ?_, ?_⟩
      · refine h.batch.1.map_on fun x hx y hy hxy => ?_
        exact hinj (h.batch.2.1 x hx).1 (h.batch.2.1 y hy).1 hxy
      · rintro x hx y hy rfl
        obtain ⟨q, hq, rfl⟩ := mem_map.1 hx
        obtain ⟨hqr, hqdue⟩ := mem_filter.1 hq
        obtain ⟨q', hq', hid, -, hnb⟩ := hleft q hqr hqdue
        obtain ⟨e, he, heq⟩ := mem_map.1 hy
        rw [← hinj (h.batch.2.1 e he).1 hq' (heq.trans hid.symm)] at hnb
        exact hnb he
    · intro x hx
      rcases mem_append.1 hx with hx | hx
      · obtain ⟨q, hq, rfl⟩ := mem_map.1 hx
        obtain ⟨hqr, hqdue⟩ := mem_filter.1 hq
        obtain ⟨q', hq', hid, hdue'', -⟩ := hleft q hqr hqdue
        exact hid ▸ mem_map_of_mem (mem_filter.2 ⟨hq', hdue''⟩)
      · obtain ⟨e, he, rfl⟩ := mem_map.1 hx
        exact mem_map_of_mem (mem_filter.2 ⟨(h.batch.2.1 e he).1, hearly e he⟩)
  have hle := hsub.length_le
  rw [length_append, length_map, length_map, length_map, hlen,
    ← countP_eq_length_filter, ← countP_eq_length_filter] at hle
  omega

/-! ## The result -/

theorem Inv.contract (h : s.Inv) : s.Contract where
  limit id := (h.log id).1
  counted r hr hidle := (h.settled r hr hidle).attempts
  alone n m d e row row' rest rest' hn hm hd he _ :=
    h.lone n m d e hn hm (by simp [hd]) (by simp [he])
  once id := (h.log id).2
  kept r hr htaken := by
    by_cases hidle : s.Idle r.id
    · exact .inl ((h.settled r hr hidle).taken.1 htaken)
    · right
      simp only [Idle, not_forall, not_not] at hidle
      obtain ⟨d, hd, hbegun⟩ := hidle
      have hdrain := h.drain d hd
      cases hp : d.phase with
      | post row rest =>
        rw [hp] at hbegun
        rw [← some.inj hbegun, (hdrain.post row rest hp).1] at htaken
        cases htaken
      | write row rest w inTry =>
        rw [hp] at hbegun
        have hid : row.id = r.id := some.inj hbegun
        have hset := hdrain.write row rest w inTry hp r hr hid.symm
        rw [hid] at hset
        have hstatus := hset.taken.1 htaken
        cases w with
        | delivered a at_ => exact ⟨d, hd, row, rest, a, at_, inTry, hp, hid⟩
        | _ => simp [Write.apply] at hstatus
      | _ => simp [hp, Phase.begun] at hbegun
  fair d hd hdone t ht := ((h.drain d hd).fair (by simp [hdone])).countP_le h.ids hdone ht

/-- A drain starts when the others are over, and lookups and writes go through. -/
def undisturbed (s : State) : Move → Bool
  | .tick => s.drains.all (·.phase = .done)
  | .lookedUp _ => s.endpoints.all (·.decryptable)
  | .lookupFails _ | .writeFails _ _ => false
  | _ => true

theorem careful_of_undisturbed (s : State) (m : Move) (h : s.undisturbed m = true) :
    s.Careful m := by
  unfold Careful
  split
  · exact fun d hd => of_decide_eq_true (all_eq_true.1 h d hd)
  · cases h
  · rintro d row rest - - e he -
    exact all_eq_true.1 h e (mem_of_find?_eq_some he)
  · cases h
  · trivial

/-- A row of an endpoint that refuses once, does not answer once, and takes it then. -/
def retryRun : List Move :=
  [.setEndpoint ⟨"e", true, true⟩, .enqueue "d" "e", .tick,
    .fetched 0 [⟨"d", "e", .pending, 0, none, some 0, none⟩], .lookedUp 0,
    .answered 0 (.status 503), .written 0, .wait 5000, .tick, .fetched 1 [], .wait 25000, .tick,
    .fetched 2 [⟨"d", "e", .pending, 1, some "HTTP 503", some 30000, none⟩], .lookedUp 2,
    .answered 2 (.error "timeout"), .written 2, .wait 60000, .tick,
    .fetched 3 [⟨"d", "e", .pending, 2, some "timeout", some 90000, none⟩], .lookedUp 3,
    .answered 3 .ok, .written 3]

/-- Two drains whose first request is slow. -/
def overlap : List Move :=
  [.setEndpoint ⟨"e", true, true⟩, .enqueue "d" "e",
    .tick, .fetched 0 [⟨"d", "e", .pending, 0, none, some 0, none⟩], .lookedUp 0,
    .wait 5000, .tick, .fetched 1 [⟨"d", "e", .pending, 0, none, some 0, none⟩], .lookedUp 1]

end State

end Webhook
