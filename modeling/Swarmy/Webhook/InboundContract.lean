import Swarmy.Keyed.Cells
import Swarmy.Webhook.Inbound

/-!
# The contract of an inbound delivery

A delivery is marked as delivered only if its target took the body; otherwise it is tried again
at the published delays and dead after six attempts, and a replay leads to another attempt.
`contract_of_careful`: so it is in every state that is reached while drains do not overlap, the
server answers no push with an error, targets are well formed, writes do not fail, and no replay
is asked for while the row is at a target.
-/

namespace Inbound

open List Option Function Nat

/-- The delays between attempts. -/
def PUBLISHED : List Nat := [1, 5, 15, 60, 360].map (· * 60000)

namespace Drain

/-- The row that is at its target, or whose outcome is written. -/
def begun : Drain → Option String
  | .send due _ | .write due _ _ => some due.row.id
  | .query | .done => none

def writing : Drain → Option String
  | .write due _ _ => some due.row.id
  | .query | .send _ _ | .done => none

/-- The rows that a drain still has, with the one it is at. -/
def todo : Drain → List Due
  | .send due rest | .write due rest _ => due :: rest
  | .query | .done => []

/-- The rows whose outcome it does not know. -/
def waiting : Drain → List Due
  | .send due rest => due :: rest
  | .write _ rest _ => rest
  | .query | .done => []

end Drain

/-- A replay was asked for, and no attempt was over since. -/
def Replayed (log : List Attempt) (asked : List (String × Nat)) (id : String) : Prop :=
  ∃ k, (id, k) ∈ asked ∧ tries log id ≤ k

def Asked (asked : List (String × Nat)) (id : String) : Prop := ∃ k, (id, k) ∈ asked

/-- Where an attempt leaves a row. -/
def DeliveryRow.After (r : DeliveryRow) (a : Attempt) (n : Nat) : Prop :=
  r.status = .delivered ∨
    (r.status = .pending ∧ ∃ ms, PUBLISHED[n - 1]? = some ms ∧
      r.nextAttemptAt = some (a.at_ + ms)) ∨
    (r.status = .dead ∧ MAX_ATTEMPTS ≤ n)

/-- The row is pending and due. -/
def DeliveryRow.Soon (r : DeliveryRow) (now : Nat) : Prop :=
  r.status = .pending ∧ ∃ t ≤ now, r.nextAttemptAt = some t

namespace State

variable (lib : Library) (s : State)

/-- No drain is at the row. -/
def Idle (id : String) : Prop := ∀ d ∈ s.drains, d.begun ≠ some id

structure Contract : Prop where
  honest : ∀ r ∈ s.rows, r.status = .delivered → ∃ a, last? s.log r.id = some a ∧ a.took = true
  counted : ∀ r ∈ s.rows, s.Idle r.id → r.attempts = tries s.log r.id
  retried : ∀ r ∈ s.rows, s.Idle r.id → ¬ Replayed s.log s.asked r.id →
    ∀ a, last? s.log r.id = some a → r.After a (tries s.log r.id)
  /-- Replays apart, six attempts are the most, and a row is dead after so many. -/
  six : ∀ r ∈ s.rows, ¬ Asked s.asked r.id →
    tries s.log r.id ≤ 6 ∧ (r.status = .dead → tries s.log r.id = 6)
  replayed : ∀ x ∈ s.asked, ∀ r ∈ s.rows, r.id = x.1 → x.2 < s.begun r.id ∨ r.Soon s.now

/-! ## The condition -/

/-- A drain starts when the one before is over; the server answers no push with an error; targets
are well formed; no write fails but to a row that is gone; and a replay is asked for while no drain
is at the row. -/
def Careful : Move → Prop
  | .tick => ∀ d ∈ s.drains, d = .done
  | .answered n w => ∀ due rest target, s.drains[n]? = some (.send due rest) →
      parseTarget due.endpoint.targetJson = some (.queue target) → w.place = .container →
      w.exec.thrown = none → Pushed target.convention w.exec.answers
  | .writeFails n => ∀ due rest w, s.drains[n]? = some (.write due rest w) →
      ∀ r ∈ s.rows, r.id ≠ due.row.id
  | .replay id => s.Idle id
  | .setEndpoint e => (parseTarget e.targetJson).isSome
  | _ => True

end State

/-! ## The invariant -/

/-- What a row says of the attempts, while none of them is to be written to it. -/
structure Settled (log : List Attempt) (asked : List (String × Nat)) (now : Nat) (r : DeliveryRow) :
    Prop where
  attempts : r.attempts = tries log r.id
  honest : r.status = .delivered → ∃ a, last? log r.id = some a ∧ a.took = true
  after : ¬ Replayed log asked r.id → ∀ a, last? log r.id = some a → r.After a (tries log r.id)
  soon : Replayed log asked r.id → r.Soon now
  most : ¬ Asked asked r.id → tries log r.id ≤ MAX_ATTEMPTS ∧
    (r.status = .pending → tries log r.id < MAX_ATTEMPTS)
  dead : r.status = .dead → MAX_ATTEMPTS ≤ tries log r.id

namespace State

variable (s : State)

/-- What a drain knows of the rows that it has. -/
structure DrainOk (d : Drain) : Prop where
  nodup : (d.todo.map fun due => due.row.id).Nodup
  used : ∀ due ∈ d.todo, due.row.id ∈ s.used
  target : ∀ due ∈ d.todo, (parseTarget due.endpoint.targetJson).isSome
  pending : ∀ due ∈ d.todo, ∀ r ∈ s.rows, r.id = due.row.id → r.status = .pending
  waiting : ∀ due ∈ d.waiting, due.row.attempts = tries s.log due.row.id ∧
    (¬ Asked s.asked due.row.id → due.row.attempts < MAX_ATTEMPTS)
  write : ∀ due rest w, d = .write due rest w → ¬ Replayed s.log s.asked due.row.id ∧
    (¬ Asked s.asked due.row.id → tries s.log due.row.id ≤ MAX_ATTEMPTS) ∧
    ∀ r ∈ s.rows, r.id = due.row.id → Settled s.log s.asked s.now (w.apply r)

structure Inv : Prop where
  ids : (s.rows.map DeliveryRow.id).Nodup
  used : ∀ r ∈ s.rows, r.id ∈ s.used
  fresh : ∀ id ∉ s.used, tries s.log id = 0 ∧ ¬ Asked s.asked id
  asked : ∀ x ∈ s.asked, x.2 ≤ tries s.log x.1
  targets : ∀ e ∈ s.endpoints, (parseTarget e.targetJson).isSome
  lone : ∀ (n m : Nat) (d e : Drain), s.drains[n]? = some d → s.drains[m]? = some e → d ≠ .done →
    e ≠ .done → n = m
  drain : ∀ d ∈ s.drains, s.DrainOk d
  settled : ∀ r ∈ s.rows, (∀ d ∈ s.drains, d.writing ≠ some r.id) → Settled s.log s.asked s.now r

variable {s}

/-! ## The contract from the invariant -/

variable {d : Drain} {n : Nat}

theorem Drain.begun_of_writing {id : String} (h : d.writing = some id) : d.begun = some id := by
  cases d with
  | write due rest w => exact h
  | _ => cases h

theorem tries_le_begun (id : String) : tries s.log id ≤ s.begun id := le_add_right _ _

/-- A row that an outcome is to be written to, or one that says how it is. -/
theorem Inv.cases (h : s.Inv) {r : DeliveryRow} (hr : r ∈ s.rows) :
    (∃ due rest w, Drain.write due rest w ∈ s.drains ∧ due.row.id = r.id) ∨
      Settled s.log s.asked s.now r := by
  by_cases hw : ∀ d ∈ s.drains, d.writing ≠ some r.id
  · exact .inr (h.settled r hr hw)
  · simp only [not_forall, not_not] at hw
    obtain ⟨d, hd, hid⟩ := hw
    cases d with
    | write due rest w => exact .inl ⟨due, rest, w, hd, some.inj hid⟩
    | _ => cases hid

theorem Inv.contract (h : s.Inv) : s.Contract where
  honest r hr hs := by
    rcases h.cases hr with ⟨due, rest, w, hmem, hid⟩ | hset
    · have hpending := (h.drain _ hmem).pending due mem_cons_self r hr hid.symm
      rw [hs] at hpending
      cases hpending
    · exact hset.honest hs
  counted r hr hidle :=
    (h.settled r hr fun d hd hw => hidle d hd (Drain.begun_of_writing hw)).attempts
  retried r hr hidle hrep a ha :=
    (h.settled r hr fun d hd hw => hidle d hd (Drain.begun_of_writing hw)).after hrep a ha
  six r hr hnever := by
    rcases h.cases hr with ⟨due, rest, w, hmem, hid⟩ | hset
    · have hok := h.drain _ hmem
      obtain ⟨-, hmost, -⟩ := hok.write due rest w rfl
      rw [hid] at hmost
      refine ⟨hmost hnever, fun hs => ?_⟩
      have hpending := hok.pending due mem_cons_self r hr hid.symm
      rw [hs] at hpending
      cases hpending
    · exact ⟨(hset.most hnever).1, fun hs => le_antisymm (hset.most hnever).1 (hset.dead hs)⟩
  replayed x hx r hr hid := by
    rcases lt_or_eq_of_le (h.asked x hx) with hlt | heq
    · left
      rw [hid]
      exact hlt.trans_le (tries_le_begun _)
    · right
      have hrep : Replayed s.log s.asked r.id := ⟨x.2, hid ▸ hx, hid ▸ heq.ge⟩
      rcases h.cases hr with ⟨due, rest, w, hmem, hdue⟩ | hset
      · exact absurd (hdue ▸ hrep) ((h.drain _ hmem).write due rest w rfl).1
      · exact hset.soon hrep

/-! ## A drain goes on -/

theorem DrainOk.done : s.DrainOk .done where
  nodup := nodup_nil
  used due hdue := absurd hdue not_mem_nil
  target due hdue := absurd hdue not_mem_nil
  pending due hdue := absurd hdue not_mem_nil
  waiting due hdue := absurd hdue not_mem_nil
  write due rest w h := by cases h

/-- A drain that has rows to begin with. -/
theorem DrainOk.next {rest : List Due} (hnodup : (rest.map fun due => due.row.id).Nodup)
    (hused : ∀ due ∈ rest, due.row.id ∈ s.used)
    (htarget : ∀ due ∈ rest, (parseTarget due.endpoint.targetJson).isSome)
    (hpending : ∀ due ∈ rest, ∀ r ∈ s.rows, r.id = due.row.id → r.status = .pending)
    (hwaiting : ∀ due ∈ rest, due.row.attempts = tries s.log due.row.id ∧
      (¬ Asked s.asked due.row.id → due.row.attempts < MAX_ATTEMPTS)) : s.DrainOk (.next rest) := by
  cases rest with
  | nil => exact .done
  | cons due rest => exact ⟨hnodup, hused, htarget, hpending, hwaiting, fun _ _ _ h => by cases h⟩

/-- The others are done. -/
theorem Inv.others (h : s.Inv) {d' e : Drain} (hn : s.drains[n]? = some d)
    (hd : d ≠ .done) (he : e ∈ s.drains.set n d') : e = d' ∨ e = .done := by
  exact (Cells.Lone.mem_set h.lone hn hd he).imp_right fun hdone => not_not.1 hdone.2

theorem Inv.alone (h : s.Inv) {e : Drain} (hn : s.drains[n]? = some d) (hd : d ≠ .done)
    (he : e ∈ s.drains) : e = d ∨ e = .done :=
  (Cells.Lone.mem h.lone hn hd he).imp_right not_not.1

theorem Inv.settled_of (h : s.Inv) (hn : s.drains[n]? = some d) (hd : d ≠ .done)
    {r : DeliveryRow} (hr : r ∈ s.rows) (hw : d.writing ≠ some r.id) :
    Settled s.log s.asked s.now r := by
  refine h.settled r hr fun e he => ?_
  rcases h.alone hn hd he with rfl | rfl
  · exact hw
  · exact fun hnone => by cases hnone

theorem Inv.set (h : s.Inv) {d' : Drain} (hn : s.drains[n]? = some d) (hd : d ≠ .done)
    {s' : State} (hdrains : s'.drains = s.drains.set n d')
    (hids : s'.rows.map DeliveryRow.id = s.rows.map DeliveryRow.id) (hused : s'.used = s.used)
    (hendpoints : s'.endpoints = s.endpoints) (hasked : s'.asked = s.asked)
    (hlog : ∀ id, tries s.log id ≤ tries s'.log id) (hfresh : ∀ id ∉ s.used, tries s'.log id = 0)
    (hok : s'.DrainOk d')
    (hset : ∀ r ∈ s'.rows, d'.writing ≠ some r.id → Settled s'.log s'.asked s'.now r) : s'.Inv where
  ids := hids ▸ h.ids
  used r hr := by
    have hmem : r.id ∈ s.rows.map DeliveryRow.id := hids ▸ mem_map_of_mem hr
    obtain ⟨r₀, hr₀, hid⟩ := mem_map.1 hmem
    rw [hused, ← hid]
    exact h.used r₀ hr₀
  fresh id hid := by
    rw [hused] at hid
    exact ⟨hfresh id hid, hasked ▸ (h.fresh id hid).2⟩
  asked x hx := (h.asked x (hasked ▸ hx)).trans (hlog _)
  targets := hendpoints ▸ h.targets
  lone := hdrains ▸ Cells.Lone.set h.lone hn hd
  drain e he := by
    rcases h.others hn hd (hdrains ▸ he) with rfl | rfl
    · exact hok
    · exact .done
  settled r hr hw := by
    refine hset r hr (hw d' ?_)
    rw [hdrains]
    exact mem_iff_getElem?.2 ⟨n, List.getElem?_set_self (List.getElem?_eq_some_iff.1 hn).1⟩

/-! ## The query -/

theorem mem_dues {batch : List DeliveryRow} {due : Due} (h : due ∈ s.dues batch) :
    due.row ∈ batch ∧ due.endpoint ∈ s.endpoints := by
  obtain ⟨r, hr, heq⟩ := mem_filterMap.1 h
  obtain ⟨e, he, rfl⟩ := map_eq_some_iff.1 heq
  exact ⟨hr, mem_of_find?_eq_some he⟩

theorem dues_sublist (batch : List DeliveryRow) : ((s.dues batch).map Due.row).Sublist batch := by
  induction batch with
  | nil => exact .slnil
  | cons r batch ih =>
    unfold dues at ih ⊢
    rw [filterMap_cons]
    cases s.endpoint? r.endpointId with
    | none => exact ih.cons r
    | some e => exact ih.cons_cons r

theorem Inv.fetched (h : s.Inv) {batch : List DeliveryRow} (hn : s.drains[n]? = some .query)
    (hb : IsBatch s.rows s.now batch) : (s.goto n (.next (s.dues batch))).Inv := by
  have hq : Drain.query ≠ .done := by simp
  have hrow {due : Due} (hdue : due ∈ s.dues batch) :
      due.row ∈ s.rows ∧ due.row.status = .pending := by
    have hmem := (mem_dues hdue).1
    have hholds := Sql.IsPage.holds hb hmem
    simp only [DeliveryRow.due, Bool.and_eq_true, decide_eq_true_eq] at hholds
    exact ⟨Sql.IsPage.mem hb hmem, hholds.1⟩
  have hinj {x y : DeliveryRow} (hx : x ∈ s.rows) (hy : y ∈ s.rows) (hxy : x.id = y.id) : x = y :=
    inj_on_of_nodup_map h.ids hx hy hxy
  refine h.set hn hq rfl rfl rfl rfl rfl (fun _ => le_refl _) (fun id hid => (h.fresh id hid).1)
    (.next ?_ ?_ ?_ ?_ ?_) fun r hr _ => h.settled_of hn hq hr (by simp [Drain.writing])
  · have hbatch : (batch.map DeliveryRow.id).Nodup :=
      (Sql.IsPage.nodup hb).map_on fun x hx y hy hxy =>
        hinj (Sql.IsPage.mem hb hx) (Sql.IsPage.mem hb hy) hxy
    have hsub := (s.dues_sublist batch).map DeliveryRow.id
    rw [List.map_map] at hsub
    exact hbatch.sublist hsub
  · exact fun due hdue => h.used _ (hrow hdue).1
  · exact fun due hdue => h.targets _ (mem_dues hdue).2
  · intro due hdue r hr hid
    rw [hinj hr (hrow hdue).1 hid]
    exact (hrow hdue).2
  · intro due hdue
    have hset := h.settled_of hn hq (hrow hdue).1 (by simp [Drain.writing])
    exact ⟨hset.attempts, fun hnever => hset.attempts ▸ (hset.most hnever).2 (hrow hdue).2⟩

theorem Inv.queryFails (h : s.Inv) (hn : s.drains[n]? = some .query) : (s.goto n .done).Inv := by
  have hq : Drain.query ≠ .done := by simp
  exact h.set hn hq rfl rfl rfl rfl rfl (fun _ => le_refl _) (fun id hid =>
    (h.fresh id hid).1) .done
    fun r hr _ => h.settled_of hn hq hr (by simp [Drain.writing])

end State

/-! ## The target -/

theorem tries_cons (a : Attempt) (log : List Attempt) (id : String) :
    tries (a :: log) id = tries log id + if a.id = id then 1 else 0 := by
  simp [tries, countP_cons]

theorem last?_cons_self (a : Attempt) (log : List Attempt) : last? (a :: log) a.id = some a := by
  simp [last?]

variable {a : Attempt} {id : String} {log : List Attempt} {asked : List (String × Nat)} {now : Nat}
  {r : DeliveryRow} {x : String × Nat}

theorem last?_cons_ne (h : a.id ≠ id) (log : List Attempt) :
    last? (a :: log) id = last? log id := by
  simp [last?, h]

theorem tries_cons_ne (h : a.id ≠ id) (log : List Attempt) :
    tries (a :: log) id = tries log id := by
  rw [tries_cons, if_neg h, add_zero]

theorem Settled.later {now' : Nat} (h : Settled log asked now r) (hnow : now ≤ now') :
    Settled log asked now' r where
  __ := h
  soon hrep := by
    obtain ⟨hs, t, ht, hnext⟩ := h.soon hrep
    exact ⟨hs, t, ht.trans hnow, hnext⟩

theorem asked_cons_ne (h : id ≠ x.1) {k : Nat} : (id, k) ∈ x :: asked ↔ (id, k) ∈ asked := by
  rw [mem_cons, or_iff_right]
  rintro rfl
  exact h rfl

theorem replayed_cons_ne (h : id ≠ x.1) : Replayed log (x :: asked) id ↔ Replayed log asked id :=
  exists_congr fun _ => and_congr_left fun _ => asked_cons_ne h

theorem asked_iff_cons_ne (h : id ≠ x.1) : Asked (x :: asked) id ↔ Asked asked id :=
  exists_congr fun _ => asked_cons_ne h

/-- A replay of another row. -/
theorem Settled.ask (h : Settled log asked now r) (hx : r.id ≠ x.1) :
    Settled log (x :: asked) now r where
  __ := h
  after hrep := h.after fun hold => hrep ((replayed_cons_ne hx).2 hold)
  soon hrep := h.soon ((replayed_cons_ne hx).1 hrep)
  most hnever := h.most fun hold => hnever ((asked_iff_cons_ne hx).2 hold)

/-- An attempt of another row. -/
theorem Settled.cons
    (h : Settled log asked now r) (ha : a.id ≠ r.id) : Settled (a :: log) asked now r where
  attempts := by rw [tries_cons_ne ha, h.attempts]
  honest hs := by rw [last?_cons_ne ha]; exact h.honest hs
  after hrep b hb := by
    rw [last?_cons_ne ha] at hb
    rw [tries_cons_ne ha]
    refine h.after (fun ⟨k, hk, hle⟩ => hrep ⟨k, hk, ?_⟩) b hb
    rwa [tries_cons_ne ha]
  soon := fun ⟨k, hk, hle⟩ => h.soon ⟨k, hk, by rwa [tries_cons_ne ha] at hle⟩
  most hnever := by rw [tries_cons_ne ha]; exact h.most hnever
  dead hs := by rw [tries_cons_ne ha]; exact h.dead hs

theorem backoffMs_published {n : Nat} (h₁ : n ≠ 0) (h₂ : n < MAX_ATTEMPTS) :
    PUBLISHED[n - 1]? = some (backoffMs n) := by
  have hall : ∀ n < MAX_ATTEMPTS, n ≠ 0 → PUBLISHED[n - 1]? = some (backoffMs n) := by decide
  exact hall n h₂ h₁

/-- What is written of an attempt settles its row. -/
theorem Settled.apply {error : Option String} {n : Nat} (hid : r.id = a.id)
    (hn : n = tries log a.id) (hle : ∀ k, (a.id, k) ∈ asked → k ≤ tries log a.id)
    (hmost : ¬ Asked asked a.id → n < MAX_ATTEMPTS) (htook : error = none → a.took = true) :
    Settled (a :: log) asked now ((match error with
      | none => Write.markDelivered (n + 1)
      | some message => Write.markFailed (n + 1) message a.at_).apply r) := by
  have htries : tries (a :: log) a.id = n + 1 := by rw [tries_cons, if_pos rfl, hn]
  have hrep : ¬ Replayed (a :: log) asked a.id := by
    rintro ⟨k, hk, hle'⟩
    have hk' := hle k hk
    omega
  cases error with
  | none =>
    refine ⟨?_, fun _ => ?_, fun _ b _ => .inl rfl, fun hr => ?_,
      fun hnever => ⟨?_, fun hs => ?_⟩, fun hs => ?_⟩
    · show n + 1 = tries (a :: log) r.id
      rw [hid, htries]
    · refine ⟨a, ?_, htook rfl⟩
      show last? (a :: log) r.id = some a
      rw [hid, last?_cons_self]
    · exact absurd (hid ▸ hr : Replayed (a :: log) asked a.id) hrep
    · show tries (a :: log) r.id ≤ MAX_ATTEMPTS
      rw [hid, htries]
      exact hmost (hid ▸ hnever)
    · cases hs
    · cases hs
  | some message =>
    simp only [Write.apply]
    refine ⟨?_, fun hs => ?_, fun _ b hb => .inr ?_, fun hr => ?_,
      fun hnever => ⟨?_, fun hs => ?_⟩, fun hs => ?_⟩
    · rw [hid, htries]
    · split_ifs at hs
    · have hb' : last? (a :: log) r.id = some b := hb
      rw [hid, last?_cons_self] at hb'
      cases hb'
      rw [hid, htries]
      split_ifs with hmax
      · exact .inr ⟨rfl, hmax⟩
      · exact .inl ⟨rfl, backoffMs (n + 1),
          backoffMs_published (succ_ne_zero n) (not_le.1 hmax), rfl⟩
    · exact absurd (hid ▸ hr : Replayed (a :: log) asked a.id) hrep
    · rw [hid, htries]
      exact hmost (hid ▸ hnever)
    · rw [hid, htries]
      split_ifs at hs with hmax
      exact not_le.1 hmax
    · rw [hid, htries]
      split_ifs at hs with hmax
      exact hmax

/-- A target that says nothing is wrong took the body. -/
theorem deliver_took {lib : Library} {row : DeliveryRow} {endpoint : EndpointRow} {target : Target}
    {w : World} {db : Db} {x : Db × Option String × Bool}
    (h : deliver lib row endpoint target w db = some x) (herror : x.2.1 = none)
    (hp : ∀ t, target = .queue t → w.place = .container → w.exec.thrown = none →
      Pushed t.convention w.exec.answers) : x.2.2 = true := by
  cases target with
  | queue t =>
    obtain ⟨y, hy, rfl⟩ := map_eq_some_iff.1 h
    obtain ⟨db', error⟩ := y
    obtain rfl : error = none := herror
    refine deliverToQueue_took hy fun hthrown => hp t rfl ?_ hthrown
    unfold deliverToQueue at hy
    split_ifs at hy
    · simp at hy
    · cases hw : w.place <;> simp [hw] at hy ⊢
  | forward url =>
    cases h
    cases hr : w.response with
    | status n =>
      rw [hr] at herror
      simp only [deliverToForward] at herror
      split_ifs at herror with hok
      exact hok
    | error message =>
      rw [hr] at herror
      cases herror

namespace State

variable {s : State}

theorem Inv.answered (h : s.Inv) {lib : Library} {n : Nat} {due : Due} {rest : List Due}
    {target : Target}
    {w : World} {x : State × Write} (hn : s.drains[n]? = some (.send due rest))
    (hx : s.attempt lib due target w = some x)
    (hp : ∀ t, target = .queue t → w.place = .container → w.exec.thrown = none →
      Pushed t.convention w.exec.answers) : (x.1.goto n (.write due rest x.2)).Inv := by
  obtain ⟨y, hy, rfl⟩ := map_eq_some_iff.1 hx
  have hd : Drain.send due rest ≠ .done := by simp
  have hok := h.drain _ (mem_of_getElem? hn)
  obtain ⟨hattempts, hmost⟩ := hok.waiting due mem_cons_self
  have hnodup : due.row.id ∉ rest.map (fun due => due.row.id) := (nodup_cons.1 hok.nodup).1
  have hask (k : Nat) (hk : (due.row.id, k) ∈ s.asked) : k ≤ tries s.log due.row.id := h.asked _ hk
  have hwrites (r : DeliveryRow) (hid : r.id = due.row.id) :
      Settled (⟨due.row.id, y.2.2, s.now⟩ :: s.log) s.asked s.now ((match y.2.1 with
        | none => Write.markDelivered (due.row.attempts + 1)
        | some error => Write.markFailed (due.row.attempts + 1) error s.now).apply r) :=
    Settled.apply (a := ⟨due.row.id, y.2.2, s.now⟩) hid hattempts hask hmost
      fun herror => deliver_took hy herror hp
  refine h.set hn hd rfl rfl rfl rfl rfl ?_ ?_ ⟨hok.nodup, hok.used, hok.target,
    hok.pending, ?_, ?_⟩ ?_
  · intro id
    show tries s.log id ≤ tries (_ :: s.log) id
    rw [tries_cons]
    exact le_add_right _ _
  · intro id hid
    show tries (_ :: s.log) id = 0
    rw [tries_cons_ne, (h.fresh id hid).1]
    rintro rfl
    exact hid (hok.used due mem_cons_self)
  · intro e he
    have hne : due.row.id ≠ e.row.id := fun heq => hnodup (heq ▸ mem_map_of_mem he)
    show _ = tries (_ :: s.log) e.row.id ∧ _
    rw [tries_cons_ne hne]
    exact hok.waiting e (mem_cons_of_mem _ he)
  · rintro due' rest' w' hw
    cases hw
    refine ⟨?_, fun hnever => ?_, fun r _ hid => hwrites r hid⟩
    · rintro ⟨k, hk, hle⟩
      have hk' := hask k hk
      have hle' : tries (⟨due.row.id, y.2.2, s.now⟩ :: s.log) due.row.id ≤ k := hle
      rw [tries_cons, if_pos rfl] at hle'
      omega
    · show tries (⟨due.row.id, y.2.2, s.now⟩ :: s.log) due.row.id ≤ MAX_ATTEMPTS
      rw [tries_cons, if_pos rfl, ← hattempts]
      exact hmost hnever
  · intro r hr hw
    have hne : due.row.id ≠ r.id := fun heq => hw (congrArg some heq)
    exact (h.settled_of hn hd hr (by simp [Drain.writing])).cons hne

/-! ## The write -/

theorem Inv.written (h : s.Inv) {n : Nat} {due : Due} {rest : List Due} {w : Write}
    (hn : s.drains[n]? = some (.write due rest w)) :
    ((s.update due.row.id w.apply).goto n (.next rest)).Inv := by
  have hd : Drain.write due rest w ≠ .done := by simp
  have hok := h.drain _ (mem_of_getElem? hn)
  have hnodup : due.row.id ∉ rest.map (fun due => due.row.id) := (nodup_cons.1 hok.nodup).1
  have hrow {r : DeliveryRow} (hr : r ∈ (s.update due.row.id w.apply).rows) :
      (r ∈ s.rows ∧ r.id ≠ due.row.id) ∨ ∃ r₀ ∈ s.rows, r₀.id = due.row.id ∧ r = w.apply r₀ := by
    obtain ⟨r₀, hr₀, rfl⟩ := mem_map.1 hr
    by_cases hid : r₀.id = due.row.id
    · exact .inr ⟨r₀, hr₀, hid, if_pos hid⟩
    · rw [if_neg hid]
      exact .inl ⟨hr₀, hid⟩
  refine h.set hn hd rfl ?_ rfl rfl rfl (fun _ => le_refl _) (fun id hid => (h.fresh id hid).1)
    (.next ?_ ?_ ?_ ?_ ?_) ?_
  · show (s.rows.map _).map DeliveryRow.id = _
    rw [List.map_map]
    refine List.map_congr_left fun r _ => ?_
    simp only [comp_apply]
    split_ifs
    · exact w.apply_id r
    · rfl
  · exact (nodup_cons.1 hok.nodup).2
  · exact fun e he => hok.used e (mem_cons_of_mem _ he)
  · exact fun e he => hok.target e (mem_cons_of_mem _ he)
  · intro e he r hr hid
    rcases hrow hr with ⟨hr, -⟩ | ⟨r₀, -, hid₀, rfl⟩
    · exact hok.pending e (mem_cons_of_mem _ he) r hr hid
    · rw [Write.apply_id, hid₀] at hid
      exact absurd (hid ▸ mem_map_of_mem he) hnodup
  · exact fun e he => hok.waiting e he
  · intro r hr _
    rcases hrow hr with ⟨hr, hne⟩ | ⟨r₀, hr₀, hid₀, rfl⟩
    · exact h.settled_of hn hd hr fun heq => hne (some.inj heq).symm
    · exact (hok.write due rest w rfl).2.2 r₀ hr₀ hid₀

theorem Inv.writeFails (h : s.Inv) {n : Nat} {due : Due} {rest : List Due} {w : Write}
    (hn : s.drains[n]? = some (.write due rest w)) (hgone : ∀ r ∈ s.rows, r.id ≠ due.row.id) :
    (s.goto n (.next rest)).Inv := by
  have hd : Drain.write due rest w ≠ .done := by simp
  have hok := h.drain _ (mem_of_getElem? hn)
  refine h.set hn hd rfl rfl rfl rfl rfl (fun _ => le_refl _) (fun id hid => (h.fresh id hid).1)
    (.next (nodup_cons.1 hok.nodup).2 (fun e he => hok.used e (mem_cons_of_mem _ he))
      (fun e he => hok.target e (mem_cons_of_mem _ he))
      (fun e he => hok.pending e (mem_cons_of_mem _ he)) fun e he => hok.waiting e he) ?_
  exact fun r hr _ => h.settled_of hn hd hr fun heq => hgone r hr (some.inj heq).symm

/-! ## What is around -/

theorem DrainOk.around {d : Drain} (h : s.DrainOk d) {s' : State} (hnow : s.now ≤ s'.now)
    (hused : ∀ id ∈ s.used, id ∈ s'.used) (hlog : s'.log = s.log) (hasked : s'.asked = s.asked)
    (hrows : ∀ r ∈ s'.rows, r ∈ s.rows ∨ r.id ∉ s.used) : s'.DrainOk d where
  __ := h
  used due hdue := hused _ (h.used due hdue)
  pending due hdue r hr hid := by
    rcases hrows r hr with hr | hnew
    · exact h.pending due hdue r hr hid
    · exact absurd (hid ▸ h.used due hdue) hnew
  waiting := by
    rw [hlog, hasked]
    exact h.waiting
  write due rest w hd := by
    obtain ⟨hrep, hmost, hset⟩ := h.write due rest w hd
    rw [hlog, hasked]
    refine ⟨hrep, hmost, fun r hr hid => ?_⟩
    rcases hrows r hr with hr | hnew
    · exact (hset r hr hid).later hnow
    · refine absurd (hid ▸ h.used due ?_) hnew
      rw [hd]
      exact mem_cons_self

/-- Rows that are there before, and rows that are new. -/
theorem Inv.around (h : s.Inv) {s' : State} (hnow : s.now ≤ s'.now)
    (hids : (s'.rows.map DeliveryRow.id).Nodup) (hmem : ∀ r ∈ s'.rows, r.id ∈ s'.used)
    (hused : ∀ id ∈ s.used, id ∈ s'.used) (hlog : s'.log = s.log) (hasked : s'.asked = s.asked)
    (hdrains : s'.drains = s.drains)
    (htargets : ∀ e ∈ s'.endpoints, (parseTarget e.targetJson).isSome)
    (hrows : ∀ r ∈ s'.rows, r ∈ s.rows ∨ r.id ∉ s.used ∧ Settled s'.log s'.asked s'.now r) :
    s'.Inv where
  ids := hids
  used := hmem
  fresh id hid := by
    rw [hlog, hasked]
    exact h.fresh id fun hold => hid (hused id hold)
  asked x hx := by
    rw [hlog]
    exact h.asked x (hasked ▸ hx)
  targets := htargets
  lone := hdrains ▸ h.lone
  drain d hd := (h.drain d (hdrains ▸ hd)).around hnow hused hlog hasked fun r hr =>
    (hrows r hr).imp_right And.left
  settled r hr hw := by
    rcases hrows r hr with hr | ⟨-, hset⟩
    · rw [hlog, hasked]
      exact (h.settled r hr (hdrains ▸ hw)).later hnow
    · exact hset

theorem Inv.tick (h : s.Inv) (hok : s.Careful .tick) :
    Inv { s with drains := s.drains ++ [.query] } where
  __ := h
  lone := Cells.lone_append (P := fun d : Drain => d ≠ .done) fun d hd => not_not.2 (hok d hd)
  drain d hd := by
    rcases mem_append.1 hd with hd | hd
    · rw [hok d hd]
      exact .done
    · rw [mem_singleton.1 hd]
      exact ⟨nodup_nil, by simp [Drain.todo], by simp [Drain.todo], by simp [Drain.todo],
        by simp [Drain.waiting], fun _ _ _ hw => by cases hw⟩
  settled r hr hw := h.settled r hr fun d hd => hw d (mem_append_left _ hd)

theorem Inv.receive (h : s.Inv) {r : DeliveryRow} (hid : r.id ∉ s.used) (hattempts : r.attempts = 0)
    (hstatus : r.status = .pending ∨ r.status = .failed) :
    Inv { s with used := r.id :: s.used, rows := s.rows ++ [r] } := by
  obtain ⟨hzero, hnever⟩ := h.fresh r.id hid
  have hnone : last? s.log r.id = none := by
    rw [last?, List.find?_eq_none]
    intro a ha heq
    exact absurd (countP_pos_iff.2 ⟨a, ha, heq⟩) (by rw [show s.log.countP _ = 0 from hzero]; simp)
  refine h.around (le_refl _) ?_ ?_ (fun _ hx => mem_cons_of_mem _ hx) rfl rfl rfl h.targets ?_
  · rw [map_append]
    refine nodup_append.2 ⟨h.ids, by simp, ?_⟩
    rintro x hx y hy rfl
    obtain ⟨r', hr', heq⟩ := mem_map.1 hx
    rw [map_singleton, mem_singleton] at hy
    have hmem := h.used r' hr'
    rw [heq, hy] at hmem
    exact hid hmem
  · intro r' hr'
    rcases mem_append.1 hr' with hr' | hr'
    · exact mem_cons_of_mem _ (h.used r' hr')
    · rw [mem_singleton.1 hr']
      exact mem_cons_self
  · intro r' hr'
    rcases mem_append.1 hr' with hr' | hr'
    · exact .inl hr'
    · rw [mem_singleton.1 hr']
      refine .inr ⟨hid, hattempts.trans hzero.symm, fun hs => ?_, fun _ a ha => ?_, fun hrep => ?_,
        fun _ => ?_, fun hs => ?_⟩
      · rcases hstatus with hstatus | hstatus <;> rw [hstatus] at hs <;> cases hs
      · rw [hnone] at ha
        cases ha
      · obtain ⟨k, hk, -⟩ := hrep
        exact absurd ⟨k, hk⟩ hnever
      · rw [hzero]
        exact ⟨zero_le _, fun _ => by decide⟩
      · rcases hstatus with hstatus | hstatus <;> rw [hstatus] at hs <;> cases hs

/-- Rows that are removed. -/
theorem Inv.filter (h : s.Inv) (p : DeliveryRow → Bool) {endpoints : List EndpointRow}
    (htargets : ∀ e ∈ endpoints, (parseTarget e.targetJson).isSome) :
    Inv { s with endpoints, rows := s.rows.filter p } :=
  h.around (le_refl _) (h.ids.sublist (filter_sublist.map _))
    (fun r hr => h.used r (mem_filter.1 hr).1) (fun _ hx => hx) rfl rfl rfl htargets
    fun _ hr => .inl (mem_filter.1 hr).1

theorem Inv.setEndpoints (h : s.Inv) {endpoints : List EndpointRow}
    (htargets : ∀ e ∈ endpoints, (parseTarget e.targetJson).isSome) : Inv { s with endpoints } :=
  h.around (le_refl _) h.ids h.used (fun _ hx => hx) rfl rfl rfl htargets fun _ hr => .inl hr

theorem Inv.store (h : s.Inv) (db : Db) : Inv { s with db } :=
  h.around (le_refl _) h.ids h.used (fun _ hx => hx) rfl rfl rfl h.targets fun _ hr => .inl hr

theorem Inv.wait (h : s.Inv) (ms : Nat) : Inv { s with now := s.now + ms } :=
  h.around (le_add_right _ _) h.ids h.used (fun _ hx => hx) rfl rfl rfl h.targets fun _ hr =>
    .inl hr

theorem begun_of_idle {id : String} (h : s.Idle id) : s.begun id = tries s.log id := by
  have hzero : s.drains.countP (Drain.sends id) = 0 := by
    rw [countP_eq_zero]
    intro d hd hsends
    cases d with
    | send due rest => exact h _ hd (congrArg some (of_decide_eq_true hsends))
    | _ => cases hsends
  rw [begun, hzero, add_zero]

theorem Inv.replay (h : s.Inv) {id : String} (hidle : s.Idle id) (hrow : ∃ r ∈ s.rows, r.id = id) :
    Inv { s.update id fun r => { r with status := .pending, nextAttemptAt := some s.now } with
      asked := (id, s.begun id) :: s.asked } := by
  have hbegun := begun_of_idle hidle
  have hmem {r : DeliveryRow} (hr : r ∈ (s.update id fun r =>
      { r with status := .pending, nextAttemptAt := some s.now }).rows) :
      (r ∈ s.rows ∧ r.id ≠ id) ∨ ∃ r₀ ∈ s.rows, r₀.id = id ∧
        r = { r₀ with status := .pending, nextAttemptAt := some s.now } := by
    obtain ⟨r₀, hr₀, rfl⟩ := mem_map.1 hr
    by_cases hid : r₀.id = id
    · exact .inr ⟨r₀, hr₀, hid, if_pos hid⟩
    · rw [if_neg hid]
      exact .inl ⟨hr₀, hid⟩
  refine ⟨?_, fun r hr => ?_, fun id' hid' => ⟨(h.fresh id' hid').1, ?_⟩,
    fun x hx => ?_, h.targets, h.lone,
    fun d hd => ⟨(h.drain d hd).nodup, (h.drain d hd).used, (h.drain d hd).target,
      fun due hdue r hr hid => ?_, fun due hdue => ?_, ?_⟩, fun r hr hw => ?_⟩
  · show ((s.rows.map _).map DeliveryRow.id).Nodup
    rw [List.map_map]
    refine (List.map_congr_left fun r _ => ?_) ▸ h.ids
    simp only [comp_apply]
    split_ifs <;> rfl
  · rcases hmem hr with ⟨hr, -⟩ | ⟨r₀, hr₀, -, rfl⟩
    · exact h.used r hr
    · exact h.used r₀ hr₀
  · obtain ⟨r, hr, hid⟩ := hrow
    have hne : id' ≠ id := by
      rintro rfl
      exact hid' (hid ▸ h.used r hr : id' ∈ s.used)
    rw [asked_iff_cons_ne hne]
    exact (h.fresh id' hid').2
  · rcases mem_cons.1 hx with rfl | hx
    · exact hbegun.le
    · exact h.asked x hx
  · rcases hmem hr with ⟨hr, -⟩ | ⟨r₀, -, -, rfl⟩
    · exact (h.drain d hd).pending due hdue r hr hid
    · rfl
  · obtain ⟨hattempts, hmost⟩ := (h.drain d hd).waiting due hdue
    exact ⟨hattempts, fun hnever => hmost fun ⟨k, hk⟩ => hnever ⟨k, mem_cons_of_mem _ hk⟩⟩
  · rintro due rest w rfl
    obtain ⟨hrep, hmost, hset⟩ := (h.drain _ hd).write due rest w rfl
    have hne : due.row.id ≠ id := fun heq => hidle _ hd (congrArg some heq)
    refine ⟨(replayed_cons_ne hne).not.2 hrep,
      fun hnever => hmost ((asked_iff_cons_ne hne).not.1 hnever),
      fun r hr hid => ?_⟩
    rcases hmem hr with ⟨hr, hr'⟩ | ⟨r₀, -, hid₀, rfl⟩
    · exact (hset r hr hid).ask (by rwa [Write.apply_id])
    · exact absurd (hid.symm.trans hid₀) hne
  · rcases hmem hr with ⟨hr, hne⟩ | ⟨r₀, hr₀, hid₀, rfl⟩
    · exact (h.settled r hr hw).ask hne
    · have hset := h.settled r₀ hr₀ hw
      have hin : (r₀.id, tries s.log r₀.id) ∈ (id, s.begun id) :: s.asked := by
        rw [hid₀, hbegun]
        exact mem_cons_self
      exact ⟨hset.attempts, fun hs => by (cases hs), fun hrep => absurd ⟨_, hin, le_refl _⟩ hrep,
        fun _ => ⟨rfl, s.now, le_refl _, rfl⟩, fun hnever => absurd ⟨_, hin⟩ hnever,
        fun hs => by (cases hs)⟩

/-! ## A run -/

theorem inv_start : start.Inv where
  ids := nodup_nil
  used r hr := absurd hr not_mem_nil
  fresh _ _ := ⟨rfl, fun ⟨_, hk⟩ => not_mem_nil hk⟩
  asked x hx := absurd hx not_mem_nil
  targets e he := absurd he not_mem_nil
  lone n m d e hn := by simp [start] at hn
  drain d hd := absurd hd not_mem_nil
  settled r hr := absurd hr not_mem_nil

theorem inv_step {lib : Library} {s s' : State} (m : Move) (h : s.Inv) (hok : s.Careful m)
    (hs : s.step lib m = some s') : s'.Inv := by
  cases m with
  | tick => exact some.inj hs ▸ h.tick hok
  | fetched n batch =>
    simp only [step] at hs
    split at hs
    · next hn =>
        split_ifs at hs with hb
        exact some.inj hs ▸ h.fetched hn hb
    · cases hs
  | queryFails n =>
    simp only [step] at hs
    split at hs
    · next hn => exact some.inj hs ▸ h.queryFails hn
    · cases hs
  | answered n w =>
    simp only [step] at hs
    split at hs
    · next due rest hn =>
        split at hs
        · next hnone =>
            have htarget := (h.drain _ (mem_of_getElem? hn)).target due mem_cons_self
            rw [hnone] at htarget
            cases htarget
        · next target htarget =>
            obtain ⟨x, hx, rfl⟩ := map_eq_some_iff.1 hs
            refine h.answered hn hx fun t ht hplace hthrown => ?_
            exact hok due rest t hn (htarget.trans (congrArg some ht)) hplace hthrown
    · cases hs
  | written n =>
    simp only [step] at hs
    split at hs
    · next hn =>
        split_ifs at hs
        exact some.inj hs ▸ h.written hn
    · cases hs
  | writeFails n =>
    simp only [step] at hs
    split at hs
    · next hn => exact some.inj hs ▸ h.writeFails hn (hok _ _ _ hn)
    · cases hs
  | receive id endpointId headers bodyText verifyOk =>
    simp only [step] at hs
    split_ifs at hs with hid
    · exact some.inj hs ▸ h.receive (fun hmem => hid (.inl hmem)) rfl (.inl rfl)
    · exact some.inj hs ▸ h.receive (fun hmem => hid (.inl hmem)) rfl (.inr rfl)
  | replay id =>
    simp only [step] at hs
    split_ifs at hs with hrow
    obtain ⟨r, hr, hp⟩ := any_eq_true.1 hrow
    simp only [Bool.and_eq_true, decide_eq_true_eq] at hp
    exact some.inj hs ▸ h.replay hok ⟨r, hr, hp.1⟩
  | setEndpoint e =>
    refine some.inj hs ▸ h.setEndpoints fun e' he' => ?_
    rcases mem_cons.1 he' with rfl | he'
    · exact hok
    · exact h.targets e' (mem_filter.1 he').1
  | removeEndpoint id =>
    exact some.inj hs ▸ h.filter _ fun e he => h.targets e (mem_filter.1 he).1
  | prune endpointId cutoff => exact some.inj hs ▸ h.filter _ h.targets
  | store key value => exact some.inj hs ▸ h.store _
  | wait ms => exact some.inj hs ▸ h.wait ms

/-- Templates without variables; no job is made. -/
def plain : Library := ⟨JobData.body, fun template _ _ _ _ => template⟩

def hook : EndpointRow :=
  ⟨"e", "hook", .obj [("kind", .str "queue"), ("cacheCluster", .str "c"), ("queue", .str "q")],
    none⟩

def received : DeliveryRow := ⟨"d", "e", 0, [], "it's".toList, true, .pending, 0, none, some 0⟩

/-- A delivery to a queue, with the answer of its server. -/
def pushRun (answer : Answer) : List Move :=
  [.setEndpoint hook, .receive "d" "e" [] "it's".toList true, .tick, .fetched 0 [received],
    .answered 0 ⟨.container, ⟨[answer], none⟩, 0, .error ""⟩, .written 0]

/-- No error is among the answers of a script. -/
theorem pushed_of_all {convention : Convention} {answers : List Answer}
    (h : answers.all (!·.isError) = true) : Pushed convention answers := by
  have hhead : ∀ l : List Answer, (∀ a ∈ l, a.isError = false) →
      (l.headD (.lost false)).isError = false := by
    intro l hl
    cases l with
    | nil => rfl
    | cons a l => exact hl a mem_cons_self
  have hall : ∀ a ∈ answers, a.isError = false := by simpa using h
  cases convention with
  | list => exact hhead _ hall
  | bullmq =>
    exact fun _ _ _ => ⟨hhead _ fun a ha => hall a (mem_of_mem_tail ha),
      hhead _ fun a ha => hall a (mem_of_mem_tail (mem_of_mem_tail ha))⟩

/-- A drain starts when the others are over, no push is refused, and writes go through. -/
def undisturbed (s : State) : Move → Bool
  | .tick => s.drains.all (fun d => d matches .done)
  | .answered _ w => w.exec.answers.all (!·.isError)
  | .writeFails _ => false
  | .replay id => s.drains.all (·.begun ≠ some id)
  | .setEndpoint e => (parseTarget e.targetJson).isSome
  | _ => true

theorem careful_of_undisturbed (s : State) (m : Move) (h : s.undisturbed m = true) :
    s.Careful m := by
  unfold Careful
  split
  · intro d hd
    have hdone := List.all_eq_true.1 h d hd
    cases d with
    | done => rfl
    | _ => cases hdone
  · exact fun _ _ _ _ _ _ _ => pushed_of_all h
  · cases h
  · exact fun d hd => of_decide_eq_true (List.all_eq_true.1 h d hd)
  · exact h
  · trivial

/-- A push whose answer is lost, the next one, and a replay. -/
def replayRun : List Move :=
  pushRun (.lost true) ++
    [.wait 60000, .tick,
      .fetched 1 [{ received with
        attempts := 1
        lastError := some "redis push exited 1: Error: Server closed the connection"
        nextAttemptAt := some 60000 }],
      .answered 1 ⟨.container, ⟨[.executes], none⟩, 0, .error ""⟩, .written 1,
      .wait 5, .replay "d", .tick,
      .fetched 2 [{ received with attempts := 2, nextAttemptAt := some 60005 }],
      .answered 2 ⟨.container, ⟨[.executes], none⟩, 0, .error ""⟩, .written 2]

/-- The error of a write to a server whose memory is full. -/
def OOM : Shell.Text := "OOM command not allowed when used memory > 'maxmemory'.".toList

end State

end Inbound
