import Swarmy.Alerts.Fire
import Swarmy.Keyed.Cells

/-!
# One event, one notification

What the alert events promise: one open event for a rule and a resource, notified once, when it
may be, and not forgotten when its hold ends; none that is skipped was notified, and none
recovers that was not.  `promise_of_careful`: so it is in every state of a run whose operations
do not meet at a resource, and in which rules and quiet hours do not move under them.
-/

namespace Alerts

open List Option Bool

namespace State

variable (env : Env) (s : State)

/-! ## The promise -/

structure Promise : Prop where
  unique : ∀ e ∈ s.events, ∀ e' ∈ s.events, e.status = .firing → e'.status = .firing →
    e.resource = e'.resource → e.ruleId = e'.ruleId → (e.ruleId = none → e.signal = e'.signal) →
      e = e'
  once : s.sent.Nodup
  timely : s.untimely = []
  /-- A `releaseHeld` that went through has sent what fires and whose hold was over. -/
  released : ∀ now waiting quiet, .released now waiting quiet ∈ s.ops → ∀ r ∈ waiting,
    notifyDecision env r.1.severity (mutedUntil r.2) quiet now = .send →
      ∀ e ∈ s.events, e.id = r.1.id → e.status = .firing → e.id ∈ s.sent
  skipped : ∀ e ∈ s.events, e.notify = .skipped → e.id ∉ s.sent
  recovered : ∀ id ∈ s.recovered, id ∈ s.sent

end State

/-! ## The condition -/

namespace Op

/-- The resources whose events an operation is at. -/
def resources : Op → List String
  | .fire input _ => [input.resource]
  | .resolve _ resource _ _ => [resource]
  | .release _ (.quiet waiting) | .release _ (.flip waiting _ _) | .release _
    (.send waiting _ _ _) =>
    waiting.map (·.1.resource)
  | .release _ .find | .released _ _ _ | .done => []

/-- The rules that it has read, and will notify by. -/
def targets : Op → List Target
  | .fire _ (.quiet targets) => targets
  | .fire _ (.lookup target rest _ _) | .fire _ (.create target rest _ _)
  | .fire _ (.send target _ rest _ _) => target :: rest
  | .fire _ (.refresh _ rest _ _) => rest
  | .release _ (.quiet waiting) => waiting.map Prod.snd
  | .release _ (.flip _ todo _) => todo.map Prod.snd
  | .release _ (.send _ r todo _) => r.2 :: todo.map Prod.snd
  | _ => []

/-- The quiet hours that it has read. -/
def quiet? : Op → Option (Option QuietHours)
  | .fire _ (.lookup _ _ q _) | .fire _ (.refresh _ _ q _) | .fire _ (.create _ _ q _)
  | .fire _ (.send _ _ _ q _) | .release _ (.flip _ _ q) | .release _ (.send _ _ _ q) => some q
  | _ => none

/-- The time by which it decides what is notified. -/
def since? : Op → Option Nat
  | .fire _ (.lookup _ _ _ now) | .fire _ (.refresh _ _ _ now) | .fire _ (.create _ _ _ now)
  | .fire _ (.send _ _ _ _ now) | .release now _ => some now
  | _ => none

/-- The event whose firing it is about to notify. -/
def sending : Op → Option String
  | .fire _ (.send _ id _ _ _) => some id
  | .release _ (.send _ r _ _) => some r.1.id
  | _ => none

end Op

namespace State

variable (env : Env) (s : State)

/-- An operation begins at a resource where no other is; what it has read of rules and quiet
hours stays until it has notified, and no quiet hours begin before; and the rule of an event that
fires is not deleted. -/
def Careful : Move → Prop
  | .fire input => ∀ op ∈ s.ops, input.resource ∉ op.resources
  | .resolve _ resource _ => ∀ op ∈ s.ops, resource ∉ op.resources
  | .next i => ∀ now, s.ops[i]? = some (.release now .find) →
      ∀ op ∈ s.ops, ∀ r ∈ s.waiting, r.1.resource ∉ op.resources
  | .setRules rules => (∀ op ∈ s.ops, ∀ r, some r ∈ op.targets → r ∈ rules) ∧
      ∀ e ∈ s.events, e.status = .firing → ∀ id, e.ruleId = some id → id ∈ rules.map Rule.id
  | .setQuietHours quiet => quiet = s.quiet ∨ ∀ op ∈ s.ops, op.since? = none
  | .wait ms => (∀ op ∈ s.ops, op.since? = none) ∨
      (s.quiet.any (env.inQuietHours · (s.now + ms)) = true →
        s.quiet.any (env.inQuietHours · s.now) = true)
  | _ => True

/-! ## The invariant -/

def ids : List String := s.events.map AlertEvent.id

/-- An event is as it was read, but for its status. -/
structure AsRead (r : Read) (e : AlertEvent) : Prop where
  mem : e ∈ s.events
  id : e.id = r.1.id
  resource : e.resource = r.1.resource
  notify : e.notify = r.1.notify

/-- An event waits as it was read, with its rule. -/
structure Waits (r : Read) (e : AlertEvent) (notify : NotifyState) : Prop where
  mem : e ∈ s.events
  id : e.id = r.1.id
  resource : e.resource = r.1.resource
  severity : e.severity = r.1.severity
  rule : e.ruleId = r.2.map Rule.id
  status : e.status = .firing
  notify : e.notify = notify

/-- Of the events that waited, those are sent that had to be and are not left to do. -/
def Done (now : Nat) (quiet : Option QuietHours) (waiting todo : List Read) : Prop :=
  ∀ r ∈ waiting, notifyDecision env r.1.severity (mutedUntil r.2) quiet now = .send →
    r ∈ todo ∨ r.1.id ∈ s.sent

/-- What is left to do waits. -/
structure Todo (waiting todo : List Read) : Prop where
  nodup : (todo.map (·.1.id)).Nodup
  sub : ∀ r ∈ todo, r ∈ waiting
  waits : ∀ r ∈ todo, (∃ e, s.Waits r e r.1.notify) ∧ (r.1.notify = .held ∨ r.1.notify = .muted)

def FireOk (input : FireEventInput) : Fire → Prop
  | .refresh id _ _ _ => ∃ e ∈ s.events, e.id = id ∧ e.resource = input.resource
  | .create target _ _ _ => ∀ e ∈ s.events, isOpen input target e = false
  | .send target id _ quiet now =>
    (∃ e ∈ s.events, e.id = id ∧ e.resource = input.resource ∧ e.severity = input.severity ∧
      e.ruleId = target.map Rule.id ∧ e.status = .firing ∧ e.notify = .sent) ∧
    id ∉ s.sent ∧ notifyDecision env input.severity (mutedUntil target) quiet now = .send
  | _ => True

def ResolveOk (resource : String) : Resolve → Prop
  | .find => True
  | .quiet opened | .close opened _ _ | .skip opened _ _ =>
    ∀ r ∈ opened, r.1.resource = resource ∧ (∃ e, s.AsRead r e) ∧
      (r.1.notify = .sent → r.1.id ∈ s.sent)
  | .notify opened _ _ => ∀ r ∈ opened, r.1.notify = .sent → r.1.id ∈ s.sent

variable {s} in
theorem ResolveOk.mono {s' : State} {resource : String} {opened : List Read}
    (h : s.ResolveOk resource (.quiet opened))
    (hread : ∀ r e, r.1.resource = resource → s.AsRead r e → ∃ e, s'.AsRead r e)
    (hsent : ∀ id ∈ s.sent, id ∈ s'.sent) : s'.ResolveOk resource (.quiet opened) := by
  intro r hr
  obtain ⟨hres, ⟨e, he⟩, hs⟩ := h r hr
  exact ⟨hres, hread r e hres he, fun hn => hsent _ (hs hn)⟩

def ReleaseOk (now : Nat) : Release → Prop
  | .find => True
  | .quiet waiting => s.Todo waiting waiting
  | .flip waiting todo quiet => s.Todo waiting todo ∧ s.Done env now quiet waiting todo
  | .send waiting r todo quiet => s.Todo waiting todo ∧ s.Done env now quiet waiting (r :: todo) ∧
      r ∈ waiting ∧ (∃ e, s.Waits r e .sent) ∧ r.1.id ∉ s.sent ∧
      notifyDecision env r.1.severity (mutedUntil r.2) quiet now = .send

def OpOk : Op → Prop
  | .fire input p => s.FireOk env input p
  | .resolve _ resource _ p => s.ResolveOk resource p
  | .release now p => s.ReleaseOk env now p
  | .released now waiting quiet => s.Done env now quiet waiting []
  | .done => True

structure Inv : Prop where
  ids : s.ids.Nodup
  rules : (s.rules.map Rule.id).Nodup
  foreign : ∀ e ∈ s.events, ∀ id, e.ruleId = some id → id ∈ s.rules.map Rule.id
  unique : ∀ e ∈ s.events, ∀ e' ∈ s.events, e.status = .firing → e'.status = .firing →
    e.resource = e'.resource → e.ruleId = e'.ruleId → (e.ruleId = none → e.signal = e'.signal) →
      e.id = e'.id
  once : s.sent.Nodup
  timely : s.untimely = []
  known : ∀ id ∈ s.sent, id ∈ s.ids
  marked : ∀ e ∈ s.events, e.id ∈ s.sent → e.notify = .sent
  meant : ∀ e ∈ s.events, e.notify = .sent → e.id ∈ s.sent ∨ ∃ op ∈ s.ops, op.sending = some e.id
  recovered : ∀ id ∈ s.recovered, id ∈ s.sent
  apart : ∀ (i j : Nat) (op op' : Op), s.ops[i]? = some op → s.ops[j]? = some op' →
    ∀ x ∈ op.resources, x ∈ op'.resources → i = j
  targets : ∀ op ∈ s.ops, ∀ r, some r ∈ op.targets → r ∈ s.rules
  quiet : ∀ op ∈ s.ops, ∀ q, op.quiet? = some q → q = s.quiet
  since : ∀ op ∈ s.ops, ∀ t, op.since? = some t → t ≤ s.now ∧
    (s.quiet.any (env.inQuietHours · s.now) = true → s.quiet.any (env.inQuietHours · t) = true)
  op : ∀ op ∈ s.ops, s.OpOk env op

variable {env s}

/-! ## The decision stands -/

variable {q : Option QuietHours} {i : Nat} {op' : Op}

theorem notifyDecision_later {severity : Severity} {m : Option Nat}
    {t now : Nat} (h : notifyDecision env severity m q t = .send) (ht : t ≤ now)
    (hq : q.any (env.inQuietHours · now) = true → q.any (env.inQuietHours · t) = true) :
    notifyDecision env severity m q now = .send := by
  unfold notifyDecision at h ⊢
  have hm : m.any (now < ·) = true → m.any (t < ·) = true := by
    cases m with
    | none => exact id
    | some u => simpa using fun hu => lt_of_le_of_lt ht hu
  split_ifs at h ⊢ <;> simp_all

theorem Inv.rule_eq (h : s.Inv env) {r : Rule} (hr : r ∈ s.rules) : s.rule? r.id = some r := by
  unfold rule?
  have hsome : (s.rules.find? (·.id = r.id)).isSome := by
    rw [List.find?_isSome]
    exact ⟨r, hr, by simp⟩
  obtain ⟨x, hx⟩ := isSome_iff_exists.1 hsome
  have hid : x.id = r.id := by simpa using List.find?_some hx
  rw [hx, inj_on_of_nodup_map h.rules (mem_of_find?_eq_some hx) hr hid]

/-- What an operation decided of an event, it may notify. -/
theorem Inv.decision_eq (h : s.Inv env) {e : AlertEvent} {target : Target}
    {t : Nat} (hrule : e.ruleId = target.map Rule.id) (htarget : ∀ r, target = some r → r ∈ s.rules)
    (hq : q = s.quiet) (ht : t ≤ s.now ∧ (s.quiet.any (env.inQuietHours · s.now) = true →
      s.quiet.any (env.inQuietHours · t) = true))
    (hd : notifyDecision env e.severity (mutedUntil target) q t = .send) :
    s.decision env e = .send := by
  have hlookup : e.ruleId.bind s.rule? = target := by
    rw [hrule]
    cases target with
    | none => rfl
    | some r => exact h.rule_eq (htarget r rfl)
  unfold decision
  rw [hlookup]
  subst hq
  exact notifyDecision_later hd ht.1 ht.2

/-! ## A step of an operation -/

/-- What a step at some resources leaves as it is. -/
structure Frame (s s' : State) (on : List String) : Prop where
  old : ∀ e ∈ s'.events, e.resource ∉ on → e ∈ s.events
  kept : ∀ e ∈ s.events, e.resource ∉ on → e ∈ s'.events
  sent : ∀ id ∈ s.sent, id ∈ s'.sent
  fresh : ∀ id ∈ s'.sent, id ∈ s.sent ∨ ∃ e ∈ s'.events, e.id = id ∧ e.resource ∈ on

namespace Frame

variable {s' : State} {on : List String}

theorem notMem (f : Frame s s' on) (hids : s'.ids.Nodup) {e : AlertEvent} (he : e ∈ s.events)
    (hon : e.resource ∉ on) (hs : e.id ∉ s.sent) : e.id ∉ s'.sent := by
  intro hs'
  rcases f.fresh _ hs' with hs' | ⟨x, hx, hid, hxon⟩
  · exact hs hs'
  · rw [inj_on_of_nodup_map hids hx (f.kept e he hon) hid] at hxon
    exact hon hxon

theorem waits (f : Frame s s' on) {r : Read} {e : AlertEvent} {n : NotifyState} (h : s.Waits r e n)
    (hon : r.1.resource ∉ on) : s'.Waits r e n :=
  { h with mem := f.kept e h.mem (h.resource ▸ hon) }

theorem todo (f : Frame s s' on) {waiting todo : List Read} (h : s.Todo waiting todo)
    (hon : ∀ r ∈ waiting, r.1.resource ∉ on) : s'.Todo waiting todo where
  __ := h
  waits r hr := by
    obtain ⟨⟨e, he⟩, hn⟩ := h.waits r hr
    exact ⟨⟨e, f.waits he (hon r (h.sub r hr))⟩, hn⟩

theorem done (f : Frame s s' on) {now : Nat} {quiet : Option QuietHours} {waiting todo : List Read}
    (h : s.Done env now quiet waiting todo) : s'.Done env now quiet waiting todo :=
  fun r hr hd => (h r hr hd).imp_right (f.sent _)

/-- An operation elsewhere is not touched. -/
theorem opOk (f : Frame s s' on) (hids : s'.ids.Nodup) {op : Op} (h : s.OpOk env op)
    (hon : ∀ x ∈ op.resources, x ∉ on) : s'.OpOk env op := by
  cases op with
  | fire input p =>
    have hin : input.resource ∉ on := hon _ mem_cons_self
    cases p with
    | refresh id rest quiet now =>
      obtain ⟨e, he, hid, hres⟩ := h
      exact ⟨e, f.kept e he (hres ▸ hin), hid, hres⟩
    | create target rest quiet now =>
      intro e he
      by_cases hres : e.resource = input.resource
      · exact h e (f.old e he (hres ▸ hin))
      · simp [isOpen, hres]
    | send target id rest quiet now =>
      obtain ⟨⟨e, he, hid, hres, hrest⟩, hs, hd⟩ := h
      refine ⟨⟨e, f.kept e he (hres ▸ hin), hid, hres, hrest⟩, ?_, hd⟩
      rw [← hid] at hs ⊢
      exact f.notMem hids he (hres ▸ hin) hs
    | _ => trivial
  | resolve signal resource ruleId p =>
    have hin : resource ∉ on := hon _ mem_cons_self
    have hopened {opened : List Read} (h : s.ResolveOk resource (.quiet opened)) :
        s'.ResolveOk resource (.quiet opened) := by
      refine h.mono (fun r e hres he => ⟨e, { he with mem := f.kept e he.mem ?_ }⟩) f.sent
      rw [he.resource, hres]
      exact hin
    cases p with
    | find => trivial
    | quiet opened => exact hopened h
    | close opened quiet now => exact hopened h
    | skip opened quiet now => exact hopened h
    | notify opened quiet now => exact fun r hr hn => f.sent _ (h r hr hn)
  | release now p =>
    cases p with
    | find => trivial
    | quiet waiting => exact f.todo h fun r hr => hon _ (mem_map_of_mem hr)
    | flip waiting todo quiet =>
      exact ⟨f.todo h.1 fun r hr => hon _ (mem_map_of_mem hr), f.done h.2⟩
    | send waiting r todo quiet =>
      obtain ⟨htodo, hdone, hr, ⟨e, he⟩, hs, hd⟩ := h
      have hres : r.1.resource ∉ on := hon _ (mem_map_of_mem hr)
      refine ⟨f.todo htodo fun r hr => hon _ (mem_map_of_mem hr), f.done hdone, hr,
        ⟨e, f.waits he hres⟩, ?_, hd⟩
      rw [← he.id] at hs ⊢
      exact f.notMem hids he.mem (he.resource ▸ hres) hs
  | released now waiting quiet => exact f.done h
  | done => trivial

end Frame

/-- One operation goes on, at its resources. -/
theorem Inv.move (h : s.Inv env) {s' : State} {op : Op} (hi : s.ops[i]? = some op)
    (hops : s'.ops = s.ops.set i op') (hnow : s'.now = s.now) (hrules : s'.rules = s.rules)
    (hquiet : s'.quiet = s.quiet) (f : Frame s s' op.resources)
    (hres : ∀ x ∈ op'.resources, ∀ (j : Nat) (x' : Op), j ≠ i → s.ops[j]? = some x' →
      x ∉ x'.resources)
    (hids : s'.ids.Nodup) (hforeign : ∀ e ∈ s'.events, ∀ id, e.ruleId = some id →
      id ∈ s.rules.map Rule.id)
    (hunique : ∀ e ∈ s'.events, ∀ e' ∈ s'.events, e.status = .firing → e'.status = .firing →
      e.resource = e'.resource → e.ruleId = e'.ruleId → (e.ruleId = none → e.signal = e'.signal) →
        e.id = e'.id)
    (honce : s'.sent.Nodup) (htimely : s'.untimely = []) (hknown : ∀ id ∈ s'.sent, id ∈ s'.ids)
    (hmarked : ∀ e ∈ s'.events, e.id ∈ s'.sent → e.notify = .sent)
    (hmeant : ∀ e ∈ s'.events, e.notify = .sent → e.id ∈ s'.sent ∨ op'.sending = some e.id ∨
      (∃ x ∈ s.ops, x.sending = some e.id) ∧ op.sending ≠ some e.id)
    (hrecovered : ∀ id ∈ s'.recovered, id ∈ s'.sent)
    (htargets : ∀ r, some r ∈ op'.targets → r ∈ s.rules)
    (hq : ∀ q, op'.quiet? = some q → q = s.quiet)
    (hsince : ∀ t, op'.since? = some t → t ≤ s.now ∧
      (s.quiet.any (env.inQuietHours · s.now) = true → s.quiet.any (env.inQuietHours · t) = true))
    (hok : s'.OpOk env op') : s'.Inv env := by
  have hself : s'.ops[i]? = some op' := by rw [hops, Cells.set_self hi]
  have hother {j : Nat} (hj : j ≠ i) : s'.ops[j]? = s.ops[j]? := by rw [hops, Cells.set_ne hj]
  have hnew {x : Op} (hx : x ∈ s'.ops) := Cells.of_mem_set (hops ▸ hx)
  refine
    { ids := hids
      rules := hrules ▸ h.rules
      foreign := hrules ▸ hforeign
      unique := hunique
      once := honce
      timely := htimely
      known := hknown
      marked := hmarked
      meant := fun e he hn => ?_
      recovered := hrecovered
      apart := fun j k x x' hj hk y hy hy' => ?_
      targets := fun x hx r hr => ?_
      quiet := fun x hx q hxq => ?_
      since := fun x hx t ht => ?_
      op := fun x hx => ?_ }
  · rcases hmeant e he hn with hs | hs | ⟨⟨x, hx, hs⟩, hne⟩
    · exact .inl hs
    · exact .inr ⟨op', mem_of_getElem? hself, hs⟩
    · exact .inr ⟨x, hops ▸ (Cells.mem_set hx hi).resolve_right fun hxop => hne (hxop ▸ hs), hs⟩
  · by_cases hji : j = i <;> by_cases hki : k = i
    · rw [hji, hki]
    · rw [hji] at hj
      rw [some.inj (hj.symm.trans hself)] at hy
      exact absurd hy' (hres y hy k x' hki ((hother hki).symm.trans hk))
    · rw [hki] at hk
      rw [some.inj (hk.symm.trans hself)] at hy'
      exact absurd hy (hres y hy' j x hji ((hother hji).symm.trans hj))
    · exact h.apart j k x x' ((hother hji).symm.trans hj) ((hother hki).symm.trans hk) y hy hy'
  · rw [hrules]
    rcases hnew hx with rfl | ⟨j, -, hj⟩
    · exact htargets r hr
    · exact h.targets x (mem_of_getElem? hj) r hr
  · rw [hquiet]
    rcases hnew hx with rfl | ⟨j, -, hj⟩
    · exact hq q hxq
    · exact h.quiet x (mem_of_getElem? hj) q hxq
  · rw [hquiet, hnow]
    rcases hnew hx with rfl | ⟨j, -, hj⟩
    · exact hsince t ht
    · exact h.since x (mem_of_getElem? hj) t ht
  · rcases hnew hx with rfl | ⟨j, hne, hj⟩
    · exact hok
    · refine f.opOk hids (h.op x (mem_of_getElem? hj)) fun y hy hyop => ?_
      exact hne (h.apart j i x op hj hi y hy hyop)

/-- What is at the resources of an operation stays there. -/
theorem Inv.same (h : s.Inv env) {op : Op} (hi : s.ops[i]? = some op)
    (hsub : ∀ x ∈ op'.resources, x ∈ op.resources) : ∀ x ∈ op'.resources, ∀ (j : Nat) (x' : Op),
      j ≠ i → s.ops[j]? = some x' → x ∉ x'.resources :=
  fun x hx j x' hne hj hx' => hne (h.apart j i x' op hj hi x hx' (hsub x hx))

/-- One operation goes on, and no event or notification does. -/
theorem Inv.go (h : s.Inv env) {op : Op} (hi : s.ops[i]? = some op)
    (hres : ∀ x ∈ op'.resources, ∀ (j : Nat) (x' : Op), j ≠ i → s.ops[j]? = some x' →
      x ∉ x'.resources)
    (hsending : op.sending = none) (htargets : ∀ r, some r ∈ op'.targets → r ∈ s.rules)
    (hq : ∀ q, op'.quiet? = some q → q = s.quiet)
    (hsince : ∀ t, op'.since? = some t → t ≤ s.now ∧
      (s.quiet.any (env.inQuietHours · s.now) = true → s.quiet.any (env.inQuietHours · t) = true))
    (hok : (s.goto i op').OpOk env op') : (s.goto i op').Inv env := by
  refine h.move hi rfl rfl rfl rfl ⟨fun _ he _ => he, fun _ he _ => he,
    fun _ => id, fun _ hs => .inl hs⟩
    hres h.ids h.foreign h.unique h.once h.timely h.known h.marked ?_ h.recovered htargets
      hq hsince hok
  exact fun e he hn => (h.meant e he hn).imp_right fun hx => .inr ⟨hx, by simp [hsending]⟩

/-- One operation writes its events: their ids, resources, rules and signals stay, none fires
again, and none is marked as sent. -/
theorem Inv.write (h : s.Inv env) {op : Op} (hi : s.ops[i]? = some op) (p : AlertEvent → Bool)
    (f : AlertEvent → AlertEvent) (hp : ∀ e ∈ s.events, p e = true → e.resource ∈ op.resources)
    (hf : ∀ e, (f e).id = e.id ∧ (f e).resource = e.resource ∧ (f e).ruleId = e.ruleId ∧
      (f e).signal = e.signal) (hfiring : ∀ e, (f e).status = .firing → e.status = .firing)
    (hmarked : ∀ e ∈ s.events, p e = true → e.id ∈ s.sent → (f e).notify = .sent)
    (hmeant : ∀ e ∈ s.events, p e = true → (f e).notify = .sent → e.notify = .sent ∨
      op'.sending = some e.id) (hsub : ∀ x ∈ op'.resources, x ∈ op.resources)
    (hsending : op.sending = none) (htargets : ∀ r, some r ∈ op'.targets → r ∈ s.rules)
    (hq : ∀ q, op'.quiet? = some q → q = s.quiet) (hsince : ∀ t, op'.since? = some t → t ≤ s.now ∧
      (s.quiet.any (env.inQuietHours · s.now) = true → s.quiet.any (env.inQuietHours · t) = true))
    (hok : ((s.update p f).goto i op').OpOk env op') : ((s.update p f).goto i op').Inv env := by
  set g : AlertEvent → AlertEvent := fun e => if p e then f e else e with hg
  have hgf (e : AlertEvent) : (g e).id = e.id ∧ (g e).resource = e.resource ∧
      (g e).ruleId = e.ruleId ∧
      (g e).signal = e.signal := by
    by_cases hpe : p e = true
    · simp only [hg, if_pos hpe]
      exact hf e
    · simp only [hg, if_neg hpe]
      exact ⟨trivial, trivial, trivial, trivial⟩
  have hgfiring (e : AlertEvent) (hs : (g e).status = .firing) : e.status = .firing := by
    by_cases hpe : p e = true
    · simp only [hg, if_pos hpe] at hs
      exact hfiring e hs
    · simpa only [hg, if_neg hpe] using hs
  have hids : ((s.update p f).goto i op').ids = s.ids := by
    show (s.events.map g).map AlertEvent.id = _
    rw [List.map_map]
    exact List.map_congr_left fun e _ => (hgf e).1
  have hmem {e : AlertEvent} (he : e ∈ ((s.update p f).goto i op').events) :
      ∃ e₀ ∈ s.events, g e₀ = e := mem_map.1 he
  have hout {e : AlertEvent} (he : e ∈ s.events) (hon : e.resource ∉ op.resources) : g e = e :=
    if_neg fun hpe => hon (hp e he hpe)
  refine h.move hi rfl rfl rfl rfl ⟨?_, ?_, fun _ => id, fun _ hs => .inl hs⟩ (h.same hi hsub)
    (hids ▸ h.ids) ?_ ?_ h.once h.timely (hids ▸ h.known) ?_ ?_ h.recovered htargets hq hsince hok
  · intro e he hon
    obtain ⟨e₀, he₀, rfl⟩ := hmem he
    rw [(hgf e₀).2.1] at hon
    rwa [hout he₀ hon]
  · intro e he hon
    exact mem_map.2 ⟨e, he, hout he hon⟩
  · intro e he id hid
    obtain ⟨e₀, he₀, rfl⟩ := hmem he
    rw [(hgf e₀).2.2.1] at hid
    exact h.foreign e₀ he₀ id hid
  · intro e he e' he' hs hs' hr hrule hsig
    obtain ⟨e₀, he₀, rfl⟩ := hmem he
    obtain ⟨e₁, he₁, rfl⟩ := hmem he'
    rw [(hgf e₀).2.1, (hgf e₁).2.1] at hr
    rw [(hgf e₀).2.2.1] at hrule hsig
    rw [(hgf e₁).2.2.1] at hrule
    rw [(hgf e₀).2.2.2, (hgf e₁).2.2.2] at hsig
    rw [(hgf e₀).1, (hgf e₁).1]
    exact h.unique e₀ he₀ e₁ he₁ (hgfiring e₀ hs) (hgfiring e₁ hs') hr hrule hsig
  · intro e he hs
    obtain ⟨e₀, he₀, rfl⟩ := hmem he
    rw [(hgf e₀).1] at hs
    by_cases hpe : p e₀ = true
    · simp only [hg, if_pos hpe]
      exact hmarked e₀ he₀ hpe hs
    · simp only [hg, if_neg hpe]
      exact h.marked e₀ he₀ hs
  · intro e he hn
    obtain ⟨e₀, he₀, rfl⟩ := hmem he
    rw [(hgf e₀).1]
    have hold (hn₀ : e₀.notify = .sent) : e₀.id ∈ s.sent ∨ op'.sending = some e₀.id ∨
        (∃ x ∈ s.ops, x.sending = some e₀.id) ∧ op.sending ≠ some e₀.id :=
      (h.meant e₀ he₀ hn₀).imp_right fun hx => .inr ⟨hx, by simp [hsending]⟩
    by_cases hpe : p e₀ = true
    · simp only [hg, if_pos hpe] at hn
      rcases hmeant e₀ he₀ hpe hn with hn₀ | hs
      · exact hold hn₀
      · exact .inr (.inl hs)
    · simp only [hg, if_neg hpe] at hn
      exact hold hn

/-- The firing of an event is notified. -/
theorem Inv.notify (h : s.Inv env) {op : Op} {e : AlertEvent} {target : Target} {t : Nat}
    (hi : s.ops[i]? = some op) (he : e ∈ s.events)
    (hon : e.resource ∈ op.resources) (hsending : op.sending = some e.id) (hn : e.notify = .sent)
    (hnot : e.id ∉ s.sent) (hrule : e.ruleId = target.map Rule.id) (htarget : target ∈ op.targets)
    (hquiet : op.quiet? = some q) (ht : op.since? = some t)
    (hd : notifyDecision env e.severity (mutedUntil target) q t = .send)
    (hsub : ∀ x ∈ op'.resources, x ∈ op.resources)
    (htargets : ∀ r, some r ∈ op'.targets → some r ∈ op.targets)
    (hq : ∀ q', op'.quiet? = some q' → op.quiet? = some q')
    (hsince : ∀ t', op'.since? = some t' → op.since? = some t')
    (hok : ((s.notified env e.id).goto i op').OpOk env op') :
    ((s.notified env e.id).goto i op').Inv env := by
  have hmem := mem_of_getElem? hi
  have hdecision : ∀ x ∈ s.events, x.id = e.id → s.decision env x = .send := by
    intro x hx hid
    rw [inj_on_of_nodup_map h.ids hx he hid]
    exact h.decision_eq hrule (fun r hr => h.targets op hmem r (hr ▸ htarget))
      (h.quiet op hmem q hquiet)
      (h.since op hmem t ht) hd
  refine h.move hi rfl rfl rfl rfl ⟨fun _ hx _ => hx, fun _ hx _ => hx,
    fun _ => mem_cons_of_mem _, fun id hs => ?_⟩ (h.same hi hsub) h.ids h.foreign h.unique
    (nodup_cons.2 ⟨hnot, h.once⟩) ?_ ?_ ?_ ?_ ?_
    (fun r hr => h.targets op hmem r (htargets r hr)) (fun q' hx => h.quiet op hmem q' (hq q' hx))
    (fun t' hx => h.since op hmem t' (hsince t' hx)) hok
  · rcases mem_cons.1 hs with rfl | hs
    · exact .inr ⟨e, he, rfl, hon⟩
    · exact .inl hs
  · show (if s.events.any _ then _ else _) = _
    rw [if_neg]
    · exact h.timely
    · rw [not_eq_true, List.any_eq_false]
      intro x hx
      by_cases hid : x.id = e.id
      · simp [hdecision x hx hid]
      · simp [hid]
  · intro id hs
    rcases mem_cons.1 hs with rfl | hs
    · exact mem_map_of_mem he
    · exact h.known id hs
  · intro x hx hs
    rcases mem_cons.1 hs with hid | hs
    · rw [inj_on_of_nodup_map h.ids hx he hid]
      exact hn
    · exact h.marked x hx hs
  · intro x hx hxn
    rcases h.meant x hx hxn with hs | hs
    · exact .inl (mem_cons_of_mem _ hs)
    · by_cases hid : x.id = e.id
      · exact .inl (hid ▸ mem_cons_self)
      · refine .inr (.inr ⟨hs, fun hx' => hid ?_⟩)
        exact some.inj (hx'.symm.trans hsending)
  · exact fun id hs => mem_cons_of_mem _ (h.recovered id hs)

/-! ## `fireEvent` -/

theorem fireNext_ok {input : FireEventInput} {quiet : Option QuietHours} {now : Nat}
    {rest : List Target} : s.OpOk env (fireNext input quiet now rest) := by
  cases rest <;> trivial

theorem fireNext_facts (input : FireEventInput) (quiet : Option QuietHours) (now : Nat)
    (rest : List Target) : (∀ x ∈ (fireNext input quiet now rest).resources, x = input.resource) ∧
    (∀ r, some r ∈ (fireNext input quiet now rest).targets → some r ∈ rest) ∧
    (∀ q, (fireNext input quiet now rest).quiet? = some q → quiet = q) ∧
    ∀ t, (fireNext input quiet now rest).since? = some t → now = t := by
  cases rest with
  | nil => simp [fireNext, Op.resources, Op.targets, Op.quiet?, Op.since?]
  | cons target rest => simp [fireNext, Op.resources, Op.targets, Op.quiet?, Op.since?]

theorem Inv.fireRules (h : s.Inv env) {input : FireEventInput}
    (hi : s.ops[i]? = some (.fire input .rules)) : (s.goto i (match s.targetRules env input with
      | [] => .done
      | targets => .fire input (.quiet targets))).Inv env := by
  have hmem : ∀ r, some r ∈ s.targetRules env input → r ∈ s.rules := by
    intro r hr
    unfold targetRules at hr
    split at hr
    · next id _ =>
        obtain ⟨x, hx, hxr⟩ := mem_map.1 hr
        obtain rfl := some.inj hxr
        rw [mem_toList, filter_eq_some_iff] at hx
        exact mem_of_find?_eq_some hx.1
    · dsimp only at hr
      split_ifs at hr with hnil
      · simp at hr
      · obtain ⟨x, hx, hxr⟩ := mem_map.1 hr
        obtain rfl := some.inj hxr
        exact (mem_filter.1 (mem_filter.1 hx).1).1
  split
  · exact h.go hi (by simp [Op.resources]) rfl (by simp [Op.targets]) (by simp [Op.quiet?])
      (by simp [Op.since?]) trivial
  · next htargets =>
      exact h.go hi (h.same hi fun _ => id) rfl (fun r hr => hmem r hr) (by simp [Op.quiet?])
        (by simp [Op.since?]) trivial

theorem Inv.fireQuiet (h : s.Inv env) {input : FireEventInput} {targets : List Target}
    (hi : s.ops[i]? = some (.fire input (.quiet targets))) :
    (s.goto i (fireNext input s.quiet s.now targets)).Inv env := by
  obtain ⟨hres, htargets, hquiet, hsince⟩ :=
    fireNext_facts input s.quiet s.now targets
  refine h.go hi (h.same hi fun x hx => by simp [Op.resources, hres x hx]) rfl
    (fun r hr => h.targets _ (mem_of_getElem? hi) r (htargets r hr)) (fun q hq =>
      (hquiet q hq).symm)
    (fun t ht => ?_) fireNext_ok
  rw [← hsince t ht]
  exact ⟨le_refl _, id⟩

theorem Inv.fireFound (h : s.Inv env) {input : FireEventInput} {target : Target}
    {rest : List Target} {quiet : Option QuietHours} {now : Nat} {p : Fire}
    (hi : s.ops[i]? = some (.fire input (.lookup target rest quiet now)))
    (hp : p = .create target rest quiet now ∧ (∀ e ∈ s.events, isOpen input target e = false) ∨
      ∃ id, p = .refresh id rest quiet now ∧
        ∃ e ∈ s.events, e.id = id ∧ isOpen input target e = true) :
    (s.goto i (.fire input p)).Inv env := by
  have hmem := mem_of_getElem? hi
  have htargets := h.targets _ hmem
  have hquiet := h.quiet _ hmem
  have hsince := h.since _ hmem
  rcases hp with ⟨rfl, hno⟩ | ⟨id, rfl, e, he, hid, hopen⟩
  · exact h.go hi (h.same hi fun _ => id) rfl htargets hquiet hsince hno
  · refine h.go hi (h.same hi fun _ hx => hx) rfl
      (fun r hr => htargets r (mem_cons_of_mem _ hr)) hquiet hsince ⟨e, he, hid, ?_⟩
    simp only [isOpen, and_eq_true, decide_eq_true_eq] at hopen
    exact hopen.1.1

theorem Inv.fireRefresh (h : s.Inv env) {input : FireEventInput} {id : String} {rest : List Target}
    {quiet : Option QuietHours} {now : Nat}
    (hi : s.ops[i]? = some (.fire input (.refresh id rest quiet now))) : ((s.update (·.id = id)
      fun e => { e with message := input.message, severity := input.severity }).goto i
        (fireNext input quiet now rest)).Inv env := by
  have hmem := mem_of_getElem? hi
  obtain ⟨e₀, he₀, hid₀, hres₀⟩ : ∃ e ∈ s.events, e.id = id ∧ e.resource = input.resource :=
    h.op _ hmem
  obtain ⟨hres, htargets, hquiet, hsince⟩ :=
    fireNext_facts input quiet now rest
  refine h.write hi _ _ (fun e he hp => ?_) (fun _ => ⟨rfl, rfl, rfl, rfl⟩) (fun _ hs => hs)
    (fun e he _ hs => h.marked e he hs) (fun _ _ _ hn => .inl hn)
    (fun x hx => by simp [Op.resources, hres x hx]) rfl
    (fun r hr => h.targets _ hmem r (htargets r hr)) (fun q hq => h.quiet _ hmem q ?_)
    (fun t ht => h.since _ hmem t ?_) fireNext_ok
  · have heq : e = e₀ :=
      inj_on_of_nodup_map h.ids he he₀ ((by simpa using hp : e.id = id).trans hid₀.symm)
    simp [Op.resources, heq, hres₀]
  · exact congrArg some (hquiet q hq)
  · exact congrArg some (hsince t ht)

theorem Inv.created (h : s.Inv env) {input : FireEventInput} {target : Target}
    {rest : List Target} {quiet : Option QuietHours} {now : Nat} {id : String}
    (hi : s.ops[i]? = some (.fire input (.create target rest quiet now))) (hid : id ∉ s.ids) :
    (s.create env i input target rest quiet now id).Inv env := by
  have hmem := mem_of_getElem? hi
  have hno : ∀ e ∈ s.events, isOpen input target e = false := h.op _ hmem
  have htargets := h.targets _ hmem
  have hsent : id ∉ s.sent := fun hs => hid (h.known id hs)
  obtain ⟨hres, htargets', hquiet, hsince⟩ :=
    fireNext_facts input quiet now rest
  set decision := notifyDecision env input.severity (mutedUntil target) quiet now with hdec
  set e₀ : AlertEvent := ⟨id, target.map Rule.id, input.signal, input.severity, input.resource,
    input.message, .firing, NOTIFY_STATE decision⟩
  set s' := s.create env i input target rest quiet now id with hs'
  have hevents : s'.events = s.events ++ [e₀] := rfl
  have hids : s'.ids = s.ids ++ [id] := by
    unfold State.ids
    rw [hevents, map_append]
    rfl
  have hin {e : AlertEvent} (he : e ∈ s'.events) : e ∈ s.events ∨ e = e₀ := by
    simpa [hevents] using he
  have hstate : NOTIFY_STATE decision = .sent ↔ decision = .send := by
    cases decision <;> simp [NOTIFY_STATE]
  -- an event like the new one is open
  have hlike : ∀ e ∈ s.events, e.status = .firing → e.resource = input.resource →
      e.ruleId = target.map Rule.id → (e.ruleId = none → e.signal = input.signal) → False := by
    intro e he hst hr hrule hsig
    have hopen := hno e he
    unfold isOpen at hopen
    cases target with
    | none => simp_all
    | some r => simp_all
  refine h.move hi rfl rfl rfl rfl ⟨fun e he hon => ?_,
    fun e he _ => mem_append_left _ he, fun _ hx => hx,
    fun _ hs => .inl hs⟩ ?_ ?_ ?_ ?_ h.once h.timely ?_ ?_ ?_ h.recovered ?_ ?_ ?_ ?_
  · rcases hin he with he | rfl
    · exact he
    · exact absurd mem_cons_self hon
  · refine h.same hi fun x hx => ?_
    split_ifs at hx
    · exact hx
    · simp [Op.resources, hres x hx]
  · rw [hids]
    refine nodup_append.2 ⟨h.ids, by simp, fun x hx y hy hxy => ?_⟩
    rw [mem_singleton] at hy
    exact hid (hy ▸ hxy ▸ hx)
  · intro e he rid hrid
    rcases hin he with he | rfl
    · exact h.foreign e he rid hrid
    · obtain ⟨r, hr, rfl⟩ := map_eq_some_iff.1 hrid
      exact mem_map_of_mem (htargets r (by simp [Op.targets, hr]))
  · intro e he e' he' hst hst' hr hrule hsig
    rcases hin he with he | rfl <;> rcases hin he' with he' | rfl
    · exact h.unique e he e' he' hst hst' hr hrule hsig
    · exact (hlike e he hst hr hrule hsig).elim
    · exact (hlike e' he' hst' hr.symm hrule.symm fun hn => (hsig (hrule.trans hn)).symm).elim
    · rfl
  · exact fun x hx => hids ▸ mem_append_left _ (h.known x hx)
  · intro e he hs
    rcases hin he with he | rfl
    · exact h.marked e he hs
    · exact absurd hs hsent
  · intro e he hn
    rcases hin he with he | rfl
    · exact (h.meant e he hn).imp_right fun hx => .inr ⟨hx, by simp [Op.sending]⟩
    · right
      left
      rw [if_pos (hstate.1 hn)]
      rfl
  · intro r hr
    split_ifs at hr
    · exact htargets r hr
    · exact htargets r (mem_cons_of_mem _ (htargets' r hr))
  · intro q hq
    split_ifs at hq
    · exact h.quiet _ hmem q hq
    · exact h.quiet _ hmem q (congrArg some (hquiet q hq))
  · intro t ht
    split_ifs at ht
    · exact h.since _ hmem t ht
    · exact h.since _ hmem t (congrArg some (hsince t ht))
  · split_ifs with hd
    · refine ⟨⟨e₀, ?_, rfl, rfl, rfl, rfl, rfl, hstate.2 hd⟩, hsent, hd⟩
      rw [hevents]
      simp
    · exact fireNext_ok

theorem Inv.fireSend (h : s.Inv env) {input : FireEventInput} {target : Target} {id : String}
    {rest : List Target} {quiet : Option QuietHours} {now : Nat}
    (hi : s.ops[i]? = some (.fire input (.send target id rest quiet now))) :
    ((s.notified env id).goto i (fireNext input quiet now rest)).Inv env := by
  obtain ⟨⟨e, he, rfl, hres, hsev, hrule, -, hn⟩, hs, hd⟩ := h.op _ (mem_of_getElem? hi)
  obtain ⟨hres', htargets, hquiet, hsince⟩ :=
    fireNext_facts input quiet now rest
  exact h.notify hi he (by simp [Op.resources, hres]) rfl hn hs hrule mem_cons_self rfl rfl
    (hsev ▸ hd) (fun x hx => by simp [Op.resources, hres' x hx])
    (fun r hr => mem_cons_of_mem _ (htargets r hr)) (fun q hq => congrArg some (hquiet q hq))
    (fun t ht => congrArg some (hsince t ht)) fireNext_ok

/-! ## `resolveEvent` -/

/-- An event that is marked as sent was sent, unless an operation at its resource is about to. -/
theorem Inv.sent_of_alone (h : s.Inv env) {op : Op} {e : AlertEvent} (hi : s.ops[i]? = some op)
    (hsending : op.sending = none) (he : e ∈ s.events) (hn : e.notify = .sent)
    (halone : ∀ (j : Nat) (x : Op), j ≠ i → s.ops[j]? = some x → e.resource ∉ x.resources) :
    e.id ∈ s.sent := by
  rcases h.meant e he hn with hs | ⟨x, hx, hs⟩
  · exact hs
  exfalso
  obtain ⟨j, hj⟩ := mem_iff_getElem?.1 hx
  have hji : j ≠ i := by
    rintro rfl
    rw [some.inj (hj.symm.trans hi), hsending] at hs
    cases hs
  refine halone j x hji hj ?_
  unfold Op.sending at hs
  split at hs
  · obtain ⟨⟨e', he', hid, hres, -⟩, -⟩ := h.op _ hx
    rw [← inj_on_of_nodup_map h.ids he' he (hid.trans (some.inj hs)), hres]
    exact mem_cons_self
  · next r todo quiet =>
      obtain ⟨-, -, hr, ⟨e', he'⟩, -⟩ := h.op _ hx
      rw [← inj_on_of_nodup_map h.ids he'.mem he (he'.id.trans (some.inj hs)), he'.resource]
      exact mem_map_of_mem hr
  · cases hs

theorem Inv.resolveFind (h : s.Inv env) {signal resource : String} {ruleId : Option String}
    (hi : s.ops[i]? = some (.resolve signal resource ruleId .find)) :
    (s.goto i (match s.open_ signal resource ruleId with
      | [] => .done
      | opened => .resolve signal resource ruleId (.quiet opened))).Inv env := by
  split
  · exact h.go hi (by simp [Op.resources]) rfl (by simp [Op.targets]) (by simp [Op.quiet?])
      (by simp [Op.since?]) trivial
  · refine h.go hi (h.same hi fun _ hx => hx) rfl (by simp [Op.targets]) (by simp [Op.quiet?])
      (by simp [Op.since?]) ?_
    intro r hr
    obtain ⟨e, he, rfl⟩ := mem_map.1 hr
    obtain ⟨he, hp⟩ := mem_filter.1 he
    simp only [and_eq_true, decide_eq_true_eq] at hp
    have hres : e.resource = resource := hp.1.1.2
    refine ⟨hres, ⟨e, he, rfl, rfl, rfl⟩, fun hn => ?_⟩
    exact h.sent_of_alone hi rfl he hn fun j x hne hj hx =>
      hne (h.apart j i x _ hj hi e.resource hx (hres ▸ mem_cons_self))

theorem Inv.resolveClose (h : s.Inv env) {signal resource : String} {ruleId : Option String}
    {opened : List Read} {quiet : Option QuietHours} {now : Nat}
    (hi : s.ops[i]? = some (.resolve signal resource ruleId (.close opened quiet now))) :
    ((s.update (fun e => opened.any (·.1.id = e.id))
      fun e => { e with status := .resolved }).goto i
        (.resolve signal resource ruleId (.skip opened quiet now))).Inv env := by
  have hopened : s.ResolveOk resource (.quiet opened) := h.op _ (mem_of_getElem? hi)
  refine h.write hi _ _ (fun e he hp => ?_) (fun _ => ⟨rfl, rfl, rfl, rfl⟩) (by simp)
    (fun e he _ hs => h.marked e he hs) (fun _ _ _ hn => .inl hn) (fun _ hx => hx) rfl
    (by simp [Op.targets]) (by simp [Op.quiet?]) (by simp [Op.since?]) ?_
  · obtain ⟨r, hr, hid⟩ := any_eq_true.1 hp
    obtain ⟨hres, ⟨e', he'⟩, -⟩ := hopened r hr
    have heq : e = e' := inj_on_of_nodup_map h.ids he he'.mem
      ((of_decide_eq_true hid).symm.trans he'.id.symm)
    rw [heq, he'.resource, hres]
    exact mem_cons_self
  · intro r hr
    obtain ⟨hres, ⟨e, he⟩, hs⟩ := hopened r hr
    refine ⟨hres, ⟨{ e with status := .resolved }, ?_, he.id, he.resource, he.notify⟩, hs⟩
    refine mem_map.2 ⟨e, he.mem, if_pos ?_⟩
    exact any_eq_true.2 ⟨r, hr, decide_eq_true he.id.symm⟩

theorem Inv.resolveSkip (h : s.Inv env) {signal resource : String} {ruleId : Option String}
    {opened : List Read} {quiet : Option QuietHours} {now : Nat}
    (hi : s.ops[i]? = some (.resolve signal resource ruleId (.skip opened quiet now))) :
    ((s.update (fun e => (opened.filter isUnsent).any (·.1.id = e.id))
      fun e => { e with notify := .skipped }).goto i
        (.resolve signal resource ruleId (.notify opened quiet now))).Inv env := by
  have hopened : s.ResolveOk resource (.quiet opened) := h.op _ (mem_of_getElem? hi)
  have hskip : ∀ e ∈ s.events, (opened.filter isUnsent).any (·.1.id = e.id) = true →
      e.resource = resource ∧ e.notify ≠ .sent := by
    intro e he hp
    obtain ⟨r, hr, hid⟩ := any_eq_true.1 hp
    obtain ⟨hr, hunsent⟩ := mem_filter.1 hr
    obtain ⟨hres, ⟨e', he'⟩, -⟩ := hopened r hr
    have heq : e = e' := inj_on_of_nodup_map h.ids he he'.mem
      ((of_decide_eq_true hid).symm.trans he'.id.symm)
    rw [heq, he'.resource, he'.notify]
    unfold isUnsent at hunsent
    rw [and_eq_true, decide_eq_true_eq] at hunsent
    exact ⟨hres, hunsent.1⟩
  refine h.write hi _ _ (fun e he hp => ?_) (fun _ => ⟨rfl, rfl, rfl, rfl⟩) (fun _ hs => hs)
    (fun e he hp hs => absurd (h.marked e he hs) (hskip e he hp).2) (by simp) (fun _ hx => hx) rfl
    (by simp [Op.targets]) (by simp [Op.quiet?]) (by simp [Op.since?]) ?_
  · rw [(hskip e he hp).1]
    exact mem_cons_self
  · exact fun r hr hn => (hopened r hr).2.2 hn

theorem Inv.resolveNotify (h : s.Inv env) {signal resource : String} {ruleId : Option String}
    {opened : List Read} {quiet : Option QuietHours} {now : Nat}
    (hi : s.ops[i]? = some (.resolve signal resource ruleId (.notify opened quiet now))) :
    State.Inv env ({ s with
      recovered := recoveries env opened quiet now ++ s.recovered }.goto i .done) := by
  have hopened : ∀ r ∈ opened, r.1.notify = .sent → r.1.id ∈ s.sent := h.op _ (mem_of_getElem? hi)
  refine h.move hi rfl rfl rfl rfl ⟨fun _ he _ => he, fun _ he _ => he,
    fun _ hs => hs, fun _ hs => .inl hs⟩
    (by simp [Op.resources]) h.ids h.foreign h.unique h.once h.timely h.known h.marked ?_ ?_
    (by simp [Op.targets]) (by simp [Op.quiet?]) (by simp [Op.since?]) trivial
  · exact fun e he hn => (h.meant e he hn).imp_right fun hx => .inr ⟨hx, by simp [Op.sending]⟩
  · intro id hid
    rcases mem_append.1 hid with hid | hid
    · obtain ⟨r, hr, rfl⟩ := mem_map.1 hid
      obtain ⟨hr, hp⟩ := mem_filter.1 hr
      rw [and_eq_true, decide_eq_true_eq] at hp
      exact hopened r hr hp.1
    · exact h.recovered id hid

/-! ## `releaseHeld` -/

theorem Inv.mem_waiting (h : s.Inv env) {r : Read} (hr : r ∈ s.waiting) :
    (∃ e, s.Waits r e r.1.notify) ∧ (r.1.notify = .held ∨ r.1.notify = .muted) ∧
      ∀ x, r.2 = some x → x ∈ s.rules := by
  obtain ⟨e, he, rfl⟩ := mem_map.1 hr
  obtain ⟨he, hp⟩ := mem_filter.1 he
  simp only [and_eq_true, or_eq_true, decide_eq_true_eq] at hp
  refine ⟨⟨e, he, rfl, rfl, rfl, ?_, hp.1, rfl⟩, hp.2, ?_⟩
  · show e.ruleId = (e.ruleId.bind s.rule?).map Rule.id
    cases hid : e.ruleId with
    | none => rfl
    | some id =>
      obtain ⟨r, hr, rfl⟩ := mem_map.1 (h.foreign e he id hid)
      rw [bind_some, h.rule_eq hr]
      rfl
  · intro x hx
    obtain ⟨id, -, hid⟩ := bind_eq_some_iff.1 hx
    exact mem_of_find?_eq_some hid

theorem Inv.releaseFind (h : s.Inv env) {now : Nat} (hi : s.ops[i]? = some (.release now .find))
    (hok : s.Careful env (.next i)) : (s.goto i (match s.waiting with
      | [] => .released now [] s.quiet
      | waiting => .release now (.quiet waiting))).Inv env := by
  have halone := hok now hi
  split
  · exact h.go hi (by simp [Op.resources]) rfl (by simp [Op.targets]) (by simp [Op.quiet?])
      (by simp [Op.since?]) (fun r hr => by cases hr)
  · refine h.go hi ?_ rfl ?_ (by simp [Op.quiet?]) (fun t ht =>
      h.since _ (mem_of_getElem? hi) t ht) ?_
    · intro x hx j x' _ hj
      obtain ⟨r, hr, rfl⟩ := mem_map.1 hx
      exact halone x' (mem_of_getElem? hj) r hr
    · intro r hr
      obtain ⟨x, hx, hxr⟩ := mem_map.1 hr
      exact (h.mem_waiting hx).2.2 r hxr
    · refine ⟨?_, fun _ hr => hr, fun r hr => ?_⟩
      · have hids : s.waiting.map (·.1.id) = (s.events.filter fun e => e.status = .firing &&
            (e.notify = .held || e.notify = .muted)).map AlertEvent.id := by
          unfold State.waiting
          rw [List.map_map]
          rfl
        rw [hids]
        exact h.ids.sublist ((filter_sublist).map _)
      · obtain ⟨⟨e, he⟩, hn, -⟩ := h.mem_waiting hr
        exact ⟨⟨e, { he with mem := he.mem }⟩, hn⟩

theorem Inv.releaseQuiet (h : s.Inv env) {now : Nat} {waiting : List Read}
    (hi : s.ops[i]? = some (.release now (.quiet waiting))) :
    (s.goto i (.release now (.flip waiting waiting s.quiet))).Inv env := by
  have hmem := mem_of_getElem? hi
  have htodo : s.Todo waiting waiting := h.op _ hmem
  refine h.go hi (h.same hi fun _ hx => hx) rfl (fun x hx => h.targets _ hmem x hx) (fun q hq =>
    (some.inj hq).symm)
    (fun t ht => h.since _ hmem t ht) ⟨⟨htodo.nodup, htodo.sub, fun r hr => ?_⟩,
      fun r hr _ => .inl hr⟩
  obtain ⟨⟨e, he⟩, hn⟩ := htodo.waits r hr
  exact ⟨⟨e, { he with mem := he.mem }⟩, hn⟩

/-- What is left to do is not touched when another event is written. -/
theorem Todo.update {waiting todo : List Read} {r : Read} {p : AlertEvent → Bool}
    {f : AlertEvent → AlertEvent} {op : Op} (h : s.Todo waiting (r :: todo))
    (hp : ∀ e, p e = true → e.id = r.1.id) : ((s.update p f).goto i op).Todo waiting todo where
  nodup := (nodup_cons.1 h.nodup).2
  sub x hx := h.sub x (mem_cons_of_mem _ hx)
  waits x hx := by
    obtain ⟨⟨e, he⟩, hn⟩ := h.waits x (mem_cons_of_mem _ hx)
    refine ⟨⟨e, { he with mem := mem_map.2 ⟨e, he.mem, if_neg fun hpe => ?_⟩ }⟩, hn⟩
    refine (nodup_cons.1 h.nodup).1 ?_
    show r.1.id ∈ todo.map (·.1.id)
    rw [← hp e hpe, he.id]
    exact mem_map_of_mem hx

theorem Todo.tail {waiting todo : List Read} {r : Read} (h : s.Todo waiting (r :: todo)) :
    s.Todo waiting todo :=
  ⟨(nodup_cons.1 h.nodup).2, fun x hx => h.sub x (mem_cons_of_mem _ hx),
    fun x hx => h.waits x (mem_cons_of_mem _ hx)⟩

/-- Nothing had to be sent of an event that stays held. -/
theorem Done.tail {now : Nat} {quiet : Option QuietHours} {waiting todo : List Read} {r : Read}
    {s' : State} (h : s.Done env now quiet waiting (r :: todo)) (hsent : s'.sent = s.sent)
    (hd : notifyDecision env r.1.severity (mutedUntil r.2) quiet now ≠ .send) :
    s'.Done env now quiet waiting todo := by
  intro x hx hxd
  rw [hsent]
  rcases h x hx hxd with hx | hs
  · rcases mem_cons.1 hx with rfl | hx
    · exact absurd hxd hd
    · exact .inl hx
  · exact .inr hs

theorem Inv.releaseFlip (h : s.Inv env) {now : Nat} {waiting todo : List Read}
    {quiet : Option QuietHours} (hi : s.ops[i]? = some (.release now (.flip waiting todo quiet))) :
    (s.flip env i now waiting quiet todo).Inv env := by
  have hmem := mem_of_getElem? hi
  obtain ⟨htodo, hdone⟩ : s.Todo waiting todo ∧ s.Done env now quiet waiting todo := h.op _ hmem
  have htargets := h.targets _ hmem
  cases todo with
  | nil =>
    exact h.go hi (by simp [Op.resources]) rfl (by simp [Op.targets]) (by simp [Op.quiet?])
      (by simp [Op.since?]) hdone
  | cons r todo =>
    obtain ⟨⟨e, he⟩, hwait⟩ := htodo.waits r mem_cons_self
    have hr : r ∈ waiting := htodo.sub r mem_cons_self
    unfold State.flip
    simp only
    set decision := notifyDecision env r.1.severity (mutedUntil r.2) quiet now with hdec
    split_ifs with hsame hhit
    · have hnot : decision ≠ .send := by
        intro hd
        rw [hd] at hsame
        rcases hwait with hw | hw <;> rw [hw] at hsame <;> cases hsame
      exact h.go hi (h.same hi fun _ hx => hx) rfl
        (fun x hx => htargets x (mem_cons_of_mem _ hx)) (fun q hq => h.quiet _ hmem q hq)
          (fun t ht => h.since _ hmem t ht)
        ⟨⟨htodo.tail.nodup, htodo.tail.sub, fun x hx => by
          obtain ⟨⟨e', he'⟩, hn⟩ := htodo.tail.waits x hx
          exact ⟨⟨e', { he' with mem := he'.mem }⟩, hn⟩⟩, hdone.tail rfl hnot⟩
    all_goals
      have hhits : ∀ x : AlertEvent,
          (x.id = r.1.id && x.notify = r.1.notify && x.status = .firing) = true →
          x.id = r.1.id := fun x hx => by
        simp only [and_eq_true, decide_eq_true_eq] at hx
        exact hx.1.1
      have heq : ∀ x ∈ s.events, x.id = r.1.id → x = e := fun x hx hid =>
        inj_on_of_nodup_map h.ids hx he.mem (hid.trans he.id.symm)
      have hnot : e.id ∉ s.sent := fun hs => by
        have hn := h.marked e he.mem hs
        rw [he.notify] at hn
        rcases hwait with hw | hw <;> rw [hw] at hn <;> cases hn
    · obtain ⟨-, hd⟩ := by simpa using hhit
      refine h.write hi _ _ (fun x hx hp => ?_) (fun _ => ⟨rfl, rfl, rfl, rfl⟩) (fun _ hs => hs)
        (fun x hx hp hs => ?_) (fun x hx hp _ => .inr (congrArg some (hhits x hp).symm))
        (fun _ hx => hx) rfl htargets (fun q hq => h.quiet _ hmem q hq) (fun t ht =>
          h.since _ hmem t ht)
        ⟨htodo.update hhits, hdone, hr, ⟨{ e with notify := NOTIFY_STATE decision }, ?_, he.id,
          he.resource, he.severity, he.rule, he.status, ?_⟩, he.id ▸ hnot, hd⟩
      · rw [heq x hx (hhits x hp), he.resource]
        exact mem_map_of_mem hr
      · rw [heq x hx (hhits x hp)] at hs
        exact absurd hs hnot
      · refine mem_map.2 ⟨e, he.mem, if_pos ?_⟩
        simp [he.id, he.notify, he.status]
      · rw [hd]
        rfl
    · have hd : decision ≠ .send := by
        intro hd
        refine hhit ?_
        rw [and_eq_true]
        refine ⟨any_eq_true.2 ⟨e, he.mem, ?_⟩, by simp [hd]⟩
        simp [he.id, he.notify, he.status]
      refine h.write hi _ _ (fun x hx hp => ?_) (fun _ => ⟨rfl, rfl, rfl, rfl⟩) (fun _ hs => hs)
        (fun x hx hp hs => ?_) (fun x hx hp hn => ?_) (fun _ hx => hx) rfl
        (fun x hx => htargets x (mem_cons_of_mem _ hx)) (fun q hq => h.quiet _ hmem q hq)
          (fun t ht => h.since _ hmem t ht)
        ⟨htodo.update hhits, hdone.tail rfl hd⟩
      · rw [heq x hx (hhits x hp), he.resource]
        exact mem_map_of_mem hr
      · rw [heq x hx (hhits x hp)] at hs
        exact absurd hs hnot
      · exfalso
        have hn' : NOTIFY_STATE decision = .sent := hn
        cases hdd : decision with
        | send => exact hd hdd
        | hold =>
          rw [hdd] at hn'
          cases hn'
        | mute =>
          rw [hdd] at hn'
          cases hn'

theorem Inv.releaseSend (h : s.Inv env) {now : Nat} {waiting todo : List Read} {r : Read}
    {quiet : Option QuietHours}
    (hi : s.ops[i]? = some (.release now (.send waiting r todo quiet))) :
    ((s.notified env r.1.id).goto i (.release now (.flip waiting todo quiet))).Inv env := by
  obtain ⟨htodo, hdone, hr, ⟨e, he⟩, hs, hd⟩ := h.op _ (mem_of_getElem? hi)
  rw [← he.id] at hs ⊢
  refine h.notify hi he.mem (he.resource ▸ mem_map_of_mem hr) (congrArg some he.id.symm) he.notify
    hs he.rule mem_cons_self rfl rfl (he.severity ▸ hd) (fun _ hx => hx)
    (fun x hx => mem_cons_of_mem _ hx) (fun _ hq => hq) (fun _ ht => ht) ⟨?_, ?_⟩
  · exact ⟨htodo.nodup, htodo.sub, fun x hx => by
      obtain ⟨⟨e', he'⟩, hn⟩ := htodo.waits x hx
      exact ⟨⟨e', { he' with mem := he'.mem }⟩, hn⟩⟩
  · intro x hx hxd
    rcases hdone x hx hxd with hx | hxs
    · rcases mem_cons.1 hx with rfl | hx
      · exact .inr (he.id ▸ mem_cons_self)
      · exact .inl hx
    · exact .inr (mem_cons_of_mem _ hxs)

/-! ## What is around -/

theorem Inv.begin (h : s.Inv env) {op : Op}
    (hres : ∀ x ∈ op.resources, ∀ op' ∈ s.ops, x ∉ op'.resources)
    (htargets : op.targets = []) (hq : op.quiet? = none)
    (hsince : ∀ t, op.since? = some t → t = s.now)
    (hok : State.OpOk env { s with ops := s.ops ++ [op] } op) :
    State.Inv env { s with ops := s.ops ++ [op] } := by
  have hmem {x : Op} (hx : x ∈ s.ops ++ [op]) : x ∈ s.ops ∨ x = op := by simpa using hx
  have hnew {j : Nat} {x : Op} (hj : (s.ops ++ [op])[j]? = some x) := Cells.of_append hj
  have f : Frame s { s with ops := s.ops ++ [op] } [] :=
    ⟨fun _ he _ => he, fun _ he _ => he, fun _ hs => hs, fun _ hs => .inl hs⟩
  refine
    { h with
      meant := fun e he hn => ?_
      apart := fun j k x x' hj hk y hy hy' => ?_
      targets := fun x hx r hr => ?_
      quiet := fun x hx q hxq => ?_
      since := fun x hx t ht => ?_
      op := fun x hx => ?_ }
  · refine (h.meant e he hn).imp_right ?_
    rintro ⟨x, hx, hs⟩
    exact ⟨x, mem_append_left _ hx, hs⟩
  · rcases hnew hj with hj' | ⟨hj', rfl⟩ <;> rcases hnew hk with hk' | ⟨hk', rfl⟩
    · exact h.apart j k x x' hj' hk' y hy hy'
    · exact absurd hy (hres y hy' x (mem_of_getElem? hj'))
    · exact absurd hy' (hres y hy x' (mem_of_getElem? hk'))
    · rw [hj', hk']
  · rcases hmem hx with hx | rfl
    · exact h.targets x hx r hr
    · rw [htargets] at hr
      cases hr
  · rcases hmem hx with hx | rfl
    · exact h.quiet x hx q hxq
    · rw [hq] at hxq
      cases hxq
  · rcases hmem hx with hx | rfl
    · exact h.since x hx t ht
    · rw [hsince t ht]
      exact ⟨le_refl _, fun hn => hn⟩
  · rcases hmem hx with hx | rfl
    · exact f.opOk h.ids (h.op x hx) fun _ _ => not_mem_nil
    · exact hok

theorem since_of_quiet {op : Op} (h : op.quiet? = some q) : ∃ t, op.since? = some t := by
  unfold Op.quiet? at h
  split at h
  · exact ⟨_, rfl⟩
  · exact ⟨_, rfl⟩
  · exact ⟨_, rfl⟩
  · exact ⟨_, rfl⟩
  · exact ⟨_, rfl⟩
  · exact ⟨_, rfl⟩
  · cases h

/-- The clock and the quiet hours move. -/
theorem Inv.around (h : s.Inv env) {now : Nat} {quiet : Option QuietHours}
    (hq : ∀ op ∈ s.ops, ∀ t, op.since? = some t → quiet = s.quiet ∧ s.now ≤ now ∧
      (s.quiet.any (env.inQuietHours · now) = true →
        s.quiet.any (env.inQuietHours · s.now) = true)) :
    State.Inv env { s with now, quiet } where
  __ := h
  quiet op hop q hopq := by
    obtain ⟨t, ht⟩ := since_of_quiet hopq
    exact (h.quiet op hop q hopq).trans (hq op hop t ht).1.symm
  since op hop t ht := by
    obtain ⟨hquiet, hle, himp⟩ := hq op hop t ht
    obtain ⟨hle', himp'⟩ := h.since op hop t ht
    refine ⟨hle'.trans hle, fun hin => ?_⟩
    rw [hquiet]
    refine himp' (himp ?_)
    have hin' : quiet.any (env.inQuietHours · now) = true := hin
    rwa [hquiet] at hin'
  op x hx := by
    have f : Frame s { s with now, quiet } [] :=
      ⟨fun _ he _ => he, fun _ he _ => he, fun _ hs => hs, fun _ hs => .inl hs⟩
    exact f.opOk h.ids (h.op x hx) fun _ _ => not_mem_nil

/-- The rules move, and the events of those that are deleted do not fire. -/
theorem Inv.setRules (h : s.Inv env) {rules : List Rule} (hnd : (rules.map Rule.id).Nodup)
    (hok : s.Careful env (.setRules rules)) : State.Inv env { s with
      rules
      events := s.events.map fun e =>
        { e with ruleId := e.ruleId.filter (· ∈ rules.map Rule.id) } } := by
  obtain ⟨htargets, hdeleted⟩ := hok
  set f : AlertEvent → AlertEvent := fun e =>
    { e with ruleId := e.ruleId.filter (· ∈ rules.map Rule.id) }
  set s' : State := { s with rules, events := s.events.map f }
  have hfiring {e : AlertEvent} (he : e ∈ s.events) (hs : e.status = .firing) : f e = e := by
    have hrule : e.ruleId.filter (· ∈ rules.map Rule.id) = e.ruleId := by
      cases hid : e.ruleId with
      | none => rfl
      | some id => exact filter_some_pos (decide_eq_true (hdeleted e he hs id hid))
    show { e with ruleId := e.ruleId.filter (· ∈ rules.map Rule.id) } = e
    rw [hrule]
  have hmem {e : AlertEvent} (he : e ∈ s'.events) : ∃ e₀ ∈ s.events, f e₀ = e := mem_map.1 he
  have hin {e : AlertEvent} (he : e ∈ s.events) : f e ∈ s'.events := mem_map_of_mem he
  have hids : s'.ids = s.ids := by
    show (s.events.map f).map AlertEvent.id = _
    rw [List.map_map]
    rfl
  have hwaits {r : Read} {e : AlertEvent} {n : NotifyState} (he : s.Waits r e n) : s'.Waits r e n :=
    { he with mem := hfiring he.mem he.status ▸ hin he.mem }
  have htodo {waiting todo : List Read} (ht : s.Todo waiting todo) : s'.Todo waiting todo :=
    ⟨ht.nodup, ht.sub, fun r hr => by
      obtain ⟨⟨e, he⟩, hn⟩ := ht.waits r hr
      exact ⟨⟨e, hwaits he⟩, hn⟩⟩
  refine
    { h with
      ids := hids ▸ h.ids
      rules := hnd
      foreign := fun e he id hid => ?_
      unique := fun e he e' he' hs hs' hr hrule hsig => ?_
      known := fun id hs => hids ▸ h.known id hs
      marked := fun e he hs => ?_
      meant := fun e he hn => ?_
      targets := htargets
      op := fun x hx => ?_ }
  · obtain ⟨e₀, -, rfl⟩ := hmem he
    have hid' : e₀.ruleId.filter (· ∈ rules.map Rule.id) = some id := hid
    exact of_decide_eq_true (filter_eq_some_iff.1 hid').2
  · obtain ⟨e₀, he₀, rfl⟩ := hmem he
    obtain ⟨e₁, he₁, rfl⟩ := hmem he'
    rw [hfiring he₀ hs] at hrule hsig
    rw [hfiring he₁ hs'] at hrule hsig
    exact h.unique e₀ he₀ e₁ he₁ hs hs' hr hrule hsig
  · obtain ⟨e₀, he₀, rfl⟩ := hmem he
    exact h.marked e₀ he₀ hs
  · obtain ⟨e₀, he₀, rfl⟩ := hmem he
    exact h.meant e₀ he₀ hn
  · have hop := h.op x hx
    cases x with
    | fire input p =>
      cases p with
      | refresh id rest quiet now =>
        obtain ⟨e, he, hid, hres⟩ := hop
        exact ⟨f e, hin he, hid, hres⟩
      | create target rest quiet now =>
        intro e he
        obtain ⟨e₀, he₀, rfl⟩ := hmem he
        by_cases hs : e₀.status = .firing
        · rw [hfiring he₀ hs]
          exact hop e₀ he₀
        · have hs' : (f e₀).status ≠ .firing := hs
          simp [isOpen, hs']
      | send target id rest quiet now =>
        obtain ⟨⟨e, he, hid, hres, hsev, hrule, hs, hn⟩, hrest⟩ := hop
        exact ⟨⟨e, hfiring he hs ▸ hin he, hid, hres, hsev, hrule, hs, hn⟩, hrest⟩
      | _ => trivial
    | resolve signal resource ruleId p =>
      have hopened {opened : List Read} (h : s.ResolveOk resource (.quiet opened)) :
          s'.ResolveOk resource (.quiet opened) :=
        h.mono (fun r e _ he => ⟨f e, hin he.mem, he.id, he.resource, he.notify⟩) fun _ => id
      cases p with
      | find => trivial
      | quiet opened => exact hopened hop
      | close opened quiet now => exact hopened hop
      | skip opened quiet now => exact hopened hop
      | notify opened quiet now => exact hop
    | release now p =>
      cases p with
      | find => trivial
      | quiet waiting => exact htodo hop
      | flip waiting todo quiet => exact ⟨htodo hop.1, hop.2⟩
      | send waiting r todo quiet =>
        obtain ⟨ht, hdone, hr, ⟨e, he⟩, hrest⟩ := hop
        exact ⟨htodo ht, hdone, hr, ⟨e, hwaits he⟩, hrest⟩
    | released now waiting quiet => exact hop
    | done => trivial

/-! ## A run -/

theorem inv_start : start.Inv env := by
  refine ⟨nodup_nil, nodup_nil, ?_, ?_, nodup_nil, rfl, ?_, ?_, ?_, ?_, ?_, ?_, ?_, ?_, ?_⟩ <;>
    simp [start]

theorem Inv.stop (h : s.Inv env) {op : Op} (hi : s.ops[i]? = some op)
    (hsending : op.sending = none) : (s.goto i .done).Inv env :=
  h.go hi (by simp [Op.resources]) hsending (by simp [Op.targets]) (by simp [Op.quiet?])
    (by simp [Op.since?]) trivial

theorem Inv.next (h : s.Inv env) {s' : State} (hok : s.Careful env (.next i))
    (hs : s.next env i = some s') : s'.Inv env := by
  unfold State.next at hs
  split at hs
  · next hi => exact some.inj hs ▸ h.fireRules hi
  · next hi => exact some.inj hs ▸ h.fireQuiet hi
  · next hi => exact some.inj hs ▸ h.fireRefresh hi
  · next hi => exact some.inj hs ▸ h.fireSend hi
  · next hi => exact some.inj hs ▸ h.resolveFind hi
  · next signal resource ruleId opened hi =>
      refine some.inj hs ▸ h.go hi (h.same hi fun _ hx => hx) rfl (by simp [Op.targets])
        (by simp [Op.quiet?]) (by simp [Op.since?]) fun r hr => ?_
      obtain ⟨hres, ⟨e, he⟩, hsent⟩ := h.op _ (mem_of_getElem? hi) r hr
      exact ⟨hres, ⟨e, he.mem, he.id, he.resource, he.notify⟩, hsent⟩
  · next hi => exact some.inj hs ▸ h.resolveClose hi
  · next hi => exact some.inj hs ▸ h.resolveSkip hi
  · next hi => exact some.inj hs ▸ h.resolveNotify hi
  · next hi => exact some.inj hs ▸ h.releaseFind hi hok
  · next hi => exact some.inj hs ▸ h.releaseQuiet hi
  · next hi => exact some.inj hs ▸ h.releaseFlip hi
  · next hi => exact some.inj hs ▸ h.releaseSend hi
  · cases hs

theorem inv_step {s s' : State} (m : Move) (h : s.Inv env) (hok : s.Careful env m)
    (hs : s.step env m = some s') : s'.Inv env := by
  cases m with
  | fire input =>
    simp only [step] at hs
    split_ifs at hs
    refine some.inj hs ▸ h.begin (fun x hx op hop => ?_) rfl rfl (by simp [Op.since?]) trivial
    rw [mem_singleton.1 hx]
    exact hok op hop
  | resolve signal resource ruleId =>
    refine some.inj hs ▸ h.begin (fun x hx op hop => ?_) rfl rfl (by simp [Op.since?]) trivial
    rw [mem_singleton.1 hx]
    exact hok op hop
  | releaseHeld =>
    exact some.inj hs ▸ h.begin (by simp [Op.resources]) rfl rfl
      (fun t ht => (some.inj ht).symm) trivial
  | next i => exact h.next hok hs
  | found i id =>
    simp only [step] at hs
    split at hs
    · next input target rest quiet now hi =>
        cases id with
        | none =>
          split_ifs at hs with hany
          refine some.inj hs ▸ h.fireFound hi (.inl ⟨rfl, fun e he => ?_⟩)
          by_contra hopen
          exact hany (any_eq_true.2 ⟨e, he, by simpa using hopen⟩)
        | some id =>
          simp only at hs
          split_ifs at hs with hany
          obtain ⟨e, he, hp⟩ := any_eq_true.1 hany
          rw [and_eq_true, decide_eq_true_eq] at hp
          exact some.inj hs ▸ h.fireFound hi (.inr ⟨id, rfl, e, he, hp.1, hp.2⟩)
    · cases hs
  | created i id =>
    simp only [step] at hs
    split at hs
    · next hi =>
        split_ifs at hs with hany
        refine some.inj hs ▸ h.created hi fun hmem => hany ?_
        obtain ⟨e, he, rfl⟩ := mem_map.1 hmem
        exact any_eq_true.2 ⟨e, he, by simp⟩
    · cases hs
  | fails i =>
    simp only [step] at hs
    split at hs
    all_goals try cases hs
    next hsend _ hrel _ _ hnone =>
      cases hi : s.ops[i]? with
      | none => exact absurd hi hnone
      | some op =>
        refine h.stop hi ?_
        unfold Op.sending
        split
        · exact absurd hi (hsend _ _ _ _ _ _)
        · exact absurd hi (hrel _ _ _ _ _)
        · rfl
  | setRules rules =>
    simp only [step] at hs
    split_ifs at hs with hnd
    exact some.inj hs ▸ h.setRules hnd hok
  | setQuietHours quiet =>
    refine some.inj hs ▸ h.around fun op hop t ht => ?_
    rcases hok with rfl | hnone
    · exact ⟨rfl, le_refl _, fun hx => hx⟩
    · rw [hnone op hop] at ht
      cases ht
  | wait ms =>
    refine some.inj hs ▸ h.around fun op hop t ht => ⟨rfl, Nat.le_add_right _ _, ?_⟩
    rcases hok with hnone | himp
    · rw [hnone op hop] at ht
      cases ht
    · exact himp

/-! ## The result -/

theorem Inv.promise (h : s.Inv env) : s.Promise env where
  unique e he e' he' hs hs' hr hrule hsig :=
    inj_on_of_nodup_map h.ids he he' (h.unique e he e' he' hs hs' hr hrule hsig)
  __ := h
  released now waiting quiet hop r hr hd e _ hid _ := by
    rcases h.op _ hop r hr hd with hx | hs
    · cases hx
    · exact hid ▸ hs
  skipped e he hn hs := by
    rw [h.marked e he hs] at hn
    cases hn

/-- The promise is kept in every state of a run that is careful. -/
theorem promise_of_careful {s : State} (h : Machine.Reach (step env) (Careful env) start s) :
    s.Promise env :=
  (h.induct inv_start fun _ m _ hi hok hs => inv_step m hi hok hs).promise

/-- No quiet hours, and rules without a selector. -/
def plain : Env := ⟨fun _ _ => false, fun _ _ => true⟩

/-- Quiet hours at first, and rules without a selector. -/
def night : Env := ⟨fun _ now => now < 100, fun _ _ => true⟩

def full : FireEventInput := ⟨"disk-usage", .critical, "node:n1", "disk is full", none⟩

def filling : FireEventInput := ⟨"disk-usage", .warning, "node:n1", "disk is filling up", none⟩

/-- One operation at a time. -/
def oneByOne (s : State) : Move → Bool
  | .fire _ | .resolve _ _ _ => s.ops.all (·.resources = [])
  | .next i => match s.ops[i]? with
    | some (.release _ .find) => s.ops.all (·.resources = [])
    | _ => true
  | .setRules _ => false
  | .setQuietHours _ | .wait _ => s.ops.all (·.since?.isNone)
  | .releaseHeld | .found _ _ | .created _ _ | .fails _ => true

theorem careful_of_oneByOne (s : State) (m : Move) (h : s.oneByOne m = true) :
    s.Careful night m := by
  cases m with
  | fire input =>
    intro op hop
    rw [decide_eq_true_eq.mp (all_eq_true.mp h op hop)]
    exact not_mem_nil
  | resolve signal resource ruleId =>
    intro op hop
    rw [decide_eq_true_eq.mp (all_eq_true.mp h op hop)]
    exact not_mem_nil
  | next i =>
    intro now hi op hop r _
    simp only [oneByOne, hi] at h
    rw [decide_eq_true_eq.mp (all_eq_true.mp h op hop)]
    exact not_mem_nil
  | setRules rules => cases h
  | setQuietHours quiet => exact .inr fun op hop => isNone_iff_eq_none.mp (all_eq_true.mp h op hop)
  | wait ms => exact .inl fun op hop => isNone_iff_eq_none.mp (all_eq_true.mp h op hop)
  | releaseHeld => trivial
  | found i id => trivial
  | created i id => trivial
  | fails i => trivial

/-- A signal fires in the quiet hours, and again; the hold ends; it fires once more, and clears. -/
def heldRun : List Move :=
  [.setQuietHours (some ⟨true, "22:00", "07:00", "Europe/Vienna", true⟩),
    .fire filling, .next 0, .next 0, .found 0 none, .created 0 "e",
    .fire filling, .next 1, .next 1, .found 1 (some "e"), .next 1,
    .wait 100, .releaseHeld, .next 2, .next 2, .next 2, .next 2, .next 2,
    .fire full, .next 3, .next 3, .found 3 (some "e"), .next 3,
    .resolve "disk-usage" "node:n1" none, .next 4, .next 4, .next 4, .next 4, .next 4]

/-- Its event is notified once, and so is its recovery. -/
theorem promise_held : ∃ s, Machine.runIf (step night) oneByOne start heldRun = some s ∧
    s.Promise night ∧ s.sent = ["e"] ∧ s.recovered = ["e"] := by
  have hrun : (Machine.runIf (step night) oneByOne start heldRun).map
      (fun s => (s.sent, s.recovered)) = some (["e"], ["e"]) := by decide
  obtain ⟨s, hs, heq⟩ := map_eq_some_iff.mp hrun
  rw [Prod.mk.injEq] at heq
  exact ⟨s, hs, promise_of_careful (Machine.reach_of_runIf careful_of_oneByOne .refl hs), heq⟩

/-- Two slices fire a signal for a resource, and each finds no open event. -/
def twice : List Move :=
  [.fire full, .fire full, .next 0, .next 0, .next 1, .next 1, .found 0 none, .found 1 none,
    .created 0 "a", .created 1 "b"]

theorem not_promise_twice : ¬ ∀ env s, Machine.Reach (step env) (fun _ _ => True) start s →
    s.Promise env := by
  intro h
  have hrun : ∃ s, Machine.run (step plain) start twice = some s ∧ s.events =
      [⟨"a", none, "disk-usage", .critical, "node:n1", "disk is full", .firing, .sent⟩,
        ⟨"b", none, "disk-usage", .critical, "node:n1", "disk is full", .firing, .sent⟩] :=
          ⟨_, rfl, rfl⟩
  obtain ⟨s, hs, he⟩ := hrun
  have hunique := (h plain s (Machine.reach_of_run .refl hs)).unique
  rw [he] at hunique
  exact absurd (hunique _ mem_cons_self _ (mem_cons_of_mem _ mem_cons_self) rfl rfl rfl
    rfl fun _ => rfl) (by decide)

end State

end Alerts
