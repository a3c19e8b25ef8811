import Swarmy.Gateway.Commands

/-!
# Results reach their own dispatch

Results are matched by command id alone.  When no caller hands in an id that was used
before, and no agent answers under an id that only others were sent, every promise is
settled at most once and by its own result; otherwise a frame of another node may settle it.
-/

namespace Swarmy.Gateway

open Machine List Option Function

/-! ## What the hub promises -/

/-- The dispatch an event settles. -/
def HubEvent.settles : HubEvent → Option Nat
  | .settled d _ _ => some d
  | .delivered _ _ => none

def settledIn (log : List HubEvent) : List Nat := log.filterMap HubEvent.settles

/-- A result comes from the node the command was sent to, as an answer to it, and so does
a line of a log. -/
def HubEvent.Owned (sent : List Sent) : HubEvent → Prop
  | .settled d _ (some (sender, answers)) => (sent[d]?).map (·.node) = some sender ∧
    answers = some d
  | .settled _ _ none => True
  | .delivered k sender => (sent[k]?).map (·.node) = some sender

/-- Results and lines have reached their own dispatch, no dispatch was settled twice, and what
answers a settled dispatch settles nothing. -/
structure Settles (ok : HubState → HubMove → Prop) (w : HubState) : Prop where
  owned : ∀ e ∈ w.log, e.Owned w.sent
  once : (settledIn w.log).Nodup
  late : ∀ d ∈ settledIn w.log, ∀ sender f w', ok w (.frame sender (some d) f) →
    w.step (.frame sender (some d) f) = some w' → settledIn w'.log = settledIn w.log

/-- In a state that a run of allowed moves reaches. -/
def Correlated (ok : HubState → HubMove → Prop) (w : HubState) : Prop :=
  Reach HubState.step ok .initial w → Settles ok w

/-! ## When it holds -/

/-- A frame under an id that was given out comes from a node that was sent a command
under it, and answers that command. -/
def Honest (w : HubState) (sender : String) (answers : Option Nat) (f : AgentFrame) : Prop :=
  (∃ c ∈ w.sent, c.commandId = f.commandId) → ∃ k c, w.sent[k]? = some c ∧
    c.commandId = f.commandId ∧ c.node = sender ∧ answers = some k

/-- The id a command is sent under is new, and frames are honest. -/
def Genuine (w : HubState) : HubMove → Prop
  | .dispatch _ supplied uuid _ _ _ =>
    ∀ c ∈ w.sent, c.commandId ≠ pickCommandId supplied (fun id => (w.pending id).isSome) uuid
  | .frame sender answers f => Honest w sender answers f
  | .subscribe _ _ | .unsubscribe _ | .fire _ | .tick _ => True

/-- Ids are used once; what is in flight is not settled; and the log is as claimed. -/
structure HubInv (w : HubState) : Prop where
  ids : (w.sent.map Sent.commandId).Nodup
  pending : ∀ id p, w.pending id = some p →
    ((w.sent[p.dispatch]?).map Sent.commandId = some id) ∧ p.dispatch ∉ settledIn w.log
  once : (settledIn w.log).Nodup
  known : ∀ d ∈ settledIn w.log, d < w.sent.length
  owned : ∀ e ∈ w.log, e.Owned w.sent

theorem HubInv.initial : HubInv .initial where
  ids := by simp [HubState.initial]
  pending _ _ h := by simp [HubState.initial] at h
  once := by simp [HubState.initial, settledIn]
  known _ h := by simp [HubState.initial, settledIn] at h
  owned _ h := by simp [HubState.initial] at h

section

variable {w w' : HubState} {id : String} {p : Pending} {k : Nat} {c : Sent}

/-- A command is known by its id. -/
theorem HubInv.unique (h : HubInv w) {j : Nat} (hk : (w.sent[k]?).map Sent.commandId = some id)
    (hj : (w.sent[j]?).map Sent.commandId = some id) : k = j := by
  rw [← List.getElem?_map] at hk hj
  exact (List.getElem?_inj (List.getElem?_eq_some_iff.mp hk).1 h.ids).mp (hk.trans hj.symm)

/-- The command an honest frame answers is the one that carries its id. -/
theorem HubInv.honest (h : HubInv w) {sender : String} {answers : Option Nat} {f : AgentFrame}
    (hf : Honest w sender answers f) (hk : (w.sent[k]?).map Sent.commandId = some f.commandId) :
    (w.sent[k]?).map Sent.node = some sender ∧ answers = some k := by
  obtain ⟨c, hc, hid⟩ := map_eq_some_iff.mp hk
  obtain ⟨j, c', hc', hid', hnode, hans⟩ := hf ⟨c, mem_of_getElem? hc, hid⟩
  obtain rfl := h.unique hk (by rw [hc', map_some, hid'])
  rw [hc', map_some, hnode]
  exact ⟨rfl, hans⟩

theorem HubEvent.Owned.append {sent more : List Sent} {e : HubEvent} (h : e.Owned sent) :
    e.Owned (sent ++ more) := by
  have hmap : ∀ (k : Nat) (n : String), (sent[k]?).map Sent.node = some n →
      ((sent ++ more)[k]?).map Sent.node = some n := by
    intro k n hk
    obtain ⟨c, hc, rfl⟩ := map_eq_some_iff.mp hk
    rw [List.getElem?_append_left (List.getElem?_eq_some_iff.mp hc).1, hc, map_some]
  cases e with
  | settled d ok cause =>
    cases cause with
    | none => trivial
    | some cause => exact ⟨hmap _ _ h.1, h.2⟩
  | delivered k sender => exact hmap _ _ h

/-- What neither sends nor settles anything. -/
theorem HubInv.congr (h : HubInv w) (hsent : w'.sent = w.sent) (hlog : w'.log = w.log)
    (hpending : ∀ id p', w'.pending id = some p' →
      ∃ p, w.pending id = some p ∧ p'.dispatch = p.dispatch) : HubInv w' where
  ids := hsent ▸ h.ids
  pending id p' hp' := by
    obtain ⟨p, hp, hd⟩ := hpending id p' hp'
    rw [hsent, hlog, hd]
    exact h.pending id p hp
  once := hlog ▸ h.once
  known := by
    rw [hlog, hsent]
    exact h.known
  owned := by
    rw [hlog, hsent]
    exact h.owned

/-- A command is sent under a new id, with a promise of its own or without one. -/
theorem HubInv.send (h : HubInv w) (hid : ∀ c' ∈ w.sent, c'.commandId ≠ c.commandId)
    (hsent : w'.sent = w.sent ++ [c]) (hlog : w'.log = w.log)
    (hpending : ∀ id p', w'.pending id = some p' →
      w.pending id = some p' ∨ id = c.commandId ∧ p'.dispatch = w.sent.length) : HubInv w' where
  ids := by
    rw [hsent, map_append, nodup_append]
    refine ⟨h.ids, by simp, fun a ha b hb hab => ?_⟩
    obtain ⟨c', hc', rfl⟩ := mem_map.mp ha
    obtain rfl : b = c.commandId := by simpa using hb
    exact hid c' hc' hab
  pending id p' hp' := by
    rw [hsent, hlog]
    rcases hpending id p' hp' with hp | ⟨rfl, hd⟩
    · obtain ⟨hs, hn⟩ := h.pending id p' hp
      obtain ⟨c', hc', hid'⟩ := map_eq_some_iff.mp hs
      rw [List.getElem?_append_left (List.getElem?_eq_some_iff.mp hc').1]
      exact ⟨hs, hn⟩
    · rw [hd]
      refine ⟨by simp, fun hmem => ?_⟩
      exact absurd (h.known _ hmem) (Nat.lt_irrefl _)
  once := hlog ▸ h.once
  known d hd := by
    rw [hlog] at hd
    rw [hsent, length_append]
    exact Nat.lt_add_right _ (h.known d hd)
  owned e he := by
    rw [hlog] at he
    rw [hsent]
    exact (h.owned e he).append

/-- A promise is settled, by its timer or by a result that is its own. -/
theorem HubInv.settle (h : HubInv w) (hp : w.pending id = some p) {ok : Bool}
    {cause : Option (String × Option Nat)}
    (hown : (HubEvent.settled p.dispatch ok cause).Owned w.sent) (hsent : w'.sent = w.sent)
    (hlog : w'.log = .settled p.dispatch ok cause :: w.log)
    (hpending : w'.pending = update w.pending id none) : HubInv w' := by
  obtain ⟨hid, hnew⟩ := h.pending id p hp
  have hsettled : settledIn w'.log = p.dispatch :: settledIn w.log := by rw [hlog]; rfl
  refine ⟨hsent ▸ h.ids, fun id' p' hp' => ?_, ?_, fun d hd => ?_, fun e he => ?_⟩
  · have hne : id' ≠ id := by
      rintro rfl
      rw [hpending, update_self] at hp'
      cases hp'
    rw [hpending, update_of_ne hne] at hp'
    obtain ⟨hid', hnew'⟩ := h.pending id' p' hp'
    rw [hsent, hsettled]
    refine ⟨hid', fun hmem => ?_⟩
    rcases mem_cons.mp hmem with heq | hmem
    · rw [heq, hid] at hid'
      exact hne (some.inj hid').symm
    · exact hnew' hmem
  · rw [hsettled]
    exact nodup_cons.mpr ⟨hnew, h.once⟩
  · rw [hsettled] at hd
    rw [hsent]
    rcases mem_cons.mp hd with rfl | hd
    · obtain ⟨c, hc, -⟩ := map_eq_some_iff.mp hid
      exact (List.getElem?_eq_some_iff.mp hc).1
    · exact h.known d hd
  · rw [hlog] at he
    rw [hsent]
    rcases mem_cons.mp he with rfl | he
    · exact hown
    · exact h.owned e he

/-! Each function of the hub. -/

theorem HubInv.clearTimeout (h : HubInv w) (handle : Nat) : HubInv (w.clearTimeout handle) :=
  h.congr rfl rfl fun _ p hp => ⟨p, hp, rfl⟩

theorem HubInv.commandProgress (h : HubInv w) (progress : CommandProgress) :
    HubInv (w.commandProgress id progress) := by
  unfold HubState.commandProgress
  split
  · exact h
  next p hp =>
    have hpending : ∀ id' p', update w.pending id (some { p with timer := w.nextHandle }) id' =
        some p' → ∃ p₀, w.pending id' = some p₀ ∧ p'.dispatch = p₀.dispatch := by
      intro id' p' hp'
      by_cases hid : id' = id
      · subst hid
        rw [update_self] at hp'
        exact ⟨p, hp, (some.inj hp') ▸ rfl⟩
      · rw [update_of_ne hid] at hp'
        exact ⟨p', hp', rfl⟩
    split
    · exact h.congr rfl rfl hpending
    · exact h.congr rfl rfl hpending

theorem log_commandProgress {progress : CommandProgress} :
    (w.commandProgress id progress).log = w.log := by
  unfold HubState.commandProgress
  split
  · rfl
  · split <;> rfl

theorem HubInv.expire (h : HubInv w) : HubInv (w.expire id) := by
  unfold HubState.expire
  split
  · exact h
  next p hp =>
    unfold HubState.clearDeployProgress
    have hset : (HubEvent.settled p.dispatch false none).Owned w.sent := trivial
    split <;> exact h.settle hp hset rfl rfl rfl

theorem HubInv.settleCommand (h : HubInv w) {ok : Bool} {cause : String × Option Nat}
    (hown : ∀ k : Nat, (w.sent[k]?).map Sent.commandId = some id →
      (w.sent[k]?).map Sent.node = some cause.1 ∧ cause.2 = some k) :
    HubInv (w.settleCommand id ok cause) := by
  unfold HubState.settleCommand
  split
  · exact h
  next p hp =>
    have hset : (HubEvent.settled p.dispatch ok (some cause)).Owned w.sent :=
      hown p.dispatch (h.pending id p hp).1
    unfold HubState.clearDeployProgress
    split <;> exact h.settle hp hset rfl rfl rfl

theorem settledIn_emitLog {sender : String} :
    settledIn (w.emitLog id sender).log = settledIn w.log := by
  have hnone : ∀ ks : List Nat,
      settledIn (ks.map (HubEvent.delivered · sender)) = [] := fun ks => by
    rw [settledIn, filterMap_eq_nil_iff]
    intro e he
    obtain ⟨k, -, rfl⟩ := mem_map.mp he
    rfl
  exact (filterMap_append ..).trans (congrArg (· ++ settledIn w.log) (hnone _))

theorem HubInv.emitLog (h : HubInv w) {sender : String}
    (hown : ∀ k : Nat, (w.sent[k]?).map Sent.commandId = some id →
      (w.sent[k]?).map Sent.node = some sender) : HubInv (w.emitLog id sender) where
  ids := h.ids
  pending id' p hp := by
    rw [settledIn_emitLog]
    exact h.pending id' p hp
  once := by
    rw [settledIn_emitLog]
    exact h.once
  known d hd := by
    rw [settledIn_emitLog] at hd
    exact h.known d hd
  owned e he := by
    rcases mem_append.mp he with he | he
    · obtain ⟨k, hk, rfl⟩ := mem_map.mp he
      refine hown k ?_
      obtain ⟨c, hc, hl⟩ := (any_eq_true _ _).mp (mem_filter.mp hk).2
      rw [hc, map_some, of_decide_eq_true (Bool.and_elim_left hl)]
    · exact h.owned e he

/-- A frame that is honest. -/
theorem HubInv.receive (h : HubInv w) {sender : String} {answers : Option Nat} {f : AgentFrame}
    (hf : Honest w sender answers f) : HubInv (w.receive sender answers f) := by
  cases f with
  | commandResult commandId status progress =>
    simp only [HubState.receive]
    split
    · cases progress with
      | none => exact h
      | some progress => exact h.commandProgress progress
    · exact h.settleCommand fun k hk => h.honest hf hk
  | logChunk commandId => exact h.emitLog fun k hk => (h.honest hf hk).1

theorem HubInv.step (h : HubInv w) {m : HubMove} (hok : Genuine w m) (hs : w.step m = some w') :
    HubInv w' := by
  cases m with
  | dispatch node supplied uuid defaultMs explicitMs deploy =>
    simp only [HubState.step] at hs
    split at hs
    · obtain rfl := some.inj hs
      let commandId := pickCommandId supplied (fun id => (w.pending id).isSome) uuid
      refine h.send (show ∀ c ∈ w.sent, c.commandId ≠
        (Sent.mk node commandId false).commandId from hok) rfl rfl fun id p' hp' => ?_
      simp only [HubState.dispatch] at hp'
      by_cases hid : id = pickCommandId supplied (fun id => (w.pending id).isSome) uuid
      · subst hid
        rw [update_self] at hp'
        exact .inr ⟨rfl, (some.inj hp') ▸ rfl⟩
      · rw [update_of_ne hid] at hp'
        exact .inl hp'
    · cases hs
  | subscribe node uuid =>
    simp only [HubState.step] at hs
    split at hs
    next hid =>
      obtain rfl := some.inj hs
      refine h.send (c := ⟨node, uuid, true⟩) (fun c hc => ?_) rfl rfl fun _ _ hp => .inl hp
      exact of_decide_eq_true (all_eq_true.mp hid c hc)
    · cases hs
  | unsubscribe k =>
    obtain rfl := some.inj hs
    exact h.congr rfl rfl fun _ p hp => ⟨p, hp, rfl⟩
  | frame sender answers f =>
    obtain rfl := some.inj hs
    exact h.receive hok
  | fire handle =>
    simp only [HubState.step] at hs
    split at hs
    · split at hs
      · obtain rfl := some.inj hs
        exact (h.clearTimeout handle).expire
      · cases hs
    · cases hs
  | tick ms =>
    obtain rfl := some.inj hs
    exact h.congr rfl rfl fun _ p hp => ⟨p, hp, rfl⟩

end

/-- In every run with new ids and honest frames, results reach their own dispatch. -/
theorem correlated_genuine (w : HubState) : Correlated Genuine w := by
  intro h
  have hw : HubInv w := h.induct HubInv.initial fun _ _ _ hI hok hs => hI.step hok hs
  refine ⟨hw.owned, hw.once, fun d hd sender f w' hok hs => ?_⟩
  obtain rfl := some.inj hs
  cases f with
  | logChunk commandId => exact settledIn_emitLog
  | commandResult commandId status progress =>
    simp only [HubState.receive]
    split
    · cases progress with
      | none => rfl
      | some progress => exact congrArg settledIn log_commandProgress
    · unfold HubState.settleCommand
      split
      · rfl
      next p hp =>
        -- the promise in flight is another one than the settled one
        obtain ⟨hid, hnew⟩ := hw.pending commandId p hp
        have hans := (hw.honest hok hid).2
        rw [← some.inj hans] at hnew
        exact absurd hd hnew

/-! ## A result of another node -/

/-- A build is sent to one node, and another answers under its id. -/
def forged : List HubMove :=
  [.dispatch "a" (some "build-1") "u" none none none,
   .frame "b" none (.commandResult "build-1" .succeeded none)]

/-- A frame of a node that was sent nothing settles the dispatch. -/
theorem correlated_forged : ¬ ∀ w, Correlated (fun _ _ => True) w := by
  intro h
  have hrun : ((run HubState.step .initial forged).map fun w => (w.sent, w.log)) =
      some ([⟨"a", "build-1", false⟩], [.settled 0 true (some ("b", none))]) := by decide
  obtain ⟨w, hw, hlog⟩ := map_eq_some_iff.mp hrun
  obtain ⟨hsent, hlog⟩ := Prod.mk.inj hlog
  have howned := (h w (reach_of_run .refl hw)).owned _ (hlog ▸ mem_singleton_self _)
  exact absurd howned.2 (by decide)

end Swarmy.Gateway
