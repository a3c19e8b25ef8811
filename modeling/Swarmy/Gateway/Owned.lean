import Swarmy.Gateway.Session

/-!
# Who owns a node's state

A node's live session is that of the socket that registered last, and what the store
holds of the node is to be what that socket has reported.  `ownsState_careful` says that
it is in every run in which no socket completes its registration after its close or
over another session's telemetry, and no superseded socket is heard or closed while
that would change anything.
-/

namespace Swarmy.Gateway

open Coop

/-! ## Sessions, from what has happened -/

/-- The socket that completed its registration as the node last. -/
def lastRegistered (n : String) : List Event → Option Sock
  | [] => none
  | .registered s n' :: es => if n' = n then some s else lastRegistered n es
  | .heard _ _ _ :: es => lastRegistered n es

/-- What the socket has reported of the node since the node's session passed to another
socket than the one before. -/
def reported (s : Sock) (n : String) : List Event → Telemetry
  | [] => .none
  | .registered s' n' :: es =>
    if n' = n ∧ lastRegistered n es ≠ some s' then .none else reported s n es
  | .heard s' n' f :: es =>
    if s' = s ∧ n' = n then (reported s n es).hear f else reported s n es

/-- The socket has been told to close, or has closed. -/
def World.Ended (w : World) (s : Sock) : Prop := (∃ code, (s, code) ∈ w.told) ∨ s ∈ w.gone

/-- A node's live session owns its state. -/
structure Owned (w : World) : Prop where
  /-- The registry has the socket that registered last, until it has closed. -/
  current : ∀ n s, w.byNode n = some s ↔ lastRegistered n w.log = some s ∧ s ∉ w.gone
  /-- Every earlier socket of the node has been told to close. -/
  superseded : ∀ n s s', w.byNode n = some s → .registered s' n ∈ w.log → s' ≠ s → w.Ended s'
  /-- The live telemetry is what the session has reported. -/
  telemetry : ∀ n s, w.byNode n = some s → w.store.telemetry n = reported s n w.log

/-- In every run whose moves are allowed, every live session owns its node's state. -/
def OwnsState {sha256 : String → String} (A : Allow (gateway sha256)) : Prop :=
  ∀ c, System.Reach A.move ⟨.initial, []⟩ c → Owned c.world

/-- A socket that completes its registration has not closed, and takes over no other
session's telemetry. -/
def RegistersClean (s : Sock) (n : String) (w : World) : Prop :=
  s ∉ w.gone ∧ (w.byNode n = some s ∨ w.store.telemetry n = .none)

/-- A message on a superseded socket changes nothing of the node's telemetry. -/
def HeardClean (s : Sock) (f : Frame) (w : World) : Prop :=
  ∀ n s', (w.ws s).nodeId = some n → w.byNode n = some s' → s' ≠ s →
    (w.store.telemetry n).hear f = w.store.telemetry n

/-- A socket that closes has no other node's session, and if it is superseded there is
nothing to forget. -/
def ClosesClean (s : Sock) (w : World) : Prop :=
  (∀ n, w.byNode n = some s → (w.ws s).nodeId = some n) ∧
    ∀ n s', (w.ws s).nodeId = some n → w.byNode n = some s' → s' ≠ s →
      w.store.telemetry n = .none

/-- Registrations, messages and closes are clean. -/
def careful (sha256 : String → String) : Allow (gateway sha256) where
  start
    | .message s (some f), w => HeardClean s f w
    | .message _ none, _ => True
    | .close s, w => ClosesClean s w
  resume
    | .message s _, .rotated _, .rotateSecret n, w => RegistersClean s n w
    | _, _, _, _ => True
  env _ _ := True

/-! ## What a handler keeps -/

/-- The invariant: a registered socket that is not its node's last has ended, also while
the node has no session. -/
structure Inv (w : World) : Prop extends Owned w where
  ended : ∀ n s, .registered s n ∈ w.log → lastRegistered n w.log = some s ∨ w.Ended s

section

variable {w : World} {s : Sock} {n n' : String} {f : Frame}

theorem Inv.initial : Inv .initial where
  current _ _ := by simp [World.initial, lastRegistered]
  superseded _ _ _ h := by cases h
  telemetry _ _ h := by cases h
  ended _ _ h := by cases h

theorem Inv.close (h : Inv w) (code : CloseCode) : Inv (w.close s code) := by
  have hend : ∀ s', w.Ended s' → (w.close s code).Ended s' :=
    fun s' => Or.imp_left fun ⟨c, hc⟩ => ⟨c, .tail _ hc⟩
  exact ⟨⟨h.current, fun n s s' hs hr hne => hend s' (h.superseded n s s' hs hr hne), h.telemetry⟩,
    fun n s' hr => (h.ended n s' hr).imp_right (hend s')⟩

theorem Inv.tick (h : Inv w) (dt : Nat) : Inv { w with now := w.now + dt } :=
  ⟨⟨h.current, h.superseded, h.telemetry⟩, h.ended⟩

/-! Registering. -/

section

variable {orgId : String} {facts : NodeFacts}

theorem register_byNode : (w.register s n orgId facts).byNode = w.byNode.set n s := by
  unfold World.register World.add
  dsimp only
  split
  · rfl
  · split <;> rfl

theorem register_gone : (w.register s n orgId facts).gone = w.gone := by
  unfold World.register World.add
  dsimp only
  split
  · rfl
  · split <;> rfl

theorem register_log : (w.register s n orgId facts).log = .registered s n :: w.log := by
  unfold World.register World.add
  dsimp only
  split
  · rfl
  · split <;> rfl

theorem register_telemetry : (w.register s n orgId facts).store.telemetry n' =
    w.store.telemetry n' := by
  unfold World.register World.add
  dsimp only
  split
  · rfl
  · split <;> rfl

theorem ended_register {s' : Sock} (h : w.Ended s') : (w.register s n orgId facts).Ended s' := by
  unfold World.register World.add
  dsimp only
  split
  · exact h
  · split
    · exact h
    · exact h.imp_left fun ⟨c, hc⟩ => ⟨c, .tail _ hc⟩

/-- The socket whose place is taken is told to close. -/
theorem ended_register_previous {s' : Sock} (h : w.byNode n = some s') (hne : s' ≠ s) :
    (w.register s n orgId facts).Ended s' := by
  unfold World.register World.add
  dsimp only
  rw [h]
  dsimp only
  rw [if_neg hne]
  exact .inl ⟨.duplicateSession, .head _⟩

theorem Inv.register (h : Inv w) (hc : RegistersClean s n w) :
    Inv (w.register s n orgId facts) := by
  have hended : ∀ m s', .registered s' m ∈ .registered s n :: w.log →
      lastRegistered m (.registered s n :: w.log) = some s' ∨
        (w.register s n orgId facts).Ended s' := by
    intro m s' hr
    rw [lastRegistered]
    rcases List.mem_cons.mp hr with he | hr
    · obtain ⟨rfl, rfl⟩ := Event.registered.inj he
      exact .inl (if_pos rfl)
    rcases h.ended m s' hr with hlast | hend
    · by_cases hm : n = m
      · subst hm
        rw [if_pos rfl, Option.some.injEq]
        by_cases hs : s' = s
        · exact .inl hs.symm
        · by_cases hg : s' ∈ w.gone
          · exact .inr (ended_register (.inr hg))
          · exact .inr (ended_register_previous ((h.current n s').mpr ⟨hlast, hg⟩) hs)
      · rw [if_neg hm]
        exact .inl hlast
    · exact .inr (ended_register hend)
  refine ⟨⟨fun m s' => ?_, fun m s' s'' hs hr hne => ?_, fun m s' hs => ?_⟩, fun m s' hr => ?_⟩
  · rw [register_byNode, register_log, register_gone, lastRegistered]
    by_cases hm : m = n
    · subst hm
      rw [NodeMap.set_self, if_pos rfl, Option.some.injEq]
      exact ⟨fun he => ⟨he, he ▸ hc.1⟩, And.left⟩
    · rw [NodeMap.set_of_ne hm, if_neg (Ne.symm hm)]
      exact h.current m s'
  · rw [register_log] at hr
    rcases hended m s'' hr with hlast | hend
    · rw [register_byNode] at hs
      rw [lastRegistered] at hlast
      by_cases hm : m = n
      · subst hm
        rw [NodeMap.set_self] at hs
        rw [if_pos rfl] at hlast
        exact absurd (Option.some.inj (hlast.symm.trans hs)) hne
      · rw [NodeMap.set_of_ne hm] at hs
        rw [if_neg (Ne.symm hm), ((h.current m s').mp hs).1] at hlast
        exact absurd (Option.some.inj hlast).symm hne
    · exact hend
  · rw [register_byNode] at hs
    rw [register_telemetry, register_log, reported]
    by_cases hm : m = n
    · subst hm
      rw [NodeMap.set_self, Option.some.injEq] at hs
      subst hs
      by_cases hlast : lastRegistered m w.log = some s
      · rw [if_neg fun hn => hn.2 hlast]
        exact h.telemetry m s ((h.current m s).mpr ⟨hlast, hc.1⟩)
      · rw [if_pos ⟨rfl, hlast⟩]
        exact hc.2.resolve_left fun hb => hlast ((h.current m s).mp hb).1
    · rw [NodeMap.set_of_ne hm] at hs
      rw [if_neg fun hn => hm hn.1.symm]
      exact h.telemetry m s' hs
  · rw [register_log] at hr ⊢
    exact hended m s' hr

end

/-! Messages and closes. -/

theorem Inv.hear (h : Inv w) (hc : HeardClean s f w) : Inv (w.hear s f) := by
  unfold World.hear
  split
  · exact h
  next n hn =>
    refine ⟨⟨h.current, fun m s₁ s₂ hs hr hne => ?_, fun m s' hs => ?_⟩, fun m s' hr => ?_⟩
    · refine h.superseded m s₁ s₂ hs ?_ hne
      simpa using hr
    · rw [reported]
      by_cases hm : m = n
      · subst hm
        rw [GatewayStore.telemetry_hear]
        by_cases hs' : s = s'
        · subst hs'
          rw [if_pos ⟨rfl, rfl⟩, h.telemetry m s hs]
        · rw [if_neg fun hx => hs' hx.1, hc m s' hn hs (Ne.symm hs')]
          exact h.telemetry m s' hs
      · rw [GatewayStore.telemetry_hear_of_ne hm, if_neg fun hx => hm hx.2.symm]
        exact h.telemetry m s' hs
    · have hr' : .registered s' m ∈ w.log := by simpa using hr
      exact h.ended m s' hr'

theorem remove_of_ne (h : w.byNode n ≠ some s) : w.remove n s = w := by
  rw [World.remove, if_neg h]

/-- The node of a socket that closes: its entry goes, and its telemetry. -/
theorem Inv.handleAgentClose (h : Inv w) (hc : ClosesClean s w) :
    Inv ({ w with gone := s :: w.gone }.handleAgentClose s) := by
  have hend : ∀ s', w.Ended s' → (∃ code, (s', code) ∈ w.told) ∨ s' ∈ s :: w.gone :=
    fun s' => Or.imp_right fun hg => .tail _ hg
  -- a live session that is not the closing socket's stays as it was
  have hcur : ∀ m s', s' ≠ s →
      (w.byNode m = some s' ↔ lastRegistered m w.log = some s' ∧ s' ∉ s :: w.gone) := by
    intro m s' hne
    rw [h.current m s', List.mem_cons, not_or]
    exact and_congr_right fun _ => (and_iff_right hne).symm
  unfold World.handleAgentClose
  split
  · next hn =>
    have hnot : ∀ m, w.byNode m ≠ some s := by
      intro m hm
      have hm' : (w.ws s).nodeId = none := hn
      rw [hc.1 m hm] at hm'
      cases hm'
    refine ⟨⟨fun m s' => ?_, fun m s₁ s₂ hs hr hne => hend s₂ (h.superseded m s₁ s₂ hs hr hne),
      h.telemetry⟩, fun m s' hr => (h.ended m s' hr).imp_right (hend s')⟩
    by_cases hs : s' = s
    · subst hs
      exact iff_of_false (hnot m) fun hx => hx.2 (.head _)
    · exact hcur m s' hs
  · next n hn =>
    by_cases hreg : w.byNode n = some s
    · have hlive : ∀ m s', (w.byNode.delete n) m = some s' ↔ w.byNode m = some s' ∧ s' ≠ s := by
        intro m s'
        by_cases hm : m = n
        · subst hm
          rw [NodeMap.delete_self, hreg]
          exact iff_of_false (fun hx => by cases hx) fun hx => hx.2 (Option.some.inj hx.1).symm
        · rw [NodeMap.delete_of_ne hm]
          refine (and_iff_left_of_imp fun hm' hs => hm ?_).symm
          subst hs
          exact Option.some.inj ((hc.1 m hm').symm.trans hn)
      rw [World.remove, if_pos hreg]
      refine ⟨⟨fun m s' => ?_, fun m s₁ s₂ hs hr hne => ?_, fun m s' hs => ?_⟩, fun m s' hr => ?_⟩
      · refine (hlive m s').trans ?_
        by_cases hs : s' = s
        · subst hs
          exact iff_of_false (fun hx => hx.2 rfl) fun hx => hx.2 (.head _)
        · exact (and_iff_left hs).trans (hcur m s' hs)
      · exact hend s₂ (h.superseded m s₁ s₂ ((hlive m s₁).mp hs).1 hr hne)
      · obtain ⟨hlive, hne⟩ := (hlive m s').mp hs
        have hm : m ≠ n := fun hm => hne (Option.some.inj ((hm ▸ hlive.symm).trans hreg))
        exact (GatewayStore.telemetry_forget_of_ne hm).trans (h.telemetry m s' hlive)
      · exact (h.ended m s' hr).imp_right (hend s')
    · rw [remove_of_ne (w := { w with gone := s :: w.gone }) hreg]
      have hnot : ∀ m, w.byNode m ≠ some s := by
        intro m hm
        obtain rfl := Option.some.inj ((hc.1 m hm).symm.trans hn)
        exact hreg hm
      refine ⟨⟨fun m s' => ?_, fun m s₁ s₂ hs hr hne => ?_, fun m s' hs => ?_⟩, fun m s' hr => ?_⟩
      · by_cases hs : s' = s
        · subst hs
          exact iff_of_false (hnot m) fun hx => hx.2 (.head _)
        · exact hcur m s' hs
      · exact hend s₂ (h.superseded m s₁ s₂ hs hr hne)
      · by_cases hm : m = n
        · subst hm
          have hne : s' ≠ s := fun he => hreg (he ▸ hs)
          exact (GatewayStore.telemetry_forget.trans (hc.2 m s' hn hs hne).symm).trans
            (h.telemetry m s' hs)
        · exact (GatewayStore.telemetry_forget_of_ne hm).trans (h.telemetry m s' hs)
      · exact (h.ended m s' hr).imp_right (hend s')

end

/-! ## The handlers keep it -/

/-- A database call leaves the state of the gateway alone. -/
theorem answer_world {χ : DbAnswer} {c : DbCall} {w w' : World} {r : Except String c.Row}
    (h : answer χ c w = some (r, w')) : w' = w := by
  cases χ <;> cases c <;> simp_all [answer]

section

variable {sha256 : String → String} {j : Job} {α : Type}

/-- From `w` on, the rest of the job keeps the invariant, and ends with `P`. -/
def Runs (sha256 : String → String) (j : Job) (P : Except String α → World → Prop)
    (p : GatewayProg α) (w : World) : Prop :=
  Meets (S := dbSig) answer ((careful sha256).resume j) Inv (fun _ _ => True)
    (fun _ w => Inv w) P p w

variable {w : World}

/-- Close the socket and go on. -/
theorem runs_close {P : Except String Unit → World → Prop} (h : Inv w) {s : Sock} {code : CloseCode}
    (hP : P (.ok ()) (w.close s code)) : Runs sha256 j P (Prog.modify fun w => w.close s code) w :=
  fun _ _ => ⟨h.close code, hP⟩

/-- Await any answer. -/
theorem runs_db (c : DbCall) : Runs sha256 j (fun _ w => Inv w) (db c) w := by
  refine .bind (P := fun _ w => Inv w) (.call fun w₁ hI _ χ r w₂ _ he => ?_) (fun r w₁ hI =>
    ?_) fun _ _ => id
  · obtain rfl := answer_world he
    exact ⟨hI, .ret hI⟩
  · cases r with
    | ok x => exact .ret hI
    | error e => exact .raise hI

/-- Sequencing after an answer. -/
theorem runs_db_bind {β : Type} {P : Except String β → World → Prop} {c : DbCall}
    {f : c.Row → GatewayProg β} (hf : ∀ x w', Inv w' → Runs sha256 j P (f x) w')
    (he : ∀ e w', Inv w' → P (.error e) w') : Runs sha256 j P ((db c).bind f) w :=
  .bind (runs_db c) hf he

/-- Close the socket and give up. -/
theorem runs_refuse {s : Sock} {code : CloseCode} (h : Inv w) :
    Runs sha256 j (fun _ w => Inv w) ((Prog.modify fun w : World => w.close s code).bind fun _ =>
      (Prog.ret none : GatewayProg (Option (String × String)))) w :=
  .bind (runs_close h (P := fun _ w => Inv w) (h.close code)) (fun _ _ h' => .ret h') fun _ _ => id

theorem runs_joinWith {s : Sock} {facts : NodeFacts} {token : Option JoinToken}
    {owner : Option OwnerNode} {now : Nat} (h : Inv w) :
    Runs sha256 j (fun _ w => Inv w) (joinWith s facts token owner now) w := by
  unfold joinWith
  split
  · exact .ret h
  · apply runs_db_bind
    · intro nodeId w₁ h₁
      exact runs_db_bind (fun _ w₂ h₂ => .ret h₂) fun _ _ => id
    · exact fun _ _ => id
  · exact runs_refuse h
  · exact .ret h

/-- Authentication changes nothing but what is told to close. -/
theorem runs_authenticate {s : Sock} {payload : RegisterPayload} :
    Runs sha256 j (fun _ w => Inv w) (authenticate sha256 s payload) w := by
  have herr : ∀ (e : String) (w' : World), Inv w' → Inv w' := fun _ _ => id
  unfold authenticate
  cases payload.auth with
  | join joinToken =>
    refine runs_db_bind (fun token w₁ h₁ => ?_) herr
    have hrest : ∀ (owner : Option OwnerNode) (w₂ : World), Inv w₂ →
        Runs sha256 j (fun _ w => Inv w)
          ((Prog.read World.now).bind (joinWith s payload.facts token owner)) w₂ := by
      intro owner w₂ h₂
      refine .bind (P := fun _ w => Inv w) (fun _ _ => ⟨h₂, h₂⟩) (fun now w₃ h₃ => ?_) herr
      exact runs_joinWith h₃
    cases token with
    | none => exact hrest none w₁ h₁
    | some token => exact runs_db_bind (fun owner w₂ h₂ => hrest owner w₂ h₂) herr
  | session nodeId secret =>
    refine runs_db_bind (fun node w₁ h₁ => ?_) herr
    cases node with
    | none => exact runs_refuse h₁
    | some row =>
      dsimp only
      split
      · exact .ret h₁
      · exact runs_refuse h₁

end

/-- Registering keeps the invariant, when it is clean. -/
theorem runs_handleRegister {sha256 : String → String} {s : Sock} {raw : Option Frame}
    {payload : RegisterPayload} {w : World} :
    Runs sha256 (.message s raw) (fun _ w => Inv w) (handleRegister sha256 s payload) w := by
  have herr : ∀ (e : String) (w' : World), Inv w' → Inv w' := fun _ _ => id
  refine .bind runs_authenticate (fun who w₁ h₁ => ?_) herr
  cases who with
  | none => exact .ret h₁
  | some who =>
    obtain ⟨nodeId, orgId⟩ := who
    dsimp only
    split
    · exact runs_close h₁ (h₁.close _)
    · -- the last answer is the one the registration is completed at
      refine .bind (P := fun x w => Inv w ∧ (∀ v, x = .ok v → RegistersClean s nodeId w)) ?_
        (fun _ w₂ h₂ => ?_) fun e w₂ h₂ => h₂.1
      · refine .bind (P := fun x w => Inv w ∧ ∀ v, x = .ok (.ok v) → RegistersClean s nodeId w)
          (.call fun w₂ h₂ _ χ r w₃ hok he => ?_) (fun r w₂ h₂ => ?_)
          fun e w₂ h₂ => ⟨h₂.1, fun v hv => by cases hv⟩
        · obtain rfl := answer_world he
          refine ⟨h₂, .ret ⟨h₂, fun v hv => ?_⟩⟩
          cases χ with
          | rotated version => exact hok
          | rejected message =>
            cases he
            cases hv
          | _ => cases he
        · cases r with
          | ok v => exact .ret ⟨h₂.1, fun _ _ => h₂.2 v rfl⟩
          | error e => exact .raise ⟨h₂.1, fun _ hv => by cases hv⟩
      · have hreg : Inv (w₂.register s nodeId orgId payload.facts) :=
          h₂.1.register (h₂.2 _ rfl)
        exact fun _ _ => ⟨hreg, hreg⟩

/-! ## Every run -/

/-- The argument for every handler. -/
def owning (sha256 : String → String) : Outline (gateway sha256) (careful sha256) where
  inv := Inv
  rely _ _ _ _ := True
  guar _ _ _ w := Inv w
  post _ _ _ _ := True
  fresh _ _ := True
  rely_refl _ _ _ := trivial
  rely_trans _ _ _ _ _ _ _ := trivial
  guar_inv _ _ _ _ _ h := h
  guar_rely _ _ _ _ _ _ _ _ _ := trivial
  guar_fresh _ _ _ _ _ _ _ _ := trivial
  env_inv dt w w' h _ he := Option.some.inj he ▸ h.tick dt
  env_fresh _ _ _ _ _ _ := trivial
  env_rely _ _ _ _ _ _ _ _ := trivial
  body _ j w h _ _ hok := by
    cases j with
    | close s => exact ⟨h.handleAgentClose hok, trivial⟩
    | message s raw =>
      cases raw with
      | none => exact ⟨h.close _, trivial⟩
      | some f =>
        have hheard : Inv (w.hear s f) := h.hear hok
        have hgoal : Runs sha256 (.message s (some f)) (fun _ w => Inv w)
            (handleAgentMessage sha256 s (some f)) w := by
          unfold handleAgentMessage
          refine fun w₀ hw₀ => ?_
          show Safe _ _ _ _ _ _ (if _ then _ else _) w₀ w
          split
          · exact runs_close h (h.close _) w₀ hw₀
          · cases f with
            | register payload => exact runs_handleRegister w₀ hw₀
            | _ => exact ⟨hheard, hheard⟩
        exact (hgoal w h).mono fun _ _ _ hx => ⟨hx.1, trivial⟩

/-- In every run whose registrations, messages and closes are clean, every live session
owns its node's state. -/
theorem ownsState_careful (sha256 : String → String) : OwnsState (careful sha256) :=
  fun _ h => ((owning sha256).reach Inv.initial (fun _ => trivial) h).toOwned

/-! ## A replaced connection -/

/-- A node that registers with its session secret, over some socket. -/
def signIn : Frame := .register ⟨.session "n1" "secret", ⟨"host", 4⟩⟩

/-- The agent reconnects; the new session reports that its node is a manager, and then
the close of the old socket comes. -/
def reconnect : List (System.Move (M := gateway id)) :=
  [.start (.message 0 (some signIn)), .resume 0 (.node (some ⟨"n1", "org", some "secret"⟩)),
   .resume 0 (.rotated 1),
   .start (.message 1 (some signIn)), .resume 1 (.node (some ⟨"n1", "org", some "secret"⟩)),
   .resume 1 (.rotated 2),
   .start (.message 1 (some (.serviceState true (some .active) []))),
   .start (.close 0)]

/-- The close of the superseded socket takes the manager's flag of the live session. -/
theorem ownsState_reconnect : ¬ OwnsState (Allow.all (M := gateway id)) := by
  intro h
  have hrun : ((System.run (M := gateway id) ⟨.initial, []⟩ reconnect).map fun c =>
      (c.world.byNode "n1", c.world.store.managers "n1", (reported 1 "n1" c.world.log).managers)) =
        some (some 1, none, some true) := by decide
  obtain ⟨c, hc, hw⟩ := Option.map_eq_some_iff.mp hrun
  simp only [Prod.mk.injEq] at hw
  obtain ⟨hreg, hstore, hrep⟩ := hw
  have hreach := System.reach_of_runIf (fun c m _ => Allow.all_move c m) .refl hc
  have htel := congrArg Telemetry.managers ((h c hreach).telemetry "n1" 1 hreg)
  rw [hrep] at htel
  exact absurd (hstore.symm.trans htel) (by decide)

end Swarmy.Gateway
