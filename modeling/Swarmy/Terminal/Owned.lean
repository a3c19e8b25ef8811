import Swarmy.Keyed.Cells
import Swarmy.Terminal.Hub

/-!
# A terminal's user and node

`promised_of_carefulBrowsers`: where only the user of a ticket presents it and stays until the
policy is there, agents send frames of their own sessions only, and agents are connected when their
sessions are closed, shells are started for their users, end by their nodes, and do not outlive
their sockets.
-/

namespace Terminal

open List Option Function Bool

namespace State

/-! ## The words of the statement -/

/-- What is promised of a state. -/
structure Promised (s : State) : Prop where
  started : ∀ st ∈ s.starts, ∃ expiresAt k, s.minted[st.ticket]? = some (st.claims, expiresAt) ∧
    st.claimedAt ≤ expiresAt ∧ s.sockets[st.ws]? = some k ∧ k.ticket = st.ticket ∧
      k.user = st.claims.userId
  once : (s.starts.map (·.ticket)).Nodup
  own : ∀ e ∈ s.effects, ∃ m ∈ s.minted, m.1.sessionId = e.1 ∧ m.1.nodeId = e.2
  /-- A shell whose socket has closed was closed, or has ended. -/
  shut : ∀ st ∈ s.starts, ∀ k, s.sockets[st.ws]? = some k → k.closed = true →
    s.closeTold st.claims.sessionId = true ∨ s.reported st.claims.sessionId = true

def Told (s : State) (sessionId : Nat) : Prop := ∃ st ∈ s.starts, st.claims.sessionId = sessionId

/-- What the hub does not check. -/
def Careful (s : State) : Step → Prop
  | .policy ws _ _ => ∀ (k : TermSocket) (c : TicketClaims) (claimedAt : Nat),
    s.sockets[ws]? = some k →
      k.opening = some (c, claimedAt) → s.isOnline c.nodeId = true → k.user = c.userId ∧
        k.closed = false
  | .frame node kind sessionId ready => ∀ x, s.sessions sessionId = some x →
      kind.ends = true ∨ ready = true → x.nodeId = node
  | .closed ws => ∀ (k : TermSocket) (x : LiveSession), s.sockets[ws]? = some k →
      (s.byTicket k.ticket).bind s.sessions = some x → s.Told x.sessionId →
        s.isOnline x.nodeId = true
  | .kill sessionId => ∀ x, s.sessions sessionId = some x → s.Told x.sessionId →
    s.isOnline x.nodeId = true
  | .sweep => ∀ sessionId x, s.sessions sessionId = some x → terminalLimitExpired x s.now = true →
      s.Told x.sessionId → s.isOnline x.nodeId = true
  | .wait _ | .mint _ | .connection _ _ | .connect _ _ | .policyFails _ | .input _ => True

def CarefulRun (s : State) : List Step → Prop
  | [] => True
  | e :: steps => s.Careful e ∧ CarefulRun (s.step e) steps

/-! ## The invariant -/

variable {s : State}

/-- A shell that was started is closed, has ended, or is on the table with its socket there. -/
def Shut (s : State) (st : Start) : Prop :=
  s.closeTold st.claims.sessionId = true ∨ s.reported st.claims.sessionId = true ∨
    ((∃ x, s.sessions st.claims.sessionId = some x) ∧
      s.byTicket st.ticket = some st.claims.sessionId ∧
      ∀ k, s.sockets[st.ws]? = some k → k.closed = false)

structure Inv (s : State) : Prop where
  /-- A session has one ticket. -/
  unique : (s.minted.map (·.1.sessionId)).Nodup
  fresh : ∀ t, s.tickets t = true → t < s.minted.length
  opening : ∀ (i : Nat) (k : TermSocket) (c : TicketClaims) (at_ : Nat), s.sockets[i]? = some k →
    k.opening = some (c, at_) → ∃ expiresAt, s.minted[k.ticket]? = some (c, expiresAt) ∧
      at_ ≤ expiresAt
  used : ∀ (i : Nat) (k : TermSocket), s.sockets[i]? = some k → k.opening ≠ none →
    s.tickets k.ticket = false
  spent : ∀ st ∈ s.starts, s.tickets st.ticket = false
  alone : ∀ (i j : Nat) (k l : TermSocket), s.sockets[i]? = some k → s.sockets[j]? = some l →
    k.opening ≠ none →
    l.opening ≠ none → k.ticket = l.ticket → i = j
  apart : ∀ (i : Nat) (k : TermSocket), s.sockets[i]? = some k → k.opening ≠ none → ∀ st ∈ s.starts,
    st.ticket ≠ k.ticket
  started : ∀ st ∈ s.starts, ∃ expiresAt k, s.minted[st.ticket]? = some (st.claims, expiresAt) ∧
    st.claimedAt ≤ expiresAt ∧ s.sockets[st.ws]? = some k ∧ k.ticket = st.ticket ∧
      k.user = st.claims.userId
  once : (s.starts.map (·.ticket)).Nodup
  session : ∀ id x, s.sessions id = some x → x.sessionId = id ∧ ∃ m ∈ s.minted, m.1.sessionId = id ∧
    m.1.nodeId = x.nodeId
  ticket : ∀ t id, s.byTicket t = some id → ∃ c expiresAt, s.minted[t]? = some (c, expiresAt) ∧
    c.sessionId = id
  own : ∀ e ∈ s.effects, ∃ m ∈ s.minted, m.1.sessionId = e.1 ∧ m.1.nodeId = e.2
  shut : ∀ st ∈ s.starts, s.Shut st

theorem Inv.promised (h : Inv s) : s.Promised where
  __ := h
  shut st hst k hk hclosed := by
    rcases h.shut st hst with htold | hreported | ⟨-, -, hopen⟩
    · exact .inl htold
    · exact .inr hreported
    · rw [hopen k hk] at hclosed
      cases hclosed

/-- Two tickets of one session are one. -/
theorem Inv.ticket_eq (h : Inv s) {t t' : Nat} {c c' : TicketClaims} {e e' : Nat}
    (ht : s.minted[t]? = some (c, e)) (ht' : s.minted[t']? = some (c', e'))
    (hid : c.sessionId = c'.sessionId) :
    t = t' := by
  have hget {n : Nat} {d : TicketClaims} {f : Nat} (hn : s.minted[n]? = some (d, f)) :
      (s.minted.map (·.1.sessionId))[n]? = some d.sessionId := by
    rw [List.getElem?_map, hn]
    rfl
  have hlt := (List.getElem?_eq_some_iff.1 (hget ht)).1
  exact (List.getElem?_inj hlt h.unique).1
    ((hget ht).trans ((congrArg some hid).trans (hget ht').symm))

/-! ## Steps that take sessions off the table -/

theorem told_of_shut {st : Start} (h : s.Shut st) {id : Nat} {online : Bool}
    (hid : id ≠ st.claims.sessionId ∨ online = true) :
    (update s.closeTold id (s.closeTold id || online) st.claims.sessionId = true) ∨
      s.reported st.claims.sessionId = true ∨
        ((∃ x, update s.sessions id none st.claims.sessionId = some x) ∧
          s.byTicket st.ticket = some st.claims.sessionId ∧ ∀ k, s.sockets[st.ws]? = some k →
          k.closed = false) := by
  by_cases heq : st.claims.sessionId = id
  · rcases hid with hid | hid
    · exact absurd heq.symm hid
    · left
      rw [heq, Function.update_self, hid, Bool.or_true]
  · rw [Function.update_of_ne heq, Function.update_of_ne heq]
    exact h

theorem Inv.drop (h : Inv s) {x : LiveSession}
    (hc : s.Told x.sessionId → s.isOnline x.nodeId = true) : Inv (s.drop x) where
  __ := h
  session id y hy := by
    by_cases hid : id = x.sessionId
    · subst hid
      have hnone : (s.drop x).sessions x.sessionId = none := update_self _ _ _
      rw [hnone] at hy
      cases hy
    · have hsame : (s.drop x).sessions id = s.sessions id := update_of_ne hid _ _
      exact h.session id y (hsame ▸ hy)
  shut st hst := by
    refine told_of_shut (h.shut st hst) ?_
    by_cases hid : x.sessionId = st.claims.sessionId
    · exact .inr (hc ⟨st, hst, hid.symm⟩)
    · exact .inl hid

/-- A socket closes; its session is taken off the table before. -/
theorem Inv.close (h : Inv s) {ws : Nat} {k : TermSocket} (hk : s.sockets[ws]? = some k)
    (hgone : (s.byTicket k.ticket).bind s.sessions = none) : Inv (s.close ws k) where
  __ := h
  opening i l c at_ hl hopening := by
    rcases Cells.of_set hl with ⟨rfl, rfl⟩ | ⟨-, hl⟩
    · exact h.opening i k c at_ hk hopening
    · exact h.opening i l c at_ hl hopening
  used i l hl hopen := by
    rcases Cells.of_set hl with ⟨rfl, rfl⟩ | ⟨-, hl⟩
    · exact h.used i k hk hopen
    · exact h.used i l hl hopen
  alone i j l l' hl hl' hopen hopen' hticket := by
    have hback {i : Nat} {l : TermSocket}
        (hl : (s.sockets.set ws { k with closed := true })[i]? = some l) :
        ∃ l₀, s.sockets[i]? = some l₀ ∧ l₀.opening = l.opening ∧ l₀.ticket = l.ticket := by
      rcases Cells.of_set hl with ⟨rfl, rfl⟩ | ⟨-, hl⟩
      · exact ⟨k, hk, rfl, rfl⟩
      · exact ⟨l, hl, rfl, rfl⟩
    obtain ⟨l₀, h₀, ho₀, ht₀⟩ := hback hl
    obtain ⟨l₁, h₁, ho₁, ht₁⟩ := hback hl'
    exact h.alone i j l₀ l₁ h₀ h₁ (ho₀ ▸ hopen) (ho₁ ▸ hopen') (ht₀.trans (hticket.trans ht₁.symm))
  apart i l hl hopen st hst := by
    rcases Cells.of_set hl with ⟨rfl, rfl⟩ | ⟨-, hl⟩
    · exact h.apart i k hk hopen st hst
    · exact h.apart i l hl hopen st hst
  started st hst := by
    obtain ⟨e, l, hm, hle, hl, hticket, huser⟩ := h.started st hst
    by_cases hws : st.ws = ws
    · subst hws
      rw [hk] at hl
      obtain rfl := some.inj hl
      exact ⟨e, _, hm, hle, Cells.set_self hk, hticket, huser⟩
    · exact ⟨e, l, hm, hle, (Cells.set_ne hws).trans hl, hticket, huser⟩
  ticket t id ht := by
    by_cases heq : t = k.ticket
    · have hnone : (s.close ws k).byTicket k.ticket = none := update_self _ _ _
      rw [heq, hnone] at ht
      cases ht
    · exact h.ticket t id ((update_of_ne heq _ _).symm.trans ht)
  shut st hst := by
    rcases h.shut st hst with htold | hreported | ⟨⟨x, hx⟩, hby, hopen⟩
    · exact .inl htold
    · exact .inr (.inl hreported)
    · have hne : st.ticket ≠ k.ticket := by
        intro heq
        rw [← heq, hby, bind_some, hx] at hgone
        cases hgone
      refine .inr (.inr ⟨⟨x, hx⟩, (update_of_ne hne _ _).trans hby, fun l hl => ?_⟩)
      rcases Cells.of_set hl with ⟨hws, -⟩ | ⟨-, hl⟩
      · obtain ⟨_, l', -, -, hl', hticket, -⟩ := h.started st hst
        rw [hws, hk] at hl'
        obtain rfl := some.inj hl'
        exact absurd hticket.symm hne
      · exact hopen l hl

theorem Inv.closed (h : Inv s) {ws : Nat} (hc : s.Careful (.closed ws)) :
    Inv (s.step (.closed ws)) := by
  simp only [step]
  split
  · exact h
  · next k hk =>
    split_ifs with hclosed
    · exact h
    · split
      · next hgone => exact h.close hk hgone
      · next x hx =>
        have hcareful := hc k x hk hx
        obtain ⟨id, hby, hx⟩ := bind_eq_some_iff.1 hx
        have hid := (h.session id x hx).1
        -- the session goes first, so that the ticket has none when the socket closes
        have hdrop := h.drop hcareful
        have hgone : ((s.drop x).byTicket k.ticket).bind (s.drop x).sessions = none := by
          show (s.byTicket k.ticket).bind (update s.sessions x.sessionId none) = none
          rw [hby, bind_some, ← hid, update_self]
        exact hdrop.close hk hgone

/-! ## The start of a shell -/

theorem Inv.resume (h : Inv s) {ws : Nat} {k : TermSocket} {c : TicketClaims} {at_ : Nat}
    (hk : s.sockets[ws]? = some k) (hopening : k.opening = some (c, at_)) (idle max : Nat)
    (hc : s.isOnline c.nodeId = true → k.user = c.userId ∧ k.closed = false) :
    Inv (s.resume ws k c at_ idle max) := by
  obtain ⟨e, hminted, hle⟩ := h.opening ws k c at_ hk hopening
  have hsome : k.opening ≠ none := by simp [hopening]
  have hmem : (c, e) ∈ s.minted := mem_of_getElem? hminted
  have hback {i : Nat} {l : TermSocket}
      (hl : (s.sockets.set ws { k with opening := none })[i]? = some l) :
      ∃ l₀, s.sockets[i]? = some l₀ ∧ l₀.ticket = l.ticket ∧ l₀.user = l.user ∧
        l₀.closed = l.closed ∧
        (l.opening ≠ none → l₀.opening = l.opening ∧ i ≠ ws) := by
    rcases Cells.of_set hl with ⟨rfl, rfl⟩ | ⟨hne, hl⟩
    · exact ⟨k, hk, rfl, rfl, rfl, fun hno => absurd rfl hno⟩
    · exact ⟨l, hl, rfl, rfl, rfl, fun _ => ⟨rfl, hne⟩⟩
  have hforth {i : Nat} {l : TermSocket} (hl : s.sockets[i]? = some l) :
      ∃ l₁, (s.sockets.set ws { k with opening := none })[i]? = some l₁ ∧ l₁.ticket = l.ticket ∧
        l₁.user = l.user := by
    by_cases hi : i = ws
    · subst hi
      rw [hk] at hl
      obtain rfl := some.inj hl
      exact ⟨_, Cells.set_self hk, rfl, rfl⟩
    · exact ⟨l, (Cells.set_ne hi).trans hl, rfl, rfl⟩
  have hstarts {st : Start} (hst : st ∈ (s.resume ws k c at_ idle max).starts) :
      st ∈ s.starts ∨ (st = ⟨k.ticket, c, ws, at_⟩ ∧ s.isOnline c.nodeId = true) := by
    unfold State.resume at hst
    split_ifs at hst with honline
    · rcases mem_cons.1 hst with rfl | hst
      · exact .inr ⟨rfl, honline⟩
      · exact .inl hst
    · exact .inl hst
  have hother {st : Start} (hst : st ∈ s.starts) :
      st.ticket ≠ k.ticket ∧ st.claims.sessionId ≠ c.sessionId := by
    have hne := h.apart ws k hk hsome st hst
    obtain ⟨e', l, hm, -⟩ := h.started st hst
    exact ⟨hne, fun heq => hne (h.ticket_eq hm hminted heq)⟩
  refine ⟨h.unique, h.fresh, ?_, ?_, ?_, ?_, ?_, ?_, ?_, ?_, ?_, h.own, ?_⟩
  · intro i l d at' hl hd
    obtain ⟨l₀, hl₀, hticket, -, -, hopen⟩ := hback hl
    rw [← hticket]
    exact h.opening i l₀ d at' hl₀ ((hopen (by simp [hd])).1.trans hd)
  · intro i l hl hopen
    obtain ⟨l₀, hl₀, hticket, -, -, ho⟩ := hback hl
    exact hticket ▸ h.used i l₀ hl₀ ((ho hopen).1 ▸ hopen)
  · intro st hst
    rcases hstarts hst with hst | ⟨rfl, -⟩
    · exact h.spent st hst
    · exact h.used ws k hk hsome
  · intro i j l l' hl hl' hopen hopen' hticket
    obtain ⟨l₀, hl₀, ht₀, -, -, ho₀⟩ := hback hl
    obtain ⟨l₁, hl₁, ht₁, -, -, ho₁⟩ := hback hl'
    exact h.alone i j l₀ l₁ hl₀ hl₁ ((ho₀ hopen).1 ▸ hopen) ((ho₁ hopen').1 ▸ hopen')
      (ht₀.trans (hticket.trans ht₁.symm))
  · intro i l hl hopen st hst
    obtain ⟨l₀, hl₀, ht₀, -, -, ho₀⟩ := hback hl
    obtain ⟨ho, hne⟩ := ho₀ hopen
    rcases hstarts hst with hst | ⟨rfl, -⟩
    · exact ht₀ ▸ h.apart i l₀ hl₀ (ho ▸ hopen) st hst
    · intro hticket
      exact hne (h.alone i ws l₀ k hl₀ hk (ho ▸ hopen) hsome (ht₀.trans hticket.symm))
  · intro st hst
    rcases hstarts hst with hst | ⟨rfl, honline⟩
    · obtain ⟨e', l, hm, hle', hl, hticket, huser⟩ := h.started st hst
      obtain ⟨l₁, hl₁, ht₁, hu₁⟩ := hforth hl
      exact ⟨e', l₁, hm, hle', hl₁, ht₁.trans hticket, hu₁.trans huser⟩
    · exact ⟨e, _, hminted, hle, Cells.set_self hk, rfl, (hc honline).1⟩
  · unfold State.resume
    split_ifs
    · refine nodup_cons.2 ⟨fun hmem => ?_, h.once⟩
      obtain ⟨st, hst, hticket⟩ := mem_map.1 hmem
      exact (hother hst).1 hticket
    · exact h.once
  · intro id x hx
    by_cases hid : id = c.sessionId
    · subst hid
      have hnew := (update_self c.sessionId _ s.sessions).symm.trans hx
      obtain rfl := some.inj hnew
      exact ⟨rfl, _, hmem, rfl, rfl⟩
    · exact h.session id x ((update_of_ne hid _ _).symm.trans hx)
  · intro t id ht
    by_cases heq : t = k.ticket
    · subst heq
      have hnew := (update_self k.ticket _ s.byTicket).symm.trans ht
      exact ⟨c, e, hminted, some.inj hnew⟩
    · exact h.ticket t id ((update_of_ne heq _ _).symm.trans ht)
  · intro st hst
    rcases hstarts hst with hst | ⟨rfl, honline⟩
    · obtain ⟨hticket, hid⟩ := hother hst
      unfold Shut State.resume
      dsimp only
      rw [update_of_ne hid, update_of_ne hid, update_of_ne hid,
        update_of_ne hticket]
      rcases h.shut st hst with htold | hreported | ⟨hx, hby, hopen⟩
      · exact .inl htold
      · exact .inr (.inl hreported)
      · refine .inr (.inr ⟨hx, hby, fun l hl => ?_⟩)
        obtain ⟨l₀, hl₀, -, -, hclosed, -⟩ := hback hl
        exact hclosed ▸ hopen l₀ hl₀
    · refine .inr (.inr ⟨⟨_, update_self _ _ _⟩, update_self _ _ _, fun l hl => ?_⟩)
      have hself := (Cells.set_self hk).symm.trans hl
      rw [← some.inj hself]
      exact (hc honline).2

/-! ## The other steps -/

theorem Inv.frame (h : Inv s) {node id : Nat} {kind : FrameKind} {ready : Bool} {x : LiveSession}
    (hx : s.sessions id = some x) (hc : kind.ends = true ∨ ready = true → x.nodeId = node) :
    Inv (s.onAgentTermFrame node kind ready x) := by
  obtain ⟨hid, m, hm, hmid, hnode⟩ := h.session id x hx
  have heffects (hacts : kind.ends = true ∨ ready = true) : ∀ e ∈ (x.sessionId, node) :: s.effects,
      ∃ m ∈ s.minted, m.1.sessionId = e.1 ∧ m.1.nodeId = e.2 := by
    intro e he
    rcases mem_cons.1 he with rfl | he
    · exact ⟨m, hm, hmid.trans hid.symm, hnode.trans (hc hacts)⟩
    · exact h.own e he
  unfold onAgentTermFrame
  split_ifs with hends hready
  · refine { h with
      own := heffects (.inl hends), session := fun id' y hy => ?_, shut := fun st hst => ?_ }
    · by_cases hid' : id' = x.sessionId
      · subst hid'
        have hnone := (update_self x.sessionId _ s.sessions).symm.trans hy
        cases hnone
      · exact h.session id' y ((update_of_ne hid' _ _).symm.trans hy)
    · by_cases heq : st.claims.sessionId = x.sessionId
      · refine .inr (.inl ?_)
        show update s.reported x.sessionId true st.claims.sessionId = true
        rw [heq, update_self]
      · rcases h.shut st hst with htold | hreported | ⟨hlive, hrest⟩
        · exact .inl htold
        · exact .inr (.inl ((update_of_ne heq _ _).trans hreported))
        · exact .inr (.inr ⟨hlive.imp fun y hy => (update_of_ne heq _ _).trans hy, hrest⟩)
  · exact { h with own := heffects (.inr hready) }
  · exact h

theorem Inv.sweep (h : Inv s) (hc : s.Careful .sweep) : Inv (s.step .sweep) := by
  refine { h with session := fun id x hx => ?_, shut := fun st hst => ?_ }
  · have hx' : (if s.expired id = true then none else s.sessions id) = some x := hx
    split_ifs at hx'
    exact h.session id x hx'
  · rcases h.shut st hst with htold | hreported | ⟨⟨x, hx⟩, hrest⟩
    · refine .inl ?_
      show (s.closeTold _ || _) = true
      rw [htold, Bool.true_or]
    · exact .inr (.inl hreported)
    · have hid := (h.session _ x hx).1
      cases hexpired : terminalLimitExpired x s.now with
      | true =>
        have honline := hc _ x hx hexpired ⟨st, hst, hid.symm⟩
        refine .inl ?_
        show (s.closeTold _ || (s.sessions st.claims.sessionId).any _) = true
        rw [hx, any_some, hexpired, honline, Bool.and_true, Bool.or_true]
      | false =>
        refine .inr (.inr ⟨⟨x, ?_⟩, hrest⟩)
        show (if s.expired st.claims.sessionId = true then none
            else s.sessions st.claims.sessionId) = some x
        rw [expired, hx, any_some, hexpired]
        rfl

theorem getElem?_minted {t : Nat} {m m' : TicketClaims × Nat} (h : s.minted[t]? = some m) :
    (s.minted ++ [m'])[t]? = some m := Cells.append h

theorem Inv.mint (h : Inv s) (claims : TicketClaims) : Inv (s.step (.mint claims)) := by
  simp only [step]
  split_ifs with hold
  · exact h
  · have hnew : ∀ m ∈ s.minted, m.1.sessionId ≠ claims.sessionId := by
      intro m hm heq
      exact hold (any_eq_true.2 ⟨m, hm, decide_eq_true heq⟩)
    have hlt {t : Nat} {m : TicketClaims × Nat} (ht : s.minted[t]? = some m) : t ≠
        s.minted.length :=
      Nat.ne_of_lt (List.getElem?_eq_some_iff.1 ht).1
    refine { h with
      unique := ?_, fresh := fun t ht => ?_, opening := fun i k c at_ hk ho => ?_,
      used := fun i k hk ho => ?_, spent := fun st hst => ?_,
      started := fun st hst => ?_, session := fun id x hx => ?_, ticket := fun t id ht => ?_, own :=
        fun e he => ?_ }
    · rw [map_append]
      refine nodup_append.2 ⟨h.unique, nodup_singleton _, fun a ha b hb heq => ?_⟩
      obtain ⟨m, hm, rfl⟩ := mem_map.1 ha
      exact hnew m hm (heq.trans (mem_singleton.1 hb))
    · rw [length_append, length_singleton]
      by_cases heq : t = s.minted.length
      · omega
      · have hlive := h.fresh t ((update_of_ne heq _ _).symm.trans ht)
        omega
    · obtain ⟨e, hm, hle⟩ := h.opening i k c at_ hk ho
      exact ⟨e, getElem?_minted hm, hle⟩
    · obtain ⟨⟨c, at_⟩, hopening⟩ := ne_none_iff_exists'.1 ho
      obtain ⟨e, hm, -⟩ := h.opening i k c at_ hk hopening
      exact (update_of_ne (hlt hm) _ _).trans (h.used i k hk ho)
    · obtain ⟨e, k, hm, -⟩ := h.started st hst
      exact (update_of_ne (hlt hm) _ _).trans (h.spent st hst)
    · obtain ⟨e, k, hm, hrest⟩ := h.started st hst
      exact ⟨e, k, getElem?_minted hm, hrest⟩
    · obtain ⟨hid, m, hm, hrest⟩ := h.session id x hx
      exact ⟨hid, m, mem_append_left _ hm, hrest⟩
    · obtain ⟨c, e, hm, hid⟩ := h.ticket t id ht
      exact ⟨c, e, getElem?_minted hm, hid⟩
    · obtain ⟨m, hm, hrest⟩ := h.own e he
      exact ⟨m, mem_append_left _ hm, hrest⟩

/-- A ticket that is claimed was minted and has not expired. -/
theorem claim_eq_some {t : Nat} {c : TicketClaims} (h : s.claim t = some c) :
    s.tickets t = true ∧ ∃ e, s.minted[t]? = some (c, e) ∧ s.now ≤ e := by
  unfold claim at h
  split_ifs at h with hlive
  refine ⟨hlive, ?_⟩
  split at h
  · cases h
  · next c' e hm =>
    split_ifs at h with hexpired
    obtain rfl := some.inj h
    exact ⟨e, hm, Nat.le_of_not_lt hexpired⟩

theorem opening_eq_some {t at_ : Nat} {c : TicketClaims} (h : s.opening t = some (c, at_)) :
    s.tickets t = true ∧ ∃ e, s.minted[t]? = some (c, e) ∧ at_ ≤ e := by
  obtain ⟨c', hc, h⟩ := bind_eq_some_iff.1 h
  split_ifs at h
  obtain ⟨rfl, rfl⟩ := Prod.mk.inj (some.inj h)
  exact claim_eq_some hc

theorem Inv.connect (h : Inv s) (user : Option Nat) (t : Nat) : Inv (s.step (.connect user t)) := by
  cases user with
  | none => exact h
  | some user =>
    have hlive (ho : s.opening t ≠ none) : s.tickets t = true := by
      obtain ⟨⟨c, at_⟩, hopening⟩ := ne_none_iff_exists'.1 ho
      exact (opening_eq_some hopening).1
    have hspent {t' : Nat} (ht : s.tickets t' = false) : update s.tickets t false t' = false := by
      by_cases heq : t' = t
      · rw [heq, update_self]
      · rw [update_of_ne heq, ht]
    have hne {t' : Nat} (ht : s.tickets t' = false) (ho : s.opening t ≠ none) : t' ≠ t := by
      rintro rfl
      rw [hlive ho] at ht
      cases ht
    refine { h with
      fresh := fun t' ht => ?_, opening := fun i k c at_ hk ho => ?_, used := fun i k hk ho => ?_,
      spent := fun st hst => hspent (h.spent st hst), alone :=
        fun i j k l hk hl ho ho' hticket => ?_,
      apart := fun i k hk ho st hst => ?_, started := fun st hst => ?_, shut := fun st hst => ?_ }
    · refine h.fresh t' ?_
      by_cases heq : t' = t
      · subst heq
        have hfalse := (update_self t' _ s.tickets).symm.trans ht
        cases hfalse
      · exact (update_of_ne heq _ _).symm.trans ht
    · rcases Cells.of_append hk with hk | ⟨-, rfl⟩
      · exact h.opening i k c at_ hk ho
      · exact (opening_eq_some ho).2
    · rcases Cells.of_append hk with hk | ⟨-, rfl⟩
      · exact hspent (h.used i k hk ho)
      · exact update_self _ _ _
    · rcases Cells.of_append hk with hk | ⟨hi, rfl⟩
      · rcases Cells.of_append hl with hl | ⟨-, rfl⟩
        · exact h.alone i j k l hk hl ho ho' hticket
        · exact absurd hticket (hne (h.used i k hk ho) ho')
      · rcases Cells.of_append hl with hl | ⟨hj, -⟩
        · exact absurd hticket.symm (hne (h.used j l hl ho') ho)
        · exact hi.trans hj.symm
    · rcases Cells.of_append hk with hk | ⟨-, rfl⟩
      · exact h.apart i k hk ho st hst
      · exact hne (h.spent st hst) ho
    · obtain ⟨e, k, hm, hle, hk, hrest⟩ := h.started st hst
      exact ⟨e, k, hm, hle, Cells.append hk, hrest⟩
    · rcases h.shut st hst with htold | hreported | ⟨hlive', hby, hopen⟩
      · exact .inl htold
      · exact .inr (.inl hreported)
      · refine .inr (.inr ⟨hlive', hby, fun k hk => ?_⟩)
        rcases Cells.of_append hk with hk | ⟨-, rfl⟩
        · exact hopen k hk
        · rfl

theorem Inv.policyFails (h : Inv s) (ws : Nat) : Inv (s.step (.policyFails ws)) := by
  simp only [step]
  split
  · exact h
  · next k hk =>
    have hback {i : Nat} {l : TermSocket}
        (hl : (s.sockets.set ws { k with opening := none })[i]? = some l) :
        ∃ l₀, s.sockets[i]? = some l₀ ∧ l₀.ticket = l.ticket ∧ l₀.closed = l.closed ∧
          (l.opening ≠ none → l₀.opening = l.opening) := by
      rcases Cells.of_set hl with ⟨rfl, rfl⟩ | ⟨-, hl⟩
      · exact ⟨k, hk, rfl, rfl, fun hno => absurd rfl hno⟩
      · exact ⟨l, hl, rfl, rfl, fun _ => rfl⟩
    refine { h with
      opening := fun i l c at_ hl ho => ?_, used := fun i l hl ho => ?_,
      alone := fun i j l l' hl hl' ho ho' hticket => ?_, apart := fun i l hl ho st hst => ?_,
      started := fun st hst => ?_, shut := fun st hst => ?_ }
    · obtain ⟨l₀, hl₀, hticket, -, hopen⟩ := hback hl
      rw [← hticket]
      exact h.opening i l₀ c at_ hl₀ ((hopen (by simp [ho])).trans ho)
    · obtain ⟨l₀, hl₀, hticket, -, hopen⟩ := hback hl
      exact hticket ▸ h.used i l₀ hl₀ (hopen ho ▸ ho)
    · obtain ⟨l₀, hl₀, ht₀, -, ho₀⟩ := hback hl
      obtain ⟨l₁, hl₁, ht₁, -, ho₁⟩ := hback hl'
      exact h.alone i j l₀ l₁ hl₀ hl₁ (ho₀ ho ▸ ho) (ho₁ ho' ▸ ho')
        (ht₀.trans (hticket.trans ht₁.symm))
    · obtain ⟨l₀, hl₀, ht₀, -, ho₀⟩ := hback hl
      exact ht₀ ▸ h.apart i l₀ hl₀ (ho₀ ho ▸ ho) st hst
    · obtain ⟨e, l, hm, hle, hl, hticket, huser⟩ := h.started st hst
      by_cases hws : st.ws = ws
      · subst hws
        rw [hk] at hl
        obtain rfl := some.inj hl
        exact ⟨e, _, hm, hle, Cells.set_self hk, hticket, huser⟩
      · exact ⟨e, l, hm, hle, (Cells.set_ne hws).trans hl, hticket, huser⟩
    · rcases h.shut st hst with htold | hreported | ⟨hlive, hby, hopen⟩
      · exact .inl htold
      · exact .inr (.inl hreported)
      · refine .inr (.inr ⟨hlive, hby, fun l hl => ?_⟩)
        obtain ⟨l₀, hl₀, -, hclosed, -⟩ := hback hl
        exact hclosed ▸ hopen l₀ hl₀

theorem Inv.input (h : Inv s) (ws : Nat) : Inv (s.step (.input ws)) := by
  simp only [step]
  split
  · exact h
  · next x hx =>
    obtain ⟨k, -, hx⟩ := bind_eq_some_iff.1 hx
    obtain ⟨id, -, hx⟩ := bind_eq_some_iff.1 hx
    obtain ⟨hid, m, hm, hmid, hnode⟩ := h.session id x hx
    refine { h with session := fun id' y hy => ?_, shut := fun st hst => ?_ }
    · by_cases heq : id' = x.sessionId
      · subst heq
        have hnew := (update_self x.sessionId _ s.sessions).symm.trans hy
        obtain rfl := some.inj hnew
        exact ⟨rfl, m, hm, hmid.trans hid.symm, hnode⟩
      · exact h.session id' y ((update_of_ne heq _ _).symm.trans hy)
    · rcases h.shut st hst with htold | hreported | ⟨⟨y, hy⟩, hrest⟩
      · exact .inl htold
      · exact .inr (.inl hreported)
      · refine .inr (.inr ⟨?_, hrest⟩)
        by_cases heq : st.claims.sessionId = x.sessionId
        · rw [heq]
          exact ⟨_, update_self _ _ _⟩
        · exact ⟨y, (update_of_ne heq _ _).trans hy⟩

/-! ## Runs -/

theorem Inv.step (h : Inv s) {e : Step} (hc : s.Careful e) : Inv (s.step e) := by
  cases e with
  | wait ms => exact { h with }
  | mint claims => exact h.mint claims
  | connection node online => exact { h with }
  | connect user t => exact h.connect user t
  | policy ws idle max =>
    simp only [State.step]
    split
    · exact h
    · next k hk =>
      split
      · exact h
      · next c at_ hopening => exact h.resume hk hopening idle max (hc k c at_ hk hopening)
  | policyFails ws => exact h.policyFails ws
  | input ws => exact h.input ws
  | closed ws => exact h.closed hc
  | sweep => exact h.sweep hc
  | kill id =>
    simp only [State.step]
    split
    · exact h
    · next x hx => exact h.drop (hc x hx)
  | frame node kind id ready =>
    simp only [State.step]
    split
    · exact h
    · next x hx => exact h.frame hx (hc x hx)

theorem inv_start (now : Nat) : Inv (start now) where
  unique := nodup_nil
  fresh t ht := by cases ht
  opening i k c at_ hk := by cases hk
  used i k hk := by cases hk
  spent st hst := by cases hst
  alone i j k l hk := by cases hk
  apart i k hk := by cases hk
  started st hst := by cases hst
  once := nodup_nil
  session id x hx := by cases hx
  ticket t id ht := by cases ht
  own e he := by cases he
  shut st hst := by cases hst

theorem inv_run (steps : List Step) (h : Inv s) (hc : s.CarefulRun steps) : Inv (run s steps) := by
  induction steps generalizing s with
  | nil => exact h
  | cons e steps ih => exact ih (h.step hc.1) hc.2

/-- In careful runs a shell is open for the one browser whose ticket opened it, and for no
longer. -/
theorem promised_of_carefulBrowsers (now : Nat) (steps : List Step)
    (h : (start now).CarefulRun steps) :
    (run (start now) steps).Promised :=
  (inv_run steps (inv_start now) h).promised

/-! ## Two runs -/

/-- A user's ticket for a node. -/
def oneTicket : List Step := [.connection 7 true, .mint ⟨1, 7, 3, 5⟩]

/-- The user opens the terminal, types, and closes it. -/
theorem promised_oneTicket : (run (start 0) (oneTicket ++
    [.connect (some 5) 0, .policy 0 0 0, .frame 7 (.started true) 1 true, .input 0,
      .closed 0])).Promised := by
  refine promised_of_carefulBrowsers 0 _ ⟨trivial, trivial, trivial, ?_, ?_, trivial, ?_, trivial⟩
  · intro k c at_ hk hopening _
    cases hk
    cases hopening
    exact ⟨rfl, rfl⟩
  · intro x hx _
    cases hx
    rfl
  · intro k x hk hx _
    cases hk
    cases hx
    rfl

/-- The browser closes while the policy is read; the shell is started all the same. -/
theorem not_promised_oneTicket :
    ¬ ∀ (now : Nat) (steps : List Step), (run (start now) steps).Promised := by
  intro h
  have hshut := (h 0 (oneTicket ++ [.connect (some 5) 0, .closed 0, .policy 0 0 0])).shut
      ⟨0, ⟨1, 7, 3, 5⟩, 0, 0⟩
    (by decide) ⟨5, 0, none, true⟩ rfl rfl
  revert hshut
  decide

end State

end Terminal
