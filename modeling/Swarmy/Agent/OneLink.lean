import Swarmy.Agent.Connection

/-!
# One link at a time

As long as nobody asks for a redial, and an abandoned socket reports its end while no
timer of another one is set, the agent has exactly one socket, resolution or scheduled
reconnect.  A redial leaves it with none, while the socket it closes is closing, or starts
a second one.
-/

namespace Swarmy.Agent

open Machine List Option Bool

/-! ## What a connection promises -/

/-- How many ways to the controller there are: a current socket that is being dialled or
open, resolutions and scheduled reconnects. -/
def Connection.links (c : Connection) : Nat :=
  (if c.usable.isSome then 1 else 0) + c.resolving + c.reconnects

/-- The timers, the backoff, the liveness, the registers and the socket of the current
link. -/
def Connection.link (c : Connection) : Connection :=
  { c with sockets := (c.ws.bind (c.sockets[·]?)).toList, stableTimer := none }

/-- The socket whose event a move is. -/
def LinkMove.socket : LinkMove → Option Nat
  | .dialTimer k | .opened k | .message k _ | .ended k => some k
  | .start | .redial | .stop | .watchdog | .elapse _ | .resolved | .reconnect | .stableTimer _ =>
    none

/-- In every run of allowed moves: between start and stop there is one link; no socket but
the current one is open or answers its end with a reconnect; the events of such a socket
leave the link alone; and after stop nothing is dialled. -/
structure HasOneLink (opts : ConnectionOpts) (ok : Connection → LinkMove → Prop) : Prop where
  one : ∀ c, Reach (step opts) ok .initial c → c.started = true → c.closed = false → c.links = 1
  others : ∀ c, Reach (step opts) ok .initial c → ∀ k s, c.sockets[k]? = some s → c.ws ≠ some k →
    s.settled = true ∧ s.readyState ≠ .open
  abandoned : ∀ c, Reach (step opts) ok .initial c → ∀ m k c', m.socket = some k → c.ws ≠ some k →
    ok c m → step opts c m = some c' → c'.link = c.link
  stopped : ∀ c, Reach (step opts) ok .initial c → c.closed = true → ∀ m c', ok c m →
    step opts c m = some c' → c'.sockets.length = c.sockets.length ∧ c'.closed = true

/-! ## When it holds -/

/-- It is not redialled; it is started before it is stopped, where a resolver of the address
excuses either after the stop; and a socket that is not current ends while no timer of the
current one is set. -/
def Careful (opts : ConnectionOpts) (c : Connection) : LinkMove → Prop
  | .start => c.closed = true → opts.resolveUrl = true
  | .redial => c.closed = true ∧ opts.resolveUrl = true
  | .ended k => c.ws ≠ some k → ∀ t, c.stableTimer = some t → t ∉ c.stableTimers
  | .stop | .watchdog | .elapse _ | .resolved | .reconnect | .dialTimer _ | .stableTimer _
  | .opened _ | .message _ _ => True

/-- What a move that is not careful does to the promise. -/
def Breaks (c : Connection) (m : LinkMove) (c' : Connection) : Prop :=
  (c'.started = true ∧ c'.closed = false ∧ c'.links ≠ 1) ∨
  (∃ k, m.socket = some k ∧ c.ws ≠ some k ∧ c'.link ≠ c.link) ∨
  (c.closed = true ∧ c'.sockets.length ≠ c.sockets.length)

/-- After any run of careful moves, a move that is not careful breaks it at once. -/
def BreaksOtherwise (opts : ConnectionOpts) : Prop :=
  ∀ c, Reach (step opts) (Careful opts) .initial c → c.started = true ∨ c.closed = true →
    ∀ m c', step opts c m = some c' → ¬ Careful opts c m → Breaks c m c'

/-- The ways to the controller, where a current socket counts until it has ended. -/
def Connection.ways (c : Connection) : Nat :=
  (if c.ws.isSome then 1 else 0) + c.resolving + c.reconnects

structure Inv (c : Connection) : Prop where
  idle : c.started = false → c.ws = none ∧ (c.closed = false → c.resolving = 0 ∧ c.reconnects = 0)
  one : c.started = true → c.closed = false → c.ways = 1
  current : ∀ k, c.ws = some k → c.abandonCurrent = some k ∧
    ∃ s, c.sockets[k]? = some s ∧ s.settled = false ∧ s.readyState ≠ .closed ∧
      (s.readyState = .closing ↔ c.closed = true)
  others : ∀ k s, c.sockets[k]? = some s → c.ws ≠ some k →
    s.settled = true ∧ (s.readyState = .closing ∨ s.readyState = .closed)

section

variable {c d : Connection} {k : Nat} {opts : ConnectionOpts}

theorem Inv.initial : Inv .initial := by
  refine ⟨fun _ => ⟨rfl, fun _ => ⟨rfl, rfl⟩⟩, fun h => ?_, fun k h => ?_, fun k s h => ?_⟩
  · cases h
  · cases h
  · simp [Connection.initial] at h

/-- The invariant looks at nothing else. -/
theorem Inv.congr (h : Inv c) (hstarted : d.started = c.started) (hclosed : d.closed = c.closed)
    (hws : d.ws = c.ws) (hsockets : d.sockets = c.sockets)
    (habandon : d.abandonCurrent = c.abandonCurrent) (hresolving : d.resolving = c.resolving)
    (hreconnects : d.reconnects = c.reconnects) : Inv d := by
  have hways : d.ways = c.ways := by
    unfold Connection.ways
    rw [hws, hresolving, hreconnects]
  refine ⟨fun hs => ?_, fun hs hc => ?_, fun k hk => ?_, fun k s hk hne => ?_⟩
  · rw [hws, hclosed, hresolving, hreconnects]
    exact h.idle (hstarted ▸ hs)
  · rw [hways]
    exact h.one (hstarted ▸ hs) (hclosed ▸ hc)
  · rw [habandon, hsockets, hclosed]
    exact h.current k (hws ▸ hk)
  · rw [hsockets] at hk
    rw [hws] at hne
    exact h.others k s hk hne

variable {f : Socket → Socket} {m : LinkMove}

theorem getElem?_setSocket {j : Nat} : (c.setSocket k f).sockets[j]? =
    if k = j then (c.sockets[j]?).map f else c.sockets[j]? := by
  unfold Connection.setSocket
  rw [List.getElem?_modify]
  split <;> simp

/-- The current socket changes, but has not ended. -/
theorem Inv.setCurrent (h : Inv c) (hk : c.ws = some k) {s : Socket} (hs : c.sockets[k]? = some s)
    (hset : (f s).settled = s.settled) (hready : (f s).readyState ≠ .closed)
    (hclosing : (f s).readyState = .closing ↔ c.closed = true) : Inv (c.setSocket k f) := by
  refine ⟨h.idle, h.one, fun j hj => ?_, fun j s hj hne => ?_⟩
  · obtain rfl : k = j := some.inj (hk.symm.trans hj)
    obtain ⟨ha, s', hs', hset', -⟩ := h.current k hk
    obtain rfl := some.inj (hs.symm.trans hs')
    rw [getElem?_setSocket, if_pos rfl, hs]
    exact ⟨ha, f s, rfl, hset.trans hset', hready, hclosing⟩
  · rw [getElem?_setSocket, if_neg fun hkj : k = j => hne (hkj ▸ hk)] at hj
    exact h.others j s hj hne

/-- The current socket is let go of, and a reconnect is scheduled. -/
theorem Inv.letGo (h : Inv c) (hk : c.ws = some k)
    (hf : ∀ s, s.settled = false → s.readyState ≠ .closed →
      (f s).settled = true ∧ ((f s).readyState = .closing ∨ (f s).readyState = .closed))
    (hstarted : d.started = c.started) (hclosed : d.closed = c.closed) (hws : d.ws = c.ws)
    (hsockets : d.sockets = c.sockets.modify k f) (hresolving : d.resolving = c.resolving)
    (hreconnects : d.reconnects = c.reconnects) : Inv (d.letGo k) := by
  have hways : c.ways = 1 + c.resolving + c.reconnects := by
    unfold Connection.ways
    rw [hk]
    rfl
  have hothers : ∀ (j : Nat) (s : Socket), (c.sockets.modify k f)[j]? = some s →
      s.settled = true ∧ (s.readyState = .closing ∨ s.readyState = .closed) := by
    intro j s hj
    have hj' : (c.setSocket k f).sockets[j]? = some s := hj
    rw [getElem?_setSocket] at hj'
    split at hj'
    next hkj =>
      obtain ⟨-, s₀, hs₀, hset, hready, -⟩ := h.current k hk
      rw [← hkj, hs₀] at hj'
      exact some.inj hj' ▸ hf s₀ hset hready
    next hkj => exact h.others j s hj' fun hj => hkj (some.inj (hk.symm.trans hj))
  have hdrop : (if d.ws = some k then { d with ws := none } else d) = { d with ws := none } :=
    if_pos (hws.trans hk)
  have hidle : c.started = true := by
    cases hst : c.started with
    | true => rfl
    | false =>
      have hnone := (h.idle hst).1
      rw [hk] at hnone
      cases hnone
  unfold Connection.letGo
  rw [hdrop]
  split
  next hc =>
    refine ⟨fun hs => ?_, fun _ hc' => ?_, fun j hj => (by cases hj),
      fun j s hj _ => hothers j s (hsockets ▸ hj)⟩
    · rw [show d.started = false from hs] at hstarted
      exact absurd (hstarted.trans hidle) (by decide)
    · exact absurd (hc.symm.trans hc') (by decide)
  next hc =>
    have hc' : c.closed = false := by rw [← hclosed]; exact eq_false_iff.mpr hc
    refine ⟨fun hs => ?_, fun _ _ => ?_, fun j hj => (by cases hj),
      fun j s hj _ => hothers j s (hsockets ▸ hj)⟩
    · rw [show d.started = false from hs] at hstarted
      exact absurd (hstarted.trans hidle) (by decide)
    · have hone := h.one hidle hc'
      show 0 + d.resolving + (d.reconnects + 1) = 1
      omega

/-- Clearing the stable timer. -/
theorem clearStable_fields : c.clearStable.started = c.started ∧ c.clearStable.closed = c.closed ∧
    c.clearStable.ws = c.ws ∧ c.clearStable.sockets = c.sockets ∧
    c.clearStable.abandonCurrent = c.abandonCurrent ∧ c.clearStable.resolving = c.resolving ∧
    c.clearStable.reconnects = c.reconnects := by
  unfold Connection.clearStable
  split <;> exact ⟨rfl, rfl, rfl, rfl, rfl, rfl, rfl⟩

/-- Abandoning the current socket. -/
theorem Inv.abandon (h : Inv c) (hk : c.ws = some k) : Inv (c.abandon k) := by
  obtain ⟨-, s, hs, hset, -⟩ := h.current k hk
  unfold Connection.abandon
  rw [hs]
  dsimp only
  rw [if_neg (by simp [hset])]
  obtain ⟨h₁, h₂, h₃, h₄, -, h₅, h₆⟩ := clearStable_fields
    (c := c.setSocket k fun s => { s with settled := true, dialTimer := false })
  refine h.letGo hk (f := fun s => { s with
    readyState := if s.readyState = .closed then .closed else .closing
    settled := true
    dialTimer := false }) (fun s _ _ => ⟨rfl, ?_⟩) h₁ h₂ h₃ ?_ h₅ h₆
  · split
    · exact .inr rfl
    · exact .inl rfl
  · show List.modify _ k _ = _
    rw [h₄]
    exact modify_modify_eq ..

theorem Inv.dropLink (h : Inv c) (hk : c.ws = some k) : Inv c.dropLink := by
  unfold Connection.dropLink
  rw [(h.current k hk).1]
  exact h.abandon hk

/-- A dial, where there was no link. -/
theorem Inv.dial (h : Inv c) (hclosed : d.closed = false) (hstarted : d.started = true)
    (hsockets : d.sockets = c.sockets) (hnone : c.ws = none)
    (hresolving : d.resolving = 0) (hreconnects : d.reconnects = 0) : Inv d.dial := by
  refine ⟨fun hs => ?_, fun _ hc => ?_, fun k hk => ?_, fun k s hk hne => ?_⟩
  · exact absurd (hs.symm.trans hstarted) (by decide)
  · show 1 + d.resolving + d.reconnects = 1
    omega
  · obtain rfl := some.inj hk
    refine ⟨rfl, ⟨.connecting, false, true⟩, List.getElem?_concat_length, rfl, by decide, ?_⟩
    exact ⟨fun hr => (by cases hr), fun hc => absurd (hclosed.symm.trans hc) (by decide)⟩
  · have hne' : k ≠ d.sockets.length := fun hk' => hne (hk' ▸ rfl)
    rw [Connection.dial, List.getElem?_append] at hk
    split at hk
    · rw [hsockets] at hk
      exact h.others k s hk (by simp [hnone])
    · rw [List.getElem?_eq_none (by simp only [length_singleton]; omega)] at hk
      cases hk

/-- A resolution of the address, where there was no link. -/
theorem Inv.resolve (h : Inv c) (hws : d.ws = none) (hsockets : d.sockets = c.sockets)
    (hnone : c.ws = none) (hlinks : d.closed = false →
      d.started = true ∧ d.resolving = 0 ∧ d.reconnects = 0) :
    Inv { d with resolving := d.resolving + 1 } := by
  refine ⟨fun hs => ⟨hws, fun hc => ?_⟩, fun _ hc => ?_, fun k hk => ?_, fun k s hk _ => ?_⟩
  · exact absurd (hs.symm.trans (hlinks hc).1) (by decide)
  · obtain ⟨-, h₁, h₂⟩ := hlinks hc
    rw [hws]
    show 0 + (d.resolving + 1) + d.reconnects = 1
    omega
  · rw [show d.ws = some k from hk] at hws
    cases hws
  · exact h.others k s (hsockets ▸ hk) (by simp [hnone])

/-- A dial or a resolution, where there was no link. -/
theorem Inv.connect (h : Inv c) (hclosed : d.closed = false) (hws : d.ws = none)
    (hstarted : d.started = true) (hsockets : d.sockets = c.sockets) (hnone : c.ws = none)
    (hresolving : d.resolving = 0) (hreconnects : d.reconnects = 0) : Inv (d.connect opts) := by
  unfold Connection.connect
  split
  · exact h.resolve hws hsockets hnone fun _ => ⟨hstarted, hresolving, hreconnects⟩
  · exact h.dial hclosed hstarted hsockets hnone hresolving hreconnects

/-- While a resolution or a reconnect is pending, there is nothing else. -/
theorem Inv.pending (h : Inv c) (hc : c.closed = false) (hp : 0 < c.resolving + c.reconnects) :
    c.started = true ∧ c.ws = none ∧ c.resolving + c.reconnects = 1 := by
  cases hs : c.started with
  | false =>
    obtain ⟨h₁, h₂⟩ := (h.idle hs).2 hc
    omega
  | true =>
    have hone := h.one hs hc
    unfold Connection.ways at hone
    refine ⟨rfl, ?_, ?_⟩
    · cases hw : c.ws with
      | none => rfl
      | some k =>
        simp only [hw, isSome_some, if_true] at hone
        omega
    · split at hone <;> omega

/-- Once stopped, resolutions and reconnects count for nothing. -/
theorem Inv.afterStop (h : Inv c) (hclosed : d.closed = c.closed) (hc : c.closed = true)
    (hstarted : d.started = false → c.started = false) (hws : d.ws = c.ws)
    (hsockets : d.sockets = c.sockets) (habandon : d.abandonCurrent = c.abandonCurrent) :
    Inv d := by
  have hopen : ¬ d.closed = false := by
    rw [hclosed, hc]
    decide
  refine ⟨fun hs => ⟨hws.trans (h.idle (hstarted hs)).1, fun hc' => absurd hc' hopen⟩,
    fun _ hc' => absurd hc' hopen, fun k hk => ?_, fun k s hk hne => ?_⟩
  · rw [habandon, hsockets, hclosed]
    exact h.current k (hws ▸ hk)
  · rw [hsockets] at hk
    rw [hws] at hne
    exact h.others k s hk hne

/-! Each event of a socket. -/

theorem sendRegister_fields : c.sendRegister.started = c.started ∧
    c.sendRegister.closed = c.closed ∧ c.sendRegister.ws = c.ws ∧
    c.sendRegister.sockets = c.sockets ∧ c.sendRegister.abandonCurrent = c.abandonCurrent ∧
    c.sendRegister.resolving = c.resolving ∧ c.sendRegister.reconnects = c.reconnects := by
  unfold Connection.sendRegister
  split
  · exact ⟨rfl, rfl, rfl, rfl, rfl, rfl, rfl⟩
  · split <;> exact ⟨rfl, rfl, rfl, rfl, rfl, rfl, rfl⟩

/-- Only the current socket is being dialled or open. -/
theorem Inv.ws_of_live (h : Inv c) {s : Socket} (hs : c.sockets[k]? = some s)
    (hlive : s.readyState = .connecting ∨ s.readyState = .open) : c.ws = some k :=
  Classical.byContradiction fun hne => by
    obtain ⟨-, hclosing | hclosed⟩ := h.others k s hs hne
    · simp [hclosing] at hlive
    · simp [hclosed] at hlive

theorem Inv.onOpen (h : Inv c) {s : Socket} (hs : c.sockets[k]? = some s)
    (hr : s.readyState = .connecting) : Inv (c.onOpen k) := by
  have hk := h.ws_of_live hs (.inl hr)
  obtain ⟨-, s', hs', -, -, hclosing⟩ := h.current k hk
  obtain rfl := some.inj (hs.symm.trans hs')
  have hopened := h.setCurrent hk hs
    (f := fun s => { s with readyState := .open, dialTimer := false }) rfl (fun hr' => by cases hr')
    (by simp [← hclosing, hr])
  obtain ⟨h₁, h₂, h₃, h₄, h₅, h₆, h₇⟩ := sendRegister_fields
    (c := { c.setSocket k fun s => { s with readyState := .open, dialTimer := false } with
      droppedInARow := 0 })
  exact hopened.congr h₁ h₂ h₃ h₄ h₅ h₆ h₇

theorem Inv.onMessage (h : Inv c) {f : Connection.ControllerFrame} : Inv (c.onMessage k f) := by
  have hfield : ∀ now alive stranded dropped armed, Inv { c with
      lastInboundAt := now, lastAliveAt := alive, strandedReported := stranded
      droppedInARow := dropped, livenessArmed := armed } :=
    fun _ _ _ _ _ => h.congr rfl rfl rfl rfl rfl rfl rfl
  unfold Connection.onMessage
  split
  · exact h
  next hk =>
    cases f with
    | ping heartbeat => cases heartbeat <;> exact hfield _ _ _ _ _
    | registerAck => exact hfield _ _ _ _ _
    | command => exact hfield _ _ _ _ _
    | unreadable commandId =>
      cases commandId with
      | none => exact hfield _ _ _ _ _
      | some id =>
        dsimp only [Connection.onDroppedFrame]
        split
        · exact (hfield _ _ _ _ _).dropLink (not_not.mp hk)
        · exact hfield _ _ _ _ _

theorem Inv.onClose (h : Inv c) : Inv (c.onClose k) := by
  obtain ⟨h₁, h₂, h₃, h₄, h₅, h₆, h₇⟩ := clearStable_fields
    (c := c.setSocket k fun s => { s with readyState := .closed, dialTimer := false })
  unfold Connection.onClose
  cases hs : c.sockets[k]? with
  | none =>
    refine h.congr h₁ h₂ h₃ (h₄.trans ?_) h₅ h₆ h₇
    exact modify_eq_self (List.getElem?_eq_none_iff.mp hs)
  | some s =>
    dsimp only
    split
    next hset =>
      have hne : c.ws ≠ some k := by
        intro hk
        obtain ⟨-, s', hs', hset', -⟩ := h.current k hk
        rw [hs] at hs'
        rw [← some.inj hs', hset] at hset'
        cases hset'
      refine ⟨fun hst => ?_, fun hst hc => ?_, fun j hj => ?_, fun j s' hj hne' => ?_⟩
      · rw [h₂, h₃, h₆, h₇]
        exact h.idle (h₁ ▸ hst)
      · unfold Connection.ways
        rw [h₃, h₆, h₇]
        exact h.one (h₁ ▸ hst) (h₂ ▸ hc)
      · rw [h₃] at hj
        rw [h₂, h₅, h₄, getElem?_setSocket, if_neg fun hkj : k = j => hne (hkj ▸ hj)]
        exact h.current j hj
      · rw [h₄, getElem?_setSocket] at hj
        rw [h₃] at hne'
        split at hj
        next hkj =>
          rw [← hkj, hs] at hj
          obtain rfl := some.inj hj
          exact ⟨hset, .inr rfl⟩
        next hkj => exact h.others j s' hj hne'
    next hset =>
      have hk : c.ws = some k := Classical.byContradiction fun hne =>
        hset (h.others k s hs hne).1
      refine h.letGo hk (f := fun s => ⟨.closed, true, false⟩) (fun _ _ _ => ⟨rfl, .inr rfl⟩)
        h₁ h₂ h₃ ?_ h₆ h₇
      show List.modify _ k _ = _
      rw [h₄]
      exact modify_modify_eq ..

theorem Inv.checkLink (h : Inv c) : Inv (c.checkLink opts) := by
  unfold Connection.checkLink
  split
  · exact h
  · have hchecked : Inv (if (c.ws.any fun k => (c.sockets[k]?).any (·.readyState = .open)) = true ∧
        linkIsDead c.livenessArmed c.lastInboundAt c.now opts.idleMs = true
          then c.dropLink else c) := by
      split
      next hdead =>
        obtain ⟨k, hk, -⟩ := (any_eq_true _ _).mp hdead.1
        exact h.dropLink hk
      · exact h
    dsimp only
    generalize (if (c.ws.any fun k => (c.sockets[k]?).any (·.readyState = .open)) = true ∧
      linkIsDead c.livenessArmed c.lastInboundAt c.now opts.idleMs = true then c.dropLink else c)
      = checked at hchecked ⊢
    split
    · exact hchecked.congr rfl rfl rfl rfl rfl rfl rfl
    · exact hchecked

/-! Each move. -/

theorem usable_eq_some (hu : c.usable = some k) : c.ws = some k :=
  (filter_eq_some_iff.mp hu).1

theorem stop_none (hk : c.ws = none) : c.stop = { c with closed := true, watchdog := false } := by
  unfold Connection.stop
  rw [hk]
  rfl

theorem stop_some (hk : c.ws = some k) :
    c.stop = { c with closed := true, watchdog := false }.closeSocket k := by
  unfold Connection.stop
  rw [hk]
  rfl

/-- Once stopped, no socket is dialled or open. -/
theorem Inv.usable_stopped (h : Inv c) (hc : c.closed = true) : c.usable = none := by
  cases hu : c.usable with
  | none => rfl
  | some k =>
    obtain ⟨hk, hany⟩ := filter_eq_some_iff.mp hu
    obtain ⟨-, s, hs, -, -, hclosing⟩ := h.current k hk
    rw [hs, any_some, hclosing.mpr hc] at hany
    cases hany

/-- The socket is closed at the stop. -/
theorem Inv.stop (h : Inv c) : Inv c.stop := by
  rcases hk : c.ws with _ | k
  · rw [stop_none hk]
    refine ⟨fun _ => ⟨hk, fun hc => (by cases hc)⟩, fun _ hc => (by cases hc),
      fun j hj => ?_, h.others⟩
    rw [show c.ws = some j from hj] at hk
    cases hk
  · rw [stop_some hk]
    refine ⟨fun hs => ⟨(h.idle hs).1, fun hc => (by cases hc)⟩, fun _ hc => (by cases hc),
      fun j hj => ?_, fun j s hj hne => ?_⟩
    · obtain rfl : k = j := some.inj (hk.symm.trans hj)
      obtain ⟨ha, s, hs, hset, hready, -⟩ := h.current k hk
      refine ⟨ha, { s with readyState := .closing }, ?_, hset, by simp, fun _ => rfl, fun _ => rfl⟩
      rw [Connection.closeSocket, getElem?_setSocket, if_pos rfl, hs, map_some, if_neg hready]
    · rw [Connection.closeSocket, getElem?_setSocket,
        if_neg fun hkj : k = j => hne (hkj ▸ hk)] at hj
      exact h.others j s hj hne

theorem Inv.step (h : Inv c) (hok : Careful opts c m) (hs : step opts c m = some d) : Inv d := by
  cases m with
  | start =>
    simp only [Agent.step] at hs
    split at hs
    · cases hs
    next hst =>
      obtain rfl := some.inj hs
      obtain ⟨hws, hnone⟩ := h.idle (eq_false_iff.mpr hst)
      cases hc : c.closed with
      | false =>
        obtain ⟨h₁, h₂⟩ := hnone hc
        exact h.connect (d := { c with started := true, lastAliveAt := c.now, watchdog := true })
          hc hws rfl rfl hws h₁ h₂
      | true =>
        unfold Connection.start Connection.connect
        rw [if_pos (hok hc)]
        exact h.afterStop rfl hc (fun hst' => by cases hst') rfl rfl rfl
  | redial =>
    obtain rfl := some.inj hs
    unfold Connection.redial
    rw [h.usable_stopped hok.1]
    unfold Connection.connect
    dsimp only
    rw [if_pos hok.2]
    exact h.afterStop rfl hok.1 id rfl rfl rfl
  | stop =>
    obtain rfl := some.inj hs
    exact h.stop
  | watchdog =>
    simp only [Agent.step] at hs
    split at hs
    · obtain rfl := some.inj hs
      exact h.checkLink
    · cases hs
  | elapse ms =>
    obtain rfl := some.inj hs
    exact h.congr rfl rfl rfl rfl rfl rfl rfl
  | resolved =>
    simp only [Agent.step] at hs
    split at hs
    · cases hs
    next n hn =>
      obtain rfl := some.inj hs
      split
      next hc => exact h.afterStop rfl hc id rfl rfl rfl
      next hc =>
        obtain ⟨hst, hws, hp⟩ := h.pending (eq_false_iff.mpr hc) (by omega)
        refine h.dial (d := { c with resolving := n }) (eq_false_iff.mpr hc) hst rfl hws ?_ ?_
        · show n = 0
          omega
        · show c.reconnects = 0
          omega
  | reconnect =>
    simp only [Agent.step] at hs
    split at hs
    · cases hs
    next n hn =>
      obtain rfl := some.inj hs
      split
      next hc => exact h.afterStop rfl hc id rfl rfl rfl
      next hc =>
        obtain ⟨hst, hws, hp⟩ := h.pending (eq_false_iff.mpr hc) (by omega)
        refine h.connect (d := { c with reconnects := n }) (eq_false_iff.mpr hc) hws hst rfl
          hws ?_ ?_
        · show c.resolving = 0
          omega
        · show n = 0
          omega
  | dialTimer k =>
    simp only [Agent.step] at hs
    split at hs
    · obtain rfl := some.inj hs
      unfold Connection.dialTimeout
      split
      · exact h
      next s hs' =>
        split
        · exact h
        next hdial =>
          refine h.abandon (Classical.byContradiction fun hne => hdial (.inr ?_))
          exact (h.others k s hs' hne).1
    · cases hs
  | stableTimer t =>
    simp only [Agent.step] at hs
    split at hs
    · obtain rfl := some.inj hs
      exact h.congr rfl rfl rfl rfl rfl rfl rfl
    · cases hs
  | opened k =>
    simp only [Agent.step] at hs
    split at hs
    next hready =>
      obtain rfl := some.inj hs
      obtain ⟨s, hs', hr⟩ := (any_eq_true _ _).mp hready
      exact h.onOpen hs' (of_decide_eq_true hr)
    · cases hs
  | message k f =>
    simp only [Agent.step] at hs
    split at hs
    · obtain rfl := some.inj hs
      exact h.onMessage
    · cases hs
  | ended k =>
    simp only [Agent.step] at hs
    split at hs
    · obtain rfl := some.inj hs
      exact h.onClose
    · cases hs

/-! After the stop. -/

/-- No socket is dialled. -/
def Undialled (c d : Connection) : Prop :=
  d.sockets.length = c.sockets.length ∧ d.closed = c.closed

theorem Undialled.trans {c₁ c₂ c₃ : Connection} (h₁ : Undialled c₁ c₂) (h₂ : Undialled c₂ c₃) :
    Undialled c₁ c₃ :=
  ⟨h₂.1.trans h₁.1, h₂.2.trans h₁.2⟩

theorem undialled_setSocket : Undialled c (c.setSocket k f) :=
  ⟨length_modify .., rfl⟩

theorem undialled_clearStable : Undialled c c.clearStable := by
  obtain ⟨-, hclosed, -, hsockets, -⟩ := clearStable_fields (c := c)
  exact ⟨congrArg List.length hsockets, hclosed⟩

theorem undialled_letGo : Undialled c (c.letGo k) := by
  have hdrop : Undialled c (if c.ws = some k then { c with ws := none } else c) := by
    split <;> exact ⟨rfl, rfl⟩
  unfold Connection.letGo
  dsimp only
  split
  · exact hdrop
  · exact hdrop.trans ⟨rfl, rfl⟩

theorem undialled_abandon : Undialled c (c.abandon k) := by
  unfold Connection.abandon
  split
  · exact ⟨rfl, rfl⟩
  · split
    · exact ⟨rfl, rfl⟩
    · exact undialled_setSocket.trans
        (undialled_clearStable.trans (undialled_setSocket.trans undialled_letGo))

theorem undialled_dropLink : Undialled c c.dropLink := by
  unfold Connection.dropLink
  cases c.abandonCurrent with
  | none => exact ⟨rfl, rfl⟩
  | some k => exact undialled_abandon

theorem undialled_onOpen : Undialled c (c.onOpen k) := by
  obtain ⟨-, hclosed, -, hsockets, -⟩ := sendRegister_fields
    (c := { c.setSocket k fun s => { s with readyState := .open, dialTimer := false } with
      droppedInARow := 0 })
  exact undialled_setSocket.trans ⟨congrArg List.length hsockets, hclosed⟩

theorem undialled_onMessage {f : Connection.ControllerFrame} : Undialled c (c.onMessage k f) := by
  unfold Connection.onMessage
  split
  · exact ⟨rfl, rfl⟩
  · cases f with
    | ping heartbeat => cases heartbeat <;> exact ⟨rfl, rfl⟩
    | registerAck => exact ⟨rfl, rfl⟩
    | command => exact ⟨rfl, rfl⟩
    | unreadable commandId =>
      cases commandId with
      | none => exact ⟨rfl, rfl⟩
      | some id =>
        dsimp only [Connection.onDroppedFrame]
        split
        · exact Undialled.trans ⟨rfl, rfl⟩ undialled_dropLink
        · exact ⟨rfl, rfl⟩

theorem undialled_onClose : Undialled c (c.onClose k) := by
  have hended : Undialled c (c.setSocket k fun s =>
      { s with readyState := .closed, dialTimer := false }).clearStable :=
    undialled_setSocket.trans undialled_clearStable
  unfold Connection.onClose
  split
  · exact hended
  · split
    · exact hended
    · exact hended.trans (undialled_setSocket.trans undialled_letGo)

theorem undialled_stop : Undialled { c with closed := true } c.stop := by
  rcases hk : c.ws with _ | k
  · rw [stop_none hk]
    exact ⟨rfl, rfl⟩
  · rw [stop_some hk]
    exact undialled_setSocket (c := { c with closed := true, watchdog := false })

/-- Once stopped, no careful move dials. -/
theorem Inv.undialled_step (h : Inv c) (hc : c.closed = true)
    (hok : Careful opts c m) (hs : Agent.step opts c m = some d) : Undialled c d := by
  cases m with
  | start =>
    simp only [Agent.step] at hs
    split at hs
    · cases hs
    · obtain rfl := some.inj hs
      unfold Connection.start Connection.connect
      rw [if_pos (hok hc)]
      exact ⟨rfl, rfl⟩
  | redial =>
    obtain rfl := some.inj hs
    unfold Connection.redial
    rw [h.usable_stopped hc]
    unfold Connection.connect
    dsimp only
    rw [if_pos hok.2]
    exact ⟨rfl, rfl⟩
  | stop =>
    obtain rfl := some.inj hs
    exact ⟨undialled_stop.1, undialled_stop.2.trans hc.symm⟩
  | watchdog =>
    simp only [Agent.step] at hs
    split at hs
    · obtain rfl := some.inj hs
      rw [Connection.checkLink, if_pos hc]
      exact ⟨rfl, rfl⟩
    · cases hs
  | elapse ms =>
    obtain rfl := some.inj hs
    exact ⟨rfl, rfl⟩
  | resolved =>
    simp only [Agent.step] at hs
    split at hs
    · cases hs
    · obtain rfl := some.inj hs
      rw [if_pos hc]
      exact ⟨rfl, rfl⟩
  | reconnect =>
    simp only [Agent.step] at hs
    split at hs
    · cases hs
    · obtain rfl := some.inj hs
      rw [if_pos hc]
      exact ⟨rfl, rfl⟩
  | dialTimer k =>
    simp only [Agent.step] at hs
    split at hs
    · obtain rfl := some.inj hs
      unfold Connection.dialTimeout
      split
      · exact ⟨rfl, rfl⟩
      · split
        · exact ⟨rfl, rfl⟩
        · exact undialled_abandon
    · cases hs
  | stableTimer t =>
    simp only [Agent.step] at hs
    split at hs
    · obtain rfl := some.inj hs
      exact ⟨rfl, rfl⟩
    · cases hs
  | opened k =>
    simp only [Agent.step] at hs
    split at hs
    · obtain rfl := some.inj hs
      exact undialled_onOpen
    · cases hs
  | message k f =>
    simp only [Agent.step] at hs
    split at hs
    · obtain rfl := some.inj hs
      exact undialled_onMessage
    · cases hs
  | ended k =>
    simp only [Agent.step] at hs
    split at hs
    · obtain rfl := some.inj hs
      exact undialled_onClose
    · cases hs

/-! The events of a socket that is not current. -/

theorem link_setSocket (hne : c.ws ≠ some k) : (c.setSocket k f).link = c.link := by
  have hcurrent : (c.ws.bind fun j => (c.setSocket k f).sockets[j]?) =
      c.ws.bind fun j => c.sockets[j]? := by
    rcases hk : c.ws with _ | j
    · rfl
    · exact getElem?_setSocket.trans (if_neg fun hkj : k = j => hne (hkj ▸ hk))
  unfold Connection.link
  show { c with sockets := (c.ws.bind _).toList, stableTimer := none } = _
  rw [hcurrent]

theorem link_clearStable (h : ∀ t, c.stableTimer = some t → t ∉ c.stableTimers) :
    c.clearStable.link = c.link := by
  unfold Connection.clearStable
  split
  · rfl
  next t ht =>
    have hsame : c.stableTimers.filter (· ≠ t) = c.stableTimers :=
      filter_eq_self.mpr fun t' ht' => decide_eq_true fun heq => h t ht (heq ▸ ht')
    unfold Connection.link
    rw [hsame]

/-- What a socket that is not current has yet to report leaves the link alone. -/
theorem Inv.link_step (h : Inv c) (hm : m.socket = some k) (hne : c.ws ≠ some k)
    (hok : Careful opts c m) (hs : Agent.step opts c m = some d) : d.link = c.link := by
  cases m with
  | dialTimer j =>
    obtain rfl := some.inj hm
    simp only [Agent.step] at hs
    split at hs
    · obtain rfl := some.inj hs
      unfold Connection.dialTimeout
      split
      · rfl
      next s hs' => rw [if_pos (.inr (h.others _ s hs' hne).1)]
    · cases hs
  | opened j =>
    obtain rfl := some.inj hm
    simp only [Agent.step] at hs
    split at hs
    next hready =>
      obtain ⟨s, hs', hr⟩ := (any_eq_true _ _).mp hready
      exact absurd (h.ws_of_live hs' (.inl (of_decide_eq_true hr))) hne
    · cases hs
  | message j f =>
    obtain rfl := some.inj hm
    simp only [Agent.step] at hs
    split at hs
    next hready =>
      obtain ⟨s, hs', hr⟩ := (any_eq_true _ _).mp hready
      exact absurd (h.ws_of_live hs' (.inr (of_decide_eq_true hr))) hne
    · cases hs
  | ended j =>
    obtain rfl := some.inj hm
    simp only [Agent.step] at hs
    split at hs
    next hready =>
      obtain rfl := some.inj hs
      obtain ⟨s, hs', -⟩ := (any_eq_true _ _).mp hready
      have hset := (h.others _ s hs' hne).1
      unfold Connection.onClose
      rw [hs']
      dsimp only
      rw [if_pos hset]
      exact (link_clearStable (c := c.setSocket j _) (hok hne)).trans (link_setSocket hne)
    · cases hs
  | start => cases hm
  | redial => cases hm
  | stop => cases hm
  | watchdog => cases hm
  | elapse ms => cases hm
  | resolved => cases hm
  | reconnect => cases hm
  | stableTimer t => cases hm

theorem Inv.links_eq (h : Inv c) (hc : c.closed = false) : c.links = c.ways := by
  have husable : c.usable = c.ws := by
    rcases hk : c.ws with _ | k
    · unfold Connection.usable
      rw [hk]
      rfl
    · obtain ⟨-, s, hs, -, hready, hclosing⟩ := h.current k hk
      have hlive : (c.sockets[k]?).any
          (fun s => s.readyState = .connecting || s.readyState = .open) = true := by
        rw [hs, any_some]
        cases hr : s.readyState with
        | connecting => rfl
        | «open» => rfl
        | closing => exact absurd ((hclosing.mp hr).symm.trans hc) (by decide)
        | closed => exact absurd hr hready
      exact filter_eq_some_iff.mpr ⟨hk, hlive⟩
  unfold Connection.links Connection.ways
  rw [husable]

/-! The other moves. -/

/-- Another dial, or another resolution, is one link more. -/
theorem lt_links_connect {n : Nat} (hn : n ≤ c.resolving + c.reconnects) :
    n < (c.connect opts).links := by
  unfold Connection.connect
  split
  · show n < _ + (c.resolving + 1) + c.reconnects
    omega
  · have husable : c.dial.usable = some c.sockets.length := by
      refine filter_eq_some_iff.mpr ⟨rfl, ?_⟩
      show ((c.sockets ++ _)[c.sockets.length]?).any _ = true
      rw [List.getElem?_concat_length]
      rfl
    unfold Connection.links
    rw [husable]
    show n < 1 + c.resolving + c.reconnects
    omega

theorem started_redial : (c.redial opts).started = c.started := by
  unfold Connection.redial
  split
  · rfl
  · unfold Connection.connect
    split <;> rfl

theorem closed_redial : (c.redial opts).closed = c.closed := by
  unfold Connection.redial
  split
  · rfl
  · unfold Connection.connect
    split <;> rfl

/-- A redial leaves no link, or two. -/
theorem Inv.links_redial (h : Inv c) (hstarted : c.started = true) (hc : c.closed = false) :
    (c.redial opts).links ≠ 1 := by
  have hone := (h.links_eq hc).trans (h.one hstarted hc)
  unfold Connection.redial
  cases hu : c.usable with
  | none =>
    have hways : c.resolving + c.reconnects = 1 := by
      unfold Connection.links at hone
      rw [hu] at hone
      simpa using hone
    exact Nat.ne_of_gt (lt_links_connect (c := { c with attempt := 0 }) hways.ge)
  | some k =>
    have hways : c.resolving + c.reconnects = 0 := by
      unfold Connection.links at hone
      rw [hu] at hone
      simp only [isSome_some, if_true] at hone
      omega
    have hclosing : ({ c with attempt := 0 }.closeSocket k).usable = none := by
      refine filter_eq_none_iff.mpr fun j hj => ?_
      obtain rfl : k = j := some.inj ((usable_eq_some hu).symm.trans hj)
      rw [Connection.closeSocket, getElem?_setSocket, if_pos rfl]
      cases (c.sockets[k]?) with
      | none => simp
      | some s => by_cases hr : s.readyState = .closed <;> simp [hr]
    unfold Connection.links
    rw [hclosing]
    show ¬ 0 + c.resolving + c.reconnects = 1
    omega

theorem length_connect (hopts : ¬ opts.resolveUrl = true) :
    (c.connect opts).sockets.length = c.sockets.length + 1 := by
  unfold Connection.connect
  rw [if_neg hopts]
  exact length_append

theorem Inv.breaks (h : Inv c) (hrun : c.started = true ∨ c.closed = true)
    (hs : Agent.step opts c m = some d) (hok : ¬ Careful opts c m) : Breaks c m d := by
  cases m with
  | start =>
    obtain ⟨hc, hopts⟩ := Classical.not_imp.mp hok
    simp only [Agent.step] at hs
    split at hs
    · cases hs
    · obtain rfl := some.inj hs
      refine .inr (.inr ⟨hc, ?_⟩)
      rw [Connection.start, length_connect hopts]
      exact Nat.succ_ne_self _
  | redial =>
    obtain rfl := some.inj hs
    cases hc : c.closed with
    | false =>
      have hstarted : c.started = true := hrun.resolve_right (by simp [hc])
      exact .inl ⟨started_redial.trans hstarted, closed_redial.trans hc,
        h.links_redial hstarted hc⟩
    | true =>
      have hopts : ¬ opts.resolveUrl = true := fun hopts => hok ⟨hc, hopts⟩
      refine .inr (.inr ⟨hc, ?_⟩)
      unfold Connection.redial
      rw [h.usable_stopped hc]
      rw [length_connect hopts]
      exact Nat.succ_ne_self _
  | ended k =>
    obtain ⟨hne, hok⟩ := Classical.not_imp.mp hok
    obtain ⟨t, hok⟩ := Classical.not_forall.mp hok
    obtain ⟨ht, hok⟩ := Classical.not_imp.mp hok
    simp only [Agent.step] at hs
    split at hs
    next hready =>
      obtain rfl := some.inj hs
      obtain ⟨s, hs', -⟩ := (any_eq_true _ _).mp hready
      refine .inr (.inl ⟨k, rfl, hne, fun hlink => ?_⟩)
      have htimers := congrArg Connection.stableTimers hlink
      unfold Connection.onClose at htimers
      rw [hs'] at htimers
      dsimp only at htimers
      rw [if_pos (h.others _ s hs' hne).1] at htimers
      have hcleared : c.stableTimers.filter (· ≠ t) = c.stableTimers := by
        rw [Connection.clearStable, show (c.setSocket k _).stableTimer = some t from ht] at htimers
        exact htimers
      have hmem := filter_eq_self.mp hcleared t (not_not.mp hok)
      exact absurd rfl (of_decide_eq_true hmem)
    · cases hs
  | stop => exact absurd trivial hok
  | watchdog => exact absurd trivial hok
  | elapse ms => exact absurd trivial hok
  | resolved => exact absurd trivial hok
  | reconnect => exact absurd trivial hok
  | dialTimer k => exact absurd trivial hok
  | stableTimer t => exact absurd trivial hok
  | opened k => exact absurd trivial hok
  | message k f => exact absurd trivial hok

end

/-- A careful run keeps to one link, and no other run does. -/
theorem hasOneLink_careful (opts : ConnectionOpts) :
    HasOneLink opts (Careful opts) ∧ BreaksOtherwise opts := by
  have hinv : ∀ c, Reach (step opts) (Careful opts) .initial c → Inv c :=
    fun c h => h.induct Inv.initial fun _ _ _ hI hok hs => hI.step hok hs
  refine ⟨⟨fun c h hs hc => ?_, fun c h k s hs hne => ?_,
    fun c h m k c' hm hne hok hs => (hinv c h).link_step hm hne hok hs,
    fun c h hc m c' hok hs => ?_⟩, fun c h hrun m c' hs hok => (hinv c h).breaks hrun hs hok⟩
  · exact ((hinv c h).links_eq hc).trans ((hinv c h).one hs hc)
  · obtain ⟨hset, hready⟩ := (hinv c h).others k s hs hne
    exact ⟨hset, by rcases hready with hr | hr <;> simp [hr]⟩
  · obtain ⟨hlength, hclosed⟩ := (hinv c h).undialled_step hc hok hs
    exact ⟨hlength, hclosed.trans hc⟩

/-! ## A redial while a reconnect is scheduled -/

def fixedUrl : ConnectionOpts := ⟨false, 45000, 600000⟩

/-- The first dial fails, and the operator asks for a reconnect during the back-off. -/
def impatient : List LinkMove := [.start, .ended 0, .redial]

/-- The redial dials, and the reconnect that was scheduled is still to come. -/
theorem hasOneLink_impatient : ¬ ∀ opts, HasOneLink opts fun _ _ => True := by
  intro h
  have hrun : ((run (step fixedUrl) .initial impatient).map fun c =>
      (c.started, c.closed, c.links)) = some (true, false, 2) := by decide
  obtain ⟨c, hc, hlinks⟩ := map_eq_some_iff.mp hrun
  obtain ⟨hstarted, hlinks⟩ := Prod.mk.inj hlinks
  obtain ⟨hclosed, hlinks⟩ := Prod.mk.inj hlinks
  have hone := (h fixedUrl).one c (reach_of_run .refl hc) hstarted hclosed
  exact absurd (hlinks.symm.trans hone) (by decide)

end Swarmy.Agent
