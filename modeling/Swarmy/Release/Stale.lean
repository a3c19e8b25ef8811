import Swarmy.Keyed.Cells
import Swarmy.Release.Gate

/-!
# No stale release

What the gate promises about the releases of a stack: one healthy and one deploying at most,
none that ended becomes healthy, and automatic rollbacks that are complete, in order and not
repeated.  `sound_of_careful`: so it is in every state of a run in which no release is recorded
while another is, or while the gate is at the stack, and no automatic rollback is cut short.
-/

namespace Releases

open List Option

/-! ## The promise -/

namespace DeployPhase

/-- There is something left to dispatch. -/
def early : DeployPhase → Bool
  | .plan | .dispatch _ _ => true
  | .supersede _ | .create _ => false

end DeployPhase

namespace State

variable (s : State)

structure Sound : Prop where
  healthy : ∀ r ∈ s.rows, ∀ r' ∈ s.rows, r.stack = r'.stack →
    r.status = .healthy → r'.status = .healthy → r = r'
  deploying : ∀ r ∈ s.rows, ∀ r' ∈ s.rows, r.stack = r'.stack →
    r.status = .deploying → r'.status = .deploying → r = r'
  ended : ∀ r ∈ s.rows, r.id ∈ s.ended → r.status ≠ .healthy
  /-- The gate dispatched nothing over a later release. -/
  overtaken : s.overtaken = []
  /-- What the gate gave up, it replaced by what was healthy, or is about to. -/
  redeployed : ∀ x ∈ s.abandoned, x.2.status = .healthy ∧
    ((x.1, x.2.composeSource) ∈ s.redeployed ∨
      ∃ r todo d, r.id = x.1 ∧ .gate (.redeploy r todo x.2 d) ∈ s.ops)
  guard : ∀ x ∈ s.abandoned, x.1 ∉ s.autos

end State

/-! ## The condition -/

namespace Gate

/-- The releases that the gate read as deploying and has not written. -/
def pending : Gate → List Release
  | .list => []
  | .next todo | .redeploy _ todo _ _ | .note _ todo _ _ => todo
  | .summary r todo _ | .demote r todo | .promote r todo | .alarm r todo | .previous r todo
  | .fail r todo | .abandon r todo _ => r :: todo

/-- The stacks that the gate is at. -/
def holds : Gate → List Stack
  | .redeploy r todo _ d => if d.phase.early then r.stack :: todo.map Release.stack
      else todo.map Release.stack
  | g => g.pending.map Release.stack

/-- An automatic rollback is under way: something is to be dispatched, or to be noted. -/
def rolling : Gate → Bool
  | .redeploy _ _ _ d => d.phase.early
  | .note _ _ _ _ => true
  | _ => false

end Gate

namespace Op

/-- The stack whose release is about to be created. -/
def recording (op : Op) : Option Stack :=
  op.deploy?.bind fun d => match d.phase with
    | .create _ => some d.stack
    | _ => none

end Op

namespace State

variable (s : State)

/-- A release is recorded while no other is, of its stack, and while the gate is elsewhere; a
release that the gate has read is not marked; and automatic rollbacks are not cut short. -/
def Careful : Move → Prop
  | .superseded i => ∀ op d, s.ops[i]? = some op → op.deploy? = some d →
      ∀ (j : Nat) (op' : Op), j ≠ i → s.ops[j]? = some op' → op'.recording ≠ some d.stack ∧
        ∀ g, op' = .gate g → d.stack ∉ g.holds
  | .written i _ => ∀ target head new, s.ops[i]? = some (.rollback (.mark target head new)) →
      ∀ g, .gate g ∈ s.ops → ∀ r ∈ g.pending, r.id ≠ head
  | .deployFails i => ∀ g, s.ops[i]? = some (.gate g) → g.rolling = false
  | .stop => ∀ g, .gate g ∈ s.ops → g.rolling = false
  | _ => True

/-! ## The invariant -/

def ids : List String := s.rows.map Release.id

/-- What the gate read of a release still holds. -/
structure Pending (r : Release) : Prop where
  row : ∃ r' ∈ s.rows, r'.id = r.id ∧ r'.stack = r.stack ∧ r'.status = .deploying
  auto : r.id ∈ s.autos → isAutoRollbackRelease r.notes = true

structure GateOk (g : Gate) : Prop where
  pending : ∀ r ∈ g.pending, s.Pending r
  apart : (g.pending.map Release.stack).Nodup
  promote : ∀ r todo, g = .promote r todo →
    ∀ r' ∈ s.rows, r'.stack = r.stack → r'.status = .healthy → r'.id = r.id
  abandon : ∀ r todo previous, g = .abandon r todo previous →
    previous.status = .healthy ∧ r.id ∉ s.autos
  redeploy : ∀ r todo previous d, g = .redeploy r todo previous d →
    d.stack = r.stack ∧ d.composeSource = previous.composeSource ∧
      r.stack ∉ todo.map Release.stack ∧
      (d.phase.early = true → s.later r = false) ∧
      (d.phase.early = false → (r.id, previous.composeSource) ∈ s.redeployed)
  note : ∀ r todo previous new, g = .note r todo previous new → new ∈ s.ids

end State

/-- The release that a rollback made. -/
def Rollback.new? : Rollback → Option String
  | .mark _ _ new => new
  | .note _ new => some new
  | _ => none

namespace State

variable (s : State)

structure Inv : Prop where
  ids : s.ids.Nodup
  last : ∀ r ∈ s.rows, r.status = .deploying → s.later r = false
  healthy : ∀ r ∈ s.rows, ∀ r' ∈ s.rows, r.stack = r'.stack →
    r.status = .healthy → r'.status = .healthy → r.id = r'.id
  ended : ∀ r ∈ s.rows, r.id ∈ s.ended → r.status ≠ .deploying ∧ r.status ≠ .healthy
  known : (∀ id ∈ s.ended, id ∈ s.ids) ∧ (∀ id ∈ s.autos, id ∈ s.ids) ∧
    ∀ x ∈ s.abandoned, x.1 ∈ s.ids
  overtaken : s.overtaken = []
  gates : ∀ (i j : Nat) (g g' : Gate), s.ops[i]? = some (.gate g) →
    s.ops[j]? = some (.gate g') → i = j
  recording : ∀ (i j : Nat) (op op' : Op) (st : Stack), s.ops[i]? = some op → s.ops[j]? = some op' →
    op.recording = some st → op'.recording = some st → i = j
  closed : ∀ op ∈ s.ops, ∀ st, op.recording = some st →
    ∀ r ∈ s.rows, r.stack = st → r.status ≠ .deploying
  /-- No release is about to be created under an automatic rollback. -/
  free : ∀ (j : Nat) (op : Op), s.ops[j]? = some op → ∀ r todo previous d,
    .gate (.redeploy r todo previous d) ∈ s.ops → d.phase.early = true → op.recording ≠ some r.stack
  gate : ∀ g, .gate g ∈ s.ops → s.GateOk g
  rollback : ∀ p, .rollback p ∈ s.ops → ∀ n, p.new? = some n → n ∈ s.ids ∧ n ∉ s.autos
  autos : ∀ r ∈ s.rows, r.id ∈ s.autos → r.status = .deploying →
    isAutoRollbackRelease r.notes = true ∨
      ∃ r' todo previous, .gate (.note r' todo previous r.id) ∈ s.ops
  abandoned : ∀ x ∈ s.abandoned, x.2.status = .healthy ∧ x.1 ∉ s.autos ∧
    ((x.1, x.2.composeSource) ∈ s.redeployed ∨
      ∃ r todo d, r.id = x.1 ∧ d.phase.early = true ∧ .gate (.redeploy r todo x.2 d) ∈ s.ops)

variable {s}

/-! ## The last release of a stack -/

variable {r r' : Release} {s' : State} {i : Nat} {op op' : Op} {g : Gate} {todo : List Release}
  {d : Deploy} {gate : Option HealthGate}

theorem later_eq_false : s.later r = false ↔
    ∀ x ∈ (s.rows.filter (·.stack = r.stack)).getLast?, x.id = r.id := by
  unfold later
  rw [Option.any_eq_false]
  simp

theorem later_congr (hid : r.id = r'.id) (hst : r.stack = r'.stack) : s.later r = s.later r' := by
  unfold later
  rw [hid, hst]

/-- Two releases that are both the last one are the same. -/
theorem Inv.eq_of_last (h : s.Inv) (hr : r ∈ s.rows) (hr' : r' ∈ s.rows)
    (hst : r.stack = r'.stack) (hl : s.later r = false) (hl' : s.later r' = false) : r = r' := by
  rw [later_eq_false] at hl hl'
  have hmem : r ∈ s.rows.filter (·.stack = r.stack) := by simp [hr]
  obtain ⟨x, hx⟩ := isSome_iff_exists.1 (List.getLast?_isSome.2 (ne_nil_of_mem hmem))
  have hid : r.id = r'.id := (hl x hx).symm.trans (hl' x (hst ▸ hx))
  exact inj_on_of_nodup_map h.ids hr hr' hid

theorem Inv.eq_of_deploying (h : s.Inv) (hr : r ∈ s.rows) (hr' : r' ∈ s.rows)
    (hst : r.stack = r'.stack) (hd : r.status = .deploying) (hd' : r'.status = .deploying) :
    r = r' :=
  h.eq_of_last hr hr' hst (h.last r hr hd) (h.last r' hr' hd')

/-- What keeps the ids and the stacks keeps what is last. -/
theorem later_map {f : Release → Release} (hrows : s'.rows = s.rows.map f)
    (hf : ∀ r, (f r).id = r.id ∧ (f r).stack = r.stack) (r : Release) : s'.later r = s.later r := by
  unfold later
  have hfilter : (s.rows.map f).filter (·.stack = r.stack) =
      (s.rows.filter (·.stack = r.stack)).map f := by
    rw [List.filter_map]
    congr 2
    funext x
    simp [(hf x).2]
  rw [hrows, hfilter, List.getLast?_map, Option.any_map]
  congr 1
  funext x
  simp [(hf x).1]

/-! ## An operation goes on -/

/-- What a move does to the releases that are there. -/
structure Update (s s' : State) (f : Release → Release) : Prop where
  rows : s'.rows = s.rows.map f
  same : ∀ r, (f r).id = r.id ∧ (f r).stack = r.stack
  deploying : ∀ r ∈ s.rows, (f r).status = .deploying → r.status = .deploying
  autos : s'.autos = s.autos
  overtaken : s'.overtaken = s.overtaken
  redeployed : ∀ x ∈ s.redeployed, x ∈ s'.redeployed

namespace Update

variable {s' : State} {f : Release → Release}

theorem ids (u : Update s s' f) : s'.ids = s.ids := by
  unfold State.ids
  rw [u.rows, List.map_map]
  apply List.map_congr_left
  intro r _
  exact (u.same r).1

theorem later (u : Update s s' f) (r : Release) : s'.later r = s.later r :=
  later_map u.rows u.same r

theorem pending (u : Update s s' f) {r : Release} (h : s.Pending r)
    (hkeep : ∀ r' ∈ s.rows, r'.id = r.id → r'.status = .deploying → (f r').status = .deploying) :
    s'.Pending r := by
  obtain ⟨r', hr', hid, hst, hd⟩ := h.row
  refine ⟨⟨f r', ?_, ?_, ?_, hkeep r' hr' hid hd⟩, fun ha => h.auto (u.autos ▸ ha)⟩
  · rw [u.rows]
    exact mem_map_of_mem hr'
  · exact (u.same r').1.trans hid
  · exact (u.same r').2.trans hst

/-- A gate that does not move. -/
theorem gateOk (u : Update s s' f) {g : Gate} (h : s.GateOk g)
    (hkeep : ∀ r ∈ g.pending, ∀ r' ∈ s.rows, r'.id = r.id → r'.status = .deploying →
      (f r').status = .deploying)
    (hheal : ∀ r ∈ s.rows, (f r).status = .healthy → r.status = .healthy) : s'.GateOk g where
  pending r hr := u.pending (h.pending r hr) (hkeep r hr)
  apart := h.apart
  promote r todo hg x hx hst hh := by
    rw [u.rows] at hx
    obtain ⟨r', hr', rfl⟩ := mem_map.1 hx
    rw [(u.same r').1]
    rw [(u.same r').2] at hst
    exact h.promote r todo hg r' hr' hst (hheal r' hr' hh)
  abandon r todo previous hg := by
    rw [u.autos]
    exact h.abandon r todo previous hg
  redeploy r todo previous d hg := by
    obtain ⟨hst, hc, hn, he, hl⟩ := h.redeploy r todo previous d hg
    exact ⟨hst, hc, hn, fun hx => (u.later r).trans (he hx), fun hx => u.redeployed _ (hl hx)⟩
  note r todo previous new hg := by
    rw [u.ids]
    exact h.note r todo previous new hg

end Update

/-- One operation goes on. -/
theorem Inv.move (h : s.Inv) {f : Release → Release}
    (hi : s.ops[i]? = some op) (hops : s'.ops = s.ops.set i op') (u : Update s s' f)
    (hgate : ∀ g, op' = .gate g → ∃ g', op = .gate g')
    (hheal : ∀ r ∈ s.rows, (f r).status = .healthy → r.status = .healthy ∨
      (∃ g, op = .gate g) ∧ r.status = .deploying ∧
        ∀ r' ∈ s.rows, r'.stack = r.stack → r'.status = .healthy → r'.id = r.id)
    (hended : ∀ r ∈ s.rows, r.id ∈ s'.ended → r.id ∉ s.ended →
      (f r).status ≠ .deploying ∧ (f r).status ≠ .healthy)
    (hknown : ∀ id ∈ s'.ended, id ∈ s.ids)
    (hkeep : ∀ (j : Nat) (g : Gate), j ≠ i → s.ops[j]? = some (.gate g) → ∀ r ∈ g.pending,
      ∀ r' ∈ s.rows, r'.id = r.id → r'.status = .deploying → (f r').status = .deploying)
    (hrec : ∀ st, op'.recording = some st →
      (∀ (j : Nat) (x : Op), j ≠ i → s.ops[j]? = some x → x.recording ≠ some st ∧
        ∀ g, x = .gate g → st ∉ g.holds) ∧ ∀ r ∈ s.rows, r.stack = st → (f r).status ≠ .deploying)
    (hfree : ∀ r todo previous d, op' = .gate (.redeploy r todo previous d) → d.phase.early = true →
      op'.recording = none ∧ ∀ (j : Nat) (x : Op), s.ops[j]? = some x → x.recording ≠ some r.stack)
    (hok : ∀ g, op' = .gate g → s'.GateOk g)
    (hroll : ∀ p, op' = .rollback p → ∀ n, p.new? = some n → n ∈ s.ids ∧ n ∉ s.autos)
    (hnotes : ∀ r ∈ s.rows, r.id ∈ s.autos → r.status = .deploying → (f r).status = .deploying →
      (isAutoRollbackRelease r.notes = true → isAutoRollbackRelease (f r).notes = true) ∧
        ((∃ r' todo previous, op = .gate (.note r' todo previous r.id)) →
          isAutoRollbackRelease (f r).notes = true))
    (habandoned : ∀ x ∈ s'.abandoned, x ∈ s.abandoned ∨ x.2.status = .healthy ∧ x.1 ∉ s.autos ∧
      x.1 ∈ s.ids ∧ ∃ r todo d, r.id = x.1 ∧ d.phase.early = true ∧ op' = .gate
        (.redeploy r todo x.2 d))
    (hwit : ∀ r todo previous d, op = .gate (.redeploy r todo previous d) → d.phase.early = true →
      (∃ d', d'.phase.early = true ∧ op' = .gate (.redeploy r todo previous d')) ∨
        (r.id, previous.composeSource) ∈ s'.redeployed) : s'.Inv := by
  have hself : s'.ops[i]? = some op' := by rw [hops, Cells.set_self hi]
  have hother {j : Nat} (hj : j ≠ i) : s'.ops[j]? = s.ops[j]? := by rw [hops, Cells.set_ne hj]
  have hmem' : op' ∈ s'.ops := mem_of_getElem? hself
  have hold {x : Op} (hx : x ∈ s.ops) : x ∈ s'.ops ∨ x = op := hops ▸ Cells.mem_set hx hi
  have hnew {x : Op} (hx : x ∈ s'.ops) := Cells.of_mem_set (hops ▸ hx)
  have hrow {x : Release} (hx : x ∈ s'.rows) : ∃ r ∈ s.rows, f r = x := mem_map.1 (u.rows ▸ hx)
  have hisgate {j : Nat} {g : Gate} (hj : s'.ops[j]? = some (.gate g)) :
      ∃ g', s.ops[j]? = some (.gate g') := by
    rcases eq_or_ne j i with rfl | hne
    · obtain ⟨g', rfl⟩ := hgate g (some.inj (hself.symm.trans hj)).symm.symm
      exact ⟨g', hi⟩
    · exact ⟨g, (hother hne).symm.trans hj⟩
  refine
    { ids := u.ids ▸ h.ids
      last := fun x hx hd => ?_
      healthy := fun x hx x' hx' hst hh hh' => ?_
      ended := fun x hx hend => ?_
      known := ?_
      overtaken := u.overtaken.trans h.overtaken
      gates := fun j k g g' hj hk => ?_
      recording := fun j k x x' st hj hk hx hx' => ?_
      closed := fun x hx st hst y hy hyst => ?_
      free := fun j x hj r todo previous d hmem he hst => ?_
      gate := fun g hg => ?_
      rollback := fun p hp n hn => ?_
      autos := fun x hx ha hd => ?_
      abandoned := fun x hx => ?_ }
  · obtain ⟨r, hr, rfl⟩ := hrow hx
    rw [u.later, later_congr (u.same r).1 (u.same r).2]
    exact h.last r hr (u.deploying r hr hd)
  · obtain ⟨r, hr, rfl⟩ := hrow hx
    obtain ⟨r', hr', rfl⟩ := hrow hx'
    rw [(u.same r).2, (u.same r').2] at hst
    rw [(u.same r).1, (u.same r').1]
    rcases hheal r hr hh with h₁ | ⟨-, hd₁, honly₁⟩ <;>
      rcases hheal r' hr' hh' with h₂ | ⟨-, hd₂, honly₂⟩
    · exact h.healthy r hr r' hr' hst h₁ h₂
    · exact honly₂ r hr hst h₁
    · exact (honly₁ r' hr' hst.symm h₂).symm
    · rw [h.eq_of_deploying hr hr' hst hd₁ hd₂]
  · obtain ⟨r, hr, rfl⟩ := hrow hx
    rw [(u.same r).1] at hend
    by_cases hbefore : r.id ∈ s.ended
    · obtain ⟨hnd, hnh⟩ := h.ended r hr hbefore
      refine ⟨fun hd => hnd (u.deploying r hr hd), fun hh => ?_⟩
      rcases hheal r hr hh with hh | ⟨-, hd, -⟩
      · exact hnh hh
      · exact hnd hd
    · exact hended r hr hend hbefore
  · rw [u.ids, u.autos]
    refine ⟨hknown, h.known.2.1, fun x hx => ?_⟩
    rcases habandoned x hx with hx | ⟨-, -, hx, -⟩
    · exact h.known.2.2 x hx
    · exact hx
  · obtain ⟨g₁, hg₁⟩ := hisgate hj
    obtain ⟨g₂, hg₂⟩ := hisgate hk
    exact h.gates j k g₁ g₂ hg₁ hg₂
  · by_cases hji : j = i <;> by_cases hki : k = i
    · rw [hji, hki]
    · rw [hji] at hj ⊢
      rw [some.inj (hj.symm.trans hself)] at hx
      exact absurd hx' ((hrec st hx).1 k x' hki ((hother hki).symm.trans hk)).1
    · rw [hki] at hk ⊢
      rw [some.inj (hk.symm.trans hself)] at hx'
      exact absurd hx ((hrec st hx').1 j x hji ((hother hji).symm.trans hj)).1
    · exact h.recording j k x x' st ((hother hji).symm.trans hj) ((hother hki).symm.trans hk) hx hx'
  · obtain ⟨r, hr, rfl⟩ := hrow hy
    rw [(u.same r).2] at hyst
    rcases hnew hx with rfl | ⟨j, -, hj⟩
    · exact (hrec st hst).2 r hr hyst
    · exact fun hd => h.closed x (mem_of_getElem? hj) st hst r hr hyst (u.deploying r hr hd)
  · rcases hnew hmem with hop | ⟨k, hki, hk⟩
    · obtain ⟨hno, hne⟩ := hfree r todo previous d hop.symm he
      by_cases hji : j = i
      · rw [hji] at hj
        rw [some.inj (hj.symm.trans hself), hno] at hst
        cases hst
      · exact hne j x ((hother hji).symm.trans hj) hst
    · by_cases hji : j = i
      · rw [hji] at hj
        rw [some.inj (hj.symm.trans hself)] at hst
        refine ((hrec _ hst).1 k _ hki hk).2 _ rfl ?_
        simp [Gate.holds, he]
      · exact h.free j x ((hother hji).symm.trans hj) r todo previous d (mem_of_getElem? hk) he hst
  · rcases hnew hg with hg | ⟨j, hne, hj⟩
    · exact hok g hg.symm
    · refine u.gateOk (h.gate g (mem_of_getElem? hj)) (hkeep j g hne hj) fun r hr hh => ?_
      rcases hheal r hr hh with hh | ⟨⟨g', rfl⟩, -⟩
      · exact hh
      · exact absurd (h.gates j i g g' hj hi) hne
  · rw [u.ids, u.autos]
    rcases hnew hp with hp | ⟨j, -, hj⟩
    · exact hroll p hp.symm n hn
    · exact h.rollback p (mem_of_getElem? hj) n hn
  · obtain ⟨r, hr, rfl⟩ := hrow hx
    rw [(u.same r).1, u.autos] at ha
    have hd₀ := u.deploying r hr hd
    obtain ⟨hkeep', hnote⟩ := hnotes r hr ha hd₀ hd
    rcases h.autos r hr ha hd₀ with hauto | ⟨r', todo, previous, hmem⟩
    · exact .inl (hkeep' hauto)
    · rw [(u.same r).1]
      rcases hold hmem with hmem | hop
      · exact .inr ⟨r', todo, previous, hmem⟩
      · exact .inl (hnote ⟨r', todo, previous, hop.symm⟩)
  · rcases habandoned x hx with hx | ⟨hh, ha, -, r, todo, d, hid, he, rfl⟩
    · obtain ⟨hh, ha, hred⟩ := h.abandoned x hx
      refine ⟨hh, u.autos ▸ ha, ?_⟩
      rcases hred with hred | ⟨r, todo, d, hid, he, hmem⟩
      · exact .inl (u.redeployed _ hred)
      · rcases hold hmem with hmem | hop
        · exact .inr ⟨r, todo, d, hid, he, hmem⟩
        · rcases hwit r todo x.2 d hop.symm he with ⟨d', he', rfl⟩ | hred
          · exact .inr ⟨r, todo, d', hid, he', hmem'⟩
          · exact .inl (hid ▸ hred)
    · exact ⟨hh, u.autos ▸ ha, .inr ⟨r, todo, d, hid, he, hmem'⟩⟩

/-! ## Without a write -/

theorem Update.refl (hrows : s'.rows = s.rows) (hautos : s'.autos = s.autos)
    (hover : s'.overtaken = s.overtaken) (hred : ∀ x ∈ s.redeployed, x ∈ s'.redeployed) :
    Update s s' id where
  rows := by rw [List.map_id, hrows]
  same _ := ⟨rfl, rfl⟩
  deploying _ _ := id
  autos := hautos
  overtaken := hover
  redeployed := hred

/-- What a gate knows, it knows as long as the releases are as they were. -/
theorem GateOk.refl (h : s.GateOk g) (u : Update s s' id) : s'.GateOk g :=
  u.gateOk h (fun _ _ _ _ _ => id) fun _ _ => id

/-- An operation goes on, and the releases are as they were. -/
theorem Inv.go (h : s.Inv) (hi : s.ops[i]? = some op) (hops : s'.ops = s.ops.set i op')
    (u : Update s s' id) (hended : s'.ended = s.ended) (habandoned : s'.abandoned = s.abandoned)
    (hgate : ∀ g, op' = .gate g → (∃ g', op = .gate g') ∧ s'.GateOk g) (hrec : op'.recording = none)
    (hroll : ∀ p, op' = .rollback p → ∀ n, p.new? = some n → n ∈ s.ids ∧ n ∉ s.autos)
    (hfree : ∀ r todo previous d, op' = .gate (.redeploy r todo previous d) → d.phase.early = true →
      op'.recording = none ∧ ∀ (j : Nat) (x : Op), s.ops[j]? = some x → x.recording ≠ some r.stack)
    (hnote : ∀ r todo previous new, op ≠ .gate (.note r todo previous new))
    (hwit : ∀ r todo previous d, op = .gate (.redeploy r todo previous d) → d.phase.early = true →
      (∃ d', d'.phase.early = true ∧ op' = .gate (.redeploy r todo previous d')) ∨
        (r.id, previous.composeSource) ∈ s'.redeployed) : s'.Inv := by
  refine h.move hi hops u (fun g hg => (hgate g hg).1) (fun _ _ =>
    .inl) ?_ ?_ (fun _ _ _ _ _ _ _ _ _ => id)
    ?_ hfree ?_ hroll ?_ ?_ hwit
  · exact fun r _ hend hnot => absurd (hended ▸ hend) hnot
  · exact fun id hid => h.known.1 id (hended ▸ hid)
  · intro st hst
    rw [hrec] at hst
    cases hst
  · exact fun g hg => (hgate g hg).2
  · refine fun r _ _ _ _ => ⟨id, ?_⟩
    rintro ⟨r', todo, previous, hop⟩
    exact absurd hop (hnote r' todo previous r.id)
  · exact fun x hx => .inl (habandoned ▸ hx)

/-- The gate is at fewer releases, and has decided nothing. -/
theorem GateOk.less {g' : Gate} (h : s.GateOk g) (hsub : g'.pending.Sublist g.pending)
    (hpromote : ∀ r todo, g' ≠ .promote r todo) (habandon : ∀ r todo p, g' ≠ .abandon r todo p)
    (hredeploy : ∀ r todo p d, g' ≠ .redeploy r todo p d)
    (hnote : ∀ r todo p n, g' ≠ .note r todo p n) :
    s.GateOk g' where
  pending r hr := h.pending r (hsub.subset hr)
  apart := h.apart.sublist (hsub.map _)
  promote r todo hg := absurd hg (hpromote r todo)
  abandon r todo previous hg := absurd hg (habandon r todo previous)
  redeploy r todo previous d hg := absurd hg (hredeploy r todo previous d)
  note r todo previous new hg := absurd hg (hnote r todo previous new)

/-- The gate goes on without a write. -/
theorem Inv.goGate (h : s.Inv) {g' : Gate} (hi : s.ops[i]? = some (.gate g))
    (hok : s.GateOk g') (hno : (Op.gate g').deploy? = none) (hroll : g.rolling = false) :
    (s.goto i (.gate g')).Inv := by
  refine h.go hi rfl (.refl rfl rfl rfl fun _ => id) rfl rfl ?_ ?_ ?_ ?_ ?_ ?_
  · rintro _ ⟨⟩
    exact ⟨⟨g, rfl⟩, hok.refl (.refl rfl rfl rfl fun _ => id)⟩
  · rw [Op.recording, hno]
    rfl
  · rintro _ ⟨⟩
  · rintro _ _ _ _ ⟨⟩
    cases hno
  · rintro r todo previous new ⟨⟩
    cases hroll
  · rintro r todo previous d ⟨⟩ he
    exact absurd (he.symm.trans hroll) (by decide)

theorem Inv.gateOk (h : s.Inv) (hi : s.ops[i]? = some (.gate g)) : s.GateOk g :=
  h.gate g (mem_of_getElem? hi)

/-- An operation ends, or is a rollback that has made nothing. -/
theorem Inv.goOther (h : s.Inv) (hi : s.ops[i]? = some op)
    (hop : ∀ g, op = .gate g → g.rolling = false) (hgate : ∀ g, op' ≠ .gate g)
    (hrec : op'.recording = none) (hroll : ∀ p, op' = .rollback p → p.new? = none) :
    (s.goto i op').Inv := by
  refine h.go hi rfl (.refl rfl rfl rfl fun _ => id) rfl rfl ?_ hrec ?_ ?_ ?_ ?_
  · exact fun g hg => absurd hg (hgate g)
  · intro p hp n hn
    rw [hroll p hp] at hn
    cases hn
  · exact fun _ _ _ _ hx => absurd hx (hgate _)
  · rintro r todo previous new rfl
    exact absurd (hop _ rfl) (by simp [Gate.rolling])
  · rintro r todo previous d rfl he
    exact absurd (he.symm.trans (hop _ rfl)) (by decide)

theorem Inv.find (h : s.Inv) {row : Option Release} (hs : s.find i row = some s') : s'.Inv := by
  unfold State.find at hs
  split at hs
  · next releaseId hi =>
      have hop : ∀ g, Op.rollback (.target releaseId) = .gate g → g.rolling = false := by
        rintro g ⟨⟩
      cases row with
      | none => exact some.inj hs ▸ h.goOther hi hop (by simp) rfl (by simp)
      | some r =>
        simp only at hs
        split_ifs at hs
        refine some.inj hs ▸ h.goOther hi hop (by simp) rfl ?_
        rintro _ ⟨⟩
        rfl
  · next target hi =>
      split_ifs at hs
      refine some.inj hs ▸ h.goOther hi (by simp) (by simp) rfl ?_
      rintro _ ⟨⟩
      rfl
  · next r todo hi =>
      split_ifs at hs with hlatest
      have hok := h.gateOk hi
      refine some.inj hs ▸ h.goGate hi ?_ ?_ rfl
      · cases row with
        | none =>
          exact hok.less (List.Sublist.refl _) (by simp [consider]) (by simp [consider])
            (by simp [consider]) (by simp [consider])
        | some previous =>
          simp only [consider]
          split_ifs with hauto
          · exact hok.less (List.Sublist.refl _) (by simp) (by simp) (by simp) (by simp)
          · refine
              { hok with
                promote := by simp
                abandon := ?_
                redeploy := by simp
                note := by simp }
            rintro _ _ _ ⟨⟩
            refine ⟨?_, fun ha => ?_⟩
            · have hprop := hlatest.2.1
              simp only [Bool.and_eq_true, decide_eq_true_eq] at hprop
              exact hprop.2
            · rw [(hok.pending r (by simp [Gate.pending])).auto ha] at hauto
              exact hauto rfl
      · unfold consider
        split
        · rfl
        · split_ifs <;> rfl
  · cases hs

/-- The releases that the gate reads are each the last of its stack. -/
theorem Inv.listed (h : s.Inv) (hi : s.ops[i]? = some (.gate .list))
    (ht : IsTodo s.rows todo) : (s.goto i (.gate (.next todo))).Inv := by
  have hstatus {r : Release} (hr : r ∈ todo) : r.status = .deploying := by
    simpa using Sql.IsPage.holds ht hr
  refine h.goGate hi ?_ rfl rfl
  refine
    { pending := fun r hr => ?_
      apart := ?_
      promote := by simp
      abandon := by simp
      redeploy := by simp
      note := by simp }
  · have hmem := Sql.IsPage.mem ht hr
    refine ⟨⟨r, hmem, rfl, rfl, hstatus hr⟩, fun ha => ?_⟩
    rcases h.autos r hmem ha (hstatus hr) with hauto | ⟨r', todo', previous, hnote⟩
    · exact hauto
    · obtain ⟨j, hj⟩ := mem_iff_getElem?.1 hnote
      rw [h.gates i j _ _ hi hj, hj] at hi
      cases hi
  · refine (Sql.IsPage.nodup ht).map_on fun r hr r' hr' hst => ?_
    exact h.eq_of_deploying (Sql.IsPage.mem ht hr) (Sql.IsPage.mem ht hr') hst (hstatus hr)
      (hstatus hr')

theorem Inv.judge (h : s.Inv) (hs : s.step (.judge i) = some s') : s'.Inv := by
  simp only [step] at hs
  split at hs
  · next hi =>
      exact some.inj hs ▸ h.goOther hi (by rintro _ ⟨⟩; rfl) (by simp) rfl (by simp)
  · next r todo hi =>
      have hok := h.gateOk hi
      split_ifs at hs
      · exact some.inj hs ▸ h.goGate hi (hok.less (sublist_cons_self r todo)
          (by simp) (by simp) (by simp) (by simp)) rfl rfl
      · exact some.inj hs ▸ h.goGate hi (hok.less (List.Sublist.refl _)
          (by simp) (by simp) (by simp) (by simp)) rfl rfl
  · cases hs

theorem Inv.summarized (h : s.Inv) {elapsedMs : Nat}
    (health : Health) (hi : s.ops[i]? = some (.gate (.summary r todo elapsedMs))) :
    (s.goto i (.gate (decide r todo elapsedMs health))).Inv := by
  have hok := h.gateOk hi
  refine h.goGate hi ?_ (by unfold decide; split <;> rfl) rfl
  unfold decide
  split
  · exact hok.less (sublist_cons_self r todo) (by simp) (by simp) (by simp) (by simp)
  · exact hok.less (List.Sublist.refl _) (by simp) (by simp) (by simp) (by simp)
  · exact hok.less (List.Sublist.refl _) (by simp) (by simp) (by simp) (by simp)

theorem Inv.alarmed (h : s.Inv) (reached : Bool) (hi : s.ops[i]? = some (.gate (.alarm r todo))) :
    (s.goto i (.gate (if reached = false then .next todo
      else if (gateOf r.healthGateJson).autoRollback then .previous r todo
      else .fail r todo))).Inv := by
  have hok := h.gateOk hi
  refine h.goGate hi ?_ (by split_ifs <;> rfl) rfl
  split_ifs
  · exact hok.less (sublist_cons_self r todo) (by simp) (by simp) (by simp) (by simp)
  · exact hok.less (List.Sublist.refl _) (by simp) (by simp) (by simp) (by simp)
  · exact hok.less (List.Sublist.refl _) (by simp) (by simp) (by simp) (by simp)

/-! ## A deploy -/

theorem deploy?_cases (h : op.deploy? = some d) : op = .deploy d ∨
    (∃ target head, op = .rollback (.deploy target head d)) ∨
      ∃ r todo previous, op = .gate (.redeploy r todo previous d) := by
  unfold Op.deploy? at h
  split at h
  · exact .inl (congrArg Op.deploy (some.inj h))
  · next target head d' => exact .inr (.inl ⟨target, head, by rw [some.inj h]⟩)
  · next r todo previous d' => exact .inr (.inr ⟨r, todo, previous, by rw [some.inj h]⟩)
  · cases h

theorem deploy?_withDeploy (h : op.deploy? = some d) (d' : Deploy) :
    (op.withDeploy d').deploy? = some d' := by
  rcases deploy?_cases h with rfl | ⟨_, _, rfl⟩ | ⟨_, _, _, rfl⟩ <;> rfl

theorem at_deploy (h : (s.ops[i]?.bind fun op => op.deploy?.map (op, ·)) = some (op, d)) :
    s.ops[i]? = some op ∧ op.deploy? = some d := by
  obtain ⟨op', hop, hmap⟩ := bind_eq_some_iff.1 h
  obtain ⟨d', hd, heq⟩ := map_eq_some_iff.1 hmap
  cases heq
  exact ⟨hop, hd⟩

/-- A deploy goes on before it records. -/
theorem Inv.goDeploy (h : s.Inv) {d' : Deploy}
    (hi : s.ops[i]? = some op) (hd : op.deploy? = some d)
    (hops : s'.ops = s.ops.set i (op.withDeploy d')) (u : Update s s' id)
    (hended : s'.ended = s.ended)
    (habandoned : s'.abandoned = s.abandoned) (hst : d'.stack = d.stack)
    (hc : d'.composeSource = d.composeSource) (hrec : (op.withDeploy d').recording = none)
    (hearly : d'.phase.early = true → d.phase.early = true)
    (hlate : ∀ r, op.judged? = some r → d'.phase.early = false →
      (r.id, d.composeSource) ∈ s'.redeployed) : s'.Inv := by
  refine h.go hi hops u hended habandoned ?_ hrec ?_ ?_ ?_ ?_
  · intro g hg
    rcases deploy?_cases hd with rfl | ⟨_, _, rfl⟩ | ⟨r, todo, previous, rfl⟩
    · cases hg
    · cases hg
    · cases hg
      have hok := (h.gateOk hi).refl u
      refine ⟨⟨_, rfl⟩, hok.pending, hok.apart, by simp, by simp, ?_, by simp⟩
      rintro _ _ _ _ ⟨⟩
      obtain ⟨hst₀, hc₀, hn, he, -⟩ := hok.redeploy r todo previous d rfl
      exact ⟨hst.trans hst₀, hc.trans hc₀, hn, fun hx => he (hearly hx),
        fun hx => hc₀ ▸ hlate r rfl hx⟩
  · intro p hp n hn
    rcases deploy?_cases hd with rfl | ⟨_, _, rfl⟩ | ⟨r, todo, previous, rfl⟩ <;> cases hp
    cases hn
  · intro r todo previous d₁ hx he
    refine ⟨hrec, fun j x hj => ?_⟩
    rcases deploy?_cases hd with rfl | ⟨_, _, rfl⟩ | ⟨r', todo', previous', rfl⟩
    · cases hx
    · cases hx
    · cases hx
      exact h.free j x hj r todo previous d (mem_of_getElem? hi) (hearly he)
  · rintro r todo previous new rfl
    cases hd
  · rintro r todo previous _ rfl he
    cases hd
    cases hx : d'.phase.early with
    | true => exact .inl ⟨d', hx, rfl⟩
    | false =>
      have hc₀ := ((h.gateOk hi).redeploy r todo previous d rfl).2.1
      exact .inr (hc₀ ▸ hlate r rfl hx)

theorem recording_withDeploy {d' : Deploy} (h : op.deploy? = some d)
    (hp : ∀ gate, d'.phase ≠ .create gate) : (op.withDeploy d').recording = none := by
  rw [Op.recording, deploy?_withDeploy h, bind_some]
  split
  · next gate hgate => exact absurd hgate (hp gate)
  · rfl

theorem Inv.planned (h : s.Inv) {stack : Stack} {c : String}
    (hi : s.ops[i]? = some op) (hd : op.deploy? = some ⟨stack, c, .plan⟩) (gate : Option HealthGate)
    (n : Nat) : (s.goto i (op.withDeploy ⟨stack, c, .dispatch gate n⟩)).Inv :=
  h.goDeploy hi hd rfl (.refl rfl rfl rfl fun _ => id) rfl rfl rfl rfl
    (recording_withDeploy hd (by simp)) (fun _ => rfl)
    (fun _ _ hx => absurd hx (by simp [DeployPhase.early]))

theorem Inv.dispatched (h : s.Inv) {left : Nat} (hi : s.ops[i]? = some op)
    (hd : op.deploy? = some d) (he : d.phase.early = true) : (s.dispatch i op d gate left).Inv := by
  have hover : (s.dispatch i op d gate left).overtaken = s.overtaken := by
    unfold dispatch
    cases hj : op.judged? with
    | none => rfl
    | some r =>
      rcases deploy?_cases hd with rfl | ⟨_, _, rfl⟩ | ⟨r', todo, previous, rfl⟩
      · cases hj
      · cases hj
      · cases hj
        have hlast := ((h.gateOk hi).redeploy r todo previous d rfl).2.2.2.1 he
        simp [goto, hlast]
  have hrest : (s.dispatch i op d gate left).rows = s.rows ∧
      (s.dispatch i op d gate left).autos = s.autos ∧
      (s.dispatch i op d gate left).redeployed = s.redeployed ∧
      (s.dispatch i op d gate left).ended = s.ended ∧
      (s.dispatch i op d gate left).abandoned = s.abandoned ∧
      (s.dispatch i op d gate left).ops =
        s.ops.set i (op.withDeploy { d with phase := .dispatch gate left }) := by
    unfold dispatch
    cases op.judged? <;> exact ⟨rfl, rfl, rfl, rfl, rfl, rfl⟩
  obtain ⟨hrows, hautos, hred, hended, habandoned, hops⟩ := hrest
  refine h.goDeploy hi hd hops (.refl hrows hautos hover fun _ hx => hred ▸ hx) hended habandoned
    rfl rfl (recording_withDeploy hd (by simp)) (fun _ => he) ?_
  exact fun _ _ hx => absurd hx (by simp [DeployPhase.early])

theorem Inv.dispatchedAll (h : s.Inv)
    (hi : s.ops[i]? = some op) (hd : op.deploy? = some d) : (s.dispatchedAll i op d gate).Inv := by
  have hrest : (s.dispatchedAll i op d gate).rows = s.rows ∧
      (s.dispatchedAll i op d gate).autos = s.autos ∧
      (s.dispatchedAll i op d gate).overtaken = s.overtaken ∧
      (s.dispatchedAll i op d gate).ended = s.ended ∧
      (s.dispatchedAll i op d gate).abandoned = s.abandoned ∧
      (s.dispatchedAll i op d gate).ops =
        s.ops.set i (op.withDeploy { d with phase := .supersede gate }) ∧
      ∀ x ∈ s.redeployed, x ∈ (s.dispatchedAll i op d gate).redeployed := by
    unfold State.dispatchedAll
    cases op.judged? with
    | none => exact ⟨rfl, rfl, rfl, rfl, rfl, rfl, fun _ => id⟩
    | some r => exact ⟨rfl, rfl, rfl, rfl, rfl, rfl, fun _ => mem_cons_of_mem _⟩
  obtain ⟨hrows, hautos, hover, hended, habandoned, hops, hred⟩ := hrest
  refine h.goDeploy hi hd hops (.refl hrows hautos hover hred) hended habandoned
    rfl rfl (recording_withDeploy hd (by simp)) ?_ ?_
  · simp [DeployPhase.early]
  · intro r hr _
    unfold State.dispatchedAll
    rw [hr]
    exact mem_cons_self

theorem Inv.deployFails (h : s.Inv) (hi : s.ops[i]? = some op) (hd : op.deploy? = some d)
    (he : d.phase.early = true) (hok : s.Careful (.deployFails i)) : (s.goto i op.threw).Inv := by
  rcases deploy?_cases hd with rfl | ⟨_, _, rfl⟩ | ⟨r, todo, previous, rfl⟩
  · exact h.goOther hi (by simp) (by simp [Op.threw]) rfl (by simp [Op.threw])
  · exact h.goOther hi (by simp) (by simp [Op.threw]) rfl (by simp [Op.threw])
  · exact absurd (he.symm.trans (hok _ hi)) (by decide)

theorem Inv.recordFails (h : s.Inv) (hi : s.ops[i]? = some op)
    (hd : op.deploy? = some d) (he : d.phase.early = false) :
    (s.goto i (op.returned none)).Inv := by
  rcases deploy?_cases hd with rfl | ⟨target, head, rfl⟩ | ⟨r, todo, previous, rfl⟩
  · exact h.goOther hi (by simp) (by simp [Op.returned]) rfl (by simp [Op.returned])
  · cases head with
    | none => exact h.goOther hi (by simp) (by simp [Op.returned]) rfl (by simp [Op.returned])
    | some head =>
      refine h.goOther hi (by simp) (by simp [Op.returned, Option.filter]) rfl ?_
      rintro _ ⟨⟩
      rfl
  · have hok := h.gateOk hi
    exact h.goGate hi (hok.less (List.Sublist.refl _) (by simp) (by simp) (by simp)
      (by simp)) rfl he

/-! ## A release is recorded -/

/-- What ends now, is of the kind that ends. -/
theorem Inv.of_ended (h : s.Inv) {p : Release → Bool} (hr : r ∈ s.rows)
    (hend : r.id ∈ s.ended ++ (s.rows.filter p).map Release.id) (hnot : r.id ∉ s.ended) :
    p r = true := by
  rcases mem_append.1 hend with hend | hend
  · exact absurd hend hnot
  · obtain ⟨x, hx, hid⟩ := mem_map.1 hend
    obtain ⟨hmem, hpx⟩ := mem_filter.1 hx
    rw [← inj_on_of_nodup_map h.ids hmem hr hid]
    exact hpx

theorem Inv.ended_known (h : s.Inv) {p : Release → Bool} :
    ∀ id ∈ s.ended ++ (s.rows.filter p).map Release.id, id ∈ s.ids := by
  intro id hid
  rcases mem_append.1 hid with hid | hid
  · exact h.known.1 id hid
  · obtain ⟨x, hx, rfl⟩ := mem_map.1 hid
    exact mem_map_of_mem (mem_filter.1 hx).1

/-- The row of a pending release. -/
theorem Inv.eq_of_pending (h : s.Inv) (hp : s.Pending r) (hr' : r' ∈ s.rows)
    (hid : r'.id = r.id) : r'.stack = r.stack ∧ r'.status = .deploying := by
  obtain ⟨x, hx, hxid, hst, hd⟩ := hp.row
  rw [inj_on_of_nodup_map h.ids hr' hx (hid.trans hxid.symm)]
  exact ⟨hst, hd⟩

theorem pending_holds (hr : r ∈ g.pending) : r.stack ∈ g.holds := by
  unfold Gate.holds
  split
  · split_ifs
    · exact mem_cons_of_mem _ (mem_map_of_mem hr)
    · exact mem_map_of_mem hr
  · exact mem_map_of_mem hr

theorem Inv.superseded (h : s.Inv) {stack : Stack} {c : String} (hi : s.ops[i]? = some op)
    (hd : op.deploy? = some ⟨stack, c, .supersede gate⟩) (hok : s.Careful (.superseded i)) :
    ((s.close (fun r => r.stack = stack && r.status = .deploying) (setStatus .superseded)).goto i
      (op.withDeploy ⟨stack, c, .create gate⟩)).Inv := by
  have halone := hok op _ hi hd
  set f : Release → Release := fun r =>
    if (r.stack = stack && r.status = .deploying) then setStatus .superseded r else r with hf
  have hpos {r : Release} (hst : r.stack = stack) (hs : r.status = .deploying) :
      f r = setStatus .superseded r := if_pos (by simp [hst, hs])
  have hneg {r : Release} (hne : ¬ (r.stack = stack ∧ r.status = .deploying)) : f r = r :=
    if_neg (by simpa using hne)
  have hout {r : Release} (hst : r.stack ≠ stack) : f r = r := hneg fun hand => hst hand.1
  have hin {r : Release} (hst : r.stack = stack) : (f r).status ≠ .deploying := by
    by_cases hs : r.status = .deploying
    · rw [hpos hst hs]
      simp [setStatus]
    · rwa [hneg fun hand => hs hand.2]
  have hheal {r : Release} (hh : (f r).status = .healthy) : r.status = .healthy := by
    by_cases hand : r.stack = stack ∧ r.status = .deploying
    · rw [hpos hand.1 hand.2] at hh
      cases hh
    · rwa [hneg hand] at hh
  have u : Update s ((s.close (fun r => r.stack = stack && r.status = .deploying)
      (setStatus .superseded)).goto i (op.withDeploy ⟨stack, c, .create gate⟩)) f := by
    refine ⟨rfl, fun r => ?_, fun r _ hd => ?_, rfl, rfl, fun _ => id⟩
    · by_cases hand : r.stack = stack ∧ r.status = .deploying
      · rw [hpos hand.1 hand.2]
        exact ⟨rfl, rfl⟩
      · rw [hneg hand]
        exact ⟨rfl, rfl⟩
    · by_cases hst : r.stack = stack
      · exact absurd hd (hin hst)
      · rwa [hout hst] at hd
  refine h.move hi rfl u ?_ (fun r _ hh => .inl (hheal hh)) ?_
    h.ended_known ?_ ?_ ?_ ?_ ?_ ?_
    (fun x hx => .inl hx) ?_
  · intro g hg
    rcases deploy?_cases hd with rfl | ⟨_, _, rfl⟩ | ⟨r, todo, previous, rfl⟩
    · cases hg
    · cases hg
    · exact ⟨_, rfl⟩
  · intro r hr hend hnot
    have hp := h.of_ended hr hend hnot
    have hstatus : (f r).status = .superseded := by
      simp only [hf, hp, if_true]
      rfl
    simp [hstatus]
  · intro j g hne hj r hr r' hr' hid hdep
    rw [hout]
    · exact hdep
    · rw [(h.eq_of_pending ((h.gateOk hj).pending r hr) hr' hid).1]
      exact fun heq => (halone j _ hne hj).2 g rfl (heq ▸ pending_holds hr)
  · intro st hst
    rw [Op.recording, deploy?_withDeploy hd] at hst
    obtain rfl : stack = st := some.inj hst
    exact ⟨halone, fun r _ hrst => hin hrst⟩
  · rintro r todo previous d hx he
    rcases deploy?_cases hd with rfl | ⟨_, _, rfl⟩ | ⟨r', todo', previous', rfl⟩
    · cases hx
    · cases hx
    · cases hx
      cases he
  · intro g hg
    rcases deploy?_cases hd with rfl | ⟨_, _, rfl⟩ | ⟨r, todo, previous, rfl⟩
    · cases hg
    · cases hg
    · cases hg
      have hgate := h.gateOk hi
      obtain ⟨hst, hc, hn, -, hl⟩ := hgate.redeploy r todo previous _ rfl
      refine ⟨fun t ht => ?_, hgate.apart, by simp, by simp, ?_, by simp⟩
      · refine u.pending (hgate.pending t ht) fun r' hr' hid hdep => ?_
        rw [hout]
        · exact hdep
        · rw [(h.eq_of_pending (hgate.pending t ht) hr' hid).1]
          intro heq
          have hst' : stack = r.stack := hst
          exact hn (by rw [← hst', ← heq]; exact mem_map_of_mem ht)
      · rintro _ _ _ _ ⟨⟩
        exact ⟨hst, hc, hn, by simp [DeployPhase.early], fun _ => hl rfl⟩
  · intro p hp n hn
    rcases deploy?_cases hd with rfl | ⟨_, _, rfl⟩ | ⟨r, todo, previous, rfl⟩ <;> cases hp
    cases hn
  · intro r hr _ _ hdep
    have hst : r.stack ≠ stack := fun hst => hin hst hdep
    rw [hout hst]
    refine ⟨id, ?_⟩
    rintro ⟨r', todo, previous, rfl⟩
    cases hd
  · rintro r todo previous d rfl he
    cases hd
    cases he

/-! ## A write of the gate -/

/-- One release is written. -/
theorem Update.one (id : String) (f : Release → Release)
    (hrows : s'.rows = (s.update (·.id = id) f).rows)
    (hf : ∀ r, (f r).id = r.id ∧ (f r).stack = r.stack)
    (hstatus : ∀ r, (f r).status = .deploying → r.status = .deploying) (hautos : s'.autos = s.autos)
    (hover : s'.overtaken = s.overtaken) (hred : s'.redeployed = s.redeployed) :
    Update s s' fun r => if r.id = id then f r else r where
  rows := by
    rw [hrows]
    simp [State.update]
  same r := by
    split_ifs
    · exact hf r
    · exact ⟨rfl, rfl⟩
  deploying r _ hd := by
    split_ifs at hd
    · exact hstatus r hd
    · exact hd
  autos := hautos
  overtaken := hover
  redeployed _ hx := hred ▸ hx

/-- The releases that follow are others. -/
theorem Inv.ne_of_pending (h : s.Inv) {t : Release}
    (hok : s.GateOk g) (hg : g.pending = r :: todo) (ht : t ∈ todo) : t.id ≠ r.id := by
  intro hid
  have hpt := hok.pending t (by simp [hg, ht])
  have hpr := hok.pending r (by simp [hg])
  obtain ⟨x, hx, hxid, hst, -⟩ := hpt.row
  have hst' := (h.eq_of_pending hpr hx (hxid.trans hid)).1
  have hapart := hok.apart
  rw [hg, map_cons, nodup_cons] at hapart
  exact hapart.1 (by rw [← hst', hst]; exact mem_map_of_mem ht)

/-- The gate goes on to the next release, and only this one was written. -/
theorem Inv.tail (h : s.Inv)
    {f : Release → Release} (hok : s.GateOk g) (hg : g.pending = r :: todo) (u : Update s s' f)
    (hf : ∀ r', r'.id ≠ r.id → f r' = r') :
    (∀ t ∈ todo, s'.Pending t) ∧ (todo.map Release.stack).Nodup ∧
    r.stack ∉ todo.map Release.stack := by
  have hapart := hok.apart
  rw [hg, map_cons, nodup_cons] at hapart
  refine ⟨fun t ht => ?_, hapart.2, hapart.1⟩
  refine u.pending (hok.pending t (by simp [hg, ht])) fun r' _ hid hd => ?_
  rw [hf r' (hid ▸ h.ne_of_pending hok hg ht)]
  exact hd

theorem Inv.only (h : s.Inv) {j : Nat} {g' : Gate} (hi : s.ops[i]? = some (.gate g)) (hj : j ≠ i)
    (hg : s.ops[j]? = some (.gate g')) : False :=
  hj (h.gates j i g' g hg hi)

theorem Inv.demote (h : s.Inv) (hi : s.ops[i]? = some (.gate (.demote r todo))) :
    ((s.close (fun r' => r'.stack = r.stack && r'.status = .healthy && r'.id ≠ r.id)
      (setStatus .superseded)).goto i (.gate (.promote r todo))).Inv := by
  have hok := h.gateOk hi
  set f : Release → Release := fun r' =>
    if (r'.stack = r.stack && r'.status = .healthy && r'.id ≠ r.id) then setStatus .superseded r'
    else r' with hf
  have hpos {x : Release} (hx : (x.stack = r.stack ∧ x.status = .healthy) ∧ x.id ≠ r.id) :
      f x = setStatus .superseded x := if_pos (by simp [hx])
  have hneg {x : Release} (hx : ¬ ((x.stack = r.stack ∧ x.status = .healthy) ∧ x.id ≠ r.id)) :
      f x = x := if_neg (by simpa using hx)
  have hkeep {x : Release} (hx : x.status = .deploying) : f x = x :=
    hneg fun hand => by simp [hx] at hand
  have u : Update s ((s.close (fun r' => r'.stack = r.stack && r'.status = .healthy && r'.id ≠ r.id)
      (setStatus .superseded)).goto i (.gate (.promote r todo))) f := by
    refine ⟨rfl, fun x => ?_, fun x _ hd => ?_, rfl, rfl, fun _ => id⟩
    all_goals by_cases hand : (x.stack = r.stack ∧ x.status = .healthy) ∧ x.id ≠ r.id
    · rw [hpos hand]
      exact ⟨rfl, rfl⟩
    · rw [hneg hand]
      exact ⟨rfl, rfl⟩
    · rw [hpos hand] at hd
      cases hd
    · rwa [hneg hand] at hd
  refine h.move hi rfl u (fun _ _ => ⟨_, rfl⟩) ?_ ?_ h.ended_known
    (fun j g hj hg => (h.only hi hj hg).elim) ?_ (by simp) ?_ ?_ ?_ (fun _ => .inl) ?_
  · intro x _ hh
    left
    by_cases hand : (x.stack = r.stack ∧ x.status = .healthy) ∧ x.id ≠ r.id
    · exact hand.1.2
    · rwa [hneg hand] at hh
  · intro x hx hend hnot
    have hp := h.of_ended hx hend hnot
    rw [hpos (by simpa using hp)]
    exact ⟨by simp [setStatus], by simp [setStatus]⟩
  · rintro st ⟨⟩
  · rintro g ⟨⟩
    refine ⟨fun t ht => u.pending (hok.pending t ht) fun x _ _ hd =>
      ?_, hok.apart, ?_, by simp, by simp,
      by simp⟩
    · rw [hkeep hd]
      exact hd
    · rintro _ _ ⟨⟩ x hx hst hh
      rw [u.rows] at hx
      obtain ⟨y, -, rfl⟩ := mem_map.1 hx
      by_contra hne
      have hy : f y = y := by
        by_cases hand : (y.stack = r.stack ∧ y.status = .healthy) ∧ y.id ≠ r.id
        · rw [hpos hand] at hh
          cases hh
        · exact hneg hand
      rw [hy] at hst hh hne
      rw [hpos ⟨⟨hst, hh⟩, hne⟩] at hy
      rw [← hy] at hh
      cases hh
  · rintro p ⟨⟩
  · intro x _ _ hd _
    rw [hkeep hd]
    exact ⟨id, fun ⟨_, _, _, hop⟩ => by cases hop⟩
  · rintro _ _ _ _ ⟨⟩

/-- The gate writes how a release ended and goes on to the next. -/
theorem Inv.judged (h : s.Inv) {f : Release → Release} (hi : s.ops[i]? = some (.gate g))
    (hg : g.pending = r :: todo) (hno : (Op.gate g).deploy? = none)
    (hnote : ∀ r todo previous new, g ≠ .note r todo previous new)
    (hf : ∀ x, (f x).id = x.id ∧ (f x).stack = x.stack) (hstatus : ∀ x, (f x).status ≠ .deploying)
    (hheal : (∀ x, (f x).status ≠ .healthy) ∨
      ∀ y ∈ s.rows, y.stack = r.stack → y.status = .healthy → y.id = r.id) :
    ((s.update (·.id = r.id) f).goto i (.gate (.next todo))).Inv := by
  have hok := h.gateOk hi
  have u : Update s ((s.update (·.id = r.id) f).goto i (.gate (.next todo))) _ :=
    .one r.id f rfl hf (fun x hd => absurd hd (hstatus x)) rfl rfl rfl
  have hpending := hok.pending r (by simp [hg])
  obtain ⟨htodo, hapart, -⟩ := h.tail hok hg u fun r' hne => if_neg hne
  refine h.move hi rfl u (fun _ _ => ⟨_, rfl⟩) ?_ (fun x _ hend hnot => absurd hend hnot) h.known.1
    (fun j g hj hg => (h.only hi hj hg).elim) ?_ (by simp) ?_ ?_ ?_ (fun _ => .inl) ?_
  · intro x hx hh
    by_cases hid : x.id = r.id
    · rw [if_pos hid] at hh
      obtain ⟨hst, hd⟩ := h.eq_of_pending hpending hx hid
      refine .inr ⟨⟨_, rfl⟩, hd, fun y hy hyst hyh => ?_⟩
      rw [hid]
      exact hheal.resolve_left (fun hnot => hnot x hh) y hy (hyst.trans hst) hyh
    · left
      rwa [if_neg hid] at hh
  · rintro st ⟨⟩
  · rintro g ⟨⟩
    exact ⟨htodo, hapart, by simp, by simp, by simp, by simp⟩
  · rintro p ⟨⟩
  · intro x _ _ _ hd
    by_cases hid : x.id = r.id
    · rw [if_pos hid] at hd
      exact absurd hd (hstatus x)
    · rw [if_neg hid]
      exact ⟨id, fun ⟨_, _, _, hop⟩ => absurd (Op.gate.inj hop) (hnote _ _ _ _)⟩
  · rintro _ _ _ _ ⟨⟩
    cases hno

theorem Inv.abandon (h : s.Inv) {previous : Release} (notes : String)
    (hi : s.ops[i]? = some (.gate (.abandon r todo previous))) :
    ({ s.close (·.id = r.id) fun r => { r with status := .rolledBack, notes := some notes } with
      abandoned := (r.id, previous) :: s.abandoned }.goto i
        (.gate (.redeploy r todo previous ⟨r.stack, previous.composeSource, .plan⟩))).Inv := by
  have hok := h.gateOk hi
  have u : Update s ({ s.close (·.id = r.id) fun r =>
      { r with status := .rolledBack, notes := some notes } with
      abandoned := (r.id, previous) :: s.abandoned }.goto i
        (.gate (.redeploy r todo previous ⟨r.stack, previous.composeSource, .plan⟩))) _ :=
    .one r.id (fun r => { r with status := .rolledBack, notes := some notes }) rfl
      (fun _ => ⟨rfl, rfl⟩)
      (by simp) rfl rfl rfl
  obtain ⟨htodo, hapart, hst⟩ := h.tail hok rfl u fun r' hne => if_neg hne
  obtain ⟨x, hx, hxid, hxst, hxd⟩ := (hok.pending r (by simp [Gate.pending])).row
  obtain ⟨hhealthy, hauto⟩ := hok.abandon r todo previous rfl
  refine h.move hi rfl u (fun _ _ => ⟨_, rfl⟩) ?_ ?_
    h.ended_known
    (fun j g hj hg => (h.only hi hj hg).elim) ?_ ?_ ?_ ?_ ?_ ?_ ?_
  · intro y hy hh
    left
    by_cases hid : y.id = r.id
    · rw [if_pos hid] at hh
      cases hh
    · rwa [if_neg hid] at hh
  · intro y hy hend hnot
    have hid : y.id = r.id := by simpa using h.of_ended hy hend hnot
    rw [if_pos hid]
    exact ⟨by simp, by simp⟩
  · rintro st ⟨⟩
  · rintro _ _ _ _ ⟨⟩ -
    refine ⟨rfl, fun j z hj hst' => ?_⟩
    exact h.closed z (mem_of_getElem? hj) _ hst' x hx hxst hxd
  · rintro g ⟨⟩
    refine ⟨htodo, hapart, by simp, by simp, ?_, by simp⟩
    rintro _ _ _ _ ⟨⟩
    refine ⟨rfl, rfl, hst, fun _ => ?_, by simp [DeployPhase.early]⟩
    rw [u.later, ← later_congr hxid hxst]
    exact h.last x hx hxd
  · rintro p ⟨⟩
  · intro y _ _ _ hd
    by_cases hid : y.id = r.id
    · rw [if_pos hid] at hd
      cases hd
    · rw [if_neg hid]
      exact ⟨id, fun ⟨_, _, _, hop⟩ => by cases hop⟩
  · intro y hy
    rcases mem_cons.1 hy with rfl | hy
    · right
      exact ⟨hhealthy, hauto, hxid ▸ mem_map_of_mem hx, r, todo, _, rfl, rfl, rfl⟩
    · exact .inl hy
  · rintro _ _ _ _ ⟨⟩

/-- What the gate notes is what it looks for. -/
theorem isAutoRollbackRelease_note (a b : String) : isAutoRollbackRelease
    (some ("Automatic rollback to release " ++ a ++ " (failed gate on " ++ b ++ ")")) = true := by
  unfold isAutoRollbackRelease
  rw [ isPrefixOf_iff_prefix]
  refine ⟨" to release ".toList ++ (a ++ " (failed gate on " ++ b ++ ")").toList, ?_⟩
  simp [String.toList_append]

theorem Inv.note (h : s.Inv) {previous : Release} {new : String}
    (hi : s.ops[i]? = some (.gate (.note r todo previous new))) :
    ((s.update (·.id = new) fun r' => { r' with
      notes := some ("Automatic rollback to release " ++ previous.id ++
        " (failed gate on " ++ r.id ++ ")") }).goto i (.gate (.next todo))).Inv := by
  have hok := h.gateOk hi
  have u : Update s ((s.update (·.id = new) fun r' => { r' with
      notes := some ("Automatic rollback to release " ++ previous.id ++
        " (failed gate on " ++ r.id ++ ")") }).goto i (.gate (.next todo))) _ :=
    .one new (fun r' => { r' with notes := some ("Automatic rollback to release " ++ previous.id ++
      " (failed gate on " ++ r.id ++ ")") }) rfl (fun _ => ⟨rfl, rfl⟩) (fun _ => id) rfl rfl rfl
  refine h.move hi rfl u (fun _ _ => ⟨_, rfl⟩) ?_ (fun x _ hend hnot => absurd hend hnot) h.known.1
    (fun j g hj hg => (h.only hi hj hg).elim) ?_ (by simp) ?_ ?_ ?_ (fun _ => .inl) ?_
  · intro x _ hh
    left
    split_ifs at hh <;> exact hh
  · rintro st ⟨⟩
  · rintro g ⟨⟩
    refine ⟨fun t ht => u.pending (hok.pending t ht) fun x _ _ hd =>
      ?_, hok.apart, by simp, by simp,
      by simp, by simp⟩
    split_ifs <;> exact hd
  · rintro p ⟨⟩
  · intro x _ _ _ _
    by_cases hid : x.id = new
    · rw [if_pos hid]
      exact ⟨fun _ => isAutoRollbackRelease_note _ _, fun _ => isAutoRollbackRelease_note _ _⟩
    · rw [if_neg hid]
      refine ⟨id, fun ⟨_, _, _, hop⟩ => ?_⟩
      cases hop
      exact absurd rfl hid
  · rintro _ _ _ _ ⟨⟩

/-! ## A write of a rollback -/

theorem Inv.mark (h : s.Inv) {target : Release} {head : String} {new : Option String}
    (hi : s.ops[i]? = some (.rollback (.mark target head new)))
    (hop : op' = .done ∨ ∃ n, new = some n ∧ op' = .rollback (.note target n))
    (hok : ∀ g, .gate g ∈ s.ops → ∀ r ∈ g.pending, r.id ≠ head) :
    ((s.close (·.id = head) (setStatus .rolledBack)).goto i op').Inv := by
  have u : Update s ((s.close (·.id = head) (setStatus .rolledBack)).goto i op') _ :=
    .one head (setStatus .rolledBack) rfl (fun _ => ⟨rfl, rfl⟩) (by simp [setStatus]) rfl rfl rfl
  refine h.move hi rfl u ?_ ?_ ?_ h.ended_known ?_ ?_ ?_ ?_ ?_ ?_
    (fun _ => .inl) ?_
  · rintro g rfl
    rcases hop with hop | ⟨_, _, hop⟩ <;> cases hop
  · intro x _ hh
    left
    by_cases hid : x.id = head
    · rw [if_pos hid] at hh
      cases hh
    · rwa [if_neg hid] at hh
  · intro x hx hend hnot
    have hid : x.id = head := by simpa using h.of_ended hx hend hnot
    rw [if_pos hid]
    exact ⟨by simp [setStatus], by simp [setStatus]⟩
  · intro j g _ hj r hr x _ hid hd
    rw [if_neg (hid ▸ hok g (mem_of_getElem? hj) r hr)]
    exact hd
  · intro st hst
    rcases hop with rfl | ⟨_, _, rfl⟩ <;> cases hst
  · rintro r todo previous d rfl
    rcases hop with hop | ⟨_, _, hop⟩ <;> cases hop
  · rintro g rfl
    rcases hop with hop | ⟨_, _, hop⟩ <;> cases hop
  · rintro p rfl n hn
    rcases hop with hop | ⟨m, hm, hop⟩ <;> cases hop
    exact h.rollback _ (mem_of_getElem? hi) n (hm.trans hn)
  · intro x _ _ _ hd
    by_cases hid : x.id = head
    · rw [if_pos hid] at hd
      cases hd
    · rw [if_neg hid]
      exact ⟨id, fun ⟨_, _, _, hx⟩ => by cases hx⟩
  · rintro _ _ _ _ ⟨⟩

theorem Inv.rollbackNote (h : s.Inv) {target : Release} {new : String} (notes : String)
    (hi : s.ops[i]? = some (.rollback (.note target new))) :
    ((s.update (·.id = new) fun r => { r with notes := some notes }).goto i .done).Inv := by
  have u : Update s ((s.update (·.id = new) fun r =>
    { r with notes := some notes }).goto i .done) _ :=
    .one new (fun r => { r with notes := some notes }) rfl (fun _ => ⟨rfl, rfl⟩) (fun _ =>
      id) rfl rfl rfl
  have hnew := (h.rollback _ (mem_of_getElem? hi) new rfl).2
  refine h.move hi rfl u (by simp) ?_ (fun x _ hend hnot => absurd hend hnot) h.known.1 ?_ ?_
    (by simp) ?_ ?_ ?_
    (fun _ => .inl) ?_
  · intro x _ hh
    left
    split_ifs at hh <;> exact hh
  · intro j g _ _ r _ x _ _ hd
    split_ifs <;> exact hd
  · rintro st ⟨⟩
  · rintro g ⟨⟩
  · rintro p ⟨⟩
  · intro x _ ha _ _
    have hne : x.id ≠ new := fun hid => hnew (hid ▸ ha)
    rw [if_neg hne]
    exact ⟨id, fun ⟨_, _, _, hx⟩ => by cases hx⟩
  · rintro _ _ _ _ ⟨⟩

/-! ## A release is created -/

theorem later_append {new : Release} (hrows : s'.rows = s.rows ++ [new])
    (hst : new.stack ≠ r.stack) : s'.later r = s.later r := by
  unfold later
  rw [hrows, filter_append]
  simp [hst]

theorem returned_recording (h : op.deploy? = some d) (new : Option String) :
    (op.returned new).recording = none := by
  rcases deploy?_cases h with rfl | ⟨_, head, rfl⟩ | ⟨_, _, _, rfl⟩
  · rfl
  · simp only [Op.returned]
    split <;> rfl
  · cases new <;> rfl

/-- What a deploy with a release returns to. -/
theorem returned_some (h : op.deploy? = some d) (id : String) :
    (∃ r todo previous, op = .gate (.redeploy r todo previous d) ∧
      op.returned (some id) = .gate (.note r todo previous id)) ∨
    op.judged? = none ∧ (∀ g, op ≠ .gate g) ∧ (∀ g, op.returned (some id) ≠ .gate g) ∧
      ∀ p, op.returned (some id) = .rollback p → p.new? = some id := by
  rcases deploy?_cases h with rfl | ⟨target, head, rfl⟩ | ⟨r, todo, previous, rfl⟩
  · exact .inr ⟨rfl, by simp, by simp [Op.returned], by simp [Op.returned]⟩
  · refine .inr ⟨rfl, by simp, ?_, ?_⟩
    · simp only [Op.returned]
      split <;> simp
    · simp only [Op.returned]
      split <;> simp_all [Rollback.new?]
  · exact .inl ⟨r, todo, previous, rfl, rfl⟩

theorem Inv.created (h : s.Inv) {id : String} (hi : s.ops[i]? = some op) (hd : op.deploy? = some d)
    (hp : d.phase = .create gate) (hid : id ∉ s.ids) : (s.create i op d gate id).Inv := by
  set new : Release := ⟨id, d.stack, d.composeSource, .deploying, gate, none, s.now⟩
  set s' := s.create i op d gate id with hs'
  have hrows : s'.rows = s.rows ++ [new] := rfl
  have hids : s'.ids = s.ids ++ [id] := by
    unfold State.ids
    rw [hrows, map_append]
    rfl
  have hself : s'.ops[i]? = some (op.returned (some id)) := Cells.set_self hi
  have hother {j : Nat} (hj : j ≠ i) : s'.ops[j]? = s.ops[j]? := Cells.set_ne hj
  have hrec : op.recording = some d.stack := by
    rw [Op.recording, hd, bind_some, hp]
  have hclosed : ∀ r ∈ s.rows, r.stack = d.stack → r.status ≠ .deploying :=
    h.closed op (mem_of_getElem? hi) _ hrec
  have hnew {x : Op} (hx : x ∈ s'.ops) := Cells.of_mem_set hx
  have hold {x : Op} (hx : x ∈ s.ops) (hne : x.deploy? ≠ some d) : x ∈ s'.ops :=
    (Cells.mem_set hx hi).resolve_right fun hxop => hne (hxop ▸ hd)
  have hautos {x : String} (hx : x ∈ s'.autos) : x ∈ s.autos ∨ x = id ∧ op.judged?.isSome := by
    have hx' : x ∈ if op.judged?.isSome then id :: s.autos else s.autos := hx
    split_ifs at hx' with hj
    · rcases mem_cons.1 hx' with rfl | hx'
      · exact .inr ⟨rfl, hj⟩
      · exact .inl hx'
    · exact .inl hx'
  have hmemId {x : String} (hx : x ∈ s.ids) : x ∈ s'.ids := hids ▸ mem_append_left _ hx
  have hautos' {x : String} (hx : x ∈ s.ids) (ha : x ∉ s.autos) : x ∉ s'.autos := by
    intro hx'
    rcases hautos hx' with hx' | ⟨rfl, -⟩
    · exact ha hx'
    · exact hid hx
  have hpending {r : Release} (hr : s.Pending r) : s'.Pending r := by
    obtain ⟨x, hx, hxid, hst, hdep⟩ := hr.row
    refine ⟨⟨x, mem_append_left _ hx, hxid, hst, hdep⟩, fun ha => ?_⟩
    rcases hautos ha with ha | ⟨heq, -⟩
    · exact hr.auto ha
    · refine absurd ?_ hid
      rw [← heq, ← hxid]
      exact mem_map_of_mem hx
  have hgate {g : Gate} (hg : .gate g ∈ s.ops) : s'.GateOk g := by
    have hok := h.gate g hg
    refine ⟨fun r hr => hpending (hok.pending r hr), hok.apart, ?_, ?_, ?_, ?_⟩
    · intro r todo hx x hxr hst hh
      rcases mem_append.1 hxr with hxr | hxr
      · exact hok.promote r todo hx x hxr hst hh
      · rw [mem_singleton.1 hxr] at hh
        cases hh
    · intro r todo previous hx
      obtain ⟨hh, ha⟩ := hok.abandon r todo previous hx
      refine ⟨hh, hautos' ?_ ha⟩
      obtain ⟨x, hxr, hxid, -⟩ := (hok.pending r (by simp [hx, Gate.pending])).row
      exact hxid ▸ mem_map_of_mem hxr
    · intro r todo previous d' hx
      obtain ⟨hst, hc, hn, he, hl⟩ := hok.redeploy r todo previous d' hx
      refine ⟨hst, hc, hn, fun hearly => ?_, hl⟩
      rw [later_append hrows]
      · exact he hearly
      · intro heq
        exact h.free i op hi r todo previous d' (hx ▸ hg) hearly (hrec.trans (congrArg some heq))
    · exact fun r todo previous n hx => hmemId (hok.note r todo previous n hx)
  refine
    { ids := ?_
      last := fun r hr hdep => ?_
      healthy := fun r hr r' hr' hst hh hh' => ?_
      ended := fun r hr hend => ?_
      known := ⟨fun x hx => hmemId (h.known.1 x hx), fun x hx => ?_,
        fun x hx => hmemId (h.known.2.2 x hx)⟩
      overtaken := h.overtaken
      gates := fun j k g g' hj hk => ?_
      recording := fun j k x x' st hj hk hx hx' => ?_
      closed := fun x hx st hst r hr hrst => ?_
      free := fun j x hj r todo previous d' hmem he hst => ?_
      gate := fun g hg => ?_
      rollback := fun p hmem n hn => ?_
      autos := fun r hr ha hdep => ?_
      abandoned := fun x hx => ?_ }
  · rw [hids]
    exact nodup_append.2 ⟨h.ids, by simp, fun x hx y hy hxy => by
      rw [mem_singleton] at hy
      exact hid (hy ▸ hxy ▸ hx)⟩
  · rcases mem_append.1 hr with hr | hr
    · rw [later_append hrows fun hst => hclosed r hr hst.symm hdep]
      exact h.last r hr hdep
    · rw [mem_singleton] at hr
      rw [later_eq_false, hr]
      intro x hx
      have hlast : [new].filter (·.stack = new.stack) = [new] := by simp
      rw [hrows, filter_append, hlast, List.getLast?_concat] at hx
      exact congrArg Release.id (some.inj hx).symm
  · rcases mem_append.1 hr with hr | hr <;> rcases mem_append.1 hr' with hr' | hr'
    · exact h.healthy r hr r' hr' hst hh hh'
    · rw [mem_singleton.1 hr'] at hh'
      cases hh'
    · rw [mem_singleton.1 hr] at hh
      cases hh
    · rw [mem_singleton.1 hr] at hh
      cases hh
  · rcases mem_append.1 hr with hr | hr
    · exact h.ended r hr hend
    · rw [mem_singleton.1 hr] at hend
      exact absurd (h.known.1 id hend) hid
  · rcases hautos hx with hx | ⟨rfl, -⟩
    · exact hmemId (h.known.2.1 x hx)
    · simp [hids]
  · have hisgate : ∀ (k : Nat) (g : Gate), s'.ops[k]? = some (.gate g) →
        ∃ g', s.ops[k]? = some (.gate g') := by
      intro k g hk
      by_cases hki : k = i
      · rw [hki] at hk ⊢
        rcases returned_some hd id with ⟨r, todo, previous, rfl, -⟩ | ⟨-, -, hng, -⟩
        · exact ⟨_, hi⟩
        · exact absurd (some.inj (hself.symm.trans hk)) (hng g)
      · exact ⟨g, (hother hki).symm.trans hk⟩
    obtain ⟨g₁, hg₁⟩ := hisgate j g hj
    obtain ⟨g₂, hg₂⟩ := hisgate k g' hk
    exact h.gates j k g₁ g₂ hg₁ hg₂
  · have hne : ∀ (k : Nat) (x : Op), s'.ops[k]? = some x → x.recording = some st → k ≠ i := by
      rintro k x hk hx rfl
      rw [← some.inj (hself.symm.trans hk), returned_recording hd] at hx
      cases hx
    exact h.recording j k x x' st ((hother (hne j x hj hx)).symm.trans hj)
      ((hother (hne k x' hk hx')).symm.trans hk) hx hx'
  · rcases hnew hx with rfl | ⟨j, hji, hj⟩
    · rw [returned_recording hd] at hst
      cases hst
    · rcases mem_append.1 hr with hr | hr
      · exact h.closed x (mem_of_getElem? hj) st hst r hr hrst
      · rw [mem_singleton.1 hr] at hrst
        exact absurd (h.recording j i x op st hj hi hst (hrec.trans (congrArg some hrst))) hji
  · have hji : j ≠ i := by
      rintro rfl
      rw [← some.inj (hself.symm.trans hj), returned_recording hd] at hst
      cases hst
    rcases hnew hmem with hop | ⟨k, -, hk⟩
    · rcases returned_some hd id with ⟨_, _, _, -, hret⟩ | ⟨-, -, hng, -⟩
      · rw [hret] at hop
        cases hop
      · exact hng _ hop.symm
    · exact h.free j x ((hother hji).symm.trans hj) r todo previous d' (mem_of_getElem? hk) he hst
  · rcases hnew hg with hg | ⟨j, -, hj⟩
    · rcases returned_some hd id with ⟨r, todo, previous, rfl, hret⟩ | ⟨-, -, hng, -⟩
      · cases hg
        have hok := hgate (mem_of_getElem? hi)
        exact ⟨hok.pending, hok.apart, by simp, by simp, by simp, by
          rintro _ _ _ _ ⟨⟩
          simp [hids]⟩
      · exact absurd hg.symm (hng g)
    · exact hgate (mem_of_getElem? hj)
  · rcases hnew hmem with hop | ⟨j, -, hj⟩
    · rcases returned_some hd id with ⟨_, _, _, -, hret⟩ | ⟨hno, -, -, hret⟩
      · rw [hret] at hop
        cases hop
      · obtain rfl : id = n := some.inj ((hret p hop.symm).symm.trans hn)
        refine ⟨by simp [hids], fun ha => ?_⟩
        rcases hautos ha with ha | ⟨-, hsome⟩
        · exact hid (h.known.2.1 _ ha)
        · rw [hno] at hsome
          cases hsome
    · obtain ⟨hmem', ha⟩ := h.rollback p (mem_of_getElem? hj) n hn
      exact ⟨hmemId hmem', hautos' hmem' ha⟩
  · rcases mem_append.1 hr with hr | hr
    · rcases hautos ha with ha | ⟨heq, -⟩
      · rcases h.autos r hr ha hdep with hauto | ⟨r', todo, previous, hmem⟩
        · exact .inl hauto
        · exact .inr ⟨r', todo, previous, hold hmem (by simp [Op.deploy?])⟩
      · exact absurd (heq ▸ mem_map_of_mem hr) hid
    · rw [mem_singleton.1 hr] at ha ⊢
      rcases hautos ha with ha | ⟨-, hsome⟩
      · exact absurd (h.known.2.1 _ ha) hid
      · rcases returned_some hd id with ⟨r', todo, previous, -, hret⟩ | ⟨hno, -⟩
        · exact .inr ⟨r', todo, previous, hret ▸ mem_of_getElem? hself⟩
        · rw [hno] at hsome
          cases hsome
  · obtain ⟨hh, ha, hred⟩ := h.abandoned x hx
    refine ⟨hh, hautos' (h.known.2.2 x hx) ha, hred.imp_right ?_⟩
    rintro ⟨r, todo, d', hxid, he, hmem⟩
    refine ⟨r, todo, d', hxid, he, hold hmem fun heq => ?_⟩
    rw [some.inj heq, hp] at he
    cases he

/-! ## What begins and stops -/

theorem Inv.begin (h : s.Inv) (hrec : op.recording = none)
    (hgate : ∀ g, op = .gate g → g = .list ∧ ∀ g', .gate g' ∉ s.ops)
    (hroll : ∀ p, op = .rollback p → p.new? = none) : Inv { s with ops := s.ops ++ [op] } := by
  have hnew {j : Nat} {x : Op} (hj : (s.ops ++ [op])[j]? = some x) := Cells.of_append hj
  have hmem {x : Op} (hx : x ∈ s.ops ++ [op]) : x ∈ s.ops ∨ x = op := by simpa using hx
  refine
    { h with
      gates := fun j k g g' hj hk => ?_
      recording := fun j k x x' st hj hk hx hx' => ?_
      closed := fun x hx st hst => ?_
      free := fun j x hj r todo previous d hx he hst => ?_
      gate := fun g hg => ?_
      rollback := fun p hp n hn => ?_
      autos := fun r hr ha hd => ?_
      abandoned := fun x hx => ?_ }
  · rcases hnew hj with hj | ⟨hj, hx⟩ <;> rcases hnew hk with hk | ⟨hk, hy⟩
    · exact h.gates j k g g' hj hk
    · exact absurd (mem_of_getElem? hj) ((hgate g' hy.symm).2 g)
    · exact absurd (mem_of_getElem? hk) ((hgate g hx.symm).2 g')
    · rw [hj, hk]
  · rcases hnew hj with hj | ⟨-, rfl⟩ <;> rcases hnew hk with hk | ⟨-, rfl⟩
    · exact h.recording j k x x' st hj hk hx hx'
    · rw [hrec] at hx'
      cases hx'
    · rw [hrec] at hx
      cases hx
    · rw [hrec] at hx
      cases hx
  · rcases hmem hx with hx | rfl
    · exact h.closed x hx st hst
    · rw [hrec] at hst
      cases hst
  · rcases hmem hx with hx | hx
    · rcases hnew hj with hj | ⟨-, rfl⟩
      · exact h.free j x hj r todo previous d hx he hst
      · rw [hrec] at hst
        cases hst
    · cases (hgate _ hx.symm).1
  · rcases hmem hg with hg | hg
    · exact (h.gate g hg).refl (.refl rfl rfl rfl fun _ => id)
    · rw [(hgate g hg.symm).1]
      exact ⟨by simp [Gate.pending], by simp [Gate.pending], by simp, by simp, by simp, by simp⟩
  · rcases hmem hp with hp | hp
    · exact h.rollback p hp n hn
    · rw [hroll p hp.symm] at hn
      cases hn
  · refine (h.autos r hr ha hd).imp_right ?_
    rintro ⟨r', todo, previous, hx⟩
    exact ⟨r', todo, previous, mem_append_left _ hx⟩
  · obtain ⟨hh, ha, hred⟩ := h.abandoned x hx
    refine ⟨hh, ha, hred.imp_right ?_⟩
    rintro ⟨r, todo, d, hid, he, hx⟩
    exact ⟨r, todo, d, hid, he, mem_append_left _ hx⟩

theorem Inv.stop (h : s.Inv) (hok : s.Careful .stop) : Inv { s with ops := [] } where
  __ := h
  gates := by simp
  recording := by simp
  closed := by simp
  free := by simp
  gate := by simp
  rollback := by simp
  autos r hr ha hd := by
    rcases h.autos r hr ha hd with hauto | ⟨r', todo, previous, hmem⟩
    · exact .inl hauto
    · cases hok _ hmem
  abandoned x hx := by
    obtain ⟨hh, ha, hred⟩ := h.abandoned x hx
    refine ⟨hh, ha, ?_⟩
    rcases hred with hred | ⟨r, todo, d, -, he, hmem⟩
    · exact .inl hred
    · exact absurd (he.symm.trans (hok _ hmem)) (by decide)

theorem Inv.wait (h : s.Inv) (now : Nat) : Inv { s with now } where
  __ := h
  gate g hg := (h.gate g hg).refl (.refl rfl rfl rfl fun _ => id)

/-! ## A run -/

theorem inv_start : start.Inv where
  ids := nodup_nil
  last := by simp [start]
  healthy := by simp [start]
  ended := by simp [start]
  known := by simp [start]
  overtaken := rfl
  gates := by simp [start]
  recording := by simp [start]
  closed := by simp [start]
  free := by simp [start]
  gate := by simp [start]
  rollback := by simp [start]
  autos := by simp [start]
  abandoned := by simp [start]

theorem Inv.write (h : s.Inv) {reasons : String}
    (hok : s.Careful (.written i reasons)) (hs : s.write i reasons = some s') : s'.Inv := by
  unfold State.write at hs
  split at hs
  · next target head new hi =>
      refine some.inj hs ▸ h.mark hi ?_ (hok target head new hi)
      cases new with
      | none => exact .inl rfl
      | some new => exact .inr ⟨new, rfl, rfl⟩
  · next hi => exact some.inj hs ▸ h.rollbackNote _ hi
  · next hi => exact some.inj hs ▸ h.demote hi
  · next hi =>
      refine some.inj hs ▸ h.judged hi rfl rfl (by simp) (by simp [setStatus])
        (by simp [setStatus]) ?_
      exact .inr ((h.gateOk hi).promote _ _ rfl)
  · next hi =>
      exact some.inj hs ▸ h.judged hi rfl rfl (by simp) (by simp) (by simp) (.inl (by simp))
  · next hi => exact some.inj hs ▸ h.abandon _ hi
  · next hi => exact some.inj hs ▸ h.note hi
  · cases hs

theorem inv_step {s : State} (m : Move) (h : s.Inv) (hok : s.Careful m)
    (hs : s.step m = some s') : s'.Inv := by
  cases m with
  | deploy stack c => exact some.inj hs ▸ h.begin rfl (by simp) (by simp)
  | rollback releaseId =>
    refine some.inj hs ▸ h.begin rfl (by simp) ?_
    rintro _ ⟨⟩
    rfl
  | tick =>
    simp only [step] at hs
    split_ifs at hs with hany
    refine some.inj hs ▸ h.begin rfl ?_ (by simp)
    rintro _ ⟨⟩
    refine ⟨rfl, fun g hg => hany ?_⟩
    exact any_eq_true.2 ⟨_, hg, rfl⟩
  | found i row => exact h.find hs
  | listed i todo =>
    simp only [step] at hs
    split at hs
    · next hi =>
        split_ifs at hs with ht
        exact some.inj hs ▸ h.listed hi ht
    · cases hs
  | judge i => exact h.judge hs
  | summarized i health =>
    simp only [step] at hs
    split at hs
    · next hi => exact some.inj hs ▸ h.summarized health hi
    · cases hs
  | alarmed i reached =>
    simp only [step] at hs
    split at hs
    · next hi => exact some.inj hs ▸ h.alarmed reached hi
    · cases hs
  | planned i gate services =>
    simp only [step] at hs
    split at hs
    · next hd =>
        obtain ⟨hi, hd⟩ := at_deploy hd
        exact some.inj hs ▸ h.planned hi hd gate services
    · cases hs
  | dispatched i =>
    simp only [step] at hs
    split at hs
    · next hd =>
        obtain ⟨hi, hd⟩ := at_deploy hd
        exact some.inj hs ▸ h.dispatched hi hd rfl
    · next hd =>
        obtain ⟨hi, hd⟩ := at_deploy hd
        exact some.inj hs ▸ h.dispatchedAll hi hd
    · cases hs
  | deployFails i =>
    simp only [step] at hs
    split at hs
    · next hd =>
        obtain ⟨hi, hd⟩ := at_deploy hd
        exact some.inj hs ▸ h.deployFails hi hd rfl hok
    · next hd =>
        obtain ⟨hi, hd⟩ := at_deploy hd
        exact some.inj hs ▸ h.deployFails hi hd rfl hok
    · cases hs
  | superseded i =>
    simp only [step] at hs
    split at hs
    · next hd =>
        obtain ⟨hi, hd⟩ := at_deploy hd
        exact some.inj hs ▸ h.superseded hi hd hok
    · cases hs
  | created i id =>
    simp only [step] at hs
    split at hs
    · next hd =>
        obtain ⟨hi, hd⟩ := at_deploy hd
        split_ifs at hs with hid
        refine some.inj hs ▸ h.created hi hd rfl fun hmem => hid ?_
        obtain ⟨r, hr, rfl⟩ := mem_map.1 hmem
        exact any_eq_true.2 ⟨r, hr, by simp⟩
    · cases hs
  | recordFails i =>
    simp only [step] at hs
    split at hs
    · next hd =>
        obtain ⟨hi, hd⟩ := at_deploy hd
        exact some.inj hs ▸ h.recordFails hi hd rfl
    · next hd =>
        obtain ⟨hi, hd⟩ := at_deploy hd
        exact some.inj hs ▸ h.recordFails hi hd rfl
    · cases hs
  | written i reasons => exact h.write hok hs
  | stop => exact some.inj hs ▸ h.stop hok
  | wait ms => exact some.inj hs ▸ h.wait _

/-! ## The result -/

theorem Inv.sound (h : s.Inv) : s.Sound where
  healthy r hr r' hr' hst hh hh' :=
    inj_on_of_nodup_map h.ids hr hr' (h.healthy r hr r' hr' hst hh hh')
  deploying r hr r' hr' hst hd hd' := h.eq_of_deploying hr hr' hst hd hd'
  ended r hr hend := (h.ended r hr hend).2
  overtaken := h.overtaken
  redeployed x hx := by
    obtain ⟨hh, -, hred⟩ := h.abandoned x hx
    refine ⟨hh, hred.imp_right ?_⟩
    rintro ⟨r, todo, d, hid, -, hmem⟩
    exact ⟨r, todo, d, hid, hmem⟩
  guard x hx := (h.abandoned x hx).2.1

/-- The promise is kept in every state of a run that is careful. -/
theorem sound_of_careful {s : State} (h : Machine.Reach step Careful start s) : s.Sound :=
  (h.induct inv_start fun _ m _ hi hok hs => inv_step m hi hok hs).sound

def web : Stack := ⟨"org", "web"⟩

/-- A release of the stack. -/
def first : Release := ⟨"a", web, "services: {}", .deploying, none, none, 0⟩

/-- The one after it, with a gate that rolls back. -/
def second : Release :=
  ⟨"b", web, "services: {b: {}}", .deploying, some ⟨60, true⟩, none, 120000⟩

/-- The first one again. -/
def third : Release :=
  ⟨"c", web, "services: {}", .deploying, none,
    some "Automatic rollback to release a (failed gate on b)", 180000⟩

/-- Releases are recorded one at a time and while the gate is idle, and nothing is cut short. -/
def undisturbed (s : State) : Move → Bool
  | .superseded i => (s.ops.eraseIdx i).all fun op => op.recording.isNone && match op with
    | .gate g => g.holds = []
    | _ => true
  | .written i _ => match s.ops[i]? with
    | some (.rollback (.mark _ _ _)) => false
    | _ => true
  | .deployFails _ | .stop => false
  | _ => true

theorem careful_of_undisturbed (s : State) (m : Move) (h : s.undisturbed m = true) :
    s.Careful m := by
  unfold Careful
  split
  · rintro op d - - j op' hne hj
    have hmem : op' ∈ s.ops.eraseIdx _ := mem_eraseIdx_iff_getElem?.2 ⟨j, hne, hj⟩
    have hop' := all_eq_true.1 h op' hmem
    rw [Bool.and_eq_true] at hop'
    refine ⟨fun hrec => by simp [hrec] at hop', ?_⟩
    rintro g rfl
    rw [of_decide_eq_true hop'.2]
    exact not_mem_nil
  · intro target head new hi
    simp [undisturbed, hi] at h
  · cases h
  · cases h
  · trivial

/-- A release is found healthy, the next one fails, and the first one is deployed again. -/
def rollbackRun : List Move :=
  [.deploy web "services: {}", .planned 0 none 0, .dispatched 0, .superseded 0, .created 0 "a",
    .wait 120000, .tick, .listed 1 [first], .judge 1, .summarized 1 .healthy, .written 1 "",
    .written 1 "", .judge 1,
    .deploy web "services: {b: {}}", .planned 2 (some ⟨60, true⟩) 1, .dispatched 2, .dispatched 2,
    .superseded 2, .created 2 "b",
    .wait 60000, .tick, .listed 3 [second], .judge 3, .summarized 3 .down, .alarmed 3 true,
    .found 3 (some { first with status := .healthy }), .written 3 "down",
    .planned 3 none 1, .dispatched 3, .dispatched 3, .superseded 3, .created 3 "c", .written 3 "",
    .judge 3, .wait 120000, .tick, .listed 4 [third], .judge 4, .summarized 4 .healthy,
    .written 4 "", .written 4 ""]

/-- What failed stays rolled back, and what is healthy is what was before it. -/
theorem sound_rollbackRun : ∃ s, Machine.runIf step undisturbed start rollbackRun = some s ∧
    s.Sound ∧ s.rows.map Release.status = [.superseded, .rolledBack, .healthy] := by
  have hrun : (Machine.runIf step undisturbed start rollbackRun).map
      (·.rows.map Release.status) = some [.superseded, .rolledBack, .healthy] := by decide +kernel
  obtain ⟨s, hs, hstatus⟩ := map_eq_some_iff.1 hrun
  exact ⟨s, hs, sound_of_careful (Machine.reach_of_runIf careful_of_undisturbed .refl hs), hstatus⟩

/-- The gate has read a release as deploying when another one is recorded. -/
def staleRun : List Move :=
  [.deploy web "services: {}", .planned 0 none 0, .dispatched 0, .superseded 0, .created 0 "a",
    .wait 120000, .tick, .listed 1 [first], .judge 1,
    .deploy web "services: {b: {}}", .planned 2 none 0, .dispatched 2, .superseded 2,
      .created 2 "b",
    .summarized 1 .healthy, .written 1 "", .written 1 ""]

theorem not_sound_stale : ¬ ∀ s, Machine.Reach step (fun _ _ => True) start s → s.Sound := by
  intro h
  have hrun : ∃ s, Machine.run step start staleRun = some s ∧
      { first with status := .healthy } ∈ s.rows ∧ "a" ∈ s.ended :=
    ⟨_, rfl, mem_cons_self, mem_cons_self⟩
  obtain ⟨s, hs, hrow, hend⟩ := hrun
  exact (h s (Machine.reach_of_run .refl hs)).ended _ hrow hend rfl

end State

end Releases
