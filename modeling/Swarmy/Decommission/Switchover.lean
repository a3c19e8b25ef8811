import Mathlib.Tactic.Common

/-!
# A planned switchover of a managed Postgres

`packages/trpc/src/services/volumeMove.service.ts`: `switchoverDb`, call by call.  A call
may be rejected, before or after it took effect; a wait may expire.  What is declared of
the cluster after a switchover that was cancelled is what was declared before, unless the
call that failed is one that nothing compensates.
-/

namespace Swarmy.Switchover

/-! ## The cluster -/

inductive Topology where
  | single
  | primaryReplica
  | failover
  | geo
  | activeActive
deriving DecidableEq

/-- What is declared of a cluster and its primary. -/
structure Db where
  /-- The override of `default_transaction_read_only` in the primary's settings. -/
  readOnly : Bool
  /-- The override that the primary has loaded. -/
  loaded : Bool
  /-- The replicas of the primary's service. -/
  scale : Nat
  /-- The primary's `swarmy.db.switchover` label. -/
  switchover : Bool
  /-- The `swarmy.db.replicas` label, as a number. -/
  replicas : Nat
  /-- The `swarmy.db.topology` label. -/
  topology : Option Topology

namespace Db

variable (db : Db)

def alterSystem (readOnly : Bool) : Db := { db with readOnly := readOnly }

def reload : Db := { db with loaded := db.readOnly }

def setScale (n : Nat) : Db := { db with scale := n }

def setSwitchover (on : Bool) : Db := { db with switchover := on }

def setReplicas (n : Nat) : Db := { db with replicas := n }

def setTopology (t : Topology) : Db := { db with topology := some t }

end Db

/-- Where a switchover may fail. -/
inductive Site where
  | notFound
  | activeActive
  | resolveManager
  | setTopology
  | setReplicas
  | awaitReplica
  | awaitCatchUp
  | alterSystem
  | reload
  | checkpoint
  | awaitZero
  | updateLabels
  | scale
  | awaitPromotion
  | deploy
  | restoreReplicas
  | restoreTopology
  | writeAudit
deriving DecidableEq

/-- The replica has not been promoted when a switchover fails here. -/
def Site.BeforePromotion : Site → Prop
  | .deploy | .restoreReplicas | .restoreTopology | .writeAudit => False
  | _ => True

/-- What becomes of a call; a wait that expires is rejected. -/
inductive Fate where
  | ok
  | rejected
  | rejectedButDone

/-- What the inventory shows. -/
structure View where
  primary : Bool
  /-- A replica runs on another server. -/
  replicaElsewhere : Bool
  /-- The old primary is still there after the promotion. -/
  demoted : Bool

/-! ## The program -/

abbrev Run := ExceptT Site (StateM Db)

section

variable (fate : Site → Fate) (view : View)

/-- A call with its effect. -/
def attempt (site : Site) (effect : Db → Db) : Run Unit := do
  match fate site with
  | .ok => modify effect
  | .rejected => throw site
  | .rejectedButDone =>
    modify effect
    throw site

/-- A call that compensates for what was done. -/
def compensate (effect : Db → Db) : Run Unit := modify effect

/-- `if (c) await p`. -/
def onlyIf (c : Prop) [Decidable c] (p : Run Unit) : Run Unit := if c then p else pure ()

def unfreeze : Run Unit := do
  compensate (·.alterSystem false)
  compensate Db.reload

/-- Bring the old writer back. -/
def restart : Run Unit := do
  compensate (·.setSwitchover false)
  compensate (·.setScale 1)
  unfreeze

/-- A replica on another server. -/
def addReplica (topology : Topology) (declared : Nat) : Run Unit := do
  onlyIf (topology = .single) (attempt fate .setTopology (·.setTopology .primaryReplica))
  attempt fate .setReplicas (·.setReplicas (max 1 declared))
  attempt fate .awaitReplica id

/-- Freeze writes and wait for the replica to have them all. -/
def freeze : Run Unit := do
  attempt fate .alterSystem (·.alterSystem true)
  attempt fate .reload Db.reload
  tryCatch (do
    attempt fate .checkpoint id
    attempt fate .awaitZero id)
    fun e => do
      unfreeze
      throw e

/-- Stop the primary and wait for the promotion. -/
def stop : Run Unit := do
  attempt fate .updateLabels (·.setSwitchover true)
  attempt fate .scale (·.setScale 0)
  tryCatch (attempt fate .awaitPromotion id) fun e => do
    restart
    throw e

/-- Re-clone the old primary elsewhere, and restore what was declared. -/
def finish (topology : Topology) (declared : Nat) (addedReplica : Bool) : Run Unit := do
  onlyIf view.demoted <| attempt fate .deploy fun db =>
    (db.setSwitchover false).setScale (if addedReplica then declared else max 1 declared)
  onlyIf addedReplica <| attempt fate .restoreReplicas (·.setReplicas declared)
  onlyIf (addedReplica ∧ topology = .single) <|
    attempt fate .restoreTopology (·.setTopology .single)
  attempt fate .writeAudit id

def switchoverDb : Run Unit := do
  onlyIf (!view.primary) (throw .notFound)
  let db ← get
  let topology := db.topology.getD .primaryReplica
  onlyIf (topology = .activeActive) (throw .activeActive)
  let declared := db.replicas
  attempt fate .resolveManager id
  onlyIf (!view.replicaElsewhere) (addReplica fate topology declared)
  attempt fate .awaitCatchUp id
  freeze fate
  stop fate
  finish fate view topology declared !view.replicaElsewhere

end

/-! ## Where a run fails -/

section

variable {α β : Type} {fate : Site → Fate} {view : View} {db db' : Db} {e site : Site}

theorem run_bind {p : Run α} {f : α → Run β} : (p >>= f).run db = match p.run db with
    | (.ok a, db₁) => (f a).run db₁
    | (.error e', db₁) => (.error e', db₁) := by
  rw [ExceptT.run_bind]
  show StateT.bind p.run _ db = _
  unfold StateT.bind
  rcases p.run db with ⟨_ | _, _⟩ <;> rfl

/-- A program fails where it begins, or where it goes on. -/
theorem bind_error {p : Run α} {f : α → Run β} (h : (p >>= f).run db = (.error e, db')) :
    p.run db = (.error e, db') ∨ ∃ a db₁, p.run db = (.ok a, db₁) ∧
    (f a).run db₁ = (.error e, db') := by
  rw [run_bind] at h
  split at h
  · next a db₁ heq => exact .inr ⟨a, db₁, heq, h⟩
  · next heq =>
    cases h
    exact .inl heq

theorem bind_ok {p : Run α} {f : α → Run β} {b : β} (h : (p >>= f).run db = (.ok b, db')) :
    ∃ a db₁, p.run db = (.ok a, db₁) ∧ (f a).run db₁ = (.ok b, db') := by
  rw [run_bind] at h
  split at h
  · next a db₁ heq => exact ⟨a, db₁, heq, h⟩
  · cases h

theorem throw_error (h : (throw site : Run Unit).run db = (.error e, db')) :
    e = site ∧ db' = db := by
  cases h
  exact ⟨rfl, rfl⟩

theorem attempt_ok {effect : Db → Db} {a : Unit}
    (h : (attempt fate site effect).run db = (.ok a, db')) :
    fate site = .ok ∧ db' = effect db := by
  unfold attempt at h
  split at h
  · next hok =>
    cases h
    exact ⟨hok, rfl⟩
  · cases h
  · cases h

theorem attempt_error {effect : Db → Db} (h : (attempt fate site effect).run db = (.error e, db')) :
    e = site ∧ ((fate site = .rejected ∧ db' = db) ∨
      (fate site = .rejectedButDone ∧ db' = effect db)) := by
  unfold attempt at h
  split at h
  · cases h
  · next hfate =>
    cases h
    exact ⟨rfl, .inl ⟨hfate, rfl⟩⟩
  · next hfate =>
    cases h
    exact ⟨rfl, .inr ⟨hfate, rfl⟩⟩

theorem get_ok {a : Db} (h : (get : Run Db).run db = (.ok a, db')) : db = a ∧ db = db' := by
  cases h
  exact ⟨rfl, rfl⟩

/-- A wait has no effect. -/
theorem wait_ok {a : Unit} (h : (attempt fate site id).run db = (.ok a, db')) : db = db' :=
  (attempt_ok h).2.symm

theorem wait_error (h : (attempt fate site id).run db = (.error e, db')) : e = site ∧ db' = db := by
  obtain ⟨he, ⟨-, h⟩ | ⟨-, h⟩⟩ := attempt_error h
  · exact ⟨he, h⟩
  · exact ⟨he, h⟩

section

variable {c : Prop} [Decidable c] {p : Run Unit}

theorem onlyIf_error (h : (onlyIf c p).run db = (.error e, db')) :
    c ∧ p.run db = (.error e, db') := by
  unfold onlyIf at h
  split at h
  · next hc => exact ⟨hc, h⟩
  · cases h

theorem onlyIf_ok {a : Unit} (h : (onlyIf c p).run db = (.ok a, db')) :
    (c ∧ p.run db = (.ok a, db')) ∨ (¬c ∧ db' = db) := by
  unfold onlyIf at h
  split at h
  · next hc => exact .inl ⟨hc, h⟩
  · next hc =>
    cases h
    exact .inr ⟨hc, rfl⟩

end

theorem check_ok {c : Prop} [Decidable c] {a : Unit}
    (h : (onlyIf c (throw site)).run db = (.ok a, db')) : db = db' := by
  rcases onlyIf_ok h with ⟨-, hthrow⟩ | ⟨-, hdb⟩
  · cases hthrow
  · exact hdb.symm

theorem run_tryCatch {p : Run Unit} {handle : Site → Run Unit} :
    (tryCatch p handle).run db = match p.run db with
      | (.ok a, db₁) => (.ok a, db₁)
      | (.error e', db₁) => (handle e').run db₁ := by
  rw [ExceptT.run_tryCatch]
  show StateT.bind p.run _ db = _
  unfold StateT.bind
  rcases p.run db with ⟨_ | _, _⟩ <;> rfl

section

variable {p undo : Run Unit} {effect : Db → Db} (hundo : ∀ db, undo.run db = (.ok (), effect db))

include hundo

/-- What is caught is compensated and thrown again. -/
theorem rethrow_run : (do
    undo
    throw e : Run Unit).run db = (.error e, effect db) := by
  rw [run_bind, hundo]
  rfl

theorem tryCatch_error (h : (tryCatch p fun e => do
      undo
      throw e : Run Unit).run db = (.error e, db')) :
    ∃ db₁, p.run db = (.error e, db₁) ∧ db' = effect db₁ := by
  rw [run_tryCatch] at h
  split at h
  · cases h
  · next e' db₁ heq =>
    rw [rethrow_run hundo] at h
    cases h
    exact ⟨db₁, heq, rfl⟩

theorem tryCatch_ok {a : Unit} (h : (tryCatch p fun e => do
      undo
      throw e : Run Unit).run db = (.ok a, db')) : p.run db = (.ok a, db') := by
  rw [run_tryCatch] at h
  split at h
  · next heq =>
    cases h
    exact heq
  · rw [rethrow_run hundo] at h
    cases h

end

theorem unfreeze_run (db : Db) : unfreeze.run db = (.ok (), (db.alterSystem false).reload) := rfl

theorem restart_run (db : Db) : restart.run db =
    (.ok (), (((db.setSwitchover false).setScale 1).alterSystem false).reload) := rfl

end

/-! ## What is left -/

section

variable (fate : Site → Fate) (view : View) (db : Db)

/-- The primary takes writes and is declared at one replica, with no switchover under
way. -/
structure Normal : Prop where
  writable : db.readOnly = false
  scale : db.scale = 1
  unlabelled : db.switchover = false

/-- What is declared of the cluster is what was declared. -/
structure SameDeclared (db db' : Db) : Prop where
  replicas : db'.replicas = db.replicas
  topology : db'.topology = db.topology

/-- A replica runs elsewhere already, or asking for one changes nothing. -/
def NothingAdded : Prop :=
  view.replicaElsewhere ∨ (db.topology.getD .primaryReplica ≠ .single ∧ 1 ≤ db.replicas)

/-- A failure at the site is compensated for, or there is nothing to compensate. -/
def Undone : Site → Prop
  | .notFound | .activeActive | .resolveManager => Normal db
  | .setTopology => Normal db ∧ fate .setTopology = .rejected
  | .setReplicas => Normal db ∧ db.topology.getD .primaryReplica ≠ .single ∧
      (fate .setReplicas = .rejected ∨ 1 ≤ db.replicas)
  | .awaitReplica | .awaitCatchUp => Normal db ∧ NothingAdded view db
  | .alterSystem => Normal db ∧ NothingAdded view db ∧ fate .alterSystem = .rejected
  | .checkpoint | .awaitZero => db.scale = 1 ∧ db.switchover = false ∧ NothingAdded view db
  | .awaitPromotion => NothingAdded view db
  | _ => False

end

/-! ## Part by part -/

section

variable {fate : Site → Fate} {view : View} {db db' : Db} {e : Site}
  {topology : Topology} {declared : Nat}

/-- The cluster with a replica that was asked for. -/
def Db.added (topology : Topology) (declared : Nat) (db : Db) : Db :=
  (if topology = .single then db.setTopology .primaryReplica else db).setReplicas (max 1 declared)

theorem setTopology_ok {a : Unit} (h : (onlyIf (topology = .single)
      (attempt fate .setTopology (·.setTopology .primaryReplica))).run db = (.ok a, db')) :
    db' = if topology = .single then db.setTopology .primaryReplica else db := by
  rcases onlyIf_ok h with ⟨hsingle, h⟩ | ⟨hsingle, rfl⟩
  · rw [if_pos hsingle, (attempt_ok h).2]
  · rw [if_neg hsingle]

theorem addReplica_ok {a : Unit} (h : (addReplica fate topology declared).run db = (.ok a, db')) :
    db' = db.added topology declared := by
  obtain ⟨_, db₁, h₁, h⟩ := bind_ok h
  obtain ⟨_, db₂, h₂, h⟩ := bind_ok h
  rw [(attempt_ok h).2, (attempt_ok h₂).2, setTopology_ok h₁]
  rfl

theorem addReplica_error (h : (addReplica fate topology declared).run db = (.error e, db')) :
    (e = .setTopology ∧ topology = .single ∧ ((fate .setTopology = .rejected ∧ db' = db) ∨
        (fate .setTopology = .rejectedButDone ∧ db' = db.setTopology .primaryReplica))) ∨
      (e = .setReplicas ∧ ((fate .setReplicas = .rejected ∧
          db' = if topology = .single then db.setTopology .primaryReplica else db) ∨
        (fate .setReplicas = .rejectedButDone ∧ db' = db.added topology declared))) ∨
      (e = .awaitReplica ∧ db' = db.added topology declared) := by
  rcases bind_error h with h | ⟨_, db₁, h₁, h⟩
  · obtain ⟨hsingle, h⟩ := onlyIf_error h
    obtain ⟨rfl, hfate⟩ := attempt_error h
    exact .inl ⟨rfl, hsingle, hfate⟩
  rw [setTopology_ok h₁] at h
  rcases bind_error h with h | ⟨_, db₂, h₂, h⟩
  · obtain ⟨rfl, hfate⟩ := attempt_error h
    exact .inr (.inl ⟨rfl, hfate⟩)
  · obtain ⟨rfl, rfl⟩ := wait_error h
    exact .inr (.inr ⟨rfl, (attempt_ok h₂).2⟩)

/-- Once writes are frozen, they are frozen still unless the wait for the last of them
failed. -/
theorem freeze_error (h : (freeze fate).run db = (.error e, db')) :
    (e = .alterSystem ∧ ((fate .alterSystem = .rejected ∧ db' = db) ∨
        (fate .alterSystem = .rejectedButDone ∧ db' = db.alterSystem true))) ∨
      (e = .reload ∧ db'.readOnly = true) ∨
      ((e = .checkpoint ∨ e = .awaitZero) ∧
        db' = ((db.alterSystem true).reload.alterSystem false).reload) := by
  rcases bind_error h with h | ⟨_, db₁, h₁, h⟩
  · obtain ⟨rfl, hfate⟩ := attempt_error h
    exact .inl ⟨rfl, hfate⟩
  obtain rfl := (attempt_ok h₁).2
  rcases bind_error h with h | ⟨_, db₂, h₂, h⟩
  · obtain ⟨rfl, ⟨-, rfl⟩ | ⟨-, rfl⟩⟩ := attempt_error h
    · exact .inr (.inl ⟨rfl, rfl⟩)
    · exact .inr (.inl ⟨rfl, rfl⟩)
  obtain rfl := (attempt_ok h₂).2
  obtain ⟨db₃, h₃, rfl⟩ := tryCatch_error unfreeze_run h
  rcases bind_error h₃ with h | ⟨_, db₄, h₄, h⟩
  · obtain ⟨rfl, rfl⟩ := wait_error h
    exact .inr (.inr ⟨.inl rfl, rfl⟩)
  · obtain ⟨rfl, rfl⟩ := wait_error h
    rw [(attempt_ok h₄).2]
    exact .inr (.inr ⟨.inr rfl, rfl⟩)

theorem freeze_ok {a : Unit} (h : (freeze fate).run db = (.ok a, db')) :
    db' = (db.alterSystem true).reload := by
  obtain ⟨_, db₁, h₁, h⟩ := bind_ok h
  obtain ⟨_, db₂, h₂, h⟩ := bind_ok h
  obtain ⟨_, db₃, h₃, h⟩ := bind_ok (tryCatch_ok unfreeze_run h)
  rw [(attempt_ok h).2, (attempt_ok h₃).2, (attempt_ok h₂).2, (attempt_ok h₁).2]
  rfl

/-- A primary that is not promoted over is brought back; one that could not be stopped is
left as it was, frozen. -/
theorem stop_error (h : (stop fate).run db = (.error e, db')) :
    ((e = .updateLabels ∨ e = .scale) ∧ db'.readOnly = db.readOnly) ∨
      (e = .awaitPromotion ∧ db' = (((((db.setSwitchover true).setScale 0).setSwitchover
        false).setScale 1).alterSystem false).reload) := by
  rcases bind_error h with h | ⟨_, db₁, h₁, h⟩
  · obtain ⟨rfl, ⟨-, rfl⟩ | ⟨-, rfl⟩⟩ := attempt_error h
    · exact .inl ⟨.inl rfl, rfl⟩
    · exact .inl ⟨.inl rfl, rfl⟩
  obtain rfl := (attempt_ok h₁).2
  rcases bind_error h with h | ⟨_, db₂, h₂, h⟩
  · obtain ⟨rfl, ⟨-, rfl⟩ | ⟨-, rfl⟩⟩ := attempt_error h
    · exact .inl ⟨.inr rfl, rfl⟩
    · exact .inl ⟨.inr rfl, rfl⟩
  obtain rfl := (attempt_ok h₂).2
  obtain ⟨db₃, h₃, rfl⟩ := tryCatch_error restart_run h
  obtain ⟨rfl, rfl⟩ := wait_error h₃
  exact .inr ⟨rfl, rfl⟩

/-- What fails at the end fails after the promotion. -/
theorem finish_error {addedReplica : Bool}
    (h : (finish fate view topology declared addedReplica).run db = (.error e, db')) :
    ¬e.BeforePromotion := by
  rcases bind_error h with h | ⟨_, _, -, h⟩
  · rw [(attempt_error (onlyIf_error h).2).1]
    exact id
  rcases bind_error h with h | ⟨_, _, -, h⟩
  · rw [(attempt_error (onlyIf_error h).2).1]
    exact id
  rcases bind_error h with h | ⟨_, _, -, h⟩
  · rw [(attempt_error (onlyIf_error h).2).1]
    exact id
  · rw [(attempt_error h).1]
    exact id

/-! ## A cancelled switchover -/

/-- The cluster once a replica runs elsewhere. -/
def Db.prepared (view : View) (db : Db) : Db :=
  if view.replicaElsewhere then db else db.added (db.topology.getD .primaryReplica) db.replicas

theorem normal_of_eq {db₁ db₂ : Db} (hr : db₂.readOnly = db₁.readOnly) (hs : db₂.scale = db₁.scale)
    (hl : db₂.switchover = db₁.switchover) : Normal db₂ ↔ Normal db₁ := by
  constructor
  · rintro ⟨h₁, h₂, h₃⟩
    exact ⟨hr ▸ h₁, hs ▸ h₂, hl ▸ h₃⟩
  · rintro ⟨h₁, h₂, h₃⟩
    exact ⟨hr.trans h₁, hs.trans h₂, hl.trans h₃⟩

theorem sameDeclared_added : SameDeclared db
      (db.added (db.topology.getD .primaryReplica) db.replicas) ↔
    db.topology.getD .primaryReplica ≠ .single ∧ 1 ≤ db.replicas := by
  unfold Db.added
  constructor
  · rintro ⟨hr, ht⟩
    have hr : max 1 db.replicas = db.replicas := hr
    refine ⟨fun hsingle => ?_, by omega⟩
    rw [if_pos hsingle] at ht
    rw [← ht] at hsingle
    cases hsingle
  · rintro ⟨hsingle, hpos⟩
    rw [if_neg hsingle]
    exact ⟨Nat.max_eq_right hpos, rfl⟩

theorem added_fields : (db.added topology declared).readOnly = db.readOnly ∧
    (db.added topology declared).scale = db.scale ∧
    (db.added topology declared).switchover = db.switchover := by
  unfold Db.added
  split
  · exact ⟨rfl, rfl, rfl⟩
  · exact ⟨rfl, rfl, rfl⟩

theorem prepared_fields : (db.prepared view).readOnly = db.readOnly ∧
    (db.prepared view).scale = db.scale ∧ (db.prepared view).switchover = db.switchover := by
  unfold Db.prepared
  split
  · exact ⟨rfl, rfl, rfl⟩
  · exact added_fields

theorem sameDeclared_prepared : SameDeclared db (db.prepared view) ↔ NothingAdded view db := by
  unfold Db.prepared NothingAdded
  split
  · next helsewhere => exact ⟨fun _ => .inl helsewhere, fun _ => ⟨rfl, rfl⟩⟩
  · next helsewhere =>
    rw [sameDeclared_added]
    exact (or_iff_right helsewhere).symm

theorem sameDeclared_of_eq {db₁ db₂ : Db} (hr : db₂.replicas = db₁.replicas)
    (ht : db₂.topology = db₁.topology) : SameDeclared db db₂ ↔ SameDeclared db db₁ := by
  constructor
  · rintro ⟨h₁, h₂⟩
    exact ⟨hr ▸ h₁, ht ▸ h₂⟩
  · rintro ⟨h₁, h₂⟩
    exact ⟨hr.trans h₁, ht.trans h₂⟩

theorem normal_added : Normal (db.added topology declared) ↔ Normal db :=
  normal_of_eq added_fields.1 added_fields.2.1 added_fields.2.2

theorem normal_prepared : Normal (db.prepared view) ↔ Normal db :=
  normal_of_eq prepared_fields.1 prepared_fields.2.1 prepared_fields.2.2

/-- Another topology than before. -/
theorem not_sameDeclared_setTopology (hsingle : db.topology.getD .primaryReplica = .single)
    (n : Nat) : ¬SameDeclared db ((db.setTopology .primaryReplica).setReplicas n) := by
  rintro ⟨-, ht⟩
  rw [← ht] at hsingle
  cases hsingle

/-- A failure while a replica is asked for. -/
theorem added_iff (helsewhere : !view.replicaElsewhere)
    (h : (addReplica fate (db.topology.getD .primaryReplica) db.replicas).run db =
      (.error e, db')) :
    Normal db' ∧ SameDeclared db db' ↔ Undone fate view db e := by
  have hsame : SameDeclared db db := ⟨rfl, rfl⟩
  have helsewhere : ¬view.replicaElsewhere = true := by simpa using helsewhere
  rcases addReplica_error h with ⟨rfl, hsingle, hcase⟩ | ⟨rfl, hcase⟩ | ⟨rfl, rfl⟩
  · rcases hcase with ⟨hfate, rfl⟩ | ⟨hfate, rfl⟩
    · simp only [Undone, hfate, and_iff_left hsame, and_true]
    · have hnot := not_sameDeclared_setTopology hsingle db.replicas
      refine iff_of_false (fun h => hnot ?_) fun h => ?_
      · exact (sameDeclared_of_eq rfl rfl).mp h.2
      · cases hfate.symm.trans h.2
  · by_cases hsingle : db.topology.getD .primaryReplica = .single
    · have hundone : ¬Undone fate view db .setReplicas := fun h => h.2.1 hsingle
      refine iff_of_false (fun h => ?_) hundone
      rcases hcase with ⟨-, rfl⟩ | ⟨-, rfl⟩
      · rw [if_pos hsingle] at h
        exact not_sameDeclared_setTopology hsingle db.replicas h.2
      · exact (sameDeclared_added.mp h.2).1 hsingle
    · rcases hcase with ⟨hfate, rfl⟩ | ⟨hfate, rfl⟩
      · rw [if_neg hsingle, and_iff_left hsame]
        exact ⟨fun h => ⟨h, hsingle, .inl hfate⟩, fun h => h.1⟩
      · rw [sameDeclared_added, normal_added]
        refine and_congr_right fun _ => and_congr_right fun _ => ?_
        rw [hfate]
        exact (or_iff_right nofun).symm
  · rw [sameDeclared_added, normal_added]
    exact and_congr_right fun _ => (or_iff_right helsewhere).symm

/-- A switchover that fails before the promotion leaves the cluster as it was exactly when
the failure is one that is compensated for, or there was nothing to compensate. -/
theorem switchover_undone_iff (fate : Site → Fate) (view : View) {db db' : Db} {site : Site}
    (h : (switchoverDb fate view).run db = (.error site, db')) (hbefore : site.BeforePromotion) :
    Normal db' ∧ SameDeclared db db' ↔ Undone fate view db site := by
  have hsame : SameDeclared db db := ⟨rfl, rfl⟩
  rcases bind_error h with hfail | ⟨_, _, hok, hrest⟩
  · obtain ⟨rfl, rfl⟩ := throw_error (onlyIf_error hfail).2
    exact and_iff_left hsame
  obtain rfl := check_ok hok
  rcases bind_error hrest with hfail | ⟨_, _, hok, h⟩
  · cases hfail
  obtain ⟨rfl, rfl⟩ := get_ok hok
  rcases bind_error h with hfail | ⟨_, _, hok, hrest⟩
  · obtain ⟨rfl, rfl⟩ := throw_error (onlyIf_error hfail).2
    exact and_iff_left hsame
  obtain rfl := check_ok hok
  rcases bind_error hrest with hfail | ⟨_, _, hok, h⟩
  · obtain ⟨rfl, rfl⟩ := wait_error hfail
    exact and_iff_left hsame
  obtain rfl := wait_ok hok
  rcases bind_error h with hfail | ⟨_, d, hok, hrest⟩
  · obtain ⟨helsewhere, hadd⟩ := onlyIf_error hfail
    exact added_iff helsewhere hadd
  obtain rfl : d = db.prepared view := by
    unfold Db.prepared
    rcases onlyIf_ok hok with ⟨helsewhere, hadd⟩ | ⟨helsewhere, rfl⟩
    · rw [if_neg (by simpa using helsewhere), addReplica_ok hadd]
    · rw [if_pos (by simpa using helsewhere)]
  rcases bind_error hrest with hfail | ⟨_, _, hok, h⟩
  · obtain ⟨rfl, rfl⟩ := wait_error hfail
    exact and_congr normal_prepared sameDeclared_prepared
  obtain rfl := wait_ok hok
  rcases bind_error h with hfail | ⟨_, _, hok, hrest⟩
  · rcases freeze_error hfail with ⟨rfl, ⟨hfate, rfl⟩ | ⟨hfate, rfl⟩⟩ | ⟨rfl, hfrozen⟩ |
      ⟨hsite, rfl⟩
    · rw [normal_prepared, sameDeclared_prepared]
      exact and_congr_right fun _ => (and_iff_left hfate).symm
    · refine iff_of_false (fun h => ?_) fun h => ?_
      · cases h.1.writable
      · cases hfate.symm.trans h.2.2
    · refine iff_of_false (fun h => ?_) id
      cases hfrozen.symm.trans h.1.writable
    · -- Writes are resumed; the rest is as it was before the freeze.
      have hundone : Undone fate view db site ↔
          db.scale = 1 ∧ db.switchover = false ∧ NothingAdded view db := by
        rcases hsite with rfl | rfl
        · exact Iff.rfl
        · exact Iff.rfl
      rw [hundone, ← sameDeclared_prepared, ← and_assoc]
      obtain ⟨-, hscale, hlabel⟩ := @prepared_fields view db
      refine and_congr ⟨fun h => ?_, fun h => ?_⟩ (sameDeclared_of_eq rfl rfl)
      · exact ⟨hscale.symm.trans h.scale, hlabel.symm.trans h.unlabelled⟩
      · exact ⟨rfl, hscale.trans h.1, hlabel.trans h.2⟩
  obtain rfl := freeze_ok hok
  rcases bind_error hrest with hfail | ⟨_, _, -, h⟩
  · rcases stop_error hfail with ⟨hsite, hfrozen⟩ | ⟨rfl, rfl⟩
    · have hundone : ¬Undone fate view db site := by
        rcases hsite with rfl | rfl
        · exact id
        · exact id
      refine iff_of_false (fun h => ?_) hundone
      cases hfrozen.symm.trans h.1.writable
    · show _ ↔ NothingAdded view db
      rw [← sameDeclared_prepared]
      refine (and_iff_right ?_).trans (sameDeclared_of_eq rfl rfl)
      exact ⟨rfl, rfl, rfl⟩
  · exact absurd hbefore (finish_error h)

/-- A cluster as it is declared. -/
def steady : Db := ⟨false, false, 1, false, 1, some .primaryReplica⟩

/-- The primary, and a replica on another server. -/
def replicaThere : View := ⟨true, true, true⟩

/-- One call is rejected and all others are answered. -/
def failsAt (site : Site) : Site → Fate := fun s => if s = site then .rejected else .ok

theorem switchover_undone_promotion : Normal steady ∧ SameDeclared steady steady ↔
      Undone (failsAt .awaitPromotion) replicaThere steady .awaitPromotion :=
  switchover_undone_iff (failsAt .awaitPromotion) replicaThere (show
    (switchoverDb (failsAt .awaitPromotion) replicaThere).run steady =
      (.error .awaitPromotion, steady) by rfl) trivial

/-- When the primary's settings cannot be reloaded, its override stays. -/
theorem not_switchover_undone : ¬∀ (fate : Site → Fate) (view : View) (db db' : Db) (site : Site),
    Normal db → (switchoverDb fate view).run db = (.error site, db') → site.BeforePromotion →
      Normal db' ∧ SameDeclared db db' := by
  intro h
  have hrun : (switchoverDb (failsAt .reload) replicaThere).run steady =
      (.error .reload, steady.alterSystem true) := rfl
  cases (h _ _ _ _ _ ⟨rfl, rfl, rfl⟩ hrun trivial).1.writable

end

end Swarmy.Switchover
