import Mathlib
import Swarmy.App.Plan

/-!
# What an automatic update may change

The rule `gateResourceUpdate` states for itself: what can lose data, reduce durability
or widen exposure needs a human.  Here the rule is an order on what a resource is, and
the gate is measured against it.  How often a schedule of backups runs is a parameter:
a schedule is one of three words or any cron expression.
-/

namespace Swarmy.App

/-! ## Durability and exposure -/

/-- The place in `CACHE_TOPOLOGIES`. -/
def cacheHaRank (ha : String) : Nat := ["single", "replica", "sentinel"].idxOf ha

/-- The place in `BUCKET_ACCESS`: how far a bucket can be read. -/
def BucketAccess.width : BucketAccess → Nat
  | .internal => 0
  | .mesh => 1
  | .publicRead => 2

/-- The first quota is no lower than the second; a bucket without one has no limit. -/
def quotaCovers : Option Nat → Option Nat → Prop
  | none, _ => True
  | some _, none => False
  | some q', some q => q ≤ q'

section

variable {ρ : Type} [LinearOrder ρ] (cadence : String → ρ)

/-- The backups of a database: there still are some, as often and kept as long. -/
def backupsCover : Option (String × Nat) → Option (String × Nat) → Prop
  | _, none => True
  | none, some _ => False
  | some b', some b => cadence b.1 ≤ cadence b'.1 ∧ b.2 ≤ b'.2

/-- Nothing a resource protects its data with gets weaker from the first to the second,
its data stays where it is, and no more can read it. -/
def ResourceSpec.NoWorse : ResourceSpec → ResourceSpec → Prop
  | .postgres _ ha replicas database backups, .postgres _ ha' replicas' database' backups' =>
    haRank ha ≤ haRank ha' ∧ replicas ≤ replicas' ∧ database' = database ∧
      backupsCover cadence backups' backups
  | .cache engine ha replicas memoryMb queue, .cache engine' ha' replicas' memoryMb' queue' =>
    cacheHaRank ha ≤ cacheHaRank ha' ∧ replicas ≤ replicas' ∧ memoryMb ≤ memoryMb' ∧
      engine' = engine ∧ queue' = queue
  | .search engine, .search engine' => engine' = engine
  | .vector engine on, .vector engine' on' => engine' = engine ∧ on' = on
  | .bucket access quotaMb, .bucket access' quotaMb' =>
    access'.width ≤ access.width ∧ quotaCovers quotaMb' quotaMb
  | _, _ => False

/-- What the gate forgets stays as it is or gets better: the replicas, the rhythm of the
backups and how many are kept, the level of a cache; a bucket is not opened to the mesh
and gets no first quota. -/
def ResourceSpec.Minded : ResourceSpec → ResourceSpec → Prop
  | .postgres _ _ replicas _ backups, .postgres _ _ replicas' _ backups' =>
    replicas ≤ replicas' ∧ ∀ b ∈ backups, ∀ b' ∈ backups', cadence b.1 ≤ cadence b'.1 ∧ b.2 ≤ b'.2
  | .cache _ ha replicas _ _, .cache _ ha' replicas' _ _ =>
    cacheHaRank ha ≤ cacheHaRank ha' ∧ replicas ≤ replicas'
  | .bucket access quotaMb, .bucket access' quotaMb' =>
    ¬(access = .internal ∧ access' = .mesh) ∧ (quotaMb = none → quotaMb' = none)
  | _, _ => True

/-- The changes that the gate names: each is blocked or asks for a human. -/
def ResourceSpec.Asked : ResourceSpec → ResourceSpec → Prop
  | .postgres version ha _ database backups, .postgres version' ha' _ database' backups' =>
    version' ≠ version ∨ haRank ha' < haRank ha ∨ database' ≠ database ∨
      backups.isSome ∧ backups' = none
  | .cache engine _ _ memoryMb queue, .cache engine' _ _ memoryMb' queue' =>
    queue' ≠ queue ∨ engine' ≠ engine ∨ memoryMb' < memoryMb
  | .search engine, .search engine' => engine' ≠ engine
  | .vector engine on, .vector engine' on' => engine' ≠ engine ∨ on' ≠ on
  | .bucket access quotaMb, .bucket access' quotaMb' =>
    access' = .publicRead ∧ access ≠ .publicRead ∨ ∃ q ∈ quotaMb, ∃ q' ∈ quotaMb', q' < q
  | _, _ => False

variable {cadence}

/-- The gate lets a change pass exactly when it is none of those it names. -/
theorem needsConfirm_eq_some_false {before after : ResourceSpec} (htype : before.type = after.type)
    : needsConfirm before after = some false ↔ ¬before.Asked after := by
  cases before <;> cases after <;> try cases htype
  case postgres.postgres version ha _ database backups version' ha' _ database' backups' =>
      simp only [needsConfirm, ResourceSpec.Asked]
      split
      case isTrue hlt =>
          simp only [reduceCtorEq, false_iff, not_not]
          exact .inl hlt.ne
      case isFalse hge =>
          have hversion : version < version' ↔ version' ≠ version := by omega
          cases backups' <;> simp [hversion, not_or, and_assoc]
  case cache.cache => simp [needsConfirm, ResourceSpec.Asked, and_assoc]
  case search.search => simp [needsConfirm, ResourceSpec.Asked]
  case vector.vector => simp [needsConfirm, ResourceSpec.Asked]
  case bucket.bucket access quotaMb access' quotaMb' =>
      have hquota : (quotaMb.any fun q => quotaMb'.any fun q' => q' < q) = true ↔
          ∃ q ∈ quotaMb, ∃ q' ∈ quotaMb', q' < q := by
        cases quotaMb <;> cases quotaMb' <;> simp
      rw [needsConfirm, ResourceSpec.Asked, ← hquota, Option.some_inj, ← Bool.not_eq_true]
      simp

/-- The backups of a change that does not turn them off. -/
theorem backupsCover_iff {backups backups' : Option (String × Nat)}
    (h : ¬(backups.isSome ∧ backups' = none)) : backupsCover cadence backups' backups ↔
      ∀ b ∈ backups, ∀ b' ∈ backups', cadence b.1 ≤ cadence b'.1 ∧ b.2 ≤ b'.2 := by
  cases backups with
  | none => simp [backupsCover]
  | some b =>
    cases backups' with
    | none => exact absurd ⟨rfl, rfl⟩ h
    | some b' => simp [backupsCover]

theorem quotaCovers_iff {quotaMb quotaMb' : Option Nat}
    (h : ¬∃ q ∈ quotaMb, ∃ q' ∈ quotaMb', q' < q) :
    quotaCovers quotaMb' quotaMb ↔ (quotaMb = none → quotaMb' = none) := by
  cases quotaMb <;> cases quotaMb' <;> simp_all [quotaCovers]

theorem width_le_iff {access access' : BucketAccess}
    (h : ¬(access' = .publicRead ∧ access ≠ .publicRead)) :
    access'.width ≤ access.width ↔ ¬(access = .internal ∧ access' = .mesh) := by
  cases access <;> cases access' <;> simp_all [BucketAccess.width]

/-- A change that the gate does not name makes nothing worse exactly when it minds what
the gate forgets. -/
theorem noWorse_iff_minded {before after : ResourceSpec} (htype : before.type = after.type)
    (h : ¬before.Asked after) : before.NoWorse cadence after ↔ before.Minded cadence after := by
  cases before <;> cases after <;> try cases htype
  case postgres.postgres =>
      simp only [ResourceSpec.Asked, not_or, not_not, not_lt] at h
      obtain ⟨-, hha, hdb, hbackups⟩ := h
      rw [ResourceSpec.NoWorse, backupsCover_iff hbackups, and_iff_right hha, and_iff_right hdb,
        ResourceSpec.Minded]
  case cache.cache =>
      simp only [ResourceSpec.Asked, not_or, not_not, not_lt] at h
      obtain ⟨hqueue, hengine, hmemory⟩ := h
      rw [ResourceSpec.NoWorse, and_iff_right hmemory, and_iff_right hengine,
        iff_true_intro hqueue, and_true, ResourceSpec.Minded]
  case search.search => exact iff_of_true (not_not.mp h) trivial
  case vector.vector =>
      simp only [ResourceSpec.Asked, not_or, not_not] at h
      exact iff_of_true h trivial
  case bucket.bucket =>
      rw [ResourceSpec.Asked, not_or] at h
      rw [ResourceSpec.NoWorse, width_le_iff h.1, quotaCovers_iff h.2, ResourceSpec.Minded]

end

/-! ## Automatic updates -/

theorem gateResourceUpdate_eq_auto {before after : DesiredResource} :
    gateResourceUpdate (some before) after = .auto ↔
      needsConfirm before.spec after.spec = some false := by
  simp only [gateResourceUpdate]
  cases needsConfirm before.spec after.spec with
  | none => simp
  | some confirm => cases confirm <;> simp

/-- An update that applies on its own makes nothing worse exactly when it is one that the
gate names, or it minds what the gate forgets. -/
theorem auto_noWorse_iff {ρ : Type} [LinearOrder ρ] (cadence : String → ρ)
    (before after : DesiredResource) (htype : before.type = after.type) :
    (gateResourceUpdate (some before) after = .auto → before.spec.NoWorse cadence after.spec) ↔
      before.spec.Asked after.spec ∨ before.spec.Minded cadence after.spec := by
  rw [gateResourceUpdate_eq_auto, needsConfirm_eq_some_false htype]
  by_cases h : before.spec.Asked after.spec
  · exact iff_of_true (fun hn => absurd h hn) (.inl h)
  · rw [noWorse_iff_minded htype h]
    exact ⟨fun hm => .inr (hm h), fun hm _ => hm.resolve_left h⟩

/-- A database with this many replicas and daily backups. -/
def siteDb (replicas : Nat) : DesiredResource where
  name := "db"
  spec := .postgres 16 .primaryReplica replicas "db" (some ("daily", 7))
  sig := ""

/-- Of the words for a schedule, the ones that run more often come later. -/
def siteCadence (schedule : String) : Nat := ["weekly", "daily", "hourly"].idxOf schedule

theorem auto_noWorse_site : (siteDb 1).type = (siteDb 2).type ∧
      ((gateResourceUpdate (some (siteDb 1)) (siteDb 2) = .auto →
          (siteDb 1).spec.NoWorse siteCadence (siteDb 2).spec) ↔
        (siteDb 1).spec.Asked (siteDb 2).spec ∨
          (siteDb 1).spec.Minded siteCadence (siteDb 2).spec) :=
  ⟨rfl, auto_noWorse_iff _ _ _ rfl⟩

/-- A database goes from two replicas to none without a question. -/
theorem not_auto_noWorse : (siteDb 2).type = (siteDb 0).type ∧
      gateResourceUpdate (some (siteDb 2)) (siteDb 0) = .auto ∧
        ¬(siteDb 2).spec.NoWorse siteCadence (siteDb 0).spec := by
  refine ⟨rfl, rfl, ?_⟩
  rintro ⟨-, hreplicas, -⟩
  exact absurd hreplicas (by decide)

end Swarmy.App
