import Mathlib.Data.List.Dedup
import Swarmy.Backup.Restic

/-! # When a restore gives the backup back

A restore writes what the backup holds and takes nothing away: a volume, or a database loaded with
`pg_restore`, is exactly the backup when it held nothing else. A script that `psql` loads gives an
object back when the server takes it, or has it already. Retention looks at the snapshots of one
volume name of an organisation, on all its nodes. -/

namespace Swarmy.Restic

open Swarmy.Logical List Option Function Bool

/-! ## What the tools were given, and what they left -/

section Runs

variable {κ : Type} {T : Tool κ}

theorem bind_ok {ε α β : Type} {x : Except ε α} {f : α → Except ε β} {b : β}
    (h : x >>= f = .ok b) : ∃ a, x = .ok a ∧ f a = .ok b := by
  cases x with
  | error e => cases h
  | ok a => exact ⟨a, rfl, h⟩

theorem backupVolume_snapshot {p : BackupVolumePayload} {volume : Files κ} {r r' : Repository κ}
    {s : Snapshot κ} (h : backupVolume T p volume r = .ok (s, r')) :
    ∃ id time, s = ⟨id, p.volume, p.tags, MOUNT, time, volume⟩ := by
  obtain ⟨_, _, h⟩ := bind_ok h
  dsimp only at h
  split at h
  · cases h
  · rename_i code
    obtain ⟨id, time, made, _⟩ := T.backup_stores r MOUNT p.volume p.tags volume (not_not.1 code)
    obtain ⟨rfl, -⟩ := Prod.mk.inj (Except.ok.inj h)
    exact ⟨id, time, made⟩

theorem restoreVolume_written {q : RestoreVolumePayload} {r : Repository κ} {s : Snapshot κ}
    {prior after : Files κ} (mem : s ∈ r.snapshots) (id : s.id = q.snapshotId)
    (h : restoreVolume T q r prior = .ok after) : after = s.written MOUNT prior := by
  obtain ⟨_, _, h⟩ := bind_ok h
  obtain ⟨_, _, h⟩ := bind_ok h
  dsimp only at h
  split at h
  · cases h
  · rename_i code
    obtain rfl := Except.ok.inj h
    exact T.restore_writes r _ _ _ (not_not.1 code) s mem id

variable {β ν δ ρ : Type} [DecidableEq ν] {D : Tool (Content β ν δ ρ)} {P : Postgres ν δ ρ}

theorem backupDb_snapshot {p : DbBackupPayload} {server : Server ν δ ρ}
    {r r' : Repository (Content β ν δ ρ)} {s : Snapshot (Content β ν δ ρ)}
    (h : backupDbLogical D P p server r = .ok (s, r')) :
    (dumped P p server : Outcome (Content β ν δ ρ)).exitCode = 0 ∧
      ∃ id time, s = ⟨id, p.database, p.tags, DUMP_MOUNT, time,
        staged (p.engine = .pg_dumpall) (dumped P p server).after⟩ := by
  unfold backupDbLogical at h
  dsimp only at h
  split at h
  · cases h
  · rename_i dumpCode
    split at h
    · cases h
    · rename_i code
      obtain ⟨id, time, made, _⟩ := D.backup_stores r DUMP_MOUNT p.database p.tags
        (staged (p.engine = .pg_dumpall) (dumped P p server).after) (not_not.1 code)
      obtain ⟨rfl, -⟩ := Prod.mk.inj (Except.ok.inj h)
      exact ⟨not_not.1 dumpCode, id, time, made⟩

theorem restoreDb_load {q : DbRestorePayload} {r : Repository (Content β ν δ ρ)}
    {s : Snapshot (Content β ν δ ρ)} {prior after : Objects (String × ν) δ ρ}
    (mem : s ∈ r.snapshots) (id : s.id = q.snapshotId) (root : s.root = DUMP_MOUNT)
    (h : restoreDbLogical D P q r prior = .ok after) :
    (load P (q.engine = .pg_dumpall) q.targetDb s.files prior).exitCode = 0 ∧
      after = (load P (q.engine = .pg_dumpall) q.targetDb s.files prior).after := by
  unfold restoreDbLogical at h
  dsimp only at h
  split at h
  · cases h
  split at h
  · cases h
  obtain ⟨_, _, h⟩ := bind_ok h
  split at h
  · cases h
  rename_i fetchCode
  obtain ⟨_, _, h⟩ := bind_ok h
  have fetched : (D.restore r q.snapshotId DUMP_MOUNT fun _ => none).after = s.files := by
    rw [D.restore_writes r _ _ _ (not_not.1 fetchCode) s mem id, Snapshot.written, if_pos root]
    funext path
    exact or_none
  rw [fetched] at h
  split at h
  · cases h
  · rename_i code
    exact ⟨not_not.1 code, (Except.ok.inj h).symm⟩

end Runs

/-! ## What a restore is to give back -/

section Restore

variable {β ν δ ρ : Type} [DecidableEq ν] {D : Tool (Content β ν δ ρ)} {P : Postgres ν δ ρ}

/-- The databases that were dumped, each with the one it is loaded in. -/
def targets (p : DbBackupPayload) (q : DbRestorePayload) (server : Server ν δ ρ) :
    List (String × String) :=
  if p.engine = .pg_dumpall then server.databases.map fun db => (db, db)
  else [(p.database, q.targetDb)]

/-- The target database holds exactly the dumped objects and rows. -/
def Exact (source after : Objects (String × ν) δ ρ) (t : String × String) : Prop :=
  ∀ n, Option.Rel Object.Same (source (t.1, n)) (after (t.2, n))

/-- The target database holds nothing that the dump lacks, and a script without
`ON_ERROR_STOP` goes well over what it does hold. -/
def Ready (P : Postgres ν δ ρ) (p : DbBackupPayload) (source prior : Objects (String × ν) δ ρ)
    (t : String × String) : Prop :=
  ∀ n, match source (t.1, n) with
    | none => prior (t.2, n) = none
    | some o => p.engine = .pg_dumpall → Takes P.refuses (t.2, n) o (prior (t.2, n))

theorem restored_iff {volume prior : Files β} {s : Snapshot β} (root : s.root = MOUNT)
    (files : s.files = volume) :
    s.written MOUNT prior = volume ↔ ∀ path, volume path = none → prior path = none := by
  rw [Snapshot.written, if_pos root, files, funext_iff]
  refine forall_congr' fun path => ?_
  cases volume path <;> simp

theorem load_sql (d : Dump (String × ν) δ ρ) (db : String) (server : Objects (String × ν) δ ρ) :
    load P true db (staged true (.sql d : Content β ν δ ρ)) server = P.psql d.script server := by
  simp [load, staged]

theorem load_pgc (d : Dump ν δ ρ) (db : String) (server : Objects (String × ν) δ ρ) :
    load P false db (staged false (.pgc d : Content β ν δ ρ)) server =
      P.pgRestore (inDatabase db d).cleanScript server := by
  simp [load, staged]

/-- The other engine's dump file is not there. -/
theorem load_other (c : Content β ν δ ρ) (made asked : Bool) (h : asked ≠ made) (db : String)
    (server : Objects (String × ν) δ ρ) :
    (load P asked db (staged made c) server).exitCode = 1 := by
  cases asked <;> cases made <;> simp [load, staged, dumpFile] at h ⊢

theorem rel_none_iff {o : Option (Object δ ρ)} : Option.Rel Object.Same none o ↔ o = none := by
  cases o <;> simp

/-- An archive loaded without an error. -/
theorem pgc_exact_iff {p : DbBackupPayload} (engine : p.engine ≠ .pg_dumpall)
    {d : Dump ν δ ρ} {source prior after : Objects (String × ν) δ ρ} {t : String × String}
    (lists : d.Lists fun n => source (t.1, n))
    (all : allOf P.refuses (inDatabase t.2 d).cleanScript prior = some after) :
    Exact source after t ↔ Ready P p source prior t := by
  obtain ⟨made, kept⟩ := allOf_cleanScript P.refuses _ all
  refine forall_congr' fun n => ?_
  cases ho : source (t.1, n) with
  | some o =>
    have entry : ((t.2, n), o) ∈ (inDatabase t.2 d).entries :=
      mem_map.2 ⟨(n, o), (lists n o).2 ho, rfl⟩
    rw [made _ _ entry]
    exact iff_of_true (rel_some_some.2 (.refl o)) fun h => absurd h engine
  | none =>
    have absent : (t.2, n) ∉ (inDatabase t.2 d).entries.map Prod.fst := by
      intro h
      obtain ⟨e, he, hn⟩ := mem_map.1 h
      obtain ⟨e₀, he₀, rfl⟩ := mem_map.1 he
      obtain rfl : e₀.1 = n := (Prod.mk.inj hn).2
      have listed : source (t.1, e₀.1) = some e₀.2 := (lists e₀.1 e₀.2).1 he₀
      rw [listed] at ho
      cases ho
    rw [kept _ absent]
    exact rel_none_iff

/-- A script loaded with its errors skipped. -/
theorem sql_exact_iff {p : DbBackupPayload} (engine : p.engine = .pg_dumpall)
    {d : Dump (String × ν) δ ρ} {source prior : Objects (String × ν) δ ρ} (db : String)
    (lists : d.Lists source) :
    Exact source (goOn P.refuses d.script prior) (db, db) ↔ Ready P p source prior (db, db) := by
  refine forall_congr' fun n => ?_
  cases ho : source (db, n) with
  | some o =>
    rw [Dump.script, goOn_script P.refuses _ d.nodup prior ((lists _ _).2 ho), rel_loaded_iff]
    exact ⟨fun h _ => h, fun h => h engine⟩
  | none =>
    have absent : (db, n) ∉ d.entries.map Prod.fst := by
      rw [lists.mem_names, ho]
      exact false_ne_true
    rw [Dump.script, goOn_frame P.refuses _ _ fun st hst => name_script absent hst]
    exact rel_none_iff

/-- What a load that went well leaves, by the engine of the backup. -/
theorem restoreDb_exact_iff {p : DbBackupPayload} {q : DbRestorePayload} {server : Server ν δ ρ}
    {r r' r₂ : Repository (Content β ν δ ρ)} {s : Snapshot (Content β ν δ ρ)}
    {prior after : Objects (String × ν) δ ρ}
    (backed : backupDbLogical D P p server r = .ok (s, r')) (mem : s ∈ r₂.snapshots)
    (id : s.id = q.snapshotId) (restored : restoreDbLogical D P q r₂ prior = .ok after) :
    (∀ t ∈ targets p q server, Exact server.objects after t) ↔
      ∀ t ∈ targets p q server, Ready P p server.objects prior t := by
  obtain ⟨dumpCode, _, _, rfl⟩ := backupDb_snapshot backed
  obtain ⟨loadCode, rfl⟩ := restoreDb_load mem id rfl restored
  refine forall₂_congr fun t ht => ?_
  by_cases engine : p.engine = .pg_dumpall
  · rw [targets, if_pos engine] at ht
    obtain ⟨db, -, rfl⟩ := mem_map.1 ht
    simp only [dumped, if_pos engine, decide_eq_true engine] at dumpCode loadCode ⊢
    by_cases same : q.engine = .pg_dumpall
    · rw [decide_eq_true same, load_sql] at loadCode ⊢
      rw [P.psql_goesOn _ _ loadCode]
      exact sql_exact_iff engine db (P.pgDumpAll_lists _ dumpCode)
    · rw [decide_eq_false same, load_other _ _ _ false_ne_true] at loadCode
      cases loadCode
  · rw [targets, if_neg engine, mem_singleton] at ht
    subst ht
    simp only [dumped, if_neg engine, decide_eq_false engine] at dumpCode loadCode ⊢
    by_cases same : q.engine = .pg_dumpall
    · rw [decide_eq_true same, load_other _ _ _ (Ne.symm false_ne_true)] at loadCode
      cases loadCode
    · rw [decide_eq_false same, load_pgc] at loadCode ⊢
      exact pgc_exact_iff engine (P.pgDump_lists _ _ dumpCode) (P.pgRestore_counts _ _ loadCode)

end Restore

/-! ## What a retention run forgets -/

section Retention

variable {κ : Type} {T : Tool κ}

/-- A volume of the same name on another node of the organisation. -/
def Namesake : Job → Job → Prop
  | .volume org node name _, .volume org' node' name' _ =>
    org' = org ∧ name' = name ∧ node' ≠ node
  | _, _ => False

/-- The snapshots with the tags of a job are of its source or a namesake's. -/
theorem tagged {job job' : Job} (h : ∀ t ∈ job.retentionTags, t ∈ job'.tags) :
    job'.source = job.source ∨ Namesake job job' := by
  cases job with
  | volume org node name extra =>
    have ho := h (.org org) (by simp [Job.retentionTags, Job.tags])
    have hv := h (.volume name) (by simp [Job.retentionTags, Job.tags])
    cases job' with
    | volume org' node' name' extra' =>
      have ho : org' = org := by simpa [Job.tags, eq_comm] using ho
      have hv : name' = name := by simpa [Job.tags, eq_comm] using hv
      by_cases hn : node' = node
      · exact .inl (by simp only [Job.source, ho, hn, hv])
      · exact .inr ⟨ho, hv, hn⟩
    | cluster | appDb => simp [Job.tags] at hv
  | cluster org stack name engine database =>
    have ho := h (.org org) (by simp [Job.retentionTags, Job.tags])
    have hd := h (.db stack name) (by simp [Job.retentionTags, Job.tags])
    cases job' with
    | volume | appDb => simp [Job.tags] at hd
    | cluster org' stack' name' engine' database' =>
      have ho : org' = org := by simpa [Job.tags, eq_comm] using ho
      have hd : stack = stack' ∧ name = name' := by simpa [Job.tags] using hd
      exact .inl (by simp only [Job.source, ho, hd])
  | appDb org stack service engine reason =>
    have ho := h (.org org) (by simp [Job.retentionTags])
    have hd := h (.appDb stack service) (by simp [Job.retentionTags])
    cases job' with
    | volume | cluster => simp [Job.tags] at hd
    | appDb org' stack' service' engine' reason' =>
      have ho : org' = org := by simpa [Job.tags, eq_comm] using ho
      have hd : stack = stack' ∧ service = service' := by simpa [Job.tags] using hd
      exact .inl (by simp only [Job.source, ho, hd])

theorem Namesake.source_ne {job job' : Job} (h : Namesake job job') : job'.source ≠ job.source := by
  cases job <;> cases job'
  case volume.volume =>
    intro same
    exact h.2.2 (Source.volume.inj same).2.1
  all_goals exact h.elim

theorem Namesake.host {job job' : Job} (h : Namesake job job') : job'.host = job.host := by
  cases job <;> cases job'
  case volume.volume => exact h.2.1
  all_goals exact h.elim

theorem backupVolume_madeBy {org node name : String} {extra : Option String} {days : Option Nat}
    {volume : Files κ} {r r' : Repository κ} {s : Snapshot κ}
    (h : backupVolume T ⟨name, (Job.volume org node name extra).tags, days⟩ volume r =
      .ok (s, r')) : s.MadeBy (.volume org node name extra) := by
  obtain ⟨_, _, rfl⟩ := backupVolume_snapshot h
  exact ⟨rfl, rfl, rfl⟩

theorem backupDb_madeBy {β ν δ ρ : Type} [DecidableEq ν] {D : Tool (Content β ν δ ρ)}
    {P : Postgres ν δ ρ} {org stack name database : String} {engine : Engine} {days : Option Nat}
    {server : Server ν δ ρ} {r r' : Repository (Content β ν δ ρ)} {s : Snapshot (Content β ν δ ρ)}
    (h : backupDbLogical D P
      ⟨engine, database, (Job.cluster org stack name engine database).tags, days⟩ server r =
        .ok (s, r')) : s.MadeBy (.cluster org stack name engine database) := by
  obtain ⟨_, _, _, rfl⟩ := backupDb_snapshot h
  exact ⟨rfl, rfl, rfl⟩

/-- The run forgets only what the job's own volume or cluster has there. -/
def OnlyOwn {r : Repository κ} (shared : Shared r) (job : Job) (left : Repository κ) : Prop :=
  ∀ s ∈ r.snapshots, s ∉ left.snapshots → (shared.jobOf s).source = job.source

/-- No node has an old snapshot of a volume of that name, older than its latest by the window. -/
def NoStaleNamesake {r : Repository κ} (shared : Shared r) (job : Job) (days : Nat) : Prop :=
  ∀ s ∈ r.snapshots, Namesake job (shared.jobOf s) → (∀ t ∈ job.retentionTags, t ∈ s.tags) →
    ∀ a ∈ forgetArgsFor (some days) job.retentionTags job.host, ¬ a.Old r s

theorem forgetArgsFor_matches {days : Nat} {job : Job} {s : Snapshot κ} {a : ForgetArgs}
    (ha : a ∈ forgetArgsFor (some days) job.retentionTags job.host)
    (tags : ∀ t ∈ job.retentionTags, t ∈ s.tags)
    (host : s.host = job.host) : a.Matches s := by
  obtain rfl := some.inj ha
  refine ⟨tags, fun h hh => ?_⟩
  split at hh
  · cases hh
  · exact host.trans (some.inj hh)

theorem applyRetention_run {retentionDays : Option Nat} {tags : List Tag} {host : String}
    {a : ForgetArgs} (ha : forgetArgsFor retentionDays tags host = some a) (r : Repository κ) :
    (applyRetention T retentionDays tags host r).2 = (T.forget r a).after ∧
      ((applyRetention T retentionDays tags host r).1 = none → (T.forget r a).exitCode = 0) := by
  simp only [applyRetention, ha]
  split
  · rename_i code
    exact ⟨rfl, fun _ => code⟩
  · exact ⟨rfl, fun h => by cases h⟩

theorem onlyOwn_of_noStaleNamesake {r : Repository κ} (shared : Shared r) (job : Job) (days : Nat)
    (none_stale : NoStaleNamesake shared job days) :
    OnlyOwn shared job (applyRetention T (some days) job.retentionTags job.host r).2 := by
  intro s hs gone
  obtain ⟨a, ha⟩ : ∃ a, forgetArgsFor (some days) job.retentionTags job.host = some a := ⟨_, rfl⟩
  obtain ⟨left, -⟩ := applyRetention_run ha r
  rw [left] at gone
  obtain ⟨hit, old⟩ := T.forget_only r _ s hs gone
  have tags : ∀ t ∈ job.retentionTags, t ∈ s.tags := by
    obtain rfl := some.inj ha
    exact hit.tags
  refine (tagged fun t ht => (shared.made s hs).tags ▸ tags t ht).resolve_right fun namesake => ?_
  exact none_stale s hs namesake tags a ha old

theorem noStaleNamesake_of_onlyOwn {r : Repository κ} (shared : Shared r) (job : Job) (days : Nat)
    (ok : (applyRetention T (some days) job.retentionTags job.host r).1 = none)
    (own : OnlyOwn shared job (applyRetention T (some days) job.retentionTags job.host r).2) :
    NoStaleNamesake shared job days := by
  intro s hs namesake tags a ha old
  have hit := forgetArgsFor_matches ha tags ((shared.made s hs).host.trans namesake.host)
  obtain ⟨left, code⟩ := applyRetention_run ha r
  refine namesake.source_ne (own s hs ?_)
  rw [left]
  exact T.forget_all r a (code ok) s hs hit old

end Retention

/-- **Restores and retention.** A restored volume is the backup exactly when it had no file that
the backup lacks; the restored databases are the dumped ones exactly when each was ready for the
load; a retention run forgets snapshots of the volume or cluster just backed up, and of no other
exactly when no volume of that name on another node has an old one. -/
theorem restore_iff {β ν δ ρ : Type} [DecidableEq ν] (T : Tool (Content β ν δ ρ))
    (P : Postgres ν δ ρ) :
    (∀ p volume r s r' q r₂ prior after, backupVolume T p volume r = .ok (s, r') →
      s ∈ r₂.snapshots → s.id = q.snapshotId → restoreVolume T q r₂ prior = .ok after →
      (after = volume ↔ ∀ path, volume path = none → prior path = none)) ∧
    (∀ p server r s r' q r₂ prior after, backupDbLogical T P p server r = .ok (s, r') →
      s ∈ r₂.snapshots → s.id = q.snapshotId → restoreDbLogical T P q r₂ prior = .ok after →
      ((∀ t ∈ targets p q server, Exact server.objects after t) ↔
        ∀ t ∈ targets p q server, Ready P p server.objects prior t)) ∧
    (∀ r (shared : Shared r) job days,
      (NoStaleNamesake shared job days →
        OnlyOwn shared job (applyRetention T (some days) job.retentionTags job.host r).2) ∧
      ((applyRetention T (some days) job.retentionTags job.host r).1 = none →
        OnlyOwn shared job (applyRetention T (some days) job.retentionTags job.host r).2 →
        NoStaleNamesake shared job days)) := by
  refine ⟨?_, ?_, ?_⟩
  · intro p volume r s r' q r₂ prior after backed mem id restored
    obtain ⟨_, _, rfl⟩ := backupVolume_snapshot backed
    rw [restoreVolume_written mem id restored]
    exact restored_iff rfl rfl
  · intro p server r s r' q r₂ prior after backed mem id restored
    exact restoreDb_exact_iff backed mem id restored
  · intro r shared job days
    exact ⟨onlyOwn_of_noStaleNamesake shared job days,
      noStaleNamesake_of_onlyOwn shared job days⟩

/-! ## A file written since -/

section Site

/-- restic with a new repository: it takes one backup, and restores it. -/
def siteBackup {κ : Type} (r : Repository κ) (root host : String) (tags : List Tag)
    (files : Files κ) : Outcome (Snapshot κ × Repository κ) :=
  let s : Snapshot κ := ⟨"4bba301e", host, tags, root, 0, files⟩
  if r.snapshots = [] then ⟨0, s, [s], nodup_singleton _⟩ else ⟨1, s, r⟩

def siteRestore {κ : Type} (r : Repository κ) (ref mount : String) (v : Files κ) :
    Outcome (Files κ) :=
  (r.snapshots.find? fun s => s.id = ref).elim ⟨1, v⟩ fun s => ⟨0, s.written mount v⟩

theorem siteBackup_stores {κ : Type} (r : Repository κ) (root host : String) (tags : List Tag)
    (files : Files κ) (h : (siteBackup r root host tags files).exitCode = 0) :
    ∃ id time, (siteBackup r root host tags files).after.1 = ⟨id, host, tags, root, time, files⟩ ∧
      (siteBackup r root host tags files).after.2.snapshots =
        r.snapshots ++ [⟨id, host, tags, root, time, files⟩] := by
  unfold siteBackup at h ⊢
  dsimp only at h ⊢
  split at h
  · rename_i empty
    rw [if_pos empty, empty]
    exact ⟨_, _, rfl, rfl⟩
  · cases h

theorem siteRestore_writes {κ : Type} (r : Repository κ) (ref mount : String) (v : Files κ)
    (h : (siteRestore r ref mount v).exitCode = 0) (s : Snapshot κ) (hs : s ∈ r.snapshots)
    (id : s.id = ref) : (siteRestore r ref mount v).after = s.written mount v := by
  unfold siteRestore at h ⊢
  cases found : r.snapshots.find? fun s => s.id = ref with
  | none =>
    rw [found] at h
    cases h
  | some s' =>
    have same : s'.id = ref := by simpa using List.find?_some found
    obtain rfl : s' = s := inj_on_of_nodup_map r.distinct (mem_of_find?_eq_some found) hs
      (same.trans id.symm)
    rfl

/-- Its repository is locked for a `forget`. -/
def siteTool (κ : Type) : Tool κ where
  backup := siteBackup
  restore := siteRestore
  forget r _ := ⟨1, r⟩
  backup_stores := siteBackup_stores
  restore_writes := siteRestore_writes
  forget_only _ _ _ hs gone := absurd hs gone
  forget_all _ _ code := absurd code Nat.one_ne_zero

def siteEmpty (κ : Type) : Repository κ := ⟨[], nodup_nil⟩

/-- One table in each database. -/
def siteEntries (server : Server Unit Nat Nat) : List ((String × Unit) × Object Nat Nat) :=
  server.databases.dedup.filterMap fun db => (server.objects (db, ())).map (Prod.mk (db, ()))

theorem mem_siteEntries {server : Server Unit Nat Nat} {n : String × Unit} {o : Object Nat Nat} :
    (n, o) ∈ siteEntries server ↔ server.objects n = some o := by
  simp only [siteEntries, mem_filterMap, mem_dedup, map_eq_some_iff]
  constructor
  · rintro ⟨db, -, o', ho, hn⟩
    obtain ⟨rfl, rfl⟩ := Prod.mk.inj hn
    exact ho
  · intro ho
    exact ⟨n.1, server.inside n o ho, o, ho, rfl⟩

theorem siteEntries_nodup (server : Server Unit Nat Nat) :
    ((siteEntries server).map Prod.fst).Nodup := by
  have keys : (siteEntries server).map Prod.fst =
      (server.databases.dedup.filter fun db => (server.objects (db, ())).isSome).map
        fun db => (db, ()) := by
    unfold siteEntries
    induction server.databases.dedup with
    | nil => rfl
    | cons db dbs ih =>
      cases ho : server.objects (db, ()) <;>
        simp only [filterMap_cons, filter_cons, ho, map_none, map_some,
          isSome_none, isSome_some, false_eq_true, if_true, if_false,
          map_cons, ih]
  rw [keys]
  exact ((nodup_dedup _).filter _).map fun _ _ h => (Prod.mk.inj h).1

theorem siteTable_nodup (server : Server Unit Nat Nat) (db : String) :
    (((server.objects (db, ())).toList.map (Prod.mk ())).map Prod.fst).Nodup := by
  cases server.objects (db, ()) <;> simp

/-- The table of one database. -/
def siteTable (server : Server Unit Nat Nat) (db : String) : Dump Unit Nat Nat :=
  ⟨(server.objects (db, ())).toList.map (Prod.mk ()), siteTable_nodup server db⟩

/-- A server that refuses no more than it must. -/
def siteRefuses : Stmt (String × Unit) Nat Nat → Bool := fun _ => false

def sitePgRestore (script : List (Stmt (String × Unit) Nat Nat))
    (s : Objects (String × Unit) Nat Nat) : Outcome (Objects (String × Unit) Nat Nat) :=
  (allOf siteRefuses script s).elim ⟨1, s⟩ (Outcome.mk 0)

theorem sitePgRestore_counts (script : List (Stmt (String × Unit) Nat Nat))
    (s : Objects (String × Unit) Nat Nat) (h : (sitePgRestore script s).exitCode = 0) :
    allOf siteRefuses script s = some (sitePgRestore script s).after := by
  unfold sitePgRestore at h ⊢
  cases all : allOf siteRefuses script s with
  | none =>
    rw [all] at h
    cases h
  | some s' => rfl

theorem siteTable_lists (server : Server Unit Nat Nat) (db : String) :
    (siteTable server db).Lists fun n => server.objects (db, n) := by
  intro n o
  simp [siteTable, mem_toList]

def sitePostgres : Postgres Unit Nat Nat where
  refuses := siteRefuses
  pgDumpAll server := ⟨0, siteEntries server, siteEntries_nodup server⟩
  pgDump server db := ⟨0, siteTable server db⟩
  psql script s := ⟨0, goOn siteRefuses script s⟩
  pgRestore := sitePgRestore
  pgDumpAll_lists _ _ _ _ := mem_siteEntries
  pgDump_lists server db _ := siteTable_lists server db
  psql_goesOn _ _ _ := rfl
  pgRestore_counts := sitePgRestore_counts

def siteVolume : Files Nat := update (fun _ => none) "notes.txt" (some 1)

def siteSnapshot : Snapshot Nat := ⟨"4bba301e", "shop_data", [], MOUNT, 0, siteVolume⟩

def siteWritten : Files Nat := update siteVolume "draft.txt" (some 2)

def siteObjects (row : Nat) : Objects (String × Unit) Nat Nat :=
  update (fun _ => none) ("shop", ()) (some ⟨0, [row]⟩)

theorem siteObjects_inside (row : Nat) (k : String × Unit) (o : Object Nat Nat)
    (h : siteObjects row k = some o) : k.1 ∈ ["shop"] := by
  by_cases hk : k = ("shop", ())
  · exact hk ▸ mem_cons_self
  · rw [siteObjects, update_of_ne hk] at h
    cases h

/-- The same table, and other rows. -/
def siteServer (row : Nat) : Server Unit Nat Nat :=
  ⟨["shop"], siteObjects row, siteObjects_inside row⟩

theorem siteWritten_left : siteSnapshot.written MOUNT siteWritten "draft.txt" = some 2 := rfl

def siteDump : Dump (String × Unit) Nat Nat :=
  ⟨siteEntries (siteServer 1), siteEntries_nodup (siteServer 1)⟩

def siteDumped : Snapshot (Content Unit Unit Nat Nat) :=
  ⟨"4bba301e", "shop", [], DUMP_MOUNT, 0, staged true (.sql siteDump)⟩

def siteRestoreAll : DbRestorePayload := ⟨.pg_dumpall, .inPlace, "4bba301e", none, "shop"⟩

end Site

/-- A volume is backed up, `draft.txt` is written, and the restore reports success with
`draft.txt` still there. A cluster is dumped with `pg_dumpall`, its row becomes another, and the
restore reports success with both rows, for `psql` went on when the table could not be created. -/
theorem not_restore : (¬ ∀ (T : Tool Nat) p volume r s r' q r₂ prior after,
      backupVolume T p volume r = .ok (s, r') → s ∈ r₂.snapshots → s.id = q.snapshotId →
      restoreVolume T q r₂ prior = .ok after → after = volume) ∧
    ¬ ∀ (T : Tool (Content Unit Unit Nat Nat)) (P : Postgres Unit Nat Nat) p server r s r' q r₂
      prior after, backupDbLogical T P p server r = .ok (s, r') → s ∈ r₂.snapshots →
      s.id = q.snapshotId → restoreDbLogical T P q r₂ prior = .ok after →
      ∀ t ∈ targets p q server, Exact server.objects after t := by
  constructor
  · intro all
    have backed : backupVolume (siteTool Nat) ⟨"shop_data", [], none⟩ siteVolume (siteEmpty Nat) =
        .ok (siteSnapshot, ⟨[siteSnapshot], nodup_singleton _⟩) := rfl
    have restored : restoreVolume (siteTool Nat) ⟨"shop_data", "4bba301e"⟩
        ⟨[siteSnapshot], nodup_singleton _⟩ siteWritten =
          .ok (siteSnapshot.written MOUNT siteWritten) := rfl
    have same := all _ _ _ _ _ _ _ _ _ _ backed mem_cons_self rfl restored
    have left := siteWritten_left
    rw [same] at left
    cases left
  · intro all
    have backed : backupDbLogical (siteTool _) sitePostgres ⟨.pg_dumpall, "shop", [], none⟩
        (siteServer 1) (siteEmpty _) = .ok (siteDumped, ⟨[siteDumped], nodup_singleton _⟩) :=
      rfl
    have restored : restoreDbLogical (siteTool _) sitePostgres siteRestoreAll
        ⟨[siteDumped], nodup_singleton _⟩ (siteServer 2).objects =
          .ok (goOn siteRefuses siteDump.script (siteServer 2).objects) := rfl
    have held := all _ _ _ _ _ _ _ _ _ _ _ backed mem_cons_self rfl restored
      ("shop", "shop") mem_cons_self ()
    have rows : goOn siteRefuses siteDump.script (siteServer 2).objects ("shop", ()) =
        some ⟨0, [2, 1]⟩ := rfl
    obtain ⟨⟨_, rows⟩⟩ := held
    exact absurd rows.length_eq (by decide)

end Swarmy.Restic
