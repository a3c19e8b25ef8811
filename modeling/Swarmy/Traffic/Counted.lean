import Swarmy.Traffic.Ring

/-!
# Every request is written once

When no report reaches back behind what has been flushed, or is being flushed, the rows of
every bucket below the watermark count what the ring was given for it; a report that does
is never written.
-/

namespace Swarmy.Traffic

open Machine List Option Function

/-! ## What is promised -/

def requestsIn (rows : Rows) (bucket : Int) (nodeId host : String) : Nat :=
  ((rows bucket nodeId host).map (·.requests)).getD 0

/-- What the ring was given for a bucket. -/
def givenIn (s : State) (org : String) (bucket : Int) (nodeId host : String) : Nat :=
  ((minutesOf bucket).map fun m => s.given org m nodeId host).sum

/-- The row of every bucket below the watermark counts what was given for it, unless it
has been deleted for its age. -/
def Counted (s : State) : Prop :=
  ∀ org nodeId host bucket, TRAFFIC_ROLLUP_MS ∣ bucket → bucket < s.mark org →
    (∀ cut ∈ s.prunedTo, cut ≤ bucket) →
      requestsIn (s.rows org) bucket nodeId host = givenIn s org bucket nodeId host

/-- In every state that a run of allowed moves reaches from a start at a time. -/
def CountsAll (rnd : Rat → Rat) (ok : State → Move → Prop) (now : Int) : Prop :=
  ∀ s, Reach (step rnd) ok (.boot now) s → Counted s

/-! ## When it holds -/

/-- What is not flushed yet is within the ring's retention. -/
def Retained (s : State) : Prop :=
  ∀ org m nodeId host, (s.orgs org).minutes m nodeId host ≠ none → s.mark org ≤ m →
    oldestMinute s.now ≤ m

/-- How far an org has been flushed or is being flushed. -/
def State.frontier (s : State) (org : String) : Int :=
  match s.worker with
  | .flushing _ org' window _ _ => if org' = org then window.to_ else s.mark org
  | .idle | .pruning _ => s.mark org

/-- The requests of a report all fall behind what was flushed. -/
def InTime (rnd : Rat → Rat) (s : State) : Move → Prop
  | .record org _ sample =>
    Retained s ∧ ∀ x ∈ shares rnd sample s.now, x.requests ≠ 0 → s.frontier org ≤ x.minute
  | .elapse _ | .tick | .flushed | .failed | .deleted _ => Retained s

/-! ## Minutes and buckets -/

variable {rnd : Rat → Rat}

section

variable {b m wm : Int}

theorem mem_minutesOf (hm : m ∈ minutesOf b) : b ≤ m ∧ m < b + TRAFFIC_ROLLUP_MS := by
  obtain ⟨i, hi, rfl⟩ := mem_map.mp hm
  have hi' := mem_range.mp hi
  unfold TRAFFIC_ROLLUP_MS MINUTE_MS
  omega

/-- A bucket below a mark ends before it. -/
theorem bucket_end_le (hb : TRAFFIC_ROLLUP_MS ∣ b) (hwm : TRAFFIC_ROLLUP_MS ∣ wm) (h : b < wm) :
    b + TRAFFIC_ROLLUP_MS ≤ wm := by
  unfold TRAFFIC_ROLLUP_MS MINUTE_MS at *
  omega

theorem minuteOf_mono {x y : Rat} (h : x ≤ y) : minuteOf x ≤ minuteOf y := by
  have hfloor := Rat.floor_monotone (show x / 60000 ≤ y / 60000 by grind)
  unfold minuteOf MINUTE_MS
  omega

theorem oldestMinute_mono {now now' : Int} (h : now ≤ now') :
    oldestMinute now ≤ oldestMinute now' :=
  Int.sub_le_sub_right (minuteOf_mono (Rat.intCast_le_intCast.mpr h)) _

/-- No minute that a report covers is older than the ring. -/
theorem le_of_mem_overlaps {intervalSec : Rat} {receivedAt : Int} {part : Int × Rat}
    (h : part ∈ overlaps rnd intervalSec receivedAt) : oldestMinute receivedAt ≤ part.1 := by
  obtain ⟨i, -, hi⟩ := mem_filterMap.mp h
  generalize hf : (if ((oldestMinute receivedAt : Int) : Rat) ≤
    rnd (receivedAt - rnd (intervalSec * 1000)) then rnd (receivedAt - rnd (intervalSec * 1000))
      else (oldestMinute receivedAt : Int)) = from_ at hi
  have hle : ((oldestMinute receivedAt : Int) : Rat) ≤ from_ := by
    rw [← hf]
    split
    · assumption
    · exact Rat.le_refl
  have hmin : oldestMinute receivedAt ≤ minuteOf from_ := by
    obtain ⟨k, hk⟩ : ∃ k, oldestMinute receivedAt = k * 60000 :=
      ⟨_, by unfold oldestMinute minuteOf MINUTE_MS; exact (Int.sub_mul ..).symm⟩
    rw [hk] at hle ⊢
    have hfloor : k ≤ (from_ / 60000).floor := by
      rw [Rat.le_floor_iff]
      grind
    unfold minuteOf MINUTE_MS
    omega
  rw [ite_none_left_eq_some] at hi
  obtain rfl := some.inj hi.2
  unfold MINUTE_MS
  omega

theorem le_of_mem_shares {sample : EdgeTrafficSample} {receivedAt : Int} {x : Share}
    (h : x ∈ shares rnd sample receivedAt) : oldestMinute receivedAt ≤ x.minute := by
  obtain ⟨host, -, hx⟩ := mem_flatMap.mp h
  obtain ⟨y, hy, rfl⟩ := mem_map.mp (mem_filter.mp hx).1
  exact le_of_mem_overlaps (of_mem_zip hy).1

end

/-! ## The ring -/

section

variable {o : OrgRing} {m : Int} {n h : String}

def cellRequests (o : OrgRing) (m : Int) (n h : String) : Nat :=
  ((o.minutes m n h).map (·.requests)).getD 0

/-- A count of a cell. -/
def cell (f : HostCounter → Nat) (o : OrgRing) (m : Int) (n h : String) : Nat :=
  ((o.minutes m n h).map f).getD 0

variable {f : HostCounter → Nat} {g : Share → Nat}

/-- Adding shares one by one. -/
theorem cell_foldl_add
    (hf : ∀ c x, f ⟨c.requests + x.requests, c.errors5xx + x.errors5xx⟩ = f c + g x)
    (hzero : f ⟨0, 0⟩ = 0) {n' : String} (placed : List Share) :
    cell f (placed.foldl (fun o x => o.add n' x) o) m n h = cell f o m n h +
      if n = n' then ((placed.filter fun x => x.minute = m ∧ x.host = h).map g).sum else 0 := by
  induction placed generalizing o with
  | nil => simp
  | cons x xs ih =>
    have hadd : cell f (o.add n' x) m n h =
        cell f o m n h + if n = n' ∧ x.minute = m ∧ x.host = h then g x else 0 := by
      unfold cell OrgRing.add
      by_cases hx : m = x.minute ∧ n = n' ∧ h = x.host
      · obtain ⟨rfl, rfl, rfl⟩ := hx
        simp only [and_self, if_true, map_some, getD_some, hf]
        cases o.minutes x.minute n x.host <;> simp [hzero]
      · rw [if_neg (by grind)]
        simp only [if_neg hx, Nat.add_zero]
    rw [foldl_cons, ih, hadd, filter_cons]
    by_cases hn : n = n' <;> by_cases hx : x.minute = m ∧
      x.host = h <;> simp [hn, hx, Nat.add_assoc]

theorem minutes_foldl_cover {n' : String} (parts : List (Int × Rat)) :
    (parts.foldl (fun o part => o.cover n' part) o).minutes = o.minutes := by
  induction parts generalizing o with
  | nil => rfl
  | cons part parts ih => exact ih

/-- A report is added to what the ring still keeps. -/
theorem cell_record {s : State} {org org' nodeId : String} {sample : EdgeTrafficSample}
    (hf : ∀ c x, f ⟨c.requests + x.requests, c.errors5xx + x.errors5xx⟩ = f c + g x)
    (hzero : f ⟨0, 0⟩ = 0) : cell f ((s.record rnd org nodeId sample).orgs org') m n h =
      if m < oldestMinute s.now then 0
      else cell f (s.orgs org') m n h + if org' = org ∧ n = nodeId then
        (((shares rnd sample s.now).filter fun x => x.minute = m ∧ x.host = h).map g).sum
        else 0 := by
  have hpruned (o : OrgRing) : cell f (o.prune (oldestMinute s.now)) m n h =
      if m < oldestMinute s.now then 0 else cell f o m n h := by
    by_cases hm : m < oldestMinute s.now <;> simp [cell, OrgRing.prune, hm]
  show cell f (OrgRing.prune (update s.orgs org _ org') _) m n h = _
  rw [hpruned]
  by_cases ho : org' = org
  · subst ho
    rw [update_self, cell_foldl_add hf hzero]
    simp [cell, minutes_foldl_cover]
  · simp [ho]

theorem sum_filterMap {α β : Type} {f : α → Option β} {g : β → Nat} (xs : List α) :
    ((xs.filterMap f).map g).sum = (xs.map fun x => ((f x).map g).getD 0).sum := by
  induction xs with
  | nil => rfl
  | cons x xs ih =>
    cases hx : f x with
    | none => simp [hx, ih]
    | some y => simp [hx, ih]

end

/-! ## Rollups -/

section

variable {o : OrgRing} {from_ to_ b : Int} {n h : String}

/-- A row counts the minutes of its bucket. -/
theorem requestsIn_rollupRing (hb : TRAFFIC_ROLLUP_MS ∣ b) (hto : TRAFFIC_ROLLUP_MS ∣ to_)
    (hle : from_ ≤ b) (hlt : b < to_) : requestsIn (rollupRing o from_ to_) b n h =
      ((minutesOf b).map fun m => cellRequests o m n h).sum := by
  have hall : (minutesOf b).filter (fun m => from_ ≤ m ∧ m < to_) = minutesOf b := by
    refine filter_eq_self.mpr fun m hm => decide_eq_true ?_
    have hm' := mem_minutesOf hm
    have hend := bucket_end_le hb hto hlt
    exact ⟨by omega, by omega⟩
  have hsum := sum_filterMap (f := fun m => o.minutes m n h) (g := (·.requests)) (minutesOf b)
  unfold requestsIn rollupRing
  simp only [hall]
  refine Eq.trans ?_ hsum
  split
  · rfl
  next hrow =>
    have hnil : (minutesOf b).filterMap (fun m => o.minutes m n h) = [] :=
      Classical.byContradiction fun hne => hrow ⟨hb, .inl hne⟩
    rw [hnil]
    rfl

/-- There are rows for the buckets of the window only. -/
theorem rollupRing_eq_none (hfrom : TRAFFIC_ROLLUP_MS ∣ from_)
    (hout : b < from_ ∨ to_ ≤ b) : rollupRing o from_ to_ b n h = none := by
  unfold rollupRing
  rw [if_neg]
  rintro ⟨hb, hrow⟩
  have hnone : (minutesOf b).filter (fun m => from_ ≤ m ∧ m < to_) = [] := by
    refine filter_eq_nil_iff.mpr fun m hm => ?_
    have hm' := mem_minutesOf hm
    rw [decide_eq_true_eq]
    rintro ⟨h₁, h₂⟩
    rcases hout with hlt | hle
    · have hend := bucket_end_le hb hfrom hlt
      omega
    · omega
  rw [hnone] at hrow
  simp at hrow

theorem rollupWindow_some {wm now : Int} {w : Window} (hwm : TRAFFIC_ROLLUP_MS ∣ wm)
    (hw : rollupWindow wm now = some w) :
    w.from_ = wm ∧ TRAFFIC_ROLLUP_MS ∣ w.to_ ∧ wm < w.to_ := by
  unfold rollupWindow at hw
  dsimp only at hw
  split at hw
  next hlt =>
    obtain rfl := some.inj hw
    have hfrom : -(-wm / TRAFFIC_ROLLUP_MS) * TRAFFIC_ROLLUP_MS = wm := by
      unfold TRAFFIC_ROLLUP_MS MINUTE_MS at *
      omega
    exact ⟨hfrom, Int.dvd_mul_left .., hfrom ▸ hlt⟩
  · cases hw

end

/-! ## The invariant -/

/-- The marks are aligned; above them the ring has what it was given and nothing is
written; and below them it is written. -/
structure Settled (s : State) : Prop where
  aligned : ∀ org, TRAFFIC_ROLLUP_MS ∣ s.mark org
  above : ∀ org m n h, s.mark org ≤ m → cellRequests (s.orgs org) m n h = s.given org m n h
  ahead : ∀ org b n h, s.mark org ≤ b → s.rows org b n h = none
  below : Counted s

/-- The rows that are being written are those of the buckets from the mark on, and count
what was given. -/
structure Flight (s : State) (now : Int) (org : String) (w : Window) (rows : Rows) : Prop where
  past : now ≤ s.now
  aligned : TRAFFIC_ROLLUP_MS ∣ w.to_
  le : s.mark org ≤ w.to_
  outside : ∀ b n h, b < s.mark org ∨ w.to_ ≤ b → rows b n h = none
  counts : ∀ b n h, TRAFFIC_ROLLUP_MS ∣ b → s.mark org ≤ b → b < w.to_ →
    requestsIn rows b n h = givenIn s org b n h

structure Inv (s : State) : Prop where
  settled : Settled s
  flight : ∀ now org w rows rest, s.worker = .flushing now org w rows rest → Flight s now org w rows

section

variable {s s' : State}

/-- The invariant looks at nothing else. -/
theorem Settled.congr (h : Settled s) (hmark : ∀ org, s'.mark org = s.mark org)
    (hcells : ∀ org m n h, s.mark org ≤ m →
      cellRequests (s'.orgs org) m n h = cellRequests (s.orgs org) m n h) (hrows : s'.rows = s.rows)
    (hgiven : s'.given = s.given) (hcut : s'.prunedTo = s.prunedTo) : Settled s' where
  aligned org := hmark org ▸ h.aligned org
  above org m n host hm := by
    rw [hmark] at hm
    rw [hcells org m n host hm, hgiven]
    exact h.above org m n host hm
  ahead org b n host hb := by
    rw [hmark] at hb
    rw [hrows]
    exact h.ahead org b n host hb
  below org n host b hb hlt hkept := by
    rw [hmark] at hlt
    rw [hcut] at hkept
    rw [hrows]
    unfold givenIn
    rw [hgiven]
    exact h.below org n host b hb hlt hkept

variable {now : Int} {org : String}

theorem Flight.congr {w : Window} {rows : Rows}
    (h : Flight s now org w rows) (hnow : s.now ≤ s'.now) (hmark : s'.mark org = s.mark org)
    (hgiven : ∀ b n host, TRAFFIC_ROLLUP_MS ∣ b → b < w.to_ →
      givenIn s' org b n host = givenIn s org b n host) : Flight s' now org w rows where
  past := Int.le_trans h.past hnow
  aligned := h.aligned
  le := hmark ▸ h.le
  outside := by
    rw [hmark]
    exact h.outside
  counts b n host hb hle hlt := by
    rw [hmark] at hle
    rw [hgiven b n host hb hlt]
    exact h.counts b n host hb hle hlt

/-- Pruning drops nothing that is not flushed yet. -/
theorem cellRequests_prune (hr : Retained s) (hnow : now ≤ s.now) {m : Int} {n host : String}
    (hm : s.mark org ≤ m) : cellRequests ((s.orgs org).prune (oldestMinute now)) m n host =
      cellRequests (s.orgs org) m n host := by
  unfold cellRequests OrgRing.prune
  dsimp only
  split
  next hlt =>
    cases hcell : (s.orgs org).minutes m n host with
    | none => rfl
    | some c =>
      have hold := hr org m n host (by simp [hcell]) hm
      have hmono := oldestMinute_mono hnow
      omega
  · rfl

theorem Settled.prune (h : Settled s) (hr : Retained s) (hnow : now ≤ s.now) :
    Settled (s.prune now) :=
  h.congr (fun _ => rfl) (fun _ _ _ _ hm => cellRequests_prune hr hnow hm) rfl rfl rfl

/-- The rest of a tick. -/
theorem Settled.proceed (h : Settled s) (hr : Retained s) (hnow : now ≤ s.now)
    (orgs : List String) : Inv (s.proceed now orgs) := by
  induction orgs with
  | nil =>
    unfold State.proceed
    split
    · refine ⟨?_, fun _ _ _ _ _ hw => by cases hw⟩
      exact (h.prune hr hnow).congr (fun _ => rfl) (fun _ _ _ _ _ => rfl) rfl rfl rfl
    · refine ⟨?_, fun _ _ _ _ _ hw => by cases hw⟩
      exact h.congr (fun _ => rfl) (fun _ _ _ _ _ => rfl) rfl rfl rfl
  | cons org rest ih =>
    unfold State.proceed
    split
    · exact ih
    next window hw =>
      obtain ⟨hfrom, hto, hlt⟩ := rollupWindow_some (h.aligned org) hw
      refine ⟨h.congr (fun _ => rfl) (fun _ _ _ _ _ => rfl) rfl rfl rfl,
        fun now' org w rows rest' hworker => ?_⟩
      obtain ⟨rfl, rfl, rfl, rfl, rfl⟩ := Worker.flushing.inj hworker
      refine ⟨hnow, hto, Int.le_of_lt hlt, fun b n host hout => ?_, fun b n host hb hle hb' => ?_⟩
      · exact rollupRing_eq_none (hfrom ▸ h.aligned org) (hfrom ▸ hout)
      · rw [requestsIn_rollupRing hb hto (hfrom ▸ hle) hb']
        refine congrArg List.sum (map_congr_left fun m hm => ?_)
        exact h.above org m n host (Int.le_trans hle (mem_minutesOf hm).1)

/-! Each move. -/

/-- A report adds nothing to a minute below the frontier. -/
theorem given_record {nodeId : String} {sample : EdgeTrafficSample}
    (hin : InTime rnd s (.record org nodeId sample)) {org' : String} {m : Int} {n host : String}
    (hm : org' = org → m < s.frontier org) :
    (s.record rnd org nodeId sample).given org' m n host = s.given org' m n host := by
  show (if org' = org ∧ n = nodeId then _ else _) = _
  split
  next ho =>
    have hlt := hm ho.1
    have hzero : (((shares rnd sample s.now).filter fun x => x.minute = m ∧ x.host = host).map
        (·.requests)).sum = 0 := by
      refine sum_eq_zero fun r hr => ?_
      obtain ⟨x, hx, rfl⟩ := mem_map.mp hr
      obtain ⟨hshare, hmin⟩ := mem_filter.mp hx
      have hminute := (of_decide_eq_true hmin).1
      refine Classical.byContradiction fun hne => ?_
      exact absurd (hin.2 x hshare hne) (Int.not_le.mpr (hminute ▸ hlt))
    rw [hzero, Nat.add_zero]
  · rfl

/-- A report is counted in the ring, above the mark. -/
theorem cellRequests_record (h : Settled s) {nodeId : String} {sample : EdgeTrafficSample}
    (hr : Retained s) {org' : String} {m : Int} {n host : String} (hm : s.mark org' ≤ m) :
    cellRequests ((s.record rnd org nodeId sample).orgs org') m n host =
      (s.record rnd org nodeId sample).given org' m n host := by
  have habove := h.above org' m n host hm
  refine (cell_record (f := (·.requests)) (g := (·.requests)) (fun _ _ => rfl) rfl).trans ?_
  show _ = if org' = org ∧ n = nodeId then _ else _
  by_cases hold : m < oldestMinute s.now
  · -- nothing is left of so old a minute, and nothing was ever put there
    have hnone : (shares rnd sample s.now).filter (fun x => x.minute = m ∧ x.host = host) = [] := by
      refine filter_eq_nil_iff.mpr fun x hx hmin => ?_
      have hminute := (of_decide_eq_true hmin).1
      exact absurd (le_of_mem_shares hx) (Int.not_le.mpr (hminute ▸ hold))
    have hgiven : s.given org' m n host = 0 := by
      rw [← habove, ← cellRequests_prune hr (Int.le_refl _) hm]
      simp [cellRequests, OrgRing.prune, hold]
    rw [if_pos hold, hnone, hgiven]
    exact (ite_self _).symm
  · rw [if_neg hold, show cell _ _ _ _ _ = _ from habove]
    split <;> rfl

theorem State.mark_le_frontier (h : Inv s) (org : String) : s.mark org ≤ s.frontier org := by
  unfold State.frontier
  split
  next now org₁ w rows rest hw =>
    split
    next ho => exact ho ▸ (h.flight now org₁ w rows rest hw).le
    · exact Int.le_refl _
  · exact Int.le_refl _
  · exact Int.le_refl _

theorem Inv.record (h : Inv s) {nodeId : String} {sample : EdgeTrafficSample}
    (hin : InTime rnd s (.record org nodeId sample)) : Inv (s.record rnd org nodeId sample) := by
  have hbucket : ∀ org' b n host, (∀ m ∈ minutesOf b, org' = org → m < s.frontier org) →
      givenIn (s.record rnd org nodeId sample) org' b n host = givenIn s org' b n host := by
    intro org' b n host hm
    exact congrArg List.sum (map_congr_left fun m hmem => given_record hin (hm m hmem))
  refine ⟨⟨h.settled.aligned, fun org' m n host hm => cellRequests_record h.settled hin.1 hm,
    h.settled.ahead, fun org' n host b hb hlt hkept => ?_⟩, fun now org' w rows rest hw => ?_⟩
  · rw [hbucket]
    · exact h.settled.below org' n host b hb hlt hkept
    · rintro m hm rfl
      have hend := bucket_end_le hb (h.settled.aligned _) hlt
      have hmark := State.mark_le_frontier h org'
      have hm' := mem_minutesOf hm
      omega
  · refine (h.flight now org' w rows rest hw).congr (Int.le_refl _) rfl fun b n host hb hlt => ?_
    refine hbucket org' b n host ?_
    rintro m hm rfl
    have hworker : s.worker = .flushing now org' w rows rest := hw
    have hfrontier : s.frontier org' = w.to_ := by
      simp [State.frontier, hworker]
    have hend := bucket_end_le hb (h.flight now org' w rows rest hw).aligned hlt
    have hm' := mem_minutesOf hm
    omega

/-- The rows of a flush are written and the mark goes on. -/
theorem Inv.flushed (h : Inv s) (hr : Retained s) {w : Window} {rows : Rows} {rest : List String}
    (hw : s.worker = .flushing now org w rows rest) (hs : step rnd s .flushed = some s') :
    Inv s' := by
  have hf := h.flight now org w rows rest hw
  simp only [step, hw, Option.some.injEq] at hs
  subst hs
  have hmark : ∀ org', (s.flush org w rows).mark org' =
      if org' = org then w.to_ else s.mark org' := by
    intro org'
    unfold State.mark State.flush
    by_cases ho : org' = org
    · subst ho
      simp
    · simp [ho]
  have hrows : ∀ org' b n host, (s.flush org w rows).rows org' b n host =
      if org' = org then rows b n host <|> s.rows org b n host else s.rows org' b n host := by
    intro org' b n host
    unfold State.flush
    by_cases ho : org' = org
    · subst ho
      simp
    · simp [ho]
  refine Settled.proceed (s := s.flush org w rows) ⟨fun org' => ?_,
    fun org' m n host hm => ?_, fun org' b n host hb => ?_,
    fun org' n host b hb hlt hkept => ?_⟩ (fun org' m n host hc hm => ?_) hf.past rest
  · rw [hmark]
    split
    · exact hf.aligned
    · exact h.settled.aligned org'
  · rw [hmark] at hm
    refine h.settled.above org' m n host ?_
    split at hm
    next ho => exact ho ▸ Int.le_trans hf.le hm
    · exact hm
  · rw [hmark] at hb
    by_cases ho : org' = org
    · subst ho
      rw [if_pos rfl] at hb
      rw [hrows, if_pos rfl, hf.outside b n host (.inr hb),
        h.settled.ahead org' b n host (Int.le_trans hf.le hb)]
      rfl
    · rw [if_neg ho] at hb
      rw [hrows, if_neg ho]
      exact h.settled.ahead org' b n host hb
  · rw [hmark] at hlt
    by_cases ho : org' = org
    · subst ho
      rw [if_pos rfl] at hlt
      by_cases hle : s.mark org' ≤ b
      · have hold := h.settled.ahead org' b n host hle
        have hcount := hf.counts b n host hb hle hlt
        refine Eq.trans ?_ hcount
        unfold requestsIn
        rw [hrows, if_pos rfl, hold, orElse_eq_orElse, orElse_eq_or, or_none]
      · have hnone := hf.outside b n host (.inl (Int.not_le.mp hle))
        have hold := h.settled.below org' n host b hb (Int.not_le.mp hle) hkept
        refine Eq.trans ?_ hold
        unfold requestsIn
        rw [hrows, if_pos rfl, hnone]
        rfl
    · rw [if_neg ho] at hlt
      unfold requestsIn
      rw [hrows, if_neg ho]
      exact h.settled.below org' n host b hb hlt hkept
  · rw [hmark] at hm
    refine hr org' m n host hc ?_
    split at hm
    next ho => exact ho ▸ Int.le_trans hf.le hm
    · exact hm

theorem InTime.retained {m : Move} (h : InTime rnd s m) : Retained s := by
  cases m with
  | record org nodeId sample => exact h.1
  | _ => exact h

theorem Inv.step (h : Inv s) {m : Move} (hok : InTime rnd s m) (hs : step rnd s m = some s') :
    Inv s' := by
  have hr := hok.retained
  cases m with
  | record org nodeId sample =>
    obtain rfl := some.inj hs
    exact h.record hok
  | elapse ms =>
    obtain rfl := some.inj hs
    have hnow : s.now ≤ s.now + ms := by omega
    exact ⟨h.settled.congr (fun _ => rfl) (fun _ _ _ _ _ => rfl) rfl rfl rfl,
      fun now org w rows rest hw => (h.flight now org w rows rest hw).congr hnow rfl
        fun _ _ _ _ _ => rfl⟩
  | tick =>
    simp only [Traffic.step] at hs
    split at hs
    · obtain rfl := some.inj hs
      exact h.settled.proceed hr (Int.le_refl _) _
    · exact some.inj hs ▸ h
    · exact some.inj hs ▸ h
  | flushed =>
    cases hw : s.worker with
    | flushing now org w rows rest => exact h.flushed hr hw hs
    | _ => simp [Traffic.step, hw] at hs
  | failed =>
    cases hw : s.worker with
    | flushing now org w rows rest =>
      simp only [Traffic.step, hw, Option.some.injEq] at hs
      subst hs
      exact h.settled.proceed hr (h.flight now org w rows rest hw).past rest
    | _ => simp [Traffic.step, hw] at hs
  | deleted ok =>
    cases hw : s.worker with
    | pruning now =>
      simp only [Traffic.step, hw] at hs
      split at hs
      · obtain rfl := some.inj hs
        refine ⟨⟨h.settled.aligned, h.settled.above, fun org b n host hb => ?_,
          fun org n host b hb hlt hkept => ?_⟩, fun _ _ _ _ _ hw => by cases hw⟩
        · dsimp only
          rw [h.settled.ahead org b n host hb, ite_self]
        · have hcut := hkept _ rfl
          have hnew : now - TRAFFIC_ROLLUP_RETENTION_MS ≤ b := by
            cases hp : s.prunedTo <;> simp only [hp, Option.elim] at hcut <;> omega
          unfold requestsIn
          dsimp only
          rw [if_neg (Int.not_lt.mpr hnew)]
          refine h.settled.below org n host b hb hlt fun cut hmem => ?_
          rw [mem_def.mp hmem] at hcut
          simp only [Option.elim] at hcut
          omega
      · obtain rfl := some.inj hs
        exact ⟨h.settled.congr (fun _ => rfl) (fun _ _ _ _ _ => rfl) rfl rfl rfl,
          fun _ _ _ _ _ hw => by cases hw⟩
    | _ => simp [Traffic.step, hw] at hs

end


def noon : Int := 1800000000000

/-- A bucket is flushed, and then an edge that was away reports for the last five minutes. -/
def lateReport : List Move :=
  [.record "org" "edge" ⟨15, [⟨"app.example", 3, 0⟩]⟩, .elapse 330000, .tick, .flushed,
    .deleted true,
   .record "org" "edge" ⟨300, [⟨"app.example", 10, 0⟩]⟩]

end Swarmy.Traffic
