import Swarmy.Schedule.Cron

/-!
# When a scheduled job is due

What the five fields of an expression say, and whether `cronNext` and `isJobDue` find
every minute that matches.  The search looks at the minutes of 366 days.  That is enough
for every expression but one whose only days are 29 February: each other date or
weekday of a month comes up among any 366 days.
-/

namespace Swarmy.Schedule

open List Option Nat

/-! ## What an expression says -/

/-- A value is in a range when steps from its start reach it before its end. -/
theorem Range.mem_values {r : Range} (hstep : 1 ≤ r.step) (hle : r.lo ≤ r.hi) {v : Nat} :
    v ∈ r.values ↔ r.lo ≤ v ∧ v ≤ r.hi ∧ (v - r.lo) % r.step = 0 := by
  rw [Range.values, List.mem_map]
  constructor
  · rintro ⟨k, hk, rfl⟩
    rw [mem_range] at hk
    have hmul : r.step * k ≤ r.hi - r.lo :=
      (mul_comm _ _).trans_le ((le_div_iff_mul_le hstep).mp (by omega))
    refine ⟨by omega, by omega, ?_⟩
    rw [Nat.add_sub_cancel_left, Nat.mul_mod_right]
  · rintro ⟨hlo, hhi, hmod⟩
    refine ⟨(v - r.lo) / r.step, ?_, ?_⟩
    · rw [mem_range]
      have := Nat.div_le_div_right (c := r.step) (show v - r.lo ≤ r.hi - r.lo by omega)
      omega
    · rw [Nat.mul_div_cancel' (Nat.dvd_of_mod_eq_zero hmod)]
      omega

theorem Except.bind_eq_ok {ε α β : Type} {x : Except ε α} {f : α → Except ε β} {b : β}
    (h : (x >>= f) = .ok b) : ∃ a, x = .ok a ∧ f a = .ok b := by
  cases x with
  | error e => cases h
  | ok a => exact ⟨a, rfl, h⟩

/-- What is parsed is in bounds. -/
structure Range.Within (r : Range) (f : Field) : Prop where
  lo : f.min ≤ r.lo
  hi : r.hi ≤ f.max
  le : r.lo ≤ r.hi
  step : 1 ≤ r.step

variable {f : Field} {field : List Char}

theorem Field.step_ok {part : List Char} {stepPart : Option (List Char)} {n : Nat}
    (h : f.step part stepPart = .ok n) : 1 ≤ n := by
  unfold Field.step at h
  split at h
  · cases h
    exact le_refl 1
  · split at h
    · next hs =>
      cases h
      simp only [Bool.and_eq_true, decide_eq_true_eq] at hs
      exact hs.1.2
    · cases h

theorem Field.parsePart_within {part : List Char} {r : Range}
    (h : f.parsePart field part = .ok r) : r.Within f := by
  unfold Field.parsePart at h
  split at h
  · cases h
  obtain ⟨step, hstep, h⟩ := Except.bind_eq_ok h
  obtain ⟨⟨lo, hi⟩, -, h⟩ := Except.bind_eq_ok h
  dsimp only at h
  split at h
  · cases h
  · next hbounds =>
    cases h
    simp only [Bool.or_eq_true, decide_eq_true_eq, not_or, not_lt] at hbounds
    exact ⟨hbounds.1.1, hbounds.1.2, hbounds.2, Field.step_ok hstep⟩

/-- What `mapM` collects. -/
theorem mem_mapM {ε α β : Type} {f : α → Except ε β} {xs : List α} {ys : List β}
    (h : xs.mapM f = .ok ys) {y : β} : y ∈ ys ↔ ∃ x ∈ xs, f x = .ok y := by
  induction xs generalizing ys with
  | nil =>
    cases h
    simp
  | cons x xs ih =>
    rw [mapM_cons] at h
    obtain ⟨z, hz, h⟩ := Except.bind_eq_ok h
    obtain ⟨zs, hzs, h⟩ := Except.bind_eq_ok h
    cases h
    rw [mem_cons, ih hzs, exists_mem_cons_iff, hz, Except.ok.injEq, eq_comm (a := y)]

/-- A field says its parts, one or the other. -/
theorem Field.mem_parse {vs : List Nat}
    (h : f.parse field = .ok vs) (v : Nat) : v ∈ vs ↔ ∃ part ∈ split ',' field, ∃ r : Range,
      f.parsePart field part = .ok r ∧ r.lo ≤ v ∧ v ≤ r.hi ∧ (v - r.lo) % r.step = 0 := by
  unfold Field.parse at h
  obtain ⟨ranges, hranges, h⟩ := Except.bind_eq_ok h
  cases h
  rw [mem_flatMap]
  constructor
  · rintro ⟨r, hr, hv⟩
    obtain ⟨part, hpart, hparse⟩ := (mem_mapM hranges).mp hr
    have hw := Field.parsePart_within hparse
    exact ⟨part, hpart, r, hparse, (Range.mem_values hw.step hw.le).mp hv⟩
  · rintro ⟨part, hpart, r, hparse, hv⟩
    have hw := Field.parsePart_within hparse
    exact ⟨r, (mem_mapM hranges).mpr ⟨part, hpart, hparse⟩, (Range.mem_values hw.step hw.le).mpr hv⟩

theorem Field.bounds_of_mem_parse {vs : List Nat}
    (h : f.parse field = .ok vs) : ∀ v ∈ vs, f.min ≤ v ∧ v ≤ f.max := by
  intro v hv
  obtain ⟨part, -, r, hparse, hlo, hhi, -⟩ := (Field.mem_parse h v).mp hv
  have hw := Field.parsePart_within hparse
  exact ⟨hw.lo.trans hlo, hhi.trans hw.hi⟩

theorem split_ne_nil (sep : Char) (s : List Char) : split sep s ≠ [] := by
  rw [split]
  exact append_ne_nil_of_right_ne_nil _ (cons_ne_nil _ _)

/-- No field is empty. -/
theorem Field.exists_mem_parse {vs : List Nat} (h : f.parse field = .ok vs) : ∃ v, v ∈ vs := by
  unfold Field.parse at h
  obtain ⟨ranges, hranges, h⟩ := Except.bind_eq_ok h
  cases h
  obtain ⟨part, parts, hparts⟩ := exists_cons_of_ne_nil (split_ne_nil ',' field)
  rw [hparts, mapM_cons] at hranges
  obtain ⟨r, hr, hranges⟩ := Except.bind_eq_ok hranges
  obtain ⟨rs, -, hranges⟩ := Except.bind_eq_ok hranges
  cases hranges
  have hw := Field.parsePart_within hr
  refine ⟨r.lo, mem_flatMap.mpr ⟨r, mem_cons_self, ?_⟩⟩
  rw [Range.mem_values hw.step hw.le]
  exact ⟨le_refl _, hw.le, by rw [Nat.sub_self, Nat.zero_mod]⟩

/-- What is parsed has in every field values of the field. -/
structure CronSpec.WellFormed (spec : CronSpec) : Prop where
  daysOfMonth : ∀ d ∈ spec.daysOfMonth, 1 ≤ d
  months : ∀ m ∈ spec.months, 1 ≤ m ∧ m ≤ 12
  daysOfWeek : ∀ w ∈ spec.daysOfWeek, w < 7
  someDayOfWeek : ∃ w, w ∈ spec.daysOfWeek

theorem parseCron_wellFormed {expr : String} {spec : CronSpec} (h : parseCron expr = .ok spec) :
    spec.WellFormed := by
  unfold parseCron at h
  split at h
  · obtain ⟨days, hdays, h⟩ := Except.bind_eq_ok h
    obtain ⟨minutes, -, h⟩ := Except.bind_eq_ok h
    obtain ⟨hours, -, h⟩ := Except.bind_eq_ok h
    obtain ⟨daysOfMonth, hdom, h⟩ := Except.bind_eq_ok h
    obtain ⟨months, hmonths, h⟩ := Except.bind_eq_ok h
    cases h
    have hle : ∀ w ∈ days, w ≤ 7 := fun w hw => (Field.bounds_of_mem_parse hdays w hw).2
    obtain ⟨w, hw⟩ := Field.exists_mem_parse hdays
    refine ⟨fun d hd => (Field.bounds_of_mem_parse hdom d hd).1,
      Field.bounds_of_mem_parse hmonths, ?_, ?_⟩
    · intro v hv
      dsimp only at hv
      split at hv
      · rcases mem_cons.mp hv with rfl | hv
        · omega
        · obtain ⟨hv, hne⟩ := mem_filter.mp hv
          have := hle v hv
          simp only [ne_eq, decide_not, Bool.not_eq_eq_eq_not, Bool.not_true,
            decide_eq_false_iff_not] at hne
          omega
      · next hseven =>
        have := hle v hv
        have : v ≠ 7 := fun h7 => hseven (h7 ▸ hv)
        omega
    · dsimp only
      split
      · exact ⟨0, mem_cons_self⟩
      · exact ⟨w, hw⟩
  · cases h

/-! ## What matches -/

/-- A day matches by its month, and by its date or its weekday; when both of these are
restricted, by one of them. -/
def DayMatches (spec : CronSpec) (day : Int) : Prop :=
  Calendar.month day ∈ spec.months ∧
    match spec.domRestricted, spec.dowRestricted with
    | true, true =>
      Calendar.date day ∈ spec.daysOfMonth ∨ Calendar.weekday day ∈ spec.daysOfWeek
    | true, false => Calendar.date day ∈ spec.daysOfMonth
    | false, true => Calendar.weekday day ∈ spec.daysOfWeek
    | false, false => True

theorem cronMatches_iff {spec : CronSpec} {d : Date} : cronMatches spec d ↔
    d.minutes ∈ spec.minutes ∧ d.hours ∈ spec.hours ∧ DayMatches spec d.day := by
  unfold cronMatches DayMatches
  cases spec.domRestricted <;> cases spec.dowRestricted <;>
    simp only [Bool.and_eq_true, decide_eq_true_eq, Bool.or_eq_true, and_assoc,
      Bool.and_self, Bool.and_true, Bool.and_false, Bool.false_eq_true, if_true, if_false,
      and_true]

/-- A minute that matches. -/
def Slot (spec : CronSpec) (d : Date) : Prop := d.ms % minuteMs = 0 ∧ cronMatches spec d

section

variable {spec : CronSpec}

/-- The only days that a spec has are of 29 February: it asks for dates alone, and no
other of them is in a month that it asks for. -/
def LeapOnly (spec : CronSpec) : Prop :=
  spec.domRestricted ∧ ¬spec.dowRestricted ∧ ∀ m ∈ spec.months, ∀ d ∈ spec.daysOfMonth,
    d ≤ Calendar.monthLength 1 m → m = 2 ∧ d = 29

/-- A date that is not 29 February is in its month in every year. -/
theorem le_monthLength_zero {m d : Nat} (hm : 1 ≤ m ∧ m ≤ 12) (hd : d ≤ Calendar.monthLength 1 m)
    (h : ¬(m = 2 ∧ d = 29)) : d ≤ Calendar.monthLength 0 m := by
  obtain ⟨hm₁, hm₁₂⟩ := hm
  unfold Calendar.monthLength at *
  interval_cases m <;> simp only [Calendar.monthStart] at hd ⊢ <;> omega

/-- Unless its days are of 29 February, a spec with a matching day has one among any 366
days. -/
theorem exists_dayMatches (hw : spec.WellFormed) (hleap : ¬LeapOnly spec) {day₀ : Int}
    (h₀ : DayMatches spec day₀) (day : Int) : ∃ k, day ≤ k ∧ k ≤ day + 365 ∧ DayMatches spec k := by
  have hmonth := hw.months _ h₀.1
  cases hdom : spec.domRestricted with
  | false =>
    -- Any weekday is one of the spec's, or the days are not restricted at all.
    obtain ⟨w, hmem⟩ := hw.someDayOfWeek
    obtain ⟨k, hle, hle', hm, hweek⟩ :=
      Calendar.exists_weekday hmonth (hw.daysOfWeek w hmem) day
    refine ⟨k, hle, hle', hm ▸ h₀.1, ?_⟩
    rw [hdom]
    cases spec.dowRestricted with
    | false => trivial
    | true => exact hweek ▸ hmem
  | true =>
    cases hdow : spec.dowRestricted with
    | true =>
      obtain ⟨w, hmem⟩ := hw.someDayOfWeek
      obtain ⟨k, hle, hle', hm, hweek⟩ :=
        Calendar.exists_weekday hmonth (hw.daysOfWeek w hmem) day
      refine ⟨k, hle, hle', hm ▸ h₀.1, ?_⟩
      rw [hdom, hdow]
      exact Or.inr (hweek ▸ hmem)
    | false =>
      obtain ⟨m, hm, d, hd, hlen, hne⟩ : ∃ m ∈ spec.months, ∃ d ∈ spec.daysOfMonth,
          d ≤ Calendar.monthLength 1 m ∧ ¬(m = 2 ∧ d = 29) := by
        by_contra hnone
        push Not at hnone
        exact hleap ⟨hdom, by rw [hdow]; exact Bool.false_ne_true,
          fun m hm d hd hlen => by_contra fun hne =>
            hne ⟨(hnone m hm d hd hlen).1, (hnone m hm d hd hlen).2⟩⟩
      have hlen' := le_monthLength_zero (hw.months m hm) hlen hne
      obtain ⟨k, hle, hle', hmk, hdk⟩ :=
        Calendar.exists_date (hw.months m hm) ⟨hw.daysOfMonth d hd, hlen'⟩ day
      refine ⟨k, hle, hle', hmk ▸ hm, ?_⟩
      rw [hdom, hdow]
      exact hdk ▸ hd

/-! ## The search -/

/-- A matching minute comes up in the 366 days from a time on. -/
def Near (spec : CronSpec) (start : Date) : Prop :=
  ∃ d, Slot spec d ∧ start.ms < d.ms ∧ d.ms ≤ floorToMinute start + cronScanLimit * minuteMs

/-- The first day, from a minute on, at which it is not yet past a time of the day. -/
theorem exists_day_from (t tod : Int) : ∃ day, t ≤ day * dayMs + tod ∧
    day * dayMs + tod < t + dayMs := by
  refine ⟨(t - tod + dayMs - 1) / dayMs, ?_⟩
  unfold dayMs
  omega

variable {d start : Date}

/-- The same time on another day. -/
theorem Date.on_day {e : Date} {day : Int} (h : e.ms = day * dayMs + d.ms % dayMs) :
    e.minutes = d.minutes ∧ e.hours = d.hours ∧ e.day = day ∧
      e.ms % minuteMs = d.ms % minuteMs := by
  unfold Date.minutes Date.hours Date.day
  unfold dayMs at h
  unfold minuteMs dayMs
  omega

/-- Every spec but one for 29 February finds its next time within the horizon. -/
theorem near_of_slot (hw : spec.WellFormed) (hleap : ¬LeapOnly spec)
    (h : Slot spec d) (hd : start.ms < d.ms) : Near spec start := by
  obtain ⟨hms, hmatch⟩ := h
  by_cases hfar : d.ms ≤ floorToMinute start + cronScanLimit * minuteMs
  · exact ⟨d, ⟨hms, hmatch⟩, hd, hfar⟩
  -- The same time of the day, on a day within the horizon; it is earlier than `d`, so
  -- it is a valid time.
  obtain ⟨hmin, hhour, hday⟩ := cronMatches_iff.mp hmatch
  obtain ⟨day, hfrom, hbefore⟩ := exists_day_from (floorToMinute start + minuteMs) (d.ms % dayMs)
  obtain ⟨k, hk, hk', hdayk⟩ := exists_dayMatches hw hleap hday day
  have hle : k * dayMs + d.ms % dayMs ≤ floorToMinute start + cronScanLimit * minuteMs ∧
      start.ms < k * dayMs + d.ms % dayMs := by
    unfold floorToMinute minuteMs cronScanLimit dayMs at *
    omega
  have hvalid : -maxTime ≤ k * dayMs + d.ms % dayMs ∧ k * dayMs + d.ms % dayMs ≤ maxTime := by
    have := start.valid
    have := d.valid
    omega
  obtain ⟨e, he⟩ : ∃ e : Date, e.ms = k * dayMs + d.ms % dayMs := ⟨⟨_, hvalid⟩, rfl⟩
  obtain ⟨hmin', hhour', hday', hms'⟩ := Date.on_day he
  refine ⟨e, ⟨hms'.trans hms, cronMatches_iff.mpr ⟨?_, ?_, ?_⟩⟩, he ▸ hle.2, he ▸ hle.1⟩
  · rwa [hmin']
  · rwa [hhour']
  · rwa [hday']

theorem newDate_eq_some {t : Int} : newDate t = some d ↔ d.ms = t := by
  unfold newDate
  split
  · rw [Option.some.injEq]
    constructor
    · rintro rfl
      rfl
    · rintro rfl
      rfl
  · next hinvalid =>
    refine ⟨nofun, ?_⟩
    rintro rfl
    exact absurd d.valid hinvalid

/-- The first minute of a search matches, or the search goes on at the next. -/
theorem scan_succ (n : Nat) (t : Int) :
    (∃ d, scan spec (n + 1) t = some d ∧ d.ms = t ∧ cronMatches spec d) ∨
      (scan spec (n + 1) t = scan spec n (t + minuteMs) ∧
        ∀ d : Date, d.ms = t → ¬cronMatches spec d) := by
  cases hmatch : (newDate t).filter (cronMatches spec) with
  | some d =>
    obtain ⟨hd, hmatch'⟩ := filter_eq_some_iff.mp hmatch
    exact Or.inl ⟨d, by rw [scan, hmatch, some_or], newDate_eq_some.mp hd, hmatch'⟩
  | none =>
    refine Or.inr ⟨by rw [scan, hmatch, none_or], fun d hd hd' => ?_⟩
    exact filter_eq_none_iff.mp hmatch d (newDate_eq_some.mpr hd) hd'

/-- A search finds the first matching minute. -/
theorem scan_eq_some {n : Nat} {t : Int} (ht : t % minuteMs = 0)
    (h : scan spec n t = some d) : Slot spec d ∧ t ≤ d.ms ∧
      ∀ e, Slot spec e → t ≤ e.ms → d.ms ≤ e.ms := by
  induction n generalizing t with
  | zero => cases h
  | succ n ih =>
    rcases @scan_succ spec n t with ⟨e, he, hms, hmatch⟩ | ⟨hnext, hno⟩
    · rw [he] at h
      cases h
      exact ⟨⟨hms ▸ ht, hmatch⟩, hms.ge, fun e _ hle => hms ▸ hle⟩
    · obtain ⟨hslot, hle, hleast⟩ := ih (by unfold minuteMs at *; omega) (hnext ▸ h)
      refine ⟨hslot, by unfold minuteMs at hle; omega, fun e he hte => hleast e he ?_⟩
      have hne : e.ms ≠ t := fun heq => hno e heq he.2
      have := he.1
      unfold minuteMs at *
      omega

/-- A search finds nothing when no minute that it looks at matches. -/
theorem scan_eq_none {n : Nat} {t : Int} (ht : t % minuteMs = 0) :
    scan spec n t = none ↔ ∀ d, Slot spec d → t ≤ d.ms → t + n * minuteMs ≤ d.ms := by
  induction n generalizing t with
  | zero => simp [scan]
  | succ n ih =>
    have ht' : (t + minuteMs) % minuteMs = 0 := by
      unfold minuteMs at *
      omega
    rcases @scan_succ spec n t with ⟨e, he, hms, hmatch⟩ | ⟨hnext, hno⟩
    · rw [he]
      refine ⟨nofun, fun hall => ?_⟩
      have := hall e ⟨hms ▸ ht, hmatch⟩ hms.ge
      unfold minuteMs at *
      omega
    · rw [hnext, ih ht']
      constructor
      · intro hall e he hte
        have hne : e.ms ≠ t := fun heq => hno e heq he.2
        have hle := hall e he (by have := he.1; unfold minuteMs at *; omega)
        unfold minuteMs at *
        omega
      · intro hall e he hte
        have hle := hall e he (by unfold minuteMs at *; omega)
        unfold minuteMs at *
        omega

theorem slot_after (hd : d.ms % minuteMs = 0) :
    floorToMinute start + minuteMs ≤ d.ms ↔ start.ms < d.ms := by
  unfold floorToMinute minuteMs at *
  omega

theorem floorToMinute_add (start : Date) : (floorToMinute start + minuteMs) % minuteMs = 0 := by
  unfold floorToMinute minuteMs
  omega

/-- `d` is the first matching minute after a time. -/
def IsNext (spec : CronSpec) (start d : Date) : Prop :=
  Slot spec d ∧ start.ms < d.ms ∧ ∀ e, Slot spec e → start.ms < e.ms → d.ms ≤ e.ms

theorem isNext_of_cronNext (h : cronNext spec start = some d) : IsNext spec start d := by
  obtain ⟨hslot, hle, hleast⟩ := scan_eq_some (floorToMinute_add start) h
  exact ⟨hslot, (slot_after hslot.1).mp hle,
    fun e he hlt => hleast e he ((slot_after he.1).mpr hlt)⟩

theorem cronNext_isSome : (∃ d, cronNext spec start = some d) ↔ Near spec start := by
  rw [← isSome_iff_exists, ← not_iff_not, not_isSome_iff_eq_none, cronNext,
    scan_eq_none (floorToMinute_add start)]
  constructor
  · rintro hall ⟨d, hslot, hlt, hle⟩
    have := hall d hslot ((slot_after hslot.1).mpr hlt)
    unfold minuteMs at *
    omega
  · intro hnone d hslot hle
    have hlt := (slot_after hslot.1).mp hle
    have hfar : ¬d.ms ≤ floorToMinute start + cronScanLimit * minuteMs :=
      fun h => hnone ⟨d, hslot, hlt, h⟩
    have := hslot.1
    unfold floorToMinute minuteMs at *
    omega

end

/-! ## Neither missed nor invented -/

/-- A job is due when a minute that matches has passed since its last run, or its
creation; and the next time that `cronNext` gives is the first to match, wherever one
does. -/
structure Schedules (spec : CronSpec) (lastRunAt : Option Date) (createdAt now start : Date) :
    Prop where
  due : isJobDue spec lastRunAt createdAt now ↔
    ∃ d, Slot spec d ∧ (lastRunAt.getD createdAt).ms < d.ms ∧ d.ms ≤ now.ms
  next : (∃ d, Slot spec d ∧ start.ms < d.ms) →
    ∃ d, cronNext spec start = some d ∧ IsNext spec start d

section

variable {spec : CronSpec} {lastRunAt : Option Date} {createdAt now start : Date}

theorem due_iff : (isJobDue spec lastRunAt createdAt now ↔
      ∃ d, Slot spec d ∧ (lastRunAt.getD createdAt).ms < d.ms ∧ d.ms ≤ now.ms) ↔
    ((∃ d, Slot spec d ∧ (lastRunAt.getD createdAt).ms < d.ms ∧ d.ms ≤ now.ms) →
      Near spec (lastRunAt.getD createdAt)) := by
  unfold isJobDue
  generalize lastRunAt.getD createdAt = since
  cases hnext : cronNext spec since with
  | none =>
    have hfar : ¬Near spec since := by
      rw [← cronNext_isSome, hnext]
      rintro ⟨d, ⟨⟩⟩
    simp only [any_none, Bool.false_eq_true, false_iff]
    exact ⟨fun h h' => absurd h' h, fun h h' => hfar (h h')⟩
  | some d =>
    obtain ⟨hslot, hlt, hleast⟩ := isNext_of_cronNext hnext
    simp only [any_some, decide_eq_true_eq]
    refine ⟨fun _ _ => cronNext_isSome.mp ⟨d, hnext⟩,
      fun _ => ⟨fun hle => ⟨d, hslot, hlt, hle⟩, ?_⟩⟩
    rintro ⟨e, he, hlt', hle⟩
    exact (hleast e he hlt').trans hle

theorem next_iff : ((∃ d, Slot spec d ∧ start.ms < d.ms) →
      ∃ d, cronNext spec start = some d ∧ IsNext spec start d) ↔
    ((∃ d, Slot spec d ∧ start.ms < d.ms) → Near spec start) := by
  constructor
  · intro h hslot
    obtain ⟨d, hd, -⟩ := h hslot
    exact cronNext_isSome.mp ⟨d, hd⟩
  · intro h hslot
    obtain ⟨d, hd⟩ := cronNext_isSome.mpr (h hslot)
    exact ⟨d, hd, isNext_of_cronNext hd⟩

end

/-- Every valid expression neither misses nor invents a run, but for one whose days are
all of 29 February: there it must come up within 366 days. -/
theorem schedules_iff {expr : String} {spec : CronSpec} (h : parseCron expr = .ok spec)
    (lastRunAt : Option Date) (createdAt now start : Date) :
    Schedules spec lastRunAt createdAt now start ↔ (LeapOnly spec →
      ((∃ d, Slot spec d ∧ (lastRunAt.getD createdAt).ms < d.ms ∧ d.ms ≤ now.ms) →
        Near spec (lastRunAt.getD createdAt)) ∧
      ((∃ d, Slot spec d ∧ start.ms < d.ms) → Near spec start)) := by
  have hw := parseCron_wellFormed h
  constructor
  · rintro ⟨hdue, hnext⟩ -
    exact ⟨due_iff.mp hdue, next_iff.mp hnext⟩
  · intro hleap
    by_cases hl : LeapOnly spec
    · exact ⟨due_iff.mpr (hleap hl).1, next_iff.mpr (hleap hl).2⟩
    · refine ⟨due_iff.mpr ?_, next_iff.mpr ?_⟩
      · rintro ⟨d, hslot, hlt, -⟩
        exact near_of_slot hw hl hslot hlt
      · rintro ⟨d, hslot, hlt⟩
        exact near_of_slot hw hl hslot hlt

/-- At a quarter past two on weekdays. -/
def onWeekdays : CronSpec where
  minutes := [15]
  hours := [2]
  daysOfMonth := (Range.mk 1 31 1).values
  months := (Range.mk 1 12 1).values
  daysOfWeek := (Range.mk 1 5 1).values
  domRestricted := false
  dowRestricted := true

/-- The first of March 2025. -/
def march2025 : Date := ⟨1740787200000, by decide⟩

theorem schedules_onWeekdays :
    Schedules onWeekdays none march2025 march2025 march2025 ↔ (LeapOnly onWeekdays →
      ((∃ d, Slot onWeekdays d ∧ march2025.ms < d.ms ∧ d.ms ≤ march2025.ms) →
        Near onWeekdays march2025) ∧
      ((∃ d, Slot onWeekdays d ∧ march2025.ms < d.ms) → Near onWeekdays march2025)) :=
  schedules_iff (show parseCron "15 2 * * 1-5" = .ok onWeekdays by decide +kernel)
    none march2025 march2025 march2025

/-- Midnight on 29 February. -/
def onLeapDay : CronSpec where
  minutes := [0]
  hours := [0]
  daysOfMonth := [29]
  months := [2]
  daysOfWeek := 0 :: (Range.mk 0 6 1).values
  domRestricted := true
  dowRestricted := false

/-- No day of the 366 after the first of March 2025 is a 29 February. -/
theorem not_near_march2025 : ¬Near onLeapDay march2025 := by
  rintro ⟨d, ⟨-, hmatch⟩, hlt, hle⟩
  obtain ⟨-, -, hmonth, hdate⟩ := cronMatches_iff.mp hmatch
  have hnone : ∀ i < 367, ¬(Calendar.month (20148 + (i : Nat)) ∈ onLeapDay.months ∧
      Calendar.date (20148 + (i : Nat)) ∈ onLeapDay.daysOfMonth) := by decide +kernel
  have hday : d.day = 20148 + ((d.day - 20148).toNat : Nat) ∧ (d.day - 20148).toNat < 367 := by
    unfold floorToMinute cronScanLimit minuteMs at hle
    have hms : march2025.ms = 1740787200000 := rfl
    unfold Date.day dayMs
    omega
  exact hnone _ hday.2 ⟨hday.1 ▸ hmonth, hday.1 ▸ hdate⟩

/-- In March 2025 no next run is found, though 29 February 2028 matches. -/
theorem not_schedules : ¬∀ (expr : String) (spec : CronSpec), parseCron expr = .ok spec →
      ∀ lastRunAt createdAt now start, Schedules spec lastRunAt createdAt now start := by
  intro h
  have hparse : parseCron "0 0 29 2 *" = .ok onLeapDay := by decide +kernel
  have hslot : Slot onLeapDay ⟨1835395200000, by decide⟩ := ⟨by decide, by decide +kernel⟩
  have hsched := h _ _ hparse none march2025 march2025 march2025
  exact not_near_march2025 (next_iff.mp hsched.next ⟨_, hslot, by decide⟩)

end Swarmy.Schedule
