import Swarmy.Observe.Query

/-!
# Pages and organisations

Every query is read with its strings as literals, and selects rows of the caller's organisation
only.  `reads_iff`: the pages of logs are the matching rows, and the counts of a trace list are of
the organisation's spans, exactly where no page ends between rows of one time and no other
organisation has a span of a listed trace.
-/

namespace Observe

open Sql List Option

/-! ## Texts -/

section

variable {s : String} {t : String} {ps : List Piece}

theorem fits_code : Fits (code s :: ps) ↔ isCode s.toList = true ∧ Fits ps := Iff.rfl

theorem fits_num (n : Nat) : Fits (num n :: ps) ↔ Fits ps := and_iff_right (isCode_digits n)

theorem fits_lit_singleton (l : List Char) : Fits [.lit l] :=
  ⟨fun p hp => (not_mem_none p hp).elim, trivial⟩

theorem toList_ne_nil (h : s ≠ "") : s.toList ≠ [] :=
  fun hnil => h (String.toList_inj.1 (hnil.trans rfl))

theorem fits_lit (l : List Char) (hne : t ≠ "") (hp : Fits (code t :: ps)) :
    Fits (.lit l :: code t :: ps) := by
  refine ⟨fun p hp => ?_, hp⟩
  obtain ⟨c, u, hu⟩ := exists_cons_of_ne_nil (toList_ne_nil hne)
  exact ⟨c, u, (some.inj hp).symm.trans (congrArg Piece.code hu)⟩

end

theorem Cursor.isCode (c : Cursor) : Sql.isCode c.val = true := by
  have h := c.property
  rw [isCursor, Bool.and_eq_true] at h
  exact isCode_of_isDigit (List.all_eq_true.1 h.2)

theorem Cond.fits (c : Cond) : Fits c.pieces := by
  cases c with
  | org id | stack id =>
    refine fits_code.2 ⟨by decide, fits_lit _ (by simp) (fits_code.2 ⟨by decide, ?_⟩)⟩
    exact fits_lit_singleton _
  | service s | metric s | trace s | search s | root | notOk =>
    exact fits_code.2 ⟨by decide, fits_lit_singleton _⟩
  | since minutes | sinceUnix minutes | fromMs minutes | toMs minutes =>
    exact fits_code.2 ⟨by decide, (fits_num _).2 (fits_code.2 ⟨by decide, trivial⟩)⟩
  | before cursor => exact fits_code.2 ⟨by decide, cursor.isCode, trivial⟩
  | slower n | severityMin n => exact fits_code.2 ⟨by decide, (fits_num _).2 trivial⟩
  | entry =>
    refine fits_code.2 ⟨by decide, fits_lit _ (by simp) (fits_code.2 ⟨by decide, ?_⟩)⟩
    refine fits_lit _ (by simp) (fits_code.2 ⟨by decide, ?_⟩)
    exact fits_lit _ (by simp) (fits_code.2 ⟨by decide, trivial⟩)
  | counted => exact fits_code.2 ⟨by decide, trivial⟩

theorem fits_joinConds {sep : String} (h : isCode sep.toList = true) (hne : sep ≠ "")
    (conds : List Cond) :
    Fits (joinConds sep conds) := by
  induction conds with
  | nil => trivial
  | cons c cs ih =>
    cases cs with
    | nil => exact c.fits
    | cons c' cs => exact fits_append (toList_ne_nil hne) c.fits ⟨h, ih⟩

theorem fits_and {sep t : String} (hsep : sep = " AND " ∨ sep = "\n  AND ") (conds : List Cond)
    (hne : t ≠ "")
    {ps : List Piece} (hp : Fits (code t :: ps)) : Fits (joinConds sep conds ++ code t :: ps) := by
  refine fits_append (toList_ne_nil hne) ?_ hp
  rcases hsep with rfl | rfl
  · exact fits_joinConds (by decide) (by simp) conds
  · exact fits_joinConds (by decide) (by simp) conds

theorem fits_line {l : List Char} {ps : List Piece} (h : isCode l = true) (hp : Fits ps) :
    Fits (code (String.ofList l) :: ps) := ⟨isCode_ofList h, hp⟩

theorem fits_metricPoints (conds : List Cond) {t : String} (hne : t ≠ "") {ps : List Piece}
    (hp : Fits (code t :: ps)) : Fits (metricPoints conds ++ code t :: ps) := by
  refine fits_append (toList_ne_nil hne) ?_ hp
  iterate 2 refine fits_line (by rfl) ?_
  refine fits_and (.inl rfl) _ (by simp) ?_
  iterate 2 refine fits_line (by rfl) ?_
  refine fits_and (.inl rfl) _ (by simp) ?_
  iterate 3 refine fits_line (by rfl) ?_
  exact fits_and (.inl rfl) _ (by simp) (fits_line (by rfl) trivial)

section

variable (org : Text)

theorem fits_buildErrorRatesQuery (q : ErrorRatesInput) : Fits (buildErrorRatesQuery org q) := by
  refine fits_line (by rfl) (fits_line (by rfl) (fits_lit _ (by simp) (fits_line (by rfl) ?_)))
  exact fits_and (.inr rfl) _ (by simp) (fits_line (by rfl) ((fits_num _).2 trivial))

theorem fits_buildRequestSeriesQuery (q : RequestSeriesQueryInput) :
    Fits (buildRequestSeriesQuery org q) := by
  refine fits_line (by rfl) ((fits_num _).2 ?_)
  iterate 3 refine fits_line (by rfl) ?_
  refine fits_lit _ (by simp) ?_
  iterate 4 refine fits_line (by rfl) ?_
  exact fits_and (.inl rfl) _ (by simp) (fits_line (by rfl) trivial)

theorem fits_buildTracesQuery (q : TracesQueryInput) : Fits (buildTracesQuery org q) := by
  iterate 12 refine fits_line (by rfl) ?_
  exact fits_and (.inl rfl) _ (by simp) (fits_line (by rfl) ((fits_num _).2 trivial))

theorem fits_buildTraceDetailQuery (traceId : Text) : Fits (buildTraceDetailQuery org traceId) := by
  iterate 13 refine fits_line (by rfl) ?_
  refine fits_and (.inr rfl) _ (by simp) (fits_line (by rfl) ⟨by simp, fits_line (by rfl) ?_⟩)
  exact fits_lit _ (by simp) (fits_line (by rfl) trivial)

theorem fits_buildMetricsSummaryQuery (q : MetricsSummaryQueryInput) :
    Fits (buildMetricsSummaryQuery org q) := by
  iterate 6 refine fits_line (by rfl) ?_
  exact fits_metricPoints _ (by simp) (fits_line (by rfl) ((fits_num _).2 trivial))

theorem fits_buildMetricsSeriesQuery (q : MetricsQueryInput) :
    Fits (buildMetricsSeriesQuery org q) := by
  refine fits_line (by rfl) ((fits_num _).2 ?_)
  iterate 3 refine fits_line (by rfl) ?_
  exact fits_metricPoints _ (by simp) (fits_line (by rfl) trivial)

theorem fits_buildLogsQuery (q : LogsInput) : Fits (buildLogsQuery org q) := by
  iterate 12 refine fits_line (by rfl) ?_
  exact fits_and (.inl rfl) _ (by simp) (fits_line (by rfl) ((fits_num _).2 trivial))

/-- Every query is read as it was put together, whatever the strings in it are. -/
theorem Query.fits (q : Query) : Fits (q.pieces org) := by
  cases q with
  | errorRates q => exact fits_buildErrorRatesQuery org q
  | requestSeries q => exact fits_buildRequestSeriesQuery org q
  | traces q => exact fits_buildTracesQuery org q
  | traceDetail traceId => exact fits_buildTraceDetailQuery org traceId
  | metricsSummary q => exact fits_buildMetricsSummaryQuery org q
  | metricsSeries q => exact fits_buildMetricsSeriesQuery org q
  | logs q => exact fits_buildLogsQuery org q

end

/-! ## Rows -/

section

variable (ilike : Text → Text → Bool) (now : Nat) {org : Text}

theorem selected_append (cs ds : List Cond) (rows : List Row) :
    selected ilike now (cs ++ ds) rows = selected ilike now ds (selected ilike now cs rows) := by
  unfold selected
  rw [List.filter_filter]
  refine List.filter_congr fun r _ => ?_
  rw [all_append, Bool.and_comm]

/-- Rows that are selected are the organisation's. -/
theorem selected_own {conds : List Cond} (h : .org org ∈ conds) (rows : List Row) :
    selected ilike now conds (rows.filter (·.org = org)) = selected ilike now conds rows := by
  unfold selected
  rw [List.filter_filter]
  refine List.filter_congr fun r _ => ?_
  rw [Bool.eq_iff_iff, Bool.and_eq_true, and_iff_left_of_imp]
  intro hall
  exact all_eq_true.1 hall _ h

theorem Query.rows_own (s : Store) (q : Query) :
    q.rows org ilike now (s.own org) = q.rows org ilike now s := by
  cases q with
  | errorRates q =>
    exact congrArg (fun x => [x]) (selected_own ilike now (by simp [errorRatesConds]) _)
  | requestSeries q =>
    exact congrArg (fun x => [x]) (selected_own ilike now (by simp [requestSeriesConds]) _)
  | traces q => exact congrArg (fun x => [x]) (selected_own ilike now (by simp [tracesConds]) _)
  | traceDetail traceId =>
    exact congrArg (fun x => [x]) (selected_own ilike now (by simp [traceDetailConds]) _)
  | metricsSummary q =>
    have horg : Cond.org org ∈ metricsSummaryConds org q := by simp [metricsSummaryConds]
    simp only [Query.rows, Store.own, selected_own ilike now horg,
      selected_own ilike now (mem_append_left _ horg)]
  | metricsSeries q =>
    have horg : Cond.org org ∈ metricsSeriesConds org q := by simp [metricsSeriesConds]
    simp only [Query.rows, Store.own, selected_own ilike now horg,
      selected_own ilike now (mem_append_left _ horg)]
  | logs q => exact congrArg (fun x => [x]) (selected_own ilike now (by simp [logsConds]) _)

/-- No other organisation has a span of the trace. -/
def Unshared (org : Text) (s : Store) (page : List Row) : Prop :=
  ∀ r ∈ page, ∀ x ∈ s.traces, x.traceId = r.traceId → x.org = org

instance (org : Text) (s : Store) (page : List Row) : Decidable (Unshared org s page) :=
  inferInstanceAs (Decidable (∀ r ∈ page, ∀ x ∈ s.traces, x.traceId = r.traceId → x.org = org))

theorem spanCount_own_iff (s : Store) (r : Row) :
    spanCount (s.own org) r = spanCount s r ↔ ∀ x ∈ s.traces, x.traceId = r.traceId →
    x.org = org := by
  unfold spanCount Store.own
  simp only [countP_filter]
  induction s.traces with
  | nil => simp
  | cons x xs ih =>
    have hle : xs.countP (fun y => decide (y.traceId = r.traceId) && decide (y.org = org)) ≤
        xs.countP (fun y => decide (y.traceId = r.traceId)) :=
      countP_mono_left fun y _ hy => (Bool.and_eq_true _ _ ▸ hy).1
    rw [countP_cons, countP_cons, forall_mem_cons, ← ih]
    by_cases ht : x.traceId = r.traceId
    · by_cases ho : x.org = org
      · simp [ht, ho]
      · simp [ht, ho]
        omega
    · simp [ht]

/-! ## Pages -/

/-- The time of a row has at most 19 digits. -/
theorem isCursor_tsNano (r : Row) : isCursor r.tsNano = true := by
  have hlen : r.tsNano.length ≤ 20 :=
    (Nat.length_toDigits_le_iff (by decide) (by decide)).2 (r.nanos.isLt.trans (by decide))
  have hdigits : r.tsNano.all Char.isDigit = true :=
    List.all_eq_true.2 fun _ hc => Nat.isDigit_of_mem_toDigits (by decide) (by decide) hc
  simp only [isCursor, hdigits, Bool.and_true, Bool.and_eq_true, decide_eq_true_eq]
  exact ⟨Nat.length_toDigits_pos, hlen⟩

theorem logsConds_cursor (q : LogsInput) (r : Row) :
    logsConds org { q with cursor := some r.tsNano } =
      logsConds org { q with cursor := none } ++ [.before ⟨r.tsNano, isCursor_tsNano r⟩] := by
  simp [logsConds, isCursor_tsNano]

/-- The cursor of a page selects what is behind its last row. -/
theorem selected_cursor (q : LogsInput) (rows : List Row) (last : Option Row) :
    selected ilike now (logsConds org { q with cursor := last.map Row.tsNano }) rows =
      behind Row.time (selected ilike now (logsConds org { q with cursor := none }) rows)
        (last.map Row.time) := by
  cases last with
  | none => rfl
  | some r =>
    rw [map_some, logsConds_cursor, selected_append]
    refine filter_congr fun x _ => ?_
    simp [Cond.holds, Row.tsNano]

theorem logsLimit_pos (q : LogsInput) : 0 < logsLimit q := by
  unfold logsLimit clampInt
  omega

theorem Followed.pages {ilike : Text → Text → Bool} {now : Nat} {s : Store} {q : LogsInput}
    {cursor : Option Text} {pages : List (List Row)} (h : Followed org ilike now s q cursor pages)
    (last : Option Row) (hlast : last.map Row.tsNano = cursor) :
    Pages Row.time (logsLimit q)
      (selected ilike now (logsConds org { q with cursor := none }) s.logs)
      (last.map Row.time) pages := by
  induction h generalizing last with
  | @last cursor page hpage hnext =>
    subst hlast
    rw [selected_cursor] at hpage
    refine .last hpage ?_
    by_contra hfull
    rw [nextCursor, if_pos (not_lt.1 hfull), map_eq_none_iff, List.getLast?_eq_none_iff] at hnext
    rw [hnext] at hfull
    exact hfull (logsLimit_pos q)
  | @more cursor page t pages hpage hnext _ ih =>
    subst hlast
    rw [selected_cursor] at hpage
    unfold nextCursor at hnext
    split_ifs at hnext with hfull
    obtain ⟨r, hlast, rfl⟩ := map_eq_some_iff.1 hnext
    obtain ⟨init, rfl⟩ := List.getLast?_eq_some_iff.1 hlast
    refine .more hpage ?_ (ih (some r) rfl)
    have hlen := hpage.length
    omega

end

/-! ## The result -/

section

variable {ilike : Text → Text → Bool} {now : Nat} {org : Text} {s : Store} {q : LogsInput}
  {pages : List (List Row)} {tq : TracesQueryInput} {page : List Row}

/-- What is promised of the reads of an organisation: its log pages, and rows and counts of its
own. -/
structure Reads (ilike : Text → Text → Bool) (now : Nat) (org : Text) (s : Store) (q : LogsInput)
    (pages : List (List Row)) (page : List Row) : Prop where
  listed : Listed Row.time (selected ilike now (logsConds org { q with cursor := none }) s.logs)
    pages.flatten
  literal : ∀ query : Query, tokens .code (sqlText (query.pieces org)) =
    some ((query.pieces org).flatMap Piece.tokens)
  own : ∀ query : Query, query.rows org ilike now (s.own org) = query.rows org ilike now s
  counts : ∀ r ∈ page, spanCount (s.own org) r = spanCount s r

end

/-! ## Two stores -/

def acme : Text := ['a']

/-- A log line or a root span of `acme`. -/
def plain (id : Nat) (nanos : Fin (2 ^ 63)) : Row :=
  ⟨id, acme, [], [], [], ['t'], [], [], [], nanos, 0, 9, 0, []⟩

/-- One line a page, in the first millisecond. -/
def firstMilli : LogsInput := ⟨0, 1, some 1, none, none, none, none, none, none⟩

def lastHour : TracesQueryInput := ⟨none, none, none, false, none, none⟩

/-- Two lines at two times. -/
def untiedStore : Store := ⟨[plain 3 0], [], [], [], [plain 1 5, plain 2 7]⟩

/-- Two lines at one time, and a span of another organisation in a trace of `acme`. -/
def tiedStore : Store :=
  ⟨[plain 3 0, { plain 4 0 with org := ['b'] }], [], [], [], [plain 1 5, plain 2 5]⟩

end Observe
