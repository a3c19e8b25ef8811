import Swarmy.Sql.Keyset

/-!
# Queries of the observability store

The builders of the module, each as the pieces of its text, and the rows that the store selects
for its conditions.  Which rows of an order's ties come first, and what is aggregated of the rows,
is the store's.
-/

namespace Observe

open Sql

abbrev Text := List Char

/-! ## The store -/

/-- A row of one of the tables: a span, a point of a metric, or a log line. -/
structure Row where
  id : Nat
  org : Text
  stack : Text
  service : Text
  metric : Text
  traceId : Text
  parentSpanId : Text
  spanKind : Text
  statusCode : Text
  /-- The store keeps a timestamp in 64 bits. -/
  nanos : Fin (2 ^ 63)
  duration : Nat
  severity : Nat
  count : Nat
  body : Text
deriving DecidableEq

/-- In nanoseconds. -/
def Row.time (r : Row) : Nat := r.nanos

structure Store where
  traces : List Row
  gauges : List Row
  sums : List Row
  histograms : List Row
  logs : List Row

/-- An organisation's part. -/
def Store.own (org : Text) (s : Store) : Store where
  traces := s.traces.filter (·.org = org)
  gauges := s.gauges.filter (·.org = org)
  sums := s.sums.filter (·.org = org)
  histograms := s.histograms.filter (·.org = org)
  logs := s.logs.filter (·.org = org)

/-! ## Conditions -/

def code (s : String) : Piece := .code s.toList

def str (s : String) : Piece := .lit s.toList

/-- `/^\d\x7b1,20\x7d$/.test(s)`. -/
def isCursor (s : Text) : Bool := 1 ≤ s.length && s.length ≤ 20 && s.all Char.isDigit

/-- A text that is no cursor is ignored. -/
def Cursor : Type := {s : Text // isCursor s}

inductive Cond where
  | org (id : Text)
  | stack (s : Text)
  | service (s : Text)
  | metric (s : Text)
  | trace (id : Text)
  | since (minutes : Nat)
  | sinceUnix (minutes : Nat)
  | fromMs (n : Nat)
  | toMs (n : Nat)
  | before (cursor : Cursor)
  | entry
  | root
  | notOk
  | slower (ns : Nat)
  | severityMin (n : Nat)
  | search (term : Text)
  | counted

/-- `likeTerm`. -/
def likeTerm (term : Text) : Text :=
  term.flatMap fun c => if c = '\\' ∨ c = '%' ∨ c = '_' then ['\\', c] else [c]

def Cond.pieces : Cond → List Piece
  | .org id => [code "ResourceAttributes[", str "swarmy.org_id", code "] = ", .lit id]
  | .stack s => [code "ResourceAttributes[", str "swarmy.stack", code "] = ", .lit s]
  | .service s => [code "ServiceName = ", .lit s]
  | .metric s => [code "MetricName = ", .lit s]
  | .trace id => [code "TraceId = ", .lit id]
  | .since minutes => [code "Timestamp >= now() - INTERVAL ", num minutes, code " MINUTE"]
  | .sinceUnix minutes => [code "TimeUnix >= now() - INTERVAL ", num minutes, code " MINUTE"]
  | .fromMs n => [code "Timestamp >= fromUnixTimestamp64Milli(", num n, code ")"]
  | .toMs n => [code "Timestamp <= fromUnixTimestamp64Milli(", num n, code ")"]
  | .before cursor => [code "toUnixTimestamp64Nano(Timestamp) < ", .code cursor.val]
  | .entry => [code "(SpanKind IN (", str "SPAN_KIND_SERVER", code ", ", str "SPAN_KIND_CONSUMER",
      code ") OR ParentSpanId = ", str "", code ")"]
  | .root => [code "ParentSpanId = ", str ""]
  | .notOk => [code "StatusCode != ", str "STATUS_CODE_OK"]
  | .slower ns => [code "Duration >= ", num ns]
  | .severityMin n => [code "SeverityNumber >= ", num n]
  | .search term => [code "Body ILIKE ", .lit ('%' :: likeTerm term ++ ['%'])]
  | .counted => [code "Count > 0"]

/-- Nanoseconds of a minute. -/
def MINUTE : Nat := 60 * 10 ^ 9

/-- Nanoseconds of a millisecond. -/
def MILLI : Nat := 10 ^ 6

section

variable (ilike : Text → Text → Bool) (now : Nat)

/-- What a condition says of a row; `ilike` is the store's. -/
def Cond.holds (r : Row) : Cond → Bool
  | .org id => r.org = id
  | .stack s => r.stack = s
  | .service s => r.service = s
  | .metric s => r.metric = s
  | .trace id => r.traceId = id
  | .since minutes | .sinceUnix minutes => now ≤ r.time + minutes * MINUTE
  | .fromMs n => n * MILLI ≤ r.time
  | .toMs n => r.time ≤ n * MILLI
  | .before cursor => r.time < Nat.ofDigitChars 10 cursor.val 0
  | .entry => r.spanKind = "SPAN_KIND_SERVER".toList || r.spanKind = "SPAN_KIND_CONSUMER".toList ||
      r.parentSpanId = []
  | .root => r.parentSpanId = []
  | .notOk => r.statusCode ≠ "STATUS_CODE_OK".toList
  | .slower ns => ns ≤ r.duration
  | .severityMin n => n ≤ r.severity
  | .search term => ilike r.body ('%' :: likeTerm term ++ ['%'])
  | .counted => 0 < r.count

/-- The rows that satisfy all of the conditions. -/
def selected (conds : List Cond) (rows : List Row) : List Row :=
  rows.filter fun r => conds.all (Cond.holds ilike now r)

end

/-- Conditions with a text between them. -/
def joinConds (sep : String) : List Cond → List Piece
  | [] => []
  | [c] => c.pieces
  | c :: cs => c.pieces ++ code sep :: joinConds sep cs

/-! ## The builders -/

def clampInt (n : Option Int) (default_ low high : Int) : Nat :=
  (min high (max low (n.getD default_))).toNat

/-- A filter that is given and not empty. -/
def optional (f : Text → Cond) : Option Text → List Cond
  | none | some [] => []
  | some s => [f s]

structure ErrorRatesInput where
  windowMinutes : Int
  entrySpansOnly : Bool
  limit : Option Nat

structure RequestSeriesQueryInput where
  stack : Option Text
  service : Option Text
  windowMinutes : Option Int
  bucketSeconds : Option Int

structure TracesQueryInput where
  service : Option Text
  stack : Option Text
  minDurationMs : Option Nat
  errorsOnly : Bool
  windowMinutes : Option Int
  limit : Option Int

structure MetricsSummaryQueryInput where
  metric : Text
  stack : Option Text
  windowMinutes : Option Int
  limit : Option Int

structure MetricsQueryInput where
  metric : Text
  service : Option Text
  stack : Option Text
  windowMinutes : Option Int
  bucketSeconds : Option Int

structure LogsInput where
  «from» : Int
  «to» : Int
  limit : Option Int
  stack : Option Text
  serviceName : Option Text
  severityMin : Option Int
  search : Option Text
  traceId : Option Text
  cursor : Option Text

def WEEK : Int := 60 * 24 * 7

variable (org : Text)

def errorRatesConds (q : ErrorRatesInput) : List Cond :=
  [.org org, .since (max 1 q.windowMinutes).toNat] ++ if q.entrySpansOnly then [.entry] else []

def buildErrorRatesQuery (q : ErrorRatesInput) : List Piece :=
  [code "SELECT ServiceName AS service, count() AS calls,\n",
    code "  countIf(StatusCode = ", str "STATUS_CODE_ERROR",
    code ") AS errors\nFROM otel_traces\nWHERE "] ++ joinConds "\n  AND " (errorRatesConds org q) ++
    [code "\nGROUP BY service\nLIMIT ", num (q.limit.getD 200)]

def requestSeriesConds (q : RequestSeriesQueryInput) : List Cond :=
  [.org org, .since (clampInt q.windowMinutes 180 1 WEEK), .entry] ++ optional .stack q.stack ++
    optional .service q.service

def buildRequestSeriesQuery (q : RequestSeriesQueryInput) : List Piece :=
  [code "SELECT\n  toString(toStartOfInterval(Timestamp, INTERVAL ",
    num (clampInt q.bucketSeconds 300 5 3600),
    code " SECOND)) AS bucket,\n",
    code "  count() AS calls,\n",
    code "  countIf(StatusCode = ", str "STATUS_CODE_ERROR",
    code ") AS errors,\n",
    code "  round(quantile(0.95)(Duration) / 1000000, 2) AS p95_ms\n",
    code "FROM otel_traces\n",
    code "WHERE "] ++
    joinConds " AND " (requestSeriesConds org q) ++ [code "\nGROUP BY bucket\nORDER BY bucket ASC"]

def tracesConds (q : TracesQueryInput) : List Cond :=
  [.org org, .since (clampInt q.windowMinutes 60 1 WEEK), .root] ++ optional .service q.service ++
    optional .stack q.stack ++
    (match q.minDurationMs with
      | none | some 0 => []
      | some ms => [.slower (ms * 1000000)]) ++
    if q.errorsOnly then [.notOk] else []

def tracesLimit (q : TracesQueryInput) : Nat := clampInt q.limit 100 1 500

def buildTracesQuery (q : TracesQueryInput) : List Piece :=
  [code "SELECT\n",
    code "  TraceId AS trace_id,\n",
    code "  SpanId AS span_id,\n",
    code "  ServiceName AS service_name,\n",
    code "  SpanName AS span_name,\n",
    code "  round(Duration / 1000000, 2) AS duration_ms,\n",
    code "  StatusCode AS status_code,\n",
    code "  (SELECT count() FROM otel_traces t2 WHERE t2.TraceId = otel_traces.TraceId) ",
    code "AS span_count,\n",
    code "  toString(Timestamp) AS start_time\n",
    code "FROM otel_traces\n",
    code "WHERE "] ++
    joinConds " AND " (tracesConds org q) ++
    [code "\nORDER BY Timestamp DESC\nLIMIT ", num (tracesLimit q)]

/-- The sub-select of a row of the trace list. -/
def spanCount (s : Store) (r : Row) : Nat := s.traces.countP (·.traceId = r.traceId)

def traceDetailConds (traceId : Text) : List Cond := [.org org, .trace traceId]

def buildTraceDetailQuery (traceId : Text) : List Piece :=
  [code "SELECT\n",
    code "  TraceId AS trace_id,\n",
    code "  SpanId AS span_id,\n",
    code "  ParentSpanId AS parent_span_id,\n",
    code "  ServiceName AS service_name,\n",
    code "  SpanName AS span_name,\n",
    code "  SpanKind AS span_kind,\n",
    code "  toString(toUnixTimestamp64Nano(Timestamp)) AS start_unix_nano,\n",
    code "  round(Duration / 1000000, 3) AS duration_ms,\n",
    code "  StatusCode AS status_code,\n",
    code "  StatusMessage AS status_message\n",
    code "FROM otel_traces\n",
    code "WHERE "] ++
    joinConds "\n  AND " (traceDetailConds org traceId) ++
    [code "\n", .comment " root span(s) first, then chronological for a stable waterfall".toList,
      code "ORDER BY ParentSpanId = ", str "", code " DESC, Timestamp ASC, SpanId ASC\nLIMIT 2000"]

def metricPoints (conds : List Cond) : List Piece :=
  [code "(\n",
    code "  SELECT ServiceName, TimeUnix, Value FROM otel_metrics_gauge WHERE "] ++
      joinConds " AND " conds ++
    ([code "\n  UNION ALL\n",
    code "  SELECT ServiceName, TimeUnix, Value FROM otel_metrics_sum WHERE "] ++
      joinConds " AND " conds ++
      ([code "\n  UNION ALL\n",
    code "  SELECT ServiceName, TimeUnix, Sum / Count AS Value ",
    code "FROM otel_metrics_histogram WHERE "] ++
        joinConds " AND " conds ++ [code " AND Count > 0\n)"]))

def metricsSummaryConds (q : MetricsSummaryQueryInput) : List Cond :=
  [.org org, .metric q.metric, .sinceUnix (clampInt q.windowMinutes 60 1 WEEK)] ++
    optional .stack q.stack

def buildMetricsSummaryQuery (q : MetricsSummaryQueryInput) : List Piece :=
  [code "SELECT\n",
    code "  ServiceName AS service_name,\n",
    code "  round(avg(Value), 4) AS avg_value,\n",
    code "  round(max(Value), 4) AS max_value,\n",
    code "  count() AS samples\n",
    code "FROM "] ++
    (metricPoints (metricsSummaryConds org q) ++
      [code "\nGROUP BY service_name\nORDER BY avg_value DESC\nLIMIT ",
        num (clampInt q.limit 50 1 200)])

def metricsSeriesConds (q : MetricsQueryInput) : List Cond :=
  [.org org, .metric q.metric, .sinceUnix (clampInt q.windowMinutes 60 1 WEEK)] ++
    optional .service q.service ++ optional .stack q.stack

def buildMetricsSeriesQuery (q : MetricsQueryInput) : List Piece :=
  [code "SELECT\n  toString(toStartOfInterval(TimeUnix, INTERVAL ",
    num (clampInt q.bucketSeconds 60 5 3600),
    code " SECOND)) AS bucket,\n",
    code "  round(avg(Value), 4) AS value\n",
    code "FROM "] ++
    (metricPoints (metricsSeriesConds org q) ++ [code "\nGROUP BY bucket\nORDER BY bucket ASC"])

def logsLimit (q : LogsInput) : Nat := clampInt q.limit 200 1 500

def logsConds (q : LogsInput) : List Cond :=
  let from_ := q.from.toNat
  [.org org, .fromMs from_, .toMs (max from_ q.to.toNat)] ++ optional .stack q.stack ++
    optional .service q.serviceName ++
    (match q.severityMin with
      | none => []
      | some n => [.severityMin (clampInt (some n) 9 1 24)]) ++
    optional .search q.search ++ optional .trace q.traceId ++
    (match q.cursor with
      | none => []
      | some cursor => if h : isCursor cursor then [.before ⟨cursor, h⟩] else [])

def buildLogsQuery (q : LogsInput) : List Piece :=
  [code "SELECT\n",
    code "  toString(Timestamp) AS timestamp,\n",
    code "  toString(toUnixTimestamp64Nano(Timestamp)) AS ts_nano,\n",
    code "  TraceId AS trace_id,\n",
    code "  SpanId AS span_id,\n",
    code "  SeverityText AS severity_text,\n",
    code "  SeverityNumber AS severity_number,\n",
    code "  ServiceName AS service_name,\n",
    code "  Body AS body,\n",
    code "  LogAttributes AS attributes\n",
    code "FROM otel_logs\n",
    code "WHERE "] ++
    joinConds " AND " (logsConds org q) ++ [code "\nORDER BY Timestamp DESC\nLIMIT ",
      num (logsLimit q)]

/-! ## A query of the module -/

inductive Query where
  | errorRates (q : ErrorRatesInput)
  | requestSeries (q : RequestSeriesQueryInput)
  | traces (q : TracesQueryInput)
  | traceDetail (traceId : Text)
  | metricsSummary (q : MetricsSummaryQueryInput)
  | metricsSeries (q : MetricsQueryInput)
  | logs (q : LogsInput)

def Query.pieces : Query → List Piece
  | .errorRates q => buildErrorRatesQuery org q
  | .requestSeries q => buildRequestSeriesQuery org q
  | .traces q => buildTracesQuery org q
  | .traceDetail traceId => buildTraceDetailQuery org traceId
  | .metricsSummary q => buildMetricsSummaryQuery org q
  | .metricsSeries q => buildMetricsSeriesQuery org q
  | .logs q => buildLogsQuery org q

/-- The rows that are selected of each table that a query reads in its `FROM`. -/
def Query.rows (ilike : Text → Text → Bool) (now : Nat) (s : Store) : Query → List (List Row)
  | .errorRates q => [selected ilike now (errorRatesConds org q) s.traces]
  | .requestSeries q => [selected ilike now (requestSeriesConds org q) s.traces]
  | .traces q => [selected ilike now (tracesConds org q) s.traces]
  | .traceDetail traceId => [selected ilike now (traceDetailConds org traceId) s.traces]
  | .metricsSummary q =>
    [selected ilike now (metricsSummaryConds org q) s.gauges,
      selected ilike now (metricsSummaryConds org q) s.sums,
      selected ilike now (metricsSummaryConds org q ++ [.counted]) s.histograms]
  | .metricsSeries q =>
    [selected ilike now (metricsSeriesConds org q) s.gauges,
      selected ilike now (metricsSeriesConds org q) s.sums,
      selected ilike now (metricsSeriesConds org q ++ [.counted]) s.histograms]
  | .logs q => [selected ilike now (logsConds org q) s.logs]

/-! ## Pages of logs -/

/-- `toString(toUnixTimestamp64Nano(Timestamp))`. -/
def Row.tsNano (r : Row) : Text := Nat.toDigits 10 r.time

/-- `nextCursor`: the time of the last row of a page that is full. -/
def nextCursor (q : LogsInput) (rows : List Row) : Option Text :=
  if logsLimit q ≤ rows.length then rows.getLast?.map Row.tsNano else none

/-- The pages that are read by following the cursor. -/
inductive Followed (ilike : Text → Text → Bool) (now : Nat) (s : Store) (q : LogsInput) :
    Option Text → List (List Row) → Prop
  | last {cursor : Option Text} {page : List Row} :
      Newest Row.time (logsLimit q) (selected ilike now
        (logsConds org { q with cursor }) s.logs) page →
      nextCursor q page = none → Followed ilike now s q cursor [page]
  | more {cursor : Option Text} {page : List Row} {t : Text} {pages : List (List Row)} :
      Newest Row.time (logsLimit q) (selected ilike now
        (logsConds org { q with cursor }) s.logs) page →
      nextCursor q page = some t → Followed ilike now s q (some t) pages →
      Followed ilike now s q cursor (page :: pages)

end Observe
