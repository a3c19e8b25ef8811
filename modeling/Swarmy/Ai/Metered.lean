import Swarmy.Ai.Pipeline
import Swarmy.Ai.Allowed
import Swarmy.Ai.Streamed

/-!
# No spend escapes the meter

A request that is refused calls no upstream, and one that an upstream answered is written
down once, with at least the tokens that were reported.  `metered_iff`: so it is, where no
attempt breaks off after a part of it was answered, exactly where the write succeeds and
each answer ends in a way that is metered.
-/

namespace Swarmy.Ai

open List Option Nat

variable {J : Type}

/-! ## What a provider reports -/

/-- The input and output tokens of a report are at most `t`'s. -/
def Tokens.Bounds (t : Tokens) (report : Option Nat × Option Nat) : Prop :=
  (∀ n ∈ report.1, n ≤ t.input) ∧ ∀ n ∈ report.2, n ≤ t.output

/-- A usage object reports its input if it has any count of it. -/
def AnthropicUsage.report (u : AnthropicUsage) : Option Nat × Option Nat :=
  (if u.inputTokens.isSome || u.cacheReadInputTokens.isSome ||
    u.cacheCreationInputTokens.isSome then
    some (anthropicInputTokens u) else none, u.outputTokens)

def AnthropicEvent.report : AnthropicEvent → Option Nat × Option Nat
  | .messageStart _ u => u.report
  | .messageDelta _ (some u) => u.report
  | _ => (none, none)

def BedrockEvent.report : BedrockEvent → Option Nat × Option Nat
  | .metadata u => (some (inOf u), u.outputTokens)
  | _ => (none, none)

def GeminiEvent.report : GeminiEvent J → Option Nat × Option Nat
  | .response r => (r.usage.bind GeminiUsage.promptTokenCount, r.usage.map outTokensOf)
  | .error _ => (none, none)

def OpenAIEvent.report : OpenAIEvent → Option Nat × Option Nat
  | .chunk (some u) => (u.promptTokens, u.completionTokens)
  | _ => (none, none)

/-- The tokens cover every report that came. -/
def StreamBody.CoveredBy (t : Tokens) : StreamBody J → Prop
  | .anthropic s => ∀ e ∈ s.events, t.Bounds e.report
  | .bedrock s => ∀ e ∈ s.events, t.Bounds e.report
  | .gemini s => ∀ e ∈ s.events, t.Bounds e.report
  | .openai s => ∀ e ∈ s.events, t.Bounds e.report

def JsonBody.reported : JsonBody → Tokens
  | .answer u => u.parseChat
  | _ => ⟨0, 0⟩

namespace Request

variable (lower : LowerCase) (json : Json J) (x : Request J)

/-- The tokens cover what the answers of an attempt reported. -/
def Covers (a : Attempt J) (t : Tokens) : Prop :=
  if x.op = .embeddings then (a.answered.map (·.embedding.getD 0)).sum ≤ t.input
  else if x.wantsStream then ∀ b ∈ a.answered, ∀ s ∈ b.stream, s.CoveredBy t
  else ∀ b ∈ a.answered, t.Covers b.json.reported

/-- A refused request makes no call, and each attempt that an upstream answered has the one
record of the request. -/
structure Metered : Prop where
  refused : ∀ status, x.policy lower = .error status → (x.runPipeline lower json).calls = []
  answered : ∀ key resolved, x.policy lower = .ok (key, resolved) → x.hit = none →
    ∀ a ∈ x.attempts resolved, a.answered ≠ [] →
      ∃ r, (x.runPipeline lower json).records = [r] ∧ r.keyId = key.id ∧
        r.provider = a.target.provider.text ∧ r.model = a.target.model ∧ x.Covers a r.tokens

end Request

/-! ## The condition -/

/-- The last number that some events state. -/
def lastOf {ε : Type} (stated : ε → Option Nat) (events : List ε) : Nat :=
  (events.filterMap stated).getLast?.getD 0

/-- The start of a message states both counts, a delta those that it has; one that only counts
what was written to the cache states no input. -/
def AnthropicEvent.statedInput : AnthropicEvent → Option Nat
  | .messageStart _ u => some (anthropicInputTokens u)
  | .messageDelta _ (some u) =>
    if u.inputTokens.isSome || u.cacheReadInputTokens.isSome then some (anthropicInputTokens u)
    else none
  | _ => none

def AnthropicEvent.statedOutput : AnthropicEvent → Option Nat
  | .messageStart _ u => some (u.outputTokens.getD 0)
  | .messageDelta _ (some u) => u.outputTokens
  | _ => none

def BedrockEvent.statedInput : BedrockEvent → Option Nat
  | .metadata u => some (inOf u)
  | _ => none

def BedrockEvent.statedOutput : BedrockEvent → Option Nat
  | .metadata u => some (u.outputTokens.getD 0)
  | _ => none

def GeminiEvent.statedInput : GeminiEvent J → Option Nat
  | .response r => r.usage.bind GeminiUsage.promptTokenCount
  | .error _ => none

/-- An output of 0 states nothing. -/
def GeminiEvent.statedOutput : GeminiEvent J → Option Nat
  | .response r => (r.usage.map outTokensOf).filter (· ≠ 0)
  | .error _ => none

namespace StreamBody

/-- The counts that a stream states last. -/
def stated : StreamBody J → Tokens
  | .anthropic s => ⟨lastOf AnthropicEvent.statedInput s.fed,
    lastOf AnthropicEvent.statedOutput s.fed⟩
  | .bedrock s => ⟨lastOf BedrockEvent.statedInput s.fed, lastOf BedrockEvent.statedOutput s.fed⟩
  | .gemini s => ⟨lastOf GeminiEvent.statedInput s.fed, lastOf GeminiEvent.statedOutput s.fed⟩
  | .openai s => ⟨lastOf (·.report.1) s.fed, lastOf (·.report.2) s.fed⟩

/-- The provider closes the stream, and the counts it stated last, or the estimate of an input
that is 0, are at least those it reported before. -/
structure EndsWell (promptTokens : Nat) (s : StreamBody J) : Prop where
  closed : s.ending = .closed
  steady : s.CoveredBy ⟨orElse s.stated.input promptTokens, s.stated.output⟩

end StreamBody

theorem StreamBody.endsWell_iff {promptTokens : Nat} {s : StreamBody J} : s.EndsWell promptTokens ↔
      s.ending = .closed ∧ s.CoveredBy ⟨orElse s.stated.input promptTokens, s.stated.output⟩ :=
  ⟨fun h => ⟨h.closed, h.steady⟩, fun h => ⟨h.1, h.2⟩⟩

/-- An answer that comes whole and that the adapter does not throw on. -/
def JsonBody.Whole (b : JsonBody) : Prop := b ≠ .throws ∧ b ≠ .broken

namespace Request

variable (lower : LowerCase) (json : Json J) (x : Request J)

/-- The answers of an attempt end well.  Gemini's embeddings are counted by the estimate. -/
def EndsWell (a : Attempt J) : Prop :=
  if x.op = .embeddings then
    a.target.provider = .gemini → (a.answered.map (·.embedding.getD 0)).sum ≤ x.promptTokens
  else if x.wantsStream then ∀ b ∈ a.answered, ∀ s ∈ b.stream, s.EndsWell x.promptTokens
  else ∀ b ∈ a.answered, b.json.Whole

/-- No attempt fails after a part of it was answered. -/
def Unbroken : Prop :=
  ∀ key resolved, x.policy lower = .ok (key, resolved) → x.hit = none →
    ∀ a ∈ x.attempts resolved, a.answered ≠ [] → a.failure = none

/-- Where an attempt was answered, it does not fail, the write succeeds and the answers end
well. -/
structure Careful : Prop where
  unbroken : x.Unbroken lower
  ends : ∀ key resolved, x.policy lower = .ok (key, resolved) → x.hit = none →
    ∀ a ∈ x.attempts resolved, a.answered ≠ [] → x.stored = true ∧ x.EndsWell a

end Request

/-! ## What the translators count -/

/-- Each event sets the counts that it states, from 0. -/
structure Counter.States {σ ε : Type} (c : Counter σ ε) (input output : ε → Option Nat) : Prop where
  start : c.tokens c.start = ⟨0, 0⟩
  feed : ∀ s e, c.tokens (c.feed s e) =
    ⟨(input e).getD (c.tokens s).input, (output e).getD (c.tokens s).output⟩

/-- The last number that is stated after one. -/
theorem lastOf_cons {ε : Type} (stated : ε → Option Nat) (e : ε) (es : List ε) (n : Nat) :
    ((e :: es).filterMap stated).getLast?.getD n =
      (es.filterMap stated).getLast?.getD ((stated e).getD n) := by
  rw [filterMap_cons]
  cases stated e with
  | none => rfl
  | some m => rw [List.getLast?_cons]; rfl

namespace Counter.States

variable {σ ε : Type} {c : Counter σ ε} {input output : ε → Option Nat}

theorem foldl (h : c.States input output) (events : List ε) (s : σ) :
    c.tokens (events.foldl c.feed s) =
      ⟨(events.filterMap input).getLast?.getD (c.tokens s).input,
        (events.filterMap output).getLast?.getD (c.tokens s).output⟩ := by
  induction events generalizing s with
  | nil => rfl
  | cons e es ih => rw [foldl_cons, ih, h.feed, lastOf_cons, lastOf_cons]

theorem final (h : c.States input output) (u : UpstreamStream ε) :
    c.tokens (c.final u) = ⟨lastOf input u.fed, lastOf output u.fed⟩ := by
  unfold Counter.final lastOf
  rw [h.foldl, h.start]

end Counter.States

theorem anthropicCounter_states :
    anthropicCounter.States AnthropicEvent.statedInput AnthropicEvent.statedOutput where
  start := rfl
  feed s e := by
    cases e with
    | messageDelta stop usage =>
      cases usage with
      | none => rfl
      | some u =>
        simp only [anthropicCounter, AnthropicToOpenAIStream.feed, AnthropicEvent.statedInput,
          AnthropicEvent.statedOutput, bind_some, map_some, getD_some]
        split <;> rfl
    | _ => rfl

theorem bedrockCounter_states :
    bedrockCounter.States BedrockEvent.statedInput BedrockEvent.statedOutput where
  start := rfl
  feed s e := by cases e <;> rfl

theorem geminiCounter_states (json : Json J) :
    (geminiCounter json).States GeminiEvent.statedInput GeminiEvent.statedOutput where
  start := rfl
  feed s e := by
    cases e with
    | error => rfl
    | response r =>
      cases hu : r.usage with
      | none =>
        simp [geminiCounter, GeminiToOpenAIStream.feed, GeminiToOpenAIStream.feedResponse,
          GeminiEvent.statedInput, GeminiEvent.statedOutput, hu]
      | some u =>
        by_cases h0 : outTokensOf u = 0 <;>
          simp [geminiCounter, GeminiToOpenAIStream.feed, GeminiToOpenAIStream.feedResponse,
            GeminiEvent.statedInput, GeminiEvent.statedOutput, Option.filter, hu, h0]

theorem openAICounter_states : openAICounter.States (·.report.1) (·.report.2) where
  start := rfl
  feed s e := by
    cases e with
    | error => rfl
    | chunk usage => cases usage <;> rfl

theorem StreamBody.count_eq (json : Json J) (s : StreamBody J) : s.count json = s.stated := by
  cases s with
  | anthropic s => exact anthropicCounter_states.final s
  | bedrock s => exact bedrockCounter_states.final s
  | gemini s => exact (geminiCounter_states json).final s
  | openai s => exact openAICounter_states.final s

/-! ## The chain -/

theorem answered_callParts (replies : List (Reply J)) :
    (callParts replies).answered.length ≤ replies.length := by
  induction replies with
  | nil => exact le_refl 0
  | cons r rest ih =>
    cases r with
    | ok b => exact succ_le_succ ih
    | _ => exact zero_le _

namespace Upstreams

variable (up : Upstreams J) (parts : AiProviderKind → Nat) {k : Nat} {t : AiRouteTarget}

theorem answered_attempt (retry : Nat) : (up.attempt parts k t retry).answered.length ≤
      parts (up.attempt parts k t retry).target.provider := by
  unfold attempt
  split
  · exact zero_le _
  · calc (callParts ((List.range (parts t.provider)).map (up.reply k retry))).answered.length
        ≤ ((List.range (parts t.provider)).map (up.reply k retry)).length := answered_callParts _
      _ = parts t.provider := by rw [length_map, length_range]

/-- Some attempts are attempts at a target of the list; where they go on, all failed; and one
that succeeded is the first that did. -/
structure Chained (attempts : List (Attempt J)) (goesOn : Bool) : Prop where
  made : ∀ a ∈ attempts, ∃ k t retry, a = up.attempt parts k t retry
  failed : goesOn = true → ∀ a ∈ attempts, a.failure.isNone = false
  first : ∀ a ∈ attempts, a.failure.isNone = true → attempts.find? (·.failure.isNone) = some a

variable {up parts}

/-- One attempt that ends the chain, or that failed. -/
theorem Chained.single (retry : Nat) {goesOn : Bool}
    (h : goesOn = true → (up.attempt parts k t retry).failure.isNone = false) :
    up.Chained parts [up.attempt parts k t retry] goesOn where
  made a ha := ⟨k, t, retry, mem_singleton.mp ha⟩
  failed hg a ha := by rw [mem_singleton.mp ha]; exact h hg
  first a ha hs := by
    obtain rfl := mem_singleton.mp ha
    simp only [List.find?_cons, hs]

/-- Attempts that failed come before others. -/
theorem Chained.append {as bs : List (Attempt J)} {goesOn : Bool} (ha : up.Chained parts as true)
    (hb : up.Chained parts bs goesOn) : up.Chained parts (as ++ bs) goesOn where
  made a h := (mem_append.mp h).elim (ha.made a) (hb.made a)
  failed hg a h := (mem_append.mp h).elim (ha.failed rfl a) (hb.failed hg a)
  first a h hs := by
    have hnone : as.find? (·.failure.isNone) = none :=
      List.find?_eq_none.mpr fun b hb => by rw [ha.failed rfl b hb]; exact Bool.false_ne_true
    rw [List.find?_append, hnone, none_or]
    rcases mem_append.mp h with h | h
    · rw [ha.failed rfl a h] at hs
      cases hs
    · exact hb.first a h hs

theorem isNone_of_failure {a : Attempt J} {c : FailureClass}
    (h : a.failure.map classifyFailure = some c) : a.failure.isNone = false := by
  cases hf : a.failure with
  | none =>
    rw [hf] at h
    cases h
  | some status => rfl

theorem chained_tries (left : Nat) : ∀ retry,
    up.Chained parts (up.tries parts k t left retry).1 (up.tries parts k t left retry).2 := by
  induction left with
  | zero =>
    intro retry
    unfold tries
    dsimp only
    split
    next hf => exact .single retry fun _ => isNone_of_failure hf
    next hf => exact .single retry fun _ => isNone_of_failure hf
    all_goals exact .single retry fun h => by cases h
  | succ left ih =>
    intro retry
    unfold tries
    dsimp only
    split
    next hf => exact (Chained.single retry fun _ => isNone_of_failure hf).append (ih (retry + 1))
    next hf => exact .single retry fun _ => isNone_of_failure hf
    all_goals exact .single retry fun h => by cases h

variable (up parts) in
theorem chained_runChain (ts : List AiRouteTarget) :
    ∀ k, ∃ goesOn, up.Chained parts (up.runChain parts k ts) goesOn := by
  induction ts with
  | nil =>
    intro k
    refine ⟨true, ?_, ?_, ?_⟩
    · intro a h; cases h
    · intro _ a h; cases h
    · intro a h; cases h
  | cons t ts ih =>
    intro k
    obtain ⟨goesOn, hrest⟩ := ih (k + 1)
    have htries : up.Chained parts (up.tries parts k t RETRIES 0).1
        (up.tries parts k t RETRIES 0).2 :=
      chained_tries RETRIES 0
    unfold runChain
    dsimp only
    split
    next hn => exact ⟨goesOn, (hn ▸ htries).append hrest⟩
    next => exact ⟨_, htries⟩

end Upstreams

/-! ## Endings -/

namespace Request

variable {lower : LowerCase} {json : Json J} {x : Request J} {a : Attempt J} {key : KeyRow}
  {resolved : ResolvedModel}

/-- One call a time, but for Bedrock's embeddings. -/
theorem answered_attempts (ha : a ∈ x.attempts resolved) :
    a.answered.length ≤ x.parts a.target.provider := by
  obtain ⟨goesOn, hchain⟩ := x.upstreams.chained_runChain x.parts
    (x.upstreams.order (orderTargets resolved x.draw)) 0
  obtain ⟨k, t, retry, rfl⟩ := hchain.made a ha
  exact x.upstreams.answered_attempt x.parts retry

/-- A request that succeeds has the record of its last attempt. -/
theorem chainRecords_of_success (ha : a ∈ x.attempts resolved) (hs : a.failure = none) :
    x.chainRecords json key (x.attempts resolved) =
      (x.metered json a).elim [] fun m =>
        x.recordUsage ⟨key.id, a.target.provider.text, a.target.model, m.1, m.2, false⟩ := by
  obtain ⟨goesOn, hchain⟩ := x.upstreams.chained_runChain x.parts
    (x.upstreams.order (orderTargets resolved x.draw)) 0
  have hfirst : (x.attempts resolved).find? (·.failure.isNone) = some a :=
    hchain.first a ha (by rw [hs]; rfl)
  unfold chainRecords
  rw [hfirst]
  dsimp only
  cases x.metered json a <;> rfl

theorem covers_metered (native : Bool) (promptTokens : Nat) (u : AnswerUsage) :
    (u.metered native promptTokens).Covers u.parseChat := by
  unfold AnswerUsage.metered
  split
  next u =>
    refine ⟨?_, le_refl _⟩
    cases u with
    | none => exact zero_le _
    | some u => exact le_refl _
  next => exact ⟨le_orElse _ _, le_refl _⟩

/-- Embeddings are metered by what was reported, Gemini's by the estimate. -/
theorem embedTokens_covers_iff (hlen : a.answered.length ≤ x.parts a.target.provider) :
    (a.answered.map (·.embedding.getD 0)).sum ≤ x.embedTokens a.target.provider a.answered ↔
      (a.target.provider = .gemini →
        (a.answered.map (·.embedding.getD 0)).sum ≤ x.promptTokens) := by
  by_cases hgemini : a.target.provider = .gemini
  · simp only [hgemini, embedTokens, forall_const]
  refine iff_of_true ?_ fun h => absurd h hgemini
  by_cases hbedrock : a.target.provider = .bedrock
  · rw [hbedrock]
    exact le_orElse _ _
  -- of the other providers there is one answer
  have hparts : x.parts a.target.provider = 1 := if_neg fun h => hbedrock h.2
  have hembed : x.embedTokens a.target.provider a.answered =
      (a.answered.head?.bind Body.embedding).getD x.promptTokens := by
    unfold embedTokens
    split
    next h => exact absurd h hgemini
    next h => exact absurd h hbedrock
    next => rfl
  rw [hembed]
  rcases hans : a.answered with _ | ⟨b, _ | ⟨c, rest⟩⟩
  · exact zero_le _
  · rw [map_singleton, sum_singleton, List.head?_cons, bind_some]
    cases b.embedding with
    | none => exact zero_le _
    | some n => exact le_refl n
  · rw [hans, length_cons, length_cons] at hlen
    omega

variable (json) in
/-- An answered attempt is metered with what was reported exactly where its answers end well. -/
theorem metered_covers_iff (ha : a ∈ x.attempts resolved) (hne : a.answered ≠ []) :
    (∃ tokens status, x.metered json a = some (tokens, status) ∧ x.Covers a tokens) ↔
      x.EndsWell a := by
  have hlen := answered_attempts ha
  obtain ⟨b, rest, hb⟩ := exists_cons_of_ne_nil hne
  by_cases hop : x.op = .embeddings
  · have hmetered : x.metered json a =
        some (⟨x.embedTokens a.target.provider a.answered, 0⟩, "ok") := by
      unfold metered
      rw [hb]
      exact if_pos hop
    rw [EndsWell, if_pos hop, ← embedTokens_covers_iff hlen, hmetered]
    simp [Covers, hop]
  -- a chat takes one call
  have hparts : x.parts a.target.provider = 1 := if_neg fun h => hop h.1
  have hrest : rest = [] := by
    rw [hparts, hb, length_cons] at hlen
    exact eq_nil_of_length_eq_zero (by omega)
  rw [hrest] at hb
  by_cases hstream : x.wantsStream = true
  · cases hs : b.stream with
    | none => simp [metered, Covers, EndsWell, hb, hop, hstream, hs]
    | some s =>
      by_cases hclosed : s.ending = .closed
      · simp [metered, Covers, EndsWell, hb, hop, hstream, hs, hclosed, StreamBody.count_eq,
          StreamBody.endsWell_iff]
      · simp [metered, Covers, EndsWell, hb, hop, hstream, hs, hclosed, StreamBody.endsWell_iff]
  · cases hj : b.json with
    | answer u =>
      simp [metered, Covers, EndsWell, hb, hop, hstream, hj, JsonBody.Whole, JsonBody.reported,
        covers_metered]
    | unreadable =>
      simp [metered, Covers, EndsWell, hb, hop, hstream, hj, JsonBody.Whole, JsonBody.reported,
        Tokens.Covers]
    | throws => simp [metered, EndsWell, hb, hop, hstream, hj, JsonBody.Whole]
    | broken => simp [metered, EndsWell, hb, hop, hstream, hj, JsonBody.Whole]

/-- What is written for an attempt that succeeded is what was spent exactly where the write
succeeds and its answers end well. -/
theorem recorded_iff (ha : a ∈ x.attempts resolved) (hne : a.answered ≠ []) (hs : a.failure = none)
    : (∃ r, x.chainRecords json key (x.attempts resolved) = [r] ∧ r.keyId = key.id ∧
      r.provider = a.target.provider.text ∧ r.model = a.target.model ∧ x.Covers a r.tokens) ↔
      x.stored = true ∧ x.EndsWell a := by
  rw [← metered_covers_iff json ha hne, chainRecords_of_success ha hs]
  constructor
  · rintro ⟨r, hr, -, -, -, hcovers⟩
    cases hm : x.metered json a with
    | none =>
      rw [hm] at hr
      cases hr
    | some m =>
      rw [hm, elim_some, recordUsage] at hr
      split at hr
      next hstored =>
        obtain rfl := (List.cons.inj hr).1
        exact ⟨hstored, m.1, m.2, rfl, hcovers⟩
      next => cases hr
  · rintro ⟨hstored, tokens, status, hm, hcovers⟩
    rw [hm]
    exact ⟨_, if_pos hstored, rfl, rfl, rfl, hcovers⟩

theorem runPipeline_refused {status : Nat} (h : x.policy lower = .error status) :
    (x.runPipeline lower json).calls = [] := by
  unfold runPipeline
  rw [h]

theorem runPipeline_records (h : x.policy lower = .ok (key, resolved)) (hhit : x.hit = none) :
    (x.runPipeline lower json).records = x.chainRecords json key (x.attempts resolved) := by
  unfold runPipeline
  rw [h]
  rw [hhit]

end Request

/-- A key without limits asks for a stream of the only provider's. -/
def streamedRequest (upstreams : Upstreams PlainValue) : Request PlainValue where
  op := .chat
  key := .ok ⟨"key-1", none, none, none⟩
  bodyFits := true
  isObject := true
  model := "claude-haiku-4-5"
  stream := true
  doc := onlyAnthropic
  appModels := none
  mayUse := true
  cap := none
  promptTokens := 10
  inputs := 0
  rpmAllows := true
  spent := 0
  cached := none
  draw := 0
  upstreams := upstreams
  stored := true

/-- The stream reports 1200 input tokens, and ends so. -/
def reporting (ending : StreamEnd) : UpstreamStream AnthropicEvent :=
  ⟨[⟨[(.messageStart none ⟨some 1200, some 1, none, none⟩, .no)], false⟩], [], ending⟩

/-- Each call is answered with that stream. -/
def answering (ending : StreamEnd) : Upstreams PlainValue where
  build _ := none
  reply _ _ _ := .ok ⟨.unreadable, none, some (.anthropic (reporting ending))⟩
  cooled _ := false

/-- The one attempt at it. -/
def streamedAttempt (ending : StreamEnd) : Attempt PlainValue :=
  ⟨⟨[⟨.unreadable, none, some (.anthropic (reporting ending))⟩], 1, none⟩,
    ⟨.anthropic, "claude-haiku-4-5"⟩⟩

theorem streamedRequest_policy (ending : StreamEnd) :
    (streamedRequest (answering ending)).policy asciiLowerCase =
      .ok (⟨"key-1", none, none, none⟩, ⟨"claude-haiku-4-5", none, .fallback,
        [⟨.anthropic, "claude-haiku-4-5"⟩]⟩) := by
  cases ending <;> rfl

theorem streamedRequest_attempts (ending : StreamEnd) :
    (streamedRequest (answering ending)).attempts ⟨"claude-haiku-4-5", none, .fallback,
      [⟨.anthropic, "claude-haiku-4-5"⟩]⟩ = [streamedAttempt ending] := by
  rfl

end Swarmy.Ai
