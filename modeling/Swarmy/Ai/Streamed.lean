import Swarmy.Ai.Agree

/-!
# The three adapters

For each adapter, the streams a provider documents for an answer, and exactly which of them
a client folds to the answer.
-/

namespace Swarmy.Ai

open List Option Nat

variable {J : Type} {json : Json J} {model : String}

/-! ## Anthropic -/

/-- A stream of a complete answer. -/
structure AnthropicStream (J : Type) where
  model : String
  startUsage : AnthropicUsage
  blocks : List (StreamedBlock J)
  stopReason : String
  deltaUsage : AnthropicUsage

namespace AnthropicStream

variable (t : AnthropicStream J)

/-- The answer that is streamed: the output tokens are those of the last event. -/
def answer : AnthropicResponse J where
  model := some t.model
  content := t.blocks.map StreamedBlock.block
  stopReason := some t.stopReason
  usage := { t.startUsage with outputTokens := t.deltaUsage.outputTokens }

/-- What the last event says of the input is what the first one said. -/
structure Valid (json : Json J) : Prop where
  model : t.model ≠ ""
  blocks : ∀ b ∈ t.blocks, b.Valid json
  output : t.deltaUsage.outputTokens.isSome = true
  input : t.deltaUsage.inputTokens = none ∨ t.deltaUsage.inputTokens = t.startUsage.inputTokens
  cacheRead : t.deltaUsage.cacheReadInputTokens = none ∨
    t.deltaUsage.cacheReadInputTokens = t.startUsage.cacheReadInputTokens
  cacheCreation : t.deltaUsage.cacheCreationInputTokens = none ∨
    t.deltaUsage.cacheCreationInputTokens = t.startUsage.cacheCreationInputTokens

/-- The events that are translated, in their order. -/
def events : List AnthropicEvent :=
  .messageStart (some t.model) t.startUsage ::
    (blocksEvents .toolStart .textDelta .inputJsonDelta 0 t.blocks ++
      [.messageDelta (some t.stopReason) (some t.deltaUsage)])

/-- A way to stream the answer, with pings and the like in any place. -/
def Streams (evs : List AnthropicEvent) : Prop := evs.filter (· ≠ .other) = t.events

/-- The last event says nothing of the input, or all of it. -/
def Restated : Prop :=
  (t.deltaUsage.inputTokens.isSome || t.deltaUsage.cacheReadInputTokens.isSome) = true →
    anthropicInputTokens t.deltaUsage = anthropicInputTokens t.startUsage

/-- Where a client folds the answer. -/
structure Plain : Prop where
  spoken : ∀ b ∈ t.blocks, b.Spoken
  worded : Worded (t.blocks.filterMap StreamedBlock.text?)
  restated : t.Restated

end AnthropicStream

/-- Events that are not translated change nothing. -/
theorem Translator.run_filter {σ ε : Type} [DecidableEq ε] (T : Translator σ ε) (other : ε)
    (hother : ∀ s, T.feed s other = (s, [])) (p : σ × Folded) (evs : List ε) :
    T.run p evs = T.run p (evs.filter (· ≠ other)) := by
  induction evs generalizing p with
  | nil => rfl
  | cons e evs ih =>
    by_cases he : e = other
    case pos =>
      subst he
      have hstep : T.step p e = p := by simp [Translator.step, hother]
      rw [filter_cons_of_neg (by simp), ← ih, Translator.run, foldl_cons, hstep]
      rfl
    case neg =>
      rw [filter_cons_of_pos (by simpa using he), Translator.run, foldl_cons,
        Translator.run, foldl_cons]
      exact ih (T.step p e)

theorem anthropicLaw : BlockLaw AnthropicToOpenAIStream.translator AnthropicToOpenAIStream.tools
    (fun s t => { s with tools := t }) AnthropicToOpenAIStream.named .toolStart .textDelta
    .inputJsonDelta where
  tools_with _ _ := rfl
  with_tools _ := rfl
  with_with _ _ _ := rfl
  named_with _ _ := rfl
  feed_start _ _ _ _ := rfl
  feed_text _ _ _ := rfl
  feed_input _ _ _ := rfl

theorem anthropicFinish_some (stop : String) : ∃ f, anthropicFinish (some stop) = some f := by
  rw [anthropicFinish]
  repeat' split
  all_goals exact ⟨_, rfl⟩

/-- What a client folds from a stream of Anthropic. -/
theorem anthropic_folded {t : AnthropicStream J} (h : t.Valid json) {evs : List AnthropicEvent}
    (hevs : t.Streams evs) (model : String) :
    AnthropicToOpenAIStream.translator.chatStream (.new model) evs =
      { model := some t.model
        content := addText none (joinTexts (t.blocks.filterMap StreamedBlock.text?))
        toolCalls := t.blocks.filterMap StreamedBlock.call?
        finishReason := anthropicFinish (some t.stopReason)
        usage := some (usageOf
          (if t.deltaUsage.inputTokens.isSome || t.deltaUsage.cacheReadInputTokens.isSome then
            anthropicInputTokens t.deltaUsage else anthropicInputTokens t.startUsage)
          (t.deltaUsage.outputTokens.getD 0)) } := by
  obtain ⟨fin, hfin⟩ := anthropicFinish_some t.stopReason
  obtain ⟨out, hout⟩ := isSome_iff_exists.mp h.output
  have hreal := AnthropicToOpenAIStream.translator.run_filter .other (fun s => rfl)
    (.new model, .start) evs
  have hevs' : evs.filter (· ≠ .other) = t.events := hevs
  let s₁ : AnthropicToOpenAIStream := ⟨anthropicInputTokens t.startUsage,
    t.startUsage.outputTokens.getD 0, none, some t.model, ⟨[], 0⟩, model⟩
  have hstart : AnthropicToOpenAIStream.translator.step (.new model, .start)
      (.messageStart (some t.model) t.startUsage) = (s₁, ⟨some t.model, none, [], none, none⟩) := by
    simp [Translator.step, AnthropicToOpenAIStream.translator, AnthropicToOpenAIStream.feed,
      AnthropicToOpenAIStream.new, AnthropicToOpenAIStream.named, roleChunk, Folded.add,
        Folded.start,
      h.model, s₁]
  obtain ⟨tools, hblocks⟩ := anthropicLaw.run_blocks (i := 0) (s := s₁)
    (f := ⟨some t.model, none, [], none, none⟩) rfl rfl t.blocks
  rw [Translator.run] at hblocks
  rw [Translator.chatStream, hreal, hevs', AnthropicStream.events, Translator.run, foldl_cons,
    hstart, foldl_append, hblocks, foldl_addBlock]
  by_cases hrestated : (t.deltaUsage.inputTokens.isSome ||
      t.deltaUsage.cacheReadInputTokens.isSome) = true
  all_goals
    simp [Translator.step, AnthropicToOpenAIStream.translator, AnthropicToOpenAIStream.feed,
      AnthropicToOpenAIStream.named, finishChunk, usageChunk, Folded.add, hfin, hout, hrestated, s₁]

/-- A client folds the answer exactly from a plain stream. -/
theorem anthropic_agrees_iff {t : AnthropicStream J} (h : t.Valid json) {evs : List AnthropicEvent}
    (hevs : t.Streams evs) (model : String) :
    Agrees json (fromAnthropicResponse json t.answer model)
      (AnthropicToOpenAIStream.translator.chatStream (.new model) evs) ↔ t.Plain := by
  rw [anthropic_folded h hevs]
  have hcalls := sameCalls_iff h.blocks
  have hcontent := addText_eq_contentOf (t.blocks.filterMap StreamedBlock.text?)
  have hinput : anthropicInputTokens t.answer.usage = anthropicInputTokens t.startUsage := rfl
  constructor
  · intro hagrees
    refine ⟨hcalls.mp hagrees.toolCalls, hcontent.mp (hagrees.content.trans ?_),
      fun hrestated => ?_⟩
    · simp only [fromAnthropicResponse, AnthropicStream.answer, texts_block]
    · have husage := congrArg ChatUsage.promptTokens (some.inj hagrees.usage)
      simpa [fromAnthropicResponse, usageOf, hinput, hrestated] using husage
  · intro hplain
    refine ⟨(hcontent.mpr hplain.worded).trans ?_, hcalls.mpr hplain.spoken, rfl, rfl, ?_⟩
    · simp only [fromAnthropicResponse, AnthropicStream.answer, texts_block]
    · have htokens : (if t.deltaUsage.inputTokens.isSome || t.deltaUsage.cacheReadInputTokens.isSome
          then anthropicInputTokens t.deltaUsage else anthropicInputTokens t.startUsage) =
          anthropicInputTokens t.startUsage := by
        split
        · next hrestated => exact hplain.restated hrestated
        · rfl
      rw [htokens]
      rfl


/-! ## Bedrock -/

structure BedrockStream (J : Type) where
  blocks : List (StreamedBlock J)
  stopReason : String
  usage : BedrockUsage

namespace BedrockStream

variable (t : BedrockStream J)

def answer : BedrockResponse J := ⟨t.blocks.map StreamedBlock.block, some t.stopReason, t.usage⟩

def Valid (json : Json J) : Prop := ∀ b ∈ t.blocks, b.Valid json

/-- The usage comes last. -/
def events : List BedrockEvent :=
  .messageStart ::
    (blocksEvents .toolStart .textDelta .toolDelta 0 t.blocks ++
      [.messageStop (some t.stopReason), .metadata t.usage])

def Streams (evs : List BedrockEvent) : Prop := evs.filter (· ≠ .other) = t.events

structure Plain : Prop where
  spoken : ∀ b ∈ t.blocks, b.Spoken
  worded : Worded (t.blocks.filterMap StreamedBlock.text?)

end BedrockStream

theorem bedrockLaw : BlockLaw BedrockToOpenAIStream.translator BedrockToOpenAIStream.tools
    (fun s t => { s with tools := t }) BedrockToOpenAIStream.model .toolStart .textDelta
    .toolDelta where
  tools_with _ _ := rfl
  with_tools _ := rfl
  with_with _ _ _ := rfl
  named_with _ _ := rfl
  feed_start _ _ _ _ := rfl
  feed_text _ _ _ := rfl
  feed_input _ _ _ := rfl

theorem bedrockFinish_some (reason : String) : ∃ f, bedrockFinish (some reason) = some f := by
  rw [bedrockFinish]
  repeat' split
  all_goals exact ⟨_, rfl⟩

/-- What a client folds from a stream of Bedrock. -/
theorem bedrock_folded (t : BedrockStream J) {evs : List BedrockEvent} (hevs : t.Streams evs)
    (model : String) : BedrockToOpenAIStream.translator.chatStream (.new model) evs =
      { model := some model
        content := addText none (joinTexts (t.blocks.filterMap StreamedBlock.text?))
        toolCalls := t.blocks.filterMap StreamedBlock.call?
        finishReason := bedrockFinish (some t.stopReason)
        usage := some (usageOf (inOf t.usage) (t.usage.outputTokens.getD 0)) } := by
  obtain ⟨fin, hfin⟩ := bedrockFinish_some t.stopReason
  have hreal := BedrockToOpenAIStream.translator.run_filter .other (fun s => rfl)
    (.new model, .start) evs
  have hevs' : evs.filter (· ≠ .other) = t.events := hevs
  have hstart : BedrockToOpenAIStream.translator.step (.new model, .start) .messageStart =
      (.new model, ⟨some model, none, [], none, none⟩) := by
    simp [Translator.step, BedrockToOpenAIStream.translator, BedrockToOpenAIStream.feed,
      BedrockToOpenAIStream.new, roleChunk, Folded.add, Folded.start]
  obtain ⟨tools, hblocks⟩ := bedrockLaw.run_blocks (i := 0) (s := .new model)
    (f := ⟨some model, none, [], none, none⟩) rfl rfl t.blocks
  rw [Translator.run] at hblocks
  rw [Translator.chatStream, hreal, hevs', BedrockStream.events, Translator.run, foldl_cons,
    hstart, foldl_append, hblocks, foldl_addBlock]
  simp [Translator.step, BedrockToOpenAIStream.translator, BedrockToOpenAIStream.feed,
    BedrockToOpenAIStream.new, finishChunk, usageChunk, Folded.add, hfin]

/-- A client folds the answer exactly from a plain stream. -/
theorem bedrock_agrees_iff {t : BedrockStream J} (h : t.Valid json) {evs : List BedrockEvent}
    (hevs : t.Streams evs) (model : String) : Agrees json (fromBedrockResponse json t.answer model)
      (BedrockToOpenAIStream.translator.chatStream (.new model) evs) ↔ t.Plain := by
  rw [bedrock_folded t hevs]
  have hcalls := sameCalls_iff h
  rw [← bedrockCall_block h] at hcalls
  have hcontent := addText_eq_contentOf (t.blocks.filterMap StreamedBlock.text?)
  constructor
  · intro hagrees
    refine ⟨hcalls.mp hagrees.toolCalls, hcontent.mp (hagrees.content.trans ?_)⟩
    simp only [fromBedrockResponse, BedrockStream.answer, texts_block]
  · intro hplain
    refine ⟨(hcontent.mpr hplain.worded).trans ?_, hcalls.mpr hplain.spoken, rfl, rfl, rfl⟩
    simp only [fromBedrockResponse, BedrockStream.answer, texts_block]

/-- An error that was seen is not forgotten. -/
theorem bedrock_error_kept {s : BedrockToOpenAIStream} (hs : s.error.isSome = true) (f : Folded)
    (evs : List BedrockEvent) :
    (BedrockToOpenAIStream.translator.run (s, f) evs).1.error.isSome = true := by
  induction evs generalizing s f with
  | nil => exact hs
  | cons e evs ih =>
    refine ih ?_ _
    cases e with
    | exception message => simp [BedrockToOpenAIStream.translator, BedrockToOpenAIStream.feed, hs]
    | _ => exact hs

/-- An exception with a message is told. -/
theorem bedrock_error (model message : String) (before after : List BedrockEvent) :
    (BedrockToOpenAIStream.translator.errorAfter (.new model)
      (before ++ .exception (some message) :: after)).isSome = true := by
  rw [Translator.errorAfter, Translator.run, foldl_append, foldl_cons]
  exact bedrock_error_kept rfl _ after


/-! ## Gemini -/

def textsOf (rs : List (GeminiResponse J)) : List String :=
  rs.flatMap fun r => r.parts.filterMap Part.text?

def callsOf (json : Json J) (rs : List (GeminiResponse J)) : List (String × J) :=
  rs.flatMap fun r => r.parts.filterMap (Part.call? json)

/-- A stream of an answer: parts of it, and the last part with the reason to finish. -/
structure GeminiStream (J : Type) where
  answer : GeminiResponse J
  chunks : List (GeminiResponse J)
  last : GeminiResponse J

namespace GeminiStream

variable (t : GeminiStream J)

/-- The parts are those of the answer, each text in any pieces; every part names the model,
and tells the tokens so far. -/
structure Valid (json : Json J) : Prop where
  texts : joinTexts (textsOf (t.chunks ++ [t.last])) = joinTexts (textsOf [t.answer])
  calls : callsOf json (t.chunks ++ [t.last]) = callsOf json [t.answer]
  model : ∀ r ∈ t.chunks ++ [t.last], r.modelVersion = t.answer.modelVersion
  unfinished : ∀ r ∈ t.chunks, r.finishReason = none
  finished : t.last.finishReason = t.answer.finishReason
  reason : ∃ reason, t.answer.finishReason = some reason ∧ reason ≠ ""
  usage : t.last.usage = t.answer.usage
  prompt : ∃ u, t.answer.usage = some u ∧ u.promptTokenCount.isSome = true
  sofar : ∀ r ∈ t.chunks, ∀ u u', r.usage = some u → t.answer.usage = some u' →
    outTokensOf u ≤ outTokensOf u'

def events : List (GeminiEvent J) := (t.chunks ++ [t.last]).map .response

/-- Where a client folds the answer: it does not name another model, and the ids drawn for
its calls are the same. -/
structure Plain (json : Json J) (model : String) (genId genId' : Nat → String) : Prop where
  worded : Worded (textsOf [t.answer])
  model : t.answer.modelVersion.getD model = model
  drawn : ∀ i < (callsOf json [t.answer]).length, genId i = genId' i

end GeminiStream

section

variable {genId genId' : Nat → String} {s : GeminiToOpenAIStream} {f : Folded} {m : String}
  {r : GeminiResponse J} {rs : List (GeminiResponse J)} {bound : Nat}

/-- The chunk of the `i`-th call of the stream. -/
def chunkOf (json : Json J) (genId : Nat → String) (m : String) (i : Nat) (c : String × J) :
    ChatChunk :=
  let call := geminiCall json genId i c
  toolChunk m ⟨i, some call.id, some call.name, call.arguments⟩

theorem Folded.add_call (c : String × J) {k : Nat} (hmodel : f.model = some m)
    (hk : f.toolCalls.length = k) : f.add (chunkOf json genId m k c) =
      { f with toolCalls := f.toolCalls ++ [geminiCall json genId k c] } := by
  obtain ⟨model, content, toolCalls, finishReason, usage⟩ := f
  subst hmodel
  simp [Folded.add, chunkOf, toolChunk, addCall_new hk]

/-- The chunks of the calls of an event. -/
theorem foldl_calls (calls : List (String × J)) (k : Nat) (hmodel : f.model = some m)
    (hk : f.toolCalls.length = k) :
    (calls.mapIdx fun i c => chunkOf json genId m (k + i) c).foldl Folded.add f =
      { f with toolCalls := f.toolCalls ++ calls.mapIdx fun i c =>
        geminiCall json genId (k + i) c } := by
  induction calls generalizing f k with
  | nil => simp
  | cons c calls ih =>
    have hchunks : (fun i (c : String × J) => chunkOf json genId m (k + (i + 1)) c) =
        fun i c => chunkOf json genId m (k + 1 + i) c := by
      funext i c
      rw [add_right_comm, add_assoc]
    have hcalls : (fun i (c : String × J) => geminiCall json genId (k + (i + 1)) c) =
        fun i c => geminiCall json genId (k + 1 + i) c := by
      funext i c
      rw [add_right_comm, add_assoc]
    have hrest := ih (f := { f with toolCalls := f.toolCalls ++ [geminiCall json genId k c] })
      (k + 1) hmodel (by simp [hk])
    rw [mapIdx_cons, foldl_cons, mapIdx_cons, hchunks, hcalls, add_zero,
      Folded.add_call c hmodel hk, hrest]
    simp

/-- What a client has after some events that do not finish. -/
structure CaughtUp (json : Json J) (genId : Nat → String) (model : String) (bound : Nat)
    (rs : List (GeminiResponse J)) (s : GeminiToOpenAIStream) (f : Folded) : Prop where
  named : s.model = model
  model : s.started = true → f.model = some model
  content : f.content = addText none (joinTexts (textsOf rs))
  toolCalls : f.toolCalls = (callsOf json rs).mapIdx (geminiCall json genId)
  tools : s.tools = (callsOf json rs).length
  finish : f.finishReason = none
  usage : f.usage = none
  out : s.outTokens ≤ bound

theorem textsOf_concat : joinTexts (textsOf (rs ++ [r])) =
    joinTexts (textsOf rs) ++ joinTexts (r.parts.filterMap Part.text?) := by
  simp [textsOf, joinTexts_append]

theorem callsOf_concat : callsOf json (rs ++ [r]) =
    callsOf json rs ++ r.parts.filterMap (Part.call? json) := by
  simp [callsOf]

theorem mapIdx_callsOf : (callsOf json (rs ++ [r])).mapIdx (geminiCall json genId) =
    (callsOf json rs).mapIdx (geminiCall json genId) ++
      (r.parts.filterMap (Part.call? json)).mapIdx fun i c =>
        geminiCall json genId ((callsOf json rs).length + i) c := by
  rw [callsOf_concat, mapIdx_append]
  congr 2
  funext i c
  rw [add_comm]

/-- One event. -/
theorem CaughtUp.step (h : CaughtUp json genId m bound rs s f) :
    (GeminiToOpenAIStream.translator json genId).step (s, f) (.response r) =
      ((s.feedResponse json genId r).1,
        { model := some m
          content := addText none (joinTexts (textsOf (rs ++ [r])))
          toolCalls := (callsOf json (rs ++ [r])).mapIdx (geminiCall json genId)
          finishReason := geminiFinish (r.finishReason.filter (· ≠ ""))
            ((callsOf json (rs ++ [r])).length > 0)
          usage := none }) := by
  obtain ⟨hnamed, hmodel, hcontent, hcalls, htools, hfinish, husage, -⟩ := h
  obtain ⟨model, content, toolCalls, finishReason, usage⟩ := f
  simp only at hmodel hcontent hcalls hfinish husage
  subst hnamed hcontent hcalls hfinish husage
  have hlen : ((callsOf json rs).mapIdx (geminiCall json genId)).length = s.tools := by
    rw [length_mapIdx, htools]
  -- the role chunk only names the model
  have hrole : (if s.started then [] else [roleChunk s.model]).foldl Folded.add
      ⟨model, addText none (joinTexts (textsOf rs)),
        (callsOf json rs).mapIdx (geminiCall json genId),
        none, none⟩ = ⟨some s.model, addText none (joinTexts (textsOf rs)),
        (callsOf json rs).mapIdx (geminiCall json genId), none, none⟩ := by
    cases hstarted : s.started with
    | true => simp [hmodel hstarted]
    | false => simp [roleChunk, Folded.add]
  have htext : ∀ text : String, (if text = "" then []
      else [contentChunk s.model text]).foldl Folded.add
      ⟨some s.model, addText none (joinTexts (textsOf rs)),
        (callsOf json rs).mapIdx (geminiCall json genId), none, none⟩ =
      ⟨some s.model, addText none (joinTexts (textsOf rs) ++ text),
        (callsOf json rs).mapIdx (geminiCall json genId), none, none⟩ := by
    intro text
    by_cases htext : text = ""
    case pos => simp [htext]
    case neg => simp [htext, contentChunk, Folded.add, addText_addText]
  have hchunks : ((r.parts.filterMap (Part.call? json)).mapIdx fun i c =>
      chunkOf json genId s.model (s.tools + i) c).foldl Folded.add
      ⟨some s.model, addText none (joinTexts (textsOf rs) ++
        joinTexts (r.parts.filterMap Part.text?)),
        (callsOf json rs).mapIdx (geminiCall json genId), none, none⟩ = _ :=
    foldl_calls _ s.tools rfl hlen
  have hlength : s.tools + (r.parts.filterMap (Part.call? json)).length =
      (callsOf json (rs ++ [r])).length := by
    rw [callsOf_concat, length_append, htools]
  rw [Translator.step]
  refine Prod.ext rfl ?_
  simp only [GeminiToOpenAIStream.translator, GeminiToOpenAIStream.feed,
    GeminiToOpenAIStream.feedResponse, foldl_append, hrole, htext, hlength]
  refine (congrArg (fun f => List.foldl Folded.add f _) hchunks).trans ?_
  rw [textsOf_concat, mapIdx_callsOf, ← htools]
  cases geminiFinish (r.finishReason.filter (· ≠ ""))
    (decide ((callsOf json (rs ++ [r])).length > 0)) with
  | none => rfl
  | some finish => simp [finishChunk, Folded.add]

/-- An event that does not finish. -/
theorem CaughtUp.next (h : CaughtUp json genId m bound rs s f) (hunfinished : r.finishReason = none)
    (hout : ∀ u, r.usage = some u → outTokensOf u ≤ bound) : CaughtUp json genId m bound (rs ++ [r])
      ((GeminiToOpenAIStream.translator json genId).step (s, f) (.response r)).1
      ((GeminiToOpenAIStream.translator json genId).step (s, f) (.response r)).2 := by
  rw [h.step]
  refine ⟨h.named, fun _ => rfl, rfl, rfl, ?_, ?_, rfl, ?_⟩
  · simp only [GeminiToOpenAIStream.feedResponse, callsOf_concat, length_append, h.tools]
  · simp only [hunfinished]
    rfl
  · simp only [GeminiToOpenAIStream.feedResponse]
    cases hu : r.usage with
    | none => exact h.out
    | some u =>
      simp only
      split
      · exact h.out
      · exact hout u hu

theorem CaughtUp.run (h : CaughtUp json genId m bound rs s f) (rest : List (GeminiResponse J))
    (hunfinished : ∀ r ∈ rest, r.finishReason = none)
    (hout : ∀ r ∈ rest, ∀ u, r.usage = some u → outTokensOf u ≤ bound) :
    CaughtUp json genId m bound (rs ++ rest)
      ((GeminiToOpenAIStream.translator json genId).run (s, f) (rest.map .response)).1
      ((GeminiToOpenAIStream.translator json genId).run (s, f) (rest.map .response)).2 := by
  induction rest generalizing rs s f with
  | nil => simpa [Translator.run] using h
  | cons r rest ih =>
    have hnext := h.next (hunfinished r mem_cons_self) (hout r mem_cons_self)
    have hrest := ih hnext (fun q hq => hunfinished q (mem_cons_of_mem _ hq))
      fun q hq => hout q (mem_cons_of_mem _ hq)
    rw [append_assoc, singleton_append] at hrest
    exact hrest

theorem geminiFinish_some (reason : String) (called : Bool) :
    ∃ f, geminiFinish (some reason) called = some f := by
  rw [geminiFinish]
  repeat' split
  all_goals exact ⟨_, rfl⟩

/-- What a client folds from a stream of Gemini. -/
theorem gemini_folded {t : GeminiStream J} (h : t.Valid json) (genId : Nat → String)
    (model : String) :
    (GeminiToOpenAIStream.translator json genId).chatStream (.new model) t.events =
      { model := some model
        content := addText none (joinTexts (textsOf [t.answer]))
        toolCalls := (callsOf json [t.answer]).mapIdx (geminiCall json genId)
        finishReason := geminiFinish t.answer.finishReason ((callsOf json [t.answer]).length > 0)
        usage := some (usageOf ((t.answer.usage.bind GeminiUsage.promptTokenCount).getD 0)
          ((t.answer.usage.map outTokensOf).getD 0)) } := by
  obtain ⟨reason, hreason, hne⟩ := h.reason
  obtain ⟨u, hu, hprompt⟩ := h.prompt
  obtain ⟨prompt, hprompt⟩ := isSome_iff_exists.mp hprompt
  have hstart : CaughtUp json genId model (outTokensOf u) [] (.new model) .start :=
    ⟨rfl, fun h => Bool.noConfusion h, rfl, rfl, rfl, rfl, rfl, zero_le _⟩
  have hrun := hstart.run t.chunks h.unfinished fun r hr v hv => h.sofar r hr v u hv hu
  rw [nil_append] at hrun
  have hsplit : (GeminiToOpenAIStream.translator json genId).run (.new model, .start) t.events =
      (GeminiToOpenAIStream.translator json genId).step
        ((GeminiToOpenAIStream.translator json genId).run (.new model, .start)
          (t.chunks.map .response)) (.response t.last) := by
    rw [GeminiStream.events, map_append, Translator.run, foldl_append]
    rfl
  have hstep := hrun.step (r := t.last)
  have htexts := h.texts
  have hlast : t.last.finishReason.filter (· ≠ "") = t.answer.finishReason := by
    rw [h.finished, hreason, filter_some, if_pos (by simpa using hne)]
  have hout := hrun.out
  have hnamed := hrun.named
  generalize (GeminiToOpenAIStream.translator json genId).run (.new model, .start)
    (t.chunks.map .response) = p at hsplit hstep hout hnamed
  obtain ⟨finish, hfinish⟩ := geminiFinish_some reason ((callsOf json [t.answer]).length > 0)
  have htokens : (if outTokensOf u = 0 then p.1.outTokens else outTokensOf u) = outTokensOf u := by
    split <;> omega
  have husage : t.last.usage = some u := h.usage.trans hu
  rw [Translator.chatStream, hsplit, hstep, htexts, h.calls, hlast, hreason, hfinish]
  simp [Folded.add, GeminiToOpenAIStream.translator, GeminiToOpenAIStream.feedResponse, usageChunk,
    husage, hu, hprompt, htokens, hnamed]

/-- The calls are the same exactly where the same ids were drawn. -/
theorem drawn_iff (calls : List (String × J)) :
    List.Forall₂ (SameCall json) (calls.mapIdx (geminiCall json genId))
      (calls.mapIdx (geminiCall json genId')) ↔ ∀ i < calls.length, genId i = genId' i := by
  rw [forall₂_iff_get]
  constructor
  · rintro ⟨-, hall⟩ i hi
    obtain ⟨hid, -, -⟩ := hall i (by simpa using hi) (by simpa using hi)
    simpa [geminiCall] using hid
  · intro hdrawn
    refine ⟨by simp, fun i hi _ => ?_⟩
    have hid := hdrawn i (by simpa using hi)
    refine ⟨by simp [geminiCall, hid], by simp [geminiCall], ?_⟩
    exact ⟨(calls.get ⟨i, by simpa using hi⟩).2, by simp [geminiCall, json.parse_stringify],
      by simp [geminiCall, json.parse_stringify]⟩

/-- A client folds the answer exactly from a plain stream. -/
theorem gemini_agrees_iff {t : GeminiStream J} (h : t.Valid json) (genId genId' : Nat → String)
    (model : String) : Agrees json (fromGeminiResponse json genId' t.answer model)
      ((GeminiToOpenAIStream.translator json genId).chatStream (.new model) t.events) ↔
      t.Plain json model genId genId' := by
  obtain ⟨reason, hreason, -⟩ := h.reason
  have htexts : textsOf [t.answer] = t.answer.parts.filterMap Part.text? := by simp [textsOf]
  have hcalls : callsOf json [t.answer] = t.answer.parts.filterMap (Part.call? json) := by
    simp [callsOf]
  have hcontent := addText_eq_contentOf (textsOf [t.answer])
  have hdrawn : List.Forall₂ (SameCall json)
      ((callsOf json [t.answer]).mapIdx (geminiCall json genId))
      ((callsOf json [t.answer]).mapIdx (geminiCall json genId')) ↔ _ := drawn_iff _
  rw [gemini_folded h]
  rw [htexts] at hcontent
  rw [hcalls] at hdrawn
  constructor
  · intro hagrees
    refine ⟨?_, (some.inj hagrees.model).symm, ?_⟩
    · rw [htexts]
      refine hcontent.mp (Eq.trans ?_ hagrees.content)
      rw [htexts]
    · rw [hcalls]
      refine hdrawn.mp ?_
      simpa [fromGeminiResponse, hcalls] using hagrees.toolCalls
  · intro hplain
    refine ⟨?_, ?_, ?_, congrArg some hplain.model.symm, ?_⟩
    · rw [htexts]
      exact hcontent.mpr (htexts ▸ hplain.worded)
    · rw [hcalls]
      exact hdrawn.mpr (hcalls ▸ hplain.drawn)
    · simp only [fromGeminiResponse, hreason, getD_some, hcalls]
    · rfl

end

/-! ## All three -/

/-- Streaming and one-shot answers agree, and an error in a stream is told. -/
structure StreamsFaithfully (json : Json J) : Prop where
  anthropic : ∀ t : AnthropicStream J, t.Valid json → ∀ evs, t.Streams evs → ∀ model,
    Agrees json (fromAnthropicResponse json t.answer model)
      (AnthropicToOpenAIStream.translator.chatStream (.new model) evs)
  bedrock : ∀ t : BedrockStream J, t.Valid json → ∀ evs, t.Streams evs → ∀ model,
    Agrees json (fromBedrockResponse json t.answer model)
      (BedrockToOpenAIStream.translator.chatStream (.new model) evs)
  gemini : ∀ t : GeminiStream J, t.Valid json → ∀ genId genId' model,
    Agrees json (fromGeminiResponse json genId' t.answer model)
      ((GeminiToOpenAIStream.translator json genId).chatStream (.new model) t.events)
  anthropicError : ∀ model message before after,
    (AnthropicToOpenAIStream.translator.errorAfter (.new model)
      (before ++ .error message :: after)).isSome = true
  bedrockError : ∀ model message before after,
    (BedrockToOpenAIStream.translator.errorAfter (.new model)
      (before ++ .exception (some message) :: after)).isSome = true
  geminiError : ∀ model message genId before after,
    ((GeminiToOpenAIStream.translator json genId).errorAfter (.new model)
      (before ++ .error message :: after)).isSome = true

/-- For each stream, exactly when it agrees; an error is told by Bedrock's translator, and
never by the others. -/
structure StreamsExactly (json : Json J) : Prop where
  anthropic : ∀ t : AnthropicStream J, t.Valid json → ∀ evs, t.Streams evs → ∀ model,
    (Agrees json (fromAnthropicResponse json t.answer model)
      (AnthropicToOpenAIStream.translator.chatStream (.new model) evs) ↔ t.Plain)
  bedrock : ∀ t : BedrockStream J, t.Valid json → ∀ evs, t.Streams evs → ∀ model,
    (Agrees json (fromBedrockResponse json t.answer model)
      (BedrockToOpenAIStream.translator.chatStream (.new model) evs) ↔ t.Plain)
  gemini : ∀ t : GeminiStream J, t.Valid json → ∀ genId genId' model,
    (Agrees json (fromGeminiResponse json genId' t.answer model)
      ((GeminiToOpenAIStream.translator json genId).chatStream (.new model) t.events) ↔
        t.Plain json model genId genId')
  anthropicError : ∀ model evs,
    AnthropicToOpenAIStream.translator.errorAfter (.new model) evs = none
  bedrockError : ∀ model message before after,
    (BedrockToOpenAIStream.translator.errorAfter (.new model)
      (before ++ .exception (some message) :: after)).isSome = true
  geminiError : ∀ model genId evs,
    (GeminiToOpenAIStream.translator json genId).errorAfter (.new model) evs = none

/-- A call of a tool that takes nothing. -/
def silentCall : AnthropicStream PlainValue :=
  ⟨"claude", ⟨some 10, some 1, none, none⟩,
    [.toolUse "toolu_1" "now" plainJson.empty []], "tool_use",
    ⟨none, some 5, none, none⟩⟩

end Swarmy.Ai
