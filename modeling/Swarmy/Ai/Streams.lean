import Swarmy.Js.Json

/-!
# Streamed and one-shot answers

The adapters of three providers: how a complete answer is put in OpenAI's shape, and how
the events of a stream are, chunk by chunk.  How numbers are read in the JSON texts of tool
arguments is left open, so these are read and written by parameters; `plainJson` is the one
of texts without numbers.  The other values are those the code reads.
-/

namespace Swarmy.Ai

/-! ## OpenAI's shape -/

inductive FinishReason where
  | stop
  | length
  | toolCalls
  | contentFilter

structure ChatToolCall where
  id : String
  name : String
  arguments : String

structure ChatUsage where
  promptTokens : Nat
  completionTokens : Nat
  totalTokens : Nat

def usageOf (inTokens outTokens : Nat) : ChatUsage := ⟨inTokens, outTokens, inTokens + outTokens⟩

structure ChatResponse where
  model : String
  content : Option String
  toolCalls : List ChatToolCall
  finishReason : Option FinishReason
  usage : ChatUsage

structure ChunkToolCallDelta where
  index : Nat
  id : Option String
  name : Option String
  arguments : String

structure ChatChunk where
  model : String
  content : Option String
  toolCalls : List ChunkToolCallDelta
  finishReason : Option FinishReason
  usage : Option ChatUsage

/-- The first chunk, with the role. -/
def roleChunk (model : String) : ChatChunk := ⟨model, some "", [], none, none⟩

def contentChunk (model text : String) : ChatChunk := ⟨model, some text, [], none, none⟩

def toolChunk (model : String) (d : ChunkToolCallDelta) : ChatChunk :=
  ⟨model, none, [d], none, none⟩

def finishChunk (model : String) (finish : FinishReason) : ChatChunk :=
  ⟨model, none, [], some finish, none⟩

def usageChunk (model : String) (usage : ChatUsage) : ChatChunk :=
  ⟨model, none, [], none, some usage⟩

/-- What a client has after some chunks. -/
structure Folded where
  model : Option String
  content : Option String
  toolCalls : List ChatToolCall
  finishReason : Option FinishReason
  usage : Option ChatUsage

def Folded.start : Folded := ⟨none, none, [], none, none⟩

/-- Content is appended; no content is none. -/
def addText (content : Option String) (text : String) : Option String :=
  if text = "" then content else some (content.getD "" ++ text)

/-- A delta of a known call appends to its arguments; one of a new call begins it. -/
def addCall (calls : List ChatToolCall) (d : ChunkToolCallDelta) : List ChatToolCall :=
  match calls[d.index]? with
  | some c =>
    calls.set d.index ⟨d.id.getD c.id, d.name.getD c.name, c.arguments ++ d.arguments⟩
  | none => calls ++ [⟨d.id.getD "", d.name.getD "", d.arguments⟩]

/-- OpenAI's rules. -/
def Folded.add (f : Folded) (c : ChatChunk) : Folded where
  model := some c.model
  content := addText f.content (c.content.getD "")
  toolCalls := c.toolCalls.foldl addCall f.toolCalls
  finishReason := c.finishReason.or f.finishReason
  usage := c.usage.or f.usage

/-! ## Translators -/

/-- A stateful translator of the events of a provider. -/
structure Translator (σ ε : Type) where
  feed : σ → ε → σ × List ChatChunk
  usage : σ → ChatChunk
  error : σ → Option String

namespace Translator

variable {σ ε : Type} (T : Translator σ ε)

/-- The translator and its client take an event. -/
def step (p : σ × Folded) (e : ε) : σ × Folded :=
  ((T.feed p.1 e).1, (T.feed p.1 e).2.foldl Folded.add p.2)

def run (p : σ × Folded) (events : List ε) : σ × Folded := events.foldl T.step p

/-- `chatStream` with the usage chunk at the end, folded. -/
def chatStream (s : σ) (events : List ε) : Folded :=
  let p := T.run (s, .start) events
  p.2.add (T.usage p.1)

/-- The error after some events. -/
def errorAfter (s : σ) (events : List ε) : Option String := T.error (T.run (s, .start) events).1

end Translator

/-- `JSON.parse` and `JSON.stringify`; `empty` is the object with no members. -/
structure Json (J : Type) where
  parse : String → Option J
  stringify : J → String
  empty : J
  parse_stringify : ∀ v, parse (stringify v) = some v
  parse_nil : parse "" = none

/-- A value without numbers. -/
abbrev PlainValue : Type := {v : Js.Value // Js.Json.plain v = true}

/-- A text with a number in it is not read. -/
def plainJson : Json PlainValue where
  parse s :=
    (Js.Json.parse (fun _ => .int 0) s).bind fun v =>
      if h : Js.Json.plain v then some ⟨v, h⟩ else none
  stringify v := Js.Json.stringify v.val
  empty := ⟨.obj [], rfl⟩
  parse_stringify v := by
    rw [Js.Json.parse_stringify (Js.Json.sound_of_plain v.property), Option.bind_some,
      dif_pos v.property]
  parse_nil := rfl

/-- `join('')`. -/
def joinTexts : List String → String
  | [] => ""
  | t :: ts => t ++ joinTexts ts

/-- The content of a message with these texts. -/
def contentOf (texts : List String) : Option String :=
  if texts = [] then none else some (joinTexts texts)

/-- The tools of a stream: the call of each block, and how many there are. -/
structure Tools where
  toolIndex : List (Nat × Nat)
  nextTool : Nat

def Tools.start (t : Tools) (index : Nat) : Tools :=
  ⟨(index, t.nextTool) :: t.toolIndex, t.nextTool + 1⟩

def Tools.call (t : Tools) (index : Nat) : Nat := (t.toolIndex.lookup index).getD 0

variable {J : Type}

/-! ## Anthropic -/

def anthropicFinish (stop : Option String) : Option FinishReason :=
  match stop with
  | none => none
  | some stop =>
    if stop ∈ ["end_turn", "stop_sequence", "pause_turn"] then some .stop
    else if stop ∈ ["max_tokens", "model_context_window_exceeded"] then some .length
    else if stop = "tool_use" then some .toolCalls
    else if stop = "refusal" then some .contentFilter
    else some .stop

structure AnthropicUsage where
  inputTokens : Option Nat
  outputTokens : Option Nat
  cacheReadInputTokens : Option Nat
  cacheCreationInputTokens : Option Nat
deriving DecidableEq

def anthropicInputTokens (u : AnthropicUsage) : Nat :=
  u.inputTokens.getD 0 + u.cacheReadInputTokens.getD 0 + u.cacheCreationInputTokens.getD 0

/-- A block of an answer; `other` is a kind that is not translated. -/
inductive ContentBlock (J : Type) where
  | text (text : String)
  | toolUse (id name : String) (input : Option J)
  | other

namespace ContentBlock

def text? : ContentBlock J → Option String
  | .text t => some t
  | _ => none

/-- The call of a block, with its input written as JSON. -/
def call? (json : Json J) : ContentBlock J → Option ChatToolCall
  | .toolUse id name input => some ⟨id, name, json.stringify (input.getD json.empty)⟩
  | _ => none

end ContentBlock

structure AnthropicResponse (J : Type) where
  model : Option String
  content : List (ContentBlock J)
  stopReason : Option String
  usage : AnthropicUsage

def fromAnthropicResponse (json : Json J) (r : AnthropicResponse J) (model : String) :
    ChatResponse where
  model := r.model.getD model
  content := contentOf (r.content.filterMap ContentBlock.text?)
  toolCalls := r.content.filterMap (ContentBlock.call? json)
  finishReason := anthropicFinish r.stopReason
  usage := usageOf (anthropicInputTokens r.usage) (r.usage.outputTokens.getD 0)

/-- The events of a stream; `other` are a ping, the start of a block that is no tool's, the
end of a block or the message, and a delta of another kind. -/
inductive AnthropicEvent where
  | messageStart (model : Option String) (usage : AnthropicUsage)
  | toolStart (index : Nat) (id name : String)
  | textDelta (index : Nat) (text : String)
  | inputJsonDelta (index : Nat) (partialJson : String)
  | messageDelta (stopReason : Option String) (usage : Option AnthropicUsage)
  | error (message : String)
  | other
deriving DecidableEq

structure AnthropicToOpenAIStream where
  inTokens : Nat
  outTokens : Nat
  finish : Option FinishReason
  responseModel : Option String
  tools : Tools
  model : String

namespace AnthropicToOpenAIStream

def new (model : String) : AnthropicToOpenAIStream := ⟨0, 0, none, none, ⟨[], 0⟩, model⟩

variable (s : AnthropicToOpenAIStream)

/-- The model that the chunks name. -/
def named : String := s.responseModel.getD s.model

def feed : AnthropicEvent → AnthropicToOpenAIStream × List ChatChunk
  | .messageStart model usage =>
    let s' := { s with
      responseModel := if model.getD "" = "" then s.responseModel else model
      inTokens := anthropicInputTokens usage, outTokens := usage.outputTokens.getD 0 }
    (s', [roleChunk s'.named])
  | .toolStart index id name =>
    ({ s with tools := s.tools.start index },
      [toolChunk s.named ⟨s.tools.nextTool, some id, some name, ""⟩])
  | .textDelta _ text => (s, [contentChunk s.named text])
  | .inputJsonDelta index partialJson =>
    (s, [toolChunk s.named ⟨s.tools.call index, none, none, partialJson⟩])
  | .messageDelta stopReason usage =>
    let restated := match usage with
      | some u => u.inputTokens.isSome || u.cacheReadInputTokens.isSome
      | none => false
    let s' := { s with
      outTokens := (usage.bind AnthropicUsage.outputTokens).getD s.outTokens
      inTokens := if restated then (usage.map anthropicInputTokens).getD s.inTokens else s.inTokens
      finish := anthropicFinish stopReason }
    (s', [finishChunk s.named (s'.finish.getD .stop)])
  | .error _ | .other => (s, [])

/-- It has no error to tell. -/
def translator : Translator AnthropicToOpenAIStream AnthropicEvent where
  feed := feed
  usage s := usageChunk s.named (usageOf s.inTokens s.outTokens)
  error _ := none

end AnthropicToOpenAIStream

/-! ## Bedrock -/

def bedrockFinish (reason : Option String) : Option FinishReason :=
  match reason with
  | none => none
  | some reason =>
    if reason ∈ ["end_turn", "stop_sequence"] then some .stop
    else if reason ∈ ["max_tokens", "model_context_window_exceeded"] then some .length
    else if reason = "tool_use" then some .toolCalls
    else if reason ∈ ["guardrail_intervened", "content_filtered"] then some .contentFilter
    else some .stop

structure BedrockUsage where
  inputTokens : Option Nat
  outputTokens : Option Nat
  cacheReadInputTokens : Option Nat
  cacheWriteInputTokens : Option Nat
deriving DecidableEq

def inOf (u : BedrockUsage) : Nat :=
  u.inputTokens.getD 0 + u.cacheReadInputTokens.getD 0 + u.cacheWriteInputTokens.getD 0

structure BedrockResponse (J : Type) where
  content : List (ContentBlock J)
  stopReason : Option String
  usage : BedrockUsage

/-- A call without a name is left out. -/
def bedrockCall? (json : Json J) : ContentBlock J → Option ChatToolCall
  | .toolUse id name input =>
    if name = "" then none else some ⟨id, name, json.stringify (input.getD json.empty)⟩
  | _ => none

def fromBedrockResponse (json : Json J) (r : BedrockResponse J) (model : String) :
    ChatResponse where
  model := model
  content := contentOf (r.content.filterMap ContentBlock.text?)
  toolCalls := r.content.filterMap (bedrockCall? json)
  finishReason := bedrockFinish (some (r.stopReason.getD "end_turn"))
  usage := usageOf (inOf r.usage) (r.usage.outputTokens.getD 0)

/-- The events of a stream; `exception` is any event of a type the code does not name, with
its message. -/
inductive BedrockEvent where
  | messageStart
  | toolStart (index : Nat) (id name : String)
  | textDelta (index : Nat) (text : String)
  | toolDelta (index : Nat) (input : String)
  | messageStop (stopReason : Option String)
  | metadata (usage : BedrockUsage)
  | exception (message : Option String)
  | other
deriving DecidableEq

structure BedrockToOpenAIStream where
  inTokens : Nat
  outTokens : Nat
  finish : Option FinishReason
  error : Option String
  tools : Tools
  model : String

namespace BedrockToOpenAIStream

def new (model : String) : BedrockToOpenAIStream := ⟨0, 0, none, none, ⟨[], 0⟩, model⟩

variable (s : BedrockToOpenAIStream)

def feed : BedrockEvent → BedrockToOpenAIStream × List ChatChunk
  | .messageStart => (s, [roleChunk s.model])
  | .toolStart index id name =>
    ({ s with tools := s.tools.start index },
      [toolChunk s.model ⟨s.tools.nextTool, some id, some name, ""⟩])
  | .textDelta _ text => (s, [contentChunk s.model text])
  | .toolDelta index input => (s, [toolChunk s.model ⟨s.tools.call index, none, none, input⟩])
  | .messageStop stopReason =>
    let s' := { s with finish := bedrockFinish stopReason }
    (s', [finishChunk s.model (s'.finish.getD .stop)])
  | .metadata usage =>
    ({ s with inTokens := inOf usage, outTokens := usage.outputTokens.getD 0 }, [])
  | .exception message => ({ s with error := message.or s.error }, [])
  | .other => (s, [])

def translator : Translator BedrockToOpenAIStream BedrockEvent where
  feed := feed
  usage s := usageChunk s.model (usageOf s.inTokens s.outTokens)
  error s := s.error

end BedrockToOpenAIStream

/-! ## Gemini -/

def geminiFinish (reason : Option String) (hasToolCalls : Bool) : Option FinishReason :=
  match reason with
  | none => none
  | some reason =>
    if hasToolCalls then some .toolCalls
    else if reason = "STOP" then some .stop
    else if reason = "MAX_TOKENS" then some .length
    else if reason ∈ ["SAFETY", "RECITATION", "BLOCKLIST", "PROHIBITED_CONTENT", "SPII"] then
      some .contentFilter
    else some .stop

structure GeminiUsage where
  promptTokenCount : Option Nat
  candidatesTokenCount : Option Nat
  thoughtsTokenCount : Option Nat

def outTokensOf (u : GeminiUsage) : Nat :=
  u.candidatesTokenCount.getD 0 + u.thoughtsTokenCount.getD 0

/-- A part of an answer that is not a thought. -/
inductive Part (J : Type) where
  | text (text : String)
  | functionCall (name : String) (args : Option J)
  | thought

namespace Part

def text? : Part J → Option String
  | .text t => some t
  | _ => none

/-- A call without a name is left out. -/
def call? (json : Json J) : Part J → Option (String × J)
  | .functionCall name args => if name = "" then none else some (name, args.getD json.empty)
  | _ => none

end Part

/-- An answer, and likewise each event of a stream. -/
structure GeminiResponse (J : Type) where
  parts : List (Part J)
  finishReason : Option String
  usage : Option GeminiUsage
  modelVersion : Option String

/-- `call_<i>_<id>`, with the ids that are drawn. -/
def geminiCall (json : Json J) (genId : Nat → String) (i : Nat) (c : String × J) : ChatToolCall :=
  ⟨"call_" ++ toString i ++ "_" ++ genId i, c.1, json.stringify c.2⟩

def fromGeminiResponse (json : Json J) (genId : Nat → String) (r : GeminiResponse J)
    (model : String) :
    ChatResponse :=
  let calls := r.parts.filterMap (Part.call? json)
  { model := r.modelVersion.getD model
    content := contentOf (r.parts.filterMap Part.text?)
    toolCalls := calls.mapIdx (geminiCall json genId)
    finishReason := geminiFinish (some (r.finishReason.getD "STOP")) (calls.length > 0)
    usage := usageOf ((r.usage.bind GeminiUsage.promptTokenCount).getD 0)
      ((r.usage.map outTokensOf).getD 0) }

/-- The events of a stream. -/
inductive GeminiEvent (J : Type) where
  | response (r : GeminiResponse J)
  | error (message : String)

structure GeminiToOpenAIStream where
  inTokens : Nat
  outTokens : Nat
  finish : Option FinishReason
  started : Bool
  tools : Nat
  model : String

namespace GeminiToOpenAIStream

def new (model : String) : GeminiToOpenAIStream := ⟨0, 0, none, false, 0, model⟩

variable (s : GeminiToOpenAIStream)

/-- The chunk of the `i`-th call of an event. -/
def callChunk (json : Json J) (genId : Nat → String) (i : Nat) (c : String × J) : ChatChunk :=
  let call := geminiCall json genId (s.tools + i) c
  toolChunk s.model ⟨s.tools + i, some call.id, some call.name, call.arguments⟩

def feedResponse (json : Json J) (genId : Nat → String) (r : GeminiResponse J) :
    GeminiToOpenAIStream × List ChatChunk :=
  let calls := r.parts.filterMap (Part.call? json)
  let text := joinTexts (r.parts.filterMap Part.text?)
  let tools := s.tools + calls.length
  -- an empty reason is no reason
  let reason := r.finishReason.filter (· ≠ "")
  let finish := (geminiFinish reason (tools > 0)).or s.finish
  let outTokens := match r.usage with
    | some u => if outTokensOf u = 0 then s.outTokens else outTokensOf u
    | none => s.outTokens
  ({ s with
      started := true, tools := tools, finish := finish, outTokens := outTokens
      inTokens := (r.usage.bind GeminiUsage.promptTokenCount).getD s.inTokens },
    (if s.started then [] else [roleChunk s.model]) ++
      (if text = "" then [] else [contentChunk s.model text]) ++
      calls.mapIdx (callChunk s json genId) ++
      ((geminiFinish reason (tools > 0)).map (finishChunk s.model)).toList)

/-- An event that only has an error is read as a response with nothing in it. -/
def feed (json : Json J) (genId : Nat → String) :
    GeminiEvent J → GeminiToOpenAIStream × List ChatChunk
  | .response r => s.feedResponse json genId r
  | .error _ => s.feedResponse json genId (⟨[], none, none, none⟩ : GeminiResponse J)

/-- It has no error to tell. -/
def translator (json : Json J) (genId : Nat → String) :
    Translator GeminiToOpenAIStream (GeminiEvent J) where
  feed s := s.feed json genId
  usage s := usageChunk s.model (usageOf s.inTokens s.outTokens)
  error _ := none

end GeminiToOpenAIStream

end Swarmy.Ai
