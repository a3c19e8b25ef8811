import Swarmy.Ai.Models
import Swarmy.Ai.Streams

/-!
# One request of the gateway

The pipeline of a request: the checks, the chain of calls to its targets with retries, and
the endings at which the tokens are metered.  What the upstreams answer, and how their
bodies and streams end, is the environment's.
-/

namespace Swarmy.Ai

variable {J : Type}

/-! ## Tokens -/

structure Tokens where
  input : Nat
  output : Nat

/-- At least those. -/
def Tokens.Covers (t r : Tokens) : Prop := r.input ≤ t.input ∧ r.output ≤ t.output

/-- The code's `n || fallback`. -/
def orElse (n fallback : Nat) : Nat := if n = 0 then fallback else n

theorem le_orElse (n fallback : Nat) : n ≤ orElse n fallback := by
  unfold orElse
  split <;> omega

/-! ## Bodies -/

/-- The usage of an answer, or of a chunk, in OpenAI's shape. -/
structure OpenAIUsage where
  promptTokens : Option Nat
  completionTokens : Option Nat

/-- The usage that a complete answer states, in the shape of its provider. -/
inductive AnswerUsage where
  | anthropic (u : Option AnthropicUsage)
  | bedrock (u : Option BedrockUsage)
  | gemini (u : Option GeminiUsage)
  | openai (u : Option OpenAIUsage)

namespace AnswerUsage

/-- The usage of `parseChat`. -/
def parseChat : AnswerUsage → Tokens
  | .anthropic u =>
    ⟨(u.map anthropicInputTokens).getD 0, (u.bind AnthropicUsage.outputTokens).getD 0⟩
  | .bedrock u => ⟨(u.map inOf).getD 0, (u.bind BedrockUsage.outputTokens).getD 0⟩
  | .gemini u => ⟨(u.bind GeminiUsage.promptTokenCount).getD 0, (u.map outTokensOf).getD 0⟩
  | .openai u =>
    ⟨(u.bind OpenAIUsage.promptTokens).getD 0, (u.bind OpenAIUsage.completionTokens).getD 0⟩

/-- The tokens that are metered.  An answer of Anthropic's to a request in its own shape is
passed through: an input of 0 then stands. -/
def metered (native : Bool) (promptTokens : Nat) (u : AnswerUsage) : Tokens :=
  match u, native with
  | .anthropic u, true =>
    ⟨(u.map anthropicInputTokens).getD promptTokens, (u.bind AnthropicUsage.outputTokens).getD 0⟩
  | u, _ => ⟨orElse u.parseChat.input promptTokens, u.parseChat.output⟩

end AnswerUsage

/-- A body that is read whole as an answer. -/
inductive JsonBody where
  | answer (u : AnswerUsage)
  /-- Text that is no JSON. -/
  | unreadable
  /-- JSON that the adapter throws on. -/
  | throws
  /-- A body that fails midway. -/
  | broken

inductive StreamEnd where
  | closed
  | failed
  | cancelled
deriving DecidableEq

/-- Whether a frame is thrown on: before the translator has counted it, or after, by the
writer that its chunks are passed to. -/
inductive Thrown where
  | no
  | early
  | late
deriving DecidableEq

/-- A chunk of bytes with the frames it completes.  A decoder that throws on it gives none. -/
structure StreamChunk (ε : Type) where
  frames : List (ε × Thrown)
  corrupt : Bool

/-- What came of a stream: its chunks, and the frames that closing it gives; and how it ended. -/
structure UpstreamStream (ε : Type) where
  chunks : List (StreamChunk ε)
  rest : List (ε × Thrown)
  ending : StreamEnd

/-- A chunk in OpenAI's shape. -/
inductive OpenAIEvent where
  | chunk (usage : Option OpenAIUsage)
  | error

/-- A stream in the shape of its provider. -/
inductive StreamBody (J : Type) where
  | anthropic (s : UpstreamStream AnthropicEvent)
  | bedrock (s : UpstreamStream BedrockEvent)
  | gemini (s : UpstreamStream (GeminiEvent J))
  | openai (s : UpstreamStream OpenAIEvent)

/-- The body of an answer with status 2xx: what it is as an answer, the tokens it states as an
embedding, and what it is as a stream, if it is not empty. -/
structure Body (J : Type) where
  json : JsonBody
  embedding : Option Nat
  stream : Option (StreamBody J)

/-! ## Reading a stream -/

namespace UpstreamStream

variable {ε : Type} (u : UpstreamStream ε)

/-- What came. -/
def events : List ε := (u.chunks.flatMap StreamChunk.frames ++ u.rest).map Prod.fst

/-- What of some frames the translator counts: `handle` stops at the first that is thrown on. -/
def taken : List (ε × Thrown) → List ε
  | [] => []
  | (e, .no) :: frames => e :: taken frames
  | (e, .late) :: _ => [e]
  | (_, .early) :: _ => []

def fed : List ε :=
  (u.chunks.flatMap fun c => if c.corrupt then [] else taken c.frames) ++ taken u.rest

/-- Whether anything is thrown. -/
def threw : Bool :=
  (u.chunks.any fun c => c.corrupt || c.frames.any (·.2 ≠ .no)) || u.rest.any (·.2 ≠ .no)

end UpstreamStream

/-- What a translator counts, and whether it has an error to tell. -/
structure Counter (σ ε : Type) where
  start : σ
  feed : σ → ε → σ
  tokens : σ → Tokens
  failed : σ → Bool

/-- The translator after a stream. -/
def Counter.final {σ ε : Type} (c : Counter σ ε) (u : UpstreamStream ε) : σ :=
  u.fed.foldl c.feed c.start

def anthropicCounter : Counter AnthropicToOpenAIStream AnthropicEvent where
  start := .new ""
  feed s e := (s.feed e).1
  tokens s := ⟨s.inTokens, s.outTokens⟩
  failed _ := false

def bedrockCounter : Counter BedrockToOpenAIStream BedrockEvent where
  start := .new ""
  feed s e := (s.feed e).1
  tokens s := ⟨s.inTokens, s.outTokens⟩
  failed s := s.error.isSome

def geminiCounter (json : Json J) : Counter GeminiToOpenAIStream (GeminiEvent J) where
  start := .new ""
  feed s e := (s.feed json (fun _ => "") e).1
  tokens s := ⟨s.inTokens, s.outTokens⟩
  failed _ := false

/-- `OpenAIPassthrough`. -/
def openAICounter : Counter (Tokens × Bool) OpenAIEvent where
  start := (⟨0, 0⟩, false)
  feed s
    | .chunk none => s
    | .chunk (some u) =>
      (⟨u.promptTokens.getD s.1.input, u.completionTokens.getD s.1.output⟩, s.2)
    | .error => (s.1, true)
  tokens s := s.1
  failed s := s.2

namespace StreamBody

variable (json : Json J)

def ending : StreamBody J → StreamEnd
  | .anthropic s => s.ending
  | .bedrock s => s.ending
  | .gemini s => s.ending
  | .openai s => s.ending

/-- What the translator of the stream counts. -/
def count : StreamBody J → Tokens
  | .anthropic s => anthropicCounter.tokens (anthropicCounter.final s)
  | .bedrock s => bedrockCounter.tokens (bedrockCounter.final s)
  | .gemini s => (geminiCounter json).tokens ((geminiCounter json).final s)
  | .openai s => openAICounter.tokens (openAICounter.final s)

/-- Whether `streamError` is set: a frame was thrown on, the translator has an error, or an
event of a stream that is passed through is one. -/
def streamError (native : Bool) : StreamBody J → Bool
  | .anthropic s => s.threw || (native && s.fed.any fun | .error _ => true | _ => false)
  | .bedrock s => s.threw || bedrockCounter.failed (bedrockCounter.final s)
  | .gemini s => s.threw || (geminiCounter json).failed ((geminiCounter json).final s)
  | .openai s => s.threw || openAICounter.failed (openAICounter.final s)

end StreamBody

/-! ## The chain of calls -/

/-- What came of one call: its address is refused, it is not reached, or it answers. -/
inductive Reply (J : Type) where
  | refused
  | network
  | status (n : Nat)
  | ok (b : Body J)

inductive FailureClass where
  | retry
  | next
  | stop

def classifyFailure : Option Nat → FailureClass
  | none => .retry
  | some status =>
    if status ∈ [408, 409, 425, 429] ∨ status ≥ 500 then .retry
    else if status ∈ [401, 402, 403, 404] then .next
    else .stop

/-- What came of the calls of an attempt: the bodies that were answered, how many calls were
made, and the status of the failure. -/
structure Called (J : Type) where
  answered : List (Body J)
  calls : Nat
  failure : Option (Option Nat)

/-- The calls of an attempt, up to one that fails. -/
def callParts : List (Reply J) → Called J
  | [] => ⟨[], 0, none⟩
  | .ok b :: rest =>
    let c := callParts rest
    ⟨b :: c.answered, c.calls + 1, c.failure⟩
  | .refused :: _ => ⟨[], 0, some (some 400)⟩
  | .network :: _ => ⟨[], 1, some none⟩
  | .status n :: _ => ⟨[], 1, some (some n)⟩

/-- An attempt at a target. -/
structure Attempt (J : Type) extends Called J where
  target : AiRouteTarget

/-- The upstreams: the status where no request to a target is built; what each call of each
try is answered; and which targets cool down. -/
structure Upstreams (J : Type) where
  build : AiRouteTarget → Option Nat
  reply : (target retry part : Nat) → Reply J
  cooled : AiRouteTarget → Bool

namespace Upstreams

variable (up : Upstreams J) (parts : AiProviderKind → Nat)

/-- `TargetHealth.order`: the healthy targets first. -/
def order (targets : List AiRouteTarget) : List AiRouteTarget :=
  targets.filter (fun t => !up.cooled t) ++ targets.filter up.cooled

def attempt (k : Nat) (t : AiRouteTarget) (retry : Nat) : Attempt J :=
  match up.build t with
  | some status => ⟨⟨[], 0, some (some status)⟩, t⟩
  | none => ⟨callParts ((List.range (parts t.provider)).map (up.reply k retry)), t⟩

/-- The tries of one target, and whether the next target is tried. -/
def tries (k : Nat) (t : AiRouteTarget) : (left retry : Nat) → List (Attempt J) × Bool
  | 0, retry =>
    let a := up.attempt parts k t retry
    match a.failure.map classifyFailure with
    | some .retry | some .next => ([a], true)
    | some .stop | none => ([a], false)
  | left + 1, retry =>
    let a := up.attempt parts k t retry
    match a.failure.map classifyFailure with
    | some .retry =>
      let rest := tries k t left (retry + 1)
      (a :: rest.1, rest.2)
    | some .next => ([a], true)
    | some .stop | none => ([a], false)

/-- `DEFAULT_RETRY.retries`. -/
def RETRIES : Nat := 2

/-- `runChain`: the attempts at the targets in order. -/
def runChain : Nat → List AiRouteTarget → List (Attempt J)
  | _, [] => []
  | k, t :: ts =>
    let r := up.tries parts k t RETRIES 0
    if r.2 then r.1 ++ runChain (k + 1) ts else r.1

end Upstreams

/-! ## The pipeline -/

inductive Op where
  | chat
  | embeddings
  | messages
deriving DecidableEq

structure KeyRow where
  id : String
  models : Option (List String)
  rpm : Option Nat
  dailyBudgetMicros : Option Nat

/-- A hit of the response cache. -/
structure CachedAnswer where
  provider : String
  model : String
  tokens : Tokens

/-- A request, with what the stores and windows say of it. -/
structure Request (J : Type) where
  op : Op
  key : Except Nat KeyRow
  bodyFits : Bool
  isObject : Bool
  model : String
  stream : Bool
  doc : AiConfigDoc
  appModels : Option (List String)
  mayUse : Bool
  cap : Option Nat
  promptTokens : Nat
  inputs : Nat
  rpmAllows : Bool
  spent : Nat
  cached : Option CachedAnswer
  draw : Nat
  upstreams : Upstreams J
  stored : Bool

structure UsageRecord where
  keyId : String
  provider : String
  model : String
  tokens : Tokens
  status : String
  cacheHit : Bool

/-- What came of a request: the calls that were made, by target, and the usage that was
written. -/
structure Outcome where
  calls : List AiRouteTarget
  records : List UsageRecord

namespace Request

variable (lower : LowerCase) (json : Json J) (x : Request J)

def wantsStream : Bool := x.stream && x.op ≠ .embeddings

/-- The checks before the cache: the first that refuses, with its status, or the key and the
model. -/
def policy : Except Nat (KeyRow × ResolvedModel) :=
  x.key.bind fun key =>
    let requested := Js.trim x.model
    if x.bodyFits = false then .error 413
    else if x.isObject = false ∨ requested = "" ∨ x.doc.providers = [] then .error 400
    else
      match resolveModel lower requested x.doc with
      | .error _ => .error 500
      | .ok none => .error 400
      | .ok (some resolved) =>
        if modelAllowed lower resolved [key.models, x.appModels] = false then .error 403
        else if x.mayUse = false then .error 403
        else if x.cap.any (· < x.promptTokens) then .error 413
        else if key.rpm.isSome ∧ x.rpmAllows = false then .error 429
        else if key.dailyBudgetMicros.any (· ≤ x.spent) then .error 429
        else .ok (key, resolved)

/-- The best-effort write. -/
def recordUsage (r : UsageRecord) : List UsageRecord := if x.stored then [r] else []

/-- Whether an answer of a provider is passed through. -/
def native (provider : AiProviderKind) : Bool := x.op = .messages ∧ provider = .anthropic

/-- The prompt tokens of `parseEmbed`. -/
def embedTokens (provider : AiProviderKind) (bodies : List (Body J)) : Nat :=
  match provider with
  | .gemini => x.promptTokens
  | .bedrock => orElse (bodies.map (·.embedding.getD 0)).sum x.promptTokens
  | _ => (bodies.head?.bind Body.embedding).getD x.promptTokens

/-- The tokens and the status that `meter` is called with, where it is called. -/
def metered (a : Attempt J) : Option (Tokens × String) :=
  match a.answered with
  | [] => none
  | b :: _ =>
    if x.op = .embeddings then some (⟨x.embedTokens a.target.provider a.answered, 0⟩, "ok")
    else if x.wantsStream then
      match b.stream with
      | none => some (⟨0, 0⟩, "error:empty-stream")
      | some s =>
        -- only `flush` meters, and it runs when the upstream has closed the stream
        if s.ending = .closed then
          some (⟨orElse (s.count json).input x.promptTokens, (s.count json).output⟩,
            if s.streamError json (x.native a.target.provider) then "error:stream" else "ok")
        else none
    else
      match b.json with
      | .answer u => some (u.metered (x.native a.target.provider) x.promptTokens, "ok")
      | .unreadable => some (⟨x.promptTokens, 0⟩, "ok")
      | .throws | .broken => none

/-- How many calls an attempt takes: Bedrock embeds one input a call. -/
def parts (provider : AiProviderKind) : Nat :=
  if x.op = .embeddings ∧ provider = .bedrock then x.inputs else 1

/-- The attempts that are made. -/
def attempts (resolved : ResolvedModel) : List (Attempt J) :=
  x.upstreams.runChain x.parts 0 (x.upstreams.order (orderTargets resolved x.draw))

/-- The status that a failed chain is recorded with. -/
def failureStatus : Option Nat → Nat
  | none => 502
  | some n => if n ∈ [401, 403, 404] then 502 else n

/-- The cache is not asked for a stream. -/
def hit : Option CachedAnswer := if x.wantsStream then none else x.cached

/-- The record of a chain of attempts. -/
def chainRecords (key : KeyRow) (attempts : List (Attempt J)) : List UsageRecord :=
  match attempts.find? (·.failure.isNone) with
  | some a =>
    match x.metered json a with
    | some (tokens, status) =>
      x.recordUsage ⟨key.id, a.target.provider.text, a.target.model, tokens, status, false⟩
    | none => []
  | none =>
    match attempts.getLast? with
    | some a =>
      x.recordUsage ⟨key.id, a.target.provider.text,
        if a.target.model = "" then Js.trim x.model else a.target.model, ⟨0, 0⟩,
        "error:" ++ toString (failureStatus (a.failure.getD none)), false⟩
    | none => x.recordUsage ⟨key.id, "unknown", Js.trim x.model, ⟨0, 0⟩, "error:502", false⟩

/-- `runPipeline`. -/
def runPipeline : Outcome :=
  match x.policy lower with
  | .error _ => ⟨[], []⟩
  | .ok (key, resolved) =>
    match x.hit with
    | some hit =>
      ⟨[], x.recordUsage ⟨key.id, hit.provider, hit.model, hit.tokens, "ok", true⟩⟩
    | none =>
      ⟨(x.attempts resolved).flatMap fun a => List.replicate a.calls a.target,
        x.chainRecords json key (x.attempts resolved)⟩

end Request

end Swarmy.Ai
