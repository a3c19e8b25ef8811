import Swarmy.Js.Value

/-!
# Models of the gateway

The organisation's document of providers and routes, how a requested model resolves to
the targets that may be called for it, and the allowlists of keys and apps.
-/

namespace Swarmy.Ai

/-! ## Providers -/

inductive AiProviderKind where
  | anthropic
  | openai
  | azure
  | gemini
  | bedrock
  | mistral
  | groq
  | openrouter
  | ollama
  | vllm
  | custom
deriving DecidableEq

def AI_PROVIDER_KINDS : List AiProviderKind :=
  [.anthropic, .openai, .azure, .gemini, .bedrock, .mistral, .groq, .openrouter, .ollama, .vllm,
    .custom]

namespace AiProviderKind

def text : AiProviderKind → String
  | anthropic => "anthropic"
  | openai => "openai"
  | azure => "azure"
  | gemini => "gemini"
  | bedrock => "bedrock"
  | mistral => "mistral"
  | groq => "groq"
  | openrouter => "openrouter"
  | ollama => "ollama"
  | vllm => "vllm"
  | custom => "custom"

/-- The prefixes of the models that are routed to a provider. -/
def prefixes : AiProviderKind → List String
  | anthropic => ["claude"]
  | openai => ["gpt", "chatgpt", "o1", "o3", "o4", "text-embedding", "omni-moderation"]
  | gemini => ["gemini", "text-embedding-004", "gemma"]
  | bedrock =>
    ["anthropic.", "us.", "eu.", "apac.", "global.", "amazon.", "meta.", "cohere.", "mistral."]
  | mistral => ["mistral", "codestral", "pixtral", "ministral", "magistral", "open-mistral"]
  | azure | groq | openrouter | ollama | vllm | custom => []

end AiProviderKind

/-- `isAiProviderKind`, with the kind it finds. -/
def aiProviderKind (v : String) : Option AiProviderKind :=
  AI_PROVIDER_KINDS.find? (·.text = v)

/-- The ids of `MODEL_CATALOG`. -/
def MODEL_CATALOG : List (AiProviderKind × String) :=
  [(.anthropic, "claude-fable-5-1"), (.anthropic, "claude-fable-5"),
    (.anthropic, "claude-opus-5-5"),
    (.anthropic, "claude-opus-5"), (.anthropic, "claude-opus-4-8"), (.anthropic, "claude-sonnet-5"),
    (.anthropic, "claude-sonnet-4-6"), (.anthropic, "claude-haiku-4-5"),
    (.openai, "gpt-5"), (.openai, "gpt-5-mini"), (.openai, "gpt-5-nano"), (.openai, "gpt-4.1"),
    (.openai, "gpt-4.1-mini"), (.openai, "gpt-4.1-nano"), (.openai, "gpt-4o"),
    (.openai, "gpt-4o-mini"), (.openai, "o4-mini"), (.openai, "o3"), (.openai, "o1"),
    (.openai, "text-embedding-3-small"), (.openai, "text-embedding-3-large"),
    (.gemini, "gemini-2.5-pro"), (.gemini, "gemini-2.5-flash"), (.gemini, "gemini-2.5-flash-lite"),
    (.gemini, "gemini-embedding-001"), (.gemini, "text-embedding-004"),
    (.mistral, "mistral-large-latest"), (.mistral, "mistral-medium-latest"),
    (.mistral, "mistral-small-latest"), (.mistral, "codestral-latest"), (.mistral, "mistral-embed"),
    (.groq, "llama-3.3-70b-versatile"), (.groq, "llama-3.1-8b-instant"),
    (.groq, "openai/gpt-oss-120b"), (.groq, "openai/gpt-oss-20b"),
    (.bedrock, "amazon.nova-pro-v1:0"), (.bedrock, "amazon.nova-lite-v1:0"),
    (.bedrock, "amazon.nova-micro-v1:0"), (.bedrock, "meta.llama3-3-70b-instruct-v1:0"),
    (.bedrock, "amazon.titan-embed-text-v2:0"),
    (.openrouter, "openai/gpt-5-mini"), (.openrouter, "anthropic/claude-sonnet-4.5"),
    (.openrouter, "meta-llama/llama-3.3-70b-instruct"),
    (.ollama, "llama3.2:3b"), (.ollama, "qwen2.5:0.5b"), (.ollama, "nomic-embed-text"),
    (.ollama, "all-minilm")]

/-! ## Letters -/

/-- `toLowerCase` of any letters: it keeps the name of a provider before a slash, and makes no
slash.  `asciiLowerCase` is the one of ASCII. -/
structure LowerCase where
  apply : String → String
  provider : ∀ (k : AiProviderKind) (s : String),
    apply (k.text ++ ("/" ++ s)) = k.text ++ ("/" ++ apply s)
  slash : ∀ s, '/' ∈ (apply s).toList → '/' ∈ s.toList

instance : CoeFun LowerCase fun _ => String → String := ⟨LowerCase.apply⟩

/-- `\w`. -/
def isWord (c : Char) : Bool := c.isAlphanum || c = '_'

/-- `s.endsWith(t)`. -/
def endsWith (s t : String) : Bool := t.toList.isSuffixOf s.toList

/-- The text before the first slash and the text after it, where the first is not empty. -/
def cutSlash (s : String) : Option (String × String) :=
  match s.toList.dropWhile (· ≠ '/') with
  | [] => none
  | _ :: rest =>
    let head := s.toList.takeWhile (· ≠ '/')
    if head = [] then none else some (String.ofList head, String.ofList rest)

/-! ## The document -/

structure AiRouteTarget where
  provider : AiProviderKind
  model : String
deriving DecidableEq

inductive AiRouteStrategy where
  | fallback
  | balance
deriving DecidableEq

structure AiRoute where
  strategy : AiRouteStrategy
  targets : List AiRouteTarget

structure AiProviderDescriptor where
  kind : AiProviderKind
  isDefault : Bool

/-- The own properties of a `Record`. -/
abbrev Record (α : Type) := List (String × α)

/-- `record[name] = value`, up to the order of the properties. -/
def Record.set {α : Type} (r : Record α) (name : String) (value : α) : Record α :=
  (name, value) :: r.filter (·.1 ≠ name)

/-- `ROUTE_NAME_RE`. -/
def isRouteName (name : String) : Bool :=
  match name.toList with
  | [] => false
  | c :: rest => c.isAlphanum && rest.all (fun c => c.isAlphanum || c ∈ ['.', '_', ':', '-']) &&
      rest.length ≤ 62

/-- `AiConfigDoc`. -/
structure AiConfigDoc where
  providers : List AiProviderDescriptor
  routes : Record AiRoute
  apps : Record (List String)
  named : ∀ r ∈ routes, isRouteName r.1 = true

open Js in
def parseTarget (t : Value) : Option AiRouteTarget :=
  match t.field "provider", t.field "model" with
  | some (.str provider), some (.str model) =>
    (aiProviderKind provider).bind fun kind =>
      if trim model = "" then none else some ⟨kind, trim model⟩
  | _, _ => none

open Js in
def parseTargets : Option Value → List AiRouteTarget
  | some (.arr raw) => raw.filterMap parseTarget
  | _ => []

open Js in
def strList : Option Value → List String
  | some (.arr v) => v.filterMap fun
      | .str s => if trim s = "" then none else some (trim s)
      | _ => none
  | _ => []

open Js in
def parseProviders (list : List Value) : List AiProviderDescriptor :=
  list.foldl (fun providers entry =>
    match entry.field "kind" with
    | some (.str v) =>
      match aiProviderKind v with
      | none => providers
      | some kind =>
        if providers.any (·.kind = kind) then providers
        else
          let isDefault := match entry.field "isDefault" with
            | some (.bool true) => true
            | _ => false
          -- of several defaults the first wins
          providers ++ [⟨kind, isDefault && !providers.any (·.isDefault)⟩]
    | _ => providers) []

open Js in
def parseRoute (r : Value) : Option AiRoute :=
  match parseTargets (r.field "targets") with
  | [] => none
  | t :: ts =>
    let strategy := match r.field "strategy" with
      | some (.str "balance") => .balance
      | _ => .fallback
    some ⟨strategy, t :: ts⟩

open Js in
def addRoute (routes : Record AiRoute) (entry : String × Value) : Record AiRoute :=
  if isRouteName entry.1 then
    match parseRoute entry.2 with
    | none => routes
    | some r => routes.set entry.1 r
  else routes

open Js in
def parseRoutes : Option Value → Record AiRoute
  | some (.obj routes) => routes.foldl addRoute []
  | _ => []

open Js in
def parseApps : Option Value → Record (List String)
  | some (.obj apps) => apps.foldl (fun parsed entry =>
      match strList (entry.2.field "models") with
      | [] => parsed
      | m :: ms => parsed.set entry.1 (m :: ms)) []
  | _ => []

theorem addRoute_named {routes : Record AiRoute} (h : ∀ r ∈ routes, isRouteName r.1 = true)
    (entry : String × Js.Value) : ∀ r ∈ addRoute routes entry, isRouteName r.1 = true := by
  unfold addRoute
  split
  next hname =>
    split
    · exact h
    · rintro r hr
      rcases List.mem_cons.mp hr with rfl | hr
      · exact hname
      · exact h r (List.mem_filter.mp hr).1
  · exact h

theorem parseRoutes_named (routes : Option Js.Value) :
    ∀ r ∈ parseRoutes routes, isRouteName r.1 = true := by
  have hfold : ∀ (entries : List (String × Js.Value)) (parsed : Record AiRoute),
      (∀ r ∈ parsed, isRouteName r.1 = true) →
        ∀ r ∈ entries.foldl addRoute parsed, isRouteName r.1 = true := by
    intro entries
    induction entries with
    | nil => exact fun parsed h => h
    | cons entry entries ih => exact fun parsed h => ih _ (addRoute_named h entry)
  unfold parseRoutes
  split
  · exact hfold _ [] (by simp)
  · simp

open Js in
def parseConfigDoc (raw : Value) : AiConfigDoc where
  providers := parseProviders (match raw with
    | .arr list => list
    | raw =>
      match raw.field "providers" with
      | some (.arr list) => list
      | _ => [])
  routes := parseRoutes (raw.field "routes")
  apps := parseApps (raw.field "apps")
  named := parseRoutes_named _

/-! ## Resolution -/

inductive Alias where
  | fast
  | smart
  | embed

def Alias.text : Alias → String
  | fast => "fast"
  | smart => "smart"
  | embed => "embed"

def DEFAULT_ALIASES : List Alias := [.fast, .smart, .embed]

def DEFAULT_ALIAS_TARGETS : Alias → List AiRouteTarget
  | .fast =>
    [⟨.anthropic, "claude-haiku-4-5"⟩, ⟨.openai, "gpt-5-mini"⟩, ⟨.gemini, "gemini-2.5-flash"⟩,
      ⟨.groq, "llama-3.1-8b-instant"⟩, ⟨.mistral, "mistral-small-latest"⟩,
      ⟨.azure, "gpt-4o-mini"⟩, ⟨.bedrock, "amazon.nova-lite-v1:0"⟩,
      ⟨.openrouter, "openai/gpt-5-mini"⟩, ⟨.ollama, "llama3.2:3b"⟩]
  | .smart =>
    [⟨.anthropic, "claude-sonnet-5"⟩, ⟨.openai, "gpt-5"⟩, ⟨.gemini, "gemini-2.5-pro"⟩,
      ⟨.mistral, "mistral-large-latest"⟩, ⟨.azure, "gpt-4.1"⟩, ⟨.bedrock, "amazon.nova-pro-v1:0"⟩,
      ⟨.groq, "llama-3.3-70b-versatile"⟩, ⟨.openrouter, "anthropic/claude-sonnet-4.5"⟩]
  | .embed =>
    [⟨.openai, "text-embedding-3-small"⟩, ⟨.gemini, "gemini-embedding-001"⟩,
      ⟨.mistral, "mistral-embed"⟩, ⟨.azure, "text-embedding-3-small"⟩,
      ⟨.bedrock, "amazon.titan-embed-text-v2:0"⟩, ⟨.ollama, "nomic-embed-text"⟩]

/-- The default aliases that have a target. -/
def defaultRoutes (configured : List AiProviderKind) : Record AiRoute :=
  DEFAULT_ALIASES.filterMap fun a =>
    match (DEFAULT_ALIAS_TARGETS a).filter (·.provider ∈ configured) with
    | [] => none
    | t :: ts => some (a.text, ⟨.fallback, t :: ts⟩)

def effectiveRoutes (doc : AiConfigDoc) (configured : List AiProviderKind) : Record AiRoute :=
  doc.routes.foldr (fun r out => out.set r.1 r.2) (defaultRoutes configured)

structure ResolvedModel where
  requested : String
  «alias» : Option String
  strategy : AiRouteStrategy
  targets : List AiRouteTarget
deriving DecidableEq

/-- Whether a prefix of a provider takes a model. -/
def prefixTakes (mdl p : String) : Bool :=
  Js.startsWith mdl p &&
    (endsWith p "." || 2 < p.length || ((Js.slice mdl p.length).toList.head?).all (!isWord ·))

/-- `/^(gpt|o\d|text-embedding)/`. -/
def azureTakes (mdl : String) : Bool :=
  Js.startsWith mdl "gpt" || Js.startsWith mdl "text-embedding" ||
    (Js.startsWith mdl "o" && ((Js.slice mdl 1).toList.head?).any Char.isDigit)

def providerForModel (lower : LowerCase) (model : String) (configured : List AiProviderKind) :
    Option AiProviderKind :=
  let mdl := lower model
  match MODEL_CATALOG.find? fun r => lower r.2 = mdl ∧ r.1 ∈ configured with
  | some cat => some cat.1
  | none =>
    match configured.find? (·.prefixes.any (prefixTakes mdl)) with
    | some kind => some kind
    | none =>
      if Js.startsWith mdl "claude" ∧ .bedrock ∈ configured then none
      else if azureTakes mdl ∧ .azure ∈ configured then some .azure
      else none

namespace AiConfigDoc

def configured (doc : AiConfigDoc) : List AiProviderKind := doc.providers.map (·.kind)

/-- The organisation's default provider, else the first. -/
def defaultProvider (doc : AiConfigDoc) : Option AiProviderKind :=
  ((doc.providers.find? (·.isDefault)).or doc.providers.head?).map (·.kind)

/-- A `provider/model` of a configured provider. -/
def prefixed (doc : AiConfigDoc) (name : String) : Option AiRouteTarget :=
  (cutSlash name).bind fun cut =>
    ((aiProviderKind cut.1).filter (· ∈ doc.configured)).map fun head => ⟨head, cut.2⟩

/-- The provider of a name that is no route, alias or `provider/model`. -/
def providerOf (lower : LowerCase) (doc : AiConfigDoc) (name : String) : Option AiProviderKind :=
  (providerForModel lower name doc.configured).or doc.defaultProvider

end AiConfigDoc

/-- The properties every object has from `Object.prototype`. -/
def OBJECT_PROTOTYPE : List String :=
  ["constructor", "__defineGetter__", "__defineSetter__", "hasOwnProperty", "__lookupGetter__",
    "__lookupSetter__", "isPrototypeOf", "propertyIsEnumerable", "toString", "valueOf", "__proto__",
    "toLocaleString"]

/-- What a resolution throws: `route.targets` is undefined. -/
inductive TypeError where
  | undefinedTargets
deriving DecidableEq

def resolveModel (lower : LowerCase) (requested : String) (doc : AiConfigDoc) :
    Except TypeError (Option ResolvedModel) :=
  let name := Js.trim requested
  if name = "" then .ok none
  else
    match (effectiveRoutes doc doc.configured).lookup name with
    | some route =>
      match route.targets.filter (·.provider ∈ doc.configured) with
      | [] => .ok none
      | t :: ts => .ok (some ⟨name, some name, route.strategy, t :: ts⟩)
    | none =>
      if name ∈ OBJECT_PROTOTYPE then .error .undefinedTargets
      else if name ∈ DEFAULT_ALIASES.map Alias.text then .ok none
      else
        match doc.prefixed name with
        | some t => .ok (some ⟨name, none, .fallback, [t]⟩)
        | none => .ok ((doc.providerOf lower name).map fun p =>
          ⟨name, none, .fallback, [⟨p, name⟩]⟩)

/-- The targets in the order they are called; `draw` is the index a weighted draw fell on. -/
def orderTargets (r : ResolvedModel) (draw : Nat) : List AiRouteTarget :=
  if r.strategy ≠ .balance ∨ r.targets.length < 2 then r.targets
  else (r.targets[draw]?).toList ++ r.targets.eraseIdx draw

/-! ## Allowlists -/

/-- A pattern as it is compared. -/
def normal (lower : LowerCase) (pattern : String) : String := lower (Js.trim pattern)

def patternMatches (lower : LowerCase) (pattern requested : String) (targets : List AiRouteTarget) :
    Bool :=
  let p := normal lower pattern
  if p = "*" ∨ p = lower requested then true
  else if endsWith p "/*" then
    targets ≠ [] ∧ targets.all fun t => t.provider.text ++ "/*" = p
  else
    match targets with
    | [t] => p = lower t.model ∨ p = lower (t.provider.text ++ ("/" ++ t.model))
    | _ => false

def modelAllowed (lower : LowerCase) (resolved : ResolvedModel)
    (lists : List (Option (List String))) :
    Bool :=
  lists.all fun
    | none => true
    | some list => list.any fun pat => patternMatches lower pat resolved.requested resolved.targets

end Swarmy.Ai
