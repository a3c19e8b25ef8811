import Swarmy.Ai.Streams

/-!
# When the two answers agree

A client that folds the chunks of a stream has what the one-shot answer says, unless a tool
was called with no input, all text is empty, the input tokens are restated in part, or, for
Gemini, the answer names its model or calls a tool.
-/

namespace Swarmy.Ai

open List Option

/-! ## The words of the statements -/

section

variable {J σ ε : Type}

/-- The same call: the arguments are JSON texts of one value. -/
def SameCall (json : Json J) (c d : ChatToolCall) : Prop :=
  c.id = d.id ∧ c.name = d.name ∧ ∃ v, json.parse c.arguments = some v ∧
    json.parse d.arguments = some v

/-- What a client folded is what the answer says. -/
structure Agrees (json : Json J) (a : ChatResponse) (f : Folded) : Prop where
  content : f.content = a.content
  toolCalls : List.Forall₂ (SameCall json) f.toolCalls a.toolCalls
  finishReason : f.finishReason = a.finishReason
  model : f.model = some a.model
  usage : f.usage = some a.usage

/-- A block of an answer as it is streamed. -/
inductive StreamedBlock (J : Type) where
  | text (deltas : List String)
  | toolUse (id name : String) (input : J) (partials : List String)
  | other

namespace StreamedBlock

def block : StreamedBlock J → ContentBlock J
  | .text deltas => .text (joinTexts deltas)
  | .toolUse id name input _ => .toolUse id name (some input)
  | .other => .other

/-- The input comes in parts; an empty input may come as no text. -/
def Valid (json : Json J) : StreamedBlock J → Prop
  | .toolUse _ name input partials =>
    name ≠ "" ∧ (json.parse (joinTexts partials) = some input ∨
      input = json.empty ∧ joinTexts partials = "")
  | _ => True

/-- A tool's input is not streamed as no text. -/
def Spoken : StreamedBlock J → Prop
  | .toolUse _ _ _ partials => joinTexts partials ≠ ""
  | _ => True

def text? : StreamedBlock J → Option String
  | .text deltas => some (joinTexts deltas)
  | _ => none

/-- The call a client folds. -/
def call? : StreamedBlock J → Option ChatToolCall
  | .toolUse id name _ partials => some ⟨id, name, joinTexts partials⟩
  | _ => none

end StreamedBlock

/-- There is some text, or no block of text. -/
def Worded (texts : List String) : Prop := texts = [] ∨ joinTexts texts ≠ ""

/-! ## Folding texts and calls -/

theorem joinTexts_append (ts us : List String) :
    joinTexts (ts ++ us) = joinTexts ts ++ joinTexts us := by
  induction ts with
  | nil => simp [joinTexts]
  | cons t ts ih => simp [joinTexts, ih, String.append_assoc]

@[simp] theorem addText_nil (c : Option String) : addText c "" = c := if_pos rfl

theorem addText_addText (c : Option String) (t u : String) :
    addText (addText c t) u = addText c (t ++ u) := by
  by_cases ht : t = ""
  case pos => simp [addText, ht]
  case neg =>
    by_cases hu : u = ""
    case pos => simp [addText, ht, hu]
    case neg => simp [addText, ht, hu, String.append_assoc]

/-- The folded content is the answer's. -/
theorem addText_eq_contentOf (texts : List String) :
    addText none (joinTexts texts) = contentOf texts ↔ Worded texts := by
  by_cases hnil : texts = []
  case pos => simp [hnil, joinTexts, addText, contentOf, Worded]
  case neg => by_cases hjoin : joinTexts texts =
    "" <;> simp [addText, contentOf, Worded, hnil, hjoin]

theorem addCall_new {calls : List ChatToolCall} {id name arguments : String} {k : Nat}
    (hk : calls.length = k) :
    addCall calls ⟨k, some id, some name, arguments⟩ = calls ++ [⟨id, name, arguments⟩] := by
  subst hk
  simp [addCall]

theorem addCall_last {calls : List ChatToolCall} {c : ChatToolCall} {text : String} {k : Nat}
    (hk : calls.length = k) :
    addCall (calls ++ [c]) ⟨k, none, none, text⟩ =
    calls ++ [⟨c.id, c.name, c.arguments ++ text⟩] := by
  subst hk
  simp [addCall]

/-! ## Translators of blocks -/

/-- A translator that keeps the tools of its blocks, and names a model in its chunks. -/
structure BlockLaw (T : Translator σ ε) (tools : σ → Tools) (withTools : σ → Tools → σ)
    (named : σ → String) (start : Nat → String → String → ε) (text input : Nat → String → ε) :
    Prop where
  tools_with : ∀ s t, tools (withTools s t) = t
  with_tools : ∀ s, withTools s (tools s) = s
  with_with : ∀ s t u, withTools (withTools s t) u = withTools s u
  named_with : ∀ s t, named (withTools s t) = named s
  feed_start : ∀ s i id name, T.feed s (start i id name) =
    (withTools s ((tools s).start i),
      [toolChunk (named s) ⟨(tools s).nextTool, some id, some name, ""⟩])
  feed_text : ∀ s i t, T.feed s (text i t) = (s, [contentChunk (named s) t])
  feed_input : ∀ s i t, T.feed s (input i t) =
    (s, [toolChunk (named s) ⟨(tools s).call i, none, none, t⟩])

/-- The events of the `i`-th block. -/
def blockEvents (start : Nat → String → String → ε) (text input : Nat → String → ε) (i : Nat) :
    StreamedBlock J → List ε
  | .text deltas => deltas.map (text i)
  | .toolUse id name _ partials => start i id name :: partials.map (input i)
  | .other => []

/-- The events of the blocks from the `i`-th on. -/
def blocksEvents (start : Nat → String → String → ε) (text input : Nat → String → ε) :
    Nat → List (StreamedBlock J) → List ε
  | _, [] => []
  | i, b :: bs => blockEvents start text input i b ++ blocksEvents start text input (i + 1) bs

/-- What a block adds for the client. -/
def Folded.addBlock (f : Folded) (b : StreamedBlock J) : Folded where
  model := f.model
  content := addText f.content (b.text?.getD "")
  toolCalls := f.toolCalls ++ b.call?.toList
  finishReason := f.finishReason
  usage := f.usage

namespace BlockLaw

variable {T : Translator σ ε} {tools : σ → Tools} {withTools : σ → Tools → σ} {named : σ → String}
  {start : Nat → String → String → ε} {text input : Nat → String → ε} {s : σ} {f : Folded} {i : Nat}

theorem run_texts (law : BlockLaw T tools withTools named start text input)
    (hmodel : f.model = some (named s)) (deltas : List String) :
    T.run (s, f) (deltas.map (text i)) =
      (s, { f with content := addText f.content (joinTexts deltas) }) := by
  induction deltas generalizing f with
  | nil => simp [Translator.run, joinTexts, addText]
  | cons t deltas ih =>
    have hstep : T.step (s, f) (text i t) = (s, { f with content := addText f.content t }) := by
      obtain ⟨model, content, toolCalls, finishReason, usage⟩ := f
      subst hmodel
      simp [Translator.step, law.feed_text, contentChunk, Folded.add]
    have hrest := ih (f := { f with content := addText f.content t }) hmodel
    rw [Translator.run] at hrest ⊢
    rw [map_cons, foldl_cons, hstep, hrest]
    simp only [addText_addText]
    rfl

theorem run_inputs (law : BlockLaw T tools withTools named start text input)
    (hmodel : f.model = some (named s)) {calls : List ChatToolCall} {c : ChatToolCall}
    (hcalls : f.toolCalls = calls ++ [c]) (hcall : (tools s).call i = calls.length)
    (partials : List String) : T.run (s, f) (partials.map (input i)) =
      (s, { f with toolCalls := calls ++
        [⟨c.id, c.name, c.arguments ++ joinTexts partials⟩] }) := by
  induction partials generalizing f c with
  | nil =>
    obtain ⟨model, content, toolCalls, finishReason, usage⟩ := f
    simp only at hcalls
    simp [Translator.run, joinTexts, hcalls]
  | cons t partials ih =>
    have hstep : T.step (s, f) (input i t) =
        (s, { f with toolCalls := calls ++ [⟨c.id, c.name, c.arguments ++ t⟩] }) := by
      obtain ⟨model, content, toolCalls, finishReason, usage⟩ := f
      subst hmodel hcalls
      simp [Translator.step, law.feed_input, hcall, toolChunk, Folded.add,
        addCall_last rfl, addText]
    have hrest := ih (f := { f with toolCalls := calls ++ [⟨c.id, c.name, c.arguments ++ t⟩] })
      hmodel rfl
    rw [Translator.run] at hrest ⊢
    rw [map_cons, foldl_cons, hstep, hrest]
    simp only [String.append_assoc]
    rfl

/-- One block. -/
theorem run_block (law : BlockLaw T tools withTools named start text input)
    (hmodel : f.model = some (named s)) (hnext : f.toolCalls.length = (tools s).nextTool)
    (b : StreamedBlock J) :
    ∃ t, T.run (s, f) (blockEvents start text input i b) = (withTools s t, f.addBlock b) ∧
      (f.addBlock b).toolCalls.length = t.nextTool := by
  obtain ⟨model, content, toolCalls, finishReason, usage⟩ := f
  subst hmodel
  cases b with
  | text deltas =>
    refine ⟨tools s, ?_, by simpa [Folded.addBlock, StreamedBlock.call?] using hnext⟩
    have hrun := law.run_texts (i := i)
      (f := ⟨some (named s), content, toolCalls, finishReason, usage⟩) rfl deltas
    simpa [blockEvents, law.with_tools, Folded.addBlock, StreamedBlock.text?, StreamedBlock.call?]
      using hrun
  | toolUse id name value partials =>
    refine ⟨(tools s).start i, ?_,
      by simp [Folded.addBlock, StreamedBlock.call?, Tools.start, hnext]⟩
    have hstep : T.step (s, ⟨some (named s), content, toolCalls, finishReason, usage⟩)
        (start i id name) = (withTools s ((tools s).start i),
          ⟨some (named s), content, toolCalls ++ [⟨id, name, ""⟩], finishReason, usage⟩) := by
      simp [Translator.step, law.feed_start, toolChunk, Folded.add, addCall_new hnext, addText]
    have hcall : (tools (withTools s ((tools s).start i))).call i = toolCalls.length := by
      simp [law.tools_with, Tools.start, Tools.call, hnext]
    have hrun := law.run_inputs (i := i) (s := withTools s ((tools s).start i))
      (f := ⟨some (named s), content, toolCalls ++ [⟨id, name, ""⟩], finishReason, usage⟩)
      (by rw [law.named_with]) rfl hcall partials
    rw [blockEvents, Translator.run, foldl_cons, hstep]
    rw [Translator.run] at hrun
    rw [hrun]
    simp [Folded.addBlock, StreamedBlock.text?, StreamedBlock.call?, addText]
  | other =>
    refine ⟨tools s, ?_, by simpa [Folded.addBlock, StreamedBlock.call?] using hnext⟩
    simp [blockEvents, Translator.run, law.with_tools, Folded.addBlock, StreamedBlock.text?,
      StreamedBlock.call?, addText]

/-- All blocks, one after the other. -/
theorem run_blocks (law : BlockLaw T tools withTools named start text input)
    (hmodel : f.model = some (named s)) (hnext : f.toolCalls.length = (tools s).nextTool)
    (bs : List (StreamedBlock J)) : ∃ t, T.run (s, f) (blocksEvents start text input i bs) =
      (withTools s t, bs.foldl Folded.addBlock f) := by
  induction bs generalizing s f i with
  | nil => exact ⟨tools s, by simp [blocksEvents, Translator.run, law.with_tools]⟩
  | cons b bs ih =>
    obtain ⟨t, hrun, hlen⟩ := law.run_block (i := i) hmodel hnext b
    have hmodel' : (f.addBlock b).model = some (named (withTools s t)) := by
      rw [law.named_with]
      exact hmodel
    obtain ⟨u, hrest⟩ := ih (i := i + 1) hmodel' (by rw [law.tools_with]; exact hlen)
    refine ⟨u, ?_⟩
    rw [blocksEvents, Translator.run, foldl_append]
    rw [Translator.run] at hrun hrest
    rw [hrun, hrest, law.with_with, foldl_cons]

end BlockLaw

/-- What all blocks add. -/
theorem foldl_addBlock (bs : List (StreamedBlock J)) (f : Folded) : bs.foldl Folded.addBlock f =
      { f with
        content := addText f.content (joinTexts (bs.filterMap StreamedBlock.text?))
        toolCalls := f.toolCalls ++ bs.filterMap StreamedBlock.call? } := by
  induction bs generalizing f with
  | nil => simp [joinTexts, addText]
  | cons b bs ih =>
    rw [foldl_cons, ih]
    cases b <;>
      simp [Folded.addBlock, filterMap_cons, StreamedBlock.text?, StreamedBlock.call?,
        joinTexts, addText_addText]

/-! ## The calls of the blocks -/

variable {json : Json J} {bs : List (StreamedBlock J)}

theorem texts_block (bs : List (StreamedBlock J)) :
    (bs.map StreamedBlock.block).filterMap ContentBlock.text? =
    bs.filterMap StreamedBlock.text? := by
  rw [filterMap_map]
  refine filterMap_congr fun b _ => ?_
  cases b <;> rfl

/-- A call is the same exactly where its input was not streamed as no text. -/
theorem sameCall_iff {id name : String} {input : J} {partials : List String}
    (h : (StreamedBlock.toolUse id name input partials).Valid json) :
    SameCall json ⟨id, name, joinTexts partials⟩ ⟨id, name, json.stringify input⟩ ↔
      joinTexts partials ≠ "" := by
  constructor
  · rintro ⟨-, -, v, hv, -⟩ hempty
    rw [hempty, json.parse_nil] at hv
    cases hv
  · intro hne
    exact ⟨rfl, rfl, input, h.2.resolve_right fun h => hne h.2, json.parse_stringify input⟩

theorem sameCalls_iff (h : ∀ b ∈ bs, b.Valid json) :
    List.Forall₂ (SameCall json) (bs.filterMap StreamedBlock.call?)
      ((bs.map StreamedBlock.block).filterMap (ContentBlock.call? json)) ↔ ∀ b ∈ bs, b.Spoken := by
  induction bs with
  | nil => simp
  | cons b bs ih =>
    have hrest := ih fun c hc => h c (mem_cons_of_mem _ hc)
    have hb := h b mem_cons_self
    cases b with
    | toolUse id name input partials =>
      rw [forall_mem_cons]
      exact forall₂_cons.trans (and_congr (sameCall_iff hb) hrest)
    | text | other =>
      rw [forall_mem_cons]
      exact hrest.trans ⟨fun h => ⟨trivial, h⟩, And.right⟩

/-- Bedrock leaves out calls without a name, of which there are none. -/
theorem bedrockCall_block (h : ∀ b ∈ bs, b.Valid json) :
    (bs.map StreamedBlock.block).filterMap (bedrockCall? json) =
      (bs.map StreamedBlock.block).filterMap (ContentBlock.call? json) := by
  rw [filterMap_map, filterMap_map]
  refine filterMap_congr fun b hb => ?_
  have hvalid := h b hb
  cases b with
  | toolUse id name input partials =>
    simp [StreamedBlock.block, bedrockCall?, ContentBlock.call?, hvalid.1]
  | text | other => rfl

end

end Swarmy.Ai
