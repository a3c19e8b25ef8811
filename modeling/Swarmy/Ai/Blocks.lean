import Swarmy.Ai.Agree

/-!
# The stream that the gateway writes

`OpenAIToAnthropicStream`: chunks of an OpenAI stream as the events of an Anthropic stream.  One
content block is open at a time, and a delta of an earlier tool call is sent to its block all the
same, which has been stopped.  The text and the calls are right always; the events are well formed
exactly when no such delta comes (`written_iff`).
-/

namespace Swarmy.Ai

open List Option Nat

/-! ## Events -/

/-- A content block, as it is begun and as it is folded. -/
inductive WrittenBlock where
  | text (text : String)
  | toolUse (call : ChatToolCall)

inductive BlockKind where
  | text
  | tool
deriving DecidableEq

namespace WrittenBlock

def kind : WrittenBlock → BlockKind
  | .text _ => .text
  | .toolUse _ => .tool

def text? : WrittenBlock → Option String
  | .text t => some t
  | .toolUse _ => none

def call? : WrittenBlock → Option ChatToolCall
  | .text _ => none
  | .toolUse c => some c

/-- A `text_delta` or an `input_json_delta` is appended. -/
def append (delta : String) : WrittenBlock → WrittenBlock
  | .text t => .text (t ++ delta)
  | .toolUse c => .toolUse ⟨c.id, c.name, c.arguments ++ delta⟩

end WrittenBlock

inductive AnthropicSse where
  | messageStart (id model : String)
  | blockStart (index : Nat) (block : WrittenBlock)
  | blockDelta (index : Nat) (kind : BlockKind) (delta : String)
  | blockStop (index : Nat)
  | messageDelta (stopReason : String) (inTokens outTokens : Nat)
  | messageStop

/-- Where a stream is: how many blocks there were, or in which of them it is. -/
inductive Stage where
  | before
  | between (blocks : Nat)
  | inside (index : Nat) (kind : BlockKind)
  | ended
  | stopped
deriving DecidableEq

/-- The events that Anthropic's format allows: blocks one after another, and deltas of the open
one. -/
def Stage.next : Stage → AnthropicSse → Option Stage
  | .before, .messageStart _ _ => some (.between 0)
  | .between n, .blockStart i b => if i = n then some (.inside i b.kind) else none
  | .inside n k, .blockDelta i kind _ => if i = n ∧ kind = k then some (.inside n k) else none
  | .inside n _, .blockStop i => if i = n then some (.between (n + 1)) else none
  | .between _, .messageDelta _ _ _ => some .ended
  | .ended, .messageStop => some .stopped
  | _, _ => none

def WellFormed (events : List AnthropicSse) : Prop :=
  events.foldlM Stage.next .before = some .stopped
deriving Decidable

/-- Anthropic's rules: a block is added, and a delta is appended to the block of its index. -/
def foldEvent (blocks : List WrittenBlock) : AnthropicSse → List WrittenBlock
  | .blockStart _ b => blocks ++ [b]
  | .blockDelta i _ delta => blocks.modify i (·.append delta)
  | _ => blocks

def foldBlocks (events : List AnthropicSse) : List WrittenBlock := events.foldl foldEvent []

/-! ## The translator -/

def toAnthropicStop : Option FinishReason → String
  | some .length => "max_tokens"
  | some .toolCalls => "tool_use"
  | some .contentFilter => "refusal"
  | _ => "end_turn"

structure OpenAIToAnthropicStream where
  started : Bool
  block : Option (Nat × BlockKind)
  nextIndex : Nat
  toolBlocks : List (Nat × Nat)
  finish : Option FinishReason
  inTokens : Nat
  outTokens : Nat
  id : String
  model : String

namespace OpenAIToAnthropicStream

def new (id model : String) : OpenAIToAnthropicStream := ⟨false, none, 0, [], none, 0, 0, id, model⟩

variable (genId : Nat → String) (s : OpenAIToAnthropicStream)

def start : OpenAIToAnthropicStream × List AnthropicSse :=
  if s.started then (s, []) else ({ s with started := true }, [.messageStart s.id s.model])

def closeBlock : OpenAIToAnthropicStream × List AnthropicSse :=
  match s.block with
  | none => (s, [])
  | some (i, _) => ({ s with block := none }, [.blockStop i])

/-- A block is begun, and is the open one. -/
def openBlock (b : WrittenBlock) : OpenAIToAnthropicStream × List AnthropicSse :=
  ({ s.closeBlock.1 with block := some (s.nextIndex, b.kind), nextIndex := s.nextIndex + 1 },
    s.closeBlock.2 ++ [.blockStart s.nextIndex b])

@[simp] theorem closeBlock_started : s.closeBlock.1.started = s.started := by
  unfold closeBlock; split <;> rfl

@[simp] theorem closeBlock_toolBlocks : s.closeBlock.1.toolBlocks = s.toolBlocks := by
  unfold closeBlock; split <;> rfl

/-- The branch of `d.content`. -/
def feedText (text : String) : OpenAIToAnthropicStream × List AnthropicSse :=
  if text = "" then (s, [])
  else
    match s.block with
    | some (i, .text) => (s, [.blockDelta i .text text])
    | _ => ((s.openBlock (.text "")).1, (s.openBlock (.text "")).2 ++
      [.blockDelta s.nextIndex .text text])

/-- The block of a call that is begun is kept for its deltas. -/
def openTool (index : Nat) (call : ChatToolCall) : OpenAIToAnthropicStream :=
  { (s.openBlock (.toolUse call)).1 with toolBlocks := (index, s.nextIndex) :: s.toolBlocks }

/-- One turn of the loop over `d.tool_calls`. -/
def feedTool (tc : ChunkToolCallDelta) : OpenAIToAnthropicStream × List AnthropicSse :=
  let delta idx := if tc.arguments = "" then [] else [.blockDelta idx .tool tc.arguments]
  match s.toolBlocks.lookup tc.index with
  | some idx => (s, delta idx)
  | none =>
    let call : ChatToolCall := ⟨tc.id.getD (genId s.nextIndex), tc.name.getD "", ""⟩
    (s.openTool tc.index call, (s.openBlock (.toolUse call)).2 ++ delta s.nextIndex)

/-- The loop. -/
def feedTools : OpenAIToAnthropicStream → List ChunkToolCallDelta →
    OpenAIToAnthropicStream × List AnthropicSse
  | s, [] => (s, [])
  | s, tc :: tcs =>
    let (s, out) := s.feedTool genId tc
    let (s, more) := feedTools s tcs
    (s, out ++ more)

def feed (c : ChatChunk) : OpenAIToAnthropicStream × List AnthropicSse :=
  let (s, out) := s.start
  let s := match c.usage with
    | some u => { s with inTokens := u.promptTokens, outTokens := u.completionTokens }
    | none => s
  let (s, text) := s.feedText (c.content.getD "")
  let (s, tools) := s.feedTools genId c.toolCalls
  ({ s with finish := c.finishReason.or s.finish }, out ++ text ++ tools)

/-- `end()`. -/
def finishStream : List AnthropicSse :=
  let (s, out) := s.start
  let (s, close) := s.closeBlock
  out ++ close ++ [.messageDelta (toAnthropicStop s.finish) s.inTokens s.outTokens, .messageStop]

/-- All events for some chunks. -/
def write : OpenAIToAnthropicStream → List ChatChunk → List AnthropicSse
  | s, [] => s.finishStream
  | s, c :: cs => (s.feed genId c).2 ++ write (s.feed genId c).1 cs

end OpenAIToAnthropicStream

/-! ## The condition -/

/-- What a chunk has for the blocks. -/
inductive Item where
  | text (text : String)
  | tool (delta : ChunkToolCallDelta)

def items (c : ChatChunk) : List Item := .text (c.content.getD "") :: c.toolCalls.map .tool

/-- OpenAI's format, after so many calls: the first delta of a call, which has the next index, names
it, and the later ones do not. -/
def Allowed : Nat → List Item → Prop
  | _, [] => True
  | n, .text _ :: r => Allowed n r
  | n, .tool d :: r =>
    if d.index < n then d.id = none ∧ d.name = none ∧ Allowed n r
    else d.index = n ∧ d.id.isSome ∧ d.name.isSome ∧ Allowed (n + 1) r

/-- After so many calls, the last of them `last` if no text has come since: every delta with
arguments is of that call, or begins one. -/
def InPlace : Option Nat → Nat → List Item → Prop
  | _, _, [] => True
  | last, n, .text t :: r => InPlace (if t = "" then last else none) n r
  | last, n, .tool d :: r =>
    if d.index < n then (d.arguments = "" ∨ last = some d.index) ∧ InPlace last n r
    else InPlace (some d.index) (n + 1) r

/-! ## Blocks and their calls -/

@[simp] theorem kind_append (b : WrittenBlock) (t : String) : (b.append t).kind = b.kind := by
  cases b <;> rfl

def kinds (blocks : List WrittenBlock) : List BlockKind := blocks.map WrittenBlock.kind

theorem kinds_modify (blocks : List WrittenBlock) (i : Nat) (t : String) :
    kinds (blocks.modify i (·.append t)) = kinds blocks := by
  induction blocks generalizing i with
  | nil => rw [modify_nil]
  | cons b blocks ih =>
    cases i with
    | zero => exact congrArg (· :: _) (kind_append b t)
    | succ i => exact congrArg (_ :: ·) (ih i)

/-- The block at a place is that of the call of an index. -/
def CallAt (kinds : List BlockKind) (k i : Nat) : Prop :=
  kinds[i]? = some .tool ∧ (kinds.take i).count .tool = k

theorem CallAt.append {ks : List BlockKind} {k i : Nat} (h : CallAt ks k i)
    (more : List BlockKind) :
    CallAt (ks ++ more) k i := by
  have hlt := (List.getElem?_eq_some_iff.mp h.1).1
  exact ⟨(List.getElem?_append_left hlt).trans h.1, (take_append_of_le_length hlt.le).symm ▸ h.2⟩

theorem count_kinds (blocks : List WrittenBlock) :
    (kinds blocks).count .tool = (blocks.filterMap WrittenBlock.call?).length := by
  induction blocks with
  | nil => rfl
  | cons b blocks ih =>
    cases b with
    | text t => exact (count_cons_of_ne BlockKind.noConfusion).trans ih
    | toolUse c => exact count_cons_self.trans (congrArg (· + 1) ih)

theorem CallAt.split {blocks : List WrittenBlock} {k i : Nat} (h : CallAt (kinds blocks) k i) :
    ∃ before c after, blocks = before ++ .toolUse c :: after ∧ before.length = i ∧
      (before.filterMap WrittenBlock.call?).length = k := by
  obtain ⟨htool, hcount⟩ := h
  rw [kinds, List.getElem?_map] at htool
  obtain ⟨b, hb, hkind⟩ := map_eq_some_iff.mp htool
  obtain ⟨hlt, hget⟩ := List.getElem?_eq_some_iff.mp hb
  rw [kinds, ← map_take] at hcount
  cases b with
  | text t => cases hkind
  | toolUse c =>
    refine ⟨blocks.take i, c, blocks.drop (i + 1), ?_, length_take_of_le hlt.le, ?_⟩
    · rw [← hget, getElem_cons_drop, take_append_drop]
    · exact (count_kinds _).symm.trans hcount

theorem modify_middle {α : Type} (f : α → α) (before : List α) (a : α) (after : List α) :
    (before ++ a :: after).modify before.length f = before ++ f a :: after := by
  induction before with
  | nil => rfl
  | cons b before ih => rw [cons_append, length_cons, modify_succ_cons, ih, cons_append]

/-- The blocks of a translator, with their text and their calls. -/
structure Writes (s : OpenAIToAnthropicStream) (blocks : List WrittenBlock) (text : String)
    (calls : List ChatToolCall) (last : Option Nat) : Prop where
  started : s.started = true
  length : s.nextIndex = blocks.length
  text_eq : joinTexts (blocks.filterMap WrittenBlock.text?) = text
  calls_eq : blocks.filterMap WrittenBlock.call? = calls
  tools : ∀ k i, s.toolBlocks.lookup k = some i → CallAt (kinds blocks) k i
  known : ∀ k, s.toolBlocks.lookup k ≠ none ↔ k < calls.length
  block : ∀ i kind, s.block = some (i, kind) → ∃ ks, kinds blocks = ks ++ [kind] ∧ ks.length = i
  last : ∀ k, last = some k ↔ ∃ i, s.block = some (i, .tool) ∧ s.toolBlocks.lookup k = some i

/-- Where the stream is that a translator has begun. -/
def OpenAIToAnthropicStream.stage (s : OpenAIToAnthropicStream) : Stage :=
  match s.block with
  | none => .between s.nextIndex
  | some (i, kind) => .inside i kind

variable {genId : Nat → String} {s : OpenAIToAnthropicStream} {blocks : List WrittenBlock}
    {text : String}
  {calls : List ChatToolCall} {last : Option Nat}

/-- A block is begun after the one that was open. -/
theorem Writes.openBlock (h : Writes s blocks text calls last) (b : WrittenBlock) :
    (s.openBlock b).2.foldlM Stage.next s.stage = some (.inside s.nextIndex b.kind) ∧
      (s.openBlock b).2.foldl foldEvent blocks = blocks ++ [b] := by
  unfold OpenAIToAnthropicStream.openBlock OpenAIToAnthropicStream.closeBlock
    OpenAIToAnthropicStream.stage
  cases hblock : s.block with
  | none => simp [Stage.next, foldEvent]
  | some p =>
    obtain ⟨i, kind⟩ := p
    obtain ⟨ks, hks, rfl⟩ := h.block i kind hblock
    have hnext : s.nextIndex = ks.length + 1 := by
      rw [h.length, ← length_map, ← kinds, hks, length_append, length_singleton]
    simp [Stage.next, foldEvent, hnext]

/-- A delta to a block. -/
theorem Writes.delta (h : Writes s blocks text calls last) (i : Nat) (t : String) {text' : String}
    {calls' : List ChatToolCall}
    (htext : joinTexts ((blocks.modify i (·.append t)).filterMap WrittenBlock.text?) = text')
    (hcalls : (blocks.modify i (·.append t)).filterMap WrittenBlock.call? = calls')
    (hlen : calls'.length = calls.length) :
    Writes s (blocks.modify i (·.append t)) text' calls' last where
  __ := h
  length := h.length.trans (length_modify ..).symm
  text_eq := htext
  calls_eq := hcalls
  tools k j hk := (kinds_modify blocks i t).symm ▸ h.tools k j hk
  known := hlen ▸ h.known
  block j kind hj := (kinds_modify blocks i t).symm ▸ h.block j kind hj

/-- Text for the block of text that is open. -/
theorem Writes.text_open (h : Writes s blocks text calls last) {i : Nat}
    (hi : s.block = some (i, .text)) (t : String) :
    Writes s (blocks.modify i (·.append t)) (text ++ t) calls none := by
  have hlast : last = none := by
    cases hl : last with
    | none => rfl
    | some k =>
      obtain ⟨j, hj, -⟩ := (h.last k).mp hl
      rw [hi] at hj
      cases hj
  obtain ⟨ks, hks, rfl⟩ := h.block i .text hi
  obtain ⟨before, last', rfl, rfl, hb⟩ := map_eq_append_iff.mp hks
  obtain ⟨b, rfl, hkind⟩ := map_eq_singleton_iff.mp hb
  obtain ⟨u, rfl⟩ : ∃ u, b = .text u := by
    cases b with
    | text u => exact ⟨u, rfl⟩
    | toolUse c => cases hkind
  have hmodify : (before ++ [WrittenBlock.text u]).modify (before.map WrittenBlock.kind).length
      (·.append t) =
      before ++ [.text (u ++ t)] := by
    rw [length_map]
    exact modify_middle _ before _ []
  subst hlast
  refine h.delta _ t ?_ ?_ rfl
  · rw [hmodify, ← h.text_eq, filterMap_append, filterMap_append, joinTexts_append,
      joinTexts_append,
      String.append_assoc]
    simp [joinTexts, WrittenBlock.text?]
  · rw [hmodify, ← h.calls_eq, filterMap_append, filterMap_append]
    rfl

/-- A block that is begun; if it is a call's, its index is known from now on. -/
theorem Writes.opened (h : Writes s blocks text calls last) {b : WrittenBlock}
    {tools : List (Nat × Nat)}
    {calls' : List ChatToolCall} {last' : Option Nat} (htext : b.text?.getD "" = "")
    (hcalls : (blocks ++ [b]).filterMap WrittenBlock.call? = calls')
    (htools : ∀ k i, tools.lookup k = some i → CallAt (kinds (blocks ++ [b])) k i)
    (hknown : ∀ k, tools.lookup k ≠ none ↔ k < calls'.length)
    (hlast : ∀ k, last' = some k ↔ ∃ i, some (s.nextIndex, b.kind) = some (i, .tool) ∧
      tools.lookup k = some i) :
    Writes { (s.openBlock b).1 with toolBlocks := tools } (blocks ++ [b]) text calls' last' where
  started := (s.closeBlock_started).trans h.started
  length := by
    rw [length_append, ← h.length]
    rfl
  text_eq := by
    rw [filterMap_append, joinTexts_append, h.text_eq]
    cases b with
    | text t =>
      obtain rfl : t = "" := htext
      exact String.append_empty
    | toolUse c => exact String.append_empty
  calls_eq := hcalls
  tools := htools
  known := hknown
  block i kind hi := by
    obtain ⟨rfl, rfl⟩ := Prod.mk.inj (some.inj hi)
    exact ⟨kinds blocks, map_append, (length_map _).trans h.length.symm⟩
  last := hlast

theorem Writes.openText (h : Writes s blocks text calls last) :
    Writes (s.openBlock (.text "")).1 (blocks ++ [.text ""]) text calls none := by
  have htools : (s.openBlock (.text "")).1.toolBlocks = s.toolBlocks := s.closeBlock_toolBlocks
  show Writes { (s.openBlock (.text "")).1 with toolBlocks := (s.openBlock
      (.text "")).1.toolBlocks } _ _ _ _
  refine h.opened rfl ?_ ?_ ?_ ?_
  · rw [filterMap_append, h.calls_eq]
    exact append_nil calls
  · rw [htools, kinds, map_append]
    exact fun k i hk => (h.tools k i hk).append _
  · exact htools.symm ▸ h.known
  · exact fun k => iff_of_false nofun fun ⟨i, hi, _⟩ => nomatch hi

/-- Text is written always. -/
theorem Writes.feedText (h : Writes s blocks text calls last) (t : String) :
    Writes (s.feedText t).1 ((s.feedText t).2.foldl foldEvent blocks) (text ++ t) calls
      (if t = "" then last else none) ∧
      (s.feedText t).2.foldlM Stage.next s.stage = some (s.feedText t).1.stage := by
  unfold OpenAIToAnthropicStream.feedText
  by_cases ht : t = ""
  · rw [if_pos ht, if_pos ht, ht, String.append_empty]
    exact ⟨h, rfl⟩
  · rw [if_neg ht, if_neg ht]
    split
    · rename_i i hi
      refine ⟨h.text_open hi t, ?_⟩
      simp [OpenAIToAnthropicStream.stage, hi, Stage.next]
    · obtain ⟨hnext, hfold⟩ := h.openBlock (.text "")
      refine ⟨?_, ?_⟩
      · rw [foldl_append, hfold]
        exact h.openText.text_open rfl t
      · rw [foldlM_append, hnext]
        simp [OpenAIToAnthropicStream.stage, OpenAIToAnthropicStream.openBlock, Stage.next,
          WrittenBlock.kind]

variable (genId) in
/-- A call goes on; its block may have been stopped. -/
theorem Writes.feedTool_old (h : Writes s blocks text calls last) {d : ChunkToolCallDelta}
    (hold : d.index < calls.length) (hid : d.id = none) (hname : d.name = none) :
    Writes (s.feedTool genId d).1 ((s.feedTool genId d).2.foldl foldEvent blocks) text
      (addCall calls d) last ∧
      (s.feedTool genId d).2.foldlM Stage.next s.stage =
        if d.arguments = "" ∨ last = some d.index then some (s.feedTool genId d).1.stage
        else none := by
  obtain ⟨i, hi⟩ := ne_none_iff_exists'.mp ((h.known d.index).mpr hold)
  obtain ⟨before, c, after, rfl, rfl, hcount⟩ := (h.tools d.index i hi).split
  have hsplit : calls = before.filterMap WrittenBlock.call? ++
      c :: after.filterMap WrittenBlock.call? := by
    rw [← h.calls_eq, filterMap_append]
    rfl
  have hcalls : addCall calls d = before.filterMap WrittenBlock.call? ++
      ⟨c.id, c.name, c.arguments ++ d.arguments⟩ :: after.filterMap WrittenBlock.call? := by
    rw [addCall, hsplit, ← hcount, List.getElem?_append_right (Nat.le_refl _), Nat.sub_self,
      List.getElem?_cons_zero]
    dsimp only
    rw [hid, hname, set_append_right _ _ (Nat.le_refl _), Nat.sub_self]
    rfl
  have hopen : s.block = some (before.length, .tool) ↔ last = some d.index := by
    rw [h.last]
    constructor
    · exact fun hb => ⟨_, hb, hi⟩
    · rintro ⟨j, hb, hj⟩
      rw [hi] at hj
      rw [hb, some.inj hj]
  unfold OpenAIToAnthropicStream.feedTool
  rw [hi]
  dsimp only
  by_cases hargs : d.arguments = ""
  · rw [if_pos hargs, if_pos (.inl hargs)]
    refine ⟨?_, rfl⟩
    rw [hcalls, hargs, String.append_empty, ← hsplit]
    exact h
  · rw [if_neg hargs]
    refine ⟨?_, ?_⟩
    · refine h.delta _ d.arguments ?_ ?_ ?_
      · rw [modify_middle, ← h.text_eq, filterMap_append, filterMap_append]
        rfl
      · rw [modify_middle, hcalls, filterMap_append]
        rfl
      · rw [hcalls, hsplit, length_append, length_append, length_cons, length_cons]
    · have hnext : [AnthropicSse.blockDelta before.length .tool d.arguments].foldlM
          Stage.next s.stage =
          if s.block = some (before.length, .tool) then some s.stage else none := by
        unfold OpenAIToAnthropicStream.stage
        cases s.block with
        | none => rfl
        | some p =>
          obtain ⟨j, kind⟩ := p
          simp only [foldlM_cons, foldlM_nil, Stage.next, Option.some.injEq, Prod.mk.injEq, eq_comm]
          split <;> rfl
      rw [hnext]
      simp only [hopen, hargs, false_or]

/-- A block of a call is begun. -/
theorem Writes.openTool (h : Writes s blocks text calls last) (c : ChatToolCall) :
    Writes (s.openTool calls.length c) (blocks ++ [.toolUse c]) text (calls ++ [c])
      (some calls.length) := by
  have hkinds : kinds (blocks ++ [.toolUse c]) = kinds blocks ++ [.tool] := map_append
  have hlen : (kinds blocks).length = s.nextIndex := (length_map _).trans h.length.symm
  have hlookup : ∀ k, k ≠ calls.length →
      ((calls.length, s.nextIndex) :: s.toolBlocks).lookup k = s.toolBlocks.lookup k := by
    intro k hk
    rw [lookup_cons, beq_false_of_ne hk]
  have hself : ((calls.length, s.nextIndex) :: s.toolBlocks).lookup calls.length =
      some s.nextIndex :=
    lookup_cons_self
  refine h.opened rfl ?_ ?_ ?_ ?_
  · rw [filterMap_append, h.calls_eq]
    rfl
  · intro k i hk
    rw [hkinds]
    by_cases hnew : k = calls.length
    · subst hnew
      rw [hself] at hk
      obtain rfl := some.inj hk
      refine ⟨?_, ?_⟩
      · rw [← hlen, List.getElem?_append_right (Nat.le_refl _), Nat.sub_self]
        rfl
      · rw [← hlen, take_left, count_kinds, h.calls_eq]
    · rw [hlookup k hnew] at hk
      exact (h.tools k i hk).append _
  · intro k
    rw [length_append, length_singleton]
    by_cases hnew : k = calls.length
    · rw [hnew, hself]
      exact iff_of_true (some_ne_none _) (lt_succ_self _)
    · rw [hlookup k hnew, h.known]
      omega
  · intro k
    by_cases hnew : k = calls.length
    · subst hnew
      exact iff_of_true rfl ⟨_, rfl, hself⟩
    · refine iff_of_false (fun heq => hnew (some.inj heq).symm) ?_
      rintro ⟨i, hi, hk⟩
      obtain ⟨rfl, -⟩ := Prod.mk.inj (some.inj hi)
      rw [hlookup k hnew] at hk
      have hlt := (List.getElem?_eq_some_iff.mp (h.tools k _ hk).1).1
      omega

variable (genId) in
theorem Writes.feedTool_new (h : Writes s blocks text calls last) {d : ChunkToolCallDelta}
    (hnew : d.index = calls.length) (hid : d.id.isSome) (hname : d.name.isSome) :
    Writes (s.feedTool genId d).1 ((s.feedTool genId d).2.foldl foldEvent blocks) text
      (addCall calls d) (some d.index) ∧
      (s.feedTool genId d).2.foldlM Stage.next s.stage = some (s.feedTool genId d).1.stage := by
  obtain ⟨id, hid⟩ := isSome_iff_exists.mp hid
  obtain ⟨name, hname⟩ := isSome_iff_exists.mp hname
  have hunknown : s.toolBlocks.lookup d.index = none := by
    by_contra hne
    exact lt_irrefl _ (hnew ▸ (h.known d.index).mp hne)
  obtain ⟨hnext, hfold⟩ := h.openBlock (.toolUse ⟨id, name, ""⟩)
  -- The delta of arguments is one of a call that goes on.
  have hrest := (h.openTool ⟨id, name, ""⟩).feedTool_old genId
      (d := ⟨d.index, none, none, d.arguments⟩)
    (by rw [hnew, length_append]; exact lt_succ_self _) rfl rfl
  rw [if_pos (.inr (congrArg some hnew.symm))] at hrest
  have hfeed : s.feedTool genId d =
      (((s.openTool calls.length ⟨id, name, ""⟩).feedTool genId ⟨d.index, none, none,
        d.arguments⟩).1,
        (s.openBlock (.toolUse ⟨id, name, ""⟩)).2 ++
          ((s.openTool calls.length ⟨id, name, ""⟩).feedTool genId ⟨d.index, none, none,
            d.arguments⟩).2) := by
    have hknown : (s.openTool calls.length ⟨id, name, ""⟩).toolBlocks.lookup d.index =
        some s.nextIndex :=
      hnew ▸ lookup_cons_self
    unfold OpenAIToAnthropicStream.feedTool
    rw [hunknown, hknown, hid, hname, hnew]
    rfl
  have hcalls : addCall calls d =
      addCall (calls ++ [⟨id, name, ""⟩]) ⟨d.index, none, none, d.arguments⟩ := by
    obtain ⟨index, i, n, arguments⟩ := d
    obtain rfl : index = calls.length := hnew
    obtain rfl : i = some id := hid
    obtain rfl : n = some name := hname
    rw [addCall_new rfl, addCall_last rfl, String.empty_append]
  rw [hfeed, hcalls, hnew]
  refine ⟨?_, ?_⟩
  · rw [foldl_append, hfold, ← hnew]
    exact hnew ▸ hrest.1
  · rw [foldlM_append, hnext]
    exact hnew ▸ hrest.2

/-! ## Whole streams -/

/-- Events that the format allows, with what is left of the condition, or events that it does
not. -/
def Goes (events : List AnthropicSse) (st st' : Stage) (before after : Prop) : Prop :=
  events.foldlM Stage.next st = some st' ∧ (before ↔ after) ∨
    events.foldlM Stage.next st = none ∧ ¬ before

theorem Goes.append {xs ys : List AnthropicSse} {a b c : Stage} {p q r : Prop}
    (h₁ : Goes xs a b p q) (h₂ : Goes ys b c q r) :
    Goes (xs ++ ys) a c p r := by
  unfold Goes
  rw [foldlM_append]
  obtain ⟨hx, hpq⟩ | ⟨hx, hp⟩ := h₁
  · rw [hx, hpq]
    exact h₂
  · rw [hx]
    exact .inr ⟨rfl, hp⟩

theorem length_addCall (calls : List ChatToolCall) (d : ChunkToolCallDelta) :
    (addCall calls d).length = if d.index < calls.length then calls.length
    else calls.length + 1 := by
  unfold addCall
  by_cases h : d.index < calls.length
  · rw [List.getElem?_eq_getElem h, if_pos h]
    exact length_set
  · rw [List.getElem?_eq_none (Nat.le_of_not_lt h), if_neg h]
    exact length_append

variable (genId) in
theorem Writes.feedTools (h : Writes s blocks text calls last) {tcs : List ChunkToolCallDelta}
    {r : List Item}
    (hallowed : Allowed calls.length (tcs.map .tool ++ r)) :
    ∃ last', Writes (s.feedTools genId tcs).1
      ((s.feedTools genId tcs).2.foldl foldEvent blocks) text
        (tcs.foldl addCall calls) last' ∧ Allowed (tcs.foldl addCall calls).length r ∧
      Goes (s.feedTools genId tcs).2 s.stage (s.feedTools genId tcs).1.stage
        (InPlace last calls.length (tcs.map .tool ++ r))
        (InPlace last' (tcs.foldl addCall calls).length r) := by
  induction tcs generalizing s blocks calls last with
  | nil => exact ⟨last, h, hallowed, .inl ⟨rfl, Iff.rfl⟩⟩
  | cons d tcs ih =>
    have hone : ∃ last', Writes (s.feedTool genId d).1
        ((s.feedTool genId d).2.foldl foldEvent blocks) text
        (addCall calls d) last' ∧ Allowed (addCall calls d).length (tcs.map .tool ++ r) ∧
          Goes (s.feedTool genId d).2 s.stage (s.feedTool genId d).1.stage
            (InPlace last calls.length (.tool d :: (tcs.map .tool ++ r)))
            (InPlace last' (addCall calls d).length (tcs.map .tool ++ r)) := by
      rw [map_cons, cons_append, Allowed] at hallowed
      rw [InPlace]
      by_cases hold : d.index < calls.length
      · have hlen := (length_addCall calls d).trans (if_pos hold)
        rw [if_pos hold] at hallowed ⊢
        obtain ⟨hid, hname, hr⟩ := hallowed
        obtain ⟨hw, hn⟩ := h.feedTool_old genId hold hid hname
        refine ⟨last, hw, hlen.symm ▸ hr, ?_⟩
        rw [Goes, hn, hlen]
        by_cases hplace : d.arguments = "" ∨ last = some d.index
        · exact .inl ⟨if_pos hplace, and_iff_right hplace⟩
        · exact .inr ⟨if_neg hplace, fun h => hplace h.1⟩
      · have hlen := (length_addCall calls d).trans (if_neg hold)
        rw [if_neg hold] at hallowed ⊢
        obtain ⟨hnew, hid, hname, hr⟩ := hallowed
        obtain ⟨hw, hn⟩ := h.feedTool_new genId hnew hid hname
        refine ⟨some d.index, hw, hlen.symm ▸ hr, .inl ⟨hn, ?_⟩⟩
        rw [hlen]
    obtain ⟨last₁, h₁, hallowed₁, hgoes₁⟩ := hone
    obtain ⟨last₂, h₂, hallowed₂, hgoes₂⟩ := ih h₁ hallowed₁
    refine ⟨last₂, ?_, hallowed₂, hgoes₁.append hgoes₂⟩
    rw [OpenAIToAnthropicStream.feedTools, foldl_append]
    exact h₂

/-- Only the blocks of a translator count. -/
theorem Writes.congr (h : Writes s blocks text calls last) {t : OpenAIToAnthropicStream}
    (hstarted : t.started = s.started)
    (hblock : t.block = s.block) (hnext : t.nextIndex = s.nextIndex)
    (htools : t.toolBlocks = s.toolBlocks) :
    Writes t blocks text calls last ∧ t.stage = s.stage := by
  refine ⟨⟨hstarted ▸ h.started, hnext ▸ h.length, h.text_eq, h.calls_eq, htools ▸ h.tools,
    htools ▸ h.known,
    hblock ▸ h.block, ?_⟩, ?_⟩
  · rw [hblock, htools]
    exact h.last
  · unfold OpenAIToAnthropicStream.stage
    rw [hblock, hnext]

variable (genId) in
/-- A chunk. -/
theorem Writes.feed (h : Writes s blocks text calls last) {c : ChatChunk} {r : List Item}
    (hallowed : Allowed calls.length (items c ++ r)) :
    ∃ last', Writes (s.feed genId c).1 ((s.feed genId c).2.foldl foldEvent blocks)
      (text ++ c.content.getD "")
        (c.toolCalls.foldl addCall calls) last' ∧ Allowed
        (c.toolCalls.foldl addCall calls).length r ∧
      Goes (s.feed genId c).2 s.stage (s.feed genId c).1.stage
        (InPlace last calls.length (items c ++ r))
        (InPlace last' (c.toolCalls.foldl addCall calls).length r) := by
  have hstart : s.start = (s, []) := if_pos h.started
  unfold OpenAIToAnthropicStream.feed
  rw [hstart]
  dsimp only
  generalize hs₁ : (match c.usage with
    | some u => { s with inTokens := u.promptTokens, outTokens := u.completionTokens }
    | none => s) = s₁
  obtain ⟨h₁, hstage⟩ : Writes s₁ blocks text calls last ∧ s₁.stage = s.stage := by
    subst hs₁
    cases c.usage <;> exact h.congr rfl rfl rfl rfl
  obtain ⟨h₂, hnext₂⟩ := h₁.feedText (c.content.getD "")
  obtain ⟨last', h₃, hallowed', hgoes⟩ := h₂.feedTools genId (r := r) hallowed
  obtain ⟨h₄, hstage'⟩ :=
    h₃.congr (t := { ((s₁.feedText (c.content.getD "")).1.feedTools genId c.toolCalls).1 with
    finish := c.finishReason.or ((s₁.feedText (c.content.getD "")).1.feedTools genId
      c.toolCalls).1.finish }) rfl rfl rfl rfl
  refine ⟨last', ?_, hallowed', ?_⟩
  · rw [nil_append, foldl_append]
    exact h₄
  · rw [nil_append, hstage', ← hstage]
    exact Goes.append (.inl ⟨hnext₂, Iff.rfl⟩) hgoes

theorem getD_addText (content : Option String) (t : String) :
    (addText content t).getD "" = content.getD "" ++ t := by
  unfold addText
  split
  · rename_i ht
    rw [ht, String.append_empty]
  · rfl

variable (genId) in
/-- The blocks at the end: what a client of OpenAI's stream has, whether the format allows the
events or not. -/
theorem Writes.write (h : Writes s blocks text calls last) {cs : List ChatChunk}
    (hallowed : Allowed calls.length (cs.flatMap items))
    {f : Folded} (hf : f.content.getD "" = text ∧ f.toolCalls = calls) :
    ((s.write genId cs).foldlM Stage.next s.stage = some .stopped ↔
      InPlace last calls.length (cs.flatMap items)) ∧
      joinTexts (((s.write genId cs).foldl foldEvent blocks).filterMap WrittenBlock.text?) =
        (cs.foldl Folded.add f).content.getD "" ∧
      ((s.write genId cs).foldl foldEvent blocks).filterMap WrittenBlock.call? =
      (cs.foldl Folded.add f).toolCalls := by
  induction cs generalizing s blocks text calls last f with
  | nil =>
    have hstart : s.start = (s, []) := if_pos h.started
    have hend : (s.finishStream).foldlM Stage.next s.stage = some .stopped ∧
        s.finishStream.foldl foldEvent blocks = blocks := by
      unfold OpenAIToAnthropicStream.finishStream OpenAIToAnthropicStream.closeBlock
        OpenAIToAnthropicStream.stage
      rw [hstart]
      dsimp only
      cases s.block with
      | none => exact ⟨rfl, rfl⟩
      | some p => simp [Stage.next, foldEvent]
    rw [OpenAIToAnthropicStream.write, hend.2]
    exact ⟨iff_of_true hend.1 trivial, h.text_eq.trans hf.1.symm, h.calls_eq.trans hf.2.symm⟩
  | cons c cs ih =>
    obtain ⟨last', h', hallowed', hgoes⟩ := h.feed genId (c := c) hallowed
    have hadd : (f.add c).content.getD "" = text ++ c.content.getD "" ∧
        (f.add c).toolCalls = c.toolCalls.foldl addCall calls :=
      ⟨(getD_addText _ _).trans (congrArg (· ++ _) hf.1), congrArg (c.toolCalls.foldl addCall) hf.2⟩
    obtain ⟨hstage, htext, hcalls⟩ := ih h' hallowed' hadd
    rw [OpenAIToAnthropicStream.write, foldl_append, foldlM_append, flatMap_cons]
    refine ⟨?_, htext, hcalls⟩
    obtain ⟨hnext, hiff⟩ | ⟨hnext, hnot⟩ := hgoes
    · rw [hnext]
      exact hstage.trans hiff.symm
    · rw [hnext]
      exact iff_of_false (fun h => nomatch h) hnot

/-- The events of a translator that is not begun. -/
theorem write_new (id model : String) (cs : List ChatChunk) :
    (OpenAIToAnthropicStream.new id model).write genId cs =
    .messageStart id model :: OpenAIToAnthropicStream.write genId
      { OpenAIToAnthropicStream.new id model with started := true } cs := by
  cases cs <;> rfl

/-- The events are those of a message, and say what the chunks say. -/
structure Faithful (events : List AnthropicSse) (f : Folded) : Prop where
  wellFormed : WellFormed events
  text : joinTexts ((foldBlocks events).filterMap WrittenBlock.text?) = f.content.getD ""
  calls : (foldBlocks events).filterMap WrittenBlock.call? = f.toolCalls

/-- A call, its arguments in two deltas, and then text. -/
def sequential : List ChatChunk :=
  [roleChunk "m", toolChunk "m" ⟨0, some "a", some "f", ""⟩,
    toolChunk "m" ⟨0, none, none, "\x7b\"x\":"⟩,
    toolChunk "m" ⟨0, none, none, "1\x7d"⟩, contentChunk "m" "done", finishChunk "m" .toolCalls]

/-- Two calls whose arguments come in turns. -/
def parallel : List ChatChunk :=
  [toolChunk "m" ⟨0, some "a", some "f", ""⟩, toolChunk "m" ⟨1, some "b", some "g", ""⟩,
    toolChunk "m" ⟨0, none, none, "1"⟩, toolChunk "m" ⟨1, none, none, "2"⟩]

end Swarmy.Ai
