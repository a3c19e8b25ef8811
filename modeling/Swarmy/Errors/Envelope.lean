import Swarmy.Codec.Utf8
import Swarmy.Js.Json
import Mathlib.Data.List.TakeWhile

/-!
# Sentry envelopes

An envelope is a header and items, each a header in one line and a payload.  A payload is as long
as its header says, and may then end its line; without a length it goes on to the end of its line.
Lengths count bytes.  Blank lines between items are passed over.  `parseEnvelope_iff`: what the
parser accepts is just what is written so, and is read as what was written.
-/

namespace Errors

open Js List Nat

abbrev Bytes := List UInt8

def NL : UInt8 := 0x0a

structure EnvelopeItem where
  header : Fields
  payload : Bytes

structure Envelope where
  header : Fields
  items : List EnvelopeItem

/-! ## The parser -/

section

variable (number : List Char → Js.Num)

/-- `decoder.decode(line).trim()`; a byte order mark is white space. -/
def lineText (line : Bytes) : String := Js.trim (String.ofList (Utf8.decode line))

def parseJsonLine (line : Bytes) (what : String) : Except String Fields :=
  if lineText line = "" then .ok []
  else match Json.parse number (lineText line) with
    | none => .error (what ++ " is not valid JSON")
    | some (.obj fields) => .ok fields
    | some _ => .error (what ++ " is not a JSON object")

def parseItemHeader (line : Bytes) : Except String Fields := do
  let header ← parseJsonLine number line "item header"
  match header.get "type" with
  | some (.str type) => if type = "" then .error "item header has no type" else .ok header
  | _ => .error "item header has no type"

/-- `length`, where it is an integer and not negative.  An integer that prints with an exponent is
too long for every body; 10²¹ stands for all of them. -/
def payloadLength (header : Fields) : Option Nat :=
  match header.get "length" with
  | some (.num (.int n)) => if 0 ≤ n then some n.toNat else none
  | some (.num (.other text)) => if '+' ∈ text.toList ∧ '-' ∉ text.toList then
    some (10 ^ 21) else none
  | _ => none

/-- The bytes before the next newline, and those from it on. -/
def upTo (body : Bytes) : Bytes := body.takeWhile (· ≠ NL)

def from_ (body : Bytes) : Bytes := body.dropWhile (· ≠ NL)

def passNewline (body : Bytes) : Bytes := if body.head? = some NL then body.tail else body

/-- An item that starts here, and what follows it.  Behind a header that ends the body, `pos` is
past its end, and not even nothing can be taken. -/
def readItem (body : Bytes) : Except String (EnvelopeItem × Bytes) := do
  let header ← parseItemHeader number (upTo body)
  let rest := passNewline (from_ body)
  match payloadLength header with
  | some n =>
    if from_ body = [] ∨ rest.length < n then .error "item payload is shorter than its length"
    else .ok (⟨header, rest.take n⟩, passNewline (rest.drop n))
  | none => .ok (⟨header, upTo rest⟩, passNewline (from_ rest))

/-- The loop over the items; each pass takes a byte at least. -/
def parseItems : Nat → Bytes → Except String (List EnvelopeItem)
  | 0, _ => .ok []
  | fuel + 1, body =>
    if body = [] then .ok []
    else if lineText (upTo body) = "" then parseItems fuel (passNewline (from_ body))
    else do
      let (item, rest) ← readItem number body
      let items ← parseItems fuel rest
      .ok (item :: items)

def parseEnvelope (body : Bytes) : Except String Envelope := do
  let header ← parseJsonLine number (upTo body) "envelope header"
  let items ← parseItems number body.length (passNewline (from_ body))
  .ok ⟨header, items⟩

/-! ## The format -/

/-- How items are written.  The newline that may follow a payload makes a blank line. -/
inductive Written : Bytes → List EnvelopeItem → Prop where
  | blank {line : Bytes} : NL ∉ line → lineText line = "" → Written line []
  | skip {line rest : Bytes} {items : List EnvelopeItem} : NL ∉ line → lineText line = "" →
      Written rest items → Written (line ++ NL :: rest) items
  | sized {line payload rest : Bytes} {header : Fields} {items : List EnvelopeItem} : NL ∉ line →
      parseItemHeader number line = .ok header → payloadLength header = some payload.length →
      Written rest items → Written (line ++ NL :: (payload ++ rest)) (⟨header, payload⟩ :: items)
  | unsized {line payload rest : Bytes} {header : Fields} {items : List EnvelopeItem} : NL ∉ line →
      parseItemHeader number line = .ok header → payloadLength header = none → NL ∉ payload →
      (∀ b ∈ rest.head?, b = NL) → Written rest items →
      Written (line ++ NL :: (payload ++ rest)) (⟨header, payload⟩ :: items)
  /-- The last header, with nothing behind it. -/
  | bare {line : Bytes} {header : Fields} : NL ∉ line → parseItemHeader number line = .ok header →
      payloadLength header = none → Written line [⟨header, []⟩]

/-- How an envelope is written. -/
def WrittenEnvelope (body : Bytes) (e : Envelope) : Prop :=
  ∃ line rest, body = line ++ rest ∧ NL ∉ line ∧ (∀ b ∈ rest.head?, b = NL) ∧
    parseJsonLine number line "envelope header" = .ok e.header ∧ Written number rest e.items

end

/-! ## Lines -/

section

variable {line rest body : Bytes}

theorem upTo_append (hl : NL ∉ line) (hr : ∀ b ∈ rest.head?, b = NL) :
    upTo (line ++ rest) = line ∧ from_ (line ++ rest) = rest := by
  have hall : ∀ b ∈ line, decide (b ≠ NL) = true :=
    fun b hb => decide_eq_true (ne_of_mem_of_not_mem hb hl)
  rw [upTo, from_, takeWhile_append_of_pos hall, dropWhile_append_of_pos hall]
  cases rest with
  | nil => exact ⟨append_nil line, rfl⟩
  | cons b rest =>
    obtain rfl : b = NL := hr b rfl
    rw [takeWhile_cons_of_neg (by simp), dropWhile_cons_of_neg (by simp)]
    exact ⟨append_nil line, rfl⟩

theorem upTo_line (hl : NL ∉ line) : upTo line = line ∧ from_ line = [] := by
  simpa using @upTo_append line [] hl (by simp)

theorem upTo_append_from (body : Bytes) : upTo body ++ from_ body = body :=
  takeWhile_append_dropWhile

theorem notMem_upTo (body : Bytes) : NL ∉ upTo body := fun h => by simpa using mem_takeWhile_imp h

theorem head?_from (body : Bytes) : ∀ b ∈ (from_ body).head?, b = NL := by
  intro b hb
  have hnot := head?_dropWhile_not (fun b => decide (b ≠ NL)) body
  rw [show (body.dropWhile fun b => decide (b ≠ NL)).head? = some b from hb] at hnot
  simpa using hnot

theorem length_passNewline (body : Bytes) : (passNewline body).length ≤ body.length := by
  unfold passNewline
  split
  · rw [length_tail]
    exact sub_le ..
  · exact le_refl _

theorem passNewline_cons (rest : Bytes) : passNewline (NL :: rest) = rest := if_pos rfl

theorem length_pass_from (h : body ≠ []) : (passNewline (from_ body)).length < body.length := by
  have hbody := congrArg List.length (upTo_append_from body)
  rw [length_append] at hbody
  cases hf : from_ body with
  | nil => exact length_pos_iff.mpr h
  | cons b rest =>
    obtain rfl : b = NL := head?_from body b (by rw [hf]; rfl)
    rw [hf, length_cons] at hbody
    rw [passNewline_cons]
    omega

end

/-! ## What is accepted -/

section

variable {number : List Char → Js.Num} {line rest body : Bytes} {items : List EnvelopeItem}
  {header : Fields} {fuel : Nat}

theorem lineText_nil : lineText [] = "" := by decide

theorem lineText_ne (h : parseItemHeader number line = .ok header) : lineText line ≠ "" := by
  intro hblank
  rw [parseItemHeader, parseJsonLine, if_pos hblank] at h
  cases h

@[simp] theorem parseItems_nil (fuel : Nat) : parseItems number fuel [] = .ok [] := by
  cases fuel <;> rfl

theorem Written.of_passNewline (h : Written number (passNewline body) items) :
    Written number body items := by
  unfold passNewline at h
  split at h
  next hb =>
    obtain ⟨rest, rfl⟩ := head?_eq_some_iff.mp hb
    exact .skip not_mem_nil lineText_nil h
  · exact h

theorem Written.eq_nil (h : Written number [] items) : items = [] := by
  generalize hb : ([] : Bytes) = body at h
  cases h with
  | blank => rfl
  | bare _ hh => exact absurd (hb ▸ lineText_nil) (lineText_ne hh)
  | _ => simp at hb

/-- What is read as an item is written so. -/
theorem written_of_readItem {item : EnvelopeItem} (h : readItem number body = .ok (item, rest)) :
    rest.length < body.length ∧ ∀ items, Written number rest items → Written number body
      (item :: items) := by
  have hline := notMem_upTo body
  have hbody := upTo_append_from body
  unfold readItem at h
  cases hh : parseItemHeader number (upTo body) with
  | error e =>
    rw [hh] at h
    cases h
  | ok header =>
    rw [hh] at h
    have hne : body ≠ [] := by
      rintro rfl
      exact lineText_ne hh lineText_nil
    have hpass := length_pass_from hne
    dsimp only [bind, Except.bind] at h
    cases hf : from_ body with
    | nil =>
      rw [hf, append_nil] at hbody
      split at h
      next => simp [hf] at h
      next hnone =>
        rw [hf] at h
        cases h
        refine ⟨length_pos_iff.mpr hne, fun items hw => ?_⟩
        obtain rfl := hw.eq_nil
        exact hbody ▸ .bare hline hh hnone
    | cons b r =>
      obtain rfl : b = NL := head?_from body b (by rw [hf]; rfl)
      rw [hf] at hbody hpass
      rw [passNewline_cons] at hpass
      rw [hf, passNewline_cons] at h
      split at h
      next n hn =>
        split at h
        · cases h
        next hlong =>
          cases h
          rw [not_or, not_lt] at hlong
          refine ⟨?_, fun items hw => ?_⟩
          · have hle := length_passNewline (r.drop n)
            rw [length_drop] at hle
            omega
          · have hlen : payloadLength header = some (r.take n).length := by
              rw [hn, length_take, Nat.min_eq_left hlong.2]
            have hitem := Written.sized hline hh hlen hw.of_passNewline
            rwa [take_append_drop, hbody] at hitem
      next hnone =>
        cases h
        refine ⟨?_, fun items hw => ?_⟩
        · have hle := (dropWhile_sublist (l := r) fun b => decide (b ≠ NL)).length_le
          exact lt_of_le_of_lt ((length_passNewline _).trans hle) hpass
        · have hitem := Written.unsized hline hh hnone (notMem_upTo r)
              (head?_from r) hw.of_passNewline
          rwa [upTo_append_from, hbody] at hitem

/-- What the loop accepts is written so. -/
theorem written_of_parseItems (hlen : body.length ≤ fuel)
    (h : parseItems number fuel body = .ok items) :
    Written number body items := by
  induction fuel generalizing body items with
  | zero =>
    obtain rfl := length_eq_zero_iff.mp (le_zero.mp hlen)
    cases h
    exact .blank not_mem_nil lineText_nil
  | succ fuel ih =>
    rw [parseItems] at h
    split at h
    next hnil =>
      cases h
      exact hnil ▸ .blank not_mem_nil lineText_nil
    next hne =>
      split at h
      next hblank =>
        have hpass := length_pass_from hne
        have hbody := upTo_append_from body
        have hrest := ih (by omega) h
        cases hf : from_ body with
        | nil =>
          rw [hf, append_nil] at hbody
          rw [hf] at hrest
          rw [hrest.eq_nil]
          exact hbody ▸ .blank (notMem_upTo body) hblank
        | cons b rest =>
          obtain rfl : b = NL := head?_from body b (by rw [hf]; rfl)
          rw [hf, passNewline_cons] at hrest
          rw [hf] at hbody
          exact hbody ▸ .skip (notMem_upTo body) hblank hrest
      · cases hitem : readItem number body with
        | error e =>
          rw [hitem] at h
          cases h
        | ok p =>
          rw [hitem] at h
          cases hitems : parseItems number fuel p.2 with
          | error e =>
            simp only [bind, Except.bind, hitems] at h
            cases h
          | ok items =>
            simp only [bind, Except.bind, hitems] at h
            cases h
            obtain ⟨hshort, hwritten⟩ := written_of_readItem hitem
            exact hwritten items (ih (by omega) hitems)

theorem parseItems_blank (hl : NL ∉ line) (hblank : lineText line = "")
    (hr : ∀ b ∈ rest.head?, b = NL) :
    parseItems number (fuel + 1) (line ++ rest) = parseItems number fuel (passNewline rest) := by
  rw [parseItems, (upTo_append hl hr).1, (upTo_append hl hr).2, if_pos hblank]
  split
  next hnil =>
    obtain ⟨rfl, rfl⟩ := append_eq_nil_iff.mp hnil
    exact (parseItems_nil fuel).symm
  · rfl

/-- The newline behind an item makes no difference. -/
theorem parseItems_passNewline
    (h : ∀ fuel, rest.length ≤ fuel → parseItems number fuel rest = .ok items)
    (hf : rest.length ≤ fuel) : parseItems number fuel (passNewline rest) = .ok items := by
  by_cases hnl : rest.head? = some NL
  · obtain ⟨r, rfl⟩ := head?_eq_some_iff.mp hnl
    rw [← h (fuel + 1) (by omega)]
    exact (parseItems_blank (show NL ∉ [] from not_mem_nil) lineText_nil (by simp)).symm
  · rw [passNewline, if_neg hnl]
    exact h fuel hf

theorem parseItems_item {item : EnvelopeItem} (hh : parseItemHeader number (upTo body) = .ok header)
    (hitem : readItem number body = .ok (item, passNewline rest)) (hf : body.length ≤ fuel)
    (hlt : rest.length < body.length)
    (h : ∀ fuel, rest.length ≤ fuel → parseItems number fuel rest = .ok items) :
    parseItems number fuel body = .ok (item :: items) := by
  obtain ⟨fuel, rfl⟩ : ∃ n, fuel = n + 1 := ⟨fuel - 1, by omega⟩
  have hne : body ≠ [] := length_pos_iff.mp (by omega)
  have hitems := parseItems_passNewline h (show rest.length ≤ fuel by omega)
  rw [parseItems, if_neg hne, if_neg (lineText_ne hh)]
  simp only [bind, Except.bind, hitem, hitems]

/-- What is written so is accepted. -/
theorem parseItems_of_written (h : Written number body items) :
    ∀ fuel, body.length ≤ fuel → parseItems number fuel body = .ok items := by
  induction h with
  | @blank line hl hblank =>
    intro fuel _
    cases fuel with
    | zero => rfl
    | succ fuel =>
      have hpass : parseItems number (fuel + 1) (line ++ []) = _ :=
        parseItems_blank hl hblank (by simp)
      rw [append_nil] at hpass
      exact hpass.trans (parseItems_nil fuel)
  | @skip line rest items hl hblank _ ih =>
    intro fuel hf
    simp only [length_append, length_cons] at hf
    obtain ⟨fuel, rfl⟩ : ∃ n, fuel = n + 1 := ⟨fuel - 1, by omega⟩
    rw [parseItems_blank hl hblank (by simp), passNewline_cons]
    exact ih fuel (by omega)
  | @sized line payload rest header items hl hh hlen _ ih =>
    intro fuel hf
    obtain ⟨hup, hfrom⟩ := @upTo_append line (NL :: (payload ++ rest)) hl (by simp)
    refine parseItems_item (hup.symm ▸ hh) ?_ hf (by simp; omega) ih
    rw [readItem, hup, hfrom, hh]
    simp only [bind, Except.bind, hlen, passNewline_cons]
    rw [if_neg (by simp), take_left, drop_left]
  | @unsized line payload rest header items hl hh hlen hp hr _ ih =>
    intro fuel hf
    obtain ⟨hup, hfrom⟩ := @upTo_append line (NL :: (payload ++ rest)) hl (by simp)
    refine parseItems_item (hup.symm ▸ hh) ?_ hf (by simp; omega) ih
    rw [readItem, hup, hfrom, hh]
    simp only [bind, Except.bind, hlen, passNewline_cons]
    rw [(upTo_append hp hr).1, (upTo_append hp hr).2]
  | @bare line header hl hh hlen =>
    intro fuel hf
    obtain ⟨hup, hfrom⟩ := upTo_line hl
    have hne : line ≠ [] := by
      rintro rfl
      exact lineText_ne hh lineText_nil
    refine parseItems_item (hup.symm ▸ hh) ?_ hf (show [].length <
      _ from length_pos_iff.mpr hne) fun fuel _ => parseItems_nil fuel
    rw [readItem, hup, hfrom, hh]
    simp only [bind, Except.bind, hlen]
    rfl

/-- The parser accepts just what is written as an envelope, and reads what was written. -/
theorem parseEnvelope_iff (number : List Char → Js.Num) (body : Bytes) (e : Envelope) :
    parseEnvelope number body = .ok e ↔ WrittenEnvelope number body e := by
  constructor
  · intro h
    unfold parseEnvelope at h
    cases hh : parseJsonLine number (upTo body) "envelope header" with
    | error m =>
      rw [hh] at h
      cases h
    | ok header =>
      rw [hh] at h
      cases hi : parseItems number body.length (passNewline (from_ body)) with
      | error m =>
        simp only [bind, Except.bind, hi] at h
        cases h
      | ok items =>
        simp only [bind, Except.bind, hi] at h
        cases h
        have hle := (dropWhile_sublist (l := body) fun b => decide (b ≠ NL)).length_le
        exact ⟨upTo body, from_ body, (upTo_append_from body).symm, notMem_upTo body,
          head?_from body, hh,
          (written_of_parseItems ((length_passNewline _).trans hle) hi).of_passNewline⟩
  · rintro ⟨line, rest, rfl, hl, hr, hh, hw⟩
    have hitems := parseItems_passNewline (parseItems_of_written hw) (show _ ≤
        (line ++ rest).length by simp)
    rw [parseEnvelope, (upTo_append hl hr).1, (upTo_append hl hr).2, hh]
    simp only [bind, Except.bind, hitems]

end

/-! ## A payload that does not end its line -/

/-- A payload of the length that its header says, with neither a newline nor the end behind it, is
refused. -/
def RefusesRunOn (number : List Char → Js.Num) : Prop :=
  ∀ line payload rest header, NL ∉ line → parseItemHeader number line = .ok header →
    payloadLength header = some payload.length → rest ≠ [] → rest.head? ≠ some NL →
      ∀ e, parseEnvelope number (NL :: (line ++ NL :: (payload ++ rest))) ≠ .ok e

def runOnHeader : Bytes := Utf8.encode "\x7b\"type\":\"a\",\"length\":1\x7d".toList

/-- What stands right behind the payload is read as the header of an item. -/
theorem not_refusesRunOn : ¬ ∀ number, RefusesRunOn number := by
  intro h
  have hlen : ((parseItemHeader (fun _ => .int 1) runOnHeader).toOption.bind payloadLength) =
      some 1 := by
    decide +kernel
  obtain ⟨header, hh, hsize⟩ := Option.bind_eq_some_iff.mp hlen
  cases hp : parseItemHeader (fun _ => .int 1) runOnHeader with
  | error m =>
    rw [hp] at hh
    cases hh
  | ok header' =>
    rw [hp] at hh
    cases hh
    have hok : (parseEnvelope (fun _ => .int 1)
        (NL :: (runOnHeader ++ NL :: ([0x78] ++ (runOnHeader ++ [NL, 0x79]))))).isOk =
          true := by decide +kernel
    cases he : parseEnvelope (fun _ => .int 1)
        (NL :: (runOnHeader ++ NL :: ([0x78] ++ (runOnHeader ++ [NL, 0x79])))) with
    | error m =>
      rw [he] at hok
      cases hok
    | ok e =>
      exact h _ runOnHeader [0x78] _ _ (by decide +kernel) hp hsize (by simp) (by decide +kernel)
        e he

end Errors
