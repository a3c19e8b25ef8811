import Mathlib.Data.List.Basic
import Mathlib.Tactic.Common

/-!
# The words of a command

How a shell reads a command into words: text in single quotes as it is, text in double quotes
but for the variables in it, and one blank between words.  A text that needs more of the shell
than this is not read.
-/

namespace Shell

open List Option

abbrev Text := List Char

/-- What the text at hand is in. -/
inductive Mode where
  | plain
  | escape
  | single
  | double
  /-- The name of a variable, in double quotes. -/
  | name (read : Text)

def isName (c : Char) : Bool := c.isAlphanum || c = '_'

/-- A character that is more than itself outside of quotes. -/
def isSpecial (c : Char) : Bool := c ∈ "\n\t|&;<>()$\x60*?[]#~=%!\x7b\x7d".toList

/-- Text in front of the first word. -/
def before (text : Text) : List Text → List Text
  | [] => [text]
  | w :: ws => (text ++ w) :: ws

/-- The words of a text; none when a quote is not closed. -/
def words (var : Text → Text) : Mode → Text → Option (List Text)
  | .plain, [] => some [[]]
  | .plain, c :: r =>
    if c = ' ' then (words var .plain r).map ([] :: ·)
    else if c = '\'' then words var .single r
    else if c = '"' then words var .double r
    else if c = '\\' then words var .escape r
    else if isSpecial c then none
    else (words var .plain r).map (before [c])
  | .escape, [] => none
  | .escape, c :: r => if c = '\n' then none else (words var .plain r).map (before [c])
  | .single, [] => none
  | .single, c :: r =>
    if c = '\'' then words var .plain r else (words var .single r).map (before [c])
  | .double, [] => none
  | .double, c :: r =>
    if c = '"' then words var .plain r
    else if c = '$' then words var (.name []) r
    else if c = '\\' ∨ c = '\x60' then none
    else (words var .double r).map (before [c])
  | .name _, [] => none
  | .name read, c :: r =>
    if isName c then words var (.name (read ++ [c])) r
    else if c = '"' then (words var .plain r).map (before (var read))
    else none

example : words (fun _ => []) .plain "a b".toList = some [['a'], ['b']] := by
  simp [words, before, isSpecial]

/-- Single quotes around a text; a quote in it is taken out of them. -/
def quote (text : Text) : Text :=
  '\'' :: text.flatMap (fun c => if c = '\'' then ['\'', '\\', '\'', '\''] else [c]) ++ ['\'']

theorem before_before (a b : Text) (ws : List Text) :
    before a (before b ws) = before (a ++ b) ws := by
  cases ws with
  | nil => rfl
  | cons w ws => exact congrArg (· :: ws) (append_assoc a b w).symm

theorem before_nil {ws : List Text} (h : ws ≠ []) : before [] ws = ws := by
  cases ws with
  | nil => exact absurd rfl h
  | cons w ws => rfl

theorem map_before (a b : Text) (x : Option (List Text)) :
    (x.map (before b)).map (before a) = x.map (before (a ++ b)) := by
  rw [Option.map_map]
  exact congrArg (Option.map · x) (funext (before_before a b))

variable {var : Text → Text}

/-- There is always a word, if an empty one. -/
theorem words_ne_nil (m : Mode) (text : Text) : words var m text ≠ some [] := by
  have hmap (f : List Text → List Text) (hf : ∀ ws, f ws ≠ []) (x : Option (List Text)) :
      x.map f ≠ some [] := by
    cases x with
    | none => simp
    | some ws => simpa using hf ws
  have hbefore (a : Text) (ws : List Text) : before a ws ≠ [] := by cases ws <;> simp [before]
  induction text generalizing m with
  | nil => cases m <;> simp [words]
  | cons c r ih =>
    cases m <;> simp only [words] <;> split_ifs <;>
      first | exact ih _ | exact hmap _ (hbefore _) _ | exact hmap _ (by simp) _ | simp

theorem map_before_nil (m : Mode) (text : Text) :
    (words var m text).map (before []) = words var m text := by
  cases h : words var m text with
  | none => rfl
  | some ws =>
    rw [map_some, before_nil]
    rintro rfl
    exact words_ne_nil m text h

/-- A blank ends the word. -/
theorem words_blank (a r : Text) :
    (words var .plain (' ' :: r)).map (before a) = (words var .plain r).map (a :: ·) := by
  rw [words, if_pos rfl, Option.map_map]
  congr 1
  funext ws
  simp [before]

theorem words_single (text rest : Text) :
    words var .single
      (text.flatMap (fun c => if c = '\'' then ['\'', '\\', '\'', '\''] else [c]) ++ '\'' :: rest) =
        (words var .plain rest).map (before text) := by
  induction text with
  | nil =>
    rw [flatMap_nil, nil_append, words, if_pos rfl, map_before_nil]
  | cons c text ih =>
    rw [flatMap_cons]
    by_cases hc : c = '\''
    · -- out of the quotes, an escaped quote, and in again
      rw [if_pos hc, hc]
      simp only [cons_append, nil_append, words, if_true, ih, map_before,
        show ('\'' : Char) ≠ ' ' by decide, show ('\\' : Char) ≠ ' ' by decide,
        show ('\\' : Char) ≠ '\'' by decide, show ('\\' : Char) ≠ '"' by decide,
        show ('\'' : Char) ≠ '\n' by decide, if_false]
    · rw [if_neg hc, cons_append, nil_append, cons_append, words, if_neg hc, ih, map_before]
      rfl

/-- A quoted text is that text. -/
theorem words_quote (text rest : Text) :
    words var .plain (quote text ++ rest) = (words var .plain rest).map (before text) := by
  have h : quote text ++ rest = '\'' ::
      (text.flatMap (fun c => if c = '\'' then ['\'', '\\', '\'', '\'']
        else [c]) ++ '\'' :: rest) := by
    simp [quote]
  rw [h, words, if_neg (by decide), if_pos rfl, words_single]

/-- A character that stands for itself, outside of quotes and in them. -/
def isSafe (c : Char) : Bool := c.isAlphanum || c = '.' || c = '_' || c = ':' || c = '-'

theorem isSafe_ne {c d : Char} (h : isSafe c = true) (hd : isSafe d = false) : c ≠ d := by
  rintro rfl
  rw [h] at hd
  cases hd

theorem not_isSpecial {c : Char} (h : isSafe c = true) : isSpecial c = false := by
  rw [isSpecial, decide_eq_false_iff_not]
  intro hc
  have hall : "\n\t|&;<>()$\x60*?[]#~=%!\x7b\x7d".toList.all (!isSafe ·) = true := by decide
  have hsafe := all_eq_true.1 hall c hc
  rw [h] at hsafe
  cases hsafe

/-- A text of such characters is itself. -/
theorem words_safe {text : Text} (h : ∀ c ∈ text, isSafe c = true) (rest : Text) :
    words var .plain (text ++ rest) = (words var .plain rest).map (before text) := by
  induction text with
  | nil => exact (map_before_nil _ _).symm
  | cons c text ih =>
    have hc := h c mem_cons_self
    have hne (d : Char) (hd : isSafe d = false) : c ≠ d := isSafe_ne hc hd
    rw [cons_append, words, if_neg (hne _ (by decide)), if_neg (hne _ (by decide)),
      if_neg (hne _ (by decide)), if_neg (hne _ (by decide)), if_neg (by simp [not_isSpecial hc]),
      ih fun x hx => h x (mem_cons_of_mem _ hx), map_before]
    rfl

theorem words_name (read : Text) {name : Text} (h : ∀ c ∈ name, isName c = true) (rest : Text) :
    words var (.name read) (name ++ '"' :: rest) =
      (words var .plain rest).map (before (var (read ++ name))) := by
  induction name generalizing read with
  | nil => rw [nil_append, words, if_neg (by decide), if_pos rfl, append_nil]
  | cons c name ih =>
    rw [cons_append, words, if_pos (h c mem_cons_self),
      ih _ fun x hx => h x (mem_cons_of_mem _ hx), append_assoc]
    rfl

/-- A text and a variable in double quotes. -/
def quoteVar (text name : Text) : Text := '"' :: (text ++ '$' :: (name ++ ['"']))

theorem words_quoteVar {text name : Text} (h : ∀ c ∈ text, isSafe c = true)
    (hn : ∀ c ∈ name, isName c = true) (rest : Text) :
    words var .plain (quoteVar text name ++ rest) =
      (words var .plain rest).map (before (text ++ var name)) := by
  have hshape : quoteVar text name ++ rest = '"' :: (text ++ '$' :: (name ++ '"' :: rest)) := by
    simp [quoteVar]
  rw [hshape, words, if_neg (by decide), if_neg (by decide), if_pos rfl]
  clear hshape
  induction text with
  | nil =>
    rw [nil_append, words, if_neg (by decide), if_pos rfl, words_name _ hn]
    rfl
  | cons c text ih =>
    have hc := h c mem_cons_self
    have hne (d : Char) (hd : isSafe d = false) : c ≠ d := isSafe_ne hc hd
    have hor : ¬ (c = '\\' ∨ c = '\x60') := by
      rintro (hd | hd)
      · exact hne _ (by decide) hd
      · exact hne _ (by decide) hd
    rw [cons_append, words, if_neg (hne _ (by decide)), if_neg (hne _ (by decide)), if_neg hor,
      ih fun x hx => h x (mem_cons_of_mem _ hx), map_before]
    rfl

/-! ## Commands -/

/-- Texts with a blank between them. -/
def spaced : List Text → Text
  | [] => []
  | [w] => w
  | w :: ws => w ++ ' ' :: spaced ws

/-- A text that is read as a part of a word, whatever follows it. -/
def Reads (var : Text → Text) (w x : Text) : Prop :=
  ∀ rest, words var .plain (w ++ rest) = (words var .plain rest).map (before x)

theorem reads_quote (text : Text) : Reads var (quote text) text := words_quote text

theorem reads_safe {text : Text} (h : text.all isSafe = true) : Reads var text text :=
  words_safe (all_eq_true.1 h)

theorem reads_quoteVar {text name : Text} (h : text.all isSafe = true)
    (hn : name.all isName = true) :
    Reads var (quoteVar text name) (text ++ var name) :=
  words_quoteVar (all_eq_true.1 h) (all_eq_true.1 hn)

/-- A command is read word by word. -/
theorem words_spaced {ws xs : List Text} (h : List.Forall₂ (Reads var) ws xs) (hne : ws ≠ []) :
    words var .plain (spaced ws) = some xs := by
  induction h with
  | nil => exact absurd rfl hne
  | @cons w x ws xs hw hws ih =>
    cases hws with
    | nil =>
      have hend := hw []
      rw [append_nil] at hend
      rw [spaced, hend, words]
      simp [before]
    | cons hw' hws' =>
      rw [spaced, hw, words_blank, ih (by simp)]
      · rfl
      · simp

end Shell
