import Swarmy.Mail.Contained
import Swarmy.Mail.Send
import Mathlib.Data.List.TakeWhile

/-!
# What is sent as a credential

A message that is accepted has the header lines that are intended and an envelope from a verified
domain without a suppressed address, whatever a caller writes.  `sentAs_of_single`: where the
sender and each recipient are one mailbox with no `<` in its name, and no two recipients are the
same, the mailboxes of `From` are at that domain too, and the envelope is the recipients that are
not suppressed, each once.
-/

namespace Mail

open Js List Option
open Sink (text)

/-! ## Reading a header -/

/-- Where the reader of a list of mailboxes is. -/
inductive BoxMode where
  | plain
  | quoted
  /-- Behind a backslash in quotes. -/
  | escaped
  | comment (depth : Nat)
  | angle (read : Text)

/-- A mailbox with this text outside of brackets and comments, and this in brackets. -/
def boxOf (word : Text) : Option Text → List Text
  | some a => [trim a]
  | none => if trim word = [] then [] else [trim word]

/-- The addresses of a list of mailboxes, with or without names, quoted texts, comments and
groups. -/
def readBoxes : BoxMode → Text → Option Text → Text → List Text
  | _, word, addr, [] => boxOf word addr
  | .plain, word, addr, c :: cs =>
    if c = ',' ∨ c = ';' then boxOf word addr ++ readBoxes .plain [] none cs
    else if c = ':' then readBoxes .plain [] none cs
    else if c = '"' then readBoxes .quoted (word ++ [c]) addr cs
    else if c = '(' then readBoxes (.comment 0) word addr cs
    else if c = '<' then readBoxes (.angle []) word addr cs
    else readBoxes .plain (word ++ [c]) addr cs
  | .quoted, word, addr, c :: cs =>
    if c = '"' then readBoxes .plain (word ++ [c]) addr cs
    else if c = '\\' then readBoxes .escaped (word ++ [c]) addr cs
    else readBoxes .quoted (word ++ [c]) addr cs
  | .escaped, word, addr, c :: cs => readBoxes .quoted (word ++ [c]) addr cs
  | .comment depth, word, addr, c :: cs =>
    if c = '(' then readBoxes (.comment (depth + 1)) word addr cs
    else if c = ')' then
      match depth with
      | 0 => readBoxes .plain word addr cs
      | depth + 1 => readBoxes (.comment depth) word addr cs
    else readBoxes (.comment depth) word addr cs
  | .angle read, word, addr, c :: cs =>
    if c = '>' then readBoxes .plain word (some read) cs
    else readBoxes (.angle (read ++ [c])) word addr cs

def mailboxes (t : Text) : List Text := readBoxes .plain [] none t

/-- A name, or what follows a bracket: it has no `<`, ends what it begins, and separates nothing.
An address outside of brackets is such a text without comments. -/
def isName (comments : Bool) : BoxMode → Text → Bool
  | .plain, [] => true
  | _, [] => false
  | .plain, c :: cs =>
    if c = ',' ∨ c = ';' ∨ c = ':' ∨ c = '<' then false
    else if c = '"' then isName comments .quoted cs
    else if c = '(' then comments && isName comments (.comment 0) cs
    else isName comments .plain cs
  | .quoted, c :: cs =>
    if c = '<' then false
    else if c = '"' then isName comments .plain cs
    else if c = '\\' then isName comments .escaped cs
    else isName comments .quoted cs
  | .escaped, c :: cs => if c = '<' then false else isName comments .quoted cs
  | .comment depth, c :: cs =>
    if c = '<' then false
    else if c = '(' then isName comments (.comment (depth + 1)) cs
    else if c = ')' then
      match depth with
      | 0 => isName comments .plain cs
      | depth + 1 => isName comments (.comment depth) cs
    else isName comments (.comment depth) cs
  | .angle _, _ :: _ => false

/-- One mailbox: an address, its local part quoted or not, or a text in brackets with a name. -/
inductive Single : Text → Text → Prop
  | bare {t : Text} : isName false .plain t = true → trim t ≠ [] → Single t (trim t)
  | named {name a post : Text} : isName true .plain name = true → a ≠ [] → '>' ∉ a →
      isName true .plain post = true → Single (name ++ '<' :: (a ++ '>' :: post)) (trim a)

/-! ## One mailbox -/

/-- A name is part of the word, and leaves the reader where it was. -/
theorem readBoxes_name {m : BoxMode} {name : Text} (h : isName true m name = true) (word : Text)
    (addr : Option Text) (rest : Text) :
    ∃ word', readBoxes m word addr (name ++ rest) = readBoxes .plain word' addr rest := by
  induction name generalizing m word with
  | nil =>
    cases m with
    | plain => exact ⟨word, rfl⟩
    | _ => cases h
  | cons c name ih =>
    cases m with
    | plain =>
      simp only [isName, Bool.true_and] at h
      rw [cons_append, readBoxes]
      split_ifs at h with h₁ h₂ h₃
      · rw [if_neg (by tauto), if_neg (by tauto), if_pos h₂]
        exact ih h _
      · rw [if_neg (by tauto), if_neg (by tauto), if_neg h₂, if_pos h₃]
        exact ih h _
      · rw [if_neg (by tauto), if_neg (by tauto), if_neg h₂, if_neg h₃, if_neg (by tauto)]
        exact ih h _
    | quoted =>
      simp only [isName] at h
      rw [cons_append, readBoxes]
      split_ifs at h with h₁ h₂ h₃
      · rw [if_pos h₂]
        exact ih h _
      · rw [if_neg h₂, if_pos h₃]
        exact ih h _
      · rw [if_neg h₂, if_neg h₃]
        exact ih h _
    | escaped =>
      simp only [isName] at h
      split_ifs at h
      exact ih h _
    | comment depth =>
      cases depth with
      | zero =>
        simp only [isName] at h
        rw [cons_append, readBoxes]
        split_ifs at h with h₁ h₂ h₃
        · rw [if_pos h₂]
          exact ih h _
        · rw [if_neg h₂, if_pos h₃]
          exact ih h _
        · rw [if_neg h₂, if_neg h₃]
          exact ih h _
      | succ depth =>
        simp only [isName] at h
        rw [cons_append, readBoxes]
        split_ifs at h with h₁ h₂ h₃
        · rw [if_pos h₂]
          exact ih h _
        · rw [if_neg h₂, if_pos h₃]
          exact ih h _
        · rw [if_neg h₂, if_neg h₃]
          exact ih h _
    | angle read => cases h

theorem readBoxes_angle {a : Text} (h : '>' ∉ a) (read word : Text) (addr : Option Text)
    (rest : Text) :
    readBoxes (.angle read) word addr (a ++ '>' :: rest) = readBoxes .plain word
      (some (read ++ a)) rest := by
  induction a generalizing read with
  | nil => rw [nil_append, readBoxes, if_pos rfl, append_nil]
  | cons c a ih =>
    obtain ⟨hc, ha⟩ := ne_and_not_mem_of_not_mem_cons h
    rw [cons_append, readBoxes, if_neg hc.symm, ih ha, append_assoc]
    rfl

/-- Where the reader is in an address outside of brackets. -/
def BoxMode.IsWord : BoxMode → Prop
  | .plain | .quoted | .escaped => True
  | _ => False

/-- All of an address outside of brackets is read as the word. -/
theorem readBoxes_word {m : BoxMode} {a : Text} (hm : m.IsWord) (h : isName false m a = true)
    (word : Text) : readBoxes m word none a = boxOf (word ++ a) none := by
  induction a generalizing m word with
  | nil => rw [readBoxes, append_nil]
  | cons c a ih =>
    have hnext (m : BoxMode) (hm : m.IsWord) (h : isName false m a = true) :
        readBoxes m (word ++ [c]) none a = boxOf (word ++ c :: a) none := by
      rw [ih hm h, append_assoc]
      rfl
    cases m with
    | plain =>
      simp only [isName, Bool.false_and] at h
      split_ifs at h with h₁ h₂ h₃
      · rw [readBoxes, if_neg (by tauto), if_neg (by tauto), if_pos h₂]
        exact hnext _ trivial h
      · rw [readBoxes, if_neg (by tauto), if_neg (by tauto), if_neg h₂, if_neg h₃,
          if_neg (by tauto)]
        exact hnext _ trivial h
    | quoted =>
      simp only [isName] at h
      split_ifs at h with h₁ h₂ h₃
      · rw [readBoxes, if_pos h₂]
        exact hnext _ trivial h
      · rw [readBoxes, if_neg h₂, if_pos h₃]
        exact hnext _ trivial h
      · rw [readBoxes, if_neg h₂, if_neg h₃]
        exact hnext _ trivial h
    | escaped =>
      simp only [isName] at h
      split_ifs at h
      exact hnext _ trivial h
    | comment depth => cases hm
    | angle read => cases hm

theorem Single.mailboxes {t a : Text} (h : Single t a) : mailboxes t = [a] := by
  cases h with
  | bare ht hne =>
    rw [Mail.mailboxes, readBoxes_word (m := .plain) trivial ht, nil_append, boxOf, if_neg hne]
  | @named name a post hname hne hgt hpost =>
    obtain ⟨word, hword⟩ := readBoxes_name hname [] none ('<' :: (a ++ '>' :: post))
    obtain ⟨word', hword'⟩ := readBoxes_name hpost word (some ([] ++ a)) []
    rw [append_nil] at hword'
    rw [Mail.mailboxes, hword, readBoxes, if_neg (by simp), if_neg (by simp), if_neg (by simp),
      if_neg (by simp), if_pos rfl, readBoxes_angle hgt, hword', readBoxes]
    rfl

/-! ## The pattern of the code -/

theorem angleMatch_cons_ne {c : Char} (h : c ≠ '<') (cs : Text) :
    angleMatch (c :: cs) = angleMatch cs := by
  rw [angleMatch, if_neg fun hm => h hm.1]

theorem angleMatch_append {l : Text} (h : '<' ∉ l) (rest : Text) :
    angleMatch (l ++ rest) = angleMatch rest := by
  induction l with
  | nil => rfl
  | cons c l ih =>
    obtain ⟨hc, hl⟩ := ne_and_not_mem_of_not_mem_cons h
    rw [cons_append, angleMatch_cons_ne hc.symm, ih hl]

theorem angleMatch_none {l : Text} (h : '<' ∉ l) : angleMatch l = none := by
  have happend := angleMatch_append h []
  rwa [append_nil] at happend

theorem not_mem_of_isName {comments : Bool} {m : BoxMode} {name : Text}
    (h : isName comments m name = true) : '<' ∉ name := by
  induction name generalizing m with
  | nil => exact not_mem_nil
  | cons c name ih =>
    have hstep : c ≠ '<' ∧ ∃ m', isName comments m' name = true := by
      cases m with
      | comment depth =>
        cases depth <;> simp only [isName] at h <;> split_ifs at h with h₁ <;>
          exact ⟨h₁, _, h⟩
      | angle read => cases h
      | plain =>
        simp only [isName] at h
        split_ifs at h with h₁ h₂ h₃
        · exact ⟨by tauto, _, h⟩
        · exact ⟨by tauto, _, (Bool.and_eq_true_iff.mp h).2⟩
        · exact ⟨by tauto, _, h⟩
      | quoted => simp only [isName] at h; split_ifs at h with h₁ <;> exact ⟨h₁, _, h⟩
      | escaped => simp only [isName] at h; split_ifs at h with h₁; exact ⟨h₁, _, h⟩
    obtain ⟨hc, m', hm'⟩ := hstep
    exact not_mem_cons_of_ne_of_not_mem hc.symm (ih hm')

theorem Single.angleOf {t a : Text} (h : Single t a) : angleOf t = a := by
  cases h with
  | bare ht _ => rw [Mail.angleOf, angleMatch_none (not_mem_of_isName ht), getD_none]
  | @named name a post hname hne hgt hpost =>
    have hhead : (a ++ '>' :: post).head? ≠ some '>' := by
      cases a with
      | nil => exact absurd rfl hne
      | cons c a =>
        intro heq
        exact hgt (some.inj heq ▸ mem_cons_self)
    rw [Mail.angleOf, angleMatch_append (not_mem_of_isName hname), angleMatch,
      if_pos ⟨rfl, hhead, mem_append_right _ mem_cons_self⟩, getD_some,
      takeWhile_append_of_pos fun c hc => by simpa using fun heq : c = '>' => hgt (heq ▸ hc),
      takeWhile_cons_of_neg (by simp), append_nil]

theorem trim_eq_self {t : Text} (h : ∀ c ∈ t, isSpace c = false) : trim t = t := by
  have hdrop : ∀ l : Text, (∀ c ∈ l, isSpace c = false) → l.dropWhile isSpace = l := by
    intro l hl
    cases l with
    | nil => rfl
    | cons c l => rw [dropWhile_cons_of_neg (by simp [hl c mem_cons_self])]
  unfold trim
  rw [hdrop t h, hdrop t.reverse fun c hc => h c (mem_reverse.1 hc), reverse_reverse]

theorem angleMatch_append_spaces (t : Text) {ws : Text} (h : ∀ c ∈ ws, isSpace c = true) :
    angleMatch (t ++ ws) = angleMatch t := by
  have hbracket : ∀ c ∈ ws, c ≠ '<' ∧ c ≠ '>' := by
    intro c hc
    constructor <;> rintro rfl <;> have hs := h _ hc <;> revert hs <;> decide
  induction t with
  | nil => exact angleMatch_none fun hmem => (hbracket _ hmem).1 rfl
  | cons c t ih =>
    have hgt : '>' ∈ t ++ ws ↔ '>' ∈ t := by
      rw [mem_append, or_iff_left fun hmem => (hbracket _ hmem).2 rfl]
    rw [cons_append, angleMatch, angleMatch, ih]
    by_cases hmem : '>' ∈ t
    · obtain ⟨d, t', rfl⟩ := exists_cons_of_ne_nil (ne_nil_of_mem hmem)
      rw [cons_append, List.head?_cons, List.head?_cons, ← cons_append]
      have htake : (d :: t' ++ ws).takeWhile (· ≠ '>') = (d :: t').takeWhile (· ≠ '>') := by
        rw [takeWhile_append, if_neg]
        intro hlen
        have hall := takeWhile_eq_self_iff.1
          (( takeWhile_prefix _).eq_of_length hlen : (d :: t').takeWhile (· ≠ '>') = d :: t')
        simpa using hall _ hmem
      simp only [hgt, htake]
    · rw [if_neg fun hm => hmem (hgt.1 hm.2.2), if_neg fun hm => hmem hm.2.2]

theorem trim_eq_append (t : Text) : ∃ pre post : Text, (∀ c ∈ pre, isSpace c = true) ∧
    (∀ c ∈ post, isSpace c = true) ∧ t = pre ++ (trim t ++ post) := by
  refine ⟨t.takeWhile isSpace, ((t.dropWhile isSpace).reverse.takeWhile isSpace).reverse,
    fun c hc => mem_takeWhile_imp hc, fun c hc => mem_takeWhile_imp (mem_reverse.1 hc), ?_⟩
  unfold trim
  rw [← reverse_append, takeWhile_append_dropWhile, reverse_reverse,
    takeWhile_append_dropWhile]

theorem trim_trim_append (t : Text) {pre post : Text} (hpre : ∀ c ∈ pre, isSpace c = true)
    (hpost : ∀ c ∈ post, isSpace c = true) : trim (pre ++ (t ++ post)) = trim t := by
  have hdrop (l : Text) {ws : Text} (h : ∀ c ∈ ws, isSpace c = true) :
      (ws ++ l).dropWhile isSpace = l.dropWhile isSpace := dropWhile_append_of_pos h
  unfold trim
  rw [hdrop _ hpre]
  rcases hl : t.dropWhile isSpace with _ | ⟨c, l⟩
  · have hall := dropWhile_eq_nil_iff.1 hl
    have hnil : (t ++ post).dropWhile isSpace = [] := by
      refine dropWhile_eq_nil_iff.2 fun c hc => ?_
      rcases mem_append.1 hc with hc | hc
      · exact hall c hc
      · exact hpost c hc
    rw [hnil]
  · rw [dropWhile_append, hl]
    simp only [isEmpty_cons, Bool.false_eq_true, if_false]
    rw [reverse_append, hdrop _ fun c hc => hpost c (mem_reverse.1 hc)]

/-- White space around a text is not a part of its address. -/
theorem angleOf_trim (t : Text) : angleOf (trim t) = angleOf t := by
  obtain ⟨pre, post, hpre, hpost, heq⟩ := trim_eq_append t
  have hlt : '<' ∉ pre := by
    intro hmem
    have hs := hpre _ hmem
    revert hs
    decide
  have hmatch : angleMatch t = angleMatch (trim t) := by
    conv_lhs => rw [heq]
    rw [angleMatch_append hlt, angleMatch_append_spaces _ hpost]
  unfold angleOf
  rw [hmatch]
  cases angleMatch (trim t) with
  | some a => rfl
  | none =>
    show trim (trim t) = trim t
    conv_rhs => rw [heq, trim_trim_append _ hpre hpost]

/-! ## The lines of the header -/

/-- A text without a newline. -/
def OneLine (t : Text) : Prop := ∀ c ∈ t, isNewline c = false

theorem oneLine_of_all {t : Text} (h : t.all (!isNewline ·) = true) : OneLine t := fun c hc => by
  simpa using all_eq_true.1 h c hc

theorem OneLine.append {s t : Text} (hs : OneLine s) (ht : OneLine t) : OneLine (s ++ t) := by
  intro c hc
  rcases mem_append.1 hc with hc | hc
  · exact hs c hc
  · exact ht c hc

theorem OneLine.notMem {t : Text} (h : OneLine t) : '\n' ∉ t := fun hmem => by
  simpa [isNewline] using h _ hmem

theorem afterNewline_cons {c : Char} (h : isNewline c = false) (cs : Text) :
    afterNewline (c :: cs) = none := by
  simp only [isNewline, Bool.or_eq_false_iff, decide_eq_false_iff_not] at h
  unfold afterNewline
  split
  · next heq => exact absurd (List.cons.inj heq).1 h.1
  · next heq => exact absurd (List.cons.inj heq).1 h.2
  · rfl

theorem splitHead_append {l : Text} (h : OneLine l) (rest : Text) :
    splitHead (l ++ rest) = (splitHead rest).map fun p => (l ++ p.1, p.2) := by
  induction l with
  | nil => simp
  | cons c l ih =>
    rw [cons_append, splitHead, afterNewline_cons (h c mem_cons_self), bind_none,
      ih fun d hd => h d (List.mem_cons_of_mem _ hd), Option.map_map]
    rfl

/-- A line that another follows. -/
theorem splitHead_crlf {c : Char} (h : isNewline c = false) (cs : Text) :
    splitHead (CRLF ++ c :: cs) = (splitHead (c :: cs)).map fun p => (CRLF ++ p.1, p.2) := by
  show splitHead ('\r' :: '\n' :: c :: cs) = _
  have hr : afterNewline ('\r' :: '\n' :: c :: cs) = some (c :: cs) := rfl
  have hn : afterNewline ('\n' :: c :: cs) = some (c :: cs) := rfl
  rw [splitHead, hr, bind_some, afterNewline_cons h, splitHead, hn, bind_some,
    afterNewline_cons h, Option.map_map]
  rfl

theorem splitHead_end (body : Text) : splitHead (CRLF ++ (CRLF ++ body)) = some ([], body) := rfl

theorem splitHead_joinLines {ls : List Text} (hne : ls ≠ []) (h : ∀ l ∈ ls, OneLine l ∧ l ≠ [])
    (body : Text) :
    splitHead (joinLines ls ++ CRLF ++ CRLF ++ body) = some (joinLines ls, body) := by
  induction ls with
  | nil => exact absurd rfl hne
  | cons l ls ih =>
    obtain ⟨hl, -⟩ := h l mem_cons_self
    cases ls with
    | nil =>
      rw [joinLines, append_assoc, append_assoc, splitHead_append hl, splitHead_end,
        map_some, append_nil]
    | cons l' ls =>
      have ih' := ih (by simp) fun x hx => h x (mem_cons_of_mem _ hx)
      obtain ⟨hl', hne'⟩ := h l' (mem_cons_of_mem _ mem_cons_self)
      obtain ⟨c, cs, hcons⟩ : ∃ c cs, joinLines (l' :: ls) ++ CRLF ++ CRLF ++ body = c :: cs ∧
          isNewline c = false := by
        obtain ⟨c, l'', rfl⟩ := exists_cons_of_ne_nil hne'
        refine ⟨c, ?_, ?_, hl' c mem_cons_self⟩
        · exact l'' ++ (joinLines ((c :: l'') :: ls) ++ CRLF ++ CRLF ++ body).drop (l''.length + 1)
        · cases ls <;> simp [joinLines]
      have hshape : joinLines (l :: l' :: ls) ++ CRLF ++ CRLF ++ body =
          l ++ (CRLF ++ (joinLines (l' :: ls) ++ CRLF ++ CRLF ++ body)) := by
        simp [joinLines]
      rw [hshape, splitHead_append hl, hcons.1, splitHead_crlf hcons.2, ← hcons.1, ih']
      simp [joinLines]

theorem splitLines_joinLines {ls : List Text} (hne : ls ≠ []) (h : ∀ l ∈ ls, OneLine l) :
    splitLines (joinLines ls) = ls := by
  induction ls with
  | nil => exact absurd rfl hne
  | cons l ls ih =>
    have hl := h l mem_cons_self
    cases ls with
    | nil => rw [joinLines, splitLines, Codec.cut_of_notMem hl.notMem]; rfl
    | cons l' ls =>
      have ih' := ih (by simp) fun x hx => h x (mem_cons_of_mem _ hx)
      have hshape : joinLines (l :: l' :: ls) = (l ++ ['\r']) ++ '\n' :: joinLines (l' :: ls) := by
        simp [joinLines, CRLF]
      have hnot : '\n' ∉ l ++ ['\r'] := by
        rw [mem_append, not_or]
        exact ⟨hl.notMem, by simp⟩
      rw [hshape, splitLines, Codec.cut_append_cons hnot]
      show Session.chomp (l ++ ['\r']) :: splitLines (joinLines (l' :: ls)) = _
      rw [chomp_append_cr, ih']

/-- The name of a line. -/
def lineName (l : Text) : Text := l.takeWhile (· ≠ ':')

theorem lineName_fieldLine {x : Text × Text} (h : ':' ∉ x.1) : lineName (fieldLine x) = x.1 := by
  unfold lineName fieldLine
  rw [append_assoc, takeWhile_append_of_pos fun c hc =>
    by simpa using fun heq : c = ':' => h (heq ▸ hc)]
  have htext : text ": " ++ x.2 = ':' :: (' ' :: x.2) := rfl
  rw [htext, takeWhile_cons_of_neg (by simp), append_nil]

/-! ## Values of one line -/

theorem oneLine_collapse (b : Bool) (t : Text) : OneLine (collapse b t) := by
  induction t generalizing b with
  | nil => exact fun c hc => absurd hc not_mem_nil
  | cons c t ih =>
    rw [collapse]
    split_ifs with hc hb
    · exact ih true
    · intro d hd
      rcases mem_cons.1 hd with rfl | hd
      · rfl
      · exact ih true d hd
    · intro d hd
      rcases mem_cons.1 hd with rfl | hd
      · simpa using hc
      · exact ih false d hd

theorem collapse_eq_self {t : Text} (h : OneLine t) (b : Bool) : collapse b t = t := by
  induction t generalizing b with
  | nil => rfl
  | cons c t ih =>
    rw [collapse, if_neg (by simp [h c mem_cons_self]), ih fun d hd => h d (mem_cons_of_mem _ hd)]

theorem isSpace_of_isNewline {c : Char} (h : isNewline c = true) : isSpace c = true := by
  simp only [isNewline, Bool.or_eq_true, decide_eq_true_eq] at h
  rcases h with rfl | rfl <;> rfl

theorem collapse_append (b : Bool) (s t : Text) :
    ∃ b', collapse b (s ++ t) = collapse b s ++ collapse b' t := by
  induction s generalizing b with
  | nil => exact ⟨b, rfl⟩
  | cons c s ih =>
    rw [cons_append, collapse, collapse]
    split_ifs with hc hb
    · exact ih true
    · obtain ⟨b', hb'⟩ := ih true
      exact ⟨b', congrArg (' ' :: ·) hb'⟩
    · obtain ⟨b', hb'⟩ := ih false
      exact ⟨b', congrArg (c :: ·) hb'⟩

theorem isSpace_collapse {t : Text} (h : ∀ c ∈ t, isSpace c = true) (b : Bool) :
    ∀ c ∈ collapse b t, isSpace c = true := by
  induction t generalizing b with
  | nil => exact h
  | cons c t ih =>
    have htail := ih fun d hd => h d (mem_cons_of_mem _ hd)
    rw [collapse]
    split_ifs
    · exact htail true
    · exact forall_mem_cons.2 ⟨rfl, htail true⟩
    · exact forall_mem_cons.2 ⟨h c mem_cons_self, htail false⟩

/-- Newlines around a text are white space around it. -/
theorem trim_collapse {t : Text} (h : OneLine (trim t)) (b : Bool) :
    trim (collapse b t) = trim t := by
  obtain ⟨pre, post, hpre, hpost, heq⟩ := trim_eq_append t
  obtain ⟨b₁, h₁⟩ := collapse_append b pre (trim t ++ post)
  obtain ⟨b₂, h₂⟩ := collapse_append b₁ (trim t) post
  have hshape : collapse b t = collapse b pre ++ (trim t ++ collapse b₂ post) := by
    conv_lhs => rw [heq]
    rw [h₁, h₂, collapse_eq_self h]
  rw [hshape, trim_trim_append _ (isSpace_collapse hpre b) (isSpace_collapse hpost b₂)]
  conv_rhs => rw [heq, trim_trim_append _ hpre hpost]

theorem mem_collapse {c : Char} (hc : isSpace c = false) (b : Bool) (t : Text) :
    c ∈ collapse b t ↔ c ∈ t := by
  have hspace : c ≠ ' ' := by
    rintro rfl
    cases hc
  induction t generalizing b with
  | nil => rfl
  | cons d t ih =>
    rw [collapse]
    split_ifs with hd hb
    · have hne : c ≠ d := by
        rintro rfl
        rw [isSpace_of_isNewline hd] at hc
        cases hc
      rw [mem_cons, or_iff_right hne]
      exact ih true
    · have hne : c ≠ d := by
        rintro rfl
        rw [isSpace_of_isNewline hd] at hc
        cases hc
      rw [mem_cons, mem_cons, or_iff_right hne, or_iff_right hspace]
      exact ih true
    · rw [mem_cons, mem_cons]
      exact or_congr_right (ih false)

theorem takeWhile_collapse (b : Bool) (t : Text) :
    (collapse b t).takeWhile (· ≠ '>') = collapse b (t.takeWhile (· ≠ '>')) := by
  induction t generalizing b with
  | nil => rfl
  | cons c t ih =>
    by_cases hgt : c = '>'
    · subst hgt
      rfl
    · rw [takeWhile_cons_of_pos (by simpa using hgt), collapse, collapse]
      split_ifs
      · exact ih true
      · rw [takeWhile_cons_of_pos (by decide), ih]
      · rw [takeWhile_cons_of_pos (by simpa using hgt), ih]

theorem head?_collapse (t : Text) : (collapse false t).head? = some '>' ↔ t.head? = some '>' := by
  cases t with
  | nil => rfl
  | cons c t =>
    rw [collapse]
    by_cases hc : isNewline c = true
    · have hne : c ≠ '>' := by
        rintro rfl
        cases hc
      simp [hc, hne]
    · simp [hc]

theorem angleMatch_collapse (b : Bool) (t : Text) :
    angleMatch (collapse b t) = (angleMatch t).map (collapse false) := by
  induction t generalizing b with
  | nil => rfl
  | cons c t ih =>
    rw [collapse]
    by_cases hc : isNewline c = true
    · have hne : c ≠ '<' := by
        rintro rfl
        cases hc
      rw [if_pos hc, angleMatch_cons_ne hne]
      split_ifs
      · exact ih true
      · exact ih true
    · rw [if_neg hc, angleMatch, angleMatch]
      simp only [mem_collapse (c := '>') rfl, takeWhile_collapse, ih, ne_eq, head?_collapse]
      split_ifs <;> rfl

/-- A header's value is read as the text it was made of. -/
theorem angleOf_oneLine {t : Text} (h : OneLine (angleOf t)) : angleOf (oneLine t) = angleOf t := by
  unfold oneLine
  rw [angleOf_trim]
  unfold angleOf at h ⊢
  rw [angleMatch_collapse]
  cases hm : angleMatch t with
  | none =>
    rw [hm, getD_none] at h
    exact trim_collapse h false
  | some a =>
    rw [hm, getD_some] at h
    exact trim_collapse h false

theorem mem_of_mem_trim {t : Text} {c : Char} (h : c ∈ trim t) : c ∈ t := by
  obtain ⟨pre, post, -, -, heq⟩ := trim_eq_append t
  rw [heq]
  exact mem_append_right _ (mem_append_left _ h)

theorem oneLine_oneLine (t : Text) : OneLine (oneLine t) :=
  fun c hc => oneLine_collapse false t c (mem_of_mem_trim hc)

theorem oneLine_joinList {ts : List Text} (h : ∀ t ∈ ts, OneLine t) : OneLine (joinList ts) := by
  induction ts with
  | nil => exact fun c hc => absurd hc not_mem_nil
  | cons t ts ih =>
    have hsep : OneLine (text ", ") := oneLine_of_all (by decide)
    cases ts with
    | nil => exact h t mem_cons_self
    | cons t' ts =>
      exact ((h t mem_cons_self).append hsep).append
        (ih fun x hx => h x (mem_cons_of_mem _ hx))

/-- What the environment adds has no newline. -/
structure Around.Sane (around : Around) : Prop where
  id : OneLine around.id
  boundary : OneLine around.boundary
  date : OneLine around.date
  base64 : ∀ t, OneLine (around.base64 t)

structure FieldOk (x : Text × Text) : Prop where
  key : OneLine x.1
  value : OneLine x.2
  colon : ':' ∉ x.1

theorem fieldOk_text (name : String) {v : Text}
    (h : (text name).all (fun c => !isNewline c && !(c = ':' : Bool)) = true) (hv : OneLine v) :
    FieldOk (text name, v) := by
  have hall := all_eq_true.1 h
  simp only [Bool.and_eq_true, Bool.not_eq_true', decide_eq_false_iff_not] at hall
  exact ⟨fun c hc => (hall c hc).1, hv, fun hmem => (hall _ hmem).2 rfl⟩

theorem oneLine_encodeWord {around : Around} (ha : around.Sane) {v : Text} (hv : OneLine v) :
    OneLine (encodeWord around v) := by
  unfold encodeWord
  split_ifs
  · exact hv
  · exact ((oneLine_of_all (by decide)).append (ha.base64 v)).append (oneLine_of_all (by decide))

theorem fieldOk_header {x : Text × Text} (h : HEADER_NAME x.1 = true) :
    FieldOk (x.1, oneLine x.2) := by
  simp only [HEADER_NAME, Bool.and_eq_true, List.all_eq_true] at h
  have hchar (c : Char) (hc : c ∈ x.1) : c ≠ '\r' ∧ c ≠ '\n' ∧ c ≠ ':' := by
    have hname := h.2 c hc
    refine ⟨?_, ?_, ?_⟩ <;> rintro rfl <;> revert hname <;> decide
  refine ⟨fun c hc => ?_, oneLine_oneLine _, fun hmem => (hchar _ hmem).2.2 rfl⟩
  simp [isNewline, (hchar c hc).1, (hchar c hc).2.1]

theorem headerFields_ok (lib : Library) {around : Around} (ha : around.Sane)
    (input : BuildMessageInput)
    (hd : OneLine input.messageIdDomain) : ∀ x ∈ headerFields lib around input, FieldOk x := by
  have hlist (ts : List Text) : OneLine (joinList (ts.map oneLine)) :=
    oneLine_joinList fun t ht => by
    obtain ⟨v, -, rfl⟩ := mem_map.1 ht
    exact oneLine_oneLine v
  intro x hx
  simp only [headerFields, mem_append] at hx
  rcases hx with ((((hx | hx) | hx) | hx) | hx) | hx
  · simp only [mem_cons, not_mem_nil, or_false] at hx
    rcases hx with rfl | rfl
    · exact fieldOk_text "From" (by decide) (oneLine_oneLine _)
    · exact fieldOk_text "To" (by decide) (hlist _)
  · split_ifs at hx
    · cases hx
    · rw [mem_singleton.1 hx]
      exact fieldOk_text "Cc" (by decide) (hlist _)
  · unfold replyFields at hx
    split at hx
    · cases hx
    · cases hx
    · rw [mem_singleton.1 hx]
      exact fieldOk_text "Reply-To" (by decide) (oneLine_oneLine _)
  · simp only [mem_cons, not_mem_nil, or_false] at hx
    rcases hx with rfl | rfl | rfl | rfl
    · exact fieldOk_text "Subject" (by decide) (oneLine_encodeWord ha (oneLine_oneLine _))
    · exact fieldOk_text "Date" (by decide) ha.date
    · refine fieldOk_text "Message-ID" (by decide) ?_
      exact ((((oneLine_of_all (by decide)).append ha.id).append
        (oneLine_of_all (by decide))).append
        hd).append (oneLine_of_all (by decide))
    · exact fieldOk_text "MIME-Version" (by decide) (oneLine_of_all (by decide))
  · obtain ⟨y, hy, rfl⟩ := mem_map.1 hx
    have hname := (mem_filter.1 hy).2
    rw [Bool.and_eq_true] at hname
    exact fieldOk_header hname.1
  · have hcontent : FieldOk (text "Content-Type", text "text/plain; charset=utf-8") :=
      fieldOk_text "Content-Type" (by decide) (oneLine_of_all (by decide))
    have hencoding : FieldOk (text "Content-Transfer-Encoding", text "quoted-printable") :=
      fieldOk_text "Content-Transfer-Encoding" (by decide) (oneLine_of_all (by decide))
    unfold contentFields at hx
    split at hx
    · simp only [mem_cons, not_mem_nil, or_false] at hx
      rcases hx with rfl | rfl
      · exact hcontent
      · exact hencoding
    · simp only [mem_cons, not_mem_nil, or_false] at hx
      rcases hx with rfl | rfl
      · exact hcontent
      · exact hencoding
    · rw [mem_singleton.1 hx]
      exact fieldOk_text "Content-Type" (by decide)
        (((oneLine_of_all (by decide)).append ha.boundary).append
        (oneLine_of_all (by decide)))

theorem replyFields_names (replyTo : Option Text) : (replyFields replyTo).map Prod.fst =
    if replyTo.getD [] = [] then [] else [text "Reply-To"] := by
  cases replyTo with
  | none => rfl
  | some r => cases r <;> rfl

theorem contentFields_names (around : Around) (html : Option Text) :
    (contentFields around html).map Prod.fst =
        [text "Content-Type", text "Content-Transfer-Encoding"] ∨
      (contentFields around html).map Prod.fst = [text "Content-Type"] := by
  cases html with
  | none => exact .inl rfl
  | some r =>
    cases r with
    | nil => exact .inl rfl
    | cons c r => exact .inr rfl

/-- A message is read back as the header lines it was built of. -/
theorem splitHead_buildMessage (lib : Library) {around : Around} (ha : around.Sane)
    (input : BuildMessageInput) (hd : OneLine input.messageIdDomain) :
    ∃ block body, splitHead (buildMessage lib around input) = some (block, body) ∧
      splitLines block = (headerFields lib around input).map fieldLine := by
  have hok := headerFields_ok lib ha input hd
  have hlines : ∀ l ∈ (headerFields lib around input).map fieldLine, OneLine l ∧ l ≠ [] := by
    intro l hl
    obtain ⟨x, hx, rfl⟩ := mem_map.1 hl
    refine ⟨((hok x hx).key.append (oneLine_of_all (by decide))).append (hok x hx).value, ?_⟩
    simp [fieldLine, text]
  have hne : (headerFields lib around input).map fieldLine ≠ [] := by simp [headerFields]
  exact ⟨_, _, splitHead_joinLines hne hlines _, splitLines_joinLines hne fun l hl =>
    (hlines l hl).1⟩

/-! ## What is accepted -/

theorem EMAIL_RE_char {t : Text} (h : EMAIL_RE t = true) {c : Char} (hc : c ∈ t) :
    isSpace c = false ∧ c ≠ '<' ∧ c ≠ '>' := by
  unfold EMAIL_RE splitAt at h
  split at h
  · next a b heq =>
      split_ifs at heq with hat
      obtain ⟨ha, hb⟩ := Prod.mk.inj (some.inj heq)
      simp only [Bool.and_eq_true, List.all_eq_true] at h
      have hchar (d : Char) (hd : isAddressChar d = true) : isSpace d = false ∧ d ≠ '<' ∧
          d ≠ '>' := by
        simp only [isAddressChar, Bool.and_eq_true, Bool.not_eq_true', decide_eq_true_eq, mem_cons,
          not_or] at hd
        exact ⟨hd.1, hd.2.2.1, hd.2.2.2.1⟩
      have hsplit : c ∈ t.takeWhile (· ≠ '@') ∨ c ∈ t.dropWhile (· ≠ '@') := by
        rw [← mem_append, takeWhile_append_dropWhile]
        exact hc
      rcases hsplit with hc | hc
      · exact hchar c (h.1.1.2 c (ha ▸ hc))
      · cases hdrop : t.dropWhile (· ≠ '@') with
        | nil =>
          rw [hdrop] at hc
          cases hc
        | cons d rest =>
          rw [hdrop] at hc hb
          rcases mem_cons.1 hc with rfl | hc
          · have hd : c = '@' := by
              have hhead := List.head?_dropWhile_not (fun x : Char => decide (x ≠ '@')) t
              rw [hdrop] at hhead
              simpa using hhead
            rw [hd]
            decide
          · exact hchar c (h.1.2 c (hb ▸ hc))
  · cases h

theorem angleOf_of_EMAIL_RE {t : Text} (h : ∀ c ∈ t, isSpace c = false ∧ c ≠ '<' ∧ c ≠ '>') :
    angleOf t = t := by
  have hlt : '<' ∉ t := fun hmem => (h _ hmem).2.1 rfl
  rw [angleOf, angleMatch_none hlt]
  exact trim_eq_self fun c hc => (h c hc).1

/-- White space and brackets have no lower case and are none's. -/
def Library.Sane (lib : Library) : Prop :=
  ∀ t c, isSpace c = true ∨ c = '<' ∨ c = '>' → (c ∈ lib.toLowerCase t ↔ c ∈ t)

theorem bareAddress_char {lib : Library} (hl : lib.Sane) {t : Text}
    (h : EMAIL_RE (bareAddress lib t) = true) :
    ∀ c ∈ angleOf t, isSpace c = false ∧ c ≠ '<' ∧ c ≠ '>' := by
  intro c hc
  by_contra hbad
  have hspecial : isSpace c = true ∨ c = '<' ∨ c = '>' := by
    by_contra hnone
    simp only [not_or, Bool.not_eq_true] at hnone
    exact hbad ⟨hnone.1, hnone.2.1, hnone.2.2⟩
  exact hbad (EMAIL_RE_char h ((hl _ c hspecial).2 hc))

/-- The domain of an address without white space has none. -/
theorem oneLine_addressDomain {lib : Library} (hl : lib.Sane) {t d : Text}
    (h : ∀ c ∈ angleOf t, isSpace c = false) (hd : addressDomain lib t = some d) : OneLine d := by
  intro c hc
  by_contra hnew
  rw [Bool.not_eq_false] at hnew
  have hspace := isSpace_of_isNewline hnew
  unfold addressDomain at hd
  simp only at hd
  split_ifs at hd
  rw [← some.inj hd, lc] at hc
  have hlow := mem_reverse.1 ((dropWhile_suffix _).subset (mem_reverse.1 hc))
  have htrim := mem_of_mem_trim ((hl _ c (.inl hspace)).1 hlow)
  have hmem := mem_reverse.1 (( takeWhile_prefix _).subset (mem_reverse.1 htrim))
  rw [h c hmem] at hspace
  cases hspace

/-- What `sendAsCredential` has checked. -/
structure Accepted (lib : Library) (around : Around) (rows : OrgRows) (cred : CredentialRow)
    (input : SendInput) (sub : Submission) (d : Text) : Prop where
  domain : addressDomain lib input.from = some d
  sender : EMAIL_RE (bareAddress lib input.from) = true
  verified : (d, true) ∈ rows.domains
  allowed : cred.domains = [] ∨ d ∈ cred.domains
  from_ : sub.from = input.from
  built : ∃ recipients cc bcc subject content html,
    normaliseList lib input.to "to" = .ok recipients ∧ normaliseList lib input.cc "cc" = .ok cc ∧
    normaliseList lib input.bcc "bcc" = .ok bcc ∧
    sub.to = ((recipients ++ cc ++ bcc).map (bareAddress lib)).filter (· ∉ rows.suppressions) ∧
    sub.raw = buildMessage lib around
      ⟨input.from, recipients, cc, input.replyTo, subject, content, html, input.headers, d⟩

theorem accepted {lib : Library} {around : Around} {render : Render} {rows : OrgRows}
    {cred : CredentialRow}
    {input : SendInput} {sub : Submission}
    (h : sendAsCredential lib around render rows cred input = .ok sub) :
    ∃ d, Accepted lib around rows cred input sub d := by
  obtain ⟨-, h⟩ := throwIf_ok h
  obtain ⟨-, h⟩ := throwIf_ok h
  obtain ⟨hfrom, h⟩ := throwIf_ok h
  obtain ⟨hverified, h⟩ := throwIf_ok h
  obtain ⟨hallowed, h⟩ := throwIf_ok h
  obtain ⟨recipients, hto, h⟩ := bind_ok h
  obtain ⟨cc, hcc, h⟩ := bind_ok h
  obtain ⟨bcc, hbcc, h⟩ := bind_ok h
  obtain ⟨-, h⟩ := throwIf_ok h
  obtain ⟨-, h⟩ := throwIf_ok h
  obtain ⟨⟨subject, content, html⟩, -, h⟩ := bind_ok h
  obtain ⟨-, h⟩ := throwIf_ok h
  obtain ⟨-, h⟩ := throwIf_ok h
  obtain ⟨-, h⟩ := throwIf_ok h
  obtain ⟨-, h⟩ := throwIf_ok h
  obtain rfl := Except.ok.inj h
  simp only [Bool.or_eq_false_iff, decide_eq_false_iff_not, Bool.not_eq_false'] at hfrom hverified
  cases hd : addressDomain lib input.from with
  | none => simp [hd] at hfrom
  | some d =>
    rw [hd, getD_some] at hfrom hverified hallowed
    refine ⟨d, hd, hfrom.2, not_not.1 hverified, ?_, rfl, recipients, cc, bcc, subject,
      content, html,
      hto, hcc, hbcc, ?_, ?_⟩
    · by_contra hno
      rw [not_or] at hno
      simp [hno.1, hno.2] at hallowed
    · simp only [contains_eq_mem, decide_not]
    · rw [getD_some]

/-! ## What is sent -/

/-- The names of the header lines that a request asks for. -/
def IntendedNames (lib : Library) (input : SendInput) (names : List Text) : Prop :=
  ∃ content, (content = [text "Content-Type", text "Content-Transfer-Encoding"] ∨
      content = [text "Content-Type"]) ∧
    names = [text "From", text "To"] ++
      (if (input.cc.map trim).filter (· ≠ []) = [] then [] else [text "Cc"]) ++
      (if input.replyTo.getD [] = [] then [] else [text "Reply-To"]) ++
      [text "Subject", text "Date", text "Message-ID", text "MIME-Version"] ++
      (input.headers.filter fun x =>
        HEADER_NAME x.1 && !RESERVED_HEADERS.contains (lib.toLowerCase x.1)).map Prod.fst ++
      content

/-- What holds of everything that is accepted. -/
structure Guarded (lib : Library) (rows : OrgRows) (cred : CredentialRow) (input : SendInput)
    (sub : Submission) (d : Text) : Prop where
  verified : (d, true) ∈ rows.domains
  allowed : cred.domains = [] ∨ d ∈ cred.domains
  mailFrom : addressDomain lib sub.mailFrom = some d
  header : ∃ block body, splitHead sub.raw = some (block, body) ∧
    IntendedNames lib input ((splitLines block).map lineName)
  suppressed : ∀ a ∈ sub.rcptTo, a ∉ rows.suppressions

/-- Sent as the domain: its mailboxes are in `From`, and the recipients are those of the request
that are not suppressed. -/
structure SentAs (lib : Library) (rows : OrgRows) (cred : CredentialRow) (input : SendInput)
    (sub : Submission) (d : Text) : Prop extends Guarded lib rows cred input sub d where
  sender : ∃ block body value, splitHead sub.raw = some (block, body) ∧
    (splitLines block).head? = some (text "From: " ++ value) ∧
    ∀ m ∈ mailboxes value, addressDomain lib m = some d
  once : sub.rcptTo.Nodup
  rcptTo : ∀ a, a ∈ sub.rcptTo ↔
    (∃ t ∈ input.to ++ input.cc ++ input.bcc, ∃ m ∈ mailboxes (trim t), lib.toLowerCase m = a) ∧
      a ∉ rows.suppressions

/-- No two recipients that are not suppressed have the same bare address. -/
def Apart (lib : Library) (rows : OrgRows) (input : SendInput) : Prop :=
  (((((input.to ++ input.cc ++ input.bcc).map trim).filter (· ≠ [])).map
    (bareAddress lib)).filter (!rows.suppressions.contains ·)).Nodup

/-- The sender and each recipient are one mailbox, and no two recipients that are not suppressed are
the same. -/
structure Singles (lib : Library) (rows : OrgRows) (input : SendInput) : Prop where
  sender : ∃ a, Single (oneLine input.from) a
  recipients : ∀ t ∈ input.to ++ input.cc ++ input.bcc, trim t ≠ [] → ∃ a, Single (trim t) a
  apart : Apart lib rows input

section

variable {lib : Library} {around : Around} {rows : OrgRows} {cred : CredentialRow}
    {input : SendInput}
  {sub : Submission} {d : Text}

theorem normaliseList_ok {v out : List Text} {what : String}
    (h : normaliseList lib v what = .ok out) :
    out = (v.map trim).filter (· ≠ []) ∧ ∀ a ∈ out, EMAIL_RE (bareAddress lib a) = true := by
  unfold normaliseList at h
  simp only at h
  split at h
  · cases h
  · next hnone =>
      obtain rfl := Except.ok.inj h
      refine ⟨rfl, fun a ha => ?_⟩
      have hcheck := List.find?_eq_none.1 hnone a ha
      simpa using hcheck

theorem Accepted.to_eq (h : Accepted lib around rows cred input sub d) :
    sub.to = (((((input.to ++ input.cc ++ input.bcc).map trim).filter (· ≠ [])).map
      (bareAddress lib)).filter (· ∉ rows.suppressions)) ∧
      ∀ a ∈ sub.to, EMAIL_RE a = true := by
  obtain ⟨recipients, cc, bcc, subject, content, html, hto, hcc, hbcc, hsub, -⟩ := h.built
  obtain ⟨rfl, hto⟩ := normaliseList_ok hto
  obtain ⟨rfl, hcc⟩ := normaliseList_ok hcc
  obtain ⟨rfl, hbcc⟩ := normaliseList_ok hbcc
  rw [hsub]
  refine ⟨by simp only [map_append, filter_append], fun a ha => ?_⟩
  obtain ⟨t, ht, rfl⟩ := mem_map.1 (mem_filter.1 ha).1
  rcases mem_append.1 ht with ht | ht
  · rcases mem_append.1 ht with ht | ht
    · exact hto t ht
    · exact hcc t ht
  · exact hbcc t ht

/-- The envelope is sent as it was checked. -/
theorem Accepted.rcptTo_eq (h : Accepted lib around rows cred input sub d) :
    sub.rcptTo = sub.to := by
  conv_rhs => rw [← map_id sub.to]
  exact map_congr_left fun a ha => angleOf_of_EMAIL_RE fun c hc => EMAIL_RE_char (h.to_eq.2 a ha) hc

theorem Accepted.header (h : Accepted lib around rows cred input sub d) (hl : lib.Sane)
    (ha : around.Sane) :
    ∃ block body, splitHead sub.raw = some (block, body) ∧
      IntendedNames lib input ((splitLines block).map lineName) ∧
      (splitLines block).head? = some (text "From: " ++ oneLine input.from) := by
  have hchar := bareAddress_char hl h.sender
  have hd := oneLine_addressDomain hl (fun c hc => (hchar c hc).1) h.domain
  obtain ⟨recipients, cc, bcc, subject, content, html, -, hcc, -, -, hraw⟩ := h.built
  obtain ⟨block, body, hsplit, hlines⟩ := splitHead_buildMessage lib ha
    ⟨input.from, recipients, cc, input.replyTo, subject, content, html, input.headers, d⟩ hd
  have hok := headerFields_ok lib ha
    ⟨input.from, recipients, cc, input.replyTo, subject, content, html, input.headers, d⟩ hd
  refine ⟨block, body, hraw ▸ hsplit, ?_, ?_⟩
  · have hnames : (splitLines block).map lineName = (headerFields lib around
        ⟨input.from, recipients, cc, input.replyTo, subject, content, html, input.headers,
          d⟩).map Prod.fst := by
      rw [hlines, List.map_map]
      exact List.map_congr_left fun x hx => lineName_fieldLine (hok x hx).colon
    rw [hnames]
    unfold IntendedNames
    rw [← (normaliseList_ok hcc).1]
    have hcopies : (if cc = [] then [] else [(text "Cc", joinList (cc.map oneLine))]).map Prod.fst =
        if cc = [] then [] else [text "Cc"] := by split_ifs <;> rfl
    have hcustom (l : List (Text × Text)) : (l.map fun x => (x.1, oneLine x.2)).map Prod.fst =
        l.map Prod.fst := by
      rw [List.map_map]
      rfl
    refine ⟨_, contentFields_names around html, ?_⟩
    simp only [headerFields, map_append, map_cons, map_nil, replyFields_names, hcopies, hcustom]
  · rw [hlines]
    rfl

theorem Accepted.guarded (h : Accepted lib around rows cred input sub d) (hl : lib.Sane)
    (ha : around.Sane) :
    Guarded lib rows cred input sub d where
  __ := h
  mailFrom := by
    have hangle := angleOf_of_EMAIL_RE (bareAddress_char hl h.sender)
    have hdomain := h.domain
    unfold Submission.mailFrom
    rw [h.from_]
    unfold addressDomain at hdomain ⊢
    rw [hangle]
    exact hdomain
  header := by
    obtain ⟨block, body, hsplit, hnames, -⟩ := h.header hl ha
    exact ⟨block, body, hsplit, hnames⟩
  suppressed a hmem := by
    rw [h.rcptTo_eq, h.to_eq.1] at hmem
    simpa using (mem_filter.1 hmem).2

end

/-! ## A list of senders -/

/-- A library for texts in lower case. -/
def lowerLibrary : Library := ⟨id, id, id⟩

/-- A message in ASCII. -/
def plainAround : Around :=
  ⟨text "0a", text "0b", text "Thu, 01 Jan 1970 00:00:00 +0000", fun _ => [],
    fun content _ => content.getD []⟩

def orgRows : OrgRows := ⟨true, [(text "example.org", true)], [], [text "gone@example.com"]⟩

def hello (sender : String) : SendInput where
  «from» := text sender
  «to» := [text "bob@example.com", text "gone@example.com"]
  cc := []
  bcc := []
  replyTo := none
  subject := some (text "hello")
  content := some (text "hello")
  html := none
  template := none
  headers := []

theorem sane_lowerLibrary : lowerLibrary.Sane := fun _ _ _ => Iff.rfl

theorem sane_plainAround : plainAround.Sane where
  id := oneLine_of_all (by decide)
  boundary := oneLine_of_all (by decide)
  date := oneLine_of_all (by decide)
  base64 _ := fun c hc => absurd hc not_mem_nil

theorem singles_hello : Singles lowerLibrary orgRows (hello "ann <ann@example.org>") where
  sender := by
    have hshape : oneLine (hello "ann <ann@example.org>").from =
        text "ann " ++ '<' :: (text "ann@example.org" ++ '>' :: []) := by decide
    rw [hshape]
    exact ⟨_, .named (by decide) (by decide) (by decide) (by decide)⟩
  recipients t ht _ := by
    simp only [hello, append_nil, mem_cons, not_mem_nil, or_false] at ht
    rcases ht with rfl | rfl
    · exact ⟨_, .bare (by decide) (by decide)⟩
    · exact ⟨_, .bare (by decide) (by decide)⟩
  apart := by
    unfold Apart
    decide

end Mail
