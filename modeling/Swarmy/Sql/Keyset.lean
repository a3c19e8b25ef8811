import Mathlib.Algebra.Order.Group.Nat
import Mathlib.Data.List.Basic
import Mathlib.Data.List.Nodup
import Mathlib.Data.List.Perm.Subperm
import Mathlib.Tactic.Common

/-!
# Pages by a key

Rows are listed newest first in pages, each behind the time of the last row of the page before.
Times are not unique, and rows of one time come in any order.  `listed_iff`: the pages are the
rows exactly where no page ends between rows of one time.
-/

namespace Sql

open List Option Nat

variable {α : Type} (time : α → Nat) (limit : Nat)

/-- What a query for the newest rows may answer. -/
structure Newest (rows page : List α) : Prop where
  nodup : page.Nodup
  mem : ∀ x ∈ page, x ∈ rows
  sorted : page.Pairwise fun x y => time y ≤ time x
  length : page.length = min limit rows.length
  rest : ∀ x ∈ rows, x ∉ page → ∀ y ∈ page, time x ≤ time y

instance [DecidableEq α] (rows page : List α) : Decidable (Newest time limit rows page) :=
  decidable_of_iff (page.Nodup ∧ (∀ x ∈ page, x ∈ rows) ∧
    (page.Pairwise fun x y => time y ≤ time x) ∧
      page.length = min limit rows.length ∧ ∀ x ∈ rows, x ∉ page → ∀ y ∈ page, time x ≤ time y)
    ⟨fun ⟨h₁, h₂, h₃, h₄, h₅⟩ => ⟨h₁, h₂, h₃, h₄, h₅⟩, fun ⟨h₁, h₂, h₃, h₄, h₅⟩ =>
      ⟨h₁, h₂, h₃, h₄, h₅⟩⟩

/-- The rows behind a cursor. -/
def behind (rows : List α) : Option Nat → List α
  | none => rows
  | some t => rows.filter (time · < t)

/-- The pages from a cursor on: a page that is full is followed by the page behind it. -/
inductive Pages (rows : List α) : Option Nat → List (List α) → Prop
  | last {cursor : Option Nat} {page : List α} :
      Newest time limit (behind time rows cursor) page → page.length < limit →
        Pages rows cursor [page]
  | more {cursor : Option Nat} {page : List α} {pages : List (List α)} {x : α} :
      Newest time limit (behind time rows cursor) (page ++ [x]) → (page ++ [x]).length = limit →
      Pages rows (some (time x)) pages → Pages rows cursor ((page ++ [x]) :: pages)

/-- The rows, each once and the newest first. -/
structure Listed (rows found : List α) : Prop where
  perm : found.Perm rows
  sorted : found.Pairwise fun x y => time y ≤ time x

/-- No multiple of the limit falls between rows of one time. -/
def Untied (rows : List α) : Prop :=
  ∀ t k, rows.countP (t < time ·) < k * limit → ¬ k * limit < rows.countP (t ≤ time ·)

variable {time limit} {rows page : List α}

theorem Newest.last_le {x : α} (h : Newest time limit rows (page ++ [x])) :
    ∀ y ∈ page ++ [x], time x ≤ time y := by
  intro y hy
  rcases mem_append.1 hy with hy | hy
  · exact (pairwise_append.1 h.sorted).2.2 y hy x (mem_singleton_self x)
  · rw [mem_singleton.1 hy]

theorem behind_behind (cursor : Option Nat) {x : α} (h : x ∈ behind time rows cursor) :
    behind time rows (some (time x)) = (behind time rows cursor).filter (time · < time x) := by
  cases cursor with
  | none => rfl
  | some t =>
    have ht : time x < t := by simpa [behind] using (mem_filter.1 h).2
    show rows.filter (time · < time x) = (rows.filter (time · < t)).filter (time · < time x)
    rw [List.filter_filter]
    refine List.filter_congr fun y _ => ?_
    rw [Bool.eq_iff_iff, Bool.and_eq_true, decide_eq_true_eq, decide_eq_true_eq]
    exact ⟨fun hy => ⟨hy, hy.trans ht⟩, And.left⟩

/-- A page that is not full is all there is. -/
theorem Newest.all (h : Newest time limit rows page) (hlt : page.length < limit) :
    page.Perm rows := by
  have hlen : page.length = rows.length := by
    have hmin := h.length
    omega
  exact (List.Nodup.subperm h.nodup h.mem).perm_of_length_le hlen.ge

/-- What pages list is behind the cursor. -/
theorem Pages.mem {cursor : Option Nat} {pages : List (List α)}
    (h : Pages time limit rows cursor pages) :
    ∀ x ∈ pages.flatten, x ∈ behind time rows cursor := by
  induction h with
  | last hpage _ =>
    intro x hx
    rw [flatten_cons, flatten_nil, append_nil] at hx
    exact hpage.mem x hx
  | @more cursor page pages y hpage _ _ ih =>
    intro x hx
    rw [flatten_cons] at hx
    rcases mem_append.1 hx with hx | hx
    · exact hpage.mem x hx
    · have hmem := ih x hx
      rw [behind_behind cursor (hpage.mem y (mem_append_right _ (mem_singleton_self y)))] at hmem
      exact (mem_filter.1 hmem).1

theorem untied_of_lt (h : rows.length < limit) : Untied time limit rows := by
  intro t k hlt hgt
  have hle := countP_le_length (p := (t ≤ time ·)) (l := rows)
  rcases Nat.eq_zero_or_pos k with rfl | hk
  · omega
  · have hmul : limit ≤ k * limit := Nat.le_mul_of_pos_left _ hk
    omega

section

variable {x : α} (hpage : Newest time limit rows (page ++ [x]))
    (hfull : (page ++ [x]).length = limit)
  (hrows : rows.Nodup)

include hpage hrows

/-- Of the rows that are not on the page, those of the last time stay behind. -/
theorem perm_of_untied (hnone : ∀ y ∈ rows, y ∉ page ++ [x] → time y ≠ time x) :
    rows.Perm ((page ++ [x]) ++ rows.filter (time · < time x)) := by
  have hdisjoint : ((page ++ [x]) ++ rows.filter (time · < time x)).Nodup := by
    refine nodup_append.2 ⟨hpage.nodup, hrows.filter _, ?_⟩
    rintro y hy z hz rfl
    have hlt := (mem_filter.1 hz).2
    rw [decide_eq_true_eq] at hlt
    exact absurd (hpage.last_le y hy) (not_le.2 hlt)
  refine (perm_ext_iff_of_nodup hrows hdisjoint).2 fun y => ?_
  rw [mem_append, mem_filter, decide_eq_true_eq]
  constructor
  · intro hy
    by_cases hmem : y ∈ page ++ [x]
    · exact .inl hmem
    · have hle := hpage.rest y hy hmem x (mem_append_right _ (mem_singleton_self x))
      exact .inr ⟨hy, lt_of_le_of_ne hle (hnone y hy hmem)⟩
  · rintro (hy | hy)
    · exact hpage.mem y hy
    · exact hy.1

include hfull

theorem untied_iff (hnone : ∀ y ∈ rows, y ∉ page ++ [x] → time y ≠ time x) :
    Untied time limit rows ↔ Untied time limit (rows.filter (time · < time x)) := by
  have hperm := perm_of_untied hpage hrows hnone
  have hcount (p : α → Bool) : rows.countP p =
      (page ++ [x]).countP p + (rows.filter (time · < time x)).countP p := by
    rw [hperm.countP_eq, countP_append]
  have hnewer {t : Nat} (ht : t < time x) : (page ++ [x]).countP (t < time ·) = limit ∧
      (page ++ [x]).countP (t ≤ time ·) = limit := by
    refine ⟨hfull ▸ countP_eq_length.2 fun y hy => ?_, hfull ▸ countP_eq_length.2 fun y hy => ?_⟩
    · exact decide_eq_true (ht.trans_le (hpage.last_le y hy))
    · exact decide_eq_true (ht.le.trans (hpage.last_le y hy))
  have holder {t : Nat} (ht : time x ≤ t) :
      (rows.filter (time · < time x)).countP (t ≤ time ·) = 0 := by
    rw [countP_eq_zero]
    intro y hy hle
    have hlt := (mem_filter.1 hy).2
    rw [decide_eq_true_eq] at hlt hle
    exact absurd (ht.trans hle) (not_le.2 hlt)
  constructor
  · intro hu t k hlt hgt
    rcases lt_or_ge t (time x) with ht | ht
    · refine hu t (k + 1) ?_ ?_
      · rw [hcount, (hnewer ht).1, succ_mul]
        omega
      · rw [hcount, (hnewer ht).2, succ_mul]
        omega
    · rw [holder ht] at hgt
      omega
  · intro hu t k hlt hgt
    rcases lt_or_ge t (time x) with ht | ht
    · rw [hcount, (hnewer ht).1] at hlt
      rw [hcount, (hnewer ht).2] at hgt
      cases k with
      | zero => omega
      | succ k =>
        rw [succ_mul] at hlt hgt
        exact hu t k (by omega) (by omega)
    · have hle := countP_le_length (p := (t ≤ time ·)) (l := page ++ [x])
      rw [hcount, holder ht] at hgt
      rcases Nat.eq_zero_or_pos k with rfl | hk
      · omega
      · have hmul : limit ≤ k * limit := Nat.le_mul_of_pos_left _ hk
        omega

/-- A row of the last time that is not on the page ties the page with the next. -/
theorem not_untied {y : α} (hy : y ∈ rows) (hmem : y ∉ page ++ [x]) (htime : time y = time x) :
    ¬ Untied time limit rows := by
  intro hu
  have hx : x ∈ page ++ [x] := mem_append_right _ (mem_singleton_self x)
  refine hu (time x) 1 ?_ ?_
  · have hsub : (rows.filter (time x < time ·)).Subperm (page.filter (time x < time ·)) := by
      refine List.Nodup.subperm (hrows.filter _) fun z hz => ?_
      obtain ⟨hz, hlt⟩ := mem_filter.1 hz
      refine mem_filter.2 ⟨?_, hlt⟩
      rw [decide_eq_true_eq] at hlt
      by_contra hno
      have hnot : z ∉ page ++ [x] := by
        rw [mem_append, not_or, mem_singleton]
        refine ⟨hno, ?_⟩
        rintro rfl
        exact lt_irrefl _ hlt
      exact absurd (hpage.rest z hz hnot x hx) (not_le.2 hlt)
    have hle := hsub.length_le
    rw [← countP_eq_length_filter, ← countP_eq_length_filter] at hle
    have hlen := countP_le_length (p := (time x < time ·)) (l := page)
    rw [length_append, length_singleton] at hfull
    omega
  · have hsub : (y :: (page ++ [x])).Subperm (rows.filter (time x ≤ time ·)) := by
      refine List.Nodup.subperm (nodup_cons.2 ⟨hmem, hpage.nodup⟩) fun z hz => ?_
      rcases mem_cons.1 hz with rfl | hz
      · exact mem_filter.2 ⟨hy, decide_eq_true htime.ge⟩
      · exact mem_filter.2 ⟨hpage.mem z hz, decide_eq_true (hpage.last_le z hz)⟩
    have hle := hsub.length_le
    rw [← countP_eq_length_filter, length_cons, hfull] at hle
    omega

end

theorem nodup_behind (time : α → Nat) (hrows : rows.Nodup) (cursor : Option Nat) :
    (behind time rows cursor).Nodup := by
  cases cursor with
  | none => exact hrows
  | some t => exact hrows.filter _

theorem listed_iff_behind {cursor : Option Nat} {pages : List (List α)} (hrows : rows.Nodup)
    (h : Pages time limit rows cursor pages) :
    Listed time (behind time rows cursor) pages.flatten ↔ Untied time limit
      (behind time rows cursor) := by
  induction h with
  | @last cursor page hpage hlt =>
    have hall := hpage.all hlt
    have hlen : (behind time rows cursor).length < limit := hall.length_eq ▸ hlt
    refine iff_of_true ⟨?_, ?_⟩ (untied_of_lt hlen)
    · simpa using hall
    · simpa using hpage.sorted
  | @more cursor page pages x hpage hfull hrest ih =>
    have hx := hpage.mem x (mem_append_right _ (mem_singleton_self x))
    have hnodup := nodup_behind time hrows cursor
    rw [behind_behind cursor hx] at ih
    rw [flatten_cons]
    by_cases hnone : ∀ y ∈ behind time rows cursor, y ∉ page ++ [x] → time y ≠ time x
    · have hperm := perm_of_untied hpage hnodup hnone
      rw [untied_iff hpage hfull hnodup hnone, ← ih]
      constructor
      · intro hl
        exact ⟨(perm_append_left_iff _).1 (hl.perm.trans hperm), (pairwise_append.1 hl.sorted).2.1⟩
      · intro hl
        refine ⟨((perm_append_left_iff _).2 hl.perm).trans hperm.symm,
          pairwise_append.2 ⟨hpage.sorted, hl.sorted, fun y hy z hz => ?_⟩⟩
        have hlt := (mem_filter.1 (hl.perm.subset hz)).2
        rw [decide_eq_true_eq] at hlt
        exact hlt.le.trans (hpage.last_le y hy)
    · simp only [not_forall, not_not] at hnone
      obtain ⟨y, hy, hmem, htime⟩ := hnone
      refine iff_of_false (fun hl => ?_) (not_untied hpage hfull hnodup hy hmem htime)
      rcases mem_append.1 (hl.perm.symm.subset hy) with hin | hin
      · exact hmem hin
      · have hbehind := hrest.mem y hin
        have hlt := (mem_filter.1 hbehind).2
        rw [decide_eq_true_eq, htime] at hlt
        exact lt_irrefl _ hlt

/-- The pages list the rows exactly where none ends between rows of one time. -/
theorem listed_iff {pages : List (List α)} (hrows : rows.Nodup)
    (h : Pages time limit rows none pages) :
    Listed time rows pages.flatten ↔ Untied time limit rows :=
  listed_iff_behind hrows h

end Sql

/-!
## String literals in a query

How a text of SQL is read up to its string literals and comments, and texts that are put together
from code, literals and comments.  `tokens_sqlText`: such a text is read as the literals it was
made of, whatever is in them.
-/

namespace Sql

/-- A character of the code, or a string. -/
inductive Token where
  | char (c : Char)
  | str (s : List Char)

inductive LexMode where
  | code
  | quoted (read : List Char)
  /-- Behind a backslash. -/
  | escaped (read : List Char)
  | comment

/-- The tokens of a text; none when a literal is not closed, or has an escape that stands for
another character. -/
def tokens : LexMode → List Char → Option (List Token)
  | .code, [] => some []
  | .code, c :: cs =>
    if c = '\'' then tokens (.quoted []) cs
    else if c = '"' ∨ c = '\x60' then none
    else if c = '-' ∧ cs.head? = some '-' then tokens .comment cs
    else (tokens .code cs).map (.char c :: ·)
  | .quoted _, [] => none
  | .quoted read, c :: cs =>
    if c = '\'' then
      -- two quotes in a literal are one
      if cs.head? = some '\'' then tokens (.escaped read) cs
      else (tokens .code cs).map (.str read :: ·)
    else if c = '\\' then tokens (.escaped read) cs
    else tokens (.quoted (read ++ [c])) cs
  | .escaped _, [] => none
  | .escaped read, c :: cs =>
    if c = '\\' ∨ c = '\'' then tokens (.quoted (read ++ [c])) cs else none
  | .comment, [] => some []
  | .comment, c :: cs =>
    if c = '\n' then (tokens .code cs).map (.char c :: ·) else tokens .comment cs

/-- A literal with its quotes and backslashes escaped. -/
def lit (s : List Char) : List Char :=
  '\'' :: s.flatMap (fun c =>
    if c = '\\' then ['\\', '\\'] else if c = '\'' then ['\\', '\''] else [c]) ++ ['\'']

theorem tokens_quoted (s read : List Char) {rest : List Char} (h : rest.head? ≠ some '\'') :
    tokens (.quoted read)
      (s.flatMap (fun c =>
        if c = '\\' then ['\\', '\\'] else if c = '\'' then ['\\', '\''] else [c]) ++ '\'' :: rest) =
      (tokens .code rest).map (.str (read ++ s) :: ·) := by
  induction s generalizing read with
  | nil => rw [List.flatMap_nil, List.nil_append, tokens, if_pos rfl, if_neg h, List.append_nil]
  | cons c s ih =>
    have happ : read ++ c :: s = (read ++ [c]) ++ s := by simp
    rw [List.flatMap_cons, happ, ← ih]
    by_cases hb : c = '\\'
    · rw [if_pos hb, hb]
      simp [tokens]
    · rw [if_neg hb]
      by_cases hq : c = '\''
      · rw [if_pos hq, hq]
        simp [tokens]
      · rw [if_neg hq, List.cons_append, List.nil_append, List.cons_append, tokens,
          if_neg hq, if_neg hb]

theorem tokens_lit (s : List Char) {rest : List Char} (h : rest.head? ≠ some '\'') :
    tokens .code (lit s ++ rest) = (tokens .code rest).map (.str s :: ·) := by
  have hshape : lit s ++ rest = '\'' :: (s.flatMap (fun c => if c = '\\' then ['\\', '\\'] else
      if c = '\'' then ['\\', '\''] else [c]) ++ '\'' :: rest) := by
    simp [lit]
  rw [hshape, tokens, if_pos rfl, tokens_quoted s [] h, List.nil_append]

/-- Code without a quote or a comment, that no comment can begin at the end of. -/
def isCode : List Char → Bool
  | [] => true
  | c :: cs => !(c == '\'' || c == '"' || c == '\x60') &&
    !(c == '-' && (cs.isEmpty || cs.head? == some '-')) &&
      isCode cs

theorem isCode_cons {c : Char} {cs : List Char} : isCode (c :: cs) = true ↔
    c ∉ ['\'', '"', '\x60'] ∧ ¬ (c = '-' ∧ (cs = [] ∨ cs.head? = some '-')) ∧ isCode cs = true := by
  simp only [isCode, Bool.and_eq_true, Bool.not_eq_true', Bool.or_eq_false_iff,
    Bool.and_eq_false_iff,
    beq_eq_false_iff_ne, List.isEmpty_eq_false_iff, List.mem_cons, List.not_mem_nil, or_false,
      not_or, not_and]
  tauto

/-- The check of a literal of the source, by its characters. -/
theorem isCode_ofList {l : List Char} (h : isCode l = true) :
    isCode (String.ofList l).toList = true := by
  rw [String.toList_ofList]
  exact h

theorem tokens_code {t : List Char} (h : isCode t = true) (rest : List Char) :
    tokens .code (t ++ rest) = (tokens .code rest).map (t.map .char ++ ·) := by
  induction t with
  | nil => simp
  | cons c t ih =>
    obtain ⟨hquote, hdash, ht⟩ := isCode_cons.1 h
    simp only [List.mem_cons, List.not_mem_nil, or_false, not_or] at hquote
    obtain ⟨h₁, h₂, h₃⟩ := hquote
    have hdash : ¬ (c = '-' ∧ (t ++ rest).head? = some '-') := by
      rintro ⟨hc, hhead⟩
      cases t with
      | nil => exact hdash ⟨hc, .inl rfl⟩
      | cons d t => exact hdash ⟨hc, .inr hhead⟩
    rw [List.cons_append, tokens, if_neg h₁, if_neg (by tauto), if_neg hdash, ih ht, Option.map_map]
    rfl

/-! ## Texts in pieces -/

inductive Piece where
  | code (t : List Char)
  | lit (s : List Char)
  | comment (t : List Char)

def Piece.text : Piece → List Char
  | .code t => t
  | .lit s => Sql.lit s
  | .comment t => '-' :: '-' :: t ++ ['\n']

def Piece.tokens : Piece → List Token
  | .code t => t.map .char
  | .lit s => [.str s]
  | .comment _ => [.char '\n']

def sqlText (ps : List Piece) : List Char := ps.flatMap Piece.text

/-- The pieces do not run into each other: code follows a literal. -/
def Fits : List Piece → Prop
  | [] => True
  | .code t :: ps => isCode t = true ∧ Fits ps
  | .comment t :: ps => '\n' ∉ t ∧ Fits ps
  | .lit _ :: ps => (∀ p ∈ ps.head?, ∃ c t, p = .code (c :: t)) ∧ Fits ps

theorem tokens_comment {t : List Char} (h : '\n' ∉ t) (rest : List Char) :
    tokens .comment (t ++ '\n' :: rest) = (tokens .code rest).map (.char '\n' :: ·) := by
  induction t with
  | nil => rw [List.nil_append, tokens, if_pos rfl]
  | cons c t ih =>
    obtain ⟨hc, ht⟩ := List.ne_and_not_mem_of_not_mem_cons h
    rw [List.cons_append, tokens, if_neg hc.symm, ih ht]

/-- A text is read as its pieces. -/
theorem tokens_sqlText {ps : List Piece} (h : Fits ps) :
    tokens .code (sqlText ps) = some (ps.flatMap Piece.tokens) := by
  induction ps with
  | nil => rfl
  | cons p ps ih =>
    unfold sqlText at ih ⊢
    rw [List.flatMap_cons, List.flatMap_cons]
    cases p with
    | code t =>
      rw [Piece.text, tokens_code h.1, ih h.2]
      rfl
    | lit s =>
      have hhead : (ps.flatMap Piece.text).head? ≠ some '\'' := by
        cases ps with
        | nil => simp
        | cons p ps =>
          obtain ⟨c, t, rfl⟩ := h.1 p rfl
          obtain ⟨hquote, -⟩ := isCode_cons.1 h.2.1
          intro heq
          exact hquote (Option.some.inj heq ▸ List.mem_cons_self)
      rw [Piece.text, tokens_lit s hhead, ih h.2]
      rfl
    | comment t =>
      have hshape : Piece.text (.comment t) ++ ps.flatMap Piece.text =
          '-' :: ('-' :: t ++ '\n' :: ps.flatMap Piece.text) := by
        simp [Piece.text]
      have hno : '\n' ∉ '-' :: t := by simpa using h.1
      rw [hshape, tokens, if_neg (by decide), if_neg (by decide), if_pos ⟨rfl, rfl⟩,
        tokens_comment hno, ih h.2]
      rfl

theorem fits_append {ps qs : List Piece} {t : List Char} (hne : t ≠ []) (hp : Fits ps)
    (hq : Fits (.code t :: qs)) : Fits (ps ++ .code t :: qs) := by
  induction ps with
  | nil => exact hq
  | cons p ps ih =>
    cases p with
    | code u => exact ⟨hp.1, ih hp.2⟩
    | comment u => exact ⟨hp.1, ih hp.2⟩
    | lit s =>
      refine ⟨?_, ih hp.2⟩
      cases ps with
      | nil =>
        obtain ⟨c, t, rfl⟩ := List.exists_cons_of_ne_nil hne
        exact fun p hp => ⟨c, t, (Option.some.inj hp).symm⟩
      | cons p ps => exact hp.1

theorem isCode_of_forall {t : List Char} (h : ∀ c ∈ t, c ∉ ['\'', '"', '\x60', '-']) :
    isCode t = true := by
  induction t with
  | nil => rfl
  | cons c t ih =>
    have hc := h c List.mem_cons_self
    simp only [List.mem_cons, List.not_mem_nil, or_false, not_or] at hc
    refine isCode_cons.2 ⟨by simp [hc.1, hc.2.1, hc.2.2.1], fun hdash => hc.2.2.2 hdash.1, ?_⟩
    exact ih fun d hd => h d (List.mem_cons_of_mem _ hd)

/-- A number in decimal digits. -/
def num (n : Nat) : Piece := .code (Nat.toDigits 10 n)

theorem isCode_of_isDigit {t : List Char} (h : ∀ c ∈ t, c.isDigit = true) : isCode t = true := by
  refine isCode_of_forall fun c hc hmem => ?_
  have hdigit := h c hc
  simp only [List.mem_cons, List.not_mem_nil, or_false] at hmem
  rcases hmem with rfl | rfl | rfl | rfl <;> simp [Char.isDigit] at hdigit

theorem isCode_digits (n : Nat) : isCode (Nat.toDigits 10 n) = true :=
  isCode_of_isDigit fun _ hc => Nat.isDigit_of_mem_toDigits (by decide) (by decide) hc

end Sql
