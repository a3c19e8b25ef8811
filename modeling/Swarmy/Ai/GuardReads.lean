import Swarmy.Ai.UrlGuard

/-!
# Every text of an address is read

The two parsers of the guard read every text that spells an address, and read it as that
address.
-/

namespace Swarmy.Ai

open Net List Option Nat

/-! ## Words between separators -/

section

variable {α β : Type} {sep c : Char} {ws : List (List Char)} {w x y rest s : List Char}

theorem mapM_eq_map {f : α → Option β} {g : α → β} {l : List α} (h : ∀ a ∈ l, f a = some (g a)) :
    l.mapM f = some (l.map g) := by
  induction l with
  | nil => rfl
  | cons a l ih =>
    rw [mapM_cons, h a mem_cons_self, ih fun b hb => h b (mem_cons_of_mem _ hb)]
    rfl

theorem isSome_of_mapM {f : α → Option β} {l : List α} {r : List β} (h : l.mapM f = some r) :
    ∀ a ∈ l, (f a).isSome = true := by
  induction l generalizing r with
  | nil => exact fun a ha => by cases ha
  | cons b l ih =>
    rw [mapM_cons] at h
    obtain ⟨v, hv, hrest⟩ := bind_eq_some_iff.mp h
    obtain ⟨vs, hvs, -⟩ := bind_eq_some_iff.mp hrest
    intro a ha
    rcases mem_cons.mp ha with rfl | ha
    · exact isSome_of_mem hv
    · exact ih hvs a ha

theorem mem_intercalate (hc : c ∈ [sep].intercalate ws) : c = sep ∨ ∃ w ∈ ws, c ∈ w := by
  induction ws with
  | nil => cases hc
  | cons w ws ih =>
    cases ws with
    | nil => exact .inr ⟨w, by simp, by simpa using hc⟩
    | cons w' ws =>
      rw [intercalate_cons_cons, append_assoc, mem_append, mem_append] at hc
      rcases hc with hc | hc | hc
      · exact .inr ⟨w, by simp, hc⟩
      · exact .inl (mem_singleton.mp hc)
      · exact (ih hc).imp id fun ⟨v, hv, hcv⟩ => ⟨v, mem_cons_of_mem _ hv, hcv⟩

theorem intercalate_concat : [sep].intercalate (ws ++ [x]) = ws.flatMap (· ++ [sep]) ++ x := by
  induction ws with
  | nil => simp
  | cons w ws ih =>
    rw [cons_append, intercalate_cons_of_ne_nil (by simp), ih]
    simp

theorem intercalate_concat₂ :
    [sep].intercalate (ws ++ [x, y]) = ws.flatMap (· ++ [sep]) ++ (x ++ sep :: y) := by
  rw [append_cons, intercalate_concat]
  simp

theorem map_intercalate (f : Char → Char) :
    ([sep].intercalate ws).map f = [f sep].intercalate (ws.map (·.map f)) := by
  induction ws with
  | nil => rfl
  | cons w ws ih =>
    cases ws with
    | nil => simp
    | cons w' ws => simp_all

theorem intercalate_ne_nil (hne : ws ≠ []) (hws : ∀ w ∈ ws, w ≠ []) :
    [sep].intercalate ws ≠ [] := by
  cases ws with
  | nil => exact absurd rfl hne
  | cons w ws =>
    have hw := hws w mem_cons_self
    cases ws <;> simp [hw]

end

/-! ## Characters -/

variable {c : Char}

theorem ascii_of {P : Char → Prop} [DecidablePred P] (h : ∀ n < 128, P (Char.ofNat n))
    (hc : c.toNat < 128) : P c := by
  have := h c.toNat hc
  rwa [Char.ofNat_toNat] at this

/-- A lower-case hexadecimal digit. -/
def isLowerHex (c : Char) : Bool := c.isDigit || ('a' ≤ c && c ≤ 'f')

theorem lt_of_isHexDigit (h : isHexDigit c = true) : c.toNat < 128 := by
  simp only [isHexDigit, Bool.or_eq_true, Bool.and_eq_true, decide_eq_true_eq, Char.isDigit] at h
  rcases h with (⟨-, h⟩ | ⟨-, h⟩) | ⟨-, h⟩
  · exact lt_of_le_of_lt (UInt32.le_iff_toNat_le.mp h) (by decide)
  · exact lt_of_le_of_lt (UInt32.le_iff_toNat_le.mp h) (by decide)
  · exact lt_of_le_of_lt (UInt32.le_iff_toNat_le.mp h) (by decide)

theorem toLower_hex (h : isHexDigit c = true) :
    isLowerHex c.toLower = true ∧ hexDigit c.toLower = hexDigit c := by
  have hall : ∀ n < 128, isHexDigit (Char.ofNat n) = true →
      isLowerHex (Char.ofNat n).toLower = true ∧
        hexDigit (Char.ofNat n).toLower = hexDigit (Char.ofNat n) := by decide
  exact ascii_of (P := fun c => isHexDigit c = true → isLowerHex c.toLower = true ∧
    hexDigit c.toLower = hexDigit c) hall (lt_of_isHexDigit h) h

theorem isHexDigit_of_lower (h : isLowerHex c = true) : isHexDigit c = true := by
  simp only [isLowerHex, isHexDigit] at h ⊢
  simp [h]

theorem not_sep_of_lower (h : isLowerHex c = true) : c ≠ ':' ∧ c ≠ '.' ∧ c ≠ '%' := by
  refine ⟨?_, ?_, ?_⟩ <;> rintro rfl <;> exact absurd h (by decide)

theorem isLowerHex_of_isDigit (h : c.isDigit = true) : isLowerHex c = true := by
  simp [isLowerHex, h]

theorem toLower_of_isDigit (h : c.isDigit = true) : c.toLower = c := by
  have hall : ∀ n < 128, (Char.ofNat n).isDigit = true → (Char.ofNat n).toLower = Char.ofNat n := by
    decide
  have hlt := lt_of_isHexDigit (isHexDigit_of_lower (isLowerHex_of_isDigit h))
  exact ascii_of (P := fun c => c.isDigit = true → c.toLower = c) hall hlt h

/-! ## Version 4 -/

section

variable {s : List Char} {b : List Nat}

theorem Quad.not_dot (q : Quad) : ∀ w ∈ q.words, '.' ∉ w := fun w hw hdot =>
  absurd ((q.isByte w hw).digits '.' hdot) (by decide)

theorem Quad.words_ne_nil (q : Quad) : q.words ≠ [] := by
  intro hnil
  exact absurd (q.length_eq.symm.trans (congrArg List.length hnil)) (by decide)

theorem Quad.mem_text {q : Quad} {c : Char} (hc : c ∈ q.text) : c = '.' ∨ c.isDigit = true :=
  (mem_intercalate hc).imp id fun ⟨w, hw, hcw⟩ => (q.isByte w hw).digits c hcw

theorem Quad.dot_mem (q : Quad) : '.' ∈ q.text := by
  obtain ⟨words, hlen, hbyte⟩ := q
  match words, hlen with
  | a :: b :: rest, _ => simp [Quad.text]

theorem parseIPv4_quad (q : Quad) : parseIPv4 q.text = some q.bytes := by
  rw [parseIPv4, Quad.text, splitOn_intercalate '.' (Quad.not_dot q) (Quad.words_ne_nil q),
    if_pos q.length_eq]
  refine mapM_eq_map fun w hw => ?_
  have hbyte := q.isByte w hw
  have hall : w.all Char.isDigit = true := all_eq_true.mpr hbyte.digits
  simp [isOctet, hbyte.pos, hbyte.short, hall, hbyte.value]

/-- The labels it reads are octets. -/
theorem isOctet_of_parseIPv4 (h : parseIPv4 s = some b) :
    ∀ p ∈ s.splitOn '.', isOctet p = true := by
  intro p hp
  have hparts : (s.splitOn '.').mapM (fun p =>
      if isOctet p && decValue p ≤ 255 then some (decValue p) else none) = some b := by
    exact (ite_none_right_eq_some.mp h).2
  have hsome := isSome_of_mapM hparts p hp
  by_contra hnot
  simp [hnot] at hsome

theorem mem_of_parseIPv4 (h : parseIPv4 s = some b) {c : Char} (hc : c ∈ s) :
    c = '.' ∨ c.isDigit = true := by
  have hjoined : ['.'].intercalate (s.splitOn '.') = s := intercalate_splitOn '.'
  rw [← hjoined] at hc
  refine (mem_intercalate hc).imp id fun ⟨p, hp, hcp⟩ => ?_
  have hoctet := isOctet_of_parseIPv4 h p hp
  simp only [isOctet, Bool.and_eq_true] at hoctet
  exact all_eq_true.mp hoctet.2 c hcp

end


/-! ## Groups -/

/-- A group in lower case. -/
structure IsLowerWord (w : List Char) : Prop where
  digits : ∀ c ∈ w, isLowerHex c = true
  pos : 0 < w.length
  short : w.length ≤ 4

section

variable {ws vs : List (List Char)} {w rest s a b : List Char} {n : Nat}

theorem IsLowerWord.isGroup_eq (h : IsLowerWord w) : isGroup w = true := by
  have hall : w.all (fun c => c.isDigit || ('a' ≤ c && c ≤ 'f')) = true :=
    all_eq_true.mpr h.digits
  simp only [isGroup, hall, Bool.and_true, Bool.and_eq_true, decide_eq_true_eq]
  exact ⟨h.pos, h.short⟩

theorem IsLowerWord.not_colon (h : IsLowerWord w) : ':' ∉ w :=
  fun hc => (not_sep_of_lower (h.digits _ hc)).1 rfl

theorem IsLowerWord.ne_nil (h : IsLowerWord w) : w ≠ [] := length_pos_iff.mp h.pos

theorem isLowerWord_toLower (h : IsGroupWord w) : IsLowerWord (w.map Char.toLower) where
  digits c hc := by
    obtain ⟨d, hd, rfl⟩ := mem_map.mp hc
    exact (toLower_hex (h.digits d hd)).1
  pos := by simpa using h.pos
  short := by simpa using h.short

theorem hexValue_toLower (h : IsGroupWord w) : hexValue (w.map Char.toLower) = hexValue w := by
  rw [hexValue, hexValue, List.map_map]
  congr 1
  exact map_congr_left fun c hc => (toLower_hex (h.digits c hc)).2

theorem hexValue_concat (w : List Char) (c : Char) :
    hexValue (w ++ [c]) = hexValue w * 16 + hexDigit c := by
  simp [hexValue, Net.ofDigits]

/-- `toString(16)` writes a group that is read back. -/
theorem toDigits_hex (n : Nat) :
    hexValue (Nat.toDigits 16 n) = n ∧ ∀ c ∈ Nat.toDigits 16 n, isLowerHex c = true := by
  have hdigit : ∀ d < 16, hexDigit (Nat.digitChar d) = d ∧ isLowerHex (Nat.digitChar d) = true := by
    decide
  induction n using Nat.strongRecOn with
  | ind n ih =>
    by_cases hn : n < 16
    case pos =>
      rw [toDigits_of_lt_base hn]
      refine ⟨by simp [hexValue, Net.ofDigits, (hdigit n hn).1], fun c hc => ?_⟩
      rw [mem_singleton.mp hc]
      exact (hdigit n hn).2
    case neg =>
      have hmod := hdigit (n % 16) (mod_lt n (by decide))
      obtain ⟨hval, hlower⟩ := ih (n / 16) (Nat.div_lt_self (by omega) (by decide))
      rw [Nat.toDigits_of_base_le (by decide) (Nat.le_of_not_lt hn)]
      refine ⟨?_, fun c hc => ?_⟩
      · rw [hexValue_concat, hval, hmod.1]
        omega
      · rcases mem_append.mp hc with hc | hc
        · exact hlower c hc
        · rw [mem_singleton.mp hc]
          exact hmod.2

theorem isLowerWord_toDigits (hn : n < 65536) : IsLowerWord (Nat.toDigits 16 n) where
  digits := (toDigits_hex n).2
  pos := length_toDigits_pos
  short := (length_toDigits_le_iff (by decide) (by decide)).mpr hn

/-! ## The split at `::` -/

/-- A word is not cut. -/
theorem splitDouble_word (hw : ':' ∉ w) (rest : List Char) :
    splitDouble (w ++ rest) = (splitDouble rest).modifyHead (w ++ ·) := by
  induction w with
  | nil => cases hs : splitDouble rest <;> simp [hs]
  | cons c w ih =>
    obtain ⟨hc, hw⟩ := ne_and_not_mem_of_not_mem_cons hw
    have hstep : splitDouble (c :: (w ++ rest)) =
        (splitDouble (w ++ rest)).modifyHead (c :: ·) := by
      cases hs : w ++ rest with
      | nil => rfl
      | cons d tail =>
        rw [splitDouble, if_neg]
        exact fun h => hc h.1.symm
    rw [cons_append, hstep, ih hw, modifyHead_modifyHead]
    rfl

/-- Nor are words that a single colon separates. -/
theorem splitDouble_words (hws : ∀ w ∈ ws, IsLowerWord w) (rest : List Char) :
    splitDouble ([':'].intercalate ws ++ rest) =
      (splitDouble rest).modifyHead ([':'].intercalate ws ++ ·) := by
  induction ws with
  | nil => cases hs : splitDouble rest <;> simp [hs]
  | cons w ws ih =>
    have hw := hws w mem_cons_self
    cases ws with
    | nil => simpa using splitDouble_word hw.not_colon rest
    | cons v ws =>
      have hrest := ih fun u hu => hws u (mem_cons_of_mem _ hu)
      have hv := hws v (by simp)
      obtain ⟨d, tail, hd⟩ := exists_cons_of_ne_nil hv.ne_nil
      have hdc : d ≠ ':' := by
        rintro rfl
        exact hv.not_colon (by simp [hd])
      have hcolon : splitDouble (':' :: ([':'].intercalate (v :: ws) ++ rest)) =
          (splitDouble ([':'].intercalate (v :: ws) ++ rest)).modifyHead (':' :: ·) := by
        subst hd
        rw [intercalate_cons_cons_left, cons_append, splitDouble, if_neg]
        exact fun h => hdc h.2
      rw [intercalate_cons_cons, append_assoc, append_assoc,
        splitDouble_word hw.not_colon, singleton_append, hcolon, hrest,
        modifyHead_modifyHead, modifyHead_modifyHead]
      congr 1
      funext u
      simp

theorem toGroups_words (hws : ∀ w ∈ ws, IsLowerWord w) :
    toGroups ([':'].intercalate ws) = some (ws.map hexValue) := by
  by_cases hnil : ws = []
  case pos => subst hnil; rfl
  case neg =>
    have hne : [':'].intercalate ws ≠ [] := intercalate_ne_nil hnil fun w hw => (hws w hw).ne_nil
    rw [toGroups, if_neg hne,
      splitOn_intercalate ':' (fun w hw => (hws w hw).not_colon) hnil]
    exact mapM_eq_map fun w hw => by rw [if_pos (hws w hw).isGroup_eq]

/-- Eight groups. -/
theorem readGroups_words (hws : ∀ w ∈ ws, IsLowerWord w) (hlen : ws.length = 8) :
    readGroups ([':'].intercalate ws) = some (ws.map hexValue) := by
  have hsplit := splitDouble_words hws []
  rw [append_nil] at hsplit
  rw [readGroups, hsplit]
  simp [splitDouble, toGroups_words hws, hlen]

/-- At most seven groups, and a `::`. -/
theorem readGroups_double (hws : ∀ w ∈ ws, IsLowerWord w) (hvs : ∀ w ∈ vs, IsLowerWord w)
    (hlen : ws.length + vs.length ≤ 7) :
    readGroups ([':'].intercalate ws ++ ':' :: ':' :: [':'].intercalate vs) =
      some (ws.map hexValue ++ List.replicate (8 - (ws.length + vs.length)) 0 ++
        vs.map hexValue) := by
  have hsplit := splitDouble_words hvs []
  rw [append_nil] at hsplit
  rw [readGroups, splitDouble_words hws, splitDouble, if_pos ⟨rfl, rfl⟩, hsplit]
  simp [splitDouble, toGroups_words hws, toGroups_words hvs, not_lt.mpr hlen]

end


/-! ## Version 6 -/

section

variable {ws : List (List Char)} {p x s : List Char} {q : Quad} {d : Option Quad} {t : Text6}

theorem afterColon_append (p : List Char) (hx : ':' ∉ x) : afterColon (p ++ ':' :: x) = x := by
  have hall : ∀ c ∈ x.reverse, decide (c ≠ ':') = true := fun c hc =>
    decide_eq_true fun h => hx (h ▸ mem_reverse.mp hc)
  rw [afterColon, reverse_append, reverse_cons, append_assoc,
    takeWhile_append_of_pos hall]
  simp

theorem upToColon_append (p : List Char) (hx : ':' ∉ x) :
    upToColon (p ++ ':' :: x) = p ++ [':'] := by
  have hall : ∀ c ∈ x.reverse, decide (c ≠ ':') = true := fun c hc =>
    decide_eq_true fun h => hx (h ▸ mem_reverse.mp hc)
  rw [upToColon, reverse_append, reverse_cons, append_assoc,
    dropWhile_append_of_pos hall]
  simp

theorem Quad.byte_le (q : Quad) (i : Nat) : q.bytes.getD i 0 ≤ 255 := by
  rw [getD_eq_getElem?_getD]
  cases h : q.bytes[i]? with
  | none => simp
  | some b =>
    obtain ⟨w, hw, rfl⟩ := mem_map.mp (mem_of_getElem? h)
    exact (q.isByte w hw).value

/-- The two groups that are written for a dotted tail. -/
def Quad.hexWords (q : Quad) : List (List Char) :=
  [Nat.toDigits 16 ((q.bytes.getD 0 0 <<< 8) ||| q.bytes.getD 1 0),
    Nat.toDigits 16 ((q.bytes.getD 2 0 <<< 8) ||| q.bytes.getD 3 0)]

theorem shift_or {a b : Nat} (hb : b ≤ 255) : (a <<< 8) ||| b = a * 256 + b := by
  rw [← Nat.shiftLeft_add_eq_or_of_lt (by omega : b < 2 ^ 8), Nat.shiftLeft_eq]

theorem Quad.hexWords_isLower (q : Quad) : ∀ w ∈ Quad.hexWords q, IsLowerWord w := by
  have h₀ := Quad.byte_le q 0
  have h₁ := Quad.byte_le q 1
  have h₂ := Quad.byte_le q 2
  have h₃ := Quad.byte_le q 3
  intro w hw
  simp only [Quad.hexWords, shift_or h₁, shift_or h₃, mem_cons, not_mem_nil, or_false] at hw
  rcases hw with rfl | rfl <;> exact isLowerWord_toDigits (by omega)

theorem Quad.hexWords_value (q : Quad) : (Quad.hexWords q).map hexValue = q.groups := by
  simp only [Quad.hexWords, Quad.groups, map_cons, map_nil, (toDigits_hex _).1,
    shift_or (Quad.byte_le q 1), shift_or (Quad.byte_le q 3)]

theorem Quad.not_colon (q : Quad) : ':' ∉ q.text := fun hc =>
  (Quad.mem_text hc).elim (fun h => absurd h (by decide)) fun h => absurd h (by decide)

/-- A dotted tail after a colon is rewritten. -/
theorem rewriteQuad_quad (p : List Char) (q : Quad) : rewriteQuad (p ++ ':' :: q.text) =
      some (p ++ ':' :: [':'].intercalate (Quad.hexWords q)) := by
  rw [rewriteQuad, afterColon_append p (Quad.not_colon q), if_pos (Quad.dot_mem q),
    upToColon_append p (Quad.not_colon q), parseIPv4_quad]
  simp [Quad.hexWords]

theorem rewriteQuad_of_not_mem (h : '.' ∉ s) : rewriteQuad s = some s := by
  rw [rewriteQuad, if_neg]
  intro hdot
  exact h (mem_reverse.mp (( takeWhile_prefix _).subset (mem_reverse.mp hdot)))

/-- The groups of a part of a text, as the parser sees them. -/
def lowWords (ws : List (List Char)) (quad : Option Quad) : List (List Char) :=
  ws.map (·.map Char.toLower) ++ (quad.map Quad.hexWords).getD []

theorem lowWords_isLower (hws : ∀ w ∈ ws, IsGroupWord w) : ∀ w ∈ lowWords ws d, IsLowerWord w := by
  intro w hw
  rcases mem_append.mp hw with hw | hw
  · obtain ⟨v, hv, rfl⟩ := mem_map.mp hw
    exact isLowerWord_toLower (hws v hv)
  · cases d with
    | none => cases hw
    | some q => exact Quad.hexWords_isLower q w hw

theorem lowWords_value (hws : ∀ w ∈ ws, IsGroupWord w) :
    (lowWords ws d).map hexValue = Text6.values ws d := by
  rw [lowWords, List.map_append, List.map_map, Text6.values]
  congr 1
  · exact map_congr_left fun w hw => hexValue_toLower (hws w hw)
  · cases d with
    | none => rfl
    | some q => exact Quad.hexWords_value q

theorem map_join : (Text6.join ws d).map Char.toLower =
    Text6.join (ws.map (·.map Char.toLower)) d := by
  have hquad : ∀ q : Quad, q.text.map Char.toLower = q.text := fun q => by
    conv_rhs => rw [← map_id q.text]
    refine map_congr_left fun c hc => ?_
    rcases Quad.mem_text hc with rfl | hc
    · rfl
    · exact toLower_of_isDigit hc
  rw [Text6.join, map_intercalate, map_append, Text6.join]
  cases d <;> simp [hquad]

/-- What may be in a part of a text. -/
theorem mem_join (hws : ∀ w ∈ ws, IsLowerWord w) {c : Char} (hc : c ∈ Text6.join ws d) :
    c = ':' ∨ c = '.' ∨ isLowerHex c = true := by
  refine (mem_intercalate hc).imp id fun ⟨w, hw, hcw⟩ => ?_
  rcases mem_append.mp hw with hw | hw
  · exact .inr ((hws w hw).digits c hcw)
  · obtain ⟨q, -, rfl⟩ := mem_map.mp hw
    exact (Quad.mem_text hcw).imp id isLowerHex_of_isDigit

theorem not_dot_join (hws : ∀ w ∈ ws, IsLowerWord w) : '.' ∉ Text6.join ws none := by
  intro hc
  rcases mem_intercalate hc with h | ⟨w, hw, hcw⟩
  · exact absurd h (by decide)
  · rw [toList_none, map_nil, append_nil] at hw
    exact (not_sep_of_lower ((hws w hw).digits _ hcw)).2.1 rfl

/-- A dotted tail behind something that ends in a colon. -/
theorem rewriteQuad_join (p : List Char) (hws : ∀ w ∈ ws, IsLowerWord w) (hp : '.' ∉ p)
    (hcolon : d ≠ none → ws ≠ [] ∨ p.getLast? = some ':') : rewriteQuad (p ++ Text6.join ws d) =
      some (p ++ [':'].intercalate (ws ++ (d.map Quad.hexWords).getD [])) := by
  cases d with
  | none =>
    have hdot : '.' ∉ p ++ Text6.join ws none := by
      rw [mem_append]
      exact not_or.mpr ⟨hp, not_dot_join hws⟩
    simpa [Text6.join] using rewriteQuad_of_not_mem hdot
  | some q =>
    have hend : ∃ p', p ++ ws.flatMap (· ++ [':']) = p' ++ [':'] := by
      rcases eq_nil_or_concat ws with rfl | ⟨vs, v, rfl⟩
      · have hlast := (hcolon (by simp)).resolve_left (by simp)
        obtain ⟨p', hp'⟩ := List.getLast?_eq_some_iff.mp hlast
        exact ⟨p', by simp [hp']⟩
      · exact ⟨p ++ vs.flatMap (· ++ [':']) ++ v, by simp⟩
    obtain ⟨p', hp'⟩ := hend
    have hjoin : Text6.join ws (some q) = ws.flatMap (· ++ [':']) ++ q.text := by
      simp [Text6.join, intercalate_concat]
    have htail : [':'].intercalate (ws ++ Quad.hexWords q) =
        ws.flatMap (· ++ [':']) ++ [':'].intercalate (Quad.hexWords q) := by
      rw [Quad.hexWords, intercalate_concat₂]
      simp
    have hquad := rewriteQuad_quad p' q
    rw [map_some, getD_some, hjoin, htail, ← append_assoc, ← append_assoc,
      hp', append_assoc, append_assoc]
    exact hquad

theorem length_lowWords (hws : ∀ w ∈ ws, IsGroupWord w) :
    (lowWords ws d).length = (Text6.values ws d).length := by
  rw [← lowWords_value hws, length_map]

theorem Text6.known_eq (t : Text6) :
    t.known = (Text6.values t.head none).length +
    (Text6.values (t.rest.getD []) t.quad).length := by
  simp [Text6.known, Text6.values]

/-- The text in lower case and without its zone. -/
def lowBody (t : Text6) : List Char :=
  match t.rest with
  | none => Text6.join (t.head.map (·.map Char.toLower)) t.quad
  | some rest =>
    Text6.join (t.head.map (·.map Char.toLower)) none ++
      ':' :: ':' :: Text6.join (rest.map (·.map Char.toLower)) t.quad

theorem isLower_map (hws : ∀ w ∈ ws, IsGroupWord w) :
    ∀ w ∈ ws.map (·.map Char.toLower), IsLowerWord w := fun w hw => by
  obtain ⟨v, hv, rfl⟩ := mem_map.mp hw
  exact isLowerWord_toLower (hws v hv)

section

variable (h : t.Valid)

include h

theorem isGroup_head : ∀ w ∈ t.head, IsGroupWord w :=
  fun w hw => h.isGroup w (mem_append_left _ hw)

theorem isGroup_rest : ∀ w ∈ t.rest.getD [], IsGroupWord w :=
  fun w hw => h.isGroup w (mem_append_right _ hw)

theorem percent_not_mem : '%' ∉ lowBody t := by
  have hpart : ∀ ws quad, (∀ w ∈ ws, IsLowerWord w) → '%' ∉ Text6.join ws quad := by
    intro ws quad hws hc
    rcases mem_join hws hc with h | h | h
    · exact absurd h (by decide)
    · exact absurd h (by decide)
    · exact (not_sep_of_lower h).2.2 rfl
  have hrest := isGroup_rest h
  rw [lowBody]
  cases hr : t.rest with
  | none => exact hpart _ _ (isLower_map (isGroup_head h))
  | some rest =>
    rw [hr, getD_some] at hrest
    have hhead := hpart _ none (isLower_map (isGroup_head h))
    have htail := hpart _ t.quad (isLower_map hrest)
    simp [hhead, htail]

theorem lowBody_eq : (t.text.map Char.toLower).takeWhile (· ≠ '%') = lowBody t := by
  have hbody : ∀ zone : List Char, (lowBody t ++ zone).takeWhile (· ≠ '%') =
      lowBody t ++ zone.takeWhile (· ≠ '%') := fun zone =>
    takeWhile_append_of_pos fun c hc => decide_eq_true fun hp => percent_not_mem h (hp ▸ hc)
  obtain ⟨zone, htext, hzone⟩ : ∃ zone : List Char, t.text.map Char.toLower = lowBody t ++ zone ∧
      zone.takeWhile (· ≠ '%') = [] := by
    rw [Text6.text, lowBody, map_append]
    refine ⟨(t.zone.elim [] ('%' :: ·)).map Char.toLower, ?_, ?_⟩
    · congr 1
      · cases t.rest with
        | none => exact map_join
        | some rest =>
          simp only [map_append, map_cons, map_join]
          rfl
      · cases t.zone <;> rfl
    · cases t.zone <;> rfl
  rw [htext, hbody, hzone, append_nil]

theorem colon_mem : ':' ∈ lowBody t := by
  rw [lowBody]
  cases hr : t.rest with
  | some rest => simp
  | none =>
    have hknown := h.count hr
    rw [Text6.known_eq, hr] at hknown
    match hhead : t.head with
    | w :: v :: ws => simp [Text6.join]
    | [w] | [] =>
      rw [hhead] at hknown
      cases hq : t.quad <;> simp [hq, Text6.values, Quad.groups] at hknown

/-- The text of a version 6 address is read as that address. -/
theorem parseIPv6_text : parseIPv6 t.text = some t.groups := by
  have hcolon := colon_mem h
  have hhead := isGroup_head h
  have hlow := isLower_map hhead
  have hknown := Text6.known_eq t
  rw [parseIPv6]
  simp only [lowBody_eq h, hcolon, if_true]
  cases hr : t.rest with
  | none =>
    have hcount := h.count hr
    have hne : t.quad ≠ none → t.head.map (·.map Char.toLower) ≠ [] := by
      rintro - hnil
      rw [hknown, hr, map_eq_nil_iff.mp hnil] at hcount
      cases hq : t.quad <;> simp [hq, Text6.values, Quad.groups] at hcount
    have hrewrite := rewriteQuad_join [] hlow (by simp) fun hq => .inl (hne hq)
    rw [nil_append, nil_append] at hrewrite
    have hlen : (lowWords t.head t.quad).length = 8 := by
      rw [length_lowWords hhead, ← hcount]
      simp [Text6.known, hr]
    rw [lowBody, hr, Text6.groups, hr]
    simp only [hrewrite, bind_some]
    exact (readGroups_words (lowWords_isLower hhead) hlen).trans
      (congrArg some (lowWords_value hhead))
  | some rest =>
    have hrest : ∀ w ∈ rest, IsGroupWord w := by simpa [hr] using isGroup_rest h
    have hcount := h.countRest (by simp [hr])
    rw [hknown, hr, getD_some] at hcount
    have hrewrite := rewriteQuad_join (d := t.quad)
      (Text6.join (t.head.map (·.map Char.toLower)) none ++ [':', ':']) (isLower_map hrest)
      (by simpa using not_dot_join hlow) fun _ => .inr (by simp)
    have hwords : Text6.join (t.head.map (·.map Char.toLower)) none =
        [':'].intercalate (lowWords t.head none) := by
      simp [Text6.join, lowWords]
    have hlenHead := length_lowWords (d := none) hhead
    have hlenRest := length_lowWords (d := t.quad) hrest
    have hread := readGroups_double (lowWords_isLower (d := none) hhead)
      (lowWords_isLower (d := t.quad) hrest) (by omega)
    rw [lowBody, hr, Text6.groups, hr, hknown, hr]
    simp only [append_assoc, cons_append, nil_append, hwords] at hrewrite
    simp only [hwords]
    rw [hrewrite, bind_some]
    refine hread.trans ?_
    rw [lowWords_value hhead, lowWords_value hrest, hlenHead, hlenRest]
    rfl

end

/-- A text of a version 6 address is no text of the other version. -/
theorem parseIPv4_text (h : t.Valid) : parseIPv4 t.text = none := by
  cases hparse : parseIPv4 t.text with
  | none => rfl
  | some b =>
    have hcolon := colon_mem h
    rw [← lowBody_eq h] at hcolon
    obtain ⟨c, hc, hlower⟩ := mem_map.mp (( takeWhile_prefix _).subset hcolon)
    rcases mem_of_parseIPv4 hparse hc with rfl | hdigit
    · exact absurd hlower (by decide)
    · rw [toLower_of_isDigit hdigit] at hlower
      exact absurd (hlower ▸ hdigit) (by decide)

theorem map_text (hzone : t.zone = none) : t.text.map Char.toLower = lowBody t := by
  rw [Text6.text, hzone, lowBody, append_nil]
  cases t.rest with
  | none => exact map_join
  | some rest =>
    simp only [map_append, map_cons, map_join]
    rfl

theorem Quad.getLast_ne (q : Quad) : q.text ≠ [] ∧ q.text.getLast? ≠ some '.' := by
  obtain ⟨vs, v, hv⟩ := (eq_nil_or_concat q.words).resolve_left (Quad.words_ne_nil q)
  have hbyte := q.isByte v (by simp [hv])
  have hne : v ≠ [] := length_pos_iff.mp hbyte.pos
  rw [Quad.text, hv, concat_eq_append, intercalate_concat]
  refine ⟨by simp [hne], fun hlast => ?_⟩
  rw [List.getLast?_append_of_ne_nil _ hne] at hlast
  exact absurd (hbyte.digits _ (mem_of_getLast? hlast)) (by decide)

theorem join_getLast_ne (hws : ∀ w ∈ ws, IsLowerWord w) :
    (Text6.join ws d).getLast? ≠ some '.' := by
  cases d with
  | none => exact fun hlast => not_dot_join hws (mem_of_getLast? hlast)
  | some q =>
    rw [Text6.join, toList_some, map_singleton, intercalate_concat,
      List.getLast?_append_of_ne_nil _ (Quad.getLast_ne q).1]
    exact (Quad.getLast_ne q).2

theorem lowBody_getLast_ne (h : t.Valid) : (lowBody t).getLast? ≠ some '.' := by
  have hrest := isGroup_rest h
  rw [lowBody]
  cases hr : t.rest with
  | none => exact join_getLast_ne (isLower_map (isGroup_head h))
  | some rest =>
    rw [hr, getD_some] at hrest
    have hjoin := join_getLast_ne (d := t.quad) (isLower_map hrest)
    simp only
    generalize Text6.join (rest.map (·.map Char.toLower)) t.quad = tail at hjoin
    cases tail with
    | nil => simp
    | cons c tail => simpa [List.getLast?_cons_cons] using hjoin

end

/-! ## The host of a URL -/

section

variable {s : List Char} {url : Url}

theorem stripDot_of_getLast (h : s.getLast? ≠ some '.') : stripDot s = s := if_neg h

theorem stripBrackets_of_not_mem (h : '[' ∉ s ∧ ']' ∉ s) : stripBrackets s = s := by
  have hhead : s.head? ≠ some '[' := fun hs => h.1 (mem_of_head? hs)
  have hlast : s.getLast? ≠ some ']' := fun hs => h.2 (mem_of_getLast? hs)
  simp only [stripBrackets, if_neg hhead, if_neg hlast]

theorem stripBrackets_brackets (s : List Char) : stripBrackets ('[' :: (s ++ [']'])) = s := by
  simp [stripBrackets]

/-- The host the checks are about, by what the URL has. -/
theorem host_eq (url : Url) : url.host =
    match url.hostname with
    | .ipv4 q => q.text
    | .ipv6 t _ _ _ => t.text
    | .domain d => stripDot d.text := by
  rw [Url.host]
  cases url.hostname with
  | ipv4 q =>
    have hlower : q.text.map Char.toLower = q.text := by
      have hjoin : (Text6.join [] (some q)).map Char.toLower = Text6.join [] (some q) := map_join
      simpa [Text6.join] using hjoin
    have hbracket : '[' ∉ q.text ∧ ']' ∉ q.text := by
      constructor <;> intro hc <;> rcases Quad.mem_text hc with h | h <;> exact absurd h (by decide)
    simp only [Host.text, hlower, stripBrackets_of_not_mem hbracket]
    exact stripDot_of_getLast (Quad.getLast_ne q).2
  | ipv6 t valid zone lower =>
    have hlast := lowBody_getLast_ne valid
    rw [← map_text zone, lower] at hlast
    have hhost : (Host.ipv6 t valid zone lower).text.map Char.toLower = '[' ::
        (t.text ++ [']']) := by
      simp only [Host.text, map_cons, map_append, lower]
      rfl
    rw [hhost, stripBrackets_brackets]
    exact stripDot_of_getLast hlast
  | domain d =>
    simp only [Host.text, d.lower, stripBrackets_of_not_mem d.noBracket]

/-- A name is no text of an address. -/
theorem parse_domain (d : Domain) :
    parseIPv4 (stripDot d.text) = none ∧ parseIPv6 (stripDot d.text) = none := by
  have hsub : ∀ c ∈ stripDot d.text, c ∈ d.text := by
    intro c hc
    rw [stripDot] at hc
    split at hc
    · exact dropLast_subset _ hc
    · exact hc
  refine ⟨?_, ?_⟩
  · cases hparse : parseIPv4 (stripDot d.text) with
    | none => rfl
    | some b =>
      obtain ⟨vs, v, hv⟩ := (eq_nil_or_concat _).resolve_left
        (splitOn_ne_nil '.' (stripDot d.text))
      have hoctet := isOctet_of_parseIPv4 hparse v (by simp [hv])
      simp only [isOctet, Bool.and_eq_true, decide_eq_true_eq] at hoctet
      have hnumber := d.noNumber vs v (by simpa using hv) (length_pos_iff.mp hoctet.1.1)
      exact absurd (hoctet.2.symm.trans hnumber) (by decide)
  · have hlower : ∀ c ∈ (stripDot d.text).map Char.toLower, c ≠ ':' := by
      rintro c hc rfl
      obtain ⟨e, he, heq⟩ := mem_map.mp hc
      have hmem : ':' ∈ d.text.map Char.toLower := mem_map.mpr ⟨e, hsub e he, heq⟩
      rw [d.lower] at hmem
      exact d.noColon hmem
    refine if_neg fun hc => ?_
    exact hlower _ (( takeWhile_prefix _).subset hc) rfl

end

end Swarmy.Ai
