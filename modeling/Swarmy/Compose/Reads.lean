import Swarmy.Compose.Interpolate

/-!
# What a compose text stands for

The texts `interpolateString` accepts, by a grammar of their own: a text is read as
pieces, each a character of the text, a `$` for a `$$`, or the value of a variable, taken
as it is.  Which pieces these are depends on which variables are set and which of them
are empty, and on nothing else of their values.  The function accepts a text exactly
when the grammar does, and returns what the pieces are.
-/

namespace Swarmy.Compose

open List Option

/-! ## Braces -/

/-- How many braces are open after a text, of `depth` before it; `none` when it closes one
too many.  A brace is no brace in `$$`, which is read as a whole. -/
@[grind =] def level : Nat → List Char → Option Nat
  | depth, [] => some depth
  | depth, '$' :: '$' :: cs => level depth cs
  | depth, c :: cs =>
    if c = '{' then level (depth + 1) cs
    else if c = '}' then if depth = 0 then none else level (depth - 1) cs
    else level depth cs

/-- Every brace of the text is closed in it. -/
def Balanced (cs : List Char) : Prop := level 0 cs = some 0

variable {cs rest : List Char} {op : Option Op}

theorem level_cons {depth : Nat} {c : Char}
    (hne : ∀ ds, c = '$' → cs = '$' :: ds → False) : level depth (c :: cs) =
      if c = '{' then level (depth + 1) cs
      else if c = '}' then if depth = 0 then none else level (depth - 1) cs
      else level depth cs := by
  rw [level]
  exact hne

/-- Characters that are neither braces nor `$` change nothing. -/
theorem level_append (h : ∀ c ∈ cs, c ≠ '$' ∧ c ≠ '{' ∧ c ≠ '}') (depth : Nat)
    (ds : List Char) : level depth (cs ++ ds) = level depth ds := by
  induction cs with
  | nil => rfl
  | cons c cs ih =>
    obtain ⟨hdollar, hopen, hclose⟩ := h c mem_cons_self
    rw [cons_append, level_cons (fun _ he _ => hdollar he), if_neg hopen, if_neg hclose]
    exact ih fun d hd => h d (mem_cons_of_mem c hd)

/-- What stands before the closing brace is balanced. -/
theorem matchingBrace_sound {depth : Nat} {body after : List Char} (hpos : 0 < depth)
    (h : matchingBrace depth cs = some (body, after)) :
    cs = body ++ '}' :: after ∧ level (depth - 1) body = some 0 := by
  induction depth, cs using matchingBrace.induct generalizing body with
  | case1 => cases h
  | case2 depth cs ih =>
    obtain ⟨⟨b, a⟩, hq, he⟩ := map_eq_some_iff.mp h
    cases he
    obtain ⟨rfl, hlevel⟩ := ih hpos hq
    exact ⟨rfl, by rw [level]; exact hlevel⟩
  | case3 depth cs hne ih =>
    obtain ⟨⟨b, a⟩, hq, he⟩ := map_eq_some_iff.mp h
    cases he
    obtain ⟨rfl, hlevel⟩ := ih (Nat.succ_pos _) hq
    refine ⟨rfl, ?_⟩
    rw [level_cons (by simp), if_pos rfl, Nat.sub_add_cancel hpos]
    exact hlevel
  | case4 cs hne _ =>
    cases h
    exact ⟨rfl, rfl⟩
  | case5 depth cs hd hne _ ih =>
    rw [matchingBrace.eq_3 _ _ _ hne, if_neg (by decide), if_pos rfl, if_neg hd] at h
    obtain ⟨⟨b, a⟩, hq, he⟩ := map_eq_some_iff.mp h
    cases he
    obtain ⟨rfl, hlevel⟩ := ih (by omega) hq
    refine ⟨rfl, ?_⟩
    rw [level_cons (by simp), if_neg (by decide), if_pos rfl, if_neg (by omega)]
    exact hlevel
  | case6 depth c cs hne h₁ h₂ ih =>
    rw [matchingBrace.eq_3 _ _ _ hne, if_neg h₁, if_neg h₂] at h
    obtain ⟨⟨b, a⟩, hq, he⟩ := map_eq_some_iff.mp h
    cases he
    obtain ⟨rfl, hlevel⟩ := ih hpos hq
    refine ⟨rfl, ?_⟩
    rw [level_cons, if_neg h₁, if_neg h₂]
    · exact hlevel
    · rintro ds rfl rfl
      exact hne _ rfl rfl

/-- A brace behind a balanced text closes. -/
theorem matchingBrace_complete {depth : Nat} {body : List Char} (after : List Char)
    (h : level depth body = some 0) :
    matchingBrace (depth + 1) (body ++ '}' :: after) = some (body, after) := by
  induction depth, body using level.induct with
  | case1 depth =>
    cases h
    rfl
  | case2 depth cs ih =>
    rw [cons_append, cons_append, matchingBrace, ih h]
    rfl
  | case3 depth cs hne ih =>
    rw [cons_append, matchingBrace.eq_3 _ _ _ (by simp), if_pos rfl, ih h]
    rfl
  | case4 cs hne _ =>
    cases h
  | case5 depth cs hne hd _ ih =>
    rw [level_cons (by simp), if_neg (by decide), if_pos rfl, if_neg ‹_›] at h
    have hih := ih h
    rw [Nat.sub_add_cancel (by omega)] at hih
    rw [cons_append, matchingBrace.eq_3 _ _ _ (by simp), if_neg (by decide), if_pos rfl,
      if_neg (by omega), Nat.add_sub_cancel, hih]
    rfl
  | case6 depth c cs hne h₁ h₂ ih =>
    rw [level_cons hne, if_neg h₁, if_neg h₂] at h
    rw [cons_append, matchingBrace.eq_3, if_neg h₁, if_neg h₂, ih h]
    · rfl
    · intro ds hc hds
      cases cs with
      | nil => cases hds
      | cons d cs => exact hne cs hc (congrArg₂ List.cons (List.cons.inj hds).1 rfl)

/-! ## Pieces -/

/-- A piece of what a text stands for. -/
inductive Piece where
  | char (c : Char)
  | value (name : List Char)

/-- A character is itself, a value what the variable holds; an unset one is empty. -/
def Piece.text (vars : Variables) : Piece → List Char
  | .char c => [c]
  | .value name => ((vars.lookup (.ofList name)).getD "").toList

/-- What a braced form stands for. -/
inductive Choice where
  | value | nested | empty

/-- The choice of a braced form, by whether its variable is set, and not empty where the
operator has a colon; `none` is the error of a required variable. -/
@[grind =] def choose (vars : Variables) (name : List Char) : Option Op → Option Choice
  | none => some .value
  | some op =>
    let set := ((vars.lookup (.ofList name)).filter fun v => !(op.colon && v == "")).isSome
    match op.letter, set with
    | '-', true => some .value
    | '-', false => some .nested
    | '?', true => some .value
    | '?', false => none
    | _, true => some .nested
    | _, false => some .empty

/-- A variable's name: letters, digits and underscores, the first no digit. -/
def IsName (name : List Char) : Prop :=
  (∃ c ∈ name.head?, isNameStart c) ∧ ∀ c ∈ name, isNameChar c

/-- What follows the name in a braced form. -/
@[grind =] def Op.text : Option Op → List Char → List Char
  | none, _ => []
  | some op, rest => if op.colon then ':' :: op.letter :: rest else op.letter :: rest

/-- An operator of the language; without one nothing follows the name. -/
def IsOp : Option Op → List Char → Prop
  | none, rest => rest = []
  | some op, _ => op.letter ∈ ['-', '?', '+']

/-- `${name}`, or `${name` with an operator and a rest `}`. -/
def bracedText (name : List Char) (op : Option Op) (rest : List Char) : List Char :=
  '$' :: '{' :: (name ++ Op.text op rest ++ ['}'])

/-- A braced form that can be read. -/
structure IsBraced (name : List Char) (op : Option Op) (rest : List Char) : Prop where
  name : IsName name
  op : IsOp op rest
  balanced : Balanced rest

/-- The text is read as these pieces. -/
inductive Reads (vars : Variables) : List Char → List Piece → Prop
  | nil : Reads vars [] []
  | char {c cs ps} (hc : c ≠ '$') (hcs : Reads vars cs ps) : Reads vars (c :: cs) (.char c :: ps)
  | dollar {cs ps} (hcs : Reads vars cs ps) : Reads vars ('$' :: '$' :: cs) (.char '$' :: ps)
  | name {n cs ps} (hn : IsName n) (hend : ∀ c ∈ cs.head?, ¬isNameChar c)
      (hcs : Reads vars cs ps) : Reads vars ('$' :: (n ++ cs)) (.value n :: ps)
  | value {n op rest cs ps} (hb : IsBraced n op rest) (hop : choose vars n op = some .value)
      (hcs : Reads vars cs ps) : Reads vars (bracedText n op rest ++ cs) (.value n :: ps)
  | nested {n op rest cs qs ps} (hb : IsBraced n op rest) (hop : choose vars n op = some .nested)
      (hrest : Reads vars rest qs) (hcs : Reads vars cs ps) :
      Reads vars (bracedText n op rest ++ cs) (qs ++ ps)
  | empty {n op rest cs ps} (hb : IsBraced n op rest) (hop : choose vars n op = some .empty)
      (hcs : Reads vars cs ps) : Reads vars (bracedText n op rest ++ cs) ps

/-! ## Operators -/

theorem splitOp_sound (h : splitOp cs = some (op, rest)) : cs = Op.text op rest ∧ IsOp op rest := by
  unfold splitOp at h
  split at h
  · cases h
    exact ⟨rfl, rfl⟩
  · next c cs =>
    split at h
    · next hc =>
      cases h
      exact ⟨rfl, hc⟩
    · cases h
  · next c cs _ =>
    split at h
    · next hc =>
      cases h
      exact ⟨rfl, hc⟩
    · cases h

theorem splitOp_complete (h : IsOp op rest) : splitOp (Op.text op rest) = some (op, rest) := by
  cases op with
  | none =>
    obtain rfl : rest = [] := h
    rfl
  | some op =>
    obtain ⟨letter, colon⟩ := op
    have hletter : letter ∈ ['-', '?', '+'] := h
    cases colon with
    | true => exact if_pos hletter
    | false =>
      simp only [mem_cons, not_mem_nil, or_false] at hletter
      rcases hletter with rfl | rfl | rfl <;> rfl

/-- An operator begins with no character of a name. -/
theorem opText_head (h : IsOp op rest) : ∀ c ∈ (Op.text op rest).head?, ¬isNameChar c := by
  cases op with
  | none =>
    simp [Op.text]
  | some op =>
    obtain ⟨letter, colon⟩ := op
    have hletter : letter ∈ ['-', '?', '+'] := h
    simp only [mem_cons, not_mem_nil, or_false] at hletter
    cases colon <;> rcases hletter with rfl | rfl | rfl <;> simp [Op.text] <;> decide

theorem IsName.takeWhile {n : List Char} (hn : IsName n) (hend : ∀ c ∈ cs.head?, ¬isNameChar c) :
    (n ++ cs).takeWhile isNameChar = n ∧ (n ++ cs).dropWhile isNameChar = cs := by
  rw [takeWhile_append_of_pos hn.2, dropWhile_append_of_pos hn.2]
  cases cs with
  | nil => simp
  | cons c cs =>
    have hc : ¬isNameChar c := hend c rfl
    simp [hc]

theorem isNameChar_plain {c : Char} (h : isNameChar c) : c ≠ '$' ∧ c ≠ '{' ∧ c ≠ '}' := by
  refine ⟨?_, ?_, ?_⟩ <;> rintro rfl <;> revert h <;> decide

/-- What follows the name of a balanced form is balanced. -/
theorem level_opText (h : IsOp op rest) {n : List Char}
    (hn : ∀ c ∈ n, isNameChar c) : level 0 (n ++ Op.text op rest) = level 0 rest := by
  rw [level_append fun c hc => isNameChar_plain (hn c hc)]
  cases op with
  | none =>
    obtain rfl : rest = [] := h
    rfl
  | some op =>
    obtain ⟨letter, colon⟩ := op
    have hletter : letter ∈ ['-', '?', '+'] := h
    have hplain : letter ≠ '$' ∧ letter ≠ '{' ∧ letter ≠ '}' := by
      simp only [mem_cons, not_mem_nil, or_false] at hletter
      rcases hletter with rfl | rfl | rfl <;> decide
    cases colon with
    | false => exact @level_append [letter] (by simpa using hplain) 0 rest
    | true => exact @level_append [':', letter] (by simpa using hplain) 0 rest

section

variable {vars : Variables} {path : String} {n : List Char} {op : Option Op}
  {nested : Interpolated}

theorem lookup_text : (lookup vars n).1 = (Piece.value n).text vars := by
  rw [lookup, Piece.text]
  cases vars.lookup (String.ofList n) <;> rfl

/-- The value that an operator looks at: with a colon, an empty one is as good as none. -/
theorem filter_value (v : Option String) (colon : Bool) :
    (if colon && v == some "" then none else v) = v.filter fun s => !(colon && s == "") := by
  cases v with
  | none => simp
  | some s => cases colon <;> simp [Option.filter]

/-- What a braced form evaluates to, by its choice. -/
theorem braced_eq (vars : Variables) (path : String) (n : List Char) (op : Option Op)
    (nested : Interpolated) : match choose vars n op with
      | some .value => ∃ us, braced vars path n op nested = .ok ((Piece.value n).text vars, us)
      | some .nested => braced vars path n op nested = nested
      | some .empty => braced vars path n op nested = .ok ([], [])
      | none => ∃ e, braced vars path n op nested = .error e := by
  cases op with
  | none => exact ⟨_, congrArg Except.ok (Prod.ext lookup_text rfl)⟩
  | some op =>
    obtain ⟨letter, colon⟩ := op
    simp only [choose, braced, filter_value, Piece.text]
    cases hv : (vars.lookup (.ofList n)).filter (fun s => !(colon && s == "")) with
    | some v =>
      have hlookup : vars.lookup (.ofList n) = some v := (filter_eq_some_iff.mp hv).1
      rw [hlookup]
      by_cases hminus : letter = '-'
      · subst hminus
        exact ⟨[], rfl⟩
      · by_cases hquestion : letter = '?'
        · subst hquestion
          exact ⟨[], rfl⟩
        · simp
    | none =>
      by_cases hminus : letter = '-'
      · subst hminus
        rfl
      · by_cases hquestion : letter = '?'
        · subst hquestion
          cases nested <;> exact ⟨_, rfl⟩
        · simp

end

/-! ## What is interpolated is what is read -/

theorem Interpolated.append_ok {head tail : Interpolated} {out : List Char} {us : List String}
    (h : Interpolated.append head tail = .ok (out, us)) :
    ∃ s t vs ws, head = .ok (s, vs) ∧ tail = .ok (t, ws) ∧ out = s ++ t := by
  unfold Interpolated.append at h
  split at h
  · cases h
    exact ⟨_, _, _, _, rfl, rfl, rfl⟩
  · cases h
  · cases h

section

variable (vars : Variables) (path : String) (input : List Char)

theorem interpolateFrom_char {c : Char} (hc : c ≠ '$') (cs : List Char) :
    interpolateFrom vars path input (c :: cs) =
      Interpolated.append (.ok ([c], [])) (interpolateFrom vars path input cs) := by
  rw [interpolateFrom.eq_def]
  exact if_pos hc

theorem interpolateFrom_dollar (cs : List Char) :
    interpolateFrom vars path input ('$' :: '$' :: cs) =
      Interpolated.append (.ok (['$'], [])) (interpolateFrom vars path input cs) := by
  rw [interpolateFrom.eq_def]
  rfl

theorem interpolateFrom_name {n cs : List Char} (hn : IsName n)
    (hend : ∀ c ∈ cs.head?, ¬isNameChar c) : interpolateFrom vars path input ('$' :: (n ++ cs)) =
      Interpolated.append (.ok (lookup vars n)) (interpolateFrom vars path input cs) := by
  obtain ⟨htake, hdrop⟩ := hn.takeWhile hend
  obtain ⟨⟨c, hc, hstart⟩, hall⟩ := hn
  cases n with
  | nil => cases hc
  | cons d n =>
    obtain rfl : d = c := by simpa using hc
    obtain ⟨hdollar, hopen, -⟩ := isNameChar_plain (hall d mem_cons_self)
    rw [cons_append] at htake hdrop ⊢
    rw [interpolateFrom, if_neg (by simp), if_pos hstart, htake, hdrop]
    · exact hdollar
    · exact hopen

theorem interpolateFrom_braced {n rest : List Char} {op : Option Op} (hb : IsBraced n op rest)
    (cs : List Char) : interpolateFrom vars path input (bracedText n op rest ++ cs) =
      Interpolated.append (braced vars path n op (interpolateFrom vars path rest rest))
        (interpolateFrom vars path input cs) := by
  have htext : bracedText n op rest ++ cs =
      '$' :: '{' :: (n ++ Op.text op rest ++ '}' :: cs) := by simp [bracedText]
  have hlevel : level 0 (n ++ Op.text op rest) = some 0 :=
    (level_opText hb.op hb.name.2).trans hb.balanced
  have hmatch := matchingBrace_complete cs hlevel
  obtain ⟨htake, hdrop⟩ := hb.name.takeWhile (opText_head hb.op)
  have hsplit : splitOp ((n ++ Op.text op rest).dropWhile isNameChar) = some (op, rest) := by
    rw [hdrop]
    exact splitOp_complete hb.op
  have hhead : (n ++ Op.text op rest).head?.all (fun c => !isNameStart c) = false := by
    obtain ⟨c, hc, hstart⟩ := hb.name.1
    rw [List.head?_append, mem_def.mp hc]
    simpa using hstart
  rw [htext, interpolateFrom.eq_3, if_neg (by simp)]
  split
  · next hnone => cases hmatch.symm.trans hnone
  · next body after hsome =>
    cases hmatch.symm.trans hsome
    split
    · next op' rest' hop =>
      cases hsplit.symm.trans hop
      rw [hhead, if_neg Bool.false_ne_true, htake]
    · next hop => cases hsplit.symm.trans hop

variable {vars path input}

/-- A text that is read interpolates to its pieces. -/
theorem Reads.interpolates {cs : List Char} {ps : List Piece} (h : Reads vars cs ps) :
    ∀ input, ∃ us, interpolateFrom vars path input cs = .ok (ps.flatMap (Piece.text vars), us) := by
  induction h with
  | nil => exact fun input => ⟨[], by rw [interpolateFrom]; rfl⟩
  | char hc _ ih =>
    intro input
    obtain ⟨us, hus⟩ := ih input
    exact ⟨us, by rw [interpolateFrom_char _ _ _ hc, hus]; rfl⟩
  | dollar _ ih =>
    intro input
    obtain ⟨us, hus⟩ := ih input
    exact ⟨us, by rw [interpolateFrom_dollar, hus]; rfl⟩
  | @name n cs ps hn hend _ ih =>
    intro input
    obtain ⟨us, hus⟩ := ih input
    refine ⟨(lookup vars n).2 ++ us, ?_⟩
    rw [interpolateFrom_name _ _ _ hn hend, hus, flatMap_cons, ← lookup_text]
    rfl
  | @value n op rest cs ps hb hop _ ih =>
    intro input
    obtain ⟨us, hus⟩ := ih input
    have heq := braced_eq vars path n op (interpolateFrom vars path rest rest)
    rw [hop] at heq
    obtain ⟨vs, hvs⟩ := heq
    exact ⟨vs ++ us, by rw [interpolateFrom_braced _ _ _ hb, hvs, hus]; rfl⟩
  | @nested n op rest cs qs ps hb hop _ _ ihrest ih =>
    intro input
    obtain ⟨us, hus⟩ := ih input
    obtain ⟨vs, hvs⟩ := ihrest rest
    have heq := braced_eq vars path n op (interpolateFrom vars path rest rest)
    rw [hop] at heq
    refine ⟨vs ++ us, ?_⟩
    rw [interpolateFrom_braced _ _ _ hb, heq, hvs, hus, flatMap_append]
    rfl
  | @empty n op rest cs ps hb hop _ ih =>
    intro input
    obtain ⟨us, hus⟩ := ih input
    have heq := braced_eq vars path n op (interpolateFrom vars path rest rest)
    rw [hop] at heq
    exact ⟨us, by rw [interpolateFrom_braced _ _ _ hb, heq, hus]; rfl⟩

theorem isName_takeWhile {cs : List Char} (h : ∃ c ∈ cs.head?, isNameStart c) :
    IsName (cs.takeWhile isNameChar) := by
  obtain ⟨c, hc, hstart⟩ := h
  have hchar : isNameChar c := by
    unfold isNameChar Char.isAlphanum
    rcases Bool.or_eq_true _ _ ▸ hstart with h | h <;> simp [h]
  refine ⟨⟨c, ?_, hstart⟩, fun d hd => all_eq_true.mp all_takeWhile d hd⟩
  cases cs with
  | nil => cases hc
  | cons d cs =>
    obtain rfl : d = c := by simpa using hc
    rw [takeWhile_cons_of_pos hchar]
    rfl

/-- The body of braces that the function takes is one of the language. -/
theorem isBraced_of_matchingBrace {cs body after rest : List Char} {op : Option Op}
    (hmatch : matchingBrace 1 cs = some (body, after))
    (hop : splitOp (body.dropWhile isNameChar) = some (op, rest))
    (hstart : ¬body.head?.all (fun c => !isNameStart c) = true) :
    IsBraced (body.takeWhile isNameChar) op rest ∧ cs = body ++ '}' :: after := by
  obtain ⟨hcs, hlevel⟩ := matchingBrace_sound Nat.one_pos hmatch
  obtain ⟨hdrop, hisOp⟩ := splitOp_sound hop
  have hhead : ∃ c ∈ body.head?, isNameStart c := by
    simpa [Option.all_eq_true] using hstart
  have hn := isName_takeWhile hhead
  refine ⟨⟨hn, hisOp, ?_⟩, hcs⟩
  rw [Balanced, ← level_opText hisOp hn.2, ← hdrop, takeWhile_append_dropWhile]
  exact hlevel

/-- A text that interpolates is read, and its pieces are the result. -/
theorem reads_of_interpolates {cs : List Char} {out : List Char} {us : List String}
    (h : interpolateFrom vars path input cs = .ok (out, us)) :
    ∃ ps, Reads vars cs ps ∧ out = ps.flatMap (Piece.text vars) := by
  induction input, cs using interpolateFrom.induct generalizing out us with
  | case1 input =>
    rw [interpolateFrom] at h
    cases h
    exact ⟨[], .nil, rfl⟩
  | case2 input c cs hc ih =>
    rw [interpolateFrom_char _ _ _ hc] at h
    obtain ⟨s, t, vs, ws, hs, ht, rfl⟩ := Interpolated.append_ok h
    cases hs
    obtain ⟨ps, hps, rfl⟩ := ih ht
    exact ⟨_, .char hc hps, rfl⟩
  | case3 input c hc cs ih =>
    obtain rfl : c = '$' := not_not.mp hc
    rw [interpolateFrom_dollar] at h
    obtain ⟨s, t, vs, ws, hs, ht, rfl⟩ := Interpolated.append_ok h
    cases hs
    obtain ⟨ps, hps, rfl⟩ := ih ht
    exact ⟨_, .dollar hps, rfl⟩
  | case4 input c hc cs hnone =>
    rw [interpolateFrom.eq_3, if_neg hc] at h
    split at h
    · cases h
    · next hsome => cases hnone.symm.trans hsome
  | case5 input c hc cs body after hmatch op rest hop hstart =>
    rw [interpolateFrom.eq_3, if_neg hc] at h
    split at h
    · cases h
    · next hsome =>
      cases hmatch.symm.trans hsome
      split at h
      · rw [if_pos hstart] at h
        cases h
      · cases h
  | case6 input c hc cs body after hmatch op rest hop hstart _ _ _ ihrest ih =>
    obtain rfl : c = '$' := not_not.mp hc
    obtain ⟨hb, rfl⟩ := isBraced_of_matchingBrace hmatch hop hstart
    have htext : '$' :: '{' :: (body ++ '}' :: after) =
        bracedText (body.takeWhile isNameChar) op rest ++ after := by
      obtain ⟨hdrop, -⟩ := splitOp_sound hop
      conv_lhs => rw [← takeWhile_append_dropWhile (p := isNameChar) (l := body), hdrop]
      simp [bracedText]
    rw [htext] at h ⊢
    rw [interpolateFrom_braced _ _ _ hb] at h
    obtain ⟨s, t, vs, ws, hs, ht, rfl⟩ := Interpolated.append_ok h
    obtain ⟨ps, hps, rfl⟩ := ih ht
    have heq := braced_eq vars path (body.takeWhile isNameChar) op
      (interpolateFrom vars path rest rest)
    cases hchoice : choose vars (body.takeWhile isNameChar) op with
    | none =>
      rw [hchoice] at heq
      obtain ⟨e, he⟩ := heq
      cases he.symm.trans hs
    | some choice =>
      rw [hchoice] at heq
      cases choice with
      | value =>
        obtain ⟨us', hus⟩ := heq
        cases hus.symm.trans hs
        exact ⟨_, .value hb hchoice hps, rfl⟩
      | nested =>
        obtain ⟨qs, hqs, rfl⟩ := ihrest (heq.symm.trans hs)
        exact ⟨_, .nested hb hchoice hqs hps, flatMap_append.symm⟩
      | empty =>
        cases heq.symm.trans hs
        exact ⟨_, .empty hb hchoice hps, rfl⟩
  | case7 input c hc cs body after hmatch hop =>
    rw [interpolateFrom.eq_3, if_neg hc] at h
    split at h
    · cases h
    · next hsome =>
      cases hmatch.symm.trans hsome
      split at h
      · next hop' => cases hop.symm.trans hop'
      · cases h
  | case8 input c hc d cs hdollar hopen hstart _ ih =>
    obtain rfl : c = '$' := not_not.mp hc
    have hn : IsName ((d :: cs).takeWhile isNameChar) := isName_takeWhile ⟨d, rfl, hstart⟩
    have hend : ∀ c ∈ ((d :: cs).dropWhile isNameChar).head?, ¬isNameChar c := by
      intro c hc
      have hnot := List.head?_dropWhile_not isNameChar (d :: cs)
      rw [mem_def.mp hc] at hnot
      simpa using hnot
    rw [← takeWhile_append_dropWhile (p := isNameChar) (l := d :: cs)] at h ⊢
    rw [interpolateFrom_name _ _ _ hn hend] at h
    obtain ⟨s, t, vs, ws, hs, ht, rfl⟩ := Interpolated.append_ok h
    obtain ⟨ps, hps, rfl⟩ := ih ht
    refine ⟨_, .name hn hend hps, ?_⟩
    rw [flatMap_cons, ← lookup_text, Except.ok.inj hs]
  | case9 input c hc d cs hdollar hopen hstart =>
    rw [interpolateFrom.eq_4 _ _ _ _ _ _ hdollar hopen, if_neg hc, if_neg hstart] at h
    cases h
  | case10 input c hc =>
    rw [interpolateFrom.eq_5, if_neg hc] at h
    cases h

/-- The function accepts the texts of the language, and gives what their pieces are. -/
theorem interpolateString_ok_iff {s : String} {out : List Char} :
    (∃ us, interpolateString vars path s = .ok (out, us)) ↔
      ∃ ps, Reads vars s.toList ps ∧ out = ps.flatMap (Piece.text vars) := by
  constructor
  · rintro ⟨us, h⟩
    exact reads_of_interpolates h
  · rintro ⟨ps, hps, rfl⟩
    exact hps.interpolates s.toList

end

/-! ## Values are taken as they are -/

/-- The same variables are set, and the same of them are empty. -/
def SameSet (vars vars' : Variables) : Prop :=
  ∀ name, (vars.lookup name).map (· == "") = (vars'.lookup name).map (· == "")

theorem choose_congr {vars vars' : Variables} (h : SameSet vars vars') (n : List Char)
    (op : Option Op) : choose vars' n op = choose vars n op := by
  cases op with
  | none => rfl
  | some op =>
    obtain ⟨letter, colon⟩ := op
    have hset : ((vars'.lookup (.ofList n)).filter fun v => !(colon && v == "")).isSome =
        ((vars.lookup (.ofList n)).filter fun v => !(colon && v == "")).isSome := by
      have hn := h (.ofList n)
      cases hv : vars.lookup (.ofList n) with
      | none =>
        rw [hv, map_none, eq_comm, map_eq_none_iff] at hn
        rw [hn]
      | some v =>
        rw [hv, map_some, eq_comm, map_eq_some_iff] at hn
        obtain ⟨v', hv', heq⟩ := hn
        rw [hv']
        simp only [Option.filter, heq]
        split <;> rfl
    simp only [choose, hset]

/-- What a text is read as does not depend on what the values are: no part of a value is
ever read as a reference. -/
theorem Reads.congr {vars vars' : Variables} (hset : SameSet vars vars')
    {ps : List Piece} (h : Reads vars cs ps) : Reads vars' cs ps := by
  induction h with
  | nil => exact .nil
  | char hc _ ih => exact .char hc ih
  | dollar _ ih => exact .dollar ih
  | name hn hend _ ih => exact .name hn hend ih
  | value hb hop _ ih => exact .value hb ((choose_congr hset _ _).trans hop) ih
  | nested hb hop _ _ ihrest ih => exact .nested hb ((choose_congr hset _ _).trans hop) ihrest ih
  | empty hb hop _ ih => exact .empty hb ((choose_congr hset _ _).trans hop) ih

end Swarmy.Compose
