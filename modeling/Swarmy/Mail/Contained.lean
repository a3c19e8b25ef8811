import Swarmy.Mail.Smtp

/-!
# No content leaves the message

A client sends the payload of a message behind DATA.  `contained_iff`: the sink gives the
message on, once and as it was, and reads none of it as a command, exactly where its size is
within the limit and no dot follows a line terminator that ends no line.
-/

namespace Mail

open List Option Nat

/-! ## What is sent and what is received -/

/-- A text without its final line end. -/
def upToFinalNewline (t : Text) : Text := if endsLine t then t.take (t.length - 2) else t

/-- The lines of a message, without their ends. -/
def contentLines (raw : Text) : List Text :=
  let p := Codec.cut '\n' raw
  p.1.map Session.chomp ++ if p.2 = [] ∧ p.1 ≠ [] then [] else [p.2]

/-- The size of what is sent of a line. -/
def lineSize (l : Text) : Nat := Sink.units (stuff true l) + 2

/-- A connection that waits for a message: DATA was answered, and all that came is read. -/
structure AfterData (s : Session × Text) : Prop where
  data : s.1.sink.data = some []
  buf : s.2 = []

def Effect.message? : Effect → Option SinkMessage
  | .onMessage m => some m
  | _ => none

/-- The messages that were given on. -/
def Session.messages (s : Session) : List SinkMessage := s.effects.filterMap Effect.message?

/-- However a message comes in chunks, the sink gives it on once, as it was, and reads no line
but the final dot as a command. -/
structure Contained (opts : SinkOptions) (raw : Text) (s : Session × Text) : Prop where
  once : ∀ chunks : List Text, chunks.flatten = dataPayload raw →
    (Session.run opts s chunks).1.messages = s.1.messages ++
      [⟨s.1.sink.«from», s.1.sink.«to», upToFinalNewline (crlf raw), s.1.sink.user.getD []⟩]
  noCommand : ∀ chunks : List Text, chunks.flatten = dataPayload raw →
    ∀ l ∈ (Session.run opts s chunks).1.commands.drop s.1.commands.length, l = ['.']

/-- The message is within the limit, and in no line a dot follows a line terminator. -/
structure Plain (opts : SinkOptions) (raw : Text) : Prop where
  fits : ((contentLines raw).map lineSize).sum ≤ opts.maxBytes
  noDot : ∀ l ∈ contentLines raw, ∀ c, isLineTerminator c = true → ¬ [c, '.'] <:+: l

/-! ## Dots -/

theorem length_le_stuff (b : Bool) (t : Text) : t.length ≤ (stuff b t).length := by
  induction t generalizing b with
  | nil => exact le_refl 0
  | cons c cs ih =>
    have h := ih false
    have h' := ih (isLineTerminator c)
    rw [stuff]
    split <;> simp only [length_cons] <;> omega

/-- Nothing is doubled where no dot follows a terminator. -/
theorem stuff_eq_iff (b : Bool) (t : Text) : stuff b t = t ↔
    ¬ (b = true ∧ t.head? = some '.') ∧ ∀ c, isLineTerminator c = true → ¬ [c, '.'] <:+: t := by
  induction t generalizing b with
  | nil => simp [stuff]
  | cons c cs ih =>
    rw [stuff, List.head?_cons]
    split
    next h =>
      refine iff_of_false (fun heq => ?_) fun hno => hno.1 ⟨h.1, congrArg some h.2⟩
      have hlen := congrArg List.length heq
      have hle := length_le_stuff false cs
      simp only [length_cons] at hlen
      omega
    next h =>
      have hb : ¬ (b = true ∧ some c = some '.') := fun hc => h ⟨hc.1, some.inj hc.2⟩
      rw [cons_inj_right, ih]
      constructor
      · rintro ⟨hhead, hno⟩
        refine ⟨hb, fun d hd hin => ?_⟩
        rcases infix_cons_iff.mp hin with hpre | hin
        · obtain ⟨rfl, rest, rfl⟩ := cons_prefix_cons.mp hpre
          exact hhead ⟨hd, rfl⟩
        · exact hno d hd hin
      · rintro ⟨-, hno⟩
        refine ⟨fun ⟨hc, hhead⟩ => hno c hc ?_,
          fun d hd hin => hno d hd (hin.trans (suffix_cons c cs).isInfix)⟩
        cases cs with
        | nil => cases hhead
        | cons d ds =>
          obtain rfl : d = '.' := some.inj hhead
          exact ⟨[], ds, rfl⟩

/-- Behind a line end a line begins. -/
theorem stuff_append_crlf (b : Bool) (l rest : Text) :
    stuff b (l ++ CRLF ++ rest) = stuff b l ++ CRLF ++ stuff true rest := by
  induction l generalizing b with
  | nil => cases b <;> rfl
  | cons c cs ih =>
    simp only [cons_append, stuff]
    split
    next => rw [ih]; rfl
    next => rw [ih]; rfl

theorem stuff_notMem {b : Bool} {l : Text} (h : '\n' ∉ l) : '\n' ∉ stuff b l := by
  induction l generalizing b with
  | nil => exact h
  | cons c cs ih =>
    obtain ⟨hc, hcs⟩ := ne_and_not_mem_of_not_mem_cons h
    rw [stuff]
    split
    next =>
      exact not_mem_cons_of_ne_of_not_mem (by decide)
        (not_mem_cons_of_ne_of_not_mem (by decide) (ih hcs))
    next => exact not_mem_cons_of_ne_of_not_mem hc (ih hcs)

/-- The sink takes back the dot that was put before a line. -/
theorem unstuff_stuff (l : Text) : Sink.unstuff (stuff true l) = stuff false l := by
  cases l with
  | nil => rfl
  | cons c cs =>
    by_cases hc : c = '.'
    · subst hc
      rfl
    · rw [stuff, if_neg fun h => hc h.2, stuff, if_neg fun h => hc h.2]
      unfold Sink.unstuff
      split
      next heq => exact absurd (List.cons.inj heq).1 hc
      next => rfl

theorem stuff_ne_dot (l : Text) : stuff true l ≠ ['.'] := by
  cases l with
  | nil => simp [stuff]
  | cons c cs =>
    rw [stuff]
    split
    next => simp
    next h => exact fun heq => h ⟨rfl, (List.cons.inj heq).1⟩

/-! ## Lines -/

theorem chomp_append_cr (l : Text) : Session.chomp (l ++ ['\r']) = l := by
  simp [Session.chomp]

theorem chomp_cons {c : Char} {l : Text} (h : l ≠ [] ∨ c ≠ '\r') :
    Session.chomp (c :: l) = c :: Session.chomp l := by
  cases l with
  | nil =>
    have hc := h.resolve_left fun h => h rfl
    simp [Session.chomp, hc]
  | cons d ds =>
    simp only [Session.chomp, List.getLast?_cons_cons, dropLast_cons_cons]
    split <;> rfl

theorem chomp_notMem {c : Char} {l : Text} (h : c ∉ l) : c ∉ Session.chomp l := by
  unfold Session.chomp
  split
  next => exact fun hmem => h (dropLast_subset l hmem)
  next => exact h

theorem crlf_cons {c : Char} {t : Text} (hc : c ≠ '\n') (h : t.head? ≠ some '\n' ∨ c ≠ '\r') :
    crlf (c :: t) = c :: crlf t := by
  rw [crlf]
  · exact hc
  · rintro rest rfl rfl
    exact h.elim (fun h => h rfl) fun h => h rfl

/-- The first line of a text with its end. -/
theorem crlf_append {l : Text} (h : '\n' ∉ l) (rest : Text) :
    crlf (l ++ '\n' :: rest) = Session.chomp l ++ CRLF ++ crlf rest := by
  induction l with
  | nil => rfl
  | cons c l ih =>
    obtain ⟨hc, hl⟩ := ne_and_not_mem_of_not_mem_cons h
    by_cases hend : l ≠ [] ∨ c ≠ '\r'
    · have hhead : (l ++ '\n' :: rest).head? ≠ some '\n' ∨ c ≠ '\r' := by
        refine hend.imp_left fun hne => ?_
        obtain ⟨d, ds, rfl⟩ := exists_cons_of_ne_nil hne
        exact fun heq => hl (some.inj heq ▸ .head _)
      rw [cons_append, crlf_cons hc.symm hhead, ih hl, chomp_cons hend]
      rfl
    · obtain ⟨rfl, rfl⟩ : l = [] ∧ c = '\r' := by simpa using hend
      rfl

theorem crlf_of_notMem {l : Text} (h : '\n' ∉ l) : crlf l = l := by
  induction l with
  | nil => rfl
  | cons c l ih =>
    obtain ⟨hc, hl⟩ := ne_and_not_mem_of_not_mem_cons h
    rw [crlf_cons hc.symm (.inl fun heq => hl (mem_of_head? heq)), ih hl]

/-- A text line by line. -/
theorem crlf_flatMap {ls : List Text} (hls : ∀ l ∈ ls, '\n' ∉ l) {rest : Text}
    (hrest : '\n' ∉ rest) :
    crlf (ls.flatMap (· ++ ['\n']) ++ rest) = (ls.map Session.chomp).flatMap
      (· ++ CRLF) ++ rest := by
  induction ls with
  | nil => exact crlf_of_notMem hrest
  | cons l ls ih =>
    rw [flatMap_cons, append_assoc, append_assoc, singleton_append,
      crlf_append (hls l (.head _)), ih fun m hm => hls m (.tail _ hm), map_cons,
      flatMap_cons, append_assoc (Session.chomp l ++ CRLF)]

theorem stuff_flatMap (ls : List Text) (rest : Text) : stuff true (ls.flatMap (· ++ CRLF) ++ rest) =
      ls.flatMap (fun l => stuff true l ++ CRLF) ++ stuff true rest := by
  induction ls with
  | nil => rfl
  | cons l ls ih =>
    rw [flatMap_cons, append_assoc, stuff_append_crlf, ih, flatMap_cons,
      append_assoc (stuff true l ++ CRLF)]

theorem intercalate_append (ls : List Text) (h : ls ≠ []) :
    CRLF.intercalate ls ++ CRLF = ls.flatMap (· ++ CRLF) := by
  induction ls with
  | nil => exact absurd rfl h
  | cons l ls ih =>
    cases ls with
    | nil => simp [List.intercalate]
    | cons m ms =>
      rw [flatMap_cons, ← ih (cons_ne_nil _ _), intercalate_cons_cons]
      simp [append_assoc]

theorem endsLine_append_crlf (t : Text) : endsLine (t ++ CRLF) = true :=
  isSuffixOf_iff_suffix.mpr (suffix_append t CRLF)

theorem endsLine_flatMap (f : Text → Text) {ls : List Text} (h : ls ≠ []) :
    endsLine (ls.flatMap fun l => f l ++ CRLF) = true := by
  rw [← dropLast_append_getLast h, flatMap_append, flatMap_singleton,
    ← append_assoc]
  exact endsLine_append_crlf _

/-- A text whose last line has no end. -/
theorem endsLine_of_notMem (t : Text) {l : Text} (hne : l ≠ []) (hl : '\n' ∉ l) :
    endsLine (t ++ l) = false := by
  refine Bool.eq_false_iff.mpr fun hends => hl ?_
  obtain ⟨s, hs⟩ := isSuffixOf_iff_suffix.mp hends
  have hlast := congrArg List.getLast? hs
  rw [List.getLast?_append_of_ne_nil _ (by decide : CRLF ≠ []),
    List.getLast?_append_of_ne_nil _ hne] at hlast
  exact mem_of_getLast? hlast.symm

theorem contentLines_notMem (raw : Text) : ∀ l ∈ contentLines raw, '\n' ∉ l := by
  obtain ⟨hls, hrest⟩ := Codec.sep_notMem_cut '\n' raw
  intro l hl
  rcases mem_append.mp hl with hl | hl
  · obtain ⟨m, hm, rfl⟩ := mem_map.mp hl
    exact chomp_notMem (hls m hm)
  · split at hl
    next => cases hl
    next => rw [mem_singleton.mp hl]; exact hrest

theorem contentLines_ne_nil (raw : Text) : contentLines raw ≠ [] := by
  unfold contentLines
  dsimp only
  split
  next h =>
    rw [append_nil]
    exact fun hnil => h.2 (map_eq_nil_iff.mp hnil)
  next => exact append_ne_nil_of_right_ne_nil _ (cons_ne_nil _ _)

/-- A message is its lines, of which the last may have no end. -/
theorem crlf_eq (raw : Text) :
    (endsLine (crlf raw) = true ∧ crlf raw = (contentLines raw).flatMap (· ++ CRLF)) ∨
    (endsLine (crlf raw) = false ∧ endsLine (stuff true (crlf raw)) = false ∧
      ∃ ls l, contentLines raw = ls ++ [l] ∧ crlf raw = ls.flatMap (· ++ CRLF) ++ l) := by
  obtain ⟨hls, hrest⟩ := Codec.sep_notMem_cut '\n' raw
  have hcrlf := crlf_flatMap hls hrest
  rw [Codec.flatMap_cut] at hcrlf
  by_cases hend : (Codec.cut '\n' raw).2 = [] ∧ (Codec.cut '\n' raw).1 ≠ []
  · have hlines : contentLines raw = (Codec.cut '\n' raw).1.map Session.chomp := by
      unfold contentLines
      dsimp only
      rw [if_pos hend, append_nil]
    rw [hend.1, append_nil, ← hlines] at hcrlf
    refine .inl ⟨?_, hcrlf⟩
    rw [hcrlf]
    exact endsLine_flatMap id (contentLines_ne_nil raw)
  · have hlines : contentLines raw =
        (Codec.cut '\n' raw).1.map Session.chomp ++ [(Codec.cut '\n' raw).2] := by
      unfold contentLines
      dsimp only
      rw [if_neg hend]
    refine .inr ⟨?_, ?_, _, _, hlines, hcrlf⟩
    all_goals
      by_cases hnil : (Codec.cut '\n' raw).2 = []
      · have hno : (Codec.cut '\n' raw).1 = [] := not_not.mp fun h => hend ⟨hnil, h⟩
        rw [hcrlf, hnil, hno]
        rfl
    · rw [hcrlf]
      exact endsLine_of_notMem _ hnil hrest
    · rw [hcrlf, stuff_flatMap]
      refine endsLine_of_notMem _ (fun h => ?_) (stuff_notMem hrest)
      have hlen := length_le_stuff true (Codec.cut '\n' raw).2
      rw [h] at hlen
      exact hnil (eq_nil_of_length_eq_zero (le_zero.mp hlen))

/-- What is sent, line by line. -/
theorem dataPayload_eq (raw : Text) : dataPayload raw =
    ((contentLines raw).map fun l => stuff true l ++ ['\r']).flatMap
    (· ++ ['\n']) ++ '.' :: CRLF := by
  have hflat (ls : List Text) : (ls.map fun l => stuff true l ++ ['\r']).flatMap (· ++ ['\n']) =
      ls.flatMap fun l => stuff true l ++ CRLF := by
    rw [flatMap_map]
    simp [CRLF]
  rw [hflat]
  unfold dataPayload
  dsimp only
  rcases crlf_eq raw with ⟨-, heq⟩ | ⟨-, hends, ls, l, hlines, heq⟩
  · have hstuff : stuff true (crlf raw) = (contentLines raw).flatMap fun l =>
      stuff true l ++ CRLF := by
      rw [heq, ← append_nil (List.flatMap _ _), stuff_flatMap]
      exact append_nil _
    rw [hstuff, endsLine_flatMap _ (contentLines_ne_nil raw), if_pos rfl, append_nil]
  · rw [hends, heq, stuff_flatMap, hlines, flatMap_append, flatMap_singleton]
    simp

/-- What is received of it. -/
theorem upToFinalNewline_crlf (raw : Text) :
    upToFinalNewline (crlf raw) = CRLF.intercalate (contentLines raw) := by
  unfold upToFinalNewline
  rcases crlf_eq raw with ⟨hends, heq⟩ | ⟨hends, -, ls, l, hlines, heq⟩
  · rw [if_pos hends, heq, ← intercalate_append _ (contentLines_ne_nil raw), length_append]
    exact take_left
  · refine append_cancel_right (?_ : _ ++ CRLF = _ ++ CRLF)
    rw [intercalate_append _ (contentLines_ne_nil raw), hends, if_neg Bool.false_ne_true, heq,
      hlines, flatMap_append, flatMap_singleton, append_assoc]

/-! ## The sink -/

namespace Session

variable (opts : SinkOptions)

/-- A line whose end was taken off. -/
def chomped (s : Session) (l : Text) : Session where
  sink := (s.sink.handle opts l).1
  effects := s.effects ++ (s.sink.handle opts l).2
  commands := s.commands ++ if s.sink.data.isNone then [l] else []

/-- What the sink makes of a message: its lines, and the final dot. -/
def afterPayload (raw : Text) (s : Session) : Session :=
  (((contentLines raw).map (stuff true)).foldl (chomped opts) s).chomped opts ['.']

/-- The chunks do not matter. -/
theorem run_payload {raw : Text} {chunks : List Text} (h : chunks.flatten = dataPayload raw)
    {s : Session × Text} (hs : s.2 = []) : run opts s chunks = (afterPayload opts raw s.1, []) := by
  have hdot : Codec.cut '\n' ('.' :: CRLF) = ([['.', '\r']], []) := by decide
  have hlines : ∀ l ∈ (contentLines raw).map fun l => stuff true l ++ ['\r'], '\n' ∉ l := by
    intro l hl
    obtain ⟨m, hm, rfl⟩ := mem_map.mp hl
    rw [mem_append, not_or]
    exact ⟨stuff_notMem (contentLines_notMem raw m hm), by decide⟩
  unfold run
  rw [Codec.foldl_feed _ _ _ (hs ▸ not_mem_nil), Codec.feed, hs, nil_append, h,
    dataPayload_eq, Codec.cut_flatMap hlines, hdot, foldl_append, foldl_map]
  unfold afterPayload
  rw [foldl_map]
  simp only [line, chomp_append_cr, foldl_cons, foldl_nil]
  rfl

variable {opts} {s : Session} {data : List Text}

/-- A line within the limit is kept. -/
theorem chomped_fits {l : Text} (hdata : s.sink.data = some data)
    (hfits : s.sink.size + lineSize l ≤ opts.maxBytes) :
    s.chomped opts (stuff true l) = ⟨{ s.sink with
      size := s.sink.size + lineSize l, data :=
    some (data ++ [stuff false l]) }, s.effects, s.commands⟩ := by
  have hbig : ¬ s.sink.size + (Sink.units (stuff true l) + 2) > opts.maxBytes := not_lt.mpr hfits
  simp only [chomped, Sink.handle, Sink.handleData, hdata, if_neg (stuff_ne_dot l), if_neg hbig,
    unstuff_stuff, isNone_some, Bool.false_eq_true, if_false, append_nil]
  rfl

/-- A line over the limit ends the message. -/
theorem chomped_tooBig {l : Text} (hdata : s.sink.data = some data)
    (hbig : opts.maxBytes < s.sink.size + lineSize l) : s.chomped opts (stuff true l) =
      ⟨s.sink.reset, s.effects ++ [Sink.reply "552 5.3.4 message too big"], s.commands⟩ := by
  have hbig' : s.sink.size + (Sink.units (stuff true l) + 2) > opts.maxBytes := hbig
  simp only [chomped, Sink.handle, Sink.handleData, hdata, if_neg (stuff_ne_dot l), if_pos hbig',
    isNone_some, Bool.false_eq_true, if_false, append_nil]

/-- The lines of a message within the limit are kept. -/
theorem foldl_fits (ls : List Text) (hdata : s.sink.data = some data)
    (hfits : s.sink.size + (ls.map lineSize).sum ≤ opts.maxBytes) :
    (ls.map (stuff true)).foldl (chomped opts) s = ⟨{ s.sink with
      size := s.sink.size + (ls.map lineSize).sum, data := some (data ++ ls.map (stuff false)) },
      s.effects, s.commands⟩ := by
  induction ls generalizing s data with
  | nil =>
    simp only [map_nil, foldl_nil, sum_nil, add_zero, append_nil, ← hdata]
  | cons l ls ih =>
    rw [map_cons, sum_cons] at hfits
    rw [map_cons, foldl_cons, chomped_fits hdata (by omega), ih rfl (by dsimp only; omega)]
    simp only [map_cons, sum_cons, add_assoc, append_assoc, singleton_append]

variable (opts) in
/-- What was read as a command stays so. -/
theorem commands_foldl (ls : List Text) : s.commands <+: (ls.foldl (chomped opts) s).commands := by
  induction ls generalizing s with
  | nil => exact prefix_refl _
  | cons l ls ih =>
    have hstep : s.commands <+: (s.chomped opts l).commands := prefix_append _ _
    exact hstep.trans ih

/-- Commands give no message on. -/
theorem handleCommand_messages (sink : Sink) (l : Text) :
    (sink.handleCommand opts l).2.filterMap Effect.message? = [] := by
  unfold Sink.handleCommand Sink.tryAuth
  dsimp only
  repeat' split
  all_goals rfl

theorem messages_command {l : Text} (hdata : s.sink.data = none) :
    (s.chomped opts l).messages = s.messages := by
  simp only [messages, chomped, Sink.handle, hdata, filterMap_append, handleCommand_messages,
    append_nil]

variable (opts) in
/-- A message over the limit is not given on, or one of its lines is read as a command. -/
theorem foldl_tooBig (ls : List Text) (hdata : s.sink.data = some data)
    (hsize : s.sink.size ≤ opts.maxBytes)
    (hbig : opts.maxBytes < s.sink.size + (ls.map lineSize).sum) :
    (((ls.map (stuff true)).foldl (chomped opts) s).chomped opts ['.']).messages = s.messages ∨
    ∃ l, l ≠ ['.'] ∧ s.commands ++ [l] <+:
      (((ls.map (stuff true)).foldl (chomped opts) s).chomped opts ['.']).commands := by
  induction ls generalizing s data with
  | nil =>
    rw [map_nil, sum_nil] at hbig
    omega
  | cons l ls ih =>
    rw [map_cons, foldl_cons]
    by_cases hfits : s.sink.size + lineSize l ≤ opts.maxBytes
    · rw [chomped_fits hdata hfits]
      rw [map_cons, sum_cons] at hbig
      exact ih rfl hfits (by dsimp only; omega)
    · rw [chomped_tooBig hdata (Nat.lt_of_not_le hfits)]
      cases ls with
      | nil =>
        left
        rw [map_nil, foldl_nil, messages_command rfl]
        simp only [messages, filterMap_append]
        exact append_nil _
      | cons m ms =>
        refine .inr ⟨stuff true m, stuff_ne_dot m, ?_⟩
        have hlater := commands_foldl opts (ms.map (stuff true) ++ [['.']])
          (s := chomped opts ⟨s.sink.reset, s.effects ++ [Sink.reply "552 5.3.4 message too big"],
            s.commands⟩ (stuff true m))
        rw [foldl_append] at hlater
        exact hlater

end Session

/-! ## When the message is contained -/

/-- Behind DATA no line of the message has been counted. -/
def SizeZero (sink : Sink) : Prop :=
  (sink.data = none → sink.size = 0) ∧ (sink.data = some [] → sink.size = 0)

theorem SizeZero.reset (sink : Sink) : SizeZero sink.reset := ⟨fun _ => rfl, fun _ => rfl⟩

theorem SizeZero.handle {opts : SinkOptions} {sink : Sink} (h : SizeZero sink) (l : Text) :
    SizeZero (sink.handle opts l).1 := by
  unfold Sink.handle
  split
  next data hdata =>
    unfold Sink.handleData
    split
    next => exact .reset sink
    next =>
      split
      next => exact .reset sink
      next =>
        refine ⟨fun hnone => (nomatch hnone), fun hnil => ?_⟩
        exact absurd (some.inj hnil) (append_ne_nil_of_right_ne_nil _ (cons_ne_nil _ _))
  next hdata =>
    have hsize := h.1 hdata
    unfold Sink.handleCommand Sink.tryAuth
    dsimp only
    repeat' split
    all_goals first
      | exact .reset sink
      | exact ⟨fun _ => hsize, fun _ => hsize⟩

theorem sizeZero_run (opts : SinkOptions) (chunks : List Text) {s : Session × Text}
    (h : SizeZero s.1.sink) : SizeZero (Session.run opts s chunks).1.sink := by
  have hlines (ls : List Text) (s : Session) (hs : SizeZero s.sink) :
      SizeZero (ls.foldl (Session.line opts) s).sink := by
    induction ls generalizing s with
    | nil => exact hs
    | cons l ls ih => exact ih _ (hs.handle _)
  induction chunks generalizing s with
  | nil => exact h
  | cons c cs ih => exact ih (hlines _ _ h)

/-- The received lines are those that were sent exactly where none is stuffed inside. -/
theorem intercalate_stuff_iff {ls : List Text} (hne : ls ≠ []) (hls : ∀ l ∈ ls, '\n' ∉ l) :
    CRLF.intercalate (ls.map (stuff false)) = CRLF.intercalate ls ↔
    ∀ l ∈ ls, stuff false l = l := by
  constructor
  · intro heq
    have hflat : (ls.map (stuff false)).flatMap (· ++ CRLF) = ls.flatMap (· ++ CRLF) := by
      rw [← intercalate_append _ hne, ← intercalate_append _ fun h =>
        hne (map_eq_nil_iff.mp h), heq]
    -- the lines are read off the text
    have hread (ms : List Text) (hms : ∀ l ∈ ms, '\n' ∉ l) :
        (Codec.cut '\n' (ms.flatMap (· ++ CRLF))).1 = ms.map (· ++ ['\r']) := by
      have hno : ∀ l ∈ ms.map (· ++ ['\r']), '\n' ∉ l := by
        intro l hl
        obtain ⟨m, hm, rfl⟩ := mem_map.mp hl
        rw [mem_append, not_or]
        exact ⟨hms m hm, by decide⟩
      have hcut := Codec.cut_flatMap hno []
      rw [append_nil, flatMap_map, Codec.cut_nil, append_nil] at hcut
      have hcrlf : ms.flatMap (· ++ CRLF) = ms.flatMap fun l => l ++ ['\r'] ++ ['\n'] := by
        simp [CRLF]
      rw [hcrlf, hcut]
    have hstuffed : ∀ l ∈ ls.map (stuff false), '\n' ∉ l := by
      intro l hl
      obtain ⟨m, hm, rfl⟩ := mem_map.mp hl
      exact stuff_notMem (hls m hm)
    have hmap : (ls.map (stuff false)).map (· ++ ['\r']) = ls.map (· ++ ['\r']) := by
      rw [← hread _ hstuffed, hflat, hread _ hls]
    rw [List.map_map] at hmap
    intro l hl
    exact append_cancel_right (map_inj_left.mp hmap l hl)
  · intro h
    rw [List.map_congr_left h, List.map_id']

/-- Within the limit the final dot gives on what was received. -/
theorem afterPayload_fits {opts : SinkOptions} {raw : Text} {s : Session}
    (hdata : s.sink.data = some []) (hsize : s.sink.size = 0)
    (hfits : ((contentLines raw).map lineSize).sum ≤ opts.maxBytes) :
    (s.afterPayload opts raw).messages = s.messages ++ [⟨s.sink.«from», s.sink.«to»,
      CRLF.intercalate ((contentLines raw).map (stuff false)), s.sink.user.getD []⟩] ∧
    (s.afterPayload opts raw).commands = s.commands := by
  unfold Session.afterPayload
  rw [Session.foldl_fits _ hdata (by omega)]
  refine ⟨?_, append_nil _⟩
  simp only [Session.messages, Session.chomped, Sink.handle, Sink.handleData, if_true,
    nil_append, filterMap_append]
  congr 1
  split <;> rfl

/-- What comes of a payload is the same however it comes. -/
theorem contained_iff_afterPayload {opts : SinkOptions} {raw : Text} {s : Session × Text}
    (hbuf : s.2 = []) : Contained opts raw s ↔
      (s.1.afterPayload opts raw).messages = s.1.messages ++
        [⟨s.1.sink.«from», s.1.sink.«to», upToFinalNewline (crlf raw), s.1.sink.user.getD []⟩] ∧
      ∀ l ∈ (s.1.afterPayload opts raw).commands.drop s.1.commands.length, l = ['.'] := by
  have hone : [dataPayload raw].flatten = dataPayload raw := flatten_singleton
  constructor
  · intro h
    have honce := h.once _ hone
    have hcommand := h.noCommand _ hone
    rw [Session.run_payload opts hone hbuf] at honce hcommand
    exact ⟨honce, hcommand⟩
  · rintro ⟨honce, hcommand⟩
    refine ⟨fun chunks h => ?_, fun chunks h => ?_⟩
    · rw [Session.run_payload opts h hbuf]
      exact honce
    · rw [Session.run_payload opts h hbuf]
      exact hcommand

/-- Behind DATA a message is given on as it was, and nothing of it is read as a command,
exactly where it is within the limit and no dot follows a terminator inside a line. -/
theorem contained_iff (opts : SinkOptions) (raw : Text) (before : List Text)
    (h : AfterData (Session.run opts (Session.start opts, []) before)) :
    Contained opts raw (Session.run opts (Session.start opts, []) before) ↔ Plain opts raw := by
  have hsize : (Session.run opts (Session.start opts, []) before).1.sink.size = 0 :=
    (sizeZero_run opts before ⟨fun _ => rfl, fun _ => rfl⟩).2 h.data
  generalize Session.run opts (Session.start opts, []) before = s at h hsize
  rw [contained_iff_afterPayload h.buf, upToFinalNewline_crlf]
  by_cases hfits : ((contentLines raw).map lineSize).sum ≤ opts.maxBytes
  · obtain ⟨hmessages, hcommands⟩ := afterPayload_fits h.data hsize hfits
    rw [hmessages, hcommands, drop_length]
    have hlines := intercalate_stuff_iff (contentLines_ne_nil raw) (contentLines_notMem raw)
    constructor
    · rintro ⟨hsame, -⟩
      have hraw := congrArg SinkMessage.raw (singleton_inj.mp (append_cancel_left hsame))
      refine ⟨hfits, fun l hl => ((stuff_eq_iff false l).mp (hlines.mp hraw l hl)).2⟩
    · intro hplain
      have hstuff : ∀ l ∈ contentLines raw, stuff false l = l := fun l hl =>
        (stuff_eq_iff false l).mpr ⟨fun hc => Bool.false_ne_true hc.1, hplain.noDot l hl⟩
      rw [hlines.mpr hstuff]
      exact ⟨rfl, fun l hl => (not_mem_nil hl).elim⟩
  · refine iff_of_false ?_ fun hplain => hfits hplain.fits
    rintro ⟨hmessages, hcommands⟩
    rcases Session.foldl_tooBig opts (contentLines raw) h.data (by omega)
      (by omega) with hsame | ⟨l, hl, hpre⟩
    · have hlen := congrArg List.length (hsame.symm.trans hmessages)
      rw [length_append, length_singleton] at hlen
      omega
    · obtain ⟨later, hlater⟩ := hpre
      refine hl (hcommands l ?_)
      unfold Session.afterPayload
      rw [← hlater, append_assoc, drop_left]
      exact .head _

/-- The bounce hook with its limit, for one user. -/
def bounceHook : SinkOptions where
  hostname := "swarmy-controller".toList
  auth _ _ := true
  accepts _ := true
  maxBytes := 2 * 1024 * 1024
  decode _ := "\u0000mta\u0000secret".toList
  toUpperCase l := l.map Char.toUpper

def login : List Text :=
  ["AUTH PLAIN AG10YQBzZWNyZXQ=\r\nMAIL FROM:<>\r\nRCPT TO:<bounce@hook>\r\nDATA\r\n".toList]

theorem afterData_login : AfterData
    (Session.run bounceHook (Session.start bounceHook, []) login) where
  data := by decide
  buf := by decide

/-- A dot behind a bare carriage return is received as two. -/
theorem not_contained_bareCr : ¬ ∀ (opts : SinkOptions) (raw : Text) (before : List Text),
    AfterData (Session.run opts (Session.start opts, []) before) →
      Contained opts raw (Session.run opts (Session.start opts, []) before) := by
  intro hclaim
  have h := (hclaim bounceHook "a\r.b".toList login afterData_login).once
    [dataPayload "a\r.b".toList] flatten_singleton
  revert h
  decide

/-- Two lines, of which one begins with a dot. -/
theorem contained_dots :
    Contained bounceHook "a\n.b".toList
      (Session.run bounceHook (Session.start bounceHook, []) login) := by
  refine (contained_iff bounceHook _ login afterData_login).mpr ⟨by decide, fun l hl c hc hin => ?_⟩
  have hstuff : ∀ l ∈ contentLines "a\n.b".toList, stuff false l = l := by decide
  exact ((stuff_eq_iff false l).mp (hstuff l hl)).2 c hc hin

end Mail
