import Mathlib

/-!
# UTF-8

A decoder that takes a byte at a time, as the web's text decoders do.  What cannot be read is
reported where it stops to be readable, so that a decoder may replace it or give up.  Encoded
characters are read back, and a text may be cut wherever the next byte begins a character.
-/

namespace Utf8

open List Option Nat

/-- The bytes of a text. -/
def encode (cs : List Char) : List UInt8 := cs.flatMap String.utf8EncodeChar

/-! ## The decoder -/

/-- What is remembered between two bytes: how many are still needed, the bits so far, and the bounds
of the next byte. -/
structure State where
  needed : Nat
  code : Nat
  lower : Nat
  upper : Nat

def start : State := ⟨0, 0, 0x80, 0xBF⟩

/-- The first byte of a character; an error is `none`. -/
def lead (b : Nat) : State × List (Option Char) :=
  if b ≤ 0x7F then (start, [some (Char.ofNat b)])
  else if 0xC2 ≤ b ∧ b ≤ 0xDF then (⟨1, b % 32, 0x80, 0xBF⟩, [])
  else if 0xE0 ≤ b ∧ b ≤ 0xEF then
    (⟨2, b % 16, if b = 0xE0 then 0xA0 else 0x80, if b = 0xED then 0x9F else 0xBF⟩, [])
  else if 0xF0 ≤ b ∧ b ≤ 0xF4 then
    (⟨3, b % 8, if b = 0xF0 then 0x90 else 0x80, if b = 0xF4 then 0x8F else 0xBF⟩, [])
  else (start, [none])

/-- A byte that is out of bounds is an error, and is then read as the first of a character. -/
def step (s : State) (byte : UInt8) : State × List (Option Char) :=
  let b := byte.toNat
  if s.needed = 0 then lead b
  else if b < s.lower ∨ s.upper < b then ((lead b).1, none :: (lead b).2)
  else if s.needed = 1 then (start, [some (Char.ofNat (s.code * 64 + b % 64))])
  else (⟨s.needed - 1, s.code * 64 + b % 64, 0x80, 0xBF⟩, [])

def run : State → List UInt8 → State × List (Option Char)
  | s, [] => (s, [])
  | s, b :: bs => ((run (step s b).1 bs).1, (step s b).2 ++ (run (step s b).1 bs).2)

/-- The end of the bytes: a character that has begun is an error. -/
def flush (s : State) : List (Option Char) := if s.needed = 0 then [] else [none]

/-- All that is read. -/
def read (bs : List UInt8) : List (Option Char) := (run start bs).2 ++ flush (run start bs).1

/-- An error shows as the replacement character. -/
def replace (out : List (Option Char)) : List Char := out.map (·.getD '\uFFFD')

/-- The text of any bytes. -/
def decode (bs : List UInt8) : List Char := replace (read bs)

/-- The text of bytes without an error. -/
def decodeFatal (bs : List UInt8) : Option (List Char) :=
  if none ∈ read bs then none else some (decode bs)

/-! ## Reading in pieces -/

theorem run_append (s : State) (as bs : List UInt8) :
    run s (as ++ bs) = ((run (run s as).1 bs).1, (run s as).2 ++ (run (run s as).1 bs).2) := by
  induction as generalizing s with
  | nil => rfl
  | cons a as ih => rw [cons_append, run, ih, run, append_assoc]

/-! ## What was encoded is read back -/

variable {n : Nat} {s : State} {cs : List Char} {bs : List UInt8} {ps : List (List UInt8)}

theorem toNat_ofNat (h : n < 256) : (UInt8.ofNat n).toNat = n := by
  exact mod_eq_of_lt h

theorem char_bound (c : Char) : c.toNat < 0xD800 ∨ 0xDFFF < c.toNat ∧ c.toNat < 0x110000 := c.valid

theorem char_ofNat {c : Char} (h : n = c.toNat) : Char.ofNat n = c := by
  rw [h, Char.ofNat_toNat]

/-- The bytes of one character. -/
theorem encodeChar_eq (c : Char) : String.utf8EncodeChar c =
    if c.toNat ≤ 0x7F then [UInt8.ofNat c.toNat]
    else if c.toNat ≤ 0x7FF then
      [UInt8.ofNat (c.toNat / 64 % 32 + 0xC0), UInt8.ofNat (c.toNat % 64 + 0x80)]
    else if c.toNat ≤ 0xFFFF then
      [UInt8.ofNat (c.toNat / 4096 % 16 + 0xE0), UInt8.ofNat (c.toNat / 64 % 64 + 0x80),
        UInt8.ofNat (c.toNat % 64 + 0x80)]
    else
      [UInt8.ofNat (c.toNat / 262144 % 8 + 0xF0), UInt8.ofNat (c.toNat / 4096 % 64 + 0x80),
        UInt8.ofNat (c.toNat / 64 % 64 + 0x80), UInt8.ofNat (c.toNat % 64 + 0x80)] := rfl

/-- A byte in bounds that is not the last. -/
theorem step_more (hb : n < 256) (hneeded : 1 < s.needed) (hlo : s.lower ≤ n) (hhi : n ≤ s.upper) :
    step s (UInt8.ofNat n) = (⟨s.needed - 1, s.code * 64 + n % 64, 0x80, 0xBF⟩, []) := by
  rw [step, toNat_ofNat hb, if_neg (by omega), if_neg (by omega), if_neg (by omega)]

/-- A byte in bounds that is the last. -/
theorem step_last (hb : n < 256) (hneeded : s.needed = 1) (hlo : s.lower ≤ n) (hhi : n ≤ s.upper) :
    step s (UInt8.ofNat n) = (start, [some (Char.ofNat (s.code * 64 + n % 64))]) := by
  rw [step, toNat_ofNat hb, if_neg (by omega), if_neg (by omega), if_pos hneeded]

theorem step_lead (hb : n < 256) : step start (UInt8.ofNat n) = lead n := by
  rw [step, toNat_ofNat hb]
  exact if_pos rfl

theorem run_encodeChar (c : Char) : run start (String.utf8EncodeChar c) = (start, [some c]) := by
  have hc := char_bound c
  rw [encodeChar_eq]
  split
  · rw [run, step_lead (by omega), lead, if_pos (by assumption), char_ofNat rfl]
    rfl
  split
  · rw [run, step_lead (by omega), lead, if_neg (by omega), if_pos (by omega), run,
      step_last (by omega) rfl (by simp only []; omega) (by simp only []; omega),
        char_ofNat (c := c) (by simp only []; omega)]
    rfl
  split
  · rw [run, step_lead (by omega), lead, if_neg (by omega), if_neg (by omega),
      if_pos (by omega), run,
      step_more (by omega) (by simp only []; omega) (by simp only []; split <;> omega)
        (by simp only []; split <;> omega), run,
      step_last (by omega) rfl (by simp only []; omega) (by simp only []; omega),
      char_ofNat (c := c) (by simp only []; omega)]
    rfl
  · rw [run, step_lead (by omega), lead, if_neg (by omega), if_neg (by omega), if_neg (by omega),
      if_pos (by omega), run,
      step_more (by omega) (by simp only []; omega) (by simp only []; split <;> omega)
        (by simp only []; split <;> omega), run,
      step_more (by omega) (by simp only []; omega) (by simp only []; omega)
        (by simp only []; omega), run,
      step_last (by omega) rfl (by simp only []; omega) (by simp only []; omega),
      char_ofNat (c := c) (by simp only []; omega)]
    rfl

@[simp] theorem encode_nil : encode [] = [] := rfl

theorem encode_cons (c : Char) (cs : List Char) :
    encode (c :: cs) = String.utf8EncodeChar c ++ encode cs := rfl

theorem encode_append (cs ds : List Char) : encode (cs ++ ds) = encode cs ++ encode ds :=
  flatMap_append

theorem run_encode (cs : List Char) : run start (encode cs) = (start, cs.map some) := by
  induction cs with
  | nil => rfl
  | cons c cs ih => rw [encode_cons, run_append, run_encodeChar, ih, map_cons, singleton_append]

theorem read_encode (cs : List Char) : read (encode cs) = cs.map some := by
  rw [read, run_encode]
  exact append_nil _

theorem replace_some (cs : List Char) : replace (cs.map some) = cs := by
  rw [replace, List.map_map]
  exact List.map_id _

@[simp] theorem decode_encode (cs : List Char) : decode (encode cs) = cs := by
  rw [decode, read_encode, replace_some]

@[simp] theorem decodeFatal_encode (cs : List Char) : decodeFatal (encode cs) = some cs := by
  rw [decodeFatal, if_neg, decode_encode]
  rw [read_encode, List.mem_map]
  rintro ⟨c, -, hc⟩
  exact some_ne_none c hc

/-! ## Where a text may be cut -/

/-- `(b & 0xc0) === 0x80`. -/
def isContinuation (b : UInt8) : Bool := 0x80 ≤ b.toNat && b.toNat < 0xC0

theorem isContinuation_ofNat (h : n < 256) :
    isContinuation (UInt8.ofNat n) = (decide (0x80 ≤ n) && decide (n < 0xC0)) := by
  rw [isContinuation, toNat_ofNat h]

theorem encodeChar_shape (c : Char) :
    ∃ b bs, String.utf8EncodeChar c = b :: bs ∧ isContinuation b = false ∧
    (∀ x ∈ bs, isContinuation x = true) ∧ bs.length ≤ 3 := by
  have hrest : ∀ n < 64, isContinuation (UInt8.ofNat (n + 0x80)) = true := fun n hn => by
    rw [isContinuation_ofNat (by omega), Bool.and_eq_true, decide_eq_true_iff, decide_eq_true_iff]
    omega
  have hlead : ∀ n < 256, (n < 0x80 ∨ 0xC0 ≤ n) → isContinuation (UInt8.ofNat n) = false :=
    fun n hn h => by
    rw [isContinuation_ofNat hn, Bool.and_eq_false_iff, decide_eq_false_iff_not,
      decide_eq_false_iff_not]
    omega
  have hmod : ∀ n, n % 64 < 64 := fun n => mod_lt _ (by decide)
  rw [encodeChar_eq]
  split
  · exact ⟨_, _, rfl, hlead _ (by omega) (by omega), forall_mem_nil _, by decide⟩
  split
  · exact ⟨_, _, rfl, hlead _ (by omega) (by omega), forall_mem_singleton.mpr (hrest _ (hmod _)),
      by simp only [length_cons, length_nil]; omega⟩
  split
  · exact ⟨_, _, rfl, hlead _ (by omega) (by omega),
      forall_mem_cons.mpr ⟨hrest _ (hmod _), forall_mem_singleton.mpr (hrest _ (hmod _))⟩,
      by simp only [length_cons, length_nil]; omega⟩
  · exact ⟨_, _, rfl, hlead _ (by omega) (by omega), forall_mem_cons.mpr ⟨hrest _ (hmod _),
        forall_mem_cons.mpr ⟨hrest _ (hmod _), forall_mem_singleton.mpr (hrest _ (hmod _))⟩⟩,
      by simp only [length_cons, length_nil]; omega⟩

/-- No character is cut before these bytes. -/
def Begins (bs : List UInt8) : Prop := ∀ b ∈ bs.head?, isContinuation b = false

theorem begins_encode (cs : List Char) : Begins (encode cs) := by
  cases cs with
  | nil => exact fun b hb => absurd hb (by simp)
  | cons c cs =>
    obtain ⟨b, bs, hc, hb, -, -⟩ := encodeChar_shape c
    rw [encode_cons, hc]
    intro x hx
    obtain rfl : b = x := by simpa using hx
    exact hb

/-- A text that is cut where a character begins is two texts. -/
theorem encode_split {as : List UInt8} (h : as ++ bs = encode cs) (hb : Begins bs) :
    ∃ ls rs, cs = ls ++ rs ∧ as = encode ls ∧ bs = encode rs := by
  induction cs generalizing as with
  | nil =>
    obtain ⟨rfl, rfl⟩ := append_eq_nil_iff.mp h
    exact ⟨[], [], rfl, rfl, rfl⟩
  | cons c cs ih =>
    rw [encode_cons, append_eq_append_iff] at h
    obtain ⟨rest, hc, hrest⟩ | ⟨rest, has, hcs⟩ := h
    · -- The first part ends inside the first character, so it is empty or the character.
      obtain ⟨b, tail, hshape, -, htail, -⟩ := encodeChar_shape c
      cases as with
      | nil => exact ⟨[], c :: cs, rfl, rfl, by rw [hrest, encode_cons, ← nil_append rest, ← hc]⟩
      | cons a as =>
        cases rest with
        | nil =>
          refine ⟨[c], cs, rfl, ?_, hrest⟩
          rw [encode_cons, encode_nil, append_nil, hc, append_nil]
        | cons x rest =>
          rw [hshape, cons_append, List.cons.injEq] at hc
          have hx : isContinuation x = true := htail x (by rw [hc.2]; simp)
          have hx' := hb x (by rw [hrest]; rfl)
          rw [hx] at hx'
          cases hx'
    · obtain ⟨ls, rs, rfl, hls, hrs⟩ := ih hcs.symm
      exact ⟨c :: ls, rs, rfl, by rw [has, hls, encode_cons], hrs⟩

/-! ## Counting characters

Every byte that begins a character is read as one character or one error, and so is a byte that
should not be there. -/

/-- The characters that begin in these bytes. -/
def leads (bs : List UInt8) : Nat := bs.countP fun b => !isContinuation b

theorem leads_append (as bs : List UInt8) : leads (as ++ bs) = leads as + leads bs := countP_append

theorem leads_encode (cs : List Char) : leads (encode cs) = cs.length := by
  induction cs with
  | nil => rfl
  | cons c cs ih =>
    obtain ⟨b, bs, hc, hb, hbs, -⟩ := encodeChar_shape c
    have hrest : leads bs = 0 := countP_eq_zero.mpr fun x hx => by simp [hbs x hx]
    have hfirst : leads [b] = 1 := by simp [leads, hb]
    rw [encode_cons, leads_append, ih, hc, ← singleton_append, leads_append, hrest, hfirst,
      length_cons]
    omega

theorem leads_cons (b : UInt8) (bs : List UInt8) :
    leads (b :: bs) = leads bs + if isContinuation b then 0 else 1 := by
  rw [leads, countP_cons, leads]
  cases isContinuation b <;> rfl

/-- The next byte of a character may only be one that continues it. -/
def State.Sound (s : State) : Prop := 0x80 ≤ s.lower ∧ s.upper ≤ 0xBF

theorem sound_start : start.Sound := ⟨Nat.le_refl _, Nat.le_refl _⟩

theorem sound_lead (b : Nat) : (lead b).1.Sound := by
  unfold lead
  split
  · exact sound_start
  split
  · exact sound_start
  split
  · constructor
    · simp only []
      split <;> omega
    · simp only []
      split <;> omega
  split
  · constructor
    · simp only []
      split <;> omega
    · simp only []
      split <;> omega
  · exact sound_start

/-- What one byte can do. -/
theorem step_cases (s : State) (b : UInt8) : (s.needed = 0 ∧ step s b = lead b.toNat) ∨
      (s.needed ≠ 0 ∧ step s b = ((lead b.toNat).1, none :: (lead b.toNat).2)) ∨
      (s.needed = 1 ∧ s.lower ≤ b.toNat ∧ b.toNat ≤ s.upper ∧
        step s b = (start, [some (Char.ofNat (s.code * 64 + b.toNat % 64))])) ∨
      (1 < s.needed ∧ s.lower ≤ b.toNat ∧ b.toNat ≤ s.upper ∧
        step s b = (⟨s.needed - 1, s.code * 64 + b.toNat % 64, 0x80, 0xBF⟩, [])) := by
  by_cases h0 : s.needed = 0
  · exact .inl ⟨h0, if_pos h0⟩
  · by_cases hb : b.toNat < s.lower ∨ s.upper < b.toNat
    · exact .inr (.inl ⟨h0, (if_neg h0).trans (if_pos hb)⟩)
    · rw [not_or, Nat.not_lt, Nat.not_lt] at hb
      have hb' : ¬ (b.toNat < s.lower ∨ s.upper < b.toNat) := by omega
      by_cases h1 : s.needed = 1
      · exact .inr (.inr (.inl ⟨h1, hb.1, hb.2,
          (if_neg h0).trans ((if_neg hb').trans (if_pos h1))⟩))
      · exact .inr (.inr (.inr ⟨by omega, hb.1, hb.2, (if_neg h0).trans ((if_neg hb').trans
          (if_neg h1))⟩))

theorem sound_step (s : State) (b : UInt8) : (step s b).1.Sound := by
  obtain ⟨-, h⟩ | ⟨-, h⟩ | ⟨-, -, -, h⟩ | ⟨-, -, -, h⟩ := step_cases s b <;> rw [h]
  · exact sound_lead _
  · exact sound_lead _
  · exact sound_start
  · exact ⟨Nat.le_refl _, Nat.le_refl _⟩

/-- A first byte is read or remembered. -/
theorem lead_length (b : Nat) : 1 ≤ (lead b).2.length + min 1 (lead b).1.needed := by
  unfold lead
  split
  · simp
  split
  · simp
  split
  · simp
  split
  · simp
  · simp

theorem lead_continuation {b : UInt8} (h : isContinuation b = true) :
    lead b.toNat = (start, [none]) := by
  rw [isContinuation, Bool.and_eq_true, decide_eq_true_iff, decide_eq_true_iff] at h
  rw [lead, if_neg (by omega), if_neg (by omega), if_neg (by omega), if_neg (by omega)]

/-- One byte. -/
theorem leads_step (h : s.Sound) (b : UInt8) :
    (if isContinuation b then 0 else 1) + min 1 s.needed ≤
      (step s b).2.length + min 1 (step s b).1.needed := by
  have hlead := lead_length b.toNat
  have hle : (if isContinuation b then 0 else 1) ≤ 1 := by split <;> omega
  -- A byte within the bounds begins no character.
  have hbounds : s.lower ≤ b.toNat → b.toNat ≤ s.upper → isContinuation b = true :=
    fun hlo hhi => by
    obtain ⟨hlower, hupper⟩ := h
    rw [isContinuation, Bool.and_eq_true, decide_eq_true_iff, decide_eq_true_iff]
    omega
  obtain ⟨h0, hstep⟩ | ⟨-, hstep⟩ | ⟨h1, hlo, hhi, hstep⟩ | ⟨h1, hlo, hhi, hstep⟩ := step_cases s b
  · rw [hstep]
    omega
  · rw [hstep]
    simp only [length_cons]
    omega
  · rw [hstep, if_pos (hbounds hlo hhi), length_singleton]
    omega
  · rw [hstep, if_pos (hbounds hlo hhi), length_nil]
    simp only []
    omega

theorem length_flush (s : State) : (flush s).length = min 1 s.needed := by
  rw [flush]
  split
  · rename_i h
    rw [h]
    rfl
  · rw [length_singleton]
    omega

/-- What is read is at least as long as the characters that begin. -/
theorem leads_run (h : s.Sound) (bs : List UInt8) :
    leads bs + min 1 s.needed ≤ (run s bs).2.length + (flush (run s bs).1).length := by
  induction bs generalizing s with
  | nil =>
    rw [run, length_flush]
    exact Nat.le_refl _
  | cons b bs ih =>
    have hih := ih (sound_step s b)
    have hstep := leads_step h b
    rw [run, length_append, leads_cons]
    simp only []
    omega

theorem leads_le_length_read (bs : List UInt8) : leads bs ≤ (read bs).length := by
  rw [read, length_append]
  exact leads_run sound_start bs

/-- Bytes that begin inside a character are read as more than they begin. -/
theorem begins_of_length_read (h : (read bs).length ≤ leads bs) : Begins bs := by
  intro b hb
  cases bs with
  | nil => cases hb
  | cons x bs =>
    obtain rfl : x = b := by simpa using hb
    cases hx : isContinuation x with
    | false => rfl
    | true =>
      have hrun := leads_run sound_start bs
      have hstep : step start x = (start, [none]) := lead_continuation hx
      rw [read, run, hstep, leads_cons, if_pos hx, length_append, length_append,
        length_singleton] at h
      simp only [] at h
      omega

theorem begins_flatten (h : ∀ p ∈ ps, Begins p) : Begins ps.flatten := by
  induction ps with
  | nil => exact begins_encode []
  | cons p ps ih =>
    cases p with
    | nil => exact ih fun q hq => h q (mem_cons_of_mem _ hq)
    | cons b p => exact fun x hx => h (b :: p) mem_cons_self x hx

/-- A text that is only cut where characters begin is several texts. -/
theorem encode_pieces (h : ps.flatten = encode cs)
    (hb : ∀ p ∈ ps, Begins p) : ∀ p ∈ ps, ∃ ds, p = encode ds := by
  induction ps generalizing cs with
  | nil => exact fun p hp => absurd hp not_mem_nil
  | cons p ps ih =>
    have hrest : ∀ q ∈ ps, Begins q := fun q hq => hb q (mem_cons_of_mem _ hq)
    obtain ⟨ls, rs, -, hls, hrs⟩ := encode_split (flatten_cons.symm.trans h) (begins_flatten hrest)
    exact forall_mem_cons.mpr ⟨⟨ls, hls⟩, ih hrs hrest⟩

theorem decode_pieces (h : ∀ p ∈ ps, ∃ ds, p = encode ds) :
    encode (ps.flatMap decode) = ps.flatten := by
  induction ps with
  | nil => rfl
  | cons p ps ih =>
    obtain ⟨⟨ds, rfl⟩, hps⟩ := forall_mem_cons.mp h
    rw [flatten_cons, flatMap_cons, encode_append, decode_encode, ih hps]

theorem encode_injective {ds : List Char} (h : encode cs = encode ds) : cs = ds := by
  rw [← decode_encode cs, h, decode_encode]

theorem length_decode (bs : List UInt8) : (decode bs).length = (read bs).length := length_map _

/-- The pieces of a text read one by one give the text only where no character is cut. -/
theorem decode_pieces_iff (h : ps.flatten = encode cs) :
    ps.flatMap decode = cs ↔ ∀ p ∈ ps, ∃ ds, p = encode ds := by
  constructor
  · intro heq
    have htotal : (ps.flatMap decode).length ≤ leads ps.flatten :=
      Nat.le_of_eq (by rw [heq, h, leads_encode])
    have hbegins : ∀ qs : List (List UInt8), leads qs.flatten ≤ (qs.flatMap decode).length ∧
        ((qs.flatMap decode).length ≤ leads qs.flatten → ∀ q ∈ qs, Begins q) := fun qs => by
      induction qs with
      | nil => exact ⟨Nat.le_refl _, fun _ q hq => absurd hq not_mem_nil⟩
      | cons q qs ih =>
        have hq := leads_le_length_read q
        rw [flatten_cons, leads_append, flatMap_cons, length_append, length_decode]
        refine ⟨by omega, fun hle => forall_mem_cons.mpr ⟨begins_of_length_read ?_, ih.2 ?_⟩⟩
        · omega
        · omega
    exact encode_pieces h ((hbegins ps).2 htotal)
  · exact fun hps => encode_injective ((decode_pieces hps).trans h)

/-! ## The size of what is read -/

/-- The bytes of the characters that were read without an error. -/
def encoded (out : List (Option Char)) : List UInt8 := encode (out.filterMap id)

/-- What is remembered after so many bytes of a character becomes no longer character than its
bytes. -/
def State.Fits (s : State) (taken : Nat) : Prop :=
  (s.needed = 0 ∧ taken = 0) ∨ (s.needed = 1 ∧ s.code < 32 ∧ taken = 1) ∨
    (s.needed = 1 ∧ s.code < 1024 ∧ taken = 2) ∨
    (s.needed = 1 ∧ taken = 3) ∨ (s.needed = 2 ∧ s.code < 16 ∧ taken = 1) ∨
      (s.needed = 2 ∧ taken = 2) ∨
    (s.needed = 3 ∧ taken = 1)

theorem length_encodeChar_ofNat {k : Nat}
    (h : n < 0x80 ∧ 1 ≤ k ∨ n < 0x800 ∧ 2 ≤ k ∨ n < 0x10000 ∧ 3 ≤ k ∨ 4 ≤ k) :
    (String.utf8EncodeChar (Char.ofNat n)).length ≤ k := by
  have hn : (Char.ofNat n).toNat ≤ n := by
    rw [Char.ofNat]
    split
    · exact Nat.le_refl n
    · exact Nat.zero_le n
  rw [encodeChar_eq]
  split
  · simp only [length_cons, length_nil]
    omega
  split
  · simp only [length_cons, length_nil]
    omega
  split
  · simp only [length_cons, length_nil]
    omega
  · simp only [length_cons, length_nil]
    omega

theorem encoded_append (xs ys : List (Option Char)) :
    encoded (xs ++ ys) = encoded xs ++ encoded ys := by
  rw [encoded, filterMap_append, encode_append]
  rfl

/-- A first byte. -/
theorem lead_fits (b : Nat) :
    ∃ taken, (lead b).1.Fits taken ∧ (encoded (lead b).2).length + taken ≤ 1 := by
  unfold lead
  split
  · refine ⟨0, .inl ⟨rfl, rfl⟩, ?_⟩
    rw [encoded, filterMap_cons, id, filterMap_nil, encode_cons, encode_nil, append_nil]
    exact length_encodeChar_ofNat (.inl ⟨by omega, Nat.le_refl _⟩)
  split
  · exact ⟨1, .inr (.inl ⟨rfl, Nat.mod_lt _ (by decide), rfl⟩), Nat.le_refl _⟩
  split
  · exact ⟨1, .inr (.inr (.inr (.inr (.inl ⟨rfl, Nat.mod_lt _ (by decide), rfl⟩)))), Nat.le_refl _⟩
  split
  · exact ⟨1, .inr (.inr (.inr (.inr (.inr (.inr ⟨rfl, rfl⟩))))), Nat.le_refl _⟩
  · exact ⟨0, .inl ⟨rfl, rfl⟩, Nat.zero_le _⟩

theorem step_fits {taken : Nat} (h : s.Fits taken) (b : UInt8) :
    ∃ taken', (step s b).1.Fits taken' ∧ (encoded (step s b).2).length + taken' ≤ taken + 1 := by
  obtain ⟨h0, hstep⟩ | ⟨-, hstep⟩ | ⟨h1, -, -, hstep⟩ | ⟨h1, -, -, hstep⟩ := step_cases s b
  · obtain ⟨taken', hfits, hle⟩ := lead_fits b.toNat
    rw [hstep]
    exact ⟨taken', hfits, by omega⟩
  · obtain ⟨taken', hfits, hle⟩ := lead_fits b.toNat
    rw [hstep]
    refine ⟨taken', hfits, ?_⟩
    change (encoded ([none] ++ (lead b.toNat).2)).length + taken' ≤ taken + 1
    rw [encoded_append, length_append]
    have hzero : (encoded [none]).length = 0 := rfl
    omega
  · rw [hstep]
    refine ⟨0, .inl ⟨rfl, rfl⟩, ?_⟩
    rw [encoded, filterMap_cons, id, filterMap_nil, encode_cons, encode_nil, append_nil]
    refine length_encodeChar_ofNat ?_
    obtain h | h | h | h | h | h | h := h <;> omega
  · rw [hstep]
    refine ⟨taken + 1, ?_, by simp [encoded]⟩
    unfold State.Fits at h ⊢
    simp only
    omega

theorem run_fits {taken : Nat} (h : s.Fits taken) (bs : List UInt8) :
    (encoded (run s bs).2).length ≤ taken + bs.length := by
  induction bs generalizing s taken with
  | nil => exact zero_le _
  | cons b bs ih =>
    obtain ⟨taken', hfits, hle⟩ := step_fits h b
    have hrest := ih hfits
    rw [run, encoded_append, length_append, length_cons]
    omega

/-- A text is no longer than the bytes that it was read from. -/
theorem length_encode_of_decodeFatal (h : decodeFatal bs = some cs) :
    (encode cs).length ≤ bs.length := by
  rw [decodeFatal] at h
  split at h
  · cases h
  · rename_i hnone
    obtain rfl := some.inj h
    have hsome : ∀ out : List (Option Char), none ∉ out → out.filterMap id = replace out :=
      fun out => by
      induction out with
      | nil => exact fun _ => rfl
      | cons x out ih =>
        intro hx
        rw [mem_cons, not_or] at hx
        cases x with
        | none => exact absurd rfl hx.1
        | some c => exact congrArg (c :: ·) (ih hx.2)
    have hflush : encoded (flush (run start bs).1) = [] := by
      rw [flush]
      split <;> rfl
    have hfits := run_fits (show start.Fits 0 from .inl ⟨rfl, rfl⟩) bs
    rw [decode, ← hsome _ hnone]
    change (encoded (read bs)).length ≤ bs.length
    rw [read, encoded_append, hflush, append_nil]
    omega

end Utf8
