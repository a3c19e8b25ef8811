import Mathlib
import Swarmy.Dns.Chase

/-!
# Records as they were written

What a manual record's answer says, against what its value says: a TXT value cut into strings, the
fields of an MX, SRV or CAA value, and any other value as it is.  The answer is right for every
value that is written in its type's format with a tag that is known.
-/

namespace Swarmy.Dns

open List Option Nat

/-! ## What a value says -/

/-- A decimal number below a bound. -/
def IsDecimal (bound n : Nat) (ds : List Char) : Prop :=
  ds ≠ [] ∧ (∀ d ∈ ds, d.isDigit = true) ∧ Nat.ofDigitChars 10 ds 0 = n ∧ n < bound

def IsBlank (b : List Char) : Prop := b ≠ [] ∧ ∀ c ∈ b, Js.isSpace c = true

def IsWord (w : List Char) : Prop := w ≠ [] ∧ ∀ c ∈ w, Js.isSpace c = false

/-- `weight port target`, and perhaps blanks after it. -/
def SrvText (value : List Char) (weight port : Nat) (target : List Char) : Prop :=
  ∃ w b p b' e, value = w ++ (b ++ (p ++ (b' ++ (target ++ e)))) ∧
    IsDecimal 65536 weight w ∧ IsBlank b ∧
    IsDecimal 65536 port p ∧ IsBlank b' ∧ IsWord target ∧ ∀ c ∈ e, Js.isSpace c = true

/-- A value in quotes, or one without any. -/
def IsQuoted (v r : List Char) : Prop :=
  '"' ∉ v ∧ (r = '"' :: (v ++ ['"']) ∨ r = v ∧ v.head?.any Js.isSpace = false)

/-- `flags tag "value"`. -/
def CaaText (value : List Char) (flags : Nat) (tag v : List Char) : Prop :=
  ∃ f b b' r, value = f ++ (b ++ (tag ++ (b' ++ r))) ∧ IsDecimal 256 flags f ∧ IsBlank b ∧
    IsWord tag ∧
    IsBlank b' ∧ IsQuoted v r

/-- Strings of at most 255 bytes that make up a value. -/
structure TxtText (value : String) (strings : List String) : Prop where
  concat : strings.flatMap String.toList = value.toList
  nonempty : ∀ s ∈ strings, s ≠ ""
  short : ∀ s ∈ strings, (bytes s).length ≤ 255

/-- The data of an answer are what a record's value says. -/
inductive SaysData (r : StaticDnsRecord) : Data → Prop where
  | string (h : r.type = .txt) (s : String) (hs : TxtText r.value [s]) : SaysData r (.text s)
  | strings (h : r.type = .txt) (ss : List String) (hs : TxtText r.value ss) :
    SaysData r (.texts ss)
  | mx (h : r.type = .mx) : SaysData r (.mx (r.priority.getD 10) r.value)
  | srv (h : r.type = .srv) (weight port : Nat) (target : String)
      (hs : SrvText r.value.toList weight port target.toList) :
      SaysData r (.srv (r.priority.getD 0) (.int weight) (.int port) target)
  | caa (h : r.type = .caa) (flags : Nat) (tag v : String)
    (hs : CaaText r.value.toList flags tag.toList v.toList) :
      SaysData r (.caa (.int flags) tag v)
  | plain (h : r.type ∈ [.a, .aaaa, .cname, .ns]) : SaysData r (.text r.value)

/-- The tags that a CAA record is served with. -/
def caaTags : List String := ["issue", "issuewild", "iodef"]

/-- An SRV or CAA value that is written in its format; any other value is. -/
def WellWritten (r : StaticDnsRecord) : Prop :=
  (r.type = .srv → ∃ weight port target, SrvText r.value.toList weight port target) ∧
    (r.type = .caa → ∃ flags tag v, CaaText r.value.toList flags tag v ∧
      String.ofList tag ∈ caaTags)

/-- An answer is what a record says. -/
structure Says {Client : Type} (H : Host Client) (zone : DnsZoneSnapshot) (r : StaticDnsRecord)
    (a : Answer) : Prop where
  name : a.name = relativeToFqdn H.toLowerCase r.name zone.zone
  type : a.type = r.type.text
  ttl : a.ttl = r.ttl.getD zone.ttl
  data : SaysData r a.data

/-- An address of a nameserver with this name, or of an endpoint that the name is steered to. -/
def FromEdge (zone : DnsZoneSnapshot) (owner : String) (a : Answer) : Prop :=
  ∃ ip, a = ⟨owner, "A", zone.ttl, .text ip⟩ ∧
    ((∃ ns ∈ zone.nameservers, ns.fqdn = owner ∧ ns.ip = ip) ∨
    ∃ g ∈ zone.geoRecords, g.host = owner ∧ ∃ e ∈ g.endpoints, e.ip = ip)

/-- The manual records of a name and a type. -/
def recordsOf {Client : Type} (H : Host Client) (zone : DnsZoneSnapshot) (owner : String)
    (type : DnsRecordType) :
    List StaticDnsRecord := (staticsOf H zone owner).filter (·.type = type)

/-- The records of a name and a type are each served once as they were written, and besides them
there are only the edge's addresses. -/
def ServedAsWritten {Client : Type} (H : Host Client) (zone : DnsZoneSnapshot) (owner : String)
    (type : DnsRecordType)
    (answers : List Answer) : Prop :=
  ∃ edge manual, answers = edge ++ manual ∧ (∀ a ∈ edge, FromEdge zone owner a) ∧
    List.Forall₂ (Says H zone) (recordsOf H zone owner type) manual

/-! ## TXT -/

theorem cutEnd_le (rest : List UInt8) (n : Nat) : cutEnd rest n ≤ n := by
  induction n with
  | zero => exact le_refl _
  | succ n ih =>
    rw [cutEnd]
    split
    · exact le_succ_of_le ih
    · exact le_refl _

/-- Between where a piece ends and where it might have ended, no character begins. -/
theorem cutEnd_skipped {rest : List UInt8} {n k : Nat} (hk : cutEnd rest n < k) (hn : k ≤ n) :
    k < rest.length ∧ Utf8.isContinuation (rest.getD k 0) = true := by
  induction n with
  | zero => omega
  | succ n ih =>
    rw [cutEnd] at hk
    split at hk
    · rename_i h
      obtain rfl | hlt := Nat.eq_or_lt_of_le hn
      · exact h
      · exact ih hk (le_of_lt_succ hlt)
    · omega

/-- A piece that has bytes ends where a character begins, or at the end. -/
theorem cutEnd_begins {rest : List UInt8} {n : Nat} (h : 0 < cutEnd rest n) :
    Utf8.Begins (rest.drop (cutEnd rest n)) := by
  induction n with
  | zero => exact absurd h (lt_irrefl _)
  | succ n ih =>
    rw [cutEnd] at h ⊢
    split
    · rename_i hcond
      rw [if_pos hcond] at h
      exact ih h
    · rename_i hcond
      intro b hb
      rw [List.head?_drop] at hb
      obtain ⟨hlt, hget⟩ := List.getElem?_eq_some_iff.mp hb
      rw [not_and, Bool.not_eq_true] at hcond
      have := hcond hlt
      rwa [getD_eq_getElem _ _ hlt, hget] at this

/-- A piece of a text has bytes. -/
theorem cutEnd_pos {cs : List Char} (hne : cs ≠ []) :
    0 < cutEnd (Utf8.encode cs) (min 255 (Utf8.encode cs).length) := by
  obtain ⟨c, cs, rfl⟩ := exists_cons_of_ne_nil hne
  obtain ⟨b, bs, hc, -, hbs, hlen⟩ := Utf8.encodeChar_shape c
  have henc : Utf8.encode (c :: cs) = b :: (bs ++ Utf8.encode cs) := by
    rw [Utf8.encode_cons, hc, cons_append]
  rw [Nat.pos_iff_ne_zero]
  intro hzero
  -- The byte after the first character either is not there or begins one.
  have hlength : (Utf8.encode (c :: cs)).length = bs.length + (Utf8.encode cs).length + 1 := by
    rw [henc, length_cons, length_append]
  obtain ⟨hlt, hcont⟩ := cutEnd_skipped
    (show cutEnd (Utf8.encode (c :: cs)) (min 255 (Utf8.encode (c :: cs)).length) <
      bs.length + 1 by omega) (by omega)
  rw [hlength] at hlt
  have hbegins := Utf8.begins_encode cs
  cases hcs : Utf8.encode cs with
  | nil =>
    rw [hcs, length_nil] at hlt
    omega
  | cons x xs =>
    have hx := hbegins x (by rw [hcs]; rfl)
    rw [henc, hcs, getD_cons_succ, getD_append_right _ _ _ _ (le_refl _), Nat.sub_self,
      getD_cons_zero, hx] at hcont
    cases hcont

theorem txtPieces_encode {fuel : Nat} {cs : List Char} (h : (Utf8.encode cs).length ≤ fuel) :
    ∃ ps, txtPieces fuel (Utf8.encode cs) = some ps ∧ ps.flatten = Utf8.encode cs ∧
      ∀ p ∈ ps, p ≠ [] ∧ p.length ≤ 255 ∧ ∃ ds, p = Utf8.encode ds := by
  induction fuel generalizing cs with
  | zero =>
    rw [eq_nil_of_length_eq_zero (le_zero.mp h)]
    exact ⟨[], rfl, rfl, fun p hp => absurd hp not_mem_nil⟩
  | succ fuel ih =>
    cases hcs : Utf8.encode cs with
    | nil => exact ⟨[], rfl, rfl, fun p hp => absurd hp not_mem_nil⟩
    | cons b rest =>
      have hne : cs ≠ [] := fun hnil => by rw [hnil] at hcs; cases hcs
      have hpos := cutEnd_pos hne
      rw [hcs] at hpos
      rw [hcs, length_cons] at h
      simp only [txtPieces]
      generalize hn : cutEnd (b :: rest) (min 255 (rest.length + 1)) = n at hpos ⊢
      have hle : n ≤ min 255 (rest.length + 1) := hn ▸ cutEnd_le _ _
      have hbegins : Utf8.Begins ((b :: rest).drop n) := hn ▸ cutEnd_begins (hn.symm ▸ hpos)
      obtain ⟨ls, rs, -, hls, hrs⟩ :=
        Utf8.encode_split ((take_append_drop n _).trans hcs.symm) hbegins
      have hlength : ((b :: rest).drop n).length ≤ fuel := by
        rw [length_drop, length_cons]
        omega
      rw [hrs] at hlength
      obtain ⟨ps, hps, hflat, hall⟩ := ih hlength
      refine ⟨(b :: rest).take n :: ps, ?_, ?_, forall_mem_cons.mpr ⟨⟨?_, ?_, ls, hls⟩, hall⟩⟩
      · rw [hrs, hps, map_some]
      · rw [flatten_cons, hflat, ← hrs, take_append_drop]
      · intro hnil
        have hzero := congrArg List.length hnil
        rw [length_take, length_cons, length_nil] at hzero
        omega
      · rw [length_take]
        omega

theorem bytes_eq (s : String) : bytes s = Utf8.encode s.toList := rfl

theorem txtText_txtStrings {value : String} (hv : value ≠ "") :
    TxtText value (txtStrings value) := by
  rw [txtStrings]
  split
  · rename_i h
    exact ⟨by simp, by simpa using hv, by simpa using h⟩
  · obtain ⟨ps, hps, hflat, hall⟩ := txtPieces_encode (le_refl (Utf8.encode value.toList).length)
    rw [bytes_eq, hps, getD_some]
    have henc : ∀ p ∈ ps, ∃ ds, p = Utf8.encode ds := fun p hp => (hall p hp).2.2
    refine ⟨?_, ?_, ?_⟩
    · rw [flatMap_map]
      simp only [String.toList_ofList]
      exact (Utf8.decode_pieces_iff hflat).mpr henc
    · intro s hs
      obtain ⟨p, hp, rfl⟩ := mem_map.mp hs
      obtain ⟨hne, -, ds, rfl⟩ := hall p hp
      intro hnil
      rw [show ds = [] from by simpa using congrArg String.toList hnil] at hne
      exact hne rfl
    · intro s hs
      obtain ⟨p, hp, rfl⟩ := mem_map.mp hs
      obtain ⟨-, hlen, ds, rfl⟩ := hall p hp
      rw [bytes_eq, String.toList_ofList, Utf8.decode_encode]
      exact hlen

theorem saysData_txt {Client : Type} (H : Host Client) {r : StaticDnsRecord} (h : r.type = .txt)
    (hv : r.value ≠ "") :
    SaysData r (staticData H r) := by
  have htext := txtText_txtStrings hv
  simp only [staticData, h]
  split
  · rename_i hone
    obtain ⟨s, hs⟩ := length_eq_one_iff.mp hone
    rw [hs] at htext
    have hsv : s = r.value := String.toList_inj.mp (by simpa using htext.concat)
    rw [hsv] at htext
    exact .string h r.value htext
  · exact .strings h _ htext

/-! ## SRV and CAA -/

/-- What the answers need of letters, numbers and ranks. -/
structure Host.Lawful {Client : Type} (H : Host Client) : Prop where
  /-- A text is in lower case when its letters are. -/
  lower_eq_iff : ∀ s, H.toLowerCase s = s ↔
    ∀ c ∈ s.toList, H.toLowerCase (String.singleton c) = String.singleton c
  lower_lower : ∀ s, H.toLowerCase (H.toLowerCase s) = H.toLowerCase s
  lower_dot : H.toLowerCase "." = "."
  /-- The names of types are in upper case. -/
  upper_type : ∀ t : DnsRecordType, H.toUpperCase t.text = t.text
  number_decimal : ∀ bound n ds, bound ≤ 65536 → IsDecimal bound n ds →
    H.number (String.ofList ds) = .int n
  rank_perm : ∀ client ts, (H.rank client ts).Perm ts

theorem digit_not_space {c : Char} (h : c.isDigit = true) : Js.isSpace c = false := by
  have hc : 48 ≤ c.toNat ∧ c.toNat ≤ 57 := by
    simp only [Char.isDigit, Bool.and_eq_true, decide_eq_true_eq, ge_iff_le,
      UInt32.le_iff_toNat_le] at h
    exact h
  simp only [Js.isSpace, Bool.or_eq_false_iff, decide_eq_false_iff_not, mem_cons,
    not_mem_nil, or_false,
    Bool.and_eq_false_iff]
  omega

theorem IsDecimal.isWord {bound n : Nat} {ds : List Char} (h : IsDecimal bound n ds) : IsWord ds :=
  ⟨h.1, fun d hd => digit_not_space (h.2.1 d hd)⟩

theorem IsWord.head {w : List Char} (h : IsWord w) (r : List Char) :
    (w ++ r).head?.any Js.isSpace = false := by
  obtain ⟨c, w, rfl⟩ := exists_cons_of_ne_nil h.1
  exact h.2 c mem_cons_self

/-- A word and the blanks after it are a piece. -/
theorem splitSpaces_word_blank {w b r : List Char} (hw : IsWord w) (hb : IsBlank b)
    (hr : r.head?.any Js.isSpace = false) :
    Js.splitSpaces (w ++ (b ++ r)) = w :: Js.splitSpaces r := by
  rw [Js.splitSpaces_word hw.2, Js.splitSpaces_blanks hb.2 hb.1 hr, headD_cons,
    append_nil, tail_cons]

theorem splitSpaces_last {w e : List Char} (hw : IsWord w) (he : ∀ c ∈ e, Js.isSpace c = true) :
    (Js.splitSpaces (w ++ e)).head? = some w := by
  rw [Js.splitSpaces_word hw.2, List.head?_cons]
  cases e with
  | nil => rw [Js.splitSpaces, headD_cons, append_nil]
  | cons c e =>
    have hblank := Js.splitSpaces_blanks (r := []) he (cons_ne_nil _ _) rfl
    rw [append_nil] at hblank
    rw [hblank, headD_cons, append_nil]

variable {Client : Type} {H : Host Client}

theorem saysData_srv (hH : H.Lawful) {r : StaticDnsRecord} (h : r.type = .srv) {weight port : Nat}
    {target : List Char} (hv : SrvText r.value.toList weight port target) :
    SaysData r (staticData H r) := by
  have htext := hv
  obtain ⟨w, b, p, b', e, hvalue, hw, hb, hp, hb', ht, he⟩ := hv
  have hsplit : Js.splitSpaces r.value.toList = w :: p :: Js.splitSpaces (target ++ e) := by
    rw [hvalue, splitSpaces_word_blank hw.isWord hb (hp.isWord.head _),
      splitSpaces_word_blank hp.isWord hb' (ht.head _)]
  have hlast := splitSpaces_last ht he
  obtain ⟨rest, hrest⟩ : ∃ rest, Js.splitSpaces (target ++ e) = target :: rest := by
    cases hs : Js.splitSpaces (target ++ e) with
    | nil => exact absurd hs (Js.splitSpaces_ne_nil _)
    | cons x rest =>
      rw [hs, List.head?_cons, Option.some.injEq] at hlast
      exact ⟨rest, by rw [hlast]⟩
  simp only [staticData, h, hsplit, hrest, map_cons, List.getElem?_cons_zero,
    List.getElem?_cons_succ,
    getD_some]
  rw [hH.number_decimal _ _ _ (le_refl _) hw, hH.number_decimal _ _ _ (le_refl _) hp]
  exact .srv h weight port (String.ofList target) (by rwa [String.toList_ofList])

/-- The longest part of a text that satisfies a test. -/
theorem span_append {p : Char → Bool} {w r : List Char} (hw : ∀ c ∈ w, p c = true)
    (hr : r.head?.any p = false) :
    (w ++ r).span p = (w, r) := by
  rw [span_eq_takeWhile_dropWhile, takeWhile_append_of_pos hw, dropWhile_append_of_pos hw]
  cases r with
  | nil => simp
  | cons c r =>
    have hc : p c = false := hr
    rw [takeWhile_cons_of_neg (by rw [hc]; exact Bool.false_ne_true),
      dropWhile_cons_of_neg (by rw [hc]; exact Bool.false_ne_true), append_nil]

theorem caaMatch_caaText {value : String} {flags : Nat} {tag v : List Char}
    (h : CaaText value.toList flags tag v) : ∃ f, IsDecimal 256 flags f ∧
      caaMatch value = some (String.ofList f, String.ofList tag, String.ofList v) := by
  obtain ⟨f, b, b', r, hvalue, hf, hb, ht, hb', hv, hr⟩ := h
  refine ⟨f, hf, ?_⟩
  have hblank : ∀ {b r : List Char}, IsBlank b → (b ++ r).head?.any Char.isDigit = false :=
    fun {b r} hb => by
    obtain ⟨c, b, rfl⟩ := exists_cons_of_ne_nil hb.1
    rw [cons_append, List.head?_cons, any_some, ← Bool.not_eq_true]
    intro hc
    have hspace := hb.2 c mem_cons_self
    rw [digit_not_space hc] at hspace
    cases hspace
  have hword : ∀ {b r : List Char}, IsBlank b →
      (b ++ r).head?.any (fun c => !Js.isSpace c) = false :=
    fun {b r} hb => by
      obtain ⟨c, b, rfl⟩ := exists_cons_of_ne_nil hb.1
      rw [cons_append, List.head?_cons, any_some, hb.2 c mem_cons_self]
      rfl
  have hrhead : r.head?.any Js.isSpace = false := by
    obtain rfl | ⟨rfl, hspace⟩ := hr
    · rfl
    · exact hspace
  have hv' : ∀ c ∈ v, decide (c ≠ '"') = true := fun c hc => decide_eq_true fun heq => hv (heq ▸ hc)
  obtain ⟨f0, fs, hfs⟩ := exists_cons_of_ne_nil hf.1
  obtain ⟨b0, bs, hbs⟩ := exists_cons_of_ne_nil hb.1
  obtain ⟨t0, ts, hts⟩ := exists_cons_of_ne_nil ht.1
  obtain ⟨c0, cs, hcs⟩ := exists_cons_of_ne_nil hb'.1
  have h1 := span_append hf.2.1 (hblank (r := tag ++ (b' ++ r)) hb)
  have h2 := span_append hb.2 (ht.head (b' ++ r))
  have h3 := span_append (p := fun c => !Js.isSpace c) (fun c hc => by rw [ht.2 c hc]; rfl)
      (hword (r := r) hb')
  have h4 := span_append hb'.2 hrhead
  rw [hfs] at h1
  rw [hbs] at h1 h2
  rw [hts] at h1 h2 h3
  rw [hcs] at h1 h2 h3 h4
  simp only [caaMatch, hvalue, hfs, hbs, hts, hcs, h1, h2, h3, h4]
  obtain rfl | ⟨rfl, -⟩ := hr
  · have hdrop : (v ++ ['"']).dropWhile (fun c => decide (c ≠ '"')) = ['"'] := by
      rw [dropWhile_append_of_pos hv']
      rfl
    have htake : (v ++ ['"']).takeWhile (fun c => decide (c ≠ '"')) = v := by
      rw [takeWhile_append_of_pos hv', takeWhile_cons_of_neg (by simp), append_nil]
    rw [List.head?_cons, if_pos rfl, tail_cons, hdrop, htake, if_pos (by simp)]
  · have hhead : r.head? ≠ some '"' := fun hq => hv (mem_of_head? hq)
    rw [if_neg hhead, dropWhile_eq_nil_iff.2 hv', if_pos (by simp),
      (takeWhile_eq_self_iff (p := fun c => decide (c ≠ '"'))).mpr hv']

theorem saysData_caa (hH : H.Lawful) {r : StaticDnsRecord} (h : r.type = .caa) {flags : Nat}
    {tag v : List Char}
    (hv : CaaText r.value.toList flags tag v) (htag : String.ofList tag ∈ caaTags) :
    SaysData r (staticData H r) := by
  obtain ⟨f, hf, hmatch⟩ := caaMatch_caaText hv
  have hserved : (if String.ofList tag = "issuewild" ∨
      String.ofList tag = "iodef" then String.ofList tag else "issue") =
      String.ofList tag := by
    rw [caaTags, mem_cons, mem_cons, mem_singleton] at htag
    split
    · rfl
    · rename_i hnot
      exact (htag.resolve_right hnot).symm
  simp only [staticData, h, hmatch, map_some, getD_some, hserved]
  rw [hH.number_decimal _ _ _ (by decide) hf]
  exact .caa h flags _ _ (by rwa [String.toList_ofList, String.toList_ofList])

theorem SaysData.srvText {r : StaticDnsRecord} {d : Data} (h : SaysData r d)
    (hsrv : r.type = .srv) :
    ∃ weight port target, SrvText r.value.toList weight port target := by
  cases h with
  | srv _ weight port target hs => exact ⟨weight, port, _, hs⟩
  | string htype | strings htype | mx htype | caa htype =>
    rw [hsrv] at htype
    cases htype
  | plain htype =>
    rw [hsrv] at htype
    exact absurd htype (by decide)

theorem SaysData.caaText {r : StaticDnsRecord} {d : Data} (h : SaysData r d)
    (hcaa : r.type = .caa) :
    ∃ (flags : Nat) (tag v : String), d = .caa (.int flags) tag v ∧
      CaaText r.value.toList flags tag.toList v.toList := by
  cases h with
  | caa _ flags tag v hs => exact ⟨flags, tag, v, rfl, hs⟩
  | string htype | strings htype | mx htype | srv htype =>
    rw [hcaa] at htype
    cases htype
  | plain htype =>
    rw [hcaa] at htype
    exact absurd htype (by decide)

/-- A tag that is not known is served as `issue`. -/
theorem served_tag (tag : String) :
    (if tag = "issuewild" ∨ tag = "iodef" then tag else "issue") ∈ caaTags := by
  split
  · rename_i h
    exact mem_cons_of_mem _ (mem_cons.mpr (h.imp_right mem_singleton.mpr))
  · exact mem_cons_self

/-- The data of a kept record are what its value says exactly when the value is well written. -/
theorem saysData_iff (hH : H.Lawful) {r : StaticDnsRecord} (hv : r.value ≠ "") :
    SaysData r (staticData H r) ↔ WellWritten r := by
  constructor
  · intro h
    refine ⟨h.srvText, fun hcaa => ?_⟩
    obtain ⟨flags, tag, v, hdata, hs⟩ := h.caaText hcaa
    simp only [staticData, hcaa, Data.caa.injEq] at hdata
    refine ⟨flags, tag.toList, v.toList, hs, ?_⟩
    rw [String.ofList_toList, ← hdata.2.1]
    exact served_tag _
  · rintro ⟨hsrv, hcaa⟩
    cases htype : r.type with
    | srv =>
      obtain ⟨weight, port, target, hs⟩ := hsrv htype
      exact saysData_srv hH htype hs
    | caa =>
      obtain ⟨flags, tag, v, hs, htag⟩ := hcaa htype
      exact saysData_caa hH htype hs htag
    | txt => exact saysData_txt H htype hv
    | mx =>
      simp only [staticData, htype]
      exact .mx htype
    | a =>
      simp only [staticData, htype]
      exact .plain (by rw [htype]; decide)
    | aaaa =>
      simp only [staticData, htype]
      exact .plain (by rw [htype]; decide)
    | cname =>
      simp only [staticData, htype]
      exact .plain (by rw [htype]; decide)
    | ns =>
      simp only [staticData, htype]
      exact .plain (by rw [htype]; decide)

/-! ## The name of a record -/

theorem getLast_dropDots (s : String) : (dropDots s).toList.getLast? ≠ some '.' := by
  rw [dropDots, String.toList_ofList, List.getLast?_reverse]
  intro h
  have hhead := List.head?_dropWhile_not (fun c => decide (c = '.')) s.toList.reverse
  rw [h] at hhead
  exact absurd hhead (by decide)

theorem mem_dropDots {s : String} {c : Char} (h : c ∈ (dropDots s).toList) : c ∈ s.toList := by
  rw [dropDots, String.toList_ofList, mem_reverse] at h
  exact mem_reverse.mp (dropWhile_sublist _ |>.mem h)

theorem dropDots_of_getLast {s : String} (h : s.toList.getLast? ≠ some '.') : dropDots s = s := by
  have hdrop : s.toList.reverse.dropWhile (fun c => decide (c = '.')) = s.toList.reverse := by
    cases hs : s.toList.reverse with
    | nil => rfl
    | cons c cs =>
      rw [← List.head?_reverse, hs, List.head?_cons] at h
      exact dropWhile_cons_of_neg fun hc => h (congrArg some (of_decide_eq_true hc))
  rw [dropDots, hdrop, reverse_reverse, String.ofList_toList]

theorem lower_normalize (hH : H.Lawful) (s : String) :
    H.toLowerCase (normalize H.toLowerCase s) = normalize H.toLowerCase s :=
  (hH.lower_eq_iff _).mpr fun c hc => (hH.lower_eq_iff _).mp (hH.lower_lower s) c (mem_dropDots hc)

/-- A full name is in lower case, and no dots end it. -/
theorem lower_relativeToFqdn (hH : H.Lawful) {name zname : String}
    (hz : normalize H.toLowerCase zname ≠ "") :
    lower H (relativeToFqdn H.toLowerCase name (normalize H.toLowerCase zname)) =
      relativeToFqdn H.toLowerCase name (normalize H.toLowerCase zname) := by
  have hzone := lower_normalize hH zname
  have hname := lower_normalize hH name
  have hlast := getLast_dropDots (H.toLowerCase zname)
  rw [← normalize] at hlast
  generalize normalize H.toLowerCase zname = zone at hz hzone hlast ⊢
  rw [relativeToFqdn]
  split
  · rw [lower, hzone, dropDots_of_getLast hlast]
  · rw [lower]
    have hfixed : H.toLowerCase (normalize H.toLowerCase name ++ "." ++ zone) =
        normalize H.toLowerCase name ++ "." ++ zone := by
      refine (hH.lower_eq_iff _).mpr fun c hc => ?_
      rw [String.toList_append, String.toList_append, mem_append, mem_append] at hc
      obtain (hc | hc) | hc := hc
      · exact (hH.lower_eq_iff _).mp hname c hc
      · exact (hH.lower_eq_iff _).mp hH.lower_dot c hc
      · exact (hH.lower_eq_iff _).mp hzone c hc
    rw [hfixed, dropDots_of_getLast]
    have hne : zone.toList ≠ [] := fun h => hz (String.toList_inj.mp h)
    rwa [String.toList_append, List.getLast?_append_of_ne_nil _ hne]

/-! ## The question for a record -/

theorem mem_recordsOf {zone : DnsZoneSnapshot} {owner : String} {type : DnsRecordType}
    {r : StaticDnsRecord} :
    r ∈ recordsOf H zone owner type ↔
      r ∈ zone.staticRecords ∧ relativeToFqdn H.toLowerCase r.name zone.zone = owner ∧
      r.type = type := by
  rw [recordsOf, staticsOf, mem_filter, mem_filter, and_assoc, decide_eq_true_iff,
    decide_eq_true_iff]

theorem nameExists_of_mem {zone : DnsZoneSnapshot} {owner : String} {r : StaticDnsRecord}
    (h : r ∈ staticsOf H zone owner) : (viewName H zone owner).nameExists = true := by
  have hne : (staticsOf H zone owner).isEmpty = false := isEmpty_eq_false_iff.mpr (ne_nil_of_mem h)
  simp [viewName, hne]

/-- The answers to a question for a name's manual records of a type. -/
theorem answerType_answers {zone : DnsZoneSnapshot} {owner : String} {type : DnsRecordType}
    {client : Client}
    (hns : type = .ns → owner ≠ zone.zone) :
    (answerType H zone owner type.text client (viewName H zone owner)).answers =
      (if type = .a then autoAnswers H zone owner client (viewName H zone owner) else []) ++
        (recordsOf H zone owner type).map fun r => staticToAnswer H r zone := by
  cases type with
  | a => rfl
  | ns =>
    have hapex : (viewName H zone owner).isApex = false := decide_eq_false (hns rfl)
    simp only [answerType, DnsRecordType.text, hapex]
    rfl
  | aaaa | cname | txt | mx | srv | caa => rfl

theorem mem_steerGeo (hH : H.Lawful) {geo : GeoRecord} {client : Client} {ip : String}
    (h : ip ∈ (steerGeo H geo client).ips) : ∃ e ∈ geo.endpoints, e.ip = ip := by
  simp only [steerGeo] at h
  split at h
  · cases h
  · obtain ⟨t, ht, rfl⟩ := mem_map.mp h
    have hpool := mem_of_mem_take ht
    have hranked : t ∈ H.rank client (geo.endpoints.map fun e =>
      ⟨e.ip, e.region, e.healthy, e.weight⟩) := by
      split at hpool
      · exact hpool
      · exact mem_of_mem_filter hpool
    obtain ⟨e, he, rfl⟩ := mem_map.mp ((hH.rank_perm client _).mem_iff.mp hranked)
    exact ⟨e, he, rfl⟩

/-- The addresses that nobody entered are the edge's. -/
theorem fromEdge_autoAnswers (hH : H.Lawful) {zone : DnsZoneSnapshot} {owner : String}
    {client : Client} :
    ∀ a ∈ autoAnswers H zone owner client (viewName H zone owner), FromEdge zone owner a := by
  intro a ha
  obtain ⟨ip, hip, rfl⟩ := mem_map.mp ha
  refine ⟨ip, rfl, ?_⟩
  obtain hgeo | hglue := mem_append.mp hip
  · cases hview : (viewName H zone owner).geo with
    | none =>
      rw [hview] at hgeo
      cases hgeo
    | some geo =>
      rw [hview, map_some, getD_some] at hgeo
      have hhost := List.find?_some hview
      exact .inr ⟨geo, mem_of_find?_eq_some hview, of_decide_eq_true hhost, mem_steerGeo hH hgeo⟩
  · obtain ⟨ns, hns, rfl⟩ := mem_map.mp hglue
    obtain ⟨hmem, hfqdn⟩ := mem_filter.mp hns
    exact .inl ⟨ns, hmem, of_decide_eq_true hfqdn, rfl⟩

theorem says_staticToAnswer {zone : DnsZoneSnapshot} {r : StaticDnsRecord} :
    Says H zone r (staticToAnswer H r zone) ↔ SaysData r (staticData H r) :=
  ⟨fun h => h.data, fun h => ⟨rfl, rfl, rfl, h⟩⟩

/-- The answers are the records as they were written when each of these is well written. -/
theorem servedAsWritten_iff (hH : H.Lawful) {zone : DnsZoneSnapshot} {owner : String}
    {type : DnsRecordType}
    {client : Client} (hns : type = .ns → owner ≠ zone.zone)
    (hvalue : ∀ r ∈ zone.staticRecords, r.value ≠ "") :
    ServedAsWritten H zone owner type
      (answerType H zone owner type.text client (viewName H zone owner)).answers ↔
      ∀ r ∈ recordsOf H zone owner type, WellWritten r := by
  rw [answerType_answers hns]
  have hsaid : ∀ r ∈ recordsOf H zone owner type, (Says H zone r (staticToAnswer H r zone) ↔
      WellWritten r) :=
    fun r hr => says_staticToAnswer.trans (saysData_iff hH (hvalue r (mem_recordsOf.mp hr).1))
  constructor
  · rintro ⟨edge, manual, heq, hedge, hmanual⟩ r hr
    by_cases htype : type = .srv ∨ type = .caa
    · -- The edge gives only addresses, so the answers are the manual records'.
      have hauto : (if type = .a then autoAnswers H zone owner client (viewName H zone owner)
          else []) = [] := by
        obtain rfl | rfl := htype <;> rfl
      rw [hauto, nil_append] at heq
      have hnil : edge = [] := by
        cases edge with
        | nil => rfl
        | cons a edge =>
          obtain ⟨ip, ha, -⟩ := hedge a mem_cons_self
          have hmem : a ∈ (recordsOf H zone owner type).map fun r => staticToAnswer H r zone := by
            rw [heq]
            exact mem_cons_self
          obtain ⟨r', hr', hra⟩ := mem_map.mp hmem
          have htext : r'.type.text = "A" := by
            rw [ha] at hra
            exact congrArg Answer.type hra
          rw [(mem_recordsOf.mp hr').2.2] at htext
          obtain rfl | rfl := htype <;> exact absurd htext (by decide)
      rw [hnil, nil_append] at heq
      rw [← heq, forall₂_map_right_iff, forall₂_same] at hmanual
      exact (hsaid r hr).mp (hmanual r hr)
    · have hr' := (mem_recordsOf.mp hr).2.2
      rw [not_or] at htype
      exact ⟨fun h => absurd (hr'.symm.trans h) htype.1, fun h => absurd (hr'.symm.trans h) htype.2⟩
  · intro hall
    refine ⟨_, _, rfl, ?_, ?_⟩
    · split
      · exact fromEdge_autoAnswers hH
      · exact fun a ha => absurd ha not_mem_nil
    · rw [forall₂_map_right_iff, forall₂_same]
      exact fun r hr => (hsaid r hr).mpr (hall r hr)

theorem normalize_normalize (hH : H.Lawful) (s : String) :
    normalize H.toLowerCase (normalize H.toLowerCase s) = normalize H.toLowerCase s := by
  rw [normalize, lower_normalize hH]
  exact dropDots_of_getLast (getLast_dropDots _)

/-- The records of a composed zone have values, and none is the apex's NS. -/
theorem composed_record (hH : H.Lawful) {input : ZoneComposeInput}
    (hvalid : ∀ r ∈ input.manualRecords, r.valid = true)
    {r : StaticDnsRecord}
    (h : r ∈ (composeZoneSnapshot H.toLowerCase input).snapshot.staticRecords) :
    r.value ≠ "" ∧ (r.type = .ns →
      relativeToFqdn H.toLowerCase r.name (normalize H.toLowerCase input.name) ≠
      normalize H.toLowerCase input.name) := by
  change r ∈ manualOf H.toLowerCase (normalize H.toLowerCase input.name) input.manualRecords at h
  generalize normalize H.toLowerCase input.name = zone at h ⊢
  obtain ⟨r, hr, rfl⟩ := mem_map.mp h
  obtain ⟨hmem, hkept⟩ := mem_filter.mp hr
  have hv := hvalid r hmem
  rw [StaticDnsRecord.valid, Bool.and_eq_true, Bool.and_eq_true, decide_eq_true_iff,
    decide_eq_true_iff] at hv
  refine ⟨hv.1.2, fun hns hfqdn => ?_⟩
  have htype : r.type = .ns := hns
  rw [refusedRecord, if_neg (fun hc => by rw [htype] at hc; exact absurd hc.1 (by decide))] at hkept
  have hnot : relativeToFqdn H.toLowerCase (normalize H.toLowerCase r.name) zone ≠ zone :=
    fun heq => by
    rw [if_pos ⟨htype, heq⟩] at hkept
    cases hkept
  simp only [keptRecord] at hfqdn
  split at hfqdn
  · rename_i hname
    refine hnot ?_
    rw [relativeToFqdn, normalize_normalize hH, if_pos (.inr (.inr hname))]
  · exact hnot hfqdn

/-- The zone of a composition. -/
abbrev composed (H : Host Client) (input : ZoneComposeInput) : DnsZoneSnapshot :=
  (composeZoneSnapshot H.toLowerCase input).snapshot

/-- The full name of a record. -/
abbrev ownerOf (H : Host Client) (zone : DnsZoneSnapshot) (r : StaticDnsRecord) : String :=
  relativeToFqdn H.toLowerCase r.name zone.zone

/-- A question for a kept record, when its name has no CNAME, gets an answer, and what that answers
is as it was written exactly when the records of its name and type are well written. -/
theorem served_iff (hH : H.Lawful) (input : ZoneComposeInput)
    (hvalid : ∀ r ∈ input.manualRecords, r.valid = true)
    (hzone : (composed H input).zone ≠ "") (r : StaticDnsRecord)
    (hr : r ∈ (composed H input).staticRecords)
    (hcname : r.type = .cname ∨ recordsOf H (composed H input)
      (ownerOf H (composed H input) r) .cname = [])
    (zones : List DnsZoneSnapshot)
    (hfind : findZone H zones (ownerOf H (composed H input) r) = some (composed H input))
    (client : Client) (depth : Nat) :
    ∃ answer, answerQuery H (depth + 1) zones
      ⟨ownerOf H (composed H input) r, some r.type.text⟩ client = some answer ∧
      (ServedAsWritten H (composed H input) (ownerOf H (composed H input) r) r.type answer.answers ↔
        ∀ s ∈ recordsOf H (composed H input) (ownerOf H (composed H input) r) r.type,
        WellWritten s) := by
  have hvalue : ∀ s ∈ (composed H input).staticRecords, s.value ≠ "" :=
    fun s hs => (composed_record hH hvalid hs).1
  have hlower : lower H (ownerOf H (composed H input) r) = ownerOf H (composed H input) r :=
    lower_relativeToFqdn hH hzone
  have hns : r.type = .ns → ownerOf H (composed H input) r ≠ (composed H input).zone :=
    (composed_record hH hvalid hr).2
  generalize composed H input = zone at *
  generalize howner : ownerOf H zone r = owner at *
  have hexists : (viewName H zone owner).nameExists = true :=
    nameExists_of_mem (mem_filter.mpr ⟨hr, decide_eq_true howner⟩)
  have hqtype : qtypeOf H ⟨owner, some r.type.text⟩ = r.type.text := hH.upper_type r.type
  have hany : r.type.text ≠ "ANY" := by cases r.type <;> decide
  have hnot : cnameOf (viewName H zone owner) r.type.text = none := by
    rw [cnameOf]
    obtain htype | hnone := hcname
    · rw [htype]
      rfl
    · split
      · rfl
      · rw [List.find?_eq_none]
        intro s hs htype
        have hmem : s ∈ recordsOf H zone owner .cname := mem_filter.mpr ⟨hs, htype⟩
        rw [hnone] at hmem
        cases hmem
  refine ⟨answerType H zone owner r.type.text client (viewName H zone owner), ?_,
    servedAsWritten_iff hH hns hvalue⟩
  simp only [answerQuery, hlower, hfind, hexists, if_true, answerExisting, hqtype,
    if_neg hany, hnot]

/-! ## A CAA record for mail -/

theorem toLower_toLower (c : Char) : c.toLower.toLower = c.toLower := by
  by_cases h : c.val ≥ 'A'.val ∧ c.val ≤ 'Z'.val
  · have hlower : ¬ (c.toLower.val ≥ 'A'.val ∧ c.toLower.val ≤ 'Z'.val) := by
      rw [Char.toLower, dif_pos h]
      simp only [ge_iff_le, UInt32.le_iff_toNat_le, UInt32.toNat_add] at h ⊢
      have h1 : 'A'.val.toNat = 65 := rfl
      have h2 : 'Z'.val.toNat = 90 := rfl
      have h3 : ('a'.val - 'A'.val).toNat = 32 := rfl
      omega
    rw [Char.toLower.eq_1 c.toLower, dif_neg hlower]
  · rw [Char.toLower.eq_1 c, dif_neg h, Char.toLower, dif_neg h]

theorem lawful_plainHost : plainHost.Lawful where
  lower_eq_iff s := by
    have hsingle : ∀ c : Char, plainHost.toLowerCase (String.singleton c) = String.singleton c ↔
        c.toLower = c :=
      fun c => by
        simp [plainHost, Js.toLowerCase]
    have htext : plainHost.toLowerCase s = s ↔ s.toList.map Char.toLower = s.toList := by
      rw [← String.toList_inj]
      simp only [plainHost, Js.toLowerCase, String.toList_ofList]
    have hmap : s.toList.map Char.toLower = s.toList ↔ ∀ c ∈ s.toList, c.toLower = c := by
      conv_lhs => rw [← List.map_id s.toList, List.map_map]
      exact List.map_inj_left
    rw [htext, hmap]
    exact forall₂_congr fun c _ => (hsingle c).symm
  lower_lower s := by
    change Js.toLowerCase (Js.toLowerCase s) = Js.toLowerCase s
    rw [Js.toLowerCase, Js.toLowerCase, String.toList_ofList, List.map_map]
    exact congrArg String.ofList (List.map_congr_left fun c _ => toLower_toLower c)
  lower_dot := by decide
  upper_type := by
    intro t
    cases t <;> decide
  number_decimal bound n ds _ h := by
    change Js.Num.int (Nat.ofDigitChars 10 (String.ofList ds).toList 0) = .int n
    rw [String.toList_ofList, h.2.2.1]
  rank_perm _ ts := List.Perm.refl ts

/-- A zone with a service, with who may certify it, and with a text. -/
def serviceInput : ZoneComposeInput :=
  { loopInput with manualRecords :=
      [⟨"_sip._tcp", .srv, "20 5060 sip.acme.com", some 10, none⟩,
        ⟨"@", .caa, "0 issue \"ca.example\"", none, none⟩,
          ⟨"@", .txt, "v=spf1 -all", none, some 300⟩] }

theorem wellWritten_service :
    WellWritten ⟨"_sip._tcp", .srv, "20 5060 sip.acme.com", some 10, none⟩ := by
  have hdecimal (bound n : Nat) (ds : List Char) (hne : ds ≠ []) (hall : ds.all Char.isDigit = true)
      (hn : Nat.ofDigitChars 10 ds 0 = n) (hlt : n < bound) : IsDecimal bound n ds :=
    ⟨hne, List.all_eq_true.mp hall, hn, hlt⟩
  have hblank : IsBlank [' '] := ⟨by decide, List.all_eq_true.mp (by decide)⟩
  have htarget : IsWord "sip.acme.com".toList :=
    ⟨by decide, fun c hc => (Bool.not_eq_true' _).mp (List.all_eq_true.mp
      (by decide : "sip.acme.com".toList.all (!Js.isSpace ·) = true) c hc)⟩
  exact ⟨fun _ => ⟨20, 5060, "sip.acme.com".toList, "20".toList, _, "5060".toList, _, [], by decide,
    hdecimal _ _ _ (by decide) (by decide) (by decide) (by decide), hblank,
    hdecimal _ _ _ (by decide) (by decide) (by decide) (by decide), hblank, htarget, nofun⟩, nofun⟩

/-- The service is served as it was written. -/
theorem served_service : ∃ answer, answerQuery plainHost 1 [composed plainHost serviceInput]
      ⟨"_sip._tcp.acme.com", some "SRV"⟩ () = some answer ∧
    ServedAsWritten plainHost (composed plainHost serviceInput) "_sip._tcp.acme.com" .srv
      answer.answers := by
  have hrecords : recordsOf plainHost (composed plainHost serviceInput) "_sip._tcp.acme.com" .srv =
      [⟨"_sip._tcp", .srv, "20 5060 sip.acme.com", some 10, none⟩] := by decide
  obtain ⟨answer, hanswer, hserved⟩ :=
    served_iff lawful_plainHost serviceInput (by decide) (by decide)
    ⟨"_sip._tcp", .srv, "20 5060 sip.acme.com", some 10, none⟩ (by decide) (.inr (by decide))
    [composed plainHost serviceInput] (by decide) () 0
  refine ⟨answer, hanswer, hserved.mpr fun s hs => ?_⟩
  rw [mem_singleton.mp (hrecords ▸ hs : s ∈ _)]
  exact wellWritten_service

/-- A zone with a CAA record that restricts who certifies its mail addresses, and one that says
where to report. -/
def mailInput : ZoneComposeInput :=
  { loopInput with manualRecords := [⟨"@", .caa, "0 issuemail \"ca.example\"", none, none⟩] }

theorem not_always_servedAsWritten :
    ¬ ∀ (input : ZoneComposeInput) (r : StaticDnsRecord) (answer : DnsAnswer),
    (∀ s ∈ input.manualRecords, s.valid = true) → r ∈ (composed plainHost input).staticRecords →
    recordsOf plainHost (composed plainHost input)
      (ownerOf plainHost (composed plainHost input) r) .cname = [] →
    answerQuery plainHost 1 [composed plainHost input]
      ⟨ownerOf plainHost (composed plainHost input) r, some r.type.text⟩ () = some answer →
    ServedAsWritten plainHost (composed plainHost input)
      (ownerOf plainHost (composed plainHost input) r) r.type
      answer.answers := by
  intro hall
  have hserved := hall mailInput ⟨"@", .caa, "0 issuemail \"ca.example\"", none, none⟩
    (answerType plainHost (composed plainHost mailInput) "acme.com" "CAA" ()
      (viewName plainHost (composed plainHost mailInput) "acme.com"))
    (by decide) (by decide) (by decide) (by decide)
  have hns : DnsRecordType.caa = .ns → "acme.com" ≠ (composed plainHost mailInput).zone := by decide
  have hwritten := (servedAsWritten_iff lawful_plainHost hns (by decide)).mp hserved
    ⟨"@", .caa, "0 issuemail \"ca.example\"", none, none⟩ (by decide)
  obtain ⟨flags, tag, v, htext, htag⟩ := hwritten.2 rfl
  obtain ⟨f, -, hmatch⟩ := caaMatch_caaText htext
  have hfound : caaMatch "0 issuemail \"ca.example\"" = some ("0", "issuemail", "ca.example") := by
    decide
  rw [hfound, Option.some.injEq, Prod.mk.injEq, Prod.mk.injEq] at hmatch
  rw [← hmatch.2.1] at htag
  exact absurd htag (by decide)

end Swarmy.Dns
