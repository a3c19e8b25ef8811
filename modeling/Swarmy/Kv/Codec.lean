import Swarmy.Codec.Base64

/-!
# swarm-kv: limits, errors, config names and documents

The value-level half of `packages/core/src/swarm-kv.ts`: the limits and labels,
the error class, config names with their parser, the fingerprint and the checks
on keys and documents.  A document's value is of an arbitrary type `V` with the
operations of `KvValue`, which are what the store asks of a JSON value.
-/

namespace Swarmy.Kv

open Bool Nat

/-! ## Limits -/

/-- Per-document ceiling on the stored (sealed, base64) payload. -/
def kvMaxDocBytes : Nat := 64 * 1024

/-- Ceiling on the whole raft footprint, every retained version counted. -/
def kvMaxTotalBytes : Nat := 2 * 1024 * 1024

/-- Versions retained per document, the latest included. -/
def kvKeepVersions : Nat := 3

/-- Docker caps config names at 64 characters. -/
def kvNameMax : Nat := 64

/-- Highest version number. -/
def kvMaxSeq : Nat := 999999

/-! ## Errors -/

/-- The codes of a `KvError`. -/
inductive KvErrorCode where
  | unavailable | tooLarge | budget | conflict | invalid | notFound
deriving DecidableEq

/-- What an operation of the store throws.  The store tells two kinds of Docker
rejection from the rest by their message (`isNameConflict`, and `not found` in
`removeQuietly`); the constructor says which pattern the message matches. -/
inductive KvException where
  | kv (code : KvErrorCode) (message : String)
  | alreadyExists (message : String)
  | notFound (message : String)
  | other (message : String)
deriving DecidableEq

/-- The name of the config is taken: the lost compare-and-swap. -/
def isNameConflict : KvException → Bool
  | .alreadyExists _ => true
  | _ => false

/-- `not found|no such` -/
def isNotFound : KvException → Bool
  | .notFound _ => true
  | _ => false

/-! ## Keys and config names -/

/-- The key of a document. -/
structure Key where
  collection : String
  id : String
deriving DecidableEq

def isLower (c : Char) : Bool := 'a' ≤ c && c ≤ 'z'

def isUpper (c : Char) : Bool := 'A' ≤ c && c ≤ 'Z'

def isDigit (c : Char) : Bool := '0' ≤ c && c ≤ '9'

/-- `[A-Za-z0-9_]` -/
def isWord (c : Char) : Bool := isLower c || isUpper c || isDigit c || c == '_'

/-- `^[a-z][a-z0-9-]{0,11}$` -/
def collectionRe (s : String) : Bool :=
  match s.toList with
  | [] => false
  | c :: cs => isLower c && cs.all (fun d => isLower d || isDigit d || d == '-') && cs.length ≤ 11

/-- `^[A-Za-z0-9][A-Za-z0-9_-]{0,39}$` -/
def idRe (s : String) : Bool :=
  match s.toList with
  | [] => false
  | c :: cs => (isWord c && c != '_') && cs.all (fun d => isWord d || d == '-') && cs.length ≤ 39

/-- The Docker config that holds one version of a document. -/
def kvConfigName (k : Key) (seq : Nat) : String :=
  "swarmy-kv." ++ k.collection ++ "." ++ k.id ++ ".v" ++ toString seq

/-- Strip a literal prefix. -/
def stripPrefix : List Char → List Char → Option (List Char)
  | [], cs => some cs
  | _ :: _, [] => none
  | p :: ps, c :: cs => if p = c then stripPrefix ps cs else none

/-- `^swarmy-kv\.(<collection>)\.(<id>)\.v(\d{1,6})$`, with the version at least 1. -/
def parseKvConfigName (name : String) : Option (Key × Nat) :=
  match stripPrefix "swarmy-kv.".toList name.toList with
  | none => none
  | some rest =>
    let collection := String.ofList (rest.takeWhile (· ≠ '.'))
    match rest.dropWhile (· ≠ '.') with
    | '.' :: rest =>
      let id := String.ofList (rest.takeWhile (· ≠ '.'))
      match rest.dropWhile (· ≠ '.') with
      | '.' :: 'v' :: digits =>
        let seq := Nat.ofDigitChars 10 digits 0
        if collectionRe collection && idRe id && digits.all isDigit && digits ≠ [] &&
            digits.length ≤ 6 && 1 ≤ seq then
          some (⟨collection, id⟩, seq)
        else none
      | _ => none
    | _ => none

/-- `assertKvKey`, with the collection's allowlist of `SwarmKv.check` in front. -/
def check (allowed : Option (List String)) (k : Key) : Except KvException Unit :=
  if allowed.any (fun cs => !cs.contains k.collection) then
    .error (.kv .invalid s!"swarm-kv collection \"{k.collection}\" is not allowlisted")
  else if !collectionRe k.collection then
    .error (.kv .invalid s!"invalid swarm-kv collection \"{k.collection}\"")
  else if !idRe k.id then
    .error (.kv .invalid s!"invalid swarm-kv id \"{k.id}\"")
  else if (kvConfigName k kvMaxSeq).length > kvNameMax then
    .error (.kv .invalid
      s!"swarm-kv key {k.collection}/{k.id} is too long for a Docker config name")
  else .ok ()

/-! ## Documents -/

/-- What the store asks of the values of documents: they are JSON. -/
class KvValue (V : Type) where
  /-- The own keys of a plain object; `none` for every other value. -/
  keys : V → Option (List String)
  /-- `JSON.stringify` with object keys in order. -/
  stableJson : V → String
  /-- `JSON.parse`. -/
  parse : String → Except String V
  /-- What reading back the stable JSON of a value gives. -/
  canon : V → V
  parse_stableJson : ∀ v, parse (stableJson v) = .ok (canon v)

export KvValue (stableJson)

/-- Payload encryption. -/
structure KvSealer where
  sealPlain : String → String
  openSealed : String → Except String String
  open_seal : ∀ s, openSealed (sealPlain s) = .ok s

/-- `^(updatedAt|last[A-Z]\w*|next[A-Z]\w*At)$` -/
def forbiddenField (s : String) : Bool :=
  s == "updatedAt" ||
  (match stripPrefix "last".toList s.toList with
    | some (c :: cs) => isUpper c && cs.all isWord
    | _ => false) ||
  (match stripPrefix "next".toList s.toList with
    | some (c :: cs) => isUpper c && cs.all isWord && "At".toList.isSuffixOf cs
    | _ => false)

/-- Run state has no place in raft. -/
def assertNoRunState {V : Type} [KvValue V] (v : V) : Except KvException Unit :=
  match (KvValue.keys v).bind fun ks => ks.find? forbiddenField with
  | some k => .error (.kv .invalid
      s!"swarm-kv documents hold desired config only — \"{k}\" is run state")
  | none => .ok ()

/-- The UTF-16 code units of a character. -/
def charCodes (c : Char) : List UInt32 :=
  if c.val < 0x10000 then [c.val]
  else [0xD800 + (c.val - 0x10000) / 0x400, 0xDC00 + (c.val - 0x10000) % 0x400]

/-- FNV-1a over the code units, as eight hex digits. -/
def kvFingerprint (s : String) : String :=
  let h := (s.toList.flatMap charCodes).foldl (fun h u => (h ^^^ u) * 0x01000193) 0x811c9dc5
  let ds := Nat.toDigits 16 h.toNat
  String.ofList (List.replicate (8 - ds.length) '0' ++ ds)

/-! ## Names parse back -/

theorem stripPrefix_append (ps cs : List Char) : stripPrefix ps (ps ++ cs) = some cs := by
  induction ps with
  | nil => rfl
  | cons p ps ih => simpa [stripPrefix] using ih

theorem takeWhile_dot {l r : List Char} (h : ∀ c ∈ l, c ≠ '.') :
    (l ++ '.' :: r).takeWhile (· ≠ '.') = l := by
  rw [List.takeWhile_append_of_pos (by simpa using h)]
  simp

theorem dropWhile_dot {l r : List Char} (h : ∀ c ∈ l, c ≠ '.') :
    (l ++ '.' :: r).dropWhile (· ≠ '.') = '.' :: r := by
  rw [List.dropWhile_append_of_pos (by simpa using h)]
  simp

theorem ne_dot_of_collectionRe {s : String} (h : collectionRe s = true) :
    ∀ c ∈ s.toList, c ≠ '.' := by
  unfold collectionRe at h
  split at h
  · cases h
  · rename_i d ds hs
    simp only [and_eq_true, List.all_eq_true] at h
    intro c hc he
    subst he
    rw [hs] at hc
    rcases List.mem_cons.mp hc with rfl | hc
    · exact absurd h.1.1 (by decide)
    · exact absurd (h.1.2 _ hc) (by decide)

theorem ne_dot_of_idRe {s : String} (h : idRe s = true) : ∀ c ∈ s.toList, c ≠ '.' := by
  unfold idRe at h
  split at h
  · cases h
  · rename_i d ds hs
    simp only [and_eq_true, List.all_eq_true] at h
    intro c hc he
    subst he
    rw [hs] at hc
    rcases List.mem_cons.mp hc with rfl | hc
    · exact absurd h.1.1.1 (by decide)
    · exact absurd (h.1.2 _ hc) (by decide)

theorem isDigit_of_mem_toDigits {n : Nat} {c : Char} (h : c ∈ Nat.toDigits 10 n) :
    isDigit c = true := by
  have := Nat.isDigit_of_mem_toDigits (by decide) (by decide) h
  simp only [Char.isDigit, and_eq_true, decide_eq_true_eq] at this
  simp only [isDigit, and_eq_true, decide_eq_true_eq]
  exact this

/-- A name the store writes parses back to what it names. -/
theorem parse_kvConfigName {k : Key} {seq : Nat} (hc : collectionRe k.collection = true)
    (hi : idRe k.id = true) (h₁ : 1 ≤ seq) (h₂ : seq ≤ kvMaxSeq) :
    parseKvConfigName (kvConfigName k seq) = some (k, seq) := by
  have hname : (kvConfigName k seq).toList = "swarmy-kv.".toList ++
      (k.collection.toList ++ '.' :: (k.id.toList ++ '.' :: 'v' :: Nat.toDigits 10 seq)) := by
    simp [kvConfigName]
  have hlen : (Nat.toDigits 10 seq).length ≤ 6 :=
    (length_toDigits_le_iff (by decide) (by decide)).mpr
      (lt_of_le_of_lt h₂ (by decide))
  have hall : (Nat.toDigits 10 seq).all isDigit = true :=
    List.all_eq_true.mpr fun c h => isDigit_of_mem_toDigits h
  rw [parseKvConfigName, hname, stripPrefix_append]
  simp only [takeWhile_dot (ne_dot_of_collectionRe hc), dropWhile_dot (ne_dot_of_collectionRe hc),
    takeWhile_dot (ne_dot_of_idRe hi), dropWhile_dot (ne_dot_of_idRe hi), String.ofList_toList,
    ofDigitChars_ten_toDigits, hc, hi, hall, hlen, h₁]
  simp [toDigits_ne_nil]

/-- Distinct versions of one document have distinct config names. -/
theorem kvConfigName_seq_inj {k : Key} {s t : Nat} (h : kvConfigName k s = kvConfigName k t) :
    s = t := by
  have h : Nat.toDigits 10 s = Nat.toDigits 10 t := by
    simpa [kvConfigName] using congrArg String.toList h
  rw [← ofDigitChars_ten_toDigits (n := s), h, ofDigitChars_ten_toDigits]

/-- Distinct versions of documents have distinct config names. -/
theorem kvConfigName_inj {k k' : Key} {seq seq' : Nat}
    (hc : collectionRe k.collection = true) (hi : idRe k.id = true) (h₁ : 1 ≤ seq)
    (h₂ : seq ≤ kvMaxSeq) (hc' : collectionRe k'.collection = true) (hi' : idRe k'.id = true)
    (h₁' : 1 ≤ seq') (h₂' : seq' ≤ kvMaxSeq) (h : kvConfigName k seq = kvConfigName k' seq') :
    k = k' ∧ seq = seq' := by
  have hp := parse_kvConfigName hc hi h₁ h₂
  rw [h, parse_kvConfigName hc' hi' h₁' h₂'] at hp
  exact ⟨(Prod.mk.inj (Option.some.inj hp)).1.symm, (Prod.mk.inj (Option.some.inj hp)).2.symm⟩

/-- A number is a JSON value. -/
instance instKvValueNat : KvValue Nat where
  keys _ := none
  stableJson n := toString n
  parse s := if s.toList.all isDigit then .ok (Nat.ofDigitChars 10 s.toList 0)
    else .error "Unexpected token in JSON"
  canon n := n
  parse_stableJson n := by
    have hn : (toString n).toList = Nat.toDigits 10 n := by simp
    have hall : (Nat.toDigits 10 n).all isDigit = true :=
      List.all_eq_true.mpr fun c h => isDigit_of_mem_toDigits h
    rw [hn, if_pos hall, ofDigitChars_ten_toDigits]

/-- A key the store accepts has a collection and an id of the right form. -/
theorem check_ok {allowed : Option (List String)} {k : Key} (h : check allowed k = .ok ()) :
    collectionRe k.collection = true ∧ idRe k.id = true := by
  unfold check at h
  split at h
  · cases h
  split at h
  · cases h
  split at h
  · cases h
  rename_i _ hc hi
  exact ⟨by simpa using hc, by simpa using hi⟩

/-- A key the store accepts is in a collection it may use. -/
theorem check_allowed {allowed : Option (List String)} {k : Key} (h : check allowed k = .ok ()) :
    allowed.any (fun cs => !cs.contains k.collection) = false := by
  unfold check at h
  split at h
  · cases h
  · rename_i hc
    simpa using hc

end Swarmy.Kv
