import Swarmy.Ai.GuardReads

/-!
# Which addresses a call can reach

The guard lets a call through by what one look-up of the host says, and the call looks the
host up again.  It reaches no internal address exactly when the second look-up has none that
the first one did not show, and none that is hidden in a 6to4 address.
-/

namespace Swarmy.Ai

open Net Nat

/-! ## The words of the statements -/

/-- Unspecified, loopback, link-local, private, carrier-grade NAT and multicast. -/
def internal4 : List Block :=
  [⟨[0, 0, 0, 0], 32⟩, ⟨[127, 0, 0, 0], 8⟩, ⟨[169, 254, 0, 0], 16⟩, ⟨[10, 0, 0, 0], 8⟩,
    ⟨[172, 16, 0, 0], 12⟩, ⟨[192, 168, 0, 0], 16⟩, ⟨[100, 64, 0, 0], 10⟩, ⟨[224, 0, 0, 0], 4⟩]

/-- Unspecified, loopback, link-local, unique-local and multicast. -/
def internal6 : List Block :=
  [⟨[0, 0, 0, 0, 0, 0, 0, 0], 128⟩, ⟨[0, 0, 0, 0, 0, 0, 0, 1], 128⟩,
    ⟨[0xfe80, 0, 0, 0, 0, 0, 0, 0], 10⟩, ⟨[0xfc00, 0, 0, 0, 0, 0, 0, 0], 7⟩,
    ⟨[0xff00, 0, 0, 0, 0, 0, 0, 0], 8⟩]

def Internal4 (bytes : List Nat) : Prop := ∃ k ∈ internal4, k.Has 8 bytes

/-- The address is internal, or stands for a version 4 address that is. -/
def Internal : Addr → Prop
  | .v4 bytes => Internal4 bytes
  | .v6 groups => (∃ k ∈ internal6, k.Has 16 groups) ∨ ∃ bytes, Carries groups bytes ∧
    Internal4 bytes

/-- The call can connect to the address. -/
def Connects (resolve : Resolver) (x : Call) (url : Url) (a : Addr) : Prop :=
  ∃ s ∈ upstreamFetch resolve x url, Spells s a

/-- The host of the URL is in the list. -/
def Allowlisted (x : Call) (url : Url) : Prop := url.host ∈ x.allowHosts.map (·.map Char.toLower)

/-- A call that is not refused reaches no internal address, but at a host of the list. -/
def Guarded (parseUrl : String → Option Url) (resolve : Resolver) (x : Call) : Prop :=
  upstreamRefusal parseUrl resolve x = none → ∀ url, parseUrl x.url = some url →
    Allowlisted x url ∨ ∀ a, Connects resolve x url a → ¬ Internal a

/-! ## When it holds -/

/-- The texts the guard looks at: the address in the URL, or what the look-up of the name
says. -/
def shown (resolve : Resolver) (x : Call) (url : Url) : List (List Char) :=
  match url.hostname with
  | .ipv4 q => [q.text]
  | .ipv6 t _ _ _ => [t.text]
  | .domain d => (resolve x.guardedAt (stripDot d.text)).getD []

/-- Every internal address that the call can connect to is one that the guard was shown, and
no 6to4 address; or the guard was shown nothing, or something else that it blocks. -/
def Foreseen (resolve : Resolver) (x : Call) (url : Url) : Prop :=
  ∀ a, Connects resolve x url a → Internal a →
    ((∃ s ∈ shown resolve x url, Spells s a) ∧ ∀ rest, a ≠ .v6 (0x2002 :: rest)) ∨
      shown resolve x url = [] ∨ ∃ s ∈ shown resolve x url, blockedAddressReason s ≠ none

/-- Where the form of the URL and its name do not settle it, and the host is not in the
list, the addresses are foreseen. -/
def Steady (parseUrl : String → Option Url) (resolve : Resolver) (x : Call) : Prop :=
  ∀ url, parseUrl x.url = some url → formRefusal x.url ⟨x.allowHosts, true⟩ url = none →
    ¬ Allowlisted x url → isInternal url.host = false → Foreseen resolve x url

/-! ## Blocked addresses -/

section

variable {a b c d : Nat} {g : List Nat} {t : Text6}

theorem ite_some_eq_none {α : Type} {p : Prop} [Decidable p] {v : α} {o : Option α} :
    (if p then some v else o) = none ↔ ¬ p ∧ o = none := by
  split <;> simp [*]

/-- The bytes of an internal version 4 address. -/
theorem bytes_of_internal (ha : a ≤ 255) (hb : b ≤ 255) (hc : c ≤ 255) (hd : d ≤ 255)
    (h : Internal4 [a, b, c, d]) :
    a = 0 ∨ a = 127 ∨ (a = 169 ∧ b = 254) ∨ a = 10 ∨ (a = 172 ∧ 16 ≤ b ∧ b ≤ 31) ∨
      (a = 192 ∧ b = 168) ∨ (a = 100 ∧ 64 ≤ b ∧ b ≤ 127) ∨ 224 ≤ a := by
  simp only [Internal4, internal4, List.mem_cons, List.not_mem_nil, or_false, exists_eq_or_imp,
    exists_eq_left, Block.Has, Net.ofDigits, List.foldl_cons, List.foldl_nil, List.length_cons,
    List.length_nil, Nat.reducePow, Nat.reduceAdd, Nat.reduceMul, Nat.reduceSub, Nat.reduceDiv,
    zero_mul, zero_add, Nat.div_one] at h
  rcases h with h | h | h | h | h | h | h | h
  · exact .inl (by omega)
  · exact .inr (.inl (by omega))
  · exact .inr (.inr (.inl (by omega)))
  · exact .inr (.inr (.inr (.inl (by omega))))
  · exact .inr (.inr (.inr (.inr (.inl (by omega)))))
  · exact .inr (.inr (.inr (.inr (.inr (.inl (by omega))))))
  · exact .inr (.inr (.inr (.inr (.inr (.inr (.inl (by omega)))))))
  · exact .inr (.inr (.inr (.inr (.inr (.inr (.inr (by omega)))))))

/-- An internal version 4 address is blocked. -/
theorem v4Blocked_of_internal (ha : a ≤ 255) (hb : b ≤ 255) (hc : c ≤ 255) (hd : d ≤ 255)
    (h : Internal4 [a, b, c, d]) : v4Blocked [a, b, c, d] ≠ none := by
  have hbytes := bytes_of_internal ha hb hc hd h
  intro hnone
  simp only [v4Blocked, List.getD_cons_zero, List.getD_cons_succ, ite_some_eq_none] at hnone
  obtain ⟨h0, h10, h127, h169, h172, h192, h100, -, -, h224, -⟩ := hnone
  rcases hbytes with h | h | h | h | h | h | h | h
  · exact h0 h
  · exact h127 h
  · exact h169 h
  · exact h10 h
  · exact h172 h
  · exact h192 h
  · exact h100 h
  · exact h224 h

/-- The first group of an internal version 6 address, or all of them. -/
theorem group_of_internal {x n : Nat} {l : List Nat} (hlen : l.length = 6)
    (hl : ∀ d ∈ l ++ [n], d < 65536) (h : ∃ k ∈ internal6, k.Has 16 (x :: (l ++ [n]))) :
    ((∀ d ∈ x :: l, d = 0) ∧ n ≤ 1) ∨ x / 64 = 0x3fa ∨ x / 512 = 0x7e ∨ x / 256 = 0xff := by
  have hzero : ∀ d ∈ List.replicate 7 0, d < 2 ^ 16 := by decide
  have hseven : (l ++ [n]).length = (List.replicate 7 0).length := by simp [hlen]
  obtain ⟨k, hk, hhas⟩ := h
  simp only [internal6, List.mem_cons, List.not_mem_nil, or_false] at hk
  have hsmall : Net.ofDigits 65536 (x :: (l ++ [n])) ≤ 1 → (∀ d ∈ x :: l, d = 0) ∧ n ≤ 1 := by
    intro hle
    rw [← List.cons_append, ofDigits_concat] at hle
    have hfirst : Net.ofDigits 65536 (x :: l) = 0 := by omega
    exact ⟨ofDigits_eq_zero (by decide) hfirst, by omega⟩
  rcases hk with rfl | rfl | rfl | rfl | rfl
  · have hvalue : Net.ofDigits 65536 [0, 0, 0, 0, 0, 0, 0, 0] = 0 := by decide
    simp only [Block.Has, List.length_cons, List.length_nil, Nat.reduceAdd, Nat.reduceMul,
      Nat.reduceSub, Nat.reducePow, Nat.div_one, hvalue] at hhas
    exact .inl (hsmall (hhas ▸ zero_le 1))
  · have hvalue : Net.ofDigits 65536 [0, 0, 0, 0, 0, 0, 0, 1] = 1 := by decide
    simp only [Block.Has, List.length_cons, List.length_nil, Nat.reduceAdd, Nat.reduceMul,
      Nat.reduceSub, Nat.reducePow, Nat.div_one, hvalue] at hhas
    exact .inl (hsmall hhas.le)
  · exact .inr (.inl (Block.has_cons (by decide) hseven hl hzero hhas))
  · exact .inr (.inr (.inl (Block.has_cons (by decide) hseven hl hzero hhas)))
  · exact .inr (.inr (.inr (Block.has_cons (by decide) hseven hl hzero hhas)))

/-- A mask of high bits. -/
theorem and_high (x : Nat) {m k : Nat} :
    x &&& ((2 ^ k - 1) <<< m) = (x / 2 ^ m % 2 ^ k) * 2 ^ m := by
  rw [← Nat.shiftRight_eq_div_pow, ← Nat.shiftLeft_eq]
  refine Nat.eq_of_testBit_eq fun i => ?_
  simp only [Nat.testBit_and, Nat.testBit_shiftLeft, Nat.testBit_two_pow_sub_one,
    Nat.testBit_mod_two_pow, Nat.testBit_shiftRight]
  by_cases hi : m ≤ i
  · simp [hi, Bool.and_comm]
  · simp [hi]

theorem embedded_eq (l : List Nat) (hi lo : Nat) (hlen : l.length = 6) :
    embedded (l ++ [hi, lo]) = bytesOf hi lo := by
  have hhi : (l ++ [hi, lo]).getD 6 0 = hi := by simp [hlen]
  have hlo : (l ++ [hi, lo]).getD 7 0 = lo := by simp [hlen]
  have hmask : ∀ v : Nat, v &&& 0xff = v % 256 := fun v => Nat.and_two_pow_sub_one_eq_mod v 8
  rw [embedded, hhi, hlo, hmask, hmask, Nat.shiftRight_eq_div_pow,
    Nat.shiftRight_eq_div_pow, bytesOf]

theorem v4Blocked_bytesOf {hi lo : Nat} (hhi : hi < 65536) (hlo : lo < 65536)
    (h : Internal4 (bytesOf hi lo)) : v4Blocked (bytesOf hi lo) ≠ none :=
  v4Blocked_of_internal (by omega) (by omega) (by omega) (by omega) h

/-- An address that stands for an internal one, but a 6to4 address, is blocked. -/
theorem v6Blocked_of_carries {bytes : List Nat} (hg : ∀ d ∈ g, d < 65536)
    (hcarries : Carries g bytes) (h : Internal4 bytes) (hsix : ∀ rest, g ≠ 0x2002 :: rest) :
    v6Blocked g ≠ none := by
  cases hcarries with
  | mapped hi lo =>
    have hblocked := v4Blocked_bytesOf (hg hi (by simp)) (hg lo (by simp)) h
    have hembedded := embedded_eq [0, 0, 0, 0, 0, 0xffff] hi lo rfl
    simp only [List.cons_append, List.nil_append] at hembedded
    simpa [v6Blocked, hembedded] using hblocked
  | compatible hi lo =>
    have hblocked := v4Blocked_bytesOf (hg hi (by simp)) (hg lo (by simp)) h
    have hembedded := embedded_eq [0, 0, 0, 0, 0, 0] hi lo rfl
    simp only [List.cons_append, List.nil_append] at hembedded
    rw [v6Blocked]
    split
    · exact Option.some_ne_none _
    · split
      · exact Option.some_ne_none _
      · simpa [hembedded] using hblocked
  | nat64 hi lo =>
    have hblocked := v4Blocked_bytesOf (hg hi (by simp)) (hg lo (by simp)) h
    have hembedded := embedded_eq [0x64, 0xff9b, 0, 0, 0, 0] hi lo rfl
    simp only [List.cons_append, List.nil_append] at hembedded
    simpa [v6Blocked, hembedded] using hblocked
  | sixToFour hi lo rest => exact absurd rfl (hsix _)

/-- An address of an internal version 6 block is blocked. -/
theorem v6Blocked_of_group {x n : Nat} {l : List Nat} (hlen : l.length = 6)
    (h : ((∀ d ∈ x :: l, d = 0) ∧ n ≤ 1) ∨ x / 64 = 0x3fa ∨ x / 512 = 0x7e ∨ x / 256 = 0xff) :
    v6Blocked (x :: (l ++ [n])) ≠ none := by
  have hlink : x &&& 0xffc0 = (x / 64 % 1024) * 64 := and_high x (m := 6) (k := 10)
  have hlocal : x &&& 0xfe00 = (x / 512 % 128) * 512 := and_high x (m := 9) (k := 7)
  have hmulticast : x &&& 0xff00 = (x / 256 % 256) * 256 := and_high x (m := 8) (k := 8)
  rcases h with ⟨hzero, hn⟩ | h
  · have hseven : ∀ d ∈ (x :: (l ++ [n])).take 7, d = 0 := by
      intro d hd
      rw [List.take_succ_cons, List.take_append_of_le_length hlen.ge,
        List.take_of_length_le hlen.le] at hd
      exact hzero d hd
    have hlast : (x :: (l ++ [n])).getD 7 0 = n := by simp [hlen]
    rw [v6Blocked]
    split
    · exact Option.some_ne_none _
    · next hall =>
        have hone : n = 1 := by
          by_contra hne
          refine hall (List.all_eq_true.mpr fun d hd => decide_eq_true ?_)
          rw [← List.cons_append] at hd
          rcases List.mem_append.mp hd with hd | hd
          · exact hzero d hd
          · rw [List.mem_singleton.mp hd]
            omega
        have htake : ((x :: (l ++ [n])).take 7).all (· = 0) = true :=
          List.all_eq_true.mpr fun d hd => decide_eq_true (hseven d hd)
        rw [if_pos ⟨htake, hlast.trans hone⟩]
        exact Option.some_ne_none _
  · have hx0 : x ≠ 0 := by omega
    have hx64 : x ≠ 0x64 := by omega
    simp only [v6Blocked, List.getD_cons_zero, List.all_cons, List.take_succ_cons, hx0, hx64,
      decide_false, Bool.false_and, Bool.false_eq_true, false_and, if_false, ite_some_eq_none,
      hlink, hlocal, hmulticast, ne_eq]
    rintro ⟨h₁, -, h₂, h₃, -⟩
    rcases h with h | h | h <;> omega

/-! ## Addresses by their text -/

theorem hexValue_lt {w : List Char} (hw : IsGroupWord w) : hexValue w < 65536 := by
  have hdigit : ∀ e ∈ w.map hexDigit, e < 16 := by
    intro e he
    obtain ⟨c, hc, rfl⟩ := List.mem_map.mp he
    have hall : ∀ n < 128, isHexDigit (Char.ofNat n) = true → hexDigit (Char.ofNat n) < 16 := by
      decide
    exact ascii_of (P := fun c => isHexDigit c = true → hexDigit c < 16) hall
      (lt_of_isHexDigit (hw.digits c hc)) (hw.digits c hc)
  have hlt := ofDigits_lt hdigit
  rw [List.length_map] at hlt
  exact lt_of_lt_of_le hlt (Nat.pow_le_pow_right (by decide) hw.short)

theorem values_lt {ws : List (List Char)} {o : Option Quad} (hws : ∀ w ∈ ws, IsGroupWord w) :
    ∀ e ∈ Text6.values ws o, e < 65536 := by
  intro e he
  rcases List.mem_append.mp he with he | he
  · obtain ⟨w, hw, rfl⟩ := List.mem_map.mp he
    exact hexValue_lt (hws w hw)
  · cases o with
    | none => cases he
    | some q =>
      have h₀ := Quad.byte_le q 0
      have h₁ := Quad.byte_le q 1
      have h₂ := Quad.byte_le q 2
      have h₃ := Quad.byte_le q 3
      simp only [Option.map_some, Option.getD_some, Quad.groups, List.mem_cons, List.not_mem_nil,
        or_false] at he
      rcases he with rfl | rfl <;> omega

theorem groups_lt (h : t.Valid) : ∀ e ∈ t.groups, e < 65536 := by
  have hhead := isGroup_head h
  have hrest := isGroup_rest h
  rw [Text6.groups]
  cases hr : t.rest with
  | none => exact values_lt hhead
  | some rest =>
    rw [hr, Option.getD_some] at hrest
    intro e he
    rcases List.mem_append.mp he with he | he
    · rcases List.mem_append.mp he with he | he
      · exact values_lt hhead e he
      · rw [List.eq_of_mem_replicate he]
        decide
    · exact values_lt hrest e he

theorem length_groups (h : t.Valid) : t.groups.length = 8 := by
  have hknown := Text6.known_eq t
  rw [Text6.groups]
  cases hr : t.rest with
  | none =>
    have hcount := h.count hr
    rw [← hcount]
    simp [Text6.known, hr]
  | some rest =>
    have hcount := h.countRest (by simp [hr])
    rw [hr, Option.getD_some] at hknown
    simp only [List.length_append, List.length_replicate]
    omega

theorem length_bytes (q : Quad) : ∃ a b c d, q.bytes = [a, b, c, d] ∧
    a ≤ 255 ∧ b ≤ 255 ∧ c ≤ 255 ∧ d ≤ 255 := by
  have hle : ∀ e ∈ q.bytes, e ≤ 255 := by
    intro e he
    obtain ⟨w, hw, rfl⟩ := List.mem_map.mp he
    exact (q.isByte w hw).value
  have hlen : q.bytes.length = 4 := by rw [Quad.bytes, List.length_map, q.length_eq]
  match hbytes : q.bytes, hlen with
  | [a, b, c, d], _ =>
    rw [hbytes] at hle
    exact ⟨a, b, c, d, rfl, hle a (by simp), hle b (by simp), hle c (by simp), hle d (by simp)⟩

/-- Whatever spells an internal address is blocked, unless it is a 6to4 address. -/
theorem blocked_of_spells {s : List Char} {a : Addr} (hs : Spells s a) (h : Internal a)
    (hsix : ∀ rest, a ≠ .v6 (0x2002 :: rest)) : blockedAddressReason s ≠ none := by
  cases hs with
  | v4 q =>
    obtain ⟨a, b, c, d, hbytes, ha, hb, hc, hd⟩ := length_bytes q
    simp only [blockedAddressReason, parseIPv4_quad, hbytes]
    exact v4Blocked_of_internal ha hb hc hd (hbytes ▸ h)
  | v6 t ht =>
    simp only [blockedAddressReason, parseIPv4_text ht, parseIPv6_text ht]
    have hlt := groups_lt ht
    rcases h with hblock | ⟨bytes, hcarries, hbytes⟩
    case inr =>
      exact v6Blocked_of_carries hlt hcarries hbytes fun rest hrest => hsix rest (by rw [hrest])
    case inl =>
      obtain ⟨x, tail, hx⟩ := List.exists_cons_of_ne_nil (l := t.groups) (by
        intro hnil
        exact absurd ((length_groups ht).symm.trans (congrArg List.length hnil)) (by decide))
      have htail : tail.length = 7 := by
        have hlen := length_groups ht
        rw [hx, List.length_cons] at hlen
        omega
      obtain ⟨l, n, hl⟩ := (List.eq_nil_or_concat tail).resolve_left fun hnil => by
        simp [hnil] at htail
      rw [List.concat_eq_append] at hl
      subst hl
      have hlen : l.length = 6 := by simpa using htail
      rw [hx] at hblock hlt ⊢
      have hgroup := group_of_internal hlen (fun d hd => hlt d (List.mem_cons_of_mem _ hd)) hblock
      exact v6Blocked_of_group hlen hgroup

end

/-! ## The two look-ups -/

section

variable {parseUrl : String → Option Url} {resolve : Resolver} {x : Call} {url : Url}

/-- What the guard looks at, where it gets that far. -/
theorem addressesOf_eq (addresses : List (List Char)) :
    addressesOf (resolve x.guardedAt) url.host = .ok addresses ↔
      shown resolve x url = addresses ∧ addresses ≠ [] := by
  rw [addressesOf, host_eq, shown]
  cases url.hostname with
  | ipv4 q =>
    simp only [parseIPv4_quad, Option.isSome_some, true_or, if_true, Except.ok.injEq]
    exact ⟨fun h => ⟨h, h ▸ List.cons_ne_nil _ _⟩, And.left⟩
  | ipv6 t valid zone lower =>
    simp only [parseIPv6_text valid, Option.isSome_some, or_true, if_true, Except.ok.injEq]
    exact ⟨fun h => ⟨h, h ▸ List.cons_ne_nil _ _⟩, And.left⟩
  | domain d =>
    simp only [(parse_domain d).1, (parse_domain d).2, Option.isSome_none, Bool.false_eq_true,
      or_self, if_false]
    match resolve x.guardedAt (stripDot d.text) with
    | none => simp
    | some [] => simp
    | some (s :: rest) =>
      simp only [Except.ok.injEq, Option.getD_some]
      exact ⟨fun h => ⟨h, h ▸ List.cons_ne_nil _ _⟩, And.left⟩

/-- When a call is not refused. -/
theorem upstreamRefusal_eq_none (hurl : parseUrl x.url = some url) :
    upstreamRefusal parseUrl resolve x = none ↔
      formRefusal x.url ⟨x.allowHosts, true⟩ url = none ∧ (Allowlisted x url ∨
        isInternal url.host = false ∧ shown resolve x url ≠ [] ∧
          ∀ s ∈ shown resolve x url, blockedAddressReason s = none) := by
  simp only [upstreamRefusal, checkProviderUrl, hurl]
  cases hform : formRefusal x.url ⟨x.allowHosts, true⟩ url with
  | some reason => simp
  | none =>
    by_cases hallow : Allowlisted x url
    case pos =>
      rw [if_pos (show url.host ∈ x.allowHosts.map (·.map Char.toLower) from hallow)]
      simp [hallow]
    case neg =>
      rw [if_neg (show ¬ url.host ∈ x.allowHosts.map (·.map Char.toLower) from hallow)]
      simp only [hallow, true_and, false_or]
      cases hname : isInternal url.host with
      | true => simp
      | false =>
        simp only [Bool.false_eq_true, if_false, true_and]
        cases haddr : addressesOf (resolve x.guardedAt) url.host with
        | error reason =>
          have hnil : shown resolve x url = [] := by
            by_contra hne
            have hok := (addressesOf_eq _).mpr ⟨rfl, hne⟩
            rw [haddr] at hok
            cases hok
          simp [Except.bind, hnil]
        | ok addresses =>
          obtain ⟨hshown, hne⟩ := (addressesOf_eq addresses).mp haddr
          rw [hshown]
          cases hfind : addresses.findSome? blockedAddressReason with
          | some why =>
            obtain ⟨s, hs, hwhy⟩ := List.exists_of_findSome?_eq_some hfind
            simp only [Except.bind, hfind, reduceCtorEq, false_iff]
            rintro ⟨-, hall⟩
            exact Option.some_ne_none _ (hwhy.symm.trans (hall s hs))
          | none =>
            simp only [Except.bind, hfind, true_iff]
            exact ⟨hne, List.findSome?_eq_none_iff.mp hfind⟩

/-- A call is guarded exactly when the internal addresses it can connect to are foreseen. -/
theorem guarded_iff_steady (parseUrl : String → Option Url) (resolve : Resolver) (x : Call) :
    Guarded parseUrl resolve x ↔ Steady parseUrl resolve x := by
  constructor
  · intro hguarded url hurl hform hallow hname a hconnects hinternal
    by_cases hnil : shown resolve x url = []
    case pos => exact .inr (.inl hnil)
    case neg =>
      by_cases hblocked : ∃ s ∈ shown resolve x url, blockedAddressReason s ≠ none
      case pos => exact .inr (.inr hblocked)
      case neg =>
        have hall : ∀ s ∈ shown resolve x url, blockedAddressReason s = none := fun s hs => by
          by_contra hne
          exact hblocked ⟨s, hs, hne⟩
        have hnone := (upstreamRefusal_eq_none hurl).mpr ⟨hform, .inr ⟨hname, hnil, hall⟩⟩
        have hsafe := (hguarded hnone url hurl).resolve_left hallow
        exact absurd hinternal (hsafe a hconnects)
  · intro hsteady hnone url hurl
    obtain ⟨hform, hlet⟩ := (upstreamRefusal_eq_none hurl).mp hnone
    by_cases hallow : Allowlisted x url
    case pos => exact .inl hallow
    case neg =>
      obtain ⟨hname, hne, hall⟩ := hlet.resolve_left hallow
      refine .inr fun a hconnects hinternal => ?_
      rcases hsteady url hurl hform hallow hname a hconnects hinternal with
        ⟨⟨s, hs, hspells⟩, hsix⟩ | hnil | ⟨s, hs, hblocked⟩
      · exact blocked_of_spells hspells hinternal hsix (hall s hs)
      · exact hne hnil
      · exact hblocked (hall s hs)

end

/-! ## A name that is looked up twice -/

/-- A name whose address changes. -/
def rebindDomain : Domain where
  text := "rebind.example".toList
  lower := by decide
  noColon := by decide
  noBracket := by decide
  noNumber := by
    intro labels last h _
    have hsplit : (stripDot "rebind.example".toList).splitOn '.' =
        ["rebind".toList, "example".toList] := by
      decide
    rw [hsplit] at h
    have hlast := congrArg List.getLast? h
    rw [List.getLast?_concat] at hlast
    cases hlast
    decide

def rebindCall : Call := ⟨"https://rebind.example/v1", [], 0, 1⟩

def rebindUrl (raw : String) : Option Url :=
  if raw = rebindCall.url then some ⟨"https:", "", "", "", "", .domain rebindDomain⟩ else none

/-- A public address first, and then the controller's own. -/
def rebindResolver : Resolver := fun time _ =>
  some [if time = 0 then "93.184.216.34".toList else "127.0.0.1".toList]

def loopbackQuad : Quad where
  words := [['1', '2', '7'], ['0'], ['0'], ['1']]
  length_eq := rfl
  isByte := by
    intro w hw
    simp only [List.mem_cons, List.not_mem_nil, or_false] at hw
    rcases hw with rfl | rfl | rfl | rfl <;>
      exact ⟨List.all_eq_true.mp rfl, by decide, by decide, by decide, by decide⟩

theorem not_guarded_rebind : ¬ ∀ parseUrl resolve x, Guarded parseUrl resolve x := by
  intro hclaim
  have hadmitted : upstreamRefusal rebindUrl rebindResolver rebindCall = none := by decide
  have hread : rebindUrl rebindCall.url = some ⟨"https:", "", "", "", "", .domain rebindDomain⟩ :=
    if_pos rfl
  have hspells : Spells "127.0.0.1".toList (.v4 loopbackQuad.bytes) := .v4 loopbackQuad
  have hinternal : Internal (.v4 loopbackQuad.bytes) :=
    ⟨⟨[127, 0, 0, 0], 8⟩, by decide, by decide⟩
  rcases hclaim rebindUrl rebindResolver rebindCall hadmitted _ hread with hallow | hsafe
  · cases hallow
  · exact hsafe _ ⟨"127.0.0.1".toList, List.mem_singleton.mpr rfl, hspells⟩ hinternal

example : blockedAddressReason "2002:7f00:1::".toList = none := by decide

end Swarmy.Ai
