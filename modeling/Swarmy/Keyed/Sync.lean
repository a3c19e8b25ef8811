import Swarmy.Js.Value

/-!
# Bringing a listing in line with what is wanted

A store lists objects that have an id, which the store gives out and never gives out
twice, and a key, which it does not check.  A client that wants one object for each of
a list of items reads the listing once, creates what has no object of its key, updates
the object it takes for the key where that is not as wanted, and deletes the objects of
its own that nothing wants.

`listed_ensure` says what the listing is then.  `silent_iff` says when doing the same
again has nothing to write: when any two items of one key are the same item.
-/

namespace Keyed

open List Option Nat

/-- The ids a store gives out, in this order. -/
structure IdSupply where
  issue : Nat → String
  injective : Function.Injective issue

/-- An id that is not given out from `n` on. -/
def IdSupply.Before (S : IdSupply) (n : Nat) (i : String) : Prop := ∀ k, n ≤ k → i ≠ S.issue k

theorem IdSupply.Before.mono {S : IdSupply} {n n' : Nat} {i : String} (h : S.Before n i)
    (hn : n ≤ n') : S.Before n' i := fun k hk => h k (le_trans hn hk)

theorem IdSupply.before_issue {S : IdSupply} {n k : Nat} (h : k < n) : S.Before n (S.issue k) :=
  fun k' hk he => by
    have := S.injective he
    omega

/-- Ids that were given out before `n`, each to one object. -/
structure IdSupply.Given (S : IdSupply) (n : Nat) (ids : List String) : Prop where
  nodup : ids.Nodup
  before : ∀ i ∈ ids, S.Before n i

/-- How the objects `α` of a kind are kept for items `β`, under keys `κ`.  Creating and
updating may use up ids. -/
structure Kind (α β κ : Type) where
  id : α → String
  key : α → κ
  want : β → κ
  /-- The object is as the item wants it. -/
  ok : β → α → Bool
  make : Nat → β → α × Nat
  put : Nat → β → α → α × Nat
  /-- Of several objects of one key, is it the first that counts, or the last? -/
  first : Bool

variable {α β κ : Type} [DecidableEq κ] (K : Kind α β κ)

/-- The object of a listing that is taken for a key. -/
def pick (l : List α) (k : κ) : Option α :=
  if K.first then l.find? (K.key · = k) else l.reverse.find? (K.key · = k)

/-- One item, against the listing `have`. -/
def step (listed : List α) (st : List α × Nat) (b : β) : List α × Nat :=
  match pick K listed (K.want b) with
  | none =>
    let made := K.make st.2 b
    (st.1 ++ [made.1], made.2)
  | some cur =>
    if K.ok b cur then st
    else
      let new := K.put st.2 b cur
      (st.1.map fun a => if K.id a = K.id cur then new.1 else a, new.2)

/-- Every item in order, against the listing at the start. -/
def ensure (listed : List α) (wants : List β) (n : Nat) : List α × Nat :=
  wants.foldl (step K listed) (listed, n)

/-- Delete the objects of the listing that are to go. -/
def prune (listed : List α) (gone : α → Bool) (l : List α) : List α :=
  l.filter fun a => K.id a ∉ (listed.filter gone).map K.id

/-- A write: a new object for an item, a change of an object, or its deletion. -/
inductive Write (α β : Type) where
  | create (b : β)
  | update (a : α)
  | delete (a : α)

/-- The write of an item, if it has one. -/
def write (listed : List α) (b : β) : Option (Write α β) :=
  match pick K listed (K.want b) with
  | none => some (.create b)
  | some cur => if K.ok b cur then none else some (.update cur)

/-- All writes: those of the items, and the deletions. -/
def writes (listed : List α) (wants : List β) (gone : α → Bool) :
    List (Write α β) :=
  wants.filterMap (write K listed) ++ (listed.filter gone).map .delete

/-- There is nothing to write. -/
def Silent (listed : List α) (wants : List β) (gone : α → Bool) : Prop :=
  writes K listed wants gone = []

/-- The object is neither changed nor deleted. -/
structure Spared (listed : List α) (wants : List β) (gone : α → Bool) (a : α) : Prop where
  stays : gone a = false
  ok : ∀ b ∈ wants, pick K listed (K.want b) = some a → K.ok b a = true

/-! ## Picking -/

section

variable {K} {l l' : List α} {k : κ} {a : α}

theorem pick_mem (h : pick K l k = some a) : a ∈ l ∧ K.key a = k := by
  unfold pick at h
  split at h
  · exact ⟨mem_of_find?_eq_some h, by simpa using List.find?_some h⟩
  · exact ⟨mem_reverse.mp (mem_of_find?_eq_some h), by simpa using List.find?_some h⟩

theorem pick_eq_none : pick K l k = none ↔ ∀ a ∈ l, K.key a ≠ k := by
  unfold pick
  split <;> simp [List.find?_eq_none]

theorem pick_map {f : α → α} (hf : ∀ a ∈ l, K.key (f a) = K.key a) :
    pick K (l.map f) k = (pick K l k).map f := by
  have hfind : ∀ l : List α, (∀ a ∈ l, K.key (f a) = K.key a) →
      (l.map f).find? (K.key · = k) = (l.find? (K.key · = k)).map f := by
    intro l
    induction l with
    | nil => intro _; rfl
    | cons a l ih =>
      intro h
      rw [map_cons, List.find?_cons, List.find?_cons, h a (.head _)]
      split
      · rfl
      · exact ih fun x hx => h x (.tail _ hx)
  unfold pick
  split
  · exact hfind l hf
  · rw [← map_reverse]
    exact hfind l.reverse fun a ha => hf a (mem_reverse.mp ha)

theorem pick_append_of_forall_ne (h : ∀ a ∈ l', K.key a ≠ k) : pick K (l ++ l') k = pick K l k := by
  have hnone : ∀ l'' : List α, (∀ a ∈ l'', a ∈ l') → l''.find? (K.key · = k) = none := by
    intro l'' hsub
    rw [List.find?_eq_none]
    intro a ha
    simpa using h a (hsub a ha)
  unfold pick
  split
  · rw [List.find?_append, hnone l' fun _ h => h, or_none]
  · rw [reverse_append, List.find?_append,
      hnone l'.reverse fun _ => mem_reverse.mp, none_or]

theorem pick_append_of_ne (h : ∀ a ∈ l, K.key a ≠ k) : pick K (l ++ l') k = pick K l' k := by
  have hnone : ∀ l'' : List α, (∀ a ∈ l'', a ∈ l) → l''.find? (K.key · = k) = none := by
    intro l'' hsub
    rw [List.find?_eq_none]
    intro a ha
    simpa using h a (hsub a ha)
  unfold pick
  split
  · rw [List.find?_append, hnone l fun _ h => h, none_or]
  · rw [reverse_append, List.find?_append,
      hnone l.reverse fun _ => mem_reverse.mp, or_none]

theorem pick_filter {p : α → Bool} (h : ∀ a ∈ l, K.key a = k → p a = true) :
    pick K (l.filter p) k = pick K l k := by
  have hfind : ∀ l : List α, (∀ a ∈ l, K.key a = k → p a = true) →
      (l.filter p).find? (K.key · = k) = l.find? (K.key · = k) := by
    intro l
    induction l with
    | nil => intro _; rfl
    | cons a l ih =>
      intro h
      have hl := ih fun x hx => h x (.tail _ hx)
      by_cases hk : K.key a = k
      · rw [filter_cons_of_pos (h a (.head _) hk), List.find?_cons, List.find?_cons]
        simp only [hk, decide_true]
      · rw [List.find?_cons_of_neg (by simpa using hk), ← hl]
        by_cases hp : p a = true
        · rw [filter_cons_of_pos hp, List.find?_cons_of_neg (by simpa using hk)]
        · rw [filter_cons_of_neg hp]
  unfold pick
  split
  · exact hfind l h
  · rw [← filter_reverse]
    exact hfind l.reverse fun a ha => h a (mem_reverse.mp ha)

theorem pick_isSome (ha : a ∈ l) (hk : K.key a = k) : ∃ a', pick K l k = some a' := by
  cases h : pick K l k with
  | none => exact absurd hk (pick_eq_none.mp h a ha)
  | some a' => exact ⟨a', rfl⟩

end

/-! ## What the listing is then -/

/-- Creating and updating give an object of the item's key; an update keeps the id and a
new object has a new one. -/
structure Kind.Lawful (S : IdSupply) (K : Kind α β κ) : Prop where
  key_make : ∀ n b, K.key (K.make n b).1 = K.want b
  key_put : ∀ n b a, K.key a = K.want b → K.key (K.put n b a).1 = K.want b
  id_put : ∀ n b a, K.id (K.put n b a).1 = K.id a
  id_make : ∀ n b, ∃ k, n ≤ k ∧ k < (K.make n b).2 ∧ K.id (K.make n b).1 = S.issue k
  le_put : ∀ n b a, n ≤ (K.put n b a).2

omit [DecidableEq κ] in
theorem Kind.Lawful.le_make {S : IdSupply} {K : Kind α β κ} (h : K.Lawful S) (n : Nat) (b : β) :
    n ≤ (K.make n b).2 := by
  obtain ⟨k, hn, hk, -⟩ := h.id_make n b
  omega

/-- The ids of a listing are distinct, and not given out again. -/
structure Fresh (S : IdSupply) (K : Kind α β κ) (listed : List α) (n : Nat) : Prop where
  nodup : (listed.map K.id).Nodup
  before : ∀ a ∈ listed, S.Before n (K.id a)

omit [DecidableEq κ] in
theorem IdSupply.Given.fresh {S : IdSupply} {K : Kind α β κ} {listed : List α} {n n' : Nat}
    (h : S.Given n (listed.map K.id)) (hn : n ≤ n') : Fresh S K listed n' where
  nodup := h.nodup
  before _ ha := (h.before _ (mem_map_of_mem ha)).mono hn

/-- The listing after the items: every object of it has stayed as it was, or is as the
last item that changed it has left it, and behind them come the new objects. -/
structure Ensured (listed : List α) (wants : List β) (n : Nat) (st : List α × Nat)
    (u : α → α) (news : List α) : Prop where
  eq : st.1 = listed.map u ++ news
  le : n ≤ st.2
  old : ∀ a ∈ listed,
    (u a = a ∧ ∀ b ∈ wants, pick K listed (K.want b) = some a → K.ok b a = true) ∨
      ∃ b ∈ wants, pick K listed (K.want b) = some a ∧ K.ok b a = false ∧
        ∃ n', n ≤ n' ∧ u a = (K.put n' b a).1
  new : ∀ x ∈ news, ∃ b ∈ wants, pick K listed (K.want b) = none ∧
    ∃ n', n ≤ n' ∧ x = (K.make n' b).1
  each : ∀ b ∈ wants, pick K listed (K.want b) = none → ∃ x ∈ news, K.key x = K.want b
  keys : news.map K.key =
    (wants.filter fun b => (pick K listed (K.want b)).isNone).map K.want

section

variable {K} {S : IdSupply} {listed : List α} {wants : List β} {n : Nat} {st : List α × Nat}
variable {u : α → α} {news : List α} {a x : α}

theorem Ensured.key_old (hK : K.Lawful S) (h : Ensured K listed wants n st u news)
    (ha : a ∈ listed) : K.key (u a) = K.key a := by
  rcases h.old a ha with ⟨hu, -⟩ | ⟨b, -, hb, -, n', -, hu⟩
  · rw [hu]
  · rw [hu, hK.key_put n' b a (pick_mem hb).2, (pick_mem hb).2]

theorem Ensured.id_old (hK : K.Lawful S) (h : Ensured K listed wants n st u news)
    (ha : a ∈ listed) : K.id (u a) = K.id a := by
  rcases h.old a ha with ⟨hu, -⟩ | ⟨b, -, -, -, n', -, hu⟩
  · rw [hu]
  · rw [hu, hK.id_put]

theorem Ensured.id_new (hK : K.Lawful S) (h : Ensured K listed wants n st u news)
    (hx : x ∈ news) : ∃ k, n ≤ k ∧ K.id x = S.issue k := by
  obtain ⟨b, -, -, n', hn, rfl⟩ := h.new x hx
  obtain ⟨k, hk, -, hid⟩ := hK.id_make n' b
  exact ⟨k, le_trans hn hk, hid⟩

/-- One more item. -/
theorem Ensured.step (hK : K.Lawful S) (hf : Fresh S K listed n)
    (h : Ensured K listed wants n st u news) (b : β) :
    ∃ u' news', Ensured K listed (wants ++ [b]) n (Keyed.step K listed st b) u' news' := by
  have hwants : ∀ {P : β → Prop}, (∃ b' ∈ wants, P b') → ∃ b' ∈ wants ++ [b], P b' :=
    fun ⟨b', hb', hP⟩ => ⟨b', mem_append_left _ hb', hP⟩
  have hlast : b ∈ wants ++ [b] := mem_append_right _ (mem_singleton_self b)
  unfold Keyed.step
  cases hp : pick K listed (K.want b) with
  | none =>
    refine ⟨u, news ++ [(K.make st.2 b).1], ?_, ?_, ?_, ?_, ?_, ?_⟩
    · simp only [h.eq, append_assoc]
    · exact le_trans h.le (hK.le_make st.2 b)
    · intro a ha
      refine (h.old a ha).imp (And.imp_right fun hok b' hb' hpick => ?_) hwants
      rcases mem_append.mp hb' with hb' | hb'
      · exact hok b' hb' hpick
      · rw [mem_singleton.mp hb', hp] at hpick
        cases hpick
    · intro x hx
      rcases mem_append.mp hx with hx | hx
      · exact hwants (h.new x hx)
      · exact ⟨b, hlast, hp, st.2, h.le, mem_singleton.mp hx⟩
    · intro b' hb' hnone
      rcases mem_append.mp hb' with hb' | hb'
      · obtain ⟨x, hx, hk⟩ := h.each b' hb' hnone
        exact ⟨x, mem_append_left _ hx, hk⟩
      · rw [mem_singleton.mp hb']
        exact ⟨_, mem_append_right _ (mem_singleton_self _), hK.key_make st.2 b⟩
    · rw [map_append, h.keys, filter_append, map_append]
      simp [hp, hK.key_make]
  | some cur =>
    have heach : ∀ b' ∈ wants ++ [b], pick K listed (K.want b') = none →
        ∃ x ∈ news, K.key x = K.want b' := by
      intro b' hb' hnone
      rcases mem_append.mp hb' with hb' | hb'
      · exact h.each b' hb' hnone
      · rw [mem_singleton.mp hb', hp] at hnone
        cases hnone
    have hkeys : news.map K.key =
        ((wants ++ [b]).filter fun b => (pick K listed (K.want b)).isNone).map K.want := by
      rw [h.keys, filter_append]
      simp [hp]
    have hcur : cur ∈ listed := (pick_mem hp).1
    dsimp only
    by_cases hok : K.ok b cur = true
    · rw [if_pos hok]
      refine ⟨u, news, h.eq, h.le, ?_, fun x hx => hwants (h.new x hx), heach, hkeys⟩
      intro a ha
      refine (h.old a ha).imp (And.imp_right fun hold b' hb' hpick => ?_) hwants
      rcases mem_append.mp hb' with hb' | hb'
      · exact hold b' hb' hpick
      · rw [mem_singleton.mp hb'] at hpick ⊢
        rw [some.inj (hpick.symm.trans hp)]
        exact hok
    · rw [if_neg hok]
      have hok : K.ok b cur = false := by simpa using hok
      let u' : α → α := fun a => if K.id a = K.id cur then (K.put st.2 b cur).1 else u a
      refine ⟨u', news, ?_, ?_, ?_, fun x hx => hwants (h.new x hx), heach, hkeys⟩
      · show List.map _ st.1 = _
        rw [h.eq, List.map_append, List.map_map]
        congr 1
        · refine map_congr_left fun a ha => ?_
          show (if K.id (u a) = K.id cur then _ else _) = _
          rw [h.id_old hK ha]
        · refine (map_congr_left fun x hx => ?_).trans (map_id _)
          obtain ⟨k, hk, hid⟩ := h.id_new hK hx
          exact if_neg fun he => hf.before cur hcur k hk (he.symm.trans hid)
      · exact le_trans h.le (hK.le_put st.2 b cur)
      · intro a ha
        by_cases hid : K.id a = K.id cur
        · obtain rfl : a = cur := inj_on_of_nodup_map hf.nodup ha hcur hid
          exact .inr ⟨b, hlast, hp, hok, st.2, h.le, if_pos rfl⟩
        · have hu : u' a = u a := if_neg hid
          rw [hu]
          refine (h.old a ha).imp (And.imp_right fun hold b' hb' hpick => ?_) hwants
          rcases mem_append.mp hb' with hb' | hb'
          · exact hold b' hb' hpick
          · rw [mem_singleton.mp hb'] at hpick
            exact absurd (congrArg K.id (some.inj (hpick.symm.trans hp))) hid

/-- Some more items. -/
theorem Ensured.steps (hK : K.Lawful S) (hf : Fresh S K listed n) (todo : List β)
    (h : Ensured K listed wants n st u news) :
    ∃ u' news', Ensured K listed (wants ++ todo) n
      (todo.foldl (Keyed.step K listed) st) u' news' := by
  induction todo generalizing wants st u news with
  | nil =>
    rw [append_nil]
    exact ⟨u, news, h⟩
  | cons b todo ih =>
    obtain ⟨u', news', h'⟩ := h.step hK hf b
    have hrest := ih h'
    rwa [append_assoc] at hrest

theorem exists_ensured (hK : K.Lawful S) (hf : Fresh S K listed n) (wants : List β) :
    ∃ u news, Ensured K listed wants n (ensure K listed wants n) u news := by
  have hnil : Ensured K listed [] n (listed, n) (fun a => a) [] := by
    constructor
    · simp
    · exact le_refl n
    · exact fun a _ => .inl ⟨rfl, fun b hb => by cases hb⟩
    · exact fun x hx => by cases hx
    · exact fun b hb => by cases hb
    · rfl
  exact hnil.steps hK hf wants

end

/-! ## Doing the same again -/

/-- Items of one key want the same of an object. -/
def Agree (wants : List β) : Prop :=
  ∀ b ∈ wants, ∀ b' ∈ wants, K.want b = K.want b' → ∀ a, K.ok b' a = true → K.ok b a = true

/-- What one object says of two items it says of all objects. -/
def Same (wants : List β) : Prop :=
  ∀ b ∈ wants, ∀ b' ∈ wants, K.want b = K.want b' → ∀ a a', K.ok b a = true →
    K.ok b' a = true → K.ok b' a' = true → K.ok b a' = true

/-- What an item creates or updates is as it wants it. -/
def Settles (listed : List α) (n : Nat) (b : β) : Prop :=
  (∀ n', n ≤ n' → K.ok b (K.make n' b).1 = true) ∧
    ∀ n', n ≤ n' → ∀ a ∈ listed, K.key a = K.want b → K.ok b (K.put n' b a).1 = true

/-- Whether an object is to go is seen from its key, and nothing wanted is to go. -/
structure Disposes (wants : List β) (gone : α → Bool) : Prop where
  key : ∀ a a', K.key a = K.key a' → gone a = gone a'
  wanted : ∀ b ∈ wants, ∀ a, K.key a = K.want b → gone a = false

/-- The listing after one run. -/
def synced (listed : List α) (wants : List β) (gone : α → Bool) (n : Nat) : List α :=
  prune K listed gone (ensure K listed wants n).1

section

variable {K} {S : IdSupply} {listed : List α} {wants : List β} {n : Nat} {gone : α → Bool}
variable {st : List α × Nat} {u : α → α} {news : List α} {a x : α} {b : β}

/-- Every item has an object. -/
theorem Ensured.exists_pick (hK : K.Lawful S) (h : Ensured K listed wants n st u news)
    (hb : b ∈ wants) : ∃ a, pick K st.1 (K.want b) = some a := by
  rw [h.eq]
  cases hp : pick K listed (K.want b) with
  | none =>
    obtain ⟨x, hx, hk⟩ := h.each b hb hp
    exact pick_isSome (mem_append_right _ hx) hk
  | some cur =>
    obtain ⟨hcur, hk⟩ := pick_mem hp
    exact pick_isSome (mem_append_left _ (mem_map_of_mem hcur))
      ((h.key_old hK hcur).trans hk)

/-- Every item has an object that is as it wants it. -/
theorem Ensured.exists_ok (hK : K.Lawful S) (h : Ensured K listed wants n st u news)
    (hagree : Agree K wants) (hset : ∀ b ∈ wants, Settles K listed n b) (hb : b ∈ wants) :
    ∃ a, pick K st.1 (K.want b) = some a ∧ K.ok b a = true := by
  rw [h.eq]
  cases hp : pick K listed (K.want b) with
  | none =>
    have hnot : ∀ a ∈ listed.map u, K.key a ≠ K.want b := by
      intro a ha
      obtain ⟨a₀, ha₀, rfl⟩ := mem_map.mp ha
      rw [h.key_old hK ha₀]
      exact pick_eq_none.mp hp a₀ ha₀
    rw [pick_append_of_ne hnot]
    obtain ⟨x, hx, hk⟩ := h.each b hb hp
    obtain ⟨a, ha⟩ := pick_isSome hx hk
    refine ⟨a, ha, ?_⟩
    obtain ⟨b', hb', -, n', hn', rfl⟩ := h.new a (pick_mem ha).1
    have hkey : K.want b = K.want b' := (pick_mem ha).2.symm.trans (hK.key_make n' b')
    exact hagree b hb b' hb' hkey _ ((hset b' hb').1 n' hn')
  | some cur =>
    have hcur : cur ∈ listed := (pick_mem hp).1
    have hnew : ∀ x ∈ news, K.key x ≠ K.want b := by
      intro x hx he
      obtain ⟨b', -, hb', n', -, rfl⟩ := h.new x hx
      rw [hK.key_make] at he
      rw [he, hp] at hb'
      cases hb'
    rw [pick_append_of_forall_ne hnew, pick_map fun a ha => h.key_old hK ha, hp]
    refine ⟨u cur, rfl, ?_⟩
    rcases h.old cur hcur with ⟨hu, hok⟩ | ⟨b', hb', hp', -, n', hn', hu⟩
    · rw [hu]
      exact hok b hb hp
    · rw [hu]
      have hkey : K.want b = K.want b' := (pick_mem hp).2.symm.trans (pick_mem hp').2
      exact hagree b hb b' hb' hkey _ ((hset b' hb').2 n' hn' cur hcur (pick_mem hp').2)

/-- An object of a wanted key is not deleted. -/
theorem Ensured.kept (hK : K.Lawful S) (hf : Fresh S K listed n)
    (h : Ensured K listed wants n st u news) (hd : Disposes K wants gone) (hb : b ∈ wants)
    (hx : x ∈ st.1) (hk : K.key x = K.want b) : K.id x ∉ (listed.filter gone).map K.id := by
  intro hid
  obtain ⟨d, hd', he⟩ := mem_map.mp hid
  obtain ⟨hdl, hg⟩ := mem_filter.mp hd'
  rw [h.eq] at hx
  rcases mem_append.mp hx with hx | hx
  · obtain ⟨a, ha, rfl⟩ := mem_map.mp hx
    obtain rfl : d = a := inj_on_of_nodup_map hf.nodup hdl ha (he.trans (h.id_old hK ha))
    rw [h.key_old hK ha] at hk
    rw [hd.wanted b hb d hk] at hg
    cases hg
  · obtain ⟨k, hnk, hi⟩ := h.id_new hK hx
    exact hf.before d hdl k hnk (he.trans hi)

theorem pick_synced (hK : K.Lawful S) (hf : Fresh S K listed n) (hd : Disposes K wants gone)
    (hb : b ∈ wants) : pick K (synced K listed wants gone n) (K.want b) =
      pick K (ensure K listed wants n).1 (K.want b) := by
  obtain ⟨u, news, h⟩ := exists_ensured hK hf wants
  refine pick_filter fun x hx hk => ?_
  rw [decide_eq_true_eq]
  exact h.kept hK hf hd hb hx hk

/-- Nothing that is to go is left. -/
theorem not_gone (hK : K.Lawful S) (hf : Fresh S K listed n) (hd : Disposes K wants gone)
    (hx : x ∈ synced K listed wants gone n) : gone x = false := by
  obtain ⟨u, news, h⟩ := exists_ensured hK hf wants
  obtain ⟨hx, hid⟩ := mem_filter.mp hx
  rw [decide_eq_true_eq] at hid
  rw [h.eq] at hx
  rcases mem_append.mp hx with hx | hx
  · obtain ⟨a, ha, rfl⟩ := mem_map.mp hx
    rw [hd.key _ a (h.key_old hK ha)]
    by_contra hg
    rw [Bool.not_eq_false] at hg
    refine hid ?_
    rw [h.id_old hK ha]
    exact mem_map_of_mem (mem_filter.mpr ⟨ha, hg⟩)
  · obtain ⟨b, hb, -, n', -, rfl⟩ := h.new x hx
    exact hd.wanted b hb _ (hK.key_make n' b)

/-- The object that is taken for an item after a run: the one before, as it was or as it
has been updated, or a new one. -/
structure Taken (K : Kind α β κ) (listed : List α) (n : Nat) (b : β) (x : α) : Prop where
  key : K.key x = K.want b
  old : ∀ a, pick K listed (K.want b) = some a →
    (K.ok b a = true ∧ x = a) ∨ (K.ok b a = false ∧ ∃ n', n ≤ n' ∧ x = (K.put n' b a).1)
  new : pick K listed (K.want b) = none → ∃ n', n ≤ n' ∧ x = (K.make n' b).1

theorem Ensured.taken (hK : K.Lawful S) (h : Ensured K listed wants n st u news)
    (hwants : ∀ b ∈ wants, ∀ b' ∈ wants, K.want b = K.want b' → b = b') (hb : b ∈ wants)
    (hx : pick K st.1 (K.want b) = some x) : Taken K listed n b x := by
  rw [h.eq] at hx
  refine ⟨(pick_mem hx).2, fun a ha => ?_, fun hnone => ?_⟩
  · have hnew : ∀ x ∈ news, K.key x ≠ K.want b := by
      intro x hx he
      obtain ⟨b', -, hb', n', -, rfl⟩ := h.new x hx
      rw [hK.key_make] at he
      rw [he, ha] at hb'
      cases hb'
    rw [pick_append_of_forall_ne hnew, pick_map fun a ha => h.key_old hK ha, ha] at hx
    obtain rfl := some.inj hx
    obtain ⟨hamem, hakey⟩ := pick_mem ha
    rcases h.old a hamem with ⟨hu, hok⟩ | ⟨b', hb', hp', hok, n', hn', hu⟩
    · exact .inl ⟨hok b hb ha, hu⟩
    · obtain rfl := hwants b hb b' hb' (hakey.symm.trans (pick_mem hp').2)
      exact .inr ⟨hok, n', hn', hu⟩
  · have hold : ∀ a ∈ listed.map u, K.key a ≠ K.want b := by
      intro a ha
      obtain ⟨a₀, ha₀, rfl⟩ := mem_map.mp ha
      rw [h.key_old hK ha₀]
      exact pick_eq_none.mp hnone a₀ ha₀
    rw [pick_append_of_ne hold] at hx
    obtain ⟨b', hb', -, n', hn', rfl⟩ := h.new x (pick_mem hx).1
    obtain rfl := hwants b hb b' hb' ((pick_mem hx).2.symm.trans (hK.key_make n' b'))
    exact ⟨n', hn', rfl⟩

/-- The object is taken for no item, and it is not to go. -/
structure Stays (K : Kind α β κ) (listed : List α) (wants : List β) (gone : α → Bool) (a : α) :
    Prop where
  mem : a ∈ listed
  kept : gone a = false
  free : ∀ b ∈ wants, pick K listed (K.want b) ≠ some a

/-- After a run there are the objects that stay, and those taken for the items. -/
theorem mem_synced_iff (hK : K.Lawful S) (hf : Fresh S K listed n) (hd : Disposes K wants gone)
    (hwants : (wants.map K.want).Nodup) : x ∈ synced K listed wants gone n ↔
      Stays K listed wants gone x ∨
        ∃ b ∈ wants, pick K (synced K listed wants gone n) (K.want b) = some x := by
  obtain ⟨u, news, h⟩ := exists_ensured hK hf wants
  constructor
  · intro hx
    obtain ⟨hxe, hid⟩ := mem_filter.mp hx
    rw [h.eq] at hxe
    rcases mem_append.mp hxe with hxe | hxe
    · obtain ⟨a, ha, rfl⟩ := mem_map.mp hxe
      by_cases htaken : ∃ b ∈ wants, pick K listed (K.want b) = some a
      · obtain ⟨b, hb, hp⟩ := htaken
        refine .inr ⟨b, hb, ?_⟩
        have hnew : ∀ x ∈ news, K.key x ≠ K.want b := by
          intro x hx he
          obtain ⟨b', -, hb', n', -, rfl⟩ := h.new x hx
          rw [hK.key_make] at he
          rw [he, hp] at hb'
          cases hb'
        rw [pick_synced hK hf hd hb, h.eq, pick_append_of_forall_ne hnew,
          pick_map fun a ha => h.key_old hK ha, hp]
        rfl
      · have hfree : ∀ b ∈ wants, pick K listed (K.want b) ≠ some a :=
          fun b hb hp => htaken ⟨b, hb, hp⟩
        have hu : u a = a := by
          rcases h.old a ha with ⟨hu, -⟩ | ⟨b, hb, hp, -⟩
          · exact hu
          · exact absurd hp (hfree b hb)
        rw [hu] at hx ⊢
        exact .inl ⟨ha, not_gone hK hf hd hx, hfree⟩
    · obtain ⟨b, hb, hp, n', -, rfl⟩ := h.new x hxe
      refine .inr ⟨b, hb, ?_⟩
      have hold : ∀ a ∈ listed.map u, K.key a ≠ K.want b := by
        intro a ha
        obtain ⟨a₀, ha₀, rfl⟩ := mem_map.mp ha
        rw [h.key_old hK ha₀]
        exact pick_eq_none.mp hp a₀ ha₀
      rw [pick_synced hK hf hd hb, h.eq, pick_append_of_ne hold]
      -- the new objects have one key each
      have hnodup : (news.map K.key).Nodup := by
        rw [h.keys]
        exact (filter_sublist.map K.want).nodup hwants
      obtain ⟨a, ha⟩ := pick_isSome hxe (hK.key_make n' b)
      obtain ⟨hamem, hakey⟩ := pick_mem ha
      rw [ha, inj_on_of_nodup_map hnodup hamem hxe (hakey.trans (hK.key_make n' b).symm)]
  · rintro (⟨hx, hg, hfree⟩ | ⟨b, hb, hp⟩)
    · refine mem_filter.mpr ⟨?_, ?_⟩
      · rw [h.eq]
        refine mem_append_left _ (mem_map.mpr ⟨x, hx, ?_⟩)
        rcases h.old x hx with ⟨hu, -⟩ | ⟨b, hb, hp, -⟩
        · exact hu
        · exact absurd hp (hfree b hb)
      · rw [decide_eq_true_eq]
        intro hid
        obtain ⟨d, hd', he⟩ := mem_map.mp hid
        obtain ⟨hdl, hdg⟩ := mem_filter.mp hd'
        obtain rfl : d = x := inj_on_of_nodup_map hf.nodup hdl hx he
        rw [hg] at hdg
        cases hdg
    · exact (pick_mem hp).1

theorem silent_iff {l : List α} : Silent K l wants gone ↔
    (∀ b ∈ wants, ∃ a, pick K l (K.want b) = some a ∧ K.ok b a = true) ∧
      ∀ a ∈ l, gone a = false := by
  rw [Silent, writes, append_eq_nil_iff, filterMap_eq_nil_iff, map_eq_nil_iff,
    filter_eq_nil_iff]
  refine and_congr (forall₂_congr fun b _ => ?_) (forall₂_congr fun a _ => by simp)
  unfold write
  cases pick K l (K.want b) with
  | none => simp
  | some a => cases hok : K.ok b a <;> simp [hok]

/-- What holds of every write holds of what is created, and of every object that is not
spared. -/
theorem forall_writes_iff {l : List α} {P : Write α β → Prop} {M : α → Prop}
    (hupdate : ∀ a, P (.update a) ↔ M a) (hdelete : ∀ a, P (.delete a) ↔ M a) :
    (∀ w ∈ writes K l wants gone, P w) ↔
      (∀ b ∈ wants, pick K l (K.want b) = none → P (.create b)) ∧
        ∀ a ∈ l, M a ∨ Spared K l wants gone a := by
  have hwrite : ∀ b ∈ wants, ∀ w, write K l b = some w → w ∈ writes K l wants gone :=
    fun b hb w hw => mem_append_left _ (mem_filterMap.mpr ⟨b, hb, hw⟩)
  constructor
  · intro h
    refine ⟨fun b hb hp => h _ (hwrite b hb _ (by rw [write, hp])), fun a ha => ?_⟩
    refine or_iff_not_imp_left.mpr fun hmine => ⟨?_, fun b hb hp => ?_⟩
    · by_contra hg
      refine hmine ((hdelete a).mp (h _ (mem_append_right _ (mem_map_of_mem ?_))))
      exact mem_filter.mpr ⟨ha, by simpa using hg⟩
    · by_contra hok
      refine hmine ((hupdate a).mp (h _ (hwrite b hb _ ?_)))
      rw [write, hp]
      dsimp only
      rw [if_neg hok]
  · rintro ⟨hcreate, hspared⟩ w hw
    rcases mem_append.mp hw with hw | hw
    · obtain ⟨b, hb, hw⟩ := mem_filterMap.mp hw
      unfold write at hw
      cases hp : pick K l (K.want b) with
      | none =>
        rw [hp] at hw
        obtain rfl := some.inj hw
        exact hcreate b hb hp
      | some cur =>
        rw [hp] at hw
        dsimp only at hw
        split at hw
        · cases hw
        · next hok =>
          obtain rfl := some.inj hw
          refine (hupdate cur).mpr ((hspared cur (pick_mem hp).1).resolve_right fun h => ?_)
          exact hok (h.ok b hb hp)
    · obtain ⟨a, ha, rfl⟩ := mem_map.mp hw
      obtain ⟨ha, hg⟩ := mem_filter.mp ha
      refine (hdelete a).mpr ((hspared a ha).resolve_right fun h => ?_)
      rw [h.stays] at hg
      cases hg

/-- Where only keys of one's own are wanted and given up, an object of another key is
spared, and what is created has such a key. -/
theorem forall_writes_iff_own {l : List α} {P : Write α β → Prop} {M : α → Prop} {O : κ → Prop}
    (hcreate : ∀ b, P (.create b) ↔ O (K.want b)) (hupdate : ∀ a, P (.update a) ↔ M a)
    (hdelete : ∀ a, P (.delete a) ↔ M a) (hwants : ∀ b ∈ wants, O (K.want b))
    (hgone : ∀ a, gone a = true → O (K.key a)) : (∀ w ∈ writes K l wants gone, P w) ↔
      ∀ a ∈ l, O (K.key a) → M a ∨ Spared K l wants gone a := by
  have hother : ∀ a, ¬O (K.key a) → Spared K l wants gone a := by
    intro a hown
    constructor
    · by_contra hg
      exact hown (hgone a (by simpa using hg))
    · intro b hb hp
      refine absurd (hwants b hb) ?_
      rw [← (pick_mem hp).2]
      exact hown
  rw [forall_writes_iff hupdate hdelete]
  constructor
  · exact fun h a ha _ => h.2 a ha
  · intro h
    refine ⟨fun b hb _ => (hcreate b).mpr (hwants b hb), fun a ha => ?_⟩
    by_cases hown : O (K.key a)
    · exact h a ha hown
    · exact .inr (hother a hown)

/-- Where there is nothing to write, items of one key want the same. -/
theorem agree_of_silent {l : List α} (hsame : Same K wants) (h : Silent K l wants gone) :
    Agree K wants := by
  rw [silent_iff] at h
  intro b hb b' hb' hk a' ha'
  obtain ⟨a, hp, hok⟩ := h.1 b hb
  obtain ⟨a₁, hp₁, hok₁⟩ := h.1 b' hb'
  rw [← hk, hp, Option.some.injEq] at hp₁
  subst hp₁
  exact hsame b hb b' hb' hk a a' hok hok₁ ha'

/-- A second run has nothing to write exactly where items of one key want the same, and
every item gets what it wants. -/
theorem silent_synced_iff (hK : K.Lawful S) (hf : Fresh S K listed n) (hd : Disposes K wants gone)
    (hsame : Same K wants) (hset : ∀ b ∈ wants, ∀ a, K.ok b a = true → Settles K listed n b) :
    Silent K (synced K listed wants gone n) wants gone ↔
      Agree K wants ∧ ∀ b ∈ wants, Settles K listed n b := by
  constructor
  · intro h
    refine ⟨agree_of_silent hsame h, fun b hb => ?_⟩
    obtain ⟨a, -, hok⟩ := (silent_iff.mp h).1 b hb
    exact hset b hb a hok
  · rintro ⟨hagree, hsettles⟩
    refine silent_iff.mpr ⟨fun b hb => ?_, fun x hx => not_gone hK hf hd hx⟩
    obtain ⟨u, news, h⟩ := exists_ensured hK hf wants
    rw [pick_synced hK hf hd hb]
    exact h.exists_ok hK hagree hsettles hb

end

/-! ## Ids -/

section

variable {K} {S : IdSupply} {listed : List α} {wants : List β} {n : Nat} {st : List α × Nat}
variable {b : β}

theorem le_step (hK : K.Lawful S) : st.2 ≤ (step K listed st b).2 := by
  unfold step
  split
  · exact hK.le_make st.2 b
  · split
    · exact le_refl _
    · exact hK.le_put st.2 b _

/-- Ids are given out in order. -/
theorem le_ensure (hK : K.Lawful S) : n ≤ (ensure K listed wants n).2 := by
  have hsteps : ∀ st : List α × Nat, st.2 ≤ (wants.foldl (step K listed) st).2 := by
    induction wants with
    | nil => exact fun st => le_refl _
    | cons b wants ih => exact fun st => le_trans (le_step hK) (ih _)
  exact hsteps (listed, n)

/-- Where every item has what it wants, nothing changes. -/
theorem ensure_of_ok (h : ∀ b ∈ wants, ∃ a, pick K listed (K.want b) = some a ∧ K.ok b a = true) :
    ensure K listed wants n = (listed, n) := by
  have hsteps : ∀ st : List α × Nat, wants.foldl (step K listed) st = st := by
    induction wants with
    | nil => exact fun st => rfl
    | cons b wants ih =>
      intro st
      obtain ⟨a, hp, hok⟩ := h b (.head _)
      have hstep : step K listed st b = st := by
        unfold step
        rw [hp]
        dsimp only
        rw [if_pos hok]
      rw [foldl_cons, hstep]
      exact ih (fun b' hb' => h b' (.tail _ hb')) st
  exact hsteps (listed, n)

/-- The ids of a listing are the old ones and those given out. -/
theorem id_ensure (hK : K.Lawful S) {a : α} (ha : a ∈ (ensure K listed wants n).1) :
    K.id a ∈ listed.map K.id ∨ ∃ k, n ≤ k ∧ k < (ensure K listed wants n).2 ∧
    K.id a = S.issue k := by
  have hsteps : ∀ st : List α × Nat, n ≤ st.2 →
      (∀ a ∈ st.1, K.id a ∈ listed.map K.id ∨ ∃ k, n ≤ k ∧ k < st.2 ∧ K.id a = S.issue k) →
      ∀ a ∈ (wants.foldl (step K listed) st).1, K.id a ∈ listed.map K.id ∨
        ∃ k, n ≤ k ∧ k < (wants.foldl (step K listed) st).2 ∧ K.id a = S.issue k := by
    clear ha
    induction wants with
    | nil => exact fun st _ h => h
    | cons b wants ih =>
      intro st hle h
      refine ih _ (le_trans hle (le_step hK)) fun a ha => ?_
      have hmono : ∀ a ∈ st.1, K.id a ∈ listed.map K.id ∨
          ∃ k, n ≤ k ∧ k < (step K listed st b).2 ∧ K.id a = S.issue k := by
        intro a ha
        refine (h a ha).imp_right fun ⟨k, hk, hlt, hid⟩ => ?_
        exact ⟨k, hk, lt_of_lt_of_le hlt (le_step hK), hid⟩
      unfold step at ha hmono ⊢
      cases hp : pick K listed (K.want b) with
      | none =>
        rw [hp] at ha hmono
        rcases mem_append.mp ha with ha | ha
        · exact hmono a ha
        · rw [mem_singleton.mp ha]
          obtain ⟨k, hk, hlt, hid⟩ := hK.id_make st.2 b
          exact .inr ⟨k, le_trans hle hk, hlt, hid⟩
      | some cur =>
        rw [hp] at ha hmono
        dsimp only at ha hmono ⊢
        split at ha
        · next hok =>
          exact hmono a ha
        · next hok =>
          rw [if_neg hok] at hmono ⊢
          obtain ⟨a₀, ha₀, rfl⟩ := mem_map.mp ha
          split
          · rw [hK.id_put]
            exact .inl (mem_map_of_mem (pick_mem hp).1)
          · exact hmono a₀ ha₀
  exact hsteps (listed, n) (le_refl n) (fun a ha => .inl (mem_map_of_mem ha)) a ha

/-- Every id within an object that is created or updated was there or is new. -/
structure Within (S : IdSupply) (K : Kind α β κ) (ids : α → List String) : Prop where
  make : ∀ n b, ∀ i ∈ ids (K.make n b).1, ∃ k, n ≤ k ∧ k < (K.make n b).2 ∧ i = S.issue k
  put : ∀ n b a, ∀ i ∈ ids (K.put n b a).1,
    i ∈ ids a ∨ ∃ k, n ≤ k ∧ k < (K.put n b a).2 ∧ i = S.issue k

/-- No id is within two objects, and none within an object is given out again. -/
structure Apart (S : IdSupply) (K : Kind α β κ) (ids : α → List String) (listed : List α)
    (st : List α × Nat) : Prop extends Fresh S K st.1 st.2 where
  within : ∀ a ∈ st.1, ∀ i ∈ ids a, S.Before st.2 i
  apart : ∀ a ∈ st.1, ∀ a' ∈ st.1, K.id a ≠ K.id a' → ∀ i ∈ ids a, i ∉ ids a'
  listed : ∀ a ∈ st.1, ∀ a' ∈ listed, K.id a ≠ K.id a' → ∀ i ∈ ids a, i ∉ ids a'

theorem Apart.step {ids : α → List String} (hK : K.Lawful S) (hw : Within S K ids)
    (hl : ∀ a ∈ listed, ∀ i ∈ ids a, S.Before st.2 i) (hlid : ∀ a ∈ listed, S.Before st.2 (K.id a))
    (hll : ∀ a ∈ listed, ∀ a' ∈ listed, K.id a ≠ K.id a' → ∀ i ∈ ids a, i ∉ ids a')
    (h : Apart S K ids listed st) : Apart S K ids listed (Keyed.step K listed st b) := by
  have hle : st.2 ≤ (Keyed.step K listed st b).2 := le_step hK
  unfold Keyed.step at hle ⊢
  cases hp : pick K listed (K.want b) with
  | none =>
    rw [hp] at hle
    obtain ⟨k₀, hk₀, hlt₀, hid₀⟩ := hK.id_make st.2 b
    -- an id of the new object is none of an older one's
    have hnew : ∀ i ∈ ids (K.make st.2 b).1, ∀ i', S.Before st.2 i' → i ≠ i' := by
      intro i hi i' hi' he
      obtain ⟨k, hk, -, rfl⟩ := hw.make st.2 b i hi
      exact hi' k hk he.symm
    refine ⟨⟨?_, ?_⟩, ?_, ?_, ?_⟩
    · rw [map_append, map_singleton, nodup_append]
      refine ⟨h.nodup, nodup_singleton _, fun i hi i' hi' he => ?_⟩
      obtain ⟨a, ha, rfl⟩ := mem_map.mp hi
      rw [mem_singleton.mp hi', hid₀] at he
      exact h.before a ha k₀ hk₀ he
    · intro a ha
      rcases mem_append.mp ha with ha | ha
      · exact (h.before a ha).mono hle
      · rw [mem_singleton.mp ha, hid₀]
        exact IdSupply.before_issue hlt₀
    · intro a ha i hi
      rcases mem_append.mp ha with ha | ha
      · exact (h.within a ha i hi).mono hle
      · rw [mem_singleton.mp ha] at hi
        obtain ⟨k, -, hk, rfl⟩ := hw.make st.2 b i hi
        exact IdSupply.before_issue hk
    · intro a ha a' ha' hne i hi hi'
      rcases mem_append.mp ha with ha | ha <;> rcases mem_append.mp ha' with ha' | ha'
      · exact h.apart a ha a' ha' hne i hi hi'
      · rw [mem_singleton.mp ha'] at hi'
        exact hnew i hi' i (h.within a ha i hi) rfl
      · rw [mem_singleton.mp ha] at hi
        exact hnew i hi i (h.within a' ha' i hi') rfl
      · rw [mem_singleton.mp ha, mem_singleton.mp ha'] at hne
        exact hne rfl
    · intro a ha a' ha' hne i hi hi'
      rcases mem_append.mp ha with ha | ha
      · exact h.listed a ha a' ha' hne i hi hi'
      · rw [mem_singleton.mp ha] at hi
        exact hnew i hi i (hl a' ha' i hi') rfl
  | some cur =>
    rw [hp] at hle
    dsimp only at hle ⊢
    have hcur : cur ∈ listed := (pick_mem hp).1
    split
    · exact h
    · next hok =>
      rw [if_neg hok] at hle
      -- the listing has the new version of `cur`, and the others as they were
      have hmem : ∀ x, x ∈ st.1.map (fun a =>
        if K.id a = K.id cur then (K.put st.2 b cur).1 else a) →
          x = (K.put st.2 b cur).1 ∧ K.id x = K.id cur ∨ x ∈ st.1 ∧ K.id x ≠ K.id cur := by
        intro x hx
        obtain ⟨a, ha, rfl⟩ := mem_map.mp hx
        by_cases hid : K.id a = K.id cur
        · rw [if_pos hid]
          exact .inl ⟨rfl, hK.id_put st.2 b cur⟩
        · rw [if_neg hid]
          exact .inr ⟨ha, hid⟩
      have hids : ∀ i ∈ ids (K.put st.2 b cur).1, ∀ i', S.Before st.2 i' → i' ∉ ids cur →
          i ≠ i' := by
        intro i hi i' hi' hnot he
        rcases hw.put st.2 b cur i hi with hi | ⟨k, hk, -, rfl⟩
        · exact hnot (he ▸ hi)
        · exact hi' k hk he.symm
      refine ⟨⟨?_, ?_⟩, ?_, ?_, ?_⟩
      · rw [List.map_map]
        have hsame : ∀ a ∈ st.1, (K.id ∘ fun a => if K.id a = K.id cur then
            (K.put st.2 b cur).1 else a) a = K.id a := by
          intro a _
          show K.id (if _ then _ else _) = _
          split
          · next hid => rw [hK.id_put, hid]
          · rfl
        rw [map_congr_left hsame]
        exact h.nodup
      · intro x hx
        rcases hmem x hx with ⟨-, hid⟩ | ⟨hx, -⟩
        · rw [hid]
          exact (hlid cur hcur).mono hle
        · exact (h.before x hx).mono hle
      · intro x hx i hi
        rcases hmem x hx with ⟨rfl, -⟩ | ⟨hx, -⟩
        · rcases hw.put st.2 b cur i hi with hi | ⟨k, -, hk, rfl⟩
          · exact (hl cur hcur i hi).mono hle
          · exact IdSupply.before_issue hk
        · exact (h.within x hx i hi).mono hle
      · intro x hx x' hx' hne i hi hi'
        rcases hmem x hx with ⟨rfl, hid⟩ | ⟨hx, hid⟩ <;>
          rcases hmem x' hx' with ⟨rfl, hid'⟩ | ⟨hx', hid'⟩
        · exact hne rfl
        · exact hids i hi i (h.within x' hx' i hi') (h.listed x' hx' cur hcur hid' i hi') rfl
        · exact hids i hi' i (h.within x hx i hi) (h.listed x hx cur hcur hid i hi) rfl
        · exact h.apart x hx x' hx' hne i hi hi'
      · intro x hx a' ha' hne i hi hi'
        rcases hmem x hx with ⟨rfl, hid⟩ | ⟨hx, -⟩
        · rw [hid] at hne
          exact hids i hi i (hl a' ha' i hi') (hll a' ha' cur hcur (Ne.symm hne) i hi') rfl
        · exact h.listed x hx a' ha' hne i hi hi'

/-- The objects of a listing stay apart. -/
theorem apart_ensure {ids : α → List String} (hK : K.Lawful S) (hw : Within S K ids)
    (h : Apart S K ids listed (listed, n)) : Apart S K ids listed (ensure K listed wants n) := by
  have hsteps : ∀ st : List α × Nat, n ≤ st.2 → Apart S K ids listed st →
      Apart S K ids listed (wants.foldl (step K listed) st) := by
    induction wants with
    | nil => exact fun st _ hst => hst
    | cons b wants ih =>
      intro st hle hst
      refine ih _ (le_trans hle (le_step hK)) (hst.step hK hw ?_ ?_ ?_)
      · exact fun a ha i hi => (h.within a ha i hi).mono hle
      · exact fun a ha => (h.before a ha).mono hle
      · exact h.apart
  exact hsteps (listed, n) (le_refl n) h

/-- The ids of a listing stay distinct. -/
theorem Fresh.ensure (hK : K.Lawful S) (h : Fresh S K listed n) :
    Fresh S K (Keyed.ensure K listed wants n).1 (Keyed.ensure K listed wants n).2 := by
  have hnil : Within S K fun _ => [] := by
    constructor
    · intro _ _ i hi
      cases hi
    · intro _ _ _ i hi
      cases hi
  refine (apart_ensure hK hnil ⟨h, ?_, ?_, ?_⟩).toFresh
  · intro _ _ i hi
    cases hi
  · intro _ _ _ _ _ i hi
    cases hi
  · intro _ _ _ _ _ i hi
    cases hi

end

end Keyed
