import Swarmy.Kv.Cache

/-!
# The cache does not go back

Three steps of an instance put an entry into its cache that was read before a suspension:
the end of a load, the end of `refreshKey` and the end of `gc`; and a create may be
answered late.  Only the load asks what has happened meanwhile.  `neverBack_of_careful`
says what has to hold of the steps, and `not_neverBack` that the code does not see to it.
-/

namespace Swarmy.KvCache

open List Option Nat

/-! ## Versions -/

/-- The latest version is the highest. -/
def Ascending (vs : List Nat) : Prop := ∀ v ∈ vs, v ≤ latest vs

variable {vs : List Nat}

theorem le_newest {v : Nat} (h : v ∈ vs) : v ≤ newest vs := by
  induction vs with
  | nil => cases h
  | cons w vs ih =>
    rcases mem_cons.mp h with rfl | h
    · exact le_max_left _ _
    · exact (ih h).trans (le_max_right _ _)

theorem newest_le {n : Nat} (h : ∀ v ∈ vs, v ≤ n) : newest vs ≤ n := by
  induction vs with
  | nil => exact zero_le n
  | cons w vs ih =>
    exact Nat.max_le.mpr ⟨h w mem_cons_self, ih fun v hv => h v (mem_cons_of_mem _ hv)⟩

theorem latest_mem (h : vs ≠ []) : latest vs ∈ vs := by
  rw [latest, List.getLast?_eq_some_getLast h, getD_some]
  exact getLast_mem h

theorem latest_le_newest (vs : List Nat) : latest vs ≤ newest vs := by
  cases vs with
  | nil => exact le_refl 0
  | cons v vs => exact le_newest (latest_mem (cons_ne_nil v vs))

theorem Ascending.newest (h : Ascending vs) : newest vs = latest vs :=
  le_antisymm (newest_le h) (latest_le_newest vs)

theorem ascending_nil : Ascending [] := fun _ h => absurd h not_mem_nil

theorem latest_concat (vs : List Nat) (n : Nat) : latest (vs ++ [n]) = n := by
  rw [latest, List.getLast?_concat, getD_some]

theorem mem_sorted {v : Nat} : v ∈ sorted vs ↔ v ∈ vs :=
  mem_insertionSort (· ≤ ·)

theorem ascending_sorted (vs : List Nat) : Ascending (sorted vs) := by
  intro v hv
  have hne : sorted vs ≠ [] := ne_nil_of_mem hv
  obtain ⟨front, hfront⟩ : ∃ front, sorted vs = front ++ [latest (sorted vs)] := by
    refine ⟨(sorted vs).dropLast, ?_⟩
    rw [latest, List.getLast?_eq_some_getLast hne, getD_some]
    exact (dropLast_append_getLast hne).symm
  have hpair : (sorted vs).Pairwise (· ≤ ·) := pairwise_insertionSort _ vs
  rw [hfront] at hpair hv
  rcases mem_append.mp hv with h | h
  · exact (pairwise_append.mp hpair).2.2 v h _ (mem_singleton_self _)
  · rw [mem_singleton.mp h]

theorem latest_sorted (vs : List Nat) : latest (sorted vs) = newest vs := by
  rw [← (ascending_sorted vs).newest]
  refine le_antisymm (newest_le fun v hv => ?_) (newest_le fun v hv => ?_)
  · exact le_newest (mem_sorted.mp hv)
  · exact le_newest (mem_sorted.mpr hv)

theorem newest_mem (h : 0 < newest vs) : newest vs ∈ vs := by
  have hne : sorted vs ≠ [] := by
    rintro hnil
    rw [← latest_sorted, hnil] at h
    exact lt_irrefl 0 h
  rw [← latest_sorted]
  exact mem_sorted.mp (latest_mem hne)

/-- Removing a version below the newest leaves the newest. -/
theorem newest_erase {v : Nat} (h : v < newest vs) : newest vs ≤ newest (vs.erase v) := by
  have hmem := newest_mem (zero_lt_of_lt h)
  exact le_newest ((mem_erase_of_ne (Nat.ne_of_gt h)).mpr hmem)

/-! ## The invariant -/

/-- What a load under way will find to be so. -/
def Load.Ok (s : State) : Load → Prop
  | .listing g => g ≤ s.gen
  | .reading g l => g ≤ s.gen ∧ Ascending l ∧ latest l ≤ newest s.store ∧
      (¬s.TouchedAfter g → latest s.entry ≤ latest l)

/-- What a write under way will find to be so. -/
def Write.Ok (s : State) : Write → Prop
  | .function cur _ | .creating cur _ => Ascending cur
  | .created cur _ => Ascending cur ∧ latest s.entry ≤ next cur ∧ next cur ≤ newest s.store
  | .rereading vs _ => Ascending vs ∧ latest s.entry ≤ latest vs ∧ latest vs ≤ newest s.store ∧
      ∀ g l, s.load = some (.reading g l) → ¬s.TouchedAfter g → latest vs ≤ latest l
  | .collecting e kept drop => latest e = latest s.entry ∧ latest e ∈ kept ∧
      (∀ v ∈ kept, v ≤ latest e) ∧ ∀ v ∈ drop, v < latest e
  | .refreshing _ | .backoff _ => True

structure Inv (s : State) : Prop where
  entry : Ascending s.entry
  cached : latest s.entry ≤ newest s.store
  touched : ∀ t, s.touched = some t → t ≤ s.gen
  load : ∀ x, s.load = some x → x.Ok s
  write : ∀ x, s.write = some x → x.Ok s
  behind : ∀ r ∈ s.told, r.seq ≤ latest s.entry
  told : NeverBack s.told

theorem inv_start (store : List Nat) : Inv (start store) where
  entry := ascending_nil
  cached := zero_le _
  touched _ h := by cases h
  load _ h := by cases h
  write _ h := by cases h
  behind _ h := absurd h not_mem_nil
  told := List.Pairwise.nil

variable {o : Options} {s s' : State}

/-! ## Rules for the invariant -/

/-- A touch leaves a load nothing to put into the cache. -/
theorem Load.Ok.touched {x : Load} (h : x.Ok s) (hgen : s'.gen = s.gen + 1)
    (htouched : s'.touched = some (s.gen + 1)) (hstore : s'.store = s.store) : x.Ok s' := by
  cases x with
  | listing g =>
    rw [Load.Ok, hgen]
    exact le_succ_of_le h
  | reading g l =>
    refine ⟨?_, h.2.1, ?_, fun hn => absurd ?_ hn⟩
    · rw [hgen]
      exact le_succ_of_le h.1
    · rw [hstore]
      exact h.2.2.1
    · exact ⟨s.gen + 1, htouched, lt_succ_of_le h.1⟩

/-- A write does not mind a load that has listed nothing. -/
theorem Write.Ok.noneListed {x : Write} (h : x.Ok s) (hentry : s'.entry = s.entry)
    (hstore : s'.store = s.store) (hload : ∀ g l, s'.load ≠ some (.reading g l)) : x.Ok s' := by
  cases x with
  | function cur a | creating cur a => exact h
  | created cur a =>
    rw [Write.Ok, hentry, hstore]
    exact h
  | rereading vs a =>
    rw [Write.Ok, hentry, hstore]
    exact ⟨h.1, h.2.1, h.2.2.1, fun g l hl => absurd hl (hload g l)⟩
  | collecting e kept drop =>
    rw [Write.Ok, hentry]
    exact h
  | refreshing a | backoff a => trivial

/-- Tell a caller the cached version. -/
theorem Inv.tell (h : Inv s) {r : Answer} (hr : r.seq = latest s.entry) :
    Inv { s with told := r :: s.told } where
  __ := h
  load x hx := by
    have := h.load x hx
    cases x <;> exact this
  write x hx := by
    have := h.write x hx
    cases x <;> exact this
  behind r' h' := by
    rcases mem_cons.mp h' with rfl | h'
    · exact hr.le
    · exact h.behind r' h'
  told := by
    refine pairwise_cons.mpr ⟨fun r' h' n hn => ?_, h.told⟩
    rw [hn] at hr
    have hr : n = latest s.entry := hr
    rw [hr]
    exact h.behind r' h'

/-- The write goes on to something that is all right. -/
theorem Inv.setWrite (h : Inv s) {x : Option Write} (hx : ∀ y, x = some y → y.Ok s) :
    Inv { s with write := x } where
  __ := h
  load y hy := by
    have := h.load y hy
    cases y <;> exact this
  write y hy := by
    have := hx y hy
    cases y <;> exact this

theorem Inv.endWrite (h : Inv s) : Inv { s with write := none } :=
  h.setWrite fun _ hy => by cases hy

theorem Inv.resolve (h : Inv s) : Inv s.resolve :=
  h.endWrite.tell rfl

/-- The versions in the swarm change, and the newest does not go down. -/
theorem Inv.setStore (h : Inv s) {store : List Nat} (hle : newest s.store ≤ newest store) :
    Inv { s with store := store } where
  __ := h
  cached := h.cached.trans hle
  load y hy := by
    have := h.load y hy
    cases y with
    | listing g => exact this
    | reading g l => exact ⟨this.1, this.2.1, this.2.2.1.trans hle, this.2.2.2⟩
  write y hy := by
    have := h.write y hy
    cases y with
    | created cur a => exact ⟨this.1, this.2.1, this.2.2.trans hle⟩
    | rereading vs a => exact ⟨this.1, this.2.1, this.2.2.1.trans hle, this.2.2.2⟩
    | _ => exact this

theorem newest_le_cons (v : Nat) (vs : List Nat) : newest vs ≤ newest (v :: vs) :=
  le_max_right _ _

/-- No load is under way any more. -/
theorem Inv.endLoad (h : Inv s) : Inv { s with load := none } where
  __ := h
  load _ hy := by cases hy
  write y hy := (h.write y hy).noneListed rfl rfl fun _ _ hl => by cases hl

/-- A write of the instance itself puts a version into the cache. -/
theorem Inv.put (h : Inv s) {e : List Nat} (he : Ascending e) (hle : latest s.entry ≤ latest e)
    (hstore : latest e ≤ newest s.store) :
    Inv { { s with entry := e }.touch with write := none } where
  entry := he
  cached := hstore
  touched t ht := by
    obtain rfl := some.inj ht
    exact le_refl _
  load y hy := (h.load y hy).touched rfl rfl rfl
  write _ hy := by cases hy
  behind r hr := (h.behind r hr).trans hle
  told := h.told

theorem Inv.beginLoad (h : Inv s) : Inv { s with load := some (.listing s.gen) } where
  __ := h
  load y hy := by
    obtain rfl := some.inj hy
    exact le_refl s.gen
  write y hy := (h.write y hy).noneListed rfl rfl fun _ _ hl => by cases hl

/-- A load has listed the swarm. -/
theorem Inv.listed (h : Inv s) {g : Nat} (hload : s.load = some (.listing g)) :
    Inv { s with load := some (.reading g (sorted s.store)) } where
  __ := h
  load y hy := by
    obtain rfl := some.inj hy
    refine ⟨h.load _ hload, ascending_sorted _, (latest_sorted _).le, fun _ => ?_⟩
    rw [latest_sorted]
    exact h.cached
  write y hy := by
    have hok := h.write y hy
    cases y with
    | rereading vs a =>
      refine ⟨hok.1, hok.2.1, hok.2.2.1, fun g' l hl _ => ?_⟩
      cases hl
      rw [latest_sorted]
      exact hok.2.2.1
    | _ => exact hok

/-- The end of a load. -/
theorem Inv.merge (h : Inv s) {g : Nat} {l : List Nat} (hl : s.load = some (.reading g l))
    (hm : Careful s .loaded) : Inv (s.merge g l) := by
  obtain ⟨-, hasc, hstore, hle⟩ := h.load _ hl
  by_cases ht : s.TouchedAfter g
  · have hmerge : s.merge g l = { s with touched := none, loaded := true, load := none } := by
      rw [State.merge, if_pos ht]
    rw [hmerge]
    have hwrite : ∀ y, s.write = some y →
        y.Ok { s with touched := none, loaded := true, load := none } :=
      fun y hy => (h.write y hy).noneListed rfl rfl fun _ _ hl => by cases hl
    exact ⟨h.entry, h.cached, (fun _ h => by cases h), (fun _ h => by cases h), hwrite,
      h.behind, h.told⟩
  · have hmerge : s.merge g l =
        { s with entry := l, touched := none, loaded := true, load := none } := by
      rw [State.merge, if_neg ht]
    rw [hmerge]
    have hup := hle ht
    have hwrite : ∀ y, s.write = some y →
        y.Ok { s with entry := l, touched := none, loaded := true, load := none } := by
      intro y hy
      have hok := h.write y hy
      have hpending := fun p hp => hm g l hl ht y p hy hp
      cases y with
      | created cur a => exact ⟨hok.1, hpending _ rfl, hok.2.2⟩
      | rereading vs a => exact ⟨hok.1, hpending _ rfl, hok.2.2.1, fun _ _ hl => by cases hl⟩
      | collecting e kept drop =>
        have hsame : latest e = latest l :=
          le_antisymm (hok.1.trans_le hup) (hpending _ rfl)
        exact ⟨hsame, hok.2⟩
      | _ => exact hok
    exact ⟨hasc, hstore, (fun _ h => by cases h), (fun _ h => by cases h), hwrite,
      fun r hr => (h.behind r hr).trans hup, h.told⟩

/-- The entry of a committed write. -/
theorem Inv.commit (h : Inv s) {cur : List Nat} {a : Nat} (hw : s.write = some (.created cur a)) :
    Inv (s.commit o cur) := by
  obtain ⟨hasc, hle, hstore⟩ := h.write _ hw
  have hlatest : latest (cur ++ [next cur]) = next cur := latest_concat _ _
  have hbelow : ∀ v ∈ cur, v < next cur := fun v hv => lt_succ_of_le (hasc v hv)
  have he : Ascending (cur ++ [next cur]) := by
    intro v hv
    rw [hlatest]
    rcases mem_append.mp hv with hv | hv
    · exact (hbelow v hv).le
    · exact (mem_singleton.mp hv).le
  have hput := h.put he (hlatest.symm ▸ hle) (hlatest.symm ▸ hstore)
  change Inv (if (cur ++ [next cur]).length ≤ o.keep then _ else _)
  split
  · exact hput.tell rfl
  · refine hput.setWrite fun y hy => ?_
    obtain rfl := some.inj hy
    have hne : (cur ++ [next cur]).drop ((cur ++ [next cur]).length - o.keep) ≠ [] := by
      have := o.keep_pos
      simp only [ne_eq, drop_eq_nil_iff]
      omega
    refine ⟨rfl, ?_, fun v hv => he v (mem_of_mem_drop hv), fun v hv => ?_⟩
    · refine mem_of_getLast? ?_
      rw [List.getLast?_drop, if_neg (by simpa using hne), hlatest, List.getLast?_concat]
    · rw [hlatest]
      refine hbelow v ?_
      have hpos := o.keep_pos
      rw [take_append_of_le_length (by rw [length_append, length_singleton]; omega)]
        at hv
      exact mem_of_mem_take hv

/-- `refreshKey` has listed the swarm. -/
theorem Inv.relist (h : Inv s) {x : Option Write}
    (hx : x = none ∨ ∃ a, x = some (.backoff a) ∨ x = some (.rereading (sorted s.store) a)) :
    Inv { s.touch with write := x } where
  __ := h
  touched t ht := by
    obtain rfl := some.inj ht
    exact le_refl _
  load y hy := (h.load y hy).touched rfl rfl rfl
  write y hy := by
    rcases hx with rfl | ⟨a, rfl | rfl⟩
    · cases hy
    · obtain rfl := some.inj hy
      trivial
    · obtain rfl := some.inj hy
      refine ⟨ascending_sorted _, ?_, ?_, fun g l hl hn => absurd ?_ hn⟩
      · rw [latest_sorted]
        exact h.cached
      · rw [latest_sorted]
        exact le_refl _
      · exact ⟨s.gen + 1, rfl, lt_succ_of_le (h.load _ hl).1⟩

/-- An entry no older than the cached one, and no newer than what a load has listed, is put
into the cache. -/
theorem Inv.setEntry (h : Inv s) {e : List Nat} (he : Ascending e)
    (hle : latest s.entry ≤ latest e) (hstore : latest e ≤ newest s.store)
    (hload : ∀ g l, s.load = some (.reading g l) → ¬s.TouchedAfter g → latest e ≤ latest l) :
    Inv { s with entry := e, write := none } where
  entry := he
  cached := hstore
  __ := h
  load y hy := by
    have hok := h.load y hy
    cases y with
    | listing g => exact hok
    | reading g l => exact ⟨hok.1, hok.2.1, hok.2.2.1, hload g l hy⟩
  write _ hy := by cases hy
  behind r hr := (h.behind r hr).trans hle

/-! ## Steps and runs -/

theorem inv_step (h : Inv s) {m : Move} (hm : Careful s m) (hs : step o s m = some s') :
    Inv s' := by
  cases m with
  | refresh =>
    simp only [step] at hs
    split at hs
    · cases hs
      exact h.beginLoad
    · cases hs
  | listed =>
    simp only [step] at hs
    split at hs
    · rename_i g hload
      cases hs
      exact h.listed hload
    · cases hs
  | loaded =>
    simp only [step] at hs
    split at hs
    · rename_i g l hload
      cases hs
      exact h.merge hload hm
    · cases hs
  | loadFails =>
    simp only [step] at hs
    split at hs
    · cases hs
    · cases hs
      exact h.endLoad
  | getDoc =>
    simp only [step] at hs
    split at hs
    · cases hs
      exact h.tell rfl
    · cases hs
  | update =>
    simp only [step] at hs
    split at hs
    · cases hs
      refine h.setWrite fun y hy => ?_
      obtain rfl := some.inj hy
      exact h.entry
    · cases hs
  | returned unchanged =>
    simp only [step] at hs
    split at hs
    · rename_i cur a hw
      cases hs
      cases unchanged with
      | true => exact h.resolve
      | false =>
        refine h.setWrite fun y hy => ?_
        obtain rfl := some.inj hy
        have hasc : Ascending cur := h.write _ hw
        exact hasc
    · cases hs
  | refused =>
    simp only [step] at hs
    split at hs
    · cases hs
      exact h.endWrite
    · cases hs
  | create =>
    simp only [step] at hs
    split at hs
    · rename_i cur a hw
      cases hs
      split
      · refine h.setWrite fun y hy => ?_
        split at hy
        · obtain rfl := some.inj hy
          trivial
        · cases hy
      · rename_i hfree
        have hasc : Ascending cur := h.write _ hw
        have hbelow := hm cur a hw hfree
        refine (h.setStore (newest_le_cons _ _)).setWrite fun y hy => ?_
        obtain rfl := some.inj hy
        refine ⟨hasc, ?_, le_newest mem_cons_self⟩
        exact h.cached.trans (newest_le fun v hv => (hbelow v hv).le)
    · cases hs
  | createFails lost =>
    simp only [step] at hs
    split at hs
    · cases hs
      rename_i cur a hw
      have hstore : newest s.store ≤
          newest (if lost ∧ next cur ∉ s.store then next cur :: s.store else s.store) := by
        split
        · exact newest_le_cons _ _
        · exact le_refl _
      exact (h.setStore hstore).endWrite
    · cases hs
  | committed =>
    simp only [step] at hs
    split at hs
    · rename_i cur a hw
      cases hs
      exact h.commit hw
    · cases hs
  | relisted =>
    simp only [step] at hs
    split at hs
    · rename_i a hw
      cases hs
      split
      · rename_i hempty
        have hzero : latest s.entry ≤ 0 := by
          have := h.cached
          rw [hempty] at this
          exact this
        have hput := h.put ascending_nil hzero (zero_le _)
        exact hput.setWrite fun y hy => by
          obtain rfl := some.inj hy
          trivial
      · exact h.relist (.inr ⟨a, .inr rfl⟩)
    · cases hs
  | reread =>
    simp only [step] at hs
    split at hs
    · rename_i vs a hw
      cases hs
      obtain ⟨hasc, hle, hstore, hload⟩ := h.write _ hw
      exact (h.setEntry hasc hle hstore hload).setWrite fun y hy => by
        obtain rfl := some.inj hy
        trivial
    · cases hs
  | refreshKeyFails =>
    simp only [step] at hs
    split at hs
    · cases hs
      exact h.endWrite
    · cases hs
      exact h.endWrite
    · cases hs
  | again =>
    simp only [step] at hs
    split at hs
    · cases hs
      refine h.setWrite fun y hy => ?_
      obtain rfl := some.inj hy
      exact h.entry
    · cases hs
  | remove fate =>
    simp only [step] at hs
    split at hs
    · rename_i e kept v drop hw
      cases hs
      obtain ⟨hsame, hmem, hkept, hdrop⟩ := h.write _ hw
      have hv := hdrop v mem_cons_self
      have hstore : newest s.store ≤
          newest (if fate = .failed then s.store else s.store.erase v) := by
        split
        · exact le_refl _
        · exact newest_erase (hv.trans_le (hsame.trans_le h.cached))
      refine (h.setStore hstore).setWrite fun y hy => ?_
      obtain rfl := some.inj hy
      refine ⟨hsame, ?_, fun w hw => ?_, fun w hw => hdrop w (mem_cons_of_mem _ hw)⟩
      · split
        · exact hmem
        · exact mem_cons_of_mem _ hmem
      · split at hw
        · exact hkept w hw
        · rcases mem_cons.mp hw with rfl | hw
          · exact hv.le
          · exact hkept w hw
    · cases hs
  | collected =>
    simp only [step] at hs
    split at hs
    · rename_i e kept hw
      cases hs
      obtain ⟨hsame, hmem, hkept, -⟩ := h.write _ hw
      have hlatest : latest (sorted kept) = latest s.entry := by
        rw [latest_sorted, ← hsame]
        exact le_antisymm (newest_le hkept) (le_newest hmem)
      exact (h.setEntry (ascending_sorted _) hlatest.ge (hlatest.trans_le h.cached)
        fun g l hl hn => hlatest.trans_le ((h.load _ hl).2.2.2 hn)).tell rfl
    · cases hs
  | otherCreates seq =>
    simp only [step] at hs
    split at hs
    · cases hs
    · cases hs
      exact h.setStore (newest_le_cons _ _)
  | otherRemoves seq =>
    simp only [step] at hs
    split at hs
    · rename_i hex
      cases hs
      obtain ⟨n, hn, hlt⟩ := hex
      exact h.setStore (newest_erase (hlt.trans_le (le_newest hn)))
    · cases hs

/-- Where the steps are careful, no `getDoc` is behind what a caller has been told before. -/
theorem neverBack_of_careful {store : List Nat} (h : Reach o (start store) s) :
    NeverBack s.told := by
  have hinv : Inv s := by
    induction h with
    | start => exact inv_start store
    | step m _ hm hs ih => exact inv_step ih hm hs
  exact hinv.told

/-! ## Garbage collection over a load -/

/-- Steps one after the other. -/
def run (o : Options) (s : State) : List Move → Option State
  | [] => some s
  | m :: ms => (step o s m).bind fun s => run o s ms

/-- The default options. -/
def defaults : Options := ⟨3, by decide, 5⟩

/-- A document is loaded and read twice, and another controller writes in between. -/
theorem neverBack_loaded : ∃ s : State, NeverBack s.told ∧ s.told = [.got 2, .got 1] := by
  have first : Reach defaults (start [1])
      ⟨[1], [1], 0, none, true, none, none, [.got 1]⟩ := by
    refine .step .getDoc (.step .loaded (.step .listed (.step .refresh .start trivial rfl)
      trivial rfl) (fun g l hl _ x p hx hp => by cases hx) rfl) trivial rfl
  have second : Reach defaults (start [1])
      ⟨[2, 1], [1, 2], 0, none, true, none, none, [.got 2, .got 1]⟩ := by
    refine .step .getDoc (.step .loaded (.step .listed (.step .refresh (.step (.otherCreates 2)
      first trivial rfl) trivial rfl) trivial rfl) (fun g l hl _ x p hx hp => by cases hx) rfl)
      trivial rfl
  exact ⟨_, neverBack_of_careful second, rfl⟩

/-- While an update removes old versions, another controller writes the next one and a load
brings it into the cache; then `gc` puts its own entry back. -/
def collectingRun : List Move :=
  [.refresh, .listed, .loaded, .update, .returned false, .create, .committed,
    .otherCreates 5, .refresh, .listed, .loaded, .getDoc, .remove .ok, .collected, .getDoc]

theorem not_neverBack : ∃ s, run defaults (start [1, 2, 3]) collectingRun = some s ∧
    ¬NeverBack s.told := by
  refine ⟨_, rfl, fun h => ?_⟩
  have h := (pairwise_cons.mp h).1 (.got 5) (by decide) 4 rfl
  exact absurd h (by decide)

end Swarmy.KvCache
