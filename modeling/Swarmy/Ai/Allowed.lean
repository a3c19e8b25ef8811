import Swarmy.Ai.Models

/-!
# What an allowlist admits

A request that an allowlist accepts is called on targets its entries name, except where an
entry `provider/model` reads like a model of another provider: as the whole requested text,
or as the model of the only target.
-/

namespace Swarmy.Ai

open List Option Bool

/-! ## The words of the statements -/

/-- An entry of the form `provider/…`. -/
def Heads (k : AiProviderKind) (p : String) : Prop := ∃ m, p = k.text ++ ("/" ++ m)

/-- An entry permits a target: it is `*`, it names the route that was requested, it is
`provider/*` of the target's provider, or it names the target's model or `provider/model`. -/
def Permits (lower : LowerCase) (doc : AiConfigDoc) (e name : String) (t : AiRouteTarget) : Prop :=
  normal lower e = "*" ∨
  (((effectiveRoutes doc doc.configured).lookup name).isSome ∧ normal lower e = lower name) ∨
  normal lower e = t.provider.text ++ "/*" ∨
  normal lower e = lower t.model ∨
  normal lower e = lower (t.provider.text ++ ("/" ++ t.model))

/-- A request resolves without an error; what the allowlists accept is called on permitted
targets only; and no entry `provider/…` admits a target of another provider. -/
structure Bounded (lower : LowerCase) (doc : AiConfigDoc) (lists : List (Option (List String)))
    (requested : String) : Prop where
  total : ∃ r, resolveModel lower requested doc = .ok r
  permitted : ∀ r, resolveModel lower requested doc = .ok (some r) →
    modelAllowed lower r lists = true →
    ∀ list, some list ∈ lists → ∀ draw, ∀ t ∈ orderTargets r draw,
      ∃ e ∈ list, Permits lower doc e r.requested t
  own : ∀ r, resolveModel lower requested doc = .ok (some r) → ∀ list, some list ∈ lists →
    ∀ e ∈ list, patternMatches lower e r.requested r.targets = true →
      ∀ k, Heads k (normal lower e) → ∀ t ∈ r.targets, t.provider = k

/-! ## When it holds -/

/-- An entry `k/…` that reads like a model of another provider. -/
inductive Misread (lower : LowerCase) (doc : AiConfigDoc) (name e : String) : Prop
  | /-- The name is a route, and the entry the model of its only configured target. -/
    route (route : AiRoute) (t : AiRouteTarget) (k : AiProviderKind) :
      (effectiveRoutes doc doc.configured).lookup name = some route →
      route.targets.filter (·.provider ∈ doc.configured) = [t] →
      normal lower e = lower t.model → endsWith (normal lower e) "/*" = false →
      Heads k (normal lower e) → k ≠ t.provider → Misread lower doc name e
  | /-- The name is a `provider/model`, and the entry its model. -/
    model (t : AiRouteTarget) (k : AiProviderKind) :
      (effectiveRoutes doc doc.configured).lookup name = none →
      name ∉ DEFAULT_ALIASES.map Alias.text → doc.prefixed name = some t →
      normal lower e = lower t.model → endsWith (normal lower e) "/*" = false →
      Heads k (normal lower e) → k ≠ t.provider → Misread lower doc name e
  | /-- The name goes whole to a provider, and the entry is that name. -/
    whole (p k : AiProviderKind) :
      (effectiveRoutes doc doc.configured).lookup name = none →
      name ∉ DEFAULT_ALIASES.map Alias.text → doc.prefixed name = none →
      doc.providerOf lower name = some p → normal lower e = lower name →
      Heads k (normal lower e) → k ≠ p → Misread lower doc name e

/-- The request is no property of every object, unless it is a route; and no entry is
misread. -/
def Plain (lower : LowerCase) (doc : AiConfigDoc) (lists : List (Option (List String)))
    (requested : String) : Prop :=
  (Js.trim requested ∈ OBJECT_PROTOTYPE →
    ((effectiveRoutes doc doc.configured).lookup (Js.trim requested)).isSome) ∧
  (Js.trim requested ≠ "" → ∀ list, some list ∈ lists → ∀ e ∈ list,
    ¬ Misread lower doc (Js.trim requested) e)

/-! ## Names -/

section

variable {lower : LowerCase} {doc : AiConfigDoc} {requested name e m : String}
  {k k' : AiProviderKind} {t : AiRouteTarget} {r : ResolvedModel}

theorem text_noSlash (k : AiProviderKind) : ∀ c ∈ k.text.toList, c ≠ '/' := by
  have hall : k.text.toList.all (· ≠ '/') = true := by cases k <;> decide
  exact fun c hc => of_decide_eq_true (all_eq_true.mp hall c hc)

theorem text_injective : Function.Injective AiProviderKind.text := by
  intro k k' h
  cases k <;> cases k' <;> first | rfl | exact absurd h (by decide)

/-- What stands before the first slash. -/
theorem takeWhile_heads (k : AiProviderKind) (m : String) :
    (k.text ++ ("/" ++ m)).toList.takeWhile (· ≠ '/') = k.text.toList := by
  have htoList : (k.text ++ ("/" ++ m)).toList = k.text.toList ++ '/' :: m.toList := by
    rw [String.toList_append, String.toList_append]
    rfl
  rw [htoList, takeWhile_append_of_pos fun c hc => decide_eq_true (text_noSlash k c hc),
    takeWhile_cons_of_neg (by decide), append_nil]

theorem Heads.unique {p : String} (h : Heads k p) (h' : Heads k' p) : k = k' := by
  obtain ⟨m, rfl⟩ := h
  obtain ⟨m', h'⟩ := h'
  have htake := congrArg (fun s : String => s.toList.takeWhile (· ≠ '/')) h'
  rw [takeWhile_heads, takeWhile_heads] at htake
  exact text_injective (String.toList_inj.mp htake)

theorem Heads.slash {p : String} (h : Heads k p) : '/' ∈ p.toList := by
  obtain ⟨m, rfl⟩ := h
  rw [String.toList_append, String.toList_append]
  exact mem_append_right _ (mem_append_left _ (by decide))

theorem heads_lower (k : AiProviderKind) (m : String) : Heads k (lower (k.text ++ ("/" ++ m))) :=
  ⟨lower m, lower.provider k m⟩

/-! ## Routes -/

theorem lookup_set {α : Type} {out : Record α} {n n' : String} {v : α} :
    (out.set n v).lookup n' = if n' = n then some v else out.lookup n' := by
  unfold Record.set
  rw [lookup_cons]
  by_cases hn : n' = n
  · simp [hn]
  · have hne : (n' == n) = false := beq_eq_false_iff_ne.mpr hn
    have hfilter : (out.filter (·.1 ≠ n)).lookup n' = out.lookup n' := by
      induction out with
      | nil => rfl
      | cons x out ih =>
        by_cases hx : x.1 = n
        · have hne : (n' == x.1) = false := by simp [hx, hn]
          rw [filter_cons_of_neg (by simp [hx]), ih, lookup_cons, hne]
        · rw [filter_cons_of_pos (by simp [hx]), lookup_cons, lookup_cons, ih]
    rw [hne, if_neg hn]
    exact hfilter

/-- A route of the document, or a default alias. -/
theorem route_name {route : AiRoute}
    (h : (effectiveRoutes doc doc.configured).lookup name = some route) :
    isRouteName name = true ∨ name ∈ DEFAULT_ALIASES.map Alias.text := by
  unfold effectiveRoutes at h
  have hnamed := doc.named
  generalize doc.routes = routes at h hnamed
  induction routes with
  | nil =>
    obtain ⟨l₁, l₂, heq, -⟩ := lookup_eq_some_iff.mp h
    have hmem : (name, route) ∈ defaultRoutes doc.configured := by
      rw [show defaultRoutes doc.configured = l₁ ++ (name, route) :: l₂ from heq]
      exact mem_append_right _ (mem_cons_self ..)
    obtain ⟨a, ha, hsome⟩ := mem_filterMap.mp hmem
    split at hsome
    · cases hsome
    · obtain ⟨rfl, -⟩ := Prod.mk.inj (some.inj hsome)
      exact .inr (mem_map_of_mem ha)
  | cons x routes ih =>
    rw [foldr_cons, lookup_set] at h
    split at h
    next hname => exact .inl (hname ▸ hnamed x (mem_cons_self ..))
    · exact ih h fun r hr => hnamed r (mem_cons_of_mem _ hr)

/-- No route has a slash in its name. -/
theorem route_noSlash {route : AiRoute}
    (h : (effectiveRoutes doc doc.configured).lookup name = some route) : '/' ∉ name.toList := by
  rcases route_name h with hname | hname
  · unfold isRouteName at hname
    split at hname
    · cases hname
    next c rest heq =>
      rw [heq]
      rw [and_eq_true, and_eq_true] at hname
      obtain ⟨⟨hc, hrest⟩, -⟩ := hname
      intro hmem
      rcases mem_cons.mp hmem with rfl | hmem
      · exact absurd hc (by decide)
      · exact absurd (all_eq_true.mp hrest _ hmem) (by decide)
  · obtain ⟨a, -, rfl⟩ := mem_map.mp hname
    cases a <;> decide

theorem not_heads_lower_route {route : AiRoute}
    (h : (effectiveRoutes doc doc.configured).lookup name = some route) : ¬ Heads k (lower name) :=
  fun hk => route_noSlash h (lower.slash name hk.slash)

/-! ## Resolution -/

theorem text_of_aiProviderKind {v : String} (h : aiProviderKind v = some k) : k.text = v := by
  simpa using List.find?_some h

theorem cutSlash_eq {h : String} (hcut : cutSlash name = some (h, m)) : name = h ++ ("/" ++ m) := by
  unfold cutSlash at hcut
  split at hcut
  · cases hcut
  next c rest hdrop =>
    dsimp only at hcut
    split at hcut
    · cases hcut
    · obtain ⟨rfl, rfl⟩ := Prod.mk.inj (some.inj hcut)
      have hc : c = '/' := by
        have hhead := List.head?_dropWhile_not (fun c : Char => decide (c ≠ '/')) name.toList
        rw [hdrop] at hhead
        simpa using hhead
      apply String.toList_inj.mp
      rw [String.toList_append, String.toList_append, String.toList_ofList, String.toList_ofList]
      conv => lhs; rw [← takeWhile_append_dropWhile (p := fun c : Char => decide (c ≠ '/'))
        (l := name.toList), hdrop, hc]
      rw [String.toList_ofList]
      rfl

/-- A `provider/model` is what it says. -/
theorem prefixed_eq (h : doc.prefixed name = some t) :
    name = t.provider.text ++ ("/" ++ t.model) := by
  obtain ⟨⟨head, rest⟩, hcut, hmap⟩ := bind_eq_some_iff.mp h
  obtain ⟨k, hk, rfl⟩ := map_eq_some_iff.mp hmap
  rw [text_of_aiProviderKind (filter_eq_some_iff.mp hk).1]
  exact cutSlash_eq hcut

/-- How a request resolves: to the configured targets of a route, to the target of a
`provider/model`, or whole to a provider. -/
inductive Resolves (lower : LowerCase) (doc : AiConfigDoc) (name : String) :
    List AiRouteTarget → Prop
  | route (route : AiRoute) : (effectiveRoutes doc doc.configured).lookup name = some route →
      route.targets.filter (·.provider ∈ doc.configured) ≠ [] →
      Resolves lower doc name (route.targets.filter (·.provider ∈ doc.configured))
  | model (t : AiRouteTarget) : (effectiveRoutes doc doc.configured).lookup name = none →
      name ∉ DEFAULT_ALIASES.map Alias.text → doc.prefixed name = some t →
      Resolves lower doc name [t]
  | whole (p : AiProviderKind) : (effectiveRoutes doc doc.configured).lookup name = none →
      name ∉ DEFAULT_ALIASES.map Alias.text → doc.prefixed name = none →
      doc.providerOf lower name = some p → Resolves lower doc name [⟨p, name⟩]

theorem resolves_of_resolveModel (h : resolveModel lower requested doc = .ok (some r)) :
    Js.trim requested ≠ "" ∧ r.requested = Js.trim requested ∧
      Resolves lower doc (Js.trim requested) r.targets := by
  unfold resolveModel at h
  dsimp only at h
  split at h
  · cases h
  next hname =>
    split at h
    next route hroute =>
      split at h
      · cases h
      next t ts htargets =>
        obtain rfl := some.inj (Except.ok.inj h)
        exact ⟨hname, rfl, htargets ▸ .route route hroute (by simp [htargets])⟩
    next hroute =>
      split at h
      · cases h
      · split at h
        · cases h
        next halias =>
          split at h
          next t ht =>
            obtain rfl := some.inj (Except.ok.inj h)
            exact ⟨hname, rfl, .model t hroute halias ht⟩
          next hnone =>
            obtain ⟨p, hp, rfl⟩ := map_eq_some_iff.mp (Except.ok.inj h)
            exact ⟨hname, rfl, .whole p hroute halias hnone hp⟩

/-- A request that throws nothing resolves to what it can. -/
theorem resolveModel_of_resolves {ts : List AiRouteTarget}
    (hok : ∃ r, resolveModel lower requested doc = .ok r) (hname : Js.trim requested ≠ "")
    (h : Resolves lower doc (Js.trim requested) ts) :
    ∃ r, resolveModel lower requested doc = .ok (some r) ∧ r.requested = Js.trim requested ∧
      r.targets = ts := by
  obtain ⟨r, hr⟩ := hok
  have hres := hr
  unfold resolveModel at hres
  rw [if_neg hname] at hres
  cases h with
  | route route hroute htargets =>
    rw [hroute] at hres
    dsimp only at hres
    split at hres
    next hnil => exact absurd hnil htargets
    next t ts hts =>
      obtain rfl := Except.ok.inj hres
      exact ⟨_, hr, rfl, hts.symm⟩
  | model t hroute halias ht =>
    rw [hroute, ht] at hres
    dsimp only at hres
    split at hres
    · cases hres
    · obtain rfl := Except.ok.inj hres
      exact ⟨_, hr, rfl, rfl⟩
  | whole p hroute halias hnone hp =>
    rw [hroute, hnone, hp] at hres
    dsimp only at hres
    split at hres
    · cases hres
    · obtain rfl := Except.ok.inj hres
      exact ⟨_, hr, rfl, rfl⟩

/-- A resolution throws exactly on a property of every object that is no route. -/
theorem resolveModel_total : (∃ r, resolveModel lower requested doc = .ok r) ↔
    (Js.trim requested ∈ OBJECT_PROTOTYPE →
      ((effectiveRoutes doc doc.configured).lookup (Js.trim requested)).isSome) := by
  unfold resolveModel
  dsimp only
  split
  next hname =>
    rw [hname]
    exact ⟨fun _ hmem => absurd hmem (by decide), fun _ => ⟨_, rfl⟩⟩
  · split
    next route hroute =>
      refine ⟨fun _ _ => by rw [hroute]; rfl, fun _ => ?_⟩
      split <;> exact ⟨_, rfl⟩
    next hroute =>
      rw [hroute]
      split
      next hproto => exact ⟨fun ⟨_, hr⟩ => (by cases hr), fun h => absurd (h hproto) (by decide)⟩
      next hproto =>
        refine ⟨fun _ hmem => absurd hmem hproto, fun _ => ?_⟩
        split
        · exact ⟨_, rfl⟩
        · split <;> exact ⟨_, rfl⟩

theorem mem_orderTargets {draw : Nat} (h : t ∈ orderTargets r draw) : t ∈ r.targets := by
  unfold orderTargets at h
  split at h
  · exact h
  · rcases mem_append.mp h with h | h
    · exact mem_of_getElem? (mem_toList.mp h)
    · exact mem_of_mem_eraseIdx h

/-! ## Entries -/

variable {targets : List AiRouteTarget}

/-- Why an entry matches. -/
theorem patternMatches_cases (h : patternMatches lower e name targets = true) :
    normal lower e = "*" ∨ normal lower e = lower name ∨
    (∀ t ∈ targets, normal lower e = t.provider.text ++ "/*") ∨
    (endsWith (normal lower e) "/*" = false ∧ ∃ t, targets = [t] ∧
      (normal lower e = lower t.model ∨
        normal lower e = lower (t.provider.text ++ ("/" ++ t.model)))) := by
  unfold patternMatches at h
  dsimp only at h
  split at h
  next hp => exact hp.elim .inl fun hp => .inr (.inl hp)
  · split at h
    · have hall := (of_decide_eq_true h).2
      exact .inr (.inr (.inl fun t ht => (of_decide_eq_true (all_eq_true.mp hall t ht)).symm))
    next hends =>
      split at h
      next t => exact .inr (.inr (.inr ⟨eq_false_iff.mpr hends, t, rfl, of_decide_eq_true h⟩))
      · cases h

theorem patternMatches_name (h : normal lower e = lower name) :
    patternMatches lower e name targets = true := by
  unfold patternMatches
  exact if_pos (.inr h)

theorem patternMatches_model (h : normal lower e = lower t.model)
    (hends : endsWith (normal lower e) "/*" = false) : patternMatches lower e name [t] = true := by
  unfold patternMatches
  dsimp only
  split
  · rfl
  · rw [if_neg (by simp [hends])]
    exact decide_eq_true (.inl h)

/-- What an entry matches, it permits. -/
theorem permits_of_patternMatches
    (hres : Resolves lower doc name targets) (h : patternMatches lower e name targets = true)
    (ht : t ∈ targets) : Permits lower doc e name t := by
  rcases patternMatches_cases h with hp | hp | hp | ⟨-, t', rfl, hp⟩
  · exact .inl hp
  · cases hres with
    | route route hroute _ => exact .inr (.inl ⟨by rw [hroute]; rfl, hp⟩)
    | model t' _ _ ht' =>
      obtain rfl := mem_singleton.mp ht
      exact .inr (.inr (.inr (.inr (hp.trans (congrArg lower (prefixed_eq ht'))))))
    | whole p _ _ _ _ =>
      obtain rfl := mem_singleton.mp ht
      exact .inr (.inr (.inr (.inl hp)))
  · exact .inr (.inr (.inl (hp t ht)))
  · obtain rfl := mem_singleton.mp ht
    exact .inr (.inr (.inr hp))

/-- An entry `k/…` that matches a target of another provider is misread. -/
theorem misread_of_patternMatches (hres : Resolves lower doc name targets)
    (h : patternMatches lower e name targets = true) (hk : Heads k (normal lower e))
    (ht : t ∈ targets) (hne : k ≠ t.provider) : Misread lower doc name e := by
  have hother : ¬ Heads t.provider (normal lower e) := fun ht' => hne (hk.unique ht')
  rcases patternMatches_cases h with hp | hp | hp | ⟨hends, t', rfl, hp⟩
  · rw [hp] at hk
    exact absurd hk.slash (by decide)
  · cases hres with
    | route route hroute _ => exact absurd (hp ▸ hk) (not_heads_lower_route hroute)
    | model t' _ _ ht' =>
      obtain rfl := mem_singleton.mp ht
      rw [hp, prefixed_eq ht'] at hother
      exact absurd (heads_lower _ _) hother
    | whole p hroute halias hnone hwhole =>
      obtain rfl := mem_singleton.mp ht
      exact .whole p k hroute halias hnone hwhole hp hk hne
  · exact absurd ⟨"*", hp t ht⟩ hother
  · obtain rfl := mem_singleton.mp ht
    rcases hp with hp | hp
    · generalize htargets : [t] = targets at hres
      cases hres with
      | route route hroute _ => exact .route route t k hroute htargets.symm hp hends hk hne
      | model t' hroute halias ht' =>
        obtain rfl := (List.cons.inj htargets).1
        exact .model t k hroute halias ht' hp hends hk hne
      | whole p hroute halias hnone hwhole =>
        obtain rfl := (List.cons.inj htargets).1
        exact .whole p k hroute halias hnone hwhole hp hk hne
    · rw [hp] at hother
      exact absurd (heads_lower _ _) hother

/-- A misread entry matches a target of another provider. -/
theorem Misread.admits (h : Misread lower doc name e) : ∃ t k, Resolves lower doc name [t] ∧
    patternMatches lower e name [t] = true ∧ Heads k (normal lower e) ∧ k ≠ t.provider := by
  cases h with
  | route route t k hroute htargets hp hends hk hne =>
    exact ⟨t, k, htargets ▸ .route route hroute (by simp [htargets]),
      patternMatches_model hp hends, hk, hne⟩
  | model t k hroute halias ht hp hends hk hne =>
    exact ⟨t, k, .model t hroute halias ht, patternMatches_model hp hends, hk, hne⟩
  | whole p k hroute halias hnone hwhole hp hk hne =>
    exact ⟨⟨p, name⟩, k, .whole p hroute halias hnone hwhole, patternMatches_name hp, hk, hne⟩

end

/-- The allowlists bound a request exactly when it is plain. -/
theorem bounded_iff (lower : LowerCase) (doc : AiConfigDoc) (lists : List (Option (List String)))
    (requested : String) : Bounded lower doc lists requested ↔ Plain lower doc lists requested := by
  constructor
  · intro h
    refine ⟨resolveModel_total.mp h.total, fun hname list hlist e he hmis => ?_⟩
    obtain ⟨t, k, hres, hmatch, hk, hne⟩ := hmis.admits
    obtain ⟨r, hr, hrequested, htargets⟩ := resolveModel_of_resolves h.total hname hres
    have hown := h.own r hr list hlist e he (by rw [hrequested, htargets]; exact hmatch) k hk t
      (htargets ▸ mem_singleton_self t)
    exact hne hown.symm
  · intro h
    refine ⟨resolveModel_total.mpr h.1, fun r hr hallowed list hlist draw t ht => ?_,
      fun r hr list hlist e he hmatch k hk t ht => ?_⟩
    · obtain ⟨-, hrequested, hres⟩ := resolves_of_resolveModel hr
      obtain ⟨e, he, hmatch⟩ := any_eq_true.mp (all_eq_true.mp hallowed _ hlist)
      rw [hrequested] at hmatch ⊢
      exact ⟨e, he, permits_of_patternMatches hres hmatch (mem_orderTargets ht)⟩
    · obtain ⟨hname, hrequested, hres⟩ := resolves_of_resolveModel hr
      rw [hrequested] at hmatch
      by_contra hne
      exact h.2 hname list hlist e he
        (misread_of_patternMatches hres hmatch hk ht fun heq => hne heq.symm)

/-! ## A request read as an entry -/

theorem toLower_eq_slash {c : Char} (h : c.toLower = '/') : c = '/' := by
  unfold Char.toLower at h
  split at h
  next hupper =>
    have hval := congrArg (fun c : Char => c.val.toNat) h
    have hle : c.val.toNat ≤ 90 := UInt32.le_iff_toNat_le.mp hupper.2
    have hge : 65 ≤ c.val.toNat := UInt32.le_iff_toNat_le.mp hupper.1
    have hsum : (c.val.toNat + 32) % 2 ^ 32 = 47 := hval
    omega
  · exact h

/-- In ASCII. -/
def asciiLowerCase : LowerCase where
  apply := Js.toLowerCase
  provider k s := by
    unfold Js.toLowerCase
    rw [String.toList_append, String.toList_append, map_append, map_append,
      String.ofList_append, String.ofList_append]
    congr 1
    cases k <;> decide
  slash s h := by
    unfold Js.toLowerCase at h
    rw [String.toList_ofList] at h
    obtain ⟨c, hc, heq⟩ := mem_map.mp h
    exact toLower_eq_slash heq ▸ hc

/-- Only one provider is configured. -/
def onlyAnthropic : AiConfigDoc := parseConfigDoc (.arr [.obj [("kind", .str "anthropic")]])

/-- The request is the entry, and goes to a provider that the entry does not name. -/
theorem bounded_otherProvider :
    ¬ ∀ lower doc lists requested, Bounded lower doc lists requested := by
  intro h
  have hown := (h asciiLowerCase onlyAnthropic [some ["openai/gpt-5"]] "openai/gpt-5").own
    ⟨"openai/gpt-5", none, .fallback, [⟨.anthropic, "openai/gpt-5"⟩]⟩ (by decide +kernel) _
    (mem_singleton_self _) _ (mem_singleton_self _) (by decide +kernel) .openai
    ⟨"gpt-5", by decide⟩ _ (mem_singleton_self _)
  cases hown

end Swarmy.Ai
