import Swarmy.Net.Links

/-!
# Private links

When services are attached to the overlays of connected apps only.  Connect and disconnect
write labels and overlays from inventories that may be old by then: `private_iff` says what that
takes, together with how far the hash in an overlay's name looks.
-/

namespace Swarmy.Links

open List Option Function

/-! ## The invariant -/

section

variable (apps : Set (String × String)) (services : List Service)
  (linked : List (String × String × String))

/-- The peers of an app are connected to it, and in play. -/
def PeersOk (org stack : String) (peers : Finset String) : Prop :=
  ∀ p ∈ peers, Linked linked org stack p ∧ Pair apps org stack p

structure Service.Ok (s : Service) : Prop where
  nets : s.nets = overlays s.org s.stack s.links
  app : s.links ≠ ∅ → s.app ∈ apps ∧ s.linkable = true
  peers : PeersOk apps linked s.org s.stack s.links

/-- A patch that is about to be deployed. -/
structure Patch.Ok (p : Patch) : Prop where
  nets : p.nets = overlays p.org p.stack p.links
  app : (p.org, p.stack) ∈ apps
  peers : PeersOk apps linked p.org p.stack p.links
  target : ∀ s ∈ services, p.isFor s = true → s.linkable = true

/-- The services of an app that still have a peer are to be patched. -/
def Leaves (org self other : String) (todo : List Patch) : Prop :=
  ∀ s ∈ services, s.app = (org, self) → other ∈ s.links → ∃ p ∈ todo, p.isFor s = true

/-- The patches are for services of an app, and take a peer away. -/
def Takes (org self other : String) (todo : List Patch) : Prop :=
  ∀ p ∈ todo, (p.org, p.stack) = (org, self) ∧ other ∉ p.links

/-- What a call under way has behind it is still so. -/
def Call.Ok : Call → Prop
  | .idle => True
  | .connecting org a b svcsA svcsB => Pair apps org a b ∧
    (∀ s ∈ svcsA, s.app = (org, a) ∧ s.Ok apps linked) ∧
    (∀ s ∈ svcsB, s.app = (org, b) ∧ s.Ok apps linked) ∧
    ∀ s ∈ svcsA ++ svcsB, ∀ s' ∈ services, s.app = s'.app → s.name = s'.name →
      s.linkable = true → s'.linkable = true
  | .joining org a b todo =>
    ∀ p ∈ todo, p.Ok apps services linked ∧ (p.org, p.stack) ∈ [(org, a), (org, b)]
  | .disconnecting org a b => (org, a) ∈ apps ∧ (org, b) ∈ apps
  | .leavingFirst org a b todo => ((org, a) ∈ apps ∧ (org, b) ∈ apps) ∧
      (∀ p ∈ todo, p.Ok apps services linked) ∧
      Takes org a b todo ∧ Leaves services org a b todo
  | .leavingSecond org a b todo => ((org, a) ∈ apps ∧ (org, b) ∈ apps) ∧
      (∀ p ∈ todo, p.Ok apps services linked) ∧
      Leaves services org a b [] ∧ Takes org b a todo ∧ Leaves services org b a todo
  | .deploying org stack peers todo => (org, stack) ∈ apps ∧ PeersOk apps linked org stack peers ∧
      ∀ spec ∈ todo, spec.links = ∅ ∧ spec.nets = ∅

end

/-- One service of a name is as linkable as another of that name. -/
def SameKind (services : List Service) : Prop :=
  ∀ svc ∈ services, ∀ svc' ∈ services, svc.app = svc'.app → svc.name = svc'.name →
    svc.linkable = svc'.linkable

structure Inv (apps : Set (String × String)) (s : State) : Prop where
  kind : SameKind s.services
  services : ∀ svc ∈ s.services, svc.Ok apps s.linked
  calls : ∀ n, (s.calls n).Ok apps s.services s.linked
  apart : ∀ m n app, m ≠ n → app ∈ (s.calls m).apps → app ∉ (s.calls n).apps

variable {apps : Set (String × String)} {s s' : State} {services services' : List Service}
  {linked linked' : List (String × String × String)}

theorem inv_start (hkind : SameKind services)
    (h : ∀ svc ∈ services, svc.links = ∅ ∧ svc.nets = ∅) : Inv apps (start services) where
  kind := hkind
  services svc hs := by
    obtain ⟨hl, hn⟩ := h svc hs
    refine ⟨?_, fun hne => absurd hl hne, fun p hp => ?_⟩
    · rw [hl, hn]
      rfl
    · rw [hl] at hp
      exact absurd hp (Finset.notMem_empty p)
  calls _ := trivial
  apart _ _ _ _ hm := absurd hm not_mem_nil

/-! ## What the other calls do -/

/-- The connections of an app are not given up. -/
def Keeps (linked linked' : List (String × String × String)) (app : String × String) : Prop :=
  ∀ p, Linked linked app.1 app.2 p → Linked linked' app.1 app.2 p

variable {a b org stack : String} {svc : Service} {p : Patch} {c : Call} {n : Nat}
  {svcs : List Service}

theorem Pair.symm (h : Pair apps org a b) : Pair apps org b a :=
  ⟨h.right, h.left, h.ne.symm, h.named.symm⟩

theorem PeersOk.keep {peers : Finset String}
    (h : PeersOk apps linked org stack peers) (hk : Keeps linked linked' (org, stack)) :
    PeersOk apps linked' org stack peers := fun p hp => ⟨hk p (h p hp).1, (h p hp).2⟩

theorem Service.Ok.keep (h : svc.Ok apps linked)
    (hk : Keeps linked linked' svc.app) : svc.Ok apps linked' :=
  ⟨h.nets, h.app, h.peers.keep hk⟩

theorem app_of_isFor (h : p.isFor svc = true) : svc.app = (p.org, p.stack) := by
  simp only [Patch.isFor, Bool.and_eq_true, beq_iff_eq] at h
  exact Prod.ext h.1.1.symm h.1.2.symm

theorem Patch.Ok.frame (h : p.Ok apps services linked)
    (hs : ∀ svc ∈ services', svc.app = (p.org, p.stack) → svc ∈ services)
    (hk : Keeps linked linked' (p.org, p.stack)) : p.Ok apps services' linked' :=
  ⟨h.nets, h.app, h.peers.keep hk, fun svc hsvc hf =>
    h.target svc (hs svc hsvc (app_of_isFor hf)) hf⟩

/-- Nothing a call relies on changes while the services and the connections of its apps
stay. -/
theorem Call.Ok.frame (h : c.Ok apps services linked)
    (hs : ∀ svc ∈ services', svc.app ∈ c.apps → svc ∈ services)
    (hk : ∀ app ∈ c.apps, Keeps linked linked' app) : c.Ok apps services' linked' := by
  cases c with
  | idle => trivial
  | connecting org a b svcsA svcsB =>
    obtain ⟨happs, hA, hB, hl⟩ := h
    have ha := hk (org, a) mem_cons_self
    have hb := hk (org, b) (mem_cons_of_mem _ mem_cons_self)
    refine ⟨happs, fun svc hsvc => ?_, fun svc hsvc => ?_, fun svc hsvc svc' hsvc' happ hname => ?_⟩
    · exact ⟨(hA svc hsvc).1, (hA svc hsvc).2.keep ((hA svc hsvc).1 ▸ ha)⟩
    · exact ⟨(hB svc hsvc).1, (hB svc hsvc).2.keep ((hB svc hsvc).1 ▸ hb)⟩
    · refine hl svc hsvc svc' (hs svc' hsvc' ?_) happ hname
      rcases mem_append.mp hsvc with hin | hin
      · rw [← happ, (hA svc hin).1]
        exact mem_cons_self
      · rw [← happ, (hB svc hin).1]
        exact mem_cons_of_mem _ mem_cons_self
  | joining org a b todo =>
    intro p hp
    obtain ⟨hok, happ⟩ := h p hp
    exact ⟨hok.frame (fun svc hsvc he => hs svc hsvc (he ▸ happ)) (hk _ happ), happ⟩
  | disconnecting org a b => exact h
  | leavingFirst org a b todo =>
    obtain ⟨happs, hok, htakes, hleaves⟩ := h
    refine ⟨happs, fun p hp => ?_, htakes, fun svc hsvc he hl => ?_⟩
    · have happ := (htakes p hp).1
      exact (hok p hp).frame (fun svc hsvc he =>
        hs svc hsvc (by rw [he, happ]; exact mem_cons_self))
        (hk _ (by rw [happ]; exact mem_cons_self))
    · exact hleaves svc (hs svc hsvc (by rw [he]; exact mem_cons_self)) he hl
  | leavingSecond org a b todo =>
    obtain ⟨happs, hok, hfirst, htakes, hleaves⟩ := h
    have hb : (org, b) ∈ (Call.leavingSecond org a b todo).apps :=
      mem_cons_of_mem _ mem_cons_self
    refine ⟨happs, fun p hp => ?_, fun svc hsvc he hl => ?_, htakes, fun svc hsvc he hl => ?_⟩
    · have happ := (htakes p hp).1
      exact (hok p hp).frame (fun svc hsvc he => hs svc hsvc (by rw [he, happ]; exact hb))
        (hk _ (by rw [happ]; exact hb))
    · exact hfirst svc (hs svc hsvc (by rw [he]; exact mem_cons_self)) he hl
    · exact hleaves svc (hs svc hsvc (by rw [he]; exact hb)) he hl
  | deploying org stack peers todo => exact ⟨h.1, h.2.1.keep (hk _ mem_cons_self), h.2.2⟩

/-- One call goes on; the others do not see it. -/
theorem Inv.goOn (h : Inv apps s) (hkind : SameKind services')
    (hservices : ∀ svc ∈ services', svc.Ok apps linked') (hc : c.Ok apps services' linked')
    (happs : ∀ app ∈ c.apps, app ∈ (s.calls n).apps ∨ s.Free app)
    (hs : ∀ svc ∈ services', svc.app ∉ (s.calls n).apps → svc ∈ s.services)
    (hk : ∀ app, app ∉ (s.calls n).apps → Keeps s.linked linked' app) :
    Inv apps ⟨services', update s.calls n c, linked'⟩ where
  kind := hkind
  services := hservices
  calls m := by
    change (update s.calls n c m).Ok apps services' linked'
    by_cases hm : m = n
    · subst hm
      rw [update_self]
      exact hc
    · rw [update_of_ne hm]
      exact (h.calls m).frame (fun svc hsvc happ => hs svc hsvc (h.apart m n _ hm happ))
        fun app happ => hk app (h.apart m n app hm happ)
  apart m m' app hne hm hm' := by
    change app ∈ (update s.calls n c m).apps at hm
    change app ∈ (update s.calls n c m').apps at hm'
    by_cases hmn : m = n
    · subst hmn
      rw [update_of_ne hne.symm] at hm'
      rw [update_self] at hm
      rcases happs app hm with hin | hfree
      · exact h.apart m m' app hne hin hm'
      · exact hfree m' hm'
    · rw [update_of_ne hmn] at hm
      by_cases hmn' : m' = n
      · subst hmn'
        rw [update_self] at hm'
        rcases happs app hm' with hin | hfree
        · exact h.apart m m' app hne hm hin
        · exact hfree m hm
      · rw [update_of_ne hmn'] at hm'
        exact h.apart m m' app hne hm hm'

theorem keeps_refl (linked : List (String × String × String)) (app : String × String) :
    Keeps linked linked app := fun _ h => h

/-- A call goes on, and nothing else changes. -/
theorem Inv.setCall (h : Inv apps s) (hc : c.Ok apps s.services s.linked)
    (happs : ∀ app ∈ c.apps, app ∈ (s.calls n).apps ∨ s.Free app) : Inv apps (s.setCall n c) :=
  h.goOn h.kind h.services hc happs (fun _ hsvc _ => hsvc) fun app _ => keeps_refl _ app

theorem Inv.idle (h : Inv apps s) (n : Nat) : Inv apps (s.setCall n .idle) :=
  h.setCall trivial fun _ ha => absurd ha not_mem_nil

/-! ## Reading and writing services -/

theorem mem_live : svc ∈ s.live org stack ↔ svc ∈ s.services ∧ svc.app = (org, stack) := by
  simp [State.live]

theorem mem_stackPeers {p : String} : p ∈ stackPeers svcs ↔ ∃ svc ∈ svcs, p ∈ svc.links := by
  induction svcs with
  | nil => simp [stackPeers]
  | cons svc svcs ih =>
    have hcons : stackPeers (svc :: svcs) = svc.links ∪ stackPeers svcs := rfl
    rw [hcons, Finset.mem_union, ih]
    simp

/-- The peers of some services of an app. -/
theorem peersOk_stackPeers (h : ∀ svc ∈ svcs, svc.app = (org, stack) ∧ svc.Ok apps linked) :
    PeersOk apps linked org stack (stackPeers svcs) := by
  intro p hp
  obtain ⟨svc, hsvc, hp⟩ := mem_stackPeers.mp hp
  obtain ⟨happ, hok⟩ := h svc hsvc
  obtain ⟨rfl, rfl⟩ := Prod.mk.inj happ
  exact hok.peers p hp

/-- Over overlays that agree with the label, a patch makes overlays that agree with the new one. -/
theorem nets_linkPatch (h : svc.nets = overlays svc.org svc.stack svc.links)
    (peers : Finset String) : (linkPatch svc peers).nets = overlays svc.org svc.stack peers := by
  ext x
  simp only [linkPatch, h, overlays, Finset.mem_union, Finset.mem_sdiff, Finset.mem_image]
  constructor
  · rintro (⟨⟨p, hp, rfl⟩, hnot⟩ | hx)
    · by_cases hin : p ∈ peers
      · exact ⟨p, hin, rfl⟩
      · exact absurd ⟨p, ⟨hp, hin⟩, rfl⟩ hnot
    · exact hx
  · exact .inr

theorem isFor_linkPatch {svc' : Service} {peers : Finset String} :
    (linkPatch svc peers).isFor svc' = true ↔ svc.app = svc'.app ∧ svc.name = svc'.name := by
  simp [Patch.isFor, linkPatch, Prod.ext_iff]

theorem mem_applyPeers {mutate : Finset String → Finset String} :
    p ∈ applyPeers svcs mutate ↔ ∃ svc ∈ svcs, svc.linkable = true ∧
      svc.links ≠ mutate (stackPeers svcs) ∧ p = linkPatch svc (mutate (stackPeers svcs)) := by
  simp only [applyPeers, List.mem_map, List.mem_filter, decide_eq_true_eq]
  constructor
  · rintro ⟨svc, ⟨⟨h₁, h₂⟩, h₃⟩, rfl⟩
    exact ⟨svc, h₁, h₂, h₃, rfl⟩
  · rintro ⟨svc, h₁, h₂, h₃, rfl⟩
    exact ⟨svc, ⟨⟨h₁, h₂⟩, h₃⟩, rfl⟩

/-- The patches of `applyPeers` are all right where the new peers are. -/
theorem ok_applyPeers (services : List Service) (mutate : Finset String → Finset String)
    (happ : (org, stack) ∈ apps)
    (hsvcs : ∀ svc ∈ svcs, svc.app = (org, stack) ∧ svc.Ok apps linked)
    (hl : ∀ svc ∈ svcs, ∀ svc' ∈ services, svc.app = svc'.app → svc.name = svc'.name →
      svc.linkable = true → svc'.linkable = true)
    (hp : PeersOk apps linked' org stack (mutate (stackPeers svcs))) :
    ∀ p ∈ applyPeers svcs mutate, p.Ok apps services linked' ∧ (p.org, p.stack) = (org, stack) := by
  intro p hmem
  obtain ⟨svc, hsvc, hlink, -, rfl⟩ := mem_applyPeers.mp hmem
  obtain ⟨ha, hok⟩ := hsvcs svc hsvc
  obtain ⟨rfl, rfl⟩ := Prod.mk.inj ha
  refine ⟨⟨nets_linkPatch hok.nets _, happ, hp, fun svc' hsvc' hf => ?_⟩, rfl⟩
  obtain ⟨hsame, hname⟩ := isFor_linkPatch.mp hf
  exact hl svc hsvc svc' hsvc' hsame hname hlink

/-- A deployed patch. -/
theorem mem_patch : svc ∈ (s.patch p).services ↔
    (svc ∈ s.services ∧ p.isFor svc = false) ∨ ∃ svc₀ ∈ s.services, p.isFor svc₀ = true ∧
      svc = { svc₀ with links := p.links, nets := p.nets } := by
  simp only [State.patch, List.mem_map]
  constructor
  · rintro ⟨svc₀, h₀, rfl⟩
    split
    · rename_i hf
      exact .inr ⟨svc₀, h₀, hf, rfl⟩
    · rename_i hf
      exact .inl ⟨h₀, by simpa using hf⟩
  · rintro (⟨h, hf⟩ | ⟨svc₀, h₀, hf, rfl⟩)
    · exact ⟨svc, h, by rw [hf]; rfl⟩
    · exact ⟨svc₀, h₀, by rw [hf]; rfl⟩

theorem ok_patch (hs : ∀ svc ∈ s.services, svc.Ok apps s.linked)
    (hp : p.Ok apps s.services s.linked) : ∀ svc ∈ (s.patch p).services, svc.Ok apps s.linked := by
  intro svc hsvc
  rcases mem_patch.mp hsvc with ⟨h, -⟩ | ⟨svc₀, h₀, hf, rfl⟩
  · exact hs svc h
  · have happ := app_of_isFor hf
    obtain ⟨horg, hstack⟩ := Prod.mk.inj happ
    refine ⟨?_, fun _ => ⟨?_, hp.target svc₀ h₀ hf⟩, ?_⟩
    · rw [horg, hstack]
      exact hp.nets
    · rw [horg, hstack]
      exact hp.app
    · rw [horg, hstack]
      exact hp.peers

/-- A patch does not touch other apps. -/
theorem mem_of_mem_patch (h : svc ∈ (s.patch p).services)
    (hne : svc.app ≠ (p.org, p.stack)) : svc ∈ s.services := by
  rcases mem_patch.mp h with ⟨h, -⟩ | ⟨svc₀, h₀, hf, rfl⟩
  · exact h
  · exact absurd (app_of_isFor hf) hne

theorem Patch.Ok.patch {q : Patch} (h : q.Ok apps s.services s.linked) :
    q.Ok apps (s.patch p).services s.linked := by
  refine ⟨h.nets, h.app, h.peers, fun svc hsvc hf => ?_⟩
  rcases mem_patch.mp hsvc with ⟨hsvc, -⟩ | ⟨svc₀, h₀, -, rfl⟩
  · exact h.target svc hsvc hf
  · exact h.target svc₀ h₀ hf

/-- A patch that takes the peer away gets its service off the list. -/
theorem Leaves.patch {self other : String} {todo : List Patch}
    (h : Leaves s.services org self other (p :: todo)) (hp : other ∉ p.links) :
    Leaves (s.patch p).services org self other todo := by
  intro svc hsvc happ hl
  rcases mem_patch.mp hsvc with ⟨hsvc, hf⟩ | ⟨svc₀, h₀, hf, rfl⟩
  · obtain ⟨q, hq, hfq⟩ := h svc hsvc happ hl
    rcases mem_cons.mp hq with rfl | hq
    · rw [hf] at hfq
      cases hfq
    · exact ⟨q, hq, hfq⟩
  · exact absurd hl hp

/-- A patch of another app changes nothing for this one. -/
theorem Leaves.patch_ne {self other : String} {todo : List Patch}
    (h : Leaves s.services org self other todo)
    (hp : other ∉ p.links ∨ (p.org, p.stack) ≠ (org, self)) :
    Leaves (s.patch p).services org self other todo := by
  intro svc hsvc happ hl
  rcases mem_patch.mp hsvc with ⟨hsvc, hf⟩ | ⟨svc₀, h₀, hf, rfl⟩
  · exact h svc hsvc happ hl
  · rcases hp with hp | hp
    · exact absurd hl hp
    · exact absurd ((app_of_isFor hf).symm.trans happ) hp

/-- What `disconnectStacks` is about to patch, with the inventory it has just read. -/
theorem Inv.leaves (h : Inv apps s) {self : String} (other : String) (happ : (org, self) ∈ apps) :
    (∀ p ∈ applyPeers (s.live org self) (·.erase other), p.Ok apps s.services s.linked) ∧
      Takes org self other (applyPeers (s.live org self) (·.erase other)) ∧
      Leaves s.services org self other (applyPeers (s.live org self) (·.erase other)) := by
  have hlive : ∀ svc ∈ s.live org self, svc.app = (org, self) ∧ svc.Ok apps s.linked :=
    fun svc hsvc => ⟨(mem_live.mp hsvc).2, h.services svc (mem_live.mp hsvc).1⟩
  have hpeers : PeersOk apps s.linked org self ((stackPeers (s.live org self)).erase other) :=
    fun p hp => peersOk_stackPeers hlive p (Finset.mem_of_mem_erase hp)
  have hok := ok_applyPeers s.services (·.erase other) happ hlive
    (fun svc hsvc svc' hsvc' ha hn hl =>
      (h.kind svc (mem_live.mp hsvc).1 svc' hsvc' ha hn).symm.trans hl) hpeers
  refine ⟨fun p hp => (hok p hp).1, fun p hp => ⟨(hok p hp).2, ?_⟩, fun svc hsvc hin hl => ?_⟩
  · obtain ⟨svc, -, -, -, rfl⟩ := mem_applyPeers.mp hp
    exact Finset.notMem_erase _ _
  · have hne : svc.links ≠ ∅ := Finset.ne_empty_of_mem hl
    refine ⟨_, mem_applyPeers.mpr ⟨svc, mem_live.mpr ⟨hsvc, hin⟩, ?_, fun he => ?_, rfl⟩,
      isFor_linkPatch.mpr ⟨rfl, rfl⟩⟩
    · exact ((h.services svc hsvc).app hne).2
    · rw [he] at hl
      exact Finset.notMem_erase _ _ hl

theorem SameKind.patch (h : SameKind s.services) (p : Patch) : SameKind (s.patch p).services := by
  have hof : ∀ svc ∈ (s.patch p).services, ∃ svc₀ ∈ s.services, svc.app = svc₀.app ∧
      svc.name = svc₀.name ∧ svc.linkable = svc₀.linkable := by
    intro svc hsvc
    rcases mem_patch.mp hsvc with ⟨hsvc, -⟩ | ⟨svc₀, h₀, -, rfl⟩
    · exact ⟨svc, hsvc, rfl, rfl, rfl⟩
    · exact ⟨svc₀, h₀, rfl, rfl, rfl⟩
  intro svc hsvc svc' hsvc' happ hname
  obtain ⟨x, hx, hxa, hxn, hxl⟩ := hof svc hsvc
  obtain ⟨y, hy, hya, hyn, hyl⟩ := hof svc' hsvc'
  rw [hxl, hyl]
  exact h x hx y hy (hxa.symm.trans (happ.trans hya)) (hxn.symm.trans (hname.trans hyn))

/-- A call deploys a patch for one of its apps. -/
theorem Inv.patched (h : Inv apps s) (hp : p.Ok apps s.services s.linked)
    (hin : (p.org, p.stack) ∈ (s.calls n).apps) (hc : c.Ok apps (s.patch p).services s.linked)
    (happs : ∀ app ∈ c.apps, app ∈ (s.calls n).apps) : Inv apps ((s.patch p).setCall n c) :=
  h.goOn (h.kind.patch p) (ok_patch h.services hp) hc (fun app ha => .inl (happs app ha))
    (fun _ hsvc hout => mem_of_mem_patch hsvc fun he => hout (he ▸ hin)) fun app _ =>
      keeps_refl _ app

/-! ## Steps -/

/-- The end of a disconnect: no service of the two has the other one as a peer. -/
theorem Inv.disconnected (h : Inv apps s)
    (hn : s.calls n = .leavingSecond org a b []) :
    Inv apps ({ s with linked := s.linked.filter fun x => x ≠ (org, a, b) ∧
      x ≠ (org, b, a) }.setCall
      n .idle) := by
  have hok := h.calls n
  rw [hn] at hok
  obtain ⟨-, -, hfirst, -, hsecond⟩ := hok
  have hkeep : ∀ org' a' b', ¬(org' = org ∧ (a' = a ∧ b' = b ∨ a' = b ∧ b' = a)) →
      Linked s.linked org' a' b' → Linked (s.linked.filter fun x => x ≠ (org, a, b) ∧
        x ≠ (org, b, a)) org' a' b' := by
    intro org' a' b' hne hl
    simp only [Linked, mem_filter, ne_eq, Prod.mk.injEq, decide_eq_true_eq] at hl ⊢
    rcases hl with hl | hl
    · exact .inl ⟨hl, by tauto⟩
    · exact .inr ⟨hl, by tauto⟩
  refine h.goOn h.kind (fun svc hsvc => ?_) trivial (fun _ ha => absurd ha not_mem_nil)
    (fun _ hsvc _ => hsvc) fun app happ p hl => ?_
  · have hs := h.services svc hsvc
    refine ⟨hs.nets, hs.app, fun p hp => ⟨hkeep _ _ _ ?_ (hs.peers p hp).1, (hs.peers p hp).2⟩⟩
    rintro ⟨rfl, ⟨hstack, rfl⟩ | ⟨hstack, rfl⟩⟩
    · obtain ⟨q, hq, -⟩ := hfirst svc hsvc (Prod.ext rfl hstack) hp
      exact absurd hq not_mem_nil
    · obtain ⟨q, hq, -⟩ := hsecond svc hsvc (Prod.ext rfl hstack) hp
      exact absurd hq not_mem_nil
  · refine hkeep _ _ _ ?_ hl
    rw [hn] at happ
    rintro ⟨horg, ⟨hstack, -⟩ | ⟨hstack, -⟩⟩
    · refine happ ?_
      rw [show app = (org, a) from Prod.ext horg hstack]
      exact mem_cons_self
    · refine happ ?_
      rw [show app = (org, b) from Prod.ext horg hstack]
      exact mem_cons_of_mem _ mem_cons_self

/-- The pair becomes connected. -/
theorem Inv.joins (h : Inv apps s) {svcsA svcsB : List Service}
    (hn : s.calls n = .connecting org a b svcsA svcsB) :
    Inv apps ({ s with linked := (org, a, b) :: s.linked }.setCall n (.joining org a b
      (applyPeers svcsA (insert b) ++ applyPeers svcsB (insert a)))) := by
  have hok := h.calls n
  rw [hn] at hok
  obtain ⟨hpair, hA, hB, hl⟩ := hok
  have ha := hpair.left
  have hb := hpair.right
  have hkeep : ∀ app, Keeps s.linked ((org, a, b) :: s.linked) app := fun app p hp =>
    hp.imp (mem_cons_of_mem _) (mem_cons_of_mem _)
  refine h.goOn h.kind (fun svc hsvc => (h.services svc hsvc).keep (hkeep _)) ?_
    (fun app happ => .inl (by rw [hn]; exact happ)) (fun _ hsvc _ => hsvc) fun app _ => hkeep app
  intro p hp
  rcases mem_append.mp hp with hp | hp
  · have hpeers : PeersOk apps ((org, a, b) :: s.linked) org a (insert b (stackPeers svcsA)) := by
      intro q hq
      rcases Finset.mem_insert.mp hq with rfl | hq
      · exact ⟨.inl mem_cons_self, hpair⟩
      · exact (peersOk_stackPeers hA).keep (hkeep _) q hq
    obtain ⟨hpok, happ⟩ := ok_applyPeers s.services (insert b) ha
      (fun svc hsvc => ⟨(hA svc hsvc).1, (hA svc hsvc).2.keep (hkeep _)⟩)
      (fun svc hsvc => hl svc (mem_append_left _ hsvc)) hpeers p hp
    exact ⟨hpok, happ ▸ mem_cons_self⟩
  · have hpeers : PeersOk apps ((org, a, b) :: s.linked) org b (insert a (stackPeers svcsB)) := by
      intro q hq
      rcases Finset.mem_insert.mp hq with rfl | hq
      · exact ⟨.inr mem_cons_self, hpair.symm⟩
      · exact (peersOk_stackPeers hB).keep (hkeep _) q hq
    obtain ⟨hpok, happ⟩ := ok_applyPeers s.services (insert a) hb
      (fun svc hsvc => ⟨(hB svc hsvc).1, (hB svc hsvc).2.keep (hkeep _)⟩)
      (fun svc hsvc => hl svc (mem_append_right _ hsvc)) hpeers p hp
    exact ⟨hpok, happ ▸ mem_cons_of_mem _ mem_cons_self⟩

theorem mem_deploy {x : Service} : svc ∈ (s.deploy x).services ↔
    svc = x ∨ svc ∈ s.services ∧ ¬(svc.app = x.app ∧ svc.name = x.name) := by
  simp only [State.deploy, mem_cons, mem_filter, decide_eq_true_eq]

/-- What is carried to a service whose compose file writes no links. -/
theorem ok_carryLinks {peers : Finset String} {spec : Spec} (happ : (org, stack) ∈ apps)
    (hpeers : PeersOk apps linked org stack peers) (hspec : spec.links = ∅ ∧ spec.nets = ∅) :
    (carryLinks org stack peers spec).Ok apps linked ∧
      (carryLinks org stack peers spec).app = (org, stack) := by
  unfold carryLinks
  split
  · refine ⟨⟨?_, fun hne => absurd hspec.1 hne, fun p hp => ?_⟩, rfl⟩
    · rw [hspec.1, hspec.2]
      rfl
    · rw [hspec.1] at hp
      exact absurd hp (Finset.notMem_empty p)
  · rename_i hsome
    obtain ⟨-, hlink⟩ := not_or.mp hsome
    refine ⟨⟨?_, fun _ => ⟨happ, by simpa using hlink⟩, hpeers⟩, rfl⟩
    rw [hspec.2, Finset.empty_union]

/-- A redeploy deploys a service of its stack. -/
theorem Inv.deployed (h : Inv apps s) {peers : Finset String} {todo : List Spec} {spec : Spec}
    (hn : s.calls n = .deploying org stack peers (spec :: todo))
    (hc : c = .idle ∨ c = .deploying org stack peers todo) :
    Inv apps ((s.deploy (carryLinks org stack peers spec)).setCall n c) := by
  have hok := h.calls n
  rw [hn] at hok
  obtain ⟨happ, hpeers, hplain⟩ := hok
  have hin : (org, stack) ∈ (s.calls n).apps := by
    rw [hn]
    exact mem_cons_self
  obtain ⟨hnew, hstack⟩ := ok_carryLinks happ hpeers (hplain spec mem_cons_self)
  have hkind : SameKind (s.deploy (carryLinks org stack peers spec)).services := by
    intro svc hsvc svc' hsvc' ha hname
    rcases mem_deploy.mp hsvc with rfl | ⟨hin, hne⟩ <;>
      rcases mem_deploy.mp hsvc' with rfl | ⟨hin', hne'⟩
    · rfl
    · exact absurd ⟨ha.symm, hname.symm⟩ hne'
    · exact absurd ⟨ha, hname⟩ hne
    · exact h.kind svc hin svc' hin' ha hname
  refine h.goOn hkind (fun svc hsvc => ?_) ?_ (fun app ha => .inl ?_) (fun svc hsvc hout => ?_)
    fun app _ => keeps_refl _ app
  · rcases mem_deploy.mp hsvc with rfl | ⟨hsvc, -⟩
    · exact hnew
    · exact h.services svc hsvc
  · rcases hc with rfl | rfl
    · trivial
    · exact ⟨happ, hpeers, fun x hx => hplain x (mem_cons_of_mem _ hx)⟩
  · rcases hc with rfl | rfl
    · exact absurd ha not_mem_nil
    · rw [hn]
      exact ha
  · rcases mem_deploy.mp hsvc with rfl | ⟨hsvc, -⟩
    · exact absurd (hstack ▸ hin) hout
    · exact hsvc

theorem setCall_setCall (s : State) (n : Nat) (c c' : Call) :
    (s.setCall n c).setCall n c' = s.setCall n c' := by
  simp only [State.setCall, update_idem]

/-- The first app is done. -/
theorem Inv.second (h : Inv apps s)
    (hn : s.calls n = .leavingFirst org a b []) : Inv apps (s.setCall n (s.second org a b)) := by
  have hok := h.calls n
  rw [hn] at hok
  obtain ⟨happs, -, -, hfirst⟩ := hok
  obtain ⟨hpatches, htakes, hleaves⟩ := h.leaves a happs.2
  refine h.setCall ⟨happs, hpatches, hfirst, htakes, hleaves⟩ fun app ha => .inl ?_
  rw [hn]
  exact ha

/-- The first app goes on, or is done. -/
theorem Inv.first {todo : List Patch}
    (h : Inv apps (s.setCall n (.leavingFirst org a b todo))) :
    Inv apps (s.setCall n (if todo = [] then s.second org a b
      else .leavingFirst org a b todo)) := by
  cases todo with
  | nil =>
    have hsecond := h.second (update_self _ _ _)
    rw [setCall_setCall] at hsecond
    exact hsecond
  | cons p todo => exact h

theorem Inv.remove (h : Inv apps s) (svc : Service) :
    Inv apps { s with services := s.services.filter (· ≠ svc) } where
  kind x hx y hy := h.kind x (mem_of_mem_filter hx) y (mem_of_mem_filter hy)
  services x hx := h.services x (mem_of_mem_filter hx)
  calls n := (h.calls n).frame (fun _ hx _ => mem_of_mem_filter hx) fun app _ => keeps_refl _ app
  apart := h.apart

theorem inv_resume (h : Inv apps s) {fate : Fate} (hs : resume s n fate = some s') :
    Inv apps s' := by
  have hok := h.calls n
  unfold resume at hs
  split at hs
  · cases hs
  · rename_i org a b svcsA svcsB hn
    cases hs
    split
    · exact h.joins hn
    · exact h.idle n
  · cases hs
    exact h.idle n
  · rename_i org a b p todo hn
    rw [hn] at hok
    obtain ⟨hp, hin⟩ := hok p mem_cons_self
    have hin : (p.org, p.stack) ∈ (s.calls n).apps := by
      rw [hn]
      exact hin
    cases hs
    cases fate with
    | failed => exact h.idle n
    | lost => exact h.patched hp hin trivial fun _ ha => absurd ha not_mem_nil
    | ok =>
      refine h.patched hp hin (fun q hq => ?_) fun app ha => by rw [hn]; exact ha
      exact ⟨(hok q (mem_cons_of_mem _ hq)).1.patch, (hok q (mem_cons_of_mem _ hq)).2⟩
  · rename_i org a b hn
    rw [hn] at hok
    cases hs
    cases fate with
    | failed => exact h.idle n
    | lost => exact h.idle n
    | ok =>
      obtain ⟨hpatches, htakes, hleaves⟩ := h.leaves b hok.1
      refine Inv.first (h.setCall ⟨hok, hpatches, htakes, hleaves⟩ fun app ha => .inl ?_)
      rw [hn]
      exact ha
  · cases hs
  · rename_i org a b p todo hn
    rw [hn] at hok
    obtain ⟨happs, hpatches, htakes, hleaves⟩ := hok
    have hp := hpatches p mem_cons_self
    obtain ⟨happ, hnot⟩ := htakes p mem_cons_self
    have hin : (p.org, p.stack) ∈ (s.calls n).apps := by
      rw [hn, happ]
      exact mem_cons_self
    have hgo : Inv apps ((s.patch p).setCall n (.leavingFirst org a b todo)) := by
      refine h.patched hp hin ⟨happs, fun q hq => ?_, fun q hq => ?_, hleaves.patch hnot⟩
        fun app ha => by rw [hn]; exact ha
      · exact (hpatches q (mem_cons_of_mem _ hq)).patch
      · exact htakes q (mem_cons_of_mem _ hq)
    have hidle := h.patched hp hin (c := .idle) trivial fun _ ha => absurd ha not_mem_nil
    cases hs
    cases fate with
    | failed => exact h.idle n
    | lost => exact hidle
    | ok => exact hgo.first
  · rename_i org a b hn
    cases hs
    split
    · exact h.disconnected hn
    · exact h.idle n
  · rename_i org a b p todo hn
    rw [hn] at hok
    obtain ⟨happs, hpatches, hfirst, htakes, hleaves⟩ := hok
    have hp := hpatches p mem_cons_self
    obtain ⟨happ, hnot⟩ := htakes p mem_cons_self
    have hin : (p.org, p.stack) ∈ (s.calls n).apps := by
      rw [hn, happ]
      exact mem_cons_of_mem _ mem_cons_self
    cases hs
    cases fate with
    | failed => exact h.idle n
    | lost => exact h.patched hp hin trivial fun _ ha => absurd ha not_mem_nil
    | ok =>
      refine h.patched hp hin ⟨happs, fun q hq => ?_, hfirst.patch_ne ?_, fun q hq => ?_,
        hleaves.patch hnot⟩ fun app ha => by rw [hn]; exact ha
      · exact (hpatches q (mem_cons_of_mem _ hq)).patch
      · by_cases hab : a = b
        · exact .inl (hab ▸ hnot)
        · exact .inr fun he => hab (Prod.mk.inj (he.symm.trans happ)).2
      · exact htakes q (mem_cons_of_mem _ hq)
  · cases hs
    exact h.idle n
  · rename_i org stack peers spec todo hn
    cases hs
    cases fate with
    | failed => exact h.idle n
    | lost => exact h.deployed hn (.inl rfl)
    | ok => exact h.deployed hn (.inr rfl)

theorem linkPair_cases (a b : String) : linkPair a b = (a, b) ∨ linkPair a b = (b, a) := by
  unfold linkPair
  split
  · exact .inl rfl
  · exact .inr rfl

theorem Inv.connects (h : Inv apps s) (ha : (org, a) ∈ apps ∧ s.Free (org, a))
    (hb : (org, b) ∈ apps ∧ s.Free (org, b)) (hne : ¬(a = "" ∨ b = "" ∨ a = b)) :
    Inv apps (s.setCall n (.connecting org a b (s.live org a) (s.live org b))) := by
  have hlive : ∀ stack, ∀ svc ∈ s.live org stack, svc.app = (org, stack) ∧ svc.Ok apps s.linked :=
    fun stack svc hsvc => ⟨(mem_live.mp hsvc).2, h.services svc (mem_live.mp hsvc).1⟩
  simp only [not_or] at hne
  refine h.setCall ⟨⟨ha.1, hb.1, hne.2.2, hne.1, hne.2.1⟩, hlive a, hlive b,
    fun svc hsvc svc' hsvc' happ hname hl => ?_⟩ fun app happ => .inr ?_
  · have hmem : svc ∈ s.services := by
      rcases mem_append.mp hsvc with hin | hin
      · exact (mem_live.mp hin).1
      · exact (mem_live.mp hin).1
    exact (h.kind svc hmem svc' hsvc' happ hname).symm.trans hl
  · rcases mem_cons.mp happ with rfl | happ
    · exact ha.2
    · exact mem_singleton.mp happ ▸ hb.2

theorem Inv.disconnects (h : Inv apps s) (ha : (org, a) ∈ apps ∧ s.Free (org, a))
    (hb : (org, b) ∈ apps ∧ s.Free (org, b)) : Inv apps (s.setCall n (.disconnecting org a b)) := by
  refine h.setCall ⟨ha.1, hb.1⟩ fun app happ => .inr ?_
  rcases mem_cons.mp happ with rfl | happ
  · exact ha.2
  · exact mem_singleton.mp happ ▸ hb.2

theorem inv_step (h : Inv apps s) {m : Move} (hm : Careful apps s m) (hs : step s m = some s') :
    Inv apps s' := by
  cases m with
  | connect n org a b =>
    obtain ⟨ha, hb⟩ := hm
    simp only [step] at hs
    split at hs
    · rcases linkPair_cases a b with hpair | hpair
      · rw [hpair] at hs
        split at hs
        · cases hs
        · rename_i hgo
          cases hs
          exact h.connects ha hb fun hno => hgo (by tauto)
      · rw [hpair] at hs
        split at hs
        · cases hs
        · rename_i hgo
          cases hs
          exact h.connects hb ha fun hno => hgo (by tauto)
    · cases hs
  | disconnect n org a b =>
    obtain ⟨ha, hb⟩ := hm
    simp only [step] at hs
    split at hs
    · rcases linkPair_cases a b with hpair | hpair
      · rw [hpair] at hs
        split at hs
        · cases hs
        · cases hs
          exact h.disconnects ha hb
      · rw [hpair] at hs
        split at hs
        · cases hs
        · cases hs
          exact h.disconnects hb ha
    · cases hs
  | redeploy n org stack specs =>
    obtain ⟨⟨happ, hfree⟩, hspecs⟩ := hm
    simp only [step] at hs
    split at hs
    · cases hs
      refine h.setCall ⟨happ, peersOk_stackPeers fun svc hsvc => ?_, hspecs⟩ fun app ha => .inr ?_
      · exact ⟨(mem_live.mp hsvc).2, h.services svc (mem_live.mp hsvc).1⟩
      · exact mem_singleton.mp ha ▸ hfree
    · cases hs
  | resume n fate => exact inv_resume h hs
  | remove svc =>
    cases hs
    exact h.remove svc

theorem Inv.isPrivate (h : Inv apps s) (hnames : NamesDiffer apps) : Private apps s where
  attached svc hsvc org a b hpair hmem := by
    obtain ⟨hnets, happ, hpeers⟩ := h.services svc hsvc
    rw [hnets] at hmem
    obtain ⟨p, hp, hname⟩ := Finset.mem_image.mp hmem
    obtain ⟨hin, hl⟩ := happ (Finset.ne_empty_of_mem hp)
    obtain ⟨hlinked, hpin⟩ := hpeers p hp
    obtain ⟨rfl, ⟨hstack, rfl⟩ | ⟨hstack, rfl⟩⟩ := hnames _ _ _ _ _ _ hpin hpair hname
    · exact ⟨rfl, .inl hstack, hl, hstack ▸ hlinked⟩
    · exact ⟨rfl, .inr hstack, hl, hstack ▸ hlinked.symm⟩
  agree svc hsvc := (h.services svc hsvc).nets

/-! ## One overlay of two pairs -/

/-- The names differ where the hashes do. -/
theorem namesDiffer_iff : NamesDiffer apps ↔ HashesDiffer apps := by
  constructor
  · intro h org a b org' a' b' hp hq h₁ h₂
    refine h org a b org' a' b' hp hq ?_
    rw [linkNetworkName, linkNetworkName, fnv64hex, fnv64hex, h₁, h₂]
  · intro h org a b org' a' b' hp hq hname
    obtain ⟨h₁, h₂⟩ := halves_of_linkNetworkName hname
    exact h org a b org' a' b' hp hq h₁ h₂

/-- No call is under way. -/
def quiet (services : List Service) (linked : List (String × String × String)) : State :=
  ⟨services, fun _ => .idle, linked⟩

theorem quiet_setCall (s : State) (hs : ∀ m, m ≠ n → s.calls m = .idle) :
    s.setCall n .idle = quiet s.services s.linked := by
  have hcalls : update s.calls n .idle = fun _ => .idle := by
    funext m
    rw [update_apply]
    split
    · rfl
    · exact hs m (by assumption)
  simp only [State.setCall, quiet, hcalls]

theorem free_quiet (services : List Service) (linked : List (String × String × String))
    (app : String × String) : (quiet services linked).Free app := fun _ h => absurd h not_mem_nil

/-- An app service that a compose file without links deploys. -/
def webOf (org stack : String) : Service := ⟨org, stack, "web", true, ∅, ∅⟩

theorem stackPeers_eq_empty (h : ∀ svc ∈ svcs, svc.links = ∅) : stackPeers svcs = ∅ := by
  refine Finset.eq_empty_of_forall_notMem fun p hp => ?_
  obtain ⟨svc, hsvc, hp⟩ := mem_stackPeers.mp hp
  rw [h svc hsvc] at hp
  exact Finset.notMem_empty p hp

/-- A redeploy of an app that has no links. -/
theorem reach_web {s₀ : State} (h : Reach apps s₀ (quiet services linked))
    (happ : (org, stack) ∈ apps)
    (hlinks : ∀ svc ∈ services, svc.links = ∅) :
    Reach apps s₀ (quiet ((quiet services linked).deploy (webOf org stack)).services linked) := by
  have hpeers : stackPeers ((quiet services linked).live org stack) = ∅ :=
    stackPeers_eq_empty fun svc hsvc => hlinks svc (mem_live.mp hsvc).1
  have h₁ : Reach apps s₀ ((quiet services linked).setCall 0
      (.deploying org stack ∅ [⟨"web", true, ∅, ∅⟩])) := by
    refine .step (.redeploy 0 org stack [⟨"web", true, ∅, ∅⟩]) h ⟨⟨happ, free_quiet _ _ _⟩, ?_⟩ ?_
    · intro spec hspec
      rw [mem_singleton.mp hspec]
      exact ⟨rfl, rfl⟩
    · rw [← hpeers]
      rfl
  refine .step (.resume 0 .lost) h₁ trivial ?_
  have hstep := quiet_setCall (n := 0) (((quiet services linked).setCall 0
    (.deploying org stack ∅ [⟨"web", true, ∅, ∅⟩])).deploy (webOf org stack)) fun m hm => ?_
  · exact congrArg some hstep
  · exact update_of_ne hm _ _

/-- Two apps are deployed and connected, and a service of one of them is on the overlay. -/
theorem exists_attached (hfresh : ∀ svc ∈ services, svc.links = ∅ ∧ svc.nets = ∅)
    (hpair : Pair apps org a b) (hcanon : linkPair a b = (a, b)) :
    ∃ s, Reach apps (start services) s ∧ s.linked = [(org, a, b)] ∧
      ∃ svc ∈ s.services, linkNetworkName org a b ∈ svc.nets := by
  have hlinks : ∀ svc ∈ services, svc.links = ∅ := fun svc hsvc => (hfresh svc hsvc).1
  have hb : Reach apps (start services)
      (quiet ((quiet services []).deploy (webOf org b)).services []) :=
    reach_web .start hpair.right hlinks
  have hlinks' : ∀ svc ∈ ((quiet services []).deploy (webOf org b)).services, svc.links = ∅ := by
    intro svc hsvc
    rcases mem_deploy.mp hsvc with rfl | ⟨hsvc, -⟩
    · rfl
    · exact hlinks svc hsvc
  have ha := reach_web hb hpair.left hlinks'
  set S := ((quiet ((quiet services []).deploy (webOf org b)).services []).deploy
    (webOf org a)).services with hS
  have hliveA : ∃ rest, (quiet S []).live org a = webOf org a :: rest :=
    ⟨_, filter_cons_of_pos (by simp [webOf])⟩
  have hliveB : (quiet S []).live org b ≠ [] := by
    refine ne_nil_of_mem (a := webOf org b) (mem_live.mpr ⟨?_, rfl⟩)
    refine mem_deploy.mpr (.inr ⟨mem_deploy.mpr (.inl rfl), fun hsame => hpair.ne ?_⟩)
    exact (Prod.mk.inj hsame.1).2.symm
  obtain ⟨restA, hliveA⟩ := hliveA
  have hconnect : Reach apps (start services) ((quiet S []).setCall 0
      (.connecting org a b ((quiet S []).live org a) ((quiet S []).live org b))) := by
    refine .step (.connect 0 org a b) ha
      ⟨⟨hpair.left, free_quiet _ _ _⟩, hpair.right, free_quiet _ _ _⟩ ?_
    simp only [step, quiet]
    rw [hcanon]
    refine if_neg ?_
    simp only [not_or]
    refine ⟨hpair.named.1, hpair.named.2, hpair.ne, ?_, hliveB⟩
    exact fun hnil => cons_ne_nil _ _ (hliveA.symm.trans hnil)
  have hjoin : Reach apps (start services) _ := .step (.resume 0 .ok) hconnect trivial rfl
  obtain ⟨todo, htodo⟩ : ∃ todo, applyPeers ((quiet S []).live org a) (insert b) ++
      applyPeers ((quiet S []).live org b) (insert a) = linkPatch (webOf org a)
        (insert b (stackPeers ((quiet S []).live org a))) :: todo := by
    rw [hliveA, applyPeers, filter_cons_of_pos (by rfl), filter_cons_of_pos ?_]
    · exact ⟨_, rfl⟩
    · simp [webOf, (Finset.insert_ne_empty _ _).symm]
  rw [htodo] at hjoin
  refine ⟨_, .step (.resume 0 .lost) hjoin trivial rfl, rfl, ?_⟩
  refine ⟨_, mem_patch.mpr (.inr ⟨webOf org a, mem_deploy.mpr (.inl rfl), ?_, rfl⟩), ?_⟩
  · exact isFor_linkPatch.mpr ⟨rfl, rfl⟩
  · exact Finset.mem_union_right _ (Finset.mem_image_of_mem _ (Finset.mem_insert_self _ _))

theorem unitsLe_total (xs ys : List Nat) : unitsLe xs ys = true ∨ unitsLe ys xs = true := by
  induction xs generalizing ys with
  | nil => exact .inl rfl
  | cons x xs ih =>
    cases ys with
    | nil => exact .inr rfl
    | cons y ys =>
      simp only [unitsLe, Bool.or_eq_true, Bool.and_eq_true, decide_eq_true_eq, beq_iff_eq]
      rcases lt_trichotomy x y with hlt | rfl | hlt
      · exact .inl (.inl hlt)
      · exact (ih ys).imp (fun h => .inr ⟨rfl, h⟩) fun h => .inr ⟨rfl, h⟩
      · exact .inr (.inl hlt)

/-- A pair has an order, in which it has the same overlay. -/
theorem exists_linkPair (org a b : String) : ∃ x y, linkPair x y = (x, y) ∧
    linkNetworkName org x y = linkNetworkName org a b ∧ (x = a ∧ y = b ∨ x = b ∧ y = a) := by
  by_cases hle : unitsLe (codeUnits a) (codeUnits b) = true
  · exact ⟨a, b, if_pos hle, rfl, .inl ⟨rfl, rfl⟩⟩
  · have hge := (unitsLe_total (codeUnits a) (codeUnits b)).resolve_left hle
    have hpair : linkPair a b = (b, a) := if_neg hle
    have hpair' : linkPair b a = (b, a) := if_pos hge
    refine ⟨b, a, hpair', ?_, .inr ⟨rfl, rfl⟩⟩
    rw [linkNetworkName, linkNetworkName, linkInput, linkInput, hpair, hpair']

/-- Pairs with one overlay: a service of the one is on the overlay of the other. -/
theorem namesDiffer_of_private (hfresh : ∀ svc ∈ services, svc.links = ∅ ∧ svc.nets = ∅)
    (h : ∀ s, Reach apps (start services) s → Private apps s) : NamesDiffer apps := by
  intro org a b org' a' b' hp hq hname
  obtain ⟨x, y, hcanon, hsame, hxy⟩ := exists_linkPair org a b
  have hpair : Pair apps org x y := by
    rcases hxy with ⟨rfl, rfl⟩ | ⟨rfl, rfl⟩
    · exact hp
    · exact hp.symm
  obtain ⟨s, hreach, hlinked, svc, hsvc, hon⟩ := exists_attached hfresh hpair hcanon
  rw [hsame, hname] at hon
  obtain ⟨-, -, -, hl⟩ := (h s hreach).attached svc hsvc org' a' b' hq hon
  have hback : org = org' ∧ (x = a' ∧ y = b' ∨ x = b' ∧ y = a') := by
    simp only [Linked, hlinked, mem_singleton, Prod.mk.injEq] at hl
    tauto
  rcases hxy with ⟨rfl, rfl⟩ | ⟨rfl, rfl⟩
  · exact hback
  · exact ⟨hback.1, by tauto⟩

/-- The apps of one organisation. -/
def siteApps : Set (String × String) := {("org", "billing"), ("org", "shop")}

def siteServices : List Service :=
  [⟨"org", "shop", "shop_web", true, ∅, ∅⟩, ⟨"org", "billing", "billing_api", true, ∅, ∅⟩]

theorem siteApps_cases (h : (org, a) ∈ siteApps) : org = "org" ∧ (a = "billing" ∨ a = "shop") := by
  rcases h with h | h
  · exact ⟨(Prod.mk.inj h).1, .inl (Prod.mk.inj h).2⟩
  · exact ⟨(Prod.mk.inj h).1, .inr (Prod.mk.inj h).2⟩

/-- There is one pair of apps. -/
theorem siteApps_hashesDiffer : HashesDiffer siteApps := by
  have hpair {org a b : String} (h : Pair siteApps org a b) :
      org = "org" ∧ (a = "billing" ∧ b = "shop" ∨ a = "shop" ∧ b = "billing") := by
    obtain ⟨rfl, ha⟩ := siteApps_cases h.left
    obtain ⟨-, hb⟩ := siteApps_cases h.right
    have hne := h.ne
    rcases ha with rfl | rfl <;> rcases hb with rfl | rfl
    · exact absurd rfl hne
    · exact ⟨rfl, .inl ⟨rfl, rfl⟩⟩
    · exact ⟨rfl, .inr ⟨rfl, rfl⟩⟩
    · exact absurd rfl hne
  intro org a b org' a' b' hp hq _ _
  obtain ⟨rfl, hab⟩ := hpair hp
  obtain ⟨rfl, hab'⟩ := hpair hq
  refine ⟨rfl, ?_⟩
  rcases hab with ⟨rfl, rfl⟩ | ⟨rfl, rfl⟩ <;> rcases hab' with ⟨rfl, rfl⟩ | ⟨rfl, rfl⟩ <;> simp

theorem siteServices_kind : SameKind siteServices := by
  have hall : ∀ svc ∈ siteServices, svc.linkable = true := by decide
  intro svc hsvc svc' hsvc' _ _
  rw [hall svc hsvc, hall svc' hsvc']

end Swarmy.Links
