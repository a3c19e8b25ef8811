import Mathlib.Algebra.GroupWithZero.Nat
import Mathlib.Data.List.Dedup
import Mathlib.Data.List.DropRight
import Mathlib.Data.List.Infix
import Mathlib.Tactic.Common

/-!
# Image clean-up

The controller plans from the live inventory and the history of builds, and each node prunes its
own images by the plan it is sent.
-/

namespace Images

open List Option

abbrev Text := List Char

def text (s : String) : Text := s.toList

def includes (s t : Text) : Bool := s.tails.any (t.isPrefixOf ·)

/-- The text behind the last `@`. -/
def bareDigest (ref : Text) : Text := ref.rtakeWhile (· ≠ '@')

/-! ## A node's images -/

structure RawImage where
  Id : Text
  RepoTags : Option (List Text)
  RepoDigests : Option (List Text)
  /-- In seconds. -/
  Created : Option Nat
  Size : Option Nat

inductive Strategy where
  | dangling
  | until_
  | allExceptKeep
deriving DecidableEq

structure PruneImagesPayload where
  keepDigests : List Text
  repoPrefix : Option Text
  strategy : Strategy
  untilDays : Option Nat
  dryRun : Bool
  builderCapable : Option Bool

structure PrunedImage where
  id : Text
  digest : Option Text
  tags : List Text
  sizeBytes : Nat

def normalizeDigest (ref : Text) : Text := bareDigest ref

def imageDigests (img : RawImage) : List Text :=
  (((img.RepoDigests.getD []).filterMap fun (rd : Text) => (rd.splitOn '@')[1]?).filter (· ≠ []) ++
    if (text "sha256:").isPrefixOf img.Id then [img.Id] else []).dedup

def toPrunedImage (img : RawImage) : PrunedImage where
  id := img.Id
  digest := (imageDigests img).head?
  tags := img.RepoTags.getD []
  sizeBytes := img.Size.getD 0

def inScope (p : PruneImagesPayload) (img : RawImage) : Bool :=
  match p.repoPrefix with
  | none | some [] => true
  | some pre => (img.RepoTags.getD []).any (pre.isPrefixOf ·) ||
    (img.RepoDigests.getD []).any (pre.isPrefixOf ·)

def isDangling (img : RawImage) : Bool :=
  (img.RepoTags.getD []).all fun t => (text ":<none>").isSuffixOf t || t = text "<none>:<none>"

def DAY_MS : Int := 24 * 60 * 60 * 1000

/-- `shouldRemove`. -/
def stale (p : PruneImagesPayload) (nowMs : Int) (img : RawImage) : Bool :=
  match p.strategy with
  | .dangling => isDangling img
  | .until_ =>
    let createdMs : Int := img.Created.getD 0 * 1000
    0 < createdMs && createdMs < nowMs - p.untilDays.getD 0 * DAY_MS
  | .allExceptKeep => true

def keeps (p : PruneImagesPayload) (img : RawImage) : Bool :=
  (imageDigests img).any fun d =>
    ((p.keepDigests.filter (· ≠ [])).map normalizeDigest).contains (normalizeDigest d)

def selects (p : PruneImagesPayload) (nowMs : Int) (img : RawImage) : Bool :=
  !(!inScope p img || keeps p img) && stale p nowMs img

/-- The images to remove, and those to keep. -/
def selectImagesToPrune (images : List RawImage) (p : PruneImagesPayload) (nowMs : Int) :
    List PrunedImage × List PrunedImage :=
  ((images.filter (selects p nowMs)).map toPrunedImage,
    (images.filter (!selects p nowMs ·)).map toPrunedImage)

structure PruneImagesResult where
  removed : List PrunedImage
  kept : List PrunedImage
  reclaimedBytes : Nat
  dryRun : Bool

/-- `refuses` are the images that Docker will not remove without force. -/
def pruneImages (refuses : Text → Bool) (images : List RawImage) (p : PruneImagesPayload)
    (nowMs : Int) :
    PruneImagesResult :=
  let (remove, keep) := selectImagesToPrune images p nowMs
  let removed := remove.filter fun img => p.dryRun || !refuses img.id
  { removed
    kept := keep ++ remove.filter fun img => !(p.dryRun || !refuses img.id)
    reclaimedBytes := (removed.map (·.sizeBytes)).sum
    dryRun := p.dryRun }

/-! ## Nodes -/

inductive BuildOverride where
  | allow
  | deny

structure Node where
  id : Text
  org : Text
  online : Bool
  labels : List (Text × Text)
  /-- The override that the agent has reported. -/
  buildOverride : Option BuildOverride
  /-- The override it has. -/
  BUILD_OVERRIDE : Option BuildOverride
  images : List RawImage
  refuses : Text → Bool
  /-- A command that is dispatched reaches the agent. -/
  reached : Bool

def hasBuilderLabel (labels : List (Text × Text)) : Bool :=
  labels.lookup (text "swarmy.node.builder") = some (text "true") ||
    labels.lookup (text "swarmy.role") = some (text "builder")

def isBuilderCapable (labels : List (Text × Text)) : Option BuildOverride → Bool
  | some .deny => false
  | some .allow => true
  | none => hasBuilderLabel labels

def buildGateAllows (override : Option BuildOverride) (builderCapable : Option Bool) : Bool :=
  match override with
  | some .deny => false
  | some .allow => true
  | none => builderCapable = some true

/-- Does the agent run the command? -/
def Node.runs (n : Node) (p : PruneImagesPayload) : Bool :=
  n.reached && p.untilDays ≠ some 0 &&
    (p.strategy = .dangling || buildGateAllows n.BUILD_OVERRIDE p.builderCapable)

/-- The command on the node: its answer. -/
def Node.prune (n : Node) (p : PruneImagesPayload) (nowMs : Int) : Option PruneImagesResult :=
  if n.runs p then some (pruneImages n.refuses n.images p nowMs) else none

/-- The images that the command removes. -/
def Node.removed (n : Node) (p : PruneImagesPayload) (nowMs : Int) : List RawImage :=
  n.images.filter fun img => n.runs p && !p.dryRun && selects p nowMs img && !n.refuses img.Id

/-- The images that it leaves. -/
def Node.left (n : Node) (p : PruneImagesPayload) (nowMs : Int) : List RawImage :=
  n.images.filter fun img => !(n.runs p && !p.dryRun && selects p nowMs img && !n.refuses img.Id)

/-! ## The plan -/

structure SwarmServiceInfo where
  id : Text
  image : Text

structure ContainerInfo where
  image : Text
  serviceId : Option Text
  labels : List (Text × Text)

/-- `liveInventory` of an organisation. -/
structure Inventory where
  services : List SwarmServiceInfo
  containers : List ContainerInfo

def ContainerInfo.service (c : ContainerInfo) : Option Text :=
  c.serviceId.or (c.labels.lookup (text "com.docker.swarm.service.id"))

/-- The containers that `buildInventory` lists with a service. -/
def Inventory.containersOf (inv : Inventory) (s : SwarmServiceInfo) : List ContainerInfo :=
  inv.containers.filter fun c => s.id ≠ [] && c.service = some s.id

/-- The digest of a reference with one. -/
def pinnedDigest (image : Text) : Option Text :=
  if includes image (text "@sha256:") then some (bareDigest image) else none

def computePinnedDigests (inv : Inventory) : List Text :=
  inv.services.flatMap fun s =>
    (pinnedDigest s.image).toList ++ (inv.containersOf s).filterMap fun c => pinnedDigest c.image

inductive GcMode where
  | onHealthcheck
  | ageDays
deriving DecidableEq

structure ImageGcPolicy where
  mode : GcMode
  days : Option Nat
  keepProd : Bool

/-- A row of the query for builds that succeeded. -/
structure Build where
  image : Text
  finishedAt : Option Int

structure GcPlan where
  remove : List Text
  pinned : List Text

def computeGcPlan (policy : ImageGcPolicy) (pinnedDigests : List Text) (candidates : List Build)
    (now : Int) :
    GcPlan :=
  let pinned := if policy.keepProd then pinnedDigests.map bareDigest else []
  let unpinned : List Build := candidates.filter fun b =>
    (pinnedDigest b.image).any fun d => d ≠ [] && !pinned.contains (bareDigest d)
  let remove : List Build := match policy.mode with
    | .ageDays => unpinned.filter fun b =>
        0 < b.finishedAt.getD 0 && b.finishedAt.getD 0 < now - policy.days.getD 0 * DAY_MS
    | .onHealthcheck => unpinned
  ⟨(remove.map fun b => bareDigest b.image).dedup, pinned⟩

def canonicalRegistryHost (stored : Text) : Text :=
  if stored = [] ∨ stored = text "swarmy-registry:5000" then text "localhost:5000" else stored

/-- `reg` is the host of the organisation's registry row. -/
def gcPayload (policy : ImageGcPolicy) (reg : Option Text) (dryRun : Bool) (keep : List Text) :
    PruneImagesPayload where
  keepDigests := keep
  repoPrefix := reg.map fun host => canonicalRegistryHost host ++ ['/']
  strategy := match policy.mode with
    | .ageDays => .until_
    | .onHealthcheck => .allExceptKeep
  untilDays := policy.days
  dryRun := dryRun
  builderCapable := some true

/-- The commands of a run for one organisation. -/
def runImageGcForOrg (policy : Option ImageGcPolicy) (builds : List Build) (inv : Inventory)
    (reg : Option Text)
    (nodes : List Node) (dryRun : Bool) (now : Int) : List (Node × PruneImagesPayload) :=
  match policy with
  | none => []
  | some policy =>
    if policy.mode = .ageDays ∧ policy.days.getD 0 = 0 then []
    else
      let plan := computeGcPlan policy (computePinnedDigests inv) builds now
      if plan.remove = [] then []
      else (nodes.filter fun n => n.online &&
        isBuilderCapable n.labels n.buildOverride).map fun n =>
        (n, gcPayload policy reg dryRun plan.pinned)

def danglingPayload (keep : List Text) : PruneImagesPayload :=
  ⟨keep, none, .dangling, none, false, none⟩

def pruneDanglingEverywhere (live : Text → Inventory) (nodes : List Node) :
    List (Node × PruneImagesPayload) :=
  (nodes.filter (·.online)).map fun n => (n, danglingPayload (computePinnedDigests (live n.org)))

end Images

/-!
## What a clean-up removes

`kept_iff`: the commands of a pass remove no image that is referenced and, with a policy for
builds, only images of the organisation's registry, exactly where the live inventory pins every
such image that a node would remove with nothing pinned.
-/

namespace Images

/-! ## The words of the statement -/

/-- The digest that a reference names an image by. -/
def refDigest (ref : Text) : Option Text :=
  if (text "sha256:").isPrefixOf ref then some ref else pinnedDigest ref

def Names (ref : Text) (img : RawImage) : Prop :=
  ∃ d ∈ refDigest ref, d ∈ (imageDigests img).map normalizeDigest

/-- An image has a name in the registry. -/
def OfRegistry (reg : Option Text) (img : RawImage) : Prop :=
  ∃ host ∈ reg, ∃ t ∈ img.RepoTags.getD [] ++ img.RepoDigests.getD [],
    canonicalRegistryHost host ++ ['/'] <+: t

/-- A reference with a digest has it behind the last `@`. -/
def HasDigest (image d : Text) : Prop :=
  text "@sha256:" <:+: image ∧ ∃ name, image = name ++ '@' :: d ∧ '@' ∉ d

/-- A service of the inventory, or a container that runs for one, is of the digest. -/
def Inventory.Shows (inv : Inventory) (d : Text) : Prop :=
  ∃ s ∈ inv.services, HasDigest s.image d ∨
    s.id ≠ [] ∧ ∃ c ∈ inv.containers, c.service = some s.id ∧ HasDigest c.image d

/-- The inventory shows a digest of the image. -/
def InUse (inv : Inventory) (img : RawImage) : Prop :=
  ∃ d, d ≠ [] ∧ inv.Shows d ∧ d ∈ (imageDigests img).map normalizeDigest

/-- A time is so many days back. -/
def Aged (days : Option Nat) (now t : Int) : Prop := 0 < t ∧ t < now - days.getD 0 * DAY_MS

/-- There is a build to reclaim: it has a digest that need not stay, and is of age. -/
def ImageGcPolicy.Reclaims (policy : ImageGcPolicy) (inv : Inventory) (builds : List Build)
    (now : Int) : Prop :=
  ∃ b ∈ builds, (∃ d, d ≠ [] ∧ HasDigest b.image d ∧ ¬ (policy.keepProd = true ∧ inv.Shows d)) ∧
    (policy.mode = .ageDays → Aged policy.days now (b.finishedAt.getD 0))

/-- What sends commands to prune. -/
inductive Pass where
  | gc (org : Text) (policy : Option ImageGcPolicy) (builds : List Build) (reg : Option Text)
    (dryRun : Bool)
  | dangling

section

variable (live : Text → Inventory) (nodes : List Node) (now : Int)

def Pass.sent : Pass → List (Node × PruneImagesPayload)
  | .gc org policy builds reg dryRun =>
    runImageGcForOrg policy builds (live org) reg (nodes.filter (·.org = org)) dryRun now
  | .dangling => pruneDanglingEverywhere live nodes

/-- Are the digests of the live inventory pinned? -/
def Pass.keepProd : Pass → Bool
  | .gc _ (some policy) _ _ _ => policy.keepProd
  | .gc _ none _ _ _ | .dangling => true

/-- Is the command of a policy for builds, of an organisation without a registry? -/
def Pass.unscoped : Pass → Bool
  | .gc _ _ _ none _ => true
  | .gc _ _ _ (some _) _ | .dangling => false

/-- The nodes that run a command of the pass which removes images. -/
def Pass.Runs : Pass → Node → Prop
  | .gc org policy builds _ dryRun, n => ∃ pol, policy = some pol ∧
      ((pol.mode = .ageDays → pol.days ≠ none) ∧ pol.days ≠ some 0 ∧
        pol.Reclaims (live org) builds now) ∧
      (n.org = org ∧ n.online = true ∧ isBuilderCapable n.labels n.buildOverride = true) ∧
      n.reached = true ∧ n.BUILD_OVERRIDE ≠ some .deny ∧ dryRun = false
  | .dangling, n => n.online = true ∧ n.reached = true

/-- The images the pass is after. -/
def Pass.After : Pass → RawImage → Prop
  | .gc _ policy _ reg _, img => ∃ pol, policy = some pol ∧ (reg.isSome → OfRegistry reg img) ∧
      (pol.mode = .ageDays → Aged pol.days now (img.Created.getD 0 * 1000))
  | .dangling, img => ∀ t ∈ img.RepoTags.getD [], text ":<none>" <:+ t

/-- `refs` are what the services and the running containers of an organisation reference. -/
structure Kept (refs : Text → List Text) (pass : Pass) : Prop where
  unreferenced : ∀ n p, (n, p) ∈ pass.sent live nodes now → ∀ img ∈ n.removed p now,
    ∀ ref ∈ refs n.org, ¬ Names ref img
  ofRegistry : ∀ org policy builds reg dryRun, pass = .gc org policy builds reg dryRun → ∀ n p,
    (n, p) ∈ pass.sent live nodes now → ∀ img ∈ n.removed p now, OfRegistry reg img
  settled : ∀ n p, (n, p) ∈ pass.sent live nodes now → n.runs p = true → p.dryRun = false →
    ∀ img ∈ (selectImagesToPrune (n.left p now) p now).1, n.refuses img.id = true

/-- Every image that a node would remove, and may not, is one that the live inventory shows. -/
structure Pinned (refs : Text → List Text) (pass : Pass) : Prop where
  referenced : ∀ n ∈ nodes, pass.Runs live now n → ∀ img ∈ n.images, pass.After now img →
    n.refuses img.Id = false → ∀ ref ∈ refs n.org, Names ref img → pass.keepProd = true ∧
      InUse (live n.org) img
  unscoped : pass.unscoped = true → ∀ n ∈ nodes, pass.Runs live now n → ∀ img ∈ n.images,
    pass.After now img → n.refuses img.Id = false → pass.keepProd = true ∧ InUse (live n.org) img

end

/-! ## One command -/

section

variable {n : Node} {p : PruneImagesPayload} {now : Int} {img : RawImage}

theorem mem_removed : img ∈ n.removed p now ↔ img ∈ n.images ∧ n.runs p = true ∧ p.dryRun = false ∧
    selects p now img = true ∧ n.refuses img.Id = false := by
  simp [Node.removed, and_assoc]

/-- The agent reports what it has removed. -/
theorem prune_removed {r : PruneImagesResult} (h : n.prune p now = some r)
    (hdry : p.dryRun = false) :
    r.removed = (n.removed p now).map toPrunedImage := by
  unfold Node.prune at h
  split_ifs at h with hruns
  obtain rfl := Option.some.inj h
  show ((n.images.filter (selects p now)).map toPrunedImage).filter _ = _
  rw [List.filter_map, List.filter_filter]
  refine congrArg (List.map toPrunedImage) (List.filter_congr fun img _ => ?_)
  simp [hdry, hruns, toPrunedImage, Bool.and_comm]

theorem runs_keepDigests (keep : List Text) : n.runs { p with keepDigests := keep } = n.runs p :=
  rfl

theorem selects_iff : selects p now img = true ↔
    selects { p with keepDigests := [] } now img = true ∧ keeps p img = false := by
  have hnone : keeps { p with keepDigests := [] } img = false := by simp [keeps]
  have hscope : inScope { p with keepDigests := [] } img = inScope p img := rfl
  have hstale : stale { p with keepDigests := [] } now img = stale p now img := rfl
  rw [selects, selects, hnone, hscope, hstale]
  cases inScope p img <;> cases keeps p img <;> simp

theorem removed_iff : img ∈ n.removed p now ↔
    img ∈ n.removed { p with keepDigests := [] } now ∧ keeps p img = false := by
  rw [mem_removed, mem_removed, selects_iff, runs_keepDigests]
  tauto

/-- What is selected again was refused. -/
theorem refused_of_left (hruns : n.runs p = true) (hdry : p.dryRun = false) :
    ∀ v ∈ (selectImagesToPrune (n.left p now) p now).1, n.refuses v.id = true := by
  intro v hv
  obtain ⟨img, himg, rfl⟩ := List.mem_map.1 hv
  obtain ⟨hleft, hsel⟩ := List.mem_filter.1 himg
  have hno := (List.mem_filter.1 hleft).2
  rw [hruns, hdry, hsel] at hno
  show n.refuses img.Id = true
  simpa using hno

theorem keeps_eq_true : keeps p img = true ↔
    ∃ d ∈ p.keepDigests, d ≠ [] ∧ normalizeDigest d ∈ (imageDigests img).map normalizeDigest := by
  unfold keeps
  rw [List.any_eq_true]
  constructor
  · rintro ⟨d, hd, hkeep⟩
    obtain ⟨k, hk, heq⟩ := List.mem_map.1 (List.contains_iff_mem.1 hkeep)
    obtain ⟨hk, hne⟩ := List.mem_filter.1 hk
    exact ⟨k, hk, of_decide_eq_true hne, List.mem_map.2 ⟨d, hd, heq.symm⟩⟩
  · rintro ⟨k, hk, hne, hmem⟩
    obtain ⟨d, hd, heq⟩ := List.mem_map.1 hmem
    exact ⟨d, hd, List.contains_iff_mem.2
      (List.mem_map.2 ⟨k, List.mem_filter.2 ⟨hk, decide_eq_true hne⟩, heq.symm⟩)⟩

end

/-! ## A pass -/

section

variable {live : Text → Inventory} {nodes : List Node} {now : Int} {refs : Text → List Text}
    {pass : Pass}
  {n : Node} {p : PruneImagesPayload} {img : RawImage}

theorem includes_iff {s t : Text} : includes s t = true ↔ t <:+: s := by
  rw [includes, List.any_eq_true, List.infix_iff_prefix_suffix]
  exact exists_congr fun u => by rw [List.mem_tails, List.isPrefixOf_iff_prefix, and_comm]

theorem bareDigest_append {name d : Text} (hd : '@' ∉ d) : bareDigest (name ++ '@' :: d) = d := by
  have hall : ∀ c ∈ d.reverse, (c ≠ '@' : Bool) = true := fun c hc =>
    decide_eq_true fun heq => hd (heq ▸ List.mem_reverse.1 hc)
  rw [bareDigest, List.rtakeWhile, List.reverse_append, List.reverse_cons, List.append_assoc,
    List.takeWhile_append_of_pos hall]
  simp

theorem pinnedDigest_eq_some {image d : Text} :
    pinnedDigest image = some d ↔ HasDigest image d := by
  unfold pinnedDigest HasDigest
  rw [← includes_iff]
  constructor
  · intro h
    split_ifs at h with hin
    refine ⟨hin, ?_⟩
    have hat : '@' ∈ image.reverse := List.mem_reverse.2 ((includes_iff.1 hin).subset (by decide))
    obtain ⟨back, front, heq, hback⟩ := List.eq_append_cons_of_mem hat
    have himage : image = front.reverse ++ '@' :: back.reverse := by
      rw [← List.reverse_reverse image, heq]
      simp
    have hback' : '@' ∉ back.reverse := fun hmem => hback (List.mem_reverse.1 hmem)
    rw [himage, bareDigest_append hback', Option.some.injEq] at h
    exact ⟨front.reverse, h ▸ himage, h ▸ hback'⟩
  · rintro ⟨hin, name, rfl, hd⟩
    rw [if_pos hin, bareDigest_append hd]

theorem mem_computePinnedDigests {inv : Inventory} {d : Text} :
    d ∈ computePinnedDigests inv ↔ inv.Shows d := by
  rw [computePinnedDigests, List.mem_flatMap]
  refine exists_congr fun s => and_congr_right fun _ => ?_
  rw [List.mem_append, Option.mem_toList, pinnedDigest_eq_some, List.mem_filterMap]
  refine or_congr_right ?_
  simp only [Inventory.containersOf, List.mem_filter, Bool.and_eq_true, decide_eq_true_eq,
    pinnedDigest_eq_some]
  constructor
  · rintro ⟨c, ⟨hc, hid, hs⟩, hd⟩
    exact ⟨hid, c, hc, hs, hd⟩
  · rintro ⟨hid, c, hc, hs, hd⟩
    exact ⟨c, ⟨hc, hid, hs⟩, hd⟩

theorem bareDigest_of_mem {inv : Inventory} {d : Text} (h : d ∈ computePinnedDigests inv) :
    bareDigest d = d := by
  have hself {image : Text} (h : HasDigest image d) : bareDigest d = d := by
    obtain ⟨-, -, -, hd⟩ := h
    exact List.rtakeWhile_eq_self_iff.2 fun c hc => decide_eq_true fun heq => hd (heq ▸ hc)
  obtain ⟨s, -, hs | ⟨-, c, -, -, hc⟩⟩ := mem_computePinnedDigests.1 h
  · exact hself hs
  · exact hself hc

theorem map_bareDigest (inv : Inventory) :
    (computePinnedDigests inv).map bareDigest = computePinnedDigests inv := by
  rw [List.map_congr_left fun _ h => bareDigest_of_mem h, List.map_id']

/-- What a command keeps. -/
theorem keepDigests_of_sent (h : (n, p) ∈ pass.sent live nodes now) :
    p.keepDigests = if pass.keepProd then computePinnedDigests (live n.org) else [] := by
  cases pass with
  | dangling =>
    obtain ⟨n', -, heq⟩ := List.mem_map.1 h
    obtain ⟨rfl, rfl⟩ := Prod.mk.inj heq
    rfl
  | gc org policy builds reg dryRun =>
    cases policy with
    | none => cases h
    | some policy =>
      simp only [Pass.sent, runImageGcForOrg] at h
      split_ifs at h with hdays hremove
      · cases h
      · cases h
      · obtain ⟨n', hn, heq⟩ := List.mem_map.1 h
        obtain ⟨rfl, rfl⟩ := Prod.mk.inj heq
        have horg := of_decide_eq_true (List.mem_filter.1 (List.mem_filter.1 hn).1).2
        subst horg
        show (if policy.keepProd then (computePinnedDigests (live n'.org)).map bareDigest else []) =
            _
        rw [map_bareDigest]
        rfl

theorem keeps_iff (h : (n, p) ∈ pass.sent live nodes now) :
    keeps p img = true ↔ pass.keepProd = true ∧ InUse (live n.org) img := by
  rw [keeps_eq_true, keepDigests_of_sent h]
  cases pass.keepProd with
  | false => simp
  | true =>
    simp only [if_true, true_and, InUse]
    refine exists_congr fun d => ?_
    rw [and_left_comm, ← mem_computePinnedDigests]
    refine and_congr_right fun _ => and_congr_right fun hd => ?_
    rw [normalizeDigest, bareDigest_of_mem hd]

/-- A plan removes something exactly when there is a build to reclaim. -/
theorem remove_ne_nil {policy : ImageGcPolicy} {inv : Inventory} {builds : List Build} :
    (computeGcPlan policy (computePinnedDigests inv) builds now).remove ≠ [] ↔
      policy.Reclaims inv builds now := by
  have hfree : ∀ b : Build, ((pinnedDigest b.image).any fun d => d ≠ [] &&
      !(if policy.keepProd then (computePinnedDigests inv).map bareDigest else []).contains
        (bareDigest d)) = true ↔
      ∃ d, d ≠ [] ∧ HasDigest b.image d ∧ ¬ (policy.keepProd = true ∧ inv.Shows d) := by
    intro b
    rw [map_bareDigest, Option.any_eq_true]
    refine exists_congr fun d => ?_
    rw [pinnedDigest_eq_some, Bool.and_eq_true, decide_eq_true_eq, and_left_comm]
    refine and_congr_right fun _ => and_congr_right fun hd => ?_
    obtain ⟨-, -, -, hat⟩ := hd
    have hbare : bareDigest d = d :=
      List.rtakeWhile_eq_self_iff.2 fun c hc => decide_eq_true fun heq => hat (heq ▸ hc)
    rw [hbare, ← mem_computePinnedDigests]
    cases policy.keepProd <;> simp
  have hremove : (computeGcPlan policy (computePinnedDigests inv) builds now).remove = [] ↔
      ∀ b ∈ builds, ¬ ((∃ d, d ≠ [] ∧ HasDigest b.image d ∧
        ¬ (policy.keepProd = true ∧ inv.Shows d)) ∧
        (policy.mode = .ageDays → Aged policy.days now (b.finishedAt.getD 0))) := by
    unfold computeGcPlan
    cases policy.mode with
    | onHealthcheck =>
      simp only [List.dedup_eq_nil, List.map_eq_nil_iff, List.filter_eq_nil_iff, hfree,
        reduceCtorEq,
        false_implies, and_true]
    | ageDays =>
      simp only [List.dedup_eq_nil, List.map_eq_nil_iff, List.filter_eq_nil_iff,
        List.mem_filter, hfree,
        true_implies, and_imp, not_and, Bool.and_eq_true, decide_eq_true_eq, Aged]
  rw [Ne, hremove]
  constructor
  · intro h
    by_contra hno
    exact h fun b hb hall => hno ⟨b, hb, hall⟩
  · rintro ⟨b, hb, hall⟩ h
    exact h b hb hall

theorem runs_dangling (keep : List Text) : n.runs (danglingPayload keep) = n.reached := by
  simp [Node.runs, danglingPayload]

theorem selects_dangling {keep : List Text} :
    selects { danglingPayload keep with keepDigests := [] } now img = true ↔
      ∀ t ∈ img.RepoTags.getD [], text ":<none>" <:+ t := by
  have hnone : keeps { danglingPayload keep with keepDigests := [] } img = false := by simp [keeps]
  have hscope : inScope { danglingPayload keep with keepDigests := [] } img = true := rfl
  rw [selects, hnone, hscope]
  show isDangling img = true ↔ _
  unfold isDangling
  simp only [List.all_eq_true, Bool.or_eq_true, List.isSuffixOf_iff_suffix, decide_eq_true_eq]
  refine forall₂_congr fun t _ => or_iff_left_of_imp ?_
  rintro rfl
  decide

theorem runs_gc {policy : ImageGcPolicy} {reg : Option Text} {dryRun : Bool} {keep : List Text} :
    n.runs (gcPayload policy reg dryRun keep) = true ↔
      n.reached = true ∧ policy.days ≠ some 0 ∧ n.BUILD_OVERRIDE ≠ some .deny := by
  have hgate : buildGateAllows n.BUILD_OVERRIDE (some true) = true ↔
      n.BUILD_OVERRIDE ≠ some .deny := by
    rcases n.BUILD_OVERRIDE with _ | _ | _ <;> simp [buildGateAllows]
  have hstrategy : (gcPayload policy reg dryRun keep).strategy ≠ .dangling := by
    unfold gcPayload
    cases policy.mode <;> simp
  unfold Node.runs
  rw [decide_eq_false hstrategy, Bool.false_or, Bool.and_eq_true, Bool.and_eq_true,
    decide_eq_true_eq,
    and_assoc]
  exact and_congr_right fun _ => and_congr_right fun _ => hgate

theorem inScope_gc {policy : ImageGcPolicy} {reg : Option Text} {dryRun : Bool} {keep : List Text} :
    inScope (gcPayload policy reg dryRun keep) img = true ↔ (reg.isSome → OfRegistry reg img) := by
  cases reg with
  | none => exact iff_of_true rfl nofun
  | some host =>
    obtain ⟨c, cs, hpre⟩ :=
      List.exists_cons_of_ne_nil (show canonicalRegistryHost host ++ ['/'] ≠ [] by simp)
    have hscope : inScope (gcPayload policy (some host) dryRun keep) img =
        ((img.RepoTags.getD []).any ((c :: cs).isPrefixOf ·) ||
          (img.RepoDigests.getD []).any ((c :: cs).isPrefixOf ·)) := by
      unfold inScope gcPayload
      rw [Option.map_some, hpre]
    rw [hscope]
    simp [OfRegistry, hpre, or_and_right, exists_or]

theorem selects_gc {policy : ImageGcPolicy} {reg : Option Text} {dryRun : Bool} {keep : List Text} :
    selects { gcPayload policy reg dryRun keep with keepDigests := [] } now img = true ↔
      (reg.isSome → OfRegistry reg img) ∧
        (policy.mode = .ageDays → Aged policy.days now (img.Created.getD 0 * 1000)) := by
  show selects (gcPayload policy reg dryRun []) now img = true ↔ _
  have hnone : keeps (gcPayload policy reg dryRun []) img = false := by simp [keeps, gcPayload]
  rw [selects, hnone, Bool.or_false, Bool.not_not, Bool.and_eq_true, inScope_gc]
  refine and_congr_right fun _ => ?_
  unfold stale gcPayload
  cases policy.mode <;> simp [Aged]

/-- The images that the nodes would remove with nothing pinned. -/
theorem mem_removed_iff : (∃ p, (n, p) ∈ pass.sent live nodes now ∧
      img ∈ n.removed { p with keepDigests := [] } now) ↔
    n ∈ nodes ∧ pass.Runs live now n ∧ img ∈ n.images ∧ pass.After now img ∧
      n.refuses img.Id = false := by
  cases pass with
  | dangling =>
    constructor
    · rintro ⟨p, hsent, hrem⟩
      obtain ⟨n', hn, heq⟩ := List.mem_map.1 hsent
      obtain ⟨rfl, rfl⟩ := Prod.mk.inj heq
      obtain ⟨hn, honline⟩ := List.mem_filter.1 hn
      obtain ⟨himg, hruns, -, hsel, hno⟩ := mem_removed.1 hrem
      exact ⟨hn, ⟨honline, (runs_dangling []).symm.trans hruns⟩, himg, selects_dangling.1 hsel, hno⟩
    · rintro ⟨hn, ⟨honline, hreached⟩, himg, hafter, hno⟩
      refine ⟨_, List.mem_map_of_mem (List.mem_filter.2 ⟨hn, honline⟩),
        mem_removed.2 ⟨himg, ?_, rfl, ?_, hno⟩⟩
      · exact (runs_dangling _).trans hreached
      · exact selects_dangling.2 hafter
  | gc org policy builds reg dryRun =>
    cases policy with
    | none =>
      refine iff_of_false (fun ⟨p, hsent, _⟩ => ?_) fun ⟨_, ⟨_, h, _⟩, _⟩ => ?_
      · cases hsent
      · cases h
    | some pol =>
      simp only [Pass.sent, runImageGcForOrg, Pass.Runs, Pass.After, Option.some.injEq,
        exists_eq_left']
      constructor
      · rintro ⟨p, hsent, hrem⟩
        split_ifs at hsent with hdays hremove
        · cases hsent
        · cases hsent
        obtain ⟨n', hn, heq⟩ := List.mem_map.1 hsent
        obtain ⟨rfl, rfl⟩ := Prod.mk.inj heq
        simp only [List.mem_filter, Bool.and_eq_true, decide_eq_true_eq] at hn
        obtain ⟨⟨hn, horg⟩, honline, hcapable⟩ := hn
        obtain ⟨himg, hruns, hdry, hsel, hno⟩ := mem_removed.1 hrem
        obtain ⟨hreached, hzero, hgate⟩ := runs_gc.1 hruns
        refine ⟨hn, ⟨⟨fun hmode hnone => hdays ⟨hmode, by rw [hnone]; rfl⟩, hzero,
          remove_ne_nil.1 hremove⟩, ⟨horg, honline, hcapable⟩, hreached, hgate, hdry⟩, himg,
          selects_gc.1 hsel, hno⟩
      · rintro ⟨hn, ⟨⟨hsome, hzero, hremove⟩, ⟨horg, honline, hcapable⟩, hreached, hgate, rfl⟩,
          himg,
          hafter, hno⟩
        have hdays : ¬ (pol.mode = .ageDays ∧ pol.days.getD 0 = 0) := by
          rintro ⟨hmode, hday⟩
          cases hd : pol.days with
          | none => exact hsome hmode hd
          | some d =>
            rw [hd, Option.getD_some] at hday
            exact hzero (hday ▸ hd)
        rw [if_neg hdays, if_neg (remove_ne_nil.2 hremove)]
        refine ⟨_, List.mem_map_of_mem ?_,
          mem_removed.2 ⟨himg, runs_gc.2 ⟨hreached, hzero, hgate⟩, rfl,
          selects_gc.2 hafter, hno⟩⟩
        simp only [List.mem_filter, Bool.and_eq_true, decide_eq_true_eq]
        exact ⟨⟨hn, horg⟩, honline, hcapable⟩

/-- A pass keeps what is referenced and what is not of the registry exactly where the live
inventory shows every such image that a node would remove. -/
theorem kept_iff (live : Text → Inventory) (nodes : List Node) (now : Int) (refs : Text → List Text)
    (pass : Pass) :
    Kept live nodes now refs pass ↔ Pinned live nodes now refs pass := by
  constructor
  · intro h
    constructor
    · intro n hn hruns img himg hafter hno ref href hnames
      obtain ⟨p, hsent, hrem⟩ := mem_removed_iff.2 ⟨hn, hruns, himg, hafter, hno⟩
      by_contra hfree
      rw [← keeps_iff hsent, Bool.not_eq_true] at hfree
      exact h.unreferenced n p hsent img (removed_iff.2 ⟨hrem, hfree⟩) ref href hnames
    · intro hunscoped n hn hruns img himg hafter hno
      obtain ⟨p, hsent, hrem⟩ := mem_removed_iff.2 ⟨hn, hruns, himg, hafter, hno⟩
      by_contra hfree
      rw [← keeps_iff hsent, Bool.not_eq_true] at hfree
      cases pass with
      | dangling => cases hunscoped
      | gc org policy builds reg dryRun =>
        cases reg with
        | some host => cases hunscoped
        | none =>
          obtain ⟨host, hhost, -⟩ :=
            h.ofRegistry _ _ _ _ _ rfl n p hsent img (removed_iff.2 ⟨hrem, hfree⟩)
          cases hhost
  · intro h
    constructor
    · intro n p hsent img himg ref href hnames
      obtain ⟨hwould, hno⟩ := removed_iff.1 himg
      obtain ⟨hn, hruns, himg, hafter, hrefuses⟩ := mem_removed_iff.1 ⟨p, hsent, hwould⟩
      rw [(keeps_iff hsent).2 (h.referenced n hn hruns img himg hafter hrefuses ref href
        hnames)] at hno
      cases hno
    · rintro org policy builds reg dryRun rfl n p hsent img himg
      obtain ⟨hwould, hno⟩ := removed_iff.1 himg
      obtain ⟨hn, hruns, himg, hafter, hrefuses⟩ := mem_removed_iff.1 ⟨p, hsent, hwould⟩
      cases reg with
      | none =>
        rw [(keeps_iff hsent).2 (h.unscoped rfl n hn hruns img himg hafter hrefuses)] at hno
        cases hno
      | some host =>
        obtain ⟨pol, -, hscope, -⟩ := hafter
        exact hscope rfl
    · exact fun n p _ hruns hdry => refused_of_left hruns hdry

end

/-! ## A manager that is not connected -/

def acme : Text := text "acme"

def appImage : RawImage :=
  ⟨text "sha256:1", some [text "localhost:5000/app:1"], some [text "localhost:5000/app@sha256:a"],
    some 1, some 10⟩

def builder : Node :=
  ⟨text "n", acme, true, [], some .allow, some .allow, [appImage], fun _ => false, true⟩

/-- A run while no manager is connected: the service, at zero replicas, is not in the inventory. -/
def blindRun : Pass :=
  .gc acme (some ⟨.onHealthcheck, none, true⟩) [⟨text "localhost:5000/app@sha256:a", some 1⟩]
    (some (text "localhost:5000")) false

theorem not_kept_blindRun : ¬ ∀ (live : Text → Inventory) (nodes : List Node) (now : Int)
    (refs : Text → List Text) (pass : Pass), Kept live nodes now refs pass := by
  intro h
  have hkept := h (fun _ => ⟨[], []⟩) [builder] 0 (fun _ =>
    [text "localhost:5000/app@sha256:a"]) blindRun
  have hsent : blindRun.sent (fun _ => ⟨[], []⟩) [builder] 0 =
      [(builder, gcPayload ⟨.onHealthcheck, none, true⟩ (some (text "localhost:5000")) false [])] :=
        rfl
  refine hkept.unreferenced builder _ (hsent ▸ List.mem_singleton_self _) appImage ?_ _
    (List.mem_singleton_self _) ?_
  · exact mem_removed.2 ⟨List.mem_singleton_self _, by decide, rfl, by decide, rfl⟩
  · exact ⟨text "sha256:a", by decide, by decide⟩

end Images
