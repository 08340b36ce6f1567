/-
Pruning the store.

`prune` is given the apps to keep.  It goes over the directories of the apps, removes
those that no app of the shortlist has the name of, and in the others the versions that
are not to be kept.  On the way it collects the blobs of the versions that stay, and at
the end it removes the other blobs.

A version is looked at as it is found.  An app manifest that cannot be read adds nothing,
and an image that cannot be read is removed with what it had added so far, but a missing
compose file ends the call.

The local variables of the call are part of the state, so that what was collected before
an exception is kept.  Directories list their names in any order.
-/
import AkLite.Engine.AppFetched

namespace AkLite
namespace Docker
namespace RestorableAppEngine

open Lib
open Client (App)

/-- The store and the local variables of `prune`. -/
structure Pruning where
  store : Store
  blobShortlist : List String
  pruneDockerStore : Bool
  /-- The images and the containers without a use have been removed. -/
  dockerStorePruned : Bool
  deriving DecidableEq, Repr

inductive PruneExn where
  /-- The directory to go over is not there. -/
  | noDirectory (p : Path)
  | other (what : String)
  deriving DecidableEq, Repr

structure PruneEnv where
  order : DirOrder
  /-- The directory of the blobs is there, also without a blob. -/
  blobDir : Bool

abbrev PruneEff := EStateM PruneExn Pruning

namespace Pruning

def start (s : Store) : Pruning :=
  { store := s, blobShortlist := [], pruneDockerStore := false, dockerStorePruned := false }

def lift {α : Type} (x : Except String α) : PruneEff α := orThrow (x.mapError .other)

def keepBlob (hash : String) : PruneEff Unit :=
  modify fun p => { p with blobShortlist := hash :: p.blobShortlist }

/-- `remove_all`. -/
def remove (dir : Path) : PruneEff Unit :=
  modify fun p => { p with store := { p.store with apps := p.store.apps.removeAll dir } }

/-- The directory of an app or of a version, after which the docker store is pruned too. -/
def removeDir (dir : Path) : PruneEff Unit := do
  remove dir
  modify fun p => { p with pruneDockerStore := true }

end Pruning

open Pruning (keepBlob)

/-! ## The blobs of a version -/

def keepEntry (entry : Json) : PruneEff Unit := do
  if !entry.isNull && (← Pruning.lift (entry.isMember "digest")) then
    keepBlob (← Pruning.lift (digestHash entry))

def keepEntries (manifest : Manifest) (element : String) : PruneEff Unit := do
  if !manifest.json.isNull && (← Pruning.lift (manifest.json.isMember element)) then
    match ← Pruning.lift (manifest.json.index element) with
    | .arr entries => entries.forM keepEntry
    | _ => pure ()

/-- The body of the first `try`. -/
def keepManifestEntries (tk : Toolkit) (dir : Path) : PruneEff Unit := do
  let manifest ← Pruning.lift ((← get).store.manifest tk dir)
  keepEntries manifest "manifests"
  keepEntries manifest "layers"

def keepManifest (tk : Toolkit) (uri : Uri) (dir : Path) : PruneEff Unit := do
  if (← get).store.apps.has (dir ++ [Manifest.filename]) then
    keepBlob uri.digest.hash
    tryCatch (keepManifestEntries tk dir) fun _ => pure ()

/-- A layer without a digest is only logged. -/
def keepLayer (layer : Json) : PruneEff Unit := do
  if layer.isObjectWith "digest" then keepBlob (← Pruning.lift (digestHash layer))

/-- The body of the second `try`. -/
def keepImageBlobs (tk : Toolkit) (index : Path) : PruneEff Unit := do
  let hash ← Pruning.lift ((← get).store.imageHash tk index)
  keepBlob hash
  keepBlob (← Pruning.lift ((← get).store.configHash tk hash))
  (← Pruning.lift ((← get).store.layers tk hash)).values.forM keepLayer

/-- The root of the image stays in any case.  The source adds it to the set twice. -/
def keepImage (tk : Toolkit) (dir : Path) (image : String) : PruneEff Unit := do
  let uri ← Pruning.lift (parseUri image false)
  keepBlob uri.digest.hash
  let imageRoot := dir ++ ["images"] ++ imageDir uri
  if (← get).store.apps.has (indexPath dir uri) then
    tryCatch (keepImageBlobs tk (indexPath dir uri)) fun _ => Pruning.remove imageRoot
  else Pruning.remove imageRoot

def keepVersion (tk : Toolkit) (uri : Uri) (dir : Path) : PruneEff Unit := do
  keepManifest tk uri dir
  let compose ← Pruning.lift ((← get).store.composeInfo tk (dir ++ [composeFile]))
  (← Pruning.lift (serviceImages compose)).forM fun image => do
    keepImage tk dir (← Pruning.lift image)

/-! ## The call -/

/-- The body of the inner loop. -/
def pruneVersion (tk : Toolkit) (uri : Uri) (version : String) : PruneEff Unit := do
  let dir := [uri.app, version]
  if (← get).store.apps.isDirectory dir then
    if version ≠ uri.digest.hash then Pruning.removeDir dir else keepVersion tk uri dir

/-- The inner loop goes over the directory by the last component of the URI. -/
def pruneVersions (tk : Toolkit) (env : PruneEnv) (uri : Uri) : PruneEff Unit := do
  let apps := (← get).store.apps
  if apps.isDirectory [uri.app] then
    (apps.list env.order [uri.app]).forM (pruneVersion tk uri)
  else throw (.noDirectory [uri.app])

/-- The app of the shortlist that a directory is taken for, which is the first of its name. -/
def appNamed (shortlist : List App) (name : String) : Option App :=
  shortlist.find? fun app => app.1 == name

/-- The body of the outer loop. -/
def pruneApp (tk : Toolkit) (env : PruneEnv) (shortlist : List App) (name : String) :
    PruneEff Unit := do
  if (← get).store.apps.isDirectory [name] then
    match appNamed shortlist name with
    | none => Pruning.removeDir [name]
    | some app => pruneVersions tk env (← Pruning.lift (parseUri app.2 true))

def pruneApps (tk : Toolkit) (env : PruneEnv) (shortlist : List App) : PruneEff Unit := do
  ((← get).store.apps.list env.order []).forM (pruneApp tk env shortlist)

/-- The store without the blobs that were not collected. -/
def Pruning.cleaned (p : Pruning) : Store :=
  { p.store with blobs := p.store.blobs.filter fun blob => p.blobShortlist.contains blob.1 }

def pruneBlobs : PruneEff Unit :=
  modify fun p =>
    { p with
      store := p.cleaned
      pruneDockerStore := p.pruneDockerStore ||
        p.store.blobs.any fun blob => !p.blobShortlist.contains blob.1 }

/-- Without a directory of blobs the docker store is not pruned either. -/
def prune (tk : Toolkit) (env : PruneEnv) (shortlist : List App) : PruneEff Unit := do
  modify fun p => Pruning.start p.store
  pruneApps tk env shortlist
  if env.blobDir || !(← get).store.blobs.isEmpty then
    pruneBlobs
    if (← get).pruneDockerStore then modify fun p => { p with dockerStorePruned := true }

/-- The store that the call leaves, whether it returns or throws. -/
def pruned (tk : Toolkit) (env : PruneEnv) (shortlist : List App) (s : Store) : Store :=
  (after (prune tk env shortlist) (Pruning.start s)).store

theorem appNamed_some {shortlist : List App} {name : String} {app : App}
    (h : appNamed shortlist name = some app) : app ∈ shortlist ∧ app.1 = name := by
  have hname := List.find?_some h
  exact ⟨List.mem_of_find?_eq_some h, by simpa using hname⟩

theorem appNamed_ne_none {shortlist : List App} {app : App} (h : app ∈ shortlist) :
    appNamed shortlist app.1 ≠ none := by
  intro hnone
  simpa using List.find?_eq_none.mp hnone app h

/-! ## What the parts do to the state -/

/-- A frame that a walk stays in which collects blobs and removes trees of `R`. -/
structure PruneFrame (F : Frame Pruning) (R : Path → Prop) : Prop where
  blob : ∀ p hash, F.rel p { p with blobShortlist := hash :: p.blobShortlist }
  tree : ∀ p dir, R dir →
    F.rel p { p with store := { p.store with apps := p.store.apps.removeAll dir } }
  docker : ∀ p, F.rel p { p with pruneDockerStore := true }

section Frames

variable {F : Frame Pruning} {R R' : Path → Prop} {tk : Toolkit} {env : PruneEnv} {uri : Uri}
  {dir : Path} {α : Type}

theorem PruneFrame.mono (hF : PruneFrame F R) (h : ∀ q, R' q → R q) : PruneFrame F R' :=
  { hF with tree := fun p q hq => hF.tree p q (h q hq) }

theorem PruneFrame.keeps (hF : PruneFrame F R) (hash : String) : Within F (keepBlob hash) :=
  fun p => hF.blob p hash

theorem PruneFrame.removes (hF : PruneFrame F R) (h : R dir) : Within F (Pruning.remove dir) :=
  fun p => hF.tree p dir h

theorem PruneFrame.removesDir (hF : PruneFrame F R) (h : R dir) :
    Within F (Pruning.removeDir dir) :=
  (hF.removes h).bind fun _ => Within.modify fun p => hF.docker p

theorem within_lift (x : Except String α) : Within F (Pruning.lift x) := Within.orThrow _

theorem within_lift_bind {β : Type} {x : Except String α} {f : α → PruneEff β}
    (h : ∀ a, x = .ok a → Within F (f a)) : Within F (Pruning.lift x >>= f) := by
  refine Within.orThrow_bind fun a ha => h a ?_
  cases x with
  | ok b =>
    cases ha
    rfl
  | error what => cases ha

/-- A value that cannot be read is thrown as a text. -/
theorem throws_lift (x : Except String α) :
    Throws (fun e => ∃ what, e = PruneExn.other what) (Pruning.lift x) := by
  refine Throws.orThrow fun e he => ?_
  cases x with
  | ok a => cases he
  | error what =>
    cases he
    exact ⟨what, rfl⟩

theorem within_keepEntries (hF : PruneFrame F R) (manifest : Manifest) (element : String) :
    Within F (keepEntries manifest element) := by
  unfold keepEntries
  refine (within_lift _).bind fun member => Within.ite ?_ (Within.pure _)
  refine (within_lift _).bind fun json => ?_
  split
  · refine Within.forM fun entry _ => ?_
    exact (within_lift _).bind fun _ =>
      Within.ite ((within_lift _).bind fun hash => hF.keeps hash) (Within.pure _)
  · exact Within.pure _

theorem within_keepManifest (hF : PruneFrame F R) : Within F (keepManifest tk uri dir) := by
  unfold keepManifest
  refine Within.get.bind fun p => Within.ite ?_ (Within.pure _)
  refine (hF.keeps _).bind fun _ => Within.tryCatch ?_ fun _ => Within.pure _
  unfold keepManifestEntries
  refine Within.get.bind fun p => (within_lift _).bind fun manifest => ?_
  exact (within_keepEntries hF manifest _).bind fun _ => within_keepEntries hF manifest _

theorem within_keepImageBlobs (hF : PruneFrame F R) (index : Path) :
    Within F (keepImageBlobs tk index) := by
  unfold keepImageBlobs
  refine Within.get.bind fun p => (within_lift _).bind fun hash => (hF.keeps _).bind fun _ => ?_
  refine Within.get.bind fun p => (within_lift _).bind fun config => (hF.keeps _).bind fun _ => ?_
  refine Within.get.bind fun p => (within_lift _).bind fun layers => Within.forM fun layer _ => ?_
  exact Within.ite ((within_lift _).bind fun hash => hF.keeps hash) (Within.pure _)

theorem within_keepImage (hF : PruneFrame F fun q => dir ++ ["images"] <+: q) (image : String) :
    Within F (keepImage tk dir image) := by
  unfold keepImage
  refine (within_lift _).bind fun imageUri => (hF.keeps _).bind fun _ => ?_
  have hroot : Within F (Pruning.remove (dir ++ ["images"] ++ imageDir imageUri)) :=
    hF.removes (List.prefix_append _ _)
  refine Within.get.bind fun p => Within.ite ?_ hroot
  exact Within.tryCatch (within_keepImageBlobs hF _) fun _ => hroot

/-- Of the files of a version that stays, only images are removed. -/
theorem within_keepVersion (hF : PruneFrame F fun q => dir ++ ["images"] <+: q) :
    Within F (keepVersion tk uri dir) := by
  unfold keepVersion
  refine (within_keepManifest hF).bind fun _ => Within.get.bind fun p => ?_
  refine (within_lift _).bind fun compose => (within_lift _).bind fun images => ?_
  exact Within.forM fun image _ => (within_lift _).bind fun text => within_keepImage hF text

theorem within_pruneVersion (hF : PruneFrame F fun _ => True) (version : String) :
    Within F (pruneVersion tk uri version) := by
  unfold pruneVersion
  refine Within.get.bind fun p => Within.ite (Within.ite ?_ ?_) (Within.pure _)
  · exact hF.removesDir trivial
  · exact within_keepVersion (hF.mono fun _ _ => trivial)

theorem within_pruneVersions (hF : PruneFrame F fun _ => True) :
    Within F (pruneVersions tk env uri) := by
  unfold pruneVersions
  refine Within.get.bind fun p => Within.ite ?_ (Within.throw _)
  exact Within.forM fun version _ => within_pruneVersion hF version

theorem within_pruneApp (hF : PruneFrame F fun _ => True) (shortlist : List App) (name : String) :
    Within F (pruneApp tk env shortlist name) := by
  unfold pruneApp
  refine Within.get.bind fun p => Within.ite ?_ (Within.pure _)
  split
  · exact hF.removesDir trivial
  · exact (within_lift _).bind fun uri => within_pruneVersions hF

/-- A version that stays ends the call only with a text. -/
theorem throws_keepVersion :
    Throws (fun e => ∃ what, e = PruneExn.other what) (keepVersion tk uri dir) := by
  have hmanifest : Throws (fun e => ∃ what, e = PruneExn.other what) (keepManifest tk uri dir) := by
    unfold keepManifest
    refine Throws.get.bind fun p => Throws.ite ?_ (Throws.pure _)
    exact (Throws.modify _).bind fun _ => Throws.tryCatch fun _ => Throws.pure _
  unfold keepVersion
  refine hmanifest.bind fun _ => Throws.get.bind fun p => ?_
  refine (throws_lift _).bind fun compose => (throws_lift _).bind fun images => ?_
  refine Throws.forM fun image _ => (throws_lift _).bind fun text => ?_
  unfold keepImage
  refine (throws_lift _).bind fun imageUri => (Throws.modify _).bind fun _ => ?_
  exact Throws.get.bind fun p => Throws.ite (Throws.tryCatch fun _ => Throws.modify _)
    (Throws.modify _)

end Frames

/-- The call is the walk over the apps, and the blobs that it did not collect go. -/
theorem wp_prune {tk : Toolkit} {env : PruneEnv} {shortlist : List App} {s : Store}
    {Q : Unit → Pruning → Prop} {E : PruneExn → Pruning → Prop}
    (h : wp ((s.apps.list env.order []).forM (pruneApp tk env shortlist))
      (fun _ p => ∀ t : Pruning, t.store = p.cleaned → Q () t) E (Pruning.start s)) :
    wp (prune tk env shortlist) Q E (Pruning.start s) := by
  unfold prune pruneApps
  rw [wp_bind, wp_modify, wp_bind, wp_bind, wp_get]
  refine wp_mono h (fun _ p hp => ?_) fun _ _ he => he
  rw [wp_bind, wp_get, wp_ite]
  split
  · unfold pruneBlobs
    rw [wp_bind, wp_modify, wp_bind, wp_get, wp_ite]
    split
    · exact hp _ rfl
    · exact hp _ rfl
  · next hempty =>
    -- there is no blob to remove
    have hnil : p.store.blobs = [] := by
      rw [Bool.or_eq_true, not_or] at hempty
      simpa using hempty.2
    refine hp p ?_
    rw [Pruning.cleaned, hnil, List.filter_nil, ← hnil]

end RestorableAppEngine
end Docker
end AkLite
