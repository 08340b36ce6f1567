/-
An app whose check has just said yes.

The compose file of the app is then the one in its archive, and every image it names is
there with all its blobs (`Intact`).  An intact app stays intact as long as nothing below
its directory and no blob of its images changes, and the check of an intact app says yes
again.  So apps that were checked one after the other are intact together.

`BlobOf` names the blobs of an app as they are found from its directory.
-/
import AkLite.Engine.AppFetched

namespace AkLite
namespace Docker
namespace RestorableAppEngine

open Lib
open Client (App)

/-! ## The blobs of an app -/

/-- The image of a service of the app. -/
def AppImage (tk : Toolkit) (s : Store) (dir : Path) (image : Uri) : Prop :=
  ∃ compose, s.composeInfo tk (dir ++ [composeFile]) = .ok compose ∧
    ∃ images, serviceImages compose = .ok images ∧
      ∃ text, .ok text ∈ images ∧ parseUri text false = .ok image

/-- The blobs that the index of an image leads to. -/
inductive ImageBlob (tk : Toolkit) (s : Store) (index : Path) : String → Prop
  | manifest {hash : String} (himage : s.imageHash tk index = .ok hash) :
    ImageBlob tk s index hash
  | config {hash config : String} (himage : s.imageHash tk index = .ok hash)
    (hconfig : s.configHash tk hash = .ok config) : ImageBlob tk s index config
  | layer {hash blob : String} {layers layer : Json} (himage : s.imageHash tk index = .ok hash)
    (hlayers : s.layers tk hash = .ok layers) (hlayer : layer ∈ layers.values)
    (hblob : digestHash layer = .ok blob) : ImageBlob tk s index blob

inductive BlobOf (tk : Toolkit) (s : Store) (uri : Uri) : String → Prop
  | appManifest : BlobOf tk s uri uri.digest.hash
  | entry {manifest : Manifest} {element hash : String} {entries : List Json} {entry : Json}
    (hmanifest : s.manifest tk (appDir uri) = .ok manifest)
    (helement : element = "manifests" ∨ element = "layers")
    (hentries : manifest.json.index element = .ok (.arr entries)) (hentry : entry ∈ entries)
    (hhash : digestHash entry = .ok hash) : BlobOf tk s uri hash
  | imageRoot {image : Uri} (himage : AppImage tk s (appDir uri) image) :
    BlobOf tk s uri image.digest.hash
  | image {image : Uri} {hash : String} (himage : AppImage tk s (appDir uri) image)
    (hblob : ImageBlob tk s (indexPath (appDir uri) image) hash) : BlobOf tk s uri hash

/-! ## Stores that agree below a directory -/

def SameBelow (dir : Path) (s t : Store) : Prop :=
  ∀ q, dir <+: q → t.apps.node q = s.apps.node q

section Agreeing

variable {tk : Toolkit} {s t : Store} {dir q : Path} {uri : Uri}

theorem SameBelow.read (h : SameBelow dir s t) (hq : dir <+: q) :
    t.apps.read q = s.apps.read q := by
  rw [FileTree.read, FileTree.read, h q hq]

theorem SameBelow.has (h : SameBelow dir s t) (hq : dir <+: q) : t.apps.has q = s.apps.has q := by
  rw [FileTree.has, FileTree.has, h q hq]

theorem SameBelow.isDirectory (h : SameBelow dir s t) (hq : dir <+: q) :
    t.apps.isDirectory q = s.apps.isDirectory q := by
  rw [FileTree.isDirectory, FileTree.isDirectory, h q hq]

theorem SameBelow.parseJSONFile (h : SameBelow dir s t) (hq : dir <+: q) :
    t.parseJSONFile tk q = s.parseJSONFile tk q := by
  rw [Store.parseJSONFile, Store.parseJSONFile, h.read hq]

theorem SameBelow.manifest (h : SameBelow dir s t) : t.manifest tk dir = s.manifest tk dir := by
  rw [Store.manifest, Store.manifest, h.parseJSONFile (List.prefix_append _ _)]

theorem SameBelow.composeInfo (h : SameBelow dir s t) :
    t.composeInfo tk (dir ++ [composeFile]) = s.composeInfo tk (dir ++ [composeFile]) := by
  rw [Store.composeInfo, Store.composeInfo, h.read (List.prefix_append _ _)]

theorem SameBelow.imageHash (h : SameBelow dir s t) (hq : dir <+: q) :
    t.imageHash tk q = s.imageHash tk q := by
  rw [Store.imageHash, Store.imageHash, h.parseJSONFile hq]

theorem SameBelow.archiveCompose (h : SameBelow (appDir uri) s t) :
    t.archiveCompose tk uri = s.archiveCompose tk uri := by
  have hextract : ∀ hash, t.extractComposeFile tk (archivePath (appDir uri) hash) =
      s.extractComposeFile tk (archivePath (appDir uri) hash) := by
    intro hash
    have hread := h.read (List.prefix_append (appDir uri) [hash ++ Manifest.archiveExt])
    unfold Store.extractComposeFile Store.readFile archivePath
    rw [hread]
  unfold Store.archiveCompose
  rw [h.manifest]
  simp only [hextract]

theorem indexPath_below (dir : Path) (image : Uri) : dir <+: indexPath dir image :=
  ⟨["images"] ++ imageDir image ++ ["index.json"], by simp [indexPath]⟩

theorem parseBlob_congr {hash : String} (h : t.blobs.lookup hash = s.blobs.lookup hash) :
    t.parseBlob tk hash = s.parseBlob tk hash := by
  rw [Store.parseBlob, Store.parseBlob, h]

theorem ArchiveStored.congr (h : ArchiveStored tk s uri) (hsame : SameBelow (appDir uri) s t) :
    ArchiveStored tk t uri where
  dir := by rw [hsame.has (List.prefix_refl _), h.dir]
  text := by
    rw [hsame.read (List.prefix_append _ _)]
    exact h.text
  archive := by
    obtain ⟨manifest, hmanifest, hash, hhash, content, hcontent⟩ := h.archive
    refine ⟨manifest, hsame.manifest.trans hmanifest, hash, hhash, content, ?_⟩
    rwa [archivePath, hsame.read (List.prefix_append _ _)]
  compose := by
    rw [hsame.archiveCompose]
    exact h.compose

/-- An image is read from its index and its blobs. -/
theorem ImageStored.congr {index : Path} {hash : String} (h : ImageStored tk s index hash)
    (hsame : SameBelow dir s t) (hindex : dir <+: index)
    (hblobs : ∀ blob, ImageBlob tk s index blob → t.blobs.lookup blob = s.blobs.lookup blob) :
    ImageStored tk t index hash := by
  obtain ⟨config, hconfig, hintact⟩ := h.config
  obtain ⟨layers, hlayers, hall⟩ := h.layers
  have hparse : t.parseBlob tk hash = s.parseBlob tk hash :=
    parseBlob_congr (hblobs hash (.manifest h.image))
  refine ⟨?_, (hsame.imageHash hindex).trans h.image, ?_, ⟨config, ?_, ?_⟩, layers, ?_, ?_⟩
  · rw [hsame.parseJSONFile hindex, h.object]
  · rw [BlobIntact, hblobs hash (.manifest h.image)]
    exact h.manifest
  · rw [Store.configHash, hparse]
    exact hconfig
  · rw [BlobIntact, hblobs config (.config h.image hconfig)]
    exact hintact
  · rw [Store.layers, hparse]
    exact hlayers
  · intro layer hlayer
    obtain ⟨hdigest, hsize, blob, hblob, size, hsize', hstored⟩ := hall layer hlayer
    refine ⟨hdigest, hsize, blob, hblob, size, hsize', ?_⟩
    rwa [hblobs blob (.layer h.image hlayers hlayer hblob)]

theorem ImagesFetched.congr (h : ImagesFetched tk s dir) (hsame : SameBelow dir s t)
    (hblobs : ∀ image, AppImage tk s dir image → ∀ blob, ImageBlob tk s (indexPath dir image) blob →
      t.blobs.lookup blob = s.blobs.lookup blob) : ImagesFetched tk t dir := by
  obtain ⟨compose, hcompose, images, himages, hall⟩ := h
  refine ⟨compose, hsame.composeInfo.trans hcompose, images, himages, fun image himage => ?_⟩
  obtain ⟨text, rfl, imageUri, huri, hindex, hash, hstored⟩ := hall image himage
  have happ : AppImage tk s dir imageUri := ⟨compose, hcompose, images, himages, text, himage, huri⟩
  refine ⟨text, rfl, imageUri, huri, ?_, hash, ?_⟩
  · rw [hsame.has (indexPath_below dir imageUri), hindex]
  · exact hstored.congr hsame (indexPath_below dir imageUri) (hblobs imageUri happ)

end Agreeing

/-! ## Intact apps -/

structure Intact (tk : Toolkit) (s : Store) (uri : Uri) : Prop where
  archive : ArchiveStored tk s uri
  /-- The compose file is that of the archive. -/
  compose : ∀ compose, s.archiveCompose tk uri = .ok compose →
    s.apps.node (appDir uri ++ [composeFile]) = some (.file compose)
  images : ImagesFetched tk s (appDir uri)

section Intact

variable {tk : Toolkit} {app : App} {s t : Store} {uri uri' : Uri}

theorem Intact.congr (h : Intact tk s uri) (hsame : SameBelow (appDir uri) s t)
    (hblobs : ∀ image, AppImage tk s (appDir uri) image →
      ∀ blob, ImageBlob tk s (indexPath (appDir uri) image) blob →
        t.blobs.lookup blob = s.blobs.lookup blob) : Intact tk t uri where
  archive := h.archive.congr hsame
  compose compose hcompose := by
    rw [hsame _ (List.prefix_append _ _)]
    exact h.compose compose (hsame.archiveCompose.symm.trans hcompose)
  images := h.images.congr hsame hblobs

theorem recomposed_blobs : (s.recomposed tk uri).blobs = s.blobs := by
  unfold Store.recomposed
  split
  · rfl
  · rfl

theorem appDir_eq_of_compose (h : appDir uri <+: appDir uri' ++ [composeFile]) :
    appDir uri = appDir uri' := by
  obtain ⟨rest, hrest⟩ := h
  exact (List.append_inj hrest rfl).1

/-- Writing the compose file of an app anew leaves an intact app as it is. -/
theorem Intact.sameBelow_recomposed (h : Intact tk s uri) (uri' : Uri) :
    SameBelow (appDir uri) s (s.recomposed tk uri') := by
  intro q hq
  unfold Store.recomposed
  cases hcompose : s.archiveCompose tk uri' with
  | error what => rfl
  | ok compose =>
    by_cases heq : q = appDir uri' ++ [composeFile]
    · subst heq
      have hdir : appDir uri = appDir uri' := appDir_eq_of_compose hq
      have hsame : s.archiveCompose tk uri = .ok compose := by
        rw [← hcompose, Store.archiveCompose, Store.archiveCompose, hdir]
      rw [← hdir, h.compose compose hsame]
      exact FileTree.node_write_self _ _ _
    · exact FileTree.node_write_of_ne heq _ _

theorem Intact.recomposed (h : Intact tk s uri) (uri' : Uri) :
    Intact tk (s.recomposed tk uri') uri :=
  h.congr (h.sameBelow_recomposed uri') fun _ _ _ _ => by rw [recomposed_blobs]

/-- The check of an intact app says yes. -/
theorem Intact.isFetched (h : Intact tk s uri) (huri : parseUri app.2 true = .ok uri) :
    IsFetched tk app s :=
  (isFetched_iff huri).mpr ⟨h.archive, (h.recomposed uri).images⟩

theorem manifestFile_ne_composeFile (dir : Path) :
    dir ++ [Manifest.filename] ≠ dir ++ [composeFile] := by
  intro h
  have := List.append_cancel_left h
  revert this
  decide

theorem archivePath_ne_composeFile (dir : Path) (hash : String) :
    archivePath dir hash ≠ dir ++ [composeFile] := by
  intro h
  have hname := List.append_cancel_left h
  injection hname with hname _
  have hlast := congrArg (fun name : String => name.toList.getLast?) hname
  simp [Manifest.archiveExt, composeFile] at hlast

/-- A check that says yes leaves the app intact. -/
theorem AppFetched.intact (h : AppFetched tk s uri) : Intact tk (s.recomposed tk uri) uri := by
  obtain ⟨compose, hcompose⟩ := h.archive.compose
  have hstore := recomposed_eq hcompose
  have hmanifest : (s.recomposed tk uri).manifest tk (appDir uri) = s.manifest tk (appDir uri) := by
    rw [hstore, Store.manifest, Store.manifest, Store.parseJSONFile, Store.parseJSONFile]
    rw [FileTree.read_write_of_ne (manifestFile_ne_composeFile _)]
  have hread : ∀ hash, (s.recomposed tk uri).apps.read (archivePath (appDir uri) hash) =
      s.apps.read (archivePath (appDir uri) hash) := by
    intro hash
    rw [hstore, FileTree.read_write_of_ne (archivePath_ne_composeFile _ _)]
  have hsame : (s.recomposed tk uri).archiveCompose tk uri = .ok compose := by
    rw [← hcompose, Store.archiveCompose, Store.archiveCompose, hmanifest]
    simp only [Store.extractComposeFile, Store.readFile, hread]
  refine ⟨⟨?_, ?_, ?_, compose, hsame⟩, fun compose' hcompose' => ?_, h.images⟩
  · have hne : appDir uri ≠ appDir uri ++ [composeFile] := by simp
    rw [hstore, FileTree.has, FileTree.node_write_of_ne hne]
    exact h.archive.dir
  · rw [hstore, FileTree.read_write_of_ne (manifestFile_ne_composeFile _)]
    exact h.archive.text
  · rw [hmanifest]
    simp only [hread]
    exact h.archive.archive
  · cases hsame.symm.trans hcompose'
    rw [hstore]
    exact FileTree.node_write_self _ _ _

/-! ## Checks one after the other -/

def areFetched (tk : Toolkit) : List App → Eff Bool
  | [] => return true
  | app :: rest => do
    if !(← isAppFetched tk app) then return false
    areFetched tk rest

theorem areFetched_cons {rest : List App} (h : areFetched tk (app :: rest) s = .ok true t) :
    ∃ u, isAppFetched tk app s = .ok true u ∧ areFetched tk rest u = .ok true t := by
  unfold areFetched at h
  simp only [bind, EStateM.bind] at h
  cases hrun : isAppFetched tk app s with
  | error e u =>
    rw [hrun] at h
    cases h
  | ok b u =>
    rw [hrun] at h
    cases b with
    | false => cases h
    | true => exact ⟨u, rfl, h⟩

/-- Apps that were checked one after the other are intact together. -/
theorem intact_of_areFetched {apps : List App} (h : areFetched tk apps s = .ok true t) :
    (∀ uri, Intact tk s uri → Intact tk t uri) ∧
      ∀ app ∈ apps, ∃ uri, parseUri app.2 true = .ok uri ∧ Intact tk t uri := by
  induction apps generalizing s with
  | nil =>
    cases h
    exact ⟨fun _ h => h, List.forall_mem_nil _⟩
  | cons app rest ih =>
    obtain ⟨u, happ, hrest⟩ := areFetched_cons h
    obtain ⟨hstays, hall⟩ := ih hrest
    obtain ⟨uri, huri⟩ := uri_of_run happ
    obtain ⟨hfetched, rfl⟩ := fetched_of_run huri happ
    refine ⟨fun uri' h' => hstays uri' (h'.recomposed uri), ?_⟩
    rw [List.forall_mem_cons]
    exact ⟨⟨uri, huri, hstays uri hfetched.intact⟩, hall⟩

end Intact

end RestorableAppEngine
end Docker
end AkLite
