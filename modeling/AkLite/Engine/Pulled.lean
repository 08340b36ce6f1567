/-
What the store holds of the versions that were fetched.

A registry has one content for each digest, and its client returns nothing whose hash or size
is not the expected one.  A version is published if the registry has all that `fetch` needs
for it.  Over every sequence of calls a version whose manifest is in the store is published,
and the manifest and the archive there are those of the registry (`genuine_fetch`): what a
failed `fetch` leaves is removed with the directory of the version.  In turn a published
version can be fetched (`fetch_serving`).
-/
import AkLite.Engine.Refetch

namespace AkLite
namespace Docker
namespace RestorableAppEngine

open Lib
open Client (App)

variable {tk : Toolkit} {env : FetchEnv} {app : App} {uri : Uri} {s t : Store}

/-! ## The registry -/

/-- The contents of a registry, by their hashes. -/
abbrev Registry := String → String

/-- `RegistryClient` takes a manifest of the expected size, or up to a limit. -/
def acceptsManifest (size : Option Int) (text : String) : Bool :=
  match size with
  | some size => (text.utf8ByteSize : Int) == size
  | none => text.utf8ByteSize ≤ 16384

/-- What is downloaded is from the registry, and the client has checked it. -/
structure FetchEnv.Serves (tk : Toolkit) (reg : Registry) (env : FetchEnv) : Prop where
  manifest : ∀ uri format size text, env.getAppManifest uri format size = .ok text →
    text = reg uri.digest.hash ∧ tk.sha256 text = uri.digest.hash ∧
      acceptsManifest size text = true
  blob : ∀ uri name size content, env.downloadBlob uri name size = .done content →
    content = reg uri.digest.hash ∧ tk.sha256 content = uri.digest.hash ∧
      (content.utf8ByteSize : Int) = size

/-- The manifest of the version names an archive with a compose file. -/
structure Archived (tk : Toolkit) (reg : Registry) (uri : Uri) (digest : HashedDigest)
    (compose : String) : Prop where
  text : tk.sha256 (reg uri.digest.hash) = uri.digest.hash ∧
    acceptsManifest none (reg uri.digest.hash) = true
  manifest : ∃ manifest, Manifest.parse tk.canonical (tk.parseJSON (reg uri.digest.hash)) =
      .ok manifest ∧
    (do HashedDigest.parse (← manifest.archiveDigest tk.canonical)) = .ok digest ∧
    manifest.archiveSize tk.canonical = .ok (reg digest.hash).utf8ByteSize
  archive : tk.sha256 (reg digest.hash) = digest.hash
  extract : tk.extract (reg digest.hash) = .ok compose

/-- The images of a compose file have URIs. -/
def HasImages (tk : Toolkit) (compose : String) : Prop :=
  ∃ json, tk.yaml2json compose = .ok json ∧ ∃ images, serviceImages json = .ok images ∧
    ∀ image ∈ images, HasUri image

/-- The registry has what `fetch` needs for the version. -/
structure Published (tk : Toolkit) (reg : Registry) (uri : Uri) (digest : HashedDigest)
    (compose : String) : Prop extends Archived tk reg uri digest compose where
  images : HasImages tk compose

/-! ## The files of a version -/

def manifestPath (uri : Uri) : Path := appDir uri ++ [Manifest.filename]

/-- The manifest or an archive of the version. -/
def IsPulled (uri : Uri) (p : Path) : Prop :=
  p = manifestPath uri ∨ ∃ digest : HashedDigest, p = archivePath (appDir uri) digest.hash

theorem eq_of_concat {p q : Path} {name name' : String} (h : p ++ [name] = q ++ [name']) :
    p = q ∧ name = name' := by
  have hlast : [name] = [name'] := List.append_inj_right' h rfl
  exact ⟨List.append_inj_left' h rfl, List.head_eq_of_cons_eq hlast⟩

theorem size_archive (digest : HashedDigest) :
    (digest.hash ++ Manifest.archiveExt).utf8ByteSize = 68 := by
  rw [String.utf8ByteSize_append, digest.size_hash]
  decide +kernel

theorem not_isPulled {name : String} (hname : name ≠ Manifest.filename)
    (hsize : name.utf8ByteSize ≠ 68) (dir : Path) (uri : Uri) : ¬ IsPulled uri (dir ++ [name]) := by
  rintro (h | ⟨digest, h⟩)
  · exact hname (eq_of_concat h).2
  · apply hsize
    rw [(eq_of_concat h).2, size_archive]

theorem not_isPulled_elsewhere {uri' : Uri} (h : appDir uri' ≠ appDir uri) (name : String) :
    ¬ IsPulled uri' (appDir uri ++ [name]) := by
  rintro (heq | ⟨digest, heq⟩)
  · exact h (eq_of_concat heq).1.symm
  · exact h (eq_of_concat heq).1.symm

/-- There is no manifest without the directory. -/
def Rooted (uri : Uri) (s : Store) : Prop :=
  s.apps.has (appDir uri) = true ∨ s.apps.read (manifestPath uri) = none

/-- The files of the versions in these directories are left or removed. -/
def leaves (P : Path → Prop) : Frame Store where
  rel s t := ∀ uri : Uri, P (appDir uri) → (Rooted uri s → Rooted uri t) ∧
    ∀ p, IsPulled uri p → t.apps.read p = s.apps.read p ∨ t.apps.read p = none
  refl _ _ _ := ⟨id, fun _ _ => .inl rfl⟩
  trans := by
    intro s t u hst htu uri hP
    obtain ⟨hrooted, hread⟩ := hst uri hP
    obtain ⟨hrooted', hread'⟩ := htu uri hP
    refine ⟨fun h => hrooted' (hrooted h), fun p hp => ?_⟩
    rcases hread' p hp with h | h
    · rw [h]
      exact hread p hp
    · exact .inr h

section Frame

variable {P : Path → Prop}

/-- Files and directories that are added in other places. -/
theorem leaves_of_read (hhas : ∀ q, s.apps.has q = true → t.apps.has q = true)
    (hread : ∀ uri, P (appDir uri) → ∀ p, IsPulled uri p → t.apps.read p = s.apps.read p) :
    (leaves P).rel s t := by
  intro uri hP
  refine ⟨?_, fun p hp => .inl (hread uri hP p hp)⟩
  rintro (h | h)
  · exact .inl (hhas _ h)
  · exact .inr ((hread uri hP _ (.inl rfl)).trans h)

theorem leaves_writeFile {p : Path} (h : ∀ uri, P (appDir uri) → ¬ IsPulled uri p)
    (content : String) : Within (leaves P) (writeFile p content) := by
  refine Within.modify fun s => leaves_of_read (fun q hq => FileTree.has_write hq p content) ?_
  intro uri hP q hq
  have hne : q ≠ p := by
    intro heq
    rw [heq] at hq
    exact h uri hP hq
  exact FileTree.read_write_of_ne hne _ _

theorem leaves_createDirectories (p : Path) : Within (leaves P) (createDirectories p) := by
  refine Within.modify fun s => leaves_of_read (fun q hq => ?_) fun _ _ q _ => ?_
  · exact (FileTree.has_mkdirs _ _ _).mpr (.inl hq)
  · exact FileTree.read_mkdirs _ _ _

theorem leaves_blobs (f : Store → List (String × String)) :
    Within (leaves P) (modify fun s => { s with blobs := f s } : Eff Unit) :=
  Within.modify fun _ => leaves_of_read (fun _ hq => hq) fun _ _ _ _ => rfl

/-- What is at a path and below it is removed. -/
theorem leaves_of_node {p : Path}
    (h : ∀ q, t.apps.node q = if p <+: q then none else s.apps.node q) : (leaves P).rel s t := by
  intro uri _
  have hread : ∀ q, t.apps.read q = if p <+: q then none else s.apps.read q := by
    intro q
    rw [FileTree.read, FileTree.read, h]
    by_cases hq : p <+: q
    · rw [if_pos hq, if_pos hq]
    · rw [if_neg hq, if_neg hq]
  have hmanifest : appDir uri <+: manifestPath uri := List.prefix_append _ _
  refine ⟨?_, fun q _ => ?_⟩
  · rintro (hdir | hnone)
    · by_cases hp : p <+: appDir uri
      · right
        rw [hread, if_pos (hp.trans hmanifest)]
      · left
        rw [FileTree.has, h, if_neg hp]
        exact hdir
    · right
      rw [hread, hnone, ite_self]
  · rw [hread]
    split
    · exact .inr rfl
    · exact .inl rfl

theorem leaves_removeAll (p : Path) : Within (leaves P) (removeAll p) := by
  refine Within.modify fun s => leaves_of_node (p := p) fun q => ?_
  rw [FileTree.node_removeAll]
  simp only [List.isPrefixOf_iff_prefix]

theorem leaves_removeFile (p : Path) : Within (leaves P) (removeFile p) := by
  unfold removeFile
  intro s
  rw [wp_bind, wp_get, wp_bind, wp_lift]
  cases hremove : s.apps.remove p with
  | error what => exact (leaves P).refl s
  | ok apps =>
    apply leaves_of_node (p := p)
    intro q
    exact FileTree.node_remove hremove

/-! Checking an app removes what is broken, and writes the compose file. -/

theorem leaves_isLayerStored (layer : Json) : Within (leaves P) (isLayerStored layer) := by
  unfold isLayerStored
  refine Within.ite (Within.pure _) ?_
  refine (Within.orThrow _).bind fun digest => (Within.orThrow _).bind fun size => ?_
  refine Within.get.bind fun s => ?_
  split
  · exact Within.pure _
  · exact Within.ite ((leaves_blobs _).bind fun _ => Within.pure _) (Within.pure _)

theorem leaves_areLayersStored (layers : List Json) :
    Within (leaves P) (areLayersStored layers) := by
  induction layers with
  | nil => exact Within.pure _
  | cons layer rest ih =>
    exact (leaves_isLayerStored layer).bind fun _ => Within.ite (Within.pure _) ih

theorem leaves_checkImage (index : Path) : Within (leaves P) (checkImage tk index) := by
  unfold checkImage
  refine Within.get.bind fun s => Within.ite ?_ ?_
  · exact (leaves_removeFile index).bind fun _ => Within.pure _
  refine (Within.orThrow _).bind fun digest => Within.get.bind fun s => ?_
  refine Within.ite (Within.pure _) (Within.get.bind fun s => ?_)
  refine (Within.orThrow _).bind fun config => Within.get.bind fun s => ?_
  refine Within.ite (Within.pure _) ((Within.orThrow _).bind fun layers => ?_)
  exact leaves_areLayersStored _

theorem leaves_isImageFetched (dir : Path) (image : String) :
    Within (leaves P) (isImageFetched tk dir image) := by
  unfold isImageFetched
  refine (Within.orThrow _).bind fun uri => Within.get.bind fun s => ?_
  refine Within.ite (Within.pure _) (Within.tryCatch (leaves_checkImage _) fun _ => ?_)
  exact (leaves_removeAll _).bind fun _ => Within.pure _

theorem leaves_areImagesFetched (dir : Path) (images : List (Except String String)) :
    Within (leaves P) (areImagesFetched tk dir images) := by
  induction images with
  | nil => exact Within.pure _
  | cons image rest ih =>
    refine (Within.orThrow _).bind fun image => (leaves_isImageFetched dir image).bind fun _ => ?_
    exact Within.ite (Within.pure _) ih

theorem leaves_compose (dir : Path) (content : String) :
    Within (leaves P) (writeFile (dir ++ [composeFile]) content) :=
  leaves_writeFile (fun uri _ => not_isPulled (by decide +kernel) (by decide +kernel) dir uri) _

theorem leaves_isAppFetched : Within (leaves P) (isAppFetched tk app) := by
  unfold isAppFetched
  refine (Within.orThrow _).bind fun uri => Within.get.bind fun s => ?_
  refine Within.ite (Within.pure _) (Within.get.bind fun s => ?_)
  refine Within.ite (Within.pure _) (Within.get.bind fun s => ?_)
  refine (Within.orThrow _).bind fun text => Within.ite (Within.pure _) ?_
  refine Within.get.bind fun s => (Within.orThrow _).bind fun manifest => ?_
  refine (Within.orThrow _).bind fun hash => Within.get.bind fun s => ?_
  refine Within.ite (Within.pure _) (Within.get.bind fun s => ?_)
  refine (Within.orThrow _).bind fun content => Within.ite (Within.pure _) ?_
  refine Within.get.bind fun s => (Within.orThrow _).bind fun compose => ?_
  refine (leaves_compose _ _).bind fun _ => Within.get.bind fun s => ?_
  refine (Within.orThrow _).bind fun json => (Within.orThrow _).bind fun images => ?_
  exact leaves_areImagesFetched _ _

/-! The size check downloads the metadata of the layers, and removes temporary files. -/

theorem leaves_download {uri' : Uri} {dir : Path} {name : String} {size : Int}
    (h : ∀ uri, P (appDir uri) → ¬ IsPulled uri (dir ++ [name])) :
    Within (leaves P) (download env uri' dir name size) := by
  unfold download
  split
  · exact Within.throw _
  · exact (leaves_writeFile h _).bind fun _ => Within.throw _
  · exact leaves_writeFile h _

theorem not_isPulled_digest (digest : HashedDigest) (dir : Path) (uri : Uri) :
    ¬ IsPulled uri (dir ++ [digest.hash]) := by
  apply not_isPulled
  · intro h
    have hsize : Manifest.filename.utf8ByteSize = 64 := by rw [← h, digest.size_hash]
    revert hsize
    decide +kernel
  · rw [digest.size_hash]
    decide

theorem leaves_removeTmpFiles : Within (leaves P) removeTmpFiles := by
  unfold removeTmpFiles
  refine Within.get.bind fun s => Within.tryCatch ?_ fun _ => Within.pure _
  exact Within.forM fun p _ => leaves_removeFile p

theorem leaves_checkRoomInStore (probe : Probe) (store : String) (required : UInt64) :
    Within (leaves P) (checkRoomInStore env probe store required) :=
  Within.ite (Within.throw _) (Within.pure _)

theorem leaves_checkRoomTwice (probe : Bool → Probe) (store : String) (required : UInt64) :
    Within (leaves P) (checkRoomTwice env probe store required) := by
  refine Within.tryCatch (leaves_checkRoomInStore _ _ _) fun e => ?_
  cases e with
  | insufficientSpace store' stat =>
    exact leaves_removeTmpFiles.bind fun _ => leaves_checkRoomInStore _ _ _
  | other what => exact Within.throw _

theorem leaves_checkAvailableStorageInStores (skopeo docker : UInt64) :
    Within (leaves P) (checkAvailableStorageInStores env skopeo docker) := by
  refine (leaves_checkRoomTwice _ _ _).bind fun _ => ?_
  refine (leaves_checkRoomInStore _ _ _).bind fun _ => ?_
  refine Within.ite (Within.ite (Within.throw _) ?_) (Within.pure _)
  exact leaves_checkRoomTwice _ _ _

theorem leaves_metadataSizes (desc : Descriptor) :
    Within (leaves P) (metadataSizes tk env uri desc) := by
  unfold metadataSizes
  refine Within.ite (Within.tryCatch ?_ fun _ => Within.pure _) (Within.pure _)
  intro s
  rw [wp_map]
  have hsizes : Within (leaves P) (downloadPreciseSizes tk env uri desc) := by
    refine (leaves_download fun uri' _ => not_isPulled_digest _ _ uri').bind fun _ => ?_
    exact Within.get.bind fun s => Within.orThrow _
  exact hsizes s

theorem leaves_checkAppUpdateSize : Within (leaves P) (checkAppUpdateSize tk env uri) := by
  unfold checkAppUpdateSize
  refine Within.get.bind fun s => (Within.orThrow _).bind fun manifest => ?_
  refine Within.ite (Within.pure _) ?_
  have hsizes : Within (leaves P) (appUpdateSizes tk env uri manifest) := by
    refine (Within.orThrow _).bind fun desc => (leaves_metadataSizes desc).bind fun sizes => ?_
    cases sizes with
    | some sizes => exact Within.pure _
    | none => exact Within.get.bind fun s => Within.orThrow _
  refine hsizes.bind fun sizes => ?_
  cases sizes with
  | none => exact Within.pure _
  | some sizes => exact leaves_checkAvailableStorageInStores sizes.1 sizes.2

/-! Images have files of their own. -/

theorem leaves_pullImage (i : Nat) (src : String) (dir : Path) :
    Within (leaves P) (pullImage env i src dir) := by
  have hindex : ∀ content, Within (leaves P) (writeFile (dir ++ ["index.json"]) content) :=
    leaves_writeFile fun uri _ => not_isPulled (by decide +kernel) (by decide +kernel) dir uri
  refine (leaves_createDirectories dir).bind fun _ => (leaves_blobs _).bind fun _ => ?_
  cases (env.pullImage i src).index with
  | some index =>
    refine (hindex index).bind fun _ => ?_
    cases (env.pullImage i src).error with
    | some what => exact Within.throw _
    | none => exact Within.pure _
  | none =>
    cases (env.pullImage i src).error with
    | some what => exact Within.throw _
    | none => exact Within.pure _

theorem leaves_pullImages (dir : Path) (i : Nat) (images : List (Except String String)) :
    Within (leaves P) (pullImages env uri dir i images) := by
  induction images generalizing i with
  | nil => exact Within.pure _
  | cons image rest ih =>
    refine (Within.orThrow _).bind fun image => (Within.orThrow _).bind fun imageUri => ?_
    refine (Within.orThrow _).bind fun src => (leaves_pullImage i src _).bind fun _ => ?_
    exact ih (i + 1)

theorem leaves_pullAppImages : Within (leaves P) (pullAppImages tk env uri) := by
  refine (leaves_createDirectories _).bind fun _ => Within.get.bind fun s => ?_
  refine (Within.orThrow _).bind fun json => (Within.orThrow _).bind fun images => ?_
  exact leaves_pullImages _ _ _

end Frame

/-! ## Other versions -/

/-- The content of the file `uri`. -/
def uriText (uri : Uri) : String :=
  uri.registryHostname ++ "/" ++ uri.repo ++ "@" ++ uri.digest.digest

/-- The end of `pullApp`, from the download of the archive on. -/
def storeArchive (tk : Toolkit) (env : FetchEnv) (uri : Uri) (digest : HashedDigest)
    (text : String) (size : Nat) : Eff Unit := do
  download env (uri.createUri digest) (appDir uri) (digest.hash ++ Manifest.archiveExt) size
  writeFile (appDir uri ++ [Manifest.filename]) text
  writeFile (appDir uri ++ ["uri"]) (uriText uri)
  let compose ← lift ((← get).extractComposeFile tk (archivePath (appDir uri) digest.hash))
  writeFile (appDir uri ++ [composeFile]) compose

theorem leaves_storeArchive {digest : HashedDigest} {text : String} {size : Nat} :
    Within (leaves (· ≠ appDir uri)) (storeArchive tk env uri digest text size) := by
  have hwrite : ∀ name content,
      Within (leaves (· ≠ appDir uri)) (writeFile (appDir uri ++ [name]) content) :=
    fun name => leaves_writeFile fun _ hne => not_isPulled_elsewhere hne name
  have harchive : ∀ uri', appDir uri' ≠ appDir uri →
      ¬ IsPulled uri' (appDir uri ++ [digest.hash ++ Manifest.archiveExt]) :=
    fun _ hne => not_isPulled_elsewhere hne _
  refine (leaves_download harchive).bind fun _ => (hwrite _ _).bind fun _ => ?_
  refine (hwrite _ _).bind fun _ => Within.get.bind fun s => ?_
  exact (Within.orThrow _).bind fun compose => hwrite _ _

theorem leaves_pullApp : Within (leaves (· ≠ appDir uri)) (pullApp tk env uri) := by
  unfold pullApp
  refine (leaves_createDirectories _).bind fun _ => (Within.orThrow _).bind fun text => ?_
  refine (Within.orThrow _).bind fun manifest => (Within.orThrow _).bind fun digest => ?_
  have hsized : Within (leaves (· ≠ appDir uri)) (do
      let size ← lift (manifest.archiveSize tk.canonical)
      storeArchive tk env uri digest text size) :=
    (Within.orThrow _).bind fun _ => leaves_storeArchive
  refine Within.ite ((Within.orThrow _).bind fun n => ?_) hsized
  exact Within.ite (Within.throw _) hsized

theorem leaves_fetch (huri : parseUri app.2 true = .ok uri) :
    Within (leaves (· ≠ appDir uri)) (fetch tk env app) := by
  unfold fetch
  simp only [huri]
  refine (Within.tryCatch ?_ fun _ => Within.pure _).bind fun res => ?_
  · refine Within.bind ?_ fun _ => Within.pure _
    refine leaves_isAppFetched.bind fun b => ?_
    have hrest : Within (leaves (· ≠ appDir uri)) (do
        checkAppUpdateSize tk env uri
        pullAppImages tk env uri) :=
      leaves_checkAppUpdateSize.bind fun _ => leaves_pullAppImages
    exact Within.ite (leaves_pullApp.bind fun _ => hrest) hrest
  · refine Within.ite (Within.get.bind fun s => ?_) (Within.pure _)
    exact Within.ite ((leaves_removeAll _).bind fun _ => Within.pure _) (Within.pure _)

/-! ## The version itself -/

section Own

variable {reg : Registry} {digest : HashedDigest} {compose : String}

/-- What is there of a published version is from the registry. -/
structure Genuine (tk : Toolkit) (reg : Registry) (uri : Uri) (s : Store) : Prop where
  rooted : Rooted uri s
  stored : ∀ text, s.apps.read (manifestPath uri) = some text → text = reg uri.digest.hash ∧
    ∃ digest compose, Published tk reg uri digest compose ∧
      ∀ content, s.apps.read (archivePath (appDir uri) digest.hash) = some content →
        content = reg digest.hash

/-- The same before the images are pulled. -/
structure Fresh (tk : Toolkit) (reg : Registry) (uri : Uri) (digest : HashedDigest)
    (compose : String) (s : Store) : Prop where
  rooted : Rooted uri s
  archived : Archived tk reg uri digest compose
  text : ∀ text, s.apps.read (manifestPath uri) = some text → text = reg uri.digest.hash
  archive : ∀ content, s.apps.read (archivePath (appDir uri) digest.hash) = some content →
    content = reg digest.hash

theorem read_of_leaves {P : Path → Prop} (h : (leaves P).rel s t) (hP : P (appDir uri)) {p : Path}
    (hp : IsPulled uri p) {content : String} (hread : t.apps.read p = some content) :
    s.apps.read p = some content := by
  rcases (h uri hP).2 p hp with heq | hnone
  · rw [← heq, hread]
  · cases hnone.symm.trans hread

theorem Genuine.leave {P : Path → Prop} (h : Genuine tk reg uri s) (hrel : (leaves P).rel s t)
    (hP : P (appDir uri)) : Genuine tk reg uri t where
  rooted := (hrel uri hP).1 h.rooted
  stored text htext := by
    obtain ⟨heq, digest, compose, hpublished, harchive⟩ :=
      h.stored text (read_of_leaves hrel hP (.inl rfl) htext)
    refine ⟨heq, digest, compose, hpublished, fun content hcontent => ?_⟩
    exact harchive content (read_of_leaves hrel hP (.inr ⟨digest, rfl⟩) hcontent)

theorem Fresh.leave (h : Fresh tk reg uri digest compose s)
    (hrel : (leaves fun _ => True).rel s t) : Fresh tk reg uri digest compose t where
  rooted := (hrel uri trivial).1 h.rooted
  archived := h.archived
  text text htext := h.text text (read_of_leaves hrel trivial (.inl rfl) htext)
  archive content hcontent :=
    h.archive content (read_of_leaves hrel trivial (.inr ⟨digest, rfl⟩) hcontent)

theorem Fresh.genuine (h : Fresh tk reg uri digest compose s) (himages : HasImages tk compose) :
    Genuine tk reg uri s where
  rooted := h.rooted
  stored text htext :=
    ⟨h.text text htext, digest, compose, { h.archived with images := himages }, h.archive⟩

/-- Without a manifest there is nothing to say. -/
theorem genuine_of_none (h : s.apps.read (manifestPath uri) = none) : Genuine tk reg uri s where
  rooted := .inr h
  stored text htext := by cases h.symm.trans htext

/-- What can be read as an archive of the version is that of the registry. -/
theorem Genuine.archive (h : Genuine tk reg uri s) {manifest : Manifest} {hash content : String}
    (hmanifest : s.manifest tk (appDir uri) = .ok manifest)
    (hhash : manifest.archiveHash tk.canonical = .ok hash)
    (hread : s.apps.read (archivePath (appDir uri) hash) = some content) :
    ∃ digest compose, Published tk reg uri digest compose ∧ content = reg digest.hash := by
  rw [Store.manifest, Store.parseJSONFile] at hmanifest
  cases htext : s.apps.read (appDir uri ++ [Manifest.filename]) with
  | none =>
    rw [htext] at hmanifest
    cases hmanifest
  | some text =>
    rw [htext] at hmanifest
    obtain ⟨heq, digest, compose, hpublished, harchive⟩ := h.stored text htext
    obtain ⟨manifest', hmanifest', hdigest, _⟩ := hpublished.manifest
    rw [heq, hmanifest'] at hmanifest
    cases hmanifest
    have hname : hash = digest.hash := by
      obtain ⟨text', htext', hhash⟩ := bind_eq_ok.mp hhash
      obtain ⟨digest', hdigest', hhash⟩ := bind_eq_ok.mp hhash
      obtain ⟨text'', htext'', hdigest''⟩ := bind_eq_ok.mp hdigest
      cases htext'.symm.trans htext''
      cases hdigest'.symm.trans hdigest''
      exact (Except.ok.inj hhash).symm
    rw [hname] at hread
    exact ⟨digest, compose, hpublished, harchive content hread⟩

theorem archivePath_ne_of_size {name : String} (hsize : name.utf8ByteSize ≠ 68) (dir : Path)
    (digest : HashedDigest) : archivePath dir digest.hash ≠ dir ++ [name] := by
  intro h
  apply hsize
  rw [← (eq_of_concat h).2, size_archive]

/-- With the archive, the manifest and the URI of the version. -/
def withFiles (t : FileTree) (uri : Uri) (digest : HashedDigest) (archive text : String) :
    FileTree :=
  ((t.write (appDir uri ++ [digest.hash ++ Manifest.archiveExt]) archive).write
    (appDir uri ++ [Manifest.filename]) text).write (appDir uri ++ ["uri"]) (uriText uri)

theorem read_archive_withFiles (t : FileTree) (uri : Uri) (digest : HashedDigest)
    (archive text : String) :
    (withFiles t uri digest archive text).read (archivePath (appDir uri) digest.hash) =
      some archive := by
  unfold withFiles
  rw [FileTree.read_write_of_ne (archivePath_ne_of_size (by decide +kernel) _ _),
    FileTree.read_write_of_ne (archivePath_ne_of_size (by decide +kernel) _ _)]
  exact FileTree.read_write_self _ _ _

/-- And with the compose file. -/
def withCompose (t : FileTree) (uri : Uri) (digest : HashedDigest)
    (archive text compose : String) : FileTree :=
  (withFiles t uri digest archive text).write (composePath uri) compose

theorem read_manifest_withCompose (t : FileTree) (uri : Uri) (digest : HashedDigest)
    (archive text compose : String) :
    (withCompose t uri digest archive text compose).read (manifestPath uri) = some text := by
  have hcompose : manifestPath uri ≠ composePath uri := manifestFile_ne_composeFile _
  have huri : manifestPath uri ≠ appDir uri ++ ["uri"] := by
    intro h
    have hname := (eq_of_concat h).2
    revert hname
    decide
  unfold withCompose withFiles
  rw [FileTree.read_write_of_ne hcompose, FileTree.read_write_of_ne huri]
  exact FileTree.read_write_self _ _ _

theorem read_archive_withCompose (t : FileTree) (uri : Uri) (digest : HashedDigest)
    (archive text compose : String) :
    (withCompose t uri digest archive text compose).read
      (archivePath (appDir uri) digest.hash) = some archive := by
  have hcompose : archivePath (appDir uri) digest.hash ≠ composePath uri :=
    archivePath_ne_composeFile _ _
  unfold withCompose
  rw [FileTree.read_write_of_ne hcompose]
  exact read_archive_withFiles _ _ _ _ _

theorem read_compose_withCompose (t : FileTree) (uri : Uri) (digest : HashedDigest)
    (archive text compose : String) :
    (withCompose t uri digest archive text compose).read (composePath uri) = some compose :=
  FileTree.read_write_self _ _ _

theorem has_withFiles {t : FileTree} {q : Path} (h : t.has q = true) (uri : Uri)
    (digest : HashedDigest) (archive text : String) :
    (withFiles t uri digest archive text).has q = true :=
  FileTree.has_write (FileTree.has_write (FileTree.has_write h _ _) _ _) _ _

/-- A downloaded archive is written, with the manifest, and then the compose file in it. -/
theorem wp_storeArchive {Q : Unit → Store → Prop} {E : Exn → Store → Prop} {content text : String}
    {size : Nat} (h : env.downloadBlob (uri.createUri digest)
      (digest.hash ++ Manifest.archiveExt) size = .done content) :
    wp (storeArchive tk env uri digest text size) Q E s =
      wp (do writeFile (appDir uri ++ [composeFile]) (← lift (tk.extract content))) Q E
        { s with apps := withFiles s.apps uri digest content text } := by
  have hread := read_archive_withFiles s.apps uri digest content text
  unfold storeArchive download
  rw [h]
  simp only [wp_bind, writeFile, wp_modify, wp_get]
  rw [wp_lift, wp_lift, Store.extractComposeFile, Store.readFile]
  rw [withFiles] at hread
  simp only [hread]
  rfl

/-- What goes wrong goes wrong in the new directory. -/
theorem wp_storeArchive_serving (hserves : env.Serves tk reg)
    (hdir : s.apps.has (appDir uri) = true) {text : String} {size : Nat}
    (htext : text = reg uri.digest.hash)
    (harchived : ∀ content compose, content = reg digest.hash → tk.sha256 content = digest.hash →
      content.utf8ByteSize = size → tk.extract content = .ok compose →
        Archived tk reg uri digest compose) :
    wp (storeArchive tk env uri digest text size)
      (fun _ t => ∃ compose, Fresh tk reg uri digest compose t ∧
        t.apps.read (manifestPath uri) = some (reg uri.digest.hash) ∧
        t.apps.read (composePath uri) = some compose)
      (fun _ t => Rooted uri t) s := by
  cases hblob : env.downloadBlob (uri.createUri digest) (digest.hash ++ Manifest.archiveExt)
      size with
  | unopened =>
    unfold storeArchive download
    rw [hblob]
    exact .inl hdir
  | failed content what =>
    unfold storeArchive download
    rw [hblob]
    exact .inl (FileTree.has_write hdir _ _)
  | done content =>
    rw [wp_storeArchive hblob, wp_bind, wp_lift]
    obtain ⟨hcontent, hhash, hsize⟩ := hserves.blob _ _ _ _ hblob
    cases hcompose : tk.extract content with
    | error what => exact .inl (has_withFiles hdir _ _ _ _)
    | ok compose =>
      have htext' := read_manifest_withCompose s.apps uri digest content text compose
      have harchive := read_archive_withCompose s.apps uri digest content text compose
      have hdir' := FileTree.has_write (has_withFiles hdir uri digest content text)
        (composePath uri) compose
      refine ⟨compose, ⟨.inl hdir', ?_, ?_, ?_⟩, ?_, ?_⟩
      · exact harchived content compose hcontent hhash (Int.ofNat_inj.mp hsize) hcompose
      · intro text' h
        rw [← htext]
        exact Option.some.inj (h.symm.trans htext')
      · intro content' h
        exact (Option.some.inj (h.symm.trans harchive)).trans hcontent
      · rw [← htext]
        exact htext'
      · exact read_compose_withCompose _ _ _ _ _ _

/-- A failure here is one of the text. -/
theorem wp_lift_bind {α β : Type} {x : Except String α} {f : α → Eff β} {Q : β → Store → Prop}
    {E : Exn → Store → Prop} (hE : ∀ what, E (.other what) s)
    (hf : ∀ a, x = .ok a → wp (f a) Q E s) : wp (lift x >>= f) Q E s := by
  rw [wp_bind, wp_lift]
  cases x with
  | error what => exact hE what
  | ok a => exact hf a rfl

theorem wp_pullApp_serving (hserves : env.Serves tk reg) :
    wp (pullApp tk env uri)
      (fun _ t => ∃ digest compose, Fresh tk reg uri digest compose t ∧
        t.apps.read (manifestPath uri) = some (reg uri.digest.hash) ∧
        t.apps.read (composePath uri) = some compose)
      (fun _ t => Rooted uri t) s := by
  have hdir : (s.apps.mkdirs (appDir uri)).has (appDir uri) = true :=
    (FileTree.has_mkdirs _ _ _).mpr (.inr (List.prefix_refl _))
  unfold pullApp createDirectories
  dsimp only
  rw [wp_bind, wp_modify]
  refine wp_lift_bind (fun _ => .inl hdir) fun text htext => ?_
  obtain ⟨htext, hhash, haccepts⟩ := hserves.manifest _ _ _ _ htext
  refine wp_lift_bind (fun _ => .inl hdir) fun manifest hmanifest => ?_
  refine wp_lift_bind (fun _ => .inl hdir) fun digest hdigest => ?_
  have hsized : wp (do
      let size ← lift (manifest.archiveSize tk.canonical)
      storeArchive tk env uri digest text size)
      (fun _ t => ∃ digest compose, Fresh tk reg uri digest compose t ∧
        t.apps.read (manifestPath uri) = some (reg uri.digest.hash) ∧
        t.apps.read (composePath uri) = some compose)
      (fun _ t => Rooted uri t) { s with apps := s.apps.mkdirs (appDir uri) } := by
    refine wp_lift_bind (fun _ => .inl hdir) fun size hsize => ?_
    refine wp_mono (wp_storeArchive_serving hserves hdir htext ?_) ?_ fun _ _ h => h
    · intro content compose hcontent hsha hcount hcompose
      rw [hcontent] at hsha hcount hcompose
      rw [htext] at hhash haccepts hmanifest
      rw [← hcount] at hsize
      exact ⟨⟨hhash, haccepts⟩, ⟨manifest, hmanifest, hdigest, hsize⟩, hsha, hcompose⟩
    · rintro _ t ⟨compose, hfresh⟩
      exact ⟨digest, compose, hfresh⟩
  rw [wp_ite]
  split
  · refine wp_lift_bind (fun _ => .inl hdir) fun size _ => ?_
    rw [wp_ite]
    split
    · exact .inl hdir
    · exact hsized
  · exact hsized

/-- The images are pulled only if all of them have URIs. -/
theorem wp_pullImages_uris {dir : Path} {i : Nat} {images : List (Except String String)} :
    wp (pullImages env uri dir i images) (fun _ _ => ∀ image ∈ images, HasUri image)
      (fun _ _ => True) s := by
  induction images generalizing i s with
  | nil => exact List.forall_mem_nil _
  | cons image rest ih =>
    unfold pullImages
    refine wp_lift_bind (fun _ => trivial) fun text htext => ?_
    refine wp_lift_bind (fun _ => trivial) fun imageUri huri => ?_
    refine wp_lift_bind (fun _ => trivial) fun src _ => ?_
    rw [wp_bind]
    refine wp_of_run (fun _ t _ => ?_) fun _ _ _ => trivial
    refine wp_mono ih (fun _ _ hrest => ?_) fun _ _ h => h
    exact List.forall_mem_cons.mpr ⟨⟨text, imageUri, htext, huri⟩, hrest⟩

theorem wp_pullAppImages_uris (hcompose : s.apps.read (composePath uri) = some compose) :
    wp (pullAppImages tk env uri) (fun _ _ => HasImages tk compose) (fun _ _ => True) s := by
  unfold pullAppImages createDirectories
  dsimp only
  rw [wp_bind, wp_modify, wp_bind, wp_get]
  refine wp_lift_bind (fun _ => trivial) fun json hjson => ?_
  refine wp_lift_bind (fun _ => trivial) fun images himages => ?_
  refine wp_mono wp_pullImages_uris (fun _ _ huris => ?_) fun _ _ h => h
  have hread : (s.apps.mkdirs (appDir uri ++ ["images"])).read (appDir uri ++ [composeFile]) =
      some compose := (FileTree.read_mkdirs _ _ _).trans hcompose
  rw [Store.composeInfo, hread] at hjson
  exact ⟨json, hjson, images, himages, huris⟩

/-- A version that is downloaded is published if its images have URIs. -/
theorem wp_finish_serving (hs : Fresh tk reg uri digest compose s)
    (htext : s.apps.read (manifestPath uri) = some (reg uri.digest.hash))
    (hcompose : s.apps.read (composePath uri) = some compose) :
    wp (do
        checkAppUpdateSize tk env uri
        pullAppImages tk env uri) (fun _ t => Genuine tk reg uri t)
      (fun _ t => Rooted uri t) s := by
  obtain ⟨manifest, hmanifest, _⟩ := hs.archived.manifest
  have hstored : s.manifest tk (appDir uri) = .ok manifest := by
    rw [manifestPath] at htext
    rw [Store.manifest, Store.parseJSONFile, htext]
    exact hmanifest
  have hrooted : ∀ {u}, (leaves fun _ => True).rel s u → Rooted uri u :=
    fun hu => (hu uri trivial).1 hs.rooted
  rw [wp_bind]
  refine wp_mono (wp_and (leaves_checkAppUpdateSize (P := fun _ => True) s)
    (wp_checkAppUpdateSize hstored)) ?_ fun _ _ h => hrooted h.1
  rintro _ t ⟨ht, _, hkept⟩
  have hcompose' : t.apps.read (composePath uri) = some compose :=
    (congrArg Prod.fst hkept).trans hcompose
  refine wp_mono (wp_and (leaves_pullAppImages (P := fun _ => True) t)
    (wp_pullAppImages_uris hcompose')) ?_ fun _ u hu => hrooted ((leaves _).trans ht hu.1)
  rintro _ u ⟨hu, himages⟩
  exact (hs.leave ((leaves _).trans ht hu)).genuine himages

/-- What is there is kept, and what is pulled is published at the end. -/
theorem wp_fetchApp_serving (hserves : env.Serves tk reg) (hs : Genuine tk reg uri s) :
    wp (fetchApp tk env app uri) (fun _ t => Genuine tk reg uri t) (fun _ t => Rooted uri t) s := by
  have hkeep : ∀ {u : Store}, Genuine tk reg uri u → wp (do
      checkAppUpdateSize tk env uri
      pullAppImages tk env uri) (fun _ t => Genuine tk reg uri t) (fun _ t => Rooted uri t) u := by
    intro u hu
    have hrest : Within (leaves fun _ => True) (do
        checkAppUpdateSize tk env uri
        pullAppImages tk env uri) :=
      leaves_checkAppUpdateSize.bind fun _ => leaves_pullAppImages
    refine wp_mono (hrest u) (fun _ t ht => hu.leave ht trivial) fun _ t ht => ?_
    exact (ht uri trivial).1 hu.rooted
  unfold fetchApp
  rw [wp_bind]
  refine wp_mono (leaves_isAppFetched (P := fun _ => True) s) (fun fetched t ht => ?_)
    fun _ t ht => (ht uri trivial).1 hs.rooted
  rw [wp_ite]
  split
  · rw [wp_bind]
    refine wp_mono (wp_pullApp_serving hserves) ?_ fun _ _ h => h
    rintro _ u ⟨digest, compose, hfresh, htext, hcompose⟩
    exact wp_finish_serving hfresh htext hcompose
  · exact hkeep (hs.leave ht trivial)

/-- A failed `fetch` leaves no manifest. -/
theorem genuine_fetch_own (hserves : env.Serves tk reg) (huri : parseUri app.2 true = .ok uri)
    (hs : Genuine tk reg uri s) : Genuine tk reg uri (after (fetch tk env app) s) := by
  apply after_of_wp
  unfold fetch
  simp only [huri]
  rw [wp_bind, wp_tryCatch, wp_bind]
  refine wp_mono (wp_fetchApp_serving hserves hs) (fun _ t ht => ht) fun e t ht => ?_
  rw [wp_pure, if_pos (e.status_result_ne_ok tk), wp_bind, wp_get]
  have hgone : ((t.apps.removeAll (appDir uri)).read (manifestPath uri)) = none := by
    have hbelow : appDir uri <+: manifestPath uri := List.prefix_append _ _
    rw [FileTree.read, FileTree.node_removeAll, if_pos (List.isPrefixOf_iff_prefix.mpr hbelow)]
  rcases ht with hdir | hnone
  · rw [if_pos hdir]
    exact genuine_of_none hgone
  · cases hdir : t.apps.has (appDir uri) with
    | true => exact genuine_of_none hgone
    | false => exact genuine_of_none hnone

theorem Genuine.congr {uri' : Uri} (h : Genuine tk reg uri s) (hdir : appDir uri' = appDir uri) :
    Genuine tk reg uri' s := by
  have hhash : uri'.digest.hash = uri.digest.hash :=
    List.head_eq_of_cons_eq (List.tail_eq_of_cons_eq hdir)
  have hpath : manifestPath uri' = manifestPath uri := by rw [manifestPath, manifestPath, hdir]
  refine ⟨?_, fun text htext => ?_⟩
  · rw [Rooted, hdir, hpath]
    exact h.rooted
  · rw [hpath] at htext
    obtain ⟨heq, digest, compose, hpublished, harchive⟩ := h.stored text htext
    rw [hhash, hdir]
    refine ⟨heq, digest, compose, ⟨⟨?_, ?_, hpublished.archive, hpublished.extract⟩,
      hpublished.images⟩, harchive⟩
    · rw [hhash]
      exact hpublished.text
    · rw [hhash]
      exact hpublished.manifest

/-- The versions in the store are published after a `fetch` if they were before. -/
theorem genuine_fetch (hserves : env.Serves tk reg) (hs : ∀ uri, Genuine tk reg uri s) (uri : Uri) :
    Genuine tk reg uri (after (fetch tk env app) s) := by
  cases hparse : parseUri app.2 true with
  | error what =>
    have hsame : after (fetch tk env app) s = s := by
      unfold fetch
      rw [hparse]
      rfl
    rw [hsame]
    exact hs uri
  | ok uri' =>
    by_cases hdir : appDir uri = appDir uri'
    · exact (genuine_fetch_own hserves hparse (hs uri')).congr hdir
    · have hrel : (leaves (· ≠ appDir uri')).rel s (after (fetch tk env app) s) :=
        after_of_wp (P := (leaves _).rel s) (leaves_fetch hparse s)
      exact (hs uri).leave hrel hdir

end Own

/-! ## Fetching a published version -/

section Serving

variable {reg : Registry} {digest : HashedDigest} {compose : String}

/-- Everything that passes the checks of the client is served, images are there already, and
nothing is known about the volumes. -/
def serving (tk : Toolkit) (reg : Registry) : FetchEnv where
  getAppManifest uri _ size :=
    if tk.sha256 (reg uri.digest.hash) = uri.digest.hash ∧
        acceptsManifest size (reg uri.digest.hash) = true then .ok (reg uri.digest.hash)
    else .error "Failed to download App manifest"
  downloadBlob uri _ size :=
    if tk.sha256 (reg uri.digest.hash) = uri.digest.hash ∧
        ((reg uri.digest.hash).utf8ByteSize : Int) = size then .done (reg uri.digest.hash)
    else .failed "" "Failed to download App blob"
  space _ := undefinedStat
  arch := ""
  sameVolume := false
  imageSrc _ image := .ok ("docker://" ++ image)
  pullImage _ _ := { blobs := [], index := none, error := none }

theorem serves_serving : (serving tk reg).Serves tk reg where
  manifest uri format size text h := by
    unfold serving at h
    dsimp only at h
    split at h
    · next hchecked =>
      cases h
      exact ⟨rfl, hchecked⟩
    · cases h
  blob uri name size content h := by
    unfold serving at h
    dsimp only at h
    split at h
    · next hchecked =>
      cases h
      exact ⟨rfl, hchecked⟩
    · cases h

/-- The manifest and the archive of the version are in the store. -/
structure Holds (reg : Registry) (uri : Uri) (digest : HashedDigest) (s : Store) : Prop where
  text : s.apps.read (manifestPath uri) = some (reg uri.digest.hash)
  archive : s.apps.read (archivePath (appDir uri) digest.hash) = some (reg digest.hash)

/-- The versions that have no directory, other than this one, get none. -/
def StayAbsent (uri : Uri) (s t : Store) : Prop :=
  ∀ uri' : Uri, appDir uri' ≠ appDir uri → s.apps.has (appDir uri') = false →
    t.apps.has (appDir uri') = false

theorem not_prefix_appDir {uri' : Uri} (hne : appDir uri' ≠ appDir uri) {p : Path}
    (hp : appDir uri <+: p) : ¬ appDir uri' <+: p := by
  intro hp'
  have hlength : (appDir uri').length = (appDir uri).length := rfl
  have hbegins := List.prefix_of_prefix_length_le hp' hp hlength.le
  exact hne (hbegins.eq_of_length hlength)

theorem stayAbsent_mkdirs {p : Path} (hp : appDir uri <+: p) (s : Store) :
    StayAbsent uri s { s with apps := s.apps.mkdirs p } := by
  intro uri' hne habsent
  apply Bool.eq_false_iff.mpr
  intro hhas
  rcases (FileTree.has_mkdirs _ _ _).mp hhas with h | h
  · cases habsent.symm.trans h
  · exact not_prefix_appDir hne hp h

theorem stayAbsent_write {p : Path} (hp : 2 < p.length) (content : String) (s : Store) :
    StayAbsent uri s { s with apps := s.apps.write p content } := by
  intro uri' _ habsent
  have hne : appDir uri' ≠ p := by
    intro h
    rw [← h] at hp
    exact absurd hp (by simp [appDir])
  show (s.apps.write p content).has (appDir uri') = false
  rw [FileTree.has, FileTree.node_write_of_ne hne]
  exact habsent

theorem StayAbsent.trans {u : Store} (h : StayAbsent uri s t) (h' : StayAbsent uri t u) :
    StayAbsent uri s u := fun uri' hne habsent => h' uri' hne (h uri' hne habsent)

/-- Only directories are new. -/
structure NewDirs (uri : Uri) (s t : Store) : Prop where
  read : ∀ p, t.apps.read p = s.apps.read p
  absent : StayAbsent uri s t

theorem newDirs_mkdirs {p : Path} (hp : appDir uri <+: p) (s : Store) :
    NewDirs uri s { s with apps := s.apps.mkdirs p } :=
  ⟨FileTree.read_mkdirs _ _, stayAbsent_mkdirs hp s⟩

theorem NewDirs.trans {u : Store} (h : NewDirs uri s t) (h' : NewDirs uri t u) : NewDirs uri s u :=
  ⟨fun p => (h'.read p).trans (h.read p), h.absent.trans h'.absent⟩

theorem wp_pullImages_serving {dir : Path} (hdir : appDir uri <+: dir) {i : Nat}
    {images : List (Except String String)} (himages : ∀ image ∈ images, HasUri image) :
    wp (pullImages (serving tk reg) uri dir i images) (fun _ t => NewDirs uri s t)
      (fun _ _ => False) s := by
  induction images generalizing i s with
  | nil => exact ⟨fun _ => rfl, fun _ _ h => h⟩
  | cons image rest ih =>
    obtain ⟨⟨text, imageUri, rfl, huri⟩, hrest⟩ := List.forall_mem_cons.mp himages
    unfold pullImages
    rw [wp_bind, wp_lift]
    dsimp only
    rw [wp_bind, wp_lift, huri]
    have hnew : NewDirs uri s { s with apps := s.apps.mkdirs (dir ++ imageDir imageUri) } :=
      newDirs_mkdirs (hdir.trans (List.prefix_append _ _)) s
    exact wp_mono (ih hrest) (fun _ _ h => hnew.trans h) fun _ _ h => h

theorem wp_pullAppImages_serving (himages : HasImages tk compose)
    (hcompose : s.apps.read (composePath uri) = some compose) :
    wp (pullAppImages tk (serving tk reg) uri) (fun _ t => NewDirs uri s t)
      (fun _ _ => False) s := by
  obtain ⟨json, hjson, images, himages, huris⟩ := himages
  have hdir : appDir uri <+: appDir uri ++ ["images"] := List.prefix_append _ _
  have hread : (s.apps.mkdirs (appDir uri ++ ["images"])).read (appDir uri ++ [composeFile]) =
      some compose := (FileTree.read_mkdirs _ _ _).trans hcompose
  unfold pullAppImages createDirectories
  dsimp only
  rw [wp_bind, wp_modify, wp_bind, wp_get, wp_bind, wp_lift, Store.composeInfo, hread]
  dsimp only
  rw [hjson]
  dsimp only
  rw [wp_bind, wp_lift, himages]
  refine wp_mono (wp_pullImages_serving hdir huris) (fun _ _ h => ?_) fun _ _ h => h
  exact (newDirs_mkdirs hdir s).trans h

/-- With the directory of the version and its files. -/
def Store.withVersion (reg : Registry) (uri : Uri) (digest : HashedDigest) (compose : String)
    (s : Store) : Store :=
  { s with
    apps := withCompose (s.apps.mkdirs (appDir uri)) uri digest (reg digest.hash)
      (reg uri.digest.hash) compose }

theorem wp_pullApp_archived (h : Archived tk reg uri digest compose) :
    wp (pullApp tk (serving tk reg) uri) (fun _ t => t = s.withVersion reg uri digest compose)
      (fun _ _ => False) s := by
  obtain ⟨manifest, hmanifest, hdigest, hsize⟩ := h.manifest
  have htext : (serving tk reg).getAppManifest uri Manifest.format none =
      .ok (reg uri.digest.hash) := if_pos h.text
  have hblob : (serving tk reg).downloadBlob (uri.createUri digest)
      (digest.hash ++ Manifest.archiveExt) (reg digest.hash).utf8ByteSize =
        .done (reg digest.hash) := if_pos ⟨h.archive, rfl⟩
  have hvolume : ((serving tk reg).space .archive).isOk = false := rfl
  unfold pullApp createDirectories
  dsimp only
  rw [wp_bind, wp_modify, wp_bind, wp_lift, htext]
  dsimp only
  rw [wp_bind, wp_lift, hmanifest]
  dsimp only
  rw [wp_bind, wp_lift, hdigest]
  dsimp only
  rw [hvolume, if_neg (by decide), wp_bind, wp_lift, hsize]
  dsimp only
  refine (wp_storeArchive hblob).mpr ?_
  rw [wp_bind, wp_lift, h.extract]
  rfl

theorem holds_withVersion : Holds reg uri digest (s.withVersion reg uri digest compose) :=
  ⟨read_manifest_withCompose _ _ _ _ _ _, read_archive_withCompose _ _ _ _ _ _⟩

theorem stayAbsent_withVersion : StayAbsent uri s (s.withVersion reg uri digest compose) := by
  refine (stayAbsent_mkdirs (List.prefix_refl _) s).trans ?_
  refine (stayAbsent_write (p := appDir uri ++ [digest.hash ++ Manifest.archiveExt])
    (by simp [appDir]) (reg digest.hash) _).trans ?_
  refine (stayAbsent_write (p := manifestPath uri) (by simp [manifestPath, appDir])
    (reg uri.digest.hash) _).trans ?_
  refine (stayAbsent_write (p := appDir uri ++ ["uri"]) (by simp [appDir]) (uriText uri) _).trans ?_
  exact stayAbsent_write (p := composePath uri) (by simp [composePath, appDir]) compose _

/-- The rest of a `fetch` that knows no architecture pulls the images. -/
theorem wp_finish_published (h : Published tk reg uri digest compose)
    (hs : Holds reg uri digest s) (hcompose : s.apps.read (composePath uri) = some compose) :
    wp (do
        checkAppUpdateSize tk (serving tk reg) uri
        pullAppImages tk (serving tk reg) uri) (fun _ t => NewDirs uri s t)
      (fun _ _ => False) s := by
  obtain ⟨manifest, hmanifest, _⟩ := h.manifest
  have hstored : s.manifest tk (appDir uri) = .ok manifest := by
    have htext := hs.text
    rw [manifestPath] at htext
    rw [Store.manifest, Store.parseJSONFile, htext]
    exact hmanifest
  have harch : (serving tk reg).arch = "" := rfl
  unfold checkAppUpdateSize
  rw [wp_bind, wp_bind, wp_get, wp_bind, wp_lift, hstored]
  dsimp only
  rw [if_pos harch]
  exact wp_pullAppImages_serving h.images hcompose

theorem wp_isAppFetched_absent {Q : Bool → Store → Prop} {E : Exn → Store → Prop}
    (huri : parseUri app.2 true = .ok uri) (hdir : s.apps.has (appDir uri) = false)
    (hQ : Q false s) : wp (isAppFetched tk app) Q E s := by
  unfold isAppFetched
  rw [wp_bind, wp_lift, huri]
  dsimp only
  rw [wp_bind, wp_get, hdir]
  exact hQ

/-- A published version that has no directory is fetched. -/
theorem fetch_serving (h : Published tk reg uri digest compose)
    (huri : parseUri app.2 true = .ok uri) (hdir : s.apps.has (appDir uri) = false) :
    Holds reg uri digest (after (fetch tk (serving tk reg) app) s) ∧
      StayAbsent uri s (after (fetch tk (serving tk reg) app) s) := by
  apply after_of_wp (P := fun t => Holds reg uri digest t ∧ StayAbsent uri s t)
  have hcompose : (s.withVersion reg uri digest compose).apps.read (composePath uri) =
      some compose := read_compose_withCompose _ _ _ _ _ _
  unfold fetch
  simp only [huri]
  rw [wp_bind, wp_tryCatch, wp_bind]
  have hsteps : wp (fetchApp tk (serving tk reg) app uri)
      (fun _ t => Holds reg uri digest t ∧ StayAbsent uri s t) (fun _ _ => False) s := by
    unfold fetchApp
    rw [wp_bind]
    refine wp_isAppFetched_absent huri hdir ?_
    rw [if_pos (by decide), wp_bind]
    refine wp_mono (wp_pullApp_archived h.toArchived) ?_ fun _ _ h => h
    rintro _ t rfl
    refine wp_mono (wp_finish_published h holds_withVersion hcompose) ?_ fun _ _ h => h
    intro _ t hnew
    refine ⟨⟨?_, ?_⟩, stayAbsent_withVersion.trans hnew.absent⟩
    · rw [hnew.read]
      exact holds_withVersion.text
    · rw [hnew.read]
      exact holds_withVersion.archive
  exact wp_mono hsteps (fun _ _ h => h) fun _ _ h => h.elim

end Serving

end RestorableAppEngine
end Docker
end AkLite
