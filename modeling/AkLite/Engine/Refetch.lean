/-
A re-fetch that fails.

An app that is found not to be running is fetched again, also when it is complete in the
store.  `fetch` then downloads no manifest and no archive, but it still checks the size of
the update and pulls every image.  If one of these fails, `fetch` removes the directory of
the app like that of an app it could not complete.

So a complete app survives the call exactly if the update fits and every image is pulled,
that is, if the call does not fail (`refetch_keeps_app_iff`).
-/
import AkLite.Engine.Intact

namespace AkLite
namespace Docker
namespace RestorableAppEngine

open Lib
open Client (App UsageInfo)

variable {tk : Toolkit} {env : FetchEnv} {app : App} {uri : Uri} {s t : Store}

/-! ## The condition -/

/-- The images of an app, by its archive. -/
def Store.images (tk : Toolkit) (s : Store) (uri : Uri) :
    Except String (List (Except String String)) := do
  let manifest ← s.manifest tk (appDir uri)
  let hash ← manifest.archiveHash tk.canonical
  let compose ← s.extractComposeFile tk (archivePath (appDir uri) hash)
  serviceImages (← tk.yaml2json compose)

/-- The sizes from layer metadata, if they are downloaded and of use. -/
def FetchEnv.downloadedSizes (tk : Toolkit) (env : FetchEnv) (uri : Uri) (desc : Descriptor)
    (stored : String → Bool) : Option (UInt64 × UInt64) :=
  match env.downloadBlob (uri.createUri desc.digest) desc.digest.hash desc.size with
  | .done content => (preciseSizes tk env.arch (tk.parseJSON content) stored).toOption
  | _ => none

/-- What the update takes in the two stores, where that is known. -/
def FetchEnv.updateSizes (tk : Toolkit) (env : FetchEnv) (uri : Uri) (manifest : Manifest)
    (stored : String → Bool) : Except String (Option (UInt64 × UInt64)) := do
  let desc ← manifest.layersMetaDescr tk.canonical
  match if desc.isPresent then env.downloadedSizes tk uri desc stored else none with
  | some sizes => return some sizes
  | none => estimatedSizes tk env uri manifest stored

/-- There is room at the first or the second look. -/
def FetchEnv.HasRoomAt (env : FetchEnv) (probe : Bool → Probe) (required : Nat) : Prop :=
  required ≤ (env.space (probe false)).available ∨ required ≤ (env.space (probe true)).available

structure FetchEnv.HasRoom (env : FetchEnv) (skopeo docker : UInt64) : Prop where
  inSkopeo : env.HasRoomAt .skopeo skopeo.toNat
  inDocker : docker.toNat ≤ (env.space .docker).available
  inBoth : env.sameVolume = true → skopeo.toNat + docker.toNat < UInt64.size ∧
    env.HasRoomAt .both (skopeo.toNat + docker.toNat)

/-- Without an architecture no size is checked. -/
def FetchEnv.Fits (tk : Toolkit) (env : FetchEnv) (uri : Uri) (manifest : Manifest)
    (stored : String → Bool) : Prop :=
  env.arch = "" ∨ ∃ sizes, env.updateSizes tk uri manifest stored = .ok sizes ∧
    ∀ skopeo docker, sizes = some (skopeo, docker) → env.HasRoom skopeo docker

/-- The images are pulled, the first one as that of service `i`. -/
def FetchEnv.Pulls (env : FetchEnv) (uri : Uri) (i : Nat) (images : List (Except String String)) :
    Prop :=
  ∀ j image, images[j]? = some (.ok image) →
    ∃ src, env.imageSrc uri image = .ok src ∧ (env.pullImage (i + j) src).error = none

/-- The answers under which a complete app is fetched again without a failure. -/
structure FetchEnv.Completes (tk : Toolkit) (env : FetchEnv) (uri : Uri) (s : Store) : Prop where
  fits : ∀ manifest, s.manifest tk (appDir uri) = .ok manifest → env.Fits tk uri manifest s.hasBlob
  pulls : ∀ images, s.images tk uri = .ok images → env.Pulls uri 0 images

/-! ## Checking an app -/

/-- The image of a service has a URI. -/
def HasUri (image : Except String String) : Prop :=
  ∃ text uri, image = .ok text ∧ parseUri text false = .ok uri

/-- What a complete app has, and what checking it leaves. -/
structure Complete (tk : Toolkit) (uri : Uri) (s t : Store) : Prop where
  manifest : ∃ manifest, s.manifest tk (appDir uri) = .ok manifest
  images : ∃ images, s.images tk uri = .ok images ∧ ∀ image ∈ images, HasUri image
  same_manifest : t.manifest tk (appDir uri) = s.manifest tk (appDir uri)
  same_blobs : t.blobs = s.blobs
  /-- The compose file is the one of the archive. -/
  compose : (t.composeInfo tk (appDir uri ++ [composeFile]) >>= serviceImages) = s.images tk uri

theorem complete_of_run (huri : parseUri app.2 true = .ok uri)
    (hrun : isAppFetched tk app s = .ok true t) : Complete tk uri s t := by
  obtain ⟨hfetched, rfl⟩ := fetched_of_run huri hrun
  obtain ⟨manifest, hmanifest, _⟩ := hfetched.archive.archive
  obtain ⟨compose, hcompose⟩ := hfetched.archive.compose
  obtain ⟨json, hjson, images, himages, hall⟩ := hfetched.images
  have hstore := recomposed_eq hcompose
  have hstored : s.images tk uri = .ok images := by
    have hsplit : s.images tk uri =
        s.archiveCompose tk uri >>= fun compose => tk.yaml2json compose >>= serviceImages := by
      simp only [Store.images, Store.archiveCompose, bind_assoc]
    have hyaml : tk.yaml2json compose = .ok json := by
      rw [hstore] at hjson
      simpa [Store.composeInfo] using hjson
    rw [hsplit, hcompose, ok_bind, hyaml, ok_bind, himages]
  refine ⟨⟨manifest, hmanifest⟩, ⟨images, hstored, fun image himage => ?_⟩, ?_, ?_, ?_⟩
  · obtain ⟨text, htext, imageUri, himageUri, _⟩ := hall image himage
    exact ⟨text, imageUri, htext, himageUri⟩
  · rw [hstore]
    simp only [Store.manifest, Store.parseJSONFile,
      FileTree.read_write_of_ne (manifestFile_ne_composeFile (appDir uri))]
  · rw [hstore]
  · rw [hstored, bind_eq_ok]
    exact ⟨json, hjson, himages⟩

/-! ## The size check -/

/-- The file and the blobs stay. -/
def keepsFile (p : Path) : Frame Store := Frame.same fun s => (s.apps.read p, s.blobs)

theorem within_removeFile {p q : Path} (h : p ≠ q) : Within (keepsFile p) (removeFile q) := by
  unfold removeFile
  intro s
  rw [wp_bind, wp_get, wp_bind, wp_lift]
  cases hremove : s.apps.remove q with
  | error what => exact rfl
  | ok apps =>
    have hread : apps.read p = s.apps.read p := FileTree.read_remove_of_ne hremove h
    exact congrArg (·, s.blobs) hread

/-- Whatever happens to the temporary files, the caller goes on. -/
theorem wp_removeTmpFiles {p : Path} (h : isTmp p = false) :
    wp removeTmpFiles (fun _ t => (keepsFile p).rel s t) (fun _ _ => False) s := by
  unfold removeTmpFiles
  rw [wp_bind, wp_get, wp_tryCatch]
  have hfiles : ∀ q ∈ s.apps.paths.filter isTmp, Within (keepsFile p) (removeFile q) := by
    intro q hq
    refine within_removeFile fun heq => ?_
    rw [← heq, List.mem_filter, h] at hq
    exact absurd hq.2 (by decide)
  exact wp_mono (Within.forM hfiles s) (fun _ _ ht => ht) fun _ _ ht => ht

theorem wp_checkRoomInStore {probe : Probe} {store : String} {required : UInt64} :
    wp (checkRoomInStore env probe store required)
      (fun _ t => t = s ∧ required.toNat ≤ (env.space probe).available)
      (fun e t => t = s ∧ ¬ required.toNat ≤ (env.space probe).available ∧
        ∃ stat, e = .insufficientSpace store stat) s := by
  unfold checkRoomInStore
  dsimp only
  split
  · next h => exact ⟨rfl, Nat.not_le.mpr h, _, rfl⟩
  · next h => exact ⟨rfl, Nat.not_lt.mp h⟩

theorem wp_checkRoomTwice {p : Path} (hp : isTmp p = false) {probe : Bool → Probe} {store : String}
    {required : UInt64} :
    wp (checkRoomTwice env probe store required)
      (fun _ t => env.HasRoomAt probe required.toNat ∧ (keepsFile p).rel s t)
      (fun _ _ => ¬ env.HasRoomAt probe required.toNat) s := by
  unfold checkRoomTwice
  rw [wp_tryCatch]
  refine wp_mono wp_checkRoomInStore ?_ ?_
  · rintro _ t ⟨rfl, hroom⟩
    exact ⟨.inl hroom, (keepsFile p).refl t⟩
  · rintro _ t ⟨rfl, hfirst, stat, rfl⟩
    dsimp only
    rw [wp_bind]
    refine wp_mono (wp_removeTmpFiles hp) (fun _ u hu => ?_) fun _ _ h => h.elim
    refine wp_mono wp_checkRoomInStore ?_ ?_
    · rintro _ v ⟨rfl, hroom⟩
      exact ⟨.inr hroom, hu⟩
    · rintro _ v ⟨rfl, hsecond, _⟩
      exact not_or.mpr ⟨hfirst, hsecond⟩

/-- The code's overflow test on a sum. -/
theorem sum_overflows_iff (a b : UInt64) :
    (a + b < a || a + b < b) = true ↔ UInt64.size ≤ a.toNat + b.toNat := by
  have ha := a.toNat_lt
  have hb := b.toNat_lt
  rw [Bool.or_eq_true, decide_eq_true_iff, decide_eq_true_iff, UInt64.lt_iff_toNat_lt,
    UInt64.lt_iff_toNat_lt, UInt64.toNat_add, UInt64.size]
  omega

theorem toNat_sum {a b : UInt64} (h : ¬ UInt64.size ≤ a.toNat + b.toNat) :
    (a + b).toNat = a.toNat + b.toNat := by
  rw [UInt64.size] at h
  rw [UInt64.toNat_add]
  omega

theorem wp_checkAvailableStorageInStores {p : Path} (hp : isTmp p = false)
    {skopeo docker : UInt64} :
    wp (checkAvailableStorageInStores env skopeo docker)
      (fun _ t => env.HasRoom skopeo docker ∧ (keepsFile p).rel s t)
      (fun _ _ => ¬ env.HasRoom skopeo docker) s := by
  unfold checkAvailableStorageInStores
  rw [wp_bind]
  refine wp_mono (wp_checkRoomTwice hp) (fun _ t ht => ?_) fun _ _ hno h => hno h.inSkopeo
  obtain ⟨hskopeo, ht⟩ := ht
  rw [wp_bind]
  refine wp_mono wp_checkRoomInStore ?_ ?_
  · rintro _ u ⟨rfl, hdocker⟩
    rw [wp_ite]
    split
    · next hsame =>
      dsimp only
      rw [wp_ite]
      split
      · next hover =>
        intro h
        exact Nat.not_le.mpr (h.inBoth hsame).1 ((sum_overflows_iff _ _).mp hover)
      · next hover =>
        have hfits := fun h => hover ((sum_overflows_iff skopeo docker).mpr h)
        have hsum := toNat_sum hfits
        refine wp_mono (wp_checkRoomTwice hp) ?_ ?_
        · rintro _ v ⟨hboth, hv⟩
          rw [hsum] at hboth
          exact ⟨⟨hskopeo, hdocker, fun _ => ⟨Nat.not_le.mp hfits, hboth⟩⟩,
            (keepsFile p).trans ht hv⟩
        · intro _ v hno h
          rw [hsum] at hno
          exact hno (h.inBoth hsame).2
    · next hsame => exact ⟨⟨hskopeo, hdocker, fun h => absurd h hsame⟩, ht⟩
  · rintro _ u ⟨rfl, hno, _⟩ h
    exact hno h.inDocker

def composePath (uri : Uri) : Path := appDir uri ++ [composeFile]

theorem isTmp_composePath (uri : Uri) : isTmp (composePath uri) = false := by
  rw [isTmp, composePath, List.getLastD_concat]
  decide +kernel

theorem composePath_ne_digest (uri : Uri) (digest : HashedDigest) :
    composePath uri ≠ appDir uri ++ [digest.hash] := by
  intro h
  have hname : composeFile = digest.hash := List.head_eq_of_cons_eq (List.append_cancel_left h)
  have hsize : composeFile.utf8ByteSize = 64 := by rw [hname, digest.size_hash]
  revert hsize
  decide +kernel

theorem wp_downloadPreciseSizes {desc : Descriptor} :
    wp (downloadPreciseSizes tk env uri desc)
      (fun sizes t => env.downloadedSizes tk uri desc s.hasBlob = some sizes ∧
        (keepsFile (composePath uri)).rel s t)
      (fun _ t => env.downloadedSizes tk uri desc s.hasBlob = none ∧
        (keepsFile (composePath uri)).rel s t) s := by
  have hwritten (content : String) : (keepsFile (composePath uri)).rel s
      { s with apps := s.apps.write (appDir uri ++ [desc.digest.hash]) content } := by
    have hread := FileTree.read_write_of_ne (composePath_ne_digest uri desc.digest) s.apps content
    exact congrArg (·, s.blobs) hread
  unfold downloadPreciseSizes download FetchEnv.downloadedSizes writeFile
  dsimp only
  rw [wp_bind]
  cases env.downloadBlob (uri.createUri desc.digest) desc.digest.hash desc.size with
  | unopened => exact ⟨rfl, rfl⟩
  | failed content what => exact ⟨rfl, hwritten content⟩
  | done content =>
    rw [wp_modify, wp_bind, wp_get, wp_lift]
    simp only [Store.parseJSONFile, FileTree.read_write_self]
    cases hsizes : preciseSizes tk env.arch (tk.parseJSON content) s.hasBlob with
    | error what =>
      have hsizes' : preciseSizes tk env.arch (tk.parseJSON content) (Store.hasBlob
        { s with apps := s.apps.write (appDir uri ++ [desc.digest.hash]) content }) =
          .error what := hsizes
      rw [hsizes']
      exact ⟨rfl, hwritten content⟩
    | ok sizes =>
      have hsizes' : preciseSizes tk env.arch (tk.parseJSON content) (Store.hasBlob
        { s with apps := s.apps.write (appDir uri ++ [desc.digest.hash]) content }) =
          .ok sizes := hsizes
      rw [hsizes']
      exact ⟨rfl, hwritten content⟩

/-- Layer metadata that cannot be used are as good as none. -/
theorem wp_metadataSizes {desc : Descriptor} :
    wp (metadataSizes tk env uri desc)
      (fun sizes t => sizes =
          (if desc.isPresent then env.downloadedSizes tk uri desc s.hasBlob else none) ∧
        (keepsFile (composePath uri)).rel s t)
      (fun _ _ => False) s := by
  unfold metadataSizes
  split
  · rw [wp_tryCatch, wp_map]
    refine wp_mono wp_downloadPreciseSizes ?_ ?_
    · rintro sizes t ⟨hsizes, ht⟩
      exact ⟨hsizes.symm, ht⟩
    · rintro _ t ⟨hnone, ht⟩
      exact ⟨hnone.symm, ht⟩
  · exact ⟨rfl, rfl⟩

theorem hasBlob_eq {p : Path} (h : (keepsFile p).rel s t) : t.hasBlob = s.hasBlob := by
  have hblobs : t.blobs = s.blobs := congrArg Prod.snd h
  funext hash
  rw [Store.hasBlob, Store.hasBlob, hblobs]

theorem updateSizes_eq {manifest : Manifest} {desc : Descriptor} {stored : String → Bool}
    (hdesc : manifest.layersMetaDescr tk.canonical = .ok desc) :
    env.updateSizes tk uri manifest stored =
      match if desc.isPresent then env.downloadedSizes tk uri desc stored else none with
      | some sizes => .ok (some sizes)
      | none => estimatedSizes tk env uri manifest stored := by
  rw [FetchEnv.updateSizes, hdesc]
  rfl

theorem wp_appUpdateSizes {manifest : Manifest} :
    wp (appUpdateSizes tk env uri manifest)
      (fun sizes t => env.updateSizes tk uri manifest s.hasBlob = .ok sizes ∧
        (keepsFile (composePath uri)).rel s t)
      (fun _ _ => ∃ what, env.updateSizes tk uri manifest s.hasBlob = .error what) s := by
  unfold appUpdateSizes
  rw [wp_bind, wp_lift]
  cases hdesc : manifest.layersMetaDescr tk.canonical with
  | error what => exact ⟨what, by rw [FetchEnv.updateSizes, hdesc]; rfl⟩
  | ok desc =>
    dsimp only
    rw [wp_bind]
    refine wp_mono wp_metadataSizes ?_ fun _ _ h => h.elim
    rintro precise t ⟨hprecise, ht⟩
    rw [updateSizes_eq hdesc, ← hprecise]
    cases precise with
    | some sizes => exact ⟨rfl, ht⟩
    | none =>
      dsimp only
      rw [wp_bind, wp_get, wp_lift, hasBlob_eq ht]
      cases estimatedSizes tk env uri manifest s.hasBlob with
      | error what => exact ⟨what, rfl⟩
      | ok sizes => exact ⟨rfl, ht⟩

theorem wp_checkAppUpdateSize {manifest : Manifest}
    (hmanifest : s.manifest tk (appDir uri) = .ok manifest) :
    wp (checkAppUpdateSize tk env uri)
      (fun _ t => env.Fits tk uri manifest s.hasBlob ∧ (keepsFile (composePath uri)).rel s t)
      (fun _ _ => ¬ env.Fits tk uri manifest s.hasBlob) s := by
  unfold checkAppUpdateSize
  rw [wp_bind, wp_get, wp_bind, wp_lift, hmanifest]
  dsimp only
  rw [wp_ite]
  split
  · next harch => exact ⟨.inl harch, rfl⟩
  next harch =>
  rw [wp_bind]
  refine wp_mono wp_appUpdateSizes ?_ ?_
  · rintro sizes t ⟨hsizes, ht⟩
    match sizes with
    | none => exact ⟨.inr ⟨none, hsizes, fun _ _ h => by cases h⟩, ht⟩
    | some (skopeo, docker) =>
      refine wp_mono (wp_checkAvailableStorageInStores (isTmp_composePath uri)) ?_ ?_
      · rintro _ u ⟨hroom, hu⟩
        refine ⟨.inr ⟨_, hsizes, fun _ _ h => ?_⟩, (keepsFile _).trans ht hu⟩
        cases h
        exact hroom
      · rintro _ u hno (h | ⟨sizes, h, hroom⟩)
        · exact harch h
        · cases hsizes.symm.trans h
          exact hno (hroom _ _ rfl)
  · rintro _ t ⟨what, herror⟩ (h | ⟨sizes, h, _⟩)
    · exact harch h
    · cases herror.symm.trans h

/-! ## The images -/

theorem wp_pullImage {i : Nat} {src : String} {dir : Path} :
    wp (pullImage env i src dir) (fun _ _ => (env.pullImage i src).error = none)
      (fun _ _ => (env.pullImage i src).error ≠ none) s := by
  unfold pullImage createDirectories writeFile
  rw [wp_bind, wp_modify]
  dsimp only
  rw [wp_bind, wp_modify]
  cases herror : (env.pullImage i src).error with
  | none => cases (env.pullImage i src).index <;> exact rfl
  | some what => cases (env.pullImage i src).index <;> exact fun h => by cases h

theorem pulls_cons {i : Nat} {image : String} {rest : List (Except String String)} :
    env.Pulls uri i (.ok image :: rest) ↔
      (∃ src, env.imageSrc uri image = .ok src ∧ (env.pullImage i src).error = none) ∧
        env.Pulls uri (i + 1) rest := by
  constructor
  · intro h
    refine ⟨h 0 image rfl, fun j text hj => ?_⟩
    rw [Nat.add_assoc, Nat.add_comm 1 j]
    exact h (j + 1) text hj
  · rintro ⟨hfirst, hrest⟩ j text hj
    cases j with
    | zero =>
      cases hj
      exact hfirst
    | succ j =>
      have := hrest j text hj
      rwa [Nat.add_assoc, Nat.add_comm 1 j] at this

theorem wp_pullImages {dir : Path} {i : Nat} {images : List (Except String String)}
    (himages : ∀ image ∈ images, HasUri image) :
    wp (pullImages env uri dir i images) (fun _ _ => env.Pulls uri i images)
      (fun _ _ => ¬ env.Pulls uri i images) s := by
  induction images generalizing i s with
  | nil => exact fun _ _ h => by cases h
  | cons image rest ih =>
    obtain ⟨text, imageUri, rfl, huri⟩ := himages _ List.mem_cons_self
    simp only [pulls_cons]
    unfold pullImages
    rw [wp_bind, wp_lift]
    dsimp only
    rw [wp_bind, wp_lift, huri]
    dsimp only
    rw [wp_bind, wp_lift]
    cases hsrc : env.imageSrc uri text with
    | error what =>
      rintro ⟨⟨src, h, _⟩, _⟩
      cases h
    | ok src =>
      dsimp only
      rw [wp_bind]
      refine wp_mono wp_pullImage (fun _ t hnone => ?_) fun _ t hsome => ?_
      · refine wp_mono (ih fun i hi => himages i (List.mem_cons_of_mem _ hi)) ?_ ?_
        · exact fun _ _ hrest => ⟨⟨src, rfl, hnone⟩, hrest⟩
        · exact fun _ _ hno h => hno h.2
      · rintro ⟨⟨src', h, hnone⟩, _⟩
        cases h
        exact hsome hnone

theorem wp_pullAppImages {images : List (Except String String)}
    (hcompose : (s.composeInfo tk (composePath uri) >>= serviceImages) = .ok images)
    (himages : ∀ image ∈ images, HasUri image) :
    wp (pullAppImages tk env uri) (fun _ _ => env.Pulls uri 0 images)
      (fun _ _ => ¬ env.Pulls uri 0 images) s := by
  obtain ⟨json, hjson, hservices⟩ := bind_eq_ok.mp hcompose
  unfold pullAppImages createDirectories
  dsimp only
  rw [wp_bind, wp_modify, wp_bind, wp_get, wp_bind, wp_lift]
  have hjson' : Store.composeInfo tk
      { s with apps := s.apps.mkdirs (appDir uri ++ ["images"]) } (composePath uri) = .ok json := by
    rw [← hjson, Store.composeInfo, Store.composeInfo, FileTree.read_mkdirs]
  rw [composePath] at hjson'
  rw [hjson']
  dsimp only
  rw [wp_bind, wp_lift, hservices]
  exact wp_pullImages himages

/-! ## The call -/

/-- A complete app is fetched again without a failure exactly under the condition. -/
theorem wp_fetchApp (huri : parseUri app.2 true = .ok uri) (hfetched : IsFetched tk app s) :
    wp (fetchApp tk env app uri) (fun _ _ => env.Completes tk uri s)
      (fun _ _ => ¬ env.Completes tk uri s) s := by
  obtain ⟨t, ht⟩ := hfetched
  have hcomplete : Complete tk uri s t := complete_of_run huri ht
  obtain ⟨manifest, hmanifest⟩ := hcomplete.manifest
  obtain ⟨images, himages, hall⟩ := hcomplete.images
  have hcompletes : env.Completes tk uri s ↔
      env.Fits tk uri manifest s.hasBlob ∧ env.Pulls uri 0 images := by
    constructor
    · exact fun h => ⟨h.fits manifest hmanifest, h.pulls images himages⟩
    · rintro ⟨hfits, hpulls⟩
      refine ⟨fun m hm => ?_, fun is his => ?_⟩
      · cases hmanifest.symm.trans hm
        exact hfits
      · cases himages.symm.trans his
        exact hpulls
  have hstored : t.hasBlob = s.hasBlob := by
    funext hash
    rw [Store.hasBlob, Store.hasBlob, hcomplete.same_blobs]
  simp only [hcompletes]
  unfold fetchApp
  rw [wp_bind]
  refine wp_of_run (fun b t' ht' => ?_) fun e t' ht' => ?_
  · cases ht.symm.trans ht'
    dsimp only [Bool.not_true]
    rw [if_neg (by decide), wp_bind, ← hstored]
    refine wp_mono (wp_checkAppUpdateSize (hcomplete.same_manifest.trans hmanifest)) ?_ ?_
    · rintro _ u ⟨hfits, hu⟩
      have hcompose : (u.composeInfo tk (composePath uri) >>= serviceImages) = .ok images := by
        have hread : u.apps.read (composePath uri) = t.apps.read (composePath uri) :=
          congrArg Prod.fst hu
        rw [Store.composeInfo, hread, ← himages]
        exact hcomplete.compose
      refine wp_mono (wp_pullAppImages hcompose hall) ?_ ?_
      · exact fun _ _ hpulls => ⟨hfits, hpulls⟩
      · exact fun _ _ hno h => hno h.2
    · exact fun _ _ hno h => hno h.1
  · cases ht.symm.trans ht'

theorem Exn.status_result_ne_ok (tk : Toolkit) (e : Exn) : (e.result tk).status ≠ .ok := by
  cases e <;> exact fun h => by cases h

/-- The result says whether the steps went through, and after a failure the directory of
the app is gone. -/
theorem wp_fetch {c : Prop} (huri : parseUri app.2 true = .ok uri)
    (h : wp (fetchApp tk env app uri) (fun _ _ => c) (fun _ _ => ¬ c) s) :
    wp (fetch tk env app)
      (fun res t => (res.status = .ok ↔ c) ∧
        (res.status ≠ .ok → t.apps.has (appDir uri) = false))
      (fun _ _ => False) s := by
  unfold fetch
  simp only [huri]
  rw [wp_bind, wp_tryCatch, wp_bind]
  refine wp_mono h (fun _ t hc => ?_) fun e t hno => ?_
  · exact ⟨iff_of_true rfl hc, fun h => absurd rfl h⟩
  · rw [wp_pure, if_pos (e.status_result_ne_ok tk), wp_bind, wp_get]
    have hres := iff_of_false (e.status_result_ne_ok tk) hno
    cases hdir : t.apps.has (appDir uri) with
    | true => exact ⟨hres, fun _ => FileTree.has_removeAll_self _ _⟩
    | false => exact ⟨hres, fun _ => hdir⟩

theorem fetch_returns (tk : Toolkit) (env : FetchEnv) (app : App) (s : Store) :
    ∃ res t, fetch tk env app s = .ok res t := by
  cases huri : parseUri app.2 true with
  | error what => exact ⟨_, s, by unfold fetch; rw [huri]; rfl⟩
  | ok uri =>
    have h : wp (fetchApp tk env app uri) (fun _ _ => ∃ t, fetchApp tk env app uri s = .ok () t)
        (fun _ _ => ¬ ∃ t, fetchApp tk env app uri s = .ok () t) s := by
      refine wp_of_run (fun _ t ht => ⟨t, ht⟩) ?_
      rintro e t ht ⟨u, hu⟩
      cases ht.symm.trans hu
    obtain ⟨res, t, ht, _⟩ := wp_false_iff.mp (wp_fetch huri h)
    exact ⟨res, t, ht⟩

/-- An app without a directory is not fetched. -/
theorem not_isFetched (huri : parseUri app.2 true = .ok uri)
    (hdir : s.apps.has (appDir uri) = false) : ¬ IsFetched tk app s := by
  rw [isFetched_iff huri]
  intro hfetched
  cases hdir.symm.trans hfetched.archive.dir

theorem uri_of_isFetched (h : IsFetched tk app s) : ∃ uri, parseUri app.2 true = .ok uri := by
  obtain ⟨t, ht⟩ := h
  exact uri_of_run ht

/-- A re-fetch keeps a complete app whatever it returns, exactly if the update fits and
every image is pulled whenever the app is complete. -/
theorem refetch_keeps_app_iff (tk : Toolkit) (env : FetchEnv) (app : App) (s : Store) :
    (∃ res t, fetch tk env app s = .ok res t ∧
      (IsFetched tk app s → res.status ≠ .ok → IsFetched tk app t)) ↔
    ∀ uri, parseUri app.2 true = .ok uri → IsFetched tk app s → env.Completes tk uri s := by
  constructor
  · rintro ⟨res, t, ht, hkeeps⟩ uri huri hfetched
    obtain ⟨res', t', ht', hres, hgone⟩ :=
      wp_false_iff.mp (wp_fetch huri (wp_fetchApp huri hfetched))
    cases ht.symm.trans ht'
    by_contra hno
    have hfailed : res.status ≠ .ok := fun h => hno (hres.mp h)
    exact not_isFetched huri (hgone hfailed) (hkeeps hfetched hfailed)
  · intro hcompletes
    obtain ⟨res, t, ht⟩ := fetch_returns tk env app s
    refine ⟨res, t, ht, fun hfetched hfailed => absurd ?_ hfailed⟩
    obtain ⟨uri, huri⟩ := uri_of_isFetched hfetched
    obtain ⟨res', t', ht', hres, _⟩ := wp_false_iff.mp (wp_fetch huri (wp_fetchApp huri hfetched))
    cases ht.symm.trans ht'
    exact hres.mpr (hcompletes uri huri hfetched)

/-! ## A complete app that is lost -/

/-- The hash of a content that is one character. -/
def letterHash (content : String) : String :=
  String.ofList (List.replicate 64 (content.toList.headD '0'))

def letterDigest (content : String) : Json := .str ("sha256:" ++ letterHash content)

def letterUri (name content : String) : String :=
  "hub.io/factory/" ++ name ++ "@sha256:" ++ letterHash content

/-- Contents are letters: `m` is the app's manifest, `a` its archive with the compose file
`y`, `x` the index of its image, and `i`, `c` and `l` are the manifest, the configuration
and the layer of the image. -/
def letterToolkit : Toolkit where
  sha256 := letterHash
  parseJSON text :=
    match text with
    | "m" => .obj [("annotations", .obj [("compose-app", .str "v1")]),
        ("layers", .arr [.obj [("digest", letterDigest "a"), ("size", .int 1)]])]
    | "x" => .obj [("manifests", .arr [.obj [("digest", letterDigest "i")]])]
    | "i" => .obj [("config", .obj [("digest", letterDigest "c")]),
        ("layers", .arr [.obj [("digest", letterDigest "l"), ("size", .int 1)]])]
    | _ => .null
  canonical _ := ""
  whole _ := false
  extract _ := .ok "y"
  yaml2json _ :=
    .ok (.obj [("services", .obj [("web", .obj [("image", .str (letterUri "web" "w"))])])])
  usageText _ := ""

def letterStore : Store where
  apps :=
    let dir := ["app", letterHash "m"]
    { entries := [(dir, .dir), (dir ++ ["manifest.json"], .file "m"),
        (dir ++ [letterHash "a" ++ ".tgz"], .file "a"), (dir ++ [composeFile], .file "y"),
        (dir ++ ["images", "hub.io", "factory", "web", letterHash "w", "index.json"],
          .file "x")] }
  blobs := [(letterHash "i", "i"), (letterHash "c", "c"), (letterHash "l", "l")]

/-- The image tool cannot reach its registry. -/
def unreachable : FetchEnv where
  getAppManifest _ _ _ := .error "no network"
  downloadBlob _ _ _ := .unopened
  space _ := { path := "/", available := 1000, required := 0, err := "" }
  arch := ""
  sameVolume := true
  imageSrc _ image := .ok ("docker://" ++ image)
  pullImage _ _ := { blobs := [], index := none, error := some "failed to pull image" }

/-- The app is complete, the pull of its image fails, and the app is gone. -/
theorem failed_pull_removes_complete_app :
    IsFetched letterToolkit ("app", letterUri "app" "m") letterStore ∧
      ∃ res t, fetch letterToolkit unreachable ("app", letterUri "app" "m") letterStore =
          .ok res t ∧ res.err = "failed to pull image" ∧ res.status = .failed ∧
        ¬ IsFetched letterToolkit ("app", letterUri "app" "m") t := by
  have hruns : IsFetched letterToolkit ("app", letterUri "app" "m") letterStore ∧
      returns (fetch letterToolkit unreachable ("app", letterUri "app" "m")) letterStore
        (fun res t => decide (res.err = "failed to pull image" ∧ res.status = .failed ∧
          ¬ IsFetched letterToolkit ("app", letterUri "app" "m") t)) = true := by
    decide +kernel
  obtain ⟨res, t, ht, hres⟩ := exists_ok_of_returns hruns.2
  exact ⟨hruns.1, res, t, ht, of_decide_eq_true hres⟩

end RestorableAppEngine
end Docker
end AkLite
