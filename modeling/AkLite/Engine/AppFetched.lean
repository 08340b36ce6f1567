/-
When an app is fetched.

`isAppFetched` walks from the app's URI over its manifest, its archive and the compose file
in it to the index, the manifest, the configuration and the layers of every image.  Here is
what it finds when it says yes.  The description is exact: a store of which it holds gets
the answer yes, and an answer that is yes has changed nothing but the compose file, which
is written from the archive.

The parts are read by hashes, so that what depends on which blob is explicit.
-/
import AkLite.Engine.RestorableAppEngine

namespace AkLite
namespace Docker
namespace RestorableAppEngine

open Lib
open Client (App)

/-! ## What is read -/

/-- The hash of the member `digest`. -/
def digestHash (json : Json) : Except String String := do
  return (← HashedDigest.parse (← (← json.index "digest").asString)).hash

/-- `Utils::parseJSONFile` of a blob. -/
def Store.parseBlob (tk : Toolkit) (s : Store) (hash : String) : Json :=
  match s.blobs.lookup hash with
  | some content => tk.parseJSON content
  | none => .null

/-- The manifest that the index of an image names. -/
def Store.imageHash (tk : Toolkit) (s : Store) (index : Path) : Except String String := do
  digestHash (← (← (s.parseJSONFile tk index).index "manifests").elem 0)

/-- The configuration that the manifest of an image names. -/
def Store.configHash (tk : Toolkit) (s : Store) (hash : String) : Except String String := do
  digestHash (← (s.parseBlob tk hash).index "config")

def Store.layers (tk : Toolkit) (s : Store) (hash : String) : Except String Json :=
  (s.parseBlob tk hash).index "layers"

def indexPath (dir : Path) (uri : Uri) : Path := dir ++ ["images"] ++ imageDir uri ++ ["index.json"]

/-! ## What is found -/

def IsFetched (tk : Toolkit) (app : App) (s : Store) : Prop :=
  ∃ t, isAppFetched tk app s = .ok true t

instance (tk : Toolkit) (app : App) (s : Store) : Decidable (IsFetched tk app s) :=
  match h : isAppFetched tk app s with
  | .ok true t => .isTrue ⟨t, h⟩
  | .ok false _ => .isFalse fun ⟨_, h'⟩ => by cases h.symm.trans h'
  | .error _ _ => .isFalse fun ⟨_, h'⟩ => by cases h.symm.trans h'

def BlobIntact (tk : Toolkit) (s : Store) (hash : String) : Prop :=
  ∃ blob, s.blobs.lookup hash = some blob ∧ tk.sha256 blob = hash

structure LayerStored (s : Store) (layer : Json) : Prop where
  digest : layer.isObjectWith "digest" = true
  size : layer.isObjectWith "size" = true
  blob : ∃ hash, digestHash layer = .ok hash ∧ ∃ size, (layer.index "size" >>= Json.asInt64) =
    .ok size ∧ ∃ blob, s.blobs.lookup hash = some blob ∧ (blob.utf8ByteSize : Int) = size

structure ImageStored (tk : Toolkit) (s : Store) (index : Path) (hash : String) : Prop where
  object : (s.parseJSONFile tk index).isObjectWith "manifests" = true
  image : s.imageHash tk index = .ok hash
  manifest : BlobIntact tk s hash
  config : ∃ config, s.configHash tk hash = .ok config ∧ BlobIntact tk s config
  layers : ∃ layers, s.layers tk hash = .ok layers ∧ ∀ layer ∈ layers.values, LayerStored s layer

def ImageFetched (tk : Toolkit) (s : Store) (dir : Path) (image : String) : Prop :=
  ∃ uri, parseUri image false = .ok uri ∧ s.apps.has (indexPath dir uri) = true ∧
    ∃ hash, ImageStored tk s (indexPath dir uri) hash

/-- The images of the compose file are fetched. -/
def ImagesFetched (tk : Toolkit) (s : Store) (dir : Path) : Prop :=
  ∃ compose, s.composeInfo tk (dir ++ [composeFile]) = .ok compose ∧
    ∃ images, serviceImages compose = .ok images ∧
      ∀ image ∈ images, ∃ text, image = .ok text ∧ ImageFetched tk s dir text

/-- The compose file in the archive of the app. -/
def Store.archiveCompose (tk : Toolkit) (s : Store) (uri : Uri) : Except String String := do
  let manifest ← s.manifest tk (appDir uri)
  let hash ← manifest.archiveHash tk.canonical
  s.extractComposeFile tk (archivePath (appDir uri) hash)

/-- The store with the compose file written anew. -/
def Store.recomposed (tk : Toolkit) (s : Store) (uri : Uri) : Store :=
  match s.archiveCompose tk uri with
  | .ok compose => { s with apps := s.apps.write (appDir uri ++ [composeFile]) compose }
  | .error _ => s

structure ArchiveStored (tk : Toolkit) (s : Store) (uri : Uri) : Prop where
  dir : s.apps.has (appDir uri) = true
  text : ∃ text, s.apps.read (appDir uri ++ [Manifest.filename]) = some text ∧
    tk.sha256 text = uri.digest.hash
  archive : ∃ manifest, s.manifest tk (appDir uri) = .ok manifest ∧
    ∃ hash, manifest.archiveHash tk.canonical = .ok hash ∧
      ∃ content, s.apps.read (archivePath (appDir uri) hash) = some content ∧
        tk.sha256 content = hash
  compose : ∃ compose, s.archiveCompose tk uri = .ok compose

structure AppFetched (tk : Toolkit) (s : Store) (uri : Uri) : Prop where
  archive : ArchiveStored tk s uri
  images : ImagesFetched tk (s.recomposed tk uri) (appDir uri)

section Checks

variable {tk : Toolkit} {app : App} {uri : Uri} {s t u : Store} {α β : Type}

/-! ## Small rules -/

@[simp]
theorem wp_lift {x : Except String α} {Q : α → Store → Prop} {E : Exn → Store → Prop} :
    wp (lift x) Q E s =
      match x with
      | .ok a => Q a s
      | .error what => E (.other what) s := by
  cases x <;> rfl

/-- The answer is yes exactly if `P` holds, and then the store is `u`. -/
def Decides (x : Eff Bool) (P : Prop) (s u : Store) : Prop :=
  wp x (fun b t => (b = true ↔ P) ∧ (b = true → t = u)) (fun _ _ => ¬ P) s

theorem Decides.congr {x : Eff Bool} {P Q : Prop} (hx : Decides x P s u) (h : P ↔ Q) :
    Decides x Q s u := by
  rwa [← propext h]

theorem Decides.no {P : Prop} (h : ¬ P) : Decides (pure false) P s u :=
  ⟨iff_of_false (by decide) h, fun h => absurd h (by decide)⟩

theorem Decides.yes {P : Prop} (h : P) : Decides (pure true) P s s :=
  ⟨iff_of_true rfl h, fun _ => rfl⟩

theorem Decides.lift_bind {x : Except String α} {f : α → Eff Bool} {P : α → Prop}
    (h : ∀ a, x = .ok a → Decides (f a) (P a) s u) :
    Decides (lift x >>= f) (∃ a, x = .ok a ∧ P a) s u := by
  cases x with
  | ok a =>
    refine (h a rfl).congr ⟨fun hP => ⟨a, rfl, hP⟩, ?_⟩
    rintro ⟨a', ha', hP⟩
    cases ha'
    exact hP
  | error what =>
    rintro ⟨a, ha, _⟩
    cases ha

theorem Decides.lift_ok_bind {x : Except String α} {f : α → Eff Bool} {P : Prop} {a : α}
    (hx : x = .ok a) (h : Decides (f a) P s u) : Decides (lift x >>= f) P s u := by
  rw [hx]
  exact h

theorem Decides.get_bind {f : Store → Eff Bool} {P : Prop} (h : Decides (f s) P s u) :
    Decides (get >>= f) P s u := h

/-- A test that comes before the others. -/
theorem Decides.guard {c : Bool} {y : Eff Bool} {P : Prop} (hy : c = true → Decides y P s u) :
    Decides (if (!c) = true then pure false else y) (c = true ∧ P) s u := by
  cases c with
  | false => exact Decides.no fun h => absurd h.1 (by decide)
  | true => exact (hy rfl).congr (and_iff_right rfl).symm

theorem Decides.guard_eq {a b : String} {y : Eff Bool} {P : Prop}
    (hy : a = b → Decides y P s u) :
    Decides (if a ≠ b then pure false else y) (a = b ∧ P) s u := by
  by_cases h : a = b
  · rw [if_neg (not_not.mpr h)]
    exact (hy h).congr (and_iff_right h).symm
  · rw [if_pos h]
    exact Decides.no fun hboth => h hboth.1

/-- Checks one after the other. -/
theorem Decides.and_then {x y : Eff Bool} {P Q : Prop} (hx : Decides x P s s)
    (hy : Decides y Q s u) :
    Decides (do
      if !(← x) then return false
      y) (P ∧ Q) s u := by
  unfold Decides
  rw [wp_bind]
  refine wp_mono hx (fun b t hb => ?_) fun _ _ hP h => hP h.1
  cases b with
  | false =>
    refine ⟨iff_of_false (by decide) fun h => ?_, fun h => absurd h (by decide)⟩
    exact absurd (hb.1.mpr h.1) (by decide)
  | true =>
    obtain rfl := hb.2 rfl
    exact hy.congr (and_iff_right (hb.1.mp rfl)).symm

/-- A check that cannot be made is answered with no. -/
theorem Decides.catch {x : Eff Bool} {handler : Exn → Eff Bool} {P : Prop} (hx : Decides x P s u)
    (hno : ∀ e t, wp (handler e) (fun b _ => b = false) (fun _ _ => False) t) :
    Decides (tryCatch x handler) P s u := by
  unfold Decides
  rw [wp_tryCatch]
  refine wp_mono hx (fun _ _ h => h) fun e t hP => ?_
  refine wp_mono (hno e t) (fun b _ hb => ?_) fun _ _ h => h.elim
  rw [hb]
  exact ⟨iff_of_false (by decide) hP, fun h => absurd h (by decide)⟩

/-! ## The check of an image -/

/-- The digest of a member, which is read for its hash. -/
def digestOf (json : Json) : Except String HashedDigest := do
  HashedDigest.parse (← (← json.index "digest").asString)

theorem digestHash_eq_ok {json : Json} {hash : String} :
    digestHash json = .ok hash ↔ ∃ digest, digestOf json = .ok digest ∧ digest.hash = hash := by
  have hbind : digestHash json = digestOf json >>= fun digest => .ok digest.hash := by
    simp only [digestHash, digestOf, bind_assoc]
    rfl
  rw [hbind, bind_eq_ok]
  simp only [Except.ok.injEq]

/-- A digest is looked at for its hash. -/
theorem Decides.digest_bind {x : Except String HashedDigest} {y : Except String String}
    {f : HashedDigest → Eff Bool} {P : String → Prop}
    (hxy : ∀ hash, y = .ok hash ↔ ∃ digest, x = .ok digest ∧ digest.hash = hash)
    (h : ∀ digest : HashedDigest, Decides (f digest) (P digest.hash) s u) :
    Decides (lift x >>= f) (∃ hash, y = .ok hash ∧ P hash) s u := by
  refine (Decides.lift_bind fun digest _ => h digest).congr ⟨?_, ?_⟩
  · rintro ⟨digest, hdigest, hP⟩
    exact ⟨digest.hash, (hxy _).mpr ⟨digest, hdigest, rfl⟩, hP⟩
  · rintro ⟨hash, hhash, hP⟩
    obtain ⟨digest, hdigest, rfl⟩ := (hxy hash).mp hhash
    exact ⟨digest, hdigest, hP⟩

theorem decides_isLayerStored (layer : Json) :
    Decides (isLayerStored layer) (LayerStored s layer) s s := by
  unfold isLayerStored
  refine (Decides.guard fun _ => Decides.digest_bind (P := fun hash =>
    ∃ size, (layer.index "size" >>= Json.asInt64) = .ok size ∧
      ∃ blob, s.blobs.lookup hash = some blob ∧ (blob.utf8ByteSize : Int) = size)
    (fun _ => digestHash_eq_ok) fun digest => Decides.lift_bind fun size _ =>
      Decides.get_bind ?_).congr ⟨?_, ?_⟩
  · cases s.blobs.lookup digest.hash with
    | none =>
      refine Decides.no ?_
      rintro ⟨_, hblob, _⟩
      cases hblob
    | some blob =>
      dsimp only
      split
      · next hne =>
        refine ⟨iff_of_false (by decide) ?_, fun h => absurd h (by decide)⟩
        rintro ⟨_, hblob, heq⟩
        cases hblob
        exact hne heq
      · next heq => exact Decides.yes ⟨blob, rfl, not_not.mp heq⟩
  · rintro ⟨hboth, hash, hhash, hrest⟩
    rw [Bool.and_eq_true] at hboth
    exact ⟨hboth.1, hboth.2, hash, hhash, hrest⟩
  · rintro ⟨hdigest, hsize, hash, hhash, hrest⟩
    exact ⟨by rw [hdigest, hsize]; rfl, hash, hhash, hrest⟩

theorem decides_areLayersStored (layers : List Json) :
    Decides (areLayersStored layers) (∀ layer ∈ layers, LayerStored s layer) s s := by
  induction layers with
  | nil => exact Decides.yes (List.forall_mem_nil _)
  | cons layer rest ih =>
    exact ((decides_isLayerStored layer).and_then ih).congr List.forall_mem_cons.symm

theorem isBlobIntact_iff {digest : HashedDigest} :
    s.isBlobIntact tk digest = true ↔ BlobIntact tk s digest.hash := by
  unfold Store.isBlobIntact BlobIntact
  cases s.blobs.lookup digest.hash with
  | none => simp
  | some blob => simp

theorem parseBlob_eq {hash : String} (h : BlobIntact tk s hash) :
    tk.parseJSON ((s.blobs.lookup hash).getD "") = s.parseBlob tk hash := by
  obtain ⟨blob, hblob, _⟩ := h
  rw [Store.parseBlob, hblob]
  rfl

theorem imageHash_eq_ok {index : Path} {hash : String} :
    s.imageHash tk index = .ok hash ↔ ∃ digest : HashedDigest, (do
      HashedDigest.parse (← (← (← (← (s.parseJSONFile tk index).index "manifests").elem 0).index
        "digest").asString)) = .ok digest ∧ digest.hash = hash := by
  unfold Store.imageHash
  simp only [bind_eq_ok, digestHash_eq_ok, digestOf]
  constructor
  · rintro ⟨manifests, hmanifests, entry, hentry, digest, ⟨member, hmember, text, htext, h⟩, rfl⟩
    exact ⟨digest, ⟨manifests, hmanifests, entry, hentry, member, hmember, text, htext, h⟩, rfl⟩
  · rintro ⟨digest, ⟨manifests, hmanifests, entry, hentry, member, hmember, text, htext, h⟩, rfl⟩
    exact ⟨manifests, hmanifests, entry, hentry, digest, ⟨member, hmember, text, htext, h⟩, rfl⟩

theorem configHash_eq_ok {hash config : String} :
    s.configHash tk hash = .ok config ↔ ∃ digest : HashedDigest, (do
      HashedDigest.parse (← (← (← (s.parseBlob tk hash).index "config").index
        "digest").asString)) = .ok digest ∧ digest.hash = config := by
  unfold Store.configHash
  simp only [bind_eq_ok, digestHash_eq_ok, digestOf]
  constructor
  · rintro ⟨entry, hentry, digest, ⟨member, hmember, text, htext, h⟩, rfl⟩
    exact ⟨digest, ⟨entry, hentry, member, hmember, text, htext, h⟩, rfl⟩
  · rintro ⟨digest, ⟨entry, hentry, member, hmember, text, htext, h⟩, rfl⟩
    exact ⟨entry, hentry, digest, ⟨member, hmember, text, htext, h⟩, rfl⟩

theorem decides_checkImage (index : Path) :
    Decides (checkImage tk index) (∃ hash, ImageStored tk s index hash) s s := by
  have hlayers : ∀ hash, Decides (do areLayersStored (← lift (s.layers tk hash)).values)
      (∃ layers, s.layers tk hash = .ok layers ∧ ∀ layer ∈ layers.values, LayerStored s layer)
      s s :=
    fun hash => Decides.lift_bind fun layers _ => decides_areLayersStored layers.values
  unfold checkImage Decides
  rw [wp_bind, wp_get]
  dsimp only
  split
  · next hobject =>
    have hno : ¬ ∃ hash, ImageStored tk s index hash := by
      rintro ⟨hash, himage⟩
      rw [himage.object] at hobject
      cases hobject
    rw [wp_bind]
    refine wp_of_run (fun _ _ _ => ?_) fun _ _ _ => hno
    exact ⟨iff_of_false (by decide) hno, fun h => absurd h (by decide)⟩
  · next hobject =>
    have hrest : ∀ digest : HashedDigest, Decides (do
        if !(← get).isBlobIntact tk digest then return false
        let manifest := tk.parseJSON (((← get).blobs.lookup digest.hash).getD "")
        let config ← lift do
          HashedDigest.parse (← (← (← manifest.index "config").index "digest").asString)
        if !(← get).isBlobIntact tk config then return false
        areLayersStored (← lift (manifest.index "layers")).values)
        (BlobIntact tk s digest.hash ∧ ∃ config, s.configHash tk digest.hash = .ok config ∧
          BlobIntact tk s config ∧ ∃ layers, s.layers tk digest.hash = .ok layers ∧
            ∀ layer ∈ layers.values, LayerStored s layer) s s := by
      intro digest
      refine Decides.get_bind ((Decides.guard fun hintact => Decides.get_bind ?_).congr
        (and_congr_left' isBlobIntact_iff))
      rw [isBlobIntact_iff] at hintact
      dsimp only
      rw [parseBlob_eq hintact]
      refine Decides.digest_bind (P := fun config => BlobIntact tk s config ∧ ∃ layers,
        s.layers tk digest.hash = .ok layers ∧ ∀ layer ∈ layers.values, LayerStored s layer)
        (fun _ => configHash_eq_ok) fun config => Decides.get_bind ?_
      exact (Decides.guard fun _ => hlayers digest.hash).congr (and_congr_left' isBlobIntact_iff)
    refine Decides.congr (Decides.digest_bind (P := fun hash => BlobIntact tk s hash ∧ ∃ config,
      s.configHash tk hash = .ok config ∧ BlobIntact tk s config ∧ ∃ layers,
        s.layers tk hash = .ok layers ∧ ∀ layer ∈ layers.values, LayerStored s layer)
      (fun _ => imageHash_eq_ok) hrest) ⟨?_, ?_⟩
    · rintro ⟨hash, himage, hintact, config, hconfig, hblob, hstored⟩
      exact ⟨hash, by simpa using hobject, himage, hintact, ⟨config, hconfig, hblob⟩, hstored⟩
    · rintro ⟨hash, _, himage, hintact, ⟨config, hconfig, hblob⟩, hstored⟩
      exact ⟨hash, himage, hintact, config, hconfig, hblob, hstored⟩

theorem decides_isImageFetched {dir : Path} (image : String) :
    Decides (isImageFetched tk dir image) (ImageFetched tk s dir image) s s := by
  unfold isImageFetched ImageFetched
  refine Decides.lift_bind fun uri _ => Decides.get_bind ?_
  refine Decides.guard fun _ => (decides_checkImage _).catch fun _ _ => ?_
  rfl

theorem decides_areImagesFetched {dir : Path} (images : List (Except String String)) :
    Decides (areImagesFetched tk dir images)
      (∀ image ∈ images, ∃ text, image = .ok text ∧ ImageFetched tk s dir text) s s := by
  induction images with
  | nil => exact Decides.yes (List.forall_mem_nil _)
  | cons image rest ih =>
    unfold areImagesFetched
    refine (Decides.lift_bind fun text _ => (decides_isImageFetched text).and_then ih).congr ?_
    rw [List.forall_mem_cons]
    constructor
    · rintro ⟨text, htext, himage, hrest⟩
      exact ⟨⟨text, htext, himage⟩, hrest⟩
    · rintro ⟨⟨text, htext, himage⟩, hrest⟩
      exact ⟨text, htext, himage, hrest⟩

theorem decides_areAppImagesFetched {dir : Path} :
    Decides (areAppImagesFetched tk dir) (ImagesFetched tk s dir) s s := by
  unfold areAppImagesFetched ImagesFetched
  exact Decides.get_bind (Decides.lift_bind fun compose _ => Decides.lift_bind fun images _ =>
    decides_areImagesFetched images)

/-! ## The check of an app -/

theorem readFile_eq_ok {p : Path} {content : String} :
    s.readFile p = .ok content ↔ s.apps.read p = some content := by
  unfold Store.readFile
  cases s.apps.read p with
  | none => simp
  | some text => simp

theorem has_of_read {tree : FileTree} {p : Path} {content : String}
    (h : tree.read p = some content) : tree.has p = true := by
  unfold FileTree.read at h
  rw [FileTree.has]
  split at h
  · next hnode =>
    rw [hnode]
    rfl
  · cases h

theorem recomposed_eq {compose : String} (h : s.archiveCompose tk uri = .ok compose) :
    s.recomposed tk uri =
      { s with apps := s.apps.write (appDir uri ++ [composeFile]) compose } := by
  rw [Store.recomposed, h]

theorem decides_isAppFetched (huri : parseUri app.2 true = .ok uri) :
    Decides (isAppFetched tk app) (AppFetched tk s uri) s (s.recomposed tk uri) := by
  have hwrite : ∀ compose, s.archiveCompose tk uri = .ok compose → Decides (do
      writeFile (appDir uri ++ [composeFile]) compose
      areAppImagesFetched tk (appDir uri)) (ImagesFetched tk (s.recomposed tk uri) (appDir uri)) s
      (s.recomposed tk uri) := by
    intro compose hcompose
    rw [recomposed_eq hcompose]
    exact decides_areAppImagesFetched
  have hcompose : ∀ {manifest hash compose}, s.manifest tk (appDir uri) = .ok manifest →
      manifest.archiveHash tk.canonical = .ok hash →
      s.extractComposeFile tk (archivePath (appDir uri) hash) = .ok compose →
      s.archiveCompose tk uri = .ok compose := by
    intro manifest hash compose hmanifest hhash hextract
    rw [Store.archiveCompose, hmanifest, ok_bind, hhash, ok_bind, hextract]
  unfold isAppFetched
  refine Decides.lift_ok_bind huri (Decides.congr (Decides.get_bind (Decides.guard fun _ =>
    Decides.get_bind (Decides.guard fun _ => Decides.get_bind (Decides.lift_bind fun text _ =>
      Decides.guard_eq fun _ => Decides.get_bind (Decides.lift_bind fun manifest hmanifest =>
        Decides.lift_bind fun hash hhash => Decides.get_bind (Decides.guard fun _ =>
          Decides.get_bind (Decides.lift_bind fun content _ => Decides.guard_eq fun _ =>
            Decides.get_bind (Decides.lift_bind fun compose hextract =>
              hwrite compose (hcompose hmanifest hhash hextract))))))))) ⟨?_, ?_⟩)
  · rintro ⟨hdir, _, text, htext, hsha, manifest, hmanifest, hash, hhash, _, content, hcontent,
      hsha', compose, hextract, himages⟩
    refine ⟨⟨hdir, ⟨text, readFile_eq_ok.mp htext, hsha⟩, ?_, ?_⟩, himages⟩
    · exact ⟨manifest, hmanifest, hash, hhash, content, readFile_eq_ok.mp hcontent, hsha'⟩
    · exact ⟨compose, hcompose hmanifest hhash hextract⟩
  · rintro ⟨⟨hdir, ⟨text, htext, hsha⟩, ⟨manifest, hmanifest, hash, hhash, content, hcontent,
      hsha'⟩, compose, harchive⟩, himages⟩
    have hextract : s.extractComposeFile tk (archivePath (appDir uri) hash) = .ok compose := by
      rwa [Store.archiveCompose, hmanifest, ok_bind, hhash, ok_bind] at harchive
    exact ⟨hdir, has_of_read htext, text, readFile_eq_ok.mpr htext, hsha, manifest, hmanifest, hash,
      hhash, has_of_read hcontent, content, readFile_eq_ok.mpr hcontent, hsha', compose, hextract,
      himages⟩

theorem isFetched_iff (huri : parseUri app.2 true = .ok uri) :
    IsFetched tk app s ↔ AppFetched tk s uri := by
  have h : Decides (isAppFetched tk app) (AppFetched tk s uri) s _ := decides_isAppFetched huri
  unfold Decides wp at h
  unfold IsFetched
  cases hrun : isAppFetched tk app s with
  | ok b t =>
    rw [hrun] at h
    rw [← h.1]
    constructor
    · rintro ⟨t', ht'⟩
      cases ht'
      rfl
    · rintro rfl
      exact ⟨t, rfl⟩
  | error e t =>
    rw [hrun] at h
    refine iff_of_false ?_ h
    rintro ⟨t', ht'⟩
    cases ht'

/-- An answer that is yes leaves the store with the compose file written anew. -/
theorem fetched_of_run (huri : parseUri app.2 true = .ok uri)
    (hrun : isAppFetched tk app s = .ok true t) :
    AppFetched tk s uri ∧ t = s.recomposed tk uri := by
  have h := wp_ok (decides_isAppFetched huri) hrun
  exact ⟨h.1.mp rfl, h.2 rfl⟩

theorem uri_of_run (hrun : isAppFetched tk app s = .ok true t) :
    ∃ uri, parseUri app.2 true = .ok uri := by
  unfold isAppFetched at hrun
  cases huri : parseUri app.2 true with
  | ok uri => exact ⟨uri, rfl⟩
  | error what =>
    rw [huri] at hrun
    cases hrun

end Checks

end RestorableAppEngine
end Docker
end AkLite
