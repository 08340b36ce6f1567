/-
What is left after pruning.

`isAppFetched` and `prune` walk the same files, the one to see that every blob is there
and the other to collect the blobs that stay.  Of an app that was found to be fetched,
`prune` meets no file it cannot read, it removes nothing of it, and it collects every blob
that the check looks at.  What it collects beyond that is of the app too.

One app is kept for each name.  So the apps of a shortlist are still fetched after the
call exactly if no two of them are versions of one app.
-/
import AkLite.Engine.Intact
import AkLite.Engine.PruneByName

namespace AkLite
namespace Docker
namespace RestorableAppEngine

open Lib
open Client (App)
open Pruning (keepBlob)

/-! ## Collecting the blobs of a version -/

/-- The blobs that are added are of `G`, and the store stays. -/
def collects (G : String → Prop) : Frame Pruning where
  rel p t := t.store = p.store ∧ (∀ hash ∈ p.blobShortlist, hash ∈ t.blobShortlist) ∧
    ∀ hash ∈ t.blobShortlist, hash ∈ p.blobShortlist ∨ G hash
  refl _ := ⟨rfl, fun _ h => h, fun _ h => .inl h⟩
  trans h h' := by
    refine ⟨h'.1.trans h.1, fun hash hhash => h'.2.1 hash (h.2.1 hash hhash), fun hash hhash => ?_⟩
    rcases h'.2.2 hash hhash with hhash | hG
    · exact h.2.2 hash hhash
    · exact .inr hG

/-- Every blob of the images has been collected. -/
def Collected (tk : Toolkit) (s : Store) (dir : Path) (p : Pruning) : Prop :=
  ∀ image, AppImage tk s dir image → ∀ blob, ImageBlob tk s (indexPath dir image) blob →
    blob ∈ p.blobShortlist

section Collecting

variable {tk : Toolkit} {s : Store} {p : Pruning} {uri : Uri} {dir : Path} {G G' : String → Prop}
  {α : Type}

theorem collects_mono {t : Pruning} (h : ∀ hash, G hash → G' hash) (hrel : (collects G).rel p t) :
    (collects G').rel p t :=
  ⟨hrel.1, hrel.2.1, fun hash hhash => (hrel.2.2 hash hhash).imp_right (h hash)⟩

theorem collects_keepBlob {hash : String} (h : G hash) : Within (collects G) (keepBlob hash) := by
  refine Within.modify fun p => ⟨rfl, fun _ hmem => List.mem_cons_of_mem _ hmem, fun b hb => ?_⟩
  rcases List.mem_cons.mp hb with rfl | hmem
  · exact .inr h
  · exact .inl hmem

theorem wp_lift_ok {β : Type} {x : Except String α} {a : α} {f : α → PruneEff β}
    {Q : β → Pruning → Prop} {E : PruneExn → Pruning → Prop} (hx : x = .ok a)
    (h : wp (f a) Q E p) : wp (Pruning.lift x >>= f) Q E p := by
  rw [hx]
  exact h

theorem collects_keepEntries {manifest : Manifest} {element : String}
    (h : ∀ entries, manifest.json.index element = .ok (.arr entries) → ∀ entry ∈ entries,
      ∀ hash, digestHash entry = .ok hash → G hash) :
    Within (collects G) (keepEntries manifest element) := by
  unfold keepEntries
  refine (within_lift _).bind fun member => Within.ite ?_ (Within.pure _)
  refine within_lift_bind fun json hjson => ?_
  split
  · refine Within.forM fun entry hentry => ?_
    refine (within_lift _).bind fun _ => Within.ite ?_ (Within.pure _)
    exact within_lift_bind fun hash hhash => collects_keepBlob (h _ hjson entry hentry hash hhash)
  · exact Within.pure _

/-- A manifest that cannot be read adds nothing but its own hash. -/
theorem wp_keepManifest (hsame : SameBelow (appDir uri) s p.store) :
    wp (keepManifest tk uri (appDir uri)) (fun _ t => (collects (BlobOf tk s uri)).rel p t)
      (fun _ _ => False) p := by
  have hentries : ∀ {manifest element}, s.manifest tk (appDir uri) = .ok manifest →
      (element = "manifests" ∨ element = "layers") →
      Within (collects (BlobOf tk s uri)) (keepEntries manifest element) := by
    intro manifest element hmanifest helement
    exact collects_keepEntries fun entries hindex entry hentry hash hhash =>
      .entry hmanifest helement hindex hentry hhash
  unfold keepManifest
  rw [wp_bind, wp_get, wp_ite]
  split
  swap
  · exact (collects _).refl p
  rw [wp_bind]
  refine wp_of_ok rfl ?_
  have hkept := collects_keepBlob (BlobOf.appManifest : BlobOf tk s uri uri.digest.hash) p
  rw [wp_tryCatch]
  unfold keepManifestEntries
  rw [wp_bind, wp_get]
  dsimp only
  rw [hsame.manifest]
  have hwithin : Within (collects (BlobOf tk s uri))
      (Pruning.lift (s.manifest tk (appDir uri)) >>= fun manifest => do
        keepEntries manifest "manifests"
        keepEntries manifest "layers") :=
    within_lift_bind fun manifest hmanifest => (hentries hmanifest (.inl rfl)).bind fun _ =>
      hentries hmanifest (.inr rfl)
  exact wp_mono (hwithin _) (fun _ t ht => (collects _).trans hkept ht) fun _ t ht =>
    (collects _).trans hkept ht

/-- The layers of an image that is stored have digests. -/
theorem wp_keepLayer {layer : Json} (h : LayerStored s layer)
    (hG : ∀ hash, digestHash layer = .ok hash → G hash) :
    wp (keepLayer layer) (fun _ t => (collects G).rel p t ∧
      ∀ hash, digestHash layer = .ok hash → hash ∈ t.blobShortlist) (fun _ _ => False) p := by
  obtain ⟨hash, hhash, _⟩ := h.blob
  unfold keepLayer
  rw [if_pos h.digest]
  refine wp_lift_ok hhash ⟨collects_keepBlob (hG hash hhash) p, fun hash' hhash' => ?_⟩
  cases hhash.symm.trans hhash'
  exact List.mem_cons_self

/-- Of an image that is stored, all blobs are collected. -/
theorem wp_keepImageBlobs {index : Path} {hash : String} (h : ImageStored tk s index hash)
    (hsame : SameBelow dir s p.store) (hindex : dir <+: index) (hblobs : p.store.blobs = s.blobs) :
    wp (keepImageBlobs tk index) (fun _ t => (collects (ImageBlob tk s index)).rel p t ∧
      ∀ blob, ImageBlob tk s index blob → blob ∈ t.blobShortlist) (fun _ _ => False) p := by
  obtain ⟨config, hconfig, _⟩ := h.config
  obtain ⟨layers, hlayers, hall⟩ := h.layers
  have hparse : p.store.parseBlob tk hash = s.parseBlob tk hash := parseBlob_congr (by rw [hblobs])
  unfold keepImageBlobs
  rw [wp_bind, wp_get]
  refine wp_lift_ok ((hsame.imageHash hindex).trans h.image) ?_
  rw [wp_bind]
  refine wp_of_ok rfl ?_
  rw [wp_bind, wp_get]
  refine wp_lift_ok (a := config) (by rwa [Store.configHash, hparse]) ?_
  rw [wp_bind]
  refine wp_of_ok rfl ?_
  rw [wp_bind, wp_get]
  refine wp_lift_ok (a := layers) (by rwa [Store.layers, hparse]) ?_
  have hstart := (collects (ImageBlob tk s index)).trans
    (collects_keepBlob (.manifest h.image) p) (collects_keepBlob (.config h.image hconfig) _)
  let I : Pruning → Prop := fun t => (collects (ImageBlob tk s index)).rel p t ∧
    hash ∈ t.blobShortlist ∧ config ∈ t.blobShortlist
  let Q : Json → Pruning → Prop := fun layer t =>
    ∀ blob, digestHash layer = .ok blob → blob ∈ t.blobShortlist
  have hstep : ∀ layer ∈ layers.values, ∀ t, I t → wp (keepLayer layer)
      (fun _ u => I u ∧ Q layer u ∧ ∀ other, Q other t → Q other u) (fun _ _ => False) t := by
    intro layer hlayer t ht
    have hG : ∀ blob, digestHash layer = .ok blob → ImageBlob tk s index blob := fun blob hblob =>
      .layer h.image hlayers hlayer hblob
    refine wp_mono (wp_keepLayer (hall layer hlayer) hG) (fun _ u hu => ?_) fun _ _ he => he
    have hmore := hu.1.2.1
    exact ⟨⟨(collects _).trans ht.1 hu.1, hmore _ ht.2.1, hmore _ ht.2.2⟩, hu.2,
      fun other hother blob hblob => hmore _ (hother blob hblob)⟩
  refine wp_mono (wp_forM_each hstep ⟨hstart, by simp, by simp⟩) (fun _ t ht => ?_) fun _ _ he => he
  obtain ⟨⟨hrel, hmanifest, hconfig'⟩, hdone, _⟩ := ht
  refine ⟨hrel, fun blob hblob => ?_⟩
  cases hblob with
  | manifest himage =>
    cases h.image.symm.trans himage
    exact hmanifest
  | config himage hconfig₂ =>
    cases h.image.symm.trans himage
    cases hconfig.symm.trans hconfig₂
    exact hconfig'
  | layer himage hlayers₂ hlayer hblob =>
    cases h.image.symm.trans himage
    cases hlayers.symm.trans hlayers₂
    exact hdone _ hlayer _ hblob

theorem wp_keepImage {text : String} {image : Uri} (huri : parseUri text false = .ok image)
    (h : ImageFetched tk s dir text) (hsame : SameBelow dir s p.store)
    (hblobs : p.store.blobs = s.blobs) (hroot : G image.digest.hash)
    (hG : ∀ blob, ImageBlob tk s (indexPath dir image) blob → G blob) :
    wp (keepImage tk dir text) (fun _ t => (collects G).rel p t ∧
      ∀ blob, ImageBlob tk s (indexPath dir image) blob → blob ∈ t.blobShortlist)
      (fun _ _ => False) p := by
  obtain ⟨image', huri', hindex, hash, hstored⟩ := h
  cases huri.symm.trans huri'
  unfold keepImage
  refine wp_lift_ok huri ?_
  rw [wp_bind]
  refine wp_of_ok rfl ?_
  have hkept := collects_keepBlob hroot p
  rw [wp_bind, wp_get]
  dsimp only
  rw [if_pos ((hsame.has (indexPath_below dir image)).trans hindex), wp_tryCatch]
  refine wp_mono (wp_keepImageBlobs hstored hsame (indexPath_below dir image) hblobs)
    (fun _ t ht => ?_) fun _ _ he => he.elim
  exact ⟨(collects G).trans hkept (collects_mono hG ht.1), ht.2⟩

/-- A version that was found to be fetched stays as it is, and its blobs are collected. -/
theorem wp_keepVersion (h : ImagesFetched tk s (appDir uri))
    (hsame : SameBelow (appDir uri) s p.store) (hblobs : p.store.blobs = s.blobs) :
    wp (keepVersion tk uri (appDir uri)) (fun _ t => (collects (BlobOf tk s uri)).rel p t ∧
      Collected tk s (appDir uri) t) (fun _ _ => False) p := by
  obtain ⟨compose, hcompose, images, himages, hall⟩ := h
  unfold keepVersion
  rw [wp_bind]
  refine wp_mono (wp_keepManifest hsame) (fun _ t ht => ?_) fun _ _ he => he
  rw [wp_bind, wp_get, ht.1]
  refine wp_lift_ok (hsame.composeInfo.trans hcompose) (wp_lift_ok himages ?_)
  let Q : Except String String → Pruning → Prop := fun image u =>
    ∀ text imageUri, image = .ok text → parseUri text false = .ok imageUri →
      ∀ blob, ImageBlob tk s (indexPath (appDir uri) imageUri) blob → blob ∈ u.blobShortlist
  have hstep : ∀ image ∈ images, ∀ u, (collects (BlobOf tk s uri)).rel p u →
      wp (Pruning.lift image >>= fun text => keepImage tk (appDir uri) text)
        (fun _ v => (collects (BlobOf tk s uri)).rel p v ∧ Q image v ∧
          ∀ other, Q other u → Q other v) (fun _ _ => False) u := by
    intro image himage u hu
    obtain ⟨text, rfl, hfetched⟩ := hall image himage
    obtain ⟨imageUri, huri, _⟩ := id hfetched
    have happ : AppImage tk s (appDir uri) imageUri :=
      ⟨compose, hcompose, images, himages, text, himage, huri⟩
    refine wp_lift_ok rfl ?_
    refine wp_mono (wp_keepImage huri hfetched (hu.1 ▸ hsame) (hu.1 ▸ hblobs)
      (BlobOf.imageRoot happ) fun blob hblob => BlobOf.image happ hblob) (fun _ v hv => ?_)
      fun _ _ he => he
    refine ⟨(collects _).trans hu hv.1, ?_, ?_⟩
    · intro text' imageUri' htext' huri'
      cases htext'
      cases huri.symm.trans huri'
      exact hv.2
    · intro other hother text' imageUri' htext' huri' blob hblob
      exact hv.1.2.1 _ (hother text' imageUri' htext' huri' blob hblob)
  refine wp_mono (wp_forM_each hstep ht) (fun _ u hu => ?_) fun _ _ he => he
  refine ⟨hu.1, fun imageUri happ blob hblob => ?_⟩
  obtain ⟨compose', hcompose', images', himages', text, htext, huri⟩ := happ
  cases hcompose.symm.trans hcompose'
  cases himages.symm.trans himages'
  exact hu.2.1 _ htext text imageUri rfl huri blob hblob

end Collecting

/-! ## The walk over the apps -/

/-- The URI that a directory of apps is walked by. -/
def Kept (shortlist : List App) (uri : Uri) : Prop :=
  ∃ app, appNamed shortlist uri.app = some app ∧ parseUri app.2 true = .ok uri

/-- What is collected stays collected, and what is removed does not come back. -/
def goesOn : Frame Pruning where
  rel p t := (∀ hash ∈ p.blobShortlist, hash ∈ t.blobShortlist) ∧
    ∀ q, t.store.apps.node q = none ∨ t.store.apps.node q = p.store.apps.node q
  refl _ := ⟨fun _ h => h, fun _ => .inr rfl⟩
  trans h h' := by
    refine ⟨fun hash hhash => h'.1 hash (h.1 hash hhash), fun q => ?_⟩
    rcases h'.2 q with hnone | hsame
    · exact .inl hnone
    · rw [hsame]
      exact h.2 q

theorem pruneFrame_goesOn : PruneFrame goesOn fun _ => True where
  blob _ _ := ⟨fun _ h => List.mem_cons_of_mem _ h, fun _ => .inr rfl⟩
  tree p dir _ := by
    refine ⟨fun _ h => h, fun q => ?_⟩
    rw [FileTree.node_removeAll]
    split
    · exact .inl rfl
    · exact .inr rfl
  docker _ := ⟨fun _ h => h, fun _ => .inr rfl⟩

section Walk

variable {tk : Toolkit} {env : PruneEnv} {shortlist : List App} {s : Store} {p t : Pruning}
  {uri : Uri} {dir : Path}

theorem Collected.goesOn (h : Collected tk s dir p) (hrel : goesOn.rel p t) :
    Collected tk s dir t :=
  fun image happ blob hblob => hrel.1 _ (h image happ blob hblob)

theorem isDirectory_of_goesOn {q : Path} (hrel : goesOn.rel p t)
    (h : t.store.apps.isDirectory q = true) : p.store.apps.isDirectory q = true := by
  have hnode := eq_of_beq h
  rcases hrel.2 q with hnone | hsame
  · rw [hnone] at hnode
    cases hnode
  · rwa [FileTree.isDirectory, ← hsame]

theorem Kept.unique {uri' : Uri} (h : Kept shortlist uri) (h' : Kept shortlist uri')
    (heq : uri.app = uri'.app) : uri = uri' := by
  obtain ⟨app, happ, huri⟩ := h
  obtain ⟨app', happ', huri'⟩ := h'
  rw [heq, happ'] at happ
  cases happ
  exact Except.ok.inj (huri.symm.trans huri')

/-- What holds while the walk goes on. -/
structure Walked (tk : Toolkit) (shortlist : List App) (s : Store) (p : Pruning) : Prop where
  blobs : p.store.blobs = s.blobs
  versions : ∀ uri, Kept shortlist uri → SameBelow (appDir uri) s p.store
  apps : ∀ uri, Kept shortlist uri → p.store.apps.isDirectory [uri.app] = true
  collected : ∀ hash ∈ p.blobShortlist, ∃ uri, Kept shortlist uri ∧ BlobOf tk s uri hash

/-- The directory of an app or of a version goes, if no version to keep is in it. -/
theorem Walked.removeDir (hp : Walked tk shortlist s p) (hlength : dir.length ≤ 2)
    (hnot : ∀ uri, Kept shortlist uri → ¬ dir <+: appDir uri) :
    wp (Pruning.removeDir dir)
      (fun _ t => Walked tk shortlist s t ∧ t.store.apps.isDirectory dir = false)
      (fun _ _ => False) p := by
  refine ⟨⟨hp.blobs, fun uri huri q hq => ?_, fun uri huri => ?_, hp.collected⟩, ?_⟩
  · have hout : ¬ dir <+: q := fun hpre =>
      hnot uri huri (List.prefix_of_prefix_length_le hpre hq hlength)
    exact (FileTree.node_removeAll_of_not_prefix hout).trans (hp.versions uri huri q hq)
  · have hout : ¬ dir <+: [uri.app] := fun hpre =>
      hnot uri huri (hpre.trans (List.prefix_append [uri.app] [uri.digest.hash]))
    exact FileTree.isDirectory_removeAll.mpr ⟨hout, hp.apps uri huri⟩
  · rw [← Bool.not_eq_true]
    intro h
    exact (FileTree.isDirectory_removeAll.mp h).1 (List.prefix_refl _)

/-- The version to keep is collected, and the others go. -/
structure Settled (tk : Toolkit) (s : Store) (uri : Uri) (version : String) (p : Pruning) :
    Prop where
  kept : version = uri.digest.hash → Collected tk s (appDir uri) p
  gone : version ≠ uri.digest.hash → p.store.apps.isDirectory [uri.app, version] = false

theorem Settled.goesOn {version : String} (h : Settled tk s uri version p)
    (hrel : goesOn.rel p t) : Settled tk s uri version t where
  kept heq := (h.kept heq).goesOn hrel
  gone hne := by
    rw [← Bool.not_eq_true]
    intro ht
    cases (h.gone hne).symm.trans (isDirectory_of_goesOn hrel ht)

theorem wp_pruneVersion (huri : Kept shortlist uri) (hintact : Intact tk s uri)
    (hdir : s.apps.isDirectory (appDir uri) = true) (version : String)
    (hp : Walked tk shortlist s p) :
    wp (pruneVersion tk uri version)
      (fun _ t => Walked tk shortlist s t ∧ Settled tk s uri version t) (fun _ _ => False) p := by
  have hsame := hp.versions uri huri
  unfold pruneVersion
  rw [wp_bind, wp_get, wp_ite]
  split
  swap
  · next hnot =>
    refine ⟨hp, fun heq => ?_, fun _ => by simpa using hnot⟩
    rw [heq] at hnot
    exact absurd ((hsame.isDirectory (List.prefix_refl _)).trans hdir) hnot
  rw [wp_ite]
  split
  · next hversion =>
    have hother : ∀ uri', Kept shortlist uri' → ¬ [uri.app, version] <+: appDir uri' := by
      intro uri' huri' hpre
      have heq : [uri.app, version] = appDir uri' := hpre.eq_of_length rfl
      injection heq with happ hrest
      injection hrest with hhash _
      rw [huri.unique huri' happ] at hversion
      exact hversion hhash
    refine wp_mono (hp.removeDir (Nat.le_refl 2) hother) (fun _ t ht => ?_) fun _ _ he => he
    exact ⟨ht.1, fun heq => absurd heq hversion, fun _ => ht.2⟩
  · next hversion =>
    obtain rfl := not_not.mp hversion
    refine wp_mono (wp_keepVersion hintact.images hsame hp.blobs) (fun _ t ht => ?_)
      fun _ _ he => he
    obtain ⟨⟨hstore, hmore, honly⟩, hcollected⟩ := ht
    refine ⟨⟨?_, ?_, ?_, fun hash hhash => ?_⟩, fun _ => hcollected, fun hne => absurd rfl hne⟩
    · rw [hstore, hp.blobs]
    · rw [hstore]
      exact hp.versions
    · rw [hstore]
      exact hp.apps
    · rcases honly hash hhash with hold | hnew
      · exact hp.collected hash hold
      · exact ⟨uri, huri, hnew⟩

theorem wp_pruneVersions (huri : Kept shortlist uri) (hintact : Intact tk s uri)
    (hdir : s.apps.isDirectory (appDir uri) = true) (hp : Walked tk shortlist s p) :
    wp (pruneVersions tk env uri)
      (fun _ t => Walked tk shortlist s t ∧ ∀ version, Settled tk s uri version t)
      (fun _ _ => False) p := by
  unfold pruneVersions
  rw [wp_bind, wp_get]
  dsimp only
  rw [if_pos (hp.apps uri huri)]
  have hstep : ∀ version ∈ p.store.apps.list env.order [uri.app], ∀ t,
      Walked tk shortlist s t ∧ goesOn.rel p t → wp (pruneVersion tk uri version)
        (fun _ u => (Walked tk shortlist s u ∧ goesOn.rel p u) ∧ Settled tk s uri version u ∧
          ∀ other, Settled tk s uri other t → Settled tk s uri other u) (fun _ _ => False) t := by
    intro version _ t ht
    have hframe : Within goesOn (pruneVersion tk uri version) :=
      within_pruneVersion pruneFrame_goesOn version
    refine wp_mono (wp_and (wp_pruneVersion huri hintact hdir version ht.1) (hframe t))
      (fun _ u hu => ?_) fun _ _ he => he.1
    exact ⟨⟨hu.1.1, goesOn.trans ht.2 hu.2⟩, hu.1.2, fun other hother => hother.goesOn hu.2⟩
  refine wp_mono (wp_forM_each hstep ⟨hp, goesOn.refl p⟩) (fun _ t ht => ?_) fun _ _ he => he
  obtain ⟨⟨hwalked, hrel⟩, hall, _⟩ := ht
  refine ⟨hwalked, fun version => ?_⟩
  by_cases hmem : version ∈ p.store.apps.list env.order [uri.app]
  · exact hall version hmem
  · -- it was not there to begin with
    have hnot : p.store.apps.isDirectory [uri.app, version] ≠ true := fun h =>
      hmem (FileTree.mem_list.mpr (FileTree.has_of_isDirectory h))
    refine ⟨fun heq => ?_, fun _ => ?_⟩
    · rw [heq] at hnot
      exact absurd (((hp.versions uri huri).isDirectory (List.prefix_refl _)).trans hdir) hnot
    · rw [← Bool.not_eq_true]
      exact fun h => hnot (isDirectory_of_goesOn hrel h)

/-- The apps of the shortlist have the names of their URIs and are intact. -/
structure Ready (tk : Toolkit) (shortlist : List App) (s : Store) : Prop where
  valid : s.apps.Valid
  names : ∀ app ∈ shortlist, ∀ uri, parseUri app.2 true = .ok uri → app.1 = uri.app
  intact : ∀ app ∈ shortlist, ∃ uri, parseUri app.2 true = .ok uri ∧ Intact tk s uri

theorem Intact.isDirectory (h : Intact tk s uri) (hvalid : s.apps.Valid) :
    s.apps.isDirectory (appDir uri) = true := by
  obtain ⟨text, htext, _⟩ := h.archive.text
  exact hvalid (appDir uri) Manifest.filename (by simp [appDir]) (has_of_read htext)

theorem Ready.kept (h : Ready tk shortlist s) (huri : Kept shortlist uri) :
    Intact tk s uri ∧ s.apps.isDirectory (appDir uri) = true := by
  obtain ⟨app, happ, hparse⟩ := huri
  obtain ⟨uri', hparse', hintact⟩ := h.intact app (appNamed_some happ).1
  cases hparse.symm.trans hparse'
  exact ⟨hintact, hintact.isDirectory h.valid⟩

theorem Ready.app_isDirectory (h : Ready tk shortlist s) (huri : Kept shortlist uri) :
    s.apps.isDirectory [uri.app] = true :=
  h.valid [uri.app] uri.digest.hash (by simp) (FileTree.has_of_isDirectory (h.kept huri).2)

theorem wp_pruneApp (h : Ready tk shortlist s) (name : String) (hp : Walked tk shortlist s p) :
    wp (pruneApp tk env shortlist name) (fun _ t => Walked tk shortlist s t ∧
      ∀ uri, Kept shortlist uri → uri.app = name → ∀ version, Settled tk s uri version t)
      (fun _ _ => False) p := by
  unfold pruneApp
  rw [wp_bind, wp_get, wp_ite]
  split
  swap
  · next hnot =>
    refine ⟨hp, fun uri huri hname => ?_⟩
    rw [← hname] at hnot
    exact absurd (hp.apps uri huri) hnot
  cases hnamed : appNamed shortlist name with
  | none =>
    have hnone : ∀ uri, Kept shortlist uri → uri.app ≠ name := by
      intro uri huri hname
      obtain ⟨app, happ, _⟩ := huri
      rw [hname, hnamed] at happ
      cases happ
    refine wp_mono (hp.removeDir (by simp) fun uri huri hpre => ?_) (fun _ t ht => ?_)
      fun _ _ he => he
    · obtain ⟨rest, hrest⟩ := hpre
      injection hrest with hname _
      exact hnone uri huri hname.symm
    · exact ⟨ht.1, fun uri huri hname => absurd hname (hnone uri huri)⟩
  | some app =>
    obtain ⟨happ, hname⟩ := appNamed_some hnamed
    obtain ⟨uri, hparse, hintact⟩ := h.intact app happ
    have hkept : Kept shortlist uri :=
      ⟨app, by rw [← h.names app happ uri hparse, hname, hnamed], hparse⟩
    refine wp_lift_ok hparse ?_
    refine wp_mono (wp_pruneVersions hkept hintact (h.kept hkept).2 hp) (fun _ t ht => ?_)
      fun _ _ he => he
    refine ⟨ht.1, fun uri' huri' hname' => ?_⟩
    rw [huri'.unique hkept (by rw [hname', ← hname, h.names app happ uri hparse])]
    exact ht.2

/-- The call returns, and it keeps one version for each name. -/
theorem wp_prune_ready (h : Ready tk shortlist s) :
    wp (prune tk env shortlist) (fun _ t => ∃ p, t.store = p.cleaned ∧ Walked tk shortlist s p ∧
      goesOn.rel (Pruning.start s) p ∧
      ∀ uri, Kept shortlist uri → ∀ version, Settled tk s uri version p) (fun _ _ => False)
      (Pruning.start s) := by
  let Q : String → Pruning → Prop := fun name t =>
    ∀ uri, Kept shortlist uri → uri.app = name → ∀ version, Settled tk s uri version t
  have hstart : Walked tk shortlist s (Pruning.start s) :=
    ⟨rfl, fun _ _ _ _ => rfl, fun _ huri => h.app_isDirectory huri, List.forall_mem_nil _⟩
  have hstep : ∀ name ∈ s.apps.list env.order [], ∀ t,
      Walked tk shortlist s t ∧ goesOn.rel (Pruning.start s) t →
      wp (pruneApp tk env shortlist name)
        (fun _ u => (Walked tk shortlist s u ∧ goesOn.rel (Pruning.start s) u) ∧ Q name u ∧
          ∀ other, Q other t → Q other u) (fun _ _ => False) t := by
    intro name _ t ht
    have hframe : Within goesOn (pruneApp tk env shortlist name) :=
      within_pruneApp pruneFrame_goesOn shortlist name
    refine wp_mono (wp_and (wp_pruneApp h name ht.1) (hframe t)) (fun _ u hu => ?_)
      fun _ _ he => he.1
    refine ⟨⟨hu.1.1, goesOn.trans ht.2 hu.2⟩, hu.1.2, fun other hother uri huri hname version => ?_⟩
    exact (hother uri huri hname version).goesOn hu.2
  refine wp_prune (wp_mono (wp_forM_each hstep ⟨hstart, goesOn.refl _⟩) (fun _ p hp t ht => ?_)
    fun _ _ he => he)
  refine ⟨p, ht, hp.1.1, hp.1.2, fun uri huri => ?_⟩
  have hlisted : uri.app ∈ s.apps.list env.order [] :=
    FileTree.mem_list.mpr (FileTree.has_of_isDirectory (h.app_isDirectory huri))
  exact hp.2.1 uri.app hlisted uri huri rfl

/-- Without the blobs that were not collected, an app is still intact. -/
theorem Intact.cleaned (h : Intact tk s uri) (hsame : SameBelow (appDir uri) s p.store)
    (hblobs : p.store.blobs = s.blobs) (hcollected : Collected tk s (appDir uri) p) :
    Intact tk p.cleaned uri := by
  refine h.congr hsame fun image happ blob hblob => ?_
  have hmem : p.blobShortlist.contains blob = true :=
    List.contains_iff_mem.mpr (hcollected image happ blob hblob)
  rw [Pruning.cleaned, lookup_filter_key, if_pos hmem, hblobs]

end Walk

/-! ## What is left -/

/-- No two apps of the shortlist are versions of one app. -/
def OneVersion (shortlist : List App) : Prop :=
  ∀ app ∈ shortlist, ∀ app' ∈ shortlist, ∀ uri uri', parseUri app.2 true = .ok uri →
    parseUri app'.2 true = .ok uri' → uri.app = uri'.app → uri.digest.hash = uri'.digest.hash

section Left

variable {tk : Toolkit} {shortlist : List App} {s : Store} {p : Pruning} {uri : Uri} {app : App}

/-- For every app of the shortlist there is one of the same name that is kept. -/
theorem Ready.exists_kept (h : Ready tk shortlist s) (happ : app ∈ shortlist)
    (huri : parseUri app.2 true = .ok uri) :
    ∃ app' ∈ shortlist, ∃ uri', parseUri app'.2 true = .ok uri' ∧ uri'.app = uri.app ∧
      Kept shortlist uri' := by
  cases hnamed : appNamed shortlist uri.app with
  | none =>
    rw [← h.names app happ uri huri] at hnamed
    exact absurd hnamed (appNamed_ne_none happ)
  | some app' =>
    obtain ⟨happ', hname⟩ := appNamed_some hnamed
    obtain ⟨uri', huri', _⟩ := h.intact app' happ'
    have heq : uri'.app = uri.app := by rw [← h.names app' happ' uri' huri', hname]
    exact ⟨app', happ', uri', huri', heq, app', heq ▸ hnamed, huri'⟩

theorem appDir_congr {uri' : Uri} (happ : uri.app = uri'.app)
    (hhash : uri.digest.hash = uri'.digest.hash) : appDir uri = appDir uri' := by
  rw [appDir, appDir, happ, hhash]

theorem fetched_of_oneVersion (h : Ready tk shortlist s) (hone : OneVersion shortlist)
    (hp : Walked tk shortlist s p)
    (hsettled : ∀ uri, Kept shortlist uri → ∀ version, Settled tk s uri version p)
    (happ : app ∈ shortlist) : IsFetched tk app p.cleaned := by
  obtain ⟨uri, huri, hintact⟩ := h.intact app happ
  obtain ⟨app', happ', uri', huri', hname, hkept⟩ := h.exists_kept happ huri
  have hdir : appDir uri' = appDir uri :=
    appDir_congr hname (hone app' happ' app happ uri' uri huri' huri hname)
  have hcollected := (hsettled uri' hkept uri'.digest.hash).kept rfl
  have hsame := hp.versions uri' hkept
  rw [hdir] at hcollected hsame
  exact (hintact.cleaned hsame hp.blobs hcollected).isFetched huri

/-- An app that is still fetched is of the version that is kept. -/
theorem hash_of_fetched (h : Ready tk shortlist s) (hrel : goesOn.rel (Pruning.start s) p)
    (hsettled : ∀ uri, Kept shortlist uri → ∀ version, Settled tk s uri version p)
    (happ : app ∈ shortlist) (huri : parseUri app.2 true = .ok uri)
    (hfetched : IsFetched tk app p.cleaned) {uri' : Uri} (hkept : Kept shortlist uri')
    (hname : uri'.app = uri.app) : uri.digest.hash = uri'.digest.hash := by
  by_contra hne
  have hgone := (hsettled uri' hkept uri.digest.hash).gone hne
  have hhas : p.store.apps.has (appDir uri) = true := ((isFetched_iff huri).mp hfetched).archive.dir
  obtain ⟨uri₂, huri₂, hintact⟩ := h.intact app happ
  cases huri.symm.trans huri₂
  have hdir := hintact.isDirectory h.valid
  rw [hname] at hgone
  rcases hrel.2 (appDir uri) with hnone | hsame
  · rw [FileTree.has, hnone] at hhas
    cases hhas
  · have hstill : p.store.apps.isDirectory (appDir uri) = true := by
      rw [FileTree.isDirectory, hsame]
      exact hdir
    cases hgone.symm.trans hstill

end Left

/-- The apps of a shortlist have the names of their URIs, and before the call each was found
to be fetched.  Then `prune` returns, every blob that is left is one of an app of the
shortlist, and the apps are still fetched exactly if no two are versions of one app. -/
theorem prune_keeps_fetched_iff (tk : Toolkit) (env : PruneEnv) (shortlist : List App)
    (s₀ s : Store) (hvalid : s.apps.Valid)
    (hnames : ∀ app ∈ shortlist, ∀ uri, parseUri app.2 true = .ok uri → app.1 = uri.app)
    (hchecked : areFetched tk shortlist s₀ = .ok true s) :
    (∃ p, prune tk env shortlist (Pruning.start s) = .ok () p) ∧
      ((∀ app ∈ shortlist, IsFetched tk app (pruned tk env shortlist s)) ↔
        OneVersion shortlist) ∧
      ∀ blob ∈ (pruned tk env shortlist s).blobs, ∃ app ∈ shortlist, ∃ uri,
        parseUri app.2 true = .ok uri ∧ BlobOf tk s uri blob.1 := by
  have hready : Ready tk shortlist s := ⟨hvalid, hnames, (intact_of_areFetched hchecked).2⟩
  have hwp : wp (prune tk env shortlist) _ _ (Pruning.start s) := wp_prune_ready hready
  obtain ⟨_, t, hrun, p, hstore, hwalked, hrel, hsettled⟩ := wp_false_iff.mp hwp
  have hpruned : pruned tk env shortlist s = p.cleaned := by
    rw [pruned, after, hrun]
    exact hstore
  rw [hpruned]
  refine ⟨⟨t, hrun⟩, ⟨fun hall => ?_, fun hone app happ => ?_⟩, fun blob hblob => ?_⟩
  · intro app happ app' happ' uri uri' huri huri' hname
    obtain ⟨_, _, kept, _, hkeptName, hkept⟩ := hready.exists_kept happ huri
    have hfirst := hash_of_fetched hready hrel hsettled happ huri (hall app happ) hkept hkeptName
    have hsecond := hash_of_fetched hready hrel hsettled happ' huri' (hall app' happ') hkept
      (hkeptName.trans hname)
    exact hfirst.trans hsecond.symm
  · exact fetched_of_oneVersion hready hone hwalked hsettled happ
  · have hmem : blob.1 ∈ p.blobShortlist := by
      have hcontains := (List.mem_filter.mp hblob).2
      exact List.contains_iff_mem.mp hcontains
    obtain ⟨uri, ⟨app, hnamed, huri⟩, hof⟩ := hwalked.collected blob.1 hmem
    exact ⟨app, (appNamed_some hnamed).1, uri, huri, hof⟩

/-! ## A store with two versions of an app -/

/-- A second manifest, `n`, with the same content as `m`. -/
def versionsToolkit : Toolkit :=
  { letterToolkit with
    parseJSON := fun text => letterToolkit.parseJSON (if text = "n" then "m" else text) }

/-- Adds the version with the given manifest. -/
def addVersion (manifest : String) (t : FileTree) : FileTree :=
  let dir := ["app", letterHash manifest]
  let image := dir ++ ["images", "hub.io", "factory", "web", letterHash "w"]
  ((((t.mkdirs image).write (image ++ ["index.json"]) "x").write (dir ++ ["manifest.json"])
    manifest).write (dir ++ [letterHash "a" ++ ".tgz"]) "a").write (dir ++ [composeFile]) "y"

def versionsStore : Store where
  apps := addVersion "n" (addVersion "m" { entries := [] })
  blobs := [(letterHash "i", "i"), (letterHash "z", "z"), (letterHash "c", "c"),
    (letterHash "l", "l")]

def versionApp (manifest : String) : App := ("app", letterUri "app" manifest)

theorem parseUri_versionApp {manifest : String} (h : manifest = "m" ∨ manifest = "n") :
    ∃ uri, parseUri (versionApp manifest).2 true = .ok uri ∧ uri.app = "app" := by
  have htest : ((parseUri (versionApp manifest).2 true).toOption.any fun uri =>
      decide (uri.app = "app")) = true := by
    rcases h with rfl | rfl
    · decide +kernel
    · decide +kernel
  obtain ⟨uri, huri, happ⟩ := exists_ok_of_any htest
  exact ⟨uri, huri, of_decide_eq_true happ⟩

/-- One version is asked for, and it stays fetched. -/
theorem prune_keeps_version : ∃ s,
    areFetched versionsToolkit [versionApp "m"] versionsStore = .ok true s ∧
      IsFetched versionsToolkit (versionApp "m")
        (pruned versionsToolkit (beginsWith [] "" []) [versionApp "m"] s) := by
  obtain ⟨b, s, hchecked, hboth⟩ := exists_ok_of_returns
    (x := areFetched versionsToolkit [versionApp "m"]) (s := versionsStore)
    (p := fun b t => decide (b = true ∧ t.apps.Valid)) (by decide +kernel)
  obtain ⟨rfl, hvalid⟩ := of_decide_eq_true hboth
  obtain ⟨uri, huri, happ⟩ := parseUri_versionApp (.inl rfl)
  have hall := prune_keeps_fetched_iff versionsToolkit (beginsWith [] "" []) [versionApp "m"]
    versionsStore s hvalid
  refine ⟨s, hchecked, (hall ?_ hchecked).2.1.mpr ?_ _ (List.mem_singleton_self _)⟩
  · intro app hmem uri' huri'
    rw [List.mem_singleton.mp hmem] at huri' ⊢
    cases huri.symm.trans huri'
    exact happ.symm
  · intro app hmem app' hmem' uri₁ uri₂ huri₁ huri₂ _
    rw [List.mem_singleton.mp hmem, huri] at huri₁
    rw [List.mem_singleton.mp hmem', huri] at huri₂
    cases huri₁
    cases huri₂
    rfl

/-- Both versions are asked for, both are fetched, and the second one is removed. -/
theorem prune_removes_second_version : ∃ s,
    areFetched versionsToolkit [versionApp "m", versionApp "n"] versionsStore = .ok true s ∧
      (∀ app ∈ [versionApp "m", versionApp "n"], IsFetched versionsToolkit app s ∧
        ∃ uri, parseUri app.2 true = .ok uri ∧ uri.app = app.1) ∧
      ¬ IsFetched versionsToolkit (versionApp "n") (pruned versionsToolkit (beginsWith [] "" [])
        [versionApp "m", versionApp "n"] s) := by
  obtain ⟨b, s, hchecked, hall⟩ := exists_ok_of_returns
    (x := areFetched versionsToolkit [versionApp "m", versionApp "n"]) (s := versionsStore)
    (p := fun b t => decide (b = true ∧ IsFetched versionsToolkit (versionApp "m") t ∧
      IsFetched versionsToolkit (versionApp "n") t ∧
      ¬ IsFetched versionsToolkit (versionApp "n") (pruned versionsToolkit (beginsWith [] "" [])
        [versionApp "m", versionApp "n"] t))) (by decide +kernel)
  obtain ⟨rfl, hfirst, hsecond, hgone⟩ := of_decide_eq_true hall
  refine ⟨s, hchecked, fun app happ => ?_, hgone⟩
  rcases List.mem_pair.mp happ with rfl | rfl
  · exact ⟨hfirst, parseUri_versionApp (.inl rfl)⟩
  · exact ⟨hsecond, parseUri_versionApp (.inr rfl)⟩

end RestorableAppEngine
end Docker
end AkLite
