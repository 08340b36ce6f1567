/-
Are the files of a running app those of its version?

`isRunning` compares the compose file in the archive of a version with the installed one, and
no other file.  `install` and `run` unpack the archive of a version over the files that are
there before they do anything that can fail.  So two versions with one compose file are not
told apart: `failed_update_runs_on` is an update that fails, after which the previous version
is reported as running with a file of the failed one.  `running_has_files_iff` says for which
versions a running one has its files whatever is called in which order and whatever fails.
-/
import AkLite.Engine.Installing
import AkLite.Engine.Pulled
import AkLite.Lib.Run

namespace AkLite
namespace Docker
namespace RestorableAppEngine

open Lib
open Client (App)

variable {tk : Toolkit}

/-! ## Sequences of calls -/

inductive Call where
  | fetch (app : App) (env : FetchEnv)
  | install (app : App) (env : InstallEnv)
  | run (app : App) (env : InstallEnv)

def Call.app : Call → App
  | .fetch app _ => app
  | .install app _ => app
  | .run app _ => app

def Call.exec (tar : Tar tk) (createContainersIfInstall : Bool) : Call → Site → Site
  | .fetch app env, s => { s with store := after (RestorableAppEngine.fetch tk env app) s.store }
  | .install app env, s =>
    after (RestorableAppEngine.install tar createContainersIfInstall env app) s
  | .run app env, s => after (RestorableAppEngine.run tar env app) s

def Step (tar : Tar tk) (createContainersIfInstall : Bool) (s : Site) (c : Call) (t : Site) :
    Prop :=
  c.exec tar createContainersIfInstall s = t

/-- A call on one of the versions of the app. -/
structure Call.Admitted (tk : Toolkit) (reg : Registry) (name : String) (versions : Set String)
    (c : Call) : Prop where
  name : c.app.1 = name
  version : c.app.2 ∈ versions
  serves : ∀ app env, c = .fetch app env → env.Serves tk reg

/-! ## The property and the condition -/

/-- The archive of a version. -/
def Registry.archive (tk : Toolkit) (reg : Registry) (uri : Uri) : Except String String := do
  let manifest ← Manifest.parse tk.canonical (tk.parseJSON (reg uri.digest.hash))
  return reg (← manifest.archiveHash tk.canonical)

/-- Every file of the archive is in the install directory, with its content there. -/
def Unpacked (tar : Tar tk) (archive name : String) (s : Site) : Prop :=
  ∀ p content, (tar.files archive).lookup p = some content →
    s.installed.read (name :: p) = some content

def HasFiles (tar : Tar tk) (reg : Registry) (app : App) (s : Site) : Prop :=
  ∃ uri archive, parseUri app.2 true = .ok uri ∧ reg.archive tk uri = .ok archive ∧
    Unpacked tar archive app.1 s

/-- A published version of the app. -/
def Available (tk : Toolkit) (reg : Registry) (versions : Set String) (digest : HashedDigest)
    (compose : String) : Prop :=
  ∃ version ∈ versions, ∃ uri, parseUri version true = .ok uri ∧
    Published tk reg uri digest compose

/-- The compose file has services, and containers of them can be recognised. -/
def Startable (tk : Toolkit) (compose : String) : Prop :=
  ∃ json services, tk.yaml2json compose = .ok json ∧ getServices json = .ok services ∧
    services ≠ [] ∧ ∀ service ∈ services, ∃ hash, getHash json service = .ok hash

/-- Versions with one compose file have the same files. -/
def AlikeAgree (tar : Tar tk) (reg : Registry) (versions : Set String) : Prop :=
  ∀ digest compose digest' compose', Available tk reg versions digest compose →
    Available tk reg versions digest' compose' → tk.sha256 compose = tk.sha256 compose' →
    Startable tk compose' → ∀ p content, (tar.files (reg digest.hash)).lookup p = some content →
      (tar.files (reg digest'.hash)).lookup p = some content

/-! ## What an installation leaves -/

section Installation

variable {tar : Tar tk} {app : App} {env : InstallEnv} {s t : Site}

/-- The store and the installed files stay. -/
def SameFiles (s t : Site) : Prop :=
  t.store = s.store ∧ ∀ p, t.installed.read p = s.installed.read p

/-- The files of the archive stand over those that were there. -/
def Overlaid (tar : Tar tk) (archive name : String) (s t : Site) : Prop :=
  t.store = s.store ∧ ∀ p, t.installed.read (name :: p) =
    ((tar.files archive).lookup p).or (s.installed.read (name :: p))

theorem Overlaid.unpacked {archive name : String} (h : Overlaid tar archive name s t) :
    Unpacked tar archive name t := by
  intro p content hp
  rw [h.2, hp]
  rfl

theorem wp_siteLift {α : Type} {x : Except String α} {Q : α → Site → Prop}
    {E : InstallExn → Site → Prop} (hE : ∀ what, E (.other what) s)
    (hQ : ∀ a, x = .ok a → Q a s) : wp (Site.lift x) Q E s := by
  rw [Site.lift, wp_orThrow]
  cases x with
  | error what => exact hE what
  | ok a => exact hQ a rfl

variable {P : Site → Prop}

theorem wp_perform {error : Option String} (h : P s) :
    wp (perform error) (fun _ => P) (fun _ => P) s := by
  cases error with
  | none => exact h
  | some what => exact h

/-- The archive may be missing, and `tar` may fail before it unpacks anything. -/
theorem wp_installApp {dir : Path} {name : String} (hsame : ∀ t, SameFiles s t → P t)
    (hover : ∀ manifest hash archive t, s.store.manifest tk dir = .ok manifest →
      manifest.archiveHash tk.canonical = .ok hash →
      s.store.apps.read (archivePath dir hash) = some archive →
      Overlaid tar archive name s t → P t) :
    wp (installApp tar env dir [name]) (fun _ => P) (fun _ => P) s := by
  have hdirs : SameFiles s { s with installed := s.installed.mkdirs [name] } :=
    ⟨rfl, FileTree.read_mkdirs _ _⟩
  unfold installApp
  rw [wp_bind, wp_get, wp_bind]
  refine wp_siteLift (fun _ => hsame s ⟨rfl, fun _ => rfl⟩) fun manifest hmanifest => ?_
  rw [wp_bind]
  refine wp_siteLift (fun _ => hsame s ⟨rfl, fun _ => rfl⟩) fun hash hhash => ?_
  rw [wp_bind, wp_modify]
  unfold unpackArchive
  rw [wp_bind, wp_get]
  cases hread : s.store.apps.read (archivePath dir hash) with
  | none => exact hsame _ hdirs
  | some archive =>
    dsimp only
    rw [wp_bind, wp_modify]
    apply wp_perform
    unfold TarRun.unpack
    dsimp only
    split
    · refine hover manifest hash archive _ hmanifest hhash hread ⟨rfl, fun p => ?_⟩
      have hunpack := FileTree.read_unpack (s.installed.mkdirs [name]) [name] p (tar.files archive)
      rw [FileTree.read_mkdirs] at hunpack
      exact hunpack
    · exact hsame _ hdirs

theorem wp_loadImages {i : Nat} {images : List (Except String String)} (h : P s) :
    wp (loadImages env i images) (fun _ => P) (fun _ => P) s := by
  induction images generalizing i with
  | nil => exact h
  | cons image rest ih =>
    unfold loadImages
    rw [wp_bind]
    refine wp_siteLift (fun _ => h) fun text _ => ?_
    rw [wp_bind]
    refine wp_siteLift (fun _ => h) fun _ _ => ?_
    cases env.loadImage i text with
    | some what => exact h
    | none => exact ih

/-- Only the unpacking changes something. -/
theorem wp_installAppAndImages (herror : ∀ what, parseUri app.2 true = .error what → P s)
    (h : ∀ uri, parseUri app.2 true = .ok uri →
      wp (installApp tar env (appDir uri) [app.1]) (fun _ => P) (fun _ => P) s) :
    wp (installAppAndImages tar env app) (fun _ => P) (fun _ => P) s := by
  unfold installAppAndImages
  rw [wp_bind]
  cases huri : parseUri app.2 true with
  | error what => exact herror what huri
  | ok uri =>
    change wp (installApp tar env (appDir uri) [app.1] >>= _) _ _ s
    rw [wp_bind]
    refine wp_mono (h uri huri) (fun _ t ht => ?_) fun _ _ ht => ht
    rw [wp_bind]
    refine wp_mono (wp_perform ht) (fun _ u hu => ?_) fun _ _ hu => hu
    unfold installAppImages
    rw [wp_bind, wp_get, wp_bind]
    refine wp_siteLift (fun _ => hu) fun json _ => ?_
    rw [wp_bind]
    exact wp_siteLift (fun _ => hu) fun images _ => wp_loadImages hu

theorem wp_installContainerless
    (h : wp (installAppAndImages tar env app) (fun _ => P) (fun _ => P) s) :
    wp (installContainerless tar env app) (fun _ => P) (fun _ => P) s := by
  unfold installContainerless
  rw [wp_tryCatch, wp_bind]
  exact wp_mono h (fun _ _ ht => ht) fun _ _ ht => ht

theorem wp_installAndCreateOrRunContainers {run : Bool}
    (h : wp (installAppAndImages tar env app) (fun _ => P) (fun _ => P) s) :
    wp (installAndCreateOrRunContainers tar env app run) (fun _ => P) (fun _ => P) s := by
  unfold installAndCreateOrRunContainers
  rw [wp_bind]
  refine wp_mono (wp_installContainerless h) (fun res t ht => ?_) fun _ _ ht => ht
  rw [wp_ite]
  split
  · exact ht
  · cases env.up with
    | some what => exact ht
    | none => exact ht

/-- What holds after the unpacking holds after the call. -/
theorem after_install {create : Bool}
    (h : wp (installAppAndImages tar env app) (fun _ => P) (fun _ => P) s) :
    P (after (install tar create env app) s) := by
  apply after_of_wp
  cases create with
  | false => exact wp_installContainerless h
  | true => exact wp_installAndCreateOrRunContainers h

theorem after_run (h : wp (installAppAndImages tar env app) (fun _ => P) (fun _ => P) s) :
    P (after (run tar env app) s) :=
  after_of_wp (wp_installAndCreateOrRunContainers h)

end Installation

/-! ## Versions that agree -/

section Sound

variable {tar : Tar tk} {reg : Registry} {name : String} {versions : Set String} {s t : Site}

/-- The store is genuine, and what is installed, if anything, is a published version. -/
structure Sound (tar : Tar tk) (reg : Registry) (name : String) (versions : Set String)
    (s : Site) : Prop where
  store : ∀ uri, Genuine tk reg uri s.store
  installed : s.installed.read [name, composeFile] = none ∨
    ∃ digest compose, Available tk reg versions digest compose ∧
      Unpacked tar (reg digest.hash) name s

theorem sound_empty : Sound tar reg name versions Site.empty where
  store _ := genuine_of_none rfl
  installed := .inl rfl

theorem Sound.same (h : Sound tar reg name versions s) (hsame : SameFiles s t) :
    Sound tar reg name versions t where
  store uri := by
    rw [hsame.1]
    exact h.store uri
  installed := by
    rcases h.installed with hnone | ⟨digest, compose, havailable, hunpacked⟩
    · left
      rw [hsame.2, hnone]
    · right
      refine ⟨digest, compose, havailable, fun p content hp => ?_⟩
      rw [hsame.2]
      exact hunpacked p content hp

theorem Sound.installs {version : String} {env : InstallEnv} (h : Sound tar reg name versions s)
    (hversion : version ∈ versions) :
    wp (installAppAndImages tar env (name, version)) (fun _ => Sound tar reg name versions)
      (fun _ => Sound tar reg name versions) s := by
  refine wp_installAppAndImages (fun _ _ => h) fun uri huri => ?_
  refine wp_installApp (fun _ hsame => h.same hsame) ?_
  intro manifest hash archive t hmanifest hhash hread hover
  obtain ⟨digest, compose, hpublished, rfl⟩ := (h.store uri).archive hmanifest hhash hread
  refine ⟨fun uri' => ?_, .inr ⟨digest, compose, ?_, hover.unpacked⟩⟩
  · rw [hover.1]
    exact h.store uri'
  · exact ⟨version, hversion, uri, huri, hpublished⟩

theorem sound_step {create : Bool} {c : Call} (h : Sound tar reg name versions s)
    (hc : c.Admitted tk reg name versions) (hstep : Step tar create s c t) :
    Sound tar reg name versions t := by
  subst hstep
  cases c with
  | fetch app env =>
    refine ⟨fun uri => ?_, h.installed⟩
    exact genuine_fetch (hc.serves app env rfl) h.store uri
  | install app env =>
    obtain ⟨rfl, hversion, _⟩ := hc
    exact after_install (h.installs hversion)
  | run app env =>
    obtain ⟨rfl, hversion, _⟩ := hc
    exact after_run (h.installs hversion)

theorem sound_of_reaches {create : Bool}
    (h : Reaches (Step tar create) (fun _ c => c.Admitted tk reg name versions) Site.empty s) :
    Sound tar reg name versions s :=
  Reaches.invariant (Sound tar reg name versions)
    (fun _ _ _ hs hc hstep => sound_step hs hc hstep) sound_empty h

/-! What `isRunning` has looked at. -/

theorem isRunning_eq_true {getContainers : Except String Json} {app : App} :
    isRunning tk getContainers app s = true ↔ isAppInstalled tk app s = .ok true ∧
      checkAppContainers tk getContainers app true s = .ok true := by
  unfold isRunning
  cases isAppInstalled tk app s with
  | error what => simp
  | ok installed =>
    cases installed with
    | false => simp
    | true => cases checkAppContainers tk getContainers app true s <;> simp

theorem isAppInstalled_eq_true {app : App} :
    isAppInstalled tk app s = .ok true ↔ ∃ uri compose installed, parseUri app.2 true = .ok uri ∧
      s.store.archiveCompose tk uri = .ok compose ∧ s.installedCompose app = some installed ∧
      tk.sha256 compose = tk.sha256 installed := by
  unfold isAppInstalled
  rw [bind_eq_ok]
  constructor
  · rintro ⟨uri, huri, h⟩
    obtain ⟨compose, hcompose, h⟩ := bind_eq_ok.mp h
    cases hinstalled : s.installedCompose app with
    | none =>
      rw [hinstalled] at h
      cases h
    | some installed =>
      rw [hinstalled] at h
      exact ⟨uri, compose, installed, huri, hcompose, rfl, eq_of_beq (Except.ok.inj h)⟩
  · rintro ⟨uri, compose, installed, huri, hcompose, hinstalled, hhash⟩
    refine ⟨uri, huri, bind_eq_ok.mpr ⟨compose, hcompose, ?_⟩⟩
    rw [hinstalled, hhash]
    exact congrArg Except.ok (beq_self_eq_true _)

theorem hashes_of_checkServices {compose containers : Json} {app : String} {checkState : Bool}
    {services : List String}
    (h : checkServices compose containers app checkState services = .ok true) :
    ∀ service ∈ services, ∃ hash, getHash compose service = .ok hash := by
  induction services with
  | nil => exact List.forall_mem_nil _
  | cons service rest ih =>
    unfold checkServices at h
    obtain ⟨hash, hhash, h⟩ := bind_eq_ok.mp h
    obtain ⟨state, _, h⟩ := bind_eq_ok.mp h
    refine List.forall_mem_cons.mpr ⟨⟨hash, hhash⟩, ih ?_⟩
    cases state with
    | none => cases h
    | some state =>
      dsimp only at h
      split at h
      · exact h
      · cases h

theorem startable_of_check {getContainers : Except String Json} {app : App} {checkState : Bool}
    {installed : String} (hinstalled : s.installedCompose app = some installed)
    (h : checkAppContainers tk getContainers app checkState s = .ok true) :
    Startable tk installed := by
  unfold checkAppContainers Site.composeInfo at h
  rw [hinstalled] at h
  obtain ⟨json, hjson, h⟩ := bind_eq_ok.mp h
  obtain ⟨services, hservices, h⟩ := bind_eq_ok.mp h
  dsimp only at h
  split at h
  · cases h
  · next hne =>
    obtain ⟨containers, _, h⟩ := bind_eq_ok.mp h
    exact ⟨json, services, hjson, hservices, hne, hashes_of_checkServices h⟩

theorem archive_of_published {uri : Uri} {digest : HashedDigest} {compose : String}
    (h : Published tk reg uri digest compose) : reg.archive tk uri = .ok (reg digest.hash) := by
  obtain ⟨manifest, hmanifest, hdigest, _⟩ := h.manifest
  obtain ⟨text, htext, hdigest⟩ := bind_eq_ok.mp hdigest
  rw [Registry.archive, hmanifest, ok_bind, Manifest.archiveHash, htext, ok_bind, hdigest]
  rfl

/-- The version that is taken for the installed one has the same files. -/
theorem hasFiles_of_isRunning {version : String} {getContainers : Except String Json}
    (hs : Sound tar reg name versions s) (hagree : AlikeAgree tar reg versions)
    (hversion : version ∈ versions)
    (hrunning : isRunning tk getContainers (name, version) s = true) :
    HasFiles tar reg (name, version) s := by
  obtain ⟨hinstalled, hcontainers⟩ := isRunning_eq_true.mp hrunning
  obtain ⟨uri, compose, text, huri, hcompose, htext, hhash⟩ := isAppInstalled_eq_true.mp hinstalled
  obtain ⟨manifest, hmanifest, hcompose⟩ := bind_eq_ok.mp hcompose
  obtain ⟨hash, hname, hcompose⟩ := bind_eq_ok.mp hcompose
  obtain ⟨archive, harchive, hcompose⟩ := bind_eq_ok.mp hcompose
  obtain ⟨digest, compose', hpublished, rfl⟩ :=
    (hs.store uri).archive hmanifest hname (readFile_eq_ok.mp harchive)
  cases hpublished.extract.symm.trans hcompose
  refine ⟨uri, reg digest.hash, huri, archive_of_published hpublished, ?_⟩
  rcases hs.installed with hnone | ⟨digest', compose', havailable, hunpacked⟩
  · cases hnone.symm.trans htext
  · obtain ⟨_, _, _, _, hpublished'⟩ := id havailable
    have htext' := hunpacked _ _ (tar.compose _ _ hpublished'.extract)
    cases htext.symm.trans htext'
    intro p content hp
    apply hunpacked
    exact hagree digest compose digest' text ⟨version, hversion, uri, huri, hpublished⟩ havailable
      hhash (startable_of_check htext hcontainers) p content hp

end Sound

/-! ## Versions that do not agree -/

section Alike

variable {tar : Tar tk} {reg : Registry} {name : String} {versions : Set String} {s t : Site}

/-- A running container of a service. -/
def containerOf (name : String) (service : String × String) : Json :=
  .obj [("Labels", .obj [("com.docker.compose.project", .str name),
      ("com.docker.compose.service", .str service.1),
      ("io.compose-spec.config-hash", .str service.2)]),
    ("State", .str "running")]

theorem isContainerOf_containerOf (service : String × String) (other : String × String) :
    isContainerOf name service.1 service.2 (containerOf name other) =
      .ok (decide (other = service)) := by
  have hproject : containerLabel (containerOf name other) "com.docker.compose.project" =
      .ok name := rfl
  have hservice : containerLabel (containerOf name other) "com.docker.compose.service" =
      .ok other.1 := rfl
  have hhash : containerLabel (containerOf name other) "io.compose-spec.config-hash" =
      .ok other.2 := rfl
  obtain ⟨service, hash⟩ := service
  obtain ⟨service', hash'⟩ := other
  rw [isContainerOf, hproject, ok_bind, if_neg (by simp), hservice, ok_bind, hhash]
  by_cases hs : service' = service
  · rw [if_neg (by simpa using hs), ok_bind]
    simp only [hs, Prod.mk.injEq, true_and]
    rfl
  · rw [if_pos hs]
    simp only [hs, Prod.mk.injEq, false_and, decide_false]
    rfl

theorem getContainerState_running {services : List (String × String)}
    {service : String × String} (h : service ∈ services) :
    getContainerState name service.1 service.2 (services.map (containerOf name)) =
      .ok (some "running") := by
  induction services with
  | nil => cases h
  | cons other rest ih =>
    rw [List.map_cons, getContainerState, isContainerOf_containerOf, ok_bind]
    by_cases heq : other = service
    · rw [decide_eq_true heq]
      rfl
    · rw [decide_eq_false heq]
      rcases List.mem_cons.mp h with h | h
      · exact absurd h.symm heq
      · exact ih h

theorem checkServices_running {compose : Json} {hashes : List (String × String)}
    {services : List String}
    (h : ∀ service ∈ services, ∃ hash, getHash compose service = .ok hash ∧
      (service, hash) ∈ hashes) :
    checkServices compose (.arr (hashes.map (containerOf name))) name true services = .ok true := by
  induction services with
  | nil => rfl
  | cons service rest ih =>
    obtain ⟨⟨hash, hhash, hmem⟩, hrest⟩ := List.forall_mem_cons.mp h
    have hstate : getContainerState name service hash (hashes.map (containerOf name)) =
        .ok (some "running") := getContainerState_running hmem
    rw [checkServices, hhash, ok_bind, Json.values_arr, hstate, ok_bind]
    exact ih hrest

/-- Docker may list a running container of every service. -/
theorem exists_running {app : App} {text : String} (h : Startable tk text)
    (htext : s.installedCompose app = some text) :
    ∃ containers, checkAppContainers tk (.ok containers) app true s = .ok true := by
  obtain ⟨json, services, hjson, hservices, hne, hhashes⟩ := h
  let hashes := services.map fun service =>
    (service, (getHash json service).toOption.getD "")
  refine ⟨.arr (hashes.map (containerOf app.1)), ?_⟩
  rw [checkAppContainers, Site.composeInfo, htext]
  dsimp only
  rw [hjson, ok_bind, hservices, ok_bind, if_neg hne, ok_bind]
  refine checkServices_running fun service hservice => ?_
  obtain ⟨hash, hhash⟩ := hhashes service hservice
  refine ⟨hash, hhash, List.mem_map.mpr ⟨service, hservice, ?_⟩⟩
  rw [hhash]
  rfl

/-- Nothing fails. -/
def InstallEnv.smooth (containers : Json) : InstallEnv where
  tar := { error := none, unpacked := true }
  config := none
  loadImage _ _ := none
  up := none
  getContainers := .ok containers

variable {uri : Uri} {digest : HashedDigest} {compose : String}

theorem manifest_of_holds {store : Store} (h : Holds reg uri digest store)
    (hpublished : Published tk reg uri digest compose) :
    ∃ manifest, store.manifest tk (appDir uri) = .ok manifest ∧
      manifest.archiveHash tk.canonical = .ok digest.hash := by
  obtain ⟨manifest, hmanifest, hdigest, _⟩ := hpublished.manifest
  obtain ⟨text, htext, hdigest⟩ := bind_eq_ok.mp hdigest
  refine ⟨manifest, ?_, ?_⟩
  · have hread := h.text
    rw [manifestPath] at hread
    rw [Store.manifest, Store.parseJSONFile, hread]
    exact hmanifest
  · rw [Manifest.archiveHash, htext, ok_bind, hdigest]
    rfl

theorem archiveCompose_of_holds {store : Store} (h : Holds reg uri digest store)
    (hpublished : Published tk reg uri digest compose) :
    store.archiveCompose tk uri = .ok compose := by
  obtain ⟨manifest, hmanifest, hhash⟩ := manifest_of_holds h hpublished
  rw [Store.archiveCompose, hmanifest, ok_bind, hhash, ok_bind, Store.extractComposeFile,
    readFile_eq_ok.mpr h.archive, ok_bind]
  exact hpublished.extract

theorem wp_installApp_smooth {containers : Json} (h : Holds reg uri digest s.store)
    (hpublished : Published tk reg uri digest compose) :
    wp (installApp tar (.smooth containers) (appDir uri) [name])
      (fun _ => Overlaid tar (reg digest.hash) name s)
      (fun _ => Overlaid tar (reg digest.hash) name s) s := by
  obtain ⟨manifest, hmanifest, hhash⟩ := manifest_of_holds h hpublished
  unfold installApp
  rw [wp_bind, wp_get, wp_bind, hmanifest]
  change wp (Site.lift (manifest.archiveHash tk.canonical) >>= _) _ _ s
  rw [wp_bind, hhash]
  change wp (modify _ >>= _) _ _ s
  rw [wp_bind, wp_modify]
  unfold unpackArchive
  rw [wp_bind, wp_get]
  dsimp only
  rw [h.archive]
  dsimp only
  rw [wp_bind, wp_modify]
  refine wp_perform ⟨rfl, fun p => ?_⟩
  have hunpack := FileTree.read_unpack (s.installed.mkdirs [name]) [name] p
    (tar.files (reg digest.hash))
  rw [FileTree.read_mkdirs] at hunpack
  exact hunpack

theorem digest_eq_of_appDir {uri' : Uri} {digest' : HashedDigest} {compose' : String}
    (h : Published tk reg uri digest compose) (h' : Published tk reg uri' digest' compose')
    (hdir : appDir uri = appDir uri') : digest = digest' := by
  have hhash : uri.digest.hash = uri'.digest.hash :=
    List.head_eq_of_cons_eq (List.tail_eq_of_cons_eq hdir)
  obtain ⟨manifest, hmanifest, hdigest, _⟩ := h.manifest
  obtain ⟨manifest', hmanifest', hdigest', _⟩ := h'.manifest
  rw [hhash] at hmanifest
  cases hmanifest.symm.trans hmanifest'
  exact Except.ok.inj (hdigest.symm.trans hdigest')

theorem admitted_fetch {version : String} (hversion : version ∈ versions) :
    (Call.fetch (name, version) (serving tk reg)).Admitted tk reg name versions where
  name := rfl
  version := hversion
  serves app env h := by
    cases h
    exact serves_serving

theorem admitted_run {version : String} (hversion : version ∈ versions) (env : InstallEnv) :
    (Call.run (name, version) env).Admitted tk reg name versions where
  name := rfl
  version := hversion
  serves app env h := by cases h

/-- A version that is fetched while another is started with a compose file that looks the same
is running, if docker lists containers for that file. -/
theorem agree_of_hasFiles {create : Bool}
    (h : ∀ s, Reaches (Step tar create) (fun _ c => c.Admitted tk reg name versions)
        Site.empty s → ∀ version ∈ versions, ∀ getContainers,
      isRunning tk getContainers (name, version) s = true → HasFiles tar reg (name, version) s) :
    AlikeAgree tar reg versions := by
  rintro digest compose digest' compose' ⟨version, hversion, uri, huri, hpublished⟩
    ⟨version', hversion', uri', huri', hpublished'⟩ hhash hstartable p content hp
  by_cases hdir : appDir uri = appDir uri'
  · rw [← digest_eq_of_appDir hpublished hpublished' hdir]
    exact hp
  let fetched := (Call.fetch (name, version') (serving tk reg)).exec tar create Site.empty
  let started := (Call.run (name, version') (.smooth (.arr []))).exec tar create fetched
  let final := (Call.fetch (name, version) (serving tk reg)).exec tar create started
  have hreaches : Reaches (Step tar create) (fun _ c => c.Admitted tk reg name versions)
      Site.empty final := by
    have hfetched : Reaches (Step tar create) (fun _ c => c.Admitted tk reg name versions)
        Site.empty fetched := Reaches.snoc .refl _ (admitted_fetch hversion') rfl
    have hstarted : Reaches (Step tar create) (fun _ c => c.Admitted tk reg name versions)
        Site.empty started := hfetched.snoc _ (admitted_run hversion' _) rfl
    exact hstarted.snoc _ (admitted_fetch hversion) rfl
  -- The started version is unpacked over nothing, and the store is left for the other one.
  obtain ⟨hholds', habsent⟩ : Holds reg uri' digest' fetched.store ∧
      StayAbsent uri' Site.empty.store fetched.store := fetch_serving hpublished' huri' rfl
  have hover : Overlaid tar (reg digest'.hash) name fetched started := by
    refine after_run (wp_installAppAndImages (fun what herror => ?_) fun uri'' huri'' => ?_)
    · cases huri'.symm.trans herror
    · cases huri'.symm.trans huri''
      exact wp_installApp_smooth hholds' hpublished'
  have hholds : Holds reg uri digest final.store := by
    have hempty : started.store.apps.has (appDir uri) = false := by
      rw [hover.1]
      exact habsent uri hdir rfl
    have huriApp : parseUri (name, version).2 true = .ok uri := huri
    exact (fetch_serving hpublished huriApp hempty).1
  have hread : ∀ q, final.installed.read (name :: q) =
      (tar.files (reg digest'.hash)).lookup q := by
    intro q
    have hq := hover.2 q
    have hnone : fetched.installed.read (name :: q) = none := rfl
    rw [hnone, Option.or_none] at hq
    exact hq
  have htext : final.installedCompose (name, version) = some compose' :=
    (hread _).trans (tar.compose _ _ hpublished'.extract)
  obtain ⟨containers, hcontainers⟩ := exists_running hstartable htext
  have hinstalled : isAppInstalled tk (name, version) final = .ok true :=
    isAppInstalled_eq_true.mpr ⟨uri, compose, compose', huri,
      archiveCompose_of_holds hholds hpublished, htext, hhash⟩
  obtain ⟨uri'', archive, huri'', harchive, hunpacked⟩ := h final hreaches version hversion
    (.ok containers) (isRunning_eq_true.mpr ⟨hinstalled, hcontainers⟩)
  cases huri.symm.trans huri''
  cases (archive_of_published hpublished).symm.trans harchive
  rw [← hread]
  exact hunpacked p content hp

end Alike

/-- A version that is reported as running has its files in the install directory, after every
sequence of `fetch`, `install` and `run` calls on versions of the app with whatever failures,
exactly if published versions whose compose files have the same hash, and can be seen running,
have the same files. -/
theorem running_has_files_iff (tar : Tar tk) (createContainersIfInstall : Bool) (reg : Registry)
    (name : String) (versions : Set String) :
    (∀ s, Reaches (Step tar createContainersIfInstall)
        (fun _ c => c.Admitted tk reg name versions) Site.empty s →
      ∀ version ∈ versions, ∀ getContainers,
        isRunning tk getContainers (name, version) s = true →
          HasFiles tar reg (name, version) s) ↔
      AlikeAgree tar reg versions := by
  constructor
  · exact agree_of_hasFiles
  · intro hagree s hreaches version hversion getContainers hrunning
    exact hasFiles_of_isRunning (sound_of_reaches hreaches) hagree hversion hrunning

/-! ## An update that fails -/

/-- Two versions, `m` and `n`, with the archives `a` and `b`. -/
def twinToolkit : Toolkit where
  sha256 := letterHash
  parseJSON text :=
    .obj [("annotations", .obj [("compose-app", .str "v1")]),
      ("layers", .arr [.obj [("digest", letterDigest (if text = "m" then "a" else "b")),
        ("size", .int 1)]])]
  canonical _ := ""
  whole _ := false
  extract _ := .ok "y"
  yaml2json _ :=
    .ok (.obj [("services", .obj [("web", .obj [("image", .str (letterUri "web" "w")),
      ("labels", .obj [("io.compose-spec.config-hash", .str "h")])])])])
  usageText _ := ""

/-- Beside the same compose file there is the archive's own configuration. -/
def twinTar : Tar twinToolkit where
  files archive := [([composeFile], "y"), (["web.conf"], archive)]
  compose archive text h := by
    cases h
    rfl

def twinRegistry : Registry := fun hash => String.ofList (hash.toList.take 1)

def twin (manifest : String) : App := ("app", letterUri "app" manifest)

def twinContainers : Json := .arr [containerOf "app" ("web", "h")]

/-- The image of the new version cannot be loaded. -/
def InstallEnv.loadFails : InstallEnv :=
  { InstallEnv.smooth twinContainers with loadImage := fun _ _ => some "no space" }

def beforeUpdate : Site :=
  (Call.run (twin "m") (.smooth twinContainers)).exec twinTar true
    ((Call.fetch (twin "m") (serving twinToolkit twinRegistry)).exec twinTar true Site.empty)

/-- With the new version fetched. -/
def duringUpdate : Site :=
  (Call.fetch (twin "n") (serving twinToolkit twinRegistry)).exec twinTar true beforeUpdate

theorem reaches_duringUpdate : Reaches (Step twinTar true)
    (fun _ c => c.Admitted twinToolkit twinRegistry "app" {(twin "m").2, (twin "n").2})
    Site.empty duringUpdate := by
  have hm : (twin "m").2 ∈ ({(twin "m").2, (twin "n").2} : Set String) := .inl rfl
  have hn : (twin "n").2 ∈ ({(twin "m").2, (twin "n").2} : Set String) := .inr rfl
  refine Reaches.snoc (t := beforeUpdate) ?_ _ (admitted_fetch hn) rfl
  refine Reaches.snoc ?_ (.run (twin "m") (.smooth twinContainers)) (admitted_run hm _) rfl
  exact Reaches.snoc .refl (.fetch (twin "m") (serving twinToolkit twinRegistry))
    (admitted_fetch hm) rfl

/-- The version `m` runs, the update to `n` fails as its image cannot be loaded, and `m` is
still reported as running, with the configuration of `n`. -/
theorem failed_update_runs_on :
    ∃ s res t, Reaches (Step twinTar true)
        (fun _ c => c.Admitted twinToolkit twinRegistry "app" {(twin "m").2, (twin "n").2})
        Site.empty s ∧
      isRunning twinToolkit (.ok twinContainers) (twin "m") s = true ∧
      s.installed.read ["app", "web.conf"] = some "a" ∧
      install twinTar true .loadFails (twin "n") s = .ok res t ∧
      res.status = .imagePullFailure ∧
      isRunning twinToolkit (.ok twinContainers) (twin "m") t = true ∧
      t.installed.read ["app", "web.conf"] = some "b" ∧
      ¬ HasFiles twinTar twinRegistry (twin "m") t := by
  -- One evaluation, since each one would run the calls before the update again.
  have hruns : isRunning twinToolkit (.ok twinContainers) (twin "m") duringUpdate = true ∧
      duringUpdate.installed.read ["app", "web.conf"] = some "a" ∧
      returns (install twinTar true .loadFails (twin "n")) duringUpdate (fun res t =>
        decide (res.status = .imagePullFailure ∧
          isRunning twinToolkit (.ok twinContainers) (twin "m") t = true ∧
          t.installed.read ["app", "web.conf"] = some "b")) = true := by
    decide +kernel
  obtain ⟨hbefore, hold, hreturns⟩ := hruns
  obtain ⟨res, t, hinstall, h⟩ := exists_ok_of_returns hreturns
  obtain ⟨hstatus, hrunning, hconf⟩ := of_decide_eq_true h
  refine ⟨duringUpdate, res, t, reaches_duringUpdate, hbefore, hold, hinstall, hstatus, hrunning,
    hconf, ?_⟩
  rintro ⟨uri, archive, huri, harchive, hunpacked⟩
  have hm : (parseUri (twin "m").2 true >>= twinRegistry.archive twinToolkit) = .ok "a" := by
    decide +kernel
  rw [huri, ok_bind, harchive] at hm
  cases hm
  have hconf' := hunpacked ["web.conf"] "a" rfl
  have heq := hconf'.symm.trans hconf
  revert heq
  decide

end RestorableAppEngine
end Docker
end AkLite
