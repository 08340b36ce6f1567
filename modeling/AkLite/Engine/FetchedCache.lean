/-
The cache of fetched apps.

`composeapp::AppEngine` keeps the URIs of the apps that it knows to be fetched and does not ask
composectl about them again.  A URI leaves the cache before a command that may take away content
of its app, and comes into it after a command that has vouched for the app.  So every URI in it
belongs to an app that is complete in the store, after every history of calls and whatever fails
in them: `cached_apps_complete`.
-/
import AkLite.Engine.Composeapp
import AkLite.Lib.Run

namespace AkLite
namespace Composeapp
namespace AppEngine

open Lib
open Client (App)

variable {σ : Type}

/-! ## What composectl is relied on for -/

/-- What can be seen of a store: the apps it lists and the blobs in it.  The URI of an app has
the digest of its manifest, which determines its blobs. -/
structure StoreView (σ : Type) where
  listed : σ → String → Prop
  has : σ → String → Prop
  blobs : String → List String

/-- The app is completely in the store. -/
def StoreView.Complete (view : StoreView σ) (s : σ) (uri : String) : Prop :=
  view.listed s uri ∧ ∀ blob ∈ view.blobs uri, view.has s blob

/-- The command is about the content of this app. -/
def Invocation.changes (uri : String) : Invocation → Bool
  | .pull other _ _ => other == uri
  | .rm other => other == uri
  | _ => false

/-- What composectl is relied on for, whether the command succeeds or not if nothing is said of
its answer. -/
structure Lawful (engine : Engine σ) (view : StoreView σ) : Prop where
  pulled : ∀ {uri localSource watermark environ s output t},
    engine.composectl (.pull uri localSource watermark) environ s = (.ok output, t) →
      view.Complete t uri
  checked : ∀ {uri environ s output t status missing},
    engine.composectl (.check uri) environ s = (.ok output, t) →
    parseJSON engine output = .ok status → missingBlobs status = .ok (some missing) →
    missing.isEmpty = true → view.Complete t uri
  others : ∀ {invocation environ s uri}, invocation ≠ .prune → invocation.changes uri = false →
    view.Complete s uri → view.Complete (engine.composectl invocation environ s).2 uri
  pruneListed : ∀ {environ s uri},
    view.listed (engine.composectl .prune environ s).2 uri ↔ view.listed s uri
  pruneBlobs : ∀ {environ s uri blob}, view.listed s uri → blob ∈ view.blobs uri →
    view.has s blob → view.has (engine.composectl .prune environ s).2 blob

/-! ## Histories -/

/-- Calls of the engine, with what the environment decides in them. -/
inductive Call where
  | fetch (env : FetchEnv) (app : App)
  | isFetched (app : App)
  | remove (app : App)
  | prune (env : DockerEnv) (shortlist : List App)

/-- What a call leaves, also if an exception leaves it. -/
def serve (engine : Engine σ) (p : Process σ) : Call → Process σ
  | .fetch env app => after (fetch engine env app) p
  | .isFetched app => after (isFetched engine app) p
  | .remove app => after (remove engine app) p
  | .prune env shortlist => after (prune engine env shortlist) p

/-- The process after a history of calls, from an empty cache on. -/
def Serves (engine : Engine σ) (environ : Environ) (s : σ) (p : Process σ) : Prop :=
  Reaches (fun p call t => serve engine p call = t) (fun _ _ => True)
    { fetchedApps := [], wasProxySet := false, environ := environ, store := s } p

/-- Every app in the cache is complete. -/
def Sound (view : StoreView σ) (p : Process σ) : Prop :=
  ∀ uri ∈ p.fetchedApps, view.Complete p.store uri

/-! ## Commands -/

section Commands

variable {engine : Engine σ} {view : StoreView σ} {p : Process σ}

/-- Only a command about the app itself may take away from it. -/
theorem Lawful.keeps (laws : Lawful engine view) {invocation : Invocation} {environ : Environ}
    {s : σ} {uri : String} (h : invocation.changes uri = false) (hcomplete : view.Complete s uri) :
    view.Complete (engine.composectl invocation environ s).2 uri := by
  by_cases hprune : invocation = .prune
  · subst hprune
    refine ⟨laws.pruneListed.mpr hcomplete.1, fun blob hblob => ?_⟩
    exact laws.pruneBlobs hcomplete.1 hblob (hcomplete.2 blob hblob)
  · exact laws.others hprune h hcomplete

/-- The variables of the process do not matter. -/
theorem sound_congr {q : Process σ} (hcache : q.fetchedApps = p.fetchedApps)
    (hstore : q.store = p.store) (h : Sound view p) : Sound view q := by
  intro uri huri
  rw [hcache] at huri
  rw [hstore]
  exact h uri huri

theorem sound_erase (h : Sound view p) (uri : String) : Sound view (p.erase uri) := by
  intro other hother
  exact h other (List.mem_filter.mp hother).1

theorem sound_insert (h : Sound view p) {uri : String} (huri : view.Complete p.store uri) :
    Sound view (p.insert uri) :=
  List.forall_mem_cons.mpr ⟨huri, h⟩

theorem not_mem_erase (uri : String) : uri ∉ (p.erase uri).fetchedApps := by
  intro huri
  simpa using (List.mem_filter.mp huri).2

/-- A command keeps the cache sound if it is about no app in it. -/
theorem Lawful.sound_exec (laws : Lawful engine view) (h : Sound view p) {invocation : Invocation}
    (hchanges : ∀ uri ∈ p.fetchedApps, invocation.changes uri = false) :
    Sound view { p with store := (engine.composectl invocation p.environ p.store).2 } :=
  fun uri huri => laws.keeps (hchanges uri huri) (h uri huri)

theorem Lawful.wp_exec (laws : Lawful engine view) (h : Sound view p) {invocation : Invocation}
    (hchanges : ∀ uri ∈ p.fetchedApps, invocation.changes uri = false) :
    wp (exec engine invocation) (fun _ => Sound view) (fun _ => Sound view) p := by
  have hnext := laws.sound_exec h hchanges
  rw [AppEngine.wp_exec, wp_orThrow]
  cases (engine.composectl invocation p.environ p.store).1 with
  | ok output => exact hnext
  | error e => exact hnext

/-- A command about no app keeps every cache sound. -/
theorem Lawful.keeps_exec (laws : Lawful engine view) {invocation : Invocation}
    (hchanges : ∀ uri, invocation.changes uri = false) :
    Keeps (Sound view) (fun _ => Sound view) (exec engine invocation) :=
  fun _ h => laws.wp_exec h fun uri _ => hchanges uri

/-- A pull of an app that has left the cache. -/
theorem Lawful.wp_pullOf (laws : Lawful engine view) {app : App} (h : Sound view p)
    (happ : app.2 ∉ p.fetchedApps) :
    wp (exec engine (pullOf engine app)) (fun _ t => Sound view t ∧ view.Complete t.store app.2)
      (fun _ => Sound view) p := by
  have hnext : Sound view
      { p with store := (engine.composectl (pullOf engine app) p.environ p.store).2 } := by
    refine laws.sound_exec h fun uri huri => ?_
    rw [pullOf, Invocation.changes, beq_eq_false_iff_ne]
    rintro rfl
    exact happ huri
  rw [AppEngine.wp_exec, wp_orThrow]
  cases hpull : engine.composectl (pullOf engine app) p.environ p.store with
  | mk answer store =>
    rw [hpull] at hnext
    cases answer with
    | ok output => exact ⟨hnext, laws.pulled hpull⟩
    | error e => exact hnext

end Commands

/-! ## Calls -/

section Calls

variable {engine : Engine σ} {view : StoreView σ}

theorem keeps_orThrow {α : Type} (x : Except Exec.Failure α) :
    Keeps (Sound view) (fun _ => Sound view) (orThrow x : Eff σ α) :=
  Keeps.orThrow x fun _ _ h => h

theorem Lawful.keeps_pull (laws : Lawful engine view) (env : FetchEnv) (app : App) :
    Keeps (Sound view) (fun _ => Sound view) (pull engine env app) := by
  intro p hp
  rw [pull]
  simp only [wp_bind, wp_modify]
  rw [wp_orThrow]
  cases obtainProxy engine env with
  | error e => exact sound_erase hp app.2
  | ok proxy =>
    have hsound : Sound view (setProxy (p.erase app.2) proxy) := by
      cases proxy with
      | none => exact sound_erase hp app.2
      | some used => exact sound_erase hp app.2
    have happ : app.2 ∉ (setProxy (p.erase app.2) proxy).fetchedApps := by
      cases proxy with
      | none => exact not_mem_erase app.2
      | some used => exact not_mem_erase app.2
    refine wp_mono (laws.wp_pullOf hsound happ) (fun _ t ht => ?_) fun _ _ ht => ht
    exact sound_insert ht.1 ht.2

theorem Lawful.keeps_fetch (laws : Lawful engine view) (env : FetchEnv) (app : App) :
    Keeps (Sound view) (fun _ => Sound view) (fetch engine env app) := by
  intro p hp
  have hclear : ∀ t, Sound view t → Sound view (if t.wasProxySet then unsetProxy t else t) := by
    intro t ht
    split
    · exact sound_congr rfl rfl ht
    · exact ht
  rw [fetch]
  simp only [wp_bind, wp_modify, wp_tryCatch, wp_pure]
  refine wp_mono (laws.keeps_pull env app _ (sound_congr rfl rfl hp)) (fun _ t ht => hclear t ht)
    fun e t ht => ?_
  exact wp_mono (keeps_orThrow (fetchFailed engine env e) t ht) (fun _ u hu => hclear u hu)
    fun _ _ hu => hu

/-- What follows an erased app in a call. -/
theorem keeps_erase (uri : String) :
    Keeps (Sound view) (fun _ => Sound view) (modify (Process.erase uri) : Eff σ PUnit) :=
  Keeps.modify fun _ h => sound_erase h uri

theorem Lawful.keeps_remove (laws : Lawful engine view) (app : App) :
    Keeps (Sound view) (fun _ => Sound view) (remove engine app) := by
  refine Keeps.tryCatch (D := fun _ => Sound view) ?_ fun _ _ h => h
  refine (keeps_erase app.2).bind fun _ => ?_
  refine (laws.keeps_exec fun _ => rfl).bind fun _ => ?_
  exact (laws.keeps_exec fun _ => rfl).bind fun _ => Keeps.pure _

/-- An app leaves the cache before it is removed. -/
theorem Lawful.keeps_removeApp (laws : Lawful engine view) (app : App) :
    Keeps (Sound view) (fun _ => Sound view) (removeApp engine app) := by
  intro p hp
  rw [removeApp]
  simp only [wp_bind, wp_modify, wp_pure]
  refine laws.wp_exec (sound_erase hp app.2) fun uri huri => ?_
  rw [Invocation.changes, beq_eq_false_iff_ne]
  rintro rfl
  exact not_mem_erase app.2 huri

theorem Lawful.keeps_prune (laws : Lawful engine view) (env : DockerEnv) (shortlist : List App) :
    Keeps (Sound view) (fun _ => Sound view) (prune engine env shortlist) := by
  refine Keeps.bind ?_ fun _ => ?_
  · refine Keeps.tryCatch (D := fun _ => Sound view) ?_ fun _ _ h => h
    refine (laws.keeps_exec fun _ => rfl).bind fun _ => ?_
    refine (keeps_orThrow _).bind fun _ => (keeps_orThrow _).bind fun apps => ?_
    exact Keeps.forM fun app _ => laws.keeps_removeApp app
  · refine Keeps.tryCatch (D := fun _ => Sound view) ?_ fun _ _ h => h
    refine (laws.keeps_exec fun _ => rfl).bind fun _ => (keeps_orThrow _).bind fun _ => ?_
    refine Keeps.ite ?_ (Keeps.pure _)
    exact (keeps_orThrow _).bind fun _ => keeps_orThrow _

/-- The answer is yes for complete apps only. -/
def Answers (view : StoreView σ) (app : App) (answer : Bool) (t : Process σ) : Prop :=
  Sound view t ∧ (answer = true → view.Complete t.store app.2)

theorem Lawful.wp_checkFetched (laws : Lawful engine view) (app : App) {p : Process σ}
    (hp : Sound view p) :
    wp (checkFetched engine app) (Answers view app) (fun _ => Sound view) p := by
  have hnext : Sound view
      { p with store := (engine.composectl (.check app.2) p.environ p.store).2 } :=
    laws.sound_exec hp fun _ _ => rfl
  rw [checkFetched, wp_bind, AppEngine.wp_exec, wp_orThrow]
  cases hcheck : engine.composectl (.check app.2) p.environ p.store with
  | mk answer store =>
    rw [hcheck] at hnext
    cases answer with
    | error e => exact hnext
    | ok output =>
      dsimp only
      rw [wp_bind, wp_orThrow]
      cases hparse : parseJSON engine output with
      | error what => exact hnext
      | ok status =>
        dsimp only [Except.mapError]
        rw [wp_bind, wp_orThrow]
        cases hmissing : missingBlobs status with
        | error what => exact hnext
        | ok found =>
          cases found with
          | none => exact ⟨hnext, fun h => (Bool.false_ne_true h).elim⟩
          | some missing =>
            dsimp only [Except.mapError]
            rw [wp_ite]
            split
            · next hempty =>
              have hcomplete := laws.checked hcheck hparse hmissing hempty
              exact ⟨sound_insert hnext hcomplete, fun _ => hcomplete⟩
            · rw [wp_bind, wp_orThrow]
              cases missing.values.forM logBlob with
              | error what => exact hnext
              | ok _ => exact ⟨hnext, fun h => (Bool.false_ne_true h).elim⟩

theorem Lawful.wp_isAppFetched (laws : Lawful engine view) (app : App) {p : Process σ}
    (hp : Sound view p) :
    wp (isAppFetched engine app) (Answers view app) (fun _ => Sound view) p := by
  rw [isAppFetched, wp_bind, wp_get, wp_ite]
  split
  · next hcached =>
    exact ⟨hp, fun _ => hp app.2 (by simpa using hcached)⟩
  · rw [wp_tryCatch]
    refine wp_mono (laws.wp_checkFetched app hp) (fun _ _ ht => ht) fun e t ht => ?_
    cases e with
    | execError what exitCode stdErr => exact ⟨ht, fun h => (Bool.false_ne_true h).elim⟩
    | other what => exact ht

theorem Lawful.wp_isFetched (laws : Lawful engine view) (app : App) {p : Process σ}
    (hp : Sound view p) :
    wp (isFetched engine app) (Answers view app) (fun _ => Sound view) p := by
  rw [isFetched, wp_tryCatch]
  refine wp_mono (laws.wp_isAppFetched app hp) (fun _ _ ht => ht) fun _ t ht => ?_
  exact ⟨ht, fun h => (Bool.false_ne_true h).elim⟩

/-- Each call keeps the cache sound. -/
theorem Lawful.sound_serve (laws : Lawful engine view) {p : Process σ} (hp : Sound view p)
    (call : Call) : Sound view (serve engine p call) := by
  cases call with
  | fetch env app => exact after_of_wp (laws.keeps_fetch env app p hp)
  | isFetched app =>
    exact after_of_wp (wp_mono (laws.wp_isFetched app hp) (fun _ _ ht => ht.1) fun _ _ ht => ht)
  | remove app => exact after_of_wp (laws.keeps_remove app p hp)
  | prune env shortlist => exact after_of_wp (laws.keeps_prune env shortlist p hp)

/-- So does every history. -/
theorem Lawful.sound_of_serves (laws : Lawful engine view) {environ : Environ} {s : σ}
    {p : Process σ} (h : Serves engine environ s p) : Sound view p := by
  refine Reaches.invariant (Sound view) (fun p call t hp _ ht => ?_) (fun _ huri => ?_) h
  · rw [← ht]
    exact laws.sound_serve hp call
  · cases huri

end Calls

/-- After every history of calls all apps in the cache are complete in the store, and so is
every app that is then said to be fetched. -/
theorem cached_apps_complete {engine : Engine σ} {view : StoreView σ} (laws : Lawful engine view)
    {environ : Environ} {s : σ} {p : Process σ} (h : Serves engine environ s p) :
    (∀ uri ∈ p.fetchedApps, view.Complete p.store uri) ∧
      ∀ app t, isFetched engine app p = .ok true t → view.Complete t.store app.2 := by
  have hp := laws.sound_of_serves h
  refine ⟨hp, fun app t hanswer => ?_⟩
  exact (wp_ok (laws.wp_isFetched app hp) hanswer).2 rfl

/-- A program whose store has whole apps only.  The pull of one app fails and takes away what was
there of it. -/
def wholeApps : Engine (List String) where
  composectl
    | .pull uri _ _, _, s =>
      if uri = "hub/b@sha256:2" then (.error (.other "timeout"), s.filter (· != uri))
      else (.ok "", uri :: s)
    | .check uri, _, s => (if uri ∈ s then .ok "complete" else .error (.execError "" 1 ""), s)
    | .rm uri, _, s => (.ok "", s.filter (· != uri))
    | _, _, s => (.ok "", s)
  parse text :=
    if text = "complete" then
      .ok (.obj [("fetch_check", .obj [("missing_blobs", .arr [])])], "")
    else .ok (.null, "")
  localSourcePath := ""
  storageWatermark := 80

def wholeView : StoreView (List String) where
  listed s uri := uri ∈ s
  has s blob := blob ∈ s
  blobs uri := [uri]

theorem wholeView_complete {s : List String} {uri : String} :
    wholeView.Complete s uri ↔ uri ∈ s := by
  simp [StoreView.Complete, wholeView]

theorem mem_filter_of_changes {s : List String} {uri other : String} (h : (other == uri) = false)
    (huri : uri ∈ s) : uri ∈ s.filter (· != other) := by
  rw [beq_eq_false_iff_ne] at h
  exact List.mem_filter.mpr ⟨huri, bne_iff_ne.mpr h.symm⟩

theorem wholeApps_lawful : Lawful wholeApps wholeView where
  pulled {uri _ _ _ s _ _} h := by
    rw [wholeView_complete]
    by_cases hfails : uri = "hub/b@sha256:2"
    · simp [wholeApps, hfails] at h
    · simp only [wholeApps, if_neg hfails, Prod.mk.injEq] at h
      rw [← h.2]
      exact List.mem_cons_self
  checked {uri _ s _ _ _ _} h _ _ _ := by
    rw [wholeView_complete]
    by_cases huri : uri ∈ s
    · simp only [wholeApps, Prod.mk.injEq] at h
      rw [← h.2]
      exact huri
    · simp [wholeApps, huri] at h
  others {invocation _ s uri} _ hchanges h := by
    rw [wholeView_complete] at h ⊢
    cases invocation with
    | pull other localSource watermark =>
      by_cases hfails : other = "hub/b@sha256:2"
      · simp only [wholeApps, if_pos hfails]
        exact mem_filter_of_changes hchanges h
      · simp only [wholeApps, if_neg hfails]
        exact List.mem_cons_of_mem _ h
    | rm other => exact mem_filter_of_changes hchanges h
    | _ => exact h
  pruneListed := Iff.rfl
  pruneBlobs _ _ h := h

def noProxy : FetchEnv where
  proxy := none
  storageSpace path := .ok { path := path, available := 0, required := 0, err := "" }

def emptyProcess : Process (List String) where
  fetchedApps := []
  wasProxySet := false
  environ _ := none
  store := []

/-- Two apps are fetched, and the second fetch fails. -/
def afterFetches : Process (List String) :=
  serve wholeApps (serve wholeApps emptyProcess (.fetch noProxy ("a", "hub/a@sha256:1")))
    (.fetch noProxy ("b", "hub/b@sha256:2"))

theorem fetched_app_cached :
    afterFetches.fetchedApps = ["hub/a@sha256:1"] ∧
      (∀ uri ∈ afterFetches.fetchedApps, wholeView.Complete afterFetches.store uri) ∧
      ∀ app t, isFetched wholeApps app afterFetches = .ok true t →
        wholeView.Complete t.store app.2 := by
  have hserves : Serves wholeApps (fun _ => none) [] afterFetches :=
    Reaches.snoc (Reaches.snoc .refl _ trivial rfl) _ trivial rfl
  exact ⟨by decide, cached_apps_complete wholeApps_lawful hserves⟩

end AppEngine
end Composeapp
end AkLite
