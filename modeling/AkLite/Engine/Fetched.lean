/-
What `isFetched` says about an app.

`fetch` switches the version file to the new URI before it downloads anything and
leaves the state file of the old version in place until the download is over.  A
download that fails in between leaves the new URI with the old state, and
`isFetched` answers for the new URI with the progress of the old one.
`failed_fetch_looks_fetched` is such a history.

`Inv` ties the two files to the trace.  `fetched_when_said` is the run theorem: it
holds along every history whose calls are `Admitted`, that is, in which a fetch
that finds a finished state gets as far as recording the download, and `run` is
called on fetched apps only.
-/
import AkLite.Engine.ComposeAppEngine
import AkLite.Lib.Run

namespace AkLite
namespace Engine

open Lib

/-! ## The property -/

def Event.concerns (uri : String) : Event → Bool
  | .fetchBegin u => u == uri
  | .switched u => u == uri
  | .pulled u => u == uri

/-- The latest event about the URI is that a fetch of it reached the pulled state:
no later fetch of it began, and the version file was not switched to it since. -/
def Fetched (uri : String) (trace : List Event) : Prop :=
  trace.find? (Event.concerns uri) = some (.pulled uri)

instance (uri : String) (trace : List Event) : Decidable (Fetched uri trace) :=
  inferInstanceAs (Decidable (_ = _))

/-- Whatever `isFetched` is asked, it is right when it says yes. -/
def FetchedWhenSaid (d : AppDir) : Prop :=
  ∀ (app : App) (env : FetchedEnv) (d' : AppDir), app.uri ≠ "" →
    isFetched app env d = .ok true d' → Fetched app.uri d.trace

/-! ## Histories -/

inductive Call where
  | fetch (app : App) (env : FetchEnv)
  | install (app : App) (env : InstallEnv)
  | run (app : App) (env : RunEnv)
  | stop (env : ComposeEnv)
  | isFetched (app : App) (env : FetchedEnv)

/-- The files a call leaves, whether it returns, throws or is cut short. -/
def Call.exec : Call → AppDir → AppDir
  | .fetch app env => after (Engine.fetch app env)
  | .install app env => after (Engine.install app env)
  | .run app env => after (Engine.run app env)
  | .stop env => after (Engine.stop env)
  | .isFetched app env => after (Engine.isFetched app env)

def Step (d : AppDir) (c : Call) (t : AppDir) : Prop := c.exec d = t

/-- The directory before the engine touches it.  It may hold compose files that
came there in another way. -/
def AppDir.initial (root : Bool) : AppDir := { AppDir.empty with root := root }

def AppDir.versionText (d : AppDir) : String := d.version.getD ""

def AppDir.stateValue (d : AppDir) : Int := d.state.getD 0

/-- The fetch gets as far as recording the download. -/
def FetchEnv.recordsDownload (env : FetchEnv) : Prop :=
  env.createDirs = .ok ∧ env.appState.readVersion = .ok ∧ env.appState.readState = .ok ∧
    env.appState.writeVersion = .ok ∧ env.download = .ok ∧
    (env.setDownloaded = .ok ∨ env.setDownloaded = .stopAfter)

instance (env : FetchEnv) : Decidable env.recordsDownload := inferInstanceAs (Decidable (_ ∧ _))

/-- What an interrupted write left is not longer than the URI to be written. -/
def TmpFits (d : AppDir) (uri : String) : Prop :=
  (d.versionTmp.getD "").toList.length ≤ uri.toList.length

instance (d : AppDir) (uri : String) : Decidable (TmpFits d uri) :=
  inferInstanceAs (Decidable (_ ≤ _))

/-- The condition on the calls of a history. -/
def Admitted (d : AppDir) : Call → Prop
  | .fetch app env =>
    app.uri ≠ "" ∧ TmpFits d app.uri ∧
      (isFetchedState d.stateValue = true → env.recordsDownload)
  | .run app _ =>
    d.root = true → d.versionText = app.uri ∧ isFetchedState d.stateValue = true
  | _ => True

/-- The files never say more than the trace. -/
def Inv (d : AppDir) : Prop :=
  d.versionText ≠ "" → isFetchedState d.stateValue = true → Fetched d.versionText d.trace

/-! ## The file operations

Each operation is described by its weakest precondition, as an equation where the
callers need every case of it. -/

section Operations

variable {Q : Unit → AppDir → Prop} {E : Halt → AppDir → Prop} {d : AppDir}

theorem wp_perform {o : Outcome} : wp (perform o) Q E d =
    match o with
    | .ok => Q () d
    | .fail what => E (.thrown what) d
    | .stop => E .stopped d := by
  cases o <;> rfl

theorem wp_catchThrown {α : Type} {x : M α} {handler : String → M α} {Q : α → AppDir → Prop} :
    wp (catchThrown x handler) Q E d =
      wp x Q (fun e t =>
        match e with
        | .thrown what => wp (handler what) Q E t
        | .stopped => E .stopped t) d := by
  rw [catchThrown, wp_tryCatch]
  congr 1
  funext e t
  cases e <;> rfl

/-- A state file write has its effect unless it fails or is cut short before the
rename, and only a stopped process shows to the caller. -/
theorem wp_setState {o : WriteOutcome} {n : Int} (hmeta : d.metaDir = true) :
    wp (setState o n) Q E d =
      match o with
      | .ok => Q () { d with state := some n }
      | .openFails _ | .writeFails _ | .renameFails _ => Q () d
      | .stopBefore | .stopTmp => E .stopped d
      | .stopAfter => E .stopped { d with state := some n } := by
  cases o <;> simp [setState, wp_catchThrown, writeState, openMeta, wp_perform, hmeta]

theorem wp_openMeta {o : Outcome} (hQ : Q () d) (hE : ∀ e, E e d) : wp (openMeta o) Q E d := by
  cases o <;> cases hm : d.metaDir <;> simp [openMeta, wp_perform, hm, hQ, hE]

/-- Reading the files leaves what they say. -/
theorem wp_readVersion {o : Outcome} {Q : String → AppDir → Prop}
    (hQ : d.metaDir = true → Q d.versionText { d with version := some d.versionText })
    (hE : ∀ e, E e d) : wp (readVersion o) Q E d := by
  cases o <;> cases hm : d.metaDir <;>
    simp_all [readVersion, openMeta, wp_perform, AppDir.versionText]

theorem wp_readState {o : Outcome} {Q : Int → AppDir → Prop}
    (hQ : d.metaDir = true → Q d.stateValue { d with state := some d.stateValue })
    (hE : ∀ e, E e d) : wp (readState o) Q E d := by
  cases o <;> cases hm : d.metaDir <;>
    simp_all [readState, openMeta, wp_perform, AppDir.stateValue]

end Operations

/-! ## The app state -/

/-- What the invariant looks at. -/
def AppDir.files (d : AppDir) : String × Int × List Event :=
  (d.versionText, d.stateValue, d.trace)

theorem inv_congr {d t : AppDir} (h : t.files = d.files) : Inv t ↔ Inv d := by
  simp only [AppDir.files, Prod.mk.injEq] at h
  obtain ⟨hv, hs, ht⟩ := h
  unfold Inv
  rw [hv, hs, ht]

/-- The state that the files record for a URI. -/
def AppDir.stateOf (d : AppDir) (uri : String) : Int :=
  if uri = "" ∨ d.versionText = uri then d.stateValue else kUnknown

section AppState

variable {app : App} {env : AppStateEnv} {Q : AppState → AppDir → Prop}
  {E : Halt → AppDir → Prop} {d : AppDir}

theorem wp_appState_read
    (hQ : ∀ st t, t.files = d.files → t.metaDir = true → st.state = d.stateOf app.uri → Q st t)
    (hE : ∀ e t, t.files = d.files → E e t) : wp (appState app false env) Q E d := by
  rw [appState, wp_bind]
  refine wp_readVersion (fun hm => ?_) (fun e => hE e d rfl)
  rw [wp_ite]
  by_cases hv : app.uri = "" ∨ d.versionText = app.uri
  · rw [if_pos hv, wp_bind]
    refine wp_readState (fun _ => hQ _ _ rfl hm ?_) (fun e => hE e _ rfl)
    rw [AppDir.stateOf, if_pos hv]
    rfl
  · rw [if_neg hv]
    refine hQ _ _ rfl hm ?_
    rw [AppDir.stateOf, if_neg hv]

theorem overwrite_of_fits {text : String} {old : Option String}
    (h : (old.getD "").toList.length ≤ text.toList.length) : overwrite text old = text := by
  rw [overwrite, List.drop_eq_nil_of_le h, List.append_nil, String.ofList_toList]

/-- With `set_version` the version file is for the app afterwards, and the state
file is as it was. -/
theorem wp_appState_switch (huri : app.uri ≠ "") (hfit : TmpFits d app.uri)
    (hQ : ∀ st t, t.versionText = app.uri → t.stateValue = d.stateValue →
      t.metaDir = true → Q st t)
    (hE : ∀ e t, t.stateValue = d.stateValue → E e t) : wp (appState app true env) Q E d := by
  rw [appState, wp_bind]
  refine wp_readVersion (fun hm => ?_) (fun e => hE e d rfl)
  rw [wp_ite]
  by_cases hv : app.uri = "" ∨ d.versionText = app.uri
  · rw [if_pos hv, wp_bind]
    exact wp_readState (fun _ => hQ _ _ (hv.resolve_left huri) rfl hm) (fun e => hE e _ rfl)
  · have hwritten := overwrite_of_fits hfit
    rw [if_neg hv, if_pos rfl, wp_bind]
    cases hw : env.writeVersion <;>
      simp only [writeVersion, wp_bind, wp_throw, wp_pure, wp_modify, wp_get, record,
        reduceCtorEq, if_true, if_false] <;>
      first
        | exact hE _ _ rfl
        | refine wp_openMeta ?_ (fun e => hE e _ rfl)
    · exact hQ _ _ hwritten rfl hm
    · exact hE _ _ rfl
    · exact hE _ _ rfl
    · exact hE _ _ rfl

/-- On the version the files are for, `set_version` has nothing to do. -/
theorem wp_appState_same {b : Bool} (hv : app.uri = "" ∨ d.versionText = app.uri)
    (hQ : ∀ st t, t.files = d.files → t.metaDir = true → Q st t)
    (hE : ∀ e t, t.files = d.files → E e t) : wp (appState app b env) Q E d := by
  rw [appState, wp_bind]
  refine wp_readVersion (fun hm => ?_) (fun e => hE e d rfl)
  rw [wp_ite, if_pos hv, wp_bind]
  exact wp_readState (fun _ => hQ _ _ rfl hm) (fun e => hE e _ rfl)

/-- Without failures the constructor returns. -/
theorem wp_appState_ok (hm : d.metaDir = true) (hv : env.readVersion = .ok)
    (hs : env.readState = .ok) (hw : env.writeVersion = .ok) :
    wp (appState app true env) (fun _ t => t.metaDir = true) (fun _ _ => False) d := by
  simp [appState, readVersion, readState, writeVersion, openMeta, wp_perform, record, hm, hv, hs,
    hw]

end AppState

/-! ## Each call keeps the invariant -/

variable {app : App} {d t : AppDir}

theorem inv_of_not_fetched (h : isFetchedState d.stateValue = false) : Inv d := by
  intro _ hs
  rw [h] at hs
  exact absurd hs (by decide)

theorem wp_catchThrown_keeps {α : Type} {I : AppDir → Prop} {x : M α} {handler : String → M α}
    (hx : wp x (fun _ => I) (fun _ => I) d)
    (hh : ∀ what t, I t → wp (handler what) (fun _ => I) (fun _ => I) t) :
    wp (catchThrown x handler) (fun _ => I) (fun _ => I) d := by
  rw [wp_catchThrown]
  refine wp_mono hx (fun _ _ h => h) (fun e t ht => ?_)
  cases e with
  | thrown what => exact hh what t ht
  | stopped => exact ht

/-- The only write of a fetched state by `fetch` comes with its event. -/
theorem inv_setPulled {o : WriteOutcome} {uri : String} (hv : d.versionText = uri)
    (hs : isFetchedState d.stateValue = false) (hm : d.metaDir = true) :
    wp (setPulled o uri) (fun _ => Inv) (fun _ => Inv) d := by
  have hd := inv_of_not_fetched hs
  let t : AppDir := { d with trace := .pulled uri :: d.trace }
  have ht : t.metaDir = true := hm
  have hpulled : Inv { t with state := some kPulled } := by
    intro _ _
    change Fetched d.versionText (.pulled uri :: d.trace)
    rw [hv]
    simp [Fetched, Event.concerns]
  unfold setPulled
  cases o <;>
    simp only [record, wp_bind, wp_modify, reduceCtorEq, or_self, or_true, true_or, if_true,
      if_false]
  · rw [wp_setState ht]
    exact hpulled
  · rwa [wp_setState hm]
  · rwa [wp_setState hm]
  · rwa [wp_setState hm]
  · rwa [wp_setState hm]
  · rwa [wp_setState hm]
  · rw [wp_setState ht]
    exact hpulled

/-- The part of `fetch` after the download. -/
theorem inv_verifyAndPull {env : FetchEnv}
    (hv : d.versionText = app.uri) (hs : isFetchedState d.stateValue = false)
    (hm : d.metaDir = true) :
    wp (do
        perform env.validate
        setState env.setVerified kVerified
        perform env.pull
        setPulled env.setPulled app.uri
        return Result.ok)
      (fun _ => Inv) (fun _ => Inv) d := by
  have hd := inv_of_not_fetched hs
  have hverified : isFetchedState kVerified = false := by decide
  have hpull : ∀ t : AppDir, t.versionText = app.uri → isFetchedState t.stateValue = false →
      t.metaDir = true → wp (do
        perform env.pull
        setPulled env.setPulled app.uri
        return Result.ok) (fun _ => Inv) (fun _ => Inv) t := by
    intro t htv hts htm
    simp only [wp_bind, wp_perform, wp_pure]
    cases env.pull with
    | ok => exact inv_setPulled htv hts htm
    | fail what => exact inv_of_not_fetched hts
    | stop => exact inv_of_not_fetched hts
  rw [wp_bind, wp_perform]
  cases env.validate with
  | ok =>
    rw [wp_bind, wp_setState hm]
    cases env.setVerified with
    | ok => exact hpull _ hv hverified hm
    | stopAfter => exact inv_of_not_fetched hverified
    | stopBefore | stopTmp => exact hd
    | openFails _ | writeFails _ | renameFails _ => exact hpull _ hv hs hm
  | fail what => exact hd
  | stop => exact hd

theorem inv_fetch {env : FetchEnv} (ha : Admitted d (.fetch app env)) :
    wp (fetch app env) (fun _ => Inv) (fun _ => Inv) d := by
  obtain ⟨huri, hfit, hrec⟩ := ha
  have hdownloaded : isFetchedState kDownloaded = false := by decide
  rw [fetch, wp_bind, record, wp_modify, wp_bind, createMetaDir, wp_bind, wp_perform]
  by_cases hs : isFetchedState d.stateValue = true
  · -- The state is that of a finished fetch, so the download must be recorded.
    obtain ⟨hdirs, hrv, hrs, hwv, hdown, hset⟩ := hrec hs
    rw [hdirs]
    refine wp_catchThrown_keeps ?_ (fun _ _ ht => ht)
    rw [wp_bind]
    refine wp_mono (wp_and (wp_appState_ok rfl hrv hrs hwv) (wp_appState_switch huri hfit
      (Q := fun _ t => t.versionText = app.uri) (E := fun _ _ => True) (fun _ _ h _ _ => h)
      (fun _ _ _ => trivial))) (fun _ t ht => ?_) (fun _ _ h => h.1.elim)
    rw [wp_bind, wp_perform, hdown]
    rw [wp_bind, wp_setState ht.1]
    rcases hset with hset | hset <;> rw [hset]
    · exact inv_verifyAndPull ht.2 hdownloaded ht.1
    · exact inv_of_not_fetched hdownloaded
  · -- Nothing looks fetched before the pull, however far the call gets.
    have hs : isFetchedState d.stateValue = false := by simpa using hs
    have hd : ∀ t : AppDir, t.stateValue = d.stateValue → Inv t := fun t ht =>
      inv_of_not_fetched (by rw [ht, hs])
    cases env.createDirs with
    | ok =>
      refine wp_catchThrown_keeps ?_ (fun _ _ ht => ht)
      rw [wp_bind]
      refine wp_appState_switch huri hfit (fun _ t htv hts htm => ?_) (fun _ t ht => hd t ht)
      have hts' : isFetchedState t.stateValue = false := by
        rw [hts]
        exact hs
      rw [wp_bind, wp_perform]
      cases env.download with
      | ok =>
        rw [wp_bind, wp_setState htm]
        cases env.setDownloaded with
        | ok => exact inv_verifyAndPull htv hdownloaded htm
        | stopAfter => exact inv_of_not_fetched hdownloaded
        | stopBefore | stopTmp => exact hd t hts
        | openFails _ | writeFails _ | renameFails _ => exact inv_verifyAndPull htv hts' htm
      | fail what => exact hd t hts
      | stop => exact hd t hts
    | fail what => exact hd _ rfl
    | stop => exact hd _ rfl

/-- Asking leaves the files, and the answer is yes only for a fetched state of this
very URI. -/
theorem wp_isFetched {env : FetchedEnv} {Q : Bool → AppDir → Prop} {E : Halt → AppDir → Prop}
    (hQ : ∀ b t, t.files = d.files →
      (b = true → d.root = true ∧ isFetchedState (d.stateOf app.uri) = true) → Q b t)
    (hE : ∀ t, t.files = d.files → E .stopped t) : wp (isFetched app env) Q E d := by
  rw [isFetched, wp_bind, wp_get, wp_ite]
  by_cases hroot : d.root = true
  · rw [if_neg (by simp [hroot]), wp_catchThrown, wp_bind]
    refine wp_appState_read (fun st t ht _ hst => ?_) (fun e t ht => ?_)
    · refine hQ _ t ht (fun h => ⟨hroot, ?_⟩)
      rw [← hst]
      exact h
    · cases e with
      | thrown what => exact hQ false t ht (fun h => absurd h (by decide))
      | stopped => exact hE t ht
  · rw [if_pos (by simpa using hroot)]
    exact hQ false d rfl (fun h => absurd h (by decide))

/-- Compose commands and container checks change the containers only. -/
theorem wp_upResult {env : ComposeEnv} {Q : Result → AppDir → Prop}
    {E : Halt → AppDir → Prop} (hQ : ∀ r, Q r { d with containers := env.containers })
    (hE : E .stopped { d with containers := env.containers }) : wp (upResult env) Q E d := by
  simp only [upResult, wp_catchThrown, runComposeCmd, wp_bind, wp_modify, wp_perform, wp_pure]
  cases env.command with
  | ok => exact hQ _
  | fail what => exact hQ _
  | stop => exact hE

theorem wp_checkContainers {env : ComposeEnv} {Q : Result → AppDir → Prop}
    {E : Halt → AppDir → Prop} (hQ : ∀ r, Q r d) (hE : E .stopped d) :
    wp (checkContainers env) Q E d := by
  rw [checkContainers, wp_catchThrown, wp_bind, areContainersCreated]
  cases env.services with
  | error what => exact hQ _
  | ok services =>
    cases services with
    | nil => exact hQ _
    | cons s rest =>
      simp only [wp_bind, wp_perform]
      cases env.getContainers with
      | ok =>
        simp only [wp_get, wp_pure, wp_ite]
        split <;> exact hQ _
      | fail what => exact hQ _
      | stop => exact hE

/-- From a fetched state every other state may be recorded. -/
theorem inv_of_fetched (hd : Inv d) (hs : isFetchedState d.stateValue = true)
    (hv : t.versionText = d.versionText) (ht : t.trace = d.trace) : Inv t := by
  intro hne _
  rw [hv, ht]
  rw [hv] at hne
  exact hd hne hs

theorem inv_finishUp {result : Result} {env : ComposeEnv} {o : WriteOutcome} {n : Int}
    (hd : Inv d) (hm : d.metaDir = true)
    (hs : result = .ok → isFetchedState d.stateValue = true) :
    wp (finishUp result env o n) (fun _ => Inv) (fun _ => Inv) d := by
  unfold finishUp
  by_cases hr : result = .ok
  · have hany : ∀ m : Int, Inv { d with state := some m } := fun m =>
      inv_of_fetched hd (hs hr) rfl rfl
    simp only [hr, ne_eq, not_true_eq_false, if_false, wp_bind]
    refine wp_checkContainers (fun r => ?_) hd
    by_cases hr' : r = .ok
    · simp only [hr', if_true, wp_bind, wp_pure]
      rw [wp_setState hm]
      cases o <;> first | exact hd | exact hany n
    · simp only [hr', if_false, wp_pure]
      exact hd
  · simp only [hr, ne_eq, not_false_eq_true, if_true, wp_pure]
    exact hd

theorem isFetchedState_stateOf {uri : String} (h : isFetchedState (d.stateOf uri) = true) :
    (uri = "" ∨ d.versionText = uri) ∧ isFetchedState d.stateValue = true := by
  unfold AppDir.stateOf at h
  by_cases hv : uri = "" ∨ d.versionText = uri
  · rw [if_pos hv] at h
    exact ⟨hv, h⟩
  · rw [if_neg hv] at h
    exact absurd h (by decide)

theorem inv_isFetched {env : FetchedEnv} (hd : Inv d) :
    wp (isFetched app env) (fun _ => Inv) (fun _ => Inv) d :=
  wp_isFetched (fun _ _ ht _ => (inv_congr ht).mpr hd) (fun _ ht => (inv_congr ht).mpr hd)

theorem inv_stop {env : ComposeEnv} (hd : Inv d) :
    wp (stop env) (fun _ => Inv) (fun _ => Inv) d := by
  simp only [stop, wp_catchThrown, runComposeCmd, wp_bind, wp_modify, wp_perform, wp_pure]
  cases env.command <;> exact (inv_congr (t := { d with containers := env.containers }) rfl).mpr hd

/-- What `install` and `run` do once they have read the state.  `brings` are the
states from which the app is brought up. -/
theorem inv_upAndFinish {skip brings : Prop} [Decidable skip] [Decidable brings] {err : String}
    {env : ComposeEnv} {o : WriteOutcome} {n : Int} (hd : Inv d)
    (hm : d.metaDir = true) (hs : skip ∨ brings → isFetchedState d.stateValue = true) :
    wp (do
        let result ←
          if skip then pure .ok else if brings then upResult env else pure (.failed err)
        finishUp result env o n) (fun _ => Inv) (fun _ => Inv) d := by
  by_cases hskip : skip
  · simp only [hskip, if_true, wp_bind, wp_pure]
    exact inv_finishUp hd hm (fun _ => hs (.inl hskip))
  · by_cases hbrings : brings
    · have hc : Inv { d with containers := env.containers } := (inv_congr rfl).mpr hd
      simp only [hskip, hbrings, if_true, if_false, wp_bind]
      exact wp_upResult (fun r => inv_finishUp hc hm (fun _ => hs (.inr hbrings))) hc
    · simp only [hskip, hbrings, if_false, wp_bind, wp_pure]
      exact inv_finishUp hd hm (fun h => nomatch h)

theorem stateValue_of_files (h : t.files = d.files) : t.stateValue = d.stateValue :=
  congrArg (fun f => f.2.1) h

theorem inv_install {env : InstallEnv} (hd : Inv d) :
    wp (install app env) (fun _ => Inv) (fun _ => Inv) d := by
  rw [install, wp_bind, wp_get, wp_ite]
  split
  · exact hd
  · rw [wp_bind]
    refine wp_appState_read (fun st t ht hm hst => ?_) (fun e t ht => (inv_congr ht).mpr hd)
    refine inv_upAndFinish ((inv_congr ht).mpr hd) hm (fun h => ?_)
    rw [stateValue_of_files ht]
    refine (@isFetchedState_stateOf _ app.uri ?_).2
    rw [← hst]
    rcases h with (h | h) | h <;> rw [h] <;> decide

/-- On an app that the files record as fetched the assumption changes nothing. -/
theorem inv_assumePulled {env : RunEnv} (hd : Inv d)
    (hv : d.versionText = app.uri) (hs : isFetchedState d.stateValue = true) :
    wp (assumePulled app env)
      (fun _ t => Inv t ∧ t.versionText = app.uri ∧ isFetchedState t.stateValue = true)
      (fun _ => Inv) d := by
  have hpulled : isFetchedState kPulled = true := by decide
  have hkeep : ∀ t : AppDir, t.files = d.files →
      Inv t ∧ t.versionText = app.uri ∧ isFetchedState t.stateValue = true := by
    intro t ht
    refine ⟨(inv_congr ht).mpr hd, ?_, ?_⟩
    · rw [← hv]
      exact congrArg Prod.fst ht
    · rwa [stateValue_of_files ht]
  rw [assumePulled, createMetaDir, wp_bind, wp_bind, wp_perform]
  cases env.createDirs with
  | fail what => exact hd
  | stop => exact hd
  | ok =>
    simp only [wp_modify, wp_bind]
    refine wp_appState_same (.inr hv) (fun st t ht hm => ?_) (fun e t ht => (hkeep t ht).1)
    have hset : Inv { t with state := some kPulled } :=
      inv_of_fetched (hkeep t ht).1 (hkeep t ht).2.2 rfl rfl
    rw [wp_setState hm]
    cases env.setPulled with
    | ok => exact ⟨hset, (hkeep t ht).2.1, hpulled⟩
    | stopAfter => exact hset
    | stopBefore | stopTmp => exact (hkeep t ht).1
    | openFails _ | writeFails _ | renameFails _ => exact hkeep t ht

theorem inv_run {env : RunEnv} (hd : Inv d)
    (ha : Admitted d (.run app env)) : wp (run app env) (fun _ => Inv) (fun _ => Inv) d := by
  -- What happens once the app is known, or assumed, to be pulled.
  have hrest : ∀ t : AppDir, Inv t → wp (do
        let state ← appState app false env.appState
        let result ←
          if state.state = kStarted then pure .ok
          else if state.state = kPulled ∨ state.state = kInstalled then upResult env.compose
          else pure (.failed "Cannot start App that hasn't been fetched")
        finishUp result env.compose env.setStarted kStarted) (fun _ => Inv) (fun _ => Inv) t := by
    intro t ht
    rw [wp_bind]
    refine wp_appState_read (fun st u hu hm hst => ?_) (fun e u hu => (inv_congr hu).mpr ht)
    refine inv_upAndFinish ((inv_congr hu).mpr ht) hm (fun h => ?_)
    rw [stateValue_of_files hu]
    refine (@isFetchedState_stateOf _ app.uri ?_).2
    rw [← hst]
    rcases h with h | h | h <;> rw [h] <;> decide
  rw [run, wp_bind, wp_get, wp_ite]
  split
  · exact hd
  · next hroot =>
    obtain ⟨hv, hs⟩ := ha (by simpa using hroot)
    rw [wp_bind]
    refine wp_isFetched (fun b t ht _ => ?_) (fun t ht => (inv_congr ht).mpr hd)
    have htd : Inv t := (inv_congr ht).mpr hd
    cases b with
    | true => exact hrest t htd
    | false =>
      simp only [Bool.not_false, if_true]
      rw [wp_bind]
      refine wp_mono (inv_assumePulled htd ?_ ?_) (fun _ u hu => hrest u hu.1)
        (fun _ _ h => h)
      · rw [← hv]
        exact congrArg Prod.fst ht
      · rwa [stateValue_of_files ht]

/-! ## Histories -/

theorem inv_step {c : Call} (hd : Inv d) (ha : Admitted d c) (hstep : Step d c t) : Inv t := by
  subst hstep
  cases c with
  | fetch app env => exact after_of_wp (inv_fetch ha)
  | install app env => exact after_of_wp (inv_install hd)
  | run app env => exact after_of_wp (inv_run hd ha)
  | stop env => exact after_of_wp (inv_stop hd)
  | isFetched app env => exact after_of_wp (inv_isFetched hd)

theorem fetchedWhenSaid_of_inv (hd : Inv d) : FetchedWhenSaid d := by
  intro app env d' huri hsaid
  have hwp : wp (isFetched app env)
      (fun b _ => b = true → isFetchedState (d.stateOf app.uri) = true) (fun _ _ => True) d :=
    wp_isFetched (fun _ _ _ h hb => (h hb).2) (fun _ _ => trivial)
  obtain ⟨hv, hs⟩ := isFetchedState_stateOf (wp_ok hwp hsaid rfl)
  have hv := hv.resolve_left huri
  rw [← hv]
  rw [← hv] at huri
  exact hd huri hs

/-- Along every history of admitted calls, `isFetched` says yes only for a URI whose
latest fetch reached the pulled state. -/
theorem fetched_when_said {root : Bool} {d : AppDir}
    (h : Reaches Step Admitted (AppDir.initial root) d) : FetchedWhenSaid d :=
  fetchedWhenSaid_of_inv
    (Reaches.invariant Inv (fun _ _ _ hd ha hstep => inv_step hd ha hstep)
      (inv_of_not_fetched rfl) h)

/-! ## Two versions in one directory -/

def AppStateEnv.allOk : AppStateEnv :=
  { readVersion := .ok, readState := .ok, writeVersion := .ok }

def FetchEnv.allOk : FetchEnv :=
  { createDirs := .ok, appState := .allOk, download := .ok, setDownloaded := .ok,
    validate := .ok, setVerified := .ok, pull := .ok, setPulled := .ok }

def appV1 : App := { name := "app", uri := "hub.io/factory/app@sha256:1" }
def appV2 : App := { name := "app", uri := "hub.io/factory/app@sha256:2" }

/-- The files after a fetch of the first version and one of the second. -/
def afterUpgrade (env : FetchEnv) : AppDir :=
  (Call.fetch appV2 env).exec ((Call.fetch appV1 .allOk).exec (AppDir.initial false))

/-- A second fetch that fails in the pull is not taken for a finished one. -/
theorem fetched_when_said_upgrade :
    FetchedWhenSaid (afterUpgrade { FetchEnv.allOk with pull := .fail "no space" }) ∧
      isFetched appV2 { appState := .allOk }
        (afterUpgrade { FetchEnv.allOk with pull := .fail "no space" }) =
      .ok false (afterUpgrade { FetchEnv.allOk with pull := .fail "no space" }) := by
  constructor
  · have hfirst : Admitted (AppDir.initial false) (.fetch appV1 .allOk) :=
      ⟨by decide, by decide, by decide⟩
    have hsecond : Admitted ((Call.fetch appV1 .allOk).exec (AppDir.initial false))
        (.fetch appV2 { FetchEnv.allOk with pull := .fail "no space" }) :=
      ⟨by decide, by decide, by decide⟩
    have hrun : Reaches Step Admitted (AppDir.initial false)
        (afterUpgrade { FetchEnv.allOk with pull := .fail "no space" }) :=
      Reaches.snoc (Reaches.snoc .refl _ hfirst rfl) _ hsecond rfl
    exact fetched_when_said hrun
  · rfl

/-- A second fetch that fails in the download is: the state file still has the
progress of the first version. -/
theorem failed_fetch_looks_fetched :
    ¬ ∀ d, Reaches Step (fun _ _ => True) (AppDir.initial false) d → FetchedWhenSaid d := by
  intro h
  have hrun : Reaches Step (fun _ _ => True) (AppDir.initial false)
      (afterUpgrade { FetchEnv.allOk with download := .fail "timeout" }) :=
    Reaches.snoc (Reaches.snoc .refl _ trivial rfl) _ trivial rfl
  have hsaid := h _ hrun appV2 { appState := .allOk } _ (by decide) rfl
  exact absurd hsaid (by decide)

end Engine
end AkLite
