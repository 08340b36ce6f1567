/-
Whether `run` and `install` bring an app up.

Both skip the compose command when the state file says that it was executed
before.  `stop` takes the containers away and leaves the state file as it is, so a
started app that was stopped is not brought up by the next `run`.
`stopped_app_does_not_start` is such a history, and `brings_up_iff` says in which of
the states that successful calls can lead to the two calls do what they are for.

`Settled` is what successful calls establish: the state file holds one of the six
states, nothing is left of an interrupted write, and there are no state files
without the directory that holds them.
-/
import AkLite.Engine.Fetched

namespace AkLite
namespace Engine

open Lib

/-! ## The property -/

def AppDir.HasAll (d : AppDir) (services : List String) : Prop :=
  ∀ s ∈ services, s ∈ d.containers

/-- The call returns success and every service has a container. -/
def BringsUp (x : M Result) (services : List String) (d : AppDir) : Prop :=
  wp x (fun r t => r = .ok ∧ t.HasAll services) (fun _ _ => False) d

/-- The compose command succeeds and creates the containers when it is executed. -/
structure ComposeEnv.Creates (env : ComposeEnv) (services : List String) : Prop where
  command : env.command = .ok
  composeFile : env.services = .ok services
  getContainers : env.getContainers = .ok
  containers : ∀ s ∈ services, s ∈ env.containers

structure RunEnv.Creates (env : RunEnv) (services : List String) : Prop where
  isFetched : env.isFetched = { appState := .allOk }
  createDirs : env.createDirs = .ok
  assumePulled : env.assumePulled = .allOk
  setPulled : env.setPulled = .ok
  appState : env.appState = .allOk
  compose : env.compose.Creates services
  setStarted : env.setStarted = .ok

structure InstallEnv.Creates (env : InstallEnv) (services : List String) : Prop where
  appState : env.appState = .allOk
  compose : env.compose.Creates services
  setInstalled : env.setInstalled = .ok

/-! ## Successful calls -/

def returnsOk (x : M Result) (d : AppDir) : Bool :=
  match x d with
  | .ok .ok _ => true
  | _ => false

/-- The call succeeds.  `stop` swallows the failure of its command, and `isFetched`
has no failure. -/
def Call.Succeeds (d : AppDir) : Call → Prop
  | .fetch app env => returnsOk (Engine.fetch app env) d
  | .install app env => returnsOk (Engine.install app env) d
  | .run app env => returnsOk (Engine.run app env) d
  | .stop env => env.command = .ok
  | .isFetched app env => ∃ b t, Engine.isFetched app env d = .ok b t

def knownStates : List Int := [kUnknown, kDownloaded, kVerified, kPulled, kInstalled, kStarted]

structure Settled (d : AppDir) : Prop where
  known : d.stateValue ∈ knownStates
  fresh : d.metaDir = false → d.version = none ∧ d.state = none
  noTmp : d.versionTmp = none

/-- A caught exception must leave a settled directory too, a stopped process not. -/
def SettledUnlessStopped (e : Halt) (d : AppDir) : Prop := e ≠ .stopped → Settled d

abbrev Settles {α : Type} (x : M α) : Prop := Keeps Settled SettledUnlessStopped x

theorem settles_perform (o : Outcome) : Settles (perform o) := by
  intro d hd
  rw [wp_perform]
  cases o with
  | ok => exact hd
  | fail what => exact fun _ => hd
  | stop => exact fun h => absurd rfl h

theorem settles_catchThrown {α : Type} {x : M α} {handler : String → M α} (hx : Settles x)
    (hh : ∀ what, Settles (handler what)) : Settles (catchThrown x handler) := by
  intro d hd
  rw [wp_catchThrown]
  refine wp_mono (hx d hd) (fun _ _ h => h) (fun e t ht => ?_)
  cases e with
  | thrown what => exact hh what t (ht (by simp))
  | stopped => exact fun h => absurd rfl h

/-- With the directory for them in place, the state files may be there. -/
theorem settled_of_metaDir {d : AppDir} (hm : d.metaDir = true)
    (hs : d.stateValue ∈ knownStates) (ht : d.versionTmp = none) : Settled d where
  known := hs
  fresh h := absurd (hm.symm.trans h) (by decide)
  noTmp := ht

theorem settles_readVersion (o : Outcome) : Settles (readVersion o) := fun _ hd =>
  wp_readVersion (fun hm => settled_of_metaDir hm hd.known hd.noTmp) (fun _ _ => hd)

theorem settles_readState (o : Outcome) : Settles (readState o) := fun _ hd =>
  wp_readState (fun hm => settled_of_metaDir hm hd.known hd.noTmp) (fun _ _ => hd)

theorem settles_writeVersion (o : WriteOutcome) (version : String) :
    Settles (writeVersion o version) := by
  intro d hd
  have hset : ∀ v t, d.metaDir = true →
      Settled { d with version := v, versionTmp := none, trace := t } :=
    fun _ _ hm => settled_of_metaDir hm hd.known rfl
  cases o <;> cases hm : d.metaDir <;>
    simp_all [writeVersion, openMeta, wp_perform, record, SettledUnlessStopped]

theorem settles_setState (o : WriteOutcome) {n : Int} (hn : n ∈ knownStates) :
    Settles (setState o n) := by
  refine settles_catchThrown (fun d hd => ?_) (fun _ => Keeps.pure ())
  have hset : d.metaDir = true → Settled { d with state := some n } :=
    fun hm => settled_of_metaDir hm hn hd.noTmp
  cases o <;> cases hm : d.metaDir <;>
    simp_all [writeState, openMeta, wp_perform, SettledUnlessStopped]

theorem settles_appState (app : App) (b : Bool) (env : AppStateEnv) :
    Settles (appState app b env) := by
  refine Keeps.bind (settles_readVersion _) (fun v => Keeps.ite ?_ (Keeps.ite ?_ ?_))
  · exact Keeps.bind (settles_readState _) (fun _ => Keeps.pure _)
  · exact Keeps.bind (settles_writeVersion _ _) (fun _ => Keeps.pure _)
  · exact Keeps.pure _

theorem settles_createMetaDir (o : Outcome) : Settles (createMetaDir o) :=
  Keeps.bind (settles_perform o)
    (fun _ => Keeps.modify fun _ hd => settled_of_metaDir rfl hd.known hd.noTmp)

/-- What the invariant does not look at. -/
theorem Settled.congr {d : AppDir} (hd : Settled d) (containers : List String)
    (trace : List Event) : Settled { d with containers := containers, trace := trace } :=
  ⟨hd.known, hd.fresh, hd.noTmp⟩

theorem settles_record (e : Event) : Settles (record e) :=
  Keeps.modify fun d hd => hd.congr d.containers (e :: d.trace)

theorem settles_runComposeCmd (env : ComposeEnv) : Settles (runComposeCmd env) :=
  Keeps.bind (Keeps.modify fun d hd => hd.congr env.containers d.trace)
    (fun _ => settles_perform _)

theorem settles_fetch (app : App) (env : FetchEnv) : Settles (fetch app env) := by
  refine Keeps.bind (settles_record _) (fun _ => Keeps.bind (settles_createMetaDir _) (fun _ =>
    settles_catchThrown ?_ (fun _ => Keeps.pure _)))
  refine Keeps.bind (settles_appState _ _ _) (fun _ => Keeps.bind (settles_perform _) (fun _ => ?_))
  refine Keeps.bind (settles_setState _ (by decide)) (fun _ => ?_)
  refine Keeps.bind (settles_perform _) (fun _ => ?_)
  refine Keeps.bind (settles_setState _ (by decide)) (fun _ => ?_)
  refine Keeps.bind (settles_perform _) (fun _ => Keeps.bind ?_ (fun _ => Keeps.pure _))
  exact Keeps.ite (Keeps.bind (settles_record _) (fun _ => settles_setState _ (by decide)))
    (settles_setState _ (by decide))

theorem settles_isFetched (app : App) (env : FetchedEnv) : Settles (isFetched app env) :=
  Keeps.bind Keeps.get (fun _ => Keeps.ite (Keeps.pure _) (settles_catchThrown
    (Keeps.bind (settles_appState _ _ _) (fun _ => Keeps.pure _)) (fun _ => Keeps.pure _)))

theorem settles_upResult (env : ComposeEnv) : Settles (upResult env) :=
  settles_catchThrown (Keeps.bind (settles_runComposeCmd env) (fun _ => Keeps.pure _))
    (fun _ => Keeps.pure _)

theorem settles_checkContainers (env : ComposeEnv) : Settles (checkContainers env) := fun _ hd =>
  wp_checkContainers (fun _ => hd) (fun _ => hd)

theorem settles_finishUp (result : Result) (env : ComposeEnv) (o : WriteOutcome) {n : Int}
    (hn : n ∈ knownStates) : Settles (finishUp result env o n) := by
  refine Keeps.ite (Keeps.pure _) (Keeps.bind (settles_checkContainers env) (fun r => ?_))
  exact Keeps.ite (Keeps.bind (settles_setState o hn) (fun _ => Keeps.pure _)) (Keeps.pure _)

theorem settles_install (app : App) (env : InstallEnv) : Settles (install app env) := by
  have hfinish := fun r => settles_finishUp r env.compose env.setInstalled (n := kInstalled)
    (by decide)
  refine Keeps.bind Keeps.get (fun _ => Keeps.ite (Keeps.pure _) ?_)
  refine Keeps.bind (settles_appState _ _ _) (fun st => Keeps.ite ?_ (Keeps.ite ?_ ?_))
  · exact Keeps.bind (Keeps.pure _) hfinish
  · exact Keeps.bind (settles_upResult _) hfinish
  · exact Keeps.bind (Keeps.pure _) hfinish

theorem settles_run (app : App) (env : RunEnv) : Settles (run app env) := by
  have hfinish := fun r => settles_finishUp r env.compose env.setStarted (n := kStarted)
    (by decide)
  have hassume : Settles (assumePulled app env) :=
    Keeps.bind (settles_createMetaDir _) (fun _ => Keeps.bind (settles_appState _ _ _)
      (fun _ => settles_setState _ (by decide)))
  have hrest : Settles (do
      let state ← appState app false env.appState
      let result ←
        if state.state = kStarted then pure .ok
        else if state.state = kPulled ∨ state.state = kInstalled then upResult env.compose
        else pure (.failed "Cannot start App that hasn't been fetched")
      finishUp result env.compose env.setStarted kStarted) := by
    refine Keeps.bind (settles_appState _ _ _) (fun st => Keeps.ite ?_ (Keeps.ite ?_ ?_))
    · exact Keeps.bind (Keeps.pure _) hfinish
    · exact Keeps.bind (settles_upResult _) hfinish
    · exact Keeps.bind (Keeps.pure _) hfinish
  refine Keeps.bind Keeps.get (fun _ => Keeps.ite (Keeps.pure _) ?_)
  refine Keeps.bind (settles_isFetched _ _) (fun b => Keeps.ite ?_ hrest)
  exact Keeps.bind hassume (fun _ => hrest)

/-- A call that succeeds leaves a settled directory. -/
theorem settled_step {d t : AppDir} {c : Call} (hd : Settled d) (hc : c.Succeeds d)
    (hstep : Step d c t) : Settled t := by
  subst hstep
  have hresult : ∀ x : M Result, Settles x → returnsOk x d → Settled (after x d) := by
    intro x hx hok
    have hwp := hx d hd
    unfold returnsOk at hok
    unfold after
    unfold wp at hwp
    cases hr : x d with
    | ok r t => simpa [hr] using hwp
    | error e t => simp [hr] at hok
  cases c with
  | fetch app env => exact hresult _ (settles_fetch app env) hc
  | install app env => exact hresult _ (settles_install app env) hc
  | run app env => exact hresult _ (settles_run app env) hc
  | stop env =>
    have hstop : (Call.stop env).exec d = { d with containers := env.containers } := by
      have hc : env.command = .ok := hc
      change after (stop env) d = _
      unfold stop runComposeCmd
      rw [hc]
      rfl
    rw [hstop]
    exact hd.congr env.containers d.trace
  | isFetched app env =>
    obtain ⟨b, t, ht⟩ := hc
    have hwp := wp_ok (settles_isFetched app env d hd) ht
    simpa [Call.exec, after, ht] using hwp

theorem settled_initial (root : Bool) : Settled (AppDir.initial root) :=
  ⟨List.mem_cons_self, fun _ => ⟨rfl, rfl⟩, rfl⟩

/-! ## Bringing up -/

/-- What reading the state files leaves. -/
structure Read (d t : AppDir) : Prop where
  files : t.files = d.files
  metaDir : t.metaDir = d.metaDir
  noTmp : t.versionTmp = d.versionTmp
  containers : t.containers = d.containers

section BringUp

variable {app : App} {services : List String} {d : AppDir}

variable {E : Halt → AppDir → Prop}

theorem wp_appState_allOk {Q : AppState → AppDir → Prop} (hm : d.metaDir = true)
    (hQ : ∀ st t, Read d t → st.state = d.stateOf app.uri → Q st t) :
    wp (appState app false .allOk) Q E d := by
  have hread : ∀ v s, v = d.versionText → s.getD 0 = d.stateValue →
      Read d { d with version := some v, state := s } := by
    intro v s hv hs
    exact ⟨by simp [AppDir.files, AppDir.versionText, AppDir.stateValue, hv, hs], rfl, rfl, rfl⟩
  unfold AppDir.stateOf at hQ
  by_cases hv : app.uri = "" ∨ d.versionText = app.uri
  · simp_all [appState, readVersion, readState, openMeta, AppStateEnv.allOk, wp_perform,
      AppDir.versionText, AppDir.stateValue]
  · simp_all [appState, readVersion, readState, openMeta, AppStateEnv.allOk, wp_perform,
      AppDir.versionText, AppDir.stateValue]

theorem wp_checkContainers_creates {env : ComposeEnv} {Q : Result → AppDir → Prop}
    (henv : env.Creates services)
    (hQ : ∀ r, (r = .ok ↔ d.HasAll services) → Q r d) : wp (checkContainers env) Q E d := by
  rw [checkContainers, wp_catchThrown, wp_bind, areContainersCreated, henv.composeFile]
  cases services with
  | nil => exact hQ .ok (by simp [AppDir.HasAll])
  | cons s rest =>
    simp only [wp_bind, wp_perform, henv.getContainers, wp_get, wp_pure, wp_ite]
    by_cases hall : ((s :: rest).all fun s => d.containers.contains s) = true
    · rw [if_pos hall]
      exact hQ .ok (by simpa [AppDir.HasAll] using hall)
    · rw [if_neg hall]
      exact hQ _ (by simpa [AppDir.HasAll] using hall)

/-- The end of `install` and `run` reports what the containers are. -/
theorem wp_finishUp_creates {env : ComposeEnv} {result : Result} {n : Int} {c : Prop}
    (henv : env.Creates services) (hm : d.metaDir = true)
    (hc : result = .ok ∧ d.HasAll services ↔ c) :
    wp (finishUp result env .ok n) (fun r t => r = .ok ∧ t.HasAll services ↔ c) E d := by
  unfold finishUp
  by_cases hr : result = .ok
  · simp only [hr, ne_eq, not_true_eq_false, if_false, wp_bind]
    refine wp_checkContainers_creates henv (fun r hall => ?_)
    by_cases hr' : r = .ok
    · simp only [hr', if_true, wp_bind, wp_pure]
      rw [wp_setState hm]
      simpa [hr, AppDir.HasAll] using hc
    · simp only [hr', if_false, wp_pure, false_and]
      rw [← hc, ← hall]
      simp [hr']
  · simp only [hr, ne_eq, not_false_eq_true, if_true, wp_pure, ← hc]

/-- What `install` and `run` do once they have read the state, when the command
creates the containers. -/
theorem wp_upAndFinish_creates {skip brings : Prop} [Decidable skip] [Decidable brings]
    {err : String} {env : ComposeEnv} {n : Int}
    (henv : env.Creates services) (hm : d.metaDir = true) (hdisj : skip → ¬ brings) {c : Prop}
    (hc : brings ∨ skip ∧ d.HasAll services ↔ c) :
    wp (do
        let result ←
          if skip then pure .ok else if brings then upResult env else pure (.failed err)
        finishUp result env .ok n) (fun r t => r = .ok ∧ t.HasAll services ↔ c) E d := by
  by_cases hskip : skip
  · simp only [hskip, if_true, wp_bind, wp_pure]
    refine wp_finishUp_creates henv hm ?_
    simpa [hskip, hdisj hskip] using hc
  · by_cases hbrings : brings
    · simp only [hskip, hbrings, if_true, if_false, wp_bind, upResult, wp_catchThrown,
        runComposeCmd, wp_modify, wp_perform, henv.command, wp_pure]
      refine wp_finishUp_creates henv hm ?_
      have hall : AppDir.HasAll { d with containers := env.containers } services :=
        henv.containers
      simpa [hbrings, hall] using hc
    · simp only [hskip, hbrings, if_false, wp_bind, wp_pure]
      refine wp_finishUp_creates henv hm ?_
      simpa [hskip, hbrings] using hc

theorem stateOf_known (hd : Settled d) : d.stateOf app.uri ∈ knownStates := by
  unfold AppDir.stateOf
  split
  · exact hd.known
  · decide

theorem stateOf_fresh (hd : Settled d) (hm : d.metaDir = false) : d.stateOf app.uri = kUnknown := by
  unfold AppDir.stateOf AppDir.stateValue
  rw [(hd.fresh hm).2]
  split <;> rfl

theorem stateOf_of_files {t : AppDir} (h : t.files = d.files) :
    t.stateOf app.uri = d.stateOf app.uri := by
  simp only [AppDir.files, Prod.mk.injEq] at h
  unfold AppDir.stateOf
  rw [h.1, h.2.1]

theorem metaDir_of_fetched (hd : Settled d) (h : isFetchedState (d.stateOf app.uri) = true) :
    d.metaDir = true := by
  cases hm : d.metaDir with
  | true => rfl
  | false =>
    rw [stateOf_fresh hd hm] at h
    exact absurd h (by decide)

theorem state_of_fetched (hd : Settled d) (h : isFetchedState (d.stateOf app.uri) = true) :
    d.stateOf app.uri = kPulled ∨ d.stateOf app.uri = kInstalled ∨
      d.stateOf app.uri = kStarted := by
  have hknown : d.stateOf app.uri ∈ knownStates := stateOf_known hd
  revert h hknown
  generalize d.stateOf app.uri = n
  intro h hknown
  simp only [knownStates, List.mem_cons, List.not_mem_nil, or_false] at hknown
  rcases hknown with rfl | rfl | rfl | rfl | rfl | rfl <;> revert h <;> decide

/-- `install` brings up what is pulled, and otherwise relies on the containers that
are there. -/
theorem install_brings_up_iff {env : InstallEnv} (hd : Settled d) (henv : env.Creates services) :
    BringsUp (install app env) services d ↔
      d.root = true ∧ (d.stateOf app.uri = kPulled ∨
        (d.stateOf app.uri = kInstalled ∨ d.stateOf app.uri = kStarted) ∧ d.HasAll services) := by
  refine wp_iff ?_
  rw [install, wp_bind, wp_get, wp_ite]
  by_cases hroot : d.root = true
  · rw [if_neg (by simp [hroot]), wp_bind, henv.appState]
    cases hm : d.metaDir with
    | true =>
      refine wp_appState_allOk hm (fun st t ht hst => ?_)
      rw [henv.setInstalled]
      refine wp_upAndFinish_creates henv.compose (ht.metaDir.trans hm) ?_ ?_
      · rw [hst]
        rintro (h | h) <;> rw [h] <;> decide
      · simp only [hst, hroot, AppDir.HasAll, ht.containers, true_and]
    | false =>
      simp [appState, readVersion, openMeta, wp_perform, AppStateEnv.allOk, hm,
        stateOf_fresh hd hm, kUnknown, kPulled, kInstalled, kStarted]
  · simp [hroot]

/-- `run` once the app is known, or assumed, to be pulled. -/
theorem wp_start_creates {env : RunEnv} {c : Prop}
    (henv : env.Creates services) (hm : d.metaDir = true)
    (hc : (d.stateOf app.uri = kPulled ∨ d.stateOf app.uri = kInstalled) ∨
      d.stateOf app.uri = kStarted ∧ d.HasAll services ↔ c) :
    wp (do
        let state ← appState app false env.appState
        let result ←
          if state.state = kStarted then pure .ok
          else if state.state = kPulled ∨ state.state = kInstalled then upResult env.compose
          else pure (.failed "Cannot start App that hasn't been fetched")
        finishUp result env.compose env.setStarted kStarted)
      (fun r t => r = .ok ∧ t.HasAll services ↔ c) E d := by
  rw [wp_bind, henv.appState, henv.setStarted]
  refine wp_appState_allOk hm (fun st t ht hst => ?_)
  refine wp_upAndFinish_creates henv.compose (ht.metaDir.trans hm) ?_ ?_
  · rw [hst]
    intro h
    rw [h]
    decide
  · simp only [hst, AppDir.HasAll, ht.containers]
    exact hc

theorem wp_isFetched_allOk {Q : Bool → AppDir → Prop} (hd : Settled d) (hroot : d.root = true)
    (hQ : ∀ t, Read d t → Q (isFetchedState (d.stateOf app.uri)) t) :
    wp (isFetched app { appState := .allOk }) Q E d := by
  rw [isFetched, wp_bind, wp_get, wp_ite, if_neg (by simp [hroot]), wp_catchThrown, wp_bind]
  cases hm : d.metaDir with
  | true =>
    refine wp_appState_allOk hm (fun st t ht hst => ?_)
    rw [wp_pure, hst]
    exact hQ t ht
  | false =>
    have hQ := hQ d ⟨rfl, rfl, rfl, rfl⟩
    have hno : isFetchedState kUnknown = false := by decide
    rw [stateOf_fresh hd hm, hno] at hQ
    simpa [appState, readVersion, openMeta, wp_perform, AppStateEnv.allOk, hm] using hQ

theorem wp_assumePulled_allOk {env : RunEnv} (henv : env.Creates services)
    (htmp : d.versionTmp = none) :
    wp (assumePulled app env)
      (fun _ t => t.metaDir = true ∧ t.stateOf app.uri = kPulled) E d := by
  have hwritten : overwrite app.uri none = app.uri := overwrite_of_fits (Nat.zero_le _)
  simp only [assumePulled, createMetaDir, henv.createDirs, henv.assumePulled, henv.setPulled]
  by_cases hv : app.uri = "" ∨ d.versionText = app.uri
  · rcases hv with hv | hv <;>
      simp_all [wp_perform, appState, readVersion, readState, openMeta, AppStateEnv.allOk,
        wp_setState, AppDir.versionText, AppDir.stateOf, AppDir.stateValue]
  · simp_all [wp_perform, appState, readVersion, readState, openMeta, AppStateEnv.allOk,
      wp_setState, AppDir.versionText, AppDir.stateOf, AppDir.stateValue, writeVersion, record]

/-- `run` brings up every app whose directory is there, except a started one: for
that it relies on the containers. -/
theorem run_brings_up_iff {env : RunEnv} (hd : Settled d) (henv : env.Creates services) :
    BringsUp (run app env) services d ↔
      d.root = true ∧ (d.stateOf app.uri = kStarted → d.HasAll services) := by
  refine wp_iff ?_
  rw [run, wp_bind, wp_get, wp_ite]
  by_cases hroot : d.root = true
  · rw [if_neg (by simp [hroot]), wp_bind, henv.isFetched]
    refine wp_isFetched_allOk hd hroot (fun t ht => ?_)
    cases hfetched : isFetchedState (d.stateOf app.uri) with
    | true =>
      refine wp_start_creates henv (ht.metaDir.trans (metaDir_of_fetched hd hfetched)) ?_
      rw [stateOf_of_files ht.files]
      simp only [AppDir.HasAll, ht.containers, hroot, true_and]
      rcases state_of_fetched hd hfetched with h | h | h <;>
        simp [h, kPulled, kInstalled, kStarted]
    | false =>
      have hstarted : d.stateOf app.uri ≠ kStarted := by
        intro h
        rw [h] at hfetched
        exact absurd hfetched (by decide)
      simp only [Bool.not_false, if_true]
      rw [wp_bind]
      refine wp_mono (wp_assumePulled_allOk henv (ht.noTmp.trans hd.noTmp))
        (fun _ u hu => ?_) (fun _ _ h => h)
      refine wp_start_creates henv hu.1 ?_
      simp [hu.2, hroot, hstarted]
  · simp [hroot]

end BringUp

theorem settled_of_reaches {root : Bool} {d : AppDir}
    (h : Reaches Step Call.Succeeds (AppDir.initial root) d) : Settled d :=
  Reaches.invariant Settled (fun _ _ _ hd hc hstep => settled_step hd hc hstep)
    (settled_initial root) h

/-- After every sequence of successful calls: `run` brings the app up exactly when
its directory is there and, if its state is started, the containers still are;
`install` exactly when the app is pulled, or installed or started with its
containers. -/
theorem brings_up_iff {root : Bool} {d : AppDir}
    (h : Reaches Step Call.Succeeds (AppDir.initial root) d) (app : App) (services : List String) :
    (∀ env : RunEnv, env.Creates services →
      (BringsUp (run app env) services d ↔
        d.root = true ∧ (d.stateOf app.uri = kStarted → d.HasAll services))) ∧
    (∀ env : InstallEnv, env.Creates services →
      (BringsUp (install app env) services d ↔
        d.root = true ∧ (d.stateOf app.uri = kPulled ∨
          (d.stateOf app.uri = kInstalled ∨ d.stateOf app.uri = kStarted) ∧
            d.HasAll services))) :=
  ⟨fun _ henv => run_brings_up_iff (settled_of_reaches h) henv,
    fun _ henv => install_brings_up_iff (settled_of_reaches h) henv⟩

/-! ## Start, stop, start -/

def ComposeEnv.leaves (containers : List String) : ComposeEnv :=
  { command := .ok, containers := containers, services := .ok ["web", "db"],
    getContainers := .ok }

theorem ComposeEnv.leaves_creates :
    (ComposeEnv.leaves ["web", "db"]).Creates ["web", "db"] where
  command := rfl
  composeFile := rfl
  getContainers := rfl
  containers _ hs := hs

def RunEnv.up : RunEnv :=
  { isFetched := { appState := .allOk }, createDirs := .ok, assumePulled := .allOk,
    setPulled := .ok, appState := .allOk, compose := .leaves ["web", "db"], setStarted := .ok }

theorem RunEnv.up_creates : RunEnv.up.Creates ["web", "db"] :=
  ⟨rfl, rfl, rfl, rfl, rfl, ComposeEnv.leaves_creates, rfl⟩

/-- The directory after a fetch and a run. -/
def afterStart : AppDir :=
  (Call.run appV1 .up).exec ((Call.fetch appV1 .allOk).exec (AppDir.initial false))

theorem reaches_afterStart : Reaches Step Call.Succeeds (AppDir.initial false) afterStart :=
  Reaches.snoc (Reaches.snoc .refl (.fetch appV1 .allOk) rfl rfl) (.run appV1 .up) rfl rfl

theorem brings_up_again :
    BringsUp (run appV1 .up) ["web", "db"] afterStart :=
  ((brings_up_iff reaches_afterStart appV1 ["web", "db"]).1 .up RunEnv.up_creates).mpr
    ⟨rfl, fun _ _ hs => hs⟩

/-- The state file still says started, so `run` executes no command. -/
theorem stopped_app_does_not_start :
    ¬ ∀ (d : AppDir) (app : App) (env : RunEnv) (services : List String),
      Reaches Step Call.Succeeds (AppDir.initial false) d → d.root = true →
      env.Creates services → BringsUp (run app env) services d := by
  intro h
  have hrun := Reaches.snoc reaches_afterStart (.stop (.leaves [])) rfl rfl
  have hup := h _ appV1 .up _ hrun rfl RunEnv.up_creates
  exact absurd hup.1 (by decide)

end Engine
end AkLite
