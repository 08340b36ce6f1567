/-
Runs of public calls, and the apps of the targets they install.

The list of apps to start is left by the last check, and `pullAndInstall` takes it
for one of its own target.  `rollback` relies on that without a check: it installs an
older target with whatever list is there, and stores it as current although none of
its apps was started or looked at.  `rollback_starts_no_app` is such a run.

`stored_apps_accounted` says that in every run in which each installation follows a
check of its own target's apps, all apps of a target that is stored as current were
started or found up to date.
-/
import AkLite.Client.InstalledVersions
import AkLite.Client.Trace
import AkLite.Lib.Run

namespace AkLite
namespace Client

open Lib Boot

/-! ## Calls -/

inductive Call where
  | getTargetToInstall (ci : CheckInResult) (args : SelectArgs) (env : CheckEnv)
  | checkAppsInSync (env : CheckEnv) (uuid : String)
  | installer (args : InstallerArgs) (env : InstallerEnv)
  | pullAndInstall (args : PullArgs) (env : PullEnv)
  | rollback (isLocal : Bool) (notifyFailed : Except String Unit) (env : PullEnv)
  | download (context : Nat) (env : ContextDownloadEnv)
  | install (context : Nat) (env : ContextInstallEnv)

section Calls

variable {Db : Type} (St : Storage Db) (styled : Json → String) (cfg : Config)

/-- The caller keeps a context that it gets. -/
def keepContext (x : M Db (Option Context)) : M Db Unit := do
  match ← x with
  | some context => modify fun w => { w with contexts := w.contexts ++ [context] }
  | none => return ()

/-- A call of a context that the caller has. -/
def onContext {α : Type} (i : Nat) (f : Context → M Db α) : M Db Unit := do
  match (← get).contexts[i]? with
  | some context =>
    let _ ← f context
  | none => return ()

def perform : Call → M Db Unit
  | .getTargetToInstall ci args env => do
    let _ ← getTargetToInstall St styled cfg ci args env
  | .checkAppsInSync env uuid => keepContext (checkAppsInSync St styled cfg env uuid)
  | .installer args env => keepContext (installer St styled cfg args env)
  | .pullAndInstall args env => do
    let _ ← pullAndInstall St styled cfg args env
  | .rollback isLocal notifyFailed env => do
    let _ ← rollback St styled cfg isLocal notifyFailed env
  | .download i env => onContext i fun context => contextDownload styled cfg context env
  | .install i env => onContext i fun context => contextInstall St styled cfg context env

def CallStep (w : World Db) (c : Call) (w' : World Db) : Prop :=
  w' = after (perform St styled cfg c) w

/-- The target that `rollback` goes to. -/
def rollbackTarget (w : World Db) : Except String TufTarget := do
  let bad ← badTarget St w
  toTufTarget (getRollbackTarget St (getPendingTarget St w).isValid
    (St.save (fromTufTarget bad) .kBadTarget w.db))

/-- The condition on a call: a target is installed after a check of its apps. -/
def CallChecked (w : World Db) : Call → Prop
  | .pullAndInstall args _ => CheckedFor cfg args.target.custom w
  | .rollback _ _ _ => ∀ target, rollbackTarget St w = .ok target → CheckedFor cfg target.custom w
  | .install i _ => ∀ context, w.contexts[i]? = some context →
    CheckedFor cfg context.target.custom w
  | _ => True

end Calls

section Proofs

variable {Db : Type} {St : Storage Db} {styled : Json → String} {cfg : Config} {w w' : World Db}

/-! ## The custom data of an installation -/

/-- The note for the finalization is all that is added to the custom data. -/
theorem index_withInstallContext {custom custom' : Json} {apps : List App} {key : String}
    (hkey : key ≠ "install-context") (h : withInstallContext custom apps = .ok custom') :
    custom'.index key = custom.index key := by
  unfold withInstallContext at h
  split at h
  · cases h
    rfl
  · obtain ⟨⟨touched, context⟩, htouch, h⟩ := bind_eq_ok.mp h
    obtain ⟨context', _, h⟩ := bind_eq_ok.mp h
    rw [Json.index_insert_of_ne h hkey, Json.index_touch htouch]

theorem appsJson_withInstallContext {custom custom' : Json} {apps : List App}
    (h : withInstallContext custom apps = .ok custom') : appsJson custom' = appsJson custom :=
  index_withInstallContext (by decide) h

theorem CheckedFor.installTarget {context : Context} {target : Target}
    (h : CheckedFor cfg context.target.custom w)
    (htarget : installTarget styled cfg context = .ok target) :
    CheckedFor cfg target.custom w := by
  obtain ⟨required, _, htarget⟩ := bind_eq_ok.mp htarget
  obtain ⟨custom, hcustom, htarget⟩ := bind_eq_ok.mp htarget
  cases htarget
  have happs : getApps cfg custom = getApps cfg context.target.custom := by
    have hjson := appsJson_withInstallContext hcustom
    unfold appsJson at hjson
    rw [getApps, getApps, hjson]
  intro apps hget
  exact h apps (happs ▸ hget)

/-! ## Frames -/

section Frames

variable {F : Frame (World Db)}

theorem within_onContext {α : Type} {i : Nat} {f : Context → M Db α}
    (hf : ∀ context, Within F (f context)) : Within F (onContext i f) := by
  refine .bind .get fun w => ?_
  cases w.contexts[i]? with
  | none => exact .pure _
  | some context => exact .bind (hf context) fun _ => .pure _

variable (hF : CallFrame St styled cfg F)

include hF

theorem within_keepContext {x : M Db (Option Context)} (hx : Within F x) :
    Within F (keepContext x) := by
  refine .bind hx fun context? => ?_
  cases context? with
  | none => exact .pure _
  | some context => exact .modify fun w => hF.contexts w _

/-- A frame that allows every change of the calls allows the calls.  A rollback stores
targets of its own, and is left to the caller. -/
theorem within_perform
    (hrollback : ∀ isLocal notifyFailed env,
      Within F (rollback St styled cfg isLocal notifyFailed env))
    (call : Call) : Within F (perform St styled cfg call) := by
  cases call with
  | getTargetToInstall ci args env =>
    exact .bind (within_getTargetToInstall hF.toCheckFrame _ _ _) fun _ => .pure _
  | checkAppsInSync env uuid =>
    refine within_keepContext hF (.bind .get fun _ => .bind (.orThrow _) fun _ => ?_)
    refine .bind (within_checkAndSet hF.toCheckFrame _ _ _) fun _ => .ite (.pure _) (.pure _)
  | installer args env => exact within_keepContext hF (within_installer hF.toCheckFrame _ _)
  | pullAndInstall args env => exact .bind (within_pullAndInstall hF _ _) fun _ => .pure _
  | rollback isLocal notifyFailed env => exact .bind (hrollback _ _ _) fun _ => .pure _
  | download i env =>
    exact within_onContext fun _ => within_contextDownload hF.toDownloadFrame _ _
  | install i env => exact within_onContext fun _ => within_contextInstall hF.toUpdateFrame _ _

end Frames

/-! ## What each call keeps -/

theorem Accounted.engineOnly (h : Accounted cfg w) (he : EngineOnly w w') : Accounted cfg w' :=
  h.congr he.trace he.appsToFetchAndUpdate

theorem Accounted.checkEffect {env : CheckEnv} {target : TufTarget} (h : Accounted cfg w)
    (he : CheckEffect St styled cfg env target w w') : Accounted cfg w' := by
  rcases he.lists with ⟨hlist, htrace⟩ | hcompared
  · exact h.congr htrace hlist
  · exact (h.compared hcompared).1

theorem Accounted.installerEffect {args : InstallerArgs} {env : InstallerEnv}
    (h : Accounted cfg w) (he : InstallerEffect St cfg args env w w') : Accounted cfg w' := by
  rcases he.lists with ⟨hlist, htrace⟩ | ⟨t, _, hcompared⟩
  · exact h.congr htrace hlist
  · exact (h.compared hcompared).1

/-- A check made for the target, now or before, is one for it. -/
theorem CheckedFor.installerEffect {args : InstallerArgs} {env : InstallerEnv}
    (h : CheckedFor cfg args.target.custom w) (haccounted : Accounted cfg w)
    (he : InstallerEffect St cfg args env w w') : CheckedFor cfg args.target.custom w' := by
  rcases he.lists with ⟨_, htrace⟩ | ⟨t, hcustom, hcompared⟩
  · exact h.congr htrace
  · exact hcustom ▸ (haccounted.compared hcompared).2

theorem accounted_contextInstall (hp : cfg.pacman = .compose) {context : Context}
    {env : ContextInstallEnv} (h : Accounted cfg w)
    (hchecked : CheckedFor cfg context.target.custom w) :
    wp (contextInstall St styled cfg context env) (fun _ w' => Accounted cfg w')
      (fun _ w' => Accounted cfg w') w :=
  contextInstall_rule (fun _ _ _ => h)
    (fun _ _ _ hin => accounted_clientInstall hp h (hchecked.installTarget hin.2)) (fun _ _ => h)

/-- The rollback of a failed installation checks the apps itself. -/
theorem accounted_rollBackTo (hp : cfg.pacman = .compose) {current : TufTarget} {args : PullArgs}
    {env : PullEnv} {failure : InstallResult} (h : Accounted cfg w) :
    wp (rollBackTo St styled cfg current args env failure) (fun _ w' => Accounted cfg w')
      (fun _ w' => Accounted cfg w') w := by
  rw [rollBackTo, wp_bind]
  refine wp_installer (fun v he => h.installerEffect he) (fun context v hmade he hcompared => ?_)
    (fun _ v he => h.installerEffect he)
  obtain ⟨t, hcustom, hcompared⟩ := hcompared rfl hp
  obtain ⟨hv, hchecked⟩ := h.compared hcompared
  dsimp only
  rw [wp_bind]
  refine wp_mono (accounted_contextInstall hp hv ?_) (fun _ _ h => h) (fun _ _ h => h)
  rw [hmade.custom, ← hcustom]
  exact hchecked

theorem accounted_pullAndInstall (hp : cfg.pacman = .compose) {args : PullArgs} {env : PullEnv}
    (h : Accounted cfg w) (hchecked : CheckedFor cfg args.target.custom w) :
    wp (pullAndInstall St styled cfg args env) (fun _ w' => Accounted cfg w')
      (fun _ w' => Accounted cfg w') w := by
  rw [pullAndInstall, wp_bind, wp_get, wp_ite]
  split
  · exact h
  rw [wp_bind, wp_get, wp_bind, wp_orThrow]
  cases currentTufTarget St w with
  | error e => exact h
  | ok current =>
    dsimp only
    rw [wp_bind, wp_get, wp_ite]
    split
    · rw [wp_bind, wp_orThrow]
      cases env.notifyNoSpace with
      | error e => exact h
      | ok _ => exact h
    have h' : Accounted cfg { w with noSpace := .none } := h.congr rfl rfl
    rw [wp_bind, wp_modify, wp_bind]
    refine wp_installer (fun v he => h'.installerEffect he) (fun context v hmade he _ => ?_)
      (fun _ v he => h'.installerEffect he)
    have hv := h'.installerEffect he
    have hinstaller : CheckedFor cfg args.installer.target.custom { w with noSpace := .none } :=
      hchecked.congr rfl
    have hvchecked : CheckedFor cfg args.target.custom v := hinstaller.installerEffect h' he
    dsimp only
    rw [wp_bind]
    refine wp_mono (engineProgram_downloadFirst context args env v v (.refl v))
      (fun result u hu => ?_) (fun _ u hu => hv.engineOnly hu)
    have hu' := hv.engineOnly hu
    cases result with
    | some result => exact hu'
    | none =>
      dsimp only
      rw [installOrRollBack, wp_bind]
      have hcontext : CheckedFor cfg context.target.custom u := by
        rw [hmade.custom]
        exact hvchecked.congr hu.trace
      refine wp_mono (accounted_contextInstall hp hu' hcontext) (fun r t ht => ?_) (fun _ _ h => h)
      rw [wp_ite]
      split
      · exact accounted_rollBackTo hp ht
      · exact ht

theorem accounted_rollback (hp : cfg.pacman = .compose) {isLocal : Bool}
    {notifyFailed : Except String Unit} {env : PullEnv} (h : Accounted cfg w)
    (hchecked : ∀ target, rollbackTarget St w = .ok target → CheckedFor cfg target.custom w) :
    wp (rollback St styled cfg isLocal notifyFailed env) (fun _ w' => Accounted cfg w')
      (fun _ w' => Accounted cfg w') w := by
  rw [rollback, wp_bind, wp_get, wp_bind, wp_get, wp_bind, wp_orThrow]
  cases hbad : badTarget St w with
  | error e => exact h
  | ok bad =>
    dsimp only
    have hmarked : Accounted cfg { w with
        db := St.save (fromTufTarget bad) .kBadTarget w.db
        trace := .stored (fromTufTarget bad) .kBadTarget :: w.trace } := h.quiet rfl rfl rfl
    rw [wp_bind, wp_saveInstalledVersion, wp_bind, wp_get, wp_bind, wp_orThrow]
    dsimp only
    cases htarget : toTufTarget (getRollbackTarget St (getPendingTarget St w).isValid
        (St.save (fromTufTarget bad) .kBadTarget w.db)) with
    | error e => exact hmarked
    | ok target =>
      have hrollback : rollbackTarget St w = .ok target := by
        rw [rollbackTarget, hbad]
        exact htarget
      have htchecked := hchecked target hrollback
      dsimp only
      rw [wp_ite]
      split
      · exact hmarked
      cases (getPendingTarget St w).isValid with
      | false => exact accounted_pullAndInstall hp hmarked htchecked
      | true =>
        simp only [if_true, wp_bind, wp_saveInstalledVersion]
        refine wp_notifyInstallFinished (fun _ => hmarked.quiet rfl rfl rfl) fun _ => ?_
        exact accounted_pullAndInstall hp (hmarked.quiet rfl rfl rfl) htchecked

theorem accounted_keepContext {x : M Db (Option Context)}
    (hx : wp x (fun _ w' => Accounted cfg w') (fun _ w' => Accounted cfg w') w) :
    wp (keepContext x) (fun _ w' => Accounted cfg w') (fun _ w' => Accounted cfg w') w := by
  rw [keepContext, wp_bind]
  refine wp_mono hx (fun context v hv => ?_) (fun _ _ h => h)
  cases context with
  | none => exact hv
  | some context => exact hv.congr rfl rfl

theorem accounted_onContext {α : Type} {i : Nat} {f : Context → M Db α} (h : Accounted cfg w)
    (hf : ∀ context, w.contexts[i]? = some context →
      wp (f context) (fun _ w' => Accounted cfg w') (fun _ w' => Accounted cfg w') w) :
    wp (onContext i f) (fun _ w' => Accounted cfg w') (fun _ w' => Accounted cfg w') w := by
  rw [onContext, wp_bind, wp_get]
  cases hcontext : w.contexts[i]? with
  | none => exact h
  | some context =>
    dsimp only
    rw [wp_bind]
    exact wp_mono (hf context hcontext) (fun _ _ h => h) (fun _ _ h => h)

/-- One call keeps the invariant. -/
theorem accounted_step (hp : cfg.pacman = .compose) {c : Call} (h : Accounted cfg w)
    (hc : CallChecked St cfg w c) (hstep : CallStep St styled cfg w c w') : Accounted cfg w' := by
  rw [hstep]
  refine after_of_wp (P := fun v : World Db => Accounted cfg v) ?_
  cases c with
  | getTargetToInstall ci args env =>
    rw [perform, wp_bind]
    exact getTargetToInstall_keeps h (fun _ _ he => h.checkEffect he)
      (fun v err hv => hv.quiet rfl rfl rfl)
  | checkAppsInSync env uuid =>
    refine accounted_keepContext ?_
    rw [checkAppsInSync, wp_bind, wp_get, wp_bind, wp_orThrow]
    cases currentTufTarget St w with
    | error e => exact h
    | ok current =>
      dsimp only
      rw [wp_bind]
      refine wp_checkAndSet (fun apps v hv _ _ => ?_) (fun _ v hv _ => h.checkEffect hv)
      rw [wp_ite]
      split
      · exact h.checkEffect hv
      · exact h.checkEffect hv
  | installer args env =>
    exact accounted_keepContext (wp_installer (fun _ he => h.installerEffect he)
      (fun _ _ _ he _ => h.installerEffect he) (fun _ _ he => h.installerEffect he))
  | pullAndInstall args env =>
    rw [perform, wp_bind]
    exact accounted_pullAndInstall hp h hc
  | rollback isLocal notifyFailed env =>
    rw [perform, wp_bind]
    exact accounted_rollback hp h hc
  | download i env =>
    refine accounted_onContext h fun context _ => ?_
    exact wp_mono (engineProgram_contextDownload context env w w (.refl w))
      (fun _ _ he => h.engineOnly he) (fun _ _ he => h.engineOnly he)
  | install i env =>
    exact accounted_onContext h fun context hcontext =>
      accounted_contextInstall hp h (hc context hcontext)

/-! ## Apps that are up to date -/

/-- The current target has the app with the same URI, and it is running and fetched. -/
def UpToDate (env : CheckEnv) (currentCustom : Json) (app : App) : Prop :=
  (∃ apps data uri, appsJson currentCustom = .ok apps ∧ apps.index app.1 = .ok data ∧
    data.index "uri" = .ok uri ∧ uri.asString = .ok app.2) ∧
  env.isRunning app = .ok true ∧ env.isFetched app = .ok true

theorem upToDate_of_syncReason {env : CheckEnv} {currentCustom apps : Json} {app : App}
    (happs : appsJson currentCustom = .ok apps) (h : syncReason env apps app = .ok none) :
    UpToDate env currentCustom app := by
  obtain ⟨data, hdata, h⟩ := bind_eq_ok.mp h
  split at h
  · cases h
  obtain ⟨uri, huri, h⟩ := bind_eq_ok.mp h
  obtain ⟨text, htext, h⟩ := bind_eq_ok.mp h
  split at h
  · cases h
  next hsame =>
  obtain ⟨running, hrunning, h⟩ := bind_eq_ok.mp h
  cases running with
  | false => cases h
  | true =>
    obtain ⟨fetched, hfetched, h⟩ := bind_eq_ok.mp h
    cases fetched with
    | false => cases h
    | true =>
      rw [not_not] at hsame
      exact ⟨⟨apps, data, uri, happs, hdata, huri, hsame ▸ htext⟩, hrunning, hfetched⟩

theorem upToDate_of_compareApps {env : CheckEnv} {currentCustom custom : Json} {c : AppsCheck}
    (h : compareApps cfg env currentCustom custom = .ok c) :
    ∀ app ∈ c.upToDate, UpToDate env currentCustom app := by
  intro app happ
  obtain ⟨_, hcurrent, hreason⟩ := (compareApps_splits h).2.checked app happ
  exact upToDate_of_syncReason hcurrent hreason

end Proofs

/-- Along every run of calls in which a target is installed after a check of its own
apps, every target that is stored as current has had each of its apps started by that
installation, or found up to date by such a check since the installation before.  What
a check lists as up to date has an unchanged URI, is running and is fetched. -/
theorem stored_apps_accounted {Db : Type} (St : Storage Db) (styled : Json → String)
    (cfg : Config) (hp : cfg.pacman = .compose) :
    (∀ w w' : World Db, w.trace = [] →
      Reaches (CallStep St styled cfg) (CallChecked St cfg) w w' →
      ∀ later target earlier, w'.trace = later ++ .stored target .kCurrent :: earlier →
        AppsAccounted cfg target earlier) ∧
    ∀ env currentCustom custom c, compareApps cfg env currentCustom custom = .ok c →
      ∀ app ∈ c.upToDate, UpToDate env currentCustom app := by
  refine ⟨fun w w' hstart hrun => ?_, fun _ _ _ _ h => upToDate_of_compareApps h⟩
  have hnone : Accounted cfg w := by
    refine ⟨fun later target earlier h => ?_, fun apps upToDate h => ?_⟩
    · rw [hstart] at h
      exact absurd h (by simp)
    · rw [hstart] at h
      cases h
  exact (Reaches.invariant (Accounted cfg)
    (fun _ _ _ h hc hstep => accounted_step hp h hc hstep) hnone hrun).stores

/-! ## Devices -/

/-- A target that changes the app of the initial one and nothing else. -/
def appUpdate : TufTarget :=
  { name := "board-lmp-2", sha256Hash := "aa", version := 2, custom := webCustom "2" "web@2" }

def appUpdateCheckIn : CheckInResult :=
  { status := .ok, primaryHwid := "board", targets := [appUpdate] }

def startedDevice : World InstalledVersions :=
  .started { rows := [{ target := factoryTarget, wasInstalled := true }],
             current := some factoryTarget, pending := none } { booted := "aa", pending := "" }

def findUpdate : Call := .getTargetToInstall appUpdateCheckIn (.daemon false) .allRunning

def installUpdate : Call :=
  .pullAndInstall
    { target := appUpdate, reason := "", correlationId := "", mode := .all, isLocal := false,
      doDownload := true, doInstall := true, requireInTuf := true } (.succeeds [appUpdate])

def updatedDevice : World InstalledVersions :=
  after (perform installedVersions (fun _ => "") deviceConfig installUpdate)
    (after (perform installedVersions (fun _ => "") deviceConfig findUpdate) startedDevice)

/-- The update of the app is found and installed, and the app was started. -/
theorem stored_apps_accounted_update :
    ∃ target earlier, updatedDevice.trace = .stored target .kCurrent :: earlier ∧
      getApps deviceConfig target.custom = .ok [("web", "web@2")] ∧
      AppsAccounted deviceConfig target earlier := by
  have hrun : Reaches (CallStep installedVersions (fun _ => "") deviceConfig)
      (CallChecked installedVersions deviceConfig) startedDevice updatedDevice := by
    refine Reaches.snoc (Reaches.snoc .refl findUpdate trivial rfl) installUpdate ?_ rfl
    intro apps happs
    cases happs
    exact ⟨_, rfl⟩
  refine ⟨_, _, rfl, rfl, ?_⟩
  exact (stored_apps_accounted installedVersions (fun _ => "") deviceConfig rfl).1 startedDevice
    updatedDevice rfl hrun [] _ _ rfl

/-- A device that has gone from one app version to the next. -/
def rollbackDevice : World InstalledVersions :=
  let previous : Target :=
    { filename := "board-lmp-1", sha256Hash := "aa", custom := webCustom "1" "web@1",
      correlationId := "", isValid := true }
  .started { rows := [{ target := previous, wasInstalled := true },
                      { target := fromTufTarget appUpdate, wasInstalled := true }],
             current := some (fromTufTarget appUpdate), pending := none }
    { booted := "aa", pending := "" }

def previousTarget : TufTarget :=
  { name := "board-lmp-1", sha256Hash := "aa", version := 1, custom := webCustom "1" "web@1" }

def revertedDevice : World InstalledVersions :=
  after (perform installedVersions (fun _ => "") deviceConfig
    (.rollback false (.ok ()) (.succeeds [previousTarget]))) rollbackDevice

def storedPrevious : Target :=
  { filename := "board-lmp-1", sha256Hash := "aa", correlationId := "1-uuid", isValid := true
    custom := .obj [("version", .str "1"), ("hardwareIds", .arr [.str "board"]),
      ("docker_compose_apps", .obj [("web", .obj [("uri", .str "web@1")])]),
      ("install-context", .obj [("apps", .obj [("web", .str "web@1")])])] }

/-- The rollback stores the previous target as current, and its app was neither started
nor looked at. -/
theorem rollback_starts_no_app :
    ∃ w' target earlier, CallStep installedVersions (fun _ => "") deviceConfig rollbackDevice
        (.rollback false (.ok ()) (.succeeds [previousTarget])) w' ∧
      w'.trace = .stored target .kCurrent :: earlier ∧
      ¬ AppsAccounted deviceConfig target earlier := by
  refine ⟨revertedDevice, storedPrevious, [.installStarted storedPrevious,
    .stored (fromTufTarget appUpdate) .kBadTarget], rfl, by decide +kernel, fun h => ?_⟩
  rcases h [("web", "web@1")] rfl ("web", "web@1") List.mem_cons_self with h | ⟨up, h, _⟩
  · cases h
  · cases List.mem_singleton.mp h

end Client
end AkLite
