/-
The compose app manager.

The manager keeps two lists between a check and the installation that follows it:
the apps to fetch and start, and the apps that are fetched only.  The check
compares a target's apps with those of the current target and asks the engine
about the rest.  The installation uses the first list as it finds it.

The containers of the source are hash maps.  They are association lists here, in
the order in which the entries are made, and a loop over a container takes this
order.
-/
import AkLite.Client.World

namespace AkLite
namespace Client

open Lib Boot

/-! ## The apps of a target -/

/-- Assignment to a key of a map. -/
def putApp (apps : List App) (name uri : String) : List App :=
  if (apps.lookup name).isSome then apps.map fun a => if a.1 = name then (name, uri) else a
  else apps ++ [(name, uri)]

def Config.enables (cfg : Config) (name : String) : Bool :=
  match cfg.apps with
  | none => true
  | some apps => apps.contains name

/-- A malformed entry is skipped, one whose URI is no string is an exception. -/
def addApp (cfg : Config) (apps : List App) (entry : String × Json) : Except String (List App) :=
  match entry.2 with
  | .obj fields =>
    match fields.lookup "uri" with
    | some uri => do
      let text ← uri.asString
      return if cfg.enables entry.1 then putApp apps entry.1 text else apps
    | none => .ok apps
  | _ => .ok apps

/-- The apps that are both in the target and in the configuration. -/
def getApps (cfg : Config) (custom : Json) : Except String (List App) := do
  (← custom.index "docker_compose_apps").entries.foldlM (addApp cfg) []

/-- The names that are to be kept: the configured apps and the reset apps. -/
def requiredNames (styled : Json → String) (cfg : Config) (custom : Json) :
    Except String (List String) := do
  let targetNames := (targetApps styled custom).map fun apps => apps.map Prod.fst
  let configured ← cfg.apps.elim targetNames pure
  match cfg.resetApps with
  | none => return configured
  | some ["*"] => return configured ++ (← targetNames)
  | some resetApps => return configured ++ resetApps

def addRequired (styled : Json → String) (json : Json) (apps : List App) (name : String) :
    Except String (List App) := do
  if ← json.isMember name then
    let app ← appDesc styled name (← json.index name)
    return putApp apps app.1 app.2
  else return apps

def getRequiredApps (styled : Json → String) (cfg : Config) (custom : Json) :
    Except String (List App) := do
  let json ← appsJson custom
  (← requiredNames styled cfg custom).foldlM (addRequired styled json) []

/-! ## The check -/

/-- What a check meets: the engine's answers, the directories below `apps_root`, and
the value an uninitialised flag happens to have. -/
structure CheckEnv where
  isRunning : App → Except String Bool
  isFetched : App → Except String Bool
  checkAppsToFetch : Bool
  appsRoot : Option (List String)

/-- Why an app is to be updated, if it is. -/
def syncReason (env : CheckEnv) (currentApps : Json) (app : App) :
    Except String (Option String) := do
  let data ← currentApps.index app.1
  if data.isEmpty then return some "new app in target"
  if app.2 ≠ (← (← data.index "uri").asString) then return some "new version in target"
  if !(← env.isRunning app) then return some "not running"
  if !(← env.isFetched app) then return some "not fetched"
  return none

/-- The apps to update with their reasons, and the apps found up to date. -/
def getAppsToUpdate (env : CheckEnv) (currentApps : Json) :
    List App → Except String (List (App × String) × List App)
  | [] => .ok ([], [])
  | app :: rest => do
    let reason ← syncReason env currentApps app
    let (toUpdate, upToDate) ← getAppsToUpdate env currentApps rest
    match reason with
    | some text => return ((app, text) :: toUpdate, upToDate)
    | none => return (toUpdate, app :: upToDate)

/-- The required apps that are neither to be updated, nor known to be fetched, nor
fetched. -/
def appsNotFetched (env : CheckEnv) (checked fetched : List App) :
    List App → Except String (List App)
  | [] => .ok []
  | app :: rest => do
    let skip := (checked.lookup app.1).isSome || (fetched.lookup app.1).isSome
    let isFetched ← if skip then pure true else env.isFetched app
    let others ← appsNotFetched env checked fetched rest
    return if isFetched then others else app :: others

abbrev AppsSyncReason := List (String × String)

/-- What a check finds out about the apps of a target. -/
structure AppsCheck where
  apps : List App
  toUpdate : List App
  upToDate : List App
  reasons : AppsSyncReason

/-- Without `force_update` the apps are compared with those of the current target. -/
def compareApps (cfg : Config) (env : CheckEnv) (currentCustom custom : Json) :
    Except String AppsCheck := do
  if cfg.forceUpdate then
    let apps ← getApps cfg custom
    return { apps := apps, toUpdate := apps, upToDate := []
             reasons := apps.map fun a => (a.1, "forced update") }
  else
    let currentApps ← appsJson currentCustom
    let apps ← getApps cfg custom
    let (toUpdate, upToDate) ← getAppsToUpdate env currentApps apps
    return { apps := apps, toUpdate := toUpdate.map Prod.fst, upToDate := upToDate
             reasons := toUpdate.map fun u => (u.1.1, u.2) }

section Manager

variable {Db : Type} (St : Storage Db) (styled : Json → String) (cfg : Config)

/-- The apps to fetch only, without `reset_apps` those of an earlier check. -/
def getAppsToFetch (env : CheckEnv) (check : AppsCheck) (earlier : List App) (custom : Json) :
    Except String (List App) := do
  if cfg.resetApps.isNone then return earlier
  let enabled ← getRequiredApps styled cfg custom
  let checkStore := if cfg.forceUpdate then env.checkAppsToFetch else true
  if checkStore then appsNotFetched env check.toUpdate check.upToDate enabled else return enabled

def notFetchedReasons (reasons : AppsSyncReason) (apps : List App) : AppsSyncReason :=
  (apps.filter fun a => (reasons.lookup a.1).isNone).map fun a => (a.1, "not fetched (reset apps)")

/-- `checkForAppsToUpdate` leaves its findings for the installation. -/
def checkForAppsToUpdate (env : CheckEnv) (target : Target) : M Db AppsSyncReason := do
  let w ← get
  let check ← orThrow (compareApps cfg env (getCurrent St w).custom target.custom)
  modify fun w => { w with appsToFetchAndUpdate := check.toUpdate }
  record (.appsChecked check.apps check.upToDate)
  let toFetch ← orThrow (getAppsToFetch styled cfg env check w.appsToFetch target.custom)
  modify fun w => { w with appsToFetch := toFetch }
  return check.reasons ++ notFetchedReasons check.reasons toFetch

/-! ## Removed apps -/

/-- The app directories that do not belong to the target. -/
def removedApps (appsRoot : Option (List String)) (custom : Json) : Except String (List String) :=
  match appsRoot with
  | none => .ok []
  | some dirs => do
    let apps ← getApps cfg custom
    return dirs.filter fun name => (apps.lookup name).isNone

/-- The engine keeps the apps of the shortlist only. -/
def prune (shortlist : List App) : M Db Unit := do
  emit (.prune shortlist)
  modify fun w => { w with engineApps := w.engineApps.filter fun a => shortlist.contains a }

def handleRemovedApps (appsRoot : Option (List String)) (target : Target) : M Db Unit := do
  let removed ← orThrow (removedApps cfg appsRoot target.custom)
  modify fun w =>
    { w.emitted (removed.map .remove) with
      engineApps := w.engineApps.filter fun a => !removed.contains a.1 }
  if cfg.dockerPrune && cfg.resetApps.isSome then
    prune (← orThrow (getRequiredApps styled cfg target.custom))

/-! ## Install -/

inductive AppResult where
  | ok
  | failed (err : String)
  | imagePullFailure (err : String)
  deriving DecidableEq, Repr

/-- What an installation meets. -/
structure InstallEnv where
  appsRoot : Option (List String)
  stop : App → Except String Unit
  rootfs : RootfsEnv
  /-- `run`, or `install` if a reboot is needed first. -/
  start : App → Except String AppResult
  runningInfo : Except String String

def stopApps (env : InstallEnv) : List App → M Db Unit
  | [] => pure ()
  | app :: rest => do
    emit (.stop app)
    orThrow (env.stop app)
    stopApps env rest

def installError (app : App) (err : String) : String :=
  "failed to install App; app: " ++ app.1 ++ "; uri: " ++ app.2 ++ "; err: " ++ err

/-- The apps are all tried, and the last failure is the result. -/
def startApps (env : InstallEnv) (justInstall : Bool) :
    List App → InstallationResult → M Db InstallationResult
  | [], res => return res
  | app :: rest, res => do
    emit (if justInstall then .install app else .run app)
    match ← orThrow (env.start app) with
    | .ok =>
      if !justInstall then record (.appStarted app)
      startApps env justInstall rest { res with description := res.description ++ "\n" ++ app.2 }
    | .failed err =>
      startApps env justInstall rest
        { code := .kInstallFailed, description := installError app err }
    | .imagePullFailure err =>
      startApps env justInstall rest
        { code := .kDownloadFailed, description := installError app err }

def withRunningApps (env : InstallEnv) (res : InstallationResult) : M Db InstallationResult := do
  let info ← orThrow env.runningInfo
  return { res with description := res.description ++ "\n# Apps running:\n" ++ info }

/-- The apps after the rootfs: they are started, or, if a reboot is needed, their
containers are created.  The flag is that the images may be pruned. -/
def installApps (env : InstallEnv) (res : InstallationResult) :
    M Db (InstallationResult × Bool) := do
  let justInstall := res.code == .kNeedCompletion
  if !justInstall || cfg.createContainersBeforeReboot then
    let apps := (← get).appsToFetchAndUpdate
    let titled := if apps.isEmpty then res.description
      else res.description ++ "\n# Apps installed:"
    return (← startApps env justInstall apps { res with description := titled }, cfg.dockerPrune)
  else
    return ({ res with description := res.description ++
      "\n# Fetched Apps' containers will be created and started after reboot\n" }, false)

/-- The part of `ComposeAppManager::install` after the rootfs.  The lists are cleared. -/
def finishInstall (env : InstallEnv) (target : Target) (res : InstallationResult) :
    M Db InstallationResult := do
  let (res, pruneImages) ← installApps cfg env res
  if res.isSuccess then
    handleRemovedApps styled cfg env.appsRoot target
    if pruneImages then prune (← orThrow (getRequiredApps styled cfg target.custom))
  modify fun w => { w with appsToFetchAndUpdate := [], appsToFetch := [] }
  withRunningApps env res

/-- `ComposeAppManager::install`.  The lists are not cleared if it ends early. -/
def composeInstall (env : InstallEnv) (target : Target) : M Db InstallationResult := do
  let removed ← orThrow (removedApps cfg env.appsRoot target.custom)
  stopApps env (removed.map fun name => (name, ""))
  let currentHash := (getCurrent St (← get)).sha256Hash
  if currentHash ≠ target.sha256Hash ∨ cfg.stopAppsBeforeUpdate = true then
    stopApps env (← get).appsToFetchAndUpdate
  emit (.installRootfs target.sha256Hash)
  let res ← onRootfs (rootfsInstall cfg.rollbackMode cfg.updateBlock currentHash
    target.sha256Hash env.rootfs)
  if res.code = .kInstallFailed then withRunningApps env res
  else finishInstall styled cfg env target res

end Manager

end Client
end AkLite
