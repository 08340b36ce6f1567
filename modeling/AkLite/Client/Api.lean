/-
The public API.

`getTargetToInstall` decides what is to be installed.  Its decision, `planTarget`,
only reads; what follows is one app check, which leaves the app lists for the
installation.  `installer` finds a target among the trusted ones and makes a
context, whose `contextDownload` and `contextInstall` do the update.
`pullAndInstall` runs the whole update and goes back to the current target if the
installation fails.  `rollback` marks a target as failing and installs the last
good one.
-/
import AkLite.Client.LiteClient

namespace AkLite
namespace Client

open Lib Boot

/-! ## Check-in results -/

inductive CheckInStatus where
  | ok
  | okCached
  | failed
  | noMatchingTargets
  | noTargetContent
  | securityError
  | expiredMetadata
  | metadataFetchFailure
  | metadataNotFound
  | bundleMetadataError
  deriving DecidableEq, Repr

structure CheckInResult where
  status : CheckInStatus
  primaryHwid : String
  targets : List TufTarget

def CheckInResult.good (ci : CheckInResult) : Bool := ci.status == .ok || ci.status == .okCached

/-- The first element that passes a test that can throw. -/
def firstWhere {α : Type} (p : α → Except String Bool) : List α → Except String (Option α)
  | [] => .ok none
  | a :: rest => do if ← p a then return some a else firstWhere p rest

/-- A test that does not throw. -/
theorem firstWhere_eq_find {α : Type} {p : α → Except String Bool} {q : α → Bool} {xs : List α}
    (h : ∀ a ∈ xs, p a = .ok (q a)) : firstWhere p xs = .ok (xs.find? q) := by
  induction xs with
  | nil => rfl
  | cons x rest ih =>
    rw [firstWhere, h x List.mem_cons_self, List.find?_cons]
    cases q x with
    | true => rfl
    | false => exact ih fun a ha => h a (List.mem_cons_of_mem _ ha)

/-- No hardware ID is the primary's. -/
def hwidOf (ci : CheckInResult) (hwid : String) : String :=
  if hwid = "" then ci.primaryHwid else hwid

/-- `SelectTarget`.  Version minus one without a name is the latest target. -/
def selectTargetFor (ci : CheckInResult) (version : Int) (name hwid : String) :
    Except String TufTarget :=
  do
    let found ←
      if version = -1 ∧ name = "" then
        firstWhere (fun t => do return (← t.hardwareId) == hwidOf ci hwid) ci.targets.reverse
      else
        firstWhere
          (fun t => do
            if t.version = version ∨ t.name = name then return (← t.hardwareId) == hwidOf ci hwid
            else return false)
          ci.targets
    return found.getD .unknown

/-- `SelectTarget` without its last argument, which is empty by default. -/
def selectTarget (ci : CheckInResult) (version : Int) (name : String) : Except String TufTarget :=
  selectTargetFor ci version name ""

/-! ## Target selection -/

inductive SelectStatus where
  | badCheckinStatus
  | tufTargetNotFound
  | rollbackTargetNotFound
  | badRollbackTarget
  | targetAlreadyInstalled
  | noUpdate
  | updateNewVersion
  | updateSyncApps
  | updateRollback
  deriving DecidableEq, Repr

structure SelectResult where
  status : SelectStatus
  selected : TufTarget
  reason : String

structure SelectArgs where
  version : Int
  name : String
  allowBadTarget : Bool
  forceAppsSync : Bool
  offlineMode : Bool
  autoDowngrade : Bool
  deriving DecidableEq, Repr

/-- The arguments of the daemon, but for the default that is set at build time. -/
def SelectArgs.daemon (autoDowngrade : Bool) : SelectArgs :=
  { version := -1, name := "", allowBadTarget := false, forceAppsSync := false,
    offlineMode := false, autoDowngrade := autoDowngrade }

/-- What is decided before the apps are checked. -/
inductive Plan where
  | done (result : SelectResult) (err : String)
  | update (candidate current : TufTarget) (isRollback : Bool)
  | sync (candidate current : TufTarget)

def Plan.failed (status : SelectStatus) (err : String) : Plan :=
  .done { status := status, selected := .unknown, reason := err } err

section Api

variable {Db : Type} (St : Storage Db) (styled : Json → String) (cfg : Config)

def currentTufTarget (w : World Db) : Except String TufTarget := toTufTarget (getCurrent St w)

/-- The candidate and whether it is one to roll back to.  A failing current target
is replaced by the last good one. -/
def chooseCandidate (candidate current : TufTarget) (db : Db) :
    Except String (Option (TufTarget × Bool)) := do
  if isRollback St current.name db && current.name == candidate.name then
    let target ← toTufTarget (getRollbackTarget St true db)
    return if target.isUnknown then none else some (target, true)
  else return some (candidate, false)

def noRollbackTarget (current : TufTarget) : String :=
  "Failed to find Target to rollback to after a failure to start Apps at boot on a new version " ++
    "of sysroot; failing current Target: " ++ current.name ++ ", hash: " ++ current.sha256Hash

def badRollback (candidate current : TufTarget) : String :=
  "A bad target (" ++ candidate.name ++ ") was selected for rollback of " ++ current.name ++
    ". This should not happen"

def planTarget (ci : CheckInResult) (args : SelectArgs) (w : World Db) : Except String Plan := do
  if !ci.good then
    return .failed .badCheckinStatus "Can't select target to install using a failed check-in result"
  let candidate ← selectTarget ci args.version args.name
  if candidate.isUnknown then return .failed .tufTargetNotFound "No matching target"
  let current ← currentTufTarget St w
  if !args.autoDowngrade && args.version == -1 && args.name == "" &&
      decide (candidate.version < current.version) then
    return .done { status := .noUpdate, selected := .unknown, reason := "" } ""
  match ← chooseCandidate St candidate current w.db with
  | none => return .failed .rollbackTargetNotFound (noRollbackTarget current)
  | some (candidate, rollbackOperation) =>
    let isBad := isRollback St candidate.name w.db
    if rollbackOperation && isBad then
      return .failed .badRollbackTarget (badRollback candidate current)
    if candidate.name != current.name && (!isBad || args.allowBadTarget) then
      return .update candidate current rollbackOperation
    else return .sync candidate current

def notifyTufUpdateFinished (err : String) : M Db Unit :=
  if cfg.invokePostCbAtCheckin then pure () else record (.tufUpdateFinished err)

def updateReason (candidate current : TufTarget) (isRollback : Bool) : String :=
  (if isRollback then "Rolling back" else "Updating") ++ " from " ++ current.name ++ " to " ++
    candidate.name

/-- The target that the apps are synchronised with: the listed target of the current
version, or else the current target. -/
def syncTarget (ci : CheckInResult) (current : TufTarget) : Except String TufTarget := do
  let selected ← selectTarget ci current.version ""
  return if selected.isUnknown then current else selected

def syncReasons (reason : String) (apps : AppsSyncReason) : String :=
  reason ++ String.join (apps.map fun a => "- " ++ a.1 ++ ": " ++ a.2 ++ "\n")

/-- `GetTargetToInstall`. -/
def getTargetToInstall (ci : CheckInResult) (args : SelectArgs) (env : CheckEnv) :
    M Db SelectResult := do
  match ← orThrow (planTarget St ci args (← get)) with
  | .done result err =>
    notifyTufUpdateFinished cfg err
    return result
  | .update candidate current rollbackOperation =>
    let (_, reason) ← checkAndSetAppsForUpdate St styled cfg env candidate
      (updateReason candidate current rollbackOperation)
    notifyTufUpdateFinished cfg ""
    let status := if rollbackOperation then .updateRollback else .updateNewVersion
    return { status := status, selected := candidate, reason := reason }
  | .sync _ current =>
    let (apps, reason) ← checkAndSetAppsForUpdate St styled cfg env current
      "Syncing Active Target Apps"
    if args.forceAppsSync || !apps.isEmpty then
      let selected ← orThrow (syncTarget ci current)
      notifyTufUpdateFinished cfg ""
      return { status := .updateSyncApps, selected := selected, reason := syncReasons reason apps }
    else
      notifyTufUpdateFinished cfg ""
      let status := if args.offlineMode then .targetAlreadyInstalled else .noUpdate
      return { status := status, selected := .unknown, reason := reason }

/-! ## Contexts -/

structure InstallerEnv where
  checkMeta : Except String Unit
  tufTargets : Except String (List TufTarget)
  uuid : String
  check : CheckEnv
  /-- Opening the sysroot and the storage for a local update. -/
  openLocal : Except String Unit

/-- `TufTarget::operator==`. -/
def sameTarget (t u : TufTarget) : Except String Bool := do
  if t.name ≠ u.name ∨ t.sha256Hash ≠ u.sha256Hash ∨ t.version ≠ u.version then return false
  return (← appsJson t.custom) == (← appsJson u.custom)

/-- A local update does not compare the apps. -/
def matchesTarget (isLocal : Bool) (t u : TufTarget) : Except String Bool :=
  if isLocal then
    .ok (t.name == u.name && t.sha256Hash == u.sha256Hash && t.version == u.version)
  else sameTarget t u

def localSrcDirKey : String := "local-src-dir"

/-- The target is one of the TUF targets, or it was installed before and may be
missing there. -/
def isTrusted (env : InstallerEnv) (t : TufTarget) (isLocal requireInTuf : Bool) (db : Db) :
    Except String Bool := do
  env.checkMeta
  match ← firstWhere (fun tt => matchesTarget isLocal tt t) (← env.tufTargets) with
  | some _ => return true
  | none =>
    let target := fromTufTarget t
    return (!requireInTuf || target.isInitial) && wasTargetInstalled St target db

def makeCorrelationId (env : InstallerEnv) (t : TufTarget) (correlationId : String) : String :=
  if correlationId = "" then toString t.version ++ "-" ++ env.uuid else correlationId

structure InstallerArgs where
  target : TufTarget
  reason : String
  correlationId : String
  mode : InstallMode
  isLocal : Bool
  requireInTuf : Bool
  areAppsChecked : Bool

/-- The context of a target, for a local update after the sysroot and the storage are
open. -/
def openContext (args : InstallerArgs) (env : InstallerEnv) (target : Target) (reason : String) :
    M Db (Option Context) := do
  let context := { target := target, reason := reason, mode := args.mode, isLocal := args.isLocal }
  if args.isLocal then
    if !(← orThrow (args.target.custom.isMember localSrcDirKey)) then return none
    orThrow env.openLocal
    if cfg.pacman = .compose ∧ cfg.resetApps.isNone then throw "Invalid app engine type"
  return some context

/-- `Installer`. -/
def installer (args : InstallerArgs) (env : InstallerEnv) : M Db (Option Context) := do
  if cfg.readOnly then throw "Can't perform this operation from read-only mode"
  if !(← orThrow (isTrusted St env args.target args.isLocal args.requireInTuf (← get).db)) then
    return none
  let correlationId := makeCorrelationId env args.target args.correlationId
  if correlationId.utf8ByteSize > 63 then throw "Correlation ID's must be less than 64 bytes"
  let target := { fromTufTarget args.target with correlationId := correlationId }
  if args.areAppsChecked then openContext cfg args env target args.reason
  else
    let tufTarget ← orThrow (toTufTarget target)
    let checked ← checkAndSetAppsForUpdate St styled cfg env.check tufTarget args.reason
    openContext cfg args env target checked.2

/-- `CheckAppsInSync`. -/
def checkAppsInSync (env : CheckEnv) (uuid : String) : M Db (Option Context) := do
  let current ← orThrow (currentTufTarget St (← get))
  let (apps, reason) ← checkAndSetAppsForUpdate St styled cfg env current "Sync active target apps"
  if apps.isEmpty then return none
  let correlationId := toString current.version ++ "-" ++ uuid
  return some { target := { fromTufTarget current with correlationId := correlationId }
                reason := reason, mode := .all, isLocal := false }

structure ContextDownloadEnv where
  client : DownloadEnv
  verify : VerifyEnv
  notifyInvalid : Except String Unit
  /-- The offline downloader is a package manager of its own. -/
  offline : Except String DownloadResult

/-- Logging a target walks its apps, and a malformed one is an exception. -/
def logTarget (target : Target) : M Db Unit := do
  let _ ← orThrow (targetApps styled target.custom)

/-- `LiteInstall::Download` and `LocalLiteInstall::Download`. -/
def contextDownload (context : Context) (env : ContextDownloadEnv) : M Db DownloadResult := do
  logTarget styled context.target
  if context.isLocal then
    let res ← orThrow env.offline
    return { res with stat := .empty }
  let res ← clientDownload cfg env.client context.target
  if res.status ≠ .ok then return res
  if (← verifyTarget cfg env.verify) ≠ .kGood then
    orThrow env.notifyInvalid
    return .of .verificationFailed "Downloaded target is invalid"
  return .of .ok ""

inductive InstallStatus where
  | ok
  | okBootFwNeedsCompletion
  | needsCompletion
  | appsNeedCompletion
  | bootFwNeedsCompletion
  | failed
  | downloadFailed
  | downloadOstreeFailed
  | verificationFailed
  | noSpace
  | installationInProgress
  | installRollbackFailed
  | installRollbackOk
  | unknownError
  deriving DecidableEq, Repr

structure InstallResult where
  status : InstallStatus
  description : String
  deriving DecidableEq, Repr

structure ContextInstallEnv where
  verify : VerifyEnv
  client : ClientInstallEnv

/-- The custom data with the list of apps that the installation is made for. -/
def withInstallContext (custom : Json) (apps : List App) : Except String Json := do
  if apps.isEmpty then return custom
  let (custom, context) ← custom.touch "install-context"
  let context ← context.insert "apps" (.obj (apps.map fun a => (a.1, .str a.2)))
  custom.insert "install-context" context

/-- The status of an installation by its result code. -/
def installStatus (target : Target) (code : ResultCode) (w : World Db) : InstallStatus :=
  match code with
  | .kNeedCompletion =>
    if target.sha256Hash = (getPendingTarget St w).sha256Hash then
      if (getCurrent St w).sha256Hash = target.sha256Hash then .appsNeedCompletion
      else .needsCompletion
    else .bootFwNeedsCompletion
  | .kOk => .ok
  | .kDownloadFailed => .downloadFailed
  | _ => .failed

/-- `LiteInstall::Install`. -/
def contextInstall (context : Context) (env : ContextInstallEnv) : M Db InstallResult := do
  logTarget styled context.target
  if (← verifyTarget cfg env.verify) ≠ .kGood then
    return { status := .downloadFailed
             description := "Target verification failed, it may not have been pulled" }
  let required ← orThrow (getRequiredApps styled cfg context.target.custom)
  let custom ← orThrow (withInstallContext context.target.custom required)
  let target := { context.target with custom := custom }
  let res ← clientInstall St styled cfg env.client target context.mode
  return { status := installStatus St target res.code (← get), description := res.description }

/-! ## The whole update -/

structure PullArgs where
  target : TufTarget
  reason : String
  correlationId : String
  mode : InstallMode
  isLocal : Bool
  doDownload : Bool
  doInstall : Bool
  requireInTuf : Bool

structure PullEnv where
  /-- The storage statistic at the path of the last failure, and its text. -/
  usage : UsageInfo
  usageText : String
  notifyNoSpace : Except String Unit
  installer : InstallerEnv
  download : ContextDownloadEnv
  install : ContextInstallEnv
  rollbackInstaller : InstallerEnv
  rollbackInstall : ContextInstallEnv

/-- The last download of this commit had no space, and there is still not enough. -/
def stillNoSpace (state : NoSpaceState) (target : TufTarget) (usage : UsageInfo) : Bool :=
  decide (0 < state.stat.required) && state.stat.isOk && target.sha256Hash == state.commitHash &&
    usage.isOk && decide (usage.available < state.stat.required)

def noSpaceError (state : NoSpaceState) (target : TufTarget) (usageText : String) : String :=
  "Insufficient storage available at " ++ state.stat.path ++ " to download Target: " ++
    target.name ++ ", " ++ usageText ++ " (cached status)"

/-- The table `dr2ir`. -/
def downloadInstallStatus : DownloadStatus → InstallStatus
  | .ok => .ok
  | .downloadFailed => .downloadOstreeFailed
  | .verificationFailed => .verificationFailed
  | .noSpace => .noSpace

def rollBackArgs (current : TufTarget) (args : PullArgs) (failure : InstallResult) :
    InstallerArgs :=
  { target := current, reason := failure.description, correlationId := args.correlationId,
    mode := .all, isLocal := args.isLocal, requireInTuf := false, areAppsChecked := false }

/-- Going back to the target that was current before a failed installation. -/
def rollBackTo (current : TufTarget) (args : PullArgs) (env : PullEnv) (failure : InstallResult) :
    M Db InstallResult := do
  let context? ← installer St styled cfg (rollBackArgs current args failure) env.rollbackInstaller
  match context? with
  | none => return { status := .installRollbackFailed, description := failure.description }
  | some context =>
    let res ← contextInstall St styled cfg context env.rollbackInstall
    let status := if res.status = .ok then .installRollbackOk else .installRollbackFailed
    return { status := status, description := res.description }

/-- The installation with its rollback. -/
def installOrRollBack (context : Context) (current : TufTarget) (args : PullArgs)
    (env : PullEnv) : M Db InstallResult := do
  let res ← contextInstall St styled cfg context env.install
  if res.status = .failed then rollBackTo St styled cfg current args env res else return res

/-- The download, and the result if the update ends with it. -/
def downloadFirst (context : Context) (args : PullArgs) (env : PullEnv) :
    M Db (Option InstallResult) := do
  if !args.doDownload then return none
  let res ← contextDownload styled cfg context env.download
  let result := { status := downloadInstallStatus res.status, description := res.description }
  if res.status ≠ .ok then
    if res.status = .noSpace then
      modify fun w =>
        { w with noSpace := { commitHash := args.target.sha256Hash, corId := args.correlationId,
                              stat := res.stat } }
    return some result
  return if args.doInstall then none else some result

def PullArgs.installer (args : PullArgs) : InstallerArgs :=
  { target := args.target, reason := args.reason, correlationId := args.correlationId,
    mode := args.mode, isLocal := args.isLocal, requireInTuf := args.requireInTuf,
    areAppsChecked := true }

/-- `PullAndInstall`. -/
def pullAndInstall (args : PullArgs) (env : PullEnv) : M Db InstallResult := do
  if (getPendingTarget St (← get)).isValid then
    return { status := .installationInProgress, description := "" }
  let current ← orThrow (currentTufTarget St (← get))
  let noSpace := (← get).noSpace
  if stillNoSpace noSpace args.target env.usage then
    orThrow env.notifyNoSpace
    return { status := .noSpace, description := noSpaceError noSpace args.target env.usageText }
  modify fun w => { w with noSpace := .none }
  let context? ← installer St styled cfg args.installer env.installer
  match context? with
  | none => return { status := .unknownError, description := "" }
  | some context =>
    match ← downloadFirst styled cfg context args env with
    | some result => return result
    | none => installOrRollBack St styled cfg context current args env

/-- The target that a rollback marks as failing. -/
def badTarget (w : World Db) : Except String TufTarget := do
  let current ← currentTufTarget St w
  if (getPendingTarget St w).isValid then toTufTarget (getPendingTarget St w) else return current

/-- `Rollback`.  A pending installation is given up without a download. -/
def rollback (isLocal : Bool) (notifyFailed : Except String Unit) (env : PullEnv) :
    M Db InstallResult := do
  let pending := getPendingTarget St (← get)
  let bad ← orThrow (badTarget St (← get))
  saveInstalledVersion St (fromTufTarget bad) .kBadTarget
  let target ← orThrow (toTufTarget (getRollbackTarget St pending.isValid (← get).db))
  if target.isUnknown then return { status := .failed, description := "" }
  if pending.isValid then
    saveInstalledVersion St pending .kNone
    notifyInstallFinished notifyFailed pending .kInstallFailed
  let reason := "User initiated rollback. Marked " ++ bad.name ++
    " as a failing target, and rolling back to " ++ target.name
  pullAndInstall St styled cfg
    { target := target, reason := reason, correlationId := "", mode := .all, isLocal := isLocal,
      doDownload := !pending.isValid, doInstall := true, requireInTuf := !pending.isValid } env

end Api

/-! ## An environment in which nothing fails -/

def CheckEnv.allRunning : CheckEnv :=
  { isRunning := fun _ => .ok true, isFetched := fun _ => .ok true, checkAppsToFetch := true,
    appsRoot := none }

/-- No app of the current target runs. -/
def CheckEnv.noneRunning : CheckEnv := { CheckEnv.allRunning with isRunning := fun _ => .ok false }

def RootfsEnv.succeeds : RootfsEnv :=
  { commitFile := .error "", updateNotify := fun b => .ok b, ostree := .deployed "",
    deployments := .ok [] }

def InstallEnv.succeeds : InstallEnv :=
  { appsRoot := none, stop := fun _ => .ok (), rootfs := RootfsEnv.succeeds,
    start := fun _ => .ok .ok, runningInfo := .ok "" }

def ClientInstallEnv.succeeds : ClientInstallEnv :=
  { notifyStarted := .ok (), manager := .succeeds, writeCurrent := .ok (),
    notifyFinished := .ok () }

def VerifyEnv.good : VerifyEnv :=
  { ostree := .ok .kGood, isFetched := fun _ => .ok true, verify := fun _ => .ok true }

def ContextInstallEnv.succeeds : ContextInstallEnv := { verify := .good, client := .succeeds }

def DownloadTry.succeeds : DownloadTry :=
  { ostree := .ok (.of .ok ""), fetch := fun _ => .ok .ok, usageBefore := "", usageAfter := "" }

def DownloadEnv.succeeds : DownloadEnv :=
  { first := .succeeds, second := .succeeds, third := .succeeds, notifyStarted := .ok (),
    notifyFinished := .ok () }

def ContextDownloadEnv.succeeds : ContextDownloadEnv :=
  { client := .succeeds, verify := .good, notifyInvalid := .ok (), offline := .ok (.of .ok "") }

def InstallerEnv.trusting (targets : List TufTarget) : InstallerEnv :=
  { checkMeta := .ok (), tufTargets := .ok targets, uuid := "uuid", check := .allRunning,
    openLocal := .ok () }

def PullEnv.succeeds (targets : List TufTarget) : PullEnv :=
  { usage := .empty, usageText := "", notifyNoSpace := .ok (), installer := .trusting targets,
    download := .succeeds, install := .succeeds, rollbackInstaller := .trusting targets,
    rollbackInstall := .succeeds }

end Client
end AkLite
