/-
The client below the public API.

`clientInstall` has the package manager install a target and writes the outcome to
the database: the mode in which a target is stored depends on the result code, and
an exception of the package manager counts as a failed installation.
`clientDownload` tries a download three times.  The notifications to the backend
and the callback program are outcomes of the environment; a failing one is an
exception that leaves what was stored before.
-/
import AkLite.Client.ComposeAppManager

namespace AkLite
namespace Client

open Lib Boot

/-! ## Download -/

inductive DownloadStatus where
  | ok
  | downloadFailed
  | verificationFailed
  | noSpace
  deriving DecidableEq, Repr

structure DownloadResult where
  status : DownloadStatus
  description : String
  destinationPath : String
  stat : UsageInfo
  deriving DecidableEq, Repr

def UsageInfo.empty : UsageInfo := { path := "", available := 0, required := 0, err := "" }

def DownloadResult.of (status : DownloadStatus) (description : String) : DownloadResult :=
  { status := status, description := description, destinationPath := "", stat := .empty }

inductive FetchResult where
  | ok
  | failed (err : String)
  | noSpace (err : String) (stat : UsageInfo)
  deriving DecidableEq, Repr

/-- One attempt: the ostree pull, the engine's fetches and the storage statistics. -/
structure DownloadTry where
  ostree : Except String DownloadResult
  fetch : App → Except String FetchResult
  usageBefore : String
  usageAfter : String

/-- The outcomes of a verification: of the ostree commit and of the apps. -/
inductive TargetStatus where
  | kNotFound
  | kIncomplete
  | kOversized
  | kHashMismatch
  | kGood
  | kInvalid
  deriving DecidableEq, Repr

structure VerifyEnv where
  ostree : Except String TargetStatus
  isFetched : App → Except String Bool
  verify : App → Except String Bool

section Client

variable {Db : Type} (St : Storage Db) (styled : Json → String) (cfg : Config)

/-- Both lists as one map, in which the first list wins. -/
def allAppsToFetch (w : World Db) : List App :=
  w.appsToFetchAndUpdate ++
    w.appsToFetch.filter fun a => (w.appsToFetchAndUpdate.lookup a.1).isNone

def fetchError (app : App) (err : String) : String :=
  "failed to fetch App; app: " ++ app.1 ++ "; uri: " ++ app.2 ++ "; " ++ err

def addEngineApp (app : App) : M Db Unit :=
  modify fun w =>
    if w.engineApps.contains app then w else { w with engineApps := app :: w.engineApps }

/-- The first app that cannot be fetched ends the loop. -/
def fetchApps (env : DownloadTry) : List App → String → M Db (Option DownloadResult × String)
  | [], msg => return (none, msg)
  | app :: rest, msg => do
    emit (.fetch app)
    match ← orThrow (env.fetch app) with
    | .ok =>
      addEngineApp app
      fetchApps env rest msg
    | .failed err => return (some (.of .downloadFailed ""), msg ++ "\n" ++ fetchError app err)
    | .noSpace err stat =>
      let msg := msg ++ "\n" ++ fetchError app err
      return (some { status := .noSpace, description := msg, destinationPath := stat.path,
                     stat := stat }, msg)

/-- `ComposeAppManager::Download`. -/
def composeDownload (env : DownloadTry) : M Db DownloadResult := do
  let res ← orThrow env.ostree
  if res.status ≠ .ok then return res
  let apps := allAppsToFetch (← get)
  let msg :=
    if apps.isEmpty then "" else res.description ++ "\nbefore apps pull: " ++ env.usageBefore
  let (failure, msg) ← fetchApps env apps msg
  let res := failure.getD res
  if !apps.isEmpty && res.status != .noSpace then
    return { res with description := msg ++ "\nafter apps pull: " ++ env.usageAfter }
  return res

def downloadOnce (env : DownloadTry) : M Db DownloadResult :=
  match cfg.pacman with
  | .ostree => orThrow env.ostree
  | .compose => composeDownload env

/-- Another attempt is made unless the download succeeded or has no space. -/
def downloadTries : List DownloadTry → M Db DownloadResult
  | [] => return .of .downloadFailed ""
  | [last] => downloadOnce cfg last
  | env :: rest => do
    let res ← downloadOnce cfg env
    if res.status = .ok ∨ res.status = .noSpace then return res
    downloadTries rest

structure DownloadEnv where
  first : DownloadTry
  second : DownloadTry
  third : DownloadTry
  notifyStarted : Except String Unit
  notifyFinished : Except String Unit

/-- `LiteClient::download`. -/
def clientDownload (env : DownloadEnv) (target : Target) : M Db DownloadResult := do
  orThrow env.notifyStarted
  let _ ← orThrow (toTufTarget target)
  let res ← downloadTries cfg [env.first, env.second, env.third]
  orThrow env.notifyFinished
  return res

/-- The first app that is not fetched or not valid decides. -/
def verifyApps (env : VerifyEnv) (good : TargetStatus) : List App → Except String TargetStatus
  | [] => .ok good
  | app :: rest => do
    if !(← env.isFetched app) then return .kNotFound
    if !(← env.verify app) then return .kInvalid
    verifyApps env good rest

def verifyTarget (env : VerifyEnv) : M Db TargetStatus := do
  let status ← orThrow env.ostree
  if status ≠ .kGood ∨ cfg.pacman = .ostree then return status
  orThrow (verifyApps env status (allAppsToFetch (← get)))

/-! ## Install -/

structure ClientInstallEnv where
  notifyStarted : Except String Unit
  manager : InstallEnv
  writeCurrent : Except String Unit
  notifyFinished : Except String Unit

/-- `Installer::Install` of the package manager.  Installing the rootfs only is the
rootfs manager's business. -/
def managerInstall (env : InstallEnv) (target : Target) (mode : InstallMode) :
    M Db InstallationResult := do
  if cfg.pacman = .compose ∧ mode = .all then composeInstall St styled cfg env target
  else
    let currentHash := (getCurrent St (← get)).sha256Hash
    emit (.installRootfs target.sha256Hash)
    onRootfs (rootfsInstall cfg.rollbackMode cfg.updateBlock currentHash target.sha256Hash
      env.rootfs)

def installPackage (env : InstallEnv) (target : Target) (mode : InstallMode) :
    M Db InstallationResult :=
  tryCatch
    (do
      let tufTarget ← orThrow (toTufTarget target)
      managerInstall St styled cfg env (fromTufTarget tufTarget) mode)
    fun what => return { code := .kInstallFailed, description := what }

def needsFinalization : InstallationResult :=
  { code := .kNeedCompletion
    description := "finalization must be called to install and start Apps" }

/-- Write the outcome of an installation to the database. -/
def storeResult (env : ClientInstallEnv) (target : Target) (mode : InstallMode)
    (res : InstallationResult) : M Db InstallationResult := do
  match res.code with
  | .kNeedCompletion =>
    modify fun w => { w with rebootRequired := true }
    -- A target that only waits for a boot firmware update is not pending.
    if target.sha256Hash = (← get).rootfs.sys.pending then
      saveInstalledVersion St target .kPending
    return res
  | .kOk =>
    if mode = .ostreeOnly then
      saveInstalledVersion St target .kPending
      return needsFinalization
    else
      saveInstalledVersion St target .kCurrent
      orThrow env.writeCurrent
      return res
  | .kDownloadFailed => return res
  | _ =>
    saveInstalledVersion St target .kNone
    return res

/-- `LiteClient::notifyInstallFinished`.  A result that needs completion is reported as
applied only. -/
def notifyInstallFinished (sent : Except String Unit) (target : Target) (code : ResultCode) :
    M Db Unit := do
  orThrow sent
  if code ≠ .kNeedCompletion then
    modify fun w => { w with reports := (target, code == .kOk) :: w.reports }

/-- `LiteClient::install`. -/
def clientInstall (env : ClientInstallEnv) (target : Target) (mode : InstallMode) :
    M Db InstallationResult := do
  orThrow env.notifyStarted
  record (.installStarted target)
  let res ← installPackage St styled cfg env.manager target mode
  let res ← storeResult St env target mode res
  notifyInstallFinished env.notifyFinished target res.code
  return res

/-! ## Failing targets -/

/-- Known targets whose name was never installed successfully. -/
def knownButNotInstalled (db : Db) : List Target :=
  (St.known db).filter fun t => !(St.installed db).any fun i => i.filename == t.filename

def knownLocalTarget (pending : Option Target) (name : String) (known : List Target) : Bool :=
  known.reverse.any fun k =>
    k.filename == name && !(pending.any fun p => k.sha256Hash == p.sha256Hash)

/-- `IsRollback`, which looks at the name of the target only. -/
def isRollback (name : String) (db : Db) : Bool :=
  knownLocalTarget (St.pending db) name (knownButNotInstalled St db)

def getRollbackTarget (allowCurrent : Bool) (db : Db) : Target :=
  (St.rollbackLog allowCurrent db).getLast?.getD unknownTarget

def wasTargetInstalled (target : Target) (db : Db) : Bool :=
  (St.ecuLog db).any fun t => target.filename == t.filename && target.sha256Hash == t.sha256Hash

/-! ## App checks -/

/-- `LiteClient::appsToUpdate`.  If nothing is to be updated, the apps that do not
belong to the current target are removed. -/
def appsToUpdate (env : CheckEnv) (target : Target) (cleanup : Bool) : M Db AppsSyncReason := do
  match cfg.pacman with
  | .ostree => return []
  | .compose =>
    let reasons ← checkForAppsToUpdate St styled cfg env target
    if cleanup && reasons.isEmpty then
      handleRemovedApps styled cfg env.appsRoot (getCurrent St (← get))
    return reasons

def appendReasons (reason : String) (apps : AppsSyncReason) : String :=
  if apps.isEmpty then reason
  else
    (if reason = "" then reason else reason ++ "\n") ++
      String.join (apps.map fun a => " - " ++ a.1 ++ ": " ++ a.2 ++ "\n")

/-- `checkAndSetAppsForUpdate`: the first check of a client cleans up. -/
def checkAndSetAppsForUpdate (env : CheckEnv) (target : TufTarget) (reason : String) :
    M Db (AppsSyncReason × String) := do
  let apps ← appsToUpdate St styled cfg env (fromTufTarget target) (← get).cleanupRemovedApps
  modify fun w => { w with cleanupRemovedApps := false }
  return (apps, appendReasons reason apps)

end Client

end Client
end AkLite
