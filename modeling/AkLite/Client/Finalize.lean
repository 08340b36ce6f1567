/-
The end of an installation after a reboot.

If the device has booted the new rootfs, the compose app manager starts the apps of the
pending target.  The configuration may have changed since the installation.  The
installation has noted the apps it was made for in the target's custom data, and an app
that is not among them is left out.  An app that cannot be started ends the finalization,
and the client then records the target as a failing one.
-/
import AkLite.Client.Api

namespace AkLite
namespace Client

open Lib Boot

/-- What a finalization meets.  The answers of the app engine are those of an
installation, `start` is `run` here, and there is no rootfs to install. -/
structure FinalizeEnv where
  /-- `OstreeManager::finalizeInstall`. -/
  ostree : Except String InstallationResult
  engine : InstallEnv

/-- The installation was made for this app.  Without a note every app counts. -/
def installedBefore (context : Json) (app : App) : Except String Bool := do
  if context.isEmpty then return true
  if !(← context.isMember "apps") then return true
  let apps ← context.index "apps"
  if !(← apps.isMember app.1) then return false
  return (← apps.index app.1) == .str app.2

def newlyEnabled (msg name : String) : String :=
  if msg = "" then "\n# Newly enabled apps are detected: " ++ name else msg ++ ", " ++ name

def startError (app : App) (err : String) : String :=
  "failed to start App after booting on a new sysroot version; app: " ++ app.1 ++ "; uri: " ++
    app.2 ++ "; err: " ++ err

section Finalize

variable {Db : Type} (St : Storage Db) (styled : Json → String) (cfg : Config)

/-- The first app that does not start ends the loop.  The text names the apps left out so
far. -/
def startEnabled (env : InstallEnv) (context : Json) :
    List App → String → M Db (Option (ResultCode × String) × String)
  | [], msg => return (none, msg)
  | app :: rest, msg => do
    if !(← orThrow (installedBefore context app)) then
      startEnabled env context rest (newlyEnabled msg app.1)
    else
      emit (.run app)
      match ← orThrow (env.start app) with
      | .ok =>
        record (.appStarted app)
        startEnabled env context rest msg
      | .failed err => return (some (.kCustomError, startError app err), msg)
      | .imagePullFailure err => return (some (.kDownloadFailed, startError app err), msg)

/-- The end of a finalization, after the apps were started. -/
def finishFinalize (env : InstallEnv) (target : Target) (description : String) :
    Option (ResultCode × String) × String → M Db InstallationResult
  | (some (code, err), newly) =>
    withRunningApps env
      { code := code, description := description ++ ", however " ++ err ++ newly }
  | (none, newly) => do
    handleRemovedApps styled cfg env.appsRoot target
    if cfg.dockerPrune then prune (← orThrow (getRequiredApps styled cfg target.custom))
    withRunningApps env { code := .kOk, description := description ++ newly }

/-- The apps after a boot of the new rootfs. -/
def finalizeApps (env : InstallEnv) (target : Target) (description : String) :
    M Db InstallationResult := do
  let removed ← orThrow (removedApps cfg env.appsRoot target.custom)
  stopApps env (removed.map fun name => (name, ""))
  let context ← orThrow (target.custom.index "install-context")
  let apps ← orThrow (getApps cfg target.custom)
  finishFinalize styled cfg env target description (← startEnabled env context apps "")

/-- `ComposeAppManager::finalizeInstall`. -/
def composeFinalizeInstall (env : FinalizeEnv) (target : Target) : M Db InstallationResult := do
  let ir ← orThrow env.ostree
  if ir.code = .kOk then finalizeApps styled cfg env.engine target ir.description
  else if ir.code = .kNeedCompletion then return ir
  else withRunningApps env.engine ir

def managerFinalizeInstall (env : FinalizeEnv) (target : Target) : M Db InstallationResult :=
  match cfg.pacman with
  | .ostree => orThrow env.ostree
  | .compose => composeFinalizeInstall styled cfg env target

/-- A failed start of an app and a rollback at boot make the target a failing one. -/
def finalizePendingUpdate (env : FinalizeEnv) (target : Target) : M Db InstallationResult := do
  let ret ← managerFinalizeInstall styled cfg env target
  if ret.isSuccess then saveInstalledVersion St target .kCurrent
  else if ret.code = .kInstallFailed ∨ ret.code = .kCustomError then
    saveInstalledVersion St target .kNone
  return ret

structure CompleteEnv where
  /-- The program called before a finalization. -/
  callback : Except String Unit
  finalize : FinalizeEnv
  writeCurrent : Except String Unit
  notifyFinished : Except String Unit

/-- `LiteClient::finalizeInstall`. -/
def clientFinalizeInstall (env : CompleteEnv) : M Db InstallationResult := do
  match St.pending (← get).db with
  | none =>
    orThrow env.writeCurrent
    return { code := .kOk, description := "" }
  | some target =>
    orThrow env.callback
    let ret ← finalizePendingUpdate St styled cfg env.finalize target
    orThrow env.writeCurrent
    if ret.code ≠ .kNeedCompletion then
      notifyInstallFinished env.notifyFinished target ret.code
    return ret

/-- `CompleteInstallation`. -/
def completeInstallation (env : CompleteEnv) : M Db InstallResult := do
  let ir ← clientFinalizeInstall St styled cfg env
  let inProgress := isUpdateInProgress cfg.rollbackMode (← get).rootfs.boot
  let status :=
    match ir.code with
    | .kOk => if inProgress then .okBootFwNeedsCompletion else .ok
    | .kNeedCompletion => .needsCompletion
    | _ => .failed
  return { status := status, description := ir.description }

end Finalize

/-- The device has booted the new rootfs, and nothing fails. -/
def FinalizeEnv.succeeds : FinalizeEnv :=
  { ostree := .ok { code := .kOk, description := "" }, engine := .succeeds }

end Client
end AkLite
