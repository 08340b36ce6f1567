/-
The rootfs part of an installation.

`install` deploys a target's ostree commit: it checks the boot firmware version,
notifies the bootloader, has the library deploy the commit, and notifies the
bootloader again, which is when the firmware upgrade is triggered.  The library's
installation and its bootloader notification are outcomes of the environment.  A
deployment that is made shows in the sysroot: the hash becomes the pending one, or
the pending one is dropped when the booted hash is deployed again.
-/
import AkLite.Boot.BootloaderLite
import AkLite.Lib.Effect

namespace AkLite
namespace Boot

open Lib

/-- The booted and the pending deployment.  No pending deployment is the empty hash. -/
structure Sysroot where
  booted : String
  pending : String
  deriving DecidableEq, Repr

def Sysroot.deploy (sys : Sysroot) (hash : String) : Sysroot :=
  { sys with pending := if hash = sys.booted then "" else hash }

/-- `data::ResultCode::Numeric`. -/
inductive ResultCode where
  | kOk
  | kAlreadyProcessed
  | kVerificationFailed
  | kInstallFailed
  | kDownloadFailed
  | kInternalError
  | kGeneralError
  | kNeedCompletion
  | kCustomError
  | kOperationCancelled
  | kUnknown
  deriving DecidableEq, Repr

structure InstallationResult where
  code : ResultCode
  description : String
  deriving DecidableEq, Repr

def InstallationResult.isSuccess (r : InstallationResult) : Bool :=
  r.code == .kOk || r.code == .kAlreadyProcessed

/-- How the library's installation ends.  Only an installation that deployed the
hash asks for completion. -/
inductive OstreeOutcome where
  | deployed (description : String)
  | refused (result : InstallationResult) (h : result.code ≠ .kNeedCompletion)
  | throws (what : String)

structure Rootfs where
  boot : BootEnv
  sys : Sysroot

/-- What an installation meets: the version file of the commit, the library's
notification and installation, and the deployment directory afterwards. -/
structure RootfsEnv where
  commitFile : Except String String
  updateNotify : BootEnv → Except String BootEnv
  ostree : OstreeOutcome
  deployments : Deployments

abbrev RootfsM := EStateM String Rootfs

/-- Run a fallible change of the boot environment. -/
def changeBoot (f : BootEnv → Except String BootEnv) : RootfsM Unit := do
  let boot ← orThrow (f (← get).boot)
  modify fun r => { r with boot := boot }

theorem wp_changeBoot {f : BootEnv → Except String BootEnv} {Q : Unit → Rootfs → Prop}
    {E : String → Rootfs → Prop} {r : Rootfs} :
    wp (changeBoot f) Q E r =
      match f r.boot with
      | .ok boot => Q () { r with boot := boot }
      | .error what => E what r := by
  rw [changeBoot, wp_bind, wp_get, wp_bind]
  cases f r.boot with
  | ok boot => rfl
  | error what => rfl

section Manager

variable (mode : RollbackMode) (updateBlock : Bool)

def badLexicalCast : String :=
  "bad lexical cast: source type value could not be interpreted as target"

/-- The current version as a number, zero if it is none. -/
def currentVersionNumber (b : BootEnv) : Nat :=
  (lexicalCast ((getCurrentVersion mode b).getD "0")).getD 0

def verifyBootloaderUpdate (commitFile : Except String String) (b : BootEnv) :
    InstallationResult :=
  if updateBlock && isUpdateInProgress mode b then
    { code := .kNeedCompletion, description := "bootloader update is in progress" }
  else if !isRollbackProtectionEnabled mode b then { code := .kOk, description := "" }
  else
    match getTargetVersion commitFile with
    | .malformed what => { code := .kInstallFailed, description := what }
    | .unreadable _ => { code := .kOk, description := "" }
    | .text version =>
      match lexicalCast version with
      | none => { code := .kInstallFailed, description := badLexicalCast }
      | some targetVer =>
        if targetVer < currentVersionNumber mode b then
          { code := .kInstallFailed,
            description := "bootloader rollback from version " ++
              (getCurrentVersion mode b).getD "0" ++ " to " ++ version ++ " has been detected" }
        else { code := .kOk, description := "" }

/-- `OstreeManager::install`. -/
def ostreeInstall (hash : String) : OstreeOutcome → RootfsM InstallationResult
  | .deployed description => do
    modify fun r => { r with sys := r.sys.deploy hash }
    return { code := .kNeedCompletion, description := description }
  | .refused result _ => return result
  | .throws what => throw what

def alreadyInstalled : InstallationResult :=
  { code := .kOk, description := "OSTree hash already installed, same as current" }

/-- The deployment with its notifications.  Deploying the current hash drops the
pending deployment, and no completion is needed for that. -/
def deploy (currentHash hash : String) (env : RootfsEnv) : RootfsM InstallationResult := do
  changeBoot env.updateNotify
  let res ← ostreeInstall hash env.ostree
  if res.code = .kInstallFailed then return res
  changeBoot (installNotify mode env.deployments hash)
  if currentHash = hash ∧ res.code = .kNeedCompletion then
    changeBoot env.updateNotify
    return alreadyInstalled
  return res

/-- A deployment is made for another hash than the current one, and for the current
one when something else is pending. -/
def deploymentNeeded (currentHash hash pending : String) : Bool :=
  currentHash != hash || (pending != "" && pending != hash)

/-- `RootfsTreeManager::install`. -/
def rootfsInstall (currentHash hash : String) (env : RootfsEnv) : RootfsM InstallationResult := do
  let r ← get
  let res := verifyBootloaderUpdate mode updateBlock env.commitFile r.boot
  if (currentHash != hash && isUpdateSupported mode) && res.code != .kOk then return res
  if deploymentNeeded currentHash hash r.sys.pending then deploy mode currentHash hash env
  else return alreadyInstalled

end Manager

end Boot
end AkLite
