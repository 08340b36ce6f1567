/-
The state a client works on.

`Storage` is the library's database of installed versions.  The client reads four
things from it, the pending target, the known targets, the successfully installed
ones and the target that belongs to the booted hash, and writes with a mode.

`World` is everything the calls of one client object change: the database, the
rootfs, the apps the engine has, the two app lists that the package manager keeps
between a check and an installation, and the flags of the client.  What else
happens during a call, the answers of the app engine and the outcomes of downloads
and deployments, is an argument of the call.

The trace records app checks, installations, started apps, stored targets and the
notifications of a check for updates, the effects are the calls that change apps or the
rootfs, and the reports say of an installation that it is completed, with or without
success; all have the latest first.
-/
import AkLite.Boot.RootfsTreeManager
import AkLite.Target

namespace AkLite
namespace Client

open Lib Boot

/-- The name and the URI of an app. -/
abbrev App := String × String

inductive PackageManager where
  | ostree
  | compose
  deriving DecidableEq, Repr

structure Config where
  pacman : PackageManager
  apps : Option (List String)
  resetApps : Option (List String)
  dockerPrune : Bool
  forceUpdate : Bool
  createContainersBeforeReboot : Bool
  stopAppsBeforeUpdate : Bool
  updateBlock : Bool
  rollbackMode : RollbackMode
  readOnly : Bool
  invokePostCbAtCheckin : Bool
  deriving DecidableEq, Repr

inductive InstallMode where
  | all
  | ostreeOnly
  deriving DecidableEq, Repr

/-! ## Storage -/

inductive UpdateMode where
  | kNone
  | kCurrent
  | kPending
  | kBadTarget
  deriving DecidableEq, Repr

structure Storage (Db : Type) where
  pending : Db → Option Target
  known : Db → List Target
  installed : Db → List Target
  /-- The installed targets a rollback may go to, with or without the current one. -/
  rollbackLog : Bool → Db → List Target
  /-- The installed targets of the primary ECU. -/
  ecuLog : Db → List Target
  save : Target → UpdateMode → Db → Db
  /-- `OstreeManager::getCurrent`: the target of the booted hash. -/
  current : String → Db → Target

/-- `Uptane::Target::Unknown`. -/
def unknownTarget : Target :=
  { filename := "unknown", sha256Hash := "", custom := .null, correlationId := "",
    isValid := false }

/-! ## The world -/

structure UsageInfo where
  path : String
  available : Nat
  required : Nat
  err : String
  deriving DecidableEq, Repr

def UsageInfo.isOk (u : UsageInfo) : Bool := u.err == ""

/-- `state_when_download_failed`. -/
structure NoSpaceState where
  commitHash : String
  corId : String
  stat : UsageInfo
  deriving DecidableEq, Repr

def NoSpaceState.none : NoSpaceState :=
  { commitHash := "", corId := ""
    stat := { path := "", available := 0, required := 0, err := "undefined" } }

/-- `LiteInstall` and `LocalLiteInstall`. -/
structure Context where
  target : Target
  reason : String
  mode : InstallMode
  isLocal : Bool
  deriving BEq, DecidableEq

inductive Event where
  | appsChecked (apps upToDate : List App)
  | installStarted (target : Target)
  | appStarted (app : App)
  | stored (target : Target) (mode : UpdateMode)
  | tufUpdateStarted
  | tufUpdateFinished (err : String)
  deriving DecidableEq

/-- A call that leaves the client: of the app engine, but for its questions, or of the
rootfs manager. -/
inductive Effect where
  | fetch (app : App)
  | install (app : App)
  | run (app : App)
  | stop (app : App)
  | remove (name : String)
  | prune (shortlist : List App)
  | installRootfs (hash : String)
  deriving DecidableEq, Repr

structure World (Db : Type) where
  db : Db
  rootfs : Rootfs
  engineApps : List App
  appsToFetchAndUpdate : List App
  appsToFetch : List App
  cleanupRemovedApps : Bool
  rebootRequired : Bool
  noSpace : NoSpaceState
  contexts : List Context
  trace : List Event
  effects : List Effect
  reports : List (Target × Bool)

abbrev M (Db : Type) := EStateM String (World Db)

section Basics

variable {Db : Type} {α : Type}

def record (e : Event) : M Db Unit := modify fun w => { w with trace := e :: w.trace }

/-- The world after these calls, given in the order in which they are made. -/
def World.emitted (w : World Db) (es : List Effect) : World Db :=
  { w with effects := es.reverse ++ w.effects }

theorem World.emitted_emitted (w : World Db) (es fs : List Effect) :
    (w.emitted es).emitted fs = w.emitted (es ++ fs) := by
  simp only [World.emitted, List.reverse_append, List.append_assoc]

def emit (e : Effect) : M Db Unit := modify fun w => w.emitted [e]

/-- The rootfs part of the world is changed by the rootfs manager. -/
def onRootfs (x : RootfsM α) : M Db α := fun w =>
  match x w.rootfs with
  | .ok a r => .ok a { w with rootfs := r }
  | .error e r => .error e { w with rootfs := r }

theorem wp_onRootfs {x : RootfsM α} {Q : α → World Db → Prop} {E : String → World Db → Prop}
    {w : World Db} :
    wp (onRootfs x) Q E w =
      wp x (fun a r => Q a { w with rootfs := r }) (fun e r => E e { w with rootfs := r })
        w.rootfs := by
  unfold wp onRootfs
  cases x w.rootfs with
  | ok a r => rfl
  | error e r => rfl

variable (St : Storage Db)

def getCurrent (w : World Db) : Target := St.current w.rootfs.sys.booted w.db

@[simp] theorem getCurrent_emitted (w : World Db) (es : List Effect) :
    getCurrent St (w.emitted es) = getCurrent St w := rfl

def getPendingTarget (w : World Db) : Target := (St.pending w.db).getD unknownTarget

/-- Write to the installed versions. -/
def saveInstalledVersion (t : Target) (mode : UpdateMode) : M Db Unit := do
  modify fun w => { w with db := St.save t mode w.db }
  record (.stored t mode)

end Basics

end Client
end AkLite
