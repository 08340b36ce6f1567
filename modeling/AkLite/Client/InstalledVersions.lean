/-
A table of installed versions.

The library's storage is an argument of the client's model.  This is a table with
the columns that the client depends on, as an instance of it: what was ever stored
is known, what was stored as current is installed, and at most one target is
pending.  A device with such a table and one app ends the module.
-/
import AkLite.Client.World

namespace AkLite
namespace Client

structure Row where
  target : Target
  wasInstalled : Bool

structure InstalledVersions where
  rows : List Row
  current : Option Target
  pending : Option Target

namespace InstalledVersions

def sameVersion (t u : Target) : Bool := t.filename == u.filename && t.sha256Hash == u.sha256Hash

/-- The row of a target moves to the end of the table. -/
def upsert (t : Target) (wasInstalled : Bool) (rows : List Row) : List Row :=
  rows.filter (fun r => !sameVersion r.target t) ++ [{ target := t, wasInstalled := wasInstalled }]

def wasInstalled (t : Target) (rows : List Row) : Bool :=
  rows.any fun r => sameVersion r.target t && r.wasInstalled

def save (t : Target) (mode : UpdateMode) (v : InstalledVersions) : InstalledVersions :=
  match mode with
  | .kCurrent => { rows := upsert t true v.rows, current := some t, pending := none }
  | .kPending =>
    { v with rows := upsert t (wasInstalled t v.rows) v.rows, pending := some t }
  | .kNone =>
    { v with
      rows := upsert t (wasInstalled t v.rows) v.rows
      pending := v.pending.filter fun p => !sameVersion p t }
  | .kBadTarget => { v with rows := upsert t false v.rows }

def installed (v : InstalledVersions) : List Target :=
  (v.rows.filter Row.wasInstalled).map Row.target

/-- The target of a hash that no row has is valid but unknown. -/
def currentOf (hash : String) (v : InstalledVersions) : Target :=
  match v.current with
  | some t => if t.sha256Hash = hash then t else
      ((v.rows.map Row.target).reverse.find? fun t => t.sha256Hash == hash).getD
        { unknownTarget with sha256Hash := hash, isValid := true }
  | none =>
      ((v.rows.map Row.target).reverse.find? fun t => t.sha256Hash == hash).getD
        { unknownTarget with sha256Hash := hash, isValid := true }

end InstalledVersions

open Lib

open InstalledVersions in
def installedVersions : Storage InstalledVersions where
  pending := InstalledVersions.pending
  known v := v.rows.map Row.target
  installed := InstalledVersions.installed
  rollbackLog allowCurrent v :=
    (InstalledVersions.installed v).filter fun t =>
      allowCurrent || !(v.current.any fun c => sameVersion c t)
  ecuLog := InstalledVersions.installed
  save := InstalledVersions.save
  current := currentOf

/-- A client that has just started on a device with this table. -/
def World.started (v : InstalledVersions) (sys : Boot.Sysroot) : World InstalledVersions :=
  { db := v
    rootfs := { boot := { vars := fun _ => none, settable := true, sets := [] }, sys := sys }
    engineApps := []
    appsToFetchAndUpdate := []
    appsToFetch := []
    cleanupRemovedApps := true
    rebootRequired := false
    noSpace := .none
    contexts := []
    trace := [], effects := [], reports := [] }

/-! ## A device -/

/-- A compose app manager with no list of apps, as for a new device. -/
def deviceConfig : Config :=
  { pacman := .compose, apps := none, resetApps := none, dockerPrune := false,
    forceUpdate := false, createContainersBeforeReboot := true, stopAppsBeforeUpdate := false,
    updateBlock := false, rollbackMode := .kBootloaderNone, readOnly := false,
    invokePostCbAtCheckin := false }

def webCustom (version uri : String) : Json :=
  .obj [("version", .str version), ("hardwareIds", .arr [.str "board"]),
    ("docker_compose_apps", .obj [("web", .obj [("uri", .str uri)])])]

def factoryTarget : Target :=
  { filename := initialTarget, sha256Hash := "aa", custom := webCustom "1" "web@1",
    correlationId := "", isValid := true }

def factoryDevice : World InstalledVersions :=
  .started { rows := [{ target := factoryTarget, wasInstalled := true }],
             current := some factoryTarget, pending := none } { booted := "aa", pending := "" }

def nextTarget : Target :=
  { filename := "board-lmp-2", sha256Hash := "bb", custom := webCustom "2" "web@2",
    correlationId := "", isValid := true }

def nextTufTarget : TufTarget :=
  { name := "board-lmp-2", sha256Hash := "bb", version := 2, custom := webCustom "2" "web@2" }

end Client
end AkLite
