/-
Installing an app from the store, and telling whether it runs.

All versions of an app are installed to one directory.  `install` and `run` unpack the
archive of a version over what stands there, verify the compose file, load the images and
execute the compose command.  Any of these may fail, and the unpacked files stay.  Whether a
version is installed is judged by the compose file of its archive and the installed one, and
whether it is running by the containers of the installed compose file.

What the commands and docker answer during a call is the call's environment.  The files that
`tar` finds in an archive are the same for all calls.
-/
import AkLite.Engine.AppFetched

namespace AkLite
namespace Docker
namespace RestorableAppEngine

open Lib
open Client (App)

variable {tk : Toolkit}

/-- What `tar` makes of archives. -/
structure Tar (tk : Toolkit) where
  /-- The files in an archive, by their paths in the directory it is unpacked to. -/
  files : String → List (Path × String)
  /-- The compose file that is printed is the one that is unpacked. -/
  compose : ∀ archive text, tk.extract archive = .ok text →
    (files archive).lookup [composeFile] = some text

/-- The store, and the files below the install root. -/
structure Site where
  store : Store
  installed : FileTree
  deriving DecidableEq, Repr

/-- Before the first call. -/
def Site.empty : Site where
  store := { apps := { entries := [] }, blobs := [] }
  installed := { entries := [] }

/-- A run of `tar`.  One that fails may have unpacked the files before. -/
structure TarRun where
  error : Option String
  unpacked : Bool
  deriving DecidableEq, Repr

/-- The answers during an installation; a failed command is the text of its exception. -/
structure InstallEnv where
  tar : TarRun
  /-- `compose config`. -/
  config : Option String
  /-- By the position of the service and its image. -/
  loadImage : Nat → String → Option String
  /-- `compose up`. -/
  up : Option String
  getContainers : Except String Json

inductive InstallExn where
  | loadImage (what : String)
  | other (what : String)
  deriving DecidableEq, Repr

abbrev InstallEff := EStateM InstallExn Site

/-! ## Installing the files -/

def Site.lift {α : Type} (x : Except String α) : InstallEff α := orThrow (x.mapError .other)

/-- `exec`. -/
def perform (error : Option String) : InstallEff Unit :=
  match error with
  | none => pure ()
  | some what => throw (.other what)

def TarRun.unpack (run : TarRun) (files : List (Path × String)) (dir : Path) (t : FileTree) :
    FileTree :=
  if run.error = none ∨ run.unpacked = true then t.unpack dir files else t

/-- There is nothing to unpack without an archive. -/
def unpackArchive (tar : Tar tk) (run : TarRun) (archive dir : Path) : InstallEff Unit := do
  match (← get).store.apps.read archive with
  | none => throw (.other (run.error.getD "failed to install Compose App"))
  | some content =>
    modify fun s => { s with installed := run.unpack (tar.files content) dir s.installed }
    perform run.error

def installApp (tar : Tar tk) (env : InstallEnv) (dir dst : Path) : InstallEff Unit := do
  let manifest ← Site.lift ((← get).store.manifest tk dir)
  let hash ← Site.lift (manifest.archiveHash tk.canonical)
  modify fun s => { s with installed := s.installed.mkdirs dst }
  unpackArchive tar env.tar (archivePath dir hash) dst

/-! ## Installing the images -/

def loadImages (env : InstallEnv) : Nat → List (Except String String) → InstallEff Unit
  | _, [] => return ()
  | i, image :: rest => do
    let image ← Site.lift image
    let _ ← Site.lift (parseUri image false)
    match env.loadImage i image with
    | some what =>
      throw (.loadImage ("Failed to load image to docker store; image: " ++ image ++ ", err: " ++
        what))
    | none => loadImages env (i + 1) rest

def installAppImages (tk : Toolkit) (env : InstallEnv) (dir : Path) : InstallEff Unit := do
  let compose ← Site.lift ((← get).store.composeInfo tk (dir ++ [composeFile]))
  loadImages env 0 (← Site.lift (serviceImages compose))

def installAppAndImages (tar : Tar tk) (env : InstallEnv) (app : App) : InstallEff Unit := do
  let uri ← Site.lift (parseUri app.2 true)
  installApp tar env (appDir uri) [app.1]
  perform env.config
  installAppImages tk env (appDir uri)

/-! ## Containers -/

/-- The names of the services. -/
def getServices (compose : Json) : Except String (List String) := do
  return (← compose.index "services").entries.map Prod.fst

def getHash (compose : Json) (service : String) : Except String String := do
  let labels ← (← (← compose.index "services").index service).index "labels"
  (← labels.index "io.compose-spec.config-hash").asString

def containerLabel (container : Json) (label : String) : Except String String := do
  (← (← container.index "Labels").index label).asString

/-- The labels are compared in turn, and a label that is not reached is not read. -/
def isContainerOf (app service hash : String) (container : Json) : Except String Bool := do
  if (← containerLabel container "com.docker.compose.project") ≠ app then return false
  if (← containerLabel container "com.docker.compose.service") ≠ service then return false
  return (← containerLabel container "io.compose-spec.config-hash") == hash

/-- The state of the first container of the service, if there is one. -/
def getContainerState (app service hash : String) : List Json → Except String (Option String)
  | [] => .ok none
  | container :: rest => do
    if ← isContainerOf app service hash container then
      return some (← (← container.index "State").asString)
    else getContainerState app service hash rest

/-- Each service has a container, which is started if `checkState` is set. -/
def checkServices (compose containers : Json) (app : String) (checkState : Bool) :
    List String → Except String Bool
  | [] => .ok true
  | service :: rest => do
    match ← getContainerState app service (← getHash compose service) containers.values with
    | some state =>
      if !checkState || state != "created" then
        checkServices compose containers app checkState rest
      else return false
    | none => return false

def Site.installedCompose (s : Site) (app : App) : Option String :=
  s.installed.read [app.1, composeFile]

/-- `ComposeInfo` of the installed compose file. -/
def Site.composeInfo (tk : Toolkit) (s : Site) (app : App) : Except String Json :=
  match s.installedCompose app with
  | some content => tk.yaml2json content
  | none => .error ("The specified `yaml` file is not found: " ++ showPath [app.1, composeFile])

def checkAppContainers (tk : Toolkit) (getContainers : Except String Json) (app : App)
    (checkState : Bool) (s : Site) : Except String Bool := do
  let compose ← s.composeInfo tk app
  let services ← getServices compose
  if services = [] then throw "No services found in App's compose file"
  checkServices compose (← getContainers) app.1 checkState services

/-! ## The calls -/

def InstallExn.result : InstallExn → Result
  | .loadImage what => { status := .imagePullFailure, err := what, stat := undefinedStat }
  | .other what => { status := .failed, err := what, stat := undefinedStat }

def succeeded : Result := { status := .ok, err := "", stat := undefinedStat }

def installContainerless (tar : Tar tk) (env : InstallEnv) (app : App) : InstallEff Result :=
  tryCatch (do
    installAppAndImages tar env app
    return succeeded)
  fun e => pure e.result

/-- A failure to list the containers is only logged. -/
def checkCreated (tk : Toolkit) (env : InstallEnv) (app : App) (run : Bool) (s : Site) : Result :=
  match checkAppContainers tk env.getContainers app false s with
  | .ok false =>
    { status := .failed
      err := "App containers haven't been " ++ if run then "started" else "created"
      stat := undefinedStat }
  | _ => succeeded

def installAndCreateOrRunContainers (tar : Tar tk) (env : InstallEnv) (app : App) (run : Bool) :
    InstallEff Result := do
  let res ← installContainerless tar env app
  if res.status ≠ .ok then return res
  match env.up with
  | some what => return { status := .failed, err := what, stat := undefinedStat }
  | none => return checkCreated tk env app run (← get)

def install (tar : Tar tk) (createContainersIfInstall : Bool) (env : InstallEnv) (app : App) :
    InstallEff Result :=
  if createContainersIfInstall then installAndCreateOrRunContainers tar env app false
  else installContainerless tar env app

def run (tar : Tar tk) (env : InstallEnv) (app : App) : InstallEff Result :=
  installAndCreateOrRunContainers tar env app true

/-! ## Is an app running? -/

def isAppInstalled (tk : Toolkit) (app : App) (s : Site) : Except String Bool := do
  let uri ← parseUri app.2 true
  let compose ← s.store.archiveCompose tk uri
  match s.installedCompose app with
  | some installed => return tk.sha256 compose == tk.sha256 installed
  | none => throw ("Unable to open file " ++ showPath [app.1, composeFile])

/-- An exception is logged, and the app is taken not to be running. -/
def isRunning (tk : Toolkit) (getContainers : Except String Json) (app : App) (s : Site) : Bool :=
  match isAppInstalled tk app s with
  | .ok true =>
    match checkAppContainers tk getContainers app true s with
    | .ok running => running
    | .error _ => false
  | _ => false

end RestorableAppEngine
end Docker
end AkLite
