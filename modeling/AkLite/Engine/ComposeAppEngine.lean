/-
The compose app engine on one app directory.

The engine keeps what it knows about an app in two files below `.meta` in the
app's directory: the URI the directory is for, and how far that URI got.  Both
are replaced by writing a temporary file and renaming it.  The temporary file is
opened without truncation, so what an interrupted write left there shows through
behind a shorter one.  The state value is always four bytes, so this matters for
the version file only.

Everything the surroundings decide during a call is a field of the call's
environment: whether a file operation, a download or a compose command succeeds,
throws or is the last thing the process does, and which containers a compose
command leaves.  A process that stops is an exception that no handler sees.

The trace records the calls to `fetch`, the switches of the version file and the
writes of the pulled state by `fetch`, the latest first.
-/
import AkLite.Lib.Effect

namespace AkLite
namespace Engine

/-- How a system call, a download or a compose command ends. -/
inductive Outcome where
  | ok
  | fail (what : String)
  | stop
  deriving DecidableEq, Repr

/-- How `File::write` ends.  The last three are a process that stops before the
temporary file is written, before the rename, and after it. -/
inductive WriteOutcome where
  | ok
  | openFails (what : String)
  | writeFails (what : String)
  | renameFails (what : String)
  | stopBefore
  | stopTmp
  | stopAfter
  deriving DecidableEq, Repr

inductive Halt where
  | thrown (what : String)
  | stopped
  deriving DecidableEq, Repr

inductive Event where
  | fetchBegin (uri : String)
  | switched (version : String)
  | pulled (uri : String)
  deriving DecidableEq, Repr

/-- The app directory, the services that have a container, and the trace. -/
structure AppDir where
  root : Bool
  metaDir : Bool
  version : Option String
  versionTmp : Option String
  state : Option Int
  containers : List String
  trace : List Event
  deriving DecidableEq, Repr

/-- Nothing is there yet. -/
def AppDir.empty : AppDir :=
  { root := false, metaDir := false, version := none, versionTmp := none, state := none,
    containers := [], trace := [] }

abbrev M := EStateM Halt AppDir

inductive Result where
  | ok
  | failed (err : String)
  deriving DecidableEq, Repr

def perform : Outcome → M Unit
  | .ok => pure ()
  | .fail what => throw (.thrown what)
  | .stop => throw .stopped

/-- `catch (const std::exception&)`. -/
def catchThrown {α : Type} (x : M α) (handler : String → M α) : M α :=
  tryCatch x fun
    | .thrown what => handler what
    | .stopped => throw .stopped

def record (e : Event) : M Unit := modify fun d => { d with trace := e :: d.trace }

/-! ## The files -/

def kUnknown : Int := 0x00
def kDownloaded : Int := 0x10
def kVerified : Int := 0x20
def kPulled : Int := 0x30
def kInstalled : Int := 0x40
def kStarted : Int := 0x50

/-- Opening a file below `.meta` creates it, unless there is no such directory. -/
def openMeta (o : Outcome) : M Unit := do
  perform o
  if !(← get).metaDir then throw (.thrown "Failed to open/create a file")

/-- `readStr` of the version file. -/
def readVersion (o : Outcome) : M String := do
  openMeta o
  modify fun d => { d with version := some (d.version.getD "") }
  return (← get).version.getD ""

/-- `read` of the state file.  An empty file reads as zero. -/
def readState (o : Outcome) : M Int := do
  openMeta o
  modify fun d => { d with state := some (d.state.getD 0) }
  return (← get).state.getD 0

/-- What a file that is written over without truncation holds. -/
def overwrite (text : String) (old : Option String) : String :=
  String.ofList (text.toList ++ (old.getD "").toList.drop text.toList.length)

def writeVersion (o : WriteOutcome) (version : String) : M Unit := do
  match o with
  | .openFails what => throw (.thrown what)
  | .stopBefore => throw .stopped
  | .writeFails what => openMeta (.fail what)
  | .stopTmp =>
    openMeta .ok
    modify fun d => { d with versionTmp := some (overwrite version d.versionTmp) }
    throw .stopped
  | .renameFails what =>
    openMeta .ok
    modify fun d => { d with versionTmp := none }
    throw (.thrown what)
  | .ok | .stopAfter =>
    openMeta .ok
    let written := overwrite version (← get).versionTmp
    modify fun d => { d with version := some written, versionTmp := none }
    record (.switched written)
    if o = .stopAfter then throw .stopped

def writeState (o : WriteOutcome) (state : Int) : M Unit := do
  match o with
  | .openFails what | .writeFails what | .renameFails what => openMeta (.fail what)
  | .stopBefore | .stopTmp => throw .stopped
  | .ok | .stopAfter =>
    openMeta .ok
    modify fun d => { d with state := some state }
    if o = .stopAfter then throw .stopped

/-! ## The app state -/

structure App where
  name : String
  uri : String
  deriving DecidableEq, Repr

structure AppState where
  version : String
  state : Int
  deriving DecidableEq, Repr

structure AppStateEnv where
  readVersion : Outcome
  readState : Outcome
  writeVersion : WriteOutcome
  deriving DecidableEq, Repr

/-- The constructor of `AppState`.  Its handler logs, and the exception goes on. -/
def appState (app : App) (setVersion : Bool) (env : AppStateEnv) : M AppState := do
  let version ← readVersion env.readVersion
  if app.uri = "" ∨ version = app.uri then
    return { version := version, state := ← readState env.readState }
  else if setVersion then
    writeVersion env.writeVersion app.uri
    return { version := app.uri, state := kUnknown }
  else
    return { version := version, state := kUnknown }

/-- A write that fails is only logged. -/
def setState (o : WriteOutcome) (state : Int) : M Unit :=
  catchThrown (writeState o state) fun _ => pure ()

/-! ## fetch, install, run, stop, isFetched -/

structure FetchEnv where
  createDirs : Outcome
  appState : AppStateEnv
  download : Outcome
  setDownloaded : WriteOutcome
  validate : Outcome
  setVerified : WriteOutcome
  pull : Outcome
  setPulled : WriteOutcome
  deriving DecidableEq, Repr

def createMetaDir (o : Outcome) : M Unit := do
  perform o
  modify fun d => { d with root := true, metaDir := true }

/-- `setState(kPulled)` at the end of `fetch`, with its trace. -/
def setPulled (o : WriteOutcome) (uri : String) : M Unit := do
  if o = .ok ∨ o = .stopAfter then record (.pulled uri)
  setState o kPulled

def fetch (app : App) (env : FetchEnv) : M Result := do
  record (.fetchBegin app.uri)
  createMetaDir env.createDirs
  catchThrown
    (do
      let _ ← appState app true env.appState
      perform env.download
      setState env.setDownloaded kDownloaded
      perform env.validate
      setState env.setVerified kVerified
      perform env.pull
      setPulled env.setPulled app.uri
      return .ok)
    fun what => return .failed what

structure FetchedEnv where
  appState : AppStateEnv
  deriving DecidableEq, Repr

/-- The state values that count as fetched. -/
def isFetchedState (state : Int) : Bool := state == kPulled || decide (kInstalled ≤ state)

def isFetched (app : App) (env : FetchedEnv) : M Bool := do
  if !(← get).root then return false
  catchThrown
    (do
      let state ← appState app false env.appState
      return isFetchedState state.state)
    fun _ => return false

/-- What the compose commands and the container check meet.  `containers` are the
services that have a container when the command is over, and `services` those of
the compose file. -/
structure ComposeEnv where
  command : Outcome
  containers : List String
  services : Except String (List String)
  getContainers : Outcome

/-- A compose command and what it leaves. -/
def runComposeCmd (env : ComposeEnv) : M Unit := do
  modify fun d => { d with containers := env.containers }
  perform env.command

def areContainersCreated (env : ComposeEnv) : M Bool := do
  match env.services with
  | .error what => throw (.thrown what)
  | .ok [] => throw (.thrown "No services found in App's compose file")
  | .ok services =>
    perform env.getContainers
    let d ← get
    return services.all fun s => d.containers.contains s

/-- The container check at the end of `install` and `run`.  A check that cannot be
made counts as passed. -/
def checkContainers (env : ComposeEnv) : M Result :=
  catchThrown
    (do
      if ← areContainersCreated env then return .ok
      else return .failed "App containers haven't been created")
    fun _ => return .ok

structure InstallEnv where
  appState : AppStateEnv
  compose : ComposeEnv
  setInstalled : WriteOutcome

def noAppDir : String := "App dir doesn't exist, cannot install App that hasn't been fetched"

/-- `docker compose up` with its exception as a result. -/
def upResult (env : ComposeEnv) : M Result :=
  catchThrown (do runComposeCmd env; return .ok) fun what => return .failed what

/-- The common end of `install` and `run`: look whether the containers are there,
and only then record the new state. -/
def finishUp (result : Result) (env : ComposeEnv) (o : WriteOutcome) (state : Int) : M Result := do
  if result ≠ .ok then return result
  let result ← checkContainers env
  if result = .ok then setState o state
  return result

def install (app : App) (env : InstallEnv) : M Result := do
  if !(← get).root then return .failed noAppDir
  let state ← appState app false env.appState
  let result ←
    if state.state = kInstalled ∨ state.state = kStarted then pure .ok
    else if state.state = kPulled then upResult env.compose
    else pure (.failed "Cannot install App that hasn't been fetched")
  finishUp result env.compose env.setInstalled kInstalled

structure RunEnv where
  isFetched : FetchedEnv
  createDirs : Outcome
  assumePulled : AppStateEnv
  setPulled : WriteOutcome
  appState : AppStateEnv
  compose : ComposeEnv
  setStarted : WriteOutcome

/-- `run` on an app of unknown state assumes that it is pulled. -/
def assumePulled (app : App) (env : RunEnv) : M Unit := do
  createMetaDir env.createDirs
  let _ ← appState app true env.assumePulled
  setState env.setPulled kPulled

def run (app : App) (env : RunEnv) : M Result := do
  if !(← get).root then return .failed noAppDir
  if !(← isFetched app env.isFetched) then assumePulled app env
  let state ← appState app false env.appState
  let result ←
    if state.state = kStarted then pure .ok
    else if state.state = kPulled ∨ state.state = kInstalled then upResult env.compose
    else pure (.failed "Cannot start App that hasn't been fetched")
  finishUp result env.compose env.setStarted kStarted

/-- `stop` brings the app down and leaves the state as it is. -/
def stop (env : ComposeEnv) : M Unit :=
  catchThrown (runComposeCmd env) fun _ => pure ()

end Engine
end AkLite
