/-
Check-ins.

A check-in updates the TUF metadata, from the server or from an offline bundle, and
returns the targets that are for the device.  A check-in with a bundle also checks the
bundle's own metadata, keeps the targets that these list, and looks for the content of
each target in the bundle.

The library's TUF repository is a parameter.  Its state goes through a check-in, and its
updates either succeed or end with an exception of one of the classes that the client
tells apart.  The files of a bundle are what their readers return.  Notifications and
reports have no say in the result; the text that the end of a check-in is reported with
is kept with the result.
-/
import AkLite.Bundle.Meta
import AkLite.Client.Api
import Mathlib.Data.List.Sort

namespace AkLite
namespace Client

open Lib

variable {Key Stamp R T : Type}

/-! ## The TUF repository -/

/-- What `UpdateMeta` throws, by the handlers for it. -/
inductive MetaError where
  | security (what : String)
  | expired (what : String)
  | fetchFailure (what : String)
  | notFound (what : String)
  | other (what : String)
  deriving DecidableEq, Repr

inductive RepoSource where
  | remote (tag dockerApps target ostreeHash : String)
  | local (tufRepo : String)
  deriving DecidableEq, Repr

def RepoSource.isOffline : RepoSource → Bool
  | .remote .. => false
  | .local _ => true

structure TufRepo (T : Type) where
  /-- The last root, or the empty text. -/
  getRoot : T → String
  /-- The targets of the verified metadata, if there are any. -/
  targets : T → Option (List Target)
  updateMeta : RepoSource → T → Except MetaError Unit × T
  checkMeta : T → Except String Unit × T

/-- `AkRepo::GetTargets`. -/
def TufRepo.getTargets (repo : TufRepo T) (t : T) : Except String (List TufTarget) :=
  ((repo.targets t).getD []).mapM toTufTarget

/-- What a client is configured with, and the libraries it uses. -/
structure Device (Key Stamp R T : Type) where
  tk : Bundle.Toolkit Key Stamp
  rootRepo : Bundle.RootRepo R
  repo : TufRepo T
  cfg : Config
  hwId : String
  secondaryHwids : List String
  tags : List String
  type : Bundle.ClientType

/-! ## The metadata update -/

def hasInfix (part text : String) : Bool :=
  (List.range (text.toList.length + 1)).any fun i =>
    part.toList.isPrefixOf (text.toList.drop i)

/-- Only the targets' metadata of a bundle that is older than the stored one. -/
def MetaError.isRollbackAttempt : MetaError → Bool
  | .security what => hasInfix "Rollback attempt" what
  | _ => false

def MetaError.checkIn (offline : Bool) : MetaError → CheckInStatus × String
  | .security what =>
    (.securityError, "Failed to update the local TUF repo; TUF metadata check failure: " ++ what)
  | .expired what =>
    (.expiredMetadata, "Failed to update the local TUF repo; TUF metadata is expired: " ++ what)
  | .fetchFailure what =>
    (.metadataFetchFailure,
      "Failed to update the local TUF repo; TUF metadata " ++
        (if offline then "not found" else "fetch failure") ++ ": " ++ what ++
        (if !offline && hasInfix "Failed to fetch role timestamp" what then
          "Check the device tag or verify the existence of a wave for the device"
        else ""))
  | .notFound what =>
    (.metadataNotFound, "Failed to update the local TUF repo; TUF metadata not found: " ++ what)
  | .other what => (.failed, "Failed to update the local TUF repo: " ++ what)

/-- The stored metadata stand in for those of the server, and for those of a bundle only
if they are newer. -/
def updateMeta (repo : TufRepo T) (source : RepoSource) (t : T) : (CheckInStatus × String) × T :=
  match repo.updateMeta source t with
  | (.ok (), t) => ((.ok, ""), t)
  | (.error e, t) =>
    let (status, err) := e.checkIn source.isOffline
    if !source.isOffline || e.isRollbackAttempt then
      match repo.checkMeta t with
      | (.ok (), t) => ((.okCached, err), t)
      | (.error what, t) => ((status, "Local TUF repo is invalid: " ++ what), t)
    else ((status, err), t)

/-! ## The targets for the device -/

/-- A search that stops at the first match. -/
def findTag (tag : String) : List Json → Except String Bool
  | [] => .ok false
  | entry :: rest => do if (← entry.asString) = tag then return true else findTag tag rest

def findOneOfTags (entries : List Json) : List String → Except String Bool
  | [] => .ok false
  | tag :: rest => do if ← findTag tag entries then return true else findOneOfTags entries rest

def hasOneOfTags (custom : Json) (tags : List String) : Except String Bool := do
  match ← custom.index "tags" with
  | .arr entries => findOneOfTags entries tags
  | _ => return false

/-- The body of the loop of `filterTargets`. -/
def isForDevice (hwId : String) (tags secondaryHwids : List String) (t : TufTarget) :
    Except String Bool := do
  if (← t.custom.index "targetFormat") ≠ .str "OSTREE" then return false
  if !tags.isEmpty then
    if !(← hasOneOfTags t.custom tags) then return false
  let id ← t.hardwareId
  return id == hwId || secondaryHwids.contains id

/-- The elements that pass a test that can throw. -/
def filterWhere {α : Type} (p : α → Except String Bool) : List α → Except String (List α)
  | [] => .ok []
  | a :: rest => do
    let keep ← p a
    let others ← filterWhere p rest
    return if keep then a :: others else others

/-- Targets of one version stay in their order, which the source leaves open. -/
def sortTargets (targets : List TufTarget) : List TufTarget :=
  targets.insertionSort fun a b => a.version ≤ b.version

def filterTargets (all : List TufTarget) (hwId : String) (tags secondaryHwids : List String) :
    Except String (List TufTarget) := do
  return sortTargets (← filterWhere (isForDevice hwId tags secondaryHwids) all)

/-! ## The content of a bundle -/

/-- `LocalUpdateSource`. -/
structure LocalUpdateSource where
  tufRepo : String
  ostreeRepo : String
  appStore : String
  deriving DecidableEq, Repr

/-- The directory `apps`, if it is there: the directories of the apps, those of their
versions, and the file `uri` of each.  An error is an entry that is no directory, or a file
that cannot be read. -/
abbrev AppListing := Option (Except String (List (Except String (List (Except String String)))))

/-- What the readers of a bundle find.  An ostree repository that opens can be asked for a
commit; to look it up can fail. -/
structure Content where
  tuf : Bundle.Dir
  apps : AppListing
  ostree : Except String (String → Except String Bool)

/-- The URIs of the apps in the bundle. -/
def parseUpdateContent : AppListing → Except String (List String)
  | none => .ok []
  | some listing => do return (← (← listing).mapM fun app => do (← app).mapM id).flatten

/-- The apps of a target that an offline update is for. -/
inductive OfflineApps where
  | allTargetApps
  | noneOfTargetApps
  | onlyShortlistedApps (apps : List String)
  deriving DecidableEq, Repr

def isDelimiter (c : Char) : Bool := c == ',' || c == ' '

/-- Adjacent delimiters count as one.  There is an empty token where the text begins or
ends with one. -/
def splitTokens (text : String) : List String :=
  let parts := text.toList.splitOnP isDelimiter
  let tokens := (parts.filter (· ≠ [])).map String.ofList
  if parts.head? = some [] ∨ parts.getLast? = some [] then "" :: tokens else tokens

/-- The tokens that are apps of the target. -/
def shortlistedApps (apps : Json) (shortlist : String) : Except String (List String) :=
  filterWhere apps.isMember (splitTokens shortlist)

def getAppsFetchedForOfflineUpdate (custom : Json) : Except String OfflineApps := do
  match ← custom.index "fetched-apps" with
  | .obj fields =>
    match fields.lookup "uri" with
    | some (.str uri) =>
      if uri = "" then return .noneOfTargetApps
      match fields.lookup "shortlist" with
      | some (.str shortlist) =>
        if shortlist = "" then return .allTargetApps
        let apps ← shortlistedApps (← appsJson custom) shortlist
        return if apps.isEmpty then .noneOfTargetApps else .onlyShortlistedApps apps
      | _ => return .allTargetApps
    | _ => return .noneOfTargetApps
  | _ => return .allTargetApps

/-- Assignment to a member of the member that says where the content is. -/
def putLocalSrc (custom : Json) (key value : String) : Except String Json := do
  let (custom, src) ← custom.touch localSrcDirKey
  custom.insert localSrcDirKey (← src.insert key (.str value))

def updateCustom (t : Target) (custom : Json) : Target :=
  { filename := t.filename, sha256Hash := t.sha256Hash, custom := custom, correlationId := "",
    isValid := true }

/-- Keep the apps of a shortlist. -/
def restrictApps (custom : Json) (shortlist : List String) : Except String Json := do
  match ← appsJson custom with
  | .obj apps =>
    match apps.filter fun app => shortlist.contains app.1 with
    | [] => custom.removeMember "docker_compose_apps"
    | kept => custom.insert "docker_compose_apps" (.obj kept)
  | _ => return custom

/-- An app that the bundle has to bring. -/
def OfflineApps.needs (offline : OfflineApps) (name : String) : Bool :=
  match offline with
  | .allTargetApps => true
  | .noneOfTargetApps => false
  | .onlyShortlistedApps apps => apps.contains name

/-- The custom data of a target whose content is in the bundle. -/
def availableCustom (styled : Json → String) (cfg : Config) (source : LocalUpdateSource)
    (foundApps : List String) (custom : Json) : Except String (Option Json) := do
  if cfg.pacman ≠ .compose then return some (← putLocalSrc custom "ostree" source.ostreeRepo)
  let offline ← getAppsFetchedForOfflineUpdate custom
  if offline = .noneOfTargetApps then
    let custom ← putLocalSrc custom "ostree" source.ostreeRepo
    return some (← custom.removeMember "docker_compose_apps")
  let required ← getRequiredApps styled cfg custom
  if required.any fun app => !foundApps.contains app.2 && offline.needs app.1 then return none
  let custom ←
    match offline with
    | .onlyShortlistedApps apps => restrictApps custom apps
    | _ => pure custom
  let custom ← putLocalSrc custom "ostree" source.ostreeRepo
  return some (← putLocalSrc custom "apps" source.appStore)

/-- The body of the loop of `getAvailableTargets`. -/
def availableTarget (styled : Json → String) (cfg : Config) (source : LocalUpdateSource)
    (foundApps : List String) (hasCommit : String → Except String Bool) (t : Target) :
    Except String (Option Target) := do
  if !(← hasCommit t.sha256Hash) then return none
  return (← availableCustom styled cfg source foundApps t.custom).map (updateCustom t)

def availableTargets (styled : Json → String) (cfg : Config) (source : LocalUpdateSource)
    (foundApps : List String) (hasCommit : String → Except String Bool) :
    List Target → Except String (List Target)
  | [] => .ok []
  | t :: rest => do
    let found ← availableTarget styled cfg source foundApps hasCommit t
    let others ← availableTargets styled cfg source foundApps hasCommit rest
    return found.toList ++ others

def getAvailableTargets (styled : Json → String) (cfg : Config) (source : LocalUpdateSource)
    (content : Content) (allowed : List Target) : Except String (List Target) := do
  if allowed.isEmpty then return []
  let foundApps ← parseUpdateContent content.apps
  let hasCommit ← content.ostree
  availableTargets styled cfg source foundApps hasCommit allowed

/-! ## The targets a bundle lists -/

def getTrustedBundleTargets (tufTargets : List TufTarget) (bundle : Json) :
    Except String (List TufTarget) := do
  let listed ← (← Bundle.offlineBundle bundle).index "targets"
  return listed.values.flatMap fun entry => tufTargets.filter fun t => entry == .str t.name

/-- A bundle without metadata restricts nothing. -/
def getTrustedTargets (tufTargets : List TufTarget) (bundle : Json) :
    Except String (List TufTarget) :=
  if bundle.isEmpty then .ok tufTargets else getTrustedBundleTargets tufTargets bundle

/-! ## The calls -/

/-- The result of a check-in and the text its end is reported with, which is empty for a
success and absent if nothing is reported. -/
structure CheckedIn where
  result : CheckInResult
  finished : Option String

def checkInFailure (hwId : String) (status : CheckInStatus) (err : String) : CheckedIn :=
  { result := { status := status, primaryHwid := hwId, targets := [] }, finished := some err }

section Calls

variable (d : Device Key Stamp R T)

def noTargetFound : String :=
  "No Target found for the device; hw ID: " ++ d.hwId ++ "; tags: " ++ ",".intercalate d.tags

def checkInSuccess (status : CheckInStatus) (targets : List TufTarget) : CheckedIn :=
  { result := { status := status, primaryHwid := d.hwId, targets := targets }
    finished := if d.cfg.invokePostCbAtCheckin then some "" else none }

/-- The names of the target's enabled apps. -/
def appsStr (custom : Json) : Except String String := do
  let apps ← targetApps d.tk.toStyledString custom
  return ",".intercalate ((apps.map Prod.fst).filter d.cfg.enables)

def remoteSource (current : Target) : Except String RepoSource := do
  return .remote (d.tags.headD "") (← appsStr d current.custom) current.filename current.sha256Hash

/-- `CheckIn` with the metadata updated. -/
def remoteTargets (t : T) : Except String CheckedIn := do
  let matching ← filterTargets (← d.repo.getTargets t) d.hwId d.tags d.secondaryHwids
  if matching.isEmpty then return checkInFailure d.hwId .noMatchingTargets (noTargetFound d)
  return checkInSuccess d .ok matching

def checkIn (current : Target) (t : T) : Except String CheckedIn × T :=
  match remoteSource d current with
  | .error what => (.error what, t)
  | .ok source =>
    match updateMeta d.repo source t with
    | ((status, err), t) =>
      if status = .ok ∨ status = .okCached then (remoteTargets d t, t)
      else (.ok (checkInFailure d.hwId status err), t)

/-- The status of a failed check of the bundle metadata. -/
def bundleStatus : Bundle.ErrorType → CheckInStatus
  | .expired => .expiredMetadata
  | .notFound | .rootMetaNotFound => .metadataNotFound
  | _ => .bundleMetadataError

/-- `CheckInLocal` with the metadata updated. -/
def localTargets (source : LocalUpdateSource) (content : Content) (status : CheckInStatus)
    (bundle : Json) (t : T) : Except String CheckedIn := do
  let trusted ← getTrustedTargets (← d.repo.getTargets t) bundle
  if trusted.isEmpty then
    return checkInFailure d.hwId .noMatchingTargets
      "None of the bundle targets are listed among the TUF targets allowed for the device"
  let matching ← filterTargets trusted d.hwId d.tags d.secondaryHwids
  if matching.isEmpty then
    return checkInFailure d.hwId .noMatchingTargets
      ("Couldn't find Targets matching the device's hardware ID; check a tag or a hardware ID " ++
        "of the device and the bundle's tag")
  let available ← getAvailableTargets d.tk.toStyledString d.cfg source content
    (matching.map fromTufTarget)
  if available.isEmpty then
    return checkInFailure d.hwId .noTargetContent
      ("No update content found in ostree dir  " ++ source.ostreeRepo ++ " and app dir " ++
        source.appStore)
  return checkInSuccess d status (← available.mapM toTufTarget)

def checkInLocal (source : LocalUpdateSource) (content : Content) (t : T) :
    Except String CheckedIn × T :=
  match Bundle.getBundleMeta d.tk d.rootRepo (d.repo.getRoot t) content.tuf d.type d.tags with
  | .error (.other what) => (.error what, t)
  | .error (.bundleMeta type what) =>
    (.ok (checkInFailure d.hwId (bundleStatus type)
      ("The bundle metadata check failed: " ++ what)), t)
  | .ok bundle =>
    match updateMeta d.repo (.local source.tufRepo) t with
    | ((status, err), t) =>
      if status = .ok ∨ status = .okCached then (localTargets d source content status bundle t, t)
      else (.ok (checkInFailure d.hwId status err), t)

/-- `CheckInCurrent` with the stored metadata checked.  A bundle is looked into only if one
is given. -/
def storedTargets (bundle? : Option (LocalUpdateSource × Content)) (t : T) :
    Except String CheckInResult := do
  let matching ← filterTargets (← d.repo.getTargets t) d.hwId d.tags d.secondaryHwids
  if matching.isEmpty then
    return { status := .noMatchingTargets, primaryHwid := d.hwId, targets := [] }
  match bundle? with
  | none => return { status := .okCached, primaryHwid := d.hwId, targets := matching }
  | some (source, content) =>
    let available ← getAvailableTargets d.tk.toStyledString d.cfg source content
      (matching.map fromTufTarget)
    if available.isEmpty then
      return { status := .noTargetContent, primaryHwid := d.hwId, targets := [] }
    return { status := .okCached, primaryHwid := d.hwId, targets := ← available.mapM toTufTarget }

/-- Nothing is reported, neither the start of this check-in nor its end. -/
def checkInCurrent (bundle? : Option (LocalUpdateSource × Content)) (t : T) :
    Except String CheckInResult × T :=
  match d.repo.checkMeta t with
  | (.error _, t) => (.ok { status := .securityError, primaryHwid := d.hwId, targets := [] }, t)
  | (.ok (), t) => (storedTargets d bundle? t, t)

end Calls

end Client
end AkLite
