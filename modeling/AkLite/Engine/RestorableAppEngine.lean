/-
The app engine that keeps apps in a store of its own.

The store has a directory for each version of an app, with the manifest, the archive,
the compose file from the archive and the indexes of the images, and the blobs of all
images by their hashes.  Checking an app works on the store: the compose file is written
anew, and what is found to be broken is removed.

What the registry, the image tool and the volumes answer during a call is the call's
environment.  A registry call and an image pull may leave something in the store and fail
all the same.  The hash, the JSON parser, `tar` and the YAML converter are one toolkit for
all calls.  Local file operations succeed, but a directory that has something in it is
removed by `remove_all` only.
-/
import AkLite.Client.World
import AkLite.Engine.Docker
import AkLite.Lib.Effect
import AkLite.Lib.FileTree

namespace AkLite
namespace Docker
namespace RestorableAppEngine

open Lib
open Client (App UsageInfo)

/-! ## The store -/

/-- The files below `apps`, and the blobs below `blobs/sha256`. -/
structure Store where
  apps : FileTree
  blobs : List (String × String)
  deriving DecidableEq, Repr

structure Toolkit where
  /-- The hash of a content, in lower case. -/
  sha256 : String → String
  /-- Null for a text that is no JSON. -/
  parseJSON : String → Json
  canonical : Json → String
  /-- The printed real number is whole. -/
  whole : String → Bool
  /-- The compose file in an archive. -/
  extract : String → Except String String
  /-- A compose file as JSON. -/
  yaml2json : String → Except String Json
  usageText : UsageInfo → String

inductive Exn where
  | insufficientSpace (store : String) (stat : UsageInfo)
  | other (what : String)
  deriving DecidableEq, Repr

abbrev Eff := EStateM Exn Store

def lift {α : Type} (x : Except String α) : Eff α := orThrow (x.mapError .other)

def appDir (uri : Uri) : Path := [uri.app, uri.digest.hash]

def composeFile : String := "docker-compose.yml"

def showPath (p : Path) : String := "/".intercalate p

/-- `Utils::readFile`. -/
def Store.readFile (s : Store) (p : Path) : Except String String :=
  match s.apps.read p with
  | some content => .ok content
  | none => .error ("Unable to open file " ++ showPath p)

/-- `Utils::parseJSONFile`. -/
def Store.parseJSONFile (tk : Toolkit) (s : Store) (p : Path) : Json :=
  match s.apps.read p with
  | some content => tk.parseJSON content
  | none => .null

def Store.manifest (tk : Toolkit) (s : Store) (dir : Path) : Except String Manifest :=
  Manifest.parse tk.canonical (s.parseJSONFile tk (dir ++ [Manifest.filename]))

def archivePath (dir : Path) (hash : String) : Path := dir ++ [hash ++ Manifest.archiveExt]

def Store.extractComposeFile (tk : Toolkit) (s : Store) (archive : Path) :
    Except String String := do
  tk.extract (← s.readFile archive)

/-- The constructor of `ComposeInfo`. -/
def Store.composeInfo (tk : Toolkit) (s : Store) (p : Path) : Except String Json :=
  match s.apps.read p with
  | some content => tk.yaml2json content
  | none => .error ("The specified `yaml` file is not found: " ++ showPath p)

def Store.hasBlob (s : Store) (hash : String) : Bool := (s.blobs.lookup hash).isSome

def writeFile (p : Path) (content : String) : Eff Unit :=
  modify fun s => { s with apps := s.apps.write p content }

def createDirectories (p : Path) : Eff Unit :=
  modify fun s => { s with apps := s.apps.mkdirs p }

def removeFile (p : Path) : Eff Unit := do
  let apps ← lift ((← get).apps.remove p)
  modify fun s => { s with apps := apps }

def removeAll (p : Path) : Eff Unit :=
  modify fun s => { s with apps := s.apps.removeAll p }

def removeBlob (hash : String) : Eff Unit :=
  modify fun s => { s with blobs := s.blobs.filter fun b => b.1 != hash }

/-! ## Is an app fetched? -/

/-- Below the directory of the images. -/
def imageDir (uri : Uri) : Path :=
  [uri.registryHostname] ++ (uri.repo.toList.splitOn '/').map String.ofList ++ [uri.digest.hash]

/-- A blob of another size than the layer's is removed. -/
def isLayerStored (layer : Json) : Eff Bool := do
  if !(layer.isObjectWith "digest" && layer.isObjectWith "size") then return false
  let digest ← lift do HashedDigest.parse (← (← layer.index "digest").asString)
  let size ← lift do (← layer.index "size").asInt64
  match (← get).blobs.lookup digest.hash with
  | none => return false
  | some blob =>
    if (blob.utf8ByteSize : Int) ≠ size then
      removeBlob digest.hash
      return false
    return true

def areLayersStored : List Json → Eff Bool
  | [] => return true
  | layer :: rest => do
    if !(← isLayerStored layer) then return false
    areLayersStored rest

/-- A blob that is there and has the hash it is named by. -/
def Store.isBlobIntact (tk : Toolkit) (s : Store) (digest : HashedDigest) : Bool :=
  match s.blobs.lookup digest.hash with
  | none => false
  | some blob => tk.sha256 blob == digest.hash

/-- The body of the `try` in `areAppImagesFetched`. -/
def checkImage (tk : Toolkit) (index : Path) : Eff Bool := do
  let desc := (← get).parseJSONFile tk index
  if !desc.isObjectWith "manifests" then
    removeFile index
    return false
  let digest ← lift do
    HashedDigest.parse (← (← (← (← desc.index "manifests").elem 0).index "digest").asString)
  if !(← get).isBlobIntact tk digest then return false
  let manifest := tk.parseJSON (((← get).blobs.lookup digest.hash).getD "")
  let config ← lift do
    HashedDigest.parse (← (← (← manifest.index "config").index "digest").asString)
  if !(← get).isBlobIntact tk config then return false
  areLayersStored (← lift (manifest.index "layers")).values

/-- The image of a service.  An image that cannot be checked is removed. -/
def isImageFetched (tk : Toolkit) (dir : Path) (image : String) : Eff Bool := do
  let uri ← lift (parseUri image false)
  let imageRoot := dir ++ ["images"] ++ imageDir uri
  let index := imageRoot ++ ["index.json"]
  if !(← get).apps.has index then return false
  tryCatch (checkImage tk index) fun _ => do
    removeAll imageRoot
    return false

def areImagesFetched (tk : Toolkit) (dir : Path) : List (Except String String) → Eff Bool
  | [] => return true
  | image :: rest => do
    if !(← isImageFetched tk dir (← lift image)) then return false
    areImagesFetched tk dir rest

def areAppImagesFetched (tk : Toolkit) (dir : Path) : Eff Bool := do
  let compose ← lift ((← get).composeInfo tk (dir ++ [composeFile]))
  areImagesFetched tk dir (← lift (serviceImages compose))

def isAppFetched (tk : Toolkit) (app : App) : Eff Bool := do
  let uri ← lift (parseUri app.2 true)
  let dir := appDir uri
  if !(← get).apps.has dir then return false
  let manifestFile := dir ++ [Manifest.filename]
  if !(← get).apps.has manifestFile then return false
  let text ← lift ((← get).readFile manifestFile)
  if tk.sha256 text ≠ uri.digest.hash then return false
  let manifest ← lift ((← get).manifest tk dir)
  let hash ← lift (manifest.archiveHash tk.canonical)
  let archive := archivePath dir hash
  if !(← get).apps.has archive then return false
  let content ← lift ((← get).readFile archive)
  if tk.sha256 content ≠ hash then return false
  let compose ← lift ((← get).extractComposeFile tk archive)
  writeFile (dir ++ [composeFile]) compose
  areAppImagesFetched tk dir

/-! ## Fetching an app -/

/-- What a download does to its file. -/
inductive Download where
  | unopened
  | failed (content what : String)
  | done (content : String)
  deriving DecidableEq, Repr

/-- What a pull leaves behind, and the text of its failure. -/
structure ImagePull where
  blobs : List (String × String)
  index : Option String
  error : Option String
  deriving DecidableEq, Repr

/-- The questions about free space, in the order they may be asked in. -/
inductive Probe where
  | archive
  | skopeo (again : Bool)
  | docker
  | both (again : Bool)
  deriving DecidableEq, Repr

structure FetchEnv where
  /-- By the URI, the format and the expected size. -/
  getAppManifest : Uri → String → Option Int → Except String String
  /-- By the URI, the name of the file and the expected size. -/
  downloadBlob : Uri → String → Int → Download
  space : Probe → UsageInfo
  arch : String
  /-- The volume of the store is the one of the docker root. -/
  sameVolume : Bool
  /-- By the URI of the app and of the image. -/
  imageSrc : Uri → String → Except String String
  /-- By the position of the service and the source. -/
  pullImage : Nat → String → ImagePull

def withRequired (stat : UsageInfo) (required : UInt64) : UsageInfo :=
  { stat with required := required.toNat }

def download (env : FetchEnv) (uri : Uri) (dir : Path) (name : String) (size : Int) : Eff Unit := do
  match env.downloadBlob uri name size with
  | .unopened => throw (.other ("Failed to open a file: " ++ showPath (dir ++ [name])))
  | .failed content what =>
    writeFile (dir ++ [name]) content
    throw (.other what)
  | .done content => writeFile (dir ++ [name]) content

def pullApp (tk : Toolkit) (env : FetchEnv) (uri : Uri) : Eff Unit := do
  let dir := appDir uri
  createDirectories dir
  let text ← lift (env.getAppManifest uri Manifest.format none)
  let manifest ← lift (Manifest.parse tk.canonical (tk.parseJSON text))
  let digest ← lift do HashedDigest.parse (← manifest.archiveDigest tk.canonical)
  let usage := env.space .archive
  if usage.isOk then
    -- the files in the archive may take three times its size
    let needed := UInt64.ofNat (← lift (manifest.archiveSize tk.canonical)) * 3
    if needed.toNat > usage.available then
      throw (.insufficientSpace "skopeo apps" (withRequired usage needed))
  let size ← lift (manifest.archiveSize tk.canonical)
  download env (uri.createUri digest) dir (digest.hash ++ Manifest.archiveExt) size
  writeFile (dir ++ [Manifest.filename]) text
  writeFile (dir ++ ["uri"]) (uri.registryHostname ++ "/" ++ uri.repo ++ "@" ++ uri.digest.digest)
  let compose ← lift ((← get).extractComposeFile tk (archivePath dir digest.hash))
  writeFile (dir ++ [composeFile]) compose

/-! ### The size of an update -/

def addSize (total : UInt64) (size : Int) : Except String UInt64 :=
  let sum := total + .ofInt size
  if sum < total || sum < .ofInt size then
    .error "Sum of layer sizes exceeded the maximum allowed value: 18446744073709551615"
  else .ok sum

/-- The sizes of the layers that are not stored. -/
def getAppUpdateSize (tk : Toolkit) (layers : Json) (stored : String → Bool) :
    Except String UInt64 :=
  layers.values.foldlM (fun total layer => do
    let digest ← HashedDigest.parse (← (← layer.index "digest").asString)
    if stored digest.hash then return total
    let sizeObj ← layer.index "size"
    if !sizeObj.isInt64 tk.whole then
      throw ("Invalid value of a layer size, must be int64, got: " ++ (← sizeObj.asString))
    let size ← sizeObj.asInt64
    if size < 0 then
      throw ("Invalid value of a layer size, must be > 0, got: " ++ toString size)
    addSize total size) 0

def getDockerStoreSizeForAppUpdate (compressed ratio : UInt64) : Except String UInt64 :=
  if UInt64.size ≤ compressed.toNat * ratio.toNat then
    .error "Docker total update size exceeds the maximum allowed value: 18446744073709551615"
  else .ok (compressed * ratio)

/-- The archive sizes and the disk usage of the layers that are not stored. -/
def getPreciseAppUpdateSize (tk : Toolkit) (layers : Json) (stored : String → Bool) :
    Except String (UInt64 × UInt64) :=
  layers.entries.foldlM (fun total entry => do
    let (key, layer) := entry
    let digest ← HashedDigest.parse key
    if stored digest.hash then return total
    if !(← layer.isMember "usage") then
      throw ("Invalid layers metadata; `usage` field is missing: " ++ (← layer.asString))
    if !(← layer.index "usage").isInt64 tk.whole then
      throw ("Invalid value of a layer usage, must be int64, got: " ++
        (← (← layer.index "usage").asString))
    discard (← layer.index "size").asInt64
    let usage ← (← layer.index "usage").asInt64
    let archiveSize ← (← layer.index "archive_size").asInt64
    return (← addSize total.1 archiveSize, ← addSize total.2 usage)) (0, 0)

/-- The sizes from downloaded layer metadata. -/
def preciseSizes (tk : Toolkit) (arch : String) (layersMeta : Json) (stored : String → Bool) :
    Except String (UInt64 × UInt64) := do
  if !(← layersMeta.isMember arch) then
    throw ("No layers metadata for the given arch: " ++ arch)
  getPreciseAppUpdateSize tk (← (← layersMeta.index arch).index "layers") stored

/-- The estimate from the layers of the architecture, if the manifest has any. -/
def estimatedSizes (tk : Toolkit) (env : FetchEnv) (uri : Uri) (manifest : Manifest)
    (stored : String → Bool) : Except String (Option (UInt64 × UInt64)) := do
  let layersManifest ← manifest.layersManifest env.arch
  match layersManifest with
  | .obj _ =>
    let .str digest ← layersManifest.index "digest"
      | throw "Got invalid layers manifest, missing or incorrect `digest` field"
    let sizeObj ← layersManifest.index "size"
    if !sizeObj.isInt64 tk.whole then
      throw "Got invalid layers manifest, missing or incorrect `size` field"
    let layersUri := uri.createUri (← HashedDigest.parse digest)
    let text ← env.getAppManifest layersUri Manifest.indexFormat (some (← sizeObj.asInt64))
    let skopeo ← getAppUpdateSize tk (← (tk.parseJSON text).index "layers") stored
    return some (skopeo, ← getDockerStoreSizeForAppUpdate skopeo 5)
  | _ => return none

def isTmp (p : Path) : Bool := "oci-put-blob".toList.isPrefixOf (p.getLastD "").toList

def removeTmpFiles : Eff Unit := do
  let tmpFiles := (← get).apps.paths.filter isTmp
  tryCatch (tmpFiles.forM removeFile) fun _ => pure ()

def checkRoomInStore (env : FetchEnv) (probe : Probe) (store : String) (required : UInt64) :
    Eff Unit := do
  let usage := env.space probe
  if required.toNat > usage.available then
    throw (.insufficientSpace store (withRequired usage required))

/-- Temporary files may be what takes the space. -/
def checkRoomTwice (env : FetchEnv) (probe : Bool → Probe) (store : String) (required : UInt64) :
    Eff Unit :=
  tryCatch (checkRoomInStore env (probe false) store required) fun
    | .insufficientSpace _ _ => do
      removeTmpFiles
      checkRoomInStore env (probe true) store required
    | .other what => throw (.other what)

def checkAvailableStorageInStores (env : FetchEnv) (skopeo docker : UInt64) : Eff Unit := do
  checkRoomTwice env .skopeo "skopeo" skopeo
  checkRoomInStore env .docker "docker" docker
  if env.sameVolume then
    let combined := skopeo + docker
    if combined < skopeo || combined < docker then
      throw (.other ("Sum of skopeo and docker update sizes exceeds the maximum allowed value: " ++
        "18446744073709551615"))
    checkRoomTwice env .both "skopeo & docker" combined

/-- The body of the `try` in `checkAppUpdateSize`. -/
def downloadPreciseSizes (tk : Toolkit) (env : FetchEnv) (uri : Uri) (desc : Descriptor) :
    Eff (UInt64 × UInt64) := do
  let dir := appDir uri
  download env (uri.createUri desc.digest) dir desc.digest.hash desc.size
  let s ← get
  lift (preciseSizes tk env.arch (s.parseJSONFile tk (dir ++ [desc.digest.hash])) s.hasBlob)

/-- A failure to use layer metadata is only logged. -/
def metadataSizes (tk : Toolkit) (env : FetchEnv) (uri : Uri) (desc : Descriptor) :
    Eff (Option (UInt64 × UInt64)) :=
  if desc.isPresent then
    tryCatch (some <$> downloadPreciseSizes tk env uri desc) fun _ => pure none
  else pure none

def appUpdateSizes (tk : Toolkit) (env : FetchEnv) (uri : Uri) (manifest : Manifest) :
    Eff (Option (UInt64 × UInt64)) := do
  let desc ← lift (manifest.layersMetaDescr tk.canonical)
  match ← metadataSizes tk env uri desc with
  | some sizes => return some sizes
  | none => lift (estimatedSizes tk env uri manifest (← get).hasBlob)

def checkAppUpdateSize (tk : Toolkit) (env : FetchEnv) (uri : Uri) : Eff Unit := do
  let manifest ← lift ((← get).manifest tk (appDir uri))
  if env.arch = "" then return ()
  match ← appUpdateSizes tk env uri manifest with
  | none => return ()
  | some (skopeo, docker) => checkAvailableStorageInStores env skopeo docker

/-! ### Images -/

def pullImage (env : FetchEnv) (i : Nat) (src : String) (dir : Path) : Eff Unit := do
  createDirectories dir
  let pulled := env.pullImage i src
  modify fun s => { s with blobs := pulled.blobs ++ s.blobs }
  match pulled.index with
  | some index => writeFile (dir ++ ["index.json"]) index
  | none => pure ()
  match pulled.error with
  | some what => throw (.other what)
  | none => pure ()

def pullImages (env : FetchEnv) (appUri : Uri) (dir : Path) :
    Nat → List (Except String String) → Eff Unit
  | _, [] => return ()
  | i, image :: rest => do
    let image ← lift image
    let uri ← lift (parseUri image false)
    let src ← lift (env.imageSrc appUri image)
    pullImage env i src (dir ++ imageDir uri)
    pullImages env appUri dir (i + 1) rest

def pullAppImages (tk : Toolkit) (env : FetchEnv) (uri : Uri) : Eff Unit := do
  let dir := appDir uri ++ ["images"]
  createDirectories dir
  let compose ← lift ((← get).composeInfo tk (appDir uri ++ [composeFile]))
  pullImages env uri dir 0 (← lift (serviceImages compose))

/-! ### The call -/

/-- `Result::ID`. -/
inductive Status where
  | ok
  | failed
  | insufficientSpace
  | imagePullFailure
  deriving DecidableEq, Repr

structure Result where
  status : Status
  err : String
  stat : UsageInfo
  deriving DecidableEq, Repr

def undefinedStat : UsageInfo := { path := "", available := 0, required := 0, err := "undefined" }

def Exn.result (tk : Toolkit) : Exn → Result
  | .insufficientSpace store stat =>
    { status := .insufficientSpace
      err := "Insufficient storage available; store: " ++ store ++ "; " ++ tk.usageText stat
      stat := stat }
  | .other what => { status := .failed, err := what, stat := undefinedStat }

/-- The body of the `try` in `fetch`, with the URI parsed. -/
def fetchApp (tk : Toolkit) (env : FetchEnv) (app : App) (uri : Uri) : Eff Unit := do
  if !(← isAppFetched tk app) then pullApp tk env uri
  checkAppUpdateSize tk env uri
  pullAppImages tk env uri

/-- Without a URI there is no directory to remove. -/
def fetch (tk : Toolkit) (env : FetchEnv) (app : App) : Eff Result := do
  match parseUri app.2 true with
  | .error what => return Exn.result tk (.other what)
  | .ok uri =>
    let res ←
      tryCatch (do
        fetchApp tk env app uri
        return { status := .ok, err := "", stat := undefinedStat })
      fun e => pure (e.result tk)
    if res.status ≠ .ok then
      if (← get).apps.has (appDir uri) then removeAll (appDir uri)
    return res

end RestorableAppEngine
end Docker
end AkLite
