/-
Digests, URIs and manifests of compose apps.

An app is pinned by a URI `<registry>/<factory>/<app>@sha256:<hash>`, whose hash is the
one of the app's manifest.  The manifest names the archive with the compose file, and may
name layer metadata and the layers of an architecture.  An exception is its text.
-/
import AkLite.Lib.Json
import AkLite.Lib.Outcome

namespace AkLite
namespace Docker

open Lib

/-! ## Digests and URIs -/

structure HashedDigest where
  digest : String
  hash : String
  size_hash : hash.utf8ByteSize = 64
  deriving DecidableEq, Repr

namespace HashedDigest

def type : String := "sha256:"

def parse (text : String) : Except String HashedDigest :=
  let digest := text.toList.map Char.toLower
  if digest.take type.length ≠ type.toList then .error ("Unsupported hash type: " ++ text)
  else
    let hash := String.ofList (digest.drop type.length)
    if h : hash.utf8ByteSize = 64 then
      .ok { digest := String.ofList digest, hash := hash, size_hash := h }
    else .error ("Invalid hash size: " ++ text)

end HashedDigest

structure Uri where
  digest : HashedDigest
  app : String
  factory : String
  repo : String
  registryHostname : String
  deriving DecidableEq, Repr

/-- The text before the last slash, if there is one, and the text after it. -/
def splitLastSlash (name : List Char) : Option (List Char) × List Char :=
  let app := (name.reverse.takeWhile (· ≠ '/')).reverse
  if name.contains '/' then (some (name.take (name.length - app.length - 1)), app)
  else (none, name)

/-- `Uri::parseUri`. -/
def parseUri (uri : String) (factoryApp : Bool) : Except String Uri := do
  let text := uri.toList
  if !text.contains '@' then throw ("Invalid URI: digest/'@' not found in " ++ uri)
  let pinned := text.takeWhile (· ≠ '@')
  if !text.contains '/' then throw ("Invalid URI: image name/path is not found in " ++ uri)
  let registry := text.takeWhile (· ≠ '/')
  if pinned.length ≤ registry.length + 1 then
    throw ("Invalid URI: image name/path is not present before digest; uri: " ++ uri)
  let name := pinned.drop (registry.length + 1)
  let (factory?, app) := splitLastSlash name
  let factory := factory?.getD []
  if factoryApp && (factory.isEmpty || factory.contains '/') then
    throw ("Invalid URI: invalid name format of a factory image, must be <factory>/<repo>; uri: " ++
      uri)
  return { digest := ← HashedDigest.parse (String.ofList (text.drop (pinned.length + 1)))
           app := String.ofList app
           factory := String.ofList factory
           repo := String.ofList name
           registryHostname := String.ofList registry }

def Uri.createUri (uri : Uri) (digest : HashedDigest) : Uri := { uri with digest := digest }

/-! ## Manifests -/

/-- A checked app manifest.  `canonical` prints a value for the text of an exception. -/
structure Manifest where
  json : Json

namespace Manifest

def filename : String := "manifest.json"

def archiveExt : String := ".tgz"

def format : String := "application/vnd.oci.image.manifest.v1+json"

def indexFormat : String := "application/vnd.oci.image.index.v1+json"

def parse (canonical : Json → String) (json : Json) : Except String Manifest := do
  let version ← (← (← json.index "annotations").index "compose-app").asString
  if version = "" then
    throw ("Got invalid App manifest, missing a manifest version: " ++ canonical json)
  if version ≠ "v1" then throw ("Got unsupported App manifest version: " ++ canonical json)
  return { json := json }

def archive (m : Manifest) : Except String Json := do (← m.json.index "layers").elem 0

def archiveDigest (canonical : Json → String) (m : Manifest) : Except String String := do
  let digest ← (← (← m.archive).index "digest").asString
  if digest = "" then
    throw ("Got invalid App manifest, failed to extract App Archive digest from App manifest: " ++
      canonical m.json)
  return digest

/-- The hash that names the archive. -/
def archiveHash (canonical : Json → String) (m : Manifest) : Except String String := do
  return (← HashedDigest.parse (← m.archiveDigest canonical)).hash

def archiveSize (canonical : Json → String) (m : Manifest) : Except String Nat := do
  let size ← (← (← m.archive).index "size").asUInt64
  if size = 0 then
    throw ("Invalid size of App Archive is specified in App manifest: " ++ canonical m.json)
  return size

/-- The first entry of the architecture. -/
def findArch (arch : String) : List Json → Except String Json
  | [] => .ok .null
  | entry :: rest => do
    let name ← (← (← entry.index "platform").index "architecture").asString
    if arch = name then return entry else findArch arch rest

/-- Null if the manifest has no layers of the architecture. -/
def layersManifest (arch : String) (m : Manifest) : Except String Json := do
  match ← m.json.index "manifests" with
  | .arr manifests => findArch arch manifests
  | _ => return .null

end Manifest

structure Descriptor where
  digest : HashedDigest
  size : Int
  mediaType : String
  deriving DecidableEq, Repr

namespace Descriptor

/-- The digest of the empty text. -/
def emptyDigest : HashedDigest :=
  { digest := "sha256:e3b0c44298fc1c149afbf4c8996fb92427ae41e4649b934ca495991b7852b855"
    hash := "e3b0c44298fc1c149afbf4c8996fb92427ae41e4649b934ca495991b7852b855"
    size_hash := by decide +kernel }

def empty : Descriptor := { digest := emptyDigest, size := 0, mediaType := "" }

def requireField (canonical : Json → String) (json : Json) (field : String) :
    Except String Unit := do
  if !(← json.isMember field) then
    throw ("Got invalid descriptor, missing required field; field: " ++ field ++
      ", descriptor: " ++ canonical json)

def parse (canonical : Json → String) (json : Json) : Except String Descriptor := do
  requireField canonical json "mediaType"
  requireField canonical json "digest"
  requireField canonical json "size"
  return { digest := ← HashedDigest.parse (← (← json.index "digest").asString)
           size := ← (← json.index "size").asInt64
           mediaType := ← (← json.index "mediaType").asString }

/-- `operator bool`.  The default descriptor has a digest, so it is one too. -/
def isPresent (d : Descriptor) : Bool := !(d.digest.digest == "" && d.size == 0)

end Descriptor

/-- `layersMetaDescr`. -/
def Manifest.layersMetaDescr (canonical : Json → String) (m : Manifest) :
    Except String Descriptor := do
  let layers ← m.json.index "layers"
  if layers.size < 2 then return .empty
  let desc ← layers.elem 1
  if !(← desc.isMember "annotations") then return .empty
  let annotations ← desc.index "annotations"
  if !(← annotations.isMember "layers-meta") then return .empty
  if (← (← annotations.index "layers-meta").asString) ≠ "v1" then return .empty
  Descriptor.parse canonical desc

/-! ## Compose files -/

/-- The image of each service, in the order of the compose file, which is given as JSON. -/
def serviceImages (compose : Json) : Except String (List (Except String String)) := do
  let services ← compose.index "services"
  return services.entries.map fun service => do
    (← (← services.index service.1).index "image").asString

end Docker
end AkLite
