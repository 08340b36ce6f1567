/-
The metadata of an offline update bundle.

`checkAndGetRootMeta` follows the chain of root metadata from the device's own
copy through the versions the bundle brings, and `checkAndGetBundleMeta` checks
`bundle-targets.json` against the keys of the targets role of the last root.
`getBundleMeta` adds the checks of the bundle's type and tag.

What other libraries decide is a field of `Toolkit` or `RootRepo`: parsing and
printing of JSON, keys and signatures, time stamps, and the verification of one
root by the previous one.  Log lines are left out, except that printing the
bundle can throw.
-/
import AkLite.Lib.Json

namespace AkLite
namespace Bundle

open Lib

/-- `BundleMetaError::Type`. -/
inductive ErrorType where
  | notFound
  | rootMetaNotFound
  | invalidMetadata
  | badSignature
  | unmetSignatureThreshold
  | expired
  | incorrectType
  | incorrectTagType
  deriving DecidableEq, Repr

/-- What leaves the functions of this file: a `BundleMetaError`, which the check-in
handles, or any other exception, which it does not. -/
inductive Failure where
  | bundleMeta (type : ErrorType) (what : String)
  | other (what : String)
  deriving DecidableEq, Repr

/-- An exception of a library call, with its text. -/
def thrown {α : Type} (x : Except String α) : Except Failure α := x.mapError .other

/-- The library functions the bundle check rests on. -/
structure Toolkit (Key Stamp : Type) where
  parseJSON : String → Json
  jsonToCanonicalStr : Json → String
  toStyledString : Json → String
  publicKey : Json → Except String Key
  verifySignature : Key → String → String → Except String Bool
  timeStamp : String → Except String Stamp
  stampToString : Stamp → String
  isExpiredNow : Stamp → Bool

/-- The library's image repository, as far as its root metadata go. -/
structure RootRepo (R : Type) where
  empty : R
  rootVersion : R → Int
  initRoot : R → String → Except String R
  verifyRoot : R → String → Except String R

/-- What `FetchRoot` finds in the bundle for one version. -/
inductive Fetched where
  | found (text : String)
  | notFound
  | failed (what : String)
  deriving DecidableEq, Repr

/-- The directory of the bundle's TUF repository. -/
structure Dir where
  fetchRoot : Int → Fetched
  bundleTargetsPath : String
  bundleTargets : Option String

variable {Key Stamp R : Type}

/-! ## The root metadata -/

def maxVersion : Int := 2147483647

/-- The loop of `checkAndGetRootMeta`, entered with the version reached so far.
The fuel counts the versions left below `maxVersion`. -/
def fetchRoots (rr : RootRepo R) (dir : Dir) :
    Nat → Int → R → String → Except Failure (String × Int)
  | 0, version, _, latest => .ok (latest, version)
  | fuel + 1, version, repo, latest =>
    match dir.fetchRoot (version + 1) with
    | .notFound => .ok (latest, version + 1)
    | .failed what => .error (.other what)
    | .found text => do
      let repo ← thrown
        (if 0 < rr.rootVersion repo then rr.verifyRoot repo text else rr.initRoot repo text)
      fetchRoots rr dir fuel (version + 1) repo text

/-- `latestRoot` is what the device's repository returns for its last root, and is
empty when it has none. -/
def checkAndGetRootMeta (tk : Toolkit Key Stamp) (rr : RootRepo R) (latestRoot : String)
    (dir : Dir) : Except Failure Json := do
  let repo ← if latestRoot = "" then pure rr.empty else thrown (rr.initRoot rr.empty latestRoot)
  let version := if latestRoot = "" then 0 else rr.rootVersion repo
  let (latest, version) ← fetchRoots rr dir (maxVersion - version).toNat version repo latestRoot
  if latest = "" then
    .error (.bundleMeta .rootMetaNotFound
      ("Failed to find root metadata; missing version: " ++ toString version))
  else .ok (tk.parseJSON latest)

/-- The targets role of a root. -/
def targetsRole (root : Json) : Except String Json := do
  (← (← root.index "signed").index "roles").index "targets"

/-- The set `targets_key_ids`. -/
def targetsKeyIds (root : Json) : Except String (List String) := do
  (← (← targetsRole root).index "keyids").values.mapM Json.asString

def targetsSignThreshold (root : Json) : Except String Int := do
  (← (← targetsRole root).index "threshold").asInt

/-- The keys of a root with their identifiers. -/
def rootKeys (root : Json) : Except String (List (String × Json)) := do
  return (← (← root.index "signed").index "keys").entries

/-- Insertion into a map keeps an entry that is there. -/
def insertKey (keys : List (String × Key)) (id : String) (key : Key) : List (String × Key) :=
  if (keys.lookup id).isSome then keys else keys ++ [(id, key)]

/-- The loop that fills `targets_pub_keys`. -/
def collectKeys (tk : Toolkit Key Stamp) (ids : List String) :
    List (String × Json) → List (String × Key) → Except String (List (String × Key))
  | [], keys => .ok keys
  | (id, json) :: rest, keys =>
    if ids.contains id then do
      let key ← tk.publicKey json
      collectKeys tk ids rest (insertKey keys id key)
    else collectKeys tk ids rest keys

def targetsPubKeys (tk : Toolkit Key Stamp) (root : Json) :
    Except String (List (String × Key)) := do
  let ids ← targetsKeyIds root
  collectKeys tk ids (← rootKeys root) []

/-! ## The signatures -/

/-- A member that is present and a string, of a value that is an object. -/
def stringField (j : Json) (key : String) : Option String :=
  match j with
  | .obj fields =>
    match fields.lookup key with
    | some (.str s) => some s
    | _ => none
  | _ => none

/-- The body of the loop over `signatures`. -/
def checkSignature (tk : Toolkit Key Stamp) (keys : List (String × Key)) (body : String)
    (signature : Json) : Except Failure Unit :=
  match stringField signature "keyid", stringField signature "sig",
      stringField signature "method" with
  | some keyId, some sig, some _ =>
    match keys.lookup keyId with
    | none =>
      .error (.bundleMeta .badSignature ("The bundle is signed with an unknown key: " ++ keyId))
    | some key => do
      if ← thrown (tk.verifySignature key sig body) then .ok ()
      else
        .error (.bundleMeta .badSignature
          ("An invalid signature was found for the bundle; key ID: " ++ keyId))
  | _, _, _ =>
    .error (.bundleMeta .invalidMetadata
      ("Invalid signature metadata was found in the bundle metadata: " ++
        tk.toStyledString signature))

/-- The loop over `signatures`, with the counter `found_valid_sig_number`. -/
def countSignatures (tk : Toolkit Key Stamp) (keys : List (String × Key)) (body : String) :
    List Json → Int → Except Failure Int
  | [], found => .ok found
  | signature :: rest, found => do
    checkSignature tk keys body signature
    countSignatures tk keys body rest (found + 1)

/-! ## The check of the bundle -/

/-- The first format check on `bundle-targets.json`. -/
def lacksFields (bundle : Json) : Except String Bool := do
  if bundle.isNull || bundle.isEmpty then return true
  if !(← bundle.isMember "signed") then return true
  return !(← bundle.isMember "signatures")

/-- The format checks on `bundle-targets.json`, and its signatures. -/
def bundleSignatures (bundle : Json) (text : String) : Except Failure (List Json) := do
  if ← thrown (lacksFields bundle) then
    .error (.bundleMeta .invalidMetadata
      ("The bundle metadata is invalid;" ++
        " expecting JSON with \x60signed\x60 and \x60signatures\x60 fields; got: \n" ++ text))
  else
    match ← thrown (bundle.index "signatures") with
    | .arr signatures => .ok signatures
    | _ =>
      .error (.bundleMeta .invalidMetadata
        ("The bundle metadata is invalid;" ++
          " the \x60signatures\x60 field is not an array; got: \n" ++ text))

/-- The end of the check: the expiry, and the bundle as the function returns it.
Reading `expires` adds the member when it is missing. -/
def checkExpiry (tk : Toolkit Key Stamp) (bundle : Json) : Except Failure Json := do
  let (signed, expires) ← thrown ((← thrown (bundle.index "signed")).touch "expires")
  let stamp ← thrown (tk.timeStamp (← thrown expires.asString))
  if tk.isExpiredNow stamp then
    .error (.bundleMeta .expired
      ("The offline bundle metadata has expired: " ++ tk.stampToString stamp))
  else thrown (bundle.insert "signed" signed)

def checkAndGetBundleMeta (tk : Toolkit Key Stamp) (rr : RootRepo R) (latestRoot : String)
    (dir : Dir) : Except Failure Json := do
  let root ← checkAndGetRootMeta tk rr latestRoot dir
  let keys ← thrown (targetsPubKeys tk root)
  let threshold ← thrown (targetsSignThreshold root)
  match dir.bundleTargets with
  | none =>
    .error (.bundleMeta .notFound
      ("Failed to find the bundle metadata: " ++ dir.bundleTargetsPath))
  | some text => do
    let bundle := tk.parseJSON text
    let signatures ← bundleSignatures bundle text
    let body := tk.jsonToCanonicalStr (← thrown (bundle.index "signed"))
    let found ← countSignatures tk keys body signatures 0
    if found < threshold then
      .error (.bundleMeta .unmetSignatureThreshold
        ("An insufficient number of signatures for the bundle were found; " ++ "required: " ++
          toString threshold ++ ", found: " ++ toString found))
    else checkExpiry tk bundle

/-! ## The type and the tag of the bundle -/

/-- `LiteClient::Type`. -/
inductive ClientType where
  | undefined
  | dev
  | prod
  deriving DecidableEq, Repr

def offlineBundle (bundle : Json) : Except String Json := do
  (← bundle.index "signed").index "x-fio-offline-bundle"

/-- The conversions made for the log lines.  The version is printed as it is. -/
def printBundleMeta (bundle : Json) : Except String Unit := do
  let _ ← (← (← offlineBundle bundle).index "type").asString
  let _ ← (← (← offlineBundle bundle).index "tag").asString
  let _ ← (← (← bundle.index "signed").index "expires").asString
  let _ ← (← (← offlineBundle bundle).index "targets").values.mapM Json.asString

def checkBundleType (bundle : Json) (clientType : ClientType) : Except Failure Unit :=
  if clientType = .undefined then .ok ()
  else do
    let type ← thrown (do (← (← offlineBundle bundle).index "type").asString)
    if (type = "ci" ∧ clientType ≠ .dev) ∨ (type = "prod" ∧ clientType ≠ .prod) then
      let deviceType := if clientType = .prod then "production" else "CI"
      .error (.bundleMeta .incorrectType
        ("Cannot apply the update bundle to the device:  the bundle type \x60" ++ type ++
          "\x60 differs from the device type \x60" ++ deviceType ++ "\x60"))
    else .ok ()

def checkBundleTag (bundle : Json) (tags : List String) : Except Failure Unit :=
  if tags.isEmpty then .ok ()
  else do
    let tag ← thrown (do (← (← offlineBundle bundle).index "tag").asString)
    if tags.contains tag then .ok ()
    else
      .error (.bundleMeta .incorrectTagType
        ("Cannot apply the update bundle to the device:  the bundle tag \x60" ++ tag ++
          "\x60 differs from the device tag(s) \x60" ++ ",".intercalate tags ++ "\x60"))

/-- A bundle without metadata is let through with a null value. -/
def getBundleMeta (tk : Toolkit Key Stamp) (rr : RootRepo R) (latestRoot : String) (dir : Dir)
    (clientType : ClientType) (tags : List String) : Except Failure Json :=
  if dir.bundleTargets.isNone then .ok .null
  else do
    let bundle ← checkAndGetBundleMeta tk rr latestRoot dir
    thrown (printBundleMeta bundle)
    checkBundleType bundle clientType
    checkBundleTag bundle tags
    return bundle

end Bundle
end AkLite
