/-
Is there room for the archive of an app?

Both app engines compare three times the size of an archive with what is available before
they download it.  `archive_room_iff` says when they download it only if there is room.
The product is taken modulo the size of a machine word in both.  The compose app engine
takes a reserve off the free bytes in the same way, so that a volume with less than the
reserve looks like the largest there is (`wrappedRoom`), and it takes eighty percent of the
rest in double precision, which is exact below 2^50 bytes (`forApps_of_lt`).
-/
import AkLite.Engine.ComposeAppEngine
import AkLite.Engine.Intact
import AkLite.Engine.Refetch
import AkLite.Lib.Binary64

namespace AkLite

open Lib Docker

namespace Engine

/-! ## `ComposeAppEngine::download` -/

/-- A blob that the registry was asked for, with the file it goes to and the expected size. -/
structure BlobRequest where
  uri : Uri
  file : String
  size : Nat
  deriving DecidableEq, Repr

/-- What a download meets.  `statvfs` gives the block size and the number of free blocks. -/
structure DownloadEnv where
  getAppManifest : Uri → String → Except String String
  statvfs : Option (UInt64 × UInt64)
  downloadBlob : Except String Unit
  exec : String → Except String Unit

def reservedBytes : UInt64 := 1048576

def checkAvailableStorageSpace (statvfs : Option (UInt64 × UInt64)) : Option UInt64 :=
  match statvfs with
  | none => none
  | some (bsize, bavail) => some (bsize * bavail - reservedBytes)

/-- `static_cast<uint64_t>(available_storage * 0.8)`. -/
def availableForApps (available : UInt64) : UInt64 :=
  .ofNat (Binary64.mulTrunc available.toNat 3602879701896397 52)

def archiveFile (digest : HashedDigest) (app : App) : String :=
  String.ofList (digest.hash.toList.take 7) ++ "." ++ app.name ++ Manifest.archiveExt

/-- The compose file may be listed with or without its directory. -/
def verifyAppArchive (env : DownloadEnv) (file : String) : Except String Unit :=
  tryCatch (env.exec ("tar -tf " ++ file ++ " docker-compose.yml")) fun _ =>
    env.exec ("tar -tf " ++ file ++ " ./docker-compose.yml")

def extractAppArchive (env : DownloadEnv) (file : String) : Except String Unit := do
  env.exec ("tar -xzf " ++ file)
  env.exec ("rm -f " ++ file)

def noSpaceForArchive (available needed : UInt64) : String :=
  "There is no sufficient storage space available to download App archive, available: " ++
    toString available.toNat ++ " need: " ++ toString needed.toNat

/-- The files of a manifest are assumed to be up to three times as large as its archive.
Without a statistic there is no check. -/
def checkRoomForArchive (canonical : Json → String) (statvfs : Option (UInt64 × UInt64))
    (manifest : Manifest) : Except String Unit :=
  match checkAvailableStorageSpace statvfs with
  | none => .ok ()
  | some available => do
    let needed := UInt64.ofNat (← manifest.archiveSize canonical) * 3
    if availableForApps available < needed then
      throw (noSpaceForArchive (availableForApps available) needed)

/-- The state is the list of blobs that were asked for. -/
def download (tk : RestorableAppEngine.Toolkit) (env : DownloadEnv) (app : App) :
    EStateM String (List BlobRequest) Unit := do
  let uri ← orThrow (parseUri app.uri true)
  let text ← orThrow (env.getAppManifest uri Manifest.format)
  let manifest ← orThrow (Manifest.parse tk.canonical (tk.parseJSON text))
  let file := archiveFile uri.digest app
  let digest ← orThrow do HashedDigest.parse (← manifest.archiveDigest tk.canonical)
  orThrow (checkRoomForArchive tk.canonical env.statvfs manifest)
  let size ← orThrow (manifest.archiveSize tk.canonical)
  modify fun requests => { uri := uri.createUri digest, file := file, size := size } :: requests
  orThrow env.downloadBlob
  orThrow (verifyAppArchive env file)
  orThrow (extractAppArchive env file)

/-! ## What is asked for -/

/-- The answer of the registry is a manifest with an archive of this digest and size. -/
def Offers (tk : RestorableAppEngine.Toolkit) (answer : Except String String)
    (digest : HashedDigest) (size : Nat) : Prop :=
  ∃ text manifest, answer = .ok text ∧
    Manifest.parse tk.canonical (tk.parseJSON text) = .ok manifest ∧
    (do HashedDigest.parse (← manifest.archiveDigest tk.canonical)) = .ok digest ∧
    manifest.archiveSize tk.canonical = .ok size

theorem Offers.pos {tk : RestorableAppEngine.Toolkit} {answer : Except String String}
    {digest : HashedDigest} {size : Nat} (h : Offers tk answer digest size) : 0 < size := by
  obtain ⟨_, manifest, _, _, _, hsize⟩ := h
  obtain ⟨archive, _, hsize⟩ := bind_eq_ok.mp hsize
  obtain ⟨n, _, hsize⟩ := bind_eq_ok.mp hsize
  obtain ⟨m, _, hsize⟩ := bind_eq_ok.mp hsize
  dsimp only at hsize
  split at hsize
  · cases hsize
  · next hne =>
    cases hsize
    exact Nat.pos_of_ne_zero hne

/-- Three times a size in a machine word. -/
theorem toNat_needed (size : Nat) : (UInt64.ofNat size * 3).toNat = 3 * size % UInt64.size := by
  rw [UInt64.toNat_mul, UInt64.toNat_ofNat']
  show size % 18446744073709551616 * 3 % 18446744073709551616 = 3 * size % 18446744073709551616
  omega

variable {tk : RestorableAppEngine.Toolkit} {env : DownloadEnv} {app : App} {uri : Uri}
  {digest : HashedDigest} {size : Nat} {bsize bavail : UInt64}

theorem checkRoomForArchive_eq {manifest : Manifest} {canonical : Json → String}
    (hsize : manifest.archiveSize canonical = .ok size) :
    Returns (checkRoomForArchive canonical (some (bsize, bavail)) manifest) ↔
      3 * size % UInt64.size ≤ (availableForApps (bsize * bavail - reservedBytes)).toNat := by
  unfold checkRoomForArchive checkAvailableStorageSpace
  rw [hsize, ← toNat_needed]
  dsimp only
  rw [ok_bind]
  split
  · next h =>
    refine iff_of_false (not_returns_error _) ?_
    exact Nat.not_le.mpr (UInt64.lt_iff_toNat_lt.mp h)
  · next h =>
    refine iff_of_true (returns_pure _) ?_
    exact Nat.not_lt.mp fun hlt => h (UInt64.lt_iff_toNat_lt.mpr hlt)

/-- The archive is asked for if the product fits what the check takes for available. -/
theorem download_requests_iff (huri : parseUri app.uri true = .ok uri)
    (hoffers : Offers tk (env.getAppManifest uri Manifest.format) digest size)
    (hstat : env.statvfs = some (bsize, bavail)) :
    after (download tk env app) [] ≠ [] ↔
      3 * size % UInt64.size ≤ (availableForApps (bsize * bavail - reservedBytes)).toNat := by
  obtain ⟨text, manifest, htext, hmanifest, hdigest, hsize⟩ := hoffers
  rw [← checkRoomForArchive_eq hsize]
  refine after_of_wp (P := fun requests => requests ≠ [] ↔ _) ?_
  unfold download
  simp only [wp_bind, wp_orThrow, huri, htext, hmanifest, hdigest, hsize, hstat]
  cases checkRoomForArchive tk.canonical (some (bsize, bavail)) manifest with
  | error what => exact iff_of_false (fun h => h rfl) (not_returns_error _)
  | ok _ =>
    -- Whatever happens to the blob, it was asked for.
    have hasked : ∀ r : BlobRequest, [r] ≠ [] ↔ Returns (.ok () : Except String Unit) :=
      fun r => iff_of_true (List.cons_ne_nil _ _) (returns_ok _)
    dsimp only [wp_modify]
    cases env.downloadBlob with
    | error what => exact hasked _
    | ok _ =>
      cases verifyAppArchive env (archiveFile uri.digest app) with
      | error what => exact hasked _
      | ok _ =>
        cases extractAppArchive env (archiveFile uri.digest app) with
        | error what => exact hasked _
        | ok _ => exact hasked _

end Engine

namespace Docker
namespace RestorableAppEngine

open Engine (Offers toNat_needed)

variable {tk : Toolkit} {env : FetchEnv} {uri : Uri} {s : Store} {digest : HashedDigest}
  {size : Nat}

/-! ## `RestorableAppEngine::pullApp` -/

/-- The archive is downloaded: what the registry sends for it is in the store when the call is
over. -/
def PullsArchive (tk : Toolkit) (env : FetchEnv) (uri : Uri) (hash : String) (s : Store) : Prop :=
  ∀ content, (after (pullApp tk { env with downloadBlob := fun _ _ _ => .done content } uri)
    s).apps.read (archivePath (appDir uri) hash) = some content

theorem archivePath_ne_name {dir : Path} {hash name : String}
    (hlast : name.toList.getLast? ≠ some 'z') : archivePath dir hash ≠ dir ++ [name] := by
  intro h
  have hname := List.append_cancel_left h
  injection hname with hname _
  apply hlast
  rw [← hname]
  simp [Manifest.archiveExt]

/-- The files that are written after the archive leave it there. -/
theorem read_archive_write {t : FileTree} {dir : Path} {hash name content text : String}
    (hlast : name.toList.getLast? ≠ some 'z')
    (h : t.read (archivePath dir hash) = some content) :
    (t.write (dir ++ [name]) text).read (archivePath dir hash) = some content := by
  rw [FileTree.read_write_of_ne (archivePath_ne_name hlast), h]

/-- The call up to the download of the archive. -/
theorem wp_pullApp (env : FetchEnv) {Q : Unit → Store → Prop} {E : Exn → Store → Prop}
    (hoffers : Offers tk (env.getAppManifest uri Manifest.format none) digest size)
    (hok : (env.space .archive).isOk = true) :
    ∃ text, wp (pullApp tk env uri) Q E s =
      if (env.space .archive).available < 3 * size % UInt64.size then
        E (.insufficientSpace "skopeo apps" (withRequired (env.space .archive)
          (UInt64.ofNat size * 3))) { s with apps := s.apps.mkdirs (appDir uri) }
      else wp (do
          download env (uri.createUri digest) (appDir uri) (digest.hash ++ Manifest.archiveExt) size
          writeFile (appDir uri ++ [Manifest.filename]) text
          writeFile (appDir uri ++ ["uri"])
            (uri.registryHostname ++ "/" ++ uri.repo ++ "@" ++ uri.digest.digest)
          let compose ← lift ((← get).extractComposeFile tk (archivePath (appDir uri) digest.hash))
          writeFile (appDir uri ++ [composeFile]) compose) Q E
        { s with apps := s.apps.mkdirs (appDir uri) } := by
  obtain ⟨text, manifest, htext, hmanifest, hdigest, hsize⟩ := hoffers
  refine ⟨text, ?_⟩
  unfold pullApp createDirectories
  simp only [wp_bind, wp_lift, wp_modify, wp_ite, wp_throw, htext, hmanifest, hdigest, hsize, hok,
    if_true, toNat_needed]

theorem pullsArchive_iff
    (hoffers : Offers tk (env.getAppManifest uri Manifest.format none) digest size)
    (hok : (env.space .archive).isOk = true) :
    PullsArchive tk env uri digest.hash s ↔
      3 * size % UInt64.size ≤ (env.space .archive).available := by
  unfold PullsArchive
  constructor
  · intro h
    by_contra hno
    -- Nothing but a directory is new, so it cannot be the content that was sent.
    have hsame : ∀ content, (after (pullApp tk { env with
        downloadBlob := fun _ _ _ => .done content } uri) s).apps = s.apps.mkdirs (appDir uri) := by
      intro content
      refine after_of_wp (P := fun t : Store => t.apps = s.apps.mkdirs (appDir uri)) ?_
      obtain ⟨text, hwp⟩ := wp_pullApp { env with downloadBlob := fun _ _ _ => .done content }
        hoffers hok
      rw [hwp, if_pos (Nat.not_le.mp hno)]
    have h0 := h "0"
    have h1 := h "1"
    rw [hsame] at h0 h1
    have hne := Option.some.inj (h0.symm.trans h1)
    revert hne
    decide
  · intro hroom content
    refine after_of_wp (P := fun t : Store => t.apps.read _ = some content) ?_
    obtain ⟨text, hwp⟩ := wp_pullApp { env with downloadBlob := fun _ _ _ => .done content }
      hoffers hok
    rw [hwp, if_neg (Nat.not_lt.mpr hroom)]
    simp only [wp_bind, download, writeFile, wp_modify, wp_get, wp_lift]
    have hthere : ∀ t : FileTree, ((t.write (archivePath (appDir uri) digest.hash) content).write
        (appDir uri ++ [Manifest.filename]) text |>.write (appDir uri ++ ["uri"])
          (uri.registryHostname ++ "/" ++ uri.repo ++ "@" ++ uri.digest.digest)).read
        (archivePath (appDir uri) digest.hash) = some content := by
      intro t
      refine read_archive_write (by decide) (read_archive_write (by decide) ?_)
      exact FileTree.read_write_self t _ content
    split
    · exact read_archive_write (by decide) (hthere _)
    · exact hthere _

end RestorableAppEngine
end Docker

namespace Engine

open RestorableAppEngine

/-! ## Room for the archive -/

def freeBytes (bsize bavail : UInt64) : Nat := bsize.toNat * bavail.toNat

/-- Eighty percent of the free bytes beyond the reserve. -/
def roomForApps (bsize bavail : UInt64) : Nat :=
  (freeBytes bsize bavail - reservedBytes.toNat) * 4 / 5

/-- What the compose app engine compares with. -/
def forApps (bsize bavail : UInt64) : Nat :=
  (availableForApps (bsize * bavail - reservedBytes)).toNat

/-- What it is with less than the reserve: the bytes that are missing are taken off a machine
word, in units of 2048 bytes, and eighty percent of the rest are rounded to such units. -/
def wrappedRoom (free : Nat) : Nat :=
  2048 * (7205759403792794 - (4 * (Binary64.nearest (1048576 - free) 2048 / 2048) + 2) / 5)

/-- The sizes are such that nothing wraps around and nothing is rounded up, or it does not
matter. -/
structure SizesExact (size : Nat) (bsize bavail : UInt64) : Prop where
  /-- With less than the reserve only a product of almost a machine word is refused. -/
  reserve : freeBytes bsize bavail < 1048576 →
    wrappedRoom (freeBytes bsize bavail) < 3 * size % UInt64.size
  /-- Up to a quadrillion bytes the product fits, or what is left of it is too much. -/
  product : 1048576 ≤ freeBytes bsize bavail → freeBytes bsize bavail < 1125899906842624 →
    3 * size < UInt64.size ∨ roomForApps bsize bavail < 3 * size % UInt64.size
  /-- Beyond them it is not in the gap that rounding leaves. -/
  rounding : 1125899906842624 ≤ freeBytes bsize bavail →
    ¬(roomForApps bsize bavail < 3 * size ∧ 3 * size % UInt64.size ≤ forApps bsize bavail)

/-! ### Eighty percent in double precision -/

/-- They are exact up to a quadrillion bytes. -/
theorem mulTrunc_eq {n : Nat} (h : n < 1125899906842624) :
    Binary64.mulTrunc n 3602879701896397 52 = n * 4 / 5 := by
  have hexcess : Binary64.excess (n * 3602879701896397) ≤ 49 := by
    apply Binary64.excess_le
    show n * 3602879701896397 < 5070602400912917605986812821504
    omega
  have hupper := Binary64.nearest_le (n * 3602879701896397)
    (2 ^ Binary64.excess (n * 3602879701896397))
  have hlower := Binary64.div_le_nearest_div (n * 3602879701896397)
    (Nat.pow_dvd_pow 2 (hexcess.trans (by decide : 49 ≤ 52)))
  have hhalf : 2 ^ Binary64.excess (n * 3602879701896397) ≤ 2 ^ 49 :=
    Nat.pow_le_pow_right (by decide) hexcess
  have hunit : (2 : Nat) ^ 49 = 562949953421312 := by decide
  have hscale : (2 : Nat) ^ 52 = 4503599627370496 := by decide
  rw [hunit] at hhalf
  rw [hscale] at hlower
  rw [Binary64.mulTrunc, Binary64.round_of_lt (h.trans (by decide)), Binary64.round, hscale]
  omega

theorem toNat_available (bsize bavail : UInt64) : (bsize * bavail - reservedBytes).toNat =
    (freeBytes bsize bavail + 18446744073708503040) % 18446744073709551616 := by
  rw [UInt64.toNat_sub, UInt64.toNat_mul]
  show (18446744073709551616 - 1048576 + freeBytes bsize bavail % 18446744073709551616) %
    18446744073709551616 = _
  omega

theorem forApps_of_lt {bsize bavail : UInt64} (hreserve : 1048576 ≤ freeBytes bsize bavail)
    (h : freeBytes bsize bavail < 1125899906842624) :
    forApps bsize bavail = roomForApps bsize bavail := by
  have hbytes : (bsize * bavail - reservedBytes).toNat = freeBytes bsize bavail - 1048576 := by
    rw [toNat_available]
    omega
  rw [forApps, availableForApps, hbytes, mulTrunc_eq (by omega), UInt64.toNat_ofNat']
  show _ % 18446744073709551616 = (freeBytes bsize bavail - 1048576) * 4 / 5
  omega

/-- What is left of a machine word is rounded to a multiple of 2048. -/
theorem round_wrapped {free : Nat} (h : free < 1048576) :
    Binary64.round (free + 18446744073708503040) =
      18446744073709551616 - Binary64.nearest (1048576 - free) 2048 / 2048 * 2048 := by
  have hexcess : Binary64.excess (free + 18446744073708503040) = 11 := by
    apply Binary64.excess_eq
    · show 9223372036854775808 ≤ _
      omega
    · show _ < 18446744073709551616
      omega
  rw [Binary64.round, hexcess]
  show Binary64.nearest _ 2048 = _
  unfold Binary64.nearest
  split
  · split
    · omega
    · omega
  · split
    · omega
    · omega

theorem round_product {missing : Nat} (h : missing ≤ 512) :
    Binary64.round ((18446744073709551616 - missing * 2048) * 3602879701896397) =
      (7205759403792794 - (4 * missing + 2) / 5) * 9223372036854775808 := by
  have hexcess : Binary64.excess ((18446744073709551616 - missing * 2048) * 3602879701896397) =
      63 := by
    apply Binary64.excess_eq
    · show 41538374868278621028243970633760768 ≤ _
      omega
    · show _ < 83076749736557242056487941267521536
      omega
  rw [Binary64.round, hexcess]
  show Binary64.nearest _ 9223372036854775808 = _
  apply Binary64.nearest_eq
  · omega
  · omega

theorem mulTrunc_wrapped {free : Nat} (h : free < 1048576) :
    Binary64.mulTrunc (free + 18446744073708503040) 3602879701896397 52 = wrappedRoom free := by
  have hmissing : Binary64.nearest (1048576 - free) 2048 / 2048 ≤ 512 := by
    have := Binary64.nearest_le (1048576 - free) 2048
    omega
  rw [Binary64.mulTrunc, round_wrapped h, round_product hmissing, wrappedRoom]
  show _ / 4503599627370496 = _
  omega

theorem forApps_of_reserve {bsize bavail : UInt64} (h : freeBytes bsize bavail < 1048576) :
    forApps bsize bavail = wrappedRoom (freeBytes bsize bavail) := by
  have hbytes : (bsize * bavail - reservedBytes).toNat =
      freeBytes bsize bavail + 18446744073708503040 := by
    rw [toNat_available]
    omega
  rw [forApps, availableForApps, hbytes, mulTrunc_wrapped h, UInt64.toNat_ofNat']
  refine Nat.mod_eq_of_lt ?_
  show wrappedRoom _ < 18446744073709551616
  unfold wrappedRoom
  omega

theorem sizesExact_iff {size : Nat} {bsize bavail : UInt64} (hpos : 0 < size) :
    (3 * size % UInt64.size ≤ forApps bsize bavail → 3 * size ≤ roomForApps bsize bavail) ↔
      SizesExact size bsize bavail := by
  rcases Nat.lt_or_ge (freeBytes bsize bavail) 1048576 with hless | hreserve
  · -- There is no room at all.
    have hroom : roomForApps bsize bavail = 0 := by
      have hnone : freeBytes bsize bavail - reservedBytes.toNat = 0 :=
        Nat.sub_eq_zero_of_le hless.le
      rw [roomForApps, hnone]
    rw [hroom, forApps_of_reserve hless]
    refine ⟨fun h => ⟨fun _ => ?_, fun _ => by omega, fun _ => by omega⟩, fun h hle => ?_⟩
    · omega
    · have := h.reserve hless
      omega
  rcases Nat.lt_or_ge (freeBytes bsize bavail) 1125899906842624 with hlt | hlarge
  · have hroom : roomForApps bsize bavail < UInt64.size := by
      show (freeBytes bsize bavail - 1048576) * 4 / 5 < 18446744073709551616
      omega
    rw [forApps_of_lt hreserve hlt]
    refine ⟨fun h => ⟨fun _ => by omega, fun _ _ => ?_, fun _ => by omega⟩, fun h hle => ?_⟩
    · omega
    · rcases h.product hreserve hlt with hfits | hless
      · rwa [Nat.mod_eq_of_lt hfits] at hle
      · omega
  · refine ⟨fun h => ⟨fun _ => by omega, fun _ _ => by omega, fun _ => ?_⟩, fun h hle => ?_⟩
    · omega
    · have := h.rounding hlarge
      omega

/-- Both engines download an archive only if there is room for three times its size, exactly if
the sizes stay within a machine word or it does not matter that they do not. -/
theorem archive_room_iff {tk : Toolkit} {env : RestorableAppEngine.FetchEnv} {uri : Uri}
    {s : Store} {digest : HashedDigest} {size : Nat} {denv : DownloadEnv} {app : App}
    {appUri : Uri} {appDigest : HashedDigest} {appSize : Nat} {bsize bavail : UInt64}
    (hoffers : Offers tk (env.getAppManifest uri Manifest.format none) digest size)
    (hok : (env.space .archive).isOk = true)
    (hword : (env.space .archive).available < UInt64.size)
    (huri : parseUri app.uri true = .ok appUri)
    (happ : Offers tk (denv.getAppManifest appUri Manifest.format) appDigest appSize)
    (hstat : denv.statvfs = some (bsize, bavail)) :
    ((PullsArchive tk env uri digest.hash s → 3 * size ≤ (env.space .archive).available) ∧
      (after (download tk denv app) [] ≠ [] → 3 * appSize ≤ roomForApps bsize bavail)) ↔
    ((3 * size < UInt64.size ∨ (env.space .archive).available < 3 * size % UInt64.size) ∧
      SizesExact appSize bsize bavail) := by
  rw [pullsArchive_iff hoffers hok, download_requests_iff huri happ hstat]
  refine and_congr ?_ (sizesExact_iff happ.pos)
  constructor
  · intro h
    by_contra hno
    omega
  · rintro (hfits | hless) hle
    · rwa [Nat.mod_eq_of_lt hfits] at hle
    · omega

/-! ## A small archive and a large one -/

/-- The manifest of an archive of the given size. -/
def sizedManifest (size : Nat) : Json :=
  .obj [("annotations", .obj [("compose-app", .str "v1")]),
    ("layers", .arr [.obj [("digest", letterDigest "a"), ("size", .int size)]])]

/-- Three times the large size is two more than a machine word holds. -/
def largeSize : Nat := 6148914691236517206

/-- The manifest `b` is that of a large archive, any other one that of a single byte. -/
def sizedToolkit : Toolkit :=
  { letterToolkit with
    parseJSON := fun text => sizedManifest (if text = "b" then largeSize else 1) }

/-- A registry that has the manifest, and a thousand bytes for the archive. -/
def offering (text : String) : RestorableAppEngine.FetchEnv :=
  { unreachable with getAppManifest := fun _ _ _ => .ok text }

def offeringOn (bsize bavail : UInt64) : DownloadEnv where
  getAppManifest _ _ := .ok "m"
  statvfs := some (bsize, bavail)
  downloadBlob := .ok ()
  exec _ := .ok ()

def letterApp : App := { name := "app", uri := letterUri "app" "m" }

def letterAppUri : Uri :=
  { digest := { digest := "sha256:" ++ letterHash "m", hash := letterHash "m",
                size_hash := by decide +kernel }
    app := "app", factory := "factory", repo := "factory/app", registryHostname := "hub.io" }

def archiveDigest : HashedDigest :=
  { digest := "sha256:" ++ letterHash "a", hash := letterHash "a", size_hash := by decide +kernel }

theorem parseUri_letterApp : parseUri letterApp.uri true = .ok letterAppUri := by decide +kernel

theorem offers_small : Offers sizedToolkit (.ok "m") archiveDigest 1 :=
  ⟨"m", ⟨sizedManifest 1⟩, rfl, by rfl, by decide +kernel, by rfl⟩

theorem offers_large : Offers sizedToolkit (.ok "b") archiveDigest largeSize :=
  ⟨"b", ⟨sizedManifest largeSize⟩, rfl, by rfl, by decide +kernel, by rfl⟩

/-- One byte, with a thousand bytes in the one store and four million in the other. -/
theorem small_archive_room :
    (PullsArchive sizedToolkit (offering "m") letterAppUri archiveDigest.hash letterStore →
      3 * 1 ≤ ((offering "m").space .archive).available) ∧
    (after (download sizedToolkit (offeringOn 4096 1000) letterApp) [] ≠ [] →
      3 * 1 ≤ roomForApps 4096 1000) :=
  (archive_room_iff offers_small rfl (by decide) parseUri_letterApp offers_small rfl).mpr
    ⟨.inl (by decide), fun h => absurd h (by decide), fun _ _ => .inl (by decide),
      fun h => absurd h (by decide)⟩

/-- The large archive is downloaded into a thousand bytes, and a small one into none. -/
theorem archive_wraps_around :
    (PullsArchive sizedToolkit (offering "b") letterAppUri archiveDigest.hash letterStore ∧
      ¬3 * largeSize ≤ ((offering "b").space .archive).available) ∧
    (after (download sizedToolkit (offeringOn 4096 1) letterApp) [] ≠ [] ∧
      ¬3 * 1 ≤ roomForApps 4096 1) := by
  refine ⟨⟨(pullsArchive_iff offers_large rfl).mpr (by decide), by decide⟩, ?_, by decide⟩
  exact (download_requests_iff parseUri_letterApp offers_small rfl).mpr (by decide +kernel)

end Engine
end AkLite
