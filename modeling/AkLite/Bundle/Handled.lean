/-
The exceptions that leave the bundle check.

The check-in handles a `BundleMetaError`.  Everything else that is thrown while the bundle
is checked, by the verification of a root or of a signature, by the parser of a key or of a
time stamp, or by a conversion of a JSON value that has another type, passes through it.
`handled_getBundleMeta` says for which devices and bundles there is no such exception.
-/
import AkLite.Bundle.Signatures

namespace AkLite
namespace Bundle

open Lib

variable {Key Stamp R α β : Type} {tk : Toolkit Key Stamp} {rr : RootRepo R}
  {latestRoot text : String} {dir : Dir}

/-- The computation ends with a result or with a `BundleMetaError`. -/
def Handled (x : Except Failure α) : Prop := ∀ what, x ≠ .error (.other what)

theorem handled_ok (a : α) : Handled (.ok a) := fun _ h => by cases h

theorem handled_bundleMeta (type : ErrorType) (what : String) :
    Handled (.error (.bundleMeta type what) : Except Failure α) := fun _ h => by cases h

theorem handled_bind_iff {x : Except Failure α} {f : α → Except Failure β} :
    Handled (x >>= f) ↔ Handled x ∧ ∀ a, x = .ok a → Handled (f a) := by
  cases x with
  | ok a =>
    refine ⟨fun h => ⟨handled_ok a, fun b hb => ?_⟩, fun h => h.2 a rfl⟩
    cases hb
    exact h
  | error e =>
    refine ⟨fun h => ⟨fun what hx => h what ?_, fun a ha => by cases ha⟩, fun h what hx => ?_⟩
    · cases hx
      rfl
    · refine h.1 what ?_
      cases hx
      rfl

theorem handled_thrown_iff {x : Except String α} : Handled (thrown x) ↔ Returns x := by
  cases x with
  | ok a => exact iff_of_true (handled_ok a) ⟨a, rfl⟩
  | error e => exact iff_of_false (fun h => h e rfl) (not_returns_error e)

theorem thrown_bind_of_ok {x : Except String α} {f : α → Except Failure β} {a : α}
    (h : x = .ok a) : (thrown x >>= f) = f a := by
  rw [h]
  rfl

theorem handled_thrown_bind_iff {x : Except String α} {f : α → Except Failure β} :
    Handled (thrown x >>= f) ↔ ∃ a, x = .ok a ∧ Handled (f a) := by
  rw [handled_bind_iff, handled_thrown_iff]
  constructor
  · rintro ⟨⟨a, ha⟩, h⟩
    exact ⟨a, ha, h a (thrown_eq_ok.mpr ha)⟩
  · rintro ⟨a, ha, h⟩
    refine ⟨⟨a, ha⟩, fun b hb => ?_⟩
    cases ha.symm.trans (thrown_eq_ok.mp hb)
    exact h

/-! ## The condition -/

/-- The device's own root, from which the chain starts. -/
def startRoot (rr : RootRepo R) (latestRoot : String) : Except String R :=
  if latestRoot = "" then .ok rr.empty else rr.initRoot rr.empty latestRoot

def nextRoot (rr : RootRepo R) (repo : R) (text : String) : Except String R :=
  if 0 < rr.rootVersion repo then rr.verifyRoot repo text else rr.initRoot repo text

/-- The roots of the bundle can be read, and each is verified by the one before. -/
def RootsVerify (rr : RootRepo R) (dir : Dir) : Nat → Int → R → Prop
  | 0, _, _ => True
  | fuel + 1, version, repo =>
    match dir.fetchRoot (version + 1) with
    | .notFound => True
    | .failed _ => False
    | .found text =>
      ∃ next, nextRoot rr repo text = .ok next ∧ RootsVerify rr dir fuel (version + 1) next

def startVersion (rr : RootRepo R) (latestRoot : String) (repo : R) : Int :=
  if latestRoot = "" then 0 else rr.rootVersion repo

def RootChain (rr : RootRepo R) (latestRoot : String) (dir : Dir) : Prop :=
  ∃ repo, startRoot rr latestRoot = .ok repo ∧
    RootsVerify rr dir (maxVersion - startVersion rr latestRoot repo).toNat
      (startVersion rr latestRoot repo) repo

/-- The file is signed as the root asks for. -/
def WellSigned (tk : Toolkit Key Stamp) (root : Json) (text : String) : Prop :=
  ∃ keys threshold signatures signed found, targetsPubKeys tk root = .ok keys ∧
    targetsSignThreshold root = .ok threshold ∧
    bundleSignatures (tk.parseJSON text) text = .ok signatures ∧
    (tk.parseJSON text).index "signed" = .ok signed ∧
    countSignatures tk keys (tk.jsonToCanonicalStr signed) signatures 0 = .ok found ∧
    threshold ≤ found

/-- What the library is given of a signature can be verified. -/
def SignatureVerifies (tk : Toolkit Key Stamp) (keys : List (String × Key)) (body : String)
    (signature : Json) : Prop :=
  ∀ id sig method key, stringField signature "keyid" = some id →
    stringField signature "sig" = some sig → stringField signature "method" = some method →
    keys.lookup id = some key → Returns (tk.verifySignature key sig body)

/-- So can the signatures up to the first that is refused. -/
def SignaturesVerify (tk : Toolkit Key Stamp) (keys : List (String × Key)) (body : String) :
    List Json → Prop
  | [] => True
  | signature :: rest =>
    SignatureVerifies tk keys body signature ∧
      (checkSignature tk keys body signature = .ok () → SignaturesVerify tk keys body rest)

/-- The signatures of the file, with the keys of the root. -/
def SignaturesRead (tk : Toolkit Key Stamp) (root : Json) (text : String) : Prop :=
  ∀ keys signatures signed, targetsPubKeys tk root = .ok keys →
    bundleSignatures (tk.parseJSON text) text = .ok signatures →
    (tk.parseJSON text).index "signed" = .ok signed →
    SignaturesVerify tk keys (tk.jsonToCanonicalStr signed) signatures

def expiryStamp (tk : Toolkit Key Stamp) (bundle : Json) : Except String Stamp := do
  tk.timeStamp (← (← (← bundle.index "signed").index "expires").asString)

/-- Everything that is read can be read: the roots, the keys of the last root, the outer form
of the file, its signatures, and, if it is well signed, its expiry and, if it has not expired,
the fields that are printed. -/
structure BundleReads (tk : Toolkit Key Stamp) (rr : RootRepo R) (latestRoot : String) (dir : Dir)
    (text : String) : Prop where
  roots : RootChain rr latestRoot dir
  keys : ∀ root, checkAndGetRootMeta tk rr latestRoot dir = .ok root →
    Returns (targetsPubKeys tk root) ∧ Returns (targetsSignThreshold root)
  form : ∀ root, checkAndGetRootMeta tk rr latestRoot dir = .ok root →
    Returns (lacksFields (tk.parseJSON text))
  signatures : ∀ root, checkAndGetRootMeta tk rr latestRoot dir = .ok root →
    SignaturesRead tk root text
  expiry : ∀ root, checkAndGetRootMeta tk rr latestRoot dir = .ok root → WellSigned tk root text →
    Returns (expiryStamp tk (tk.parseJSON text))
  fields : ∀ root stamp, checkAndGetRootMeta tk rr latestRoot dir = .ok root →
    WellSigned tk root text → expiryStamp tk (tk.parseJSON text) = .ok stamp →
    tk.isExpiredNow stamp = false → Returns (printBundleMeta (tk.parseJSON text))

/-! ## The roots -/

theorem handled_fetchRoots {fuel : Nat} {version : Int} {repo : R} {latest : String} :
    Handled (fetchRoots rr dir fuel version repo latest) ↔
      RootsVerify rr dir fuel version repo := by
  induction fuel generalizing version repo latest with
  | zero => exact iff_of_true (handled_ok _) trivial
  | succ fuel ih =>
    unfold fetchRoots RootsVerify
    cases dir.fetchRoot (version + 1) with
    | notFound => exact iff_of_true (handled_ok _) trivial
    | failed what => exact iff_of_false (fun h => h what rfl) id
    | found text =>
      change Handled (thrown (nextRoot rr repo text) >>= fun repo =>
        fetchRoots rr dir fuel (version + 1) repo text) ↔ _
      simp only [handled_thrown_bind_iff, ih]

/-- The end of the loop, with the text and the version it reached. -/
def lastRoot (tk : Toolkit Key Stamp) (reached : String × Int) : Except Failure Json :=
  if reached.1 = "" then
    .error (.bundleMeta .rootMetaNotFound
      ("Failed to find root metadata; missing version: " ++ toString reached.2))
  else .ok (tk.parseJSON reached.1)

theorem checkAndGetRootMeta_eq : checkAndGetRootMeta tk rr latestRoot dir = (do
    let repo ← thrown (startRoot rr latestRoot)
    let reached ← fetchRoots rr dir (maxVersion - startVersion rr latestRoot repo).toNat
      (startVersion rr latestRoot repo) repo latestRoot
    lastRoot tk reached) := by
  unfold checkAndGetRootMeta startRoot startVersion
  by_cases h : latestRoot = ""
  · simp only [h, if_true]
    rfl
  · simp only [h, if_false]
    rfl

theorem handled_checkAndGetRootMeta :
    Handled (checkAndGetRootMeta tk rr latestRoot dir) ↔ RootChain rr latestRoot dir := by
  have hlast (reached : String × Int) : Handled (lastRoot tk reached) := by
    unfold lastRoot
    split
    · exact handled_bundleMeta _ _
    · exact handled_ok _
  rw [checkAndGetRootMeta_eq, handled_thrown_bind_iff]
  simp only [handled_bind_iff, handled_fetchRoots, hlast, implies_true, and_true]
  rfl

/-! ## The file -/

variable {bundle : Json}

/-- A file of the right outer form is an object. -/
theorem index_returns_of_lacksFields (h : lacksFields bundle = .ok false) (key : String) :
    Returns (bundle.index key) := by
  cases bundle with
  | obj fields => exact ⟨_, rfl⟩
  | arr items =>
    unfold lacksFields at h
    split at h
    · cases h
    · cases h
  | _ => cases h

theorem handled_bundleSignatures :
    Handled (bundleSignatures bundle text) ↔ Returns (lacksFields bundle) := by
  unfold bundleSignatures
  rw [handled_thrown_bind_iff]
  constructor
  · rintro ⟨lacks, hlacks, _⟩
    exact ⟨lacks, hlacks⟩
  · rintro ⟨lacks, hlacks⟩
    refine ⟨lacks, hlacks, ?_⟩
    cases lacks with
    | true => exact handled_bundleMeta _ _
    | false =>
      obtain ⟨value, hvalue⟩ := index_returns_of_lacksFields hlacks "signatures"
      rw [if_neg (by decide), handled_thrown_bind_iff]
      refine ⟨value, hvalue, ?_⟩
      cases value with
      | arr signatures => exact handled_ok _
      | _ => exact handled_bundleMeta _ _

theorem lacksFields_of_bundleSignatures {signatures : List Json}
    (h : bundleSignatures bundle text = .ok signatures) : lacksFields bundle = .ok false := by
  obtain ⟨lacks, hlacks, h⟩ := bind_eq_ok.mp h
  rw [thrown_eq_ok.mp hlacks]
  cases lacks with
  | false => rfl
  | true => cases h

theorem handled_checkSignature {keys : List (String × Key)} {body : String} {signature : Json} :
    Handled (checkSignature tk keys body signature) ↔
      SignatureVerifies tk keys body signature := by
  unfold checkSignature SignatureVerifies
  split
  · next id sig method hid hsig hmethod =>
    cases hkey : keys.lookup id with
    | none =>
      refine iff_of_true (handled_bundleMeta _ _) fun id' _ _ key hid' _ _ hkey' => ?_
      cases hid.symm.trans hid'
      cases hkey.symm.trans hkey'
    | some key =>
      refine handled_thrown_bind_iff.trans ⟨?_, fun h => ?_⟩
      · rintro ⟨valid, hvalid, _⟩ id' sig' _ key' hid' hsig' _ hkey'
        cases hid.symm.trans hid'
        cases hsig.symm.trans hsig'
        cases hkey.symm.trans hkey'
        exact ⟨valid, hvalid⟩
      · obtain ⟨valid, hvalid⟩ := h id sig method key hid hsig hmethod hkey
        refine ⟨valid, hvalid, ?_⟩
        split
        · exact handled_ok _
        · exact handled_bundleMeta _ _
  · next hnone =>
    refine iff_of_true (handled_bundleMeta _ _) fun id sig method key hid hsig hmethod _ => ?_
    exact (hnone id sig method hid hsig hmethod).elim

theorem handled_countSignatures {keys : List (String × Key)} {body : String}
    {signatures : List Json} {found : Int} :
    Handled (countSignatures tk keys body signatures found) ↔
      SignaturesVerify tk keys body signatures := by
  induction signatures generalizing found with
  | nil => exact iff_of_true (handled_ok _) trivial
  | cons signature rest ih =>
    unfold countSignatures SignaturesVerify
    rw [handled_bind_iff, handled_checkSignature]
    exact and_congr_right fun _ => ⟨fun h hok => ih.mp (h () hok), fun h _ hok => ih.mpr (h hok)⟩

/-! ## The expiry -/

/-- The check leaves the members of the signed part as they are. -/
structure SameSigned (bundle bundle' : Json) : Prop where
  signed : ∃ signed signed', bundle.index "signed" = .ok signed ∧
    bundle'.index "signed" = .ok signed' ∧ ∀ key, signed'.index key = signed.index key
  not_empty : bundle'.isEmpty = false

theorem SameSigned.offlineBundle {bundle bundle' : Json} (h : SameSigned bundle bundle') :
    Bundle.offlineBundle bundle' = Bundle.offlineBundle bundle := by
  obtain ⟨signed, signed', hsigned, hsigned', hsame⟩ := h.signed
  unfold Bundle.offlineBundle
  rw [hsigned, hsigned']
  exact hsame _

theorem SameSigned.printBundleMeta {bundle bundle' : Json} (h : SameSigned bundle bundle') :
    Bundle.printBundleMeta bundle' = Bundle.printBundleMeta bundle := by
  obtain ⟨signed, signed', hsigned, hsigned', hsame⟩ := h.signed
  have hexpires : (bundle'.index "signed" >>= fun s => s.index "expires") =
      (bundle.index "signed" >>= fun s => s.index "expires") := by
    rw [hsigned, hsigned']
    exact hsame _
  have hprint (b : Json) : Bundle.printBundleMeta b = (do
      let _ ← (← (← Bundle.offlineBundle b).index "type").asString
      let _ ← (← (← Bundle.offlineBundle b).index "tag").asString
      let expires ← b.index "signed" >>= fun s => s.index "expires"
      let _ ← expires.asString
      let _ ← (← (← Bundle.offlineBundle b).index "targets").values.mapM Json.asString) := by
    simp only [bind_assoc]
    rfl
  rw [hprint, hprint, h.offlineBundle, hexpires]

theorem checkExpiry_ok {bundle bundle' : Json} (h : checkExpiry tk bundle = .ok bundle') :
    SameSigned bundle bundle' ∧
      ∃ stamp, expiryStamp tk bundle = .ok stamp ∧ tk.isExpiredNow stamp = false := by
  unfold checkExpiry at h
  obtain ⟨signed, hsigned, h⟩ := bind_eq_ok.mp h
  obtain ⟨⟨signed', expires⟩, htouch, h⟩ := bind_eq_ok.mp h
  obtain ⟨text, htext, h⟩ := bind_eq_ok.mp h
  obtain ⟨stamp, hstamp, h⟩ := bind_eq_ok.mp h
  obtain ⟨hfresh, h⟩ := ite_error_eq_ok.mp h
  have hfind := Json.find_insert_self (thrown_eq_ok.mp h)
  have htouch := thrown_eq_ok.mp htouch
  refine ⟨⟨⟨signed, signed', thrown_eq_ok.mp hsigned, Json.index_of_find hfind, fun key =>
    Json.index_touch htouch key⟩, ?_⟩, stamp, ?_, by simpa using hfresh⟩
  · -- the member `signed` is there
    cases bundle' with
    | obj fields =>
      cases fields with
      | nil => cases hfind
      | cons f rest => rfl
    | null => cases hfind
    | _ => cases hfind
  · unfold expiryStamp
    rw [thrown_eq_ok.mp hsigned]
    refine bind_eq_ok.mpr ⟨signed, rfl, bind_eq_ok.mpr ⟨expires, Json.index_of_touch htouch, ?_⟩⟩
    exact bind_eq_ok.mpr ⟨text, thrown_eq_ok.mp htext, thrown_eq_ok.mp hstamp⟩

/-- With a readable expiry the check ends with the bundle or with the error that it has
expired. -/
theorem checkExpiry_of_stamp {stamp : Stamp} (h : expiryStamp tk bundle = .ok stamp) :
    Handled (checkExpiry tk bundle) ∧
      (tk.isExpiredNow stamp = false → ∃ bundle', checkExpiry tk bundle = .ok bundle') := by
  obtain ⟨signed, hsigned, h⟩ := bind_eq_ok.mp h
  obtain ⟨expires, hexpires, h⟩ := bind_eq_ok.mp h
  obtain ⟨text, htext, hstamp⟩ := bind_eq_ok.mp h
  obtain ⟨signed', expires', htouch⟩ := Json.touch_returns hexpires
  cases hexpires.symm.trans (Json.index_of_touch htouch)
  obtain ⟨bundle', hinsert⟩ := Json.insert_returns hsigned signed' "signed"
  have heq : checkExpiry tk bundle =
      if tk.isExpiredNow stamp then
        .error (.bundleMeta .expired
          ("The offline bundle metadata has expired: " ++ tk.stampToString stamp))
      else .ok bundle' := by
    unfold checkExpiry
    rw [thrown_bind_of_ok hsigned, thrown_bind_of_ok htouch]
    dsimp only
    rw [thrown_bind_of_ok htext, thrown_bind_of_ok hstamp, hinsert]
    rfl
  rw [heq]
  constructor
  · split
    · exact handled_bundleMeta _ _
    · exact handled_ok _
  · intro hfresh
    exact ⟨bundle', by rw [hfresh]; rfl⟩

theorem handled_checkExpiry :
    Handled (checkExpiry tk bundle) ↔ Returns (expiryStamp tk bundle) := by
  constructor
  · intro h
    unfold checkExpiry at h
    obtain ⟨signed, hs, h⟩ := handled_thrown_bind_iff.mp h
    obtain ⟨⟨signed', expires⟩, htouch, h⟩ := handled_thrown_bind_iff.mp h
    obtain ⟨text, htext, h⟩ := handled_thrown_bind_iff.mp h
    obtain ⟨stamp, hstamp, _⟩ := handled_thrown_bind_iff.mp h
    refine ⟨stamp, ?_⟩
    unfold expiryStamp
    rw [hs]
    refine bind_eq_ok.mpr ⟨signed, rfl, bind_eq_ok.mpr ⟨expires, Json.index_of_touch htouch, ?_⟩⟩
    exact bind_eq_ok.mpr ⟨text, htext, hstamp⟩
  · rintro ⟨stamp, hstamp⟩
    exact (checkExpiry_of_stamp hstamp).1

/-! ## The check as a whole -/

/-- The file is accepted if it is well signed and has not expired. -/
theorem checkAndGetBundleMeta_iff {root : Json}
    (hroot : checkAndGetRootMeta tk rr latestRoot dir = .ok root)
    (htext : dir.bundleTargets = some text) :
    checkAndGetBundleMeta tk rr latestRoot dir = .ok bundle ↔
      WellSigned tk root text ∧ checkExpiry tk (tk.parseJSON text) = .ok bundle := by
  unfold checkAndGetBundleMeta
  simp only [hroot, htext]
  change (thrown (targetsPubKeys tk root) >>= _) = _ ↔ _
  constructor
  · intro h
    obtain ⟨keys, hkeys, h⟩ := bind_eq_ok.mp h
    obtain ⟨threshold, hthreshold, h⟩ := bind_eq_ok.mp h
    obtain ⟨signatures, hsignatures, h⟩ := bind_eq_ok.mp h
    obtain ⟨signed, hsigned, h⟩ := bind_eq_ok.mp h
    obtain ⟨found, hfound, h⟩ := bind_eq_ok.mp h
    obtain ⟨henough, h⟩ := ite_error_eq_ok.mp h
    exact ⟨⟨keys, threshold, signatures, signed, found, thrown_eq_ok.mp hkeys,
      thrown_eq_ok.mp hthreshold, hsignatures, thrown_eq_ok.mp hsigned, hfound,
      Int.not_lt.mp henough⟩, h⟩
  · rintro ⟨⟨keys, threshold, signatures, signed, found, hkeys, hthreshold, hsignatures, hsigned,
      hfound, henough⟩, h⟩
    refine bind_eq_ok.mpr ⟨keys, thrown_eq_ok.mpr hkeys, ?_⟩
    refine bind_eq_ok.mpr ⟨threshold, thrown_eq_ok.mpr hthreshold, ?_⟩
    refine bind_eq_ok.mpr ⟨signatures, hsignatures, ?_⟩
    refine bind_eq_ok.mpr ⟨signed, thrown_eq_ok.mpr hsigned, ?_⟩
    refine bind_eq_ok.mpr ⟨found, hfound, ?_⟩
    exact ite_error_eq_ok.mpr ⟨Int.not_lt.mpr henough, h⟩

/-- With a root, only its keys, the outer form of the file, the signatures and the expiry are
read. -/
theorem handled_checkAndGetBundleMeta {root : Json}
    (hroot : checkAndGetRootMeta tk rr latestRoot dir = .ok root)
    (htext : dir.bundleTargets = some text) :
    Handled (checkAndGetBundleMeta tk rr latestRoot dir) ↔
      (Returns (targetsPubKeys tk root) ∧ Returns (targetsSignThreshold root)) ∧
        Returns (lacksFields (tk.parseJSON text)) ∧ SignaturesRead tk root text ∧
        (WellSigned tk root text → Returns (expiryStamp tk (tk.parseJSON text))) := by
  unfold checkAndGetBundleMeta
  simp only [hroot, htext]
  change Handled (thrown (targetsPubKeys tk root) >>= _) ↔ _
  rw [handled_thrown_bind_iff]
  constructor
  · rintro ⟨keys, hkeys, h⟩
    obtain ⟨threshold, hthreshold, h⟩ := handled_thrown_bind_iff.mp h
    obtain ⟨hform, h⟩ := handled_bind_iff.mp h
    refine ⟨⟨⟨keys, hkeys⟩, threshold, hthreshold⟩, handled_bundleSignatures.mp hform, ?_, ?_⟩
    · intro keys' signatures signed hkeys' hsignatures hsigned
      cases hkeys.symm.trans hkeys'
      obtain ⟨signed', hsigned', h⟩ := handled_thrown_bind_iff.mp (h signatures hsignatures)
      cases hsigned.symm.trans hsigned'
      exact handled_countSignatures.mp (handled_bind_iff.mp h).1
    · rintro ⟨keys', threshold', signatures, signed, found, hkeys', hthreshold', hsignatures,
        hsigned, hfound, henough⟩
      cases hkeys.symm.trans hkeys'
      cases hthreshold.symm.trans hthreshold'
      obtain ⟨signed', hsigned', h⟩ := handled_thrown_bind_iff.mp (h signatures hsignatures)
      cases hsigned.symm.trans hsigned'
      have h := (handled_bind_iff.mp h).2 found hfound
      rw [if_neg (Int.not_lt.mpr henough)] at h
      exact handled_checkExpiry.mp h
  · rintro ⟨⟨⟨keys, hkeys⟩, threshold, hthreshold⟩, hform, hverify, hexpiry⟩
    refine ⟨keys, hkeys, handled_thrown_bind_iff.mpr ⟨threshold, hthreshold, ?_⟩⟩
    refine handled_bind_iff.mpr ⟨handled_bundleSignatures.mpr hform, fun signatures hsigs => ?_⟩
    obtain ⟨signed, hsigned⟩ :=
      index_returns_of_lacksFields (lacksFields_of_bundleSignatures hsigs) "signed"
    refine handled_thrown_bind_iff.mpr ⟨signed, hsigned, ?_⟩
    refine handled_bind_iff.mpr ⟨handled_countSignatures.mpr
      (hverify keys signatures signed hkeys hsigs hsigned), fun found hfound => ?_⟩
    by_cases henough : found < threshold
    · rw [if_pos henough]
      exact handled_bundleMeta _ _
    · rw [if_neg henough]
      exact handled_checkExpiry.mpr (hexpiry ⟨keys, threshold, signatures, signed, found, hkeys,
        hthreshold, hsigs, hsigned, hfound, Int.not_lt.mp henough⟩)

/-- What is printed is what the checks of the type and the tag read. -/
theorem printBundleMeta_reads (h : Returns (printBundleMeta bundle)) :
    ∃ offline type tag targets, offlineBundle bundle = .ok offline ∧
      (offline.index "type" >>= Json.asString) = .ok type ∧
      (offline.index "tag" >>= Json.asString) = .ok tag ∧
      offline.index "targets" = .ok targets := by
  obtain ⟨u, h⟩ := h
  obtain ⟨offline, hoffline, h⟩ := bind_eq_ok.mp h
  obtain ⟨typeJson, htypeJson, h⟩ := bind_eq_ok.mp h
  obtain ⟨type, htype, h⟩ := bind_eq_ok.mp h
  obtain ⟨offline₁, hoffline₁, h⟩ := bind_eq_ok.mp h
  obtain ⟨tagJson, htagJson, h⟩ := bind_eq_ok.mp h
  obtain ⟨tag, htag, h⟩ := bind_eq_ok.mp h
  cases hoffline.symm.trans hoffline₁
  obtain ⟨targets, htargets⟩ := Json.index_returns htypeJson "targets"
  exact ⟨offline, type, tag, targets, hoffline, bind_eq_ok.mpr ⟨typeJson, htypeJson, htype⟩,
    bind_eq_ok.mpr ⟨tagJson, htagJson, htag⟩, htargets⟩

theorem handled_checkBundleType {clientType : ClientType} (h : Returns (printBundleMeta bundle)) :
    Handled (checkBundleType bundle clientType) := by
  obtain ⟨offline, type, -, -, hoffline, htype, -⟩ := printBundleMeta_reads h
  unfold checkBundleType
  split
  · exact handled_ok _
  · refine handled_thrown_bind_iff.mpr ⟨type, bind_eq_ok.mpr ⟨offline, hoffline, htype⟩, ?_⟩
    split
    · exact handled_bundleMeta _ _
    · exact handled_ok _

theorem handled_checkBundleTag {tags : List String} (h : Returns (printBundleMeta bundle)) :
    Handled (checkBundleTag bundle tags) := by
  obtain ⟨offline, -, tag, -, hoffline, -, htag, -⟩ := printBundleMeta_reads h
  unfold checkBundleTag
  split
  · exact handled_ok _
  · refine handled_thrown_bind_iff.mpr ⟨tag, bind_eq_ok.mpr ⟨offline, hoffline, htag⟩, ?_⟩
    split
    · exact handled_ok _
    · exact handled_bundleMeta _ _

/-- No other exception leaves the check of a bundle exactly if everything it reads can be
read. -/
theorem handled_getBundleMeta {clientType : ClientType} {tags : List String}
    (htext : dir.bundleTargets = some text) :
    Handled (getBundleMeta tk rr latestRoot dir clientType tags) ↔
      BundleReads tk rr latestRoot dir text := by
  have heq : getBundleMeta tk rr latestRoot dir clientType tags = (do
      let bundle ← checkAndGetBundleMeta tk rr latestRoot dir
      thrown (printBundleMeta bundle)
      checkBundleType bundle clientType
      checkBundleTag bundle tags
      return bundle) := by
    unfold getBundleMeta
    rw [htext]
    rfl
  rw [heq, handled_bind_iff]
  constructor
  · rintro ⟨hcheck, hrest⟩
    have hroots : Handled (checkAndGetRootMeta tk rr latestRoot dir) :=
      (handled_bind_iff.mp hcheck).1
    have hreads {root : Json} (hroot : checkAndGetRootMeta tk rr latestRoot dir = .ok root) :=
      (handled_checkAndGetBundleMeta hroot htext).mp hcheck
    refine ⟨handled_checkAndGetRootMeta.mp hroots, fun _ hroot => (hreads hroot).1,
      fun _ hroot => (hreads hroot).2.1, fun _ hroot => (hreads hroot).2.2.1,
      fun _ hroot => (hreads hroot).2.2.2, fun root stamp hroot hsigned hstamp hfresh => ?_⟩
    obtain ⟨bundle, hexpiry⟩ := (checkExpiry_of_stamp hstamp).2 hfresh
    have hprint := hrest bundle ((checkAndGetBundleMeta_iff hroot htext).mpr ⟨hsigned, hexpiry⟩)
    obtain ⟨u, hu, _⟩ := handled_thrown_bind_iff.mp hprint
    exact ⟨u, (checkExpiry_ok hexpiry).1.printBundleMeta ▸ hu⟩
  · intro h
    have hroots : Handled (checkAndGetRootMeta tk rr latestRoot dir) :=
      handled_checkAndGetRootMeta.mpr h.roots
    constructor
    · cases hroot : checkAndGetRootMeta tk rr latestRoot dir with
      | ok root =>
        exact (handled_checkAndGetBundleMeta hroot htext).mpr
          ⟨h.keys root hroot, h.form root hroot, h.signatures root hroot, h.expiry root hroot⟩
      | error e =>
        -- the root is not found, or the chain does not verify
        intro what hwhat
        unfold checkAndGetBundleMeta at hwhat
        rw [hroot] at hwhat
        cases hwhat
        exact hroots what hroot
    · intro bundle hbundle
      obtain ⟨root, hroot, _⟩ := bind_eq_ok.mp hbundle
      obtain ⟨hsigned, hexpiry⟩ := (checkAndGetBundleMeta_iff hroot htext).mp hbundle
      obtain ⟨hsame, stamp, hstamp, hfresh⟩ := checkExpiry_ok hexpiry
      have hprint : Returns (printBundleMeta bundle) :=
        hsame.printBundleMeta ▸ h.fields root stamp hroot hsigned hstamp hfresh
      obtain ⟨u, hu⟩ := hprint
      refine handled_thrown_bind_iff.mpr ⟨u, hu, ?_⟩
      refine handled_bind_iff.mpr ⟨handled_checkBundleType ⟨u, hu⟩, fun _ _ => ?_⟩
      refine handled_bind_iff.mpr ⟨handled_checkBundleTag ⟨u, hu⟩, fun _ _ => ?_⟩
      exact handled_ok _

end Bundle
end AkLite
