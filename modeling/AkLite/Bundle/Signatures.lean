/-
Who signed an accepted bundle.

The loop of `checkAndGetBundleMeta` counts the entries of `signatures`.  Every
entry it passes is a valid signature by a key of the targets role, which is
`countSignatures_spec`.  It does not look whether an earlier entry has the same
key ID, so the count can exceed the number of keys that signed.
`signedByThreshold_iff` says for which accepted bundles the threshold is met by
distinct keys, and `repeated_signature_is_accepted` is a bundle for which it is
not.
-/
import AkLite.Bundle.Meta
import AkLite.Lib.Outcome
import Mathlib.Data.List.Dedup
import Mathlib.Data.List.Perm.Subperm

namespace AkLite
namespace Bundle

open Lib

variable {Key Stamp R : Type}

/-- The key with identifier `id` is a key of the root that its targets role lists,
and some entry of `signatures` is a valid signature with it over the canonical
form of the signed body. -/
def SignedBy (tk : Toolkit Key Stamp) (root bundle : Json) (id : String) : Prop :=
  ∃ ids keys signed signatures,
    targetsKeyIds root = .ok ids ∧ id ∈ ids ∧
    rootKeys root = .ok keys ∧ bundle.index "signed" = .ok signed ∧
    bundle.index "signatures" = .ok (.arr signatures) ∧
    ∃ json key, (id, json) ∈ keys ∧ tk.publicKey json = .ok key ∧
      ∃ signature ∈ signatures, ∃ sig, stringField signature "keyid" = some id ∧
        stringField signature "sig" = some sig ∧
        tk.verifySignature key sig (tk.jsonToCanonicalStr signed) = .ok true

/-- At least as many distinct keys signed the bundle as the threshold of the
targets role asks for. -/
def SignedByThreshold (tk : Toolkit Key Stamp) (root bundle : Json) : Prop :=
  ∃ (threshold : Int) (ids : List String),
    targetsSignThreshold root = .ok threshold ∧ ids.Nodup ∧
    threshold ≤ (ids.length : Int) ∧ ∀ id ∈ ids, SignedBy tk root bundle id

/-- The key IDs the entries of `signatures` name, each once. -/
def distinctKeyIds (bundle : Json) : List String :=
  match bundle.index "signatures" with
  | .ok (.arr signatures) => (signatures.filterMap fun s => stringField s "keyid").dedup
  | _ => []

/-- The entries of `signatures` name at least threshold-many different key IDs. -/
def NamesEnoughKeys (root bundle : Json) : Prop :=
  ∃ threshold, targetsSignThreshold root = .ok threshold ∧
    threshold ≤ ((distinctKeyIds bundle).length : Int)

theorem thrown_eq_ok {α : Type} {x : Except String α} {a : α} : thrown x = .ok a ↔ x = .ok a :=
  mapError_eq_ok

/-! ## The keys -/

variable {tk : Toolkit Key Stamp} {keys : List (String × Key)} {id : String} {key : Key}

theorem mem_insertKey {p : String × Key} (h : p ∈ insertKey keys id key) :
    p ∈ keys ∨ p = (id, key) := by
  unfold insertKey at h
  by_cases hs : (keys.lookup id).isSome
  · rw [if_pos hs] at h
    exact Or.inl h
  · rw [if_neg hs] at h
    simpa using h

/-- Every collected key is a key of the root with a listed identifier. -/
theorem collectKeys_spec {ids : List String} {entries : List (String × Json)}
    {acc keys : List (String × Key)} (h : collectKeys tk ids entries acc = .ok keys)
    (hmem : (id, key) ∈ keys) :
    (id, key) ∈ acc ∨ id ∈ ids ∧ ∃ json, (id, json) ∈ entries ∧ tk.publicKey json = .ok key := by
  induction entries generalizing acc with
  | nil =>
    cases h
    exact Or.inl hmem
  | cons e rest ih =>
    obtain ⟨eid, ejson⟩ := e
    rw [collectKeys] at h
    by_cases hid : ids.contains eid
    · rw [if_pos hid] at h
      obtain ⟨ekey, hkey, hrest⟩ := bind_eq_ok.mp h
      rcases ih hrest with hacc | ⟨hin, json, hjson, hpub⟩
      · rcases mem_insertKey hacc with hold | hnew
        · exact Or.inl hold
        · cases hnew
          exact Or.inr ⟨by simpa using hid, ejson, List.mem_cons_self, hkey⟩
      · exact Or.inr ⟨hin, json, List.mem_cons_of_mem _ hjson, hpub⟩
    · rw [if_neg hid] at h
      rcases ih h with hacc | ⟨hin, json, hjson, hpub⟩
      · exact Or.inl hacc
      · exact Or.inr ⟨hin, json, List.mem_cons_of_mem _ hjson, hpub⟩

theorem targetsPubKeys_spec {root : Json} (h : targetsPubKeys tk root = .ok keys)
    (hlook : keys.lookup id = some key) :
    ∃ ids entries, targetsKeyIds root = .ok ids ∧ id ∈ ids ∧ rootKeys root = .ok entries ∧
      ∃ json, (id, json) ∈ entries ∧ tk.publicKey json = .ok key := by
  obtain ⟨ids, hids, hrest⟩ := bind_eq_ok.mp h
  obtain ⟨entries, hentries, hcollect⟩ := bind_eq_ok.mp hrest
  rcases collectKeys_spec hcollect (mem_of_lookup hlook) with hnil | ⟨hin, json, hjson, hpub⟩
  · exact absurd hnil (List.not_mem_nil)
  · exact ⟨ids, entries, hids, hin, hentries, json, hjson, hpub⟩

/-! ## The loop over the signatures -/

theorem checkSignature_spec {body : String} {signature : Json} {u : Unit}
    (h : checkSignature tk keys body signature = .ok u) :
    ∃ id sig key, stringField signature "keyid" = some id ∧
      stringField signature "sig" = some sig ∧ keys.lookup id = some key ∧
      tk.verifySignature key sig body = .ok true := by
  unfold checkSignature at h
  split at h
  · rename_i id sig _ hid hsig _
    cases hlook : keys.lookup id with
    | none => simp [hlook] at h
    | some key =>
      rw [hlook] at h
      obtain ⟨valid, hvalid, h⟩ := bind_eq_ok.mp h
      cases valid with
      | true => exact ⟨id, sig, key, hid, hsig, hlook, thrown_eq_ok.mp hvalid⟩
      | false => cases h
  · simp at h

/-- The loop passes every entry and counts it. -/
theorem countSignatures_spec {body : String} {signatures : List Json} {start found : Int}
    (h : countSignatures tk keys body signatures start = .ok found) :
    found = start + signatures.length ∧
      ∀ s ∈ signatures, checkSignature tk keys body s = .ok () := by
  induction signatures generalizing start with
  | nil =>
    cases h
    simp
  | cons s rest ih =>
    obtain ⟨u, hs, hrest⟩ := bind_eq_ok.mp h
    obtain ⟨hfound, hall⟩ := ih hrest
    refine ⟨by rw [hfound, List.length_cons]; push_cast; omega, fun x hx => ?_⟩
    rcases List.mem_cons.mp hx with rfl | hx
    · exact hs
    · exact hall x hx

/-! ## The check as a whole -/

/-- What an accepted bundle has passed. -/
theorem checkAndGetBundleMeta_ok {rr : RootRepo R} {latestRoot : String} {dir : Dir} {result : Json}
    (h : checkAndGetBundleMeta tk rr latestRoot dir = .ok result) {root : Json}
    (hroot : checkAndGetRootMeta tk rr latestRoot dir = .ok root) {text : String}
    (htext : dir.bundleTargets = some text) :
    ∃ keys threshold signatures signed, targetsPubKeys tk root = .ok keys ∧
      targetsSignThreshold root = .ok threshold ∧
      (tk.parseJSON text).index "signatures" = .ok (.arr signatures) ∧
      (tk.parseJSON text).index "signed" = .ok signed ∧
      threshold ≤ (signatures.length : Int) ∧
      ∀ s ∈ signatures, checkSignature tk keys (tk.jsonToCanonicalStr signed) s = .ok () := by
  unfold checkAndGetBundleMeta at h
  obtain ⟨root', hroot', h⟩ := bind_eq_ok.mp h
  obtain rfl : root = root' := Except.ok.inj (hroot.symm.trans hroot')
  obtain ⟨keys, hkeys, h⟩ := bind_eq_ok.mp h
  obtain ⟨threshold, hth, h⟩ := bind_eq_ok.mp h
  rw [htext] at h
  obtain ⟨signatures, hsigs, h⟩ := bind_eq_ok.mp h
  obtain ⟨signed, hsigned, h⟩ := bind_eq_ok.mp h
  obtain ⟨found, hfound, h⟩ := bind_eq_ok.mp h
  obtain ⟨hge, -⟩ := ite_error_eq_ok.mp h
  obtain ⟨hlen, hall⟩ := countSignatures_spec hfound
  refine ⟨keys, threshold, signatures, signed, thrown_eq_ok.mp hkeys, thrown_eq_ok.mp hth, ?_,
    thrown_eq_ok.mp hsigned, by omega, hall⟩
  -- The format checks return the array they looked at.
  obtain ⟨lacks, -, hsigs⟩ := bind_eq_ok.mp hsigs
  obtain ⟨-, hsigs⟩ := ite_error_eq_ok.mp hsigs
  obtain ⟨value, hvalue, hsigs⟩ := bind_eq_ok.mp hsigs
  cases value <;> simp at hsigs
  rw [thrown_eq_ok.mp hvalue, hsigs]

/-- The key of each entry of an accepted bundle signed it. -/
theorem signedBy_of_checked {root bundle signed : Json} {signatures : List Json}
    (hkeys : targetsPubKeys tk root = .ok keys)
    (hsigs : bundle.index "signatures" = .ok (.arr signatures))
    (hsigned : bundle.index "signed" = .ok signed)
    (hall : ∀ s ∈ signatures, checkSignature tk keys (tk.jsonToCanonicalStr signed) s = .ok ())
    (hid : id ∈ distinctKeyIds bundle) : SignedBy tk root bundle id := by
  rw [distinctKeyIds, hsigs, List.mem_dedup, List.mem_filterMap] at hid
  obtain ⟨signature, hmem, hname⟩ := hid
  obtain ⟨id', sig, key, hid', hsig, hlook, hv⟩ := checkSignature_spec (hall signature hmem)
  obtain rfl : id = id' := Option.some.inj (hname.symm.trans hid')
  obtain ⟨ids, entries, hids, hin, hentries, json, hjson, hpub⟩ := targetsPubKeys_spec hkeys hlook
  exact ⟨ids, entries, signed, signatures, hids, hin, hentries, hsigned, hsigs, json, key, hjson,
    hpub, signature, hmem, sig, hname, hsig, hv⟩

theorem mem_distinctKeyIds_of_signedBy {root bundle : Json} (h : SignedBy tk root bundle id) :
    id ∈ distinctKeyIds bundle := by
  obtain ⟨-, -, -, signatures, -, -, -, -, hsigs, -, -, -, -, signature, hmem, -, hname, -⟩ := h
  rw [distinctKeyIds, hsigs, List.mem_dedup, List.mem_filterMap]
  exact ⟨signature, hmem, hname⟩

/-- An accepted bundle is signed by threshold-many distinct keys of the targets
role exactly when its entries name that many distinct key IDs. -/
theorem signedByThreshold_iff {tk : Toolkit Key Stamp} {rr : RootRepo R} {latestRoot : String}
    {dir : Dir} {result root : Json} {text : String}
    (h : checkAndGetBundleMeta tk rr latestRoot dir = .ok result)
    (hroot : checkAndGetRootMeta tk rr latestRoot dir = .ok root)
    (htext : dir.bundleTargets = some text) :
    SignedByThreshold tk root (tk.parseJSON text) ↔ NamesEnoughKeys root (tk.parseJSON text) := by
  obtain ⟨keys, threshold, signatures, signed, hkeys, hth, hsigs, hsigned, -, hall⟩ :=
    checkAndGetBundleMeta_ok h hroot htext
  constructor
  · rintro ⟨threshold', ids, hth', hnodup, hle, hids⟩
    have hsub : ids ⊆ distinctKeyIds (tk.parseJSON text) := fun id hid =>
      mem_distinctKeyIds_of_signedBy (hids id hid)
    have hlen := (hnodup.subperm hsub).length_le
    exact ⟨threshold', hth', by omega⟩
  · rintro ⟨threshold', hth', hle⟩
    refine ⟨threshold', distinctKeyIds (tk.parseJSON text), hth', ?_, hle, fun id hid =>
      signedBy_of_checked hkeys hsigs hsigned hall hid⟩
    rw [distinctKeyIds, hsigs]
    exact List.nodup_dedup _

/-! ## A repeated signature -/

/-- A toolkit for fixed inputs: one text is the root and every other text is the
bundle, a key is its JSON string, and a signature is valid when it is the name of
its key. -/
def sampleToolkit (root bundle : Json) : Toolkit String Unit where
  parseJSON text := if text = "root" then root else bundle
  jsonToCanonicalStr _ := "body"
  toStyledString _ := ""
  publicKey := Json.asString
  verifySignature key sig _ := .ok (key == sig)
  timeStamp _ := .ok ()
  stampToString _ := ""
  isExpiredNow _ := false

def sampleRootRepo : RootRepo Int where
  empty := 0
  rootVersion v := v
  initRoot _ _ := .ok 1
  verifyRoot v _ := .ok (v + 1)

/-- A bundle without root metadata of its own. -/
def sampleDir : Dir where
  fetchRoot _ := .notFound
  bundleTargetsPath := "bundle-targets.json"
  bundleTargets := some "bundle"

/-- Two keys, both of the targets role, of which `threshold` must sign. -/
def sampleRoot (threshold : Int) : Json :=
  .obj [("signed", .obj [("keys", .obj [("k1", .str "a"), ("k2", .str "b")]),
    ("roles", .obj [("targets", .obj [("keyids", .arr [.str "k1", .str "k2"]),
      ("threshold", .int threshold)])])])]

def sampleSignature (id sig : String) : Json :=
  .obj [("keyid", .str id), ("method", .str "ed25519"), ("sig", .str sig)]

def sampleBundle (signatures : List Json) : Json :=
  .obj [("signatures", .arr signatures), ("signed", .obj [("expires", .str "")])]

/-- Both keys sign, and the threshold of two is met by distinct keys. -/
theorem signedByThreshold_iff_two_keys :
    SignedByThreshold (sampleToolkit (sampleRoot 2)
        (sampleBundle [sampleSignature "k1" "a", sampleSignature "k2" "b"]))
      (sampleRoot 2) (sampleBundle [sampleSignature "k1" "a", sampleSignature "k2" "b"]) := by
  have hiff := @signedByThreshold_iff String Unit Int (sampleToolkit (sampleRoot 2)
    (sampleBundle [sampleSignature "k1" "a", sampleSignature "k2" "b"])) sampleRootRepo "root"
    sampleDir _ _ "bundle" rfl rfl rfl
  exact hiff.mpr ⟨2, rfl, by decide⟩

/-- With a threshold of two, one key that signs twice is accepted. -/
theorem repeated_signature_is_accepted :
    ¬ ∀ (root bundle : Json) (result : Json),
      checkAndGetBundleMeta (sampleToolkit root bundle) sampleRootRepo "root" sampleDir =
        .ok result →
      SignedByThreshold (sampleToolkit root bundle) root bundle := by
  intro h
  have hsigned := h (sampleRoot 2)
    (sampleBundle [sampleSignature "k1" "a", sampleSignature "k1" "a"]) _ rfl
  obtain ⟨threshold, ids, hth, hnodup, hle, hids⟩ := hsigned
  have hsub : ids ⊆ ["k1"] := fun id hid => mem_distinctKeyIds_of_signedBy (hids id hid)
  have hlen := (hnodup.subperm hsub).length_le
  obtain rfl : 2 = threshold := Except.ok.inj hth
  simp at hlen
  omega

end Bundle
end AkLite
