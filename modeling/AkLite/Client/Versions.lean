/-
The versions that are shown and compared.

The targets of the TUF metadata get their version numbers with base zero, all of them in
one loop, and the status of a target shows the number that base ten gives.
`versions_iff` says for which texts the loop returns one target for each with the version
that its text is, and for which the two numbers are the same.  A text that is not an
integer may begin with one, and a number that does not fit an `int` ends the loop.
-/
import AkLite.Client.CheckIn
import AkLite.Version

namespace AkLite
namespace Client

open Lib

/-! ## The status of a target -/

/-- The member `version` of a status, which is left out if the text is no number. -/
def statusVersion (text : String) : Except String (List (String × Json)) :=
  match stoi10 text with
  | .value n => .ok [("version", .int n)]
  | .invalidArgument => .ok []
  | .outOfRange => .error "stoi"

/-- `getTargetStatusJson`.  The engine's answer for each app is given. -/
def getTargetStatusJson (styled : Json → String) (shortlist : Option (List String))
    (isAppRunning : App → Except String Bool) (target : Target) : Except String Json := do
  let version ← statusVersion target.customVersion
  let apps ← targetApps styled (← toTufTarget target).custom
  let appsArray ← apps.mapM fun app => do
    return Json.obj [("name", .str app.1), ("on", .bool (shortlist.all (·.contains app.1))),
      ("running", .bool (← isAppRunning app)), ("uri", .str app.2)]
  return .obj ([("apps", .arr appsArray), ("name", .str target.filename),
    ("ostree_hash", .str target.sha256Hash)] ++ version)

/-! ## What the versions should be -/

/-- The integer that the version is, if it fits, and else minus one.  The initial target has no
version. -/
def versionNumber (t : Target) : Int :=
  if t.isInitial then -1
  else ((integerOf t.customVersion).filter fun n => decide (FitsInt n)).getD (-1)

def numbered (t : Target) : TufTarget :=
  { name := t.filename, sha256Hash := t.sha256Hash, version := versionNumber t, custom := t.custom }

/-- The status of a target shows the version of the target, if the text is accepted by both. -/
def StatusAgrees (text : String) : Prop :=
  ∀ styled shortlist isAppRunning (t : Target) json u n m,
    t.customVersion = text → t.isInitial = false → stoi text = .value m →
      getTargetStatusJson styled shortlist isAppRunning t = .ok json →
      json.find "version" = .ok (some (.int n)) → toTufTarget t = .ok u → u.version = n

/-- What the text begins with fits an `int`, and is the whole text unless it is minus one. -/
structure VersionReads (text : String) : Prop where
  fits : stoi text ≠ .outOfRange
  whole : integerOf text = none → stoi text = .invalidArgument ∨ stoi text = .value (-1)

/-! ## The loop -/

theorem toTufTarget_eq_numbered {t : Target} :
    toTufTarget t = .ok (numbered t) ↔ t.isInitial = true ∨ VersionReads t.customVersion := by
  by_cases hinitial : t.isInitial = true
  · exact iff_of_true (by simp [toTufTarget, numbered, versionNumber, hinitial]) (.inl hinitial)
  · rw [or_iff_right hinitial]
    unfold toTufTarget numbered versionNumber
    rw [if_neg hinitial, if_neg hinitial]
    cases hint : integerOf t.customVersion with
    | none =>
      cases hstoi : stoi t.customVersion with
      | value n =>
        constructor
        · intro h
          have hn : n = -1 := congrArg TufTarget.version (Except.ok.inj h)
          exact ⟨by rw [hstoi]; rintro ⟨⟩, fun _ => .inr (hn ▸ hstoi)⟩
        · intro h
          rcases h.whole hint with hbad | hminus
          · cases hstoi.symm.trans hbad
          · cases hstoi.symm.trans hminus
            rfl
      | invalidArgument =>
        exact iff_of_true rfl ⟨by rw [hstoi]; rintro ⟨⟩, fun _ => .inl hstoi⟩
      | outOfRange => exact iff_of_false (by rintro ⟨⟩) fun h => h.fits hstoi
    | some n =>
      have hstoi := stoi_of_integerOf hint
      by_cases hfits : FitsInt n
      · rw [if_pos hfits] at hstoi
        have hwhole : integerOf t.customVersion ≠ none := by rw [hint]; rintro ⟨⟩
        refine iff_of_true ?_ ⟨by rw [hstoi]; rintro ⟨⟩, fun h => absurd h hwhole⟩
        simp [hstoi, Option.filter_some, hfits]
      · rw [if_neg hfits] at hstoi
        refine iff_of_false ?_ fun h => h.fits hstoi
        rw [hstoi]
        rintro ⟨⟩

/-- One target that cannot be converted is enough. -/
theorem getTargets_eq_numbered {T : Type} (repo : TufRepo T) (t : T) :
    repo.getTargets t = .ok (((repo.targets t).getD []).map numbered) ↔
      ∀ x ∈ (repo.targets t).getD [], x.isInitial = true ∨ VersionReads x.customVersion := by
  rw [TufRepo.getTargets, mapM_eq_ok_map]
  exact forall₂_congr fun x _ => toTufTarget_eq_numbered

/-! ## The status -/

/-- The version that a status shows. -/
theorem find_version {styled : Json → String} {shortlist : Option (List String)}
    {isAppRunning : App → Except String Bool} {t : Target} {json : Json} {n : Int}
    (h : getTargetStatusJson styled shortlist isAppRunning t = .ok json)
    (hfind : json.find "version" = .ok (some (.int n))) : stoi10 t.customVersion = .value n := by
  obtain ⟨version, hversion, h⟩ := bind_eq_ok.mp h
  obtain ⟨u, _, h⟩ := bind_eq_ok.mp h
  obtain ⟨apps, _, h⟩ := bind_eq_ok.mp h
  obtain ⟨array, _, h⟩ := bind_eq_ok.mp h
  cases h
  have hlookup : version.lookup "version" = some (.int n) := by
    simpa [Json.find, List.lookup_cons] using hfind
  unfold statusVersion at hversion
  cases hstoi : stoi10 t.customVersion with
  | value m =>
    rw [hstoi] at hversion
    cases hversion
    simpa using hlookup
  | invalidArgument =>
    rw [hstoi] at hversion
    cases hversion
    cases hlookup
  | outOfRange =>
    rw [hstoi] at hversion
    cases hversion

/-- A target with a version and nothing else. -/
def versionOnly (text : String) : Target :=
  { filename := "target", sha256Hash := "", custom := .obj [("version", .str text)],
    correlationId := "", isValid := true }

theorem statusAgrees_iff (text : String) : StatusAgrees text ↔ SameReading text := by
  constructor
  · intro h n m hn hm
    have hversion : (versionOnly text).customVersion = text := rfl
    have hu : toTufTarget (versionOnly text) =
        .ok { name := "target", sha256Hash := "", version := m,
              custom := (versionOnly text).custom } := by
      rw [toTufTarget, hversion, hm]
      rfl
    have hjson : getTargetStatusJson (fun _ => "") none (fun _ => .ok false) (versionOnly text) =
        .ok (.obj [("apps", .arr []), ("name", .str "target"), ("ostree_hash", .str ""),
          ("version", .int n)]) := by
      rw [getTargetStatusJson, statusVersion, hversion, hn, hu]
      rfl
    exact (h _ _ _ _ _ _ n m hversion rfl hm hjson rfl hu).symm
  · rintro h styled shortlist isAppRunning t json u n m rfl hinitial hm hjson hfind hu
    rw [toTufTarget, if_neg (Bool.eq_false_iff.mp hinitial), hm] at hu
    cases hu
    exact (h n m (find_version hjson hfind) hm).symm

/-- The targets are converted one by one with the versions that they have, and a version is shown
as the number that it is compared by, exactly if no text begins with a number that it is not, or
that does not fit, and the text announces no other base than ten. -/
theorem versions_iff {T : Type} (repo : TufRepo T) (t : T) (text : String) :
    (repo.getTargets t = .ok (((repo.targets t).getD []).map numbered) ∧ StatusAgrees text) ↔
      (∀ x ∈ (repo.targets t).getD [], x.isInitial = true ∨ VersionReads x.customVersion) ∧
        BasesAgree text := by
  rw [getTargets_eq_numbered, statusAgrees_iff, sameReading_iff]

/-- A repository with the given targets. -/
def listRepo : TufRepo (List Target) where
  getRoot _ := ""
  targets := some
  updateMeta _ targets := (.ok (), targets)
  checkMeta targets := (.ok (), targets)

/-- A number that does not fit hides the other targets, the number at the start of another text
is its version, and the status of a target shows another version than the target has. -/
theorem odd_versions :
    listRepo.getTargets [versionOnly "1", versionOnly "99999999999"] = .error "stoi" ∧
    (integerOf "12abc" = none ∧ listRepo.getTargets [versionOnly "12abc"] =
      .ok [{ numbered (versionOnly "12abc") with version := 12 }]) ∧
    (getTargetStatusJson (fun _ => "") none (fun _ => .ok false) (versionOnly "010") =
        .ok (.obj [("apps", .arr []), ("name", .str "target"), ("ostree_hash", .str ""),
          ("version", .int 10)]) ∧
      toTufTarget (versionOnly "010") =
        .ok { numbered (versionOnly "010") with version := 8 }) := by
  refine ⟨by decide, ⟨by decide, by decide⟩, by decide, by decide⟩

end Client
end AkLite
