/-
The list of targets that a check-in prints.

The commands `check` and `list` print the targets of a check-in with a mark for the
selected target and one for the current target.  The selected target is looked for by its
name, the current one by its version.  `current_shown_iff` says when the mark is on the
target with the name and the hash of the current one, and on no other.
-/
import AkLite.Client.Syncing

namespace AkLite
namespace Client

open Lib Boot

section Json

variable {Db : Type} (St : Storage Db) (styled : Json → String) (cfg : Config)

/-! ## `getCheckInResultJson` -/

def getAppShortlist : Option (List String) :=
  match cfg.pacman with
  | .compose => cfg.apps
  | .ostree => none

/-- A field that is there under a condition. -/
def optionalField (on : Bool) (key : String) (value : Json) : List (String × Json) :=
  if on then [(key, value)] else []

/-- A field that is there only to be true. -/
def mark (key : String) (on : Bool) : List (String × Json) := optionalField on key (.bool true)

def isSelected (gti : SelectResult) (t : TufTarget) : Bool :=
  !gti.selected.isUnknown && gti.selected.name == t.name

/-- No apps are null. -/
def appsArray (apps : List App) : Json :=
  if apps.isEmpty then .null
  else .arr (apps.map fun app => .obj [("name", .str app.1),
    ("on", .bool ((getAppShortlist cfg).all (·.contains app.1))), ("uri", .str app.2)])

/-- One target of the list. -/
def targetJson (db : Db) (current : TufTarget) (gti : SelectResult) (t : TufTarget) :
    Except String Json := do
  let apps ← targetApps styled t.custom
  return .obj ([("apps", appsArray cfg apps)] ++ mark "current" (current.version == t.version) ++
    mark "failed" (isRollback St t.name db) ++ [("name", .str t.name)] ++
    mark "newer" (current.version < t.version) ++
    optionalField (isSelected gti t) "reason" (.str gti.reason) ++
    mark "selected" (isSelected gti t) ++ [("version", .int t.version)])

def getCheckInResultJson (db : Db) (current : TufTarget) (ci : CheckInResult)
    (gti : SelectResult) : Except String Json := do
  let entries ← ci.targets.mapM (targetJson St styled cfg db current gti)
  return if entries.isEmpty then .null else .arr entries

/-- `cli::CheckIn` after the check-in, with its output in JSON. -/
def checkInJson (ci : CheckInResult) (args : SelectArgs) (env : CheckEnv) :
    M Db (SelectResult × Json) := do
  let gti ← getTargetToInstall St styled cfg ci args env
  let w ← get
  let current ← orThrow (currentTufTarget St w)
  let json ← orThrow (getCheckInResultJson St styled cfg w.db current ci gti)
  return (gti, json)

end Json

/-! ## What the marks say -/

def Marked (entry : Json) (key : String) : Prop := entry.find key = .ok (some (.bool true))

/-- The mark is on the current target and on no other, and not on one to upgrade to. -/
structure CurrentShown (targets : List TufTarget) (current : TufTarget) (gti : SelectResult)
    (json : Json) : Prop where
  exact : ∀ (i : Nat) t entry, targets[i]? = some t → json.elem i = .ok entry →
    (Marked entry "current" ↔ t.name = current.name ∧ t.sha256Hash = current.sha256Hash)
  once : ∀ i j entry entry', json.elem i = .ok entry → json.elem j = .ok entry' →
    Marked entry "current" → Marked entry' "current" → i = j
  not_upgrade : gti.status = .updateNewVersion → ∀ i entry, json.elem i = .ok entry →
    Marked entry "current" → ¬Marked entry "selected"

/-- The version of the current target is its own. -/
structure VersionIdentifies (targets : List TufTarget) (current : TufTarget) : Prop where
  same : ∀ t ∈ targets, t.version = current.version ↔
    t.name = current.name ∧ t.sha256Hash = current.sha256Hash
  once : ∀ (i j : Nat) t t', targets[i]? = some t → targets[j]? = some t' →
    t.version = current.version → t'.version = current.version → i = j

section Proofs

variable {Db : Type} {St : Storage Db} {styled : Json → String} {cfg : Config} {db : Db}
  {current : TufTarget} {gti : SelectResult} {ci : CheckInResult}

theorem lookup_optionalField (key other : String) (value : Json) (on : Bool) :
    (optionalField on other value).lookup key = if on ∧ key = other then some value else none := by
  unfold optionalField
  cases on with
  | false => simp
  | true =>
    by_cases hkey : key = other
    · simp [hkey]
    · have hbeq : (key == other) = false := by simpa using hkey
      simp [hkey, List.lookup_cons, hbeq]

theorem marked_targetJson {t : TufTarget} {entry : Json}
    (h : targetJson St styled cfg db current gti t = .ok entry) :
    (Marked entry "current" ↔ t.version = current.version) ∧
      (Marked entry "selected" ↔ isSelected gti t = true) := by
  obtain ⟨apps, _, h⟩ := bind_eq_ok.mp h
  cases h
  unfold Marked Json.find mark
  simp only [List.lookup_append, lookup_optionalField]
  constructor
  · by_cases hversion : current.version = t.version
    · simp [hversion, List.lookup_cons]
    · simp [hversion, Ne.symm hversion, List.lookup_cons]
  · cases isSelected gti t with
    | false => simp [List.lookup_cons]
    | true => simp [List.lookup_cons]

theorem elem_entries (entries : List Json) (i : Nat) :
    (if entries.isEmpty then Json.null else .arr entries).elem i =
      .ok (entries[i]?.getD .null) := by
  cases entries with
  | nil => rfl
  | cons e rest => rfl

theorem elem_of_getElem? {json : Json}
    (h : getCheckInResultJson St styled cfg db current ci gti = .ok json) {i : Nat} {t : TufTarget}
    (ht : ci.targets[i]? = some t) :
    ∃ entry, json.elem i = .ok entry ∧ targetJson St styled cfg db current gti t = .ok entry := by
  obtain ⟨entries, hentries, h⟩ := bind_eq_ok.mp h
  cases h
  rw [elem_entries]
  rcases mapM_getElem? hentries i with ⟨t', entry, ht', hentry, htarget⟩ | ⟨ht', _⟩
  · cases ht.symm.trans ht'
    rw [hentry]
    exact ⟨entry, rfl, htarget⟩
  · cases ht.symm.trans ht'

theorem elem_eq_null {json : Json}
    (h : getCheckInResultJson St styled cfg db current ci gti = .ok json) {i : Nat}
    (hnone : ci.targets[i]? = none) : json.elem i = .ok .null := by
  obtain ⟨entries, hentries, h⟩ := bind_eq_ok.mp h
  cases h
  rw [elem_entries]
  rcases mapM_getElem? hentries i with ⟨t, _, ht, _⟩ | ⟨_, hentry⟩
  · cases hnone.symm.trans ht
  · rw [hentry]
    rfl

theorem not_marked_null (key : String) : ¬Marked .null key := by
  rintro ⟨⟩

/-- Only a target of another name is an upgrade. -/
theorem upgrade_other_name {args : SelectArgs} {env : CheckEnv} {w w' : World Db}
    (h : getTargetToInstall St styled cfg ci args env w = .ok gti w')
    (hcurrent : currentTufTarget St w = .ok current) (hstatus : gti.status = .updateNewVersion) :
    gti.selected.name ≠ current.name := by
  obtain ⟨plan, hplan, hselected⟩ := wp_ok wp_getTargetToInstall h
  cases planned_of_planTarget hplan with
  | update hcompares _ _ hname _ =>
    cases hcurrent.symm.trans hcompares.reads
    rw [hselected.1]
    exact hname
  | sync =>
    rcases hselected with ⟨hsync, _⟩ | ⟨hnothing, _⟩
    · cases hstatus.symm.trans hsync
    · rw [hstatus] at hnothing
      split at hnothing <;> cases hnothing
  | badCheckIn | notFound | downgrade | noRollbackTarget | badRollbackTarget =>
    -- the result is fixed, and is no upgrade
    cases hselected
    cases hstatus

theorem checkInJson_eq_ok {args : SelectArgs} {env : CheckEnv} {w w' : World Db} {json : Json}
    (h : checkInJson St styled cfg ci args env w = .ok (gti, json) w')
    (hcurrent : currentTufTarget St w = .ok current) :
    getTargetToInstall St styled cfg ci args env w = .ok gti w' ∧
      getCheckInResultJson St styled cfg w'.db current ci gti = .ok json := by
  revert h
  apply wp_ok (E := fun _ _ => True)
    (Q := fun (r : SelectResult × Json) v =>
      getTargetToInstall St styled cfg ci args env w = .ok r.1 v ∧
      getCheckInResultJson St styled cfg v.db current ci r.1 = .ok r.2)
  unfold checkInJson
  rw [wp_bind]
  apply wp_of_run
  · intro r v hselect
    obtain ⟨hdb, hrootfs⟩ := getTargetToInstall_frame hselect
    have hread : currentTufTarget St v = .ok current := by
      rw [← hcurrent]
      unfold currentTufTarget getCurrent
      rw [hdb, hrootfs]
    rw [wp_bind, wp_get, wp_bind, wp_orThrow, hread]
    simp only [wp_bind, wp_orThrow]
    cases hjson : getCheckInResultJson St styled cfg v.db current ci r with
    | ok json => exact ⟨hselect, hjson⟩
    | error e => trivial
  · intro _ _ _
    trivial

end Proofs

/-- The list says which target is the current one, if and only if the current version is on
that target alone. -/
theorem current_shown_iff {Db : Type} (St : Storage Db) (styled : Json → String) (cfg : Config)
    (ci : CheckInResult) (args : SelectArgs) (env : CheckEnv) (current : TufTarget)
    (gti : SelectResult) (json : Json) (w w' : World Db)
    (h : checkInJson St styled cfg ci args env w = .ok (gti, json) w')
    (hcurrent : currentTufTarget St w = .ok current) :
    CurrentShown ci.targets current gti json ↔ VersionIdentifies ci.targets current := by
  obtain ⟨hselect, hjson⟩ := checkInJson_eq_ok h hcurrent
  have hentries := fun i t => elem_of_getElem? hjson (i := i) (t := t)
  constructor
  · intro hshown
    constructor
    · intro t ht
      obtain ⟨i, hi⟩ := List.mem_iff_getElem?.mp ht
      obtain ⟨entry, helem, htarget⟩ := hentries i t hi
      exact (marked_targetJson htarget).1.symm.trans (hshown.exact i t entry hi helem)
    · intro i j t t' hi hj hversion hversion'
      obtain ⟨entry, helem, htarget⟩ := hentries i t hi
      obtain ⟨entry', helem', htarget'⟩ := hentries j t' hj
      exact hshown.once i j entry entry' helem helem' ((marked_targetJson htarget).1.mpr hversion)
        ((marked_targetJson htarget').1.mpr hversion')
  · intro hversions
    have hmarked : ∀ i entry, json.elem i = .ok entry → Marked entry "current" →
        ∃ t, ci.targets[i]? = some t ∧ t.version = current.version ∧
          (Marked entry "selected" ↔ isSelected gti t = true) := by
      intro i entry helem hmark
      cases ht : ci.targets[i]? with
      | none =>
        cases helem.symm.trans (elem_eq_null hjson ht)
        exact absurd hmark (not_marked_null _)
      | some t =>
        obtain ⟨entry', helem', htarget⟩ := hentries i t ht
        cases helem.symm.trans helem'
        exact ⟨t, rfl, (marked_targetJson htarget).1.mp hmark, (marked_targetJson htarget).2⟩
    refine ⟨fun i t entry ht helem => ?_, fun i j entry entry' hi hj hmark hmark' => ?_,
      fun hstatus i entry helem hmark hselected => ?_⟩
    · obtain ⟨entry', helem', htarget⟩ := hentries i t ht
      cases helem.symm.trans helem'
      exact (marked_targetJson htarget).1.trans (hversions.same t (List.mem_of_getElem? ht))
    · obtain ⟨t, ht, hversion, _⟩ := hmarked i entry hi hmark
      obtain ⟨t', ht', hversion', _⟩ := hmarked j entry' hj hmark'
      exact hversions.once i j t t' ht ht' hversion hversion'
    · obtain ⟨t, ht, hversion, hiff⟩ := hmarked i entry helem hmark
      have hname : t.name = current.name :=
        ((hversions.same t (List.mem_of_getElem? ht)).mp hversion).1
      have hsame : gti.selected.name = t.name := by
        have := hiff.mp hselected
        unfold isSelected at this
        simp at this
        exact this.2
      exact upgrade_other_name hselect hcurrent hstatus (hsame.trans hname)

/-- The current target and an older one. -/
def oneTagCheckIn : CheckInResult :=
  { status := .ok, primaryHwid := "board"
    targets := [{ nextTufTarget with name := "board-lmp-1", version := 1, sha256Hash := "aa" },
      nextTufTarget] }

theorem one_tag_shown :
    ∃ gti json w', checkInJson installedVersions (fun _ => "") deviceConfig oneTagCheckIn
        (.daemon false) .noneRunning nextDevice = .ok (gti, json) w' ∧
      currentTufTarget installedVersions nextDevice = .ok nextTufTarget ∧
      CurrentShown oneTagCheckIn.targets nextTufTarget gti json := by
  have hlast : ∀ (i : Nat) t, oneTagCheckIn.targets[i]? = some t →
      t.version = nextTufTarget.version → i = 1 := by
    intro i t hi hversion
    cases i with
    | zero =>
      cases hi
      exact absurd hversion (by decide)
    | succ i =>
      cases i with
      | zero => rfl
      | succ i => cases hi
  refine ⟨_, _, _, rfl, rfl, (current_shown_iff installedVersions (fun _ => "") deviceConfig
    oneTagCheckIn (.daemon false) .noneRunning nextTufTarget _ _ nextDevice _ rfl rfl).mpr ⟨?_, ?_⟩⟩
  · decide
  · intro i j t t' hi hj hversion hversion'
    rw [hlast i t hi hversion, hlast j t' hj hversion']

/-- The current target, and a later build of another tag with the same version. -/
def otherTagCheckIn : CheckInResult :=
  { status := .ok, primaryHwid := "board"
    targets := [nextTufTarget,
      { nextTufTarget with name := "board-devel-2", sha256Hash := "cc" }] }

/-- The list has two current targets, and the device is to upgrade to one of them. -/
theorem two_shown_as_current :
    currentTufTarget installedVersions nextDevice = .ok nextTufTarget ∧
    ∃ gti json w' e e', checkInJson installedVersions (fun _ => "") deviceConfig otherTagCheckIn
        (.daemon false) .noneRunning nextDevice = .ok (gti, json) w' ∧
      json.elem 0 = .ok e ∧ json.elem 1 = .ok e' ∧ Marked e "current" ∧ Marked e' "current" ∧
      gti.status = .updateNewVersion ∧ gti.selected.name = "board-devel-2" ∧
      Marked e' "selected" ∧ ¬CurrentShown otherTagCheckIn.targets nextTufTarget gti json := by
  refine ⟨rfl, _, _, _, _, _, rfl, rfl, rfl, rfl, rfl, rfl, rfl, rfl, ?_⟩
  intro hshown
  exact hshown.not_upgrade rfl 1 _ rfl rfl rfl

end Client
end AkLite
