/-
The target that a command asks for.

The commands `pull`, `install` and `update` take the name or the version of a target.
`getTargetId` tells the two apart with `std::stoi`, which is content with any text that
begins with a number, and gives a pair of a version and a name in which minus one and the
empty text mean that there is none.  `selectTarget` then takes the first target that has
the version or the name.

`finds_named_iff` says when the target that is taken has the given name, or the given text
as its version.
-/
import AkLite.Client.Latest
import AkLite.Client.Syncing
import AkLite.Version

namespace AkLite
namespace Client

open Lib Boot

/-! ## The commands -/

/-- `get_target_id`.  A number that does not fit an `int` is an exception that is not
caught. -/
def getTargetId : Option String → Except String (Int × String)
  | none => .ok (-1, "")
  | some text =>
    match stoi10 text with
    | .value n => .ok (n, "")
    | .invalidArgument => .ok (-1, text)
    | .outOfRange => .error "stoi"

/-- The arguments of `cli::pullAndInstall` for the choice of a target. -/
def SelectArgs.command (id : Int × String) (isLocal autoDowngrade : Bool) : SelectArgs :=
  { version := id.1, name := id.2, allowBadTarget := true, forceAppsSync := true,
    offlineMode := isLocal, autoDowngrade := autoDowngrade }

section Command

variable {Db : Type} (St : Storage Db) (styled : Json → String) (cfg : Config)

/-- A command up to the choice of its target. -/
def selectNamed (updateName : Option String) (isLocal autoDowngrade : Bool) (ci : CheckInResult)
    (env : CheckEnv) : M Db SelectResult := do
  let id ← orThrow (getTargetId updateName)
  getTargetToInstall St styled cfg ci (.command id isLocal autoDowngrade) env

end Command

/-! ## What is asked for -/

def IsPrimary (ci : CheckInResult) (t : TufTarget) : Prop := t.hardwareId = .ok ci.primaryHwid

/-- The target is for the primary and has the name, or has the version that the text is. -/
def Suits (ci : CheckInResult) (text : String) (t : TufTarget) : Prop :=
  IsPrimary ci t ∧ (t.name = text ∨ decimalOf text = some t.version)

/-- The text makes no exception, the candidate is one that suits, and if there is none the
command says so. -/
structure FindsNamed {Db : Type} (St : Storage Db) (styled : Json → String) (cfg : Config)
    (text : String) (isLocal autoDowngrade : Bool) (ci : CheckInResult) (env : CheckEnv)
    (w : World Db) : Prop where
  reads : Returns (getTargetId (some text))
  candidate : ∀ id t, getTargetId (some text) = .ok id → selectTarget ci id.1 id.2 = .ok t →
    t.isUnknown = false → t ∈ ci.targets ∧ Suits ci text t
  notFound : (∀ t ∈ ci.targets, ¬Suits ci text t) →
    ∃ r w', selectNamed St styled cfg (some text) isLocal autoDowngrade ci env w = .ok r w' ∧
      r.status = .tufTargetNotFound

/-- Every stray element comes after one that is fine. -/
def Preceded {α : Type} (stray fine : α → Prop) (xs : List α) : Prop :=
  ∀ before a behind, xs = before ++ a :: behind → stray a → ∃ b ∈ before, fine b

/-- A name: targets without a version number are looked at, too. -/
def NameClear (ci : CheckInResult) (text : String) : Prop :=
  Preceded (fun t => IsPrimary ci t ∧ t.version = -1 ∧ t.name ≠ text ∧ t.isUnknown = false)
    (fun t => IsPrimary ci t ∧ (t.name = text ∨ t.version = -1 ∧ t.isUnknown = true)) ci.targets

/-- A version: targets without a name are looked at, too. -/
def VersionClear (ci : CheckInResult) (n : Int) : Prop :=
  Preceded (fun t => IsPrimary ci t ∧ t.version ≠ n ∧ t.name = "")
    (fun t => IsPrimary ci t ∧ t.version = n) ci.targets

/-- A text that only begins with a number: the targets of this version are looked at, and not
those of the name. -/
def StartClear (ci : CheckInResult) (text : String) (n : Int) : Prop :=
  Preceded
    (fun t => IsPrimary ci t ∧ (t.version = n ∨ t.name = "") ∧ t.name ≠ text ∧ t.isUnknown = false)
    (fun t => IsPrimary ci t ∧ t.version = n ∧ (t.name = text ∨ t.isUnknown = true)) ci.targets

/-- A text that stands for no choice: the latest target is taken. -/
def LatestClear (ci : CheckInResult) (text : String) : Prop :=
  Preceded (fun t => IsPrimary ci t ∧ ¬Suits ci text t ∧ t.isUnknown = false)
    (fun t => IsPrimary ci t ∧ (Suits ci text t ∨ t.isUnknown = true)) ci.targets.reverse

/-- No target stands in the way of the one that the text asks for. -/
def Clear (ci : CheckInResult) (text : String) : Prop :=
  match stoi10 text with
  | .outOfRange => False
  | .invalidArgument => if text = "" then LatestClear ci text else NameClear ci text
  | .value n =>
    if n = -1 then LatestClear ci text
    else if decimalOf text = some n then VersionClear ci n else StartClear ci text n

/-! ## The first match -/

/-- The first match is fine if no stray one comes before. -/
theorem preceded_iff_find {α : Type} {stray fine : α → Prop} {test : α → Bool} {xs : List α}
    (htest : ∀ a ∈ xs, test a = true ↔ stray a ∨ fine a) (hapart : ∀ a, stray a → ¬fine a) :
    Preceded stray fine xs ↔ ∀ a, xs.find? test = some a → fine a := by
  constructor
  · intro h a hfind
    obtain ⟨ha, before, behind, rfl, hbefore⟩ := List.find?_eq_some_iff_append.mp hfind
    rcases (htest a (by simp)).mp ha with hstray | hfine
    · obtain ⟨b, hb, hfine⟩ := h before a behind rfl hstray
      have hnot := hbefore b hb
      rw [(htest b (by simp [hb])).mpr (.inr hfine)] at hnot
      cases hnot
    · exact hfine
  · rintro h before a behind rfl hstray
    have ha : test a = true := (htest a (by simp)).mpr (.inl hstray)
    cases hfind : before.find? test with
    | none =>
      have hfirst : (before ++ a :: behind).find? test = some a := by
        rw [List.find?_append, hfind, List.find?_cons_of_pos ha]
        rfl
      exact absurd (h a hfirst) (hapart a hstray)
    | some b =>
      refine ⟨b, List.mem_of_find?_eq_some hfind, h b ?_⟩
      rw [List.find?_append, hfind]
      rfl

section Proofs

variable {ci : CheckInResult} {text : String}

theorem hasHwid_primary {t : TufTarget} : hasHwid ci.primaryHwid t = true ↔ IsPrimary ci t :=
  hasHwid_iff

/-- The latest target. -/
theorem selectTarget_latest (hread : ∀ t ∈ ci.targets, Returns t.hardwareId) :
    selectTarget ci (-1) "" =
      .ok ((ci.targets.reverse.find? (hasHwid ci.primaryHwid)).getD .unknown) :=
  selectTargetFor_latest hread ""

/-- The first target of a version or a name. -/
theorem selectTarget_matching (hread : ∀ t ∈ ci.targets, Returns t.hardwareId) {version : Int}
    {name : String} (h : ¬(version = -1 ∧ name = "")) :
    selectTarget ci version name =
      .ok ((ci.targets.find? fun t =>
        decide (t.version = version ∨ t.name = name) && hasHwid ci.primaryHwid t).getD
          .unknown) := by
  unfold selectTarget selectTargetFor
  rw [if_neg h, firstWhere_eq_find]
  · rfl
  · intro t ht
    by_cases hmatch : t.version = version ∨ t.name = name
    · rw [if_pos hmatch, decide_eq_true hmatch, Bool.true_and]
      exact bind_hardwareId (hread t ht)
    · rw [if_neg hmatch, decide_eq_false hmatch, Bool.false_and]
      rfl

theorem isUnknown_unknown : TufTarget.unknown.isUnknown = true := by decide

variable {Db : Type} {St : Storage Db} {styled : Json → String} {cfg : Config} {env : CheckEnv}
  {isLocal autoDowngrade : Bool} {w : World Db} {id : Int × String}

theorem planTarget_notFound {args : SelectArgs} (hgood : ci.good = true) {t : TufTarget}
    (ht : selectTarget ci args.version args.name = .ok t) (hunknown : t.isUnknown = true) :
    planTarget St ci args w = .ok (.failed .tufTargetNotFound "No matching target") := by
  rw [planTarget, if_neg (by simp [hgood]), ht, ok_bind, if_pos hunknown]
  rfl

theorem selectNamed_notFound (hgood : ci.good = true) (hid : getTargetId (some text) = .ok id)
    {t : TufTarget} (ht : selectTarget ci id.1 id.2 = .ok t) (hunknown : t.isUnknown = true) :
    ∃ r w', selectNamed St styled cfg (some text) isLocal autoDowngrade ci env w = .ok r w' ∧
      r.status = .tufTargetNotFound := by
  have hplan : planTarget St ci (.command id isLocal autoDowngrade) w =
      .ok (.failed .tufTargetNotFound "No matching target") := planTarget_notFound hgood ht hunknown
  apply wp_false_iff.mp
  rw [selectNamed, wp_bind, wp_orThrow, hid]
  apply wp_mono wp_getTargetToInstall
  · rintro r v ⟨plan, hplan', hselected⟩
    cases hplan.symm.trans hplan'
    cases hselected
    rfl
  · intro e v hthrows
    rw [hplan] at hthrows
    exact hthrows

/-- The command is right about the target that it takes. -/
theorem findsNamed_iff_found (hgood : ci.good = true) (hid : getTargetId (some text) = .ok id)
    {found : Option TufTarget} (hmem : ∀ t, found = some t → t ∈ ci.targets)
    (hselect : selectTarget ci id.1 id.2 = .ok (found.getD .unknown)) :
    FindsNamed St styled cfg text isLocal autoDowngrade ci env w ↔
      ∀ t, found = some t → t.isUnknown = false → Suits ci text t := by
  constructor
  · rintro h t rfl hknown
    exact (h.candidate id t hid hselect hknown).2
  · intro h
    refine ⟨⟨id, hid⟩, fun id' t hid' ht hknown => ?_, fun hnone => ?_⟩
    · cases hid.symm.trans hid'
      cases hselect.symm.trans ht
      cases found with
      | none => cases isUnknown_unknown.symm.trans hknown
      | some t => exact ⟨hmem t rfl, h t rfl hknown⟩
    · apply selectNamed_notFound hgood hid hselect
      cases found with
      | none => exact isUnknown_unknown
      | some t =>
        by_contra hknown
        exact hnone t (hmem t rfl) (h t rfl (by simpa using hknown))

/-- The same, with the targets that are looked at in two classes. -/
theorem findsNamed_iff_preceded (hgood : ci.good = true) (hid : getTargetId (some text) = .ok id)
    {xs : List TufTarget} {test : TufTarget → Bool} {stray fine : TufTarget → Prop}
    (hmem : ∀ t ∈ xs, t ∈ ci.targets)
    (hselect : selectTarget ci id.1 id.2 = .ok ((xs.find? test).getD .unknown))
    (htest : ∀ t, test t = true ↔ stray t ∨ fine t)
    (hstray : ∀ t, stray t → ¬Suits ci text t ∧ t.isUnknown = false)
    (hfine : ∀ t, fine t → Suits ci text t ∨ t.isUnknown = true) :
    FindsNamed St styled cfg text isLocal autoDowngrade ci env w ↔ Preceded stray fine xs := by
  have hapart : ∀ t, stray t → ¬fine t := by
    intro t hs hf
    obtain ⟨hnot, hknown⟩ := hstray t hs
    rcases hfine t hf with hsuits | hunknown
    · exact hnot hsuits
    · exact absurd hknown (by simp [hunknown])
  rw [findsNamed_iff_found hgood hid (fun t ht => hmem t (List.mem_of_find?_eq_some ht)) hselect,
    preceded_iff_find (fun t _ => htest t) hapart]
  apply forall_congr'
  intro t
  apply imp_congr_right
  intro ht
  rcases (htest t).mp (List.find?_some ht) with hs | hf
  · obtain ⟨hnot, hknown⟩ := hstray t hs
    exact iff_of_false (fun h => hnot (h hknown)) (hapart t hs)
  · refine iff_of_true (fun hknown => (hfine t hf).resolve_right ?_) hf
    simp [hknown]

/-- The text is not empty if it has a number. -/
theorem ne_empty_of_stoi10 {n : Int} (h : stoi10 text = .value n) : text ≠ "" := by
  rintro rfl
  cases h.symm.trans (by decide : stoi10 "" = .invalidArgument)

/-- Without a number in the text only its own name suits. -/
theorem not_suits {t : TufTarget} (hnot : decimalOf text = none) (hother : t.name ≠ text) :
    ¬ Suits ci text t := by
  intro hsuits
  rcases hsuits.2 with h | h
  · exact hother h
  · cases hnot.symm.trans h

theorem findsNamed_name (hgood : ci.good = true) (hread : ∀ t ∈ ci.targets, Returns t.hardwareId)
    (hname : stoi10 text = .invalidArgument) (hne : text ≠ "") :
    FindsNamed St styled cfg text isLocal autoDowngrade ci env w ↔ NameClear ci text := by
  have hid : getTargetId (some text) = .ok (-1, text) := by rw [getTargetId, hname]
  have hnot := decimalOf_of_invalid hname
  apply findsNamed_iff_preceded hgood hid (fun t ht => ht)
    (selectTarget_matching hread (by simp [hne]))
  · intro t
    rw [Bool.and_eq_true, decide_eq_true_iff, hasHwid_primary]
    cases t.isUnknown <;> by_cases t.name = text <;> by_cases t.version = -1 <;> simp [*]
  · rintro t ⟨_, _, hother, hknown⟩
    exact ⟨not_suits hnot hother, hknown⟩
  · rintro t ⟨hprimary, h | ⟨_, hunknown⟩⟩
    · exact .inl ⟨hprimary, .inl h⟩
    · exact .inr hunknown

theorem findsNamed_version (hgood : ci.good = true)
    (hread : ∀ t ∈ ci.targets, Returns t.hardwareId) {n : Int} (hn : stoi10 text = .value n)
    (hne : n ≠ -1) (hdecimal : decimalOf text = some n) :
    FindsNamed St styled cfg text isLocal autoDowngrade ci env w ↔ VersionClear ci n := by
  have hid : getTargetId (some text) = .ok (n, "") := by rw [getTargetId, hn]
  apply findsNamed_iff_preceded hgood hid (fun t ht => ht)
    (selectTarget_matching hread (by simp [hne]))
  · intro t
    rw [Bool.and_eq_true, decide_eq_true_iff, hasHwid_primary]
    by_cases t.name = "" <;> by_cases t.version = n <;> simp [*]
  · rintro t ⟨_, hother, hempty⟩
    refine ⟨fun hsuits => ?_, by rw [TufTarget.isUnknown, hempty]; decide⟩
    rcases hsuits.2 with h | h
    · exact ne_empty_of_stoi10 hn (h.symm.trans hempty)
    · cases hdecimal.symm.trans h
      exact hother rfl
  · rintro t ⟨hprimary, rfl⟩
    exact .inl ⟨hprimary, .inr hdecimal⟩

theorem findsNamed_start (hgood : ci.good = true)
    (hread : ∀ t ∈ ci.targets, Returns t.hardwareId) {n : Int} (hn : stoi10 text = .value n)
    (hne : n ≠ -1) (hdecimal : decimalOf text ≠ some n) :
    FindsNamed St styled cfg text isLocal autoDowngrade ci env w ↔ StartClear ci text n := by
  have hid : getTargetId (some text) = .ok (n, "") := by rw [getTargetId, hn]
  have hnot := (decimalOf_of_value hn).resolve_right hdecimal
  apply findsNamed_iff_preceded hgood hid (fun t ht => ht)
    (selectTarget_matching hread (by simp [hne]))
  · intro t
    rw [Bool.and_eq_true, decide_eq_true_iff, hasHwid_primary]
    -- A target without a name is neither the one of the text nor the unknown one.
    have htext := ne_empty_of_stoi10 hn
    by_cases hempty : t.name = ""
    · have hknown : t.isUnknown = false := by rw [TufTarget.isUnknown, hempty]; decide
      simp [hempty, htext.symm, hknown]
    · cases t.isUnknown <;> by_cases t.name = text <;> by_cases t.version = n <;> simp [*]
  · rintro t ⟨_, _, hother, hknown⟩
    exact ⟨not_suits hnot hother, hknown⟩
  · rintro t ⟨hprimary, _, h | hunknown⟩
    · exact .inl ⟨hprimary, .inl h⟩
    · exact .inr hunknown

theorem findsNamed_latest (hgood : ci.good = true)
    (hread : ∀ t ∈ ci.targets, Returns t.hardwareId)
    (hid : getTargetId (some text) = .ok (-1, "")) :
    FindsNamed St styled cfg text isLocal autoDowngrade ci env w ↔ LatestClear ci text := by
  apply findsNamed_iff_preceded hgood hid (fun t ht => List.mem_reverse.mp ht)
    (selectTarget_latest hread)
  · intro t
    rw [hasHwid_primary]
    cases t.isUnknown <;> by_cases Suits ci text t <;> simp [*]
  · rintro t ⟨_, hnot, hknown⟩
    exact ⟨hnot, hknown⟩
  · rintro t ⟨_, h⟩
    exact h

end Proofs

/-- The hardware IDs of a check-in's targets can be read: the check-in has done it. -/
theorem hardwareIds_read {Key Stamp R T : Type} (d : Device Key Stamp R T) (ci : CheckInResult)
    (hgood : ci.good = true)
    (h : (∃ current t t' out, checkIn d current t = (.ok out, t') ∧ out.result = ci) ∨
      (∃ source content t t' out, checkInLocal d source content t = (.ok out, t') ∧
        out.result = ci) ∨
      ∃ bundle? t t', checkInCurrent d bundle? t = (.ok ci, t')) :
    ∀ t ∈ ci.targets, Returns t.hardwareId := by
  rcases h with ⟨_, _, _, _, h, rfl⟩ | ⟨_, _, _, _, _, h, rfl⟩ | ⟨_, _, _, h⟩
  · obtain ⟨_, _, hlisting⟩ := checkIn_listing h hgood
    exact hlisting.reads
  · obtain ⟨_, _, hlisting⟩ := checkInLocal_listing h hgood
    exact hlisting.reads
  · obtain ⟨_, _, hlisting⟩ := checkInCurrent_listing h hgood
    exact hlisting.reads

/-- A command takes the target that it is asked for, if and only if the text is no number
beyond `int` and no other target that is looked at comes first. -/
theorem finds_named_iff {Db : Type} (St : Storage Db) (styled : Json → String) (cfg : Config)
    (text : String) (isLocal autoDowngrade : Bool) (ci : CheckInResult) (env : CheckEnv)
    (w : World Db) (hgood : ci.good = true) (hread : ∀ t ∈ ci.targets, Returns t.hardwareId) :
    FindsNamed St styled cfg text isLocal autoDowngrade ci env w ↔ Clear ci text := by
  unfold Clear
  cases hstoi : stoi10 text with
  | outOfRange =>
    refine iff_of_false (fun h => ?_) id
    obtain ⟨id, hid⟩ := h.reads
    rw [getTargetId, hstoi] at hid
    cases hid
  | invalidArgument =>
    by_cases hempty : text = ""
    · rw [if_pos hempty]
      apply findsNamed_latest hgood hread
      rw [hempty]
      rfl
    · rw [if_neg hempty]
      exact findsNamed_name hgood hread hstoi hempty
  | value n =>
    dsimp only
    by_cases hlatest : n = -1
    · rw [if_pos hlatest]
      apply findsNamed_latest hgood hread
      rw [getTargetId, hstoi, hlatest]
    · rw [if_neg hlatest]
      by_cases hdecimal : decimalOf text = some n
      · rw [if_pos hdecimal]
        exact findsNamed_version hgood hread hstoi hlatest hdecimal
      · rw [if_neg hdecimal]
        exact findsNamed_start hgood hread hstoi hlatest hdecimal

/-- The latest build and one before it, with a build without a number at the front. -/
def buildsCheckIn : CheckInResult :=
  { status := .ok, primaryHwid := "board"
    targets := [{ nextTufTarget with name := "board-nightly", version := -1 },
      { nextTufTarget with name := "board-lmp-12", version := 12 },
      { nextTufTarget with name := "board-lmp-13", version := 13 }] }

theorem hardwareId_builds : ∀ t ∈ buildsCheckIn.targets, t.hardwareId = .ok "board" := by
  intro t ht
  rcases List.mem_cons.mp ht with rfl | ht
  · rfl
  · rcases List.mem_cons.mp ht with rfl | ht
    · rfl
    · cases List.mem_singleton.mp ht
      rfl

/-- A build is found by its number. -/
theorem build_found_by_version :
    FindsNamed installedVersions (fun _ => "") deviceConfig "12" false false buildsCheckIn
      .noneRunning nextDevice := by
  refine (finds_named_iff installedVersions (fun _ => "") deviceConfig "12" false false
    buildsCheckIn .noneRunning nextDevice (by decide)
    (fun t ht => ⟨_, hardwareId_builds t ht⟩)).mpr ?_
  have hnamed : ∀ t ∈ buildsCheckIn.targets, t.name ≠ "" := by decide
  show VersionClear buildsCheckIn 12
  intro before t behind h hstray
  exact absurd hstray.2.2 (hnamed t (by rw [h]; simp))

/-- By its name it is not: the build without a number comes first.  A text that begins with a
number finds the build of this number, and one that is too long is an exception. -/
theorem build_not_found_by_name :
    (∃ r w', selectNamed installedVersions (fun _ => "") deviceConfig (some "board-lmp-12") false
        false buildsCheckIn .noneRunning nextDevice = .ok r w' ∧
      r.status = .updateNewVersion ∧ r.selected.name = "board-nightly") ∧
    (∃ r w', selectNamed installedVersions (fun _ => "") deviceConfig (some "13-hotfix") false
        false buildsCheckIn .noneRunning nextDevice = .ok r w' ∧
      r.status = .updateNewVersion ∧ r.selected.name = "board-lmp-13") ∧
    (∃ r w', selectNamed installedVersions (fun _ => "") deviceConfig (some "-1") false
        false buildsCheckIn .noneRunning nextDevice = .ok r w' ∧
      r.status = .updateNewVersion ∧ r.selected.name = "board-lmp-13") ∧
    (∃ w', selectNamed installedVersions (fun _ => "") deviceConfig (some "4294967296") false
        false buildsCheckIn .noneRunning nextDevice = .error "stoi" w') ∧
    ¬FindsNamed installedVersions (fun _ => "") deviceConfig "board-lmp-12" false false
      buildsCheckIn .noneRunning nextDevice := by
  refine ⟨⟨_, _, rfl, rfl, rfl⟩, ⟨_, _, rfl, rfl, rfl⟩, ⟨_, _, rfl, rfl, rfl⟩, ⟨_, rfl⟩, ?_⟩
  intro h
  obtain ⟨_, _, hname | hversion⟩ := h.candidate (-1, "board-lmp-12") _ rfl rfl (by decide)
  · exact absurd hname (by decide)
  · cases hversion

end Client
end AkLite
