/-
Going back to an older target.

A device goes back in two ways.  If the current target is failing and nothing else is
offered, `getTargetToInstall` looks for the last target that was installed successfully;
`failing_current_selects_rollback` says that this is a target of another name that is not
failing, so that the branch for a bad rollback target is never taken.  The other way is a
latest target with a lower version, which is refused unless downgrades are allowed.  The
test is made on the latest target only, and what is selected can be another one:
`latest_never_downgrades` says that its version is not lower either.

What counts as failing is read from the log by name, and the pending target is left out by
its hash.  `isRollback_iff_failing` says when that is the same as leaving out the pending
target itself.
-/
import AkLite.Client.Selection
import AkLite.Client.Vouching

namespace AkLite
namespace Client

open Lib Boot

/-! ## Rollback targets -/

section Log

variable {Db : Type}

/-- The library's log: what it gives as installed targets to roll back to has, by name, an
entry among the installed and among the known ones. -/
def LogConsistent (St : Storage Db) (db : Db) : Prop :=
  ∀ t ∈ St.rollbackLog true db,
    (∃ i ∈ St.installed db, i.filename = t.filename) ∧ ∃ k ∈ St.known db, k.filename = t.filename

variable {St : Storage Db} {db : Db}

/-- What `isRollback` looks for: a name that is known and was never installed, with a hash that
is not the pending one. -/
theorem isRollback_iff {name : String} :
    isRollback St name db = true ↔
      (∀ i ∈ St.installed db, i.filename ≠ name) ∧
        ∃ k ∈ St.known db, k.filename = name ∧
          ∀ p, St.pending db = some p → k.sha256Hash ≠ p.sha256Hash := by
  unfold isRollback knownLocalTarget knownButNotInstalled
  simp only [List.any_eq_true, List.mem_reverse, List.mem_filter, Bool.and_eq_true, beq_iff_eq,
    Bool.not_eq_true', List.any_eq_false, Option.any_eq_false_iff_get, beq_eq_false_iff_ne]
  constructor
  · rintro ⟨k, ⟨hk, hnew⟩, rfl, hhash⟩
    refine ⟨hnew, k, hk, rfl, ?_⟩
    intro p hp
    simpa [hp] using hhash
  · rintro ⟨hnew, k, hk, rfl, hhash⟩
    refine ⟨k, ⟨hk, hnew⟩, rfl, ?_⟩
    intro hsome
    exact hhash _ (Option.some_get hsome).symm

theorem isRollback_of_installed {name : String}
    (h : ∃ i ∈ St.installed db, i.filename = name) : isRollback St name db = false := by
  obtain ⟨i, hi, hname⟩ := h
  refine Bool.eq_false_iff.mpr fun hbad => ?_
  exact (isRollback_iff.mp hbad).1 i hi hname

theorem unknownTarget_isUnknown {t : TufTarget} (h : toTufTarget unknownTarget = .ok t) :
    t.isUnknown = true := by
  rw [TufTarget.isUnknown, (toTufTarget_fields h).1]
  rfl

/-- A rollback target that is found is the last one of the log. -/
theorem getRollbackTarget_mem {t : TufTarget}
    (h : toTufTarget (getRollbackTarget St true db) = .ok t) (hknown : t.isUnknown = false) :
    getRollbackTarget St true db ∈ St.rollbackLog true db := by
  unfold getRollbackTarget at h ⊢
  cases hlast : (St.rollbackLog true db).getLast? with
  | none =>
    rw [hlast, Option.getD_none] at h
    rw [unknownTarget_isUnknown h] at hknown
    cases hknown
  | some last => exact List.mem_of_getLast? hlast

/-- The candidate of a rollback: the current target is failing, and the log has another
one. -/
theorem chooseCandidate_rollback {listed current candidate : TufTarget}
    (h : chooseCandidate St listed current db = .ok (some (candidate, true))) :
    isRollback St current.name db = true ∧
      toTufTarget (getRollbackTarget St true db) = .ok candidate ∧
      getRollbackTarget St true db ∈ St.rollbackLog true db := by
  unfold chooseCandidate at h
  split at h
  · next hbad =>
    obtain ⟨target, htarget, h⟩ := bind_eq_ok.mp h
    split at h
    · cases h
    · next hknown =>
      cases h
      refine ⟨(Bool.and_eq_true_iff.mp hbad).1, htarget, ?_⟩
      exact getRollbackTarget_mem htarget (Bool.eq_false_iff.mpr hknown)
  · cases h

/-- By the log, a rollback target is good and is not the current one. -/
theorem rollbackTarget_good (hlog : LogConsistent St db) {listed current candidate : TufTarget}
    (h : chooseCandidate St listed current db = .ok (some (candidate, true))) :
    isRollback St candidate.name db = false ∧ candidate.name ≠ current.name := by
  obtain ⟨hfailing, hcandidate, hmem⟩ := chooseCandidate_rollback h
  have hgood : isRollback St candidate.name db = false := by
    rw [(toTufTarget_fields hcandidate).1]
    exact isRollback_of_installed (hlog _ hmem).1
  refine ⟨hgood, fun hname => ?_⟩
  rw [hname, hfailing] at hgood
  cases hgood

/-- A failing current target is replaced, if there is something to replace it with. -/
theorem chooseCandidate_failing {listed current : TufTarget} {chosen : Option (TufTarget × Bool)}
    (hfailing : isRollback St current.name db = true) (hname : listed.name = current.name)
    (h : chooseCandidate St listed current db = .ok chosen) :
    ∃ target, toTufTarget (getRollbackTarget St true db) = .ok target ∧
      chosen = if target.isUnknown then none else some (target, true) := by
  unfold chooseCandidate at h
  rw [if_pos (by simp [hfailing, hname])] at h
  obtain ⟨target, htarget, h⟩ := bind_eq_ok.mp h
  cases h
  exact ⟨target, htarget, rfl⟩

end Log

/-! ## Failing targets and the pending one -/

section FailingTargets

variable {Db : Type} (St : Storage Db)

/-- A failing target: its name is in the log and was never installed, and an entry of that name
is not the pending target itself. -/
def IsFailing (name : String) (db : Db) : Prop :=
  (∃ k ∈ St.known db, k.filename = name) ∧ (∀ i ∈ St.installed db, i.filename ≠ name) ∧
    ∃ k ∈ St.known db, k.filename = name ∧
      ∀ p, St.pending db = some p → ¬(k.filename = p.filename ∧ k.sha256Hash = p.sha256Hash)

/-- A pending target of another name leaves the name an entry with another hash, unless it is
not in the log or was installed. -/
def PendingApart (name : String) (db : Db) : Prop :=
  ∀ p, St.pending db = some p → p.filename ≠ name →
    (∃ k ∈ St.known db, k.filename = name) → (∀ i ∈ St.installed db, i.filename ≠ name) →
      ∃ k ∈ St.known db, k.filename = name ∧ k.sha256Hash ≠ p.sha256Hash

/-- The pending target is told apart by its hash only, so that a failing target is overlooked
if a pending one of another name has its hash. -/
theorem isRollback_iff_failing (t : Target) (db : Db) :
    (isRollback St t.filename db = true ↔ IsFailing St t.filename db) ↔
      PendingApart St t.filename db := by
  rw [isRollback_iff]
  constructor
  · intro hiff p hp hother hknown hnew
    obtain ⟨k, hk, hname⟩ := hknown
    have hfailing : IsFailing St t.filename db := by
      refine ⟨⟨k, hk, hname⟩, hnew, k, hk, hname, ?_⟩
      rintro q hq ⟨hsame, -⟩
      rw [hp] at hq
      cases hq
      exact hother (hsame.symm.trans hname)
    obtain ⟨_, k, hk, hname, hhash⟩ := hiff.mpr hfailing
    exact ⟨k, hk, hname, hhash p hp⟩
  · intro hapart
    constructor
    · rintro ⟨hnew, k, hk, hname, hhash⟩
      exact ⟨⟨k, hk, hname⟩, hnew, k, hk, hname, fun p hp hsame => hhash p hp hsame.2⟩
    · rintro ⟨hknown, hnew, k, hk, hname, hnot⟩
      refine ⟨hnew, ?_⟩
      cases hp : St.pending db with
      | none => exact ⟨k, hk, hname, by rintro p ⟨⟩⟩
      | some p =>
        by_cases hsame : p.filename = t.filename
        · -- The entries of the pending name differ from it in the hash, if at all.
          refine ⟨k, hk, hname, ?_⟩
          rintro q ⟨⟩ hhash
          exact hnot p hp ⟨hname.trans hsame.symm, hhash⟩
        · obtain ⟨k, hk, hname, hhash⟩ := hapart p hp hsame hknown hnew
          refine ⟨k, hk, hname, ?_⟩
          rintro q ⟨⟩
          exact hhash

/-- A failed target, and after it one with new apps on the same rootfs that waits for a
reboot. -/
def appsOnlyUpdatePending : InstalledVersions :=
  (factoryDevice.db.save nextTarget .kNone).save
    { nextTarget with filename := "board-lmp-3", custom := webCustom "3" "web@3" } .kPending

theorem failing_overlooked :
    isRollback installedVersions nextTarget.filename appsOnlyUpdatePending = false ∧
      IsFailing installedVersions nextTarget.filename appsOnlyUpdatePending := by
  have hknown : nextTarget ∈ installedVersions.known appsOnlyUpdatePending :=
    .tail _ (.head _)
  refine ⟨by decide, ⟨nextTarget, hknown, rfl⟩, by decide, nextTarget, hknown, rfl, ?_⟩
  rintro p ⟨⟩ ⟨hname, -⟩
  revert hname
  decide

end FailingTargets

/-! ## A failing current target -/

section Failing

variable {Db : Type}

/-- What is selected for a failing current target. -/
def SelectsRollback (St : Storage Db) (args : SelectArgs) (listed current : TufTarget)
    (db : Db) (r : SelectResult) : Prop :=
  (r.status = .noUpdate ∧ r.selected = .unknown ∧ refusesDowngrade args listed current = true) ∨
    (r.status = .rollbackTargetNotFound ∧ r.selected = .unknown) ∨
    (r.status = .updateRollback ∧
      (∃ t ∈ St.rollbackLog true db, toTufTarget t = .ok r.selected) ∧
      (∃ i ∈ St.installed db, i.filename = r.selected.name) ∧
      isRollback St r.selected.name db = false ∧ r.selected.name ≠ current.name)

/-- The version of the rollback target can be read, and its apps can be checked. -/
def RollbackReads (St : Storage Db) (styled : Json → String) (cfg : Config) (env : CheckEnv)
    (w : World Db) : Prop :=
  ∃ t, toTufTarget (getRollbackTarget St true w.db) = .ok t ∧
    (t.isUnknown = true ∨ checkReturns St styled cfg env t w = true)

variable {St : Storage Db} {styled : Json → String} {cfg : Config} {ci : CheckInResult}
  {args : SelectArgs} {env : CheckEnv} {w : World Db}

theorem Compares.unique {listed current listed' current' : TufTarget}
    (h : Compares St ci args w listed current) (h' : Compares St ci args w listed' current') :
    listed' = listed ∧ current' = current :=
  ⟨Except.ok.inj (h'.found.symm.trans h.found), Except.ok.inj (h'.reads.symm.trans h.reads)⟩

/-- The decision for a failing current target. -/
theorem planned_failing (hlog : LogConsistent St w.db) {listed current : TufTarget}
    (hcompares : Compares St ci args w listed current)
    (hfailing : isRollback St current.name w.db = true) (hname : listed.name = current.name)
    {plan : Plan} (hplan : Planned St ci args w plan) {r : SelectResult}
    (hr : SelectedBy ci args plan r) : SelectsRollback St args listed current w.db r := by
  have hsame : ∀ {listed' current'}, Compares St ci args w listed' current' →
      listed' = listed ∧ current' = current := fun h => hcompares.unique h
  cases hplan with
  | badCheckIn hbad =>
    rw [hcompares.good] at hbad
    cases hbad
  | notFound _ hfound hunknown =>
    obtain rfl := Except.ok.inj (hfound.symm.trans hcompares.found)
    rw [hcompares.known] at hunknown
    cases hunknown
  | downgrade h hdown =>
    obtain ⟨rfl, rfl⟩ := hsame h
    cases hr
    exact .inl ⟨rfl, rfl, hdown⟩
  | noRollbackTarget =>
    cases hr
    exact .inr (.inl ⟨rfl, rfl⟩)
  | badRollbackTarget h _ hchosen hbad =>
    rw [(rollbackTarget_good hlog hchosen).1] at hbad
    cases hbad
  | @update listed' current' candidate rollbackOperation h _ hchosen hne _ =>
    obtain ⟨rfl, rfl⟩ := hsame h
    obtain ⟨target, htarget, heq⟩ := chooseCandidate_failing hfailing hname hchosen
    split at heq
    · cases heq
    · cases heq
      obtain ⟨rfl, hstatus⟩ := hr
      obtain ⟨_, hread, hmem⟩ := chooseCandidate_rollback hchosen
      refine .inr (.inr ⟨hstatus, ⟨_, hmem, hread⟩, ?_, (rollbackTarget_good hlog hchosen).1, hne⟩)
      rw [(toTufTarget_fields hread).1]
      exact (hlog _ hmem).1
  | @sync listed' current' candidate rollbackOperation h _ hchosen hgood hskip =>
    obtain ⟨rfl, rfl⟩ := hsame h
    obtain ⟨target, _, heq⟩ := chooseCandidate_failing hfailing hname hchosen
    split at heq
    · cases heq
    · cases heq
      obtain ⟨hok, hne⟩ := rollbackTarget_good hlog hchosen
      rcases hskip with hskip | hskip
      · exact absurd hskip hne
      · rw [hok] at hskip
        cases hskip.1

/-- The log leaves no bad target to roll back to. -/
theorem planned_status (hlog : LogConsistent St w.db) {plan : Plan}
    (hplan : Planned St ci args w plan) {r : SelectResult} (hr : SelectedBy ci args plan r) :
    r.status ≠ .badRollbackTarget := by
  cases hplan with
  | badCheckIn =>
    cases hr
    simp
  | notFound =>
    cases hr
    simp
  | downgrade =>
    cases hr
    simp
  | noRollbackTarget =>
    cases hr
    simp
  | badRollbackTarget _ _ hchosen hbad =>
    rw [(rollbackTarget_good hlog hchosen).1] at hbad
    cases hbad
  | @update _ _ _ rollbackOperation =>
    rw [hr.2]
    cases rollbackOperation <;> simp
  | sync =>
    rcases hr with hr | hr
    · rw [hr.1]
      simp
    · rw [hr.1]
      cases args.offlineMode <;> simp

/-- The decision for a failing current target whose rollback target can be read. -/
theorem not_throws_failing (hlog : LogConsistent St w.db) {listed current : TufTarget}
    (hcompares : Compares St ci args w listed current)
    (hfailing : isRollback St current.name w.db = true) (hname : listed.name = current.name)
    (hreads : RollbackReads St styled cfg env w) :
    ¬ SelectionThrows St styled cfg env ci w (planTarget St ci args w) := by
  obtain ⟨t, ht, hchecks⟩ := hreads
  have hchosen : chooseCandidate St listed current w.db =
      .ok (if t.isUnknown then none else some (t, true)) := by
    unfold chooseCandidate
    rw [if_pos (by simp [hfailing, hname]), ht]
    rfl
  unfold planTarget
  simp only [hcompares.good, Bool.not_true, Bool.false_eq_true, if_false, hcompares.found,
    ok_bind, hcompares.known, hcompares.reads, hchosen]
  split
  · exact id
  · cases hunknown : t.isUnknown with
    | true => exact id
    | false =>
      simp only [hunknown, Bool.false_eq_true, if_false] at hchosen
      obtain ⟨hgood, hne⟩ := rollbackTarget_good hlog hchosen
      have hreturns : checkReturns St styled cfg env t w = true := by
        simpa [hunknown] using hchecks
      simp [hgood, hne, SelectionThrows, hreturns, pure, Except.pure]

end Failing

/-- With a failing current target that is offered again, a call refuses a downgrade, finds
nothing to roll back to, or selects a target of the log that was installed successfully, is
not failing and has another name.  No call selects a bad target for a rollback. -/
theorem failing_current_selects_rollback {Db : Type} (St : Storage Db) (styled : Json → String)
    (cfg : Config) (ci : CheckInResult) (args : SelectArgs) (env : CheckEnv) (w : World Db)
    (hlog : LogConsistent St w.db) :
    (∀ r w', getTargetToInstall St styled cfg ci args env w = .ok r w' →
      r.status ≠ .badRollbackTarget ∧
        ∀ listed current, Compares St ci args w listed current →
          isRollback St current.name w.db = true → listed.name = current.name →
          SelectsRollback St args listed current w.db r) ∧
      ∀ listed current, Compares St ci args w listed current →
        isRollback St current.name w.db = true → listed.name = current.name →
        RollbackReads St styled cfg env w →
        ∃ r w', getTargetToInstall St styled cfg ci args env w = .ok r w' := by
  constructor
  · intro r w' hrun
    obtain ⟨plan, hplan, hr⟩ := wp_ok wp_getTargetToInstall hrun
    have hplanned := planned_of_planTarget hplan
    exact ⟨planned_status hlog hplanned hr, fun listed current hcompares hfailing hname =>
      planned_failing hlog hcompares hfailing hname hplanned hr⟩
  · intro listed current hcompares hfailing hname hreads
    have hno : ¬ SelectionThrows St styled cfg env ci w (planTarget St ci args w) :=
      not_throws_failing hlog hcompares hfailing hname hreads
    have hreturns := wp_mono wp_getTargetToInstall (fun r w' (_ : ∃ plan, _) => trivial)
      (fun _ _ h => hno h)
    obtain ⟨r, w', hrun, _⟩ := wp_false_iff.mp hreturns
    exact ⟨r, w', hrun⟩

theorem installedVersions_logConsistent (v : InstalledVersions) :
    LogConsistent installedVersions v := by
  intro t ht
  have hinstalled : t ∈ InstalledVersions.installed v := (List.mem_filter.mp ht).1
  obtain ⟨row, hrow, rfl⟩ := List.mem_map.mp hinstalled
  exact ⟨⟨_, hinstalled, rfl⟩, _, List.mem_map_of_mem (List.mem_filter.mp hrow).1, rfl⟩

/-- The next target is booted, but its apps did not start. -/
def failingDevice : World InstalledVersions :=
  .started { rows := [{ target := factoryTarget, wasInstalled := true },
                      { target := nextTarget, wasInstalled := false }],
             current := some factoryTarget, pending := none } { booted := "bb", pending := "" }

theorem failing_next_selects_factory :
    ∃ r w', getTargetToInstall installedVersions (fun _ => "") deviceConfig nextCheckIn
        (.daemon false) .noneRunning failingDevice = .ok r w' ∧
      SelectsRollback installedVersions (.daemon false) nextTufTarget nextTufTarget
        failingDevice.db r ∧
      r.status = .updateRollback ∧ r.selected.name = initialTarget := by
  have hcompares : Compares installedVersions nextCheckIn (.daemon false) failingDevice
      nextTufTarget nextTufTarget := ⟨rfl, rfl, rfl, rfl⟩
  have hlog := installedVersions_logConsistent failingDevice.db
  obtain ⟨r, w', hrun⟩ := (failing_current_selects_rollback installedVersions (fun _ => "")
    deviceConfig nextCheckIn (.daemon false) .noneRunning failingDevice hlog).2 _ _ hcompares
    (by decide) rfl ⟨_, rfl, .inr (by decide)⟩
  have hr := ((failing_current_selects_rollback installedVersions (fun _ => "") deviceConfig
    nextCheckIn (.daemon false) .noneRunning failingDevice hlog).1 r w' hrun).2 _ _ hcompares
    (by decide) rfl
  refine ⟨r, w', hrun, hr, ?_⟩
  cases hrun
  exact ⟨rfl, rfl⟩

/-! ## Versions -/

section Versions

variable {Db : Type} {St : Storage Db} {styled : Json → String} {cfg : Config}
  {ci : CheckInResult} {args : SelectArgs} {w : World Db}

/-- A target that is looked up by a version has it. -/
theorem selectTarget_version (hnames : ∀ t ∈ ci.targets, t.name ≠ "") {version : Int}
    (hversion : version ≠ -1) {t : TufTarget} (h : selectTarget ci version "" = .ok t)
    (hknown : t.isUnknown = false) : t.version = version := by
  unfold selectTarget selectTargetFor at h
  rw [if_neg (by simp [hversion])] at h
  obtain ⟨found, hfound, h⟩ := bind_eq_ok.mp h
  cases h
  cases found with
  | none => cases hknown
  | some t =>
    obtain ⟨hmem, htest⟩ := firstWhere_eq_some hfound
    split at htest
    · next hmatch => exact hmatch.resolve_right (hnames t hmem)
    · cases htest

theorem chooseCandidate_listed {listed current candidate : TufTarget} {db : Db}
    (h : chooseCandidate St listed current db = .ok (some (candidate, false))) :
    candidate = listed := by
  unfold chooseCandidate at h
  split at h
  · obtain ⟨target, _, h⟩ := bind_eq_ok.mp h
    split at h
    · cases h
    · cases h
  · cases h
    rfl

/-- The target that the apps are synchronised with is not older than the current one, if
the latest target is not. -/
theorem syncTarget_version (hnames : ∀ t ∈ ci.targets, t.name ≠ "") {latest current : TufTarget}
    (hlatest : selectTarget ci (-1) "" = .ok latest) (hle : current.version ≤ latest.version)
    {selected : TufTarget} (h : syncTarget ci current = .ok selected) :
    current.version ≤ selected.version := by
  obtain ⟨found, hfound, h⟩ := bind_eq_ok.mp h
  cases h
  cases hunknown : found.isUnknown with
  | true => exact Int.le_refl _
  | false =>
    by_cases hversion : current.version = -1
    · rw [hversion, hlatest] at hfound
      cases hfound
      exact hle
    · have hsame := selectTarget_version hnames hversion hfound hunknown
      show current.version ≤ found.version
      omega

end Versions

/-- Without permission for a downgrade, a call that asks for the latest target selects none
with a lower version than the current one, unless it is to roll back. -/
theorem latest_never_downgrades {Db : Type} (St : Storage Db) (styled : Json → String)
    (cfg : Config) (ci : CheckInResult) (args : SelectArgs) (env : CheckEnv) (w : World Db)
    (hnames : ∀ t ∈ ci.targets, t.name ≠ "") (hauto : args.autoDowngrade = false)
    (hversion : args.version = -1) (hname : args.name = "") :
    ∀ r w', getTargetToInstall St styled cfg ci args env w = .ok r w' →
      r.selected.isUnknown = false → r.status ≠ .updateRollback →
      ∃ current, currentTufTarget St w = .ok current ∧ current.version ≤ r.selected.version := by
  intro r w' hrun hknown hstatus
  obtain ⟨plan, hplan, hr⟩ := wp_ok wp_getTargetToInstall hrun
  have hnone : r.selected ≠ .unknown := by
    intro h
    rw [h] at hknown
    cases hknown
  -- What the downgrade test says about the latest target.
  have hlatest : ∀ {listed current : TufTarget}, refusesDowngrade args listed current = false →
      current.version ≤ listed.version := by
    intro listed current h
    simpa [hauto, hversion, hname] using refusesDowngrade_eq_false.mp h
  cases planned_of_planTarget hplan with
  | badCheckIn =>
    cases hr
    exact absurd rfl hnone
  | notFound =>
    cases hr
    exact absurd rfl hnone
  | downgrade =>
    cases hr
    exact absurd rfl hnone
  | noRollbackTarget =>
    cases hr
    exact absurd rfl hnone
  | badRollbackTarget =>
    cases hr
    exact absurd rfl hnone
  | @update _ current _ rollbackOperation hcompares hdown hchosen =>
    obtain ⟨rfl, hr⟩ := hr
    cases rollbackOperation with
    | true => exact absurd hr hstatus
    | false =>
      rw [chooseCandidate_listed hchosen]
      exact ⟨current, hcompares.reads, hlatest hdown⟩
  | @sync listed current _ _ hcompares hdown =>
    rcases hr with ⟨_, hsync⟩ | ⟨_, hselected⟩
    · have hfound : selectTarget ci (-1) "" = .ok listed := by
        rw [← hversion, ← hname]
        exact hcompares.found
      exact ⟨current, hcompares.reads, syncTarget_version hnames hfound (hlatest hdown) hsync⟩
    · exact absurd hselected hnone

/-- A new device gets a target of a higher version. -/
theorem next_never_downgrades :
    ∃ r w', getTargetToInstall installedVersions (fun _ => "") deviceConfig nextCheckIn
        (.daemon false) .noneRunning factoryDevice = .ok r w' ∧
      r.selected.name = "board-lmp-2" ∧ r.status = .updateNewVersion ∧
      ∃ current, currentTufTarget installedVersions factoryDevice = .ok current ∧
        current.version ≤ r.selected.version :=
  ⟨_, _, rfl, rfl, rfl, latest_never_downgrades installedVersions (fun _ => "") deviceConfig
    nextCheckIn (.daemon false) .noneRunning factoryDevice (by decide) rfl rfl rfl _ _ rfl rfl
    (by decide)⟩

end Client
end AkLite
