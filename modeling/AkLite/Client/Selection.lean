/-
Which target the daemon installs.

A failing target is one that the log knows and that was never installed
successfully.  `getTargetToInstall` refuses a failing candidate and then looks
whether the apps of the current target are in sync.  If they are not, it selects the
listed target of the current version.  Version minus one, which the initial target
and every target without a version number have, stands for the latest target there,
and that can be the candidate that was refused.  `failing_target_is_selected` is such
a case.

`selection_sound` says for which inputs the daemon never selects a failing target,
and that along every run of daemon cycles with such inputs none is installed.
-/
import AkLite.Client.Checks
import AkLite.Client.InstalledVersions
import AkLite.Lib.Run

namespace AkLite
namespace Client

open Lib Boot

/-! ## The property -/

section Selection

variable {Db : Type} (St : Storage Db) (styled : Json → String) (cfg : Config)

/-- No failing target is selected, unless it has the name of the current one. -/
def SelectsGood (w : World Db) (r : SelectResult) : Prop :=
  r.selected.isUnknown = true ∨ isRollback St r.selected.name w.db = false ∨
    ∃ current, currentTufTarget St w = .ok current ∧ r.selected.name = current.name

/-- The latest target is no update: it is a failing target, or the current one and not
failing. -/
def NothingNewer (ci : CheckInResult) (autoDowngrade : Bool) (w : World Db)
    (current : TufTarget) : Prop :=
  ci.good = true ∧ currentTufTarget St w = .ok current ∧
    ∃ latest, selectTarget ci (-1) "" = .ok latest ∧ latest.isUnknown = false ∧
      (autoDowngrade = true ∨ current.version ≤ latest.version) ∧
      (isRollback St latest.name w.db = true ↔ latest.name ≠ current.name)

/-- The same for a call with these arguments: the candidate is not skipped as a downgrade,
and it is a failing target that is not asked for, or the current one and not failing. -/
def NothingToUpdate (ci : CheckInResult) (args : SelectArgs) (w : World Db)
    (current : TufTarget) : Prop :=
  ci.good = true ∧ currentTufTarget St w = .ok current ∧
    ∃ candidate, selectTarget ci args.version args.name = .ok candidate ∧
      candidate.isUnknown = false ∧
      (args.autoDowngrade = true ∨ args.version ≠ -1 ∨ args.name ≠ "" ∨
        current.version ≤ candidate.version) ∧
      (isRollback St candidate.name w.db = true ↔ candidate.name ≠ current.name) ∧
      (candidate.name ≠ current.name → args.allowBadTarget = false)

/-- The latest target is no update, the apps of the current target are not in sync, and
the listed target of the current version is a failing one of another name. -/
def SyncsToFailing (ci : CheckInResult) (autoDowngrade : Bool) (env : CheckEnv) (w : World Db) :
    Prop :=
  ∃ current selected,
    NothingNewer St ci autoDowngrade w current ∧
      appsOutOfSync St styled cfg env current w = true ∧
      selectTarget ci current.version "" = .ok selected ∧ selected.isUnknown = false ∧
      isRollback St selected.name w.db = true ∧ selected.name ≠ current.name

/-! ## Daemon cycles -/

structure Cycle where
  ci : CheckInResult
  check : CheckEnv
  pull : PullEnv

/-- A target that was given to `PullAndInstall`, with what the log said of it then. -/
structure Handed where
  target : TufTarget
  failing : Bool
  isCurrent : Bool

structure Daemon (Db : Type) where
  world : World Db
  handed : List Handed

def Daemon.hand (d : Daemon Db) (t : TufTarget) : Handed :=
  { target := t
    failing := isRollback St t.name d.world.db
    isCurrent := (currentTufTarget St d.world).toOption.any fun c => t.name == c.name }

/-- The body of the daemon's loop. -/
def daemonCycle (autoDowngrade : Bool) (cycle : Cycle) (d : Daemon Db) : Daemon Db :=
  if !cycle.ci.good then d
  else
    match getTargetToInstall St styled cfg cycle.ci (.daemon autoDowngrade) cycle.check d.world with
    | .error _ w => { d with world := w }
    | .ok r w =>
      let d := { d with world := w }
      if r.selected.isUnknown then d
      else
        let args : PullArgs :=
          { target := r.selected, reason := r.reason, correlationId := "", mode := .all,
            isLocal := false, doDownload := true, doInstall := true,
            requireInTuf := r.status == .updateNewVersion }
        { world := after (pullAndInstall St styled cfg args cycle.pull) w
          handed := d.hand St r.selected :: d.handed }

/-- A step of the device: a cycle of the daemon, or whatever else changes the world
between two of them. -/
inductive DaemonStep (autoDowngrade : Bool) :
    Daemon Db → Option Cycle → Daemon Db → Prop where
  | cycle (c : Cycle) (d : Daemon Db) :
    DaemonStep autoDowngrade d (some c) (daemonCycle St styled cfg autoDowngrade c d)
  | between (d : Daemon Db) (w : World Db) :
    DaemonStep autoDowngrade d none { d with world := w }

def CycleSound (autoDowngrade : Bool) (d : Daemon Db) : Option Cycle → Prop
  | some c => ¬ SyncsToFailing St styled cfg c.ci autoDowngrade c.check d.world
  | none => True

end Selection

/-! ## The plan -/

section Plan

variable {Db : Type} {St : Storage Db} {styled : Json → String} {cfg : Config}
  {ci : CheckInResult} {args : SelectArgs} {w : World Db}

/-- The latest target is refused since its version is lower than the current one. -/
def refusesDowngrade (args : SelectArgs) (candidate current : TufTarget) : Bool :=
  !args.autoDowngrade && args.version == -1 && args.name == "" &&
    decide (candidate.version < current.version)

theorem refusesDowngrade_eq_false {candidate current : TufTarget} :
    refusesDowngrade args candidate current = false ↔
      (args.autoDowngrade = true ∨ args.version ≠ -1 ∨ args.name ≠ "" ∨
        current.version ≤ candidate.version) := by
  have hle : current.version ≤ candidate.version ↔ ¬ candidate.version < current.version := by
    omega
  rw [hle, refusesDowngrade]
  simp only [Bool.and_eq_false_iff, Bool.not_eq_false', beq_eq_false_iff_ne,
    decide_eq_false_iff_not, or_assoc]

/-- A listed target is compared with the current one. -/
structure Compares (St : Storage Db) (ci : CheckInResult) (args : SelectArgs) (w : World Db)
    (listed current : TufTarget) : Prop where
  good : ci.good = true
  found : selectTarget ci args.version args.name = .ok listed
  known : listed.isUnknown = false
  reads : currentTufTarget St w = .ok current

/-- The exits of the decision, with what leads to each. -/
inductive Planned (St : Storage Db) (ci : CheckInResult) (args : SelectArgs) (w : World Db) :
    Plan → Prop where
  | badCheckIn : ci.good = false → Planned St ci args w
      (.failed .badCheckinStatus "Can't select target to install using a failed check-in result")
  | notFound {listed : TufTarget} : ci.good = true →
      selectTarget ci args.version args.name = .ok listed → listed.isUnknown = true →
      Planned St ci args w (.failed .tufTargetNotFound "No matching target")
  | downgrade {listed current : TufTarget} : Compares St ci args w listed current →
      refusesDowngrade args listed current = true →
      Planned St ci args w (.done { status := .noUpdate, selected := .unknown, reason := "" } "")
  | noRollbackTarget {listed current : TufTarget} : Compares St ci args w listed current →
      refusesDowngrade args listed current = false →
      chooseCandidate St listed current w.db = .ok none →
      Planned St ci args w (.failed .rollbackTargetNotFound (noRollbackTarget current))
  | badRollbackTarget {listed current candidate : TufTarget} :
      Compares St ci args w listed current → refusesDowngrade args listed current = false →
      chooseCandidate St listed current w.db = .ok (some (candidate, true)) →
      isRollback St candidate.name w.db = true →
      Planned St ci args w (.failed .badRollbackTarget (badRollback candidate current))
  | update {listed current candidate : TufTarget} {rollbackOperation : Bool} :
      Compares St ci args w listed current → refusesDowngrade args listed current = false →
      chooseCandidate St listed current w.db = .ok (some (candidate, rollbackOperation)) →
      candidate.name ≠ current.name →
      (isRollback St candidate.name w.db = false ∨
        rollbackOperation = false ∧ args.allowBadTarget = true) →
      Planned St ci args w (.update candidate current rollbackOperation)
  | sync {listed current candidate : TufTarget} {rollbackOperation : Bool} :
      Compares St ci args w listed current → refusesDowngrade args listed current = false →
      chooseCandidate St listed current w.db = .ok (some (candidate, rollbackOperation)) →
      (rollbackOperation && isRollback St candidate.name w.db) = false →
      (candidate.name = current.name ∨
        isRollback St candidate.name w.db = true ∧ args.allowBadTarget = false) →
      Planned St ci args w (.sync candidate current)

theorem planned_of_planTarget {plan : Plan} (h : planTarget St ci args w = .ok plan) :
    Planned St ci args w plan := by
  unfold planTarget at h
  split at h
  · next hgood =>
    cases h
    exact .badCheckIn (by simpa using hgood)
  next hgood =>
  obtain ⟨listed, hlisted, h⟩ := bind_eq_ok.mp h
  split at h
  · next hunknown =>
    cases h
    exact .notFound (by simpa using hgood) hlisted hunknown
  next hknown =>
  obtain ⟨current, hcurrent, h⟩ := bind_eq_ok.mp h
  have hcompares : Compares St ci args w listed current :=
    ⟨by simpa using hgood, hlisted, by simpa using hknown, hcurrent⟩
  split at h
  · next hversion =>
    cases h
    exact .downgrade hcompares hversion
  next hversion =>
  have hversion' : refusesDowngrade args listed current = false := Bool.eq_false_iff.mpr hversion
  obtain ⟨chosen, hchosen, h⟩ := bind_eq_ok.mp h
  cases chosen with
  | none =>
    cases h
    exact .noRollbackTarget hcompares hversion' hchosen
  | some chosen =>
    obtain ⟨candidate, rollbackOperation⟩ := chosen
    dsimp only at h
    split at h
    · next hrollback =>
      cases h
      obtain ⟨rfl, hbad⟩ := Bool.and_eq_true_iff.mp hrollback
      exact .badRollbackTarget hcompares hversion' hchosen hbad
    next hrollback =>
    split at h
    · next hupdate =>
      cases h
      obtain ⟨hname, hallow⟩ := Bool.and_eq_true_iff.mp hupdate
      refine .update hcompares hversion' hchosen (by simpa using hname) ?_
      cases hbad : isRollback St candidate.name w.db with
      | false => exact .inl rfl
      | true => exact .inr (by simpa [hbad] using And.intro hrollback hallow)
    · next hsame =>
      cases h
      refine .sync hcompares hversion' hchosen (by simpa using hrollback) ?_
      by_cases hname : candidate.name = current.name
      · exact .inl hname
      · exact .inr (by simpa [hname] using hsame)

/-- What a plan of each kind says about the inputs. -/
def PlanSpec (St : Storage Db) (args : SelectArgs) (w : World Db) : Plan → Prop
  | .done result _ => result.selected = .unknown
  | .update candidate current _ =>
    currentTufTarget St w = .ok current ∧
      (isRollback St candidate.name w.db = false ∨ args.allowBadTarget = true)
  | .sync _ current => currentTufTarget St w = .ok current

theorem planTarget_spec {plan : Plan} (h : planTarget St ci args w = .ok plan) :
    PlanSpec St args w plan := by
  cases planned_of_planTarget h with
  | badCheckIn => rfl
  | notFound => rfl
  | downgrade => rfl
  | noRollbackTarget => rfl
  | badRollbackTarget => rfl
  | update hcompares _ _ _ hallow => exact ⟨hcompares.reads, hallow.imp_right And.right⟩
  | sync hcompares => exact hcompares.reads

/-- A target that is rolled back to is never the current one, which is failing then. -/
theorem chooseCandidate_name {latest current candidate : TufTarget} {rollbackOperation : Bool}
    (h : chooseCandidate St latest current w.db = .ok (some (candidate, rollbackOperation)))
    (hgood : (rollbackOperation && isRollback St candidate.name w.db) = false)
    (hsame : candidate.name = current.name ∨ isRollback St candidate.name w.db = true) :
    isRollback St latest.name w.db = true ↔ latest.name ≠ current.name := by
  unfold chooseCandidate at h
  split at h
  · next hbad =>
    obtain ⟨target, _, h⟩ := bind_eq_ok.mp h
    split at h
    · cases h
    · cases h
      simp only [Bool.and_eq_true, beq_iff_eq] at hbad
      simp only [Bool.true_and] at hgood
      have hne : candidate.name ≠ current.name := by
        intro hname
        rw [hname, hbad.1] at hgood
        cases hgood
      exact absurd hsame (by simp [hgood, hne])
  · next hbad =>
    cases h
    by_cases hname : latest.name = current.name
    · have hok : isRollback St current.name w.db = false := by simpa [hname] using hbad
      simp [hname, hok]
    · simpa [hname] using hsame

theorem chooseCandidate_latest {latest current : TufTarget}
    (h : isRollback St latest.name w.db = true ↔ latest.name ≠ current.name) :
    chooseCandidate St latest current w.db = .ok (some (latest, false)) := by
  unfold chooseCandidate
  rw [if_neg]
  · rfl
  · simp only [Bool.and_eq_true, beq_iff_eq]
    rintro ⟨hbad, hname⟩
    exact h.mp (hname ▸ hbad) hname.symm

theorem planTarget_sync {candidate current : TufTarget}
    (h : planTarget St ci args w = .ok (.sync candidate current)) :
    NothingToUpdate St ci args w current := by
  cases planned_of_planTarget h with
  | @sync listed _ _ _ hcompares hversion hchosen hrollback hsame =>
    have hiff := chooseCandidate_name hchosen hrollback (hsame.imp_right And.left)
    refine ⟨hcompares.good, hcompares.reads, listed, hcompares.found, hcompares.known,
      refusesDowngrade_eq_false.mp hversion, hiff, fun hne => ?_⟩
    rw [chooseCandidate_latest hiff] at hchosen
    cases hchosen
    exact (hsame.resolve_left hne).2

theorem planTarget_of_nothingToUpdate {current : TufTarget}
    (h : NothingToUpdate St ci args w current) :
    ∃ candidate, planTarget St ci args w = .ok (.sync candidate current) := by
  obtain ⟨hgood, hcurrent, listed, hlisted, hknown, hversion, hsame, hallow⟩ := h
  refine ⟨listed, ?_⟩
  have hstop : (!args.autoDowngrade && args.version == -1 && args.name == "" &&
      decide (listed.version < current.version)) = false :=
    refusesDowngrade_eq_false.mpr hversion
  have hupdate : (listed.name != current.name &&
      (!isRollback St listed.name w.db || args.allowBadTarget)) = false := by
    by_cases hname : listed.name = current.name
    · simp [hname]
    · simp [hsame.mpr hname, hallow hname]
  simp [planTarget, hgood, hlisted, hknown, hcurrent, chooseCandidate_latest hsame,
    bind, Except.bind, pure, Except.pure, hstop, hupdate]

variable {autoDowngrade : Bool} {env : CheckEnv}

theorem nothingToUpdate_daemon {current : TufTarget} :
    NothingToUpdate St ci (.daemon autoDowngrade) w current ↔
      NothingNewer St ci autoDowngrade w current := by
  simp [NothingToUpdate, NothingNewer, SelectArgs.daemon]

theorem planTarget_sync_iff {current : TufTarget} :
    (∃ candidate, planTarget St ci (.daemon autoDowngrade) w = .ok (.sync candidate current)) ↔
      NothingNewer St ci autoDowngrade w current := by
  rw [← nothingToUpdate_daemon]
  exact ⟨fun ⟨_, h⟩ => planTarget_sync h, planTarget_of_nothingToUpdate⟩

theorem not_syncsToFailing (h : ∀ candidate current,
      planTarget St ci (.daemon autoDowngrade) w ≠ .ok (.sync candidate current)) :
    ¬ SyncsToFailing St styled cfg ci autoDowngrade env w := by
  rintro ⟨current, _, hnewer, _⟩
  obtain ⟨candidate, hplan⟩ := planTarget_sync_iff.mpr hnewer
  exact h candidate current hplan

theorem syncsToFailing_iff {candidate current : TufTarget}
    (hplan : planTarget St ci (.daemon autoDowngrade) w = .ok (.sync candidate current)) :
    SyncsToFailing St styled cfg ci autoDowngrade env w ↔
      appsOutOfSync St styled cfg env current w = true ∧
        ∃ selected, selectTarget ci current.version "" = .ok selected ∧
          selected.isUnknown = false ∧ isRollback St selected.name w.db = true ∧
          selected.name ≠ current.name := by
  constructor
  · rintro ⟨_, selected, hnewer, hsync, hselect, hrest⟩
    obtain ⟨_, hplan'⟩ := planTarget_sync_iff.mpr hnewer
    rw [hplan] at hplan'
    cases hplan'
    exact ⟨hsync, selected, hselect, hrest⟩
  · rintro ⟨hsync, selected, hselect, hrest⟩
    exact ⟨current, selected, planTarget_sync_iff.mp ⟨candidate, hplan⟩, hsync, hselect, hrest⟩

theorem syncTarget_eq {current selected : TufTarget}
    (h : selectTarget ci current.version "" = .ok selected) :
    syncTarget ci current = .ok (if selected.isUnknown then current else selected) := by
  rw [syncTarget, h]
  rfl

theorem syncTarget_eq_ok {current target : TufTarget} (h : syncTarget ci current = .ok target) :
    ∃ selected, selectTarget ci current.version "" = .ok selected ∧
      target = if selected.isUnknown then current else selected := by
  obtain ⟨selected, hselect, htarget⟩ := bind_eq_ok.mp h
  exact ⟨selected, hselect, (Except.ok.inj htarget).symm⟩

/-- A target found for the current version, or else the current one. -/
theorem selectsGood_selected
    {candidate current selected : TufTarget} {status : SelectStatus} {reason : String}
    (hplan : planTarget St ci (.daemon autoDowngrade) w = .ok (.sync candidate current))
    (hsync : appsOutOfSync St styled cfg env current w = true)
    (hselect : selectTarget ci current.version "" = .ok selected) :
    SelectsGood St w
        { status := status, reason := reason
          selected := if selected.isUnknown then current else selected } ↔
      ¬ SyncsToFailing St styled cfg ci autoDowngrade env w := by
  have hcurrent : currentTufTarget St w = .ok current := planTarget_spec hplan
  rw [syncsToFailing_iff hplan, hsync, hselect]
  cases hunknown : selected.isUnknown with
  | true => simp [SelectsGood, hcurrent, hunknown]
  | false =>
    simp only [SelectsGood, hcurrent, Bool.false_eq_true, if_false, hunknown, false_or,
      Except.ok.injEq, exists_eq_left', true_and]
    cases isRollback St selected.name w.db with
    | true => simp
    | false => simp

/-- The call returns a good selection exactly if its inputs do not lead to the
synchronisation with a failing target. -/
theorem selectsGood_iff :
    (∀ r w', getTargetToInstall St styled cfg ci (.daemon autoDowngrade) env w = .ok r w' →
      SelectsGood St w r) ↔ ¬ SyncsToFailing St styled cfg ci autoDowngrade env w := by
  rw [← wp_true_iff (P := fun r _ => SelectsGood St w r)]
  refine wp_iff ?_
  have hno : (∀ candidate current,
      planTarget St ci (.daemon autoDowngrade) w ≠ .ok (.sync candidate current)) →
      ¬ SyncsToFailing St styled cfg ci autoDowngrade env w := not_syncsToFailing
  have hunknown : ∀ status reason, SelectsGood St w ⟨status, .unknown, reason⟩ :=
    fun _ _ => .inl rfl
  refine getTargetToInstall_rule (fun e hplan => ?_) (fun result err hplan => ?_)
    (fun candidate current rollbackOperation hplan v _ => ?_) fun candidate current hplan v _ => ?_
  · exact iff_of_true trivial (hno fun _ _ => by rw [hplan]; simp)
  · have hspec : result.selected = .unknown := planTarget_spec hplan
    refine iff_of_true ?_ (hno fun _ _ => by rw [hplan]; simp)
    exact .inl (by rw [hspec]; rfl)
  · have hgood : isRollback St candidate.name w.db = false := by
      simpa [SelectArgs.daemon] using (planTarget_spec hplan).2
    have hnone := hno fun _ _ => by rw [hplan]; simp
    exact ⟨fun _ _ => iff_of_true trivial hnone, fun _ => iff_of_true (.inr (.inl hgood)) hnone⟩
  · rw [syncsToFailing_iff hplan]
    refine ⟨fun _ hsync _ => ?_, fun e herror => ?_, fun target reason _ hsync htarget => ?_,
      fun reason hsync => ?_⟩
    · simp [hsync]
    · refine iff_of_true trivial ?_
      rintro ⟨_, selected, hselect, _⟩
      rw [syncTarget_eq hselect] at herror
      cases herror
    · obtain ⟨selected, hselect, rfl⟩ := syncTarget_eq_ok htarget
      rw [← syncsToFailing_iff hplan]
      exact selectsGood_selected hplan (hsync.resolve_left (by simp [SelectArgs.daemon])) hselect
    · exact iff_of_true (hunknown _ _) fun hfailing => hsync (.inr hfailing.1)

/-- What a call returns for its decision. -/
def SelectedBy (ci : CheckInResult) (args : SelectArgs) : Plan → SelectResult → Prop
  | .done result _, r => r = result
  | .update candidate _ rollbackOperation, r =>
    r.selected = candidate ∧
      r.status = if rollbackOperation then .updateRollback else .updateNewVersion
  | .sync _ current, r =>
    (r.status = .updateSyncApps ∧ syncTarget ci current = .ok r.selected) ∨
      (r.status = if args.offlineMode then .targetAlreadyInstalled else .noUpdate) ∧
        r.selected = .unknown

/-- A call throws in its decision, or in the check or the look-up that follows. -/
def SelectionThrows (St : Storage Db) (styled : Json → String) (cfg : Config) (env : CheckEnv)
    (ci : CheckInResult) (w : World Db) : Except String Plan → Prop
  | .error _ => True
  | .ok (.done _ _) => False
  | .ok (.update candidate _ _) => checkReturns St styled cfg env candidate w = false
  | .ok (.sync _ current) =>
    checkReturns St styled cfg env current w = false ∨ ∃ e, syncTarget ci current = .error e

theorem wp_getTargetToInstall :
    wp (getTargetToInstall St styled cfg ci args env)
      (fun r _ => ∃ plan, planTarget St ci args w = .ok plan ∧ SelectedBy ci args plan r)
      (fun _ _ => SelectionThrows St styled cfg env ci w (planTarget St ci args w)) w := by
  refine getTargetToInstall_rule (fun e hplan => ?_) (fun result err hplan => ⟨_, hplan, rfl⟩)
    (fun candidate current rollbackOperation hplan v _ => ?_) fun candidate current hplan v _ => ?_
  · rw [hplan]
    trivial
  · rw [hplan]
    exact ⟨fun _ hreturns => hreturns, fun _ => ⟨_, rfl, rfl, rfl⟩⟩
  · rw [hplan]
    exact ⟨fun _ _ hreturns => .inl hreturns, fun e herror => .inr ⟨e, herror⟩,
      fun _ _ _ _ htarget => ⟨_, rfl, .inl ⟨rfl, htarget⟩⟩, fun _ _ => ⟨_, rfl, .inr ⟨rfl, rfl⟩⟩⟩

theorem getTargetToInstall_frame {r : SelectResult} {w' : World Db}
    (h : getTargetToInstall St styled cfg ci args env w = .ok r w') :
    w'.db = w.db ∧ w'.rootfs = w.rootfs :=
  wp_ok (Q := fun _ v => v.db = w.db ∧ v.rootfs = w.rootfs)
    (getTargetToInstall_keeps ⟨rfl, rfl⟩ (fun _ _ hv => ⟨hv.db, hv.rootfs⟩) (fun _ _ hv => hv)) h

end Plan

/-! ## Runs -/

section Runs

variable {Db : Type} {St : Storage Db} {styled : Json → String} {cfg : Config}
  {autoDowngrade : Bool}

def HandedGood (d : Daemon Db) : Prop :=
  ∀ h ∈ d.handed, h.failing = false ∨ h.isCurrent = true

/-- A good selection is handed over as one. -/
theorem hand_good {d : Daemon Db} {r : SelectResult} {w : World Db}
    (hdb : d.world.db = w.db) (hrootfs : d.world.rootfs = w.rootfs) (hgood : SelectsGood St w r)
    (hknown : r.selected.isUnknown = false) :
    (d.hand St r.selected).failing = false ∨ (d.hand St r.selected).isCurrent = true := by
  rcases hgood with h | h | ⟨current, hcurrent, hname⟩
  · rw [hknown] at h
    exact absurd h (by decide)
  · left
    simp only [Daemon.hand, hdb, h]
  · right
    have hcurrent' : currentTufTarget St d.world = .ok current := by
      rw [← hcurrent, currentTufTarget, currentTufTarget, getCurrent, getCurrent, hdb, hrootfs]
    simp [Daemon.hand, hcurrent', hname, Except.toOption]

theorem handedGood_step {d d' : Daemon Db} {c : Option Cycle} (hd : HandedGood d)
    (hc : CycleSound St styled cfg autoDowngrade d c)
    (hstep : DaemonStep St styled cfg autoDowngrade d c d') : HandedGood d' := by
  cases hstep with
  | between w => exact hd
  | cycle c =>
    unfold daemonCycle
    split
    · exact hd
    · cases hr : getTargetToInstall St styled cfg c.ci (.daemon autoDowngrade) c.check d.world with
      | error e w => exact hd
      | ok r w =>
        dsimp only
        split
        · exact hd
        · next hknown =>
          have hframe := getTargetToInstall_frame hr
          have hgood := selectsGood_iff.mpr hc r w hr
          intro h hmem
          rcases List.mem_cons.mp hmem with rfl | hmem
          · exact hand_good hframe.1 hframe.2 hgood (by simpa using hknown)
          · exact hd h hmem

end Runs

/-- The daemon selects no failing target exactly for the inputs that do not synchronise
with one.  Along every run whose cycles have such inputs, no target is installed that
the log then has as failing, unless it is the current one. -/
theorem selection_sound {Db : Type} (St : Storage Db) (styled : Json → String) (cfg : Config)
    (autoDowngrade : Bool) :
    (∀ ci env w,
      (∀ r w', getTargetToInstall St styled cfg ci (.daemon autoDowngrade) env w = .ok r w' →
        SelectsGood St w r) ↔ ¬ SyncsToFailing St styled cfg ci autoDowngrade env w) ∧
    (∀ d d', d.handed = [] →
      Reaches (DaemonStep St styled cfg autoDowngrade) (CycleSound St styled cfg autoDowngrade)
        d d' →
      ∀ h ∈ d'.handed, h.failing = false ∨ h.isCurrent = true) := by
  refine ⟨fun ci env w => selectsGood_iff, fun d d' hstart hrun => ?_⟩
  have hnone : HandedGood d := fun h hmem => by
    rw [hstart] at hmem
    exact absurd hmem (by simp)
  exact Reaches.invariant HandedGood (fun _ _ _ hd hc hstep => handedGood_step hd hc hstep)
    hnone hrun

def nextCheckIn : CheckInResult :=
  { status := .ok, primaryHwid := "board", targets := [nextTufTarget] }

/-- The next target is known but not installed. -/
def rolledBackDevice : World InstalledVersions :=
  .started { rows := [{ target := factoryTarget, wasInstalled := true },
                      { target := nextTarget, wasInstalled := false }],
             current := some factoryTarget, pending := none } { booted := "aa", pending := "" }

def nextCycle : Cycle :=
  { ci := nextCheckIn, check := .noneRunning, pull := .succeeds [nextTufTarget] }

def afterNextCycle : Daemon InstalledVersions :=
  daemonCycle installedVersions (fun _ => "") deviceConfig false nextCycle
    { world := factoryDevice, handed := [] }

theorem not_syncsToFailing_factory :
    ¬ SyncsToFailing installedVersions (fun _ => "") deviceConfig nextCheckIn false .noneRunning
      factoryDevice := by
  rintro ⟨current, _, ⟨_, hcurrent, latest, hlatest, _, _, hsame⟩, _⟩
  cases hcurrent
  cases hlatest
  revert hsame
  decide

/-- A new device gets the next target. -/
theorem selection_sound_factory :
    (∃ r w', getTargetToInstall installedVersions (fun _ => "") deviceConfig nextCheckIn
        (.daemon false) .noneRunning factoryDevice = .ok r w' ∧
      r.selected.name = "board-lmp-2" ∧ SelectsGood installedVersions factoryDevice r) ∧
    afterNextCycle.handed.map (fun h => h.target.name) = ["board-lmp-2"] ∧
      ∀ h ∈ afterNextCycle.handed, h.failing = false ∨ h.isCurrent = true := by
  have hsound := selection_sound installedVersions (fun _ => "") deviceConfig false
  refine ⟨⟨_, _, rfl, rfl, (hsound.1 _ _ _).mpr not_syncsToFailing_factory _ _ rfl⟩, rfl,
    hsound.2 { world := factoryDevice, handed := [] } _ rfl ?_⟩
  exact Reaches.snoc .refl (some nextCycle) not_syncsToFailing_factory (.cycle nextCycle _)

/-- The next target failed and the device is back on the initial one, the apps of which
do not run.  The next target is selected again. -/
theorem failing_target_is_selected :
    ∃ r w', getTargetToInstall installedVersions (fun _ => "") deviceConfig nextCheckIn
        (.daemon false) .noneRunning rolledBackDevice = .ok r w' ∧
      ¬ SelectsGood installedVersions rolledBackDevice r := by
  refine ⟨_, _, rfl, ?_⟩
  rintro (h | h | ⟨current, hcurrent, hname⟩)
  · revert h; decide
  · revert h; decide
  · cases hcurrent
    revert hname; decide

end Client
end AkLite
