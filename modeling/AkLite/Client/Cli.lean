/-
The command that completes an installation.

`completeInstall` is what `aktualizr-lite finalize` runs after a reboot.  If the device has
booted the new rootfs and the apps do not start, the command installs the last good
target.  It asks for an installer as for any update, so that the target has to be one of
the TUF targets.  The daemon comes to the same target by `getTargetToInstall` and
`pullAndInstall`, and asks only that it was installed before.

`finalize_rolls_back_iff` says when the command gets its installer and when the daemon
gets one in the same state.  The two differ in a target that is not, or no longer, among
the TUF targets, as in `finalize_misses_rollback_target`.
-/
import AkLite.Client.AppOrder
import AkLite.Client.Finalize
import AkLite.Client.GoingBack
import AkLite.Client.RollingBack

namespace AkLite
namespace Client

open Lib Boot

/-! ## The command -/

/-- `cli::StatusCode`, without the codes of other commands. -/
inductive StatusCode where
  | unknownError
  | ok
  | okNeedsRebootForBootFw
  | installAppsNeedFinalization
  | installationInProgress
  | noPendingInstallation
  | downloadFailure
  | downloadFailureNoSpace
  | downloadFailureVerificationFailed
  | installTargetPullFailure
  | installNeedsRebootForBootFw
  | installNeedsReboot
  | installRollbackOk
  | installRollbackNeedsReboot
  | installRollbackFailed
  deriving DecidableEq, Repr

/-- The table `i2s`.  It has no entry for a failed installation. -/
def StatusCode.ofInstall : InstallStatus → StatusCode
  | .ok => .ok
  | .okBootFwNeedsCompletion => .okNeedsRebootForBootFw
  | .needsCompletion => .installNeedsReboot
  | .appsNeedCompletion => .installAppsNeedFinalization
  | .bootFwNeedsCompletion => .installNeedsRebootForBootFw
  | .downloadFailed => .installTargetPullFailure
  | .downloadOstreeFailed => .downloadFailure
  | .verificationFailed => .downloadFailureVerificationFailed
  | .noSpace => .downloadFailureNoSpace
  | .installationInProgress => .installationInProgress
  | .installRollbackFailed => .installRollbackFailed
  | .installRollbackOk => .installRollbackOk
  | .failed => .unknownError
  | .unknownError => .unknownError

/-- `InstallResult::operator bool`. -/
def InstallStatus.isGood : InstallStatus → Bool
  | .ok | .okBootFwNeedsCompletion | .needsCompletion | .appsNeedCompletion
  | .installRollbackOk => true
  | _ => false

/-- The default arguments of `Installer`. -/
def InstallerArgs.ofTarget (t : TufTarget) : InstallerArgs :=
  { target := t, reason := "", correlationId := "", mode := .all, isLocal := false,
    requireInTuf := true, areAppsChecked := false }

structure CompleteInstallEnv where
  complete : CompleteEnv
  sync : CheckEnv
  syncUuid : String
  installer : InstallerEnv
  install : ContextInstallEnv

/-- The code of a rollback by its installation. -/
def StatusCode.ofRollback : InstallStatus → StatusCode
  | .needsCompletion => .installRollbackNeedsReboot
  | .ok => .installRollbackOk
  | _ => .installRollbackFailed

section Command

variable {Db : Type} (St : Storage Db) (styled : Json → String) (cfg : Config)

/-- The bootloader has gone back to the previous rootfs: its apps are synchronised. -/
def syncAfterRollback (env : CompleteInstallEnv) : M Db StatusCode := do
  match ← checkAppsInSync St styled cfg env.sync env.syncUuid with
  | none => return .installRollbackOk
  | some context =>
    let rir ← contextInstall St styled cfg context env.install
    return if rir.status = .ok then .installRollbackOk else .installRollbackFailed

/-- The new rootfs is booted, but the apps do not start: the last good target is
installed. -/
def rollBackApps (env : CompleteInstallEnv) : M Db StatusCode := do
  let target ← orThrow (toTufTarget (getRollbackTarget St true (← get).db))
  if target.isUnknown then return .installRollbackFailed
  match ← installer St styled cfg (.ofTarget target) env.installer with
  | none => return .unknownError
  | some context =>
    let rir ← contextInstall St styled cfg context env.install
    return .ofRollback rir.status

/-- `cli::CompleteInstall`. -/
def completeInstall (env : CompleteInstallEnv) : M Db StatusCode := do
  let pendingTarget := getPendingTarget St (← get)
  if !pendingTarget.isValid then return .noPendingInstallation
  let pending ← orThrow (toTufTarget pendingTarget)
  let ir ← completeInstallation St styled cfg env.complete
  if ir.status.isGood then return .ofInstall ir.status
  let current ← orThrow (currentTufTarget St (← get))
  if current.sha256Hash ≠ pending.sha256Hash then syncAfterRollback St styled cfg env
  else rollBackApps St styled cfg env

/-! ## The property -/

/-- A finalization fails on the booted pending target, and the log has a target to roll
back to.  `u` is the state after the finalization. -/
structure AppsFail (env : CompleteInstallEnv) (w u : World Db) (t : TufTarget) : Prop where
  inProgress : (getPendingTarget St w).isValid = true
  fails : ∃ pending ir, toTufTarget (getPendingTarget St w) = .ok pending ∧
    completeInstallation St styled cfg env.complete w = .ok ir u ∧ ir.status.isGood = false
  booted : ∃ current, currentTufTarget St u = .ok current ∧
    current.sha256Hash = (getPendingTarget St w).sha256Hash
  found : toTufTarget (getRollbackTarget St true u.db) = .ok t
  known : t.isUnknown = false

/-- The command gets an installer for the rollback target and goes on to the
installation, and this decides its code, which is never an unknown error. -/
def FinalizeRollsBack (env : CompleteInstallEnv) (w u : World Db) (t : TufTarget) : Prop :=
  (∃ context v, installer St styled cfg (.ofTarget t) env.installer u = .ok (some context) v ∧
    MadeFor (.ofTarget t) context ∧
    completeInstall St styled cfg env w =
      (do
        let rir ← contextInstall St styled cfg context env.install
        return .ofRollback rir.status : M Db StatusCode) v) ∧
  ∀ code w', completeInstall St styled cfg env w = .ok code w' → code ≠ .unknownError

/-- The target is among the TUF targets. -/
def InTuf (env : InstallerEnv) (t : TufTarget) : Prop :=
  ∃ targets tt, env.tufTargets = .ok targets ∧
    firstWhere (fun tt => matchesTarget false tt t) targets = .ok (some tt)

/-- The TUF targets can be read, and the target is none of them. -/
def NotInTuf (env : InstallerEnv) (t : TufTarget) : Prop :=
  ∃ targets, env.tufTargets = .ok targets ∧
    firstWhere (fun tt => matchesTarget false tt t) targets = .ok none

/-- What an installer of an online update needs besides its target. -/
def InstallerReady (env : InstallerEnv) (t : TufTarget) : Prop :=
  cfg.readOnly = false ∧ env.checkMeta = .ok () ∧
    (makeCorrelationId env t "").utf8ByteSize ≤ 63

/-- The arguments with which the daemon installs what it has selected. -/
def PullArgs.daemon (r : SelectResult) : PullArgs :=
  { target := r.selected, reason := r.reason, correlationId := "", mode := .all,
    isLocal := false, doDownload := true, doInstall := true,
    requireInTuf := r.status == .updateNewVersion }

end Command

section Proofs

variable {Db : Type} {St : Storage Db} {styled : Json → String} {cfg : Config}
  {env : CompleteInstallEnv} {w u : World Db} {t : TufTarget}

/-- The command goes on with the rollback. -/
theorem completeInstall_of_fail (h : AppsFail St styled cfg env w u t) :
    completeInstall St styled cfg env w = rollBackApps St styled cfg env u := by
  obtain ⟨pending, ir, hpending, hcompletes, hbad⟩ := h.fails
  obtain ⟨current, hcurrent, hhash⟩ := h.booted
  have hsame : ¬ current.sha256Hash ≠ pending.sha256Hash := by
    rw [hhash, (toTufTarget_fields hpending).2.1]
    exact fun h => h rfl
  unfold completeInstall
  rw [get_bind, h.inProgress]
  rw [if_neg (by decide), orThrow_bind hpending, bind_of_ok hcompletes, hbad,
    if_neg Bool.false_ne_true, get_bind, orThrow_bind hcurrent, if_neg hsame]

theorem rollBackApps_of_found (h : AppsFail St styled cfg env w u t) :
    rollBackApps St styled cfg env u =
      (do
        match ← installer St styled cfg (.ofTarget t) env.installer with
        | none => return .unknownError
        | some context =>
          let rir ← contextInstall St styled cfg context env.install
          return .ofRollback rir.status : M Db StatusCode) u := by
  unfold rollBackApps
  rw [get_bind, orThrow_bind h.found, h.known, if_neg Bool.false_ne_true]

theorem StatusCode.ofRollback_ne (status : InstallStatus) :
    StatusCode.ofRollback status ≠ .unknownError := by
  cases status <;> decide

theorem finalizeRollsBack_iff_opens (h : AppsFail St styled cfg env w u t) :
    FinalizeRollsBack St styled cfg env w u t ↔
      ∃ context v, installer St styled cfg (.ofTarget t) env.installer u =
        .ok (some context) v := by
  constructor
  · intro hrolls
    obtain ⟨⟨context, v, hopens, _⟩, _⟩ := hrolls
    exact ⟨context, v, hopens⟩
  · intro hopens
    obtain ⟨context, v, hopens⟩ := hopens
    have hruns : completeInstall St styled cfg env w =
        (do
          let rir ← contextInstall St styled cfg context env.install
          return .ofRollback rir.status : M Db StatusCode) v := by
      rw [completeInstall_of_fail h, rollBackApps_of_found h, bind_of_ok hopens]
    refine ⟨⟨context, v, hopens, (installer_run hopens).2 context rfl, hruns⟩, ?_⟩
    intro code w' hcode
    rw [hruns] at hcode
    have hne : wp (do
        let rir ← contextInstall St styled cfg context env.install
        return .ofRollback rir.status : M Db StatusCode)
        (fun code _ => code ≠ .unknownError) (fun _ _ => True) v := by
      rw [wp_bind]
      exact wp_of_run (fun _ _ _ => StatusCode.ofRollback_ne _) (fun _ _ _ => trivial)
    exact wp_ok (Q := fun code _ => code ≠ .unknownError) hne hcode

/-- The installer of an online update, by whether its target has to be a TUF target. -/
theorem installer_online_iff {args : InstallerArgs} {ienv : InstallerEnv}
    (honline : args.isLocal = false) (hid : args.correlationId = "") :
    (∃ context v, installer St styled cfg args ienv w = .ok (some context) v) ↔
      InstallerReady cfg ienv args.target ∧
        (InTuf ienv args.target ∨ NotInTuf ienv args.target ∧
          (args.requireInTuf = false ∨ (fromTufTarget args.target).isInitial = true) ∧
          wasTargetInstalled St (fromTufTarget args.target) w.db = true) ∧
        (args.areAppsChecked = true ∨ ∃ t', toTufTarget (fromTufTarget args.target) = .ok t' ∧
          checkReturns St styled cfg ienv.check t' w = true) := by
  rw [installer_isSome_iff, isTrusted_iff, Opens, SourceOpens, honline, hid]
  constructor
  · intro hall
    obtain ⟨hro, ⟨hmeta, targets, htargets, hfound⟩, hfits, hchecked, _⟩ := hall
    refine ⟨⟨hro, hmeta, hfits⟩, ?_, hchecked⟩
    rcases hfound with ⟨tt, hfound⟩ | ⟨hfound, hlogged⟩
    · exact .inl ⟨targets, tt, htargets, hfound⟩
    · exact .inr ⟨⟨targets, htargets, hfound⟩, hlogged⟩
  · intro hall
    obtain ⟨⟨hro, hmeta, hfits⟩, hfound, hchecked⟩ := hall
    refine ⟨hro, ⟨hmeta, ?_⟩, hfits, hchecked, fun h => by cases h⟩
    rcases hfound with ⟨targets, tt, htargets, hfound⟩ | ⟨⟨targets, htargets, hfound⟩, hlogged⟩
    · exact ⟨targets, htargets, .inl ⟨tt, hfound⟩⟩
    · exact ⟨targets, htargets, .inr ⟨hfound, hlogged⟩⟩

/-- The daemon's rollback is to the same target. -/
theorem selected_of_updateRollback {ci : CheckInResult} {args : SelectArgs} {check : CheckEnv}
    {r : SelectResult} {v : World Db}
    (h : getTargetToInstall St styled cfg ci args check u = .ok r v)
    (hstatus : r.status = .updateRollback) :
    toTufTarget (getRollbackTarget St true u.db) = .ok r.selected := by
  obtain ⟨plan, hplan, hr⟩ := wp_ok wp_getTargetToInstall h
  cases planned_of_planTarget hplan with
  | badCheckIn =>
    cases hr
    cases hstatus
  | notFound =>
    cases hr
    cases hstatus
  | downgrade =>
    cases hr
    cases hstatus
  | noRollbackTarget =>
    cases hr
    cases hstatus
  | badRollbackTarget =>
    cases hr
    cases hstatus
  | @update _ _ _ rollbackOperation _ _ hchosen =>
    obtain ⟨rfl, hr⟩ := hr
    cases rollbackOperation with
    | true => exact (chooseCandidate_rollback hchosen).2.1
    | false =>
      rw [hstatus] at hr
      cases hr
  | sync =>
    rcases hr with ⟨hr, _⟩ | ⟨hr, _⟩
    · rw [hstatus] at hr
      cases hr
    · rw [hstatus] at hr
      cases hoffline : args.offlineMode <;> rw [hoffline] at hr <;> cases hr

theorem isTrusted_eq_false {ienv : InstallerEnv} {db : Db} :
    isTrusted St ienv t false true db = .ok false ↔
      ienv.checkMeta = .ok () ∧ NotInTuf ienv t ∧
        ¬ ((fromTufTarget t).isInitial = true ∧
          wasTargetInstalled St (fromTufTarget t) db = true) := by
  unfold isTrusted NotInTuf
  rw [bind_eq_ok]
  simp only [bind_eq_ok]
  constructor
  · intro h
    obtain ⟨_, hmeta, targets, htargets, found, hfound, h⟩ := h
    cases found with
    | some tt => cases h
    | none =>
      refine ⟨hmeta, ⟨targets, htargets, hfound⟩, ?_⟩
      simpa using Except.ok.inj h
  · intro h
    obtain ⟨hmeta, ⟨targets, htargets, hfound⟩, hnot⟩ := h
    refine ⟨(), hmeta, targets, htargets, none, hfound, ?_⟩
    exact congrArg Except.ok (by simpa using hnot)

/-- The installer of an online update gives none only to a target that is not trusted. -/
theorem wp_installer_isNone {args : InstallerArgs} {ienv : InstallerEnv}
    (honline : args.isLocal = false) :
    wp (installer St styled cfg args ienv)
      (fun context? _ => context? = none ↔ cfg.readOnly = false ∧
        isTrusted St ienv args.target args.isLocal args.requireInTuf w.db = .ok false)
      (fun _ _ => ¬ (cfg.readOnly = false ∧
        isTrusted St ienv args.target args.isLocal args.requireInTuf w.db = .ok false)) w := by
  unfold installer
  cases hro : cfg.readOnly with
  | true => simp
  | false =>
    simp only [Bool.false_eq_true, if_false, wp_bind, wp_get, wp_orThrow, true_and]
    cases isTrusted St ienv args.target args.isLocal args.requireInTuf w.db with
    | error e => simp
    | ok trusted =>
      cases trusted with
      | false => simp
      | true =>
        have hopen : ∀ target reason (v : World Db), wp (openContext cfg args ienv target reason)
            (fun context? _ => context? = none ↔ False) (fun _ _ => True) v := by
          intro target reason v
          simp [openContext, honline]
        simp only [Bool.not_true, Bool.false_eq_true, if_false, Except.ok.injEq, reduceCtorEq,
          not_false_eq_true]
        rw [wp_ite]
        split
        · trivial
        · rw [wp_ite]
          split
          · exact hopen _ _ _
          · rw [wp_bind, wp_orThrow]
            split
            · rw [wp_bind]
              exact wp_of_run (fun _ _ _ => hopen _ _ _) (fun _ _ _ => trivial)
            · trivial

theorem unknownError_iff (h : AppsFail St styled cfg env w u t) :
    (∃ w', completeInstall St styled cfg env w = .ok .unknownError w') ↔
      cfg.readOnly = false ∧ env.installer.checkMeta = .ok () ∧ NotInTuf env.installer t ∧
        ¬ ((fromTufTarget t).isInitial = true ∧
          wasTargetInstalled St (fromTufTarget t) u.db = true) := by
  rw [← isTrusted_eq_false, completeInstall_of_fail h, rollBackApps_of_found h]
  have hcode : wp (do
      match ← installer St styled cfg (.ofTarget t) env.installer with
      | none => return .unknownError
      | some context =>
        let rir ← contextInstall St styled cfg context env.install
        return .ofRollback rir.status : M Db StatusCode)
      (fun code _ => code = .unknownError ↔ cfg.readOnly = false ∧
        isTrusted St env.installer t false true u.db = .ok false)
      (fun _ _ => ¬ (cfg.readOnly = false ∧
        isTrusted St env.installer t false true u.db = .ok false)) u := by
    rw [wp_bind]
    refine wp_mono (wp_installer_isNone rfl) (fun context? v hnone => ?_) (fun _ _ h => h)
    cases context? with
    | none => exact iff_of_true rfl (hnone.mp rfl)
    | some context =>
      have hno : ¬ (cfg.readOnly = false ∧
          isTrusted St env.installer t false true u.db = .ok false) := fun h => by
        cases hnone.mpr h
      dsimp only
      rw [wp_bind]
      exact wp_of_run (fun _ _ _ => iff_of_false (StatusCode.ofRollback_ne _) hno)
        (fun _ _ _ => hno)
  rw [← exists_ok_iff hcode]
  constructor
  · intro hrun
    obtain ⟨w', hrun⟩ := hrun
    exact ⟨_, w', hrun, rfl⟩
  · intro hrun
    obtain ⟨_, w', hrun, rfl⟩ := hrun
    exact ⟨w', hrun⟩

end Proofs

/-- The command installs the rollback target exactly if it is a TUF target, or the initial
target and installed before, and nothing else is in the way.  It ends with an unknown error
exactly if the target is no TUF target.  The daemon, which rolls back to the same target,
needs only that the target was installed before. -/
theorem finalize_rolls_back_iff {Db : Type} (St : Storage Db) (styled : Json → String)
    (cfg : Config) (env : CompleteInstallEnv) (w u : World Db) (t : TufTarget)
    (h : AppsFail St styled cfg env w u t) :
    (FinalizeRollsBack St styled cfg env w u t ↔
      InstallerReady cfg env.installer t ∧
        (InTuf env.installer t ∨ NotInTuf env.installer t ∧
          (fromTufTarget t).isInitial = true ∧
          wasTargetInstalled St (fromTufTarget t) u.db = true) ∧
        checkReturns St styled cfg env.installer.check t u = true) ∧
    ((∃ w', completeInstall St styled cfg env w = .ok .unknownError w') ↔
      cfg.readOnly = false ∧ env.installer.checkMeta = .ok () ∧ NotInTuf env.installer t ∧
        ¬ ((fromTufTarget t).isInitial = true ∧
          wasTargetInstalled St (fromTufTarget t) u.db = true)) ∧
    ∀ ci autoDowngrade check r v ienv,
      getTargetToInstall St styled cfg ci (.daemon autoDowngrade) check u = .ok r v →
      r.status = .updateRollback →
      r.selected = t ∧
        ((∃ context v', installer St styled cfg (PullArgs.daemon r).installer ienv v =
            .ok (some context) v') ↔
          InstallerReady cfg ienv t ∧
            (InTuf ienv t ∨ NotInTuf ienv t ∧
              wasTargetInstalled St (fromTufTarget t) u.db = true)) := by
  refine ⟨?_, unknownError_iff h, ?_⟩
  · have htuf := toTufTarget_fromTufTarget h.found
    rw [finalizeRollsBack_iff_opens h, installer_online_iff rfl rfl]
    simp [InstallerArgs.ofTarget, htuf]
  · intro ci autoDowngrade check r v ienv hselect hstatus
    have hsame : r.selected = t :=
      Except.ok.inj ((selected_of_updateRollback hselect hstatus).symm.trans h.found)
    refine ⟨hsame, ?_⟩
    have hdb : v.db = u.db := (getTargetToInstall_frame hselect).1
    rw [installer_online_iff rfl rfl]
    simp [PullArgs.daemon, PullArgs.installer, hsame, hstatus, hdb]

/-! ## A rollback after an update -/

def previousVersion : Target :=
  { nextTarget with filename := "board-lmp-1", sha256Hash := "aa", custom := webCustom "1" "web@1" }

def previousTuf : TufTarget :=
  { name := "board-lmp-1", sha256Hash := "aa", version := 1, custom := webCustom "1" "web@1" }

/-- The device has booted the next target, which is pending. -/
def bootedNext : World InstalledVersions :=
  .started { rows := [{ target := previousVersion, wasInstalled := true },
                      { target := nextTarget, wasInstalled := false }],
             current := some previousVersion, pending := some nextTarget }
    { booted := "bb", pending := "" }

/-- The app of the next target does not start. -/
def appExits : CompleteEnv :=
  { callback := .ok ()
    finalize := { FinalizeEnv.succeeds with
      engine := InstallEnv.succeeds.answering fun _ => .failed "exited with code 1" }
    writeCurrent := .ok (), notifyFinished := .ok () }

def finalizeAmong (tufTargets : List TufTarget) : CompleteInstallEnv :=
  { complete := appExits, sync := .allRunning, syncUuid := "u"
    installer := { checkMeta := .ok (), tufTargets := .ok tufTargets, uuid := "u",
                   check := .allRunning, openLocal := .ok () }
    install := .succeeds }

/-- The state after the failed finalization. -/
def failedNext : World InstalledVersions :=
  after (completeInstallation installedVersions (fun _ => "") deviceConfig appExits) bootedNext

theorem appsFail_next (tufTargets : List TufTarget) :
    AppsFail installedVersions (fun _ => "") deviceConfig (finalizeAmong tufTargets) bootedNext
      failedNext previousTuf :=
  ⟨rfl, ⟨_, _, rfl, rfl, rfl⟩, ⟨_, rfl, rfl⟩, rfl, rfl⟩

/-- A rollback target that is still among the TUF targets is installed. -/
theorem finalize_rolls_back_listed :
    FinalizeRollsBack installedVersions (fun _ => "") deviceConfig
      (finalizeAmong [previousTuf, nextTufTarget]) bootedNext failedNext previousTuf := by
  refine (finalize_rolls_back_iff installedVersions (fun _ => "") deviceConfig
    (finalizeAmong [previousTuf, nextTufTarget]) bootedNext failedNext previousTuf
    (appsFail_next _)).1.mpr ⟨⟨rfl, rfl, ?_⟩, .inl ⟨_, _, rfl, rfl⟩, ?_⟩
  · decide +kernel
  · decide +kernel

/-- The command gives up the rollback to a target that has left the TUF targets, and the
daemon does it. -/
theorem finalize_misses_rollback_target :
    AppsFail installedVersions (fun _ => "") deviceConfig (finalizeAmong [nextTufTarget]) bootedNext
        failedNext previousTuf ∧
      (∃ w', completeInstall installedVersions (fun _ => "") deviceConfig
        (finalizeAmong [nextTufTarget]) bootedNext = .ok .unknownError w') ∧
      ∃ r v, getTargetToInstall installedVersions (fun _ => "") deviceConfig nextCheckIn
          (.daemon false) .allRunning failedNext = .ok r v ∧
        r.status = .updateRollback ∧ r.selected = previousTuf ∧
        ∃ res v', pullAndInstall installedVersions (fun _ => "") deviceConfig (PullArgs.daemon r)
            (.succeeds [nextTufTarget]) v = .ok res v' ∧ res.status = .needsCompletion :=
  ⟨appsFail_next _, ⟨_, rfl⟩, _, _, rfl, rfl, rfl, _, _, rfl, rfl⟩

end Client
end AkLite
