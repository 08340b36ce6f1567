/-
When an installation triggers the boot firmware upgrade.

With rollback protection on, `verifyBootloaderUpdate` refuses a target whose commit
has a lower firmware version, and `installNotify` relies on it: it triggers the
upgrade whenever the deployed version is another text than the current one.  The
two look at different files and compare in different ways, and the check is not
made at all when the current hash is deployed again to drop a pending target.
`undeploying_triggers_downgrade` is that case, and `upgrade_sound_iff` says for which
inputs the upgrade is triggered for a greater version only.
-/
import AkLite.Boot.RootfsTreeManager

namespace AkLite
namespace Boot

open Lib

/-- The firmware version of a target's commit as a number. -/
def targetVersionNumber (commitFile : Except String String) : Option Nat :=
  match getTargetVersion commitFile with
  | .text version => lexicalCast version
  | _ => none

/-- The library's notification sets variables of its own and leaves the firmware
version. -/
def KeepsVersion (updateNotify : BootEnv → Except String BootEnv) : Prop :=
  ∀ b b', updateNotify b = .ok b' →
    b'.vars "bootfirmware_version" = b.vars "bootfirmware_version" ∧
      b'.settable = b.settable ∧ b'.sets = b.sets

def OstreeOutcome.accepted : OstreeOutcome → Bool
  | .deployed _ => true
  | .refused result _ => result.code != .kInstallFailed
  | .throws _ => false

section Inputs

variable (mode : RollbackMode) (updateBlock : Bool) (currentHash hash : String) (env : RootfsEnv)
  (r : Rootfs)

/-- The installation gets as far as telling the bootloader about the deployment. -/
def Notifies : Prop :=
  deploymentNeeded currentHash hash r.sys.pending = true ∧
    (currentHash ≠ hash →
      (verifyBootloaderUpdate mode updateBlock env.commitFile r.boot).code = .kOk) ∧
    (env.updateNotify r.boot).isOk = true ∧ env.ostree.accepted = true

/-- The deployed version is known, it is another text than the current version, and
the upgrade can be triggered. -/
def WantsUpgrade (current : String) : Prop :=
  getVersion env.deployments hash ≠ "" ∧ getVersion env.deployments hash ≠ current ∧
    r.boot.settable = true

/-- The condition on the inputs: an upgrade that is triggered is one of a readable
commit, to a greater version if the current hash is deployed again, and not to an
equal version otherwise. -/
def UpgradeSound (current : String) (currentNumber : Nat) : Prop :=
  Notifies mode updateBlock currentHash hash env r → WantsUpgrade hash env r current →
    ∃ version, getTargetVersion env.commitFile = .text version ∧
      if currentHash = hash then ∃ n, lexicalCast version = some n ∧ currentNumber < n
      else lexicalCast version ≠ some currentNumber

end Inputs

section Proofs

variable {mode : RollbackMode} {updateBlock : Bool} {currentHash hash current : String}
  {currentNumber : Nat} {env : RootfsEnv} {r : Rootfs}

theorem setEnvCmd_ne (h : isUpdateSupported mode = true) : mode.setEnvCmd ≠ "" := by
  cases mode <;> revert h <;> decide

theorem flagged_setEnvVar (h : isUpdateSupported mode = true) {b : BootEnv} {vars : String}
    (hb : b.flagged = false) :
    (setEnvVar mode vars "bootupgrade_available" "1" b).flagged = b.settable := by
  cases hs : b.settable with
  | true =>
    rw [setEnvVar, if_neg (by simp [setEnvCmd_ne h, hs])]
    simp [BootEnv.flagged]
  | false =>
    rw [setEnvVar, if_pos (.inr hs)]
    exact hb

/-- The notification sets the flag exactly when the upgrade is wanted. -/
theorem flagged_notifyVersion (h : isUpdateSupported mode = true) {b : BootEnv} {vars : String}
    (hb : b.flagged = false) (hcur : getCurrentVersion mode b = some current)
    (hset : b.settable = r.boot.settable) :
    (notifyVersion mode vars env.deployments hash b).flagged = true ↔
      WantsUpgrade hash env r current := by
  unfold notifyVersion WantsUpgrade
  rw [hcur, ← hset]
  by_cases hv : getVersion env.deployments hash = ""
  · simp [hv, hb]
  · by_cases hc : getVersion env.deployments hash = current
    · simp [hv, hc.symm, hb]
    · have hc' : some current ≠ some (getVersion env.deployments hash) := by
        simpa using Ne.symm hc
      simp only [if_neg hv, if_neg hc', flagged_setEnvVar h hb]
      simp [hv, hc]

/-- A listing that fails is a version that is not known, so an exception of the
notification loses no upgrade. -/
theorem installNotify_cases (h : isUpdateSupported mode = true) (b : BootEnv) :
    (∃ vars, installNotify mode env.deployments hash b =
      .ok (notifyVersion mode vars env.deployments hash b)) ∨
    ((∃ what, installNotify mode env.deployments hash b = .error what) ∧
      getVersion env.deployments hash = "") := by
  cases mode with
  | kBootloaderNone => exact absurd h (by decide)
  | kUbootGeneric => exact absurd h (by decide)
  | kUbootMasked => exact .inl ⟨_, rfl⟩
  | kFioVB => exact .inl ⟨_, rfl⟩
  | kFioEFI =>
    cases hdir : getTargetDir env.deployments hash with
    | ok dir =>
      refine .inl ⟨ostreeTargetPathVar ++ "=" ++ (dir.map DeployEntry.path).getD "", ?_⟩
      simp [installNotify, hdir, bind, Except.bind, pure, Except.pure]
    | error what =>
      refine .inr ⟨⟨what, ?_⟩, ?_⟩
      · simp [installNotify, hdir, bind, Except.bind]
      · simp [getVersion, hdir]

theorem getCurrentVersion_congr {b b' : BootEnv}
    (h : b'.vars "bootfirmware_version" = b.vars "bootfirmware_version") :
    getCurrentVersion mode b' = getCurrentVersion mode b := by
  simp only [getCurrentVersion, getEnvVar, h]

theorem flagged_congr {b b' : BootEnv} (h : b'.sets = b.sets) : b'.flagged = b.flagged := by
  simp only [BootEnv.flagged, h]

variable (hash) in
/-- The end of a deployment: the bootloader is told, and told again if nothing is
pending any more. -/
theorem flagged_notify (h : isUpdateSupported mode = true) (hkeep : KeepsVersion env.updateNotify)
    {t : Rootfs} (ht : t.boot.flagged = false)
    (hcur : getCurrentVersion mode t.boot = some current)
    (hset : t.boot.settable = r.boot.settable) {c : Prop} [Decidable c]
    {x y : InstallationResult} :
    wp (do
        changeBoot (installNotify mode env.deployments hash)
        if c then
          changeBoot env.updateNotify
          return x
        return y)
      (fun _ u => u.boot.flagged = true ↔ WantsUpgrade hash env r current)
      (fun _ u => u.boot.flagged = true ↔ WantsUpgrade hash env r current) t := by
  rw [wp_bind, wp_changeBoot]
  rcases installNotify_cases h t.boot with ⟨vars, hn⟩ | ⟨⟨what, hn⟩, hv⟩
  · have hflag : (notifyVersion mode vars env.deployments hash t.boot).flagged = true ↔
        WantsUpgrade hash env r current := flagged_notifyVersion h ht hcur hset
    rw [hn]
    by_cases hc : c
    · simp only [hc, if_true, wp_bind, wp_changeBoot]
      cases hu : env.updateNotify (notifyVersion mode vars env.deployments hash t.boot) with
      | error what => exact hflag
      | ok b =>
        dsimp only
        rw [wp_pure, flagged_congr (hkeep _ _ hu).2.2]
        exact hflag
    · simp only [hc, if_false, wp_pure]
      exact hflag
  · rw [hn]
    simp [ht, WantsUpgrade, hv]

theorem flagged_deploy (h : isUpdateSupported mode = true) (hkeep : KeepsVersion env.updateNotify)
    (hr : r.boot.sets = []) (hcur : getCurrentVersion mode r.boot = some current) :
    wp (deploy mode currentHash hash env)
      (fun _ u => u.boot.flagged = true ↔ (env.updateNotify r.boot).isOk = true ∧
        env.ostree.accepted = true ∧ WantsUpgrade hash env r current)
      (fun _ u => u.boot.flagged = true ↔ (env.updateNotify r.boot).isOk = true ∧
        env.ostree.accepted = true ∧ WantsUpgrade hash env r current) r := by
  have hfalse : r.boot.flagged = false := by simp [BootEnv.flagged, hr]
  rw [deploy, wp_bind, wp_changeBoot]
  cases hu : env.updateNotify r.boot with
  | error what => simp [hfalse, Except.isOk, Except.toBool]
  | ok b =>
    obtain ⟨hv, hset, hsets⟩ := hkeep _ _ hu
    have hb : b.flagged = false := by rw [flagged_congr hsets, hfalse]
    have hbcur : getCurrentVersion mode b = some current := by
      rw [getCurrentVersion_congr hv, hcur]
    have hnotify := fun (sys : Sysroot) (c : Prop) [Decidable c] (x y : InstallationResult) =>
      flagged_notify hash (t := { boot := b, sys := sys }) (r := r) (c := c) (x := x) (y := y) h
        hkeep hb hbcur hset
    dsimp only
    rw [wp_bind]
    cases ho : env.ostree with
    | throws what => simp [ostreeInstall, hb, OstreeOutcome.accepted]
    | deployed description =>
      simp only [ostreeInstall, wp_bind (x := modify _), wp_modify, wp_pure, reduceCtorEq, if_false,
        Except.isOk, Except.toBool, OstreeOutcome.accepted, true_and]
      exact hnotify _ _ _ _
    | refused result hne =>
      simp only [ostreeInstall, wp_pure]
      by_cases hfail : result.code = .kInstallFailed
      · simp [hfail, hb, OstreeOutcome.accepted]
      · have haccepted : (result.code != .kInstallFailed) = true := by simpa using hfail
        simp only [hfail, if_false, Except.isOk, Except.toBool, OstreeOutcome.accepted, haccepted,
          true_and]
        exact hnotify _ _ _ _

/-- The upgrade is triggered exactly when it is wanted and the bootloader is told. -/
theorem flagged_rootfsInstall (h : isUpdateSupported mode = true)
    (hkeep : KeepsVersion env.updateNotify) (hr : r.boot.sets = [])
    (hcur : getCurrentVersion mode r.boot = some current) :
    (after (rootfsInstall mode updateBlock currentHash hash env) r).boot.flagged = true ↔
      Notifies mode updateBlock currentHash hash env r ∧ WantsUpgrade hash env r current := by
  have hfalse : r.boot.flagged = false := by simp [BootEnv.flagged, hr]
  refine after_of_wp (P := fun t : Rootfs => t.boot.flagged = true ↔ _) ?_
  rw [rootfsInstall, wp_bind, wp_get]
  by_cases hverify : currentHash ≠ hash →
      (verifyBootloaderUpdate mode updateBlock env.commitFile r.boot).code = .kOk
  · rw [wp_ite, if_neg (by simpa [h] using hverify), wp_ite]
    by_cases hneed : deploymentNeeded currentHash hash r.sys.pending = true
    · rw [if_pos hneed]
      have hnotifies : Notifies mode updateBlock currentHash hash env r ↔
          (env.updateNotify r.boot).isOk = true ∧ env.ostree.accepted = true :=
        ⟨fun hn => hn.2.2, fun hn => ⟨hneed, hverify, hn⟩⟩
      simp only [hnotifies, and_assoc]
      exact flagged_deploy h hkeep hr hcur
    · rw [if_neg hneed]
      simp [hfalse, Notifies, hneed]
  · rw [wp_ite, if_pos (by simpa [h] using hverify)]
    have hno : ¬ Notifies mode updateBlock currentHash hash env r := fun hn => hverify hn.2.1
    simp [hfalse, hno]

/-- With the protection on, a target passes the check with an unreadable version, or
with one that is not lower. -/
theorem version_of_verified (hprot : isRollbackProtectionEnabled mode r.boot = true)
    (hcur : getCurrentVersion mode r.boot = some current)
    (hnum : lexicalCast current = some currentNumber)
    (hok : (verifyBootloaderUpdate mode updateBlock env.commitFile r.boot).code = .kOk) :
    (∃ what, getTargetVersion env.commitFile = .unreadable what) ∨
      ∃ version n, getTargetVersion env.commitFile = .text version ∧
        lexicalCast version = some n ∧ currentNumber ≤ n := by
  have hnumber : currentVersionNumber mode r.boot = currentNumber := by
    rw [currentVersionNumber, hcur, Option.getD_some, hnum, Option.getD_some]
  unfold verifyBootloaderUpdate at hok
  rw [hprot] at hok
  by_cases hblock : (updateBlock && isUpdateInProgress mode r.boot) = true
  · rw [if_pos hblock] at hok
    exact absurd hok (by decide)
  · rw [if_neg hblock, if_neg (by decide)] at hok
    cases hversion : getTargetVersion env.commitFile with
    | malformed what => simp [hversion] at hok
    | unreadable what => exact .inl ⟨what, rfl⟩
    | text version =>
      rw [hversion] at hok
      cases hcast : lexicalCast version with
      | none => simp [hcast] at hok
      | some n =>
        refine .inr ⟨version, n, rfl, hcast, ?_⟩
        by_cases hlow : n < currentNumber
        · simp [hcast, hnumber, hlow] at hok
        · omega

theorem targetVersionNumber_text {version : String}
    (h : getTargetVersion env.commitFile = .text version) :
    targetVersionNumber env.commitFile = lexicalCast version := by
  rw [targetVersionNumber, h]

/-- A version that is a number is that of a version line. -/
theorem text_of_targetVersionNumber {n : Nat} (h : targetVersionNumber env.commitFile = some n) :
    ∃ version, getTargetVersion env.commitFile = .text version ∧ lexicalCast version = some n := by
  unfold targetVersionNumber at h
  cases hversion : getTargetVersion env.commitFile with
  | malformed what => simp [hversion] at h
  | unreadable what => simp [hversion] at h
  | text version =>
    rw [hversion] at h
    exact ⟨version, rfl, h⟩

/-- With the protection on and a current version that is a number, an installation
triggers the upgrade for a greater version only, exactly for the inputs of
`UpgradeSound`. -/
theorem upgrade_sound_iff (hprot : isRollbackProtectionEnabled mode r.boot = true)
    (hcur : getCurrentVersion mode r.boot = some current)
    (hnum : lexicalCast current = some currentNumber) (hkeep : KeepsVersion env.updateNotify)
    (hr : r.boot.sets = []) :
    ((after (rootfsInstall mode updateBlock currentHash hash env) r).boot.flagged = true →
      ∃ n, targetVersionNumber env.commitFile = some n ∧ currentNumber < n) ↔
    UpgradeSound mode updateBlock currentHash hash env r current currentNumber := by
  have hsup : isUpdateSupported mode = true := by
    unfold isRollbackProtectionEnabled at hprot
    simp only [Bool.and_eq_true] at hprot
    exact hprot.1
  rw [flagged_rootfsInstall hsup hkeep hr hcur]
  constructor
  · intro h hnotifies hwants
    obtain ⟨n, hn, hlt⟩ := h ⟨hnotifies, hwants⟩
    obtain ⟨version, hversion, hcast⟩ := text_of_targetVersionNumber hn
    refine ⟨version, hversion, ?_⟩
    split
    · exact ⟨n, hcast, hlt⟩
    · rw [hcast]
      intro heq
      cases heq
      omega
  · rintro h ⟨hnotifies, hwants⟩
    obtain ⟨version, hversion, hnumber⟩ := h hnotifies hwants
    rw [targetVersionNumber_text hversion]
    split at hnumber
    · exact hnumber
    · next hne =>
      rcases version_of_verified hprot hcur hnum (hnotifies.2.1 hne) with ⟨what, hu⟩ | hverified
      · rw [hversion] at hu
        exact absurd hu (by simp)
      · obtain ⟨version', n, hv, hcast, hle⟩ := hverified
        rw [hversion] at hv
        cases hv
        refine ⟨n, hcast, ?_⟩
        have hneq : n ≠ currentNumber := fun heq => hnumber (by rw [hcast, heq])
        omega

end Proofs

/-! ## Dropping a pending target -/

/-- Rollback protection is on, and the device runs firmware 2. -/
def protectedBoot : BootEnv :=
  { vars := fun name =>
      if name = "rollback_protection" then some "1"
      else if name = "bootfirmware_version" then some "2" else none
    settable := true
    sets := [] }

def versionLine (n : String) : String := "bootfirmware_version=" ++ n ++ "\n"

/-- The commit and the deployment of a target with the given firmware version. -/
def deploysVersion (hash n : String) : RootfsEnv :=
  { commitFile := .ok (versionLine n)
    updateNotify := fun b => .ok b
    ostree := .deployed ""
    deployments := .ok [{ path := "/deploy/" ++ hash ++ ".0", isDirectory := true,
                          versionFile := some (versionLine n) }] }

theorem keepsVersion_deploysVersion (hash n : String) :
    KeepsVersion (deploysVersion hash n).updateNotify := by
  intro b b' h
  cases h
  exact ⟨rfl, rfl, rfl⟩

/-- An update to firmware 3 passes the check and is announced. -/
theorem upgrade_sound_update :
    (after (rootfsInstall .kFioVB true "aa" "bb" (deploysVersion "bb" "3"))
        { boot := protectedBoot, sys := { booted := "aa", pending := "" } }).boot.flagged = true ∧
      ∃ n, targetVersionNumber (deploysVersion "bb" "3").commitFile = some n ∧ 2 < n := by
  have hcur : getCurrentVersion .kFioVB protectedBoot = some "2" := by decide
  have hflagged : (after (rootfsInstall .kFioVB true "aa" "bb" (deploysVersion "bb" "3"))
      { boot := protectedBoot, sys := { booted := "aa", pending := "" } }).boot.flagged = true := by
    decide
  refine ⟨hflagged, (upgrade_sound_iff (by decide) hcur (by decide)
    (keepsVersion_deploysVersion "bb" "3") rfl).mpr ?_ hflagged⟩
  intro _ _
  exact ⟨"3", by decide, by decide⟩

/-- The device is booted on a target that comes with firmware 1, and another target
is pending.  Installing the booted target drops the pending one and triggers an
upgrade to firmware 1. -/
theorem undeploying_triggers_downgrade :
    ¬ ∀ (mode : RollbackMode) (updateBlock : Bool) (currentHash hash current : String)
        (currentNumber : Nat) (env : RootfsEnv) (r : Rootfs),
      isUpdateSupported mode = true → isRollbackProtectionEnabled mode r.boot = true →
      getCurrentVersion mode r.boot = some current → lexicalCast current = some currentNumber →
      KeepsVersion env.updateNotify → r.boot.sets = [] →
      (after (rootfsInstall mode updateBlock currentHash hash env) r).boot.flagged = true →
      ∃ n, targetVersionNumber env.commitFile = some n ∧ currentNumber < n := by
  intro h
  obtain ⟨n, hn, hlt⟩ := h .kFioVB true "aa" "aa" "2" 2 (deploysVersion "aa" "1")
    { boot := protectedBoot, sys := { booted := "aa", pending := "bb" } } (by decide) (by decide)
    (by decide) (by decide) (keepsVersion_deploysVersion "aa" "1") rfl (by decide)
  have hone : targetVersionNumber (deploysVersion "aa" "1").commitFile = some 1 := by decide
  rw [hone] at hn
  cases hn
  omega

end Boot
end AkLite
