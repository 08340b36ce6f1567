/-
What an installation does to the sysroot.

`wp_rootfsInstall` describes `rootfsInstall` to the package managers above it: for
which inputs the hash gets deployed, and which result codes go with a deployment and
which without.
-/
import AkLite.Boot.RootfsTreeManager

namespace AkLite
namespace Boot

open Lib

def OstreeOutcome.isDeployed : OstreeOutcome → Bool
  | .deployed _ => true
  | _ => false

section Inputs

variable (mode : RollbackMode) (updateBlock : Bool) (currentHash hash : String) (env : RootfsEnv)
  (r : Rootfs)

/-- The boot firmware check lets the installation go on. -/
def UpdateAllowed : Prop :=
  (currentHash != hash && isUpdateSupported mode) = true →
    (verifyBootloaderUpdate mode updateBlock env.commitFile r.boot).code = .kOk

/-- The library is asked for a deployment and makes it. -/
structure DeploysRootfs : Prop where
  allowed : UpdateAllowed mode updateBlock currentHash hash env r
  needed : deploymentNeeded currentHash hash r.sys.pending = true
  notified : (env.updateNotify r.boot).isOk = true
  deployed : env.ostree.isDeployed = true

/-- The notifications before and after the deployment do not throw. -/
def Notified : Prop :=
  ∃ b b', env.updateNotify r.boot = .ok b ∧ installNotify mode env.deployments hash b = .ok b'

/-- The library reports success and has deployed nothing. -/
def SucceedsUndeployed : Prop :=
  UpdateAllowed mode updateBlock currentHash hash env r ∧ Notified mode hash env r ∧
    ∃ result h, env.ostree = .refused result h ∧ result.code = .kOk

/-- The exits of an installation that has deployed the hash, by whether it returns. -/
def Deployed (returned : Option InstallationResult) (r' : Rootfs) : Prop :=
  DeploysRootfs mode updateBlock currentHash hash env r ∧ r'.sys = r.sys.deploy hash ∧
    match returned with
    | some res =>
      Notified mode hash env r ∧ res.code = if currentHash = hash then .kOk else .kNeedCompletion
    | none => currentHash ≠ hash → ¬ Notified mode hash env r

/-- The exits of one that has not. -/
def Undeployed (returned : Option InstallationResult) (r' : Rootfs) : Prop :=
  ¬ DeploysRootfs mode updateBlock currentHash hash env r ∧ r'.sys = r.sys ∧
    match returned with
    | some res =>
      (currentHash = hash → res.code ≠ .kNeedCompletion) ∧
        (currentHash ≠ hash →
          (res.code = .kOk ↔ SucceedsUndeployed mode updateBlock currentHash hash env r))
    | none => ¬ SucceedsUndeployed mode updateBlock currentHash hash env r

def InstallExit (returned : Option InstallationResult) (r' : Rootfs) : Prop :=
  Deployed mode updateBlock currentHash hash env r returned r' ∨
    Undeployed mode updateBlock currentHash hash env r returned r'

end Inputs

section Proofs

variable {mode : RollbackMode} {updateBlock : Bool} {currentHash hash : String} {env : RootfsEnv}
  {r : Rootfs}

theorem notified_iff {b : BootEnv} (hu : env.updateNotify r.boot = .ok b) :
    Notified mode hash env r ↔ ∃ b', installNotify mode env.deployments hash b = .ok b' := by
  simp [Notified, hu]

theorem not_deploysRootfs (ho : env.ostree.isDeployed = false) :
    ¬ DeploysRootfs mode updateBlock currentHash hash env r := fun h => by
  have hd := h.deployed
  rw [ho] at hd
  cases hd

theorem succeedsUndeployed_iff (hallowed : UpdateAllowed mode updateBlock currentHash hash env r)
    {result : InstallationResult} {hcode : result.code ≠ .kNeedCompletion}
    (ho : env.ostree = .refused result hcode) :
    SucceedsUndeployed mode updateBlock currentHash hash env r ↔
      Notified mode hash env r ∧ result.code = .kOk := by
  constructor
  · rintro ⟨_, hn, result', h', hr, hok⟩
    rw [ho] at hr
    cases hr
    exact ⟨hn, hok⟩
  · rintro ⟨hn, hok⟩
    exact ⟨hallowed, hn, result, hcode, ho, hok⟩

/-- An exit that neither deploys nor gets an answer from the library. -/
theorem installExit_none {r' : Rootfs} (hr' : r'.sys = r.sys)
    (hdeploys : ¬ DeploysRootfs mode updateBlock currentHash hash env r)
    (hsucceeds : Notified mode hash env r → ∀ result h, env.ostree ≠ .refused result h) :
    InstallExit mode updateBlock currentHash hash env r none r' := by
  refine .inr ⟨hdeploys, hr', ?_⟩
  rintro ⟨_, hn, result, h, hr, _⟩
  exact hsucceeds hn result h hr

theorem wp_deploy (hallowed : UpdateAllowed mode updateBlock currentHash hash env r)
    (hneeded : deploymentNeeded currentHash hash r.sys.pending = true) :
    wp (deploy mode currentHash hash env)
      (fun res => InstallExit mode updateBlock currentHash hash env r (some res))
      (fun _ => InstallExit mode updateBlock currentHash hash env r none) r := by
  rw [deploy, wp_bind, wp_changeBoot]
  cases hu : env.updateNotify r.boot with
  | error what =>
    refine installExit_none rfl (fun h => ?_) ?_
    · have hn := h.notified
      rw [hu] at hn
      cases hn
    · rintro ⟨b, b', hb, _⟩
      rw [hu] at hb
      cases hb
  | ok b =>
    have hnotified := @notified_iff mode hash env r b hu
    dsimp only
    rw [wp_bind]
    cases ho : env.ostree with
    | throws what =>
      refine installExit_none rfl (not_deploysRootfs (by rw [ho]; rfl)) fun _ result h hr => ?_
      rw [ho] at hr
      cases hr
    | refused result hcode =>
      have hno : ¬ DeploysRootfs mode updateBlock currentHash hash env r :=
        not_deploysRootfs (by rw [ho]; rfl)
      have hundeployed := succeedsUndeployed_iff hallowed ho
      rw [hnotified] at hundeployed
      rw [ostreeInstall, wp_pure]
      by_cases hfailed : result.code = .kInstallFailed
      · simp only [if_pos hfailed, wp_pure]
        refine .inr ⟨hno, rfl, fun _ => hcode, fun _ => ?_⟩
        simp [hundeployed, hfailed]
      · simp only [if_neg hfailed, wp_bind, wp_changeBoot]
        cases hn : installNotify mode env.deployments hash b with
        | error what =>
          refine .inr ⟨hno, rfl, fun h => ?_⟩
          rw [hundeployed, hn] at h
          obtain ⟨⟨b', hb'⟩, _⟩ := h
          cases hb'
        | ok b' =>
          have hdrop : ¬ (currentHash = hash ∧ result.code = .kNeedCompletion) :=
            fun h => hcode h.2
          simp only [if_neg hdrop, wp_pure]
          refine .inr ⟨hno, rfl, fun _ => hcode, fun _ => ?_⟩
          simp [hundeployed, hn]
    | deployed description =>
      have hyes : DeploysRootfs mode updateBlock currentHash hash env r :=
        ⟨hallowed, hneeded, by rw [hu]; rfl, by rw [ho]; rfl⟩
      simp only [ostreeInstall, wp_bind, wp_modify, wp_pure, reduceCtorEq, if_false, wp_changeBoot]
      cases hn : installNotify mode env.deployments hash b with
      | error what =>
        refine .inl ⟨hyes, rfl, fun _ h => ?_⟩
        obtain ⟨b', hb'⟩ := hnotified.mp h
        rw [hn] at hb'
        cases hb'
      | ok b' =>
        have hnotified' : Notified mode hash env r := hnotified.mpr ⟨b', hn⟩
        dsimp only
        by_cases hsame : currentHash = hash
        · simp only [hsame, and_self, if_true, wp_bind, wp_changeBoot]
          cases env.updateNotify b' with
          | error what => exact .inl ⟨hsame ▸ hyes, rfl, fun h => absurd rfl h⟩
          | ok b'' => exact .inl ⟨hsame ▸ hyes, rfl, hnotified', by simp [alreadyInstalled]⟩
        · simp only [hsame, false_and, if_false, wp_pure]
          exact .inl ⟨hyes, rfl, hnotified', by rw [if_neg hsame]⟩

theorem wp_rootfsInstall :
    wp (rootfsInstall mode updateBlock currentHash hash env)
      (fun res => InstallExit mode updateBlock currentHash hash env r (some res))
      (fun _ => InstallExit mode updateBlock currentHash hash env r none) r := by
  rw [rootfsInstall, wp_bind, wp_get]
  dsimp only
  rw [wp_ite]
  split
  · next hblocked =>
    simp only [Bool.and_eq_true, bne_iff_ne, ne_eq] at hblocked
    have hno : ¬ UpdateAllowed mode updateBlock currentHash hash env r := fun h =>
      hblocked.2 (h (by simpa using hblocked.1))
    refine .inr ⟨fun h => hno h.allowed, rfl, fun h => absurd h hblocked.1.1, fun _ => ?_⟩
    exact iff_of_false hblocked.2 fun h => hno h.1
  · next hallowed =>
    have hallowed' : UpdateAllowed mode updateBlock currentHash hash env r := fun h => by
      simpa [h] using hallowed
    rw [wp_ite]
    split
    · next hneeded => exact wp_deploy hallowed' hneeded
    · next hneeded =>
      have hsame : currentHash = hash := by
        simp only [deploymentNeeded, Bool.or_eq_true, bne_iff_ne, not_or, not_not] at hneeded
        exact hneeded.1
      refine .inr ⟨fun h => hneeded h.needed, rfl, fun _ => by decide, fun h => absurd hsame h⟩

end Proofs

end Boot
end AkLite
