/-
What one installation does to the sysroot and to the database.

The exits of `installPackage` are described by its inputs: whether the hash is
deployed (`Deploys`), and with which result code an installation ends that has
deployed a new hash (`deployedCode`).  The apps come after the deployment, so their
failures decide the code of a deployment that stays made.
-/
import AkLite.Boot.Deployment
import AkLite.Client.Checks

namespace AkLite
namespace Client

open Lib Boot

/-! ## Inputs that decide -/

/-- The result code after the apps: the last failure decides, and an exception ends the
loop. -/
def appsCode (env : InstallEnv) : List App → ResultCode → Except String ResultCode
  | [], code => .ok code
  | app :: rest, code => do
    match ← env.start app with
    | .ok => appsCode env rest code
    | .failed _ => appsCode env rest .kInstallFailed
    | .imagePullFailure _ => appsCode env rest .kDownloadFailed

section Inputs

variable {Db : Type} (cfg : Config) (env : InstallEnv) (mode : InstallMode) (target : Target)
  (w : World Db)

/-- The apps part of an installation that needs a reboot. -/
def createdCode : Except String ResultCode := do
  let code ←
    if cfg.createContainersBeforeReboot then
      appsCode env w.appsToFetchAndUpdate .kNeedCompletion
    else .ok .kNeedCompletion
  let _ ← env.runningInfo
  return code

/-- The result code of an installation that has deployed a new hash. -/
def deployedCode : ResultCode :=
  let code : Except String ResultCode := do
    let boot ← env.rootfs.updateNotify w.rootfs.boot
    let _ ← installNotify cfg.rollbackMode env.rootfs.deployments target.sha256Hash boot
    if cfg.pacman = .compose ∧ mode = .all then createdCode cfg env w
    else return .kNeedCompletion
  match code with
  | .ok code => code
  | .error _ => .kInstallFailed

/-- The apps that have to stop before the rootfs is installed do. -/
def StopsApps : Prop :=
  ∃ removed, removedApps cfg env.appsRoot target.custom = .ok removed ∧
    (∀ name ∈ removed, env.stop (name, "") = .ok ()) ∧
    (w.rootfs.sys.booted ≠ target.sha256Hash ∨ cfg.stopAppsBeforeUpdate = true →
      ∀ app ∈ w.appsToFetchAndUpdate, env.stop app = .ok ())

/-- The installation deploys the hash of the target. -/
def Deploys : Prop :=
  (∃ t, toTufTarget target = .ok t) ∧
    (cfg.pacman = .compose → mode = .all → StopsApps cfg env target w) ∧
    DeploysRootfs cfg.rollbackMode cfg.updateBlock w.rootfs.sys.booted target.sha256Hash
      env.rootfs w.rootfs

/-- The library reports success for a new hash that it has not deployed. -/
def ReportsUndeployed : Prop :=
  (∃ t, toTufTarget target = .ok t) ∧
    SucceedsUndeployed cfg.rollbackMode cfg.updateBlock w.rootfs.sys.booted target.sha256Hash
      env.rootfs w.rootfs

end Inputs

section Proofs

variable {Db : Type} {St : Storage Db} {styled : Json → String} {cfg : Config} {env : InstallEnv}
  {mode : InstallMode} {target : Target} {w : World Db}

/-! ## Apps -/

theorem wp_stopApps {apps : List App} {Q : Unit → World Db → Prop} {E : String → World Db → Prop}
    (hQ : (∀ app ∈ apps, env.stop app = .ok ()) → Q () (w.emitted (apps.map .stop)))
    (hE : ∀ e es, es ≠ [] → ¬ (∀ app ∈ apps, env.stop app = .ok ()) → E e (w.emitted es)) :
    wp (stopApps env apps) Q E w := by
  induction apps generalizing w with
  | nil => exact hQ (by simp)
  | cons app rest ih =>
    rw [stopApps, wp_bind, wp_emit, wp_bind, wp_orThrow]
    cases happ : env.stop app with
    | error e => exact hE e _ (List.cons_ne_nil _ _) (by simp [happ])
    | ok _ =>
      refine ih (fun h => ?_) (fun e es _ h => ?_)
      · rw [World.emitted_emitted]
        exact hQ (by simpa [happ] using h)
      · rw [World.emitted_emitted]
        exact hE e _ (List.cons_ne_nil _ _) (by simpa [happ] using h)

variable {apps : List App} {res : InstallationResult}

/-- Starting apps leaves the stores alone. -/
theorem wp_startApps {justInstall : Bool} :
    wp (startApps env justInstall apps res)
      (fun res' w' => appsCode env apps res.code = .ok res'.code ∧
        w'.db = w.db ∧ w'.rootfs = w.rootfs)
      (fun _ w' => (∃ e, appsCode env apps res.code = .error e) ∧
        w'.db = w.db ∧ w'.rootfs = w.rootfs) w := by
  induction apps generalizing res w with
  | nil => exact ⟨rfl, rfl, rfl⟩
  | cons app rest ih =>
    rw [startApps, wp_bind, wp_emit, wp_bind, wp_orThrow]
    cases happ : env.start app with
    | error e => exact ⟨⟨e, by simp [appsCode, happ, bind, Except.bind]⟩, rfl, rfl⟩
    | ok result =>
      cases result with
      | ok =>
        have hcode : appsCode env (app :: rest) res.code = appsCode env rest res.code := by
          simp [appsCode, happ, bind, Except.bind]
        rw [hcode]
        cases justInstall with
        | true => exact ih
        | false => exact ih
      | failed err =>
        have hcode : appsCode env (app :: rest) res.code = appsCode env rest .kInstallFailed := by
          simp [appsCode, happ, bind, Except.bind]
        rw [hcode]
        exact ih
      | imagePullFailure err =>
        have hcode : appsCode env (app :: rest) res.code = appsCode env rest .kDownloadFailed := by
          simp [appsCode, happ, bind, Except.bind]
        rw [hcode]
        exact ih

/-- The code is the one before the apps, or a failure. -/
theorem appsCode_cases {code code' : ResultCode} (h : appsCode env apps code = .ok code') :
    code' = code ∨ code' = .kInstallFailed ∨ code' = .kDownloadFailed := by
  induction apps generalizing code with
  | nil =>
    cases h
    exact .inl rfl
  | cons app rest ih =>
    rw [appsCode] at h
    obtain ⟨result, _, h⟩ := bind_eq_ok.mp h
    cases result with
    | ok => exact ih h
    | failed err => exact .inr (by simpa using ih h)
    | imagePullFailure err => exact .inr (by simpa [or_comm] using ih h)

/-! ## The part after the rootfs -/

/-- The two stores are as they were. -/
def SameStores (w w' : World Db) : Prop := w'.db = w.db ∧ w'.rootfs = w.rootfs

theorem wp_withRunningApps :
    wp (withRunningApps env res)
      (fun res' w' => res'.code = res.code ∧ (∃ info, env.runningInfo = .ok info) ∧ w' = w)
      (fun _ w' => (∃ e, env.runningInfo = .error e) ∧ w' = w) w := by
  rw [withRunningApps, wp_bind, wp_orThrow]
  cases env.runningInfo with
  | error e => exact ⟨⟨e, rfl⟩, rfl⟩
  | ok info => exact ⟨rfl, ⟨info, rfl⟩, rfl⟩

theorem wp_installApps :
    wp (installApps cfg env res)
      (fun r w' => SameStores w w' ∧
        (r.1.code = res.code ∨ r.1.code = .kInstallFailed ∨ r.1.code = .kDownloadFailed))
      (fun _ w' => SameStores w w') w := by
  unfold installApps
  dsimp only
  rw [wp_ite]
  split
  · rw [wp_bind, wp_get, wp_bind]
    exact wp_mono wp_startApps (fun _ _ h => ⟨h.2, appsCode_cases h.1⟩) (fun _ _ h => h.2)
  · exact ⟨⟨rfl, rfl⟩, .inl rfl⟩

/-- What follows the rootfs leaves the stores alone and does not ask for a reboot by
itself. -/
theorem wp_finishInstall :
    wp (finishInstall styled cfg env target res)
      (fun res' w' => SameStores w w' ∧
        (res.code ≠ .kNeedCompletion → res'.code ≠ .kNeedCompletion))
      (fun _ w' => SameStores w w') w := by
  rw [finishInstall, wp_bind]
  refine wp_mono wp_installApps (fun r u hu => ?_) (fun _ _ h => h)
  obtain ⟨hstores, hcode⟩ := hu
  have hend : ∀ u', SameStores u u' →
      wp (do
        modify fun w => { w with appsToFetchAndUpdate := [], appsToFetch := [] }
        withRunningApps env r.1)
      (fun res' w' => SameStores w w' ∧
        (res.code ≠ .kNeedCompletion → res'.code ≠ .kNeedCompletion))
      (fun _ w' => SameStores w w') u' := by
    intro u' hu'
    rw [wp_bind, wp_modify]
    refine wp_mono wp_withRunningApps (fun res' v hv => ?_) (fun _ v hv => ?_)
    · obtain ⟨hcode', _, rfl⟩ := hv
      refine ⟨⟨hu'.1.trans hstores.1, hu'.2.trans hstores.2⟩, fun hres => ?_⟩
      rw [hcode']
      rcases hcode with h | h | h <;> rw [h]
      · exact hres
      · decide
      · decide
    · obtain ⟨_, rfl⟩ := hv
      exact ⟨hu'.1.trans hstores.1, hu'.2.trans hstores.2⟩
  obtain ⟨res', pruneImages⟩ := r
  dsimp only
  split
  · simp only [wp_bind]
    refine wp_handleRemovedApps (fun _ => ?_) (fun _ _ => hstores)
    cases pruneImages with
    | false => exact hend _ ⟨rfl, rfl⟩
    | true =>
      simp only [if_true, wp_bind, wp_orThrow]
      cases getRequiredApps styled cfg target.custom with
      | error e => exact hstores
      | ok required => exact hend _ ⟨rfl, rfl⟩
  · exact hend u ⟨rfl, rfl⟩

/-- The end of an installation without a success. -/
theorem wp_finish_failed :
    wp (do
        modify fun w : World Db => { w with appsToFetchAndUpdate := [], appsToFetch := [] }
        withRunningApps env res)
      (fun res' _ => (env.runningInfo >>= fun _ => .ok res.code) = .ok res'.code)
      (fun _ _ => ∃ e, (env.runningInfo >>= fun _ => .ok res.code) = .error e) w := by
  rw [wp_bind, wp_modify]
  refine wp_mono wp_withRunningApps (fun res' _ h => ?_) (fun _ _ h => ?_)
  · obtain ⟨hcode, ⟨info, hinfo⟩, _⟩ := h
    rw [hinfo, hcode]
    rfl
  · obtain ⟨⟨e, he⟩, _⟩ := h
    exact ⟨e, by rw [he]; rfl⟩

/-- An installation that needs a reboot ends with the code of its apps. -/
theorem wp_finishInstall_created (hres : res.code = .kNeedCompletion) :
    wp (finishInstall styled cfg env target res)
      (fun res' _ => createdCode cfg env w = .ok res'.code)
      (fun _ _ => ∃ e, createdCode cfg env w = .error e) w := by
  rw [finishInstall, wp_bind]
  unfold installApps createdCode
  simp only [hres, BEq.rfl, Bool.not_true, Bool.false_or]
  cases cfg.createContainersBeforeReboot with
  | false =>
    simp only [Bool.false_eq_true, if_false, wp_pure, InstallationResult.isSuccess]
    exact wp_finish_failed
  | true =>
    simp only [if_true, wp_bind, wp_get, wp_pure]
    refine wp_mono wp_startApps (fun r u hu => ?_) (fun _ _ h => ?_)
    · obtain ⟨happs, _⟩ := hu
      dsimp only at happs
      have hfail : r.isSuccess = false := by
        rcases appsCode_cases happs with h | h | h <;> rw [InstallationResult.isSuccess, h] <;> rfl
      simp only [hfail, Bool.false_eq_true, if_false]
      rw [happs]
      exact wp_finish_failed
    · obtain ⟨⟨e, he⟩, _⟩ := h
      dsimp only at he
      exact ⟨e, by rw [he]; rfl⟩

/-! ## Packages -/

def exitCode : Option InstallationResult → ResultCode
  | some res => res.code
  | none => .kInstallFailed

/-- The exits of an installation.  One that throws counts as failed. -/
def PackageExit (cfg : Config) (env : InstallEnv) (mode : InstallMode) (target : Target)
    (w : World Db) (code : ResultCode) (w' : World Db) : Prop :=
  w'.db = w.db ∧
    (w.rootfs.sys.booted = target.sha256Hash → code ≠ .kNeedCompletion) ∧
    ((Deploys cfg env mode target w ∧
        w'.rootfs.sys = w.rootfs.sys.deploy target.sha256Hash ∧
        (w.rootfs.sys.booted ≠ target.sha256Hash → code = deployedCode cfg env mode target w)) ∨
      (¬ Deploys cfg env mode target w ∧ w'.rootfs.sys = w.rootfs.sys ∧
        (mode = .ostreeOnly → w.rootfs.sys.booted ≠ target.sha256Hash →
          (code = .kOk ↔ ReportsUndeployed cfg env target w))))

theorem packageExit_stopped (h : ¬ Deploys cfg env mode target w)
    (hmode : mode = .ostreeOnly → ¬ ReportsUndeployed cfg env target w) :
    PackageExit cfg env mode target w .kInstallFailed w :=
  ⟨rfl, fun _ => by decide, .inr ⟨h, rfl, fun hm _ => iff_of_false (by decide) (hmode hm)⟩⟩

theorem packageExit_congr {v : World Db} (hdb : v.db = w.db) (hrootfs : v.rootfs = w.rootfs)
    (happs : v.appsToFetchAndUpdate = w.appsToFetchAndUpdate) (code : ResultCode)
    (w' : World Db) :
    PackageExit cfg env mode target v code w' ↔ PackageExit cfg env mode target w code w' := by
  unfold PackageExit Deploys ReportsUndeployed StopsApps deployedCode createdCode
  rw [hdb, hrootfs, happs]

theorem deployedCode_not_notified
    (h : ¬ Notified cfg.rollbackMode target.sha256Hash env.rootfs w.rootfs) :
    deployedCode cfg env mode target w = .kInstallFailed := by
  unfold deployedCode
  cases hu : env.rootfs.updateNotify w.rootfs.boot with
  | error e => rfl
  | ok b =>
    cases hn : installNotify cfg.rollbackMode env.rootfs.deployments target.sha256Hash b with
    | error e => simp [bind, Except.bind, hn]
    | ok b' => exact absurd ⟨b, b', hu, hn⟩ h

theorem deployedCode_notified
    (h : Notified cfg.rollbackMode target.sha256Hash env.rootfs w.rootfs) :
    deployedCode cfg env mode target w =
      if cfg.pacman = .compose ∧ mode = .all then
        match createdCode cfg env w with
        | .ok code => code
        | .error _ => .kInstallFailed
      else .kNeedCompletion := by
  obtain ⟨b, b', hu, hn⟩ := h
  unfold deployedCode
  simp only [hu, hn, bind, Except.bind]
  by_cases hc : cfg.pacman = .compose ∧ mode = .all
  · simp only [if_pos hc]
  · simp only [if_neg hc]
    rfl

section Package

variable (hSt : ∀ hash db, (St.current hash db).sha256Hash = hash) {t : TufTarget}
  (ht : toTufTarget target = .ok t)

include ht in
theorem deploys_iff (hstops : cfg.pacman = .compose → mode = .all → StopsApps cfg env target w) :
    Deploys cfg env mode target w ↔
      DeploysRootfs cfg.rollbackMode cfg.updateBlock w.rootfs.sys.booted target.sha256Hash
        env.rootfs w.rootfs :=
  ⟨fun h => h.2.2, fun h => ⟨⟨t, ht⟩, hstops, h⟩⟩

include ht in
/-- An installation that the rootfs part ends. -/
theorem packageExit_of_rootfs
    (hstops : cfg.pacman = .compose → mode = .all → StopsApps cfg env target w)
    {returned : Option InstallationResult} {r : Rootfs}
    (hmode : ¬ (cfg.pacman = .compose ∧ mode = .all) ∨ returned = none ∨
      ∃ res, returned = some res ∧ res.code = .kInstallFailed)
    (h : InstallExit cfg.rollbackMode cfg.updateBlock w.rootfs.sys.booted target.sha256Hash
      env.rootfs w.rootfs returned r) :
    PackageExit cfg env mode target w (exitCode returned) { w with rootfs := r } := by
  have hreports : ReportsUndeployed cfg env target w ↔ SucceedsUndeployed cfg.rollbackMode
      cfg.updateBlock w.rootfs.sys.booted target.sha256Hash env.rootfs w.rootfs :=
    ⟨fun h => h.2, fun h => ⟨⟨t, ht⟩, h⟩⟩
  rcases h with ⟨hd, hsys, hres⟩ | ⟨hd, hsys, hres⟩
  · cases returned with
    | none =>
      refine ⟨rfl, fun _ => by decide, .inl ⟨(deploys_iff ht hstops).mpr hd, hsys, fun hne => ?_⟩⟩
      rw [deployedCode_not_notified (hres hne), exitCode]
    | some res =>
      obtain ⟨hnotified, hcode⟩ := hres
      refine ⟨rfl, fun heq => ?_, .inl ⟨(deploys_iff ht hstops).mpr hd, hsys, fun hne => ?_⟩⟩
      · rw [exitCode, hcode, if_pos heq]
        decide
      · have hneed : res.code = .kNeedCompletion := by rw [hcode, if_neg hne]
        have hrootfs : ¬ (cfg.pacman = .compose ∧ mode = .all) := by
          rcases hmode with h | h | ⟨res', h, hfailed⟩
          · exact h
          · cases h
          · cases h
            rw [hneed] at hfailed
            cases hfailed
        rw [deployedCode_notified hnotified, if_neg hrootfs]
        exact hneed
  · have hno : ¬ Deploys cfg env mode target w := fun h => hd h.2.2
    cases returned with
    | none =>
      refine ⟨rfl, fun _ => by decide, .inr ⟨hno, hsys, fun _ _ => ?_⟩⟩
      exact iff_of_false (by decide) fun h => hres (hreports.mp h)
    | some res =>
      exact ⟨rfl, hres.1, .inr ⟨hno, hsys, fun _ hne => (hres.2 hne).trans hreports.symm⟩⟩

include ht in
/-- An installation that goes on to the apps. -/
theorem packageExit_of_apps (hall : cfg.pacman = .compose ∧ mode = .all)
    (hstops : StopsApps cfg env target w) {r : Rootfs} {u : Target}
    (h : InstallExit cfg.rollbackMode cfg.updateBlock w.rootfs.sys.booted target.sha256Hash
      env.rootfs w.rootfs (some res) r) :
    wp (finishInstall styled cfg env u res)
      (fun res' => PackageExit cfg env mode target w res'.code)
      (fun _ => PackageExit cfg env mode target w .kInstallFailed) { w with rootfs := r } := by
  have hnot : mode ≠ .ostreeOnly := by
    rw [hall.2]
    decide
  rcases h with ⟨hd, hsys, hnotified, hcode⟩ | ⟨hd, hsys, hneed, _⟩
  · have hyes : Deploys cfg env mode target w := (deploys_iff ht fun _ _ => hstops).mpr hd
    by_cases hsame : w.rootfs.sys.booted = target.sha256Hash
    · rw [if_pos hsame] at hcode
      refine wp_mono wp_finishInstall (fun res' w' h => ?_) (fun _ w' h => ?_)
      · obtain ⟨⟨hdb, hrootfs⟩, hne⟩ := h
        refine ⟨hdb, fun _ => hne (by rw [hcode]; decide), .inl ⟨hyes, ?_, absurd hsame⟩⟩
        rw [hrootfs, hsys]
      · obtain ⟨hdb, hrootfs⟩ := h
        refine ⟨hdb, fun _ => by decide, .inl ⟨hyes, ?_, absurd hsame⟩⟩
        rw [hrootfs, hsys]
    · rw [if_neg hsame] at hcode
      refine wp_mono (wp_and wp_finishInstall (wp_finishInstall_created hcode))
        (fun res' w' h => ?_) (fun _ w' h => ?_)
      · obtain ⟨⟨⟨hdb, hrootfs⟩, _⟩, hcreated⟩ := h
        refine ⟨hdb, fun heq => absurd heq hsame, .inl ⟨hyes, ?_, fun _ => ?_⟩⟩
        · rw [hrootfs, hsys]
        · have hcreated' : createdCode cfg env w = .ok res'.code := hcreated
          rw [deployedCode_notified hnotified, if_pos hall, hcreated']
      · obtain ⟨⟨hdb, hrootfs⟩, e, he⟩ := h
        refine ⟨hdb, fun _ => by decide, .inl ⟨hyes, ?_, fun _ => ?_⟩⟩
        · rw [hrootfs, hsys]
        · have he' : createdCode cfg env w = .error e := he
          rw [deployedCode_notified hnotified, if_pos hall, he']
  · have hno : ¬ Deploys cfg env mode target w := fun h => hd h.2.2
    refine wp_mono wp_finishInstall (fun res' w' h => ?_) (fun _ w' h => ?_)
    · obtain ⟨⟨hdb, hrootfs⟩, hne⟩ := h
      refine ⟨hdb, fun hsame => hne (hneed hsame), .inr ⟨hno, ?_, fun hm => absurd hm hnot⟩⟩
      rw [hrootfs, hsys]
    · obtain ⟨hdb, hrootfs⟩ := h
      refine ⟨hdb, fun _ => by decide, .inr ⟨hno, ?_, fun hm => absurd hm hnot⟩⟩
      rw [hrootfs, hsys]

include ht in
/-- The part of an installation that follows the stopping of apps. -/
theorem wp_installStopped (hall : cfg.pacman = .compose ∧ mode = .all)
    (hstops : StopsApps cfg env target w) {u : Target} :
    wp (do
        let res ← onRootfs (rootfsInstall cfg.rollbackMode cfg.updateBlock w.rootfs.sys.booted
          target.sha256Hash env.rootfs)
        if res.code = .kInstallFailed then withRunningApps env res
        else finishInstall styled cfg env u res)
      (fun res => PackageExit cfg env mode target w res.code)
      (fun _ => PackageExit cfg env mode target w .kInstallFailed) w := by
  rw [wp_bind, wp_onRootfs]
  refine wp_mono wp_rootfsInstall (fun res r hr => ?_) (fun e r hr => ?_)
  · rw [wp_ite]
    split
    · next hfailed =>
      have hexit : PackageExit cfg env mode target w (exitCode (some res))
          { w with rootfs := r } :=
        packageExit_of_rootfs ht (fun _ _ => hstops) (.inr (.inr ⟨res, rfl, hfailed⟩)) hr
      rw [exitCode, hfailed] at hexit
      refine wp_mono wp_withRunningApps (fun res' w' h => ?_) (fun _ w' h => ?_)
      · obtain ⟨hcode, _, rfl⟩ := h
        rw [hcode, hfailed]
        exact hexit
      · obtain ⟨_, rfl⟩ := h
        exact hexit
    · exact packageExit_of_apps ht hall hstops hr
  · exact packageExit_of_rootfs ht (fun _ _ => hstops) (.inr (.inl rfl)) hr

include ht in
/-- The calls made so far do not matter to the exit. -/
theorem wp_installStopped_congr (hall : cfg.pacman = .compose ∧ mode = .all) {v : World Db}
    (hstops : StopsApps cfg env target w) (hdb : v.db = w.db) (hrootfs : v.rootfs = w.rootfs)
    (happs : v.appsToFetchAndUpdate = w.appsToFetchAndUpdate) {u : Target} :
    wp (do
        let res ← onRootfs (rootfsInstall cfg.rollbackMode cfg.updateBlock w.rootfs.sys.booted
          target.sha256Hash env.rootfs)
        if res.code = .kInstallFailed then withRunningApps env res
        else finishInstall styled cfg env u res)
      (fun res => PackageExit cfg env mode target w res.code)
      (fun _ => PackageExit cfg env mode target w .kInstallFailed) v := by
  have hstops' : StopsApps cfg env target v := by
    unfold StopsApps
    rw [hrootfs, happs]
    exact hstops
  rw [← hrootfs]
  exact wp_mono (wp_installStopped ht hall hstops')
    (fun _ _ => (packageExit_congr hdb hrootfs happs _ _).mp)
    (fun _ _ => (packageExit_congr hdb hrootfs happs _ _).mp)

include hSt ht in
theorem wp_composeInstall (hall : cfg.pacman = .compose ∧ mode = .all) :
    wp (composeInstall St styled cfg env (fromTufTarget t))
      (fun res => PackageExit cfg env mode target w res.code)
      (fun _ => PackageExit cfg env mode target w .kInstallFailed) w := by
  obtain ⟨_, hhash, hcustom⟩ := toTufTarget_fields ht
  have hnot : mode ≠ .ostreeOnly := by
    rw [hall.2]
    decide
  have hstopped : ¬ StopsApps cfg env target w →
      PackageExit cfg env mode target w .kInstallFailed w := fun h =>
    packageExit_stopped (fun hd => h (hd.2.1 hall.1 hall.2)) (fun hm => absurd hm hnot)
  have hcurrent : (getCurrent St w).sha256Hash = w.rootfs.sys.booted := hSt _ _
  rw [composeInstall, wp_bind, wp_orThrow, fromTufTarget_custom, hcustom]
  cases hremoved : removedApps cfg env.appsRoot target.custom with
  | error e =>
    refine hstopped ?_
    rintro ⟨removed, h, _⟩
    rw [hremoved] at h
    cases h
  | ok removed =>
    have hstops : StopsApps cfg env target w ↔
        (∀ name ∈ removed, env.stop (name, "") = .ok ()) ∧
          (w.rootfs.sys.booted ≠ target.sha256Hash ∨ cfg.stopAppsBeforeUpdate = true →
            ∀ app ∈ w.appsToFetchAndUpdate, env.stop app = .ok ()) := by
      simp [StopsApps, hremoved]
    dsimp only
    rw [wp_bind]
    refine wp_stopApps (fun hfirst => ?_) (fun e _ _ hfirst => hstopped fun h => ?_)
    · have hfirst' : ∀ name ∈ removed, env.stop (name, "") = .ok () := by simpa using hfirst
      rw [wp_bind, wp_get, getCurrent_emitted, hcurrent, fromTufTarget_sha256Hash, hhash]
      split
      · next hstop =>
        rw [wp_bind, wp_get, wp_bind]
        refine wp_stopApps (fun hsecond => ?_) (fun e _ _ hsecond => hstopped fun h => ?_)
        · rw [wp_bind, wp_emit]
          have hall' := hstops.mpr ⟨hfirst', fun _ => hsecond⟩
          refine wp_installStopped_congr ht hall hall' ?_ ?_ ?_ <;> rfl
        · exact hsecond ((hstops.mp h).2 hstop)
      · next hstop =>
        rw [wp_bind, wp_emit]
        have hall' := hstops.mpr ⟨hfirst', fun h => absurd h hstop⟩
        refine wp_installStopped_congr ht hall hall' ?_ ?_ ?_ <;> rfl
    · exact hfirst (by simpa using (hstops.mp h).1)

include hSt ht in
theorem wp_managerInstall :
    wp (managerInstall St styled cfg env (fromTufTarget t) mode)
      (fun res => PackageExit cfg env mode target w res.code)
      (fun _ => PackageExit cfg env mode target w .kInstallFailed) w := by
  rw [managerInstall, wp_ite]
  split
  · next hall => exact wp_composeInstall hSt ht hall
  · next hrootfs =>
    have hcurrent : (getCurrent St w).sha256Hash = w.rootfs.sys.booted := hSt _ _
    have hstops : cfg.pacman = .compose → mode = .all → StopsApps cfg env target w :=
      fun hp hm => absurd ⟨hp, hm⟩ hrootfs
    rw [wp_bind, wp_get]
    dsimp only
    rw [wp_bind, wp_emit, wp_onRootfs, hcurrent, fromTufTarget_sha256Hash,
      (toTufTarget_fields ht).2.1]
    exact wp_mono wp_rootfsInstall
      (fun res r hr => packageExit_of_rootfs ht hstops (.inl hrootfs) hr)
      (fun e r hr => packageExit_of_rootfs ht hstops (.inl hrootfs) hr)

end Package

/-- The package installation always returns. -/
theorem wp_installPackage (hSt : ∀ hash db, (St.current hash db).sha256Hash = hash)
    {E : String → World Db → Prop} :
    wp (installPackage St styled cfg env target mode)
      (fun res => PackageExit cfg env mode target w res.code) E w := by
  rw [installPackage, wp_tryCatch, wp_bind, wp_orThrow]
  cases ht : toTufTarget target with
  | error e =>
    refine packageExit_stopped (fun h => ?_) (fun _ h => ?_)
    · obtain ⟨⟨t, h⟩, _⟩ := h
      rw [ht] at h
      cases h
    · obtain ⟨⟨t, h⟩, _⟩ := h
      rw [ht] at h
      cases h
  | ok t => exact wp_mono (wp_managerInstall hSt ht) (fun _ _ h => h) (fun _ _ h => h)

end Proofs

end Client
end AkLite
