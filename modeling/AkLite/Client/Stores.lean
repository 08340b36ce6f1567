/-
The sysroot and the database after an update.

An update that needs a reboot leaves two notes: the pending deployment of the sysroot
and the pending target of the database.  The first is made before the apps of the
target are created, and their failure can end the installation.  A failed pull of an
image is taken for a failed download then, so that neither the target is recorded nor
the deployment undone: `deployment_without_target`.

`stores_agree_iff` says for which inputs the two notes agree after `pullAndInstall`.
-/
import AkLite.Client.Frames
import AkLite.Client.Installing
import AkLite.Client.InstalledVersions

namespace AkLite
namespace Client

open Lib Boot

/-! ## The property -/

section Stores

variable {Db : Type} (St : Storage Db) (styled : Json → String) (cfg : Config)

/-- What the library's storage does with the pending target. -/
structure PendingContract : Prop where
  current : ∀ hash db, (St.current hash db).sha256Hash = hash
  kPending : ∀ t db, ∃ p, St.pending (St.save t .kPending db) = some p ∧
    p.sha256Hash = t.sha256Hash
  kCurrent : ∀ t db, St.pending (St.save t .kCurrent db) = none
  kNone : ∀ t db, St.pending db = none → St.pending (St.save t .kNone db) = none

/-- A pending deployment of another hash than the booted one is that of the pending
target, and a pending target has the hash of the pending or of the booted
deployment. -/
def StoresAgree (w : World Db) : Prop :=
  (w.rootfs.sys.pending ≠ "" → w.rootfs.sys.pending ≠ w.rootfs.sys.booted →
    ∃ t, St.pending w.db = some t ∧ t.sha256Hash = w.rootfs.sys.pending) ∧
  ∀ t, St.pending w.db = some t →
    (w.rootfs.sys.pending ≠ "" ∧ t.sha256Hash = w.rootfs.sys.pending) ∨
      t.sha256Hash = w.rootfs.sys.booted

/-! ## Conditions on the steps -/

def ContextDeploys (context : Context) (env : ContextInstallEnv) (w : World Db) : Prop :=
  ∃ target, Installs styled cfg context env w target ∧
    Deploys cfg env.client.manager context.mode target w

def ContextReports (context : Context) (env : ContextInstallEnv) (w : World Db) : Prop :=
  ∃ target, Installs styled cfg context env w target ∧
    ReportsUndeployed cfg env.client.manager target w

/-- The world from which the context is installed. -/
def ReachesInstall (args : PullArgs) (env : PullEnv) (w : World Db) (current : TufTarget)
    (context : Context) (v : World Db) : Prop :=
  currentTufTarget St w = .ok current ∧ stillNoSpace w.noSpace args.target env.usage = false ∧
    ∃ u, installer St styled cfg args.installer env.installer { w with noSpace := .none } =
        .ok (some context) u ∧
      downloadFirst styled cfg context args env u = .ok none v

/-- The world from which the current target is installed again after a failure. -/
def ReachesRollBack (args : PullArgs) (env : PullEnv) (current : TufTarget) (context : Context)
    (v : World Db) (context' : Context) (v' : World Db) : Prop :=
  ∃ failure u, contextInstall St styled cfg context env.install v = .ok failure u ∧
    installer St styled cfg (rollBackArgs current args failure) env.rollbackInstaller u =
      .ok (some context') v'

/-- The condition on an installation of a new hash.  The library does not report success
without a deployment when only the rootfs is installed.  If it deploys the hash, then
the apps do not fail, or the installation fails otherwise than by a download and the
current hash is deployed again. -/
def InstallSound (args : PullArgs) (env : PullEnv) (current : TufTarget) (context : Context)
    (v : World Db) : Prop :=
  ¬ (context.mode = .ostreeOnly ∧ ContextReports styled cfg context env.install v) ∧
    (ContextDeploys styled cfg context env.install v →
      deployedCode cfg env.install.client.manager context.mode context.target v =
          .kNeedCompletion ∨
        (deployedCode cfg env.install.client.manager context.mode context.target v =
            .kInstallFailed ∧
          ∃ context' v', ReachesRollBack St styled cfg args env current context v context' v' ∧
            ContextDeploys styled cfg context' env.rollbackInstall v'))

end Stores

section Proofs

variable {Db : Type} {St : Storage Db} {styled : Json → String} {cfg : Config} {w : World Db}

/-! ## What is stored -/

def storedDb (St : Storage Db) (mode : InstallMode) (target : Target) (code : ResultCode)
    (w : World Db) : Db :=
  match code with
  | .kNeedCompletion =>
    if target.sha256Hash = w.rootfs.sys.pending then St.save target .kPending w.db else w.db
  | .kOk => St.save target (if mode = .ostreeOnly then .kPending else .kCurrent) w.db
  | .kDownloadFailed => w.db
  | _ => St.save target .kNone w.db

/-- The codes of an installation that is rolled back. -/
def isFailure (code : ResultCode) : Bool :=
  code != .kOk && code != .kNeedCompletion && code != .kDownloadFailed

theorem wp_storeResult {env : ClientInstallEnv} {mode : InstallMode} {target : Target}
    {res : InstallationResult} :
    wp (storeResult St env target mode res)
      (fun res' w' => w'.rootfs = w.rootfs ∧ w'.db = storedDb St mode target res.code w ∧
        isFailure res'.code = isFailure res.code)
      (fun _ _ => True) w := by
  unfold storeResult storedDb
  cases hcode : res.code with
  | kNeedCompletion =>
    simp only [wp_bind, wp_modify, wp_get]
    split
    · exact ⟨rfl, rfl, by rw [hcode]⟩
    · exact ⟨rfl, rfl, by rw [hcode]⟩
  | kOk =>
    dsimp only
    split
    · exact ⟨rfl, rfl, rfl⟩
    · rw [wp_bind, wp_saveInstalledVersion, wp_bind, wp_orThrow]
      cases env.writeCurrent with
      | error e => trivial
      | ok _ => exact ⟨rfl, rfl, by rw [hcode]⟩
  | kDownloadFailed => exact ⟨rfl, rfl, by rw [hcode]⟩
  | _ => exact ⟨rfl, rfl, by rw [hcode]⟩

theorem wp_clientInstall (hSt : PendingContract St) {env : ClientInstallEnv} {mode : InstallMode}
    {target : Target} :
    wp (clientInstall St styled cfg env target mode)
      (fun res w' => ∃ code v, PackageExit cfg env.manager mode target w code v ∧
        w'.rootfs = v.rootfs ∧ w'.db = storedDb St mode target code v ∧
        isFailure res.code = isFailure code)
      (fun _ _ => True) w := by
  rw [clientInstall, wp_bind, wp_orThrow]
  cases env.notifyStarted with
  | error e => trivial
  | ok _ =>
    dsimp only
    rw [wp_bind, wp_record, wp_bind]
    refine wp_mono (wp_installPackage hSt.current) (fun res v hv => ?_) (fun _ _ h => h)
    rw [wp_bind]
    refine wp_mono wp_storeResult (fun res' w' h => ?_) (fun _ _ h => h)
    rw [wp_bind]
    exact wp_notifyInstallFinished (fun _ => trivial) fun _ => ⟨res.code, v, hv, h⟩

theorem installStatus_failed_iff {target : Target} {code : ResultCode} :
    installStatus St target code w = .failed ↔ isFailure code = true := by
  unfold installStatus
  cases code with
  | kNeedCompletion =>
    refine iff_of_false ?_ (by decide)
    dsimp only
    split
    · split <;> simp
    · simp
  | _ => simp [isFailure]

/-- The exits of the installation of a context that return. -/
def ContextExit (St : Storage Db) (styled : Json → String) (cfg : Config) (context : Context)
    (env : ContextInstallEnv) (w : World Db) (r : InstallResult) (w' : World Db) : Prop :=
  ((∀ target, ¬ Installs styled cfg context env w target) ∧ SameStores w w' ∧
      r.status ≠ .failed) ∨
    ∃ target code v, Installs styled cfg context env w target ∧
      PackageExit cfg env.client.manager context.mode target w code v ∧
      w'.rootfs = v.rootfs ∧ w'.db = storedDb St context.mode target code v ∧
      (r.status = .failed ↔ isFailure code = true)

theorem wp_contextInstall (hSt : PendingContract St) {context : Context}
    {env : ContextInstallEnv} :
    wp (contextInstall St styled cfg context env) (ContextExit St styled cfg context env w)
      (fun _ _ => True) w := by
  refine contextInstall_rule (fun r hbad hr => .inl ⟨hbad, ⟨rfl, rfl⟩, by rw [hr]; decide⟩)
    (fun target _ _ hin => ?_) (fun _ _ => trivial)
  refine wp_mono (wp_clientInstall hSt) (fun res w' h => ?_) (fun _ _ h => h)
  obtain ⟨code, v, hexit, hrootfs, hdb, hfailure⟩ := h
  refine .inr ⟨target, code, v, hin, hexit, hrootfs, hdb, ?_⟩
  rw [installStatus_failed_iff, hfailure]

/-! ## One installation -/

section Exits

variable (hSt : PendingContract St) {context : Context} {env : ContextInstallEnv}
  {r : InstallResult} {w' : World Db}

theorem Installs.unique {target target' : Target} (h : Installs styled cfg context env w target)
    (h' : Installs styled cfg context env w target') : target = target' :=
  Except.ok.inj (h.2.symm.trans h'.2)

theorem contextDeploys_iff {target : Target} (h : Installs styled cfg context env w target) :
    ContextDeploys styled cfg context env w ↔
      Deploys cfg env.client.manager context.mode target w := by
  constructor
  · rintro ⟨target', h', hd⟩
    rwa [h.unique h']
  · exact fun hd => ⟨target, h, hd⟩

theorem contextReports_iff {target : Target} (h : Installs styled cfg context env w target) :
    ContextReports styled cfg context env w ↔
      ReportsUndeployed cfg env.client.manager target w := by
  constructor
  · rintro ⟨target', h', hd⟩
    rwa [h.unique h']
  · exact fun hd => ⟨target, h, hd⟩

include hSt in
/-- Only a success or a pending deployment makes a pending target. -/
theorem pending_storedDb {mode : InstallMode} {target : Target} {code : ResultCode}
    (hnone : St.pending w.db = none)
    (hcode : code = .kOk → mode = .all)
    (hneed : code = .kNeedCompletion → target.sha256Hash ≠ w.rootfs.sys.pending) :
    St.pending (storedDb St mode target code w) = none := by
  unfold storedDb
  cases code with
  | kNeedCompletion =>
    dsimp only
    rw [if_neg (hneed rfl)]
    exact hnone
  | kOk =>
    dsimp only
    rw [if_neg (by rw [hcode rfl]; decide)]
    exact hSt.kCurrent _ _
  | kDownloadFailed => exact hnone
  | _ => exact hSt.kNone _ _ hnone

include hSt in
/-- The booted hash is installed again: a pending deployment is dropped or stays, and
in mode `all` no target is pending. -/
theorem exit_booted (hnone : St.pending w.db = none)
    (hhash : context.target.sha256Hash = w.rootfs.sys.booted)
    (h : ContextExit St styled cfg context env w r w') :
    (context.mode = .all ∨ r.status = .failed → St.pending w'.db = none) ∧
      (∀ t, St.pending w'.db = some t → t.sha256Hash = w.rootfs.sys.booted) ∧
      (ContextDeploys styled cfg context env w →
        w'.rootfs.sys = w.rootfs.sys.deploy w.rootfs.sys.booted) ∧
      (¬ ContextDeploys styled cfg context env w → w'.rootfs.sys = w.rootfs.sys) := by
  rcases h with ⟨hno, ⟨hdb, hrootfs⟩, _⟩ | ⟨target, code, v, hin, hexit, hrootfs, hdb, hfailed⟩
  · refine ⟨fun _ => by rw [hdb, hnone], fun t ht => ?_, ?_, fun _ => by rw [hrootfs]⟩
    · rw [hdb, hnone] at ht
      cases ht
    · rintro ⟨target, hin, _⟩
      exact absurd hin (hno target)
  · have htarget : w.rootfs.sys.booted = target.sha256Hash := by
      rw [installTarget_hash hin.2, hhash]
    obtain ⟨hvdb, hcode, hsys⟩ := hexit
    have hneed : code ≠ .kNeedCompletion := hcode htarget
    have hvnone : St.pending v.db = none := by rw [hvdb, hnone]
    have hquiet : (code = .kOk → context.mode = .all) → St.pending w'.db = none := fun hok => by
      rw [hdb]
      exact pending_storedDb hSt hvnone hok (fun h => absurd h hneed)
    refine ⟨?_, fun t ht => ?_, fun hd => ?_, fun hd => ?_⟩
    · rintro (hmode | hstatus)
      · exact hquiet fun _ => hmode
      · refine hquiet fun hok => ?_
        rw [hfailed, hok] at hstatus
        exact absurd hstatus (by decide)
    · by_cases hok : code = .kOk ∧ context.mode = .ostreeOnly
      · rw [hdb, hok.1, hok.2] at ht
        obtain ⟨p, hp, hphash⟩ := hSt.kPending target v.db
        have hsome : some p = some t := hp.symm.trans ht
        rw [← Option.some.inj hsome, hphash, htarget]
      · have hmode : code = .kOk → context.mode = .all := fun hc => by
          cases hm : context.mode with
          | all => rfl
          | ostreeOnly => exact absurd ⟨hc, hm⟩ hok
        rw [hquiet hmode] at ht
        cases ht
    · rw [contextDeploys_iff hin] at hd
      rcases hsys with ⟨_, hsys, _⟩ | ⟨hno, _⟩
      · rw [hrootfs, hsys, htarget]
      · exact absurd hd hno
    · rw [contextDeploys_iff hin] at hd
      rcases hsys with ⟨hyes, _⟩ | ⟨_, hsys, _⟩
      · exact absurd hyes hd
      · rw [hrootfs, hsys]

theorem not_reports_of_deploys (hd : ContextDeploys styled cfg context env w) :
    ¬ ContextReports styled cfg context env w := by
  rintro ⟨target, _, _, _, _, result, h, hrefused, _⟩
  obtain ⟨_, _, _, _, hdeploys⟩ := hd
  have hdeployed := hdeploys.deployed
  rw [hrefused] at hdeployed
  cases hdeployed

theorem deployedCode_congr {menv : InstallEnv} {mode : InstallMode} {target target' : Target}
    (h : target.sha256Hash = target'.sha256Hash) :
    deployedCode cfg menv mode target w = deployedCode cfg menv mode target' w := by
  unfold deployedCode
  rw [h]

theorem deployedCode_cases {menv : InstallEnv} {mode : InstallMode} {target : Target} :
    deployedCode cfg menv mode target w = .kNeedCompletion ∨
      deployedCode cfg menv mode target w = .kInstallFailed ∨
      deployedCode cfg menv mode target w = .kDownloadFailed := by
  by_cases hn : Notified cfg.rollbackMode target.sha256Hash menv.rootfs w.rootfs
  · rw [deployedCode_notified hn]
    split
    · cases hc : createdCode cfg menv w with
      | error e => exact .inr (.inl rfl)
      | ok code =>
        unfold createdCode at hc
        split at hc
        · obtain ⟨_, hcode, hc⟩ := bind_eq_ok.mp hc
          obtain ⟨_, _, hc⟩ := bind_eq_ok.mp hc
          cases hc
          exact appsCode_cases hcode
        · obtain ⟨_, hcode, hc⟩ := bind_eq_ok.mp hc
          obtain ⟨_, _, hc⟩ := bind_eq_ok.mp hc
          cases hc
          cases hcode
          exact .inl rfl
    · exact .inl rfl
  · exact .inr (.inl (deployedCode_not_notified hn))

/-- The exits of an installation of a new hash. -/
def NewExit (St : Storage Db) (styled : Json → String) (cfg : Config) (context : Context)
    (env : ContextInstallEnv) (w : World Db) (r : InstallResult) (w' : World Db) : Prop :=
  (¬ ContextDeploys styled cfg context env w ∧ w'.rootfs.sys = w.rootfs.sys ∧
      ((¬ (context.mode = .ostreeOnly ∧ ContextReports styled cfg context env w) ∧
          St.pending w'.db = none) ∨
        ((context.mode = .ostreeOnly ∧ ContextReports styled cfg context env w) ∧
          r.status ≠ .failed ∧
          ∃ t, St.pending w'.db = some t ∧ t.sha256Hash = context.target.sha256Hash))) ∨
    (ContextDeploys styled cfg context env w ∧
      w'.rootfs.sys = w.rootfs.sys.deploy context.target.sha256Hash ∧
      match deployedCode cfg env.client.manager context.mode context.target w with
      | .kNeedCompletion => r.status ≠ .failed ∧
        ∃ t, St.pending w'.db = some t ∧ t.sha256Hash = context.target.sha256Hash
      | .kInstallFailed => r.status = .failed ∧ St.pending w'.db = none
      | _ => r.status ≠ .failed ∧ St.pending w'.db = none)

include hSt in
theorem exit_new (hnone : St.pending w.db = none) (hsys : w.rootfs.sys.pending = "")
    (hne : context.target.sha256Hash ≠ w.rootfs.sys.booted)
    (hhash : context.target.sha256Hash ≠ "")
    (h : ContextExit St styled cfg context env w r w') :
    NewExit St styled cfg context env w r w' := by
  rcases h with ⟨hno, ⟨hdb, hrootfs⟩, _⟩ | ⟨target, code, v, hin, hexit, hrootfs, hdb, hfailed⟩
  · refine .inl ⟨?_, by rw [hrootfs], .inl ⟨?_, by rw [hdb, hnone]⟩⟩
    · rintro ⟨target, hin, _⟩
      exact absurd hin (hno target)
    · rintro ⟨_, target, hin, _⟩
      exact absurd hin (hno target)
  · have htarget : target.sha256Hash = context.target.sha256Hash := installTarget_hash hin.2
    have hbooted : w.rootfs.sys.booted ≠ target.sha256Hash := by
      rw [htarget]
      exact hne.symm
    obtain ⟨hvdb, _, hexit⟩ := hexit
    have hvnone : St.pending v.db = none := by rw [hvdb, hnone]
    rcases hexit with ⟨hd, hvsys, hcode⟩ | ⟨hd, hvsys, hreports⟩
    · refine .inr ⟨(contextDeploys_iff hin).mpr hd, by rw [hrootfs, hvsys, htarget], ?_⟩
      rw [hcode hbooted, deployedCode_congr htarget] at hdb hfailed
      have hpending : target.sha256Hash = v.rootfs.sys.pending := by
        rw [hvsys, Sysroot.deploy, if_neg hbooted.symm]
      rcases @deployedCode_cases _ cfg w env.client.manager context.mode context.target with
        hc | hc | hc
      · rw [hc] at hdb hfailed ⊢
        refine ⟨by rw [Ne, hfailed]; decide, ?_⟩
        obtain ⟨p, hp, hphash⟩ := hSt.kPending target v.db
        refine ⟨p, ?_, hphash.trans htarget⟩
        rw [hdb, storedDb, if_pos hpending, hp]
      · rw [hc] at hdb hfailed ⊢
        refine ⟨by rw [hfailed]; decide, ?_⟩
        rw [hdb]
        exact hSt.kNone _ _ hvnone
      · rw [hc] at hdb hfailed ⊢
        exact ⟨by rw [Ne, hfailed]; decide, by rw [hdb]; exact hvnone⟩
    · refine .inl ⟨fun h => hd ((contextDeploys_iff hin).mp h), by rw [hrootfs, hvsys], ?_⟩
      have hblocked : code = .kNeedCompletion → target.sha256Hash ≠ v.rootfs.sys.pending := by
        intro _
        rw [hvsys, hsys, htarget]
        exact hhash
      by_cases hreported : context.mode = .ostreeOnly ∧ ContextReports styled cfg context env w
      · have hok : code = .kOk :=
          (hreports hreported.1 hbooted).mpr ((contextReports_iff hin).mp hreported.2)
        refine .inr ⟨hreported, ?_, ?_⟩
        · rw [Ne, hfailed, hok]
          decide
        · rw [hdb, hok, hreported.1]
          obtain ⟨p, hp, hphash⟩ := hSt.kPending target v.db
          exact ⟨p, hp, hphash.trans htarget⟩
      · refine .inl ⟨hreported, ?_⟩
        rw [hdb]
        refine pending_storedDb hSt hvnone (fun hok => ?_) hblocked
        cases hm : context.mode with
        | all => rfl
        | ostreeOnly =>
          exact absurd ⟨hm, (contextReports_iff hin).mpr ((hreports hm hbooted).mp hok)⟩ hreported

end Exits

/-! ## The whole update -/

section Update

variable (hSt : PendingContract St) {args : PullArgs} {env : PullEnv} {current : TufTarget}

theorem storesAgree_none_iff (h : St.pending w.db = none) :
    StoresAgree St w ↔
      (w.rootfs.sys.pending ≠ "" → w.rootfs.sys.pending = w.rootfs.sys.booted) := by
  unfold StoresAgree
  simp only [h, reduceCtorEq, false_and, exists_false, imp_false, not_not, false_implies,
    implies_true, and_true]

/-- The rollback finds a context and deploys its hash. -/
def Redeploys (St : Storage Db) (styled : Json → String) (cfg : Config) (args : PullArgs)
    (env : PullEnv) (current : TufTarget) (failure : InstallResult) (w : World Db) : Prop :=
  ∃ context v, installer St styled cfg (rollBackArgs current args failure)
      env.rollbackInstaller w = .ok (some context) v ∧
    ContextDeploys styled cfg context env.rollbackInstall v

/-- The installation has one result, so one world from which a rollback starts. -/
theorem redeploys_iff {context : Context} {r : InstallResult} {u : World Db}
    (hrun : contextInstall St styled cfg context env.install w = .ok r u) :
    Redeploys St styled cfg args env current r u ↔
      ∃ context' v', ReachesRollBack St styled cfg args env current context w context' v' ∧
        ContextDeploys styled cfg context' env.rollbackInstall v' := by
  constructor
  · rintro ⟨context', v', hinstaller, hd⟩
    exact ⟨context', v', ⟨r, u, hrun, hinstaller⟩, hd⟩
  · rintro ⟨context', v', ⟨r', u', hrun', hinstaller⟩, hd⟩
    rw [hrun] at hrun'
    cases hrun'
    exact ⟨context', v', hinstaller, hd⟩

include hSt in
theorem wp_rollBackTo {failure : InstallResult} (hnone : St.pending w.db = none)
    (hcurrent : current.sha256Hash = w.rootfs.sys.booted) :
    wp (rollBackTo St styled cfg current args env failure)
      (fun _ w' => St.pending w'.db = none ∧
        ((Redeploys St styled cfg args env current failure w ∧
            w'.rootfs.sys = w.rootfs.sys.deploy w.rootfs.sys.booted) ∨
          (¬ Redeploys St styled cfg args env current failure w ∧
            w'.rootfs.sys = w.rootfs.sys)))
      (fun _ _ => True) w := by
  rw [rollBackTo, wp_bind]
  refine wp_of_run (fun context? v hrun => ?_) (fun _ _ _ => trivial)
  obtain ⟨heffect, hmade⟩ := installer_run hrun
  have hvnone : St.pending v.db = none := by rw [heffect.db, hnone]
  have hunique : ∀ context, context? = some context →
      (Redeploys St styled cfg args env current failure w ↔
        ContextDeploys styled cfg context env.rollbackInstall v) := by
    rintro context rfl
    constructor
    · rintro ⟨context', v', hrun', hd⟩
      rw [hrun] at hrun'
      cases hrun'
      exact hd
    · exact fun hd => ⟨context, v, hrun, hd⟩
  cases context? with
  | none =>
    refine ⟨hvnone, .inr ⟨?_, by rw [heffect.rootfs]⟩⟩
    rintro ⟨context, v', hrun', _⟩
    rw [hrun] at hrun'
    cases hrun'
  | some context =>
    dsimp only
    rw [wp_bind]
    refine wp_mono (wp_contextInstall hSt) (fun r w' hexit => ?_) (fun _ _ h => h)
    have hm := hmade context rfl
    have hbooted : context.target.sha256Hash = v.rootfs.sys.booted := by
      rw [hm.hash, heffect.rootfs]
      exact hcurrent
    obtain ⟨hpending, _, hyes, hno⟩ := exit_booted hSt hvnone hbooted hexit
    rw [heffect.rootfs] at hyes hno
    rw [wp_pure, hunique context rfl]
    refine ⟨hpending (.inl hm.mode), ?_⟩
    by_cases hd : ContextDeploys styled cfg context env.rollbackInstall v
    · exact .inl ⟨hd, hyes hd⟩
    · exact .inr ⟨hd, hno hd⟩

/-- With nothing deployed before, the stores agree after a rollback. -/
theorem storesAgree_of_deploy (hnone : St.pending w.db = none) {sys : Sysroot}
    (h : w.rootfs.sys = sys.deploy sys.booted) : StoresAgree St w := by
  rw [storesAgree_none_iff hnone, h, Sysroot.deploy, if_pos rfl]
  exact fun hne => absurd rfl hne

theorem storesAgree_of_sys (hnone : St.pending w.db = none) (h : w.rootfs.sys.pending = "") :
    StoresAgree St w := by
  rw [storesAgree_none_iff hnone, h]
  exact fun hne => absurd rfl hne

/-- A new hash is deployed and no target is pending. -/
theorem not_storesAgree_of_deploy (hnone : St.pending w.db = none) {sys : Sysroot} {hash : String}
    (h : w.rootfs.sys = sys.deploy hash) (hne : hash ≠ sys.booted) (hhash : hash ≠ "") :
    ¬ StoresAgree St w := by
  rw [storesAgree_none_iff hnone, h, Sysroot.deploy, if_neg hne]
  exact fun hbooted => hne (hbooted hhash)

include hSt in
/-- A rollback from a state in which nothing is deployed. -/
theorem wp_rollBackTo_undeployed {failure : InstallResult} (hnone : St.pending w.db = none)
    (hcurrent : current.sha256Hash = w.rootfs.sys.booted) (hsys : w.rootfs.sys.pending = "") :
    wp (rollBackTo St styled cfg current args env failure) (fun _ w' => StoresAgree St w')
      (fun _ _ => True) w := by
  refine wp_mono (wp_rollBackTo hSt hnone hcurrent) (fun _ w' h => ?_) (fun _ _ h => h)
  rcases h with ⟨hpending, ⟨_, h⟩ | ⟨_, h⟩⟩
  · exact storesAgree_of_deploy hpending h
  · exact storesAgree_of_sys hpending (by rw [h, hsys])

include hSt in
theorem wp_installOrRollBack_booted {context : Context} (hnone : St.pending w.db = none)
    (hsys : w.rootfs.sys.pending = "") (hcurrent : current.sha256Hash = w.rootfs.sys.booted)
    (hhash : context.target.sha256Hash = w.rootfs.sys.booted) :
    wp (installOrRollBack St styled cfg context current args env) (fun _ w' => StoresAgree St w')
      (fun _ _ => True) w := by
  rw [installOrRollBack, wp_bind]
  refine wp_mono (wp_contextInstall hSt) (fun r u hexit => ?_) (fun _ _ h => h)
  obtain ⟨hquiet, hpending, hyes, hno⟩ := exit_booted hSt hnone hhash hexit
  have husys : u.rootfs.sys = w.rootfs.sys := by
    by_cases hd : ContextDeploys styled cfg context env.install w
    · rw [hyes hd, Sysroot.deploy, if_pos rfl, ← hsys]
    · exact hno hd
  rw [wp_ite]
  split
  · next hfailed =>
    exact wp_rollBackTo_undeployed hSt (hquiet (.inr hfailed)) (by rw [husys, hcurrent])
      (by rw [husys, hsys])
  · refine ⟨fun hne => absurd (by rw [husys, hsys]) hne, fun t ht => .inr ?_⟩
    rw [hpending t ht, husys]

include hSt in
theorem wp_installOrRollBack_new {context : Context} (hnone : St.pending w.db = none)
    (hsys : w.rootfs.sys.pending = "") (hcurrent : current.sha256Hash = w.rootfs.sys.booted)
    (hne : context.target.sha256Hash ≠ w.rootfs.sys.booted)
    (hhash : context.target.sha256Hash ≠ "") :
    wp (installOrRollBack St styled cfg context current args env)
      (fun _ w' => StoresAgree St w' ↔ InstallSound St styled cfg args env current context w)
      (fun _ _ => True) w := by
  rw [installOrRollBack, wp_bind]
  refine wp_of_run (fun r u hrun => ?_) (fun _ _ _ => trivial)
  have hexit : ContextExit St styled cfg context env.install w r u :=
    wp_true_iff.mp (wp_contextInstall hSt) r u hrun
  unfold InstallSound
  rw [← redeploys_iff hrun]
  rcases exit_new hSt hnone hsys hne hhash hexit with
    ⟨hd, husys, ⟨hreports, hpending⟩ | ⟨hreports, hstatus, t, ht, hthash⟩⟩ | ⟨hd, husys, hcode⟩
  · -- Nothing is deployed and nothing is recorded.
    rw [wp_ite]
    split
    · refine wp_mono (wp_rollBackTo_undeployed hSt hpending (by rw [husys, hcurrent])
        (by rw [husys, hsys])) (fun _ w' h => ?_) (fun _ _ h => h)
      exact iff_of_true h ⟨hreports, fun h => absurd h hd⟩
    · exact iff_of_true (storesAgree_of_sys hpending (by rw [husys, hsys]))
        ⟨hreports, fun h => absurd h hd⟩
  · -- The target is recorded without a deployment.
    rw [if_neg hstatus]
    refine iff_of_false (fun h => ?_) fun h => h.1 hreports
    rcases h.2 t ht with ⟨hp, _⟩ | hb
    · exact hp (by rw [husys, hsys])
    · rw [hthash, husys] at hb
      exact hne hb
  · have hup : u.rootfs.sys.pending = context.target.sha256Hash := by
      rw [husys, Sysroot.deploy, if_neg hne]
    have hub : u.rootfs.sys.booted = w.rootfs.sys.booted := by rw [husys, Sysroot.deploy]
    have hquiet := not_reports_of_deploys hd
    rcases @deployedCode_cases _ cfg w env.install.client.manager context.mode context.target with
      hc | hc | hc
    · rw [hc] at hcode
      obtain ⟨hstatus, t, ht, hthash⟩ := hcode
      rw [if_neg hstatus]
      refine iff_of_true ⟨fun _ _ => ⟨t, ht, by rw [hthash, hup]⟩, fun t' ht' => .inl ?_⟩
        ⟨fun h => hquiet h.2, fun _ => .inl hc⟩
      rw [ht] at ht'
      cases ht'
      exact ⟨by rw [hup]; exact hhash, by rw [hthash, hup]⟩
    · rw [hc] at hcode
      obtain ⟨hstatus, hpending⟩ := hcode
      rw [if_pos hstatus]
      refine wp_mono (wp_rollBackTo hSt hpending (by rw [hub, hcurrent])) (fun _ v hv => ?_)
        (fun _ _ h => h)
      rcases hv with ⟨hvpending, ⟨hre, hvsys⟩ | ⟨hre, hvsys⟩⟩
      · exact iff_of_true (storesAgree_of_deploy hvpending hvsys)
          ⟨fun h => hquiet h.2, fun _ => .inr ⟨hc, hre⟩⟩
      · refine iff_of_false (not_storesAgree_of_deploy hvpending (hvsys.trans husys) hne hhash)
          fun h => ?_
        rcases h.2 hd with h | ⟨_, h⟩
        · rw [hc] at h
          cases h
        · exact hre h
    · rw [hc] at hcode
      obtain ⟨hstatus, hpending⟩ := hcode
      rw [if_neg hstatus]
      refine iff_of_false (not_storesAgree_of_deploy hpending husys hne hhash) fun h => ?_
      rcases h.2 hd with h | ⟨h, _⟩
      · rw [hc] at h
        cases h
      · rw [hc] at h
        cases h

theorem ReachesInstall.unique {context context' : Context} {current' : TufTarget}
    {v v' : World Db} (h : ReachesInstall St styled cfg args env w current context v)
    (h' : ReachesInstall St styled cfg args env w current' context' v') :
    current' = current ∧ context' = context ∧ v' = v := by
  obtain ⟨hcurrent, _, u, hinstaller, hdownload⟩ := h
  obtain ⟨hcurrent', _, u', hinstaller', hdownload'⟩ := h'
  rw [hcurrent] at hcurrent'
  cases hcurrent'
  rw [hinstaller] at hinstaller'
  cases hinstaller'
  rw [hdownload] at hdownload'
  cases hdownload'
  exact ⟨rfl, rfl, rfl⟩

end Update

end Proofs

/-- From a state in which nothing is pending, the stores agree when `pullAndInstall`
returns, exactly if the installation of a new hash that it gets to is sound. -/
theorem stores_agree_iff {Db : Type} {St : Storage Db} (hSt : PendingContract St)
    (styled : Json → String) (cfg : Config) (args : PullArgs) (env : PullEnv) {w w' : World Db}
    {r : InstallResult} (hnone : St.pending w.db = none) (hsys : w.rootfs.sys.pending = "")
    (hhash : args.target.sha256Hash ≠ "")
    (hreturns : pullAndInstall St styled cfg args env w = .ok r w') :
    StoresAgree St w' ↔
      (args.target.sha256Hash ≠ w.rootfs.sys.booted →
        ∀ current context v, ReachesInstall St styled cfg args env w current context v →
          InstallSound St styled cfg args env current context v) := by
  refine (wp_true_iff (P := fun _ v => StoresAgree St v ↔ _)).mp ?_ r w' hreturns
  have hpending : (getPendingTarget St w).isValid = false := by
    rw [getPendingTarget, hnone]
    rfl
  have hagree : ∀ u : World Db, SameStores w u → StoresAgree St u := fun u hu =>
    storesAgree_of_sys (by rw [hu.1, hnone]) (by rw [hu.2, hsys])
  rw [pullAndInstall, wp_bind, wp_get, hpending]
  simp only [Bool.false_eq_true, if_false, wp_bind, wp_get, wp_orThrow]
  cases hcurrent : currentTufTarget St w with
  | error e => trivial
  | ok current =>
    dsimp only
    have hbooted : current.sha256Hash = w.rootfs.sys.booted := by
      rw [(toTufTarget_fields hcurrent).2.1]
      exact hSt.current _ _
    cases hspace : stillNoSpace w.noSpace args.target env.usage with
    | true =>
      simp only [if_true, wp_bind, wp_orThrow]
      cases env.notifyNoSpace with
      | error e => trivial
      | ok _ =>
        refine iff_of_true (hagree w ⟨rfl, rfl⟩) ?_
        rintro _ current' context v ⟨_, h, _⟩
        rw [hspace] at h
        cases h
    | false =>
      simp only [Bool.false_eq_true, if_false, wp_bind, wp_modify]
      refine wp_of_run (fun context? u hinstaller => ?_) (fun _ _ _ => trivial)
      obtain ⟨heffect, hmade⟩ := installer_run hinstaller
      cases context? with
      | none =>
        refine iff_of_true (hagree u ⟨heffect.db, heffect.rootfs⟩) ?_
        rintro _ current' context v ⟨_, _, u', hinstaller', _⟩
        rw [hinstaller] at hinstaller'
        cases hinstaller'
      | some context =>
        dsimp only
        rw [wp_bind]
        refine wp_of_run (fun result v hdownload => ?_) (fun _ _ _ => trivial)
        have hengine : EngineOnly u v :=
          (engineProgram_downloadFirst context args env).run hdownload
        have hstores : SameStores w v :=
          ⟨hengine.db.trans heffect.db, hengine.rootfs.trans heffect.rootfs⟩
        cases result with
        | some result =>
          refine iff_of_true (hagree v hstores) ?_
          rintro _ current' context' v' ⟨_, _, u', hinstaller', hdownload'⟩
          rw [hinstaller] at hinstaller'
          cases hinstaller'
          rw [hdownload] at hdownload'
          cases hdownload'
        | none =>
          have hreaches : ReachesInstall St styled cfg args env w current context v :=
            ⟨hcurrent, hspace, u, hinstaller, hdownload⟩
          have hchash : context.target.sha256Hash = args.target.sha256Hash :=
            (hmade context rfl).hash
          have hvnone : St.pending v.db = none := by rw [hstores.1, hnone]
          by_cases hne : args.target.sha256Hash = w.rootfs.sys.booted
          · refine wp_mono (wp_installOrRollBack_booted hSt hvnone (by rw [hstores.2, hsys])
              (by rw [hstores.2, hbooted]) (by rw [hchash, hstores.2, hne]))
              (fun _ v' h => iff_of_true h fun h' => absurd hne h') (fun _ _ h => h)
          · refine wp_mono (wp_installOrRollBack_new hSt hvnone (by rw [hstores.2, hsys])
              (by rw [hstores.2, hbooted]) (by rw [hchash, hstores.2]; exact hne)
              (by rw [hchash]; exact hhash)) (fun _ v' h => h.trans ?_) (fun _ _ h => h)
            refine ⟨fun hsound _ current' context' v' hreaches' => ?_,
              fun hsound => hsound hne current context v hreaches⟩
            obtain ⟨rfl, rfl, rfl⟩ := hreaches.unique hreaches'
            exact hsound

/-! ## A device -/

theorem find_hash (hash : String) (ts : List Target) :
    ((ts.find? fun t => t.sha256Hash == hash).getD
      { unknownTarget with sha256Hash := hash, isValid := true }).sha256Hash = hash := by
  cases h : ts.find? fun t => t.sha256Hash == hash with
  | none => rfl
  | some t => simpa using List.find?_some h

theorem pendingContract_installedVersions : PendingContract installedVersions where
  current hash v := by
    show (InstalledVersions.currentOf hash v).sha256Hash = hash
    unfold InstalledVersions.currentOf
    cases v.current with
    | none => exact find_hash hash _
    | some t =>
      dsimp only
      split
      · next h => exact h
      · exact find_hash hash _
  kPending t v := ⟨t, rfl, rfl⟩
  kCurrent t v := rfl
  kNone t v h := by
    show (v.pending.filter fun p => !InstalledVersions.sameVersion p t) = none
    rw [show v.pending = none from h]
    rfl

/-- A device that has found the next target and its app. -/
def checkedDevice : World InstalledVersions :=
  { World.started { rows := [{ target := factoryTarget, wasInstalled := true }],
                    current := some factoryTarget, pending := none }
      { booted := "aa", pending := "" } with
    appsToFetchAndUpdate := [("web", "web@2")] }

def pullNext : PullArgs :=
  { target := nextTufTarget, reason := "", correlationId := "", mode := .all, isLocal := false,
    doDownload := true, doInstall := true, requireInTuf := true }

/-- The update of a new device is recorded. -/
theorem stores_agree_next :
    ∃ r w', pullAndInstall installedVersions (fun _ => "") deviceConfig pullNext
        (.succeeds [nextTufTarget]) checkedDevice = .ok r w' ∧
      w'.rootfs.sys.pending = "bb" ∧ StoresAgree installedVersions w' := by
  refine ⟨_, _, rfl, rfl, ?_⟩
  refine (stores_agree_iff (w := checkedDevice) pendingContract_installedVersions (fun _ => "")
    deviceConfig pullNext (.succeeds [nextTufTarget]) rfl rfl (by decide) rfl).mpr ?_
  rintro _ current context v ⟨_, _, u, hinstaller, hdownload⟩
  cases hinstaller
  cases hdownload
  refine ⟨fun h => ?_, fun _ => .inl rfl⟩
  cases h.1

/-- The images of the app cannot be pulled when its containers are created. -/
def pullFails : PullEnv :=
  let env := PullEnv.succeeds [nextTufTarget]
  let manager := { InstallEnv.succeeds with start := fun _ => .ok (.imagePullFailure "") }
  let client := { env.install.client with manager := manager }
  { env with install := { env.install with client := client } }

/-- The new hash is deployed, and no target is pending. -/
theorem deployment_without_target :
    ∃ r w', pullAndInstall installedVersions (fun _ => "") deviceConfig pullNext pullFails
        checkedDevice = .ok r w' ∧ ¬ StoresAgree installedVersions w' := by
  refine ⟨_, _, rfl, fun h => ?_⟩
  obtain ⟨t, ht, _⟩ := h.1 (by decide) (by decide)
  cases ht

end Client
end AkLite
