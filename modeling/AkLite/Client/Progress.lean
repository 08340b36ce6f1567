/-
An update goes through.

The other modules say what an update never does.  Here nothing fails: every answer that an
update gets from the outside is a good one.  Then the turn in which a newer target is
offered ends with the target pending, its rootfs deployed and a reboot due, and after the
reboot the device is at rest with the target as the current one (`update_goes_through`).

The answers of the outside are those of the environment records.  `Good` of a record is that
the answers in it are good.
-/
import AkLite.Client.BundlePolicy
import AkLite.Client.EnabledLater
import AkLite.Client.Settling
import AkLite.Client.Stores

namespace AkLite
namespace Client

open Lib Boot

variable {Key Stamp R T Db : Type}

/-! ## Good answers -/

structure DownloadTry.Good (env : DownloadTry) : Prop where
  ostree : ∃ res, env.ostree = .ok res ∧ res.status = .ok
  fetch : ∀ app, env.fetch app = .ok .ok

structure VerifyEnv.Good (env : VerifyEnv) : Prop where
  ostree : env.ostree = .ok .kGood
  isFetched : ∀ app, env.isFetched app = .ok true
  verify : ∀ app, env.verify app = .ok true

/-- The first attempt succeeds, so that the others are not made. -/
structure ContextDownloadEnv.Good (env : ContextDownloadEnv) : Prop where
  first : env.client.first.Good
  notifyStarted : env.client.notifyStarted = .ok ()
  notifyFinished : env.client.notifyFinished = .ok ()
  verify : env.verify.Good

structure InstallEnv.Good (env : InstallEnv) : Prop where
  stop : ∀ app, env.stop app = .ok ()
  start : ∀ app, env.start app = .ok .ok
  runningInfo : Returns env.runningInfo

structure ContextInstallEnv.Good (env : ContextInstallEnv) : Prop where
  verify : env.verify.Good
  notifyStarted : env.client.notifyStarted = .ok ()
  manager : env.client.manager.Good
  notifyFinished : env.client.notifyFinished = .ok ()

/-- A target that can be installed: all of it that is looked at can be read, and `custom` is its
data with the note for the finalization. -/
structure Installable (styled : Json → String) (cfg : Config) (t : TufTarget) (custom : Json) :
    Prop where
  logged : Returns (targetApps styled t.custom)
  noted : ∃ required, getRequiredApps styled cfg t.custom = .ok required ∧
    withInstallContext t.custom required = .ok custom
  version : toTufTarget (fromTufTarget t) = .ok t
  unnoted : t.custom.find "install-context" = .ok none

/-- The finalization after the reboot.  The device has booted the rootfs of the target. -/
structure CompleteEnv.Good (env : CompleteEnv) : Prop where
  callback : env.callback = .ok ()
  ostree : ∃ description, env.finalize.ostree = .ok { code := .kOk, description := description }
  engine : env.finalize.engine.Good
  writeCurrent : env.writeCurrent = .ok ()
  notifyFinished : env.notifyFinished = .ok ()

/-! ## The download -/

section Download

variable {styled : Json → String} {cfg : Config} {w : World Db}

theorem fetchApps_good {env : DownloadTry} (h : env.Good) (apps : List App) (msg : String) :
    wp (fetchApps env apps msg : M Db _) (fun r _ => r.1 = none) (fun _ _ => False) w := by
  induction apps generalizing msg w with
  | nil => rfl
  | cons app rest ih =>
    rw [fetchApps, wp_bind, wp_emit, wp_bind, wp_orThrow, h.fetch app]
    dsimp only
    rw [wp_bind, addEngineApp, wp_modify]
    exact ih msg

theorem downloadOnce_good {env : DownloadTry} (h : env.Good) :
    wp (downloadOnce cfg env : M Db _) (fun res _ => res.status = .ok) (fun _ _ => False) w := by
  obtain ⟨res, hres, hstatus⟩ := h.ostree
  unfold downloadOnce
  cases cfg.pacman with
  | ostree =>
    rw [wp_orThrow, hres]
    exact hstatus
  | compose =>
    rw [composeDownload, wp_bind, wp_orThrow, hres]
    dsimp only
    rw [if_neg (fun hne => hne hstatus), wp_bind, wp_get, wp_bind]
    refine wp_mono (fetchApps_good h _ _) (fun r v hr => ?_) fun _ _ h => h
    obtain ⟨failure, msg⟩ := r
    obtain rfl : failure = none := hr
    dsimp only
    rw [wp_ite]
    split
    · exact hstatus
    · exact hstatus

theorem verifyApps_good {env : VerifyEnv} (h : env.Good) (apps : List App) :
    verifyApps env .kGood apps = .ok .kGood := by
  induction apps with
  | nil => rfl
  | cons app rest ih =>
    rw [verifyApps, h.isFetched app, ok_bind, h.verify app]
    exact ih

theorem verifyStatus_good {env : VerifyEnv} (h : env.Good) (apps : List App) :
    verifyStatus cfg env apps = .ok .kGood := by
  rw [verifyStatus, h.ostree, ok_bind]
  split
  · rfl
  · exact verifyApps_good h apps

theorem contextDownload_good {env : ContextDownloadEnv} (h : env.Good) {context : Context}
    (honline : context.isLocal = false)
    (hlogged : Returns (targetApps styled context.target.custom))
    (hread : Returns (toTufTarget context.target)) :
    wp (contextDownload styled cfg context env : M Db _) (fun res _ => res.status = .ok)
      (fun _ _ => False) w := by
  obtain ⟨apps, happs⟩ := hlogged
  obtain ⟨t, ht⟩ := hread
  have htries : downloadTries cfg [env.client.first, env.client.second, env.client.third] =
      (do
        let res ← downloadOnce cfg env.client.first
        if res.status = .ok ∨ res.status = .noSpace then return res
        downloadTries cfg [env.client.second, env.client.third] : M Db _) := rfl
  rw [contextDownload, logTarget, wp_bind, wp_bind, wp_orThrow, happs]
  dsimp only
  rw [wp_pure, honline, if_neg (by decide), clientDownload, wp_bind, wp_bind, wp_orThrow,
    h.notifyStarted]
  dsimp only
  rw [wp_bind, wp_orThrow, ht]
  dsimp only
  rw [wp_bind, htries, wp_bind]
  refine wp_mono (downloadOnce_good h.first) (fun res v hres => ?_) fun _ _ h => h
  rw [if_pos (.inl hres), wp_pure, wp_bind, wp_orThrow, h.notifyFinished]
  dsimp only
  rw [wp_pure, if_neg (fun hne => hne hres), wp_bind, wp_verifyTarget, verifyStatus_good h.verify]
  rfl

end Download

/-! ## The installation -/

section Install

variable {St : Storage Db} {styled : Json → String} {cfg : Config} {w : World Db}
  {target : Target}

/-- The rootfs manager deploys the target, and the boot firmware does not stand in the way. -/
structure DeploysTarget (cfg : Config) (env : RootfsEnv) (hash : String) (w : World Db) :
    Prop where
  rootfs : DeploysRootfs cfg.rollbackMode cfg.updateBlock w.rootfs.sys.booted hash env w.rootfs
  notified : Notified cfg.rollbackMode hash env w.rootfs
  other : hash ≠ w.rootfs.sys.booted

theorem DeploysTarget.of_same {env : RootfsEnv} {hash : String} {v : World Db}
    (h : DeploysTarget cfg env hash w) (hrootfs : v.rootfs = w.rootfs) :
    DeploysTarget cfg env hash v := by
  constructor
  · rw [hrootfs]
    exact h.rootfs
  · rw [hrootfs]
    exact h.notified
  · rw [hrootfs]
    exact h.other

theorem appsCode_good {env : InstallEnv} (h : env.Good) (apps : List App) (code : ResultCode) :
    appsCode env apps code = .ok code := by
  induction apps with
  | nil => rfl
  | cons app rest ih =>
    rw [appsCode, h.start app]
    exact ih

theorem installPackage_good {env : InstallEnv} {mode : InstallMode}
    (hhash : ∀ hash db, (St.current hash db).sha256Hash = hash) (h : env.Good)
    (hdeploys : DeploysTarget cfg env.rootfs target.sha256Hash w)
    (happs : Returns (getApps cfg target.custom)) (hread : Returns (toTufTarget target)) :
    wp (installPackage St styled cfg env target mode)
      (fun res u => res.code = .kNeedCompletion ∧ u.rootfs.sys.pending = target.sha256Hash ∧
        u.db = w.db) (fun _ _ => False) w := by
  have hcreated : createdCode cfg env w = .ok .kNeedCompletion := by
    obtain ⟨info, hinfo⟩ := h.runningInfo
    rw [createdCode, appsCode_good h, hinfo]
    split
    · rfl
    · rfl
  have hcode : deployedCode cfg env mode target w = .kNeedCompletion := by
    rw [deployedCode_notified hdeploys.notified, hcreated]
    split
    · rfl
    · rfl
  obtain ⟨removed, hremoved⟩ : Returns (removedApps cfg env.appsRoot target.custom) := by
    obtain ⟨apps, happs⟩ := happs
    unfold removedApps
    cases env.appsRoot with
    | none => exact ⟨_, rfl⟩
    | some dirs =>
      rw [happs]
      exact ⟨_, rfl⟩
  have hall : Deploys cfg env mode target w :=
    ⟨hread, fun _ _ => ⟨removed, hremoved, fun _ _ => h.stop _, fun _ app _ => h.stop app⟩,
      hdeploys.rootfs⟩
  refine wp_mono (wp_installPackage hhash) (fun res u hexit => ?_) fun _ _ h => h
  obtain ⟨hdb, _, ⟨_, hsys, hres⟩ | ⟨hnot, _⟩⟩ := hexit
  · refine ⟨(hres hdeploys.other.symm).trans hcode, ?_, hdb⟩
    rw [hsys, Sysroot.deploy]
    exact if_neg hdeploys.other
  · exact absurd hall hnot

/-- What an installation leaves that waits for a reboot. -/
structure Awaits (St : Storage Db) (target : Target) (w u : World Db) : Prop where
  db : u.db = St.save target .kPending w.db
  deployed : u.rootfs.sys.pending = target.sha256Hash
  reboot : u.rebootRequired = true

theorem clientInstall_good {env : ClientInstallEnv} {mode : InstallMode}
    (hhash : ∀ hash db, (St.current hash db).sha256Hash = hash)
    (hstarted : env.notifyStarted = .ok ()) (h : env.manager.Good)
    (hfinished : env.notifyFinished = .ok ())
    (hdeploys : DeploysTarget cfg env.manager.rootfs target.sha256Hash w)
    (happs : Returns (getApps cfg target.custom)) (hread : Returns (toTufTarget target)) :
    wp (clientInstall St styled cfg env target mode)
      (fun res u => res.code = .kNeedCompletion ∧ Awaits St target w u) (fun _ _ => False) w := by
  rw [clientInstall, wp_bind, wp_orThrow, hstarted]
  dsimp only
  rw [wp_bind, wp_record, wp_bind]
  refine wp_mono (installPackage_good hhash h (hdeploys.of_same rfl) happs hread)
    (fun res u hu => ?_) fun _ _ h => h
  obtain ⟨hcode, hpending, hudb⟩ := hu
  rw [wp_bind, storeResult, hcode]
  dsimp only
  rw [wp_bind, wp_modify, wp_bind, wp_get, if_pos hpending.symm, wp_bind,
    wp_saveInstalledVersion, wp_pure, wp_bind, hcode]
  rw [notifyInstallFinished, wp_bind, wp_orThrow, hfinished]
  dsimp only
  rw [if_neg (fun h => h rfl)]
  exact ⟨hcode, congrArg (St.save target .kPending) hudb, hpending, rfl⟩

end Install

/-! ## The whole update -/

section Update

variable {St : Storage Db} {styled : Json → String} {cfg : Config} {w : World Db}
  {t : TufTarget} {custom : Json}

/-- The target as it is installed and recorded. -/
def recordedTarget (t : TufTarget) (custom : Json) (correlationId : String) : Target :=
  { fromTufTarget t with custom := custom, correlationId := correlationId }

theorem Installable.reads (h : Installable styled cfg t custom) (correlationId : String) :
    Returns (getApps cfg (recordedTarget t custom correlationId).custom) ∧
      Returns (toTufTarget (recordedTarget t custom correlationId)) := by
  obtain ⟨required, _, hnoted⟩ := h.noted
  constructor
  · obtain ⟨all, hlogged⟩ := h.logged
    rw [← targetApps_congr (appsJson_withInstallContext hnoted)] at hlogged
    exact getApps_returns hlogged
  · exact ⟨_, toTufTarget_of_same h.version rfl (index_withInstallContext (by decide) hnoted)⟩

/-- What an update to the target meets. -/
structure PullEnv.Good (cfg : Config) (t : TufTarget) (w : World Db) (env : PullEnv) :
    Prop where
  space : stillNoSpace w.noSpace t env.usage = false
  ready : InstallerReady cfg env.installer t
  listed : InTuf env.installer t
  download : env.download.Good
  install : env.install.Good
  deploys : DeploysTarget cfg env.install.client.manager.rootfs t.sha256Hash w

theorem contextInstall_good {env : ContextInstallEnv} {context : Context} {correlationId : String}
    (hhash : ∀ hash db, (St.current hash db).sha256Hash = hash) (h : env.Good)
    (htarget : Installable styled cfg t custom)
    (hcontext : context.target = { fromTufTarget t with correlationId := correlationId })
    (hdeploys : DeploysTarget cfg env.client.manager.rootfs t.sha256Hash w) :
    wp (contextInstall St styled cfg context env)
      (fun r u => r.status ≠ .failed ∧ Awaits St (recordedTarget t custom correlationId) w u)
      (fun _ _ => False) w := by
  obtain ⟨required, hrequired, hnoted⟩ := htarget.noted
  obtain ⟨happs, hread⟩ := htarget.reads correlationId
  obtain ⟨all, hlogged⟩ := htarget.logged
  have hinstalls : Installs styled cfg context env w (recordedTarget t custom correlationId) := by
    refine ⟨verifyStatus_good h.verify _, ?_⟩
    rw [installTarget, hcontext]
    exact bind_eq_ok.mpr ⟨required, hrequired, bind_eq_ok.mpr ⟨custom, hnoted, rfl⟩⟩
  refine contextInstall_rule (fun r hnot _ => absurd hinstalls (hnot _)) ?_ fun e hnot => ?_
  · intro target _ _ hinstalls'
    obtain rfl : target = recordedTarget t custom correlationId :=
      Except.ok.inj (hinstalls'.2.symm.trans hinstalls.2)
    refine wp_mono (clientInstall_good hhash h.notifyStarted h.manager h.notifyFinished hdeploys
      happs hread) (fun res u hu => ⟨?_, hu.2⟩) fun _ _ h => h
    rw [hu.1, installStatus]
    dsimp only
    split
    · split
      · decide
      · decide
    · decide
  · refine hnot _ all ?_ hinstalls
    rw [hcontext]
    exact hlogged

/-- An installer for a listed target changes nothing. -/
theorem wp_installer_listed {args : InstallerArgs} {env : InstallerEnv}
    {Q : Option Context → World Db → Prop} {E : String → World Db → Prop}
    (honline : args.isLocal = false) (hid : args.correlationId = "")
    (hchecked : args.areAppsChecked = true) (hready : InstallerReady cfg env args.target)
    (hlisted : InTuf env args.target)
    (hQ : Q (some
      { target := { fromTufTarget args.target with
          correlationId := makeCorrelationId env args.target "" }
        reason := args.reason, mode := args.mode, isLocal := false }) w) :
    wp (installer St styled cfg args env) Q E w := by
  obtain ⟨hro, hmeta, hfits⟩ := hready
  obtain ⟨targets, tt, htargets, hfound⟩ := hlisted
  have htrusted : isTrusted St env args.target false args.requireInTuf w.db = .ok true :=
    isTrusted_iff.mpr ⟨hmeta, targets, htargets, .inl ⟨tt, hfound⟩⟩
  rw [installer, hro, hid, honline, hchecked]
  simp only [Bool.false_eq_true, if_false, wp_bind, wp_get, wp_orThrow, htrusted, Bool.not_true,
    if_neg (Nat.not_lt.mpr hfits), if_true]
  rw [openContext, honline]
  exact hQ

theorem pullAndInstall_good {r : SelectResult} {env : PullEnv}
    (hhash : ∀ hash db, (St.current hash db).sha256Hash = hash)
    (hfree : (getPendingTarget St w).isValid = false) (hcurrent : Returns (currentTufTarget St w))
    (htarget : Installable styled cfg r.selected custom) (h : env.Good cfg r.selected w) :
    wp (pullAndInstall St styled cfg (.daemon r) env)
      (fun _ u => Awaits St (recordedTarget r.selected custom
        (makeCorrelationId env.installer r.selected "")) w u)
      (fun _ _ => False) w := by
  obtain ⟨current, hcurrent⟩ := hcurrent
  have hspace : stillNoSpace w.noSpace (PullArgs.daemon r).target env.usage = false := h.space
  rw [pullAndInstall, wp_bind, wp_get, hfree, if_neg (by decide), wp_bind, wp_get, wp_bind,
    wp_orThrow, hcurrent]
  dsimp only
  rw [wp_bind, wp_get, hspace, if_neg (by decide), wp_bind, wp_modify, wp_bind]
  refine wp_installer_listed rfl rfl rfl h.ready h.listed ?_
  dsimp only
  have hframe : DownloadFrame (.same fun w : World Db => (w.db, w.rootfs)) :=
    ⟨fun _ _ => rfl, fun _ _ => rfl⟩
  have hversion : Returns (toTufTarget { fromTufTarget r.selected with
      correlationId := makeCorrelationId env.installer r.selected "" }) :=
    ⟨_, htarget.version⟩
  have hdownload : (PullArgs.daemon r).doDownload = true := rfl
  rw [wp_bind, downloadFirst, hdownload, if_neg (by decide), wp_bind]
  refine wp_mono (wp_and (contextDownload_good h.download rfl htarget.logged hversion)
    (within_contextDownload hframe _ env.download _)) (fun res v hv => ?_) fun _ _ h => h.1
  obtain ⟨hstatus, hkept⟩ := hv
  obtain ⟨hdb, hrootfs⟩ := Prod.mk.inj hkept
  have hdb : v.db = w.db := hdb
  have hrootfs : v.rootfs = w.rootfs := hrootfs
  rw [if_neg (fun hne => hne hstatus)]
  show wp (installOrRollBack St styled cfg _ current _ env) _ _ v
  rw [installOrRollBack, wp_bind]
  refine wp_mono (contextInstall_good hhash h.install htarget rfl (h.deploys.of_same hrootfs))
    (fun res' u hu => ?_) fun _ _ h => h
  rw [if_neg hu.1]
  exact ⟨by rw [hu.2.db, hdb]; rfl, hu.2.deployed, hu.2.reboot⟩

end Update

/-! ## The turn -/

/-- The latest target of the check-in is an update of the current one. -/
structure NewerOffered (St : Storage Db) (autoDowngrade : Bool) (ci : CheckInResult) (w : World Db)
    (latest current : TufTarget) : Prop where
  good : ci.good = true
  found : selectTarget ci (-1) "" = .ok latest
  known : latest.isUnknown = false
  reads : currentTufTarget St w = .ok current
  newer : autoDowngrade = true ∨ current.version ≤ latest.version
  other : latest.name ≠ current.name
  untried : isRollback St latest.name w.db = false

section Turn

variable {St : Storage Db} {styled : Json → String} {cfg : Config} {w : World Db}
  {latest current : TufTarget} {custom : Json}

theorem planTarget_newer {autoDowngrade : Bool} {ci : CheckInResult}
    (h : NewerOffered St autoDowngrade ci w latest current) :
    planTarget St ci (.daemon autoDowngrade) w = .ok (.update latest current false) := by
  have hdowngrade : (!autoDowngrade && decide (latest.version < current.version)) = false := by
    rcases h.newer with hauto | hle
    · rw [hauto]
      rfl
    · rw [decide_eq_false (by omega), Bool.and_false]
  have hcandidate : chooseCandidate St latest current w.db = .ok (some (latest, false)) := by
    rw [chooseCandidate, if_neg]
    · rfl
    · rw [Bool.and_eq_true, beq_iff_eq]
      exact fun hboth => h.other hboth.2.symm
  have hother : (latest.name != current.name) = true := bne_iff_ne.mpr h.other
  simp [planTarget, SelectArgs.daemon, h.good, h.found, h.known, h.reads, hcandidate, h.untried,
    hother, hdowngrade, bind, Except.bind, pure, Except.pure]

theorem getTargetToInstall_newer {autoDowngrade : Bool} {ci : CheckInResult} {env : CheckEnv}
    (h : NewerOffered St autoDowngrade ci w latest current)
    (hcheck : checkReturns St styled cfg env latest w = true) :
    wp (getTargetToInstall St styled cfg ci (.daemon autoDowngrade) env)
      (fun r v => r.selected = latest ∧ v.db = w.db ∧ v.rootfs = w.rootfs ∧
        v.noSpace = w.noSpace) (fun _ _ => False) w := by
  have hplan := planTarget_newer h
  have hnotified : ∀ err (v : World Db), (notified cfg err v).db = v.db ∧
      (notified cfg err v).rootfs = v.rootfs ∧ (notified cfg err v).noSpace = v.noSpace := by
    intro err v
    unfold notified
    split
    · exact ⟨rfl, rfl, rfl⟩
    · exact ⟨rfl, rfl, rfl⟩
  refine getTargetToInstall_rule (fun e herror => ?_) (fun _ _ hdone => ?_) ?_ fun _ _ hsync => ?_
  · cases hplan.symm.trans herror
  · cases hplan.symm.trans hdone
  · intro candidate current' rollbackOperation hupdate v hv
    cases hplan.symm.trans hupdate
    refine ⟨fun e hthrows => ?_, fun reason => ⟨rfl, ?_⟩⟩
    · rw [hcheck] at hthrows
      cases hthrows
    · obtain ⟨hdb, hrootfs, hspace⟩ := hnotified "" v
      exact ⟨hdb.trans hv.db, hrootfs.trans hv.rootfs, hspace.trans hv.noSpace⟩
  · cases hplan.symm.trans hsync

theorem PullEnv.Good.of_same {env : PullEnv} {v : World Db} (h : env.Good cfg latest w)
    (hrootfs : v.rootfs = w.rootfs) (hspace : v.noSpace = w.noSpace) :
    env.Good cfg latest v :=
  { h with
    space := by rw [hspace]; exact h.space
    deploys := h.deploys.of_same hrootfs }

end Turn

/-- What the turn meets in which the target is offered. -/
structure GoodTurn (d : Device Key Stamp R T) (St : Storage Db) (env : DaemonEnv) (w : World Db)
    (repo : T) (latest : TufTarget) (custom : Json) (turn : TurnEnv) : Prop where
  offered : ∃ checked current, (checkIn d (getCurrent St w) repo).1 = .ok checked ∧
    NewerOffered St env.autoDowngrade checked.result w latest current
  checked : checkReturns St d.tk.toStyledString d.cfg turn.check latest w = true
  installable : Installable d.tk.toStyledString d.cfg latest custom
  pull : turn.pull.Good d.cfg latest w

/-- The target that the turn installs. -/
def TurnEnv.installed (turn : TurnEnv) (latest : TufTarget) (custom : Json) : Target :=
  recordedTarget latest custom (makeCorrelationId turn.pull.installer latest "")

/-- A process after an update that waits for its reboot. -/
structure Updated (St : Storage Db) (env : DaemonEnv) (turn : TurnEnv) (latest : TufTarget)
    (custom : Json) (w : World Db) (p : Process Db T) : Prop where
  awaits : Awaits St (turn.installed latest custom) w p.world
  calls : p.calls.map (fun c => c.args.target) = [latest]
  reboots : p.reboots =
    if env.isBooted && env.rebootCommand != "" && turn.isRoot then [env.rebootCommand] else []

/-- A process that has begun no update yet, and may begin one. -/
structure Process.Waiting (St : Storage Db) (p : Process Db T) : Prop where
  calls : p.calls = []
  reboots : p.reboots = []
  free : p.world.Free St

section Process

variable {d : Device Key Stamp R T} {St : Storage Db} {env : DaemonEnv} {p : Process Db T}
  {latest : TufTarget} {custom : Json} {turn : TurnEnv} {turns : List TurnEnv}

/-- The end of a turn with a reboot due. -/
theorem rebootIfRequired_due {isRoot : Bool}
    (hdue : p.world.rebootRequired = true) :
    rebootIfRequired env isRoot p = .ok true { p with
      reboots := (if env.isBooted && env.rebootCommand != "" && isRoot then [env.rebootCommand]
        else []) ++ p.reboots } := by
  rw [rebootIfRequired, get_bind, hdue, if_neg (by decide)]
  cases env.isBooted && env.rebootCommand != "" && isRoot with
  | false => rfl
  | true => rfl

theorem daemonTurn_good (hhash : ∀ hash db, (St.current hash db).sha256Hash = hash)
    (hp : p.Waiting St) (h : GoodTurn d St env p.world p.repo latest custom turn) :
    wp (daemonTurn d St env turn)
      (fun stop q => stop = true ∧ Updated St env turn latest custom p.world q)
      (fun _ _ => False) p := by
  obtain ⟨checked, current, hanswer, hoffered⟩ := h.offered
  rw [daemonTurn, wp_bind, wp_get, wp_bind, wp_orThrow, hoffered.reads]
  dsimp only
  rw [wp_bind]
  refine wp_mono wp_daemonCheckIn (fun ci q hci => ?_) fun e q hq => ?_
  · obtain ⟨hchecks, checked', hanswer', rfl⟩ := hci
    obtain rfl : checked = checked' := Except.ok.inj (hanswer.symm.trans hanswer')
    obtain ⟨events, hworld, _⟩ := hchecks.world
    rw [hoffered.good, if_neg (by decide), wp_bind, onWorld, wp_focus, hworld]
    have hoffered' : NewerOffered St env.autoDowngrade checked.result
        { p.world with trace := events ++ p.world.trace } latest current := { hoffered with }
    refine wp_mono (getTargetToInstall_newer hoffered' h.checked) (fun r v hr => ?_)
      fun _ _ h => h
    obtain ⟨rfl, hdb, hrootfs, hspace⟩ := hr
    have hpending : (getPendingTarget St v).isValid = false := by
      rw [getPendingTarget, hdb]
      exact hp.free.pending
    have hcurrent : Returns (currentTufTarget St v) := by
      rw [currentTufTarget, getCurrent, hdb, hrootfs]
      exact ⟨current, hoffered.reads⟩
    rw [hoffered.known, if_neg (by decide), wp_bind, wp_pullSelected]
    refine wp_mono (pullAndInstall_good hhash hpending hcurrent h.installable
      (h.pull.of_same hrootfs hspace)) (fun _ u hu => ?_) fun _ _ h => h
    refine wp_of_ok (rebootIfRequired_due hu.reboot) ⟨rfl, ⟨?_, hu.deployed, hu.reboot⟩, ?_, ?_⟩
    · rw [hu.db, hdb]
      rfl
    · rw [hchecks.calls, hp.calls]
      rfl
    · rw [hchecks.reboots, hp.reboots]
      exact List.append_nil _
  · cases hanswer.symm.trans hq.2

/-- A process that still runs after some turns goes on with the others. -/
theorem daemonLoop_append (turns rest : List TurnEnv) (p : Process Db T) :
    wp (daemonLoop d St env turns)
      (fun code q => code = none →
        daemonLoop d St env (turns ++ rest) p = daemonLoop d St env rest q)
      (fun _ _ => True) p := by
  induction turns generalizing p with
  | nil => exact fun _ => rfl
  | cons turn turns ih =>
    rw [daemonLoop, wp_bind]
    refine wp_of_run (fun stop q hturn => ?_) fun _ _ _ => trivial
    rw [List.cons_append, daemonLoop, bind_of_ok hturn]
    cases stop with
    | true => exact fun h => by cases h
    | false =>
      cases env.returnOnSleep with
      | true => exact fun h => by cases h
      | false => exact ih q

theorem runDaemon_append {q : Process Db T} (h : runDaemon d St env turns p = .ok none q)
    (rest : List TurnEnv) :
    runDaemon d St env (turns ++ rest) p = daemonLoop d St env rest q := by
  refine wp_ok (E := fun _ _ => True) (Q := fun code q => code = none →
    runDaemon d St env (turns ++ rest) p = daemonLoop d St env rest q) ?_ h rfl
  unfold runDaemon
  by_cases hserver : env.repoServer = ""
  · rw [if_pos hserver]
    exact fun h => by cases h
  rw [if_neg hserver, if_neg hserver]
  cases env.isExecutable with
  | false => exact fun h => by cases h
  | true =>
    refine wp_bind.mpr (wp_of_run (fun go v hstart => ?_) fun _ _ _ => trivial)
    cases go with
    | false => exact fun h => by cases h
    | true =>
      refine wp_mono (daemonLoop_append turns rest v) (fun code q h hcode => ?_) fun _ _ h => h
      exact (bind_of_ok hstart).trans (h hcode)

theorem runDaemon_good (hhash : ∀ hash db, (St.current hash db).sha256Hash = hash)
    {start : Process Db T} (hrun : runDaemon d St env turns start = .ok none p)
    (hp : p.Waiting St) (h : GoodTurn d St env p.world p.repo latest custom turn)
    (rest : List TurnEnv) :
    ∃ q, runDaemon d St env (turns ++ turn :: rest) start = .ok (some .success) q ∧
      Updated St env turn latest custom p.world q := by
  obtain ⟨stop, q, hturn, rfl, hupdated⟩ := wp_false_iff.mp (daemonTurn_good hhash hp h)
  refine ⟨q, ?_, hupdated⟩
  rw [runDaemon_append hrun, daemonLoop, bind_of_ok hturn]
  rfl

end Process

/-! ## After the reboot -/

section Reboot

variable {St : Storage Db} {styled : Json → String} {cfg : Config} {w : World Db}
  {latest : TufTarget} {custom : Json}

/-- The note of the installation can be read, whatever apps it was made for. -/
theorem Installable.startsWithin (h : Installable styled cfg latest custom) :
    ∃ enabled, StartsWithin styled cfg enabled custom := by
  obtain ⟨required, hrequired, hnoted⟩ := h.noted
  have hjson : appsJson custom = appsJson latest.custom := appsJson_withInstallContext hnoted
  have hkept : getRequiredApps styled cfg custom = getRequiredApps styled cfg latest.custom := by
    rw [getRequiredApps, requiredNames, targetApps_congr hjson, hjson, getRequiredApps,
      requiredNames]
  obtain ⟨enabled, henabled⟩ := (h.reads "").1
  by_cases hnone : required = []
  · subst hnone
    obtain rfl : custom = latest.custom := (Except.ok.inj hnoted).symm
    have hnote : latest.custom.index "install-context" = .ok .null := Json.index_of_find h.unnoted
    exact ⟨enabled, .null, enabled, hnote, henabled, fun app happ => ⟨true, rfl, fun _ => happ⟩,
      fun _ => ⟨_, hrequired⟩⟩
  · obtain ⟨note, hnote, happs⟩ := note_withInstallContext hnone hnoted
    refine ⟨enabled, note, enabled, hnote, henabled, fun app happ => ?_, fun _ =>
      ⟨required, hkept.trans hrequired⟩⟩
    obtain ⟨before, hbefore, _⟩ := installedBefore_note happs app
    exact ⟨before, hbefore, fun _ => happ⟩

theorem completeInstallation_good {env : CompleteEnv} {target : Target} (h : env.Good)
    (hp : St.pending w.db = some target) (htarget : Installable styled cfg latest target.custom) :
    wp (completeInstallation St styled cfg env)
      (fun r _ => r.status = .ok ∨ r.status = .okBootFwNeedsCompletion) (fun _ _ => False) w := by
  obtain ⟨enabled, hwithin⟩ := htarget.startsWithin
  have hwell : FinalizesWell env.finalize enabled :=
    ⟨h.ostree, h.engine.stop, fun app _ => h.engine.start app, h.engine.runningInfo⟩
  have hmanager : wp (managerFinalizeInstall styled cfg env.finalize target : M Db _)
      (fun res _ => res.code = .kOk) (fun _ _ => False) w := by
    unfold managerFinalizeInstall
    cases cfg.pacman with
    | ostree =>
      obtain ⟨description, hostree⟩ := h.ostree
      rw [wp_orThrow, hostree]
    | compose => exact wp_finalize_succeeds hwithin hwell
  refine completeInstallation_rule hp (fun e he => ?_) fun _ => ?_
  · cases h.callback.symm.trans he
  · rw [finalizePendingUpdate, wp_bind]
    refine wp_mono hmanager (fun ret v hret => ?_) fun _ _ h => h
    have hsuccess : ret.isSuccess = true := by
      rw [InstallationResult.isSuccess, hret]
      rfl
    rw [if_pos hsuccess, wp_bind, wp_saveInstalledVersion]
    refine ⟨fun e he => ?_, fun _ _ r _ hstatus => ?_⟩
    · rcases he with he | he
      · cases h.writeCurrent.symm.trans he
      · cases h.notifyFinished.symm.trans he
    · rw [hret] at hstatus
      exact hstatus

/-- The client that is started after the reboot.  The deployed rootfs has been booted. -/
structure RebootedFrom (u w : World Db) : Prop where
  db : w.db = u.db
  booted : w.rootfs.sys.booted = u.rootfs.sys.pending
  reboot : w.rebootRequired = false
  nothingLeft : w.appsToFetch = []

/-- What the storage says after a target has been recorded as the pending one. -/
def PendingStored (St : Storage Db) : Prop :=
  ∀ t db, St.pending (St.save t .kPending db) = some t

theorem Awaits.bootedInto {target : Target} {u w' : World Db} (hstored : PendingStored St)
    (hvalid : target.isValid = true) (h : Awaits St target w u) (hreboot : RebootedFrom u w') :
    BootedInto St target w' where
  pending := by rw [hreboot.db, h.db, hstored]
  valid := hvalid
  booted := hreboot.booted.trans h.deployed
  reboot := hreboot.reboot
  nothingLeft := hreboot.nothingLeft

theorem ComparesApps.congr {custom' : Json} (hjson : appsJson custom' = appsJson custom)
    (h : ComparesApps cfg custom) : ComparesApps cfg custom' := by
  obtain ⟨json, hread, huri, hformed, hfields⟩ := h.reads
  exact ⟨h.unforced, fun fields hobj => h.keys fields (hjson.symm.trans hobj), json,
    hjson.trans hread, huri, hformed, hfields.imp_left (AppFields.congr hjson)⟩

end Reboot

/-- What the process after the reboot meets: the finalization succeeds, the check-ins offer
nothing newer, and the apps of the target run and are fetched. -/
structure GoodBoot (d : Device Key Stamp R T) (St : Storage Db) (target : Target) (env : DaemonEnv)
    (turns : List TurnEnv) (w : World Db) (repo : T) : Prop where
  server : env.repoServer ≠ ""
  command : env.isExecutable = true
  complete : env.complete.Good
  apps : ∀ turn ∈ turns, AppsRun d.tk.toStyledString d.cfg target.custom turn.check
  offers : ∃ Served : T → Prop, Served repo ∧
    OffersNone d St env.autoDowngrade target (St.save target .kCurrent w.db) Served

/-- An update goes through.  If nothing fails in a turn in which a newer target is offered, the
first one in which the process begins an update, the process ends in this turn with the target
pending, whatever turns were to come, and has pulled this target only and has executed the reboot
command if it can.  If nothing fails after the reboot, the next process makes the target the
current one and begins no other update, as long as none is forced and the apps run and are
fetched. -/
theorem update_goes_through {St : Storage Db} (hSt : PendingRecord St)
    (hcontract : PendingContract St) (hcurrent : CurrentRecord St) (hstored : PendingStored St)
    (d : Device Key Stamp R T) (env : DaemonEnv) (waiting : List TurnEnv) (turn : TurnEnv)
    (rest : List TurnEnv) (start p : Process Db T) (latest : TufTarget) (custom : Json)
    (hwait : runDaemon d St env waiting start = .ok none p) (hp : p.Waiting St)
    (hturn : GoodTurn d St env p.world p.repo latest custom turn) :
    ∃ q, runDaemon d St env (waiting ++ turn :: rest) start = .ok (some .success) q ∧
      Updated St env turn latest custom p.world q ∧
      ∀ env' turns w repo, RebootedFrom q.world w → ComparesApps d.cfg latest.custom →
        GoodBoot d St (turn.installed latest custom) env' turns w repo →
        (after (runDaemon d St env' turns) (.started w repo)).calls = [] ∧
          (after (runDaemon d St env' turns) (.started w repo)).reboots = [] ∧
          AtRest St (turn.installed latest custom)
            (after (runDaemon d St env' turns) (.started w repo)).world := by
  obtain ⟨q, hrun, hupdated⟩ := runDaemon_good hcontract.current hwait hp hturn rest
  refine ⟨q, hrun, hupdated, ?_⟩
  intro env' turns w repo hreboot happs hboot
  have hinto : BootedInto St (turn.installed latest custom) w :=
    hupdated.awaits.bootedInto hstored rfl hreboot
  obtain ⟨Served, hserved, hoffers⟩ := hboot.offers
  obtain ⟨required, _, hnoted⟩ := hturn.installable.noted
  have hjson : appsJson custom = appsJson latest.custom := appsJson_withInstallContext hnoted
  obtain ⟨r, v, hfinal⟩ := wp_false_iff.mp
    (completeInstallation_good hboot.complete hinto.pending hturn.installable)
  obtain ⟨hend, _⟩ := rests_of_finalized hSt hcurrent hboot.server hboot.command hinto ⟨r, hfinal⟩
    (happs.congr hjson) hboot.apps hserved hoffers
  exact ⟨hend.waits.calls, hend.waits.reboots, hend.atRest⟩

/-! ## A run -/

/-- The app is new with this target. -/
def webTufTarget : TufTarget :=
  { name := "board-lmp-3", sha256Hash := "h3", version := 3
    custom := .obj [("docker_compose_apps", .obj [("web", .obj [("uri", .str "web@3")])]),
      ("hardwareIds", .arr [.str "board"]), ("tags", .arr [.str "main"]),
      ("targetFormat", .str "OSTREE"), ("version", .str "3")] }

/-- The server is offline in the first turn. -/
def webDevice : Device String Unit Int Bool :=
  { prodDevice (boardBundle []) with
    repo :=
      { getRoot _ := "root"
        targets _ := some [fromTufTarget webTufTarget]
        updateMeta _ online := (if online then .ok () else .error (.fetchFailure "offline"), true)
        checkMeta online := (.error "expired", online) } }

def webEnv : DaemonEnv := .completing (.starting fun _ => .ok .ok)

def webTurn : TurnEnv := { TurnEnv.succeeds with pull := .succeeds [webTufTarget] }

/-- The custom data as they are recorded. -/
def notedCustom : Json :=
  ((withInstallContext webTufTarget.custom [("web", "web@3")]).toOption).getD .null

/-- The process after this turn. -/
def webProcess : Process InstalledVersions Bool :=
  after (runDaemon webDevice installedVersions webEnv [webTurn]) (.started factoryDevice false)

theorem goodTurn_web :
    GoodTurn webDevice installedVersions webEnv webProcess.world webProcess.repo webTufTarget
      notedCustom webTurn where
  offered := by
    refine ⟨_, _, rfl, rfl, rfl, rfl, rfl, .inr ?_, ?_, rfl⟩
    · decide
    · decide
  checked := rfl
  installable := ⟨⟨_, rfl⟩, ⟨_, rfl, rfl⟩, rfl, rfl⟩
  pull :=
    { space := rfl
      ready := ⟨rfl, rfl, by decide⟩
      listed := ⟨_, webTufTarget, rfl, rfl⟩
      download := ⟨⟨⟨_, rfl, rfl⟩, fun _ => rfl⟩, rfl, rfl, rfl, fun _ => rfl, fun _ => rfl⟩
      install := ⟨⟨rfl, fun _ => rfl, fun _ => rfl⟩, rfl,
        ⟨fun _ => rfl, fun _ => rfl, ⟨_, rfl⟩⟩, rfl⟩
      deploys := ⟨⟨fun _ => rfl, rfl, rfl, rfl⟩, ⟨_, _, rfl, rfl⟩, by decide⟩ }

/-- The two processes of an update of a new device, and the reboot between them. -/
theorem new_device_goes_through :
    ∃ p, runDaemon webDevice installedVersions webEnv [webTurn, webTurn]
        (.started factoryDevice false) = .ok (some .success) p ∧
      p.reboots = ["/sbin/reboot"] ∧
      ∀ w, RebootedFrom p.world w →
        getCurrent installedVersions (after (runDaemon webDevice installedVersions webEnv
          [webTurn, webTurn]) (.started w true)).world =
            webTurn.installed webTufTarget notedCustom := by
  have hjson : appsJson webTufTarget.custom = appsJson (webCustom "3" "web@3") := rfl
  obtain ⟨p, hrun, hupdated, hnext⟩ := update_goes_through installedVersions_pendingRecord
    pendingContract_installedVersions installedVersions_currentRecord (fun _ _ => rfl) webDevice
    webEnv [webTurn] webTurn [] (.started factoryDevice false) webProcess webTufTarget notedCustom
    rfl ⟨rfl, rfl, rfl, rfl⟩ goodTurn_web
  refine ⟨p, hrun, hupdated.reboots, fun w hw => ?_⟩
  have happs : ∀ turn ∈ [webTurn, webTurn],
      AppsRun webDevice.tk.toStyledString webDevice.cfg notedCustom turn.check := by
    intro turn hturn
    obtain rfl : turn = webTurn := by simpa using hturn
    exact ⟨fun _ _ _ _ => rfl, fun _ _ _ _ => rfl⟩
  -- The latest target has the name of the current one.
  have hoffers : OffersNone webDevice installedVersions false
      (webTurn.installed webTufTarget notedCustom) (installedVersions.save
        (webTurn.installed webTufTarget notedCustom) .kCurrent w.db) (· = true) := by
    refine ⟨?_, ?_⟩
    · rintro _ rfl
      rfl
    · rintro _ _ rfl ⟨⟩ - _ _ ⟨⟩ -
      exact .inl rfl
  exact (hnext webEnv [webTurn, webTurn] w true hw
    ((comparesApps_web "3" "web@3").congr hjson)
    ⟨by decide, rfl, ⟨rfl, ⟨_, rfl⟩, ⟨fun _ => rfl, fun _ => rfl, ⟨_, rfl⟩⟩, rfl, rfl⟩, happs,
      (· = true), rfl, hoffers⟩).2.2.current

end Client
end AkLite
