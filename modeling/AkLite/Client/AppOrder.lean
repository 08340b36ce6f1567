/-
Installations whose apps fail in different ways.

The apps to update are a map without an order, and the package manager tries them all.
It keeps the code of the last failure only: an image that could not be pulled gives
`kDownloadFailed`, any other failure `kInstallFailed`.  As long as all failures are of
one kind the order does not matter.  If both kinds occur, an order that ends with the
image pull hides the other failure, and the client then does not mark the target as
failing.
-/
import AkLite.Client.InstalledVersions
import AkLite.Client.Installing
import AkLite.Client.Within

namespace AkLite
namespace Client

open Lib Boot

/-! ## Outcomes of apps -/

def AppResult.isFailed : AppResult → Bool
  | .failed _ => true
  | _ => false

def AppResult.isImagePullFailure : AppResult → Bool
  | .imagePullFailure _ => true
  | _ => false

/-- The engine answers for each app. -/
def InstallEnv.answering (env : InstallEnv) (outcome : App → AppResult) : InstallEnv :=
  { env with start := fun app => .ok (outcome app) }

@[simp]
theorem InstallEnv.answering_appsRoot (env : InstallEnv) (outcome : App → AppResult) :
    (env.answering outcome).appsRoot = env.appsRoot := rfl

@[simp]
theorem InstallEnv.answering_stop (env : InstallEnv) (outcome : App → AppResult) :
    (env.answering outcome).stop = env.stop := rfl

/-- The result code after one more app. -/
def codeAfter (outcome : App → AppResult) (code : ResultCode) (app : App) : ResultCode :=
  match outcome app with
  | .ok => code
  | .failed _ => .kInstallFailed
  | .imagePullFailure _ => .kDownloadFailed

section Codes

variable {outcome : App → AppResult} {apps order : List App} {code : ResultCode}

def someFailed (outcome : App → AppResult) (apps : List App) : Bool :=
  apps.any fun app => (outcome app).isFailed

def somePullFailed (outcome : App → AppResult) (apps : List App) : Bool :=
  apps.any fun app => (outcome app).isImagePullFailure

/-- Some apps fail with an image pull, and some for another reason. -/
def MixedFailures (outcome : App → AppResult) (apps : List App) : Prop :=
  someFailed outcome apps = true ∧ somePullFailed outcome apps = true

/-- The code of apps that fail in one way at most. -/
def settledCode (outcome : App → AppResult) (apps : List App) (code : ResultCode) : ResultCode :=
  if someFailed outcome apps then .kInstallFailed
  else if somePullFailed outcome apps then .kDownloadFailed
  else code

theorem someFailed_perm (hp : order.Perm apps) :
    someFailed outcome order = someFailed outcome apps :=
  Bool.eq_iff_iff.mpr (by simp only [someFailed, List.any_eq_true, hp.mem_iff])

theorem somePullFailed_perm (hp : order.Perm apps) :
    somePullFailed outcome order = somePullFailed outcome apps :=
  Bool.eq_iff_iff.mpr (by simp only [somePullFailed, List.any_eq_true, hp.mem_iff])

theorem mixedFailures_perm (hp : order.Perm apps) :
    MixedFailures outcome order ↔ MixedFailures outcome apps := by
  rw [MixedFailures, MixedFailures, someFailed_perm hp, somePullFailed_perm hp]

theorem settledCode_perm (hp : order.Perm apps) :
    settledCode outcome order code = settledCode outcome apps code := by
  rw [settledCode, settledCode, someFailed_perm hp, somePullFailed_perm hp]

theorem appsCode_answering {env : InstallEnv} :
    appsCode (env.answering outcome) apps code = .ok (apps.foldl (codeAfter outcome) code) := by
  induction apps generalizing code with
  | nil => rfl
  | cons app rest ih =>
    rw [appsCode, List.foldl_cons]
    cases happ : outcome app with
    | ok => simpa [InstallEnv.answering, codeAfter, happ, bind, Except.bind] using ih
    | failed err => simpa [InstallEnv.answering, codeAfter, happ, bind, Except.bind] using ih
    | imagePullFailure err =>
      simpa [InstallEnv.answering, codeAfter, happ, bind, Except.bind] using ih

@[simp]
theorem someFailed_cons (app : App) :
    someFailed outcome (app :: apps) = ((outcome app).isFailed || someFailed outcome apps) := rfl

@[simp]
theorem somePullFailed_cons (app : App) :
    somePullFailed outcome (app :: apps) =
      ((outcome app).isImagePullFailure || somePullFailed outcome apps) := rfl

theorem foldl_codeAfter_settled (h : ¬ MixedFailures outcome apps) :
    apps.foldl (codeAfter outcome) code = settledCode outcome apps code := by
  induction apps generalizing code with
  | nil => rfl
  | cons app rest ih =>
    rw [MixedFailures, someFailed_cons, somePullFailed_cons] at h
    have hrest : ¬ MixedFailures outcome rest := by
      intro hm
      exact h ⟨by rw [hm.1, Bool.or_true], by rw [hm.2, Bool.or_true]⟩
    rw [List.foldl_cons, ih hrest, settledCode, settledCode, someFailed_cons,
      somePullFailed_cons, codeAfter]
    cases happ : outcome app with
    | ok => simp [AppResult.isFailed, AppResult.isImagePullFailure]
    | failed err =>
      have hpull : somePullFailed outcome rest = false := by
        simpa [happ, AppResult.isFailed, AppResult.isImagePullFailure] using h
      simp [AppResult.isFailed, hpull]
    | imagePullFailure err =>
      have hfailed : someFailed outcome rest = false := by
        simpa [happ, AppResult.isFailed, AppResult.isImagePullFailure] using h
      simp [AppResult.isFailed, AppResult.isImagePullFailure, hfailed]

/-- The last app fails, so it decides. -/
theorem foldl_codeAfter_last {app : App} (h : (outcome app).isImagePullFailure = true) :
    (apps ++ [app]).foldl (codeAfter outcome) code = .kDownloadFailed := by
  rw [List.foldl_append]
  cases happ : outcome app with
  | ok => simp [happ, AppResult.isImagePullFailure] at h
  | failed err => simp [happ, AppResult.isImagePullFailure] at h
  | imagePullFailure err => simp [codeAfter, happ]

/-- The code says that an app failed. -/
def isAppFailure (code : ResultCode) : Bool := code == .kInstallFailed || code == .kDownloadFailed

/-- A failure is overwritten by failures only. -/
theorem foldl_codeAfter_failure (h : isAppFailure code = true ∨ someFailed outcome apps = true) :
    isAppFailure (apps.foldl (codeAfter outcome) code) = true := by
  induction apps generalizing code with
  | nil => exact h.elim id (fun h => by cases h)
  | cons app rest ih =>
    refine ih ?_
    rw [someFailed_cons, Bool.or_eq_true] at h
    cases happ : outcome app with
    | ok => simpa [codeAfter, happ, AppResult.isFailed] using h
    | failed err => exact .inl (by simp [codeAfter, happ, isAppFailure])
    | imagePullFailure err => exact .inl (by simp [codeAfter, happ, isAppFailure])

end Codes

/-! ## Installations in every order -/

section Orders

variable {Db : Type}

/-- The package manager iterates over its apps in this order. -/
def World.inOrder (w : World Db) (order : List App) : World Db :=
  { w with appsToFetchAndUpdate := order }

/-- How often the engine was asked to start or to install the app. -/
def startCalls (app : App) (w : World Db) : Nat :=
  w.effects.count (.run app) + w.effects.count (.install app)

/-- An app of the installation was tried, and failed for another reason than an image
pull. -/
def AppFailed (outcome : App → AppResult) (apps : List App) (w w' : World Db) : Prop :=
  ∃ app ∈ apps, startCalls app w < startCalls app w' ∧ (outcome app).isFailed = true

variable (St : Storage Db) (styled : Json → String) (cfg : Config) (env : InstallEnv)
  (outcome : App → AppResult) (target : Target) (apps : List App) (w : World Db)

/-- The code does not depend on the order, and a failure other than an image pull decides
it, so that the target is marked as failing. -/
structure FailureDecides : Prop where
  orderFree : ∀ order order', order.Perm apps → order'.Perm apps → ∀ res res' u u',
    composeInstall St styled cfg (env.answering outcome) target (w.inOrder order) = .ok res u →
    composeInstall St styled cfg (env.answering outcome) target (w.inOrder order') = .ok res' u' →
    res.code = res'.code
  failed : ∀ order, order.Perm apps → ∀ res u,
    composeInstall St styled cfg (env.answering outcome) target (w.inOrder order) = .ok res u →
    AppFailed outcome apps (w.inOrder order) u → res.code = .kInstallFailed
  marked : ∀ order, order.Perm apps → ∀ started written sent,
    let u := after (clientInstall St styled cfg
      { notifyStarted := started, manager := env.answering outcome, writeCurrent := written,
        notifyFinished := sent } target .all) (w.inOrder order)
    cfg.pacman = .compose → AppFailed outcome apps (w.inOrder order) u →
    u.db = St.save target .kNone w.db

/-- The apps that have to stop before the rootfs is installed do. -/
def AppsStop : Prop :=
  ∃ removed, removedApps cfg env.appsRoot target.custom = .ok removed ∧
    (∀ name ∈ removed, env.stop (name, "") = .ok ()) ∧
    ((getCurrent St w).sha256Hash ≠ target.sha256Hash ∨ cfg.stopAppsBeforeUpdate = true →
      ∀ app ∈ apps, env.stop app = .ok ())

/-- `RootfsTreeManager::install` returns this code. -/
def RootfsReturns (code : ResultCode) : Prop :=
  ∃ res r, rootfsInstall cfg.rollbackMode cfg.updateBlock (getCurrent St w).sha256Hash
    target.sha256Hash env.rootfs w.rootfs = .ok res r ∧ res.code = code

/-- After this code of the rootfs the apps are tried. -/
def appsFollow (code : ResultCode) : Bool :=
  !(code == .kNeedCompletion) || cfg.createContainersBeforeReboot

/-- The installation tries its apps, and reports on the running ones. -/
def TriesApps : Prop :=
  AppsStop St cfg env target apps w ∧
    (∃ code, RootfsReturns St cfg env target w code ∧ code ≠ .kInstallFailed ∧
      appsFollow cfg code = true) ∧
    ∃ info, env.runningInfo = .ok info

end Orders

section Proofs

variable {Db : Type} {St : Storage Db} {styled : Json → String} {cfg : Config} {env : InstallEnv}
  {outcome : App → AppResult} {target : Target} {apps : List App} {w : World Db}

theorem startCalls_emitted (app : App) (es : List Effect) :
    startCalls app (w.emitted es) =
      es.count (.run app) + es.count (.install app) + startCalls app w := by
  simp only [startCalls, World.emitted, List.count_append, List.count_reverse]
  omega

theorem startCalls_stops (app : App) (stopped : List App) :
    startCalls app (w.emitted (stopped.map .stop)) = startCalls app w := by
  have hrun : (stopped.map Effect.stop).count (.run app) = 0 :=
    List.count_eq_zero.mpr (by simp)
  have hinstall : (stopped.map Effect.stop).count (.install app) = 0 :=
    List.count_eq_zero.mpr (by simp)
  rw [startCalls_emitted, hrun, hinstall]
  omega

/-- No call is taken back. -/
def startsFrame : Frame (World Db) where
  rel w u := ∀ app, startCalls app w ≤ startCalls app u
  refl _ _ := Nat.le_refl _
  trans h h' app := Nat.le_trans (h app) (h' app)

theorem managerFrame_starts : ManagerFrame (startsFrame : Frame (World Db)) where
  emitted w es app := by
    rw [startCalls_emitted]
    omega
  engineApps _ _ _ := Nat.le_refl _
  rootfs _ _ _ := Nat.le_refl _
  lists _ _ _ _ := Nat.le_refl _
  record _ _ _ _ := Nat.le_refl _

/-- The calls of the loop. -/
def startCall (justInstall : Bool) (app : App) : Effect :=
  if justInstall then .install app else .run app

variable {res : InstallationResult} {order : List App}

theorem wp_startApps_effects {justInstall : Bool} :
    wp (startApps (env.answering outcome) justInstall apps res)
      (fun _ u => u.effects = (apps.map (startCall justInstall)).reverse ++ w.effects)
      (fun _ _ => False) w := by
  induction apps generalizing w res with
  | nil => rfl
  | cons app rest ih =>
    have hrest : ∀ res (v : World Db), v.effects = startCall justInstall app :: w.effects →
        wp (startApps (env.answering outcome) justInstall rest res)
          (fun _ u => u.effects =
            ((app :: rest).map (startCall justInstall)).reverse ++ w.effects)
          (fun _ _ => False) v := by
      intro res v hv
      refine wp_mono ih (fun _ u hu => ?_) (fun _ _ h => h)
      rw [hu, hv, List.map_cons, List.reverse_cons, List.append_assoc]
      rfl
    rw [startApps, wp_bind, wp_emit, wp_bind, wp_orThrow]
    show wp (match outcome app with
      | .ok => _
      | .failed err => _
      | .imagePullFailure err => _) _ _ _
    cases outcome app with
    | ok =>
      cases justInstall with
      | true => exact hrest _ _ rfl
      | false => exact hrest _ _ rfl
    | failed err => exact hrest _ _ rfl
    | imagePullFailure err => exact hrest _ _ rfl

/-- All apps are tried, and the last failure decides. -/
theorem wp_startApps_answering {justInstall : Bool} :
    wp (startApps (env.answering outcome) justInstall apps res)
      (fun res' u => res'.code = apps.foldl (codeAfter outcome) res.code ∧
        ∀ app ∈ apps, startCalls app w < startCalls app u)
      (fun _ _ => False) w := by
  refine wp_mono (wp_and wp_startApps wp_startApps_effects) (fun res' u h => ?_)
    (fun _ _ h => h.2)
  obtain ⟨⟨hcode, _⟩, heffects⟩ := h
  rw [appsCode_answering] at hcode
  refine ⟨(Except.ok.inj hcode).symm, fun app happ => ?_⟩
  have hcall : startCall justInstall app ∈ apps.map (startCall justInstall) :=
    List.mem_map_of_mem happ
  have hpos := List.count_pos_iff.mpr hcall
  simp only [startCalls, heffects, List.count_append, List.count_reverse]
  cases justInstall with
  | true =>
    simp only [startCall, if_true] at hpos ⊢
    omega
  | false =>
    simp only [startCall, Bool.false_eq_true, if_false] at hpos ⊢
    omega

/-- The part after the rootfs, if the apps are tried. -/
theorem wp_finishInstall_tries (hfollow : appsFollow cfg res.code = true) :
    wp (finishInstall styled cfg (env.answering outcome) target res)
      (fun res' u => (∃ info, env.runningInfo = .ok info) ∧
        res'.code = w.appsToFetchAndUpdate.foldl (codeAfter outcome) res.code ∧
        ∀ app ∈ w.appsToFetchAndUpdate, startCalls app w < startCalls app u)
      (fun _ _ => someFailed outcome w.appsToFetchAndUpdate = true →
        ∃ e, env.runningInfo = .error e) w := by
  unfold appsFollow at hfollow
  rw [finishInstall, wp_bind]
  unfold installApps
  dsimp only
  rw [wp_ite, if_pos hfollow, wp_bind, wp_get, wp_bind]
  refine wp_mono wp_startApps_answering (fun r u hu => ?_) (fun _ _ h => h.elim)
  obtain ⟨hcode, hcalls⟩ := hu
  have hend : ∀ u' : World Db, startsFrame.rel u u' →
      wp (do
        modify fun w : World Db => { w with appsToFetchAndUpdate := [], appsToFetch := [] }
        withRunningApps (env.answering outcome) r)
      (fun res' u => (∃ info, env.runningInfo = .ok info) ∧
        res'.code = w.appsToFetchAndUpdate.foldl (codeAfter outcome) res.code ∧
        ∀ app ∈ w.appsToFetchAndUpdate, startCalls app w < startCalls app u)
      (fun _ _ => someFailed outcome w.appsToFetchAndUpdate = true →
        ∃ e, env.runningInfo = .error e) u' := by
    intro u' hu'
    rw [wp_bind, wp_modify]
    refine wp_mono wp_withRunningApps (fun res' v hv => ?_) (fun _ v hv _ => hv.1)
    obtain ⟨hcode', hinfo, rfl⟩ := hv
    refine ⟨hinfo, hcode'.trans hcode, fun app happ => ?_⟩
    exact Nat.lt_of_lt_of_le (hcalls app happ) (hu' app)
  -- A success is not the end of an installation with a failed app.
  have hfail : r.isSuccess = true → someFailed outcome w.appsToFetchAndUpdate = true → False := by
    intro hs hfailed
    have hcode' : isAppFailure r.code = true := by
      rw [hcode]
      exact foldl_codeAfter_failure (.inr hfailed)
    cases hr : r.code <;> simp [InstallationResult.isSuccess, isAppFailure, hr] at hs hcode'
  rw [wp_pure]
  dsimp only
  split
  · next hs =>
    rw [wp_bind]
    refine wp_mono (within_handleRemovedApps managerFrame_starts.toFinalizeFrame _ _ u)
      (fun _ v hv => ?_) (fun _ _ _ hfailed => (hfail hs hfailed).elim)
    split
    · rw [wp_bind, wp_orThrow]
      cases getRequiredApps styled cfg target.custom with
      | error e => exact fun hfailed => (hfail hs hfailed).elim
      | ok required =>
        dsimp only
        rw [wp_bind]
        refine wp_mono (within_prune managerFrame_starts.toFinalizeFrame _ v) (fun _ v' hv' => ?_)
          (fun _ _ _ hfailed => (hfail hs hfailed).elim)
        exact hend v' (startsFrame.trans hv hv')
    · exact hend v hv
  · exact hend u (startsFrame.refl u)

/-- The part after the rootfs, if the apps wait for the reboot. -/
theorem wp_finishInstall_waits (hfollow : appsFollow cfg res.code = false) :
    wp (finishInstall styled cfg (env.answering outcome) target res)
      (fun res' u => res'.code = res.code ∧ ∀ app, startCalls app u = startCalls app w)
      (fun _ _ => True) w := by
  unfold appsFollow at hfollow
  have hneeds : res.code = .kNeedCompletion := by
    simpa using (Bool.or_eq_false_iff.mp hfollow).1
  rw [finishInstall, wp_bind]
  unfold installApps
  dsimp only
  rw [wp_ite, if_neg (Bool.eq_false_iff.mp hfollow), wp_pure]
  simp only [InstallationResult.isSuccess, hneeds]
  rw [if_neg (by decide), wp_bind, wp_modify]
  refine wp_mono wp_withRunningApps (fun res' v hv => ?_) (fun _ _ _ => trivial)
  obtain ⟨hcode, _, rfl⟩ := hv
  exact ⟨hcode, fun _ => rfl⟩

/-- What an installation returns, for the answers of the engine. -/
def ComposeExit (St : Storage Db) (cfg : Config) (env : InstallEnv) (outcome : App → AppResult)
    (target : Target) (w : World Db) (returned : ResultCode) (u : World Db) : Prop :=
  ∃ code, RootfsReturns St cfg env target w code ∧
    ((TriesApps St cfg env target w.appsToFetchAndUpdate w ∧
        returned = w.appsToFetchAndUpdate.foldl (codeAfter outcome) code ∧
        ∀ app ∈ w.appsToFetchAndUpdate, startCalls app w < startCalls app u) ∨
      (¬ TriesApps St cfg env target w.appsToFetchAndUpdate w ∧ returned = code ∧
        ∀ app, startCalls app u = startCalls app w))

/-- An installation with a failed app that throws has not tried its apps, or could not
report on them. -/
def ComposeThrows (St : Storage Db) (cfg : Config) (env : InstallEnv) (outcome : App → AppResult)
    (target : Target) (w : World Db) : Prop :=
  someFailed outcome w.appsToFetchAndUpdate = true →
    ¬ TriesApps St cfg env target w.appsToFetchAndUpdate w

theorem RootfsReturns.unique {code code' : ResultCode}
    (h : RootfsReturns St cfg env target w code) (h' : RootfsReturns St cfg env target w code') :
    code = code' := by
  obtain ⟨res, r, hrun, rfl⟩ := h
  obtain ⟨res', r', hrun', rfl⟩ := h'
  rw [hrun] at hrun'
  cases hrun'
  rfl

theorem not_triesApps_of_failed (h : RootfsReturns St cfg env target w .kInstallFailed) :
    ¬ TriesApps St cfg env target apps w := by
  intro ht
  obtain ⟨_, ⟨code, hcode, hne, _⟩, _⟩ := ht
  exact hne (hcode.unique h)

theorem not_triesApps_of_waits {code : ResultCode} (h : RootfsReturns St cfg env target w code)
    (hfollow : appsFollow cfg code = false) : ¬ TriesApps St cfg env target apps w := by
  intro ht
  obtain ⟨_, ⟨code', hcode', _, hfollow'⟩, _⟩ := ht
  rw [hcode'.unique h, hfollow] at hfollow'
  cases hfollow'

/-- The part of an installation that follows the stopping of apps. -/
theorem wp_installFrom_answering {v : World Db} (hrootfs : v.rootfs = w.rootfs)
    (happs : v.appsToFetchAndUpdate = w.appsToFetchAndUpdate)
    (hcalls : ∀ app, startCalls app v = startCalls app w)
    (hstop : AppsStop St cfg env target w.appsToFetchAndUpdate w) :
    wp (do
        emit (.installRootfs target.sha256Hash)
        let res ← onRootfs (rootfsInstall cfg.rollbackMode cfg.updateBlock
          (getCurrent St w).sha256Hash target.sha256Hash env.rootfs)
        if res.code = .kInstallFailed then withRunningApps (env.answering outcome) res
        else finishInstall styled cfg (env.answering outcome) target res)
      (fun res u => ComposeExit St cfg env outcome target w res.code u)
      (fun _ _ => ComposeThrows St cfg env outcome target w) v := by
  rw [wp_bind, wp_emit, wp_bind, wp_onRootfs]
  have hcalls' : ∀ (r : Rootfs) app, startCalls app
      { v.emitted [.installRootfs target.sha256Hash] with rootfs := r } = startCalls app w :=
    fun _ app => (startCalls_emitted app [.installRootfs target.sha256Hash]).trans
      (by simpa using hcalls app)
  refine wp_of_run (fun res r hr => ?_) (fun e r hr => ?_)
  · have hreturns : RootfsReturns St cfg env target w res.code := ⟨res, r, hrootfs ▸ hr, rfl⟩
    rw [wp_ite]
    split
    · next hfailed =>
      rw [hfailed] at hreturns
      refine wp_mono wp_withRunningApps (fun res' u hu => ?_) (fun _ _ _ _ => ?_)
      · obtain ⟨hcode, _, rfl⟩ := hu
        exact ⟨_, hreturns, .inr ⟨not_triesApps_of_failed hreturns, hcode.trans hfailed,
          hcalls' r⟩⟩
      · exact not_triesApps_of_failed hreturns
    · next hne =>
      cases hfollow : appsFollow cfg res.code with
      | true =>
        refine wp_mono (wp_finishInstall_tries hfollow) (fun res' u hu => ?_) (fun _ _ he => ?_)
        · obtain ⟨hinfo, hcode, hstarted⟩ := hu
          refine ⟨_, hreturns, .inl ⟨⟨hstop, ⟨_, hreturns, hne, hfollow⟩, hinfo⟩, ?_, ?_⟩⟩
          · rw [← happs]
            exact hcode
          · rw [← happs]
            intro app happ
            rw [← hcalls' r app]
            exact hstarted app happ
        · intro hfailed ht
          rw [← happs] at hfailed
          obtain ⟨e, he⟩ := he hfailed
          obtain ⟨_, _, info, hinfo⟩ := ht
          rw [hinfo] at he
          cases he
      | false =>
        have hno : ¬ TriesApps St cfg env target w.appsToFetchAndUpdate w :=
          not_triesApps_of_waits hreturns hfollow
        refine wp_mono (wp_finishInstall_waits hfollow) (fun res' u hu => ?_) (fun _ _ _ _ => hno)
        exact ⟨_, hreturns, .inr ⟨hno, hu.1, fun app => (hu.2 app).trans (hcalls' r app)⟩⟩
  · intro _ ht
    obtain ⟨_, ⟨code, ⟨res', r', hr', _⟩, _⟩, _⟩ := ht
    rw [← hrootfs] at hr'
    cases hr.symm.trans hr'

theorem wp_composeInstall_answering :
    wp (composeInstall St styled cfg (env.answering outcome) target)
      (fun res u => ComposeExit St cfg env outcome target w res.code u)
      (fun _ _ => ComposeThrows St cfg env outcome target w) w := by
  rw [composeInstall, wp_bind, wp_orThrow, InstallEnv.answering_appsRoot]
  cases hremoved : removedApps cfg env.appsRoot target.custom with
  | error e =>
    intro _ ht
    obtain ⟨⟨removed, h, _⟩, _⟩ := ht
    rw [hremoved] at h
    cases h
  | ok removed =>
    have hstops : AppsStop St cfg env target w.appsToFetchAndUpdate w ↔
        (∀ name ∈ removed, env.stop (name, "") = .ok ()) ∧
          ((getCurrent St w).sha256Hash ≠ target.sha256Hash ∨ cfg.stopAppsBeforeUpdate = true →
            ∀ app ∈ w.appsToFetchAndUpdate, env.stop app = .ok ()) := by
      simp [AppsStop, hremoved]
    dsimp only
    rw [wp_bind]
    refine wp_stopApps (fun hfirst => ?_) (fun e _ _ hfirst _ ht => ?_)
    · have hfirst' : ∀ name ∈ removed, env.stop (name, "") = .ok () := by simpa using hfirst
      rw [wp_bind, wp_get, getCurrent_emitted]
      split
      · next hstop =>
        rw [wp_bind, wp_get, wp_bind]
        refine wp_stopApps (fun hsecond => ?_) (fun e _ _ hsecond _ ht => ?_)
        · refine wp_installFrom_answering rfl rfl (fun app => ?_)
            (hstops.mpr ⟨hfirst', fun _ => hsecond⟩)
          rw [startCalls_stops, startCalls_stops]
        · exact hsecond ((hstops.mp ht.1).2 hstop)
      · next hstop =>
        exact wp_installFrom_answering rfl rfl (fun app => startCalls_stops app _)
          (hstops.mpr ⟨hfirst', fun h => absurd h hstop⟩)
    · exact hfirst (by simpa using (hstops.mp ht.1).1)

/-! ## Any order -/

theorem triesApps_inOrder (hp : order.Perm apps) :
    TriesApps St cfg env target order (w.inOrder order) ↔ TriesApps St cfg env target apps w := by
  have hstop : AppsStop St cfg env target order (w.inOrder order) ↔
      AppsStop St cfg env target apps w := by
    unfold AppsStop
    simp only [hp.mem_iff]
    exact Iff.rfl
  exact and_congr hstop Iff.rfl

/-- The rootfs and the apps of a target do not depend on its name. -/
theorem triesApps_congr {target' : Target} {v : World Db}
    (hhash : target'.sha256Hash = target.sha256Hash) (hcustom : target'.custom = target.custom)
    (hdb : v.db = w.db) (hrootfs : v.rootfs = w.rootfs) :
    TriesApps St cfg env target' apps v ↔ TriesApps St cfg env target apps w := by
  unfold TriesApps AppsStop RootfsReturns getCurrent
  rw [hhash, hcustom, hdb, hrootfs]

/-- The exit of an installation whose apps are in another order. -/
theorem ComposeExit.settled {returned : ResultCode} {u : World Db} (hp : order.Perm apps)
    (hno : ¬ (MixedFailures outcome apps ∧ TriesApps St cfg env target apps w))
    (h : ComposeExit St cfg env outcome target (w.inOrder order) returned u) :
    ∃ code, RootfsReturns St cfg env target w code ∧
      ((TriesApps St cfg env target apps w ∧ returned = settledCode outcome apps code) ∨
        (¬ TriesApps St cfg env target apps w ∧ returned = code ∧
          ∀ app, startCalls app u = startCalls app (w.inOrder order))) := by
  obtain ⟨code, hcode, h⟩ := h
  refine ⟨code, hcode, ?_⟩
  rcases h with ⟨ht, hreturned, _⟩ | ⟨ht, hreturned, hcalls⟩
  · have ht' := (triesApps_inOrder hp).mp ht
    have hmixed : ¬ MixedFailures outcome order := fun hm =>
      hno ⟨(mixedFailures_perm hp).mp hm, ht'⟩
    refine .inl ⟨ht', ?_⟩
    rw [hreturned, ← settledCode_perm hp]
    exact foldl_codeAfter_settled hmixed
  · exact .inr ⟨fun h => ht ((triesApps_inOrder hp).mpr h), hreturned, hcalls⟩

theorem ComposeExit.failed {returned : ResultCode} {u : World Db} (hp : order.Perm apps)
    (hno : ¬ (MixedFailures outcome apps ∧ TriesApps St cfg env target apps w))
    (h : ComposeExit St cfg env outcome target (w.inOrder order) returned u)
    (hfailed : AppFailed outcome apps (w.inOrder order) u) : returned = .kInstallFailed := by
  obtain ⟨app, happ, hcalled, hfails⟩ := hfailed
  obtain ⟨code, _, ⟨_, hreturned⟩ | ⟨_, _, hcalls⟩⟩ := h.settled hp hno
  · have hsome : someFailed outcome apps = true := List.any_eq_true.mpr ⟨app, happ, hfails⟩
    rw [hreturned, settledCode, if_pos hsome]
  · rw [hcalls app] at hcalled
    exact absurd hcalled (Nat.lt_irrefl _)

theorem wp_installPackage_answering (hp : order.Perm apps)
    (hno : ¬ (MixedFailures outcome apps ∧ TriesApps St cfg env target apps w))
    (hpacman : cfg.pacman = .compose) :
    wp (installPackage St styled cfg (env.answering outcome) target .all)
      (fun res u => AppFailed outcome apps (w.inOrder order) u → res.code = .kInstallFailed)
      (fun _ _ => False) (w.inOrder order) := by
  rw [installPackage, wp_tryCatch, wp_bind, wp_orThrow]
  cases ht : toTufTarget target with
  | error e => exact fun _ => rfl
  | ok t =>
    obtain ⟨_, hhash, hcustom⟩ := toTufTarget_fields ht
    have hno' : ¬ (MixedFailures outcome apps ∧
        TriesApps St cfg env (fromTufTarget t) apps w) := by
      rw [triesApps_congr ((fromTufTarget_sha256Hash t).trans hhash)
        ((fromTufTarget_custom t).trans hcustom) rfl rfl]
      exact hno
    dsimp only
    rw [managerInstall, if_pos ⟨hpacman, rfl⟩]
    -- An exception counts as a failed installation.
    refine wp_mono wp_composeInstall_answering (fun res u h hfailed => ?_) (fun _ _ _ _ => rfl)
    exact h.failed hp hno' hfailed

theorem AppFailed.irrefl : ¬ AppFailed outcome apps w w := by
  intro h
  obtain ⟨app, _, hcalled, _⟩ := h
  exact Nat.lt_irrefl _ hcalled

theorem appFailed_congr {u v : World Db} (h : v.effects = u.effects) :
    AppFailed outcome apps w v ↔ AppFailed outcome apps w u := by
  unfold AppFailed startCalls
  rw [h]

theorem storeFrame_effects :
    StoreFrame St (.same (World.effects : World Db → List Effect)) where
  save _ _ _ := rfl
  rebootRequired _ _ := rfl
  report _ _ _ := rfl

/-- Storing and reporting a result calls no engine, and a failed installation is stored as
failing. -/
theorem wp_storeResult_marks {cenv : ClientInstallEnv} :
    wp (do
        let res ← storeResult St cenv target .all res
        notifyInstallFinished cenv.notifyFinished target res.code
        return res)
      (fun _ u => u.effects = w.effects ∧
        (res.code = .kInstallFailed → u.db = St.save target .kNone w.db))
      (fun _ u => u.effects = w.effects ∧
        (res.code = .kInstallFailed → u.db = St.save target .kNone w.db)) w := by
  refine wp_and (Within.bind (within_storeResult storeFrame_effects _ _ _ _) (fun res' =>
    .bind (within_notifyInstallFinished (fun _ _ _ => rfl) _ _ _) fun _ => .pure _) w) ?_
  by_cases hcode : res.code = .kInstallFailed
  · rw [wp_bind, storeResult, hcode]
    dsimp only
    rw [wp_bind, wp_saveInstalledVersion, wp_pure, wp_bind]
    have hnotify : Within (.same World.db)
        (notifyInstallFinished cenv.notifyFinished target res.code : M Db Unit) :=
      within_notifyInstallFinished (fun _ _ _ => rfl) _ _ _
    exact wp_mono (hnotify _) (fun _ _ h _ => h) (fun _ _ h _ => h)
  · exact wp_of_run (fun _ _ _ h => absurd h hcode) (fun _ _ _ h => absurd h hcode)

theorem marked_of_failed (hp : order.Perm apps)
    (hno : ¬ (MixedFailures outcome apps ∧ TriesApps St cfg env target apps w))
    (hpacman : cfg.pacman = .compose) {cenv : ClientInstallEnv}
    (hmanager : cenv.manager = env.answering outcome) :
    wp (clientInstall St styled cfg cenv target .all)
      (fun _ u => AppFailed outcome apps (w.inOrder order) u → u.db = St.save target .kNone w.db)
      (fun _ u => AppFailed outcome apps (w.inOrder order) u → u.db = St.save target .kNone w.db)
      (w.inOrder order) := by
  rw [clientInstall, wp_bind, wp_orThrow]
  cases cenv.notifyStarted with
  | error e => exact fun h => (AppFailed.irrefl h).elim
  | ok _ =>
    rw [hmanager]
    dsimp only
    rw [wp_bind, wp_record, wp_bind]
    have hno' : ¬ (MixedFailures outcome apps ∧ TriesApps St cfg env target apps
        { w with trace := .installStarted target :: w.trace }) := hno
    refine wp_mono (wp_and (wp_installPackage_answering hp hno' hpacman)
      (within_installPackage managerFrame_db.toInstallFrame _ _ _ _))
      (fun res u hu => ?_) (fun _ _ h => h.1.elim)
    obtain ⟨hfailed, hdb⟩ := hu
    have hmark : ∀ v : World Db, (v.effects = u.effects ∧
        (res.code = .kInstallFailed → v.db = St.save target .kNone u.db)) →
        AppFailed outcome apps (w.inOrder order) v → v.db = St.save target .kNone w.db := by
      intro v hv hf
      rw [hv.2 (hfailed ((appFailed_congr hv.1).mp hf)), hdb]
      rfl
    exact wp_mono wp_storeResult_marks (fun _ v => hmark v) (fun _ v => hmark v)

/-- An order of the apps that hides the failures before an image pull. -/
theorem hidden_of_mixed (styled : Json → String) (hmixed : MixedFailures outcome apps)
    (htries : TriesApps St cfg env target apps w) :
    ∃ order, order.Perm apps ∧ ∃ res u,
      composeInstall St styled cfg (env.answering outcome) target (w.inOrder order) = .ok res u ∧
        AppFailed outcome apps (w.inOrder order) u ∧ res.code = .kDownloadFailed := by
  obtain ⟨hsome, hpull⟩ := hmixed
  obtain ⟨app, happ, hpulls⟩ := List.any_eq_true.mp hpull
  obtain ⟨before, behind, rfl⟩ := List.append_of_mem happ
  have hp : ((before ++ behind) ++ [app]).Perm (before ++ app :: behind) :=
    (List.perm_append_singleton app _).trans List.perm_middle.symm
  refine ⟨_, hp, ?_⟩
  have ht := (triesApps_inOrder hp).mpr htries
  have hsome' : someFailed outcome ((before ++ behind) ++ [app]) = true :=
    (someFailed_perm hp).trans hsome
  have hreturns : wp (composeInstall St styled cfg (env.answering outcome) target)
      (fun res u => ComposeExit St cfg env outcome target
        (w.inOrder ((before ++ behind) ++ [app])) res.code u)
      (fun _ _ => False) (w.inOrder ((before ++ behind) ++ [app])) :=
    wp_mono wp_composeInstall_answering (fun _ _ h => h) (fun _ _ h => h hsome' ht)
  obtain ⟨res, u, hrun, hexit⟩ := wp_false_iff.mp hreturns
  refine ⟨res, u, hrun, ?_⟩
  obtain ⟨code, _, ⟨_, hcode, hcalls⟩ | ⟨hnot, _⟩⟩ := hexit
  · obtain ⟨failed, hmem, hfails⟩ := List.any_eq_true.mp hsome
    refine ⟨⟨failed, hmem, hcalls failed (hp.mem_iff.mpr hmem), hfails⟩, ?_⟩
    rw [hcode]
    exact foldl_codeAfter_last hpulls
  · exact absurd ht hnot

/-- The failures of the apps decide the result of an installation, in every order, exactly
if they are of one kind or the apps are not tried. -/
theorem app_failure_decides_iff (St : Storage Db) (styled : Json → String) (cfg : Config)
    (env : InstallEnv) (outcome : App → AppResult) (target : Target) (apps : List App)
    (w : World Db) :
    FailureDecides St styled cfg env outcome target apps w ↔
      ¬ (MixedFailures outcome apps ∧ TriesApps St cfg env target apps w) := by
  constructor
  · intro h hboth
    obtain ⟨order, hp, res, u, hrun, hfailed, hcode⟩ :=
      hidden_of_mixed styled hboth.1 hboth.2
    have hinstall := h.failed order hp res u hrun hfailed
    rw [hcode] at hinstall
    cases hinstall
  · intro hno
    refine ⟨?_, ?_, ?_⟩
    · intro order order' hp hp' res res' u u' hrun hrun'
      obtain ⟨code, hcode, h⟩ := (wp_ok wp_composeInstall_answering hrun).settled hp hno
      obtain ⟨code', hcode', h'⟩ := (wp_ok wp_composeInstall_answering hrun').settled hp' hno
      obtain rfl := hcode.unique hcode'
      rcases h with ⟨ht, hr⟩ | ⟨ht, hr, _⟩
      · rcases h' with ⟨_, hr'⟩ | ⟨ht', _⟩
        · rw [hr, hr']
        · exact absurd ht ht'
      · rcases h' with ⟨ht', _⟩ | ⟨_, hr', _⟩
        · exact absurd ht' ht
        · rw [hr, hr']
    · intro order hp res u hrun hfailed
      exact (wp_ok wp_composeInstall_answering hrun).failed hp hno hfailed
    · intro order hp started written sent u hpacman hfailed
      exact after_of_wp (marked_of_failed hp hno hpacman rfl) hfailed

end Proofs

/-- One app does not start, and the image of another one cannot be pulled. -/
def webFails : App → AppResult
  | ("web", _) => .failed "port is already allocated"
  | _ => .imagePullFailure "no space left on device"

def appsUpdate : Target := { nextTarget with sha256Hash := "aa" }

def appsInstall : ClientInstallEnv :=
  { notifyStarted := .ok (), manager := InstallEnv.succeeds.answering webFails,
    writeCurrent := .ok (), notifyFinished := .ok () }

/-- If the image pull comes last, the failure of the other app is lost, and the target is
not marked as failing. -/
theorem image_pull_hides_app_failure :
    (∃ res u, composeInstall installedVersions (fun _ => "") deviceConfig
        (InstallEnv.succeeds.answering webFails) appsUpdate
        (factoryDevice.inOrder [("db", "db@2"), ("web", "web@2")]) = .ok res u ∧
      res.code = .kInstallFailed) ∧
    (∃ res u, composeInstall installedVersions (fun _ => "") deviceConfig
        (InstallEnv.succeeds.answering webFails) appsUpdate
        (factoryDevice.inOrder [("web", "web@2"), ("db", "db@2")]) = .ok res u ∧
      AppFailed webFails [("web", "web@2"), ("db", "db@2")]
        (factoryDevice.inOrder [("web", "web@2"), ("db", "db@2")]) u ∧
      res.code = .kDownloadFailed) ∧
    (after (clientInstall installedVersions (fun _ => "") deviceConfig appsInstall appsUpdate .all)
      (factoryDevice.inOrder [("web", "web@2"), ("db", "db@2")])).db = factoryDevice.db ∧
    isRollback installedVersions appsUpdate.filename
      (installedVersions.save appsUpdate .kNone factoryDevice.db) = true ∧
    isRollback installedVersions appsUpdate.filename factoryDevice.db = false := by
  refine ⟨⟨_, _, rfl, rfl⟩, ⟨_, _, rfl, ⟨_, List.mem_cons_self, ?_, rfl⟩, rfl⟩, rfl, ?_, ?_⟩
  · decide +kernel
  · decide +kernel
  · decide +kernel

end Client
end AkLite
