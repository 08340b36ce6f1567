/-
Installations that wait for a boot firmware update.

As long as a boot firmware update is to be confirmed by a reboot, the rootfs manager
refuses a new rootfs, and the target is to be installed after the reboot.  The answer has
the code of a deployed rootfs that waits for its reboot, and it comes after the compose
app manager has stopped the apps.  The manager then goes on as for a deployment: it
creates the containers of the new apps, and an app that fails makes the target a failing
one.  All of this happens in `gated_update_fails`.

`gate_quiet_iff` says for which inputs a refused installation touches no app and leaves
the records of pending and failing targets alone.
-/
import AkLite.Client.InstalledVersions
import AkLite.Client.Installing
import AkLite.Client.Within

namespace AkLite
namespace Client

open Lib Boot

/-! ## The property -/

/-- A call of the app engine. -/
def Effect.isAppCall : Effect → Bool
  | .installRootfs _ => false
  | _ => true

section Gate

variable {Db : Type} (St : Storage Db) (styled : Json → String) (cfg : Config)

def appCalls (w : World Db) : List Effect := w.effects.filter Effect.isAppCall

/-- A boot firmware update is in progress and blocks a new rootfs, and the target has
one. -/
structure GateBlocks (target : Target) (w : World Db) : Prop where
  updateBlock : cfg.updateBlock = true
  inProgress : isUpdateInProgress cfg.rollbackMode w.rootfs.boot = true
  newRootfs : (getCurrent St w).sha256Hash ≠ target.sha256Hash

/-- The installation calls the app engine for no app and asks for a reboot. -/
def TouchesNoApp (env : InstallEnv) (target : Target) (mode : InstallMode) (w : World Db) :
    Prop :=
  ∃ res w', managerInstall St styled cfg env target mode w = .ok res w' ∧
    res.code = .kNeedCompletion ∧ appCalls w' = appCalls w

/-- The pending target and the failing ones are as before. -/
def KeepsRecords (db db' : Db) : Prop :=
  St.pending db' = St.pending db ∧ ∀ name, isRollback St name db' = isRollback St name db

/-! ## The condition -/

/-- There is no app to stop or to create, and the running apps can be listed. -/
def NoAppInvolved (env : InstallEnv) (target : Target) (mode : InstallMode) (w : World Db) :
    Prop :=
  cfg.pacman = .compose ∧ mode = .all →
    removedApps cfg env.appsRoot target.custom = .ok [] ∧ w.appsToFetchAndUpdate = [] ∧
      ∃ info, env.runningInfo = .ok info

/-- What is stored of the target does not change the records: a target whose hash is
deployed already is stored as pending, and one with a malformed version as failed. -/
def StoringQuiet (env : ClientInstallEnv) (target : Target) (w : World Db) : Prop :=
  env.notifyStarted = .ok () →
    match toTufTarget target with
    | .ok _ => target.sha256Hash = w.rootfs.sys.pending →
      KeepsRecords St w.db (St.save target .kPending w.db)
    | .error _ => KeepsRecords St w.db (St.save target .kNone w.db)

end Gate

section Proofs

variable {Db : Type} {St : Storage Db} {styled : Json → String} {cfg : Config} {env : InstallEnv}
  {mode : InstallMode} {target : Target} {w : World Db}

/-! ## Calls of the engine -/

theorem appCalls_emitted (es : List Effect) :
    appCalls (w.emitted es) = es.reverse.filter Effect.isAppCall ++ appCalls w := by
  simp only [appCalls, World.emitted, List.filter_append]

theorem managerFrame_appCalls :
    ManagerFrame (.rises fun w : World Db => (appCalls w).length) where
  emitted w es := by
    show (appCalls w).length ≤ (appCalls (w.emitted es)).length
    rw [appCalls_emitted, List.length_append]
    omega
  engineApps _ _ := Nat.le_refl _
  rootfs _ _ := Nat.le_refl _
  lists _ _ _ := Nat.le_refl _
  record _ _ _ := Nat.le_refl _

theorem appCalls_stops (apps : List App) :
    (appCalls (w.emitted (apps.map .stop))).length = apps.length + (appCalls w).length := by
  have hall : ∀ e ∈ (apps.map Effect.stop).reverse, e.isAppCall = true := by
    intro e he
    obtain ⟨app, _, rfl⟩ := List.mem_map.mp (List.mem_reverse.mp he)
    rfl
  rw [appCalls_emitted, List.filter_eq_self.mpr hall, List.length_append, List.length_reverse,
    List.length_map]

/-- An installation that has apps to stop calls the engine. -/
theorem wp_composeInstall_touches {removed : List String}
    (hremoved : removedApps cfg env.appsRoot target.custom = .ok removed)
    (hnew : (getCurrent St w).sha256Hash ≠ target.sha256Hash)
    (happs : removed ≠ [] ∨ w.appsToFetchAndUpdate ≠ []) :
    wp (composeInstall St styled cfg env target)
      (fun _ w' => (appCalls w).length < (appCalls w').length) (fun _ _ => True) w := by
  have hcount : 0 < removed.length + w.appsToFetchAndUpdate.length := by
    rcases happs with h | h
    · exact Nat.add_pos_left (List.length_pos_iff.mpr h) _
    · exact Nat.add_pos_right _ (List.length_pos_iff.mpr h)
  rw [composeInstall, wp_bind, wp_orThrow, hremoved]
  dsimp only
  rw [wp_bind]
  refine wp_stopApps (fun _ => ?_) (fun _ _ _ _ => trivial)
  rw [wp_bind, wp_get, getCurrent_emitted, if_pos (.inl hnew), wp_bind, wp_get, wp_bind]
  refine wp_stopApps (fun _ => ?_) (fun _ _ _ _ => trivial)
  refine wp_mono (within_installFrom managerFrame_appCalls.toInstallFrame _ _ _ _ _)
    (fun _ w' h => ?_) (fun _ _ _ => trivial)
  have hrises : (appCalls ((w.emitted ((removed.map fun name => (name, "")).map .stop)).emitted
      (w.appsToFetchAndUpdate.map .stop))).length ≤ (appCalls w').length := h
  rw [appCalls_stops, appCalls_stops, List.length_map] at hrises
  omega

/-! ## The refused rootfs -/

def gateResult : InstallationResult :=
  { code := .kNeedCompletion, description := "bootloader update is in progress" }

/-- The gate answers and leaves the rootfs alone. -/
theorem wp_rootfsInstall_blocked (h : GateBlocks St cfg target w) {renv : RootfsEnv}
    {Q : InstallationResult → Rootfs → Prop} {E : String → Rootfs → Prop} :
    wp (rootfsInstall cfg.rollbackMode cfg.updateBlock (getCurrent St w).sha256Hash
      target.sha256Hash renv) Q E w.rootfs = Q gateResult w.rootfs := by
  have hsupported : isUpdateSupported cfg.rollbackMode = true := by
    have hp := h.inProgress
    simp only [isUpdateInProgress, Bool.and_eq_true] at hp
    exact hp.1
  have hgate : verifyBootloaderUpdate cfg.rollbackMode cfg.updateBlock renv.commitFile
      w.rootfs.boot = gateResult := by
    simp [verifyBootloaderUpdate, h.updateBlock, h.inProgress, gateResult]
  have hnew : ((getCurrent St w).sha256Hash != target.sha256Hash) = true := by
    simpa using h.newRootfs
  rw [rootfsInstall, wp_bind, wp_get]
  dsimp only
  rw [hgate, hnew, hsupported]
  rfl

/-- What follows the answer, if there is no app. -/
theorem wp_finishInstall_noApps (happs : w.appsToFetchAndUpdate = []) :
    wp (finishInstall styled cfg env target gateResult)
      (fun res w' => (∃ info, env.runningInfo = .ok info) ∧ res.code = .kNeedCompletion ∧
        SameStores w w' ∧ appCalls w' = appCalls w)
      (fun _ _ => ∃ e, env.runningInfo = .error e) w := by
  have hend : ∀ res : InstallationResult, res.code = .kNeedCompletion →
      wp (do
          modify fun w : World Db => { w with appsToFetchAndUpdate := [], appsToFetch := [] }
          withRunningApps env res)
        (fun res w' => (∃ info, env.runningInfo = .ok info) ∧ res.code = .kNeedCompletion ∧
          SameStores w w' ∧ appCalls w' = appCalls w)
        (fun _ _ => ∃ e, env.runningInfo = .error e) w := by
    intro res hres
    rw [wp_bind, wp_modify]
    refine wp_mono wp_withRunningApps (fun res' w' h => ?_) (fun _ _ h => h.1)
    obtain ⟨hcode, hinfo, rfl⟩ := h
    exact ⟨hinfo, hcode.trans hres, ⟨rfl, rfl⟩, rfl⟩
  rw [finishInstall, wp_bind]
  unfold installApps
  simp only [gateResult, BEq.rfl, Bool.not_true, Bool.false_or]
  cases cfg.createContainersBeforeReboot with
  | false =>
    simp only [Bool.false_eq_true, if_false, wp_pure, InstallationResult.isSuccess]
    exact hend _ rfl
  | true =>
    simp only [if_true, wp_bind, wp_get, happs, startApps, wp_pure]
    exact hend _ rfl

theorem wp_composeInstall_noApps (h : GateBlocks St cfg target w)
    (hremoved : removedApps cfg env.appsRoot target.custom = .ok [])
    (happs : w.appsToFetchAndUpdate = []) :
    wp (composeInstall St styled cfg env target)
      (fun res w' => (∃ info, env.runningInfo = .ok info) ∧ res.code = .kNeedCompletion ∧
        SameStores w w' ∧ appCalls w' = appCalls w)
      (fun _ _ => ∃ e, env.runningInfo = .error e) w := by
  rw [composeInstall, wp_bind, wp_orThrow, hremoved]
  simp only [List.map_nil, stopApps, wp_bind, wp_pure, wp_get]
  rw [if_pos (.inl h.newRootfs)]
  simp only [wp_bind, wp_get, happs, stopApps, wp_pure, wp_emit]
  rw [wp_onRootfs]
  refine (wp_rootfsInstall_blocked h).mpr ?_
  rw [if_neg (by decide)]
  exact wp_mono (wp_finishInstall_noApps (w := w.emitted [.installRootfs target.sha256Hash]) happs)
    (fun res w' h => h) (fun _ _ h => h)

theorem wp_managerInstall_noApps (h : GateBlocks St cfg target w)
    (hquiet : NoAppInvolved cfg env target mode w) :
    wp (managerInstall St styled cfg env target mode)
      (fun res w' => res.code = .kNeedCompletion ∧ SameStores w w' ∧ appCalls w' = appCalls w)
      (fun _ _ => False) w := by
  rw [managerInstall, wp_ite]
  split
  · next hall =>
    obtain ⟨hremoved, happs, info, hinfo⟩ := hquiet hall
    refine wp_mono (wp_composeInstall_noApps h hremoved happs) (fun _ _ h => h.2) (fun _ _ h => ?_)
    obtain ⟨e, he⟩ := h
    rw [hinfo] at he
    cases he
  · rw [wp_bind, wp_get]
    dsimp only
    rw [wp_bind, wp_emit, wp_onRootfs]
    refine (wp_rootfsInstall_blocked h).mpr ⟨rfl, ⟨rfl, rfl⟩, ?_⟩
    exact appCalls_emitted (w := w) [.installRootfs target.sha256Hash]

theorem touchesNoApp_iff (h : GateBlocks St cfg target w) :
    TouchesNoApp St styled cfg env target mode w ↔ NoAppInvolved cfg env target mode w := by
  constructor
  · rintro ⟨res, w', hrun, _, hcalls⟩ hall
    rw [managerInstall, if_pos hall] at hrun
    cases hremoved : removedApps cfg env.appsRoot target.custom with
    | error e =>
      have hwp : wp (composeInstall St styled cfg env target) (fun _ _ => False)
          (fun _ _ => True) w := by
        rw [composeInstall, wp_bind, wp_orThrow, hremoved]
        trivial
      exact (wp_ok hwp hrun).elim
    | ok removed =>
      by_cases happs : removed ≠ [] ∨ w.appsToFetchAndUpdate ≠ []
      · have hrises := wp_ok (wp_composeInstall_touches hremoved h.newRootfs happs) hrun
        rw [hcalls] at hrises
        exact absurd hrises (Nat.lt_irrefl _)
      · simp only [not_or, ne_eq, not_not] at happs
        obtain ⟨rfl, happs⟩ := happs
        exact ⟨rfl, happs, (wp_ok (wp_composeInstall_noApps h hremoved happs) hrun).1⟩
  · intro hquiet
    obtain ⟨res, w', hrun, hcode, _, hcalls⟩ :=
      wp_false_iff.mp (wp_managerInstall_noApps h hquiet)
    exact ⟨res, w', hrun, hcode, hcalls⟩

/-! ## The records -/

/-- The database after a refused installation that involves no app. -/
theorem wp_installPackage_noApps {t : TufTarget} (ht : toTufTarget target = .ok t)
    (h : GateBlocks St cfg target w) (hquiet : NoAppInvolved cfg env target mode w) :
    wp (installPackage St styled cfg env target mode)
      (fun res w' => res.code = .kNeedCompletion ∧ SameStores w w') (fun _ _ => False) w := by
  obtain ⟨_, hhash, hcustom⟩ := toTufTarget_fields ht
  have hgate : GateBlocks St cfg (fromTufTarget t) w :=
    ⟨h.updateBlock, h.inProgress, by rw [fromTufTarget_sha256Hash, hhash]; exact h.newRootfs⟩
  have hsame : NoAppInvolved cfg env (fromTufTarget t) mode w := by
    unfold NoAppInvolved
    rw [fromTufTarget_custom, hcustom]
    exact hquiet
  rw [installPackage, wp_tryCatch, wp_bind, wp_orThrow, ht]
  exact wp_mono (wp_managerInstall_noApps hgate hsame) (fun _ _ h => ⟨h.1, h.2.1⟩)
    (fun _ _ h => h.elim)

/-- The database of a call that gets to the package manager is the one that its result
leaves. -/
theorem db_clientInstall {cenv : ClientInstallEnv} (hn : cenv.notifyStarted = .ok ()) {db : Db}
    (h : wp (installPackage St styled cfg cenv.manager target mode)
      (fun res w' => wp (storeResult St cenv target mode res) (fun _ v => v.db = db)
        (fun _ v => v.db = db) w')
      (fun _ _ => False) { w with trace := .installStarted target :: w.trace }) :
    (after (clientInstall St styled cfg cenv target mode) w).db = db := by
  refine after_of_wp (P := fun v : World Db => v.db = db) ?_
  rw [clientInstall, wp_bind, wp_orThrow, hn]
  dsimp only
  rw [wp_bind, wp_record, wp_bind]
  refine wp_mono h (fun res w' hstored => ?_) (fun _ _ h => h.elim)
  rw [wp_bind]
  refine wp_mono hstored (fun res' v hdb => ?_) (fun _ _ hdb => hdb)
  rw [wp_bind]
  exact wp_notifyInstallFinished (fun _ => hdb) fun _ => hdb

theorem db_of_malformed {cenv : ClientInstallEnv} (hn : cenv.notifyStarted = .ok ()) {e : String}
    (ht : toTufTarget target = .error e) :
    (after (clientInstall St styled cfg cenv target mode) w).db = St.save target .kNone w.db := by
  refine db_clientInstall hn ?_
  rw [installPackage, wp_tryCatch, wp_bind, wp_orThrow, ht]
  rfl

theorem db_of_blocked {cenv : ClientInstallEnv} (hn : cenv.notifyStarted = .ok ()) {t : TufTarget}
    (ht : toTufTarget target = .ok t) (h : GateBlocks St cfg target w)
    (hquiet : NoAppInvolved cfg cenv.manager target mode w) :
    (after (clientInstall St styled cfg cenv target mode) w).db =
      if target.sha256Hash = w.rootfs.sys.pending then St.save target .kPending w.db else w.db := by
  refine db_clientInstall hn ?_
  have hgate : GateBlocks St cfg target { w with trace := .installStarted target :: w.trace } :=
    ⟨h.updateBlock, h.inProgress, h.newRootfs⟩
  refine wp_mono (wp_installPackage_noApps ht hgate hquiet) (fun res w' hres => ?_)
    (fun _ _ h => h)
  obtain ⟨hcode, hdb, hrootfs⟩ := hres
  have hdb' : w'.db = w.db := hdb
  have hrootfs' : w'.rootfs = w.rootfs := hrootfs
  unfold storeResult
  rw [hcode]
  simp only [wp_bind, wp_modify, wp_get, hrootfs']
  split
  · rw [wp_bind, wp_saveInstalledVersion, wp_pure, hdb']
  · rw [wp_pure, hdb']

theorem keepsRecords_refl (db : Db) : KeepsRecords St db db := ⟨rfl, fun _ => rfl⟩

theorem keepsRecords_iff {cenv : ClientInstallEnv} (h : GateBlocks St cfg target w)
    (hquiet : NoAppInvolved cfg cenv.manager target mode w) :
    KeepsRecords St w.db (after (clientInstall St styled cfg cenv target mode) w).db ↔
      StoringQuiet St cenv target w := by
  unfold StoringQuiet
  cases hn : cenv.notifyStarted with
  | error e =>
    have hsame : (after (clientInstall St styled cfg cenv target mode) w).db = w.db := by
      refine after_of_wp (P := fun v : World Db => v.db = w.db) ?_
      rw [clientInstall, wp_bind, wp_orThrow, hn]
    rw [hsame]
    exact iff_of_true (keepsRecords_refl _) fun h => by cases h
  | ok _ =>
    simp only [true_implies]
    cases ht : toTufTarget target with
    | error e => rw [db_of_malformed hn ht]
    | ok t =>
      rw [db_of_blocked hn ht h hquiet]
      by_cases hpending : target.sha256Hash = w.rootfs.sys.pending
      · simp only [hpending, if_true, true_implies]
      · simp only [hpending, if_false, false_implies, iff_true]
        exact keepsRecords_refl _

end Proofs

/-- While the gate blocks a new rootfs, an installation calls the app engine for no app,
asks for a reboot and leaves the records alone exactly if no app is involved and what is
stored of the target does not change them. -/
theorem gate_quiet_iff {Db : Type} (St : Storage Db) (styled : Json → String) (cfg : Config)
    (env : ClientInstallEnv) (target : Target) (mode : InstallMode) (w : World Db)
    (h : GateBlocks St cfg target w) :
    (TouchesNoApp St styled cfg env.manager target mode w ∧
        KeepsRecords St w.db (after (clientInstall St styled cfg env target mode) w).db) ↔
      NoAppInvolved cfg env.manager target mode w ∧ StoringQuiet St env target w := by
  rw [touchesNoApp_iff h]
  exact and_congr_right fun hquiet => keepsRecords_iff h hquiet

/-! ## A boot firmware update -/

def gatedConfig : Config :=
  { deviceConfig with updateBlock := true, rollbackMode := .kUbootMasked }

/-- The new boot firmware is in place and not confirmed. -/
def gatedDevice (apps : List App) : World InstalledVersions :=
  { factoryDevice with
    appsToFetchAndUpdate := apps
    rootfs :=
      { factoryDevice.rootfs with
        boot := { vars := fun name => if name = "bootupgrade_available" then some "1" else none
                  settable := true, sets := [] } } }

theorem gateBlocks_gatedDevice (apps : List App) :
    GateBlocks installedVersions gatedConfig nextTarget (gatedDevice apps) := by
  have hcurrent : (getCurrent installedVersions (gatedDevice apps)).sha256Hash = "aa" := rfl
  refine ⟨rfl, rfl, ?_⟩
  rw [hcurrent]
  decide

/-- A target without new apps waits for the reboot. -/
theorem gate_quiet_rootfs :
    TouchesNoApp installedVersions (fun _ => "") gatedConfig .succeeds nextTarget .all
        (gatedDevice []) ∧
      KeepsRecords installedVersions (gatedDevice []).db
        (after (clientInstall installedVersions (fun _ => "") gatedConfig .succeeds nextTarget
          .all) (gatedDevice [])).db := by
  refine (gate_quiet_iff installedVersions (fun _ => "") gatedConfig .succeeds nextTarget .all
    (gatedDevice []) (gateBlocks_gatedDevice [])).mpr ⟨fun _ => ⟨rfl, rfl, "", rfl⟩, ?_⟩
  intro _ hpending
  have hnot : nextTarget.sha256Hash ≠ (gatedDevice []).rootfs.sys.pending := by decide
  exact absurd hpending hnot

def appFails : ClientInstallEnv :=
  { ClientInstallEnv.succeeds with
    manager := { InstallEnv.succeeds with start := fun _ => .ok (.failed "no such file") } }

def afterGatedUpdate : World InstalledVersions :=
  after (clientInstall installedVersions (fun _ => "") gatedConfig appFails nextTarget .all)
    (gatedDevice [("web", "web@2")])

/-- The app is stopped, its new containers cannot be created, and the target is one of the
failing targets before it was tried. -/
theorem gated_update_fails :
    GateBlocks installedVersions gatedConfig nextTarget (gatedDevice [("web", "web@2")]) ∧
      appCalls afterGatedUpdate = [.install ("web", "web@2"), .stop ("web", "web@2")] ∧
      ¬ TouchesNoApp installedVersions (fun _ => "") gatedConfig appFails.manager nextTarget .all
        (gatedDevice [("web", "web@2")]) ∧
      isRollback installedVersions nextTarget.filename (gatedDevice [("web", "web@2")]).db =
        false ∧
      isRollback installedVersions nextTarget.filename afterGatedUpdate.db = true := by
  refine ⟨gateBlocks_gatedDevice _, by decide +kernel, fun h => ?_, by decide +kernel,
    by decide +kernel⟩
  have happs := ((touchesNoApp_iff (gateBlocks_gatedDevice _)).mp h ⟨rfl, rfl⟩).2.1
  cases happs

end Client
end AkLite
