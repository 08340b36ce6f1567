/-
Going back after a failed installation.

`pullAndInstall` answers a failed installation with an installation of the target that
was current before.  It makes the context for it with the source of the update that has
failed.  A local source serves targets that were found in its directory, so that for
another current target, one that came onto the device online or with the factory image,
there is no context: the rollback is reported as failed without a try.  In
`local_rollback_not_tried` the first offline update of a new device fails.

`rollback_tried_iff` says in which states after the failure a rollback is tried.
-/
import AkLite.Client.Within
import AkLite.Client.Stores
import AkLite.Client.Vouching

namespace AkLite
namespace Client

open Lib Boot

section RollingBack

variable {Db : Type} (St : Storage Db) (styled : Json → String) (cfg : Config)

/-- What was installed stays in the log when another outcome is recorded. -/
def LogContract : Prop :=
  ∀ t db s, s ∈ St.ecuLog db → ∃ s' ∈ St.ecuLog (St.save t .kNone db),
    s'.filename = s.filename ∧ s'.sha256Hash = s.sha256Hash

/-- The call installs its context from `v`, and this fails and leaves `u`. -/
structure FailsToInstall (args : PullArgs) (env : PullEnv) (w : World Db) (current : TufTarget)
    (failure : InstallResult) (u : World Db) : Prop where
  notPending : (getPendingTarget St w).isValid = false
  failed : failure.status = .failed
  installs : ∃ context v, ReachesInstall St styled cfg args env w current context v ∧
    contextInstall St styled cfg context env.install v = .ok failure u

/-- A context for the current target is made, and the call ends with its installation. -/
def TriesRollback (args : PullArgs) (env : PullEnv) (w : World Db) (current : TufTarget)
    (failure : InstallResult) (u : World Db) : Prop :=
  ∃ context v, MadeFor (rollBackArgs current args failure) context ∧
    installer St styled cfg (rollBackArgs current args failure) env.rollbackInstaller u =
      .ok (some context) v ∧
    pullAndInstall St styled cfg args env w =
      (do
        let res ← contextInstall St styled cfg context env.rollbackInstall
        let status := if res.status = .ok then .installRollbackOk else .installRollbackFailed
        return { status := status, description := res.description } : M Db InstallResult) v

/-- The state in which the failure is found lets the current target be installed again: the
TUF metadata and the apps can be read, and a local source is one that the current target
came from. -/
structure RollbackOpens (args : PullArgs) (env : PullEnv) (current : TufTarget) (u : World Db) :
    Prop where
  checkMeta : env.rollbackInstaller.checkMeta = .ok ()
  targets : ∃ targets found, env.rollbackInstaller.tufTargets = .ok targets ∧
    firstWhere (fun tt => matchesTarget args.isLocal tt current) targets = .ok found
  correlationId :
    (makeCorrelationId env.rollbackInstaller current args.correlationId).utf8ByteSize ≤ 63
  apps : checkReturns St styled cfg env.rollbackInstaller.check current u = true
  source : args.isLocal = true →
    current.custom.isMember localSrcDirKey = .ok true ∧ env.rollbackInstaller.openLocal = .ok ()

end RollingBack

section Proofs

variable {Db : Type} {St : Storage Db} {styled : Json → String} {cfg : Config}
  {args : PullArgs} {env : PullEnv} {w u : World Db} {current : TufTarget}
  {failure : InstallResult}

/-! ## After the failure -/

/-- A failed installation has stored its target as not installed. -/
theorem db_of_failed {context : Context} {cenv : ContextInstallEnv} {v : World Db}
    (h : contextInstall St styled cfg context cenv v = .ok failure u)
    (hfailed : failure.status = .failed) : ∃ target, u.db = St.save target .kNone v.db := by
  have hwp : wp (contextInstall St styled cfg context cenv)
      (fun r w' => r.status = .failed → ∃ target, w'.db = St.save target .kNone v.db)
      (fun _ _ => True) v := by
    refine contextInstall_rule (fun r _ hr hstatus => ?_) (fun target _ _ _ => ?_)
      (fun _ _ => trivial)
    · rw [hr] at hstatus
      cases hstatus
    · rw [clientInstall, wp_bind, wp_orThrow]
      cases cenv.client.notifyStarted with
      | error e => trivial
      | ok _ =>
        dsimp only
        rw [wp_bind, wp_record, wp_bind]
        refine wp_mono (within_installPackage managerFrame_db.toInstallFrame _ _ _ _)
          (fun res w₁ hdb => ?_) (fun _ _ _ => trivial)
        rw [wp_bind]
        refine wp_mono wp_storeResult (fun res' w₂ h => ?_) (fun _ _ _ => trivial)
        obtain ⟨_, hstored, hfailure⟩ := h
        rw [wp_bind]
        refine wp_notifyInstallFinished (fun _ => trivial) fun _ => ?_
        intro hstatus
        have hcode : isFailure res.code = true := by
          rw [← hfailure]
          exact installStatus_failed_iff.mp hstatus
        refine ⟨target, ?_⟩
        have hsame : w₁.db = v.db := hdb
        rw [hstored, ← hsame]
        unfold storedDb
        cases hres : res.code with
        | kNeedCompletion =>
          rw [hres] at hcode
          cases hcode
        | kOk =>
          rw [hres] at hcode
          cases hcode
        | kDownloadFailed =>
          rw [hres] at hcode
          cases hcode
        | _ => rfl
  exact wp_ok hwp h hfailed

theorem ReachesInstall.db {context : Context} {v : World Db}
    (h : ReachesInstall St styled cfg args env w current context v) : v.db = w.db := by
  obtain ⟨_, _, u, hinstaller, hdownload⟩ := h
  rw [((engineProgram_downloadFirst context args env).run hdownload).db,
    (installer_run hinstaller).1.db]

/-- The current target is still found in the log. -/
theorem wasTargetInstalled_of_failed (hSt : LogContract St)
    (h : FailsToInstall St styled cfg args env w current failure u)
    (hlogged : wasTargetInstalled St (getCurrent St w) w.db = true) :
    wasTargetInstalled St (fromTufTarget current) u.db = true := by
  obtain ⟨context, v, hreaches, hinstall⟩ := h.installs
  obtain ⟨target, hdb⟩ := db_of_failed hinstall h.failed
  obtain ⟨hname, hhash⟩ := currentTufTarget_fields hreaches.1
  simp only [wasTargetInstalled, List.any_eq_true, Bool.and_eq_true, beq_iff_eq] at hlogged ⊢
  obtain ⟨s, hs, hsname, hshash⟩ := hlogged
  obtain ⟨s', hs', hs'name, hs'hash⟩ := hSt target w.db s hs
  rw [hdb, hreaches.db]
  refine ⟨s', hs', ?_, ?_⟩
  · rw [hs'name, ← hsname]
    exact hname
  · rw [hs'hash, ← hshash]
    exact hhash

/-- The call goes on with the rollback. -/
theorem pullAndInstall_of_failed (h : FailsToInstall St styled cfg args env w current failure u) :
    pullAndInstall St styled cfg args env w =
      rollBackTo St styled cfg current args env failure u := by
  obtain ⟨context, v, ⟨hcurrent, hspace, u', hinstaller, hdownload⟩, hinstall⟩ := h.installs
  unfold pullAndInstall
  rw [get_bind, h.notPending, if_neg Bool.false_ne_true, get_bind, orThrow_bind hcurrent,
    get_bind, hspace, if_neg Bool.false_ne_true, modify_bind, bind_of_ok hinstaller]
  dsimp only
  rw [bind_of_ok hdownload]
  dsimp only
  rw [installOrRollBack, bind_of_ok hinstall, if_pos h.failed]

/-! ## The context -/

theorem toTufTarget_fromTufTarget {t : Target} (h : toTufTarget t = .ok current) :
    toTufTarget (fromTufTarget current) = .ok current := by
  obtain ⟨hname, hhash, hcustom⟩ := toTufTarget_fields h
  have hsame : toTufTarget (fromTufTarget current) = toTufTarget t := by
    unfold toTufTarget Target.isInitial Target.customVersion
    simp only [fromTufTarget, hname, hhash, hcustom]
  rw [hsame, h]

/-- The context of a local update was made with an engine that can restore apps. -/
theorem ReachesInstall.opened {context : Context} {v : World Db}
    (h : ReachesInstall St styled cfg args env w current context v) :
    cfg.readOnly = false ∧ (args.isLocal = true →
      ¬ (cfg.pacman = .compose ∧ cfg.resetApps.isNone = true)) := by
  obtain ⟨_, _, u, hinstaller, _⟩ := h
  obtain ⟨hro, _, _, _, hsource⟩ := installer_isSome_iff.mp ⟨context, u, hinstaller⟩
  exact ⟨hro, fun hlocal => (hsource hlocal).2.2⟩

theorem opens_rollback_iff (h : FailsToInstall St styled cfg args env w current failure u)
    (hlogged : wasTargetInstalled St (fromTufTarget current) u.db = true) :
    (∃ context v, installer St styled cfg (rollBackArgs current args failure)
        env.rollbackInstaller u = .ok (some context) v) ↔
      RollbackOpens St styled cfg args env current u := by
  obtain ⟨context, v, hreaches, _⟩ := h.installs
  obtain ⟨hro, hengine⟩ := hreaches.opened
  have htuf := toTufTarget_fromTufTarget hreaches.1
  rw [installer_isSome_iff, isTrusted_iff]
  constructor
  · rintro ⟨_, ⟨hmeta, targets, htargets, hfound⟩, hfits, happs, hsource⟩
    refine ⟨hmeta, ?_, hfits, ?_, fun hlocal => ?_⟩
    · rcases hfound with ⟨tt, hfound⟩ | ⟨hfound, _⟩
      · exact ⟨targets, some tt, htargets, hfound⟩
      · exact ⟨targets, none, htargets, hfound⟩
    · rcases happs with happs | ⟨t, ht, happs⟩
      · cases happs
      · have heq : t = current := Except.ok.inj (ht.symm.trans htuf)
        exact heq ▸ happs
    · obtain ⟨hmember, hopen, _⟩ := hsource hlocal
      exact ⟨hmember, hopen⟩
  · rintro ⟨hmeta, ⟨targets, found, htargets, hfound⟩, hfits, happs, hsource⟩
    refine ⟨hro, ⟨hmeta, targets, htargets, ?_⟩, hfits, .inr ⟨current, htuf, happs⟩,
      fun hlocal => ?_⟩
    · cases found with
      | some tt => exact .inl ⟨tt, hfound⟩
      | none => exact .inr ⟨hfound, .inl rfl, hlogged⟩
    · exact ⟨(hsource hlocal).1, (hsource hlocal).2, hengine hlocal⟩

theorem triesRollback_iff (h : FailsToInstall St styled cfg args env w current failure u) :
    TriesRollback St styled cfg args env w current failure u ↔
      ∃ context v, installer St styled cfg (rollBackArgs current args failure)
        env.rollbackInstaller u = .ok (some context) v := by
  constructor
  · rintro ⟨context, v, _, hinstaller, _⟩
    exact ⟨context, v, hinstaller⟩
  · rintro ⟨context, v, hinstaller⟩
    refine ⟨context, v, (installer_run hinstaller).2 context rfl, hinstaller, ?_⟩
    rw [pullAndInstall_of_failed h, rollBackTo, bind_of_ok hinstaller]

/-! ## The status -/

/-- An installation by itself reports neither a rollback nor a lack of space. -/
theorem installStatus_ne {target : Target} {code : ResultCode} :
    installStatus St target code w ≠ .installRollbackFailed ∧
      installStatus St target code w ≠ .noSpace := by
  unfold installStatus
  cases code with
  | kNeedCompletion =>
    dsimp only
    split
    · split <;> simp
    · simp
  | _ => simp

theorem downloadInstallStatus_ne_rollbackFailed (status : DownloadStatus) :
    downloadInstallStatus status ≠ .installRollbackFailed := by
  cases status <;> simp [downloadInstallStatus]

theorem status_of_downloadFirst {context : Context} {result : InstallResult} {v v' : World Db}
    (h : downloadFirst styled cfg context args env v = .ok (some result) v') :
    result.status ≠ .installRollbackFailed := by
  have hwp : wp (downloadFirst styled cfg context args env)
      (fun result? _ => ∀ result, result? = some result →
        result.status ≠ .installRollbackFailed) (fun _ _ => True) v := by
    rw [downloadFirst, wp_ite]
    split
    · intro result hresult
      cases hresult
    · rw [wp_bind]
      refine wp_of_run (fun res _ _ => ?_) (fun _ _ _ => trivial)
      have hends : ∀ result, some (⟨downloadInstallStatus res.status, res.description⟩ :
          InstallResult) = some result → result.status ≠ .installRollbackFailed := by
        intro result hresult
        cases hresult
        exact downloadInstallStatus_ne_rollbackFailed _
      simp only [wp_ite, wp_bind, wp_modify, wp_pure]
      split
      · split
        · exact hends
        · exact hends
      · split
        · intro result hresult
          cases hresult
        · exact hends
  exact wp_ok hwp h result rfl

theorem status_of_contextInstall {context : Context} {cenv : ContextInstallEnv}
    {r : InstallResult} {v v' : World Db}
    (h : contextInstall St styled cfg context cenv v = .ok r v') :
    r.status ≠ .installRollbackFailed ∧ r.status ≠ .noSpace := by
  refine wp_ok (Q := fun r _ => r.status ≠ .installRollbackFailed ∧ r.status ≠ .noSpace)
    (E := fun _ _ => True) ?_ h
  refine contextInstall_rule (fun r _ hr => by rw [hr]; decide) (fun target _ _ _ => ?_)
    (fun _ _ => trivial)
  exact wp_of_run (fun _ _ _ => installStatus_ne) (fun _ _ _ => trivial)

/-- Only a failed installation leads to the report of a failed rollback. -/
theorem failsToInstall_of_rollbackFailed {r : InstallResult} {w' : World Db}
    (h : pullAndInstall St styled cfg args env w = .ok r w')
    (hstatus : r.status = .installRollbackFailed) :
    ∃ current failure u, FailsToInstall St styled cfg args env w current failure u := by
  refine (wp_true_iff (P := fun r _ => r.status = .installRollbackFailed → _)).mp ?_ r w' h hstatus
  rw [pullAndInstall, wp_bind, wp_get, wp_ite]
  cases hpending : (getPendingTarget St w).isValid with
  | true =>
    intro h
    cases h
  | false =>
    simp only [Bool.false_eq_true, if_false, wp_bind, wp_get, wp_orThrow]
    cases hcurrent : currentTufTarget St w with
    | error e => trivial
    | ok current =>
      dsimp only
      rw [wp_ite]
      split
      · rw [wp_bind, wp_orThrow]
        cases env.notifyNoSpace with
        | error e => trivial
        | ok _ =>
          intro h
          cases h
      · next hspace =>
        rw [wp_bind, wp_modify, wp_bind]
        refine wp_of_run (fun context? u hinstaller => ?_) (fun _ _ _ => trivial)
        cases context? with
        | none =>
          intro h
          cases h
        | some context =>
          dsimp only
          rw [wp_bind]
          refine wp_of_run (fun result? v hdownload => ?_) (fun _ _ _ => trivial)
          cases result? with
          | some result => exact fun h => absurd h (status_of_downloadFirst hdownload)
          | none =>
            dsimp only
            rw [installOrRollBack, wp_bind]
            refine wp_of_run (fun failure u' hinstall => ?_) (fun _ _ _ => trivial)
            rw [wp_ite]
            split
            · next hfailed =>
              refine wp_of_run (fun _ _ _ _ => ?_) (fun _ _ _ => trivial)
              exact ⟨current, failure, u', hpending, hfailed, context, v,
                ⟨hcurrent, by simpa using hspace, u, hinstaller, hdownload⟩, hinstall⟩
            · exact fun h => absurd h (status_of_contextInstall hinstall).1

end Proofs

/-- For a current target that is logged as installed, the rollback after a failed
installation is tried exactly in the states that let the target be installed again; and
only a failed installation is followed by the report of a failed rollback. -/
theorem rollback_tried_iff {Db : Type} {St : Storage Db} (hSt : LogContract St)
    (styled : Json → String) (cfg : Config) (args : PullArgs) (env : PullEnv) (w : World Db)
    (hlogged : wasTargetInstalled St (getCurrent St w) w.db = true) :
    (∀ current failure u, FailsToInstall St styled cfg args env w current failure u →
      (TriesRollback St styled cfg args env w current failure u ↔
        RollbackOpens St styled cfg args env current u)) ∧
    ∀ r w', pullAndInstall St styled cfg args env w = .ok r w' →
      r.status = .installRollbackFailed →
      ∃ current failure u, FailsToInstall St styled cfg args env w current failure u := by
  refine ⟨fun current failure u h => ?_, fun r w' => failsToInstall_of_rollbackFailed⟩
  rw [triesRollback_iff h]
  exact opens_rollback_iff h (wasTargetInstalled_of_failed hSt h hlogged)

theorem logContract_installedVersions : LogContract installedVersions := by
  intro t v s hs
  obtain ⟨row, hrow, rfl⟩ := List.mem_map.mp hs
  obtain ⟨hmem, hinstalled⟩ := List.mem_filter.mp hrow
  have hmem' : ∀ r ∈ InstalledVersions.upsert t (InstalledVersions.wasInstalled t v.rows) v.rows,
      r.wasInstalled = true →
      r.target ∈ installedVersions.ecuLog (installedVersions.save t .kNone v) :=
    fun r hr hwas => List.mem_map.mpr ⟨r, List.mem_filter.mpr ⟨hr, hwas⟩, rfl⟩
  by_cases hsame : InstalledVersions.sameVersion row.target t = true
  · have hrow : ⟨t, InstalledVersions.wasInstalled t v.rows⟩ ∈
        InstalledVersions.upsert t (InstalledVersions.wasInstalled t v.rows) v.rows := by
      simp [InstalledVersions.upsert]
    have hwas : InstalledVersions.wasInstalled t v.rows = true :=
      List.any_eq_true.mpr ⟨row, hmem, by simp [hsame, hinstalled]⟩
    refine ⟨t, hmem' _ hrow hwas, ?_⟩
    simp only [InstalledVersions.sameVersion, Bool.and_eq_true, beq_iff_eq] at hsame
    exact ⟨hsame.1.symm, hsame.2.symm⟩
  · refine ⟨row.target, hmem' row ?_ hinstalled, rfl, rfl⟩
    exact List.mem_append_left _ (List.mem_filter.mpr ⟨hmem, by simpa using hsame⟩)

/-- The library refuses to deploy the new hash, and everything else succeeds. -/
def deployFails : PullEnv :=
  let env := PullEnv.succeeds [nextTufTarget]
  let rootfs :=
    { RootfsEnv.succeeds with ostree := .refused ⟨.kInstallFailed, "no space"⟩ (by decide) }
  let client := { env.install.client with manager := { InstallEnv.succeeds with rootfs := rootfs } }
  { env with install := { env.install with client := client } }

/-- An online update of a new device is rolled back. -/
theorem rollback_tried_online :
    ∃ r w', pullAndInstall installedVersions (fun _ => "") deviceConfig pullNext deployFails
        factoryDevice = .ok r w' ∧ r.status = .installRollbackOk ∧
      ∃ current failure u, FailsToInstall installedVersions (fun _ => "") deviceConfig pullNext
          deployFails factoryDevice current failure u ∧
        TriesRollback installedVersions (fun _ => "") deviceConfig pullNext deployFails
          factoryDevice current failure u := by
  have hfails : FailsToInstall installedVersions (fun _ => "") deviceConfig pullNext deployFails
      factoryDevice _ _ _ := ⟨rfl, rfl, _, _, ⟨rfl, rfl, _, rfl, rfl⟩, rfl⟩
  obtain ⟨r, w', hrun, hstatus⟩ := exists_ok_of_returns (s := factoryDevice)
    (x := pullAndInstall installedVersions (fun _ => "") deviceConfig pullNext deployFails)
    (p := fun r _ => r.status == .installRollbackOk) (by decide +kernel)
  refine ⟨r, w', hrun, eq_of_beq hstatus, _, _, _, hfails, ?_⟩
  refine ((rollback_tried_iff logContract_installedVersions (fun _ => "") deviceConfig pullNext
    deployFails factoryDevice rfl).1 _ _ _ hfails).mpr ?_
  exact ⟨rfl, ⟨_, _, rfl, rfl⟩, by decide, rfl, fun h => by cases h⟩

/-- The same update from a local source. -/
def pullLocal : PullArgs :=
  { pullNext with
    isLocal := true
    target :=
      { nextTufTarget with
        custom := .obj [("version", .str "2"), ("local-src-dir", .str "/bundle"),
          ("docker_compose_apps", .obj [("web", .obj [("uri", .str "web@2")])])] } }

/-- The factory image is not one of the local source. -/
theorem local_rollback_not_tried :
    wasTargetInstalled installedVersions (getCurrent installedVersions factoryDevice)
        factoryDevice.db = true ∧
      ∃ r w', pullAndInstall installedVersions (fun _ => "") restorableConfig pullLocal
          deployFails factoryDevice = .ok r w' ∧ r.status = .installRollbackFailed ∧
        ∃ current failure u, FailsToInstall installedVersions (fun _ => "") restorableConfig
            pullLocal deployFails factoryDevice current failure u ∧
          ¬ TriesRollback installedVersions (fun _ => "") restorableConfig pullLocal deployFails
            factoryDevice current failure u := by
  have hfails : FailsToInstall installedVersions (fun _ => "") restorableConfig pullLocal
      deployFails factoryDevice _ _ _ := ⟨rfl, rfl, _, _, ⟨rfl, rfl, _, rfl, rfl⟩, rfl⟩
  obtain ⟨r, w', hrun, hstatus⟩ := exists_ok_of_returns (s := factoryDevice)
    (x := pullAndInstall installedVersions (fun _ => "") restorableConfig pullLocal deployFails)
    (p := fun r _ => r.status == .installRollbackFailed) (by decide +kernel)
  refine ⟨rfl, r, w', hrun, eq_of_beq hstatus, _, _, _, hfails, fun htries => ?_⟩
  obtain ⟨context, v, _, hinstaller, _⟩ := htries
  obtain ⟨_, _, _, _, hsource⟩ := installer_isSome_iff.mp ⟨context, v, hinstaller⟩
  have hmember := (hsource rfl).1
  revert hmember
  decide

end Client
end AkLite
