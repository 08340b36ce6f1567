/-
What the calls leave alone.

A download changes the engine's apps and adds to the effects.  An installation by the
package manager also changes the rootfs and the manager's own lists, and it adds to the
trace; the client above it writes to the database and changes its flags.  A frame that
allows the changes of one of these levels allows what the functions of the level do.
Such frames are, for example, that the database or the note of a download without space
stays the same, and that no effect is taken back.
-/
import AkLite.Client.Checks
import AkLite.Client.Finalize

namespace AkLite
namespace Client

open Lib Boot

section Frames

variable {Db : Type} {St : Storage Db} {styled : Json → String} {cfg : Config}

/-- What a download may change. -/
structure DownloadFrame (F : Frame (World Db)) : Prop where
  emitted : ∀ w es, F.rel w (w.emitted es)
  engineApps : ∀ w apps, F.rel w { w with engineApps := apps }

def Event.isStore : Event → Bool
  | .stored _ _ => true
  | _ => false

/-- What a finalization by the package manager may change.  It stores no target. -/
structure FinalizeFrame (F : Frame (World Db)) : Prop extends DownloadFrame F where
  record : ∀ w (e : Event), e.isStore = false → F.rel w { w with trace := e :: w.trace }

/-- What the package manager may change. -/
structure ManagerFrame (F : Frame (World Db)) : Prop extends FinalizeFrame F where
  rootfs : ∀ w r, F.rel w { w with rootfs := r }
  lists : ∀ w apps fetched,
    F.rel w { w with appsToFetchAndUpdate := apps, appsToFetch := fetched }

/-- What an installation may change.  It leaves the lists of a check, or clears them. -/
structure InstallFrame (F : Frame (World Db)) : Prop extends FinalizeFrame F where
  rootfs : ∀ w r, F.rel w { w with rootfs := r }
  cleared : ∀ w, F.rel w { w with appsToFetchAndUpdate := [], appsToFetch := [] }

theorem ManagerFrame.toInstallFrame {F : Frame (World Db)} (hF : ManagerFrame F) :
    InstallFrame F :=
  { hF with cleared := fun w => hF.lists w _ _ }

/-- What storing a result changes. -/
structure StoreFrame (St : Storage Db) (F : Frame (World Db)) : Prop where
  save : ∀ w t mode,
    F.rel w { w with db := St.save t mode w.db, trace := .stored t mode :: w.trace }
  rebootRequired : ∀ w required, F.rel w { w with rebootRequired := required }
  report : ∀ w t ok, F.rel w { w with reports := (t, ok) :: w.reports }

/-- What a check of the apps may change. -/
structure CheckFrame (F : Frame (World Db)) : Prop extends ManagerFrame F where
  cleanup : ∀ w cleanup, F.rel w { w with cleanupRemovedApps := cleanup }

/-- What the client may change below the public API. -/
structure ClientFrame (St : Storage Db) (F : Frame (World Db)) : Prop
    extends CheckFrame F, StoreFrame St F

/-- What an update may change, with the client's installation as a whole. -/
structure UpdateFrame (St : Storage Db) (styled : Json → String) (cfg : Config)
    (F : Frame (World Db)) : Prop extends CheckFrame F where
  install : ∀ env target mode, Within F (clientInstall St styled cfg env target mode)

/-- What the public calls may change. -/
structure CallFrame (St : Storage Db) (styled : Json → String) (cfg : Config)
    (F : Frame (World Db)) : Prop extends UpdateFrame St styled cfg F where
  noSpace : ∀ w note, F.rel w { w with noSpace := note }
  contexts : ∀ w contexts, F.rel w { w with contexts := contexts }

theorem managerFrame_db : ManagerFrame (.same (World.db : World Db → Db)) where
  emitted _ _ := rfl
  engineApps _ _ := rfl
  rootfs _ _ := rfl
  lists _ _ _ := rfl
  record _ _ _ := rfl

theorem managerFrame_noSpace :
    ManagerFrame (.same (World.noSpace : World Db → NoSpaceState)) where
  emitted _ _ := rfl
  engineApps _ _ := rfl
  rootfs _ _ := rfl
  lists _ _ _ := rfl
  record _ _ _ := rfl

theorem clientFrame_noSpace :
    ClientFrame St (.same (World.noSpace : World Db → NoSpaceState)) :=
  { managerFrame_noSpace with
    save := fun _ _ _ => rfl, rebootRequired := fun _ _ => rfl, report := fun _ _ _ => rfl,
    cleanup := fun _ _ => rfl }

variable {F : Frame (World Db)}

/-! ## Downloads -/

section Download

variable (hF : DownloadFrame F)

include hF

theorem within_emit (e : Effect) : Within F (emit e : M Db Unit) :=
  .modify fun w => hF.emitted w _

theorem within_fetchApps (env : DownloadTry) (apps : List App) (msg : String) :
    Within F (fetchApps env apps msg : M Db _) := by
  induction apps generalizing msg with
  | nil => exact .pure _
  | cons app rest ih =>
    refine .bind (within_emit hF _) fun _ => .bind (.orThrow _) fun result => ?_
    cases result with
    | ok =>
      refine .bind (.modify fun w => ?_) fun _ => ih msg
      split
      · exact F.refl w
      · exact hF.engineApps w _
    | failed err => exact .pure _
    | noSpace err stat => exact .pure _

theorem within_downloadOnce (env : DownloadTry) : Within F (downloadOnce cfg env : M Db _) := by
  unfold downloadOnce
  cases cfg.pacman with
  | ostree => exact .orThrow _
  | compose =>
    refine .bind (.orThrow _) fun res => .ite (.pure _) (.bind .get fun w => ?_)
    exact .bind (within_fetchApps hF _ _ _) fun r => .ite (.pure _) (.pure _)

theorem within_downloadTries (tries : List DownloadTry) :
    Within F (downloadTries cfg tries : M Db _) := by
  induction tries with
  | nil => exact .pure _
  | cons env rest ih =>
    cases rest with
    | nil => exact within_downloadOnce hF env
    | cons env' rest =>
      exact .bind (within_downloadOnce hF env) fun res => .ite (.pure _) ih

omit hF in
theorem within_verifyTarget (env : VerifyEnv) : Within F (verifyTarget cfg env : M Db _) :=
  .bind (.orThrow _) fun _ => .ite (.pure _) (.bind .get fun _ => .orThrow _)

theorem within_contextDownload (context : Context) (env : ContextDownloadEnv) :
    Within F (contextDownload styled cfg context env : M Db _) := by
  refine .bind (.bind (.orThrow _) fun _ => .pure _) fun _ => .ite (.bind (.orThrow _) fun _ =>
    .pure _) (.bind ?_ fun res => .ite (.pure _) ?_)
  · refine .bind (.orThrow _) fun _ => .bind (.orThrow _) fun _ => ?_
    exact .bind (within_downloadTries hF _) fun res => .bind (.orThrow _) fun _ => .pure _
  · refine .bind (within_verifyTarget _) fun status => .ite ?_ (.pure _)
    exact .bind (.orThrow _) fun _ => .pure _

end Download

/-! ## The package manager -/

section Finalize

variable (hF : FinalizeFrame F)

include hF

theorem within_record (e : Event) (he : e.isStore = false) : Within F (record e : M Db Unit) :=
  .modify fun w => hF.record w e he

theorem within_prune (shortlist : List App) : Within F (prune shortlist : M Db Unit) :=
  .bind (within_emit hF.toDownloadFrame _) fun _ => .modify fun w => hF.engineApps w _

theorem within_handleRemovedApps (appsRoot : Option (List String)) (target : Target) :
    Within F (handleRemovedApps styled cfg appsRoot target : M Db Unit) := by
  refine .bind (.orThrow _) fun removed => .bind (.modify fun w => ?_) fun _ => ?_
  · exact F.trans (hF.emitted w _) (hF.engineApps _ _)
  · exact .ite (.bind (.orThrow _) fun _ => within_prune hF _) (.pure _)

theorem within_stopApps (env : InstallEnv) (apps : List App) :
    Within F (stopApps env apps : M Db Unit) := by
  induction apps with
  | nil => exact .pure _
  | cons app rest ih =>
    exact .bind (within_emit hF.toDownloadFrame _) fun _ => .bind (.orThrow _) fun _ => ih

omit hF in
theorem within_withRunningApps (env : InstallEnv) (res : InstallationResult) :
    Within F (withRunningApps env res : M Db _) :=
  .bind (.orThrow _) fun _ => .pure _

theorem within_startEnabled (env : InstallEnv) (note : Json) (enabled : List App) (msg : String) :
    Within F (startEnabled env note enabled msg : M Db _) := by
  induction enabled generalizing msg with
  | nil => exact .pure _
  | cons app rest ih =>
    refine .bind (.orThrow _) fun before => .ite (ih _) ?_
    refine .bind (within_emit hF.toDownloadFrame _) fun _ => .bind (.orThrow _) fun result => ?_
    cases result with
    | ok => exact .bind (within_record hF _ rfl) fun _ => ih _
    | failed err => exact .pure _
    | imagePullFailure err => exact .pure _

theorem within_finishFinalize (env : InstallEnv) (target : Target) (description : String)
    (started : Option (ResultCode × String) × String) :
    Within F (finishFinalize styled cfg env target description started : M Db _) := by
  obtain ⟨failure, newly⟩ := started
  cases failure with
  | some f => exact within_withRunningApps _ _
  | none =>
    refine .bind (within_handleRemovedApps hF _ _) fun _ => .ite ?_ (within_withRunningApps _ _)
    exact .bind (.orThrow _) fun _ => .bind (within_prune hF _) fun _ => within_withRunningApps _ _

theorem within_managerFinalizeInstall (env : FinalizeEnv) (target : Target) :
    Within F (managerFinalizeInstall styled cfg env target : M Db _) := by
  unfold managerFinalizeInstall
  cases cfg.pacman with
  | ostree => exact .orThrow _
  | compose =>
    refine .bind (.orThrow _) fun ir => .ite ?_ (.ite (.pure _) (within_withRunningApps _ _))
    refine .bind (.orThrow _) fun _ => .bind (within_stopApps hF _ _) fun _ =>
      .bind (.orThrow _) fun _ => .bind (.orThrow _) fun _ => ?_
    exact .bind (within_startEnabled hF _ _ _ _) fun _ => within_finishFinalize hF _ _ _ _

end Finalize

section Manager

variable (hF : InstallFrame F)

include hF

theorem within_onRootfs {α : Type} (x : RootfsM α) : Within F (onRootfs x : M Db α) := by
  intro w
  rw [wp_onRootfs]
  exact wp_of_run (fun _ r _ => hF.rootfs w r) (fun _ r _ => hF.rootfs w r)

theorem within_startApps (env : InstallEnv) (justInstall : Bool) (apps : List App)
    (res : InstallationResult) :
    Within F (startApps env justInstall apps res : M Db InstallationResult) := by
  induction apps generalizing res with
  | nil => exact .pure _
  | cons app rest ih =>
    refine .bind (within_emit hF.toDownloadFrame _) fun _ => .bind (.orThrow _) fun result => ?_
    cases result with
    | ok => exact .ite (.bind (within_record hF.toFinalizeFrame _ rfl) fun _ => ih _) (ih _)
    | failed err => exact ih _
    | imagePullFailure err => exact ih _

theorem within_installApps (env : InstallEnv) (res : InstallationResult) :
    Within F (installApps cfg env res : M Db _) :=
  .ite (.bind .get fun _ => .bind (within_startApps hF _ _ _ _) fun _ => .pure _) (.pure _)

theorem within_finishInstall (env : InstallEnv) (target : Target) (res : InstallationResult) :
    Within F (finishInstall styled cfg env target res : M Db _) := by
  have hend : ∀ res, Within F (do
      modify fun w : World Db => { w with appsToFetchAndUpdate := [], appsToFetch := [] }
      withRunningApps env res) := fun res =>
    .bind (.modify fun w => hF.cleared w) fun _ => within_withRunningApps env res
  refine .bind (within_installApps hF _ _) fun r => .ite ?_ (hend _)
  refine .bind (within_handleRemovedApps hF.toFinalizeFrame _ _) fun _ => .ite ?_ (hend _)
  exact .bind (.orThrow _) fun _ => .bind (within_prune hF.toFinalizeFrame _) fun _ => hend _

/-- The part of an installation that begins with the rootfs. -/
theorem within_installFrom (env : InstallEnv) (target : Target) (hash : String)
    (x : RootfsM InstallationResult) :
    Within F (do
      emit (.installRootfs hash)
      let res ← onRootfs x
      if res.code = .kInstallFailed then withRunningApps env res
      else finishInstall styled cfg env target res : M Db InstallationResult) :=
  .bind (within_emit hF.toDownloadFrame _) fun _ => .bind (within_onRootfs hF x) fun _ =>
    .ite (within_withRunningApps _ _) (within_finishInstall hF _ _ _)

theorem within_composeInstall (env : InstallEnv) (target : Target) :
    Within F (composeInstall St styled cfg env target) := by
  have hstop := within_stopApps hF.toFinalizeFrame
  refine .bind (.orThrow _) fun removed => .bind (hstop _ _) fun _ => ?_
  refine .bind .get fun w => .ite (.bind .get fun _ => ?_) (within_installFrom hF _ _ _ _)
  exact .bind (hstop _ _) fun _ => within_installFrom hF _ _ _ _

theorem within_installPackage (env : InstallEnv) (target : Target) (mode : InstallMode) :
    Within F (installPackage St styled cfg env target mode) := by
  refine .tryCatch (.bind (.orThrow _) fun t => .ite (within_composeInstall hF _ _) ?_)
    (fun _ => .pure _)
  exact .bind .get fun _ => .bind (within_emit hF.toDownloadFrame _) fun _ => within_onRootfs hF _

end Manager

theorem within_checkForAppsToUpdate (hF : ManagerFrame F) (env : CheckEnv) (target : Target) :
    Within F (checkForAppsToUpdate St styled cfg env target) := by
  refine .bind .get fun w => .bind (.orThrow _) fun check => .bind (.modify fun w => ?_) fun _ => ?_
  · exact hF.lists w _ w.appsToFetch
  · refine .bind (within_record hF.toFinalizeFrame _ rfl) fun _ =>
      .bind (.orThrow _) fun toFetch => ?_
    exact .bind (.modify fun w => hF.lists w w.appsToFetchAndUpdate _) fun _ => .pure _

theorem within_notify (hF : ∀ w err, F.rel w { w with trace := .tufUpdateFinished err :: w.trace })
    (err : String) : Within F (notifyTufUpdateFinished cfg err : M Db Unit) :=
  .ite (.pure _) (.modify fun w => hF w _)

theorem within_notifyInstallFinished
    (hF : ∀ w t ok, F.rel w { w with reports := (t, ok) :: w.reports })
    (sent : Except String Unit) (target : Target) (code : ResultCode) :
    Within F (notifyInstallFinished sent target code : M Db Unit) :=
  .bind (.orThrow _) fun _ => .ite (.modify fun w => hF w _ _) (.pure _)

/-! ## The client -/

theorem within_saveInstalledVersion (hF : StoreFrame St F) (t : Target) (mode : UpdateMode) :
    Within F (saveInstalledVersion St t mode) := fun w => hF.save w t mode

theorem within_storeResult_of {target : Target}
    (hsave : ∀ mode, Within F (saveInstalledVersion St target mode))
    (hreboot : ∀ w required, F.rel w { w with rebootRequired := required })
    (env : ClientInstallEnv) (mode : InstallMode) (res : InstallationResult) :
    Within F (storeResult St env target mode res) := by
  unfold storeResult
  cases res.code with
  | kNeedCompletion =>
    refine .bind (.modify fun w => hreboot w _) fun _ => .bind .get fun w => ?_
    exact .ite (.bind (hsave _) fun _ => .pure _) (.pure _)
  | kOk =>
    refine .ite (.bind (hsave _) fun _ => .pure _) ?_
    exact .bind (hsave _) fun _ => .bind (.orThrow _) fun _ => .pure _
  | kDownloadFailed => exact .pure _
  | _ => exact .bind (hsave _) fun _ => .pure _

theorem within_storeResult (hF : StoreFrame St F) (env : ClientInstallEnv) (target : Target)
    (mode : InstallMode) (res : InstallationResult) :
    Within F (storeResult St env target mode res) :=
  within_storeResult_of (within_saveInstalledVersion hF _) hF.rebootRequired _ _ _

section Check

variable (hF : CheckFrame F)

include hF

theorem within_checkAndSet (env : CheckEnv) (target : TufTarget) (reason : String) :
    Within F (checkAndSetAppsForUpdate St styled cfg env target reason) := by
  refine .bind .get fun w => .bind ?_ fun apps => .bind (.modify fun w => hF.cleanup w _) fun _ =>
    .pure _
  unfold appsToUpdate
  cases cfg.pacman with
  | ostree => exact .pure _
  | compose =>
    refine .bind (within_checkForAppsToUpdate hF.toManagerFrame _ _) fun reasons => ?_
    refine .ite (.bind .get fun w => ?_) (.pure _)
    exact .bind (within_handleRemovedApps hF.toFinalizeFrame _ _) fun _ => .pure _

theorem within_installer (args : InstallerArgs) (env : InstallerEnv) :
    Within F (installer St styled cfg args env) := by
  have hopen : ∀ target reason, Within F (openContext cfg args env target reason : M Db _) :=
    fun target reason => .ite (.bind (.orThrow _) fun _ => .ite (.pure _)
      (.bind (.orThrow _) fun _ => .ite (.bind (.throw _) fun _ => .pure _) (.pure _))) (.pure _)
  -- Both exits of a guard are followed by the rest of the block.
  refine .ite (.bind (.throw _) fun _ => ?_) ?_
  all_goals
    refine .bind .get fun w => .bind (.orThrow _) fun _ => .ite (.pure _)
      (.ite (.bind (.throw _) fun _ => ?_) ?_)
  all_goals
    exact .ite (hopen _ _) (.bind (.orThrow _) fun _ =>
      .bind (within_checkAndSet hF _ _ _) fun _ => hopen _ _)

theorem within_getTargetToInstall (ci : CheckInResult) (args : SelectArgs) (env : CheckEnv) :
    Within F (getTargetToInstall St styled cfg ci args env) := by
  have hend : ∀ err (r : SelectResult),
      Within F (do notifyTufUpdateFinished cfg err; return r : M Db _) := fun err r =>
    .bind (within_notify (fun w _ => hF.record w _ rfl) err) fun _ => .pure _
  refine .bind .get fun w => .bind (.orThrow _) fun plan => ?_
  cases plan with
  | done result err => exact hend _ _
  | update candidate current rollbackOperation =>
    exact .bind (within_checkAndSet hF _ _ _) fun _ => hend _ _
  | sync candidate current =>
    refine .bind (within_checkAndSet hF _ _ _) fun _ => .ite ?_ (hend _ _)
    exact .bind (.orThrow _) fun _ => hend _ _

end Check

section Client

variable (hF : ClientFrame St F)

include hF

theorem within_clientInstall (env : ClientInstallEnv) (target : Target) (mode : InstallMode) :
    Within F (clientInstall St styled cfg env target mode) := by
  refine .bind (.orThrow _) fun _ =>
    .bind (within_record hF.toFinalizeFrame _ rfl) fun _ => ?_
  refine .bind (within_installPackage hF.toManagerFrame.toInstallFrame _ _ _) fun res => ?_
  exact .bind (within_storeResult hF.toStoreFrame _ _ _ _) fun _ =>
    .bind (within_notifyInstallFinished hF.report _ _ _) fun _ => .pure _

theorem within_completeInstallation (env : CompleteEnv) :
    Within F (completeInstallation St styled cfg env) := by
  refine .bind (.bind .get fun w => ?_) fun _ => .bind .get fun _ => .pure _
  cases St.pending w.db with
  | none => exact .bind (.orThrow _) fun _ => .pure _
  | some target =>
    refine .bind (.orThrow _) fun _ => .bind (.bind ?_ fun ret => ?_) fun ret =>
      .bind (.orThrow _) fun _ =>
        .ite (.bind (within_notifyInstallFinished hF.report _ _ _) fun _ => .pure _) (.pure _)
    · exact within_managerFinalizeInstall hF.toFinalizeFrame _ _
    · have hsave : ∀ mode, Within F (saveInstalledVersion St target mode) :=
        within_saveInstalledVersion hF.toStoreFrame target
      exact .ite (.bind (hsave _) fun _ => .pure _) (.ite (.bind (hsave _) fun _ => .pure _)
        (.pure _))

theorem ClientFrame.toUpdateFrame : UpdateFrame St styled cfg F :=
  { hF.toCheckFrame with install := within_clientInstall hF }

end Client

/-! ## Updates -/

section Update

variable (hF : UpdateFrame St styled cfg F)

include hF

theorem within_contextInstall (context : Context) (env : ContextInstallEnv) :
    Within F (contextInstall St styled cfg context env) := by
  refine .bind (.bind (.orThrow _) fun _ => .pure _) fun _ => .bind (within_verifyTarget _) fun _ =>
    .ite (.pure _) ?_
  refine .bind (.orThrow _) fun _ => .bind (.orThrow _) fun _ => ?_
  exact .bind (hF.install _ _ _) fun _ => .bind .get fun _ => .pure _

theorem within_rollBackTo (current : TufTarget) (args : PullArgs) (env : PullEnv)
    (failure : InstallResult) : Within F (rollBackTo St styled cfg current args env failure) := by
  refine .bind (within_installer hF.toCheckFrame _ _) fun context? => ?_
  cases context? with
  | none => exact .pure _
  | some context => exact .bind (within_contextInstall hF _ _) fun _ => .pure _

theorem within_installOrRollBack (context : Context) (current : TufTarget) (args : PullArgs)
    (env : PullEnv) : Within F (installOrRollBack St styled cfg context current args env) :=
  .bind (within_contextInstall hF _ _) fun _ => .ite (within_rollBackTo hF _ _ _ _) (.pure _)

end Update

section Calls

variable (hF : CallFrame St styled cfg F)

include hF

theorem within_downloadFirst (context : Context) (args : PullArgs) (env : PullEnv) :
    Within F (downloadFirst styled cfg context args env) := by
  refine .ite (.pure _) (.bind (within_contextDownload hF.toDownloadFrame _ _) fun res => ?_)
  refine .ite (.ite (.bind (.modify fun w => hF.noSpace w _) fun _ => .pure _) (.pure _)) (.pure _)

theorem within_pullAndInstall (args : PullArgs) (env : PullEnv) :
    Within F (pullAndInstall St styled cfg args env) := by
  refine .bind .get fun _ => .ite (.pure _) (.bind .get fun _ => .bind (.orThrow _) fun _ => ?_)
  refine .bind .get fun _ => .ite (.bind (.orThrow _) fun _ => .pure _) ?_
  refine .bind (.modify fun w => hF.noSpace w _) fun _ =>
    .bind (within_installer hF.toCheckFrame _ _) fun context? => ?_
  cases context? with
  | none => exact .pure _
  | some context =>
    refine .bind (within_downloadFirst hF _ _ _) fun result? => ?_
    cases result? with
    | some result => exact .pure _
    | none => exact within_installOrRollBack hF.toUpdateFrame _ _ _ _

end Calls

end Frames

end Client
end AkLite
