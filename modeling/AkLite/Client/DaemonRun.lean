/-
The daemon.

A daemon process finalizes the pending installation, if there is one, and then goes round:
it checks in, selects a target and pulls and installs it.  It ends when an installation
asks for a reboot.  An exception of a call ends it too.

The installed target may be pending until the reboot, so that the process has to end before
it selects another one.  `daemon_process` says that it does, for every process, of any
number of turns and in any environment: no target is pulled while a reboot is due.  The
finalization at the start is the exception to the rule that none is pulled while one is
pending.  A target that it leaves pending, as it does if the images of an app cannot be
pulled, stays pending as long as the process runs, and every update is refused.
-/
import AkLite.Client.CheckCycle
import AkLite.Client.Cli
import AkLite.Client.Completion

namespace AkLite
namespace Client

open Lib Boot

variable {Key Stamp R T Db : Type}

/-! ## The process -/

inductive ExitCode where
  | success
  | failure
  deriving DecidableEq, Repr

/-- A call of `PullAndInstall`, with the world it is made in. -/
structure PullCall (Db : Type) where
  world : World Db
  args : PullArgs

/-- The client and the metadata, with the calls of `PullAndInstall` and the reboot commands
of the process, the latest first. -/
structure Process (Db T : Type) where
  world : World Db
  repo : T
  calls : List (PullCall Db)
  reboots : List String

/-- A process that has just started. -/
def Process.started (world : World Db) (repo : T) : Process Db T :=
  { world := world, repo := repo, calls := [], reboots := [] }

abbrev DaemonM (Db T : Type) := EStateM String (Process Db T)

def onWorld {α : Type} (x : M Db α) : DaemonM Db T α :=
  focus Process.world (fun w p => { p with world := w }) x

structure DaemonEnv where
  /-- `[uptane]/repo_server`. -/
  repoServer : String
  rebootCommand : String
  /-- The reboot command can be executed. -/
  isExecutable : Bool
  /-- `is_booted_env`. -/
  isBooted : Bool
  autoDowngrade : Bool
  returnOnSleep : Bool
  complete : CompleteEnv

/-- What one turn of the loop meets. -/
structure TurnEnv where
  check : CheckEnv
  pull : PullEnv
  /-- `setuid` succeeds. -/
  isRoot : Bool

section Daemon

variable (d : Device Key Stamp R T) (St : Storage Db)

/-- `CheckIn` with its notifications. -/
def daemonCheckIn : DaemonM Db T CheckInResult := do
  onWorld (record .tufUpdateStarted)
  let p ← get
  let answer := checkIn d (getCurrent St p.world) p.repo
  modify fun p => { p with repo := answer.2 }
  let checked ← orThrow answer.1
  if let some err := checked.finished then onWorld (record (.tufUpdateFinished err))
  return checked.result

/-- `RebootIfRequired`: the process is to end, whether or not the command was executed. -/
def rebootIfRequired (env : DaemonEnv) (isRoot : Bool) : DaemonM Db T Bool := do
  if !(← get).world.rebootRequired then return false
  if env.isBooted && env.rebootCommand != "" && isRoot then
    modify fun p => { p with reboots := env.rebootCommand :: p.reboots }
  return true

def pullSelected (r : SelectResult) (pull : PullEnv) : DaemonM Db T InstallResult := do
  modify fun p => { p with calls := { world := p.world, args := .daemon r } :: p.calls }
  onWorld (pullAndInstall St d.tk.toStyledString d.cfg (.daemon r) pull)

/-- The body of the loop, and whether the loop is to be left. -/
def daemonTurn (env : DaemonEnv) (turn : TurnEnv) : DaemonM Db T Bool := do
  let _ ← orThrow (currentTufTarget St (← get).world)
  let ci ← daemonCheckIn d St
  if !ci.good then return false
  let r ← onWorld (getTargetToInstall St d.tk.toStyledString d.cfg ci (.daemon env.autoDowngrade)
    turn.check)
  if r.selected.isUnknown then return false
  let _ ← pullSelected d St r turn.pull
  rebootIfRequired env turn.isRoot

/-- The loop, for as many turns as there are.  No exit code is that of a process that still
runs. -/
def daemonLoop (env : DaemonEnv) : List TurnEnv → DaemonM Db T (Option ExitCode)
  | [] => return none
  | turn :: rest => do
    if ← daemonTurn d St env turn then return some .success
    if env.returnOnSleep then return some .success
    daemonLoop env rest

/-- The finalization at the start, and whether the process goes on. -/
def daemonStart (env : DaemonEnv) : DaemonM Db T Bool := do
  if !(getPendingTarget St (← get).world).isValid then return true
  let ir ← onWorld (completeInstallation St d.tk.toStyledString d.cfg env.complete)
  return ir.status != .needsCompletion

/-- `run_daemon`. -/
def runDaemon (env : DaemonEnv) (turns : List TurnEnv) : DaemonM Db T (Option ExitCode) := do
  if env.repoServer = "" then return some .failure
  if !env.isExecutable then return some .failure
  if !(← daemonStart d St env) then return some .failure
  daemonLoop d St env turns

end Daemon

/-! ## An update and the pending target -/

section Pull

variable {St : Storage Db} {styled : Json → String} {cfg : Config}

/-- No target becomes pending unless a reboot is due at the end. -/
def rebootFrame (St : Storage Db) : Frame (World Db) where
  rel w w' := (w.rebootRequired = true → w'.rebootRequired = true) ∧
    ((getPendingTarget St w').isValid = true →
      (getPendingTarget St w).isValid = true ∨ w'.rebootRequired = true)
  refl _ := ⟨id, .inl⟩
  trans h h' := by
    refine ⟨fun hdue => h'.1 (h.1 hdue), fun hvalid => ?_⟩
    rcases h'.2 hvalid with hvalid | hdue
    · rcases h.2 hvalid with hvalid | hdue
      · exact .inl hvalid
      · exact .inr (h'.1 hdue)
    · exact .inr hdue

theorem checkFrame_reboot : CheckFrame (rebootFrame St) where
  emitted _ _ := ⟨id, .inl⟩
  engineApps _ _ := ⟨id, .inl⟩
  rootfs _ _ := ⟨id, .inl⟩
  lists _ _ _ := ⟨id, .inl⟩
  record _ _ _ := ⟨id, .inl⟩
  cleanup _ _ := ⟨id, .inl⟩

/-- Storing a target in a mode that leaves the pending record or clears it. -/
theorem rebootFrame_save {w : World Db} {t : Target} {mode : UpdateMode}
    (h : St.pending (St.save t mode w.db) = St.pending w.db ∨
      St.pending (St.save t mode w.db) = none) :
    wp (saveInstalledVersion St t mode) (fun _ w' => (rebootFrame St).rel w w')
      (fun _ w' => (rebootFrame St).rel w w') w := by
  rw [wp_saveInstalledVersion]
  refine ⟨id, fun hvalid => .inl ?_⟩
  rw [getPendingTarget] at hvalid ⊢
  rcases h with h | h
  · rw [← h]
    exact hvalid
  · rw [show St.pending _ = none from h] at hvalid
    cases hvalid

section Stored

variable (hSt : PendingRecord St)

include hSt

/-- An installation of the whole target makes it pending only for a reboot. -/
theorem within_storeResult_all (env : ClientInstallEnv) (target : Target)
    (res : InstallationResult) :
    Within (rebootFrame St) (storeResult St env target .all res) := by
  have hnone : Within (rebootFrame St) (saveInstalledVersion St target .kNone) := fun w =>
    rebootFrame_save (hSt.kNone target w.db)
  have hcurrent : Within (rebootFrame St) (saveInstalledVersion St target .kCurrent) := fun w =>
    rebootFrame_save (.inr (hSt.kCurrent target w.db))
  unfold storeResult
  cases res.code with
  | kNeedCompletion =>
    intro w
    rw [wp_bind, wp_modify, wp_bind, wp_get, wp_ite]
    split
    · exact ⟨fun _ => rfl, fun _ => .inr rfl⟩
    · exact ⟨fun _ => rfl, fun _ => .inr rfl⟩
  | kOk =>
    dsimp only
    rw [if_neg (by decide)]
    exact .bind hcurrent fun _ => .bind (.orThrow _) fun _ => .pure _
  | kDownloadFailed => exact .pure _
  | _ => exact .bind hnone fun _ => .pure _

theorem within_contextInstall_all {context : Context} (hmode : context.mode = .all)
    (env : ContextInstallEnv) :
    Within (rebootFrame St) (contextInstall St styled cfg context env) := by
  have hF : InstallFrame (rebootFrame St) := checkFrame_reboot.toManagerFrame.toInstallFrame
  have hreport := within_notifyInstallFinished (F := rebootFrame St) fun _ _ _ => ⟨id, .inl⟩
  intro w
  refine contextInstall_rule (fun _ _ _ => (rebootFrame St).refl w) (fun target _ _ _ => ?_)
    fun _ _ => (rebootFrame St).refl w
  rw [hmode]
  refine Within.bind (.orThrow _) (fun _ => ?_) w
  refine .bind (within_record hF.toFinalizeFrame _ rfl) fun _ => ?_
  refine .bind (within_installPackage hF _ _ _) fun res => ?_
  exact .bind (within_storeResult_all hSt _ _ _) fun _ => .bind (hreport _ _ _) fun _ => .pure _

theorem within_rollBackTo_all (current : TufTarget) (args : PullArgs) (env : PullEnv)
    (failure : InstallResult) :
    Within (rebootFrame St) (rollBackTo St styled cfg current args env failure) := by
  refine .bind_run (within_installer checkFrame_reboot _ _) fun w context? v hrun => ?_
  cases context? with
  | none => exact (rebootFrame St).refl v
  | some context =>
    have hmode : context.mode = .all := ((installer_run hrun).2 context rfl).mode
    exact Within.bind (within_contextInstall_all hSt hmode _) (fun _ => .pure _) v

/-- An update in the mode `All` makes a target pending only if it asks for a reboot. -/
theorem within_pullAndInstall_all {args : PullArgs} (hmode : args.mode = .all) (env : PullEnv) :
    Within (rebootFrame St) (pullAndInstall St styled cfg args env) := by
  have hdownload : DownloadFrame (rebootFrame St) := checkFrame_reboot.toDownloadFrame
  have hspace : ∀ note, Within (rebootFrame St)
      (modify fun w => { w with noSpace := note } : M Db PUnit) := fun note =>
    .modify fun _ => ⟨id, .inl⟩
  refine .bind .get fun _ => .ite (.pure _) (.bind .get fun _ => ?_)
  refine .bind (.orThrow _) fun current => .bind .get fun _ => ?_
  refine .ite (.bind (.orThrow _) fun _ => .pure _) (.bind (hspace _) fun _ => ?_)
  refine .bind_run (within_installer checkFrame_reboot _ _) fun w context? v hrun => ?_
  cases context? with
  | none => exact (rebootFrame St).refl v
  | some context =>
    have hcontext : context.mode = .all := ((installer_run hrun).2 context rfl).mode.trans hmode
    refine Within.bind (.ite (.pure _) (.bind (within_contextDownload hdownload _ _) fun res => ?_))
      (fun result? => ?_) v
    · exact .ite (.ite (.bind (hspace _) fun _ => .pure _) (.pure _)) (.pure _)
    · cases result? with
      | some result => exact .pure _
      | none =>
        exact .bind (within_contextInstall_all hSt hcontext _) fun _ =>
          .ite (within_rollBackTo_all hSt _ _ _ _) (.pure _)

end Stored

end Pull

/-! ## Turns that change nothing -/

def Event.isUpdate : Event → Bool
  | .installStarted _ | .appStarted _ | .stored _ _ => true
  | _ => false

/-- All but the clean-up of apps. -/
def Effect.isUpdate : Effect → Bool
  | .remove _ | .prune _ => false
  | _ => true

/-- Nothing is downloaded, installed or stored. -/
structure Idle (w w' : World Db) : Prop where
  db : w'.db = w.db
  rootfs : w'.rootfs = w.rootfs
  rebootRequired : w'.rebootRequired = w.rebootRequired
  reports : w'.reports = w.reports
  trace : (Frame.adds World.trace fun e => e.isUpdate = false).rel w w'
  effects : (Frame.adds World.effects fun e => e.isUpdate = false).rel w w'

theorem Idle.refl (w : World Db) : Idle w w :=
  ⟨rfl, rfl, rfl, rfl, Frame.refl _ w, Frame.refl _ w⟩

theorem Idle.trans {w v u : World Db} (h : Idle w v) (h' : Idle v u) : Idle w u :=
  ⟨h'.db.trans h.db, h'.rootfs.trans h.rootfs, h'.rebootRequired.trans h.rebootRequired,
    h'.reports.trans h.reports, Frame.trans _ h.trace h'.trace, Frame.trans _ h.effects h'.effects⟩

theorem Idle.record {w v : World Db} (h : Idle w v) {e : Event} (he : e.isUpdate = false) :
    Idle w { v with trace := e :: v.trace } :=
  h.trans ⟨rfl, rfl, rfl, rfl, ⟨[e], rfl, by simpa using he⟩, [], rfl, nofun⟩

section Idle

variable {St : Storage Db} {styled : Json → String} {cfg : Config} {w : World Db}

theorem cleanUpEffects_isUpdate {appsRoot : Option (List String)} {target : Target} {e : Effect}
    (h : e ∈ cleanUpEffects styled cfg appsRoot target) : e.isUpdate = false := by
  unfold cleanUpEffects at h
  cases hremoved : removedApps cfg appsRoot target.custom with
  | error what => simp [hremoved] at h
  | ok removed =>
    have hremove : e ∈ removed.map Effect.remove → e.isUpdate = false := by
      intro hmem
      obtain ⟨name, _, rfl⟩ := List.mem_map.mp hmem
      rfl
    simp only [hremoved] at h
    split at h
    · cases hrequired : getRequiredApps styled cfg target.custom with
      | error what =>
        rw [hrequired] at h
        exact hremove h
      | ok required =>
        rw [hrequired] at h
        rcases List.mem_append.mp h with h | h
        · exact hremove h
        · rw [List.mem_singleton.mp h]
          rfl
    · exact hremove h

/-- A check does nothing but clean up.  Of the flag and the reports it is known elsewhere that
they stay. -/
theorem CheckEffect.idle {env : CheckEnv} {target : TufTarget} {w' : World Db}
    (h : CheckEffect St styled cfg env target w w') :
    Idle w { w' with rebootRequired := w.rebootRequired, reports := w.reports } := by
  refine ⟨h.db, h.rootfs, rfl, rfl, ?_, _, h.effects, fun e he => ?_⟩
  · rcases h.lists with ⟨_, htrace⟩ | ⟨c, _, _, htrace⟩
    · exact ⟨[], htrace, nofun⟩
    · exact ⟨[_], htrace, by simp [Event.isUpdate]⟩
  · rw [List.mem_reverse, checkEffects] at he
    split at he
    · exact cleanUpEffects_isUpdate he
    · cases he

theorem checkFrame_flags :
    CheckFrame (.same fun w : World Db => (w.rebootRequired, w.reports)) where
  emitted _ _ := rfl
  engineApps _ _ := rfl
  rootfs _ _ := rfl
  lists _ _ _ := rfl
  record _ _ _ := rfl
  cleanup _ _ := rfl

theorem idle_getTargetToInstall {ci : CheckInResult} {args : SelectArgs} {env : CheckEnv} :
    wp (getTargetToInstall St styled cfg ci args env) (fun _ => Idle w) (fun _ => Idle w) w := by
  have hidle : ∀ v : World Db,
      Idle w { v with rebootRequired := w.rebootRequired, reports := w.reports } ∧
        (v.rebootRequired, v.reports) = (w.rebootRequired, w.reports) → Idle w v := by
    rintro v ⟨h, hflags⟩
    obtain ⟨hreboot, hreports⟩ := Prod.mk.inj hflags
    rwa [← hreboot, ← hreports] at h
  refine wp_mono (wp_and
    (getTargetToInstall_keeps (I := fun v =>
        Idle w { v with rebootRequired := w.rebootRequired, reports := w.reports })
      (Idle.refl w) (fun _ _ h => h.idle) fun v err h => h.record rfl)
    (within_getTargetToInstall checkFrame_flags ci args env w)) ?_ ?_
  · exact fun _ v h => hidle v h
  · exact fun _ v h => hidle v h

end Idle

/-- A process that only checks. -/
structure Waits (p p' : Process Db T) : Prop where
  world : Idle p.world p'.world
  calls : p'.calls = p.calls
  reboots : p'.reboots = p.reboots

def waitFrame : Frame (Process Db T) where
  rel := Waits
  refl p := ⟨Idle.refl p.world, rfl, rfl⟩
  trans h h' := ⟨h.world.trans h'.world, h'.calls.trans h.calls, h'.reboots.trans h.reboots⟩

section Turns

variable {d : Device Key Stamp R T} {St : Storage Db} {env : DaemonEnv} {turn : TurnEnv}
  {p : Process Db T}

theorem within_onWorld {α : Type} {x : M Db α}
    (hx : ∀ w, wp x (fun _ => Idle w) (fun _ => Idle w) w) :
    Within waitFrame (onWorld x : DaemonM Db T α) := by
  intro p
  rw [onWorld, wp_focus]
  exact wp_mono (hx p.world) (fun _ _ h => ⟨h, rfl, rfl⟩) fun _ _ h => ⟨h, rfl, rfl⟩

/-- The process after a check-in.  It is seen in the metadata and on the trace. -/
structure ChecksIn (d : Device Key Stamp R T) (St : Storage Db) (p p' : Process Db T) : Prop where
  world : ∃ events, p'.world = { p.world with trace := events ++ p.world.trace } ∧
    ∀ e ∈ events, e.isUpdate = false
  repo : p'.repo = (checkIn d (getCurrent St p.world) p.repo).2
  calls : p'.calls = p.calls
  reboots : p'.reboots = p.reboots

theorem wp_daemonCheckIn :
    wp (daemonCheckIn d St)
      (fun ci p' => ChecksIn d St p p' ∧ ∃ checked,
        (checkIn d (getCurrent St p.world) p.repo).1 = .ok checked ∧ ci = checked.result)
      (fun e p' => ChecksIn d St p p' ∧ (checkIn d (getCurrent St p.world) p.repo).1 = .error e)
      p := by
  have hcurrent : ∀ trace, getCurrent St { p.world with trace := trace } = getCurrent St p.world :=
    fun _ => rfl
  simp only [daemonCheckIn, wp_bind, onWorld, wp_focus, wp_record, wp_get, wp_modify, wp_orThrow,
    hcurrent]
  cases (checkIn d (getCurrent St p.world) p.repo).1 with
  | error e => exact ⟨⟨⟨[_], rfl, by simp [Event.isUpdate]⟩, rfl, rfl, rfl⟩, rfl⟩
  | ok checked =>
    dsimp only
    cases checked.finished with
    | none => exact ⟨⟨⟨[_], rfl, by simp [Event.isUpdate]⟩, rfl, rfl, rfl⟩, checked, rfl, rfl⟩
    | some err =>
      exact ⟨⟨⟨[_, _], rfl, by simp [Event.isUpdate]⟩, rfl, rfl, rfl⟩, checked, rfl, rfl⟩

theorem ChecksIn.waits {p' : Process Db T} (h : ChecksIn d St p p') : Waits p p' := by
  obtain ⟨events, hworld, hquiet⟩ := h.world
  refine ⟨?_, h.calls, h.reboots⟩
  rw [hworld]
  exact ⟨rfl, rfl, rfl, rfl, ⟨events, rfl, hquiet⟩, [], rfl, nofun⟩

/-- The rule for a turn: it only checks, or it comes to a pull. -/
theorem daemonTurn_rule {Q : Bool → Process Db T → Prop} {E : String → Process Db T → Prop}
    (hwait : ∀ p', Waits p p' → Q false p') (hthrow : ∀ e p', Waits p p' → E e p')
    (hpull : ∀ r p', Waits p p' → wp (pullSelected d St r turn.pull >>= fun _ =>
      rebootIfRequired env turn.isRoot) Q E p') :
    wp (daemonTurn d St env turn) Q E p := by
  rw [daemonTurn, wp_bind, wp_get, wp_bind, wp_orThrow]
  cases currentTufTarget St p.world with
  | error e => exact hthrow e p (waitFrame.refl p)
  | ok current =>
    dsimp only
    rw [wp_bind]
    refine wp_mono wp_daemonCheckIn (fun ci v hv => ?_) fun e v hv => hthrow e v hv.1.waits
    have hv := hv.1.waits
    rw [wp_ite]
    split
    · exact hwait v hv
    · rw [wp_bind]
      refine wp_mono (within_onWorld (fun _ => idle_getTargetToInstall) v) (fun r u hu => ?_)
        fun e u hu => hthrow e u (waitFrame.trans hv hu)
      have hu := waitFrame.trans hv hu
      rw [wp_ite]
      split
      · exact hwait u hu
      · exact hpull r u hu

/-- The rule for the loop.  What holds before a turn that does not end the process holds after
it. -/
theorem daemonLoop_rule {I : Process Db T → Prop} {Q : Option ExitCode → Process Db T → Prop}
    {E : String → Process Db T → Prop} {turns : List TurnEnv}
    (hturn : ∀ turn ∈ turns, ∀ p, I p → wp (daemonTurn d St env turn)
      (fun stop p' => if stop then Q (some .success) p' else I p') E p)
    (hend : ∀ p code, I p → Q code p) (hp : I p) : wp (daemonLoop d St env turns) Q E p := by
  induction turns generalizing p with
  | nil => exact hend p none hp
  | cons turn rest ih =>
    rw [daemonLoop, wp_bind]
    refine wp_mono (hturn turn List.mem_cons_self p hp) (fun stop v hv => ?_) fun _ _ h => h
    cases stop with
    | true => exact hv
    | false =>
      simp only [Bool.false_eq_true, if_false, wp_ite] at hv ⊢
      split
      · exact hend v _ hv
      · exact ih (fun turn hmem => hturn turn (List.mem_cons_of_mem _ hmem)) hv

/-! ## A process without a pending target -/

/-- Nothing is pending and no reboot is due. -/
structure World.Free (St : Storage Db) (w : World Db) : Prop where
  reboot : w.rebootRequired = false
  pending : (getPendingTarget St w).isValid = false

theorem Idle.free {w w' : World Db} (h : Idle w w') (hw : w.Free St) : w'.Free St :=
  ⟨h.rebootRequired.trans hw.reboot, by rw [getPendingTarget, h.db]; exact hw.pending⟩

/-- What a process has done between two states. -/
structure FreeRun (St : Storage Db) (command : String) (p p' : Process Db T) : Prop where
  calls : (Frame.adds Process.calls fun c => c.world.Free St).rel p p'
  reboots : p'.reboots = p.reboots ∨
    p'.world.rebootRequired = true ∧ p'.reboots = command :: p.reboots

theorem FreeRun.trans {command : String} {p v p' : Process Db T} (h : FreeRun St command p v)
    (hv : v.world.Free St) (h' : FreeRun St command v p') : FreeRun St command p p' := by
  refine ⟨Frame.trans _ h.calls h'.calls, ?_⟩
  rcases h.reboots with hr | ⟨hr, _⟩
  · rw [← hr]
    exact h'.reboots
  · rw [hv.reboot] at hr
    cases hr

theorem Waits.freeRun {command : String} {p' : Process Db T} (h : Waits p p') :
    FreeRun St command p p' :=
  ⟨⟨[], h.calls, nofun⟩, .inl h.reboots⟩

/-- The rule for the end of a turn.  The command may or may not be executed. -/
theorem rebootIfRequired_rule {isRoot : Bool} {Q : Bool → Process Db T → Prop}
    {E : String → Process Db T → Prop} (hgo : p.world.rebootRequired = false → Q false p)
    (hstop : p.world.rebootRequired = true →
      Q true p ∧ Q true { p with reboots := env.rebootCommand :: p.reboots }) :
    wp (rebootIfRequired env isRoot) Q E p := by
  rw [rebootIfRequired, wp_bind, wp_get]
  cases hdue : p.world.rebootRequired with
  | false => exact hgo hdue
  | true =>
    simp only [Bool.not_true, Bool.false_eq_true, if_false, wp_bind, wp_ite]
    split
    · exact (hstop hdue).2
    · exact (hstop hdue).1

/-- The rule for a pull: the call is noted, and the update is made. -/
theorem wp_pullSelected {r : SelectResult} {pull : PullEnv}
    {Q : InstallResult → Process Db T → Prop} {E : String → Process Db T → Prop} :
    wp (pullSelected d St r pull) Q E p =
      wp (pullAndInstall St d.tk.toStyledString d.cfg (.daemon r) pull)
        (fun a w => Q a { p with world := w, calls := ⟨p.world, .daemon r⟩ :: p.calls })
        (fun e w => E e { p with world := w, calls := ⟨p.world, .daemon r⟩ :: p.calls })
        p.world := by
  rw [pullSelected, wp_bind, wp_modify, onWorld, wp_focus]

/-- A turn is the last one exactly if a reboot is due after it. -/
theorem free_daemonTurn (hSt : PendingRecord St) (hp : p.world.Free St) :
    wp (daemonTurn d St env turn)
      (fun stop p' => FreeRun St env.rebootCommand p p' ∧ p'.world.rebootRequired = stop ∧
        (stop = false → p'.world.Free St))
      (fun _ p' => FreeRun St env.rebootCommand p p') p := by
  refine daemonTurn_rule (fun p' h => ?_) (fun e p' h => h.freeRun) fun r v h => ?_
  · have hfree := h.world.free hp
    exact ⟨h.freeRun, hfree.reboot, fun _ => hfree⟩
  · have hfree := h.world.free hp
    have hcalls : (Frame.adds Process.calls fun c => c.world.Free St).rel p
        { v with calls := ⟨v.world, .daemon r⟩ :: v.calls } :=
      ⟨[⟨v.world, .daemon r⟩], congrArg (List.cons _) h.calls, by simpa using hfree⟩
    rw [wp_bind, wp_pullSelected]
    refine wp_mono (within_pullAndInstall_all hSt rfl turn.pull v.world) (fun _ w hw => ?_)
      fun _ w _ => ⟨hcalls, .inl h.reboots⟩
    refine rebootIfRequired_rule (fun hdue => ⟨⟨hcalls, .inl h.reboots⟩, hdue, fun _ => ⟨hdue, ?_⟩⟩)
      fun hdue => ⟨⟨⟨hcalls, .inl h.reboots⟩, hdue, nofun⟩, ⟨hcalls, .inr ⟨hdue, ?_⟩⟩, hdue, nofun⟩
    · -- A target that is pending now was pending before, or a reboot is due.
      by_contra hvalid
      rcases hw.2 (by simpa using hvalid) with hpending | hreboot
      · rw [hfree.pending] at hpending
        cases hpending
      · rw [show w.rebootRequired = false from hdue] at hreboot
        cases hreboot
    · exact congrArg (List.cons _) h.reboots

theorem free_daemonLoop (hSt : PendingRecord St) (turns : List TurnEnv) (hp : p.world.Free St) :
    wp (daemonLoop d St env turns)
      (fun code p' => FreeRun St env.rebootCommand p p' ∧
        (code = none → p'.world.rebootRequired = false))
      (fun _ p' => FreeRun St env.rebootCommand p p') p := by
  refine daemonLoop_rule (I := fun v => FreeRun St env.rebootCommand p v ∧ v.world.Free St)
    (fun turn _ v hv => ?_) (fun v code hv => ⟨hv.1, fun _ => hv.2.reboot⟩)
    ⟨(waitFrame.refl p).freeRun, hp⟩
  refine wp_mono (free_daemonTurn hSt hv.2) (fun stop u hu => ?_) fun _ _ h => hv.1.trans hv.2 h
  obtain ⟨hrun, _, hfree⟩ := hu
  cases stop with
  | true => exact ⟨hv.1.trans hv.2 hrun, nofun⟩
  | false => exact ⟨hv.1.trans hv.2 hrun, hfree rfl⟩

/-! ## A process with a pending target -/

/-- A pending target keeps every update from starting. -/
theorem pullAndInstall_pending {styled : Json → String} {cfg : Config} {args : PullArgs}
    {pull : PullEnv} {w : World Db} (h : (getPendingTarget St w).isValid = true) :
    pullAndInstall St styled cfg args pull w =
      .ok { status := .installationInProgress, description := "" } w := by
  rw [pullAndInstall, get_bind, if_pos h]
  rfl

/-- The process waits, and makes calls that are refused. -/
structure HeldRun (St : Storage Db) (p p' : Process Db T) : Prop where
  world : Idle p.world p'.world
  calls : (Frame.adds Process.calls fun c => c.world.rebootRequired = false ∧
    getPendingTarget St c.world = getPendingTarget St p.world).rel p p'
  reboots : p'.reboots = p.reboots

theorem Idle.pending {w w' : World Db} (h : Idle w w') :
    getPendingTarget St w' = getPendingTarget St w := by
  rw [getPendingTarget, h.db, getPendingTarget]

theorem HeldRun.trans {p v p' : Process Db T} (h : HeldRun St p v) (h' : HeldRun St v p') :
    HeldRun St p p' := by
  refine ⟨h.world.trans h'.world, Frame.trans _ h.calls ?_, h'.reboots.trans h.reboots⟩
  rw [← h.world.pending]
  exact h'.calls

theorem held_daemonTurn (hvalid : (getPendingTarget St p.world).isValid = true)
    (hdue : p.world.rebootRequired = false) :
    wp (daemonTurn d St env turn) (fun stop p' => stop = false ∧ HeldRun St p p')
      (fun _ p' => HeldRun St p p') p := by
  have hwait : ∀ p', Waits p p' → HeldRun St p p' := fun p' h =>
    ⟨h.world, ⟨[], h.calls, nofun⟩, h.reboots⟩
  refine daemonTurn_rule (fun p' h => ⟨rfl, hwait p' h⟩) (fun e p' h => hwait p' h) fun r v h => ?_
  have hdue' : v.world.rebootRequired = false := h.world.rebootRequired.trans hdue
  have hpending : getPendingTarget St v.world = getPendingTarget St p.world := h.world.pending
  have hcalls : (Frame.adds Process.calls fun c => c.world.rebootRequired = false ∧
      getPendingTarget St c.world = getPendingTarget St p.world).rel p
        { v with calls := ⟨v.world, .daemon r⟩ :: v.calls } :=
    ⟨[⟨v.world, .daemon r⟩], congrArg (List.cons _) h.calls, by simpa using ⟨hdue', hpending⟩⟩
  rw [wp_bind, wp_pullSelected]
  refine wp_of_ok (pullAndInstall_pending (by rw [hpending]; exact hvalid)) ?_
  refine rebootIfRequired_rule (fun _ => ⟨rfl, h.world, hcalls, h.reboots⟩) fun hdue => ?_
  rw [show v.world.rebootRequired = true from hdue] at hdue'
  cases hdue'

theorem held_daemonLoop (turns : List TurnEnv)
    (hvalid : (getPendingTarget St p.world).isValid = true)
    (hdue : p.world.rebootRequired = false) :
    wp (daemonLoop d St env turns) (fun _ p' => HeldRun St p p') (fun _ p' => HeldRun St p p')
      p := by
  refine daemonLoop_rule (I := HeldRun St p) (fun turn _ v hv => ?_) (fun _ _ h => h)
    ⟨Idle.refl _, Frame.refl _ _, rfl⟩
  have hvalid' : (getPendingTarget St v.world).isValid = true := by
    rw [hv.world.pending]
    exact hvalid
  refine wp_mono (held_daemonTurn hvalid' (hv.world.rebootRequired.trans hdue))
    (fun stop u hu => ?_) fun _ _ h => hv.trans h
  obtain ⟨rfl, hrun⟩ := hu
  exact hv.trans hrun

/-! ## The finalization -/

/-- The status with which a finalization ends, by its code. -/
def Concludes (code : ResultCode) (status : InstallStatus) : Prop :=
  match code with
  | .kOk => status = .ok ∨ status = .okBootFwNeedsCompletion
  | .kNeedCompletion => status = .needsCompletion
  | _ => status = .failed

/-- The rule for the finalization of a pending target. -/
theorem completeInstallation_rule {styled : Json → String} {cfg : Config} {complete : CompleteEnv}
    {w : World Db} {target : Target} {Q : InstallResult → World Db → Prop}
    {E : String → World Db → Prop} (hp : St.pending w.db = some target)
    (hcallback : ∀ e, complete.callback = .error e → E e w)
    (hfinalize : complete.callback = .ok () →
      wp (finalizePendingUpdate St styled cfg complete.finalize target)
        (fun ret u => (∀ e, complete.writeCurrent = .error e ∨ complete.notifyFinished = .error e →
            E e u) ∧
          (complete.writeCurrent = .ok () →
            complete.notifyFinished = .ok () ∨ ret.code = .kNeedCompletion →
            ∀ r reports, Concludes ret.code r.status → Q r { u with reports := reports })) E w) :
    wp (completeInstallation St styled cfg complete) Q E w := by
  have hfinal : wp (clientFinalizeInstall St styled cfg complete)
      (fun ret v => ∀ r : InstallResult, Concludes ret.code r.status → Q r v) E w := by
    rw [clientFinalizeInstall, wp_bind, wp_get, hp]
    dsimp only
    rw [wp_bind, wp_orThrow]
    cases hcall : complete.callback with
    | error e => exact hcallback e hcall
    | ok _ =>
      dsimp only
      rw [wp_bind]
      refine wp_mono (hfinalize hcall) (fun ret u hu => ?_) fun _ _ h => h
      obtain ⟨hthrows, hreturns⟩ := hu
      rw [wp_bind, wp_orThrow]
      cases hwrite : complete.writeCurrent with
      | error e => exact hthrows e (.inl hwrite)
      | ok _ =>
        dsimp only
        rw [wp_ite]
        split
        · next hcode =>
          rw [wp_bind, notifyInstallFinished, wp_bind, wp_orThrow]
          cases hsent : complete.notifyFinished with
          | error e => exact hthrows e (.inr hsent)
          | ok _ =>
            dsimp only
            rw [if_pos hcode]
            exact fun r => hreturns hwrite (.inl hsent) r _
        · next hcode => exact fun r => hreturns hwrite (.inr (not_not.mp hcode)) r u.reports
  rw [completeInstallation, wp_bind]
  refine wp_mono hfinal (fun ret v hv => hv _ ?_) fun _ _ h => h
  cases ret.code with
  | kOk =>
    dsimp only [Concludes]
    split
    · exact .inr rfl
    · exact .inl rfl
  | _ => rfl

/-- After a finalization that returns, the target is pending if it waits for a reboot or if its
result is not recorded. -/
theorem pending_completeInstallation (hSt : PendingRecord St) {styled : Json → String}
    {cfg : Config} {complete : CompleteEnv} {w : World Db} {target : Target}
    (hp : St.pending w.db = some target) :
    wp (completeInstallation St styled cfg complete)
      (fun r u => (LeavesPending St cfg w (.call (.completeInstallation complete)) →
          r.status ≠ .needsCompletion ∧ u.db = w.db) ∧
        (¬ LeavesPending St cfg w (.call (.completeInstallation complete)) →
          r.status = .needsCompletion ∨ St.pending u.db = none))
      (fun _ _ => ¬ LeavesPending St cfg w (.call (.completeInstallation complete))) w := by
  have hiff : LeavesPending St cfg w (.call (.completeInstallation complete)) ↔
      complete.callback = .ok () ∧ EndsUnrecorded cfg complete.finalize target ∧
        complete.writeCurrent = .ok () ∧ complete.notifyFinished = .ok () := by
    simp [LeavesPending, hp]
  rw [hiff]
  refine completeInstallation_rule hp (fun e he h => by cases he.symm.trans h.1) fun hcall => ?_
  refine wp_mono (recorded_finalizePendingUpdate hSt hp) (fun ret u hu => ⟨?_, ?_⟩)
    fun _ _ hu h => hu.2 h.2.1
  · rintro e (he | he) h
    · cases he.symm.trans h.2.2.1
    · cases he.symm.trans h.2.2.2
  · obtain ⟨hrecorded, hends⟩ := hu
    intro hwrite hsent r reports hstatus
    constructor
    · intro h
      have hunrecorded := hends.mpr h.2.1
      refine ⟨fun hneeds => ?_, hrecorded.kept (.inl hunrecorded)⟩
      rw [hneeds] at hstatus
      cases hret : ret.code with
      | kNeedCompletion =>
        rw [hret] at hunrecorded
        cases hunrecorded
      | kOk =>
        rw [hret] at hunrecorded
        cases hunrecorded
      | _ =>
        rw [hret] at hstatus
        cases hstatus
    · intro h
      by_cases hcode : ret.code = .kNeedCompletion
      · rw [hcode] at hstatus
        exact .inl hstatus
      · refine .inr (hrecorded.cleared ?_ hcode)
        rw [← Bool.not_eq_true, hends]
        exact fun hunrecorded => h ⟨hcall, hunrecorded, hwrite, hsent.resolve_right hcode⟩

end Turns

section Finalization

variable {St : Storage Db} {styled : Json → String} {cfg : Config} {t : Target} {w : World Db}

/-- What a finalization does not change.  An installation of a rootfs may change it. -/
def bootedFrame : Frame (World Db) := .same fun w => (w.rootfs, w.appsToFetch, w.rebootRequired)

theorem finalizeFrame_booted : FinalizeFrame (bootedFrame : Frame (World Db)) where
  emitted _ _ := rfl
  engineApps _ _ := rfl
  record _ _ _ := rfl

theorem finalizePendingUpdate_current {env : FinalizeEnv} :
    wp (finalizePendingUpdate St styled cfg env t)
      (fun ret v => bootedFrame.rel w v ∧ (ret.code = .kOk → v.db = St.save t .kCurrent w.db))
      (fun _ v => bootedFrame.rel w v) w := by
  have hdb : ManagerFrame (.same (World.db : World Db → Db)) := managerFrame_db
  rw [finalizePendingUpdate, wp_bind]
  refine wp_mono (wp_and (within_managerFinalizeInstall finalizeFrame_booted env t w)
    (within_managerFinalizeInstall hdb.toFinalizeFrame env t w)) (fun ret u hu => ?_)
    fun _ _ h => h.1
  obtain ⟨hbooted, hkept⟩ := hu
  have hkept : u.db = w.db := hkept
  rw [wp_ite]
  split
  · refine ⟨hbooted, fun _ => ?_⟩
    rw [← hkept]
  · next hfailed =>
    have hcode : ret.code ≠ .kOk := by
      intro hok
      rw [InstallationResult.isSuccess, hok] at hfailed
      exact hfailed rfl
    rw [wp_ite]
    split
    · exact ⟨hbooted, fun hok => absurd hok hcode⟩
    · exact ⟨hbooted, fun hok => absurd hok hcode⟩

/-- A finalization that succeeds records its target as the current one, and changes nothing else
that a check looks at. -/
theorem completeInstallation_current {env : CompleteEnv} (hp : St.pending w.db = some t) :
    wp (completeInstallation St styled cfg env)
      (fun r v => bootedFrame.rel w v ∧
        (r.status = .ok ∨ r.status = .okBootFwNeedsCompletion → v.db = St.save t .kCurrent w.db))
      (fun _ v => bootedFrame.rel w v) w := by
  refine completeInstallation_rule hp (fun _ _ => bootedFrame.refl w) fun _ => ?_
  refine wp_mono finalizePendingUpdate_current (fun ret u hu => ⟨fun _ _ => hu.1, ?_⟩)
    fun _ _ h => h
  intro _ _ r _ hstatus
  refine ⟨hu.1, fun hgood => hu.2 ?_⟩
  cases hcode : ret.code with
  | kOk => rfl
  | _ =>
    rw [hcode] at hstatus
    rw [show r.status = _ from hstatus] at hgood
    rcases hgood with h | h
    · cases h
    · cases h

end Finalization

/-! ## The start -/

/-- The finalization at the start of the process leaves its target pending, since its result is
not recorded. -/
def StaysPending (d : Device Key Stamp R T) (St : Storage Db) (env : DaemonEnv) (w : World Db) :
    Prop :=
  (getPendingTarget St w).isValid = true ∧
    LeavesPending St d.cfg w (.call (.completeInstallation env.complete))

/-- How a process of the daemon goes that started in `w` and ended, or has come to, `p`. -/
structure DaemonRuns (d : Device Key Stamp R T) (St : Storage Db) (env : DaemonEnv) (w : World Db)
    (p : Process Db T) : Prop where
  /-- No update is begun while a reboot is due. -/
  undue : ∀ c ∈ p.calls, c.world.rebootRequired = false
  /-- The reboot command is executed at most once, and not before it is due. -/
  reboots : p.reboots = [] ∨ p.world.rebootRequired = true ∧ p.reboots = [env.rebootCommand]
  /-- No update is begun while a target is pending. -/
  free : ¬ StaysPending d St env w → ∀ c ∈ p.calls, c.world.Free St
  /-- A target that the start leaves pending blocks every update of the process. -/
  held : StaysPending d St env w → p.reboots = [] ∧
    Idle (after (completeInstallation St d.tk.toStyledString d.cfg env.complete) w) p.world ∧
    ∀ c ∈ p.calls, getPendingTarget St c.world = getPendingTarget St w

section Process

variable {d : Device Key Stamp R T} {St : Storage Db} {env : DaemonEnv} {turns : List TurnEnv}
  {w : World Db} {t : T}

theorem daemonRuns_of_freeRun {v : World Db} {p : Process Db T} (hnot : ¬ StaysPending d St env w)
    (h : FreeRun St env.rebootCommand (.started v t) p) : DaemonRuns d St env w p := by
  obtain ⟨calls, hcalls, hfree⟩ := h.calls
  rw [show (Process.started v t).calls = [] from rfl, List.append_nil] at hcalls
  have hfree' : ∀ c ∈ p.calls, c.world.Free St := by
    rw [hcalls]
    exact hfree
  exact ⟨fun c hc => (hfree' c hc).reboot, h.reboots, fun _ => hfree', fun h => absurd h hnot⟩

theorem daemonRuns_of_heldRun {v : World Db} {p : Process Db T}
    (hv : after (completeInstallation St d.tk.toStyledString d.cfg env.complete) w = v)
    (hdb : v.db = w.db) (hstays : StaysPending d St env w)
    (h : HeldRun St (.started v t) p) : DaemonRuns d St env w p := by
  obtain ⟨calls, hcalls, hheld⟩ := h.calls
  rw [show (Process.started v t).calls = [] from rfl, List.append_nil] at hcalls
  have hheld' : ∀ c ∈ p.calls, c.world.rebootRequired = false ∧
      getPendingTarget St c.world = getPendingTarget St v := by
    rw [hcalls]
    exact hheld
  refine ⟨fun c hc => (hheld' c hc).1, .inl h.reboots, fun h => absurd hstays h, fun _ =>
    ⟨h.reboots, hv ▸ h.world, fun c hc => ?_⟩⟩
  rw [(hheld' c hc).2, getPendingTarget, hdb, getPendingTarget]

/-- The rule for the start.  It goes on with a target pending, with none, or not at all. -/
theorem daemonStart_rule {Q : Bool → Process Db T → Prop} {E : String → Process Db T → Prop}
    (hSt : PendingRecord St) (hdue : w.rebootRequired = false)
    (hheld : StaysPending d St env w → ∀ v : World Db,
      after (completeInstallation St d.tk.toStyledString d.cfg env.complete) w = v →
      v.db = w.db → v.rebootRequired = false → Q true (.started v t))
    (hfree : ¬ StaysPending d St env w → ∀ v : World Db, v.Free St → Q true (.started v t))
    (hexit : ¬ StaysPending d St env w → ∀ v, Q false (.started v t))
    (hthrow : ¬ StaysPending d St env w → ∀ e v, E e (.started v t)) :
    wp (daemonStart d St env) Q E (.started w t) := by
  rw [daemonStart, wp_bind, wp_get]
  show wp (if (!(getPendingTarget St w).isValid) = true then _ else _) _ _ _
  cases hvalid : (getPendingTarget St w).isValid with
  | false =>
    refine hfree (fun h => ?_) w ⟨hdue, hvalid⟩
    rw [StaysPending, hvalid] at h
    cases h.1
  | true =>
    have hstays : StaysPending d St env w ↔
        LeavesPending St d.cfg w (.call (.completeInstallation env.complete)) := by
      rw [StaysPending, hvalid, eq_self, true_and]
    obtain ⟨target, hp⟩ : ∃ target, St.pending w.db = some target := by
      cases hp : St.pending w.db with
      | some target => exact ⟨target, rfl⟩
      | none =>
        rw [getPendingTarget, hp] at hvalid
        cases hvalid
    have hpending := @pending_completeInstallation _ St hSt d.tk.toStyledString d.cfg env.complete
      w target hp
    rw [← hstays] at hpending
    show wp (onWorld _ >>= _) _ _ _
    rw [wp_bind, onWorld, wp_focus]
    show wp _ _ _ w
    refine wp_of_run (fun ir v hrun => ?_) fun e v hrun => ?_
    · obtain ⟨hleaves, hclears⟩ := wp_ok hpending hrun
      have hdue' : v.rebootRequired = false :=
        (congrArg (fun k => k.2.2) (wp_ok (completeInstallation_current hp) hrun).1).trans hdue
      show Q (ir.status != .needsCompletion) (.started v t)
      by_cases hstay : StaysPending d St env w
      · obtain ⟨hstatus, hdb⟩ := hleaves hstay
        rw [bne_iff_ne.mpr hstatus]
        exact hheld hstay v (by rw [after, hrun]) hdb hdue'
      · cases hstatus : ir.status != .needsCompletion with
        | false => exact hexit hstay v
        | true =>
          refine hfree hstay v ⟨hdue', ?_⟩
          have hnone : St.pending v.db = none :=
            (hclears hstay).resolve_left (bne_iff_ne.mp hstatus)
          rw [getPendingTarget, hnone]
          rfl
    · unfold wp at hpending
      rw [hrun] at hpending
      exact hthrow hpending e v

theorem daemonRuns_runDaemon (hSt : PendingRecord St) (hserver : env.repoServer ≠ "")
    (hcommand : env.isExecutable = true) (hdue : w.rebootRequired = false) :
    wp (runDaemon d St env turns)
      (fun code p => DaemonRuns d St env w p ∧ (code = none → p.world.rebootRequired = false))
      (fun _ p => DaemonRuns d St env w p) (.started w t) := by
  have hend : ¬ StaysPending d St env w → ∀ v : World Db,
      DaemonRuns d St env w (.started v t) := fun hnot v =>
    daemonRuns_of_freeRun hnot (waitFrame.refl (Process.started v t)).freeRun
  rw [runDaemon, wp_ite, if_neg hserver, hcommand]
  simp only [Bool.not_true, Bool.false_eq_true, if_false, wp_bind]
  refine daemonStart_rule hSt hdue (fun hstays v hv hdb hdue' => ?_) (fun hnot v hfree => ?_)
    (fun hnot v => ⟨hend hnot v, nofun⟩) fun hnot e v => hend hnot v
  · have hvalid : (getPendingTarget St v).isValid = true := by
      rw [getPendingTarget, hdb]
      exact hstays.1
    refine wp_mono (held_daemonLoop (p := .started v t) turns hvalid hdue') (fun code p h => ?_)
      fun _ _ h => daemonRuns_of_heldRun hv hdb hstays h
    exact ⟨daemonRuns_of_heldRun hv hdb hstays h, fun _ => h.world.rebootRequired.trans hdue'⟩
  · refine wp_mono (free_daemonLoop (p := .started v t) hSt turns hfree) (fun code p h => ?_)
      fun _ _ h => daemonRuns_of_freeRun hnot h
    exact ⟨daemonRuns_of_freeRun hnot h.1, h.2⟩

end Process

/-- Every process of the daemon, whatever it meets in however many turns, begins no update while
a reboot is due, and it has ended when one is due.  It begins none while a target is pending,
but for a process whose finalization leaves its target pending: that one changes nothing and
every update it begins is refused. -/
theorem daemon_process {St : Storage Db} (hSt : PendingRecord St) (d : Device Key Stamp R T)
    (env : DaemonEnv) (turns : List TurnEnv) (w : World Db) (t : T) (hserver : env.repoServer ≠ "")
    (hcommand : env.isExecutable = true) (hdue : w.rebootRequired = false) :
    DaemonRuns d St env w (after (runDaemon d St env turns) (.started w t)) ∧
      ∀ p, runDaemon d St env turns (.started w t) = .ok none p →
        p.world.rebootRequired = false := by
  have hrun := @daemonRuns_runDaemon _ _ _ _ _ d St env turns w t hSt hserver hcommand hdue
  refine ⟨after_of_wp (wp_mono hrun (fun _ _ h => h.1) fun _ _ h => h), fun p hp => ?_⟩
  exact (wp_ok hrun hp).2 rfl

/-! ## Two processes -/

/-- A target that is newer than the next one. -/
def thirdTarget : Target :=
  { boardTarget with
    filename := "board-lmp-3", sha256Hash := "h3"
    custom := .obj [("hardwareIds", .arr [.str "board"]), ("tags", .arr [.str "main"]),
      ("targetFormat", .str "OSTREE"), ("version", .str "3")] }

def thirdTufTarget : TufTarget :=
  { name := "board-lmp-3", sha256Hash := "h3", version := 3, custom := thirdTarget.custom }

/-- A device that is offered this target. -/
def daemonDevice : Device String Unit Int Unit :=
  { prodDevice (boardBundle []) with repo := oneTargetRepo thirdTarget }

def DaemonEnv.completing (complete : CompleteEnv) : DaemonEnv :=
  { repoServer := "https://server", rebootCommand := "/sbin/reboot", isExecutable := true,
    isBooted := true, autoDowngrade := false, returnOnSleep := false, complete := complete }

def TurnEnv.succeeds : TurnEnv :=
  { check := .allRunning, pull := .succeeds [thirdTufTarget], isRoot := true }

/-- A process of the device, after two turns at most. -/
def afterTurns (complete : CompleteEnv) (w : World InstalledVersions) :
    Process InstalledVersions Unit :=
  after (runDaemon daemonDevice installedVersions (.completing complete) [.succeeds, .succeeds])
    (.started w ())

/-- A new device updates in its first turn and reboots.  After a finalization for which the
images of an app could not be pulled, the updates of both turns are refused. -/
theorem daemon_updates_or_waits :
    ((afterTurns (.starting fun _ => .ok .ok) factoryDevice).calls.length = 1 ∧
      (afterTurns (.starting fun _ => .ok .ok) factoryDevice).reboots = ["/sbin/reboot"] ∧
      ∀ c ∈ (afterTurns (.starting fun _ => .ok .ok) factoryDevice).calls,
        c.world.Free installedVersions) ∧
    (afterTurns (.starting fun _ => .ok (.imagePullFailure "")) rebootedDevice).calls.length = 2 ∧
      ∀ c ∈ (afterTurns (.starting fun _ => .ok (.imagePullFailure "")) rebootedDevice).calls,
        getPendingTarget installedVersions c.world = nextTarget := by
  refine ⟨⟨by decide +kernel, by decide +kernel, ?_⟩, by decide +kernel, ?_⟩
  · refine (daemon_process installedVersions_pendingRecord daemonDevice
      (.completing (.starting fun _ => .ok .ok)) [.succeeds, .succeeds] factoryDevice () (by decide)
      rfl rfl).1.free fun h => ?_
    cases h.1
  · have hstays : StaysPending daemonDevice installedVersions
        (.completing (.starting fun _ => .ok (.imagePullFailure ""))) rebootedDevice :=
      ⟨rfl, nextTarget, rfl, rfl, ⟨⟨_, rfl⟩, .inl ⟨⟨_, rfl⟩, ⟨_, rfl, nofun⟩, _, _, rfl, rfl, rfl⟩⟩,
        rfl, rfl⟩
    exact ((daemon_process installedVersions_pendingRecord daemonDevice
      (.completing (.starting fun _ => .ok (.imagePullFailure ""))) [.succeeds, .succeeds]
      rebootedDevice () (by decide) rfl rfl).1.held hstays).2.2

end Client
end AkLite
