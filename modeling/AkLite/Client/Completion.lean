/-
The reports of completed installations.

An installation is reported as completed by the installation itself, or, if the target is
pending, by its finalization or by a rollback that gives it up.  So that no installation is
reported twice, a finalization that reports has to clear the pending record.

It does so by the result code.  A success and the codes of a failed boot and of a failed
start of an app clear the record.  The code of an app whose images cannot be pulled does
not, but it is reported like any other failure.  The target stays pending and the next
finalization reports it again.  `completion_reported_once_iff` says that this is the only
way, for every run of calls and restarts.
-/
import AkLite.Client.ReadOnly

namespace AkLite
namespace Client

open Lib Boot

/-! ## Runs -/

/-- A call of the client, or a restart with another rootfs and another state of the app
engine. -/
inductive LifeStep where
  | call (call : ClientCall)
  | restart (rootfs : Rootfs) (engineApps : List App)

/-- The database is what a restart keeps. -/
def World.restarted {Db : Type} (w : World Db) (rootfs : Rootfs) (engineApps : List App) :
    World Db :=
  { w with
    rootfs := rootfs, engineApps := engineApps, appsToFetchAndUpdate := [], appsToFetch := []
    cleanupRemovedApps := true, rebootRequired := false, noSpace := .none, contexts := [] }

section Runs

variable {Db : Type} (St : Storage Db) (styled : Json → String) (cfg : Config)

def live (w : World Db) : LifeStep → World Db
  | .call call => after (performClient St styled cfg call) w
  | .restart rootfs engineApps => w.restarted rootfs engineApps

def Lives (w : World Db) (step : LifeStep) (w' : World Db) : Prop := w' = live St styled cfg w step

/-! ## The property -/

/-- Name and hash. -/
def targetKey (t : Target) : String × String := (t.filename, t.sha256Hash)

def Event.starts (key : String × String) : Event → Bool
  | .installStarted t => targetKey t == key
  | _ => false

/-- The installations of a target so far. -/
def installations (key : String × String) (w : World Db) : Nat := w.trace.countP (Event.starts key)

/-- The reports of its completion so far. -/
def completions (key : String × String) (w : World Db) : Nat :=
  w.reports.countP fun r => targetKey r.1 == key

def pendingCount (key : String × String) (db : Db) : Nat :=
  if (St.pending db).any fun p => targetKey p == key then 1 else 0

/-- From one state to the other, no target is reported more often than it is installed, and
once more if it is pending at the start. -/
def OncePerInstallation (w w' : World Db) : Prop :=
  ∀ key, completions key w' + installations key w ≤
    completions key w + pendingCount St key w.db + installations key w'

/-- A pending target that is reported as failed is not pending any more. -/
def FailureClears (w : World Db) : LifeStep → Prop
  | .call (.completeInstallation env) => ∀ target, St.pending w.db = some target →
      (after (completeInstallation St styled cfg env) w).reports = (target, false) :: w.reports →
      St.pending (after (completeInstallation St styled cfg env) w).db ≠ some target
  | _ => True

/-! ## The condition -/

/-- The client neither records a result of this code nor waits for more. -/
def isUnrecorded : ResultCode → Bool
  | .kOk | .kAlreadyProcessed | .kInstallFailed | .kCustomError | .kNeedCompletion => false
  | _ => true

/-- Of the apps that are started, the first that fails does so for want of its images. -/
def pullFailsFirst (env : InstallEnv) (note : Json) : List App → Bool
  | [] => false
  | app :: rest =>
    match installedBefore note app with
    | .error _ => false
    | .ok false => pullFailsFirst env note rest
    | .ok true =>
      match env.start app with
      | .ok .ok => pullFailsFirst env note rest
      | .ok (.imagePullFailure _) => true
      | _ => false

/-- The new rootfs is booted, and an app cannot be started as its images cannot be pulled. -/
structure AppPullFails (env : FinalizeEnv) (target : Target) : Prop where
  booted : ∃ description, env.ostree = .ok { code := .kOk, description := description }
  stopped : ∃ removed, removedApps cfg env.engine.appsRoot target.custom = .ok removed ∧
    ∀ name ∈ removed, env.engine.stop (name, "") = .ok ()
  fails : ∃ note apps, target.custom.index "install-context" = .ok note ∧
    getApps cfg target.custom = .ok apps ∧ pullFailsFirst env.engine note apps = true

/-- The package manager ends a finalization with a code that is not recorded. -/
def EndsUnrecorded (env : FinalizeEnv) (target : Target) : Prop :=
  match cfg.pacman with
  | .ostree => ∃ ir, env.ostree = .ok ir ∧ isUnrecorded ir.code = true
  | .compose => Returns env.engine.runningInfo ∧
      (AppPullFails cfg env target ∨ ∃ ir, env.ostree = .ok ir ∧ isUnrecorded ir.code = true)

/-- The pending target is reported as failed and stays pending. -/
def LeavesPending (w : World Db) : LifeStep → Prop
  | .call (.completeInstallation env) => ∃ target, St.pending w.db = some target ∧
      env.callback = .ok () ∧ EndsUnrecorded cfg env.finalize target ∧
      env.writeCurrent = .ok () ∧ env.notifyFinished = .ok ()
  | _ => False

/-- What the storage does with the pending record. -/
structure PendingRecord : Prop where
  kPending : ∀ t db, ∃ p, St.pending (St.save t .kPending db) = some p ∧ targetKey p = targetKey t
  kCurrent : ∀ t db, St.pending (St.save t .kCurrent db) = none
  kNone : ∀ t db, St.pending (St.save t .kNone db) = St.pending db ∨
    St.pending (St.save t .kNone db) = none
  kBadTarget : ∀ t db, St.pending (St.save t .kBadTarget db) = St.pending db ∨
    St.pending (St.save t .kBadTarget db) = none
  clears : ∀ t db, St.pending db = some t → St.pending (St.save t .kNone db) = none

end Runs

section Proofs

variable {Db : Type} {St : Storage Db} {styled : Json → String} {cfg : Config} {w : World Db}

/-! ## The balance of installations and reports -/

/-- What is pending counts as a report to come.  The sum is covered by the installations
made in between. -/
def balanceFrame (St : Storage Db) (key : String × String) : Frame (World Db) where
  rel w w' := completions key w' + pendingCount St key w'.db + installations key w ≤
    completions key w + pendingCount St key w.db + installations key w'
  refl _ := Nat.le_refl _
  trans h h' := by omega

/-- One report of a target, or its pending record. -/
def share (key : String × String) (t : Target) : Nat := if targetKey t == key then 1 else 0

theorem pendingCount_none {key : String × String} {db : Db} (h : St.pending db = none) :
    pendingCount St key db = 0 := by
  rw [pendingCount, h]
  rfl

theorem pendingCount_some {key : String × String} {db : Db} {t : Target}
    (h : St.pending db = some t) : pendingCount St key db = share key t := by
  rw [pendingCount, h]
  rfl

theorem completions_report (key : String × String) (t : Target) (ok : Bool) (w : World Db) :
    completions key { w with reports := (t, ok) :: w.reports } = completions key w + share key t :=
  List.countP_cons

theorem installations_start (key : String × String) (t : Target) (w : World Db) :
    installations key { w with trace := .installStarted t :: w.trace } =
      installations key w + share key t :=
  List.countP_cons

theorem checkFrame_balance (St : Storage Db) (key : String × String) :
    CheckFrame (balanceFrame St key) where
  emitted _ _ := Nat.le_refl _
  engineApps _ _ := Nat.le_refl _
  rootfs _ _ := Nat.le_refl _
  lists _ _ _ := Nat.le_refl _
  cleanup _ _ := Nat.le_refl _
  record w e _ := by
    have hgrows : installations key w ≤ installations key { w with trace := e :: w.trace } :=
      (List.sublist_cons_self e w.trace).countP_le
    exact Nat.add_le_add_left hgrows _

section Saves

variable (hSt : PendingRecord St) (key : String × String)

include hSt

theorem pendingCount_kPending (t : Target) (db : Db) :
    pendingCount St key (St.save t .kPending db) = share key t := by
  obtain ⟨p, hp, hkey⟩ := hSt.kPending t db
  rw [pendingCount_some hp, share, share, hkey]

theorem pendingCount_kCurrent (t : Target) (db : Db) :
    pendingCount St key (St.save t .kCurrent db) = 0 :=
  pendingCount_none (hSt.kCurrent t db)

theorem pendingCount_kNone (t : Target) (db : Db) :
    pendingCount St key (St.save t .kNone db) ≤ pendingCount St key db := by
  rcases hSt.kNone t db with h | h
  · rw [pendingCount, h]
    exact Nat.le_refl _
  · rw [pendingCount_none h]
    exact Nat.zero_le _

theorem pendingCount_kBadTarget (t : Target) (db : Db) :
    pendingCount St key (St.save t .kBadTarget db) ≤ pendingCount St key db := by
  rcases hSt.kBadTarget t db with h | h
  · rw [pendingCount, h]
    exact Nat.le_refl _
  · rw [pendingCount_none h]
    exact Nat.zero_le _

end Saves

/-- The rule for a report after a step with room for it. -/
theorem balance_report {key : String × String} {v : World Db} {sent : Except String Unit}
    {target : Target} {code : ResultCode} (h : (balanceFrame St key).rel w v)
    (hroom : code ≠ .kNeedCompletion → completions key v + share key target +
      pendingCount St key v.db + installations key w ≤
        completions key w + pendingCount St key w.db + installations key v) :
    wp (notifyInstallFinished sent target code) (fun _ w' => (balanceFrame St key).rel w w')
      (fun _ w' => (balanceFrame St key).rel w w') v := by
  rw [notifyInstallFinished, wp_bind, wp_orThrow]
  cases sent with
  | error e => exact h
  | ok _ =>
    dsimp only
    rw [wp_ite]
    split
    · next hcode =>
      have hroom := hroom hcode
      rw [← completions_report key target (code == .kOk) v] at hroom
      exact hroom
    · exact h

/-! ## Installations -/

theorem installations_stored (key : String × String) (t : Target) (mode : UpdateMode)
    (trace : List Event) :
    (Event.stored t mode :: trace).countP (Event.starts key) = trace.countP (Event.starts key) := by
  rw [List.countP_cons]
  rfl

theorem balance_save {key : String × String} {mode : UpdateMode} (t : Target)
    (h : pendingCount St key (St.save t mode w.db) ≤ pendingCount St key w.db) :
    (balanceFrame St key).rel w
      { w with db := St.save t mode w.db, trace := .stored t mode :: w.trace } := by
  have hinstallations := installations_stored key t mode w.trace
  show completions key w + _ + _ ≤ completions key w + _ + List.countP _ _
  rw [hinstallations]
  exact Nat.add_le_add_right (Nat.add_le_add_left h _) _

/-- What storing a result leaves: only a target that needs completion may become pending. -/
structure Settled (St : Storage Db) (key : String × String) (target : Target) (code : ResultCode)
    (w w' : World Db) : Prop where
  completions : completions key w' = completions key w
  installations : installations key w' = installations key w
  pending : pendingCount St key w'.db ≤
    pendingCount St key w.db + if code = .kNeedCompletion then share key target else 0

section Install

variable (hSt : PendingRecord St) {key : String × String} {target : Target}

include hSt

theorem settled_storeResult {env : ClientInstallEnv} {mode : InstallMode}
    {res : InstallationResult} :
    wp (storeResult St env target mode res) (fun res' w' => Settled St key target res'.code w w')
      (fun _ w' => Settled St key target .kOk w w') w := by
  have hpending : ∀ v : World Db, v.db = w.db → v.trace = w.trace → v.reports = w.reports →
      ∀ res' : InstallationResult, res'.code = .kNeedCompletion →
      Settled St key target res'.code w { v with
        db := St.save target .kPending v.db, trace := .stored target .kPending :: v.trace } := by
    intro v hdb htrace hreports res' hcode
    refine ⟨by rw [completions, hreports]; rfl, ?_, ?_⟩
    · rw [installations, installations_stored, htrace]
      rfl
    · rw [pendingCount_kPending hSt, if_pos hcode]
      exact Nat.le_add_left _ _
  have hsame : ∀ (v : World Db) (code : ResultCode), v.db = w.db → v.trace = w.trace →
      v.reports = w.reports → Settled St key target code w v := by
    intro v code hdb htrace hreports
    refine ⟨by rw [completions, hreports]; rfl, by rw [installations, htrace]; rfl, ?_⟩
    rw [hdb]
    exact Nat.le_add_right _ _
  have hstored : ∀ (mode : UpdateMode) (code : ResultCode),
      pendingCount St key (St.save target mode w.db) ≤ pendingCount St key w.db →
      Settled St key target code w { w with
        db := St.save target mode w.db, trace := .stored target mode :: w.trace } :=
    fun mode code h => ⟨rfl, installations_stored key target mode w.trace,
      Nat.le_trans h (Nat.le_add_right _ _)⟩
  unfold storeResult
  cases hcode : res.code with
  | kNeedCompletion =>
    simp only [wp_bind, wp_modify, wp_get, wp_ite, wp_saveInstalledVersion, wp_pure]
    split
    · exact hpending { w with rebootRequired := true } rfl rfl rfl res hcode
    · exact hsame _ _ rfl rfl rfl
  | kOk =>
    have hcurrent : pendingCount St key (St.save target .kCurrent w.db) ≤
        pendingCount St key w.db := by
      rw [pendingCount_kCurrent hSt]
      exact Nat.zero_le _
    simp only [wp_ite, wp_bind, wp_saveInstalledVersion, wp_pure, wp_orThrow]
    split
    · exact hpending w rfl rfl rfl needsFinalization rfl
    · cases env.writeCurrent with
      | error e => exact hstored .kCurrent _ hcurrent
      | ok _ => exact hstored .kCurrent _ hcurrent
  | kDownloadFailed => exact hsame _ _ rfl rfl rfl
  | _ => exact hstored .kNone _ (pendingCount_kNone hSt key target w.db)

/-- An installation is reported, or left pending, but not both. -/
theorem balance_clientInstall (env : ClientInstallEnv) (mode : InstallMode) :
    Within (balanceFrame St key) (clientInstall St styled cfg env target mode) := by
  intro w
  rw [clientInstall, wp_bind, wp_orThrow]
  cases env.notifyStarted with
  | error e => exact (balanceFrame St key).refl w
  | ok _ =>
    dsimp only
    rw [wp_bind, wp_record, wp_bind]
    have hstart := installations_start key target w
    have hframe := (checkFrame_balance St key).toManagerFrame.toInstallFrame
    refine wp_mono (within_installPackage hframe _ _ _ _) (fun res v hv => ?_) (fun _ v hv => ?_)
    · have hv : completions key v + pendingCount St key v.db +
          installations key { w with trace := .installStarted target :: w.trace } ≤
          completions key w + pendingCount St key w.db + installations key v := hv
      rw [wp_bind]
      have hstore := @settled_storeResult Db St v hSt key target env mode res
      refine wp_mono hstore (fun res' u hu => ?_) (fun _ u hu => ?_)
      · obtain ⟨hcompletions, hinstallations, hpending⟩ := hu
        rw [wp_bind]
        refine balance_report (show _ ≤ _ from ?_) fun hcode => ?_
        · split at hpending <;> omega
        · rw [if_neg hcode] at hpending
          omega
      · obtain ⟨hcompletions, hinstallations, hpending⟩ := hu
        rw [if_neg (by decide)] at hpending
        show _ ≤ _
        omega
    · have hv : completions key v + pendingCount St key v.db +
          installations key { w with trace := .installStarted target :: w.trace } ≤
          completions key w + pendingCount St key w.db + installations key v := hv
      show _ ≤ _
      omega

theorem callFrame_balance : CallFrame St styled cfg (balanceFrame St key) :=
  { checkFrame_balance St key with
    install := fun env _ mode => balance_clientInstall hSt env mode
    noSpace := fun _ _ => Nat.le_refl _, contexts := fun _ _ => Nat.le_refl _ }

omit hSt in
theorem pending_of_isValid (h : (getPendingTarget St w).isValid = true) :
    ∃ p, St.pending w.db = some p := by
  unfold getPendingTarget at h
  cases hp : St.pending w.db with
  | none =>
    rw [hp] at h
    cases h
  | some p => exact ⟨p, rfl⟩

theorem cleared_of_marked {p : Target} {db : Db} (hp : St.pending db = some p) (bad : Target) :
    St.pending (St.save p .kNone (St.save bad .kBadTarget db)) = none := by
  rcases hSt.kBadTarget bad db with h | h
  · exact hSt.clears p _ (h.trans hp)
  · rcases hSt.kNone p (St.save bad .kBadTarget db) with h' | h'
    · exact h'.trans h
    · exact h'

/-- A rollback reports the pending target after it has cleared the record. -/
theorem balance_rollback (isLocal : Bool) (notifyFailed : Except String Unit) (env : PullEnv) :
    Within (balanceFrame St key) (rollback St styled cfg isLocal notifyFailed env) := by
  intro w
  have hpull := fun args => within_pullAndInstall
    (@callFrame_balance Db St styled cfg hSt key) args env
  rw [rollback, wp_bind, wp_get, wp_bind, wp_get, wp_bind, wp_orThrow]
  cases badTarget St w with
  | error e => exact (balanceFrame St key).refl w
  | ok bad =>
    dsimp only
    have hmarked := balance_save (fromTufTarget bad)
      (pendingCount_kBadTarget hSt key (fromTufTarget bad) w.db)
    rw [wp_bind, wp_saveInstalledVersion, wp_bind, wp_get, wp_bind, wp_orThrow]
    dsimp only
    cases toTufTarget (getRollbackTarget St (getPendingTarget St w).isValid
        (St.save (fromTufTarget bad) .kBadTarget w.db)) with
    | error e => exact hmarked
    | ok target =>
      dsimp only
      rw [wp_ite]
      split
      · exact hmarked
      cases hvalid : (getPendingTarget St w).isValid with
      | false =>
        exact wp_mono (hpull _ _) (fun _ _ h => (balanceFrame St key).trans hmarked h)
          (fun _ _ h => (balanceFrame St key).trans hmarked h)
      | true =>
        obtain ⟨p, hp⟩ := pending_of_isValid hvalid
        have hget : getPendingTarget St w = p := by rw [getPendingTarget, hp]; rfl
        have hcleared := cleared_of_marked hSt hp (fromTufTarget bad)
        simp only [if_true, wp_bind, wp_saveInstalledVersion, hget]
        have hgiven := (balanceFrame St key).trans hmarked
          (balance_save p (pendingCount_kNone hSt key p _))
        refine wp_mono (balance_report hgiven fun _ => ?_) (fun _ v hv => ?_) (fun _ _ h => h)
        · have hinstallations : ∀ trace, (Event.stored p .kNone ::
              .stored (fromTufTarget bad) .kBadTarget :: trace).countP (Event.starts key) =
                trace.countP (Event.starts key) := fun trace => by
            rw [installations_stored, installations_stored]
          rw [pendingCount_none hcleared, pendingCount_some hp]
          show completions key w + _ + _ + _ ≤ completions key w + _ + List.countP _ _
          rw [hinstallations, Nat.add_zero]
          exact Nat.le_refl _
        · exact wp_mono (hpull _ _) (fun _ _ h => (balanceFrame St key).trans hv h)
            (fun _ _ h => (balanceFrame St key).trans hv h)

end Install

/-! ## Finalizations -/

/-- The failure that ends the start of the apps, by what was the reason. -/
def FailsBy (pull : Bool) : Option (ResultCode × String) → Prop
  | none => pull = false
  | some (code, _) => code = if pull then .kDownloadFailed else .kCustomError

theorem failsBy_startEnabled {env : InstallEnv} {note : Json} {apps : List App} {msg : String} :
    wp (startEnabled env note apps msg) (fun r _ => FailsBy (pullFailsFirst env note apps) r.1)
      (fun _ _ => pullFailsFirst env note apps = false) w := by
  induction apps generalizing msg w with
  | nil => rfl
  | cons app rest ih =>
    rw [startEnabled, wp_bind, wp_orThrow]
    unfold pullFailsFirst
    cases installedBefore note app with
    | error e => rfl
    | ok before =>
      cases before with
      | false => exact ih
      | true =>
        simp only [Bool.not_true, Bool.false_eq_true, if_false, wp_bind, wp_emit, wp_orThrow]
        cases env.start app with
        | error e => rfl
        | ok result =>
          cases result with
          | ok => exact ih
          | failed err => rfl
          | imagePullFailure err => rfl

theorem unrecorded_finishFinalize {env : InstallEnv} {target : Target} {description newly : String}
    {failure : Option (ResultCode × String)} {pull : Bool} (h : FailsBy pull failure) :
    wp (finishFinalize styled cfg env target description (failure, newly))
      (fun ret _ => isUnrecorded ret.code = true ↔ Returns env.runningInfo ∧ pull = true)
      (fun _ _ => ¬ (Returns env.runningInfo ∧ pull = true)) w := by
  have hend : ∀ (v : World Db) (res : InstallationResult), isUnrecorded res.code = pull →
      wp (withRunningApps env res)
        (fun ret _ => isUnrecorded ret.code = true ↔ Returns env.runningInfo ∧ pull = true)
        (fun _ _ => ¬ (Returns env.runningInfo ∧ pull = true)) v := by
    intro v res hres
    rw [withRunningApps, wp_bind, wp_orThrow]
    cases hinfo : env.runningInfo with
    | error e => exact fun hboth => not_returns_error e hboth.1
    | ok info =>
      show isUnrecorded res.code = true ↔ _
      rw [hres]
      exact ⟨fun hpull => ⟨⟨info, rfl⟩, hpull⟩, And.right⟩
  cases failure with
  | some f =>
    obtain ⟨code, err⟩ := f
    obtain rfl : code = _ := h
    refine hend _ _ ?_
    cases pull with
    | false => rfl
    | true => rfl
  | none =>
    obtain rfl : pull = false := h
    have hnone : ¬ (Returns env.runningInfo ∧ false = true) := fun hboth => by cases hboth.2
    rw [finishFinalize, wp_bind]
    refine wp_handleRemovedApps (fun _ => ?_) (fun _ _ => hnone)
    rw [wp_ite]
    split
    · rw [wp_bind, wp_orThrow]
      cases getRequiredApps styled cfg target.custom with
      | error e => exact hnone
      | ok kept =>
        dsimp only
        rw [prune, wp_bind, wp_bind, wp_emit]
        exact hend _ _ rfl
    · exact hend _ _ rfl

theorem unrecorded_finalizeApps {env : FinalizeEnv} {target : Target} {description : String}
    (hbooted : env.ostree = .ok { code := .kOk, description := description }) :
    wp (finalizeApps styled cfg env.engine target description)
      (fun ret _ => isUnrecorded ret.code = true ↔
        Returns env.engine.runningInfo ∧ AppPullFails cfg env target)
      (fun _ _ => ¬ (Returns env.engine.runningInfo ∧ AppPullFails cfg env target)) w := by
  rw [finalizeApps, wp_bind, wp_orThrow]
  cases hremoved : removedApps cfg env.engine.appsRoot target.custom with
  | error e =>
    rintro ⟨_, h⟩
    obtain ⟨removed, hr, _⟩ := h.stopped
    cases hremoved.symm.trans hr
  | ok removed =>
    dsimp only
    rw [wp_bind]
    refine wp_stopApps (fun hstopped => ?_) (fun e es _ hnot h => hnot ?_)
    · rw [wp_bind, wp_orThrow]
      cases hnote : target.custom.index "install-context" with
      | error e =>
        rintro ⟨_, h⟩
        obtain ⟨note, apps, hn, _⟩ := h.fails
        cases hnote.symm.trans hn
      | ok note =>
        dsimp only
        rw [wp_bind, wp_orThrow]
        cases happs : getApps cfg target.custom with
        | error e =>
          rintro ⟨_, h⟩
          obtain ⟨note, apps, _, ha, _⟩ := h.fails
          cases happs.symm.trans ha
        | ok apps =>
          have hiff : AppPullFails cfg env target ↔
              pullFailsFirst env.engine note apps = true := by
            constructor
            · intro h
              obtain ⟨note', apps', hn, ha, hfails⟩ := h.fails
              cases hnote.symm.trans hn
              cases happs.symm.trans ha
              exact hfails
            · intro hfails
              refine ⟨⟨description, hbooted⟩, ⟨removed, hremoved, fun name hname => ?_⟩,
                ⟨note, apps, hnote, happs, hfails⟩⟩
              exact hstopped (name, "") (List.mem_map.mpr ⟨name, hname, rfl⟩)
          dsimp only
          rw [wp_bind, hiff]
          refine wp_mono failsBy_startEnabled (fun r v hr => ?_) (fun _ _ hfalse h => ?_)
          · exact unrecorded_finishFinalize hr
          · rw [hfalse] at h
            cases h.2
    · obtain ⟨removed', hr, hstop⟩ := h.2.stopped
      cases hremoved.symm.trans hr
      intro app happ
      obtain ⟨name, hname, rfl⟩ := List.mem_map.mp happ
      exact hstop name hname

/-- Which finalizations end with a code that is not recorded. -/
theorem unrecorded_managerFinalizeInstall {env : FinalizeEnv} {target : Target} :
    wp (managerFinalizeInstall styled cfg env target)
      (fun ret _ => isUnrecorded ret.code = true ↔ EndsUnrecorded cfg env target)
      (fun _ _ => ¬ EndsUnrecorded cfg env target) w := by
  unfold managerFinalizeInstall EndsUnrecorded
  cases cfg.pacman with
  | ostree =>
    rw [wp_orThrow]
    cases env.ostree with
    | error e => simp
    | ok ir => simp
  | compose =>
    rw [composeFinalizeInstall, wp_bind, wp_orThrow]
    cases hostree : env.ostree with
    | error e =>
      rintro ⟨_, h | ⟨ir, hir, _⟩⟩
      · obtain ⟨description, hbooted⟩ := h.booted
        cases hostree.symm.trans hbooted
      · cases hir
    | ok ir =>
      have hother : ir.code ≠ .kOk → ¬ AppPullFails cfg env target := by
        intro hne h
        obtain ⟨description, hbooted⟩ := h.booted
        cases hostree.symm.trans hbooted
        exact hne rfl
      dsimp only
      rw [wp_ite]
      split
      · next hok =>
        obtain ⟨code, description⟩ := ir
        obtain rfl : code = .kOk := hok
        have hiff : (Returns env.engine.runningInfo ∧ (AppPullFails cfg env target ∨
            ∃ ir', (Except.ok ⟨.kOk, description⟩ : Except String InstallationResult) = .ok ir' ∧
              isUnrecorded ir'.code = true)) ↔
            Returns env.engine.runningInfo ∧ AppPullFails cfg env target := by
          refine and_congr_right fun _ => or_iff_left ?_
          rintro ⟨ir', hir, hcode⟩
          cases hir
          cases hcode
        rw [hiff]
        exact unrecorded_finalizeApps hostree
      · next hne =>
        rw [wp_ite]
        split
        · next hneeds =>
          show isUnrecorded ir.code = true ↔ _
          simp [hneeds, isUnrecorded, hother hne]
        · rw [withRunningApps, wp_bind, wp_orThrow]
          cases env.engine.runningInfo with
          | error e => exact fun h => not_returns_error e h.1
          | ok info =>
            show isUnrecorded ir.code = true ↔ _
            simp [hother hne, Returns]

/-- Nothing is stored or reported. -/
structure Kept (w u : World Db) : Prop where
  db : u.db = w.db
  reports : u.reports = w.reports
  installations : ∀ key, installations key w ≤ installations key u

def keptFrame : Frame (World Db) where
  rel := Kept
  refl _ := ⟨rfl, rfl, fun _ => Nat.le_refl _⟩
  trans h h' := ⟨h'.db.trans h.db, h'.reports.trans h.reports,
    fun key => Nat.le_trans (h.installations key) (h'.installations key)⟩

theorem managerFrame_kept : ManagerFrame (keptFrame : Frame (World Db)) where
  emitted _ _ := ⟨rfl, rfl, fun _ => Nat.le_refl _⟩
  engineApps _ _ := ⟨rfl, rfl, fun _ => Nat.le_refl _⟩
  rootfs _ _ := ⟨rfl, rfl, fun _ => Nat.le_refl _⟩
  lists _ _ _ := ⟨rfl, rfl, fun _ => Nat.le_refl _⟩
  record w e _ := ⟨rfl, rfl, fun _ => (List.sublist_cons_self e w.trace).countP_le⟩

variable {code : ResultCode} {u : World Db}

theorem Kept.balance (h : Kept w u) (key : String × String) : (balanceFrame St key).rel w u := by
  show completions key u + _ + _ ≤ _
  rw [completions, h.reports, h.db]
  exact Nat.add_le_add_left (h.installations key) _

/-- The result of a finalization is recorded by clearing the pending record, unless it is one
that leaves it alone. -/
structure Recorded (St : Storage Db) (code : ResultCode) (w u : World Db) : Prop where
  reports : u.reports = w.reports
  installations : ∀ key, installations key w ≤ installations key u
  cleared : isUnrecorded code = false → code ≠ .kNeedCompletion → St.pending u.db = none
  kept : isUnrecorded code = true ∨ code = .kNeedCompletion → u.db = w.db

section Finalize

variable (hSt : PendingRecord St) {target : Target} (hp : St.pending w.db = some target)

include hSt hp

theorem recorded_finalizePendingUpdate {env : FinalizeEnv} :
    wp (finalizePendingUpdate St styled cfg env target)
      (fun ret u => Recorded St ret.code w u ∧
        (isUnrecorded ret.code = true ↔ EndsUnrecorded cfg env target))
      (fun _ u => Kept w u ∧ ¬ EndsUnrecorded cfg env target) w := by
  rw [finalizePendingUpdate, wp_bind]
  refine wp_mono (wp_and
    (within_managerFinalizeInstall managerFrame_kept.toFinalizeFrame env target w)
    unrecorded_managerFinalizeInstall) (fun ret v hv => ?_) (fun _ _ h => h)
  obtain ⟨hkept, hends⟩ := hv
  have hkept : Kept w v := hkept
  have hsaved : ∀ mode, St.pending (St.save target mode v.db) = none →
      isUnrecorded ret.code = false → ret.code ≠ .kNeedCompletion →
      Recorded St ret.code w
        { v with db := St.save target mode v.db, trace := .stored target mode :: v.trace } := by
    intro mode hnone hrecorded hneeds
    refine ⟨hkept.reports, fun key => ?_, fun _ _ => hnone, fun h => ?_⟩
    · exact Nat.le_trans (hkept.installations key) (List.sublist_cons_self _ _).countP_le
    · rcases h with h | h
      · rw [hrecorded] at h
        cases h
      · exact absurd h hneeds
  rw [wp_ite]
  split
  · next hsuccess =>
    refine ⟨hsaved .kCurrent (hSt.kCurrent target v.db) ?_ ?_, hends⟩
    · cases hcode : ret.code <;> simp_all [InstallationResult.isSuccess, isUnrecorded]
    · intro hneeds
      simp [InstallationResult.isSuccess, hneeds] at hsuccess
  · next hfailed =>
    rw [wp_ite]
    split
    · next hcode =>
      have hnone := hSt.clears target v.db (hkept.db ▸ hp)
      rcases hcode with hcode | hcode
      · exact ⟨hsaved .kNone hnone (by rw [hcode]; rfl) (by rw [hcode]; decide), hends⟩
      · exact ⟨hsaved .kNone hnone (by rw [hcode]; rfl) (by rw [hcode]; decide), hends⟩
    · next hcode =>
      refine ⟨⟨hkept.reports, hkept.installations, fun hrecorded hneeds => ?_,
        fun _ => hkept.db⟩, hends⟩
      -- No code is left that the client records.
      cases hret : ret.code <;> simp_all [InstallationResult.isSuccess, isUnrecorded]

end Finalize

theorem Recorded.pendingCount_le (h : Recorded St code w u) (key : String × String) :
    pendingCount St key u.db ≤ pendingCount St key w.db := by
  by_cases hkept : isUnrecorded code = true ∨ code = .kNeedCompletion
  · exact Nat.le_of_eq (congrArg (pendingCount St key) (h.kept hkept))
  · obtain ⟨hrecorded, hneeds⟩ := not_or.mp hkept
    rw [pendingCount_none (h.cleared (by simpa using hrecorded) hneeds)]
    exact Nat.zero_le _

theorem Recorded.completions_eq (h : Recorded St code w u) (key : String × String) :
    completions key u = completions key w := by
  rw [completions, h.reports]
  rfl

theorem Recorded.balance (h : Recorded St code w u) (key : String × String) :
    (balanceFrame St key).rel w u := by
  have hpending := h.pendingCount_le key
  have hinstallations := h.installations key
  have hcompletions := h.completions_eq key
  show _ ≤ _
  omega

/-- The end of a finalization, by whether it leaves a reported target pending. -/
structure Finalized (St : Storage Db) (leaves : Prop) (w u : World Db) : Prop where
  left : leaves → u.db = w.db ∧ ∃ target, St.pending w.db = some target ∧
    u.reports = (target, false) :: w.reports
  balance : ¬ leaves → ∀ key, (balanceFrame St key).rel w u
  cleared : ¬ leaves → ∀ target, St.pending w.db = some target →
    u.reports = (target, false) :: w.reports → St.pending u.db ≠ some target

theorem finalized_of_unreported {leaves : Prop} (hnot : ¬ leaves)
    (hbalance : ∀ key, (balanceFrame St key).rel w u) (hreports : u.reports = w.reports) :
    Finalized St leaves w u := by
  refine ⟨fun h => absurd h hnot, fun _ => hbalance, fun _ target _ h => ?_⟩
  rw [hreports] at h
  exact absurd h (List.cons_ne_self _ _).symm

/-- A report of a result that is recorded is covered by the pending record, which is gone. -/
theorem finalized_of_reported {leaves : Prop} {target : Target} (hp : St.pending w.db = some target)
    (h : Recorded St code w u) (hcode : code ≠ .kNeedCompletion)
    (hleaves : leaves ↔ isUnrecorded code = true) :
    Finalized St leaves w { u with reports := (target, code == .kOk) :: u.reports } := by
  rw [hleaves]
  refine ⟨fun hunrecorded => ?_, fun hnot key => ?_, fun hnot target' hp' _ => ?_⟩
  · have hfailed : (code == .kOk) = false := by
      cases code <;> first | rfl | cases hunrecorded
    exact ⟨h.kept (.inl hunrecorded), target, hp, by rw [hfailed, h.reports]⟩
  · have hinstallations := h.installations key
    have hcompletions := h.completions_eq key
    have hnone := h.cleared (by simpa using hnot) hcode
    show completions key { u with reports := (target, code == .kOk) :: u.reports } +
      pendingCount St key u.db + _ ≤ _ + installations key u
    rw [completions_report, pendingCount_none hnone, pendingCount_some hp]
    omega
  · show St.pending u.db ≠ _
    rw [h.cleared (by simpa using hnot) hcode]
    exact fun h => by cases h

theorem finalized_completeInstallation (hSt : PendingRecord St) {env : CompleteEnv} :
    wp (completeInstallation St styled cfg env)
      (fun _ => Finalized St (LeavesPending St cfg w (.call (.completeInstallation env))) w)
      (fun _ => Finalized St (LeavesPending St cfg w (.call (.completeInstallation env))) w) w := by
  have hrefl : ∀ key, (balanceFrame St key).rel w w := fun key => (balanceFrame St key).refl w
  rw [completeInstallation, wp_bind]
  simp only [wp_bind, wp_get, wp_pure]
  rw [clientFinalizeInstall, wp_bind, wp_get]
  cases hp : St.pending w.db with
  | none =>
    have hnot : ¬ LeavesPending St cfg w (.call (.completeInstallation env)) := by
      rintro ⟨target, htarget, _⟩
      cases hp.symm.trans htarget
    rw [wp_bind, wp_orThrow]
    cases env.writeCurrent with
    | error e => exact finalized_of_unreported hnot hrefl rfl
    | ok _ => exact finalized_of_unreported hnot hrefl rfl
  | some target =>
    have hiff : LeavesPending St cfg w (.call (.completeInstallation env)) ↔
        env.callback = .ok () ∧ EndsUnrecorded cfg env.finalize target ∧
          env.writeCurrent = .ok () ∧ env.notifyFinished = .ok () := by
      simp [LeavesPending, hp]
    rw [hiff]
    dsimp only
    rw [wp_bind, wp_orThrow]
    cases hcallback : env.callback with
    | error e => exact finalized_of_unreported (by simp) hrefl rfl
    | ok _ =>
      dsimp only
      rw [wp_bind]
      refine wp_mono (recorded_finalizePendingUpdate hSt hp) (fun ret u hu => ?_)
        (fun _ u hu => ?_)
      · obtain ⟨hrecorded, hends⟩ := hu
        rw [← hends, wp_bind, wp_orThrow]
        have hunreported : ∀ {leaves : Prop}, ¬ leaves → Finalized St leaves w u := fun hnot =>
          finalized_of_unreported hnot hrecorded.balance hrecorded.reports
        cases env.writeCurrent with
        | error e => exact hunreported fun h => by cases h.2.2.1
        | ok _ =>
          dsimp only
          rw [wp_ite]
          split
          · next hcode =>
            rw [wp_bind, notifyInstallFinished, wp_bind, wp_orThrow]
            cases env.notifyFinished with
            | error e => exact hunreported fun h => by cases h.2.2.2
            | ok _ =>
              dsimp only
              rw [if_pos hcode]
              exact finalized_of_reported hp hrecorded hcode (by simp)
          · next hcode =>
            refine hunreported fun h => ?_
            rw [not_not.mp hcode] at h
            cases h.2.1
      · exact finalized_of_unreported (fun h => hu.2 h.2.1) hu.1.balance hu.1.reports

/-! ## Runs -/

theorem failureClears_iff (hSt : PendingRecord St) {step : LifeStep} :
    FailureClears St styled cfg w step ↔ ¬ LeavesPending St cfg w step := by
  cases step with
  | restart rootfs engineApps => exact iff_of_true trivial not_false
  | call call =>
    cases call with
    | completeInstallation env =>
      have hend := after_of_wp (@finalized_completeInstallation Db St styled cfg w hSt env)
      constructor
      · intro hclears hleaves
        obtain ⟨hdb, target, hp, hreports⟩ := hend.left hleaves
        exact hclears target hp hreports (hdb ▸ hp)
      · exact hend.cleared
    | _ => exact iff_of_true trivial not_false

/-- One step keeps the balance unless it leaves a reported target pending. -/
theorem balance_live (hSt : PendingRecord St) {step : LifeStep} {w' : World Db}
    (hlive : Lives St styled cfg w step w') (hstep : ¬ LeavesPending St cfg w step)
    (key : String × String) : (balanceFrame St key).rel w w' := by
  subst hlive
  cases step with
  | restart rootfs engineApps => exact (balanceFrame St key).refl w
  | call call =>
    cases call with
    | update call =>
      exact after_of_wp (P := (balanceFrame St key).rel w)
        (within_perform (callFrame_balance hSt) (balance_rollback hSt) call w)
    | completeInstallation env =>
      refine after_of_wp (P := (balanceFrame St key).rel w) ?_
      rw [performClient, wp_bind]
      exact wp_mono (finalized_completeInstallation hSt) (fun _ _ h => h.balance hstep key)
        (fun _ _ h => h.balance hstep key)
    | setSecondaries =>
      exact after_of_wp (P := (balanceFrame St key).rel w)
        (Within.ite (.throw _) (.pure _) w)
    | ask => exact (balanceFrame St key).refl w

theorem balance_run (hSt : PendingRecord St) {visits : List (World Db × LifeStep)} {w' : World Db}
    (hrun : Visits (Lives St styled cfg) w visits w')
    (hsteps : ∀ v ∈ visits, ¬ LeavesPending St cfg v.1 v.2) (key : String × String) :
    (∀ v ∈ visits, (balanceFrame St key).rel w v.1) ∧ (balanceFrame St key).rel w w' := by
  induction hrun with
  | nil w => exact ⟨fun _ h => (by cases h), (balanceFrame St key).refl w⟩
  | cons hstep _ ih =>
    obtain ⟨hfirst, hsteps⟩ := List.forall_mem_cons.mp hsteps
    obtain ⟨hvisits, hend⟩ := ih hsteps
    have hbalance := balance_live hSt hstep hfirst key
    refine ⟨List.forall_mem_cons.mpr ⟨(balanceFrame St key).refl _, fun v hv => ?_⟩, ?_⟩
    · exact (balanceFrame St key).trans hbalance (hvisits v hv)
    · exact (balanceFrame St key).trans hbalance hend

theorem once_of_balance {w' : World Db} (h : ∀ key, (balanceFrame St key).rel w w') :
    OncePerInstallation St w w' := by
  intro key
  have hkey : completions key w' + pendingCount St key w'.db + installations key w ≤
      completions key w + pendingCount St key w.db + installations key w' := h key
  omega

end Proofs

theorem installedVersions_pendingRecord : PendingRecord installedVersions where
  kPending t db := ⟨t, rfl, rfl⟩
  kCurrent t db := rfl
  kNone t db := by
    show db.pending.filter _ = db.pending ∨ db.pending.filter _ = none
    cases db.pending with
    | none => exact .inl rfl
    | some p =>
      rw [Option.filter]
      split
      · exact .inl rfl
      · exact .inr rfl
  kBadTarget t db := .inl rfl
  clears t db h := by
    show db.pending.filter _ = none
    rw [show db.pending = some t from h]
    simp [InstalledVersions.sameVersion]

/-- The device has booted the new target, which is pending. -/
def rebootedDevice : World InstalledVersions :=
  .started { rows := [{ target := factoryTarget, wasInstalled := true },
                      { target := nextTarget, wasInstalled := false }],
             current := some factoryTarget, pending := some nextTarget }
    { booted := "bb", pending := "" }

def CompleteEnv.starting (start : App → Except String AppResult) : CompleteEnv :=
  { callback := .ok (), writeCurrent := .ok (), notifyFinished := .ok ()
    finalize := { FinalizeEnv.succeeds with
      engine := { InstallEnv.succeeds with start := start } } }

def finalizeWith (start : App → Except String AppResult) : LifeStep :=
  .call (.completeInstallation (.starting start))

end Client
end AkLite
