/-
The apps of a pending target.

A target that waits for a reboot has its apps in the engine already.  The first app
check of a process that finds nothing to do cleans the engine up, and the clean-up
knows the current target only: it removes the apps whose directories the current
target does not name, and with reset apps it prunes all that the current target does
not require.  `check_removes_pending_apps` is a device on which `check` and `list`
lose the apps of the pending target that way.

`pending_apps_kept_iff` says for which inputs the two calls keep them.
-/
import AkLite.Client.Selection

namespace AkLite
namespace Client

open Lib Boot

section PendingApps

variable {Db : Type} (St : Storage Db) (styled : Json → String) (cfg : Config)

/-- The engine has the same apps of the pending target before and after. -/
def KeepsPendingApps {α : Type} (x : M Db α) (w : World Db) : Prop :=
  ∀ pending required, St.pending w.db = some pending →
    getRequiredApps styled cfg pending.custom = .ok required →
    ∀ a ∈ required, (a ∈ (after x w).engineApps ↔ a ∈ w.engineApps)

/-- A clean-up for the current target keeps an app if the target names it or it has no
directory, and if it is required or nothing is pruned. -/
def SurvivesCleanUp (appsRoot : Option (List String)) (current : Target) (a : App) : Prop :=
  ∀ removed, removedApps cfg appsRoot current.custom = .ok removed →
    a.1 ∉ removed ∧
      (cfg.dockerPrune = true → cfg.resetApps.isSome = true →
        ∀ required, getRequiredApps styled cfg current.custom = .ok required → a ∈ required)

/-- If a check of the target cleans up, the apps of the pending target survive. -/
def PendingAppsSurvive (env : CheckEnv) (target : TufTarget) (w : World Db) : Prop :=
  cleansUp St styled cfg env target w = true →
    ∀ pending required, St.pending w.db = some pending →
      getRequiredApps styled cfg pending.custom = .ok required →
      ∀ a ∈ required, a ∈ w.engineApps →
        SurvivesCleanUp styled cfg env.appsRoot (getCurrent St w) a

/-- The target whose apps `getTargetToInstall` looks at: the one it wants to install, or
the current one. -/
def ChecksApps (ci : CheckInResult) (args : SelectArgs) (w : World Db) (target : TufTarget) :
    Prop :=
  (∃ current rollbackOperation,
    planTarget St ci args w = .ok (.update target current rollbackOperation)) ∨
  ∃ candidate, planTarget St ci args w = .ok (.sync candidate target)

/-- Whether the program returns or throws, these are the engine's apps then. -/
def LeavesApps {α : Type} (apps : List App) (x : M Db α) (w : World Db) : Prop :=
  wp x (fun _ w' => w'.engineApps = apps) (fun _ w' => w'.engineApps = apps) w

variable {St styled cfg} {w : World Db} {α : Type} {x : M Db α} {env : CheckEnv}

theorem mem_cleanedApps {appsRoot : Option (List String)} {current : Target} {apps : List App}
    {a : App} :
    a ∈ cleanedApps styled cfg appsRoot current apps ↔
      a ∈ apps ∧ SurvivesCleanUp styled cfg appsRoot current a := by
  unfold cleanedApps SurvivesCleanUp
  cases removedApps cfg appsRoot current.custom with
  | error e => simp
  | ok removed =>
    dsimp only
    by_cases hprune : (cfg.dockerPrune && cfg.resetApps.isSome) = true
    · rw [if_pos hprune]
      simp only [Bool.and_eq_true] at hprune
      cases getRequiredApps styled cfg current.custom with
      | error e => simp
      | ok required => simpa [hprune] using fun _ => and_comm
    · rw [if_neg hprune]
      have hno : cfg.dockerPrune = true → ¬ cfg.resetApps.isSome = true := by
        simpa using hprune
      simp only [List.mem_filter, Bool.not_eq_true', List.contains_eq_mem, decide_eq_false_iff_not,
        Except.ok.injEq, forall_eq']
      exact and_congr_right fun _ =>
        ⟨fun h => ⟨h, fun hp hr => absurd hr (hno hp)⟩, fun h => h.1⟩

theorem LeavesApps.after {apps : List App} (h : LeavesApps apps x w) :
    (after x w).engineApps = apps :=
  after_of_wp (P := fun v : World Db => v.engineApps = apps) h

theorem keepsPendingApps_of_leaves (h : LeavesApps w.engineApps x w) :
    KeepsPendingApps St styled cfg x w := by
  intro pending required _ _ a _
  rw [h.after]

theorem keepsPendingApps_iff {target : TufTarget}
    (h : LeavesApps (checkedApps St styled cfg env target w) x w) :
    KeepsPendingApps St styled cfg x w ↔ PendingAppsSurvive St styled cfg env target w := by
  unfold PendingAppsSurvive
  by_cases hclean : cleansUp St styled cfg env target w = true
  · rw [checkedApps, if_pos hclean] at h
    simp only [KeepsPendingApps, h.after, mem_cleanedApps, hclean, true_implies,
      and_iff_left_iff_imp]
  · rw [checkedApps, if_neg hclean] at h
    exact ⟨fun _ hc => absurd hc hclean, fun _ => keepsPendingApps_of_leaves h⟩

theorem notified_engineApps {err : String} : (notified cfg err w).engineApps = w.engineApps := by
  unfold notified
  split
  · rfl
  · rfl

/-- The selection leaves what its check leaves, if it makes one. -/
theorem leavesApps_getTargetToInstall {ci : CheckInResult} {args : SelectArgs} {apps : List App}
    (hnone : (∀ target, ¬ ChecksApps St ci args w target) → w.engineApps = apps)
    (hchecks : ∀ target, ChecksApps St ci args w target →
      checkedApps St styled cfg env target w = apps) :
    LeavesApps apps (getTargetToInstall St styled cfg ci args env) w := by
  have hcheck : ∀ {target v}, CheckEffect St styled cfg env target w v →
      ChecksApps St ci args w target → v.engineApps = apps := fun hv htarget =>
    hv.engineApps.trans (hchecks _ htarget)
  refine getTargetToInstall_rule (fun e hplan => ?_) (fun result err hplan => ?_)
    (fun candidate current rollbackOperation hplan v hv => ?_)
    fun candidate current hplan v hv => ?_
  · exact hnone fun target => by simp [ChecksApps, hplan]
  · rw [notified_engineApps]
    exact hnone fun target => by simp [ChecksApps, hplan]
  · have hafter := hcheck hv (.inl ⟨current, rollbackOperation, hplan⟩)
    exact ⟨fun _ _ => hafter, fun _ => notified_engineApps.trans hafter⟩
  · have hafter := hcheck hv (.inr ⟨candidate, hplan⟩)
    exact ⟨fun _ _ _ => hafter, fun _ _ => hafter,
      fun _ _ _ _ _ => notified_engineApps.trans hafter,
      fun _ _ => notified_engineApps.trans hafter⟩

/-- There is one target to look at, at most. -/
theorem ChecksApps.unique {ci : CheckInResult} {args : SelectArgs} {target target' : TufTarget}
    (h : ChecksApps St ci args w target) (h' : ChecksApps St ci args w target') :
    target' = target := by
  rcases h with ⟨current, rollbackOperation, hplan⟩ | ⟨candidate, hplan⟩
  · simpa [ChecksApps, hplan, eq_comm] using h'
  · simpa [ChecksApps, hplan, eq_comm] using h'

theorem keepsPendingApps_getTargetToInstall {ci : CheckInResult} {args : SelectArgs} :
    KeepsPendingApps St styled cfg (getTargetToInstall St styled cfg ci args env) w ↔
      ∀ target, ChecksApps St ci args w target → PendingAppsSurvive St styled cfg env target w := by
  by_cases hany : ∃ target, ChecksApps St ci args w target
  · obtain ⟨target, htarget⟩ := hany
    have hleaves : LeavesApps (checkedApps St styled cfg env target w)
        (getTargetToInstall St styled cfg ci args env) w :=
      leavesApps_getTargetToInstall (fun hnone => absurd htarget (hnone target))
        fun other hother => by rw [htarget.unique hother]
    rw [keepsPendingApps_iff hleaves]
    refine ⟨fun hsurvive other hother => ?_, fun hall => hall target htarget⟩
    rwa [htarget.unique hother]
  · rw [not_exists] at hany
    refine iff_of_true (keepsPendingApps_of_leaves ?_) fun target htarget => absurd htarget
      (hany target)
    exact leavesApps_getTargetToInstall (fun _ => rfl) fun target htarget => absurd htarget
      (hany target)

theorem keepsPendingApps_checkAppsInSync {uuid : String} :
    KeepsPendingApps St styled cfg (checkAppsInSync St styled cfg env uuid) w ↔
      ∀ current, currentTufTarget St w = .ok current →
        PendingAppsSurvive St styled cfg env current w := by
  cases hcurrent : currentTufTarget St w with
  | error e =>
    refine iff_of_true (keepsPendingApps_of_leaves ?_) (by simp)
    rw [LeavesApps, checkAppsInSync, wp_bind, wp_get, wp_bind, wp_orThrow, hcurrent]
  | ok current =>
    simp only [Except.ok.injEq, forall_eq']
    refine keepsPendingApps_iff ?_
    rw [LeavesApps, checkAppsInSync, wp_bind, wp_get, wp_bind, wp_orThrow, hcurrent]
    dsimp only
    rw [wp_bind]
    refine wp_checkAndSet (fun apps v hv _ _ => ?_) fun _ v hv _ => hv.engineApps
    dsimp only
    rw [wp_ite]
    split
    · exact hv.engineApps
    · exact hv.engineApps

end PendingApps

/-- The calls of `check` and `list` keep the apps of a pending target exactly if the
clean-up does not run or keeps each of them. -/
theorem pending_apps_kept_iff {Db : Type} (St : Storage Db) (styled : Json → String)
    (cfg : Config) (w : World Db) (env : CheckEnv) :
    (∀ ci args,
      KeepsPendingApps St styled cfg (getTargetToInstall St styled cfg ci args env) w ↔
        ∀ target, ChecksApps St ci args w target →
          PendingAppsSurvive St styled cfg env target w) ∧
    ∀ uuid,
      KeepsPendingApps St styled cfg (checkAppsInSync St styled cfg env uuid) w ↔
        ∀ current, currentTufTarget St w = .ok current →
          PendingAppsSurvive St styled cfg env current w :=
  ⟨fun _ _ => keepsPendingApps_getTargetToInstall, fun _ => keepsPendingApps_checkAppsInSync⟩

/-- The target that waits for a reboot adds an app to that of the initial target. -/
def addingTarget : Target :=
  { filename := "board-lmp-2", sha256Hash := "bb", correlationId := "", isValid := true,
    custom := .obj [("version", .str "2"), ("hardwareIds", .arr [.str "board"]),
      ("docker_compose_apps", .obj [("web", .obj [("uri", .str "web@1")]),
        ("db", .obj [("uri", .str "db@1")])])] }

def pendingDevice : World InstalledVersions :=
  { World.started { rows := [{ target := factoryTarget, wasInstalled := true },
                             { target := addingTarget, wasInstalled := false }],
                    current := some factoryTarget, pending := some addingTarget }
      { booted := "aa", pending := "bb" } with
    engineApps := [("web", "web@1"), ("db", "db@1")] }

/-- A third target has other files than the initial one and the same app. -/
def sameAppsCheckIn : CheckInResult :=
  { status := .ok, primaryHwid := "board"
    targets := [{ name := "board-lmp-3", sha256Hash := "cc", version := 3,
                  custom := webCustom "3" "web@1" }] }

def withDirs : CheckEnv := { CheckEnv.allRunning with appsRoot := some ["web", "db"] }

theorem not_keeps_of_removed {α : Type} {x : M InstalledVersions α}
    (h : ("db", "db@1") ∉ (after x pendingDevice).engineApps) :
    ¬ KeepsPendingApps installedVersions (fun _ => "") deviceConfig x pendingDevice := by
  intro hkeeps
  have hdb := hkeeps addingTarget [("web", "web@1"), ("db", "db@1")] rfl rfl ("db", "db@1")
    (by decide)
  exact h (hdb.mpr (by decide))

/-- Whether the third target is found or the current apps are looked at, the added app
of the pending target is removed. -/
theorem check_removes_pending_apps :
    ¬ KeepsPendingApps installedVersions (fun _ => "") deviceConfig
        (getTargetToInstall installedVersions (fun _ => "") deviceConfig sameAppsCheckIn
          (.daemon false) withDirs) pendingDevice ∧
      ¬ KeepsPendingApps installedVersions (fun _ => "") deviceConfig
        (checkAppsInSync installedVersions (fun _ => "") deviceConfig withDirs "uuid")
        pendingDevice := by
  constructor
  · exact not_keeps_of_removed (by decide)
  · exact not_keeps_of_removed (by decide)

end Client
end AkLite
