/-
Which target the apps are synchronised with.

If there is nothing to update, `getTargetToInstall` looks whether the apps of the current
target are in sync.  If they are not, or if a synchronisation is asked for, it looks the
current target up again in the check-in result, by its version number only.  Another
target can have this number, of another tag for example, and the number of a target
without a version stands for the latest target.  In `sync_selects_other_rootfs` a device
whose app has stopped is given a target with another name and another rootfs.

`sync_keeps_target` says for which inputs a synchronisation is one with the current
target.
-/
import AkLite.Client.Selection

namespace AkLite
namespace Client

open Lib Boot

section Syncing

variable {Db : Type} (St : Storage Db) (styled : Json → String) (cfg : Config)

/-- If apps are to be synchronised, then those of the current target. -/
def SyncsInPlace (w : World Db) (r : SelectResult) : Prop :=
  r.status = .updateSyncApps →
    r.selected.name = (getCurrent St w).filename ∧
      r.selected.sha256Hash = (getCurrent St w).sha256Hash

/-- There is nothing to update, the apps are to be synchronised, and the listed target of
the current version has another name or another rootfs. -/
def SyncsElsewhere (ci : CheckInResult) (args : SelectArgs) (env : CheckEnv) (w : World Db) :
    Prop :=
  ∃ current selected,
    NothingToUpdate St ci args w current ∧
      checkReturns St styled cfg env current w = true ∧
      (args.forceAppsSync = true ∨ appsOutOfSync St styled cfg env current w = true) ∧
      selectTarget ci current.version "" = .ok selected ∧ selected.isUnknown = false ∧
      (selected.name ≠ current.name ∨ selected.sha256Hash ≠ current.sha256Hash)

end Syncing

section Proofs

variable {Db : Type} {St : Storage Db} {styled : Json → String} {cfg : Config}
  {ci : CheckInResult} {args : SelectArgs} {env : CheckEnv} {w : World Db}

/-- A call that ends without a check does not synchronise apps. -/
theorem planTarget_done {result : SelectResult} {err : String}
    (h : planTarget St ci args w = .ok (.done result err)) : result.status ≠ .updateSyncApps := by
  cases planned_of_planTarget h <;> simp

theorem not_syncsElsewhere
    (h : ∀ candidate current, planTarget St ci args w ≠ .ok (.sync candidate current)) :
    ¬ SyncsElsewhere St styled cfg ci args env w := by
  rintro ⟨current, _, hnothing, _⟩
  obtain ⟨candidate, hplan⟩ := planTarget_of_nothingToUpdate hnothing
  exact h candidate current hplan

theorem syncsElsewhere_iff {candidate current : TufTarget}
    (hplan : planTarget St ci args w = .ok (.sync candidate current)) :
    SyncsElsewhere St styled cfg ci args env w ↔
      checkReturns St styled cfg env current w = true ∧
        (args.forceAppsSync = true ∨ appsOutOfSync St styled cfg env current w = true) ∧
        ∃ selected, selectTarget ci current.version "" = .ok selected ∧
          selected.isUnknown = false ∧
          (selected.name ≠ current.name ∨ selected.sha256Hash ≠ current.sha256Hash) := by
  constructor
  · rintro ⟨_, selected, hnothing, hreturns, hsync, hselect⟩
    obtain ⟨_, hplan'⟩ := planTarget_of_nothingToUpdate hnothing
    rw [hplan] at hplan'
    cases hplan'
    exact ⟨hreturns, hsync, selected, hselect⟩
  · rintro ⟨hreturns, hsync, selected, hselect⟩
    exact ⟨current, selected, planTarget_sync hplan, hreturns, hsync, hselect⟩

/-- A target found for the current version, or else the current one. -/
theorem syncsInPlace_selected {candidate current selected : TufTarget} {reason : String}
    (hplan : planTarget St ci args w = .ok (.sync candidate current))
    (hreturns : checkReturns St styled cfg env current w = true)
    (hsync : args.forceAppsSync = true ∨ appsOutOfSync St styled cfg env current w = true)
    (hselect : selectTarget ci current.version "" = .ok selected) :
    SyncsInPlace St w
        { status := .updateSyncApps, reason := reason
          selected := if selected.isUnknown then current else selected } ↔
      ¬ SyncsElsewhere St styled cfg ci args env w := by
  obtain ⟨hname, hhash⟩ := currentTufTarget_fields (planTarget_spec hplan)
  rw [syncsElsewhere_iff hplan]
  cases hunknown : selected.isUnknown with
  | true => simp [SyncsInPlace, hname, hhash, hselect, hunknown]
  | false =>
    simp only [SyncsInPlace, Bool.false_eq_true, if_false, true_implies, hreturns, hsync,
      hselect, Except.ok.injEq, exists_eq_left', hunknown, true_and, hname, hhash]
    tauto

theorem syncsInPlace_iff :
    (∀ r w', getTargetToInstall St styled cfg ci args env w = .ok r w' → SyncsInPlace St w r) ↔
      ¬ SyncsElsewhere St styled cfg ci args env w := by
  rw [← wp_true_iff (P := fun r _ => SyncsInPlace St w r)]
  refine wp_iff ?_
  have hno : (∀ candidate current, planTarget St ci args w ≠ .ok (.sync candidate current)) →
      ¬ SyncsElsewhere St styled cfg ci args env w := not_syncsElsewhere
  refine getTargetToInstall_rule (fun e hplan => ?_) (fun result err hplan => ?_)
    (fun candidate current rollbackOperation hplan v _ => ?_) fun candidate current hplan v _ => ?_
  · exact iff_of_true trivial (hno fun _ _ => by rw [hplan]; simp)
  · refine iff_of_true (fun hstatus => ?_) (hno fun _ _ => by rw [hplan]; simp)
    exact absurd hstatus (planTarget_done hplan)
  · have hnone := hno fun _ _ => by rw [hplan]; simp
    refine ⟨fun _ _ => iff_of_true trivial hnone, fun _ => iff_of_true (fun hstatus => ?_) hnone⟩
    cases rollbackOperation <;> cases hstatus
  · rw [syncsElsewhere_iff hplan]
    refine ⟨fun _ _ hreturns => ?_, fun e herror => ?_,
      fun target reason hreturns hsync htarget => ?_, fun reason hsync => ?_⟩
    · simp [hreturns]
    · refine iff_of_true trivial ?_
      rintro ⟨_, _, selected, hselect, _⟩
      rw [syncTarget_eq hselect] at herror
      cases herror
    · obtain ⟨selected, hselect, rfl⟩ := syncTarget_eq_ok htarget
      rw [← syncsElsewhere_iff hplan]
      exact syncsInPlace_selected hplan hreturns hsync hselect
    · refine iff_of_true (fun hstatus => ?_) fun helsewhere => hsync helsewhere.2.1
      revert hstatus
      cases args.offlineMode <;> exact fun hstatus => by cases hstatus

end Proofs

/-- A synchronisation of apps selects a target with the name and the hash of the current
one exactly if the check-in result does not list another target for its version. -/
theorem sync_keeps_target {Db : Type} (St : Storage Db) (styled : Json → String) (cfg : Config)
    (ci : CheckInResult) (args : SelectArgs) (env : CheckEnv) (w : World Db) :
    (∀ r w', getTargetToInstall St styled cfg ci args env w = .ok r w' →
      r.status = .updateSyncApps →
        r.selected.name = (getCurrent St w).filename ∧
          r.selected.sha256Hash = (getCurrent St w).sha256Hash) ↔
      ¬ SyncsElsewhere St styled cfg ci args env w :=
  syncsInPlace_iff

/-- Two targets of one version, built for two tags. -/
def twoTagsCheckIn : CheckInResult :=
  { status := .ok, primaryHwid := "board"
    targets := [{ nextTufTarget with name := "board-devel-2", sha256Hash := "cc" },
      nextTufTarget] }

def nextDevice : World InstalledVersions :=
  .started { rows := [{ target := nextTarget, wasInstalled := true }],
             current := some nextTarget, pending := none } { booted := "bb", pending := "" }

/-- The device is on the latest target and its app has stopped.  The target of the other
tag is selected. -/
theorem sync_selects_other_rootfs :
    ∃ r w', getTargetToInstall installedVersions (fun _ => "") deviceConfig twoTagsCheckIn
        (.daemon false) .noneRunning nextDevice = .ok r w' ∧
      r.status = .updateSyncApps ∧ r.selected.name = "board-devel-2" ∧
      (getCurrent installedVersions nextDevice).filename = "board-lmp-2" ∧
      r.selected.sha256Hash ≠ (getCurrent installedVersions nextDevice).sha256Hash := by
  refine ⟨_, _, rfl, rfl, rfl, rfl, ?_⟩
  decide

end Client
end AkLite
