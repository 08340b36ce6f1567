/-
Downloads that are not tried again.

A download that failed for lack of space leaves a note, and as long as the volume has
less space than the download needed, `pullAndInstall` refuses the target without a try.
The note names the target by the hash of its ostree commit.  The shortage can be one of
the apps, which come after the commit, and targets with one commit can have different
apps: in `note_blocks_other_target` a target without apps is refused because another one
with an app did not fit.

`cached_no_space_iff` says for every run which calls return the noted result for the
target of the attempt that it is from.
-/
import AkLite.Client.Within
import AkLite.Client.RollingBack
import AkLite.Lib.Run

namespace AkLite
namespace Client

open Lib Boot

/-- A download that was tried.  Its result is missing if it threw. -/
structure Attempt where
  target : TufTarget
  result : Option DownloadResult

section NoSpace

variable {Db : Type} (St : Storage Db) (styled : Json → String) (cfg : Config)

/-- The download that a call of `pullAndInstall` tries, if it gets there. -/
def attempt (args : PullArgs) (env : PullEnv) (w : World Db) : Option Attempt :=
  if (getPendingTarget St w).isValid || !(currentTufTarget St w).isOk ||
      stillNoSpace w.noSpace args.target env.usage || !args.doDownload then none
  else
    match installer St styled cfg args.installer env.installer { w with noSpace := .none } with
    | .ok (some context) u =>
      match contextDownload styled cfg context env.download u with
      | .ok res _ => some { target := args.target, result := some res }
      | .error _ _ => some { target := args.target, result := none }
    | _ => none

/-! ## Runs -/

/-- The world and the last download that was tried. -/
structure PullState (Db : Type) where
  world : World Db
  lastAttempt : Option Attempt

/-- A call, or whatever else changes the world between two of them.  The note is the
client's own. -/
inductive PullStep : PullState Db → Option (PullArgs × PullEnv) → PullState Db → Prop where
  | call (s : PullState Db) (args : PullArgs) (env : PullEnv) :
    PullStep s (some (args, env))
      { world := after (pullAndInstall St styled cfg args env) s.world
        lastAttempt := (attempt St styled cfg args env s.world).or s.lastAttempt }
  | between (s : PullState Db) (w : World Db) (h : w.noSpace = s.world.noSpace) :
    PullStep s none { s with world := w }

/-! ## The property -/

/-- The call reports a lack of space and has not tried a download. -/
def ReturnsCached (args : PullArgs) (env : PullEnv) (w : World Db) : Prop :=
  attempt St styled cfg args env w = none ∧
    ∃ r w', pullAndInstall St styled cfg args env w = .ok r w' ∧ r.status = .noSpace

/-- The last download that was tried was one of this target, it failed for lack of space,
and there is less space now than it needed. -/
def LastAttemptLacksSpace (last : Option Attempt) (target : TufTarget) (usage : UsageInfo) :
    Prop :=
  ∃ a res, last = some a ∧ a.target.name = target.name ∧
    a.target.sha256Hash = target.sha256Hash ∧
    appsJson a.target.custom = appsJson target.custom ∧ a.result = some res ∧
    res.status = .noSpace ∧ usage.available < res.stat.required

/-! ## The condition -/

/-- The call meets the note of a download that had the hash of its target and needed more
space than there is. -/
def MeetsNote (args : PullArgs) (env : PullEnv) (w : World Db) : Prop :=
  (getPendingTarget St w).isValid = false ∧ (currentTufTarget St w).isOk = true ∧
    stillNoSpace w.noSpace args.target env.usage = true ∧ env.notifyNoSpace = .ok ()

/-- The target has the name and the apps of the last one that was tried. -/
def SameAsLast (last : Option Attempt) (target : TufTarget) : Prop :=
  ∃ a, last = some a ∧ a.target.name = target.name ∧
    appsJson a.target.custom = appsJson target.custom

end NoSpace

section Proofs

variable {Db : Type} {St : Storage Db} {styled : Json → String} {cfg : Config}
  {args : PullArgs} {env : PullEnv} {w : World Db}

/-! ## Attempts -/

/-- A call that meets the note, or that ends before it looks at it, tries nothing. -/
theorem attempt_of_not_starts
    (h : (getPendingTarget St w).isValid = true ∨ (currentTufTarget St w).isOk = false ∨
      stillNoSpace w.noSpace args.target env.usage = true) :
    attempt St styled cfg args env w = none := by
  unfold attempt
  rw [if_pos]
  rcases h with h | h | h <;> simp [h]

theorem attempt_of_installer {current : TufTarget} {context : Context} {u : World Db}
    (hpending : (getPendingTarget St w).isValid = false)
    (hcurrent : currentTufTarget St w = .ok current)
    (hspace : stillNoSpace w.noSpace args.target env.usage = false)
    (hinstaller : installer St styled cfg args.installer env.installer
      { w with noSpace := .none } = .ok (some context) u) (hdownload : args.doDownload = true) :
    attempt St styled cfg args env w =
      match contextDownload styled cfg context env.download u with
      | .ok res _ => some { target := args.target, result := some res }
      | .error _ _ => some { target := args.target, result := none } := by
  unfold attempt
  rw [if_neg (by simp [hpending, hcurrent, hspace, hdownload, Except.isOk, Except.toBool]),
    hinstaller]

/-- The note after a call: the one before if nothing was tried, none, or that of the
download the call has tried. -/
def NoteAfter (St : Storage Db) (styled : Json → String) (cfg : Config) (args : PullArgs)
    (env : PullEnv) (w w' : World Db) : Prop :=
  (w'.noSpace = w.noSpace ∧ attempt St styled cfg args env w = none) ∨ w'.noSpace = .none ∨
    ∃ res, attempt St styled cfg args env w =
        some { target := args.target, result := some res } ∧ res.status = .noSpace ∧
      w'.noSpace = { commitHash := args.target.sha256Hash, corId := args.correlationId,
                     stat := res.stat }

/-- The note that a download leaves. -/
theorem wp_downloadFirst {context : Context} {u : World Db} (hnote : u.noSpace = .none) :
    wp (downloadFirst styled cfg context args env)
      (fun result? v =>
        (v.noSpace = .none ∨ args.doDownload = true ∧ ∃ res u',
          contextDownload styled cfg context env.download u = .ok res u' ∧
            res.status = .noSpace ∧
            v.noSpace = { commitHash := args.target.sha256Hash, corId := args.correlationId,
                          stat := res.stat }) ∧
        (result?.isSome = true → args.doDownload = true))
      (fun _ v => v.noSpace = .none) u := by
  rw [downloadFirst, wp_ite]
  cases hdo : args.doDownload with
  | false => exact ⟨.inl hnote, fun h => by cases h⟩
  | true =>
    have hwithin : Within (.same World.noSpace)
        (contextDownload styled cfg context env.download : M Db DownloadResult) :=
      within_contextDownload managerFrame_noSpace.toDownloadFrame context env.download
    simp only [Bool.not_true, Bool.false_eq_true, if_false, wp_bind]
    refine wp_of_run (fun res u' hrun => ?_) (fun _ _ hrun => (hwithin.error hrun).trans hnote)
    have hsame : u'.noSpace = .none := (hwithin.ok hrun).trans hnote
    simp only [wp_ite, wp_bind, wp_modify, wp_pure]
    split
    · split
      · next hspace => exact ⟨.inr ⟨trivial, res, u', hrun, hspace, rfl⟩, fun _ => trivial⟩
      · exact ⟨.inl hsame, fun _ => trivial⟩
    · split
      · exact ⟨.inl hsame, fun _ => trivial⟩
      · exact ⟨.inl hsame, fun _ => trivial⟩

/-- The results of an installation with its rollback. -/
theorem wp_installOrRollBack_status {context : Context} {current : TufTarget} {u : World Db} :
    wp (installOrRollBack St styled cfg context current args env)
      (fun r _ => r.status ≠ .noSpace) (fun _ _ => True) u := by
  rw [installOrRollBack, wp_bind]
  refine wp_of_run (fun res v hinstall => ?_) (fun _ _ _ => trivial)
  rw [wp_ite]
  split
  · rw [rollBackTo, wp_bind]
    refine wp_of_run (fun context? v' _ => ?_) (fun _ _ _ => trivial)
    cases context? with
    | none => simp
    | some context =>
      dsimp only
      rw [wp_bind]
      refine wp_of_run (fun res' _ _ => ?_) (fun _ _ _ => trivial)
      rw [wp_pure]
      dsimp only
      split <;> simp
  · exact (status_of_contextInstall hinstall).2

/-- What a call leaves, and which calls report a lack of space. -/
theorem wp_pullAndInstall_note :
    wp (pullAndInstall St styled cfg args env)
      (fun r w' => NoteAfter St styled cfg args env w w' ∧
        (r.status = .noSpace →
          attempt St styled cfg args env w ≠ none ∨ MeetsNote St args env w))
      (fun _ w' => NoteAfter St styled cfg args env w w') w := by
  rw [pullAndInstall, wp_bind, wp_get, wp_ite]
  cases hpending : (getPendingTarget St w).isValid with
  | true =>
    exact ⟨.inl ⟨rfl, attempt_of_not_starts (.inl hpending)⟩, fun h => by cases h⟩
  | false =>
    simp only [Bool.false_eq_true, if_false, wp_bind, wp_get, wp_orThrow]
    cases hcurrent : currentTufTarget St w with
    | error e =>
      exact .inl ⟨rfl, attempt_of_not_starts (.inr (.inl (by rw [hcurrent]; rfl)))⟩
    | ok current =>
      dsimp only
      rw [wp_ite]
      cases hspace : stillNoSpace w.noSpace args.target env.usage with
      | true =>
        have hnone : attempt St styled cfg args env w = none :=
          attempt_of_not_starts (.inr (.inr hspace))
        simp only [if_true, wp_bind, wp_orThrow]
        cases hnotify : env.notifyNoSpace with
        | error e => exact .inl ⟨rfl, hnone⟩
        | ok _ =>
          exact ⟨.inl ⟨rfl, hnone⟩, fun _ => .inr ⟨hpending, by rw [hcurrent]; rfl, hspace,
            hnotify⟩⟩
      | false =>
        have hinstaller : Within (.same World.noSpace)
            (installer St styled cfg args.installer env.installer) :=
          within_installer (@clientFrame_noSpace _ St).toCheckFrame _ _
        simp only [Bool.false_eq_true, if_false, wp_bind, wp_modify]
        refine wp_of_run (fun context? u hrun => ?_)
          (fun _ _ hrun => .inr (.inl (hinstaller.error hrun)))
        have hnote : u.noSpace = .none := hinstaller.ok hrun
        cases context? with
        | none => exact ⟨.inr (.inl hnote), fun h => by cases h⟩
        | some context =>
          dsimp only
          rw [wp_bind]
          refine wp_mono (wp_downloadFirst hnote) (fun result? v hv => ?_)
            (fun _ _ hv => .inr (.inl hv))
          obtain ⟨hnoted, hresult⟩ := hv
          have hafter : ∀ v', v'.noSpace = v.noSpace →
              NoteAfter St styled cfg args env w v' := by
            intro v' hv'
            rcases hnoted with h | ⟨hdo, res, u', hdownload, hstatus, h⟩
            · exact .inr (.inl (hv'.trans h))
            · refine .inr (.inr ⟨res, ?_, hstatus, hv'.trans h⟩)
              rw [attempt_of_installer hpending hcurrent hspace hrun hdo, hdownload]
          cases result? with
          | some result =>
            refine ⟨hafter v rfl, fun _ => .inl ?_⟩
            rw [attempt_of_installer hpending hcurrent hspace hrun (hresult rfl)]
            cases contextDownload styled cfg context env.download u <;> simp
          | none =>
            have hwithin : Within (.same World.noSpace)
                (installOrRollBack St styled cfg context current args env) :=
              within_installOrRollBack clientFrame_noSpace.toUpdateFrame _ _ _ _
            refine wp_mono (wp_and (hwithin v) wp_installOrRollBack_status)
              (fun r v' h => ⟨hafter v' h.1, fun hstatus => absurd hstatus h.2⟩)
              (fun _ v' h => hafter v' h.1)

/-- The calls that report a lack of space without a try are those that meet the note. -/
theorem returnsCached_iff :
    ReturnsCached St styled cfg args env w ↔ MeetsNote St args env w := by
  constructor
  · rintro ⟨hnone, r, w', hrun, hstatus⟩
    have h := wp_ok wp_pullAndInstall_note hrun
    exact (h.2 hstatus).resolve_left (not_not.mpr hnone)
  · rintro ⟨hpending, hcurrent, hspace, hnotify⟩
    refine ⟨attempt_of_not_starts (.inr (.inr hspace)), ?_⟩
    cases hc : currentTufTarget St w with
    | error e =>
      rw [hc] at hcurrent
      cases hcurrent
    | ok current =>
      refine ⟨{ status := .noSpace
                description := noSpaceError w.noSpace args.target env.usageText }, w, ?_, rfl⟩
      unfold pullAndInstall
      rw [get_bind, hpending, if_neg Bool.false_ne_true, get_bind, orThrow_bind hc, get_bind,
        hspace, if_pos rfl, orThrow_bind hnotify]
      rfl

/-! ## Runs -/

/-- The note is the one of the last download that was tried. -/
def NoteOfLast (s : PullState Db) : Prop :=
  s.world.noSpace = .none ∨ ∃ a res, s.lastAttempt = some a ∧ a.result = some res ∧
    res.status = .noSpace ∧ s.world.noSpace.commitHash = a.target.sha256Hash ∧
    s.world.noSpace.stat = res.stat

theorem noteOfLast_step {s s' : PullState Db} {c : Option (PullArgs × PullEnv)}
    (h : NoteOfLast s) (hstep : PullStep St styled cfg s c s') : NoteOfLast s' := by
  cases hstep with
  | between w hw =>
    unfold NoteOfLast
    rw [hw]
    exact h
  | call args env =>
    have hafter : NoteAfter St styled cfg args env s.world
        (after (pullAndInstall St styled cfg args env) s.world) :=
      after_of_wp (wp_mono wp_pullAndInstall_note (fun _ _ h => h.1) (fun _ _ h => h))
    rcases hafter with ⟨hsame, hnone⟩ | hnone | ⟨res, htried, hstatus, hnoted⟩
    · unfold NoteOfLast
      dsimp only
      rw [hsame, hnone, Option.none_or]
      exact h
    · exact .inl hnone
    · refine .inr ⟨{ target := args.target, result := some res }, res, ?_, rfl, hstatus, ?_, ?_⟩
      · dsimp only
        rw [htried, Option.some_or]
      · dsimp only
        rw [hnoted]
      · dsimp only
        rw [hnoted]

theorem lacksSpace_iff {s : PullState Db} (h : NoteOfLast s)
    (hmeets : MeetsNote St args env s.world) :
    LastAttemptLacksSpace s.lastAttempt args.target env.usage ↔
      SameAsLast s.lastAttempt args.target := by
  obtain ⟨_, _, hspace, _⟩ := hmeets
  simp only [stillNoSpace, Bool.and_eq_true, decide_eq_true_eq, beq_iff_eq] at hspace
  obtain ⟨⟨⟨⟨hrequired, _⟩, hhash⟩, _⟩, havailable⟩ := hspace
  rcases h with hnone | ⟨a, res, hlast, hresult, hstatus, hcommit, hstat⟩
  · rw [hnone] at hrequired
    cases hrequired
  · constructor
    · rintro ⟨a', _, hlast', hname, _, happs, _⟩
      exact ⟨a', hlast', hname, happs⟩
    · rintro ⟨a', hlast', hname, happs⟩
      rw [hlast] at hlast'
      cases hlast'
      refine ⟨a, res, hlast, hname, ?_, happs, hresult, hstatus, ?_⟩
      · rw [hhash, hcommit]
      · rw [← hstat]
        exact havailable

end Proofs

/-- In every state of a run, a call returns the noted lack of space for the target of the
last download that was tried, and with less space than that needed, exactly if a call
that meets the note has a target with the name and the apps of that one. -/
theorem cached_no_space_iff {Db : Type} (St : Storage Db) (styled : Json → String)
    (cfg : Config) {start s : PullState Db} (hstart : start.world.noSpace = .none)
    (hrun : Reaches (PullStep St styled cfg) (fun _ _ => True) start s) (args : PullArgs)
    (env : PullEnv) :
    (ReturnsCached St styled cfg args env s.world →
        LastAttemptLacksSpace s.lastAttempt args.target env.usage) ↔
      (MeetsNote St args env s.world → SameAsLast s.lastAttempt args.target) := by
  have hnote : NoteOfLast s :=
    Reaches.invariant NoteOfLast (fun _ _ _ h _ hstep => noteOfLast_step h hstep) (.inl hstart)
      hrun
  rw [returnsCached_iff]
  constructor
  · exact fun h hmeets => (lacksSpace_iff hnote hmeets).mp (h hmeets)
  · exact fun h hmeets => (lacksSpace_iff hnote hmeets).mpr (h hmeets)

/-! ## A full volume -/

/-- The download of the app needs more space than there is. -/
def spaceLacks : PullEnv :=
  let env := PullEnv.succeeds [nextTufTarget]
  let stat := { path := "/var/sota", available := 10, required := 100, err := "" }
  let full := { DownloadTry.succeeds with fetch := fun _ => .ok (.noSpace "no space" stat) }
  let client := { env.download.client with first := full }
  { env with usage := stat, download := { env.download with client := client } }

/-- The target of the same commit without apps. -/
def withoutApps : TufTarget :=
  { nextTufTarget with
    name := "board-lmp-3", version := 3
    custom := .obj [("version", .str "3"), ("hardwareIds", .arr [.str "board"])] }

def afterShortage : PullState InstalledVersions :=
  { world := after (pullAndInstall installedVersions (fun _ => "") deviceConfig pullNext
      spaceLacks) checkedDevice
    lastAttempt := (attempt installedVersions (fun _ => "") deviceConfig pullNext spaceLacks
      checkedDevice).or none }

theorem reaches_afterShortage :
    Reaches (PullStep installedVersions (fun _ => "") deviceConfig) (fun _ _ => True)
      { world := checkedDevice, lastAttempt := none } afterShortage :=
  Reaches.snoc .refl (some (pullNext, spaceLacks)) trivial (.call _ pullNext spaceLacks)

theorem meetsNote_afterShortage (target : TufTarget) (h : target.sha256Hash = "bb") :
    MeetsNote installedVersions { pullNext with target := target } spaceLacks
      afterShortage.world := by
  refine ⟨by decide +kernel, by decide +kernel, ?_, rfl⟩
  have hnote : afterShortage.world.noSpace =
      { commitHash := "bb", corId := ""
        stat := { path := "/var/sota", available := 10, required := 100, err := "" } } := by
    decide +kernel
  rw [hnote]
  simp only [stillNoSpace, h]
  decide

theorem lastTarget_afterShortage :
    afterShortage.lastAttempt.map Attempt.target = some nextTufTarget := by
  decide +kernel

/-- The next target is refused as long as it does not fit. -/
theorem cached_no_space_again :
    ReturnsCached installedVersions (fun _ => "") deviceConfig pullNext spaceLacks
        afterShortage.world ∧
      LastAttemptLacksSpace afterShortage.lastAttempt pullNext.target spaceLacks.usage := by
  have hmeets := meetsNote_afterShortage pullNext.target rfl
  have hcached : ReturnsCached installedVersions (fun _ => "") deviceConfig pullNext spaceLacks
      afterShortage.world := returnsCached_iff.mpr hmeets
  refine ⟨hcached, (cached_no_space_iff installedVersions (fun _ => "") deviceConfig rfl
    reaches_afterShortage pullNext spaceLacks).mpr (fun _ => ?_) hcached⟩
  obtain ⟨a, ha, htarget⟩ := Option.map_eq_some_iff.mp lastTarget_afterShortage
  exact ⟨a, ha, by rw [htarget]; rfl, by rw [htarget]; rfl⟩

/-- A target without apps is refused because the app of another one did not fit. -/
theorem note_blocks_other_target :
    ∃ s, Reaches (PullStep installedVersions (fun _ => "") deviceConfig) (fun _ _ => True)
        { world := checkedDevice, lastAttempt := none } s ∧
      ReturnsCached installedVersions (fun _ => "") deviceConfig
        { pullNext with target := withoutApps } spaceLacks s.world ∧
      ¬ LastAttemptLacksSpace s.lastAttempt withoutApps spaceLacks.usage := by
  refine ⟨afterShortage, reaches_afterShortage,
    returnsCached_iff.mpr (meetsNote_afterShortage withoutApps rfl), ?_⟩
  rintro ⟨a, _, ha, hname, _⟩
  have htarget := lastTarget_afterShortage
  rw [ha] at htarget
  rw [Option.some.inj htarget] at hname
  revert hname
  decide

end Client
end AkLite
