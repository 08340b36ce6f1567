/-
Checks, installations and their apps on the trace.

The trace of a client has its latest event first.  Two facts about it are invariant:
each target that was stored as current had every app started or found up to date, and
the list of apps to update is that of the last check.  Here is what one check and one
installation do to them.
-/
import AkLite.Client.Frames
import AkLite.Client.Installing

namespace AkLite
namespace Client

open Lib Boot

/-! ## Traces -/

/-- The events since the last installation began. -/
def sinceInstall : List Event → List Event
  | [] => []
  | .installStarted _ :: _ => []
  | e :: rest => e :: sinceInstall rest

/-- The events before the last installation began. -/
def beforeInstall : List Event → List Event
  | [] => []
  | .installStarted _ :: rest => rest
  | _ :: rest => beforeInstall rest

/-- The last check since the last installation. -/
def lastCheck : List Event → Option (List App × List App)
  | [] => none
  | .installStarted _ :: _ => none
  | .appsChecked apps upToDate :: _ => some (apps, upToDate)
  | _ :: rest => lastCheck rest

/-- Each app of the target was started by the last installation, or a check of the
target's apps between that installation and the one before found it up to date. -/
def AppsAccounted (cfg : Config) (target : Target) (trace : List Event) : Prop :=
  ∀ apps, getApps cfg target.custom = .ok apps →
    ∀ app ∈ apps, .appStarted app ∈ sinceInstall trace ∨
      ∃ upToDate, .appsChecked apps upToDate ∈ sinceInstall (beforeInstall trace) ∧ app ∈ upToDate

/-- The apps of every target that was stored as current are accounted for. -/
def StoresAccounted (cfg : Config) (trace : List Event) : Prop :=
  ∀ later target earlier, trace = later ++ .stored target .kCurrent :: earlier →
    AppsAccounted cfg target earlier

theorem storesAccounted_cons {cfg : Config} {e : Event} {trace : List Event} :
    StoresAccounted cfg (e :: trace) ↔
      (∀ target, e = .stored target .kCurrent → AppsAccounted cfg target trace) ∧
        StoresAccounted cfg trace := by
  constructor
  · intro h
    refine ⟨fun target he => h [] target trace (by rw [he]; rfl), fun later target earlier ht => ?_⟩
    exact h (e :: later) target earlier (by rw [ht]; rfl)
  · rintro ⟨hhead, htail⟩ later target earlier ht
    cases later with
    | nil =>
      obtain ⟨he, ht⟩ := List.cons.inj ht
      rw [← ht]
      exact hhead target he
    | cons e' later => exact htail later target earlier (List.cons.inj ht).2

theorem lastCheck_mem {trace : List Event} {apps upToDate : List App}
    (h : lastCheck trace = some (apps, upToDate)) :
    .appsChecked apps upToDate ∈ sinceInstall trace := by
  induction trace with
  | nil => cases h
  | cons e rest ih =>
    cases e with
    | appsChecked a u =>
      cases h
      exact List.mem_cons_self
    | installStarted t => cases h
    | _ => exact List.mem_cons_of_mem _ (ih h)

/-- Only apps are started. -/
def OnlyStarts (events : List Event) : Prop := ∀ e ∈ events, ∃ app, e = .appStarted app

/-- One start is added after the other. -/
@[elab_as_elim]
theorem OnlyStarts.induction {P : List Event → Prop} {started : List Event}
    (h : OnlyStarts started) (hnil : P [])
    (hcons : ∀ app rest, P rest → P (.appStarted app :: rest)) : P started := by
  induction started with
  | nil => exact hnil
  | cons e rest ih =>
    obtain ⟨app, rfl⟩ := h e List.mem_cons_self
    exact hcons app rest (ih fun e he => h e (List.mem_cons_of_mem _ he))

section Starts

variable {cfg : Config} {started trace : List Event} (h : OnlyStarts started) (target : Target)

include h

theorem sinceInstall_starts :
    sinceInstall (started ++ .installStarted target :: trace) = started := by
  refine h.induction rfl fun app rest ih => ?_
  exact congrArg (Event.appStarted app :: ·) ih

theorem beforeInstall_starts :
    beforeInstall (started ++ .installStarted target :: trace) = trace :=
  h.induction rfl fun _ _ ih => ih

theorem lastCheck_starts : lastCheck (started ++ .installStarted target :: trace) = none :=
  h.induction rfl fun _ _ ih => ih

theorem storesAccounted_starts (htrace : StoresAccounted cfg trace) :
    StoresAccounted cfg (started ++ .installStarted target :: trace) := by
  refine h.induction ?_ fun app rest ih => ?_
  · exact storesAccounted_cons.mpr ⟨nofun, htrace⟩
  · exact storesAccounted_cons.mpr ⟨nofun, ih⟩

end Starts

/-! ## The invariant -/

structure Accounted {Db : Type} (cfg : Config) (w : World Db) : Prop where
  stores : StoresAccounted cfg w.trace
  list : ∀ apps upToDate, lastCheck w.trace = some (apps, upToDate) →
    ∀ app ∈ apps, app ∈ w.appsToFetchAndUpdate ∨ app ∈ upToDate

/-- The last check since the last installation was one for the apps of this target. -/
def CheckedFor {Db : Type} (cfg : Config) (custom : Json) (w : World Db) : Prop :=
  ∀ apps, getApps cfg custom = .ok apps → ∃ upToDate, lastCheck w.trace = some (apps, upToDate)

section Invariant

variable {Db : Type} {St : Storage Db} {styled : Json → String} {cfg : Config} {w w' : World Db}

theorem Accounted.congr (h : Accounted cfg w) (htrace : w'.trace = w.trace)
    (hlist : w'.appsToFetchAndUpdate = w.appsToFetchAndUpdate) : Accounted cfg w' := by
  refine ⟨by rw [htrace]; exact h.stores, ?_⟩
  rw [htrace, hlist]
  exact h.list

/-- An event that is no check, no start of an installation and no new current target. -/
def Event.quiet : Event → Bool
  | .appsChecked _ _ => false
  | .installStarted _ => false
  | .stored _ .kCurrent => false
  | _ => true

theorem lastCheck_quiet {e : Event} (he : e.quiet = true) (trace : List Event) :
    lastCheck (e :: trace) = lastCheck trace := by
  cases e with
  | appsChecked a u => cases he
  | installStarted t => cases he
  | _ => rfl

theorem Accounted.quiet {e : Event} (h : Accounted cfg w) (he : e.quiet = true)
    (htrace : w'.trace = e :: w.trace)
    (hlist : w'.appsToFetchAndUpdate = w.appsToFetchAndUpdate) : Accounted cfg w' := by
  refine ⟨?_, ?_⟩
  · rw [htrace, storesAccounted_cons]
    refine ⟨fun target ht => ?_, h.stores⟩
    rw [ht] at he
    cases he
  · rw [htrace, hlist, lastCheck_quiet he]
    exact h.list

theorem CheckedFor.congr {custom : Json} (h : CheckedFor cfg custom w)
    (htrace : w'.trace = w.trace) : CheckedFor cfg custom w' := by
  intro apps happs
  rw [htrace]
  exact h apps happs

/-! ## Checks -/

/-- How a check splits the apps: each is to be updated, or it has been found up to date. -/
structure Splits (apps toUpdate upToDate : List App) (isUpToDate : App → Prop) : Prop where
  covers : ∀ app ∈ apps, app ∈ toUpdate ∨ app ∈ upToDate
  updates : toUpdate.Sublist apps
  keeps : upToDate.Sublist apps
  checked : ∀ app ∈ upToDate, isUpToDate app

variable {apps : List App} {res : InstallationResult}

theorem getAppsToUpdate_splits {env : CheckEnv} {currentApps : Json}
    {toUpdate : List (App × String)} {upToDate : List App}
    (h : getAppsToUpdate env currentApps apps = .ok (toUpdate, upToDate)) :
    Splits apps (toUpdate.map Prod.fst) upToDate fun app =>
      syncReason env currentApps app = .ok none := by
  induction apps generalizing toUpdate upToDate with
  | nil =>
    cases h
    exact ⟨nofun, .slnil, .slnil, nofun⟩
  | cons app rest ih =>
    obtain ⟨reason, hreason, h⟩ := bind_eq_ok.mp h
    obtain ⟨⟨toUpdate', upToDate'⟩, hrest, h⟩ := bind_eq_ok.mp h
    obtain ⟨hcovers, hupdate, hdate, hchecked⟩ := ih hrest
    cases reason with
    | some text =>
      cases h
      refine ⟨List.forall_mem_cons.mpr ⟨.inl List.mem_cons_self, fun a ha => ?_⟩,
        hupdate.cons_cons app, hdate.cons app, hchecked⟩
      exact (hcovers a ha).imp_left (List.mem_cons_of_mem _)
    | none =>
      cases h
      refine ⟨List.forall_mem_cons.mpr ⟨.inr List.mem_cons_self, fun a ha => ?_⟩,
        hupdate.cons app, hdate.cons_cons app, List.forall_mem_cons.mpr ⟨hreason, hchecked⟩⟩
      exact (hcovers a ha).imp_right (List.mem_cons_of_mem _)

theorem compareApps_splits {env : CheckEnv} {currentCustom custom : Json} {c : AppsCheck}
    (h : compareApps cfg env currentCustom custom = .ok c) :
    getApps cfg custom = .ok c.apps ∧ Splits c.apps c.toUpdate c.upToDate fun app =>
      ∃ currentApps, appsJson currentCustom = .ok currentApps ∧
        syncReason env currentApps app = .ok none := by
  unfold compareApps at h
  split at h
  · obtain ⟨apps, happs, h⟩ := bind_eq_ok.mp h
    cases h
    exact ⟨happs, fun app ha => .inl ha, .refl _, List.nil_sublist _, nofun⟩
  · obtain ⟨currentApps, hcurrent, h⟩ := bind_eq_ok.mp h
    obtain ⟨apps, happs, h⟩ := bind_eq_ok.mp h
    obtain ⟨⟨toUpdate, upToDate⟩, hupdate, h⟩ := bind_eq_ok.mp h
    cases h
    obtain ⟨hcovers, hto, hdate, hchecked⟩ := getAppsToUpdate_splits hupdate
    exact ⟨happs, hcovers, hto, hdate, fun app ha => ⟨currentApps, hcurrent, hchecked app ha⟩⟩

theorem Accounted.compared {env : CheckEnv} {target : TufTarget} (h : Accounted cfg w)
    (hc : Compared St cfg env target w w') :
    Accounted cfg w' ∧ CheckedFor cfg target.custom w' := by
  obtain ⟨c, hcompare, hlist, htrace⟩ := hc
  obtain ⟨happs, hcovers, -⟩ := compareApps_splits hcompare
  refine ⟨⟨?_, ?_⟩, ?_⟩
  · rw [htrace]
    exact storesAccounted_cons.mpr ⟨nofun, h.stores⟩
  · rw [htrace, hlist]
    intro apps upToDate hlast
    cases hlast
    exact hcovers
  · intro apps happs'
    rw [happs] at happs'
    cases happs'
    exact ⟨c.upToDate, by rw [htrace]; rfl⟩

/-! ## Installations -/

/-- The world has started these apps since. -/
def Started (w w' : World Db) (started : List Event) : Prop :=
  w'.trace = started ++ w.trace ∧ OnlyStarts started

theorem Started.refl (htrace : w'.trace = w.trace) : Started w w' [] := ⟨htrace, nofun⟩

theorem Started.congr {u : World Db} {started : List Event} (h : Started w w' started)
    (htrace : u.trace = w'.trace) : Started w u started := ⟨htrace.trans h.1, h.2⟩

section Install

variable {env : InstallEnv} {target : Target}

/-- An app that fails leaves a failure. -/
theorem appsCode_failed {code code' : ResultCode}
    (hcode : code = .kInstallFailed ∨ code = .kDownloadFailed)
    (h : appsCode env apps code = .ok code') : code' ≠ .kOk := by
  rcases appsCode_cases h with rfl | rfl | rfl
  · rcases hcode with h | h <;> rw [h] <;> decide
  · decide
  · decide

/-- If the result is a success, all apps were started. -/
theorem started_startApps {justInstall : Bool} :
    wp (startApps env justInstall apps res)
      (fun res' w' => ∃ started, Started w w' started ∧
        (justInstall = false → res'.code = .kOk → ∀ app ∈ apps, .appStarted app ∈ started))
      (fun _ w' => ∃ started, Started w w' started) w := by
  induction apps generalizing res w with
  | nil => exact ⟨[], .refl rfl, fun _ _ _ ha => absurd ha List.not_mem_nil⟩
  | cons app rest ih =>
    rw [startApps, wp_bind, wp_emit, wp_bind, wp_orThrow]
    cases env.start app with
    | error e => exact ⟨[], .refl rfl⟩
    | ok result =>
      cases result with
      | ok =>
        cases justInstall with
        | true =>
          refine wp_mono ih (fun res' w' h => ?_) (fun _ w' h => h)
          obtain ⟨started, hs, _⟩ := h
          exact ⟨started, hs, fun hj => Bool.noConfusion hj⟩
        | false =>
          have hcons : ∀ w' started,
              Started { w.emitted [.run app] with trace := .appStarted app :: w.trace } w' started →
              Started w w' (started ++ [.appStarted app]) := by
            rintro w' started ⟨htrace, honly⟩
            refine ⟨by rw [htrace, List.append_assoc]; rfl, fun e he => ?_⟩
            rcases List.mem_append.mp he with he | he
            · exact honly e he
            · exact ⟨app, List.mem_singleton.mp he⟩
          simp only [Bool.not_false, if_true, wp_bind, wp_record]
          refine wp_mono ih (fun res' w' h => ?_) (fun _ w' h => ?_)
          · obtain ⟨started, hs, hall⟩ := h
            refine ⟨_, hcons w' started hs, fun _ hok a ha => List.mem_append.mpr ?_⟩
            rcases List.mem_cons.mp ha with rfl | ha
            · exact .inr List.mem_cons_self
            · exact .inl (hall rfl hok a ha)
          · obtain ⟨started, hs⟩ := h
            exact ⟨_, hcons w' started hs⟩
      | failed err =>
        refine wp_mono (wp_and ih wp_startApps) (fun res' w' h => ?_) (fun _ w' h => h.1)
        obtain ⟨⟨started, hs, _⟩, hcode, _⟩ := h
        exact ⟨started, hs, fun _ hok => absurd hok (appsCode_failed (.inl rfl) hcode)⟩
      | imagePullFailure err =>
        refine wp_mono (wp_and ih wp_startApps) (fun res' w' h => ?_) (fun _ w' h => h.1)
        obtain ⟨⟨started, hs, _⟩, hcode, _⟩ := h
        exact ⟨started, hs, fun _ hok => absurd hok (appsCode_failed (.inr rfl) hcode)⟩

/-- Apps were started, and all of these if the code is a success. -/
def RunsApps (apps : List App) (w w' : World Db) (code : ResultCode) : Prop :=
  ∃ started, Started w w' started ∧ (code = .kOk → ∀ app ∈ apps, .appStarted app ∈ started)

theorem RunsApps.failed {code : ResultCode} (h : RunsApps apps w w' code) :
    RunsApps apps w w' .kInstallFailed := by
  obtain ⟨started, hs, _⟩ := h
  exact ⟨started, hs, nofun⟩

theorem RunsApps.congr {u : World Db} {code : ResultCode} (h : RunsApps apps w w' code)
    (htrace : u.trace = w'.trace) : RunsApps apps w u code := by
  obtain ⟨started, hs, hall⟩ := h
  exact ⟨started, hs.congr htrace, hall⟩

theorem runsApps_failed (apps : List App) (htrace : w'.trace = w.trace) :
    RunsApps apps w w' .kInstallFailed := ⟨[], .refl htrace, nofun⟩

theorem runsApps_withRunningApps {u : World Db} (h : RunsApps apps u w res.code) :
    wp (withRunningApps env res) (fun res' w' => RunsApps apps u w' res'.code)
      (fun _ w' => RunsApps apps u w' .kInstallFailed) w := by
  refine wp_mono wp_withRunningApps (fun res' w' hw => ?_) (fun _ w' hw => ?_)
  · obtain ⟨hcode, _, rfl⟩ := hw
    rw [hcode]
    exact h
  · obtain ⟨_, rfl⟩ := hw
    exact h.failed

theorem runsApps_installApps :
    wp (installApps cfg env res) (fun r w' => RunsApps w.appsToFetchAndUpdate w w' r.1.code)
      (fun _ w' => RunsApps w.appsToFetchAndUpdate w w' .kInstallFailed) w := by
  unfold installApps
  dsimp only
  rw [wp_ite]
  split
  · rw [wp_bind, wp_get, wp_bind]
    refine wp_mono (wp_and started_startApps wp_startApps) (fun res' w' h => ?_) (fun _ w' h => ?_)
    · obtain ⟨⟨started, hs, hall⟩, hcode, _⟩ := h
      -- A success at the end was one at the beginning, so that the apps were started.
      refine ⟨started, hs, fun hok => hall ?_ hok⟩
      rcases appsCode_cases hcode with h | h | h
      · have hres : res.code = .kOk := h.symm.trans hok
        rw [hres]
        rfl
      · rw [hok] at h
        cases h
      · rw [hok] at h
        cases h
    · obtain ⟨⟨started, hs⟩, _⟩ := h
      exact ⟨started, hs, nofun⟩
  · next hreboot =>
    refine ⟨[], .refl rfl, fun hok => ?_⟩
    have hres : res.code = .kOk := hok
    rw [hres] at hreboot
    exact absurd rfl hreboot

theorem runsApps_finishInstall :
    wp (finishInstall styled cfg env target res)
      (fun res' w' => RunsApps w.appsToFetchAndUpdate w w' res'.code)
      (fun _ w' => RunsApps w.appsToFetchAndUpdate w w' .kInstallFailed) w := by
  rw [finishInstall, wp_bind]
  refine wp_mono runsApps_installApps (fun r u hu => ?_) (fun _ _ h => h)
  obtain ⟨res', pruneImages⟩ := r
  have hend : ∀ u' : World Db, u'.trace = u.trace →
      wp (do
        modify fun w : World Db => { w with appsToFetchAndUpdate := [], appsToFetch := [] }
        withRunningApps env res')
      (fun res' w' => RunsApps w.appsToFetchAndUpdate w w' res'.code)
      (fun _ w' => RunsApps w.appsToFetchAndUpdate w w' .kInstallFailed) u' := by
    intro u' htrace
    rw [wp_bind, wp_modify]
    exact runsApps_withRunningApps (hu.congr htrace)
  dsimp only
  split
  · simp only [wp_bind]
    refine wp_handleRemovedApps (fun _ => ?_) (fun _ _ => hu.failed.congr rfl)
    cases pruneImages with
    | false => exact hend _ rfl
    | true =>
      simp only [if_true, wp_bind, wp_orThrow]
      cases getRequiredApps styled cfg target.custom with
      | error e => exact hu.failed.congr rfl
      | ok required => exact hend _ rfl
  · exact hend u rfl

theorem runsApps_composeInstall :
    wp (composeInstall St styled cfg env target)
      (fun res w' => RunsApps w.appsToFetchAndUpdate w w' res.code)
      (fun _ w' => RunsApps w.appsToFetchAndUpdate w w' .kInstallFailed) w := by
  have hthrow : ∀ es, RunsApps w.appsToFetchAndUpdate w (w.emitted es) .kInstallFailed :=
    fun _ => runsApps_failed _ rfl
  have hrootfs : ∀ (x : RootfsM InstallationResult) (es : List Effect),
      wp (do
        let res ← onRootfs x
        if res.code = .kInstallFailed then withRunningApps env res
        else finishInstall styled cfg env target res)
      (fun res w' => RunsApps w.appsToFetchAndUpdate w w' res.code)
      (fun _ w' => RunsApps w.appsToFetchAndUpdate w w' .kInstallFailed) (w.emitted es) := by
    intro x es
    rw [wp_bind, wp_onRootfs]
    refine wp_of_run (fun res r _ => ?_) (fun _ r _ => runsApps_failed _ rfl)
    rw [wp_ite]
    split
    · next hfailed =>
      refine runsApps_withRunningApps ?_
      rw [hfailed]
      exact runsApps_failed _ rfl
    · exact runsApps_finishInstall (w := { w.emitted es with rootfs := r })
  rw [composeInstall, wp_bind, wp_orThrow]
  cases removedApps cfg env.appsRoot target.custom with
  | error e => exact hthrow []
  | ok removed =>
    dsimp only
    rw [wp_bind]
    refine wp_stopApps (fun _ => ?_) (fun _ _ _ _ => hthrow _)
    rw [wp_bind, wp_get]
    split
    · rw [wp_bind, wp_get, wp_bind]
      refine wp_stopApps (fun _ => ?_) (fun _ _ _ _ => ?_)
      · rw [wp_bind, wp_emit, World.emitted_emitted, World.emitted_emitted]
        exact hrootfs _ _
      · rw [World.emitted_emitted]
        exact hthrow _
    · rw [wp_bind, wp_emit, World.emitted_emitted]
      exact hrootfs _ _

/-- With the compose app manager, a success of an installation of everything has started
the apps of the list. -/
theorem runsApps_installPackage {mode : InstallMode} {E : String → World Db → Prop} :
    wp (installPackage St styled cfg env target mode)
      (fun res w' => ∃ apps,
        (cfg.pacman = .compose → mode = .all → apps = w.appsToFetchAndUpdate) ∧
          RunsApps apps w w' res.code) E w := by
  have hthrow : ∀ w' : World Db, w'.trace = w.trace →
      ∃ apps, (cfg.pacman = .compose → mode = .all → apps = w.appsToFetchAndUpdate) ∧
        RunsApps apps w w' .kInstallFailed :=
    fun w' htrace => ⟨_, fun _ _ => rfl, runsApps_failed _ htrace⟩
  rw [installPackage, wp_tryCatch, wp_bind, wp_orThrow]
  cases toTufTarget target with
  | error e => exact hthrow w rfl
  | ok t =>
    dsimp only
    rw [managerInstall, wp_ite]
    split
    · exact wp_mono runsApps_composeInstall (fun _ _ h => ⟨_, fun _ _ => rfl, h⟩)
        (fun _ _ h => ⟨_, fun _ _ => rfl, h⟩)
    · next hmode =>
      have hnot : cfg.pacman = .compose → mode = .all → False := fun hp hm => hmode ⟨hp, hm⟩
      rw [wp_bind, wp_get]
      dsimp only
      rw [wp_bind, wp_emit, wp_onRootfs]
      refine wp_of_run (fun _ _ _ => ⟨[], fun hp hm => (hnot hp hm).elim, [], .refl rfl, ?_⟩)
        (fun _ _ _ => hthrow _ rfl)
      exact fun _ _ ha => absurd ha List.not_mem_nil

/-- An installation that follows a check of its target accounts for the apps. -/
theorem appsAccounted_of_starts {started : List Event} (h : Accounted cfg w)
    (hchecked : CheckedFor cfg target.custom w) (honly : OnlyStarts started)
    (hlist : apps = w.appsToFetchAndUpdate) (hall : ∀ app ∈ apps, .appStarted app ∈ started) :
    AppsAccounted cfg target (started ++ .installStarted target :: w.trace) := by
  intro targetApps htarget app happ
  obtain ⟨upToDate, hlast⟩ := hchecked targetApps htarget
  rw [sinceInstall_starts honly, beforeInstall_starts honly]
  rcases h.list targetApps upToDate hlast app happ with hupdate | hup
  · exact .inl (hall app (hlist ▸ hupdate))
  · exact .inr ⟨upToDate, lastCheck_mem hlast, hup⟩

theorem accounted_storeResult {cenv : ClientInstallEnv} {mode : InstallMode} (h : Accounted cfg w)
    (haccounted : res.code = .kOk → mode = .all → AppsAccounted cfg target w.trace) :
    wp (storeResult St cenv target mode res) (fun _ w' => Accounted cfg w')
      (fun _ w' => Accounted cfg w') w := by
  unfold storeResult
  cases hcode : res.code with
  | kNeedCompletion =>
    simp only [wp_bind, wp_modify, wp_get]
    split
    · exact h.quiet rfl rfl rfl
    · exact h.congr rfl rfl
  | kOk =>
    dsimp only
    cases hm : mode with
    | ostreeOnly => exact h.quiet rfl rfl rfl
    | all =>
      have hstored : Accounted cfg { w with
          db := St.save target .kCurrent w.db, trace := .stored target .kCurrent :: w.trace } := by
        refine ⟨storesAccounted_cons.mpr ⟨fun t ht => ?_, h.stores⟩, h.list⟩
        cases ht
        exact haccounted hcode hm
      simp only [reduceCtorEq, if_false, wp_bind, wp_saveInstalledVersion, wp_orThrow]
      cases cenv.writeCurrent with
      | error e => exact hstored
      | ok _ => exact hstored
  | kDownloadFailed => exact h
  | _ => exact h.quiet rfl rfl rfl

theorem accounted_clientInstall (hp : cfg.pacman = .compose) {cenv : ClientInstallEnv}
    {mode : InstallMode} (h : Accounted cfg w) (hchecked : CheckedFor cfg target.custom w) :
    wp (clientInstall St styled cfg cenv target mode) (fun _ w' => Accounted cfg w')
      (fun _ w' => Accounted cfg w') w := by
  rw [clientInstall, wp_bind, wp_orThrow]
  cases cenv.notifyStarted with
  | error e => exact h
  | ok _ =>
    dsimp only
    rw [wp_bind, wp_record, wp_bind]
    refine wp_mono (runsApps_installPackage (E := fun _ w' => Accounted cfg w'))
      (fun res v hv => ?_) (fun _ _ h => h)
    obtain ⟨apps, hlist, started, ⟨htrace, honly⟩, hall⟩ := hv
    have hv : Accounted cfg v := by
      refine ⟨?_, ?_⟩
      · rw [htrace]
        exact storesAccounted_starts honly target h.stores
      · rw [htrace, lastCheck_starts honly]
        nofun
    rw [wp_bind]
    refine wp_mono (accounted_storeResult hv fun hok hm => ?_) (fun _ u hu => ?_) (fun _ _ h => h)
    · rw [htrace]
      exact appsAccounted_of_starts h hchecked honly (hlist hp hm) (hall hok)
    · rw [wp_bind]
      exact wp_notifyInstallFinished (fun _ => hu) fun _ => hu.congr rfl rfl

end Install

end Invariant

end Client
end AkLite
