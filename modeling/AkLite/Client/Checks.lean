/-
What an app check changes.

`checkAndSetAppsForUpdate` is the only call of the API that looks at apps.  Here it
is described to its callers once: `CheckEffect` says what a check may change,
whether it returns or throws, and `wp_checkAndSet` is the rule the proofs about
selection, contexts and updates use.
-/
import AkLite.Client.Api

namespace AkLite
namespace Client

open Lib Boot

section Checks

variable {Db : Type} {St : Storage Db} {styled : Json → String} {cfg : Config}
  {env : CheckEnv} {w : World Db} {E : String → World Db → Prop}

theorem wp_record {e : Event} {Q : Unit → World Db → Prop} :
    wp (record e) Q E w = Q () { w with trace := e :: w.trace } := rfl

theorem currentTufTarget_fields {current : TufTarget}
    (h : currentTufTarget St w = .ok current) :
    current.name = (getCurrent St w).filename ∧
      current.sha256Hash = (getCurrent St w).sha256Hash :=
  ⟨(toTufTarget_fields h).1, (toTufTarget_fields h).2.1⟩

theorem wp_emit {e : Effect} {Q : Unit → World Db → Prop} :
    wp (emit e) Q E w = Q () (w.emitted [e]) := rfl

theorem wp_saveInstalledVersion {t : Target} {mode : UpdateMode} {Q : Unit → World Db → Prop} :
    wp (saveInstalledVersion St t mode) Q E w =
      Q () { w with db := St.save t mode w.db, trace := .stored t mode :: w.trace } := rfl

/-- The world with the findings of the first half of a check. -/
def World.checked (w : World Db) (c : AppsCheck) : World Db :=
  { w with
    appsToFetchAndUpdate := c.toUpdate
    trace := .appsChecked c.apps c.upToDate :: w.trace }

theorem wp_checkForAppsToUpdate {target : Target} {Q : AppsSyncReason → World Db → Prop} :
    wp (checkForAppsToUpdate St styled cfg env target) Q E w =
      match compareApps cfg env (getCurrent St w).custom target.custom with
      | .error e => E e w
      | .ok c =>
        match getAppsToFetch styled cfg env c w.appsToFetch target.custom with
        | .error e => E e (w.checked c)
        | .ok apps =>
          Q (c.reasons ++ notFetchedReasons c.reasons apps)
            { w.checked c with appsToFetch := apps } := by
  simp only [checkForAppsToUpdate, wp_bind, wp_get, wp_orThrow, wp_modify, wp_record, wp_pure]
  cases compareApps cfg env (getCurrent St w).custom target.custom with
  | error e => rfl
  | ok c =>
    dsimp only
    cases getAppsToFetch styled cfg env c w.appsToFetch target.custom with
    | error e => rfl
    | ok apps => rfl

/-- The engine's apps after a clean-up.  The apps whose directories the target does not
name are removed before the shortlist for pruning is made, and that can throw. -/
def cleanedApps (styled : Json → String) (cfg : Config) (appsRoot : Option (List String))
    (target : Target) (apps : List App) : List App :=
  match removedApps cfg appsRoot target.custom with
  | .error _ => apps
  | .ok removed =>
    let kept := apps.filter fun a => !removed.contains a.1
    if cfg.dockerPrune && cfg.resetApps.isSome then
      match getRequiredApps styled cfg target.custom with
      | .error _ => kept
      | .ok required => kept.filter fun a => required.contains a
    else kept

/-- The calls of a clean-up. -/
def cleanUpEffects (styled : Json → String) (cfg : Config) (appsRoot : Option (List String))
    (target : Target) : List Effect :=
  match removedApps cfg appsRoot target.custom with
  | .error _ => []
  | .ok removed =>
    let removals := removed.map Effect.remove
    if cfg.dockerPrune && cfg.resetApps.isSome then
      match getRequiredApps styled cfg target.custom with
      | .error _ => removals
      | .ok required => removals ++ [.prune required]
    else removals

/-- The listings that a clean-up needs do not throw. -/
def cleanUpReturns (styled : Json → String) (cfg : Config) (appsRoot : Option (List String))
    (target : Target) : Bool :=
  (removedApps cfg appsRoot target.custom).isOk &&
    (!(cfg.dockerPrune && cfg.resetApps.isSome) ||
      (getRequiredApps styled cfg target.custom).isOk)

/-- The world after a clean-up. -/
def World.cleaned (w : World Db) (styled : Json → String) (cfg : Config)
    (appsRoot : Option (List String)) (target : Target) : World Db :=
  { w.emitted (cleanUpEffects styled cfg appsRoot target) with
    engineApps := cleanedApps styled cfg appsRoot target w.engineApps }

theorem wp_handleRemovedApps {appsRoot : Option (List String)} {target : Target}
    {Q : Unit → World Db → Prop}
    (hQ : cleanUpReturns styled cfg appsRoot target = true →
      Q () (w.cleaned styled cfg appsRoot target))
    (hE : ∀ e, cleanUpReturns styled cfg appsRoot target = false →
      E e (w.cleaned styled cfg appsRoot target)) :
    wp (handleRemovedApps styled cfg appsRoot target) Q E w := by
  simp only [handleRemovedApps, prune, wp_bind, wp_orThrow, wp_modify, wp_emit, wp_ite]
  unfold World.cleaned cleanedApps cleanUpEffects cleanUpReturns at hQ hE
  cases hr : removedApps cfg appsRoot target.custom with
  | error e =>
    simp only [hr] at hE
    exact hE e rfl
  | ok removed =>
    simp only [hr] at hQ hE
    dsimp only
    split
    · next hprune =>
      simp only [if_pos hprune] at hQ hE
      cases hq : getRequiredApps styled cfg target.custom with
      | error e =>
        simp only [hq, hprune] at hE
        exact hE e rfl
      | ok required =>
        simp only [hq, World.emitted, List.reverse_append] at hQ
        exact hQ (by simp [Except.isOk, Except.toBool])
    · next hprune =>
      simp only [if_neg hprune] at hQ
      exact hQ (by simp [Except.isOk, Except.toBool, hprune])

/-- The lists and the trace are those of a comparison. -/
def Compared (St : Storage Db) (cfg : Config) (env : CheckEnv) (target : TufTarget)
    (w w' : World Db) : Prop :=
  ∃ c, compareApps cfg env (getCurrent St w).custom target.custom = .ok c ∧
    w'.appsToFetchAndUpdate = c.toUpdate ∧ w'.trace = .appsChecked c.apps c.upToDate :: w.trace

/-- The reasons a check gives. -/
def foundReasons (St : Storage Db) (styled : Json → String) (cfg : Config) (env : CheckEnv)
    (target : TufTarget) (w : World Db) : Except String AppsSyncReason :=
  match cfg.pacman with
  | .ostree => .ok []
  | .compose => do
    let c ← compareApps cfg env (getCurrent St w).custom target.custom
    let apps ← getAppsToFetch styled cfg env c w.appsToFetch target.custom
    return c.reasons ++ notFetchedReasons c.reasons apps

/-- The clean-up is due and the check finds nothing to do. -/
def cleansUp (St : Storage Db) (styled : Json → String) (cfg : Config) (env : CheckEnv)
    (target : TufTarget) (w : World Db) : Bool :=
  cfg.pacman == .compose && w.cleanupRemovedApps &&
    match foundReasons St styled cfg env target w with
    | .ok apps => apps.isEmpty
    | .error _ => false

/-- The check finds its reasons, and its clean-up, if it is due, does not throw. -/
def checkReturns (St : Storage Db) (styled : Json → String) (cfg : Config) (env : CheckEnv)
    (target : TufTarget) (w : World Db) : Bool :=
  (foundReasons St styled cfg env target w).isOk &&
    (!cleansUp St styled cfg env target w ||
      cleanUpReturns styled cfg env.appsRoot (getCurrent St w))

/-- The calls of a check. -/
def checkEffects (St : Storage Db) (styled : Json → String) (cfg : Config) (env : CheckEnv)
    (target : TufTarget) (w : World Db) : List Effect :=
  if cleansUp St styled cfg env target w then
    cleanUpEffects styled cfg env.appsRoot (getCurrent St w)
  else []

/-- The engine's apps after a check. -/
def checkedApps (St : Storage Db) (styled : Json → String) (cfg : Config) (env : CheckEnv)
    (target : TufTarget) (w : World Db) : List App :=
  if cleansUp St styled cfg env target w then
    cleanedApps styled cfg env.appsRoot (getCurrent St w) w.engineApps
  else w.engineApps

/-- What a check may change.  The lists and the trace are as they were, or they are
those of a comparison. -/
structure CheckEffect (St : Storage Db) (styled : Json → String) (cfg : Config) (env : CheckEnv)
    (target : TufTarget) (w w' : World Db) : Prop where
  db : w'.db = w.db
  rootfs : w'.rootfs = w.rootfs
  contexts : w'.contexts = w.contexts
  noSpace : w'.noSpace = w.noSpace
  lists :
    (w'.appsToFetchAndUpdate = w.appsToFetchAndUpdate ∧ w'.trace = w.trace) ∨
      Compared St cfg env target w w'
  engineApps : w'.engineApps = checkedApps St styled cfg env target w
  effects : w'.effects = (checkEffects St styled cfg env target w).reverse ++ w.effects

/-- A check finds an app to update or to fetch. -/
def appsOutOfSync (St : Storage Db) (styled : Json → String) (cfg : Config) (env : CheckEnv)
    (target : TufTarget) (w : World Db) : Bool :=
  match foundReasons St styled cfg env target w with
  | .ok apps => !apps.isEmpty
  | .error _ => false

theorem foundReasons_compose {target : TufTarget} (hp : cfg.pacman = .compose) :
    foundReasons St styled cfg env target w = (do
      let c ← compareApps cfg env (getCurrent St w).custom target.custom
      let apps ← getAppsToFetch styled cfg env c w.appsToFetch target.custom
      return c.reasons ++ notFetchedReasons c.reasons apps) := by
  rw [foundReasons, hp]

/-- A check that throws has found nothing and cleans nothing up. -/
theorem quiet_of_error {target : TufTarget} {e : String}
    (h : foundReasons St styled cfg env target w = .error e) :
    (appsOutOfSync St styled cfg env target w = false ∧
      checkReturns St styled cfg env target w = false) ∧
      cleansUp St styled cfg env target w = false := by
  simp [appsOutOfSync, checkReturns, cleansUp, h, Except.isOk, Except.toBool]

/-- Without a clean-up the engine is not called. -/
theorem checkEffect_quiet {target : TufTarget} {w' : World Db}
    (h : cleansUp St styled cfg env target w = false) (hdb : w'.db = w.db)
    (hrootfs : w'.rootfs = w.rootfs) (hcontexts : w'.contexts = w.contexts)
    (hspace : w'.noSpace = w.noSpace)
    (hlists : (w'.appsToFetchAndUpdate = w.appsToFetchAndUpdate ∧ w'.trace = w.trace) ∨
      Compared St cfg env target w w')
    (hengine : w'.engineApps = w.engineApps) (heffects : w'.effects = w.effects) :
    CheckEffect St styled cfg env target w w' :=
  ⟨hdb, hrootfs, hcontexts, hspace, hlists, by rw [hengine, checkedApps, h]; rfl,
    by rw [heffects, checkEffects, h]; rfl⟩

/-- The rule for checks.  One that returns has made its comparison, and one that finds
something returns. -/
theorem wp_checkAndSet {target : TufTarget} {reason : String}
    {Q : AppsSyncReason × String → World Db → Prop}
    (hQ : ∀ apps w', CheckEffect St styled cfg env target w w' →
      (cfg.pacman = .compose → Compared St cfg env target w w') →
      foundReasons St styled cfg env target w = .ok apps ∧
        checkReturns St styled cfg env target w = true →
      Q (apps, appendReasons reason apps) w')
    (hE : ∀ e w', CheckEffect St styled cfg env target w w' →
      appsOutOfSync St styled cfg env target w = false ∧
        checkReturns St styled cfg env target w = false → E e w') :
    wp (checkAndSetAppsForUpdate St styled cfg env target reason) Q E w := by
  simp only [checkAndSetAppsForUpdate, wp_bind, wp_get, wp_modify, wp_pure]
  unfold appsToUpdate
  cases hp : cfg.pacman with
  | ostree =>
    have hclean : cleansUp St styled cfg env target w = false := by simp [cleansUp, hp]
    have hfound : foundReasons St styled cfg env target w = .ok [] := by rw [foundReasons, hp]
    refine hQ [] _ (checkEffect_quiet hclean rfl rfl rfl rfl (.inl ⟨rfl, rfl⟩) rfl rfl)
      (fun h => ?_) ⟨hfound, ?_⟩
    · rw [hp] at h
      exact absurd h (by decide)
    · rw [checkReturns, hfound, hclean]
      rfl
  | compose =>
    have hfound := @foundReasons_compose _ St styled cfg env w target hp
    rw [wp_bind, wp_checkForAppsToUpdate]
    change match compareApps cfg env (getCurrent St w).custom target.custom with
      | .error e => _
      | .ok c => _
    cases hc : compareApps cfg env (getCurrent St w).custom target.custom with
    | error e =>
      rw [hc] at hfound
      obtain ⟨hsync, hclean⟩ := quiet_of_error hfound
      exact hE e w (checkEffect_quiet hclean rfl rfl rfl rfl (.inl ⟨rfl, rfl⟩) rfl rfl) hsync
    | ok c =>
      rw [hc] at hfound
      -- What follows the comparison keeps its findings, whichever apps are removed.
      have hcompared : ∀ (v : World Db), v.appsToFetchAndUpdate = c.toUpdate →
          v.trace = .appsChecked c.apps c.upToDate :: w.trace → Compared St cfg env target w v :=
        fun _ hlist htrace => ⟨c, hc, hlist, htrace⟩
      have hkept : ∀ (toFetch : List App) (cleanup : Bool),
          cleansUp St styled cfg env target w = false →
          CheckEffect St styled cfg env target w { w.checked c with
            appsToFetch := toFetch, cleanupRemovedApps := cleanup } :=
        fun _ _ hclean =>
          checkEffect_quiet hclean rfl rfl rfl rfl (.inr (hcompared _ rfl rfl)) rfl rfl
      change match getAppsToFetch styled cfg env c w.appsToFetch target.custom with
        | .error e => _
        | .ok apps => _
      cases hf : getAppsToFetch styled cfg env c w.appsToFetch target.custom with
      | error e =>
        simp only [hf, bind, Except.bind] at hfound
        obtain ⟨hsync, hclean⟩ := quiet_of_error hfound
        exact hE e _ (hkept w.appsToFetch w.cleanupRemovedApps hclean) hsync
      | ok apps =>
        simp only [hf, bind, Except.bind, pure, Except.pure] at hfound
        have hclean : cleansUp St styled cfg env target w =
            (w.cleanupRemovedApps && (c.reasons ++ notFetchedReasons c.reasons apps).isEmpty) := by
          simp [cleansUp, hp, hfound]
        dsimp only
        rw [wp_ite, ← hclean]
        split
        · next hdue =>
          have heffect : ∀ cleanup : Bool, CheckEffect St styled cfg env target w
              { World.cleaned { w.checked c with appsToFetch := apps } styled cfg env.appsRoot
                (getCurrent St w) with cleanupRemovedApps := cleanup } :=
            fun _ => ⟨rfl, rfl, rfl, rfl, .inr (hcompared _ rfl rfl),
              by rw [checkedApps, if_pos hdue]; rfl, by rw [checkEffects, if_pos hdue]; rfl⟩
          have hreturns : checkReturns St styled cfg env target w =
              cleanUpReturns styled cfg env.appsRoot (getCurrent St w) := by
            rw [checkReturns, hfound, hdue]
            rfl
          have hsync : appsOutOfSync St styled cfg env target w = false := by
            rw [hclean, Bool.and_eq_true] at hdue
            simp only [appsOutOfSync, hfound, hdue.2, Bool.not_true]
          rw [wp_bind, wp_get, wp_bind]
          exact wp_handleRemovedApps
            (fun h => hQ _ _ (heffect false) (fun _ => hcompared _ rfl rfl)
              ⟨hfound, hreturns.trans h⟩)
            (fun e h => hE e _ (heffect w.cleanupRemovedApps) ⟨hsync, hreturns.trans h⟩)
        · next hdue =>
          have hclean' : cleansUp St styled cfg env target w = false := by simpa using hdue
          refine hQ _ _ (hkept apps false hclean') (fun _ => hcompared _ rfl rfl) ⟨hfound, ?_⟩
          rw [checkReturns, hfound, hclean']
          rfl

theorem wp_notifyInstallFinished {sent : Except String Unit} {target : Target} {code : ResultCode}
    {Q : Unit → World Db → Prop} (hE : ∀ e, E e w)
    (hQ : ∀ reports, Q () { w with reports := reports }) :
    wp (notifyInstallFinished sent target code) Q E w := by
  rw [notifyInstallFinished, wp_bind, wp_orThrow]
  cases sent with
  | error e => exact hE e
  | ok _ =>
    dsimp only
    rw [wp_ite]
    split
    · exact hQ _
    · exact hQ w.reports

/-- The world after the end of a selection has been notified. -/
def notified (cfg : Config) (err : String) (w : World Db) : World Db :=
  if cfg.invokePostCbAtCheckin then w else { w with trace := .tufUpdateFinished err :: w.trace }

theorem wp_notified {α : Type} {err : String} {r : α} {Q : α → World Db → Prop}
    (h : Q r (notified cfg err w)) :
    wp (do notifyTufUpdateFinished cfg err; return r) Q E w := by
  unfold notified at h
  rw [wp_bind, notifyTufUpdateFinished, wp_ite]
  split
  · next hpost => rwa [if_pos hpost] at h
  · next hpost => rwa [if_neg hpost] at h

/-- The rule for the selection of a target: what it returns for each decision, in the world
that the check leaves. -/
theorem getTargetToInstall_rule {ci : CheckInResult} {args : SelectArgs}
    {Q : SelectResult → World Db → Prop}
    (herror : ∀ e, planTarget St ci args w = .error e → E e w)
    (hdone : ∀ result err, planTarget St ci args w = .ok (.done result err) →
      Q result (notified cfg err w))
    (hupdate : ∀ candidate current rollbackOperation,
      planTarget St ci args w = .ok (.update candidate current rollbackOperation) →
      ∀ v, CheckEffect St styled cfg env candidate w v →
        (∀ e, checkReturns St styled cfg env candidate w = false → E e v) ∧
        ∀ reason, Q { status := if rollbackOperation then .updateRollback else .updateNewVersion
                      selected := candidate, reason := reason } (notified cfg "" v))
    (hsync : ∀ candidate current, planTarget St ci args w = .ok (.sync candidate current) →
      ∀ v, CheckEffect St styled cfg env current w v →
        (∀ e, appsOutOfSync St styled cfg env current w = false →
          checkReturns St styled cfg env current w = false → E e v) ∧
        (∀ e, syncTarget ci current = .error e → E e v) ∧
        (∀ selected reason, checkReturns St styled cfg env current w = true →
          (args.forceAppsSync = true ∨ appsOutOfSync St styled cfg env current w = true) →
          syncTarget ci current = .ok selected →
          Q { status := .updateSyncApps, selected := selected, reason := reason }
            (notified cfg "" v)) ∧
        ∀ reason,
          ¬ (args.forceAppsSync = true ∨ appsOutOfSync St styled cfg env current w = true) →
          Q { status := if args.offlineMode then .targetAlreadyInstalled else .noUpdate
              selected := .unknown, reason := reason } (notified cfg "" v)) :
    wp (getTargetToInstall St styled cfg ci args env) Q E w := by
  rw [getTargetToInstall, wp_bind, wp_get, wp_bind, wp_orThrow]
  cases hplan : planTarget St ci args w with
  | error e => exact herror e hplan
  | ok plan =>
    cases plan with
    | done result err => exact wp_notified (hdone result err hplan)
    | update candidate current rollbackOperation =>
      have hcase := hupdate candidate current rollbackOperation hplan
      dsimp only
      rw [wp_bind]
      exact wp_checkAndSet (fun apps v hv _ _ => wp_notified ((hcase v hv).2 _))
        (fun e v hv h => (hcase v hv).1 e h.2)
    | sync candidate current =>
      have hcase := hsync candidate current hplan
      dsimp only
      rw [wp_bind]
      refine wp_checkAndSet (fun apps v hv _ hfound => ?_)
        (fun e v hv h => (hcase v hv).1 e h.1 h.2)
      obtain ⟨_, hthrows, hsyncs, hquiet⟩ := hcase v hv
      have hout : appsOutOfSync St styled cfg env current w = !apps.isEmpty := by
        rw [appsOutOfSync, hfound.1]
      rw [hout] at hsyncs hquiet
      dsimp only
      rw [wp_ite]
      split
      · next hnow =>
        rw [Bool.or_eq_true] at hnow
        rw [wp_bind, wp_orThrow]
        cases htarget : syncTarget ci current with
        | error e => exact hthrows e htarget
        | ok selected => exact wp_notified (hsyncs selected _ hfound.2 hnow htarget)
      · next hnow =>
        rw [Bool.or_eq_true] at hnow
        exact wp_notified (hquiet _ hnow)

/-- What checks and notifications keep is kept by the selection of a target. -/
theorem getTargetToInstall_keeps {ci : CheckInResult} {args : SelectArgs} {I : World Db → Prop}
    (hw : I w) (hcheck : ∀ target w', CheckEffect St styled cfg env target w w' → I w')
    (hnotify : ∀ v err, I v → I { v with trace := .tufUpdateFinished err :: v.trace }) :
    wp (getTargetToInstall St styled cfg ci args env) (fun _ => I) (fun _ => I) w := by
  have hend : ∀ v err, I v → I (notified cfg err v) := by
    intro v err hv
    unfold notified
    split
    · exact hv
    · exact hnotify v err hv
  refine getTargetToInstall_rule (fun _ _ => hw) (fun _ err _ => hend w err hw)
    (fun _ _ _ _ v hv => ?_) fun _ _ _ v hv => ?_
  · have hafter := hcheck _ v hv
    exact ⟨fun _ _ => hafter, fun _ => hend v "" hafter⟩
  · have hafter := hcheck _ v hv
    exact ⟨fun _ _ _ => hafter, fun _ _ => hafter, fun _ _ _ _ _ => hend v "" hafter,
      fun _ _ => hend v "" hafter⟩

end Checks

end Client
end AkLite
