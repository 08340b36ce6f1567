/-
What comes before an installation.

A download changes the engine's apps and nothing else, and a verification changes
nothing.  `installer` makes a context for its target, after a check if the caller has
not made one.
-/
import AkLite.Client.Within

namespace AkLite
namespace Client

open Lib Boot

section Frames

variable {Db : Type} {St : Storage Db} {styled : Json → String} {cfg : Config} {w : World Db}

/-- At most the engine's apps, the calls made to it and the note of a download without space
have changed. -/
structure EngineOnly (w w' : World Db) : Prop where
  db : w'.db = w.db
  rootfs : w'.rootfs = w.rootfs
  appsToFetchAndUpdate : w'.appsToFetchAndUpdate = w.appsToFetchAndUpdate
  contexts : w'.contexts = w.contexts
  trace : w'.trace = w.trace

theorem EngineOnly.refl (w : World Db) : EngineOnly w w := ⟨rfl, rfl, rfl, rfl, rfl⟩

/-- A program that changes the engine's apps only, whether it returns or throws. -/
def EngineProgram {α : Type} (x : M Db α) : Prop :=
  ∀ w : World Db, Keeps (EngineOnly w) (fun _ => EngineOnly w) x

def engineFrame : Frame (World Db) where
  rel := EngineOnly
  refl := .refl
  trans h h' := ⟨h'.db.trans h.db, h'.rootfs.trans h.rootfs,
    h'.appsToFetchAndUpdate.trans h.appsToFetchAndUpdate, h'.contexts.trans h.contexts,
    h'.trace.trans h.trace⟩

theorem downloadFrame_engine : DownloadFrame (engineFrame : Frame (World Db)) where
  emitted _ _ := ⟨rfl, rfl, rfl, rfl, rfl⟩
  engineApps _ _ := ⟨rfl, rfl, rfl, rfl, rfl⟩

theorem EngineProgram.of_within {α : Type} {x : M Db α} (h : Within engineFrame x) :
    EngineProgram x := fun _ s hs =>
  wp_mono (h s) (fun _ _ ht => engineFrame.trans hs ht) (fun _ _ ht => engineFrame.trans hs ht)

theorem EngineProgram.run {α : Type} {x : M Db α} (hx : EngineProgram x) {a : α} {w' : World Db}
    (h : x w = .ok a w') : EngineOnly w w' :=
  wp_ok (Q := fun _ v => EngineOnly w v) (hx w w (.refl w)) h

/-! ## Downloads -/

/-- The result of a verification of these apps. -/
def verifyStatus (cfg : Config) (env : VerifyEnv) (apps : List App) :
    Except String TargetStatus := do
  let status ← env.ostree
  if status ≠ .kGood ∨ cfg.pacman = .ostree then return status
  verifyApps env status apps

theorem wp_verifyTarget {env : VerifyEnv} {Q : TargetStatus → World Db → Prop}
    {E : String → World Db → Prop} :
    wp (verifyTarget cfg env) Q E w =
      match verifyStatus cfg env (allAppsToFetch w) with
      | .ok status => Q status w
      | .error e => E e w := by
  unfold verifyStatus
  rw [verifyTarget, wp_bind, wp_orThrow]
  cases env.ostree with
  | error e => rfl
  | ok status =>
    dsimp only
    rw [wp_ite]
    by_cases hdone : status ≠ .kGood ∨ cfg.pacman = .ostree
    · rw [if_pos hdone]
      simp only [bind, Except.bind, if_pos hdone]
      rfl
    · rw [if_neg hdone, wp_bind, wp_get, wp_orThrow]
      simp only [bind, Except.bind, if_neg hdone]
      cases verifyApps env status (allAppsToFetch w) with
      | ok status => rfl
      | error e => rfl

theorem engineProgram_contextDownload (context : Context) (env : ContextDownloadEnv) :
    EngineProgram (contextDownload styled cfg context env : M Db DownloadResult) :=
  .of_within (within_contextDownload downloadFrame_engine context env)

theorem engineProgram_downloadFirst (context : Context) (args : PullArgs) (env : PullEnv) :
    EngineProgram (downloadFirst styled cfg context args env : M Db _) := by
  have hnote : ∀ note, Within engineFrame
      (modify fun w : World Db => { w with noSpace := note } : M Db Unit) :=
    fun _ => .modify fun _ => ⟨rfl, rfl, rfl, rfl, rfl⟩
  refine .of_within (.ite (.pure _) (.bind (within_contextDownload downloadFrame_engine _ _)
    fun res => .ite ?_ (.pure _)))
  exact .ite (.bind (hnote _) fun _ => .pure _) (.pure _)

/-! ## Contexts -/

/-- What making a context may change: the apps are compared for the target, or not at
all. -/
structure InstallerEffect (St : Storage Db) (cfg : Config) (args : InstallerArgs)
    (env : InstallerEnv) (w w' : World Db) : Prop where
  db : w'.db = w.db
  rootfs : w'.rootfs = w.rootfs
  contexts : w'.contexts = w.contexts
  lists :
    (w'.appsToFetchAndUpdate = w.appsToFetchAndUpdate ∧ w'.trace = w.trace) ∨
      ∃ t : TufTarget, t.custom = args.target.custom ∧ Compared St cfg env.check t w w'

/-- The context is one for the target. -/
structure MadeFor (args : InstallerArgs) (context : Context) : Prop where
  hash : context.target.sha256Hash = args.target.sha256Hash
  custom : context.target.custom = args.target.custom
  mode : context.mode = args.mode

variable {args : InstallerArgs} {env : InstallerEnv}

theorem wp_openContext {target : Target} {reason : String} {Q : Option Context → World Db → Prop}
    {E : String → World Db → Prop} (hnone : Q none w)
    (hsome : Q (some ⟨target, reason, args.mode, args.isLocal⟩) w) (hE : ∀ e, E e w) :
    wp (openContext cfg args env target reason) Q E w := by
  unfold openContext
  by_cases hlocal : args.isLocal = true
  · simp only [if_pos hlocal, wp_bind, wp_orThrow]
    cases args.target.custom.isMember localSrcDirKey with
    | error e => exact hE e
    | ok member =>
      cases member with
      | false => exact hnone
      | true =>
        simp only [Bool.not_true, Bool.false_eq_true, if_false, wp_bind, wp_orThrow]
        cases env.openLocal with
        | error e => exact hE e
        | ok _ =>
          dsimp only
          split
          · exact hE _
          · exact hsome
  · simp only [if_neg hlocal]
    exact hsome

theorem wp_installer {Q : Option Context → World Db → Prop} {E : String → World Db → Prop}
    (hnone : ∀ w', InstallerEffect St cfg args env w w' → Q none w')
    (hsome : ∀ context w', MadeFor args context → InstallerEffect St cfg args env w w' →
      (args.areAppsChecked = false → cfg.pacman = .compose →
        ∃ t : TufTarget, t.custom = args.target.custom ∧ Compared St cfg env.check t w w') →
      Q (some context) w')
    (hE : ∀ e w', InstallerEffect St cfg args env w w' → E e w') :
    wp (installer St styled cfg args env) Q E w := by
  have hsame : InstallerEffect St cfg args env w w := ⟨rfl, rfl, rfl, .inl ⟨rfl, rfl⟩⟩
  unfold installer
  by_cases hro : cfg.readOnly = true
  · simp only [if_pos hro]
    exact hE _ w hsame
  simp only [if_neg hro, wp_bind, wp_get, wp_orThrow]
  cases isTrusted St env args.target args.isLocal args.requireInTuf w.db with
  | error e => exact hE e w hsame
  | ok trusted =>
    cases trusted with
    | false => exact hnone w hsame
    | true =>
      simp only [Bool.not_true, Bool.false_eq_true, if_false]
      by_cases hlong :
          (makeCorrelationId env args.target args.correlationId).utf8ByteSize > 63
      · simp only [if_pos hlong]
        exact hE _ w hsame
      simp only [if_neg hlong]
      cases hchecked : args.areAppsChecked with
      | true =>
        refine wp_openContext (hnone w hsame) (hsome _ w ⟨rfl, rfl, rfl⟩ hsame fun h => ?_)
          (fun e => hE e w hsame)
        rw [hchecked] at h
        cases h
      | false =>
        simp only [Bool.false_eq_true, if_false, wp_bind, wp_orThrow]
        split
        · next t ht =>
          have hcustom : t.custom = args.target.custom := (toTufTarget_fields ht).2.2
          have heffect : ∀ w', CheckEffect St styled cfg env.check t w w' →
              InstallerEffect St cfg args env w w' := fun w' hw =>
            ⟨hw.db, hw.rootfs, hw.contexts, hw.lists.imp_right fun h => ⟨t, hcustom, h⟩⟩
          refine wp_checkAndSet (fun apps w' hw hcompared _ => ?_)
            (fun e w' hw _ => hE e w' (heffect w' hw))
          exact wp_openContext (hnone w' (heffect w' hw))
            (hsome _ w' ⟨rfl, rfl, rfl⟩ (heffect w' hw) fun _ hp => ⟨t, hcustom, hcompared hp⟩)
            (fun e => hE e w' (heffect w' hw))
        · exact hE _ w hsame

theorem installer_run {context? : Option Context} {w' : World Db}
    (h : installer St styled cfg args env w = .ok context? w') :
    InstallerEffect St cfg args env w w' ∧
      ∀ context, context? = some context → MadeFor args context := by
  have hwp : wp (installer St styled cfg args env)
      (fun c v => InstallerEffect St cfg args env w v ∧
        ∀ context, c = some context → MadeFor args context) (fun _ _ => True) w :=
    wp_installer (fun _ h => ⟨h, fun _ hc => by cases hc⟩)
      (fun _ _ hmade h _ => ⟨h, fun _ hc => by cases hc; exact hmade⟩) (fun _ _ _ => trivial)
  exact wp_true_iff.mp hwp _ _ h

/-! ## Which calls make a context -/

/-- The update source has the content of the target.  An online source always has it. -/
def SourceOpens (cfg : Config) (args : InstallerArgs) (env : InstallerEnv) : Prop :=
  args.isLocal = true →
    args.target.custom.isMember localSrcDirKey = .ok true ∧ env.openLocal = .ok () ∧
      ¬ (cfg.pacman = .compose ∧ cfg.resetApps.isNone = true)

/-- Nothing stops the call after the target is found to be trusted. -/
def Opens (St : Storage Db) (styled : Json → String) (cfg : Config) (args : InstallerArgs)
    (env : InstallerEnv) (w : World Db) : Prop :=
  (makeCorrelationId env args.target args.correlationId).utf8ByteSize ≤ 63 ∧
    (args.areAppsChecked = true ∨ ∃ t, toTufTarget (fromTufTarget args.target) = .ok t ∧
      checkReturns St styled cfg env.check t w = true) ∧
    SourceOpens cfg args env

theorem wp_openContext_isSome {target : Target} {reason : String} :
    wp (openContext cfg args env target reason)
      (fun context? _ => context?.isSome = true ↔ SourceOpens cfg args env)
      (fun _ _ => ¬ SourceOpens cfg args env) w := by
  unfold openContext SourceOpens
  by_cases hlocal : args.isLocal = true
  · simp only [if_pos hlocal, wp_bind, wp_orThrow]
    cases args.target.custom.isMember localSrcDirKey with
    | error e => simp [hlocal]
    | ok member =>
      cases member with
      | false => simp [hlocal]
      | true =>
        simp only [Bool.not_true, Bool.false_eq_true, if_false, wp_bind, wp_orThrow]
        cases env.openLocal with
        | error e => simp [hlocal]
        | ok _ =>
          by_cases hengine : cfg.pacman = .compose ∧ cfg.resetApps.isNone = true
          · simp [hlocal, hengine]
          · simp only [if_neg hengine, wp_pure, Option.isSome_some, true_iff]
            exact fun _ => ⟨trivial, trivial, hengine⟩
  · simp [hlocal]

/-- A trusted target gets a context exactly if nothing stops the call. -/
theorem wp_installer_isSome :
    wp (installer St styled cfg args env)
      (fun context? _ => context?.isSome = true ↔ cfg.readOnly = false ∧
        isTrusted St env args.target args.isLocal args.requireInTuf w.db = .ok true ∧
          Opens St styled cfg args env w)
      (fun _ _ => ¬ (cfg.readOnly = false ∧
        isTrusted St env args.target args.isLocal args.requireInTuf w.db = .ok true ∧
          Opens St styled cfg args env w)) w := by
  unfold installer
  cases hro : cfg.readOnly with
  | true => simp
  | false =>
    simp only [Bool.false_eq_true, if_false, wp_bind, wp_get, wp_orThrow, true_and]
    cases isTrusted St env args.target args.isLocal args.requireInTuf w.db with
    | error e => simp
    | ok trusted =>
      cases trusted with
      | false => simp
      | true =>
        simp only [Bool.not_true, Bool.false_eq_true, if_false, true_and, Opens]
        by_cases hlong :
            (makeCorrelationId env args.target args.correlationId).utf8ByteSize > 63
        · simp [if_pos hlong, Nat.not_le.mpr hlong]
        simp only [if_neg hlong, Nat.not_lt.mp hlong, true_and]
        cases hchecked : args.areAppsChecked with
        | true =>
          simp only [if_true, true_or, true_and]
          exact wp_openContext_isSome
        | false =>
          have hsame : ∀ c, toTufTarget { fromTufTarget args.target with correlationId := c } =
              toTufTarget (fromTufTarget args.target) := fun _ => rfl
          simp only [Bool.false_eq_true, if_false, false_or, wp_bind, wp_orThrow, hsame]
          cases toTufTarget (fromTufTarget args.target) with
          | error e => simp
          | ok t =>
            simp only [Except.ok.injEq, exists_eq_left']
            refine wp_checkAndSet (fun apps w' _ _ hreturns => ?_)
              (fun e w' _ hthrown => by simp [hthrown.2])
            simp only [hreturns.2, true_and]
            exact wp_openContext_isSome

theorem installer_isSome_iff :
    (∃ context w', installer St styled cfg args env w = .ok (some context) w') ↔
      cfg.readOnly = false ∧
        isTrusted St env args.target args.isLocal args.requireInTuf w.db = .ok true ∧
          Opens St styled cfg args env w := by
  rw [← exists_ok_iff wp_installer_isSome]
  constructor
  · rintro ⟨context, w', h⟩
    exact ⟨some context, w', h, rfl⟩
  · rintro ⟨context?, w', h, hsome⟩
    obtain ⟨context, rfl⟩ := Option.isSome_iff_exists.mp hsome
    exact ⟨context, w', h⟩

/-! ## The installation of a context -/

/-- The target of a context with the list of apps that its installation is made for. -/
def installTarget (styled : Json → String) (cfg : Config) (context : Context) :
    Except String Target := do
  let required ← getRequiredApps styled cfg context.target.custom
  let custom ← withInstallContext context.target.custom required
  return { context.target with custom := custom }

/-- The installation of a context starts: its target is good. -/
def Installs (styled : Json → String) (cfg : Config) (context : Context) (env : ContextInstallEnv)
    (w : World Db) (target : Target) : Prop :=
  verifyStatus cfg env.verify (allAppsToFetch w) = .ok .kGood ∧
    installTarget styled cfg context = .ok target

theorem installTarget_hash {context : Context} {target : Target}
    (h : installTarget styled cfg context = .ok target) :
    target.sha256Hash = context.target.sha256Hash := by
  obtain ⟨required, _, h⟩ := bind_eq_ok.mp h
  obtain ⟨custom, _, h⟩ := bind_eq_ok.mp h
  cases h
  rfl

theorem contextInstall_rule {context : Context} {env : ContextInstallEnv}
    {Q : InstallResult → World Db → Prop} {E : String → World Db → Prop}
    (hbad : ∀ r : InstallResult, (∀ target, ¬ Installs styled cfg context env w target) →
      r.status = .downloadFailed → Q r w)
    (hinstall : ∀ target all, targetApps styled context.target.custom = .ok all →
      Installs styled cfg context env w target →
      wp (clientInstall St styled cfg env.client target context.mode)
        (fun res w' => Q ⟨installStatus St target res.code w', res.description⟩ w') E w)
    (hE : ∀ e, (∀ target all, targetApps styled context.target.custom = .ok all →
      ¬ Installs styled cfg context env w target) → E e w) :
    wp (contextInstall St styled cfg context env) Q E w := by
  rw [contextInstall, logTarget, wp_bind, wp_bind, wp_orThrow]
  cases happs : targetApps styled context.target.custom with
  | error e =>
    refine hE e fun target all h => ?_
    rw [happs] at h
    cases h
  | ok all =>
    dsimp only
    rw [wp_pure, wp_bind, wp_verifyTarget]
    cases hverify : verifyStatus cfg env.verify (allAppsToFetch w) with
    | error e =>
      refine hE e fun target _ _ h => ?_
      rw [Installs, hverify] at h
      cases h.1
    | ok status =>
      dsimp only
      split
      · next hstatus =>
        refine hbad _ (fun target h => hstatus ?_) rfl
        rw [Installs, hverify] at h
        exact Except.ok.inj h.1
      · next hgood =>
        rw [not_not] at hgood
        subst hgood
        rw [wp_bind, wp_orThrow]
        cases hrequired : getRequiredApps styled cfg context.target.custom with
        | error e =>
          refine hE e fun target _ _ h => ?_
          rw [Installs, installTarget, hrequired] at h
          cases h.2
        | ok required =>
          dsimp only
          rw [wp_bind, wp_orThrow]
          cases hcustom : withInstallContext context.target.custom required with
          | error e =>
            refine hE e fun target _ _ h => ?_
            simp only [Installs, installTarget, hrequired, hcustom, bind, Except.bind] at h
            cases h.2
          | ok custom =>
            have htarget : installTarget styled cfg context =
                .ok { context.target with custom := custom } := by
              simp only [installTarget, hrequired, hcustom, bind, Except.bind]
              rfl
            dsimp only
            rw [wp_bind]
            exact hinstall _ all happs ⟨hverify, htarget⟩

end Frames

end Client
end AkLite
