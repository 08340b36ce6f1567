/-
Apps that are enabled between an installation and its finalization.

The device reboots between the two, and the configuration may change.  The installation
notes the apps it fetched in the custom data of the target, and the finalization starts
an app only if the note has it with the same URI.  An installation that is made for no
app leaves no note, and a target without one has all its apps started, whether they were
fetched or not.  In `newly_enabled_app_fails_target` the installation is made with an
empty list of apps, an app is enabled, and its failure fails the finalization.

`finalize_ignores_others_iff` says for which targets and configurations the finalization
starts only apps of the installation and does not depend on any other.
-/
import AkLite.Client.Calls
import AkLite.Client.Finalize
import AkLite.Client.Vouching

namespace AkLite
namespace Client

open Lib Boot

section Property

variable {Db : Type} (St : Storage Db) (styled : Json → String) (cfg : Config)

/-- The installation of the context stores this target as the pending one. -/
def StoresPending (context : Context) (env : ContextInstallEnv) (w : World Db) (target : Target) :
    Prop :=
  ∃ events, (after (contextInstall St styled cfg context env) w).trace = events ++ w.trace ∧
    .stored target .kPending ∈ events

/-- The device has booted the new rootfs, these apps start, and nothing else fails. -/
structure FinalizesWell (env : FinalizeEnv) (apps : List App) : Prop where
  ostree : ∃ description, env.ostree = .ok { code := .kOk, description := description }
  stop : ∀ app, env.engine.stop app = .ok ()
  start : ∀ app ∈ apps, env.engine.start app = .ok .ok
  runningInfo : ∃ info, env.engine.runningInfo = .ok info

def FinalizeEnv.withStart (env : FinalizeEnv) (start : App → Except String AppResult) :
    FinalizeEnv := { env with engine := { env.engine with start := start } }

/-- The finalization starts enabled apps of the list only, does not depend on how an app
outside the list would start, and is a success if the apps of the list start. -/
structure IgnoresOthers (env : FinalizeEnv) (target : Target) (apps : List App) (w : World Db) :
    Prop where
  runs : ∃ calls, (after (composeFinalizeInstall styled cfg env target) w).effects =
      calls ++ w.effects ∧ ∀ app, .run app ∈ calls →
    app ∈ apps ∧ ∃ enabled, getApps cfg target.custom = .ok enabled ∧ app ∈ enabled
  indifferent : ∀ start, (∀ app ∈ apps, start app = env.engine.start app) →
    composeFinalizeInstall styled cfg (env.withStart start) target w =
      composeFinalizeInstall styled cfg env target w
  succeeds : FinalizesWell env apps →
    ∃ res w', composeFinalizeInstall styled cfg env target w = .ok res w' ∧ res.code = .kOk

/-- No enabled app counts as installed, and if images are pruned, the apps to keep can be
listed. -/
structure SkipsAll (custom : Json) : Prop where
  skips : ∀ note enabled, custom.index "install-context" = .ok note →
    getApps cfg custom = .ok enabled → ∀ app ∈ enabled, installedBefore note app = .ok false
  shortlist : cfg.dockerPrune = true → ∃ kept, getRequiredApps styled cfg custom = .ok kept

/-- The apps that the finalization does not leave out are in the list. -/
def StartsWithin (apps : List App) (custom : Json) : Prop :=
  ∃ note enabled, custom.index "install-context" = .ok note ∧ getApps cfg custom = .ok enabled ∧
    (∀ app ∈ enabled, ∃ before, installedBefore note app = .ok before ∧
      (before = true → app ∈ apps)) ∧
    (cfg.dockerPrune = true → ∃ kept, getRequiredApps styled cfg custom = .ok kept)

end Property

section Proofs

variable {Db : Type} {St : Storage Db} {styled : Json → String} {cfg : Config}
  {context : Context} {target : Target} {apps : List App} {w : World Db}

/-! ## What the installation leaves -/

def storesOnly (target : Target) : Frame (World Db) :=
  .adds World.trace fun e => ∀ t mode, e = .stored t mode → t = target

theorem storesOnly_storeResult {env : ClientInstallEnv} {mode : InstallMode}
    {res : InstallationResult} :
    Within (storesOnly target) (storeResult St env target mode res) := by
  have hsave : ∀ m, Within (storesOnly target) (saveInstalledVersion St target m) := by
    intro m w
    rw [wp_saveInstalledVersion]
    refine ⟨[.stored target m], rfl, fun e he t m' heq => ?_⟩
    rw [List.mem_singleton.mp he] at heq
    cases heq
    rfl
  exact within_storeResult_of hsave (fun w _ => (storesOnly target).refl w) _ _ _

theorem storesOnly_clientInstall {env : ClientInstallEnv} {mode : InstallMode} :
    Within (storesOnly target) (clientInstall St styled cfg env target mode) := by
  refine .bind (.orThrow _) fun _ => .bind ?_ fun _ => .bind ?_ fun res =>
    .bind storesOnly_storeResult fun _ => .bind (.bind (.orThrow _) fun _ =>
      .ite (.modify (storesOnly target).refl) (.pure _)) fun _ => .pure _
  · exact .modify fun w => ⟨[.installStarted target], rfl, by simp⟩
  · intro w
    refine wp_mono (runsApps_installPackage (E := fun _ w' => (storesOnly target).rel w w'))
      (fun _ w' h => ?_) (fun _ _ h => h)
    obtain ⟨_, _, started, ⟨htrace, honly⟩, _⟩ := h
    refine ⟨started, htrace, fun e he t m heq => ?_⟩
    obtain ⟨app, rfl⟩ := honly e he
    cases heq

/-- A target that the installation stores is the context's target with the note. -/
theorem installTarget_of_storesPending {env : ContextInstallEnv}
    (h : StoresPending St styled cfg context env w target) :
    (∃ all, targetApps styled context.target.custom = .ok all) ∧
      installTarget styled cfg context = .ok target := by
  obtain ⟨events, htrace, hstored⟩ := h
  have hnew : ∀ later, events ++ w.trace = later ++ w.trace → .stored target .kPending ∈ later :=
    fun later heq => List.append_cancel_right heq ▸ hstored
  rw [← htrace] at hnew
  refine after_of_wp (P := fun w' : World Db =>
    (∀ later, w'.trace = later ++ w.trace → .stored target .kPending ∈ later) → _) ?_ hnew
  refine contextInstall_rule (fun _ _ _ h => ?_) (fun t all hall hin => ?_) (fun _ _ h => ?_)
  · exact absurd (h [] rfl) List.not_mem_nil
  · have hsame : ∀ w' : World Db, (storesOnly t).rel w w' →
        (∀ later, w'.trace = later ++ w.trace → .stored target .kPending ∈ later) →
        (∃ all, targetApps styled context.target.custom = .ok all) ∧
          installTarget styled cfg context = .ok target := by
      rintro w' ⟨es, hes, honly⟩ h
      rw [honly _ (h es hes) target .kPending rfl]
      exact ⟨⟨all, hall⟩, hin.2⟩
    exact wp_mono (storesOnly_clientInstall w) (fun _ w' h => hsame w' h) (fun _ w' h => hsame w' h)
  · exact absurd (h [] rfl) List.not_mem_nil

/-! ## The note -/

/-- The note of an installation names its apps with their URIs. -/
theorem installedBefore_note {note : Json}
    (h : note.find "apps" = .ok (some (.obj (apps.map fun a => (a.1, .str a.2))))) (app : App) :
    ∃ before, installedBefore note app = .ok before ∧ (before = true → app ∈ apps) := by
  have hempty : note.isEmpty = false := by
    cases note with
    | obj fields =>
      cases fields with
      | nil => cases h
      | cons _ _ => rfl
    | _ => cases h
  have hfind : (Json.obj (apps.map fun a => (a.1, .str a.2))).find app.1 =
      .ok ((apps.map fun a => (a.1, .str a.2)).lookup app.1) := rfl
  simp only [installedBefore, hempty, Json.isMember_of_find h, Json.index_of_find h,
    Option.getD_some, Json.isMember_of_find hfind, Json.index_of_find hfind, bind, Except.bind]
  cases hlookup : (apps.map fun a => (a.1, Json.str a.2)).lookup app.1 with
  | none => exact ⟨false, rfl, nofun⟩
  | some uri =>
    refine ⟨uri == .str app.2, rfl, fun heq => ?_⟩
    obtain ⟨front, back, hsplit, _⟩ := List.lookup_eq_some_iff.mp hlookup
    have hmem : (app.1, uri) ∈ apps.map fun a => (a.1, Json.str a.2) := by
      rw [hsplit]
      exact List.mem_append_right _ List.mem_cons_self
    obtain ⟨a, ha, hpair⟩ := List.mem_map.mp hmem
    obtain ⟨hname, huri⟩ := Prod.mk.inj hpair
    rw [← huri, beq_iff_eq, Json.str.injEq] at heq
    rwa [← Prod.ext hname heq]

theorem note_withInstallContext {custom custom' : Json} (happs : apps ≠ [])
    (h : withInstallContext custom apps = .ok custom') :
    ∃ note, custom'.index "install-context" = .ok note ∧
      note.find "apps" = .ok (some (.obj (apps.map fun a => (a.1, .str a.2)))) := by
  have hcons : apps.isEmpty = false := by simpa using happs
  rw [withInstallContext, hcons] at h
  obtain ⟨⟨touched, before⟩, _, h⟩ := bind_eq_ok.mp h
  obtain ⟨note, hnote, h⟩ := bind_eq_ok.mp h
  refine ⟨note, ?_, Json.find_insert_self hnote⟩
  exact Json.index_of_find (Json.find_insert_self h)

/-! ## The listings of the finalization -/

theorem targetApps_congr {custom custom' : Json} (h : appsJson custom' = appsJson custom) :
    targetApps styled custom' = targetApps styled custom := by
  rw [targetApps, targetApps, h]

/-- The apps of a target that was logged can be listed. -/
theorem getApps_returns {custom : Json} {all : List App}
    (hall : targetApps styled custom = .ok all) : ∃ enabled, getApps cfg custom = .ok enabled := by
  obtain ⟨json, hjson, hall⟩ := bind_eq_ok.mp hall
  have hstep : ∀ apps, ∀ entry ∈ json.entries, ∃ apps', addApp cfg apps entry = .ok apps' := by
    intro apps entry hentry
    obtain ⟨app, happ⟩ := mapM_eq_ok hall entry hentry
    obtain ⟨name, data⟩ := entry
    unfold appDesc at happ
    unfold addApp
    cases data with
    | obj fields =>
      dsimp only at happ ⊢
      cases huri : fields.lookup "uri" with
      | none => exact ⟨apps, rfl⟩
      | some uri =>
        rw [huri] at happ
        obtain ⟨text, htext, _⟩ := bind_eq_ok.mp happ
        exact ⟨_, bind_eq_ok.mpr ⟨text, htext, rfl⟩⟩
    | _ => exact ⟨apps, rfl⟩
  obtain ⟨enabled, henabled⟩ := foldlM_returns hstep []
  exact ⟨enabled, bind_eq_ok.mpr ⟨json, hjson, henabled⟩⟩

/-- The apps to keep can be listed too, if the member of the apps is an object. -/
theorem getRequiredApps_returns {custom : Json} {all : List App} {fields : List (String × Json)}
    (hall : targetApps styled custom = .ok all) (hjson : appsJson custom = .ok (.obj fields)) :
    ∃ kept, getRequiredApps styled cfg custom = .ok kept := by
  obtain ⟨json, hjson', hall⟩ := bind_eq_ok.mp hall
  obtain rfl : json = .obj fields := Except.ok.inj (hjson'.symm.trans hjson)
  obtain ⟨kept, hkept, _⟩ := mem_getRequiredApps (.inl hjson) fun e he _ => mapM_eq_ok hall e he
  exact ⟨kept, hkept⟩

/-- It is one if an app is required. -/
theorem appsJson_of_required {custom : Json} (happs : apps ≠ [])
    (h : getRequiredApps styled cfg custom = .ok apps) :
    ∃ fields, appsJson custom = .ok (.obj fields) := by
  obtain ⟨json, hjson, h⟩ := bind_eq_ok.mp h
  obtain ⟨names, _, hfold⟩ := bind_eq_ok.mp h
  have hobj : apps ≠ [] → ∃ fields, json = .obj fields := by
    refine foldlM_keeps (P := fun apps => apps ≠ [] → ∃ fields, json = .obj fields)
      (fun b name b' _ hadd hb hb' => ?_) hfold (fun h => absurd rfl h)
    cases json with
    | obj fields => exact ⟨fields, rfl⟩
    | null =>
      cases hadd
      exact hb hb'
    | _ => cases hadd
  obtain ⟨fields, rfl⟩ := hobj happs
  exact ⟨fields, hjson⟩

/-! ## What the finalization starts -/

def runsOnly (P : App → Prop) : Frame (World Db) :=
  .adds World.effects fun e => ∀ app, e = .run app → P app

section Runs

variable {P : App → Prop}

theorem runsOnly_emit {e : Effect} (h : ∀ app, e = .run app → P app) :
    Within (runsOnly P) (emit e : M Db Unit) :=
  .modify fun _ => ⟨[e], rfl, by simpa using h⟩

theorem runsOnly_stopApps (env : InstallEnv) (stopped : List App) :
    Within (runsOnly P) (stopApps env stopped : M Db Unit) := by
  induction stopped with
  | nil => exact .pure _
  | cons app rest ih => exact .bind (runsOnly_emit nofun) fun _ => .bind (.orThrow _) fun _ => ih

theorem runsOnly_prune (shortlist : List App) :
    Within (runsOnly P) (prune shortlist : M Db Unit) :=
  .bind (runsOnly_emit nofun) fun _ => .modify fun w => (runsOnly P).refl w

theorem runsOnly_handleRemovedApps (appsRoot : Option (List String)) :
    Within (runsOnly P) (handleRemovedApps styled cfg appsRoot target : M Db Unit) := by
  refine .bind (.orThrow _) fun removed => .bind (.modify fun w => ?_) fun _ => ?_
  · refine ⟨(removed.map Effect.remove).reverse, rfl, fun e he app heq => ?_⟩
    obtain ⟨name, _, rfl⟩ := List.mem_map.mp (List.mem_reverse.mp he)
    cases heq
  · exact .ite (.bind (.orThrow _) fun _ => runsOnly_prune _) (.pure _)

/-- The loop runs the apps of the note. -/
theorem runsOnly_startEnabled (env : InstallEnv) {note : Json} {enabled : List App} (msg : String)
    (h : ∀ app ∈ enabled, installedBefore note app = .ok true → P app) :
    Within (runsOnly P) (startEnabled env note enabled msg : M Db _) := by
  induction enabled generalizing msg with
  | nil => exact .pure _
  | cons app rest ih =>
    have ih := fun msg => ih msg fun a ha => h a (List.mem_cons_of_mem _ ha)
    refine .orThrow_bind fun before hbefore => ?_
    cases before with
    | false => exact ih _
    | true =>
      refine .bind (runsOnly_emit fun a ha => ?_) fun _ => .bind (.orThrow _) fun result => ?_
      · cases ha
        exact h app List.mem_cons_self hbefore
      · cases result with
        | ok => exact .bind (.modify fun w => (runsOnly P).refl w) fun _ => ih msg
        | failed err => exact .pure _
        | imagePullFailure err => exact .pure _

theorem runsOnly_finishFinalize (env : InstallEnv) (description : String)
    (started : Option (ResultCode × String) × String) :
    Within (runsOnly P) (finishFinalize styled cfg env target description started : M Db _) := by
  obtain ⟨failure, newly⟩ := started
  cases failure with
  | some f => exact within_withRunningApps _ _
  | none =>
    refine .bind (runsOnly_handleRemovedApps _) fun _ => .ite ?_ (within_withRunningApps _ _)
    refine .bind (.orThrow _) fun kept => .bind (runsOnly_prune kept) fun _ => ?_
    exact within_withRunningApps _ _

theorem runsOnly_finalize (env : FinalizeEnv)
    (h : ∀ note enabled, target.custom.index "install-context" = .ok note →
      getApps cfg target.custom = .ok enabled →
      ∀ app ∈ enabled, installedBefore note app = .ok true → P app) :
    Within (runsOnly P) (composeFinalizeInstall styled cfg env target : M Db _) := by
  refine .bind (.orThrow _) fun ir => .ite ?_ (.ite (.pure _) (within_withRunningApps _ _))
  refine .bind (.orThrow _) fun removed => .bind (runsOnly_stopApps _ _) fun _ => ?_
  refine .orThrow_bind fun note hnote => .orThrow_bind fun enabled henabled => ?_
  exact .bind (runsOnly_startEnabled _ _ (h note enabled hnote henabled)) fun started =>
    runsOnly_finishFinalize _ _ _

end Runs

/-! ## What the finalization depends on -/

theorem stopApps_withStart (env : InstallEnv) (start : App → Except String AppResult)
    (stopped : List App) :
    (stopApps { env with start := start } stopped : M Db Unit) = stopApps env stopped := by
  induction stopped with
  | nil => rfl
  | cons app rest ih => simp only [stopApps, ih]

theorem startEnabled_withStart (env : InstallEnv) {start : App → Except String AppResult}
    {note : Json} {enabled : List App} (msg : String)
    (h : ∀ app ∈ enabled, installedBefore note app = .ok true → start app = env.start app) :
    (startEnabled { env with start := start } note enabled msg : M Db _) =
      startEnabled env note enabled msg := by
  induction enabled generalizing msg with
  | nil => rfl
  | cons app rest ih =>
    have ih := fun msg => ih msg fun a ha => h a (List.mem_cons_of_mem _ ha)
    simp only [startEnabled, ih]
    refine orThrow_bind_congr fun before hbefore => ?_
    cases before with
    | false => rfl
    | true => rw [h app List.mem_cons_self hbefore]

theorem composeFinalizeInstall_withStart (env : FinalizeEnv)
    {start : App → Except String AppResult}
    (h : ∀ note enabled, target.custom.index "install-context" = .ok note →
      getApps cfg target.custom = .ok enabled → ∀ app ∈ enabled,
        installedBefore note app = .ok true → start app = env.engine.start app) :
    (composeFinalizeInstall styled cfg (env.withStart start) target : M Db _) =
      composeFinalizeInstall styled cfg env target := by
  have happs : ∀ description, (finalizeApps styled cfg { env.engine with start := start } target
      description : M Db _) = finalizeApps styled cfg env.engine target description := by
    intro description
    refine orThrow_bind_congr fun removed _ => ?_
    rw [stopApps_withStart]
    refine congrArg (stopApps env.engine _ >>= ·) (funext fun _ => ?_)
    refine orThrow_bind_congr fun note hnote => orThrow_bind_congr fun enabled henabled => ?_
    rw [startEnabled_withStart env.engine "" (h note enabled hnote henabled)]
    rfl
  refine orThrow_bind_congr fun ir _ => ?_
  rw [FinalizeEnv.withStart]
  simp only [happs]
  rfl

/-! ## A success -/

theorem wp_startEnabled_all {env : InstallEnv} {note : Json} {enabled : List App} {msg : String}
    (h : ∀ app ∈ enabled, ∃ before, installedBefore note app = .ok before ∧
      (before = true → env.start app = .ok .ok)) :
    wp (startEnabled env note enabled msg) (fun r _ => r.1 = none) (fun _ _ => False) w := by
  induction enabled generalizing msg w with
  | nil => rfl
  | cons app rest ih =>
    obtain ⟨before, hbefore, hstart⟩ := h app List.mem_cons_self
    have hrest := fun a ha => h a (List.mem_cons_of_mem _ ha)
    rw [startEnabled, wp_bind, wp_orThrow, hbefore]
    cases before with
    | false => exact ih hrest
    | true =>
      simp only [Bool.not_true, Bool.false_eq_true, if_false, wp_bind, wp_emit, wp_orThrow,
        hstart rfl, wp_record]
      exact ih hrest

theorem cleanUpReturns_of_startsWithin (h : StartsWithin styled cfg apps target.custom)
    (appsRoot : Option (List String)) : cleanUpReturns styled cfg appsRoot target = true := by
  obtain ⟨_, enabled, _, henabled, _, hshortlist⟩ := h
  have hremoved : (removedApps cfg appsRoot target.custom).isOk = true := by
    cases appsRoot with
    | none => rfl
    | some dirs =>
      rw [removedApps, henabled]
      rfl
  rw [cleanUpReturns, hremoved, Bool.true_and]
  cases hprune : cfg.dockerPrune with
  | false => rfl
  | true =>
    obtain ⟨kept, hkept⟩ := hshortlist hprune
    rw [hkept]
    exact Bool.or_true _

theorem wp_finalize_succeeds {env : FinalizeEnv} (h : StartsWithin styled cfg apps target.custom)
    (hwell : FinalizesWell env apps) :
    wp (composeFinalizeInstall styled cfg env target) (fun res _ => res.code = .kOk)
      (fun _ _ => False) w := by
  obtain ⟨description, hostree⟩ := hwell.ostree
  obtain ⟨info, hinfo⟩ := hwell.runningInfo
  have hclean := cleanUpReturns_of_startsWithin h
  obtain ⟨note, enabled, hnote, henabled, hbefore, hshortlist⟩ := h
  have hend : ∀ (res : InstallationResult) (v : World Db), res.code = .kOk →
      wp (withRunningApps env.engine res) (fun res _ => res.code = .kOk) (fun _ _ => False) v := by
    intro res v hres
    rw [withRunningApps, wp_bind, wp_orThrow, hinfo]
    exact hres
  have hremoved := hclean env.engine.appsRoot
  rw [cleanUpReturns, Bool.and_eq_true] at hremoved
  rw [composeFinalizeInstall, wp_bind, wp_orThrow, hostree]
  dsimp only
  rw [if_pos rfl, finalizeApps, wp_bind, wp_orThrow]
  cases hr : removedApps cfg env.engine.appsRoot target.custom with
  | error e =>
    rw [hr] at hremoved
    cases hremoved.1
  | ok removed =>
    dsimp only
    rw [wp_bind]
    refine wp_stopApps (fun _ => ?_) (fun _ _ _ h => h fun app _ => hwell.stop app)
    simp only [wp_bind, wp_orThrow, hnote, henabled]
    refine wp_mono (wp_startEnabled_all fun app happ => ?_) (fun r v hr => ?_) (fun _ _ h => h)
    · obtain ⟨before, hb, hmem⟩ := hbefore app happ
      exact ⟨before, hb, fun hb => hwell.start app (hmem hb)⟩
    · obtain ⟨failure, newly⟩ := r
      obtain rfl : failure = none := hr
      rw [finishFinalize, wp_bind]
      refine wp_handleRemovedApps (fun _ => ?_) (fun _ h => ?_)
      · cases hprune : cfg.dockerPrune with
        | false => exact hend _ _ rfl
        | true =>
          obtain ⟨kept, hkept⟩ := hshortlist hprune
          simp only [if_true, wp_bind, wp_orThrow, hkept, prune, wp_emit, wp_modify]
          exact hend _ _ rfl
      · rw [hclean] at h
        cases h

theorem ignoresOthers_of_startsWithin (h : StartsWithin styled cfg apps target.custom)
    (env : FinalizeEnv) : IgnoresOthers styled cfg env target apps w := by
  have hwithin : ∀ note enabled, target.custom.index "install-context" = .ok note →
      getApps cfg target.custom = .ok enabled →
      ∀ app ∈ enabled, installedBefore note app = .ok true → app ∈ apps := by
    intro note enabled hnote henabled app happ hbefore
    obtain ⟨note', enabled', hnote', henabled', hb, _⟩ := h
    cases hnote.symm.trans hnote'
    cases henabled.symm.trans henabled'
    obtain ⟨before, heq, hmem⟩ := hb app happ
    exact hmem (Except.ok.inj (heq.symm.trans hbefore))
  refine ⟨?_, fun start hstart => ?_, fun hwell => ?_⟩
  · have hruns : Within (runsOnly fun app => app ∈ apps ∧
        ∃ enabled, getApps cfg target.custom = .ok enabled ∧ app ∈ enabled)
        (composeFinalizeInstall styled cfg env target : M Db _) :=
      runsOnly_finalize env fun note enabled hnote henabled app happ hbefore =>
        ⟨hwithin note enabled hnote henabled app happ hbefore, enabled, henabled, happ⟩
    obtain ⟨calls, hcalls, honly⟩ := after_of_wp (hruns w)
    exact ⟨calls, hcalls, fun app happ => honly _ happ app rfl⟩
  · rw [composeFinalizeInstall_withStart env fun note enabled hnote henabled app happ hbefore =>
      hstart app (hwithin note enabled hnote henabled app happ hbefore)]
  · exact wp_false_iff.mp (wp_finalize_succeeds h hwell)

/-! ## An installation for no app -/

/-- A call of `run` is added to the effects. -/
def AddsRun (w w' : World Db) : Prop :=
  ∃ calls app, w'.effects = calls ++ w.effects ∧ .run app ∈ calls

theorem AddsRun.grow {v w' : World Db} (h : AddsRun w v)
    (hrel : (runsOnly fun _ => True).rel v w') : AddsRun w w' := by
  obtain ⟨calls, app, heffects, hrun⟩ := h
  obtain ⟨more, hmore, _⟩ := hrel
  refine ⟨more ++ calls, app, ?_, List.mem_append_right _ hrun⟩
  rw [hmore, heffects, List.append_assoc]

theorem wp_startEnabled_skips {env : InstallEnv} {note : Json} {enabled : List App}
    {msg : String} :
    wp (startEnabled env note enabled msg)
      (fun r w' => AddsRun w w' ∨
        r.1 = none ∧ ∀ app ∈ enabled, installedBefore note app = .ok false)
      (fun _ _ => True) w := by
  induction enabled generalizing msg with
  | nil => exact .inr ⟨rfl, nofun⟩
  | cons app rest ih =>
    rw [startEnabled, wp_bind, wp_orThrow]
    cases hbefore : installedBefore note app with
    | error e => trivial
    | ok before =>
      cases before with
      | false =>
        refine wp_mono ih (fun r w' h => h.imp_right fun h => ?_) (fun _ _ h => h)
        exact ⟨h.1, List.forall_mem_cons.mpr ⟨hbefore, h.2⟩⟩
      | true =>
        have hrun : AddsRun w (w.emitted [.run app]) :=
          ⟨[.run app], app, rfl, List.mem_cons_self⟩
        simp only [Bool.not_true, Bool.false_eq_true, if_false, wp_bind, wp_emit, wp_orThrow]
        cases env.start app with
        | error e => trivial
        | ok result =>
          cases result with
          | ok =>
            simp only [wp_bind, wp_record]
            refine wp_mono (runsOnly_startEnabled (P := fun _ => True) env msg
              (fun _ _ _ => trivial) _) (fun r w' h => .inl ?_) (fun _ _ _ => trivial)
            exact hrun.grow h
          | failed err => exact .inl hrun
          | imagePullFailure err => exact .inl hrun

theorem wp_finishFinalize_shortlist {env : InstallEnv} {description newly : String} :
    wp (finishFinalize styled cfg env target description (none, newly))
      (fun _ _ => cfg.dockerPrune = true →
        ∃ kept, getRequiredApps styled cfg target.custom = .ok kept)
      (fun _ _ => True) w := by
  rw [finishFinalize, wp_bind]
  refine wp_handleRemovedApps (fun _ => ?_) (fun _ _ => trivial)
  cases hprune : cfg.dockerPrune with
  | false => exact wp_of_run (fun _ _ _ => nofun) (fun _ _ _ => trivial)
  | true =>
    simp only [if_true, wp_bind, wp_orThrow]
    cases getRequiredApps styled cfg target.custom with
    | error e => trivial
    | ok kept =>
      simp only [prune, wp_bind, wp_emit, wp_modify]
      exact wp_of_run (fun _ _ _ _ => ⟨kept, rfl⟩) (fun _ _ _ => trivial)

/-- A finalization that runs no app has left them all out. -/
theorem wp_finalize_skips :
    wp (composeFinalizeInstall styled cfg .succeeds target)
      (fun _ w' => AddsRun w w' ∨ SkipsAll styled cfg target.custom) (fun _ _ => True) w := by
  -- There is nothing to stop, so the finalization begins with the note.
  change wp (do
    let context ← orThrow (target.custom.index "install-context")
    let apps ← orThrow (getApps cfg target.custom)
    finishFinalize styled cfg .succeeds target "" (← startEnabled .succeeds context apps ""))
    _ _ w
  rw [wp_bind, wp_orThrow]
  cases hnote : target.custom.index "install-context" with
  | error e => trivial
  | ok note =>
    dsimp only
    rw [wp_bind, wp_orThrow]
    cases henabled : getApps cfg target.custom with
    | error e => trivial
    | ok enabled =>
      dsimp only
      rw [wp_bind]
      refine wp_mono wp_startEnabled_skips (fun r v hv => ?_) (fun _ _ _ => trivial)
      rcases hv with hrun | ⟨hnone, hskips⟩
      · exact wp_mono (runsOnly_finishFinalize (P := fun _ => True) _ _ r v)
          (fun _ w' h => .inl (hrun.grow h)) (fun _ _ _ => trivial)
      · obtain ⟨failure, newly⟩ := r
        obtain rfl : failure = none := hnone
        refine wp_mono wp_finishFinalize_shortlist (fun _ w' h => .inr ⟨?_, h⟩) (fun _ _ h => h)
        intro note' enabled' hnote' henabled'
        cases hnote.symm.trans hnote'
        cases henabled.symm.trans henabled'
        exact hskips

/-- An installation for no app is finalized without others only if none counts. -/
theorem skipsAll_of_ignoresOthers (h : ∀ env, IgnoresOthers styled cfg env target [] w) :
    SkipsAll styled cfg target.custom := by
  obtain ⟨⟨calls, hcalls, hruns⟩, _, hsucceeds⟩ := h .succeeds
  obtain ⟨res, w', hrun, _⟩ :=
    hsucceeds ⟨⟨"", rfl⟩, fun _ => rfl, nofun, ⟨"", rfl⟩⟩
  rcases wp_ok wp_finalize_skips hrun with ⟨calls', app, hcalls', happ⟩ | hskips
  · have hafter : (after (composeFinalizeInstall styled cfg .succeeds target) w).effects =
        w'.effects := by rw [after, hrun]
    rw [hafter, hcalls'] at hcalls
    rw [List.append_cancel_right hcalls] at happ
    exact absurd (hruns app happ).1 List.not_mem_nil
  · exact hskips

/-- What the finalization is given after an installation. -/
theorem startsWithin_iff {cfg₁ : Config} {env : ContextInstallEnv} {w₀ : World Db}
    (hstored : StoresPending St styled cfg₁ context env w₀ target)
    (hrequired : getRequiredApps styled cfg₁ context.target.custom = .ok apps) :
    StartsWithin styled cfg apps target.custom ↔
      (apps = [] → SkipsAll styled cfg target.custom) := by
  obtain ⟨⟨all, hall⟩, htarget⟩ := installTarget_of_storesPending hstored
  obtain ⟨required, hrequired', htarget⟩ := bind_eq_ok.mp htarget
  obtain rfl : apps = required := Except.ok.inj (hrequired.symm.trans hrequired')
  obtain ⟨custom, hcustom, htarget⟩ := bind_eq_ok.mp htarget
  cases htarget
  have hjson : appsJson custom = appsJson context.target.custom :=
    appsJson_withInstallContext hcustom
  rw [← targetApps_congr hjson] at hall
  obtain ⟨enabled, henabled⟩ : ∃ enabled, getApps cfg custom = .ok enabled := getApps_returns hall
  by_cases happs : apps = []
  · subst happs
    obtain ⟨json, happsJson, _⟩ := bind_eq_ok.mp hall
    obtain ⟨note, hnote⟩ := Json.index_returns happsJson "install-context"
    constructor
    · rintro ⟨note', enabled', hnote', henabled', hbefore, hshortlist⟩ _
      refine ⟨fun note enabled hnote henabled app happ => ?_, hshortlist⟩
      cases hnote.symm.trans hnote'
      cases henabled.symm.trans henabled'
      obtain ⟨before, hb, hmem⟩ := hbefore app happ
      cases before with
      | false => exact hb
      | true => exact absurd (hmem rfl) List.not_mem_nil
    · intro h
      obtain ⟨hskips, hshortlist⟩ := h rfl
      exact ⟨note, enabled, hnote, henabled,
        fun app happ => ⟨false, hskips note enabled hnote henabled app happ, nofun⟩, hshortlist⟩
  · obtain ⟨note, hnote, hnoted⟩ := note_withInstallContext happs hcustom
    obtain ⟨fields, hfields⟩ := appsJson_of_required happs hrequired
    refine iff_of_true ⟨note, enabled, hnote, henabled, fun app _ =>
      installedBefore_note hnoted app, fun _ => ?_⟩ (fun h => absurd h happs)
    exact getRequiredApps_returns hall (hjson.trans hfields)

end Proofs

/-- The finalization of an installed target starts only enabled apps that the
installation was made for, depends on no other app, and is a success if these start,
exactly if, in case it was made for no app, no enabled app counts as installed. -/
theorem finalize_ignores_others_iff {Db : Type} (St : Storage Db) (styled : Json → String)
    (cfg₁ cfg₂ : Config) (context : Context) (env₁ : ContextInstallEnv) (w₁ w₂ : World Db)
    (target : Target) (required : List App)
    (hstored : StoresPending St styled cfg₁ context env₁ w₁ target)
    (hrequired : getRequiredApps styled cfg₁ context.target.custom = .ok required) :
    (∀ env₂, IgnoresOthers styled cfg₂ env₂ target required w₂) ↔
      (required = [] → SkipsAll styled cfg₂ target.custom) := by
  rw [← startsWithin_iff hstored hrequired]
  constructor
  · intro h
    refine (startsWithin_iff hstored hrequired).mpr fun hempty => ?_
    subst hempty
    exact skipsAll_of_ignoresOthers h
  · exact fun h env₂ => ignoresOthers_of_startsWithin h env₂

/-- An update with an app that is enabled and one that is not. -/
def twoAppsContext : Context :=
  { target :=
      { nextTarget with
        custom := .obj [("version", .str "2"), ("docker_compose_apps", .obj
          [("web", .obj [("uri", .str "web@2")]), ("log", .obj [("uri", .str "log@2")])])] }
    reason := "", mode := .all, isLocal := false }

def configWith (apps : List String) : Config := { deviceConfig with apps := some apps }

/-- The pending target after an installation for these apps. -/
def pendingFor (apps : List String) : Target :=
  ((installTarget (fun _ => "") (configWith apps) twoAppsContext).toOption).getD unknownTarget

theorem storesPending_pendingFor {apps : List String} (happs : apps = ["web"] ∨ apps = []) :
    StoresPending installedVersions (fun _ => "") (configWith apps) twoAppsContext .succeeds
      factoryDevice (pendingFor apps) := by
  refine ⟨[.stored (pendingFor apps) .kPending, .installStarted (pendingFor apps)], ?_,
    List.mem_cons_self⟩
  rcases happs with rfl | rfl
  · decide +kernel
  · decide +kernel

/-- The log app does not start. -/
def logFails : FinalizeEnv :=
  FinalizeEnv.succeeds.withStart fun app =>
    .ok (if app.1 = "log" then .failed "no image" else .ok)

/-- Both apps are enabled when the installation for one of them is finalized. -/
theorem finalize_ignores_log :
    IgnoresOthers (fun _ => "") (configWith ["web", "log"]) logFails (pendingFor ["web"])
      [("web", "web@2")] factoryDevice :=
  (finalize_ignores_others_iff installedVersions (fun _ => "") (configWith ["web"])
    (configWith ["web", "log"]) twoAppsContext .succeeds factoryDevice factoryDevice
    (pendingFor ["web"]) [("web", "web@2")] (storesPending_pendingFor (.inl rfl)) rfl).mpr nofun
    logFails

/-- The installation is made for no app, and an app that is enabled afterwards is run and
makes the finalization fail. -/
theorem newly_enabled_app_fails_target :
    StoresPending installedVersions (fun _ => "") (configWith []) twoAppsContext .succeeds
        factoryDevice (pendingFor []) ∧
      getRequiredApps (fun _ => "") (configWith []) twoAppsContext.target.custom = .ok [] ∧
      ∃ res w', composeFinalizeInstall (fun _ => "") (configWith ["log"]) logFails (pendingFor [])
          factoryDevice = .ok res w' ∧ res.code = .kCustomError ∧
        w'.effects = [.run ("log", "log@2")] := by
  refine ⟨storesPending_pendingFor (.inr rfl), rfl, ?_⟩
  obtain ⟨res, w', hrun, h⟩ := exists_ok_of_returns
    (x := (composeFinalizeInstall (fun _ => "") (configWith ["log"]) logFails (pendingFor []) :
      M InstalledVersions _)) (s := factoryDevice)
    (p := fun res w' => res.code = .kCustomError && w'.effects = [.run ("log", "log@2")])
    (by decide +kernel)
  simp only [Bool.and_eq_true, decide_eq_true_eq] at h
  exact ⟨res, w', hrun, h⟩

end Client
end AkLite
