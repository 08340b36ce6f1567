/-
Clients that are built for reading.

A client that is built with `read_only` refuses `installer`, and with it every update,
and does not finalize a pending installation when it starts.  Three ways lead past the
flag.  The first app check of a client removes the apps that do not belong to the current
target, and the selection of a target makes such a check; `checkAppsInSync` hands out a
context that downloads and installs; and `completeInstallation` finalizes a pending
installation.  In `read_only_client_removes_app` it is the check.

`read_only_still_iff` says for which sequences of calls a read-only client leaves the
apps and the rootfs alone.
-/
import AkLite.Client.EnabledLater
import AkLite.Lib.Acting

namespace AkLite
namespace Client

open Lib Boot

/-! ## Calls -/

/-- The public calls of a client object and of the contexts it hands out. -/
inductive ClientCall where
  | update (call : Call)
  | completeInstallation (env : CompleteEnv)
  /-- What it stores is not part of the world. -/
  | setSecondaries
  /-- The check-ins and the calls that answer questions.  What they find is an argument
  of the calls that use it. -/
  | ask

section ReadOnly

variable {Db : Type} (St : Storage Db) (styled : Json → String) (cfg : Config)

def performClient : ClientCall → M Db Unit
  | .update call => perform St styled cfg call
  | .completeInstallation env => do
    let _ ← completeInstallation St styled cfg env
  | .setSecondaries => do
    if cfg.readOnly then throw "Can't perform this operation from read-only mode"
  | .ask => return ()

/-- The state after a sequence of calls, of which some may throw. -/
def clientRun (calls : List ClientCall) (w : World Db) : World Db :=
  calls.foldl (fun w call => after (performClient St styled cfg call) w) w

/-- The engine was asked for nothing but information, and the rootfs manager for
nothing. -/
def Still (w w' : World Db) : Prop := w'.effects = w.effects ∧ w'.rootfs = w.rootfs

/-! ## The calls that reach the engine or the rootfs manager -/

def SelectionActs (ci : CheckInResult) (args : SelectArgs) (env : CheckEnv) (w : World Db) :
    Prop :=
  match planTarget St ci args w with
  | .ok (.update candidate _ _) => checkEffects St styled cfg env candidate w ≠ []
  | .ok (.sync _ current) => checkEffects St styled cfg env current w ≠ []
  | _ => False

def SyncCheckActs (env : CheckEnv) (w : World Db) : Prop :=
  ∃ current, currentTufTarget St w = .ok current ∧ checkEffects St styled cfg env current w ≠ []

/-- One of the tries gets as far as the apps. -/
def triesFetch : List DownloadTry → Bool
  | [] => false
  | env :: rest =>
    match env.ostree with
    | .error _ => false
    | .ok res =>
      match res.status with
      | .ok => true
      | .noSpace => false
      | _ => triesFetch rest

/-- A download that is not local fetches the apps of the lists. -/
structure DownloadActs (context : Context) (env : ContextDownloadEnv) (w : World Db) : Prop where
  logged : ∃ all, targetApps styled context.target.custom = .ok all
  online : context.isLocal = false
  started : env.client.notifyStarted = .ok ()
  version : ∃ t, toTufTarget context.target = .ok t
  pacman : cfg.pacman = .compose
  tries : triesFetch [env.client.first, env.client.second, env.client.third] = true
  apps : allAppsToFetch w ≠ []

/-- An installation of a verified target stops apps or installs the rootfs. -/
def InstallActs (context : Context) (env : ContextInstallEnv) (w : World Db) : Prop :=
  ∃ target all, targetApps styled context.target.custom = .ok all ∧
    Installs styled cfg context env w target ∧ env.client.notifyStarted = .ok () ∧
    (∃ t, toTufTarget target = .ok t) ∧
    (cfg.pacman = .compose ∧ context.mode = .all →
      ∃ removed, removedApps cfg env.client.manager.appsRoot target.custom = .ok removed)

/-- After a boot of the new rootfs apps are stopped, started or pruned. -/
def FinalizeActs (env : FinalizeEnv) (target : Target) : Prop :=
  cfg.pacman = .compose ∧ (∃ description, env.ostree = .ok { code := .kOk, description }) ∧
    ∃ removed, removedApps cfg env.engine.appsRoot target.custom = .ok removed ∧
      (removed ≠ [] ∨ ∃ note enabled, target.custom.index "install-context" = .ok note ∧
        getApps cfg target.custom = .ok enabled ∧
        ((∃ app, firstWhere (installedBefore note) enabled = .ok (some app)) ∨
          firstWhere (installedBefore note) enabled = .ok none ∧ cfg.dockerPrune = true ∧
            ∃ kept, getRequiredApps styled cfg target.custom = .ok kept))

def CompletionActs (env : CompleteEnv) (w : World Db) : Prop :=
  ∃ target, St.pending w.db = some target ∧ env.callback = .ok () ∧
    FinalizeActs styled cfg env.finalize target

/-- A call of a read-only client that is not only a question.  The calls that make an
installer throw. -/
def Acts (w : World Db) : ClientCall → Prop
  | .update (.getTargetToInstall ci args env) => SelectionActs St styled cfg ci args env w
  | .update (.checkAppsInSync env _) => SyncCheckActs St styled cfg env w
  | .update (.download i env) => ∃ context, w.contexts[i]? = some context ∧
    DownloadActs styled cfg context env w
  | .update (.install i env) => ∃ context, w.contexts[i]? = some context ∧
    InstallActs styled cfg context env w
  | .completeInstallation env => CompletionActs St styled cfg env w
  | _ => False

/-- No call of the sequence acts in the state it is made in. -/
def NoneActs : List ClientCall → World Db → Prop
  | [], _ => True
  | call :: rest, w =>
    ¬ Acts St styled cfg w call ∧ NoneActs rest (after (performClient St styled cfg call) w)

end ReadOnly

section Proofs

variable {Db : Type} {St : Storage Db} {styled : Json → String} {cfg : Config} {w : World Db}

/-! ## What is counted -/

def calls (w : World Db) : Nat := w.effects.length

def stillFrame : Frame (World Db) := .same fun w => (w.effects, w.rootfs)

theorem still_of_rel {w' : World Db} (h : stillFrame.rel w w') : Still w w' := Prod.mk.inj h

theorem managerFrame_calls : ManagerFrame (.rises (calls : World Db → Nat)) where
  emitted w es := by
    show w.effects.length ≤ (es.reverse ++ w.effects).length
    rw [List.length_append]
    omega
  engineApps _ _ := Nat.le_refl _
  rootfs _ _ := Nat.le_refl _
  lists _ _ _ := Nat.le_refl _
  record _ _ _ := Nat.le_refl _

theorem storeFrame_calls : StoreFrame St (.rises (calls : World Db → Nat)) where
  save _ _ _ := Nat.le_refl _
  rebootRequired _ _ := Nat.le_refl _
  report _ _ _ := Nat.le_refl _

theorem storeFrame_still : StoreFrame St (stillFrame : Frame (World Db)) where
  save _ _ _ := rfl
  rebootRequired _ _ := rfl
  report _ _ _ := rfl

theorem calls_emitted {es : List Effect} (h : es ≠ []) : calls w < calls (w.emitted es) := by
  show w.effects.length < (es.reverse ++ w.effects).length
  rw [List.length_append, List.length_reverse]
  exact Nat.lt_add_of_pos_left (List.length_pos_iff.mpr h)

theorem not_still_of_calls {w' : World Db} (h : calls w < calls w') : ¬ Still w w' := by
  intro hstill
  rw [calls, calls, hstill.1] at h
  exact Nat.lt_irrefl _ h

/-- A program that calls the engine or the rootfs manager exactly under a condition. -/
abbrev CallsIff (c : Prop) {α : Type} (x : M Db α) (w : World Db) : Prop :=
  ActsIff calls stillFrame c x w

theorem callsIff_emit {α : Type} {c : Prop} {e : Effect} {g : Unit → M Db α} (hc : c)
    (hg : Within (.rises calls) (g ())) : CallsIff c (emit e >>= g) w :=
  .modify_bind_acts hc (calls_emitted (List.cons_ne_nil _ _)) hg

theorem callsIff_logTarget {α : Type} {c : Prop} {target : Target} {g : Unit → M Db α}
    (herr : ∀ e, targetApps styled target.custom = .error e → ¬ c)
    (hok : ∀ all, targetApps styled target.custom = .ok all → CallsIff c (g ()) w) :
    CallsIff c (logTarget styled target >>= g) w := by
  unfold logTarget
  cases happs : targetApps styled target.custom with
  | error e => exact ActsIff.of_within (x := throw e) (herr e happs) (.throw e)
  | ok all => exact hok all happs

/-! ## Checks -/

theorem callsIff_check {α : Type} {env : CheckEnv} {target : TufTarget} {reason : String}
    {g : AppsSyncReason × String → M Db α} (hcalls : ∀ r, Within (.rises calls) (g r))
    (hstill : ∀ r, Within stillFrame (g r)) :
    CallsIff (checkEffects St styled cfg env target w ≠ [])
      (checkAndSetAppsForUpdate St styled cfg env target reason >>= g) w := by
  refine .bind_within ?_ hcalls hstill
  have hcheck : ∀ w', CheckEffect St styled cfg env target w w' →
      (checkEffects St styled cfg env target w ≠ [] → calls w < calls w') ∧
        (¬ checkEffects St styled cfg env target w ≠ [] → stillFrame.rel w w') := by
    intro w' h
    refine ⟨fun hne => ?_, fun hnil => ?_⟩
    · rw [calls, calls, h.effects, List.length_append, List.length_reverse]
      exact Nat.lt_add_of_pos_left (List.length_pos_iff.mpr hne)
    · have heffects := h.effects
      rw [not_not.mp hnil] at heffects
      exact Prod.ext heffects h.rootfs
  exact wp_checkAndSet (fun _ w' h _ _ => hcheck w' h) (fun _ w' h _ => hcheck w' h)

theorem callsIff_getTargetToInstall {ci : CheckInResult} {args : SelectArgs} {env : CheckEnv} :
    CallsIff (SelectionActs St styled cfg ci args env w)
      (getTargetToInstall St styled cfg ci args env) w := by
  have hend : ∀ {F : Frame (World Db)},
      (∀ w err, F.rel w { w with trace := .tufUpdateFinished err :: w.trace }) →
      ∀ err (r : SelectResult), Within F (do notifyTufUpdateFinished cfg err; return r : M Db _) :=
    fun hF err r => .bind (within_notify hF err) fun _ => .pure _
  have hcalls : ∀ err r, Within (.rises calls) _ := hend fun _ _ => Nat.le_refl _
  have hstill : ∀ err r, Within stillFrame _ := hend fun _ _ => rfl
  refine .get_bind (.orThrow_bind (fun e he => ?_) fun plan hplan => ?_)
  · simp [SelectionActs, he]
  · simp only [SelectionActs, hplan]
    cases plan with
    | done result err => exact .of_within not_false (hstill _ _)
    | update candidate current rollbackOperation =>
      exact callsIff_check (fun r => hcalls _ _) (fun r => hstill _ _)
    | sync candidate current =>
      refine callsIff_check (fun r => .ite ?_ (hcalls _ _)) (fun r => .ite ?_ (hstill _ _))
      · exact .bind (.orThrow _) fun _ => hcalls _ _
      · exact .bind (.orThrow _) fun _ => hstill _ _

theorem callsIff_checkAppsInSync {env : CheckEnv} {uuid : String} :
    CallsIff (SyncCheckActs St styled cfg env w)
      (keepContext (checkAppsInSync St styled cfg env uuid)) w := by
  have hkeep : ∀ {F : Frame (World Db)}, (∀ w cs, F.rel w { w with contexts := cs }) →
      ∀ context?, Within F (match context? with
        | some context => modify fun w : World Db => { w with contexts := w.contexts ++ [context] }
        | none => return () : M Db Unit) := by
    intro F hF context?
    cases context? with
    | none => exact .pure _
    | some context => exact .modify fun w => hF w _
  refine .bind_within ?_ (hkeep fun _ _ => Nat.le_refl _) (hkeep fun _ _ => rfl)
  refine .get_bind (.orThrow_bind (fun e he => ?_) fun current hcurrent => ?_)
  · simp [SyncCheckActs, he]
  · have hc : SyncCheckActs St styled cfg env w ↔
        checkEffects St styled cfg env current w ≠ [] := by simp [SyncCheckActs, hcurrent]
    rw [hc]
    exact callsIff_check (fun r => .ite (.pure _) (.pure _)) (fun r => .ite (.pure _) (.pure _))

/-! ## Calls that are refused -/

theorem installer_readOnly (hro : cfg.readOnly = true) (args : InstallerArgs)
    (env : InstallerEnv) : installer St styled cfg args env =
      throw "Can't perform this operation from read-only mode" := by
  rw [installer, if_pos hro]
  rfl

section Refused

variable {F : Frame (World Db)} (hF : StoreFrame St F)
  (hnoSpace : ∀ w note, F.rel w { w with noSpace := note })

include hnoSpace

theorem within_pullAndInstall_readOnly (hro : cfg.readOnly = true) (args : PullArgs)
    (env : PullEnv) : Within F (pullAndInstall St styled cfg args env) := by
  unfold pullAndInstall
  rw [installer_readOnly hro]
  refine .bind .get fun _ => .ite (.pure _) (.bind .get fun _ => .bind (.orThrow _) fun _ => ?_)
  refine .bind .get fun _ => .ite (.bind (.orThrow _) fun _ => .pure _) ?_
  exact .bind (.modify fun w => hnoSpace w _) fun _ => .throw _

include hF

/-- A rollback marks its target before it is refused. -/
theorem within_rollback_readOnly (hro : cfg.readOnly = true) (isLocal : Bool)
    (notifyFailed : Except String Unit) (env : PullEnv) :
    Within F (rollback St styled cfg isLocal notifyFailed env) := by
  have hsave : ∀ t mode, Within F (saveInstalledVersion St t mode) :=
    within_saveInstalledVersion hF
  have hpull : ∀ args, Within F (pullAndInstall St styled cfg args env) :=
    fun args => within_pullAndInstall_readOnly hnoSpace hro args env
  refine .bind .get fun _ => .bind .get fun _ => .bind (.orThrow _) fun _ =>
    .bind (hsave _ _) fun _ => .bind .get fun _ => .bind (.orThrow _) fun _ => .ite (.pure _) ?_
  refine .ite (.bind (hsave _ _) fun _ => .bind ?_ fun _ => hpull _) (hpull _)
  exact within_notifyInstallFinished hF.report _ _ _

end Refused

/-! ## Downloads -/

theorem callsIff_fetchApps {c : Prop} (hc : c) {env : DownloadTry} {apps : List App}
    (happs : apps ≠ []) {msg : String} : CallsIff c (fetchApps env apps msg) w := by
  cases apps with
  | nil => exact absurd rfl happs
  | cons app rest =>
    refine callsIff_emit hc (.bind (.orThrow _) fun result => ?_)
    cases result with
    | ok =>
      refine .bind (.modify fun w => ?_) fun _ =>
        within_fetchApps managerFrame_calls.toDownloadFrame _ _ _
      split
      · exact Nat.le_refl _
      · exact Nat.le_refl _
    | failed err => exact .pure _
    | noSpace err stat => exact .pure _

/-- A try that does not get the commit, or has no app to fetch, changes nothing. -/
theorem composeDownload_still {env : DownloadTry} {res : DownloadResult}
    (hostree : env.ostree = .ok res) (h : res.status ≠ .ok ∨ allAppsToFetch w = []) :
    composeDownload env w = .ok res w := by
  rw [composeDownload, hostree, orThrow_bind rfl]
  by_cases hstatus : res.status ≠ .ok
  · rw [if_pos hstatus]
    rfl
  · have happs := h.resolve_left hstatus
    rw [if_neg hstatus, get_bind, happs]
    rfl

/-- A try that gets the commit goes on with the apps. -/
theorem callsIff_composeDownload {c : Prop} (hc : c) {env : DownloadTry} {res : DownloadResult}
    (hostree : env.ostree = .ok res) (hok : res.status = .ok) (happs : allAppsToFetch w ≠ []) :
    CallsIff c (composeDownload env) w := by
  refine .orThrow_bind (fun e he => ?_) fun res' hres => ?_
  · rw [hostree] at he
    cases he
  · cases hostree.symm.trans hres
    refine .ite (fun h => absurd hok h) fun _ => .get_bind ?_
    exact .bind_acts hc (callsIff_fetchApps hc happs) fun r => .ite (.pure _) (.pure _)

theorem still_downloadTries (hp : cfg.pacman ≠ .compose) (tries : List DownloadTry) :
    Within stillFrame (downloadTries cfg tries : M Db _) := by
  have honce : ∀ env, Within stillFrame (downloadOnce cfg env : M Db _) := by
    intro env
    unfold downloadOnce
    cases hpacman : cfg.pacman with
    | ostree => exact .orThrow _
    | compose => exact absurd hpacman hp
  induction tries with
  | nil => exact .pure _
  | cons env rest ih =>
    cases rest with
    | nil => exact honce env
    | cons env' rest => exact .bind (honce env) fun res => .ite (.pure _) ih

/-- A try and what follows it. -/
theorem callsIff_try {c : Prop} {env : DownloadTry} {g : DownloadResult → M Db DownloadResult}
    (hrises : ∀ res, Within (.rises calls) (g res))
    (hthrown : ∀ e, env.ostree = .error e → ¬ c)
    (hacts : ∀ res, env.ostree = .ok res → res.status = .ok → allAppsToFetch w ≠ [] → c)
    (hstill : ∀ res, env.ostree = .ok res → res.status ≠ .ok ∨ allAppsToFetch w = [] →
      CallsIff c (g res) w) : CallsIff c (composeDownload env >>= g) w := by
  cases hostree : env.ostree with
  | error e =>
    have hthrow : (composeDownload env : M Db _) = throw e := by
      rw [composeDownload, hostree]
      rfl
    rw [hthrow]
    exact ActsIff.of_within (x := throw e) (hthrown e hostree) (.throw e)
  | ok res =>
    by_cases hgot : res.status = .ok ∧ allAppsToFetch w ≠ []
    · have hc := hacts res hostree hgot.1 hgot.2
      exact .bind_acts hc (callsIff_composeDownload hc hostree hgot.1 hgot.2) hrises
    · have hnot : res.status ≠ .ok ∨ allAppsToFetch w = [] := by
        rwa [Decidable.not_and_iff_not_or_not, not_not] at hgot
      exact .bind_of_ok (composeDownload_still hostree hnot) (hstill res hostree hnot)

theorem callsIff_downloadTries (hp : cfg.pacman = .compose) (tries : List DownloadTry) :
    CallsIff (triesFetch tries = true ∧ allAppsToFetch w ≠ []) (downloadTries cfg tries) w := by
  have honce : ∀ env, (downloadOnce cfg env : M Db _) = composeDownload env := by
    intro env
    rw [downloadOnce, hp]
  induction tries with
  | nil => exact .of_within (by simp [triesFetch]) (.pure _)
  | cons env rest ih =>
    have hthrown : ∀ e, env.ostree = .error e →
        ¬ (triesFetch (env :: rest) = true ∧ allAppsToFetch w ≠ []) := by
      intro e he
      simp [triesFetch, he]
    have hacts : ∀ res, env.ostree = .ok res → res.status = .ok → allAppsToFetch w ≠ [] →
        triesFetch (env :: rest) = true ∧ allAppsToFetch w ≠ [] := by
      intro res hres hok happs
      exact ⟨by simp [triesFetch, hres, hok], happs⟩
    cases rest with
    | nil =>
      rw [downloadTries, honce, ← bind_pure (composeDownload env)]
      refine callsIff_try (fun _ => .pure _) hthrown hacts fun res hres hnot => ?_
      refine .of_within ?_ (.pure _)
      cases hstatus : res.status <;> simp_all [triesFetch]
    | cons env' rest =>
      rw [downloadTries, honce]
      · refine callsIff_try (fun _ => .ite (.pure _)
          (within_downloadTries managerFrame_calls.toDownloadFrame _)) hthrown hacts
          fun res hres hnot => .ite (fun hend => ?_) fun hmore => ?_
        · refine .of_within ?_ (.pure _)
          rcases hend with h | h <;> simp_all [triesFetch]
        · have hrest : triesFetch (env :: env' :: rest) = triesFetch (env' :: rest) := by
            cases hstatus : res.status <;> simp_all [triesFetch]
          rw [hrest]
          exact ih
      · simp

/-! ## Contexts -/

theorem callsIff_contextDownload {context : Context} {env : ContextDownloadEnv} :
    CallsIff (DownloadActs styled cfg context env w)
      (contextDownload styled cfg context env) w := by
  refine callsIff_logTarget (fun e he hc => ?_) fun all hall => .ite (fun hlocal => ?_)
    fun honline => ?_
  · obtain ⟨all, hall⟩ := hc.logged
    rw [he] at hall
    cases hall
  · refine .of_within (fun hc => ?_) (.bind (.orThrow _) fun _ => .pure _)
    rw [hc.online] at hlocal
    cases hlocal
  · have hverify : ∀ {F : Frame (World Db)} res, Within F (do
        if res.status ≠ .ok then return res
        if (← verifyTarget cfg env.verify) ≠ .kGood then
          orThrow env.notifyInvalid
          return .of .verificationFailed "Downloaded target is invalid"
        return .of .ok "" : M Db DownloadResult) := by
      intro F res
      refine .ite (.pure _) (.bind (within_verifyTarget _) fun status => .ite ?_ (.pure _))
      exact .bind (.orThrow _) fun _ => .pure _
    refine .bind_within (.orThrow_bind (fun e he hc => ?_) fun _ hstarted =>
      .orThrow_bind (fun e he hc => ?_) fun t ht => ?_) hverify hverify
    · rw [hc.started] at he
      cases he
    · obtain ⟨t, ht⟩ := hc.version
      rw [ht] at he
      cases he
    · refine .bind_within ?_ (fun _ => .bind (.orThrow _) fun _ => .pure _)
        (fun _ => .bind (.orThrow _) fun _ => .pure _)
      by_cases hp : cfg.pacman = .compose
      · have hiff : DownloadActs styled cfg context env w ↔
            triesFetch [env.client.first, env.client.second, env.client.third] = true ∧
              allAppsToFetch w ≠ [] := by
          refine ⟨fun h => ⟨h.tries, h.apps⟩, fun h => ?_⟩
          exact ⟨⟨all, hall⟩, by simpa using honline, hstarted, ⟨t, ht⟩, hp, h.1, h.2⟩
        rw [hiff]
        exact callsIff_downloadTries hp _
      · exact .of_within (fun hc => hp hc.pacman) (still_downloadTries hp _)

/-- An installation stops apps or gets to the rootfs. -/
theorem callsIff_composeInstall {env : InstallEnv} {target : Target} :
    CallsIff (∃ removed, removedApps cfg env.appsRoot target.custom = .ok removed)
      (composeInstall St styled cfg env target) w := by
  refine .orThrow_bind (fun e he => ?_) fun removed hremoved => ?_
  · simp [he]
  · refine .of_acts ⟨removed, hremoved⟩ ?_
    have hinstall : ∀ (es : List Effect) (x : RootfsM InstallationResult),
        wp (do
          emit (.installRootfs target.sha256Hash)
          let res ← onRootfs x
          if res.code = .kInstallFailed then withRunningApps env res
          else finishInstall styled cfg env target res)
        (fun _ w' => calls w < calls w') (fun _ w' => calls w < calls w') (w.emitted es) := by
      intro es x
      have hrest : Within (.rises calls) (do
          let res ← onRootfs x
          if res.code = .kInstallFailed then withRunningApps env res
          else finishInstall styled cfg env target res : M Db InstallationResult) :=
        .bind (within_onRootfs managerFrame_calls.toInstallFrame x) fun _ =>
          .ite (within_withRunningApps _ _)
            (within_finishInstall managerFrame_calls.toInstallFrame _ _ _)
      have hemitted : calls w < calls ((w.emitted es).emitted [.installRootfs target.sha256Hash]) :=
        Nat.lt_of_le_of_lt (managerFrame_calls.emitted w es)
          (calls_emitted (List.cons_ne_nil _ _))
      rw [wp_bind, wp_emit]
      exact wp_mono (hrest _) (fun _ _ h => Nat.lt_of_lt_of_le hemitted h)
        (fun _ _ h => Nat.lt_of_lt_of_le hemitted h)
    rw [wp_bind]
    refine wp_stopApps (fun _ => ?_) (fun _ _ hne _ => calls_emitted hne)
    rw [wp_bind, wp_get]
    dsimp only
    rw [wp_ite]
    split
    · rw [wp_bind, wp_get, wp_bind]
      refine wp_stopApps (fun _ => ?_) (fun _ es hne _ => ?_)
      · rw [World.emitted_emitted]
        exact hinstall _ _
      · exact Nat.lt_of_le_of_lt (managerFrame_calls.emitted w _) (calls_emitted hne)
    · exact hinstall _ _

theorem callsIff_clientInstall {env : ClientInstallEnv} {target : Target} {mode : InstallMode} :
    CallsIff (env.notifyStarted = .ok () ∧ (∃ t, toTufTarget target = .ok t) ∧
        (cfg.pacman = .compose ∧ mode = .all →
          ∃ removed, removedApps cfg env.manager.appsRoot target.custom = .ok removed))
      (clientInstall St styled cfg env target mode) w := by
  refine .orThrow_bind (fun e he => ?_) fun _ hstarted => .modify_bind rfl rfl ?_
  · simp [he]
  refine .bind_within ?_
    (fun res => .bind (within_storeResult storeFrame_calls _ _ _ _) fun _ =>
      .bind (within_notifyInstallFinished (fun _ _ _ => Nat.le_refl _) _ _ _) fun _ => .pure _)
    (fun res => .bind (within_storeResult storeFrame_still _ _ _ _) fun _ =>
      .bind (within_notifyInstallFinished (fun _ _ _ => rfl) _ _ _) fun _ => .pure _)
  refine .tryCatch (.orThrow_bind (fun e he => ?_) fun t ht => ?_) (fun _ => .pure _)
    (fun _ => .pure _)
  · simp [he]
  · have hcustom : (fromTufTarget t).custom = target.custom := (toTufTarget_fields ht).2.2
    refine .ite (fun hall => ?_) fun hother => .get_bind ?_
    · have hiff : (env.notifyStarted = .ok () ∧ (∃ t, toTufTarget target = .ok t) ∧
          (cfg.pacman = .compose ∧ mode = .all →
            ∃ removed, removedApps cfg env.manager.appsRoot target.custom = .ok removed)) ↔
          ∃ removed, removedApps cfg env.manager.appsRoot (fromTufTarget t).custom =
            .ok removed := by
        rw [hcustom]
        exact ⟨fun h => h.2.2 hall, fun h => ⟨hstarted, ⟨t, ht⟩, fun _ => h⟩⟩
      rw [hiff]
      exact callsIff_composeInstall
    · refine callsIff_emit ⟨hstarted, ⟨t, ht⟩, fun h => absurd h hother⟩ ?_
      exact within_onRootfs managerFrame_calls.toInstallFrame _

theorem callsIff_contextInstall {context : Context} {env : ContextInstallEnv} :
    CallsIff (InstallActs styled cfg context env w)
      (contextInstall St styled cfg context env) w := by
  refine contextInstall_rule (fun r hbad _ => ?_) (fun target all hall hin => ?_) (fun e hbad => ?_)
  · refine ⟨fun hc => ?_, fun _ => rfl⟩
    obtain ⟨target, _, _, hin, _⟩ := hc
    exact absurd hin (hbad target)
  · have hiff : InstallActs styled cfg context env w ↔ env.client.notifyStarted = .ok () ∧
        (∃ t, toTufTarget target = .ok t) ∧ (cfg.pacman = .compose ∧ context.mode = .all →
          ∃ removed, removedApps cfg env.client.manager.appsRoot target.custom = .ok removed) := by
      refine ⟨fun h => ?_, fun h => ⟨target, all, hall, hin, h⟩⟩
      obtain ⟨target', _, _, hin', h⟩ := h
      cases Except.ok.inj (hin.2.symm.trans hin'.2)
      exact h
    rw [hiff]
    exact callsIff_clientInstall
  · refine ⟨fun hc => ?_, fun _ => rfl⟩
    obtain ⟨target, all, hall, hin, _⟩ := hc
    exact absurd hin (hbad target all hall)

/-! ## Finalization -/

/-- The loop of the finalization runs the first app that counts as installed, and what
follows a loop without one is given its text only. -/
theorem callsIff_startEnabled {α : Type} {c : Prop} {env : InstallEnv} {note : Json}
    {enabled : List App} {msg : String} {g : Option (ResultCode × String) × String → M Db α}
    (hrises : ∀ started, Within (.rises calls) (g started))
    (hthrown : ∀ e, firstWhere (installedBefore note) enabled = .error e → ¬ c)
    (hacts : ∀ app, firstWhere (installedBefore note) enabled = .ok (some app) → c)
    (hstill : ∀ newly, firstWhere (installedBefore note) enabled = .ok none →
      CallsIff c (g (none, newly)) w) :
    CallsIff c (startEnabled env note enabled msg >>= g) w := by
  induction enabled generalizing msg with
  | nil => exact hstill msg rfl
  | cons app rest ih =>
    rw [startEnabled, bind_assoc]
    refine .orThrow_bind (fun e he => ?_) fun before hbefore => ?_
    · exact hthrown e (by rw [firstWhere, he]; rfl)
    · cases before with
      | false =>
        have hfirst : firstWhere (installedBefore note) (app :: rest) =
            firstWhere (installedBefore note) rest := by
          rw [firstWhere, hbefore]
          rfl
        rw [hfirst] at hthrown hacts hstill
        exact ih hthrown hacts hstill
      | true =>
        have hc : c := hacts app (by rw [firstWhere, hbefore]; rfl)
        refine .bind_acts hc (.ite (fun h => absurd h (by decide)) fun _ => callsIff_emit hc ?_)
          hrises
        refine .bind (.orThrow _) fun result => ?_
        cases result with
        | ok =>
          exact .bind (within_record managerFrame_calls.toFinalizeFrame _ rfl) fun _ =>
            within_startEnabled managerFrame_calls.toFinalizeFrame _ _ _ _
        | failed err => exact .pure _
        | imagePullFailure err => exact .pure _

/-- The end of a finalization that has started no app and removes none. -/
theorem callsIff_finishFinalize {env : InstallEnv} {target : Target} {description newly : String}
    (hremoved : removedApps cfg env.appsRoot target.custom = .ok []) :
    CallsIff (cfg.dockerPrune = true ∧ ∃ kept, getRequiredApps styled cfg target.custom = .ok kept)
      (finishFinalize styled cfg env target description (none, newly)) w := by
  rw [finishFinalize, handleRemovedApps, hremoved]
  cases hdocker : cfg.dockerPrune with
  | false =>
    refine .of_within (by simp) (.bind ?_ fun _ => within_withRunningApps _ _)
    exact .orThrow_bind fun removed h => by
      cases h
      exact .bind (.modify fun _ => rfl) fun _ => .pure _
  | true =>
    -- The apps to keep are listed for a clean-up or for the images, whichever comes first.
    have hprune : ∀ {c : Prop} {v : World Db} {g : Unit → M Db InstallationResult},
        ((∃ kept, getRequiredApps styled cfg target.custom = .ok kept) ↔ c) →
        Within (.rises calls) (g ()) →
        CallsIff c (orThrow (getRequiredApps styled cfg target.custom) >>= fun kept =>
          prune kept >>= g) v := by
      intro c v g hc hg
      refine .orThrow_bind (fun e he => ?_) fun kept hkept => ?_
      · rw [← hc]
        simp [he]
      · have hc : c := hc.mp ⟨kept, hkept⟩
        exact .bind_acts hc (callsIff_emit hc (.modify fun _ => Nat.le_refl _)) fun _ => hg
    simp only [bind_assoc, true_and, Bool.true_and, if_true]
    refine .orThrow_bind (fun _ h => by cases h) fun removed h => ?_
    cases h
    refine .modify_bind rfl rfl ?_
    cases cfg.resetApps.isSome with
    | true =>
      simp only [if_true, bind_assoc]
      refine hprune Iff.rfl (.bind (.orThrow _) fun _ => ?_)
      exact .bind (within_prune managerFrame_calls.toFinalizeFrame _) fun _ =>
        within_withRunningApps _ _
    | false => exact hprune Iff.rfl (within_withRunningApps _ _)

theorem callsIff_finalizeApps {env : InstallEnv} {target : Target} {description : String} :
    CallsIff (∃ removed, removedApps cfg env.appsRoot target.custom = .ok removed ∧
        (removed ≠ [] ∨ ∃ note enabled, target.custom.index "install-context" = .ok note ∧
          getApps cfg target.custom = .ok enabled ∧
          ((∃ app, firstWhere (installedBefore note) enabled = .ok (some app)) ∨
            firstWhere (installedBefore note) enabled = .ok none ∧ cfg.dockerPrune = true ∧
              ∃ kept, getRequiredApps styled cfg target.custom = .ok kept)))
      (finalizeApps styled cfg env target description) w := by
  refine .orThrow_bind (fun e he => ?_) fun removed hremoved => ?_
  · simp [he]
  simp only [hremoved, Except.ok.injEq, exists_eq_left']
  cases removed with
  | cons name rest =>
    refine .bind_acts (.inl (List.cons_ne_nil _ _)) (callsIff_emit (.inl (List.cons_ne_nil _ _)) ?_)
      fun _ => .bind (.orThrow _) fun _ => .bind (.orThrow _) fun _ =>
        .bind (within_startEnabled managerFrame_calls.toFinalizeFrame _ _ _ _) fun _ =>
          within_finishFinalize managerFrame_calls.toFinalizeFrame _ _ _ _
    exact .bind (.orThrow _) fun _ => within_stopApps managerFrame_calls.toFinalizeFrame _ _
  | nil =>
    refine .bind_of_ok rfl (.orThrow_bind (fun e he => ?_) fun note hnote =>
      .orThrow_bind (fun e he => ?_) fun enabled henabled => ?_)
    · simp [he]
    · simp [he]
    have hiff : (([] : List String) ≠ [] ∨ ∃ note enabled,
        target.custom.index "install-context" = .ok note ∧
        getApps cfg target.custom = .ok enabled ∧
          ((∃ app, firstWhere (installedBefore note) enabled = .ok (some app)) ∨
            firstWhere (installedBefore note) enabled = .ok none ∧ cfg.dockerPrune = true ∧
              ∃ kept, getRequiredApps styled cfg target.custom = .ok kept)) ↔
        ((∃ app, firstWhere (installedBefore note) enabled = .ok (some app)) ∨
          firstWhere (installedBefore note) enabled = .ok none ∧ cfg.dockerPrune = true ∧
            ∃ kept, getRequiredApps styled cfg target.custom = .ok kept) := by
      simp [hnote, henabled]
    rw [hiff]
    refine callsIff_startEnabled
      (fun _ => within_finishFinalize managerFrame_calls.toFinalizeFrame _ _ _ _)
      (fun e he => ?_) (fun app happ => .inl ⟨app, happ⟩) (fun newly hnone => ?_)
    · simp [he]
    · simp only [hnone, Except.ok.injEq, reduceCtorEq, exists_false, false_or, true_and]
      exact callsIff_finishFinalize hremoved

theorem callsIff_completeInstallation {env : CompleteEnv} :
    CallsIff (CompletionActs St styled cfg env w) (completeInstallation St styled cfg env) w := by
  refine .bind_within ?_ (fun _ => .bind .get fun _ => .pure _)
    (fun _ => .bind .get fun _ => .pure _)
  refine .get_bind ?_
  cases hpending : St.pending w.db with
  | none =>
    refine .of_within (fun hc => ?_) (.bind (.orThrow _) fun _ => .pure _)
    obtain ⟨target, ht, _⟩ := hc
    rw [hpending] at ht
    cases ht
  | some target =>
    have hiff : CompletionActs St styled cfg env w ↔
        env.callback = .ok () ∧ FinalizeActs styled cfg env.finalize target := by
      simp [CompletionActs, hpending]
    rw [hiff]
    refine .orThrow_bind (fun e he => ?_) fun _ hcallback => ?_
    · simp [he]
    have hcallback : env.callback = .ok () := hcallback
    simp only [hcallback, true_and]
    have hnotify : ∀ {F : Frame (World Db)},
        (∀ w t ok, F.rel w { w with reports := (t, ok) :: w.reports }) →
        ∀ ret : InstallationResult, Within F (do
          orThrow env.writeCurrent
          if ret.code ≠ .kNeedCompletion then
            notifyInstallFinished env.notifyFinished target ret.code
          return ret : M Db _) := fun hF ret =>
      .bind (.orThrow _) fun _ =>
        .ite (.bind (within_notifyInstallFinished hF _ _ _) fun _ => .pure _) (.pure _)
    refine .bind_within ?_ (hnotify fun _ _ _ => Nat.le_refl _) (hnotify fun _ _ _ => rfl)
    have hsave : ∀ {F : Frame (World Db)}, StoreFrame St F → ∀ ret : InstallationResult,
        Within F (do
          if ret.isSuccess then saveInstalledVersion St target .kCurrent
          else if ret.code = .kInstallFailed ∨ ret.code = .kCustomError then
            saveInstalledVersion St target .kNone
          return ret) := fun hF ret =>
      .ite (.bind (within_saveInstalledVersion hF _ _) fun _ => .pure _)
        (.ite (.bind (within_saveInstalledVersion hF _ _) fun _ => .pure _) (.pure _))
    refine .bind_within ?_ (hsave storeFrame_calls) (hsave storeFrame_still)
    unfold managerFinalizeInstall FinalizeActs
    cases hp : cfg.pacman with
    | ostree => exact .of_within (by simp) (.orThrow _)
    | compose =>
      refine .orThrow_bind (fun e he => ?_) fun ir hir => .ite (fun hok => ?_) fun hnot =>
        .of_within ?_ (.ite (.pure _) (within_withRunningApps _ _))
      · simp [he]
      · obtain ⟨code, description⟩ := ir
        obtain rfl : code = .kOk := hok
        simp only [hir, true_and, exists_eq', Except.ok.injEq, InstallationResult.mk.injEq]
        exact callsIff_finalizeApps
      · rintro ⟨_, ⟨description, hostree⟩, _⟩
        rw [hir] at hostree
        cases hostree
        exact hnot rfl

/-! ## Runs -/

theorem callsIff_onContext {α : Type} {i : Nat} {f : Context → M Db α} {c : Context → Prop}
    (hf : ∀ context, CallsIff (c context) (f context) w) :
    CallsIff (∃ context, w.contexts[i]? = some context ∧ c context) (onContext i f) w := by
  refine .get_bind ?_
  cases hcontext : w.contexts[i]? with
  | none => exact .of_within (by simp) (.pure _)
  | some context =>
    simp only [Option.some.injEq, exists_eq_left']
    exact .bind_within (hf context) (fun _ => .pure _) (fun _ => .pure _)

/-- One call of a read-only client. -/
theorem callsIff_performClient (hro : cfg.readOnly = true) (call : ClientCall) :
    CallsIff (Acts St styled cfg w call) (performClient St styled cfg call) w := by
  cases call with
  | update call =>
    cases call with
    | getTargetToInstall ci args env =>
      exact .bind_within callsIff_getTargetToInstall (fun _ => .pure _) (fun _ => .pure _)
    | checkAppsInSync env uuid => exact callsIff_checkAppsInSync
    | installer args env =>
      refine .of_within not_false ?_
      rw [performClient, perform, installer_readOnly hro]
      exact Within.throw _
    | pullAndInstall args env =>
      exact .of_within not_false (.bind
        (within_pullAndInstall_readOnly (fun _ _ => rfl) hro _ _) fun _ => .pure _)
    | rollback isLocal notifyFailed env =>
      exact .of_within not_false (.bind
        (within_rollback_readOnly storeFrame_still (fun _ _ => rfl) hro _ _ _) fun _ => .pure _)
    | download i env => exact callsIff_onContext fun _ => callsIff_contextDownload
    | install i env => exact callsIff_onContext fun _ => callsIff_contextInstall
  | completeInstallation env =>
    exact .bind_within callsIff_completeInstallation (fun _ => .pure _) (fun _ => .pure _)
  | setSecondaries => exact .of_within not_false (.ite (.throw _) (.pure _))
  | ask => exact .of_within not_false (.pure _)

theorem calls_clientRun (hro : cfg.readOnly = true) (run : List ClientCall) :
    calls w ≤ calls (clientRun St styled cfg run w) := by
  induction run generalizing w with
  | nil => exact Nat.le_refl _
  | cons call rest ih =>
    refine Nat.le_trans ?_ ih
    obtain ⟨hacts, hstill⟩ := (callsIff_performClient (w := w) hro call).after
    by_cases hc : Acts St styled cfg w call
    · exact Nat.le_of_lt (hacts hc)
    · exact Nat.le_of_eq (congrArg List.length (still_of_rel (hstill hc)).1.symm)

theorem still_clientRun_iff (hro : cfg.readOnly = true) (run : List ClientCall) :
    Still w (clientRun St styled cfg run w) ↔ NoneActs St styled cfg run w := by
  induction run generalizing w with
  | nil => exact iff_of_true ⟨rfl, rfl⟩ trivial
  | cons call rest ih =>
    obtain ⟨hacts, hstill⟩ := (callsIff_performClient (w := w) hro call).after
    rw [NoneActs, ← ih]
    by_cases hc : Acts St styled cfg w call
    · -- Effects are not taken back.
      refine iff_of_false (not_still_of_calls ?_) fun h => h.1 hc
      exact Nat.lt_of_lt_of_le (hacts hc) (calls_clientRun hro rest)
    · obtain ⟨heffects, hrootfs⟩ := still_of_rel (hstill hc)
      rw [and_iff_right hc]
      unfold Still
      rw [heffects, hrootfs]
      exact Iff.rfl

/-! ## The contexts of a read-only client -/

/-- No context of a local update is handed out. -/
def onlineFrame : Frame (World Db) where
  rel w w' := (∀ context ∈ w.contexts, context.isLocal = false) →
    ∀ context ∈ w'.contexts, context.isLocal = false
  refl _ h := h
  trans h h' hw := h' (h hw)

theorem clientFrame_online : ClientFrame St (onlineFrame : Frame (World Db)) where
  emitted _ _ h := h
  engineApps _ _ h := h
  rootfs _ _ h := h
  lists _ _ _ h := h
  record _ _ _ h := h
  save _ _ _ h := h
  rebootRequired _ _ h := h
  report _ _ _ h := h
  cleanup _ _ h := h

theorem online_checkAppsInSync (env : CheckEnv) (uuid : String) :
    Within onlineFrame (keepContext (checkAppsInSync St styled cfg env uuid)) := by
  simp only [keepContext, checkAppsInSync, bind_assoc]
  refine .bind .get fun _ => .bind (.orThrow _) fun current =>
    .bind (within_checkAndSet (@clientFrame_online _ St).toCheckFrame _ _ _) fun r => ?_
  obtain ⟨apps, reason⟩ := r
  cases apps with
  | nil => exact Within.pure ()
  | cons app rest =>
    refine Within.modify fun w h context hmem => ?_
    rcases List.mem_append.mp hmem with hmem | hmem
    · exact h context hmem
    · cases List.mem_singleton.mp hmem
      rfl

theorem online_performClient (hro : cfg.readOnly = true) (call : ClientCall) :
    Within onlineFrame (performClient St styled cfg call) := by
  cases call with
  | update call =>
    cases call with
    | getTargetToInstall ci args env =>
      refine .bind (fun w => ?_) fun _ => .pure _
      refine getTargetToInstall_keeps (I := fun w' => onlineFrame.rel w w') (fun h => h)
        (fun target w' hcheck h => ?_) (fun _ _ h => h)
      rw [hcheck.contexts]
      exact h
    | checkAppsInSync env uuid => exact online_checkAppsInSync env uuid
    | installer args env =>
      rw [performClient, perform, installer_readOnly hro]
      exact Within.throw _
    | pullAndInstall args env =>
      exact .bind (within_pullAndInstall_readOnly (fun _ _ h => h) hro _ _) fun _ => .pure _
    | rollback isLocal notifyFailed env =>
      exact .bind (within_rollback_readOnly clientFrame_online.toStoreFrame (fun _ _ h => h) hro
        _ _ _) fun _ => .pure _
    | download i env =>
      exact within_onContext fun _ =>
        within_contextDownload (@clientFrame_online _ St).toDownloadFrame _ _
    | install i env => exact within_onContext fun _ =>
      within_contextInstall clientFrame_online.toUpdateFrame _ _
  | completeInstallation env =>
    exact .bind (within_completeInstallation clientFrame_online _) fun _ => .pure _
  | setSecondaries => exact .ite (.throw _) (.pure _)
  | ask => exact .pure _

theorem online_clientRun (hro : cfg.readOnly = true) (run : List ClientCall) :
    onlineFrame.rel w (clientRun St styled cfg run w) := by
  induction run generalizing w with
  | nil => exact onlineFrame.refl w
  | cons call rest ih =>
    exact onlineFrame.trans (after_of_wp (online_performClient hro call w)) ih

end Proofs

/-- For a read-only client that was just built and any sequence of its calls: no context
of a local update is handed out, and the apps and the rootfs are left alone exactly if no
call acts in the state it is made in. -/
theorem read_only_still_iff {Db : Type} (St : Storage Db) (styled : Json → String) (cfg : Config)
    (hro : cfg.readOnly = true) (w : World Db) (hnew : w.contexts = [])
    (run : List ClientCall) :
    (∀ context ∈ (clientRun St styled cfg run w).contexts, context.isLocal = false) ∧
      (Still w (clientRun St styled cfg run w) ↔ NoneActs St styled cfg run w) := by
  refine ⟨online_clientRun hro run fun context hmem => ?_, still_clientRun_iff hro run⟩
  rw [hnew] at hmem
  cases hmem

def readOnlyConfig : Config := { deviceConfig with readOnly := true }

/-- The status of a device is read, and all apps are in sync. -/
theorem read_only_still_status :
    readOnlyConfig.readOnly = true ∧ factoryDevice.contexts = [] ∧
      Still factoryDevice (clientRun installedVersions (fun _ => "") readOnlyConfig
        [.ask, .update (.checkAppsInSync .allRunning ""), .ask] factoryDevice) := by
  refine ⟨rfl, rfl, ((read_only_still_iff installedVersions (fun _ => "") readOnlyConfig rfl
    factoryDevice rfl _).2).mpr ⟨not_false, ?_, not_false, trivial⟩⟩
  rintro ⟨current, hcurrent, hacts⟩
  have hquiet : ((currentTufTarget installedVersions factoryDevice).toOption.all fun current =>
      decide (checkEffects installedVersions (fun _ => "") readOnlyConfig .allRunning current
        factoryDevice = [])) = true := by decide +kernel
  have hcurrent : currentTufTarget installedVersions factoryDevice = .ok current := hcurrent
  rw [hcurrent] at hquiet
  exact hacts (of_decide_eq_true hquiet)

/-- A directory is left of an app that the current target does not have. -/
def staleApp : CheckEnv := { CheckEnv.allRunning with appsRoot := some ["web", "old"] }

/-- The question whether the apps are in sync removes an app. -/
theorem read_only_client_removes_app :
    (clientRun installedVersions (fun _ => "") readOnlyConfig
      [.update (.checkAppsInSync staleApp "")] factoryDevice).effects = [.remove "old"] := by
  decide +kernel

end Client
end AkLite
