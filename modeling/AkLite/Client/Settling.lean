/-
The daemon comes to rest.

An update that the daemon finalizes is the current target from then on.  The next turns of
the process meet it as the latest target, and they look at its apps.  `finalized_daemon_rests`
says that there is nothing to be done in any of them, as long as no newer target is offered
and the apps run: the daemon does not install over and over again what it has installed.

The check compares the apps of the current target with themselves.  No app is new or changed
then, so that the answers of the engine decide (`compareApps_current`).
-/
import AkLite.Client.DaemonRun
import AkLite.Client.RequiredApps

namespace AkLite
namespace Client

open Lib Boot

variable {Key Stamp R T Db : Type}

/-! ## The property -/

/-- What the storage says of a target that has been recorded as the current one. -/
structure CurrentRecord (St : Storage Db) : Prop where
  current : ∀ t db, St.current t.sha256Hash (St.save t .kCurrent db) = t
  installed : ∀ t db, t ∈ St.installed (St.save t .kCurrent db)

/-- The engine says that the apps of a target run and that the required ones are fetched. -/
structure AppsRun (styled : Json → String) (cfg : Config) (custom : Json) (env : CheckEnv) :
    Prop where
  running : ∀ apps, getApps cfg custom = .ok apps → ∀ app ∈ apps, env.isRunning app = .ok true
  fetched : ∀ required, getRequiredApps styled cfg custom = .ok required →
    ∀ app ∈ required, env.isFetched app = .ok true

/-- The apps of a target can be compared, and no update is forced. -/
structure ComparesApps (cfg : Config) (custom : Json) : Prop where
  unforced : cfg.forceUpdate = false
  keys : ∀ fields, appsJson custom = .ok (.obj fields) → (fields.map Prod.fst).Nodup
  reads : AppsReadable cfg custom

/-- The latest target of a check-in is no update of this one: it is this target, or one that
has failed, or a downgrade that is not asked for. -/
def NoneNewer (St : Storage Db) (autoDowngrade : Bool) (t : Target) (db : Db)
    (ci : CheckInResult) : Prop :=
  ∀ latest current, selectTarget ci (-1) "" = .ok latest → toTufTarget t = .ok current →
    latest.name = t.filename ∨ isRollback St latest.name db = true ∨
      (autoDowngrade = false ∧ latest.version < current.version)

/-- The metadata states in which check-ins offer no update. -/
structure OffersNone (d : Device Key Stamp R T) (St : Storage Db) (autoDowngrade : Bool)
    (t : Target) (db : Db) (Served : T → Prop) : Prop where
  stays : ∀ repo, Served repo → Served (checkIn d t repo).2
  newer : ∀ repo checked, Served repo → (checkIn d t repo).1 = .ok checked →
    checked.result.good = true → NoneNewer St autoDowngrade t db checked.result

/-- The target is the current one and did not fail, and nothing else is left to be done. -/
structure AtRest (St : Storage Db) (t : Target) (w : World Db) : Prop where
  current : getCurrent St w = t
  good : isRollback St t.filename w.db = false
  free : w.Free St
  nothingLeft : w.appsToFetch = []

/-! ## The check of the current target -/

section Check

variable {St : Storage Db} {styled : Json → String} {cfg : Config} {env : CheckEnv}
  {custom : Json} {w : World Db}

/-- An app of the current target is neither new nor changed. -/
theorem syncReason_current {json : Json} {app : App} (happ : IsApp styled json.entries app)
    (hfind : json.find app.1 = .ok (json.entries.lookup app.1))
    (hruns : env.isRunning app = .ok true) (hfetched : env.isFetched app = .ok true) :
    syncReason env json app = .ok none := by
  obtain ⟨data, hdata, hread⟩ := happ
  obtain ⟨members, uri, text, rfl, huri, htext, hname⟩ := appDesc_eq_ok.mp hread
  have hdataIndex : json.index app.1 = .ok (.obj members) := by
    rw [Json.index_of_find hfind, hdata]
    rfl
  have huriIndex : (Json.obj members).index "uri" = .ok uri := by
    have hmember : (Json.obj members).find "uri" = .ok (some uri) := congrArg Except.ok huri
    rw [Json.index_of_find hmember]
    rfl
  have hsome : (Json.obj members).isEmpty = false := by
    cases members with
    | nil => cases huri
    | cons member rest => rfl
  have hsame : ¬ app.2 ≠ text := by
    rw [hname]
    exact fun h => h rfl
  rw [syncReason, hdataIndex, ok_bind, hsome, huriIndex, ok_bind, htext, ok_bind, hruns, hfetched]
  simp only [Bool.false_eq_true, if_false, if_neg hsame, ok_bind, Bool.not_true]
  rfl

theorem getAppsToUpdate_current {json : Json} {apps : List App}
    (h : ∀ app ∈ apps, syncReason env json app = .ok none) :
    getAppsToUpdate env json apps = .ok ([], apps) := by
  induction apps with
  | nil => rfl
  | cons app rest ih =>
    have hrest := ih fun a ha => h a (List.mem_cons_of_mem app ha)
    rw [getAppsToUpdate, h app List.mem_cons_self, ok_bind, hrest]
    rfl

/-- A required app that is fetched is not asked for. -/
theorem appsNotFetched_nil {checked fetched apps : List App}
    (h : ∀ app ∈ apps, env.isFetched app = .ok true) :
    appsNotFetched env checked fetched apps = .ok [] := by
  induction apps with
  | nil => rfl
  | cons app rest ih =>
    have hrest := ih fun a ha => h a (List.mem_cons_of_mem app ha)
    rw [appsNotFetched, h app List.mem_cons_self, hrest]
    dsimp only
    split
    · rfl
    · rfl

section InSync

variable (happs : ComparesApps cfg custom) (hrun : AppsRun styled cfg custom env)

include happs hrun

/-- A target compared with itself: nothing is to be updated. -/
theorem compareApps_current :
    ∃ apps, compareApps cfg env custom custom =
      .ok { apps := apps, toUpdate := [], upToDate := apps, reasons := [] } := by
  obtain ⟨json, apps, required, hjson, hlisted, hrequired, hsub, hmem, hmem'⟩ :=
    @takesReadable_of_appsReadable styled cfg custom happs.keys happs.reads
  obtain ⟨json', hjson', -, -, hkind⟩ := happs.reads
  obtain rfl : json = json' := Except.ok.inj (hjson.symm.trans hjson')
  have hsync : ∀ app ∈ apps, syncReason env json app = .ok none := by
    intro app happ
    obtain ⟨hen, hisApp⟩ := (hmem app).mp happ
    have hasked : app.1 ∈ cfg.asked (json.entries.map Prod.fst) :=
      (mem_asked hisApp.mem_keys).mpr (Config.requires_of_enables hen)
    -- A name is asked for, so that the member of the apps is an object.
    have hfields : AppFields custom json.entries := by
      refine hkind.resolve_right fun hnil => ?_
      rw [hnil] at hasked
      cases hasked
    have hfind : json.find app.1 = .ok (json.entries.lookup app.1) := by
      obtain ⟨json'', hjson'', _, hfind⟩ := hfields.json
      obtain rfl : json = json'' := Except.ok.inj (hjson.symm.trans hjson'')
      exact hfind app.1
    exact syncReason_current hisApp hfind (hrun.running apps hlisted app happ)
      (hrun.fetched required hrequired app (hsub app happ))
  refine ⟨apps, ?_⟩
  rw [compareApps, happs.unforced, hjson, hlisted]
  simp only [Bool.false_eq_true, if_false, ok_bind, getAppsToUpdate_current hsync]
  rfl

theorem getAppsToFetch_current (check : AppsCheck) :
    getAppsToFetch styled cfg env check [] custom = .ok [] := by
  obtain ⟨_, _, required, _, _, hrequired, _⟩ :=
    @takesReadable_of_appsReadable styled cfg custom happs.keys happs.reads
  rw [getAppsToFetch, hrequired, happs.unforced]
  cases cfg.resetApps with
  | none => rfl
  | some resetApps =>
    simp only [Option.isNone_some, Bool.false_eq_true, if_false, ok_bind, if_true]
    exact appsNotFetched_nil (hrun.fetched required hrequired)

/-- The check of the current target finds nothing and leaves nothing to fetch. -/
theorem checkAndSet_current {target : TufTarget} {reason : String}
    (hcurrent : (getCurrent St w).custom = custom)
    (htarget : target.custom = custom) (hleft : w.appsToFetch = []) :
    wp (checkAndSetAppsForUpdate St styled cfg env target reason)
      (fun r v => r.1 = [] ∧ v.appsToFetch = []) (fun _ v => v.appsToFetch = []) w := by
  obtain ⟨apps, hcompare⟩ := compareApps_current happs hrun
  have hfetch := getAppsToFetch_current happs hrun
    { apps := apps, toUpdate := [], upToDate := apps, reasons := [] }
  simp only [checkAndSetAppsForUpdate, wp_bind, wp_get, wp_modify, wp_pure]
  unfold appsToUpdate
  cases cfg.pacman with
  | ostree => exact ⟨rfl, hleft⟩
  | compose =>
    rw [wp_bind, wp_checkForAppsToUpdate, fromTufTarget_custom, htarget, hcurrent, hcompare]
    dsimp only
    rw [hleft, hfetch]
    dsimp only
    rw [wp_ite]
    split
    · rw [wp_bind, wp_get, wp_bind]
      exact wp_handleRemovedApps (fun _ => ⟨rfl, rfl⟩) fun _ _ => rfl
    · exact ⟨rfl, rfl⟩

end InSync

end Check

/-! ## A turn -/

section Turn

variable {St : Storage Db} {styled : Json → String} {cfg : Config} {t : Target} {w : World Db}

/-- A plan that selects no target and has no apps but those of this target to check. -/
def Plan.Rests (t : Target) : Plan → Prop
  | .done result _ => result.selected.isUnknown = true
  | .sync _ current => current.custom = t.custom
  | .update _ _ _ => False

/-- A current target that did not fail is not rolled back, so that the listed one is the
candidate. -/
theorem planTarget_rests {ci : CheckInResult} {autoDowngrade : Bool} {plan : Plan}
    (hw : AtRest St t w) (hnone : ci.good = true → NoneNewer St autoDowngrade t w.db ci)
    (h : planTarget St ci (.daemon autoDowngrade) w = .ok plan) : plan.Rests t := by
  have hfields : ∀ current, currentTufTarget St w = .ok current →
      toTufTarget t = .ok current ∧ current.name = t.filename ∧ current.custom = t.custom := by
    intro current hcurrent
    rw [currentTufTarget, hw.current] at hcurrent
    obtain ⟨hname, _, hcustom⟩ := toTufTarget_fields hcurrent
    exact ⟨hcurrent, hname, hcustom⟩
  cases planned_of_planTarget h with
  | badCheckIn => rfl
  | notFound => rfl
  | downgrade => rfl
  | noRollbackTarget => rfl
  | badRollbackTarget => rfl
  | sync hcompares => exact (hfields _ hcompares.reads).2.2
  | @update listed current candidate rollbackOperation hcompares hversion hchosen hname hgood =>
    obtain ⟨hread, hcurrentName, _⟩ := hfields _ hcompares.reads
    have hcandidate : candidate = listed ∧ rollbackOperation = false := by
      rw [chooseCandidate, hcurrentName, hw.good] at hchosen
      cases hchosen
      exact ⟨rfl, rfl⟩
    obtain ⟨rfl, rfl⟩ := hcandidate
    have hgood : isRollback St candidate.name w.db = false :=
      hgood.resolve_right fun h => by cases h.2
    rcases hnone hcompares.good candidate current hcompares.found hread with
      hsame | hfailed | ⟨hauto, hlower⟩
    · exact hname (hsame.trans hcurrentName.symm)
    · rw [hgood] at hfailed
      cases hfailed
    · rcases refusesDowngrade_eq_false.mp hversion with hauto' | hversion | hnamed | hle
      · cases hauto.symm.trans hauto'
      · exact hversion rfl
      · exact hnamed rfl
      · omega

theorem AtRest.of_idle {w' : World Db} (h : AtRest St t w) (hidle : Idle w w')
    (hleft : w'.appsToFetch = []) : AtRest St t w' := by
  refine ⟨?_, ?_, hidle.free h.free, hleft⟩
  · rw [getCurrent, hidle.rootfs, hidle.db]
    exact h.current
  · rw [hidle.db]
    exact h.good

theorem notified_appsToFetch (err : String) (v : World Db) :
    (notified cfg err v).appsToFetch = v.appsToFetch := by
  unfold notified
  split
  · rfl
  · rfl

section InSync

variable (happs : ComparesApps cfg t.custom)

include happs

/-- Nothing is selected, and what the check leaves for an installation is empty. -/
theorem getTargetToInstall_rests {ci : CheckInResult} {autoDowngrade : Bool} {env : CheckEnv}
    (hw : AtRest St t w) (hrun : AppsRun styled cfg t.custom env)
    (hnone : ci.good = true → NoneNewer St autoDowngrade t w.db ci) :
    wp (getTargetToInstall St styled cfg ci (.daemon autoDowngrade) env)
      (fun r v => r.selected.isUnknown = true ∧ AtRest St t v ∧ Idle w v)
      (fun _ v => AtRest St t v ∧ Idle w v) w := by
  have hleft : wp (getTargetToInstall St styled cfg ci (.daemon autoDowngrade) env)
      (fun r v => r.selected.isUnknown = true ∧ v.appsToFetch = [])
      (fun _ v => v.appsToFetch = []) w := by
    rw [getTargetToInstall, wp_bind, wp_get, wp_bind, wp_orThrow]
    cases hplan : planTarget St ci (.daemon autoDowngrade) w with
    | error e => exact hw.nothingLeft
    | ok plan =>
      have hrests := planTarget_rests hw hnone hplan
      cases plan with
      | update candidate current rollbackOperation => exact hrests.elim
      | done result err =>
        exact wp_notified ⟨hrests, (notified_appsToFetch err w).trans hw.nothingLeft⟩
      | sync candidate current =>
        dsimp only
        rw [wp_bind]
        refine wp_mono (checkAndSet_current happs hrun
          (congrArg Target.custom hw.current) hrests hw.nothingLeft) (fun r v hv => ?_)
          fun _ _ h => h
        obtain ⟨apps, reason⟩ := r
        obtain ⟨rfl, hv⟩ : apps = [] ∧ v.appsToFetch = [] := hv
        exact wp_notified ⟨rfl, (notified_appsToFetch "" v).trans hv⟩
  refine wp_mono (wp_and hleft idle_getTargetToInstall) ?_ ?_
  · exact fun r v h => ⟨h.1.1, hw.of_idle h.2 h.1.2, h.2⟩
  · exact fun e v h => ⟨hw.of_idle h.2 h.1, h.2⟩

end InSync

end Turn

/-! ## The process -/

section Process

variable {d : Device Key Stamp R T} {St : Storage Db} {env : DaemonEnv} {t : Target}
  {p : Process Db T}

/-- The process has waited since, and it still rests. -/
structure Rests (St : Storage Db) (t : Target) (Served : T → Prop) (p p' : Process Db T) :
    Prop where
  waits : Waits p p'
  atRest : AtRest St t p'.world
  served : Served p'.repo

theorem Rests.trans {Served : T → Prop} {v p' : Process Db T} (h : Rests St t Served p v)
    (h' : Rests St t Served v p') : Rests St t Served p p' :=
  ⟨waitFrame.trans h.waits h'.waits, h'.atRest, h'.served⟩

section Served

variable {Served : T → Prop} (happs : ComparesApps d.cfg t.custom)

include happs

theorem daemonTurn_rests {turn : TurnEnv} (hp : AtRest St t p.world) (hrepo : Served p.repo)
    (hoffers : OffersNone d St env.autoDowngrade t p.world.db Served)
    (hrun : AppsRun d.tk.toStyledString d.cfg t.custom turn.check) :
    wp (daemonTurn d St env turn) (fun stop p' => stop = false ∧ Rests St t Served p p')
      (fun _ p' => Rests St t Served p p') p := by
  have hrefl : Rests St t Served p p := ⟨waitFrame.refl p, hp, hrepo⟩
  rw [daemonTurn, wp_bind, wp_get, wp_bind, wp_orThrow]
  cases currentTufTarget St p.world with
  | error e => exact hrefl
  | ok current =>
    dsimp only
    rw [wp_bind]
    have hchecked : ∀ v, ChecksIn d St p v → Rests St t Served p v := by
      intro v hv
      obtain ⟨events, hworld, _⟩ := hv.world
      refine ⟨hv.waits, hp.of_idle hv.waits.world ?_, ?_⟩
      · rw [hworld]
        exact hp.nothingLeft
      · rw [hv.repo, hp.current]
        exact hoffers.stays p.repo hrepo
    refine wp_mono wp_daemonCheckIn (fun ci v hv => ?_) fun e v hv => hchecked v hv.1
    obtain ⟨hci, checked, hanswer, rfl⟩ := hv
    have hv := hchecked v hci
    rw [wp_ite]
    split
    · exact ⟨rfl, hv⟩
    · rw [hp.current] at hanswer
      have hnone : checked.result.good = true →
          NoneNewer St env.autoDowngrade t v.world.db checked.result := by
        rw [hv.waits.world.db]
        exact hoffers.newer p.repo checked hrepo hanswer
      have hrests : ∀ u, AtRest St t u ∧ Idle v.world u →
          Rests St t Served p { v with world := u } := fun u hu =>
        ⟨waitFrame.trans hv.waits ⟨hu.2, rfl, rfl⟩, hu.1, hv.served⟩
      rw [wp_bind, onWorld, wp_focus]
      refine wp_mono (getTargetToInstall_rests happs hv.atRest hrun hnone)
        (fun r u hu => ?_) fun e u hu => hrests u hu
      rw [if_pos hu.1]
      exact ⟨rfl, hrests u hu.2⟩

theorem daemonLoop_rests (turns : List TurnEnv) (hp : AtRest St t p.world) (hrepo : Served p.repo)
    (hoffers : OffersNone d St env.autoDowngrade t p.world.db Served)
    (hrun : ∀ turn ∈ turns, AppsRun d.tk.toStyledString d.cfg t.custom turn.check) :
    wp (daemonLoop d St env turns) (fun _ p' => Rests St t Served p p')
      (fun _ p' => Rests St t Served p p') p := by
  refine daemonLoop_rule (I := Rests St t Served p) (fun turn hturn v hv => ?_) (fun _ _ h => h)
    ⟨waitFrame.refl p, hp, hrepo⟩
  have hoffers' : OffersNone d St env.autoDowngrade t v.world.db Served := by
    rw [hv.waits.world.db]
    exact hoffers
  refine wp_mono (daemonTurn_rests happs hv.atRest hv.served hoffers'
    (hrun turn hturn)) (fun stop u hu => ?_) fun _ _ h => hv.trans h
  obtain ⟨rfl, hu⟩ := hu
  exact hv.trans hu

end Served

end Process

/-! ## After the finalization -/

/-- The device has been booted into the rootfs of the pending target, and the client has just
been started. -/
structure BootedInto (St : Storage Db) (t : Target) (w : World Db) : Prop where
  pending : St.pending w.db = some t
  valid : t.isValid = true
  booted : w.rootfs.sys.booted = t.sha256Hash
  reboot : w.rebootRequired = false
  nothingLeft : w.appsToFetch = []

section Arrival

variable {d : Device Key Stamp R T} {St : Storage Db} {env : DaemonEnv} {t : Target} {w : World Db}

/-- The finalization of the target succeeds. -/
def FinalizesInto (d : Device Key Stamp R T) (St : Storage Db) (env : DaemonEnv) (w v : World Db) :
    Prop :=
  ∃ r, completeInstallation St d.tk.toStyledString d.cfg env.complete w = .ok r v ∧
    (r.status = .ok ∨ r.status = .okBootFwNeedsCompletion)

theorem atRest_of_finalized {v : World Db} (hSt : PendingRecord St) (hrecord : CurrentRecord St)
    (hw : BootedInto St t w) (hfinal : FinalizesInto d St env w v) :
    AtRest St t v ∧ v.db = St.save t .kCurrent w.db := by
  obtain ⟨r, hrun, hstatus⟩ := hfinal
  obtain ⟨hkept, hdb⟩ := wp_ok (completeInstallation_current hw.pending) hrun
  have hdb := hdb hstatus
  obtain ⟨hrootfs, hlists⟩ := Prod.mk.inj hkept
  obtain ⟨hleft, hreboot⟩ := Prod.mk.inj hlists
  refine ⟨⟨?_, ?_, ⟨hreboot.trans hw.reboot, ?_⟩, hleft.trans hw.nothingLeft⟩, hdb⟩
  · rw [getCurrent, hrootfs, hw.booted, hdb]
    exact hrecord.current t w.db
  · rw [hdb]
    exact isRollback_of_installed ⟨t, hrecord.installed t w.db, rfl⟩
  · rw [getPendingTarget, hdb, hSt.kCurrent]
    rfl

/-- The start of a process whose finalization does not wait for a reboot. -/
theorem daemonStart_eq {v : World Db} {repo : T} {r : InstallResult}
    (hp : St.pending w.db = some t) (hvalid : t.isValid = true)
    (hrun : completeInstallation St d.tk.toStyledString d.cfg env.complete w = .ok r v)
    (hgo : r.status ≠ .needsCompletion) :
    daemonStart d St env (.started w repo) = .ok true (.started v repo) := by
  have hpending : (getPendingTarget St (Process.started w repo).world).isValid = true := by
    show (getPendingTarget St w).isValid = true
    rw [getPendingTarget, hp]
    exact hvalid
  have hfocus : onWorld (completeInstallation St d.tk.toStyledString d.cfg env.complete)
      (.started w repo) = .ok r (Process.started v repo) := by
    rw [onWorld, focus, show completeInstallation St _ _ _ (Process.started w repo).world = _
      from hrun]
    rfl
  rw [daemonStart, get_bind, hpending, if_neg (by decide), bind_of_ok hfocus,
    bne_iff_ne.mpr hgo]
  rfl

/-- A process that comes to its loop with this target at rest. -/
theorem rests_runDaemon {v : World Db} {repo : T} {Served : T → Prop} {turns : List TurnEnv}
    (hserver : env.repoServer ≠ "") (hcommand : env.isExecutable = true)
    (hstart : daemonStart d St env (.started w repo) = .ok true (.started v repo))
    (happs : ComparesApps d.cfg t.custom) (hrest : AtRest St t v)
    (hrun : ∀ turn ∈ turns, AppsRun d.tk.toStyledString d.cfg t.custom turn.check)
    (hrepo : Served repo) (hoffers : OffersNone d St env.autoDowngrade t v.db Served) :
    Rests St t Served (.started v repo) (after (runDaemon d St env turns) (.started w repo)) := by
  have hloop : runDaemon d St env turns (.started w repo) =
      daemonLoop d St env turns (.started v repo) := by
    rw [runDaemon, if_neg hserver, hcommand]
    simp only [Bool.not_true, Bool.false_eq_true, if_false]
    rw [bind_of_ok hstart]
    rfl
  rw [after, hloop]
  exact after_of_wp (daemonLoop_rests happs turns hrest hrepo hoffers hrun)

/-- A process that is started in the rootfs of the pending target, and finalizes it. -/
theorem rests_of_finalized {v : World Db} {repo : T} {Served : T → Prop} {turns : List TurnEnv}
    (hSt : PendingRecord St) (hrecord : CurrentRecord St) (hserver : env.repoServer ≠ "")
    (hcommand : env.isExecutable = true) (hw : BootedInto St t w)
    (hfinal : FinalizesInto d St env w v) (happs : ComparesApps d.cfg t.custom)
    (hrun : ∀ turn ∈ turns, AppsRun d.tk.toStyledString d.cfg t.custom turn.check)
    (hrepo : Served repo)
    (hoffers : OffersNone d St env.autoDowngrade t (St.save t .kCurrent w.db) Served) :
    Rests St t Served (.started v repo) (after (runDaemon d St env turns) (.started w repo)) ∧
      v.db = St.save t .kCurrent w.db := by
  obtain ⟨hrest, hdb⟩ := atRest_of_finalized hSt hrecord hw hfinal
  obtain ⟨r, hcomplete, hstatus⟩ := hfinal
  have hgo : r.status ≠ .needsCompletion := by
    rcases hstatus with h | h
    · rw [h]
      decide
    · rw [h]
      decide
  rw [← hdb] at hoffers
  exact ⟨rests_runDaemon hserver hcommand (daemonStart_eq hw.pending hw.valid hcomplete hgo) happs
    hrest hrun hrepo hoffers, hdb⟩

end Arrival

/-- A process that has begun no update since `v`.  The target is the current one. -/
structure Rested (St : Storage Db) (t : Target) (db : Db) (v : World Db) (p : Process Db T) :
    Prop where
  calls : p.calls = []
  reboots : p.reboots = []
  db : p.world.db = db
  current : getCurrent St p.world = t
  idle : Idle v p.world

/-- After an update the daemon comes to rest: a process that is started in the rootfs of the
pending target, and finalizes it, begins no further update in any of its turns, as long as
the check-ins offer nothing newer, no update is forced, and the apps of the target can be read,
run and are fetched. -/
theorem finalized_daemon_rests {St : Storage Db} (hSt : PendingRecord St)
    (hrecord : CurrentRecord St) (d : Device Key Stamp R T) (env : DaemonEnv)
    (turns : List TurnEnv) (t : Target) (w v : World Db) (repo : T) (Served : T → Prop)
    (hserver : env.repoServer ≠ "") (hcommand : env.isExecutable = true)
    (hw : BootedInto St t w) (hfinal : FinalizesInto d St env w v)
    (happs : ComparesApps d.cfg t.custom)
    (hrun : ∀ turn ∈ turns, AppsRun d.tk.toStyledString d.cfg t.custom turn.check)
    (hrepo : Served repo)
    (hoffers : OffersNone d St env.autoDowngrade t (St.save t .kCurrent w.db) Served) :
    Rested St t (St.save t .kCurrent w.db) v
      (after (runDaemon d St env turns) (.started w repo)) := by
  obtain ⟨hend, hdb⟩ := rests_of_finalized hSt hrecord hserver hcommand hw hfinal happs
    hrun hrepo hoffers
  exact ⟨hend.waits.calls, hend.waits.reboots, hend.waits.world.db.trans hdb, hend.atRest.current,
    hend.waits.world⟩

theorem installedVersions_currentRecord : CurrentRecord installedVersions where
  current t db := by
    show InstalledVersions.currentOf _ (InstalledVersions.save t .kCurrent db) = t
    rw [InstalledVersions.currentOf, InstalledVersions.save]
    exact if_pos rfl
  installed t db := by
    show t ∈ InstalledVersions.installed (InstalledVersions.save t .kCurrent db)
    simp [InstalledVersions.installed, InstalledVersions.save, InstalledVersions.upsert]

/-- The targets with the one app can be read. -/
theorem comparesApps_web (version uri : String) :
    ComparesApps deviceConfig (webCustom version uri) := by
  refine ⟨rfl, ?_, _, rfl, fun entry he => ?_, fun entry he _ => ?_, .inl (.inl rfl)⟩
  · rintro fields ⟨⟩
    exact List.nodup_singleton _
  · obtain rfl := List.mem_singleton.mp he
    rintro _ _ ⟨⟩ ⟨⟩
    exact ⟨_, rfl⟩
  · obtain rfl := List.mem_singleton.mp he
    exact ⟨_, _, _, rfl, rfl, rfl⟩

theorem succeeds_appsRun {styled : Json → String} {custom : Json} {turns : List TurnEnv}
    (h : ∀ turn ∈ turns, turn = .succeeds) :
    ∀ turn ∈ turns, AppsRun styled deviceConfig custom turn.check := by
  intro turn hturn
  rw [h turn hturn]
  exact ⟨fun _ _ _ _ => rfl, fun _ _ _ _ => rfl⟩

/-- Two turns of a device that is offered the next target. -/
def nextTurns (complete : CompleteEnv) (w : World InstalledVersions) :
    Process InstalledVersions Unit :=
  after (runDaemon (prodDevice (boardBundle [])) installedVersions (.completing complete)
    [.succeeds, .succeeds]) (.started w ())

/-- The device has been updated to the target that it is offered, and rebooted. -/
theorem rebooted_daemon_rests :
    (nextTurns (.starting fun _ => .ok .ok) rebootedDevice).calls = [] ∧
      getCurrent installedVersions (nextTurns (.starting fun _ => .ok .ok) rebootedDevice).world =
        nextTarget := by
  -- The latest target has the name of the current one.
  have hoffers : OffersNone (prodDevice (boardBundle [])) installedVersions false nextTarget
      (installedVersions.save nextTarget .kCurrent rebootedDevice.db) fun _ => True := by
    refine ⟨fun _ _ => trivial, ?_⟩
    rintro _ _ - ⟨⟩ - _ _ ⟨⟩ -
    exact .inl rfl
  have h := finalized_daemon_rests installedVersions_pendingRecord installedVersions_currentRecord
    (prodDevice (boardBundle [])) (.completing (.starting fun _ => .ok .ok)) [.succeeds, .succeeds]
    nextTarget rebootedDevice _ () (fun _ => True) (by decide) rfl ⟨rfl, rfl, rfl, rfl, rfl⟩
    ⟨_, rfl, .inl rfl⟩ (comparesApps_web _ _)
    (succeeds_appsRun (by simp)) trivial hoffers
  exact ⟨h.calls, h.current⟩

/-! ## A failed update -/

/-- What the storage says after a target has been recorded as a failing one. -/
structure FailureRecord (St : Storage Db) : Prop where
  current : ∀ t db hash, hash ≠ t.sha256Hash →
    St.current hash (St.save t .kNone db) = St.current hash db
  known : ∀ t db, t ∈ St.known (St.save t .kNone db)
  installed : ∀ t db name, (∃ i ∈ St.installed (St.save t .kNone db), i.filename = name) ↔
    ∃ i ∈ St.installed db, i.filename = name

/-- The bootloader has gone back to the rootfs of `c`, and the update to `t` is still pending. -/
structure BootedBack (St : Storage Db) (t c : Target) (w : World Db) : Prop where
  pending : St.pending w.db = some t
  valid : t.isValid = true
  current : getCurrent St w = c
  booted : w.rootfs.sys.booted ≠ t.sha256Hash
  /-- The name was never installed, and the one of the current target was. -/
  fresh : ∀ i ∈ St.installed w.db, i.filename ≠ t.filename
  installed : ∃ i ∈ St.installed w.db, i.filename = c.filename
  reboot : w.rebootRequired = false
  nothingLeft : w.appsToFetch = []

/-- The library finds that the booted rootfs is not the one of the target. -/
def BootRejected (env : CompleteEnv) : Prop :=
  ∃ ir, env.finalize.ostree = .ok ir ∧ ir.code = .kInstallFailed

section Failure

variable {d : Device Key Stamp R T} {St : Storage Db} {env : DaemonEnv} {t c : Target}
  {w v : World Db}

/-- No app is started, and the target is recorded as a failing one. -/
theorem finalizePendingUpdate_rejected {styled : Json → String} {cfg : Config}
    {complete : CompleteEnv} (h : BootRejected complete) :
    wp (finalizePendingUpdate St styled cfg complete.finalize t)
      (fun ret u => ret.code = .kInstallFailed ∧ u.db = St.save t .kNone w.db)
      (fun _ _ => True) w := by
  obtain ⟨ir, hir, hcode⟩ := h
  have hmanager : wp (managerFinalizeInstall styled cfg complete.finalize t)
      (fun ret u => ret.code = .kInstallFailed ∧ u = w) (fun _ _ => True) w := by
    unfold managerFinalizeInstall
    cases cfg.pacman with
    | ostree =>
      rw [wp_orThrow, hir]
      exact ⟨hcode, rfl⟩
    | compose =>
      rw [composeFinalizeInstall, wp_bind, wp_orThrow, hir]
      dsimp only
      rw [if_neg (by rw [hcode]; decide), if_neg (by rw [hcode]; decide), withRunningApps, wp_bind,
        wp_orThrow]
      cases complete.finalize.engine.runningInfo with
      | error e => trivial
      | ok info => exact ⟨hcode, rfl⟩
  rw [finalizePendingUpdate, wp_bind]
  refine wp_mono hmanager (fun ret u hu => ?_) fun _ _ h => h
  obtain ⟨hcode, rfl⟩ := hu
  rw [if_neg (by rw [InstallationResult.isSuccess, hcode]; decide), if_pos (.inl hcode)]
  exact ⟨hcode, rfl⟩

theorem completeInstallation_rejected {styled : Json → String} {cfg : Config}
    {complete : CompleteEnv} (hp : St.pending w.db = some t) (h : BootRejected complete) :
    wp (completeInstallation St styled cfg complete)
      (fun r u => r.status = .failed ∧ u.db = St.save t .kNone w.db) (fun _ _ => True) w := by
  refine completeInstallation_rule hp (fun _ _ => trivial) fun _ => ?_
  refine wp_mono (finalizePendingUpdate_rejected h) (fun ret u hu => ⟨fun _ _ => trivial, ?_⟩)
    fun _ _ h => h
  intro _ _ r _ hstatus
  rw [hu.1] at hstatus
  exact ⟨hstatus, hu.2⟩

theorem isRollback_of_failed (hSt : PendingRecord St) (hrecord : FailureRecord St)
    (hw : BootedBack St t c w) : isRollback St t.filename (St.save t .kNone w.db) = true := by
  refine isRollback_iff.mpr ⟨fun i hi hname => ?_, t, hrecord.known t w.db, rfl, fun p hp => ?_⟩
  · obtain ⟨j, hj, hjname⟩ := (hrecord.installed t w.db t.filename).mp ⟨i, hi, hname⟩
    exact hw.fresh j hj hjname
  · rw [hSt.clears t w.db hw.pending] at hp
    cases hp

theorem atRest_of_rejected {r : InstallResult} (hSt : PendingRecord St)
    (hrecord : FailureRecord St) (hw : BootedBack St t c w) (hboot : BootRejected env.complete)
    (hrun : completeInstallation St d.tk.toStyledString d.cfg env.complete w = .ok r v) :
    AtRest St c v ∧ r.status = .failed ∧ v.db = St.save t .kNone w.db := by
  obtain ⟨hstatus, hdb⟩ := wp_ok (completeInstallation_rejected hw.pending hboot) hrun
  obtain ⟨hkept, _⟩ := wp_ok (completeInstallation_current hw.pending) hrun
  obtain ⟨hrootfs, hlists⟩ := Prod.mk.inj hkept
  obtain ⟨hleft, hreboot⟩ := Prod.mk.inj hlists
  refine ⟨⟨?_, ?_, ⟨hreboot.trans hw.reboot, ?_⟩, hleft.trans hw.nothingLeft⟩, hstatus, hdb⟩
  · rw [getCurrent, hrootfs, hdb, hrecord.current t w.db _ hw.booted]
    exact hw.current
  · rw [hdb]
    exact isRollback_of_installed ((hrecord.installed t w.db c.filename).mpr hw.installed)
  · rw [getPendingTarget, hdb, hSt.clears t w.db hw.pending]
    rfl

end Failure

/-- An update that failed to boot is not tried again: the process that finds the device back in
the rootfs of `c` records `t`, which was never installed before, as a failing target and begins
no update in any of its turns, however often the check-ins offer `t` as the latest target, as
long as no update is forced and the apps of `c` can be read, run and are fetched. -/
theorem rejected_update_not_retried {St : Storage Db} (hSt : PendingRecord St)
    (hrecord : FailureRecord St) (d : Device Key Stamp R T) (env : DaemonEnv)
    (turns : List TurnEnv) (t c : Target) (w v : World Db) (r : InstallResult) (repo : T)
    (Served : T → Prop) (hserver : env.repoServer ≠ "") (hcommand : env.isExecutable = true)
    (hw : BootedBack St t c w) (hboot : BootRejected env.complete)
    (hcomplete : completeInstallation St d.tk.toStyledString d.cfg env.complete w = .ok r v)
    (happs : ComparesApps d.cfg c.custom)
    (hrun : ∀ turn ∈ turns, AppsRun d.tk.toStyledString d.cfg c.custom turn.check)
    (hrepo : Served repo) (hstays : ∀ repo, Served repo → Served (checkIn d c repo).2)
    (hlatest : ∀ repo checked latest, Served repo → (checkIn d c repo).1 = .ok checked →
      checked.result.good = true → selectTarget checked.result (-1) "" = .ok latest →
      latest.name = t.filename ∨ latest.name = c.filename) :
    Rested St c (St.save t .kNone w.db) v
      (after (runDaemon d St env turns) (.started w repo)) := by
  obtain ⟨hrest, hstatus, hdb⟩ := atRest_of_rejected hSt hrecord hw hboot hcomplete
  have hfailing : isRollback St t.filename v.db = true := by
    rw [hdb]
    exact isRollback_of_failed hSt hrecord hw
  have hoffers : OffersNone d St env.autoDowngrade c v.db Served := by
    refine ⟨hstays, fun repo checked hrepo hchecked hgood latest current hlist _ => ?_⟩
    rcases hlatest repo checked latest hrepo hchecked hgood hlist with h | h
    · rw [h]
      exact .inr (.inl hfailing)
    · exact .inl h
  have hgo : r.status ≠ .needsCompletion := by
    rw [hstatus]
    decide
  have hend := rests_runDaemon hserver hcommand (daemonStart_eq hw.pending hw.valid hcomplete hgo)
    happs hrest hrun hrepo hoffers
  exact ⟨hend.waits.calls, hend.waits.reboots, hend.waits.world.db.trans hdb, hend.atRest.current,
    hend.waits.world⟩

section Table

variable {t : Target} {rows : List Row}

/-- The rows of another hash are found as before. -/
theorem find_upsert (wasInstalled : Bool) {hash : String} (h : hash ≠ t.sha256Hash) :
    ((InstalledVersions.upsert t wasInstalled rows).map Row.target).reverse.find?
        (fun u => u.sha256Hash == hash) =
      (rows.map Row.target).reverse.find? fun u => u.sha256Hash == hash := by
  -- A row that is replaced has the hash of the target.
  have hother : ∀ r : Row, (r.target.sha256Hash == hash) = true →
      (!InstalledVersions.sameVersion r.target t) = true := by
    intro r hr
    rw [InstalledVersions.sameVersion, Bool.not_eq_true', Bool.and_eq_false_iff]
    exact .inr (beq_eq_false_iff_ne.mpr fun hsame => h ((beq_iff_eq.mp hr).symm.trans hsame))
  have hreverse : ((InstalledVersions.upsert t wasInstalled rows).map Row.target).reverse =
      t :: (rows.reverse.filter fun r => !InstalledVersions.sameVersion r.target t).map
        Row.target := by
    rw [InstalledVersions.upsert, List.map_append, List.reverse_append, List.filter_reverse,
      List.map_reverse]
    rfl
  rw [hreverse, ← List.map_reverse, List.find?_cons_of_neg (by simpa using h.symm), List.find?_map,
    List.find?_map, List.find?_filter]
  refine congrArg (fun p => Option.map Row.target (rows.reverse.find? p)) (funext fun r => ?_)
  rw [Bool.eq_iff_iff, decide_eq_true_iff]
  exact ⟨fun h => h.2, fun h => ⟨hother r h, h⟩⟩

/-- The row of the target keeps the mark of the row that it replaces. -/
theorem installedName_upsert {name : String} :
    (∃ r ∈ InstalledVersions.upsert t (InstalledVersions.wasInstalled t rows) rows,
        r.wasInstalled = true ∧ r.target.filename = name) ↔
      ∃ r ∈ rows, r.wasInstalled = true ∧ r.target.filename = name := by
  have hsame : ∀ r : Row, InstalledVersions.sameVersion r.target t = true →
      r.target.filename = t.filename := fun r h => beq_iff_eq.mp (Bool.and_eq_true_iff.mp h).1
  constructor
  · rintro ⟨r, hr, hmark, hname⟩
    rcases List.mem_append.mp hr with hr | hr
    · exact ⟨r, (List.mem_filter.mp hr).1, hmark, hname⟩
    · obtain rfl := List.mem_singleton.mp hr
      obtain ⟨q, hq, hboth⟩ := List.any_eq_true.mp hmark
      obtain ⟨hversion, hqmark⟩ := Bool.and_eq_true_iff.mp hboth
      exact ⟨q, hq, hqmark, (hsame q hversion).trans hname⟩
  · rintro ⟨r, hr, hmark, hname⟩
    by_cases hversion : InstalledVersions.sameVersion r.target t = true
    · refine ⟨{ target := t, wasInstalled := InstalledVersions.wasInstalled t rows },
        List.mem_append_right _ List.mem_cons_self, ?_, (hsame r hversion).symm.trans hname⟩
      exact List.any_eq_true.mpr ⟨r, hr, by rw [hversion, hmark]; rfl⟩
    · exact ⟨r, List.mem_append_left _ (List.mem_filter.mpr ⟨hr, by simpa using hversion⟩), hmark,
        hname⟩

theorem mem_installed_name {v : InstalledVersions} {name : String} :
    (∃ i ∈ InstalledVersions.installed v, i.filename = name) ↔
      ∃ r ∈ v.rows, r.wasInstalled = true ∧ r.target.filename = name := by
  simp [InstalledVersions.installed, and_assoc]

end Table

theorem installedVersions_failureRecord : FailureRecord installedVersions where
  current t db hash hhash := by
    show InstalledVersions.currentOf _ (InstalledVersions.save t .kNone db) =
      InstalledVersions.currentOf _ db
    rw [InstalledVersions.currentOf, InstalledVersions.currentOf, InstalledVersions.save]
    dsimp only
    rw [find_upsert _ hhash]
  known t db := by
    show t ∈ (InstalledVersions.save t .kNone db).rows.map Row.target
    simp [InstalledVersions.save, InstalledVersions.upsert]
  installed t db name := by
    show (∃ i ∈ InstalledVersions.installed (InstalledVersions.save t .kNone db), _) ↔
      ∃ i ∈ InstalledVersions.installed db, _
    rw [mem_installed_name, mem_installed_name]
    exact installedName_upsert

/-- The device of the next target, after the bootloader has gone back. -/
def rolledBackBoot : World InstalledVersions :=
  { rebootedDevice with
    rootfs := { rebootedDevice.rootfs with sys := { booted := "aa", pending := "" } } }

def CompleteEnv.rejecting : CompleteEnv :=
  { callback := .ok (), writeCurrent := .ok (), notifyFinished := .ok ()
    finalize := { FinalizeEnv.succeeds with
      ostree := .ok { code := .kInstallFailed, description := "" } } }

/-- The next target did not boot, and it is still the one that is offered. -/
theorem rejected_target_is_left :
    (nextTurns .rejecting rolledBackBoot).calls = [] ∧
      getCurrent installedVersions (nextTurns .rejecting rolledBackBoot).world = factoryTarget := by
  have hfresh : ∀ i ∈ installedVersions.installed rolledBackBoot.db,
      i.filename ≠ nextTarget.filename := by
    intro i hi
    rw [List.mem_singleton.mp hi]
    decide
  have hlatest : ∀ repo checked latest, True →
      (checkIn (prodDevice (boardBundle [])) factoryTarget repo).1 = .ok checked →
      checked.result.good = true → selectTarget checked.result (-1) "" = .ok latest →
      latest.name = nextTarget.filename ∨ latest.name = factoryTarget.filename := by
    rintro _ _ _ - ⟨⟩ - ⟨⟩
    exact .inl rfl
  have h := rejected_update_not_retried installedVersions_pendingRecord
    installedVersions_failureRecord (prodDevice (boardBundle [])) (.completing .rejecting)
    [.succeeds, .succeeds] nextTarget factoryTarget rolledBackBoot _ _ () (fun _ => True)
    (by decide) rfl
    ⟨rfl, rfl, rfl, by decide, hfresh, ⟨_, List.mem_singleton.mpr rfl, rfl⟩, rfl, rfl⟩
    ⟨_, rfl, rfl⟩ rfl (comparesApps_web _ _) (succeeds_appsRun (by simp))
    trivial (fun _ _ => trivial) hlatest
  exact ⟨h.calls, h.current⟩

end Client
end AkLite
