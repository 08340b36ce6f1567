/-
Who vouches for the apps that are installed.

`installer` accepts a target that equals one of the TUF targets, its apps included.  For
a local update it compares the name, the hash and the version only, because the list of
apps may have been shortened; and a target that was installed before is recognised by
its name and hash.  The context is made of the caller's target in each case, so in these
two cases any app URI comes through.  `unvouched_app_is_accepted` has a local update
whose app is one that neither the TUF targets nor the log knows.

`accepted_apps_vouched` says for which inputs every app of an accepted target is one of
a TUF target or of an installed one.
-/
import AkLite.Client.Frames
import AkLite.Client.InstalledVersions
import AkLite.Client.RequiredApps

namespace AkLite
namespace Client

open Lib Boot

/-! ## App pairs -/

/-- The app is listed in the custom data of a target with this URI. -/
def AppPair (custom : Json) (app : App) : Prop :=
  ∃ apps fields uri, appsJson custom = .ok apps ∧ (app.1, Json.obj fields) ∈ apps.entries ∧
    fields.lookup "uri" = some uri ∧ uri.asString = .ok app.2

section Vouching

variable {Db : Type} (St : Storage Db) (styled : Json → String) (cfg : Config)

/-- A TUF target with the name, the hash and the version of the target has the app, or an
installed one with its name and hash. -/
def Vouched (env : InstallerEnv) (t : TufTarget) (db : Db) (app : App) : Prop :=
  (∃ targets tt, env.tufTargets = .ok targets ∧ tt ∈ targets ∧ tt.name = t.name ∧
      tt.sha256Hash = t.sha256Hash ∧ tt.version = t.version ∧ AppPair tt.custom app) ∨
    ∃ logged ∈ St.ecuLog db, logged.filename = t.name ∧ logged.sha256Hash = t.sha256Hash ∧
      AppPair logged.custom app

/-- The target is accepted without a look at its apps: a local update of a listed target,
or a target that is not listed and was installed before. -/
def AcceptsUncompared (args : InstallerArgs) (env : InstallerEnv) (db : Db) : Prop :=
  env.checkMeta = .ok () ∧ ∃ targets, env.tufTargets = .ok targets ∧
    ((args.isLocal = true ∧ ∃ tt ∈ targets, tt.name = args.target.name ∧
        tt.sha256Hash = args.target.sha256Hash ∧ tt.version = args.target.version) ∨
      (firstWhere (fun tt => matchesTarget args.isLocal tt args.target) targets = .ok none ∧
        (args.requireInTuf = false ∨ (fromTufTarget args.target).isInitial = true) ∧
        wasTargetInstalled St (fromTufTarget args.target) db = true))

/-- Such a target gets a context. -/
def OpensUncompared (args : InstallerArgs) (env : InstallerEnv) (w : World Db) : Prop :=
  cfg.readOnly = false ∧ AcceptsUncompared St args env w.db ∧ Opens St styled cfg args env w

end Vouching

section Proofs

variable {Db : Type} {St : Storage Db} {styled : Json → String} {cfg : Config}
  {args : InstallerArgs} {env : InstallerEnv} {w : World Db}

theorem appPair_congr {custom custom' : Json} (h : appsJson custom = appsJson custom')
    (app : App) : AppPair custom app ↔ AppPair custom' app := by
  unfold AppPair
  rw [h]

/-! ## The apps that the engine is given -/

/-- An app is added only if its entry is well formed. -/
theorem appPair_addApp {custom json : Json} {apps apps' : List App} {entry : String × Json}
    (hjson : appsJson custom = .ok json) (hentry : entry ∈ json.entries)
    (hadd : addApp cfg apps entry = .ok apps') (happs : ∀ app ∈ apps, AppPair custom app) :
    ∀ app ∈ apps', AppPair custom app := by
  obtain ⟨name, data⟩ := entry
  unfold addApp at hadd
  cases data with
  | obj fields =>
    dsimp only at hadd
    cases huri : fields.lookup "uri" with
    | none =>
      rw [huri] at hadd
      cases hadd
      exact happs
    | some uri =>
      rw [huri] at hadd
      obtain ⟨text, htext, hadd⟩ := bind_eq_ok.mp hadd
      cases hadd
      intro app happ
      split at happ
      · rcases mem_putApp happ with h | rfl
        · exact happs app h
        · exact ⟨json, fields, uri, hjson, hentry, huri, htext⟩
      · exact happs app happ
  | _ =>
    cases hadd
    exact happs

theorem appPair_getApps {custom : Json} {apps : List App} (h : getApps cfg custom = .ok apps) :
    ∀ app ∈ apps, AppPair custom app := by
  obtain ⟨json, hjson, hfold⟩ := bind_eq_ok.mp h
  exact foldlM_keeps (P := fun apps => ∀ app ∈ apps, AppPair custom app)
    (fun _ _ _ hentry hadd happs => appPair_addApp hjson hentry hadd happs) hfold (by simp)

theorem appPair_appDesc {custom json data : Json} {name : String} {app : App}
    (hjson : appsJson custom = .ok json) (hentry : (name, data) ∈ json.entries)
    (h : appDesc styled name data = .ok app) : AppPair custom app := by
  unfold appDesc at h
  cases data with
  | obj fields =>
    dsimp only at h
    cases huri : fields.lookup "uri" with
    | none =>
      rw [huri] at h
      cases h
    | some uri =>
      rw [huri] at h
      obtain ⟨text, htext, h⟩ := bind_eq_ok.mp h
      cases h
      exact ⟨json, fields, uri, hjson, hentry, huri, htext⟩
  | _ => cases h

theorem mem_entries_of_find {json data : Json} {name : String}
    (h : json.find name = .ok (some data)) : (name, data) ∈ json.entries := by
  unfold Json.find at h
  cases json with
  | obj fields =>
    obtain ⟨front, back, hfields, _⟩ := List.lookup_eq_some_iff.mp (Except.ok.inj h)
    rw [Json.entries, hfields]
    exact List.mem_append_right _ List.mem_cons_self
  | null => cases h
  | _ => cases h

theorem appPair_addRequired {custom json : Json} {apps apps' : List App} {name : String}
    (hjson : appsJson custom = .ok json) (hadd : addRequired styled json apps name = .ok apps')
    (happs : ∀ app ∈ apps, AppPair custom app) : ∀ app ∈ apps', AppPair custom app := by
  unfold addRequired at hadd
  obtain ⟨member, hmember, hadd⟩ := bind_eq_ok.mp hadd
  obtain ⟨found, hfound, hmember⟩ := bind_eq_ok.mp hmember
  cases hmember
  cases found with
  | none =>
    cases hadd
    exact happs
  | some data =>
    simp only [Option.isSome_some, if_true] at hadd
    obtain ⟨data', hindex, hadd⟩ := bind_eq_ok.mp hadd
    obtain ⟨app, hdesc, hadd⟩ := bind_eq_ok.mp hadd
    have hdata : data' = data := by
      simpa [Json.index, hfound, bind, Except.bind, pure, Except.pure] using hindex.symm
    cases hadd
    rw [hdata] at hdesc
    intro a ha
    rcases mem_putApp ha with h | rfl
    · exact happs a h
    · exact appPair_appDesc hjson (mem_entries_of_find hfound) hdesc

theorem appPair_getRequiredApps {custom : Json} {apps : List App}
    (h : getRequiredApps styled cfg custom = .ok apps) : ∀ app ∈ apps, AppPair custom app := by
  obtain ⟨json, hjson, h⟩ := bind_eq_ok.mp h
  obtain ⟨names, _, hfold⟩ := bind_eq_ok.mp h
  exact foldlM_keeps (P := fun apps => ∀ app ∈ apps, AppPair custom app)
    (fun _ _ _ _ hadd happs => appPair_addRequired hjson hadd happs) hfold (by simp)

/-! ## Acceptance -/

theorem firstWhere_eq_some {α : Type} {p : α → Except String Bool} {xs : List α} {a : α}
    (h : firstWhere p xs = .ok (some a)) : a ∈ xs ∧ p a = .ok true := by
  induction xs with
  | nil => cases h
  | cons x rest ih =>
    obtain ⟨found, hfound, h⟩ := bind_eq_ok.mp h
    cases found with
    | true =>
      cases h
      exact ⟨List.mem_cons_self, hfound⟩
    | false =>
      obtain ⟨hmem, ha⟩ := ih h
      exact ⟨List.mem_cons_of_mem _ hmem, ha⟩

/-- A test that does not throw finds an element that passes it. -/
theorem firstWhere_of_mem {α : Type} {p : α → Except String Bool} {xs : List α}
    (hp : ∀ a, ∃ b, p a = .ok b) {a : α} (hmem : a ∈ xs) (ha : p a = .ok true) :
    ∃ b, firstWhere p xs = .ok (some b) := by
  induction xs with
  | nil => cases hmem
  | cons x rest ih =>
    obtain ⟨found, hfound⟩ := hp x
    cases found with
    | true => exact ⟨x, by simp [firstWhere, hfound, bind, Except.bind, pure, Except.pure]⟩
    | false =>
      have hrest : a ∈ rest := by
        rcases List.mem_cons.mp hmem with rfl | hmem
        · rw [hfound] at ha
          cases ha
        · exact hmem
      obtain ⟨b, hb⟩ := ih hrest
      exact ⟨b, by simp [firstWhere, hfound, bind, Except.bind, hb]⟩

/-- The two ways to be trusted. -/
theorem isTrusted_iff {t : TufTarget} {isLocal requireInTuf : Bool} {db : Db} :
    isTrusted St env t isLocal requireInTuf db = .ok true ↔
      env.checkMeta = .ok () ∧ ∃ targets, env.tufTargets = .ok targets ∧
        ((∃ tt, firstWhere (fun tt => matchesTarget isLocal tt t) targets = .ok (some tt)) ∨
          (firstWhere (fun tt => matchesTarget isLocal tt t) targets = .ok none ∧
            (requireInTuf = false ∨ (fromTufTarget t).isInitial = true) ∧
            wasTargetInstalled St (fromTufTarget t) db = true)) := by
  unfold isTrusted
  rw [bind_eq_ok]
  simp only [bind_eq_ok]
  constructor
  · rintro ⟨u, hmeta, targets, htargets, found, hfound, h⟩
    refine ⟨hmeta, targets, htargets, ?_⟩
    cases found with
    | some tt => exact .inl ⟨tt, hfound⟩
    | none =>
      have hlog := Except.ok.inj h
      simp only [Bool.and_eq_true, Bool.or_eq_true, Bool.not_eq_true'] at hlog
      exact .inr ⟨hfound, hlog⟩
  · rintro ⟨hmeta, targets, htargets, ⟨tt, hfound⟩ | ⟨hfound, hlog⟩⟩
    · exact ⟨(), hmeta, targets, htargets, some tt, hfound, rfl⟩
    · refine ⟨(), hmeta, targets, htargets, none, hfound, ?_⟩
      simp [pure, Except.pure, hlog]

/-- An update that is not local has the apps of the TUF target it matches. -/
theorem vouched_of_sameTarget {targets : List TufTarget} {tt t : TufTarget} {db : Db}
    (htargets : env.tufTargets = .ok targets) (hmem : tt ∈ targets)
    (hsame : sameTarget tt t = .ok true) {app : App} (happ : AppPair t.custom app) :
    Vouched St env t db app := by
  unfold sameTarget at hsame
  split at hsame
  · cases hsame
  · next hfields =>
    simp only [not_or, ne_eq, not_not] at hfields
    obtain ⟨hname, hhash, hversion⟩ := hfields
    obtain ⟨apps, happs, hsame⟩ := bind_eq_ok.mp hsame
    obtain ⟨apps', happs', hsame⟩ := bind_eq_ok.mp hsame
    have heq : apps = apps' := eq_of_beq (Except.ok.inj hsame)
    have hjson : appsJson tt.custom = appsJson t.custom := by rw [happs, happs', heq]
    exact .inl ⟨targets, tt, htargets, hmem, hname, hhash, hversion,
      (appPair_congr hjson app).mpr happ⟩

theorem matchesTarget_local {tt t : TufTarget} :
    matchesTarget true tt t = .ok true ↔
      tt.name = t.name ∧ tt.sha256Hash = t.sha256Hash ∧ tt.version = t.version := by
  simp [matchesTarget, and_assoc]

/-- A target that is accepted without a look at its apps is trusted. -/
theorem isTrusted_of_uncompared {db : Db} (h : AcceptsUncompared St args env db) :
    isTrusted St env args.target args.isLocal args.requireInTuf db = .ok true := by
  obtain ⟨hmeta, targets, htargets, ⟨hlocal, tt, hmem, hmatch⟩ | hlog⟩ := h
  · refine isTrusted_iff.mpr ⟨hmeta, targets, htargets, .inl ?_⟩
    rw [hlocal]
    exact firstWhere_of_mem (fun a => ⟨_, rfl⟩) hmem (matchesTarget_local.mpr hmatch)
  · exact isTrusted_iff.mpr ⟨hmeta, targets, htargets, .inr hlog⟩

/-- A trusted target is one without a look at its apps, or all its apps are vouched for. -/
theorem uncompared_or_vouched {db : Db}
    (h : isTrusted St env args.target args.isLocal args.requireInTuf db = .ok true) :
    AcceptsUncompared St args env db ∨
      ∀ app, AppPair args.target.custom app → Vouched St env args.target db app := by
  obtain ⟨hmeta, targets, htargets, ⟨tt, hfound⟩ | hlog⟩ := isTrusted_iff.mp h
  · obtain ⟨hmem, hmatch⟩ := firstWhere_eq_some hfound
    cases hlocal : args.isLocal with
    | true =>
      rw [hlocal] at hmatch
      exact .inl ⟨hmeta, targets, htargets,
        .inl ⟨hlocal, tt, hmem, matchesTarget_local.mp hmatch⟩⟩
    | false =>
      rw [hlocal] at hmatch
      exact .inr fun app happ => vouched_of_sameTarget htargets hmem hmatch happ
  · exact .inl ⟨hmeta, targets, htargets, .inr hlog⟩

end Proofs

/-- Every app of a target that gets a context is vouched for exactly if this is so for
the targets that are accepted without a look at their apps.  The apps that the package
manager takes from a context are apps of the caller's target. -/
theorem accepted_apps_vouched {Db : Type} (St : Storage Db) (styled : Json → String)
    (cfg : Config) (args : InstallerArgs) (env : InstallerEnv) (w : World Db) :
    ((∀ context w', installer St styled cfg args env w = .ok (some context) w' →
        ∀ app, AppPair args.target.custom app → Vouched St env args.target w.db app) ↔
      (OpensUncompared St styled cfg args env w →
        ∀ app, AppPair args.target.custom app → Vouched St env args.target w.db app)) ∧
    ∀ context w', installer St styled cfg args env w = .ok (some context) w' →
      ∀ apps, getApps cfg context.target.custom = .ok apps ∨
          getRequiredApps styled cfg context.target.custom = .ok apps →
        ∀ app ∈ apps, AppPair args.target.custom app := by
  refine ⟨⟨fun h hopens => ?_, fun h context w' hrun => ?_⟩, fun context w' hrun apps happs => ?_⟩
  · obtain ⟨hro, haccepts, hopens⟩ := hopens
    obtain ⟨context, w', hrun⟩ :=
      installer_isSome_iff.mpr ⟨hro, isTrusted_of_uncompared haccepts, hopens⟩
    exact h context w' hrun
  · obtain ⟨hro, htrusted, hopens⟩ := installer_isSome_iff.mp ⟨context, w', hrun⟩
    rcases uncompared_or_vouched htrusted with haccepts | hvouched
    · exact h ⟨hro, haccepts, hopens⟩
    · exact hvouched
  · have hcustom : context.target.custom = args.target.custom :=
      ((installer_run hrun).2 context rfl).custom
    rw [hcustom] at happs
    rcases happs with happs | happs
    · exact appPair_getApps happs
    · exact appPair_getRequiredApps happs

/-- The target of a local update, with an app that is not the one of the TUF target. -/
def hackedUpdate : InstallerArgs :=
  { target :=
      { nextTufTarget with
        custom := .obj [("version", .str "2"), ("local-src-dir", .str "/bundle"),
          ("docker_compose_apps", .obj [("web", .obj [("uri", .str "evil@1")])])] }
    reason := "", correlationId := "", mode := .all, isLocal := true, requireInTuf := true
    areAppsChecked := true }

def restorableConfig : Config := { deviceConfig with resetApps := some [] }

theorem unvouched_app_is_accepted :
    (∃ context w', installer installedVersions (fun _ => "") restorableConfig hackedUpdate
        (.trusting [nextTufTarget]) factoryDevice = .ok (some context) w') ∧
      AppPair hackedUpdate.target.custom ("web", "evil@1") ∧
      ¬ Vouched installedVersions (.trusting [nextTufTarget]) hackedUpdate.target factoryDevice.db
        ("web", "evil@1") := by
  refine ⟨⟨_, _, rfl⟩, ⟨_, _, _, rfl, List.mem_cons_self, rfl, rfl⟩, ?_⟩
  rintro (⟨targets, tt, htargets, hmem, _, _, _, hpair⟩ | ⟨logged, hmem, hname, _⟩)
  · cases htargets
    obtain rfl := List.mem_singleton.mp hmem
    obtain ⟨apps, fields, uri, hjson, hentry, huri, htext⟩ := hpair
    cases hjson
    cases List.mem_singleton.mp hentry
    cases huri
    revert htext
    decide
  · obtain rfl := List.mem_singleton.mp hmem
    revert hname
    decide

end Client
end AkLite
