/-
The apps that a check leaves for the download.

A check of a target's apps makes two lists: the enabled apps that are to be updated, and,
with `reset_apps`, the required apps that are not in the engine's store.  The second list is
made with a look at the first, and under `force_update` with a flag that is not initialised.
`apps_covered` says that between them the lists leave out no app that the engine has not
reported as fetched, and have no app twice, whatever the flag is.

Without `reset_apps` the second list is not assigned.  It is empty then, since no call ever
puts an app into it (`noLeftover_reached`).
-/
import AkLite.Client.Calls
import AkLite.Client.Vouching

namespace AkLite
namespace Client

open Lib Boot

/-! ## What is to be shown -/

/-- The list has the app, and nothing else under its name. -/
def Once (apps : List App) (app : App) : Prop :=
  apps.filter (fun a => decide (a.1 = app.1)) = [app]

/-- What a check leaves to be fetched: each app that the target has to have is there once with
its URI, or the engine reports that it is fetched. -/
structure Covers (styled : Json → String) (cfg : Config) (env : CheckEnv)
    (currentCustom custom : Json) (union : List App) : Prop where
  enabled : ∃ apps, getApps cfg custom = .ok apps ∧ ∀ app ∈ apps,
    Once union app ∨ (env.isFetched app = .ok true ∧
      (cfg.forceUpdate = false → UpToDate env currentCustom app))
  required : cfg.resetApps.isSome = true →
    ∃ required, getRequiredApps styled cfg custom = .ok required ∧ ∀ app ∈ required,
      Once union app ∨ env.isFetched app = .ok true
  only : ∀ app ∈ union, (∃ apps, getApps cfg custom = .ok apps ∧ app ∈ apps) ∨
    ∃ required, getRequiredApps styled cfg custom = .ok required ∧ app ∈ required

/-! ## Runs of the manager -/

/-- What happens to a manager: a check, an installation, or something that leaves the apps to
fetch alone. -/
inductive ManagerCall where
  | check (env : CheckEnv) (target : Target)
  | install (env : InstallEnv) (target : Target)
  | other

section Manager

variable {Db : Type} (St : Storage Db) (styled : Json → String) (cfg : Config)

def ManagerStep (w : World Db) : ManagerCall → World Db → Prop
  | .check env target, w' => w' = after (checkForAppsToUpdate St styled cfg env target) w
  | .install env target, w' => w' = after (composeInstall St styled cfg env target) w
  | .other, w' => w'.appsToFetch = w.appsToFetch

/-- Without `reset_apps` there is nothing to fetch only. -/
def NoLeftover (w : World Db) : Prop := cfg.resetApps = none → w.appsToFetch = []

end Manager

section Proofs

variable {Db : Type} {St : Storage Db} {styled : Json → String} {cfg : Config}
  {env : CheckEnv} {custom : Json} {w w' : World Db}

/-! ## The list that is not assigned -/

def clearFrame : Frame (World Db) where
  rel w w' := w.appsToFetch = [] → w'.appsToFetch = []
  refl _ h := h
  trans h h' hw := h' (h hw)

theorem installFrame_clear : InstallFrame (clearFrame : Frame (World Db)) where
  emitted _ _ h := h
  engineApps _ _ h := h
  rootfs _ _ h := h
  cleared _ _ := rfl
  record _ _ _ h := h

theorem getAppsToFetch_none (hreset : cfg.resetApps = none) (check : AppsCheck)
    (earlier : List App) : getAppsToFetch styled cfg env check earlier custom = .ok earlier := by
  rw [getAppsToFetch, if_pos (by rw [hreset]; rfl)]
  rfl

theorem noLeftover_check {target : Target} (h : NoLeftover cfg w) :
    NoLeftover cfg (after (checkForAppsToUpdate St styled cfg env target) w) := by
  intro hreset
  have hw := h hreset
  apply after_of_wp (P := fun v : World Db => v.appsToFetch = [])
  rw [wp_checkForAppsToUpdate]
  cases compareApps cfg env (getCurrent St w).custom target.custom with
  | error e => exact hw
  | ok c =>
    dsimp only
    rw [getAppsToFetch_none hreset]
    exact hw

theorem noLeftover_install {env : InstallEnv} {target : Target} (h : NoLeftover cfg w) :
    NoLeftover cfg (after (composeInstall St styled cfg env target) w) := by
  intro hreset
  apply after_of_wp (P := fun v : World Db => v.appsToFetch = [])
  exact wp_mono (within_composeInstall installFrame_clear env target w)
    (fun _ _ hv => hv (h hreset)) (fun _ _ hv => hv (h hreset))

theorem noLeftover_step {call : ManagerCall} (h : NoLeftover cfg w)
    (hstep : ManagerStep St styled cfg w call w') : NoLeftover cfg w' := by
  cases call with
  | check env target =>
    rw [show w' = _ from hstep]
    exact noLeftover_check h
  | install env target =>
    rw [show w' = _ from hstep]
    exact noLeftover_install h
  | other => exact fun hreset => (show w'.appsToFetch = _ from hstep).trans (h hreset)

/-- A manager starts with empty lists. -/
theorem noLeftover_reached {start : World Db} (hstart : start.appsToFetch = [])
    (hrun : Reaches (ManagerStep St styled cfg) (fun _ _ => True) start w) : NoLeftover cfg w :=
  Reaches.invariant (NoLeftover cfg) (fun _ _ _ h _ hstep => noLeftover_step h hstep)
    (fun _ => hstart) hrun

/-! ## Maps without a name twice -/

theorem map_fst_putApp {apps : List App} {name uri : String}
    (h : (apps.lookup name).isSome = true) :
    (putApp apps name uri).map Prod.fst = apps.map Prod.fst := by
  rw [putApp, if_pos h, List.map_map]
  apply List.map_congr_left
  intro a _
  by_cases hname : a.1 = name
  · simp [hname]
  · simp [hname]

theorem nodup_putApp {apps : List App} {name uri : String} (h : (apps.map Prod.fst).Nodup) :
    ((putApp apps name uri).map Prod.fst).Nodup := by
  by_cases hthere : (apps.lookup name).isSome = true
  · rw [map_fst_putApp hthere]
    exact h
  · rw [putApp, if_neg hthere, List.map_append]
    rw [Option.not_isSome_iff_eq_none, List.lookup_eq_none_iff] at hthere
    refine List.nodup_append.mpr ⟨h, by simp, ?_⟩
    intro a ha b hb hab
    obtain ⟨app, happ, rfl⟩ := List.mem_map.mp ha
    rw [List.map_singleton, List.mem_singleton] at hb
    have hne := hthere app happ
    rw [hab, hb] at hne
    simp at hne

theorem nodup_getApps {apps : List App} (h : getApps cfg custom = .ok apps) :
    (apps.map Prod.fst).Nodup := by
  obtain ⟨json, _, hfold⟩ := bind_eq_ok.mp h
  refine foldlM_keeps (P := fun apps : List App => (apps.map Prod.fst).Nodup)
    (fun apps entry apps' _ hadd happs => ?_) hfold List.nodup_nil
  unfold addApp at hadd
  split at hadd
  · split at hadd
    · obtain ⟨text, _, hadd⟩ := bind_eq_ok.mp hadd
      cases hadd
      split
      · exact nodup_putApp happs
      · exact happs
    · cases hadd
      exact happs
  · cases hadd
    exact happs

theorem nodup_getRequiredApps {required : List App}
    (h : getRequiredApps styled cfg custom = .ok required) : (required.map Prod.fst).Nodup := by
  obtain ⟨json, _, h⟩ := bind_eq_ok.mp h
  obtain ⟨names, _, hfold⟩ := bind_eq_ok.mp h
  refine foldlM_keeps (P := fun apps : List App => (apps.map Prod.fst).Nodup)
    (fun apps name apps' _ hadd happs => ?_) hfold List.nodup_nil
  obtain ⟨there, _, hadd⟩ := bind_eq_ok.mp hadd
  cases there with
  | false =>
    cases hadd
    exact happs
  | true =>
    obtain ⟨data, _, hadd⟩ := bind_eq_ok.mp hadd
    obtain ⟨app, _, hadd⟩ := bind_eq_ok.mp hadd
    cases hadd
    exact nodup_putApp happs

/-- A map has an app once. -/
theorem once_of_mem {apps : List App} (hnodup : (apps.map Prod.fst).Nodup) {app : App}
    (h : app ∈ apps) : Once apps app := by
  unfold Once
  induction apps with
  | nil => cases h
  | cons a rest ih =>
    rw [List.map_cons, List.nodup_cons] at hnodup
    rcases List.mem_cons.mp h with rfl | h
    · have hnone : rest.filter (fun a => decide (a.1 = app.1)) = [] := by
        rw [List.filter_eq_nil_iff]
        intro b hb
        rw [decide_eq_true_iff]
        exact fun hname => hnodup.1 (hname ▸ List.mem_map_of_mem hb)
      rw [List.filter_cons_of_pos (by simp), hnone]
    · have hne : a.1 ≠ app.1 := fun hname => hnodup.1 (hname ▸ List.mem_map_of_mem h)
      rw [List.filter_cons_of_neg (by simpa using hne)]
      exact ih hnodup.2 h

/-- One map inserted into another. -/
theorem nodup_union {first second : List App} (hfirst : (first.map Prod.fst).Nodup)
    (hsecond : (second.map Prod.fst).Nodup) :
    ((first ++ second.filter fun a => (first.lookup a.1).isNone).map Prod.fst).Nodup := by
  rw [List.map_append]
  refine List.nodup_append.mpr ⟨hfirst, (List.filter_sublist.map Prod.fst).nodup hsecond, ?_⟩
  intro a ha b hb hab
  obtain ⟨app, happ, rfl⟩ := List.mem_map.mp ha
  obtain ⟨app', happ', rfl⟩ := List.mem_map.mp hb
  have hnone := (List.mem_filter.mp happ').2
  rw [Option.isNone_iff_eq_none, List.lookup_eq_none_iff] at hnone
  have hne := hnone app happ
  rw [hab] at hne
  simp at hne

/-! ## The two plans -/

theorem appsNotFetched_covers {checked fetched enabled missing : List App}
    (h : appsNotFetched env checked fetched enabled = .ok missing) :
    missing.Sublist enabled ∧ ∀ app ∈ enabled,
      app ∈ missing ∨ (checked.lookup app.1).isSome = true ∨
        (fetched.lookup app.1).isSome = true ∨ env.isFetched app = .ok true := by
  induction enabled generalizing missing with
  | nil =>
    cases h
    exact ⟨.slnil, List.forall_mem_nil _⟩
  | cons app rest ih =>
    unfold appsNotFetched at h
    dsimp only at h
    split at h
    · next hskip =>
      obtain ⟨_, htrue, h⟩ := bind_eq_ok.mp h
      cases htrue
      obtain ⟨others, hothers, h⟩ := bind_eq_ok.mp h
      cases h
      obtain ⟨hsub, hall⟩ := ih hothers
      refine ⟨hsub.cons app, List.forall_mem_cons.mpr ⟨.inr ?_, hall⟩⟩
      rcases Bool.or_eq_true_iff.mp hskip with hskip | hskip
      · exact .inl hskip
      · exact .inr (.inl hskip)
    · obtain ⟨isFetched, hfetched, h⟩ := bind_eq_ok.mp h
      obtain ⟨others, hothers, h⟩ := bind_eq_ok.mp h
      obtain ⟨hsub, hall⟩ := ih hothers
      cases isFetched with
      | false =>
        cases h
        refine ⟨hsub.cons_cons app,
          List.forall_mem_cons.mpr ⟨.inl List.mem_cons_self, fun a ha => ?_⟩⟩
        exact (hall a ha).imp_left (List.mem_cons_of_mem _)
      | true =>
        cases h
        exact ⟨hsub.cons app, List.forall_mem_cons.mpr ⟨.inr (.inr (.inr hfetched)), hall⟩⟩

/-- The two functions read one entry for a name. -/
theorem same_app (hkeys : ∀ fields, appsJson custom = .ok (.obj fields) →
    (fields.map Prod.fst).Nodup) {apps required : List App} (happs : getApps cfg custom = .ok apps)
    (hrequired : getRequiredApps styled cfg custom = .ok required) {a b : App} (ha : a ∈ apps)
    (hb : b ∈ required) (hname : a.1 = b.1) : a = b := by
  obtain ⟨json, fields, uri, hjson, hentry, huri, htext⟩ := appPair_getApps happs a ha
  obtain ⟨json', fields', uri', hjson', hentry', huri', htext'⟩ :=
    appPair_getRequiredApps hrequired b hb
  cases hjson.symm.trans hjson'
  have hfields : AppFields custom json.entries := by
    rcases (reads_of_getRequiredApps hjson hkeys ⟨_, hrequired⟩).2 with h | h
    · exact h
    · -- nothing is asked for, so that there is no app
      obtain ⟨_, hjson'', hrequired⟩ := bind_eq_ok.mp hrequired
      cases hjson.symm.trans hjson''
      obtain ⟨names, hnames, hfold⟩ := bind_eq_ok.mp hrequired
      obtain ⟨rfl, _⟩ := (requiredNames_eq_ok hjson).mp hnames
      rw [h] at hfold
      cases hfold
      cases hb
  have hnodup := hfields.nodup hkeys
  have hsame := (lookup_eq_some_iff_mem hnodup).mpr hentry
  rw [hname, (lookup_eq_some_iff_mem hnodup).mpr hentry'] at hsame
  cases hsame
  cases huri.symm.trans huri'
  exact Prod.ext hname (Except.ok.inj (htext.symm.trans htext'))

/-- The list of the apps to fetch only, after a check. -/
structure FetchOnly (styled : Json → String) (cfg : Config) (env : CheckEnv) (check : AppsCheck)
    (custom : Json) (toFetch : List App) : Prop where
  nodup : (toFetch.map Prod.fst).Nodup
  only : ∀ app ∈ toFetch,
    ∃ required, getRequiredApps styled cfg custom = .ok required ∧ app ∈ required
  all : cfg.resetApps.isSome = true →
    ∃ required, getRequiredApps styled cfg custom = .ok required ∧ ∀ app ∈ required,
      app ∈ toFetch ∨ (check.toUpdate.lookup app.1).isSome = true ∨
        (check.upToDate.lookup app.1).isSome = true ∨ env.isFetched app = .ok true

theorem fetchOnly_of_getAppsToFetch {check : AppsCheck} {earlier toFetch : List App}
    (hclean : cfg.resetApps = none → earlier = [])
    (h : getAppsToFetch styled cfg env check earlier custom = .ok toFetch) :
    FetchOnly styled cfg env check custom toFetch := by
  cases hreset : cfg.resetApps with
  | none =>
    rw [getAppsToFetch_none hreset, hclean hreset] at h
    cases h
    exact ⟨List.nodup_nil, List.forall_mem_nil _, fun hsome => by simp [hreset] at hsome⟩
  | some resetApps =>
    rw [getAppsToFetch, if_neg (by simp [hreset])] at h
    obtain ⟨required, hrequired, h⟩ := bind_eq_ok.mp h
    -- whether the store is looked into depends on the flag only under `force_update`
    have hplan : toFetch.Sublist required ∧ ∀ app ∈ required,
        app ∈ toFetch ∨ (check.toUpdate.lookup app.1).isSome = true ∨
          (check.upToDate.lookup app.1).isSome = true ∨ env.isFetched app = .ok true := by
      dsimp only at h
      generalize (if cfg.forceUpdate = true then env.checkAppsToFetch else true) = looks at h
      cases looks with
      | true => exact appsNotFetched_covers h
      | false =>
        cases h
        exact ⟨.refl _, fun app happ => .inl happ⟩
    exact ⟨(hplan.1.map Prod.fst).nodup (nodup_getRequiredApps hrequired),
      fun app happ => ⟨required, hrequired, hplan.1.subset happ⟩,
      fun _ => ⟨required, hrequired, hplan.2⟩⟩

theorem covers_union {currentCustom : Json} {c : AppsCheck} {toFetch : List App}
    (hkeys : ∀ fields, appsJson custom = .ok (.obj fields) → (fields.map Prod.fst).Nodup)
    (hcompare : compareApps cfg env currentCustom custom = .ok c)
    (hfetch : FetchOnly styled cfg env c custom toFetch) :
    Covers styled cfg env currentCustom custom
      (c.toUpdate ++ toFetch.filter fun a => (c.toUpdate.lookup a.1).isNone) := by
  obtain ⟨happs, hcovered, htoUpdate, hupToDate, -⟩ := compareApps_splits hcompare
  have hfirst : (c.toUpdate.map Prod.fst).Nodup :=
    (htoUpdate.map Prod.fst).nodup (nodup_getApps happs)
  have honce : ∀ app ∈ c.toUpdate,
      Once (c.toUpdate ++ toFetch.filter fun a => (c.toUpdate.lookup a.1).isNone) app :=
    fun app happ => once_of_mem (nodup_union hfirst hfetch.nodup) (List.mem_append_left _ happ)
  refine ⟨⟨c.apps, happs, fun app happ => ?_⟩, fun hreset => ?_, fun app happ => ?_⟩
  · rcases hcovered app happ with hupdate | hdate
    · exact .inl (honce app hupdate)
    · have huptodate := upToDate_of_compareApps hcompare app hdate
      exact .inr ⟨huptodate.2.2, fun _ => huptodate⟩
  · obtain ⟨required, hrequired, hall⟩ := hfetch.all hreset
    refine ⟨required, hrequired, fun app happ => ?_⟩
    -- an app that another list has under this name is the same app
    have hsame : ∀ (apps : List App), apps.Sublist c.apps → (apps.lookup app.1).isSome = true →
        app ∈ apps := by
      intro apps hsub hsome
      obtain ⟨uri, huri⟩ := Option.isSome_iff_exists.mp hsome
      have hmem := mem_of_lookup huri
      rwa [← same_app hkeys happs hrequired (hsub.subset hmem) happ rfl]
    rcases hall app happ with hmem | hlookup | hlookup | hfetched
    · by_cases hlookup : (c.toUpdate.lookup app.1).isSome = true
      · exact .inl (honce app (hsame _ htoUpdate hlookup))
      · refine .inl (once_of_mem (nodup_union hfirst hfetch.nodup) (List.mem_append_right _ ?_))
        rw [Option.not_isSome_iff_eq_none] at hlookup
        exact List.mem_filter.mpr ⟨hmem, Option.isNone_iff_eq_none.mpr hlookup⟩
    · exact .inl (honce app (hsame _ htoUpdate hlookup))
    · exact .inr (upToDate_of_compareApps hcompare app (hsame _ hupToDate hlookup)).2.2
    · exact .inr hfetched
  · rcases List.mem_append.mp happ with hupdate | hfilter
    · exact .inl ⟨c.apps, happs, htoUpdate.subset hupdate⟩
    · exact .inr (hfetch.only app (List.mem_filter.mp hfilter).1)

end Proofs

/-- After a check the download gets every app that the target has to have and that the engine
has not reported as fetched, once and with the URI of the target, and no other. -/
theorem apps_covered {Db : Type} (St : Storage Db) (styled : Json → String) (cfg : Config)
    (env : CheckEnv) (target : Target) (start w w' : World Db) (reasons : AppsSyncReason)
    (hstart : start.appsToFetch = [])
    (hrun : Reaches (ManagerStep St styled cfg) (fun _ _ => True) start w)
    (hkeys : ∀ fields, appsJson target.custom = .ok (.obj fields) → (fields.map Prod.fst).Nodup)
    (h : checkForAppsToUpdate St styled cfg env target w = .ok reasons w') :
    Covers styled cfg env (getCurrent St w).custom target.custom (allAppsToFetch w') := by
  revert h
  apply wp_ok (E := fun _ _ => True) (Q := fun (_ : AppsSyncReason) v =>
    Covers styled cfg env (getCurrent St w).custom target.custom (allAppsToFetch v))
  rw [wp_checkForAppsToUpdate]
  cases hcompare : compareApps cfg env (getCurrent St w).custom target.custom with
  | error e => trivial
  | ok c =>
    dsimp only
    cases hfetch : getAppsToFetch styled cfg env c w.appsToFetch target.custom with
    | error e => trivial
    | ok toFetch =>
      exact covers_union hkeys hcompare
        (fetchOnly_of_getAppsToFetch (noLeftover_reached hstart hrun) hfetch)

/-- An app that is enabled and one that is kept for a reset. -/
def resetTarget : Target :=
  { nextTarget with
    custom := .obj [("version", .str "2"), ("hardwareIds", .arr [.str "board"]),
      ("docker_compose_apps", .obj [("log", .obj [("uri", .str "log@1")]),
        ("web", .obj [("uri", .str "web@1")])])] }

def resetConfig (forceUpdate : Bool) : Config :=
  { deviceConfig with
    apps := some ["web"], resetApps := some ["*"], forceUpdate := forceUpdate }

/-- The engine has the enabled app only. -/
def storedWeb (flag : Bool) : CheckEnv :=
  { CheckEnv.allRunning with
    isFetched := fun app => .ok (app.1 == "web"), checkAppsToFetch := flag }

theorem nodup_resetTarget : ∀ fields, appsJson resetTarget.custom = .ok (.obj fields) →
    (fields.map Prod.fst).Nodup := by
  rintro fields ⟨⟩
  decide

/-- The other app is fetched, and under `force_update` both, here with a flag that says not to
look into the store. -/
theorem reset_apps_covered :
    (∃ reasons w', checkForAppsToUpdate installedVersions (fun _ => "") (resetConfig false)
        (storedWeb true) resetTarget factoryDevice = .ok reasons w' ∧
      Covers (fun _ => "") (resetConfig false) (storedWeb true)
        (getCurrent installedVersions factoryDevice).custom resetTarget.custom
        (allAppsToFetch w') ∧
      allAppsToFetch w' = [("log", "log@1")]) ∧
    (∃ reasons w', checkForAppsToUpdate installedVersions (fun _ => "") (resetConfig true)
        (storedWeb false) resetTarget factoryDevice = .ok reasons w' ∧
      Covers (fun _ => "") (resetConfig true) (storedWeb false)
        (getCurrent installedVersions factoryDevice).custom resetTarget.custom
        (allAppsToFetch w') ∧
      allAppsToFetch w' = [("web", "web@1"), ("log", "log@1")]) := by
  constructor
  · exact ⟨_, _, rfl, apps_covered installedVersions (fun _ => "") (resetConfig false)
      (storedWeb true) resetTarget factoryDevice factoryDevice _ _ rfl .refl nodup_resetTarget rfl,
      rfl⟩
  · exact ⟨_, _, rfl, apps_covered installedVersions (fun _ => "") (resetConfig true)
      (storedWeb false) resetTarget factoryDevice factoryDevice _ _ rfl .refl nodup_resetTarget rfl,
      rfl⟩

end Client
end AkLite
