/-
Reports on the apps for the gateway.

A report is sent if it differs from the last one that was sent and accepted.  Two reports are
not compared as a whole, since they hold times that always change: per app its state, its URI
and the number of its services count.  The comparison looks the apps of the first report up in
the second, after the numbers of apps have been found equal.
-/
import AkLite.Client.AppsState

namespace AkLite
namespace Client

open Lib

/-! ## Comparison -/

/-- One round of the loop over the apps of the left report. -/
def compareEntry (others : Json) (name : String) (app : Json) : Except String Bool := do
  if !(← others.isMember name) then return false
  let other ← others.index name
  if (← app.index "state") ≠ (← other.index "state") then return false
  if (← app.index "uri") ≠ (← other.index "uri") then return false
  return (← app.index "services").size == (← other.index "services").size

def compareAppLists (others : Json) : List (String × Json) → Except String Bool
  | [] => .ok true
  | (name, app) :: apps => do
    if !(← compareEntry others name app) then return false
    compareAppLists others apps

def compareAppsStates (left right : Json) : Except String Bool := do
  if !(← left.isMember "apps") then
    if !(← right.isMember "apps") then return true
  if left.size ≠ right.size then return false
  let apps ← left.index "apps"
  let others ← right.index "apps"
  if apps.size ≠ others.size then return false
  compareAppLists others apps.entries

/-! ## What is compared -/

/-- What counts of an app. -/
@[ext]
structure AppView where
  state : Json
  uri : Json
  services : Nat

def appView (app : Json) : Except String AppView := do
  return ⟨← app.index "state", ← app.index "uri", (← app.index "services").size⟩

def appOf (report : Json) (name : String) : Option Json :=
  match report.index "apps" with
  | .ok apps => apps.entries.lookup name
  | .error _ => none

/-- Two reports on the same apps, with the same state, URI and number of services each. -/
structure SameApps (left right : Json) : Prop where
  names : ∀ name, (appOf left name).isSome = (appOf right name).isSome
  views : ∀ name app other, appOf left name = some app → appOf right name = some other →
    appView app = appView other

theorem sameApps_iff {left right : Json} :
    SameApps left right ↔
      ∀ name, (appOf left name).map appView = (appOf right name).map appView := by
  constructor
  · intro h name
    have hname := h.names name
    cases hleft : appOf left name with
    | none =>
      rw [hleft, Option.isSome_none, eq_comm, Option.isSome_eq_false_iff,
        Option.isNone_iff_eq_none] at hname
      rw [hname]
    | some app =>
      rw [hleft, Option.isSome_some, eq_comm] at hname
      obtain ⟨other, hright⟩ := Option.isSome_iff_exists.mp hname
      rw [hright, Option.map_some, Option.map_some, h.views name app other hleft hright]
  · intro h
    refine ⟨fun name => ?_, fun name app other hleft hright => ?_⟩
    · rw [← Option.isSome_map, h name, Option.isSome_map]
    · have hname := h name
      rw [hleft, hright] at hname
      exact Option.some.inj hname

theorem equivalence_sameApps : Equivalence SameApps where
  refl _ := sameApps_iff.mpr fun _ => rfl
  symm h := sameApps_iff.mpr fun name => (sameApps_iff.mp h name).symm
  trans h h' := sameApps_iff.mpr fun name =>
    (sameApps_iff.mp h name).trans (sameApps_iff.mp h' name)

/-! ## The apps of a report -/

theorem appView_eq_ok {app : Json} {view : AppView} (h : appView app = .ok view) :
    app.index "state" = .ok view.state ∧ app.index "uri" = .ok view.uri ∧
      ∃ services, app.index "services" = .ok services ∧ services.size = view.services := by
  obtain ⟨state, hstate, h⟩ := bind_eq_ok.mp h
  obtain ⟨uri, huri, h⟩ := bind_eq_ok.mp h
  obtain ⟨services, hservices, h⟩ := bind_eq_ok.mp h
  cases h
  exact ⟨hstate, huri, services, hservices, rfl⟩

theorem returns_appView {app v : Json} {key : String} (h : app.index key = .ok v) :
    Returns (appView app) := by
  obtain ⟨state, hstate⟩ := Json.index_returns h "state"
  obtain ⟨uri, huri⟩ := Json.index_returns h "uri"
  obtain ⟨services, hservices⟩ := Json.index_returns h "services"
  refine ⟨⟨state, uri, services.size⟩, ?_⟩
  rw [appView, hstate, ok_bind, huri, ok_bind, hservices, ok_bind]
  rfl

theorem returns_appView_insert {app app' v : Json} {key : String}
    (h : app.insert key v = .ok app') : Returns (appView app') :=
  returns_appView (Json.index_of_find (Json.find_insert_self h))

/-- The entry of a checked app is an object. -/
theorem checkApp_returns_view {app app' : Json} (h : checkApp app = .ok app') :
    Returns (appView app') := by
  obtain ⟨⟨app₁, services⟩, _, h⟩ := bind_eq_ok.mp h
  obtain ⟨app₂, _, h⟩ := bind_eq_ok.mp h
  obtain ⟨⟨values, healthy⟩, _, h⟩ := bind_eq_ok.mp h
  obtain ⟨app₃, hservices, h⟩ := bind_eq_ok.mp h
  obtain ⟨app₄, hmark, h⟩ := bind_eq_ok.mp h
  have hview : Returns (appView app₄) := by
    unfold markState at hmark
    split at hmark
    · cases hmark
      exact returns_appView_insert hservices
    · exact returns_appView_insert hmark
  unfold addUri at h
  obtain ⟨member, _, h⟩ := bind_eq_ok.mp h
  split at h
  · cases h
    exact hview
  · exact returns_appView_insert h

/-! ## The loop -/

section Loop

variable {others : Json}

/-- One app. -/
theorem compareEntry_eq (hdict : others.IsDict)
    (hothers : ∀ entry ∈ others.entries, Returns (appView entry.2)) {app : Json}
    (happ : Returns (appView app)) (name : String) :
    ∃ same, compareEntry others name app = .ok same ∧
      (same = true ↔ ∃ other, others.entries.lookup name = some other ∧
        appView app = appView other) := by
  have hfind := hdict.find name
  unfold compareEntry
  rw [Json.isMember_of_find hfind, ok_bind, Json.index_of_find hfind, ok_bind]
  cases hlookup : others.entries.lookup name with
  | none => exact ⟨false, rfl, by simp⟩
  | some other =>
    obtain ⟨view, hview⟩ := happ
    obtain ⟨view', hview'⟩ := hothers _ (mem_of_lookup hlookup)
    obtain ⟨hstate, huri, services, hservices, hsize⟩ := appView_eq_ok hview
    obtain ⟨hstate', huri', services', hservices', hsize'⟩ := appView_eq_ok hview'
    have hiff : (∃ o, some other = some o ∧ appView app = appView o) ↔ view = view' := by
      rw [hview]
      constructor
      · rintro ⟨o, ho, heq⟩
        cases ho
        exact Except.ok.inj (heq.trans hview')
      · intro heq
        exact ⟨other, rfl, by rw [hview', heq]⟩
    rw [hiff, Option.getD_some, hstate, ok_bind, hstate', ok_bind, huri, ok_bind, huri', ok_bind,
      hservices, ok_bind, hservices', ok_bind, hsize, hsize', AppView.ext_iff]
    by_cases hs : view.state = view'.state
    swap
    · exact ⟨false, if_pos hs, by simp [hs]⟩
    by_cases hu : view.uri = view'.uri
    swap
    · exact ⟨false, (if_neg (not_not.mpr hs)).trans (if_pos hu), by simp [hu]⟩
    · refine ⟨view.services == view'.services, ?_, by simp [hs, hu]⟩
      exact (if_neg (not_not.mpr hs)).trans (if_neg (not_not.mpr hu))

/-- All apps. -/
theorem compareAppLists_eq (hdict : others.IsDict)
    (hothers : ∀ entry ∈ others.entries, Returns (appView entry.2)) {apps : List (String × Json)}
    (happs : ∀ entry ∈ apps, Returns (appView entry.2)) :
    ∃ same, compareAppLists others apps = .ok same ∧
      (same = true ↔ ∀ entry ∈ apps, ∃ other, others.entries.lookup entry.1 = some other ∧
        appView entry.2 = appView other) := by
  induction apps with
  | nil => exact ⟨true, rfl, by simp⟩
  | cons entry apps ih =>
    obtain ⟨happ, happs⟩ := List.forall_mem_cons.mp happs
    obtain ⟨first, hfirst, hiff⟩ := compareEntry_eq hdict hothers happ entry.1
    obtain ⟨rest, hrest, hrestIff⟩ := ih happs
    rw [compareAppLists, hfirst, ok_bind, List.forall_mem_cons, ← hiff, ← hrestIff]
    cases first with
    | false => exact ⟨false, rfl, by simp⟩
    | true => exact ⟨rest, hrest, by simp⟩

end Loop

/-! ## Reports -/

/-- A report that is there was built from the checked apps. -/
theorem getAppsState_ne_null {runningApps : Except String Json}
    {deploymentHash : Except String String} {now : String}
    (h : getAppsState runningApps deploymentHash now ≠ .null) :
    ∃ running apps hash, runningApps = .ok running ∧ running.mapValues checkApp = .ok apps ∧
      getAppsState runningApps deploymentHash now =
        .obj [("deviceTime", .str now), ("ostree", .str hash), ("apps", apps)] := by
  unfold getAppsState at h ⊢
  cases runningApps with
  | error e => exact absurd rfl h
  | ok running =>
    rw [ok_bind] at h ⊢
    cases happs : running.mapValues checkApp with
    | error e =>
      rw [happs] at h
      exact absurd rfl h
    | ok apps =>
      rw [happs] at h
      cases deploymentHash with
      | error e => exact absurd rfl h
      | ok hash => exact ⟨running, apps, hash, rfl, happs, rfl⟩

/-- What a report is made of.  The engine answers with null or with an object that has a field
for every app. -/
structure Observation where
  runningApps : Except String Json
  deploymentHash : Except String String
  now : String
  dict : ∀ apps, runningApps = .ok apps → apps.IsDict

/-- Null if there is no report. -/
def Observation.report (o : Observation) : Json :=
  getAppsState o.runningApps o.deploymentHash o.now

/-- A report that was built. -/
structure Report where
  json : Json
  built : ∃ o : Observation, o.report = json
  ne_null : json ≠ .null

namespace Report

/-- The parts of a report. -/
theorem exists_apps (r : Report) :
    ∃ now hash apps,
      r.json = .obj [("deviceTime", .str now), ("ostree", .str hash), ("apps", apps)] ∧
        apps.IsDict ∧ ∀ entry ∈ apps.entries, Returns (appView entry.2) := by
  obtain ⟨json, ⟨o, rfl⟩, hnull⟩ := r
  obtain ⟨running, apps, hash, hrunning, happs, hreport⟩ := getAppsState_ne_null hnull
  obtain ⟨hdict, hchecked⟩ := (o.dict running hrunning).mapValues happs
  refine ⟨o.now, hash, apps, hreport, hdict, fun entry hentry => ?_⟩
  obtain ⟨app, happ⟩ := hchecked entry hentry
  exact checkApp_returns_view happ

/-- Comparing two reports returns, and it tells whether they are on the same apps. -/
theorem compareAppsStates_eq (left right : Report) :
    ∃ same, compareAppsStates left.json right.json = .ok same ∧
      (same = true ↔ SameApps left.json right.json) := by
  obtain ⟨now, hash, apps, hleft, hdict, hviews⟩ := left.exists_apps
  obtain ⟨now', hash', others, hright, hdict', hviews'⟩ := right.exists_apps
  have hsame : SameApps left.json right.json ↔ apps.size = others.size ∧
      ∀ entry ∈ apps.entries, ∃ other, others.entries.lookup entry.1 = some other ∧
        appView entry.2 = appView other := by
    rw [sameApps_iff, hleft, hright, Json.size_eq_length, Json.size_eq_length]
    exact forall_lookup_iff appView hdict.nodup hdict'.nodup
  obtain ⟨same, hloop, hiff⟩ := compareAppLists_eq hdict' hviews' hviews
  rw [hsame, ← hiff, hleft, hright]
  by_cases hsize : apps.size = others.size
  · exact ⟨same, (if_neg (not_not.mpr hsize)).trans hloop, by simp [hsize]⟩
  · exact ⟨false, if_pos hsize, by simp [hsize]⟩

theorem compareAppsStates_iff (left right : Report) :
    compareAppsStates left.json right.json = .ok true ↔ SameApps left.json right.json := by
  obtain ⟨same, hcompare, hiff⟩ := compareAppsStates_eq left right
  rw [hcompare, ← hiff, Except.ok.injEq]

/-- Before the first report has been accepted, every report is new. -/
theorem compareAppsStates_null (r : Report) : compareAppsStates .null r.json = .ok false := by
  obtain ⟨now, hash, apps, hjson, -⟩ := r.exists_apps
  rw [hjson]
  rfl

end Report

/-! ## Sending -/

/-- The member `apps_state_` of the client, and the reports that the gateway has accepted,
the last one first. -/
structure ReportState where
  appsState : Json := .null
  accepted : List Json := []

/-- The second result tells whether the post went through, if there was one. -/
def reportAppsState (s : ReportState) (o : Observation) (isOk : Bool) :
    Except String (ReportState × Option Bool) := do
  let report := o.report
  if report.isNull then return (s, none)
  if ← compareAppsStates s.appsState report then return (s, none)
  if isOk then return (⟨report, report :: s.accepted⟩, some true)
  return (s, some false)

def reportAll (calls : List (Observation × Bool)) (s : ReportState) : Except String ReportState :=
  calls.foldlM (fun s call => return (← reportAppsState s call.1 call.2).1) s

/-- The client holds the last report that was accepted. -/
inductive ReportState.Holds : ReportState → Prop
  | start : Holds ⟨.null, []⟩
  | report (r : Report) (accepted : List Json) : Holds ⟨r.json, r.json :: accepted⟩

/-- The gateway's last report is on the same apps. -/
def ReportState.Current (s : ReportState) (report : Json) : Prop :=
  ∃ last : Report, s.accepted.head? = some last.json ∧
    compareAppsStates last.json report = .ok true

theorem ReportState.Holds.compare {s : ReportState} (h : s.Holds) (r : Report) :
    ∃ same, compareAppsStates s.appsState r.json = .ok same ∧
      (same = true → s.Current r.json) := by
  cases h with
  | start => exact ⟨false, r.compareAppsStates_null, by simp⟩
  | report last accepted =>
    obtain ⟨same, hcompare, -⟩ := Report.compareAppsStates_eq last r
    refine ⟨same, hcompare, ?_⟩
    rintro rfl
    exact ⟨last, rfl, hcompare⟩

/-- One call. -/
theorem reportAppsState_eq {s : ReportState} (h : s.Holds) (o : Observation) (isOk : Bool) :
    ∃ s' post, reportAppsState s o isOk = .ok (s', post) ∧ s'.Holds ∧
      (post ≠ some false → ∀ r : Report, r.json = o.report → s'.Current r.json) := by
  unfold reportAppsState
  by_cases hnull : o.report = .null
  · refine ⟨s, none, by rw [hnull]; rfl, h, fun _ r hr => ?_⟩
    exact absurd (hr.trans hnull) r.ne_null
  have hisNull : ¬ o.report.isNull = true := by
    rwa [Json.isNull_iff]
  let r : Report := ⟨o.report, ⟨o, rfl⟩, hnull⟩
  obtain ⟨same, hcompare, hcurrent⟩ := h.compare r
  change compareAppsStates s.appsState o.report = .ok same at hcompare
  dsimp only
  rw [if_neg hisNull, hcompare]
  cases same with
  | true =>
    refine ⟨s, none, rfl, h, fun _ r' hr' => ?_⟩
    rw [hr']
    exact hcurrent rfl
  | false =>
    cases isOk with
    | false => exact ⟨s, some false, rfl, h, fun hpost => absurd rfl hpost⟩
    | true =>
      refine ⟨⟨r.json, r.json :: s.accepted⟩, some true, rfl, .report r s.accepted,
        fun _ r' hr' => ⟨r, rfl, ?_⟩⟩
      rw [hr']
      exact (Report.compareAppsStates_iff r r).mpr (equivalence_sameApps.refl _)

/-- All calls. -/
theorem reportAll_holds (calls : List (Observation × Bool)) {s : ReportState} (h : s.Holds) :
    ∃ s', reportAll calls s = .ok s' ∧ s'.Holds := by
  induction calls generalizing s with
  | nil => exact ⟨s, rfl, h⟩
  | cons call calls ih =>
    obtain ⟨s₁, post, hstep, hholds, -⟩ := reportAppsState_eq h call.1 call.2
    obtain ⟨s', hrest, hholds'⟩ := ih hholds
    refine ⟨s', ?_, hholds'⟩
    rw [reportAll, List.foldlM_cons, hstep]
    exact hrest

/-- Comparing reports is an equivalence relation, by apps.  After a call whose post went
through, if there was one, the gateway's last report is on the same apps as the current one. -/
theorem compareAppsStates_equivalence :
    (Equivalence fun left right : Report =>
      compareAppsStates left.json right.json = .ok true) ∧
    (∀ left right : Report, Returns (compareAppsStates left.json right.json) ∧
      (compareAppsStates left.json right.json = .ok true ↔ SameApps left.json right.json)) ∧
    ∀ (calls : List (Observation × Bool)) (o : Observation) (isOk : Bool),
      ∃ s s' post, reportAll calls {} = .ok s ∧ reportAppsState s o isOk = .ok (s', post) ∧
        (post ≠ some false → ∀ r : Report, r.json = o.report → s'.Current r.json) := by
  refine ⟨?_, fun left right => ⟨?_, Report.compareAppsStates_iff left right⟩,
    fun calls o isOk => ?_⟩
  · have hsame := equivalence_sameApps.comap Report.json
    simp only [Report.compareAppsStates_iff]
    exact hsame
  · obtain ⟨same, hcompare, -⟩ := Report.compareAppsStates_eq left right
    exact ⟨same, hcompare⟩
  · obtain ⟨s, hrun, hholds⟩ := reportAll_holds calls .start
    obtain ⟨s', post, hstep, -, hcurrent⟩ := reportAppsState_eq hholds o isOk
    exact ⟨s, s', post, hrun, hstep, hcurrent⟩

/-- A service that is running, with the text that tells since when. -/
def webObservation (status now : String) : Observation where
  runningApps := .ok (.obj [("web", .obj [("services",
    .arr [.obj [("state", .str "running"), ("status", .str status)]])])])
  deploymentHash := .ok "aa"
  now := now
  dict _ h := by
    cases h
    exact ⟨fun _ => rfl, List.pairwise_singleton _ _⟩

def webReport (status now : String) : Report where
  json := (webObservation status now).report
  built := ⟨_, rfl⟩
  ne_null h := by cases h

/-- This text does not count, so that the second report is not sent. -/
theorem uptime_not_compared :
    SameApps (webReport "Up 1 minute" "9:01").json (webReport "Up 2 minutes" "9:02").json ∧
    ∃ s s', reportAll [(webObservation "Up 1 minute" "9:01", true)] {} = .ok s ∧
      reportAppsState s (webObservation "Up 2 minutes" "9:02") true = .ok (s', none) ∧
      s'.Current (webReport "Up 2 minutes" "9:02").json := by
  obtain ⟨_, hcompare, hsent⟩ := compareAppsStates_equivalence
  obtain ⟨s, s', post, hs, hs', hcurrent⟩ :=
    hsent [(webObservation "Up 1 minute" "9:01", true)] (webObservation "Up 2 minutes" "9:02") true
  cases hs
  cases hs'
  exact ⟨(hcompare _ _).2.mp rfl, _, _, rfl, rfl, hcurrent (by decide) (webReport _ _) rfl⟩

end Client
end AkLite
