/-
The apps that the configuration requires of a target.

`getRequiredApps` goes over the configured names and the names kept for a reset,
and takes what the target has under each.  `mem_getRequiredApps` says it by
membership: an app is required if it is the entry under its name and the
configuration requires the name.  `getApps` goes over the entries of the target and
takes the enabled ones, which are the required ones but for those of a reset.  The
two differ in what they do with a malformed entry: the one skips it, the other one
throws (`takesReadable_iff`).
-/
import AkLite.Client.ComposeAppManager
import AkLite.Client.InstalledVersions
import AkLite.Lib.Outcome

namespace AkLite
namespace Client

open Lib

/-- The entries of the member of the apps, which is an object or missing. -/
def AppFields (custom : Json) (fields : List (String × Json)) : Prop :=
  appsJson custom = .ok (.obj fields) ∨ (appsJson custom = .ok .null ∧ fields = [])

/-- The app is kept for a reset, if the target has it. -/
def Config.resets (cfg : Config) (name : String) : Bool :=
  match cfg.resetApps with
  | none => false
  | some ["*"] => true
  | some resetApps => resetApps.contains name

/-- The configuration requires the app, if the target has it. -/
def Config.requires (cfg : Config) (name : String) : Bool :=
  cfg.enables name || cfg.resets name

/-- The names that are asked for: the configured ones, or else those of the target, and those kept
for a reset. -/
def Config.asked (cfg : Config) (targetNames : List String) : List String :=
  cfg.apps.getD targetNames ++
    if cfg.resetApps = some ["*"] then targetNames else cfg.resetApps.getD []

/-- Every app of the target is asked for, whatever its name. -/
def Config.AsksAll (cfg : Config) : Prop := cfg.apps = none ∨ cfg.resetApps = some ["*"]

/-- The URI of an app entry, if the entry has one, is a text. -/
def UriReads (data : Json) : Prop :=
  ∀ fields uri, data = .obj fields → fields.lookup "uri" = some uri → Returns uri.asString

/-- An app entry as it should be: an object with a URI that is a text. -/
def WellFormedApp (data : Json) : Prop :=
  ∃ members uri text, data = .obj members ∧ members.lookup "uri" = some uri ∧
    uri.asString = .ok text

/-- The app is the entry under its name. -/
def IsApp (styled : Json → String) (fields : List (String × Json)) (app : App) : Prop :=
  ∃ data, fields.lookup app.1 = some data ∧ appDesc styled app.1 data = .ok app

section Proofs

variable {styled : Json → String} {cfg : Config} {custom custom' : Json}
  {fields : List (String × Json)}

/-! ## The member of the apps -/

theorem AppFields.json (h : AppFields custom fields) :
    ∃ json, appsJson custom = .ok json ∧ json.entries = fields ∧
      ∀ name, json.find name = .ok (fields.lookup name) := by
  rcases h with h | ⟨h, rfl⟩
  · exact ⟨.obj fields, h, rfl, fun _ => rfl⟩
  · exact ⟨.null, h, rfl, fun _ => rfl⟩

theorem AppFields.congr (hsame : custom'.index "docker_compose_apps" =
    custom.index "docker_compose_apps") (h : AppFields custom fields) :
    AppFields custom' fields := by
  unfold AppFields appsJson at h ⊢
  rwa [hsame]

theorem AppFields.nodup (h : AppFields custom fields) (hkeys : ∀ fields,
    appsJson custom = .ok (.obj fields) → (fields.map Prod.fst).Nodup) :
    (fields.map Prod.fst).Nodup := by
  rcases h with h | ⟨-, rfl⟩
  · exact hkeys fields h
  · exact List.nodup_nil

theorem AppFields.unique {fields' : List (String × Json)} (h : AppFields custom fields)
    (h' : AppFields custom fields') : fields = fields' := by
  obtain ⟨json, hjson, rfl, _⟩ := h.json
  obtain ⟨json', hjson', rfl, _⟩ := h'.json
  rw [Except.ok.inj (hjson.symm.trans hjson')]

/-! ## The apps under the names -/

variable {name : String} {data : Json} {app : App} {apps : List App}

/-- An entry that can be read is an object with a URI that is a text. -/
theorem appDesc_eq_ok :
    appDesc styled name data = .ok app ↔
      ∃ members uri text, data = .obj members ∧ members.lookup "uri" = some uri ∧
        uri.asString = .ok text ∧ app = (name, text) := by
  constructor
  · intro h
    unfold appDesc at h
    cases data with
    | obj members =>
      dsimp only at h
      cases huri : members.lookup "uri" with
      | none =>
        rw [huri] at h
        cases h
      | some uri =>
        rw [huri] at h
        obtain ⟨text, htext, h⟩ := bind_eq_ok.mp h
        cases h
        exact ⟨members, uri, text, rfl, huri, htext, rfl⟩
    | _ => cases h
  · rintro ⟨members, uri, text, rfl, huri, htext, rfl⟩
    unfold appDesc
    dsimp only
    rw [huri]
    exact bind_eq_ok.mpr ⟨text, htext, rfl⟩

theorem returns_appDesc_iff : Returns (appDesc styled name data) ↔ WellFormedApp data := by
  constructor
  · rintro ⟨app, h⟩
    obtain ⟨members, uri, text, hdata, huri, htext, -⟩ := appDesc_eq_ok.mp h
    exact ⟨members, uri, text, hdata, huri, htext⟩
  · rintro ⟨members, uri, text, hdata, huri, htext⟩
    exact ⟨(name, text), appDesc_eq_ok.mpr ⟨members, uri, text, hdata, huri, htext, rfl⟩⟩

theorem appDesc_name (h : appDesc styled name data = .ok app) : app.1 = name := by
  obtain ⟨_, _, _, _, _, _, rfl⟩ := appDesc_eq_ok.mp h
  rfl

/-- There is one app under a name. -/
theorem IsApp.unique {a b : App} (ha : IsApp styled fields a) (hb : IsApp styled fields b)
    (hname : a.1 = b.1) : a = b := by
  obtain ⟨data, hdata, ha⟩ := ha
  obtain ⟨data', hdata', hb⟩ := hb
  rw [hname] at hdata ha
  obtain rfl : data = data' := Option.some.inj (hdata.symm.trans hdata')
  exact Except.ok.inj (ha.symm.trans hb)

theorem isApp_filter {p : String → Bool} :
    IsApp styled (fields.filter fun entry => p entry.1) app ↔
      p app.1 = true ∧ IsApp styled fields app := by
  unfold IsApp
  rw [lookup_filter_key]
  by_cases hp : p app.1 = true
  · simp [hp]
  · simp [hp]

theorem mem_putApp {name uri : String} (h : app ∈ putApp apps name uri) :
    app ∈ apps ∨ app = (name, uri) := by
  unfold putApp at h
  split at h
  · obtain ⟨a, ha, happ⟩ := List.mem_map.mp h
    split at happ
    · exact .inr happ.symm
    · exact .inl (happ ▸ ha)
  · simpa using h

/-- An assignment of the app that may be there already. -/
theorem mem_putApp_iff {name uri : String} (hsame : ∀ a ∈ apps, a.1 = name → a = (name, uri)) :
    app ∈ putApp apps name uri ↔ app ∈ apps ∨ app = (name, uri) := by
  refine ⟨mem_putApp, fun h => ?_⟩
  unfold putApp
  split
  · next hsome =>
    obtain ⟨uri', hlookup⟩ := Option.isSome_iff_exists.mp hsome
    obtain ⟨front, back, happs, _⟩ := List.lookup_eq_some_iff.mp hlookup
    have hthere : (name, uri') ∈ apps := by simp [happs]
    have hmem : app ∈ apps := by
      rcases h with h | h
      · exact h
      · rw [h, ← hsame _ hthere rfl]
        exact hthere
    refine List.mem_map.mpr ⟨app, hmem, ?_⟩
    by_cases hname : app.1 = name
    · rw [if_pos hname, hsame app hmem hname]
    · rw [if_neg hname]
  · simpa using h

/-! ## The names that are asked for -/

theorem Config.AsksAll.requires (h : cfg.AsksAll) (name : String) : cfg.requires name = true := by
  unfold Config.requires Config.enables Config.resets
  rcases h with h | h
  · simp [h]
  · simp [h]

theorem Config.resets_eq (name : String) :
    cfg.resets name =
      if cfg.resetApps = some ["*"] then true else (cfg.resetApps.getD []).contains name := by
  unfold Config.resets
  split
  · next h => simp [h]
  · next h => simp [h]
  · next resetApps hne h =>
    have hstar : resetApps ≠ ["*"] := hne
    simp [h, hstar]

/-- A name of the target is asked for if the configuration requires it. -/
theorem mem_asked {names : List String} (hname : name ∈ names) :
    name ∈ cfg.asked names ↔ cfg.requires name = true := by
  unfold Config.asked Config.requires Config.enables
  rw [List.mem_append, Bool.or_eq_true, Config.resets_eq]
  refine or_congr ?_ ?_
  · cases cfg.apps with
    | none => exact iff_of_true hname rfl
    | some apps => exact List.contains_iff_mem.symm
  · by_cases hstar : cfg.resetApps = some ["*"]
    · rw [if_pos hstar, if_pos hstar]
      exact iff_of_true hname rfl
    · rw [if_neg hstar, if_neg hstar, List.contains_iff_mem]

variable {json : Json}

/-- The names of the target's apps can be read if all its apps can. -/
theorem targetNames_eq_ok (hjson : appsJson custom = .ok json) {names : List String} :
    (targetApps styled custom).map (fun apps => apps.map Prod.fst) = .ok names ↔
      names = json.entries.map Prod.fst ∧
        ∀ entry ∈ json.entries, Returns (appDesc styled entry.1 entry.2) := by
  rw [targetApps, hjson, ok_bind, ← returns_mapM_iff]
  cases hall : json.entries.mapM fun e => appDesc styled e.1 e.2 with
  | error e => simp [Except.map]
  | ok all =>
    have hkeys : all.map Prod.fst = json.entries.map Prod.fst :=
      mapM_map hall fun entry app => appDesc_name
    simp [Except.map, hkeys, eq_comm]

/-- The names are asked for if the target's apps can be read, or need not be. -/
theorem requiredNames_eq_ok (hjson : appsJson custom = .ok json) {names : List String} :
    requiredNames styled cfg custom = .ok names ↔
      names = cfg.asked (json.entries.map Prod.fst) ∧
        (cfg.AsksAll → ∀ entry ∈ json.entries, Returns (appDesc styled entry.1 entry.2)) := by
  have hconfigured : ∀ configured, cfg.apps.elim
      ((targetApps styled custom).map fun apps => apps.map Prod.fst) pure = .ok configured ↔
        configured = cfg.apps.getD (json.entries.map Prod.fst) ∧ (cfg.apps = none →
          ∀ entry ∈ json.entries, Returns (appDesc styled entry.1 entry.2)) := by
    intro configured
    cases cfg.apps with
    | none => simp [targetNames_eq_ok hjson]
    | some apps => simp [pure, Except.pure, eq_comm]
  unfold requiredNames Config.asked Config.AsksAll
  simp only [bind_eq_ok, hconfigured]
  split
  · next h => simp [h, pure, Except.pure, and_comm, eq_comm]
  · next h =>
    rw [if_pos h]
    constructor
    · rintro ⟨_, ⟨rfl, -⟩, hnames⟩
      obtain ⟨_, htarget, hnames⟩ := bind_eq_ok.mp hnames
      obtain ⟨rfl, hreads⟩ := (targetNames_eq_ok hjson).mp htarget
      cases hnames
      exact ⟨rfl, fun _ => hreads⟩
    · rintro ⟨rfl, hall⟩
      have hreads := hall (.inr h)
      have htarget := (targetNames_eq_ok hjson).mpr ⟨rfl, hreads⟩
      exact ⟨_, ⟨rfl, fun _ => hreads⟩, bind_eq_ok.mpr ⟨_, htarget, rfl⟩⟩
  · next resetApps hne h =>
    have hstar : resetApps ≠ ["*"] := hne
    simp [h, hstar, pure, Except.pure, and_comm, eq_comm]

/-! ## The required apps -/

theorem returns_addRequired_iff :
    Returns (addRequired styled json apps name) ↔
      ∃ found, json.find name = .ok found ∧
        ∀ data, found = some data → Returns (appDesc styled name data) := by
  unfold addRequired
  cases hfind : json.find name with
  | error e =>
    rw [Json.isMember, hfind]
    simp [bind, Except.bind]
  | ok found =>
    rw [Json.isMember_of_find hfind, Json.index_of_find hfind, ok_bind, ok_bind]
    cases found with
    | none => simp
    | some data =>
      have hread : Returns (appDesc styled name data) ↔ Returns (do
          let app ← appDesc styled name data
          return putApp apps app.1 app.2) := by
        rw [returns_bind_iff]
        exact exists_congr fun app => (and_iff_left ⟨_, rfl⟩).symm
      constructor
      · intro h
        refine ⟨_, rfl, ?_⟩
        rintro _ ⟨⟩
        exact hread.mpr h
      · rintro ⟨_, hsome, h⟩
        exact hread.mp (h data (Except.ok.inj hsome).symm)

/-- A name adds the app that is under it. -/
theorem addRequired_eq (hfind : ∀ name, json.find name = .ok (fields.lookup name)) (apps : List App)
    (hread : ∀ data, fields.lookup name = some data → Returns (appDesc styled name data)) :
    (fields.lookup name = none ∧ addRequired styled json apps name = .ok apps) ∨
      ∃ uri, IsApp styled fields (name, uri) ∧
        addRequired styled json apps name = .ok (putApp apps name uri) := by
  rw [addRequired, Json.isMember_of_find (hfind name), Json.index_of_find (hfind name)]
  cases hlookup : fields.lookup name with
  | none => exact .inl ⟨rfl, rfl⟩
  | some data =>
    obtain ⟨⟨name', uri⟩, happ⟩ := hread data hlookup
    obtain rfl : name' = name := appDesc_name happ
    refine .inr ⟨uri, ⟨data, hlookup, happ⟩, ?_⟩
    exact bind_eq_ok.mpr ⟨true, rfl, bind_eq_ok.mpr ⟨data, rfl, bind_eq_ok.mpr ⟨_, happ, rfl⟩⟩⟩

/-- The loop over the names collects the apps that are under them. -/
theorem foldlM_addRequired (names : List String)
    (hfind : ∀ name, json.find name = .ok (fields.lookup name))
    (hreads : ∀ name ∈ names, ∀ data, fields.lookup name = some data →
      Returns (appDesc styled name data))
    (happs : ∀ a ∈ apps, IsApp styled fields a) :
    ∃ required, names.foldlM (addRequired styled json) apps = .ok required ∧
      ∀ app, app ∈ required ↔ app ∈ apps ∨ (app.1 ∈ names ∧ IsApp styled fields app) := by
  induction names generalizing apps with
  | nil => exact ⟨apps, rfl, by simp⟩
  | cons name rest ih =>
    have hrest := fun n hn => hreads n (List.mem_cons_of_mem name hn)
    rcases addRequired_eq hfind apps (hreads name List.mem_cons_self) with
      ⟨hnone, hadd⟩ | ⟨uri, hthere, hadd⟩
    · obtain ⟨required, hfold, hmem⟩ := ih hrest happs
      refine ⟨required, bind_eq_ok.mpr ⟨apps, hadd, hfold⟩, fun app => ?_⟩
      rw [hmem app, List.mem_cons]
      refine or_congr_right (and_congr_left fun hisApp => (or_iff_right ?_).symm)
      rintro rfl
      obtain ⟨data, hdata, _⟩ := hisApp
      cases hnone.symm.trans hdata
    · have hput : ∀ app, app ∈ putApp apps name uri ↔ app ∈ apps ∨ app = (name, uri) :=
        fun app => mem_putApp_iff fun a ha hname => (happs a ha).unique hthere hname
      have happs' : ∀ a ∈ putApp apps name uri, IsApp styled fields a := by
        intro a ha
        rcases (hput a).mp ha with h | rfl
        · exact happs a h
        · exact hthere
      obtain ⟨required, hfold, hmem⟩ := ih hrest happs'
      refine ⟨required, bind_eq_ok.mpr ⟨_, hadd, hfold⟩, fun app => ?_⟩
      rw [hmem app, hput app, or_assoc, List.mem_cons, or_and_right]
      refine or_congr_right (or_congr_left ⟨?_, ?_⟩)
      · rintro rfl
        exact ⟨rfl, hthere⟩
      · rintro ⟨hname, hisApp⟩
        exact hisApp.unique hthere hname

theorem IsApp.mem_keys (h : IsApp styled fields app) : app.1 ∈ fields.map Prod.fst := by
  obtain ⟨data, hdata, _⟩ := h
  exact List.mem_map_of_mem (mem_of_lookup hdata)

/-- The required apps are the entries under the names that the configuration requires. -/
theorem mem_getRequiredApps (hfields : AppFields custom fields)
    (hreads : ∀ entry ∈ fields, cfg.requires entry.1 = true →
      Returns (appDesc styled entry.1 entry.2)) :
    ∃ required, getRequiredApps styled cfg custom = .ok required ∧
      ∀ app, app ∈ required ↔ cfg.requires app.1 = true ∧ IsApp styled fields app := by
  obtain ⟨json, hjson, rfl, hfind⟩ := hfields.json
  have hnames : requiredNames styled cfg custom = .ok (cfg.asked (json.entries.map Prod.fst)) :=
    (requiredNames_eq_ok hjson).mpr ⟨rfl, fun hall e he => hreads e he (hall.requires e.1)⟩
  have hasked : ∀ name ∈ cfg.asked (json.entries.map Prod.fst), ∀ data,
      json.entries.lookup name = some data → Returns (appDesc styled name data) := by
    intro name hname data hdata
    have hentry := mem_of_lookup hdata
    exact hreads _ hentry ((mem_asked (List.mem_map_of_mem hentry)).mp hname)
  obtain ⟨required, hfold, happ⟩ := foldlM_addRequired _ hfind hasked (List.forall_mem_nil _)
  refine ⟨required, bind_eq_ok.mpr ⟨json, hjson, bind_eq_ok.mpr ⟨_, hnames, hfold⟩⟩, ?_⟩
  intro app
  rw [happ app]
  refine (or_iff_right List.not_mem_nil).trans (and_congr_left fun hisApp => ?_)
  exact mem_asked hisApp.mem_keys

/-! ## The enabled apps -/

theorem returns_addApp_iff {entry : String × Json} :
    Returns (addApp cfg apps entry) ↔ UriReads entry.2 := by
  obtain ⟨name, data⟩ := entry
  cases data with
  | obj members =>
    unfold addApp UriReads
    dsimp only
    cases huri : members.lookup "uri" with
    | none =>
      refine iff_of_true ⟨apps, rfl⟩ ?_
      rintro _ _ ⟨⟩ hsome
      cases huri.symm.trans hsome
    | some uri =>
      rw [returns_bind_iff]
      constructor
      · rintro ⟨text, htext, -⟩ _ _ ⟨⟩ hsome
        cases huri.symm.trans hsome
        exact ⟨text, htext⟩
      · intro h
        obtain ⟨text, htext⟩ := h members uri rfl huri
        exact ⟨text, htext, _, rfl⟩
  | _ =>
    refine iff_of_true ⟨apps, rfl⟩ ?_
    rintro _ _ ⟨⟩

/-- An entry that cannot be read is skipped, and another one is assigned to its name, if the name
is enabled. -/
theorem addApp_eq (styled : Json → String) (cfg : Config) (apps : List App) (name : String)
    (huri : UriReads data) :
    (¬Returns (appDesc styled name data) ∧ addApp cfg apps (name, data) = .ok apps) ∨
      ∃ uri, appDesc styled name data = .ok (name, uri) ∧
        addApp cfg apps (name, data) =
          .ok (if cfg.enables name then putApp apps name uri else apps) := by
  by_cases hread : Returns (appDesc styled name data)
  · obtain ⟨_, happ⟩ := hread
    obtain ⟨members, uri, text, rfl, hlookup, htext, rfl⟩ := appDesc_eq_ok.mp happ
    refine .inr ⟨text, happ, ?_⟩
    unfold addApp
    dsimp only
    rw [hlookup]
    exact bind_eq_ok.mpr ⟨text, htext, rfl⟩
  · refine .inl ⟨hread, ?_⟩
    unfold addApp
    cases data with
    | obj members =>
      dsimp only
      cases hlookup : members.lookup "uri" with
      | none => rfl
      | some uri =>
        obtain ⟨text, htext⟩ := huri members uri rfl hlookup
        exact absurd ⟨_, appDesc_eq_ok.mpr ⟨members, uri, text, rfl, hlookup, htext, rfl⟩⟩ hread
    | _ => rfl

/-- An assignment to a new name. -/
theorem putApp_of_new (hnew : ∀ a ∈ apps, a.1 ≠ name) (uri : String) :
    putApp apps name uri = apps ++ [(name, uri)] := by
  unfold putApp
  rw [if_neg]
  rw [Option.not_isSome_iff_eq_none, List.lookup_eq_none_iff]
  intro a ha
  simpa using (hnew a ha).symm

/-- The loop over the entries of distinct names collects the enabled ones that can be read. -/
theorem foldlM_addApp {entries : List (String × Json)} (hkeys : (entries.map Prod.fst).Nodup)
    (huris : ∀ entry ∈ entries, UriReads entry.2)
    (hnew : ∀ a ∈ apps, a.1 ∉ entries.map Prod.fst) :
    ∃ found, entries.foldlM (addApp cfg) apps = .ok (apps ++ found) ∧
      ∀ app, app ∈ found ↔ cfg.enables app.1 = true ∧
        ∃ data, (app.1, data) ∈ entries ∧ appDesc styled app.1 data = .ok app := by
  induction entries generalizing apps with
  | nil => exact ⟨[], by simp [pure, Except.pure], by simp⟩
  | cons entry rest ih =>
    obtain ⟨name, data⟩ := entry
    rw [List.map_cons, List.nodup_cons] at hkeys
    have hrest := fun e he => huris e (List.mem_cons_of_mem _ he)
    have hcons : ∀ app : App,
        (∃ d, (app.1, d) ∈ (name, data) :: rest ∧ appDesc styled app.1 d = .ok app) ↔
          appDesc styled name data = .ok app ∨
            ∃ d, (app.1, d) ∈ rest ∧ appDesc styled app.1 d = .ok app := by
      intro app
      constructor
      · rintro ⟨d, hd, happ⟩
        rcases List.mem_cons.mp hd with heq | hd
        · cases heq
          exact .inl happ
        · exact .inr ⟨d, hd, happ⟩
      · rintro (happ | ⟨d, hd, happ⟩)
        · obtain rfl : app.1 = name := appDesc_name happ
          exact ⟨data, List.mem_cons_self, happ⟩
        · exact ⟨d, List.mem_cons_of_mem _ hd, happ⟩
    have hnewRest : ∀ a ∈ apps, a.1 ∉ rest.map Prod.fst :=
      fun a ha hmem => hnew a ha (List.mem_cons_of_mem _ hmem)
    rcases addApp_eq styled cfg apps name (huris (name, data) List.mem_cons_self) with
      ⟨hbad, hadd⟩ | ⟨uri, happ, hadd⟩
    · obtain ⟨found, hfold, hmem⟩ := ih hkeys.2 hrest hnewRest
      refine ⟨found, bind_eq_ok.mpr ⟨apps, hadd, hfold⟩, fun app => ?_⟩
      rw [hmem app, hcons app]
      refine and_congr_right fun _ => (or_iff_right ?_).symm
      exact fun happ => hbad ⟨app, happ⟩
    · by_cases hen : cfg.enables name = true
      · rw [if_pos hen, putApp_of_new fun a ha hname => hnew a ha (by simp [hname])] at hadd
        have hnew' : ∀ a ∈ apps ++ [(name, uri)], a.1 ∉ rest.map Prod.fst := by
          intro a ha
          rcases List.mem_append.mp ha with ha | ha
          · exact hnewRest a ha
          · rw [List.mem_singleton.mp ha]
            exact hkeys.1
        obtain ⟨found, hfold, hmem⟩ := ih hkeys.2 hrest hnew'
        refine ⟨(name, uri) :: found, bind_eq_ok.mpr ⟨_, hadd, ?_⟩, fun app => ?_⟩
        · rw [hfold, List.append_assoc, List.singleton_append]
        · rw [List.mem_cons, hmem app, hcons app, happ, Except.ok.injEq, eq_comm, and_or_left]
          refine or_congr_left (and_iff_right_of_imp ?_).symm
          rintro rfl
          exact hen
      · rw [if_neg hen] at hadd
        obtain ⟨found, hfold, hmem⟩ := ih hkeys.2 hrest hnewRest
        refine ⟨found, bind_eq_ok.mpr ⟨apps, hadd, hfold⟩, fun app => ?_⟩
        rw [hmem app, hcons app, happ, Except.ok.injEq]
        refine and_congr_right fun happEn => (or_iff_right ?_).symm
        rintro rfl
        exact hen happEn

/-- The enabled apps are the entries that can be read, under the names that are enabled. -/
theorem mem_getApps (hfields : AppFields custom fields) (hkeys : (fields.map Prod.fst).Nodup)
    (huris : ∀ entry ∈ fields, UriReads entry.2) :
    ∃ apps, getApps cfg custom = .ok apps ∧
      ∀ app, app ∈ apps ↔ cfg.enables app.1 = true ∧ IsApp styled fields app := by
  obtain ⟨json, hjson, rfl, -⟩ := hfields.json
  obtain ⟨apps, hfold, hmem⟩ := foldlM_addApp hkeys huris (List.forall_mem_nil _)
  refine ⟨apps, bind_eq_ok.mpr ⟨json, hjson, hfold⟩, fun app => ?_⟩
  rw [hmem app, IsApp]
  refine and_congr_right fun _ => exists_congr fun data => ?_
  rw [lookup_eq_some_iff_mem hkeys]

/-! ## Malformed entries -/

/-- Both functions return, what is enabled is required, and each takes the entries that can be
read under the names it looks for: an entry that cannot be read is as good as missing. -/
def TakesReadable (styled : Json → String) (cfg : Config) (custom : Json) : Prop :=
  ∃ json apps required, appsJson custom = .ok json ∧ getApps cfg custom = .ok apps ∧
    getRequiredApps styled cfg custom = .ok required ∧ (∀ app ∈ apps, app ∈ required) ∧
    (∀ app, app ∈ apps ↔ cfg.enables app.1 = true ∧ IsApp styled json.entries app) ∧
    ∀ app, app ∈ required ↔ cfg.requires app.1 = true ∧ IsApp styled json.entries app

/-- The member of the apps is there to be read: no URI is an object or an array, no entry of a
required name is malformed, and the member is an object unless no name is asked for. -/
def AppsReadable (cfg : Config) (custom : Json) : Prop :=
  ∃ json, appsJson custom = .ok json ∧ (∀ entry ∈ json.entries, UriReads entry.2) ∧
    (∀ entry ∈ json.entries, cfg.requires entry.1 = true → WellFormedApp entry.2) ∧
    (AppFields custom json.entries ∨ cfg.asked (json.entries.map Prod.fst) = [])

theorem Config.requires_of_enables (h : cfg.enables name = true) : cfg.requires name = true := by
  rw [Config.requires, h, Bool.true_or]

theorem getRequiredApps_of_asked_nil (hjson : appsJson custom = .ok json)
    (hreads : ∀ entry ∈ json.entries, cfg.requires entry.1 = true →
      Returns (appDesc styled entry.1 entry.2))
    (hnil : cfg.asked (json.entries.map Prod.fst) = []) :
    getRequiredApps styled cfg custom = .ok [] := by
  have hnames : requiredNames styled cfg custom = .ok [] :=
    (requiredNames_eq_ok hjson).mpr
      ⟨hnil.symm, fun hall entry he => hreads entry he (hall.requires entry.1)⟩
  exact bind_eq_ok.mpr ⟨json, hjson, bind_eq_ok.mpr ⟨[], hnames, rfl⟩⟩

theorem getApps_of_asked_nil (hjson : appsJson custom = .ok json)
    (huris : ∀ entry ∈ json.entries, UriReads entry.2)
    (hnone : ∀ entry ∈ json.entries, cfg.enables entry.1 = false) :
    getApps cfg custom = .ok [] := by
  obtain ⟨apps, hfold⟩ : ∃ apps, json.entries.foldlM (addApp cfg) [] = .ok apps :=
    foldlM_returns (fun _ entry he => returns_addApp_iff.mpr (huris entry he)) []
  have hnil : apps = [] := by
    refine foldlM_keeps (P := (· = [])) ?_ hfold rfl
    rintro _ entry apps' he hadd rfl
    rcases addApp_eq (fun _ => "") cfg [] entry.1 (huris entry he) with
      ⟨_, hadd'⟩ | ⟨uri, _, hadd'⟩
    · exact Except.ok.inj (hadd.symm.trans hadd')
    · rw [hnone entry he, if_neg Bool.false_ne_true] at hadd'
      exact Except.ok.inj (hadd.symm.trans hadd')
  exact bind_eq_ok.mpr ⟨json, hjson, hnil ▸ hfold⟩

theorem takesReadable_of_appsReadable (hkeys : ∀ fields, appsJson custom = .ok (.obj fields) →
    (fields.map Prod.fst).Nodup) (h : AppsReadable cfg custom) :
    TakesReadable styled cfg custom := by
  obtain ⟨json, hjson, huris, hwell, hkind⟩ := h
  have hreads : ∀ entry ∈ json.entries, cfg.requires entry.1 = true →
      Returns (appDesc styled entry.1 entry.2) :=
    fun entry he hreq => returns_appDesc_iff.mpr (hwell entry he hreq)
  rcases hkind with hfields | hnil
  · obtain ⟨apps, happs, hmem⟩ := mem_getApps hfields (hfields.nodup hkeys) huris
    obtain ⟨required, hrequired, hmem'⟩ := mem_getRequiredApps hfields hreads
    refine ⟨json, apps, required, hjson, happs, hrequired, ?_, hmem, hmem'⟩
    intro app happ
    obtain ⟨hen, hisApp⟩ := (hmem app).mp happ
    exact (hmem' app).mpr ⟨Config.requires_of_enables hen, hisApp⟩
  · -- No name is asked for, so neither function takes anything.
    have hnone : ∀ name ∈ json.entries.map Prod.fst, cfg.requires name = false := by
      intro name hname
      refine Bool.eq_false_iff.mpr fun hreq => ?_
      have hasked := (mem_asked hname).mpr hreq
      rw [hnil] at hasked
      cases hasked
    have hdisabled : ∀ name ∈ json.entries.map Prod.fst, cfg.enables name = false := by
      intro name hname
      exact (Bool.or_eq_false_iff.mp (hnone name hname)).1
    refine ⟨json, [], [], hjson,
      getApps_of_asked_nil hjson huris fun e he => hdisabled e.1 (List.mem_map_of_mem he),
      getRequiredApps_of_asked_nil hjson hreads hnil, List.forall_mem_nil _, ?_, ?_⟩
    · intro app
      refine iff_of_false List.not_mem_nil ?_
      rintro ⟨hen, happ⟩
      cases (hdisabled app.1 happ.mem_keys).symm.trans hen
    · intro app
      refine iff_of_false List.not_mem_nil ?_
      rintro ⟨hreq, happ⟩
      cases (hnone app.1 happ.mem_keys).symm.trans hreq

/-- Where a member can be asked for, the entries are the fields of an object. -/
theorem appFields_of_find (hjson : appsJson custom = .ok json) {found : Option Json}
    (hfind : json.find name = .ok found) :
    AppFields custom json.entries ∧ found = json.entries.lookup name := by
  cases json with
  | null =>
    cases hfind
    exact ⟨.inr ⟨hjson, rfl⟩, rfl⟩
  | obj fields =>
    cases hfind
    exact ⟨.inl hjson, rfl⟩
  | _ => cases hfind

/-- What a run of `getRequiredApps` that returns has read. -/
theorem reads_of_getRequiredApps (hjson : appsJson custom = .ok json)
    (hkeys : ∀ fields, appsJson custom = .ok (.obj fields) → (fields.map Prod.fst).Nodup)
    (h : Returns (getRequiredApps styled cfg custom)) :
    (∀ entry ∈ json.entries, cfg.requires entry.1 = true →
      Returns (appDesc styled entry.1 entry.2)) ∧
    (AppFields custom json.entries ∨ cfg.asked (json.entries.map Prod.fst) = []) := by
  obtain ⟨required, h⟩ := h
  obtain ⟨_, hjson', h⟩ := bind_eq_ok.mp h
  cases hjson.symm.trans hjson'
  obtain ⟨names, hnames, hfold⟩ := bind_eq_ok.mp h
  obtain ⟨rfl, -⟩ := (requiredNames_eq_ok hjson).mp hnames
  have hstep : ∀ name ∈ cfg.asked (json.entries.map Prod.fst), AppFields custom json.entries ∧
      ∀ data, json.entries.lookup name = some data → Returns (appDesc styled name data) := by
    intro name hname
    obtain ⟨_, hstep⟩ := foldlM_step hfold name hname
    obtain ⟨found, hfind, hreads⟩ := returns_addRequired_iff.mp hstep
    obtain ⟨hfields, rfl⟩ := appFields_of_find hjson hfind
    exact ⟨hfields, hreads⟩
  constructor
  · intro entry he hreq
    have hname := (mem_asked (List.mem_map_of_mem he)).mpr hreq
    obtain ⟨hfields, hreads⟩ := hstep entry.1 hname
    exact hreads entry.2 ((lookup_eq_some_iff_mem (hfields.nodup hkeys)).mpr he)
  · cases hasked : cfg.asked (json.entries.map Prod.fst) with
    | nil => exact .inr rfl
    | cons name rest => exact .inl (hstep name (by rw [hasked]; exact List.mem_cons_self)).1

/-- `getApps` skips a malformed entry where `getRequiredApps` throws, so that the two agree if
there is no malformed entry among the required ones. -/
theorem takesReadable_iff (hkeys : ∀ fields, appsJson custom = .ok (.obj fields) →
    (fields.map Prod.fst).Nodup) :
    TakesReadable styled cfg custom ↔ AppsReadable cfg custom := by
  refine ⟨?_, takesReadable_of_appsReadable hkeys⟩
  rintro ⟨json, apps, required, hjson, happs, hrequired, -, -, -⟩
  obtain ⟨hreads, hkind⟩ := reads_of_getRequiredApps hjson hkeys ⟨_, hrequired⟩
  refine ⟨json, hjson, ?_, fun e he hreq => returns_appDesc_iff.mp (hreads e he hreq), hkind⟩
  obtain ⟨_, hjson', hfold⟩ := bind_eq_ok.mp happs
  cases hjson.symm.trans hjson'
  intro entry he
  obtain ⟨_, hstep⟩ := foldlM_step hfold entry he
  exact returns_addApp_iff.mp hstep

end Proofs

/-- The app web is enabled, and db is reset. -/
def webOnlyConfig : Config := { deviceConfig with apps := some ["web"], resetApps := some ["db"] }

/-- The entry of a third app, which is neither, is malformed. -/
def threeEntries : List (String × Json) :=
  [("db", .obj [("uri", .str "db@1")]), ("log", .str "log@1"),
    ("web", .obj [("uri", .str "web@1")])]

def threeApps : Json := .obj [("docker_compose_apps", .obj threeEntries)]

theorem web_takesReadable :
    getApps webOnlyConfig threeApps = .ok [("web", "web@1")] ∧
      getRequiredApps (fun _ => "") webOnlyConfig threeApps =
        .ok [("web", "web@1"), ("db", "db@1")] ∧
      TakesReadable (fun _ => "") webOnlyConfig threeApps := by
  refine ⟨rfl, rfl, (takesReadable_iff ?_).mpr ⟨.obj threeEntries, rfl, ?_, ?_, .inl (.inl rfl)⟩⟩
  · rintro fields ⟨⟩
    decide
  · simp only [Json.entries, threeEntries, List.forall_mem_cons]
    refine ⟨?_, ?_, ?_, List.forall_mem_nil _⟩
    · rintro _ _ ⟨⟩ ⟨⟩
      exact ⟨_, rfl⟩
    · rintro _ _ ⟨⟩
    · rintro _ _ ⟨⟩ ⟨⟩
      exact ⟨_, rfl⟩
  · simp only [Json.entries, threeEntries, List.forall_mem_cons]
    exact ⟨fun _ => ⟨_, _, _, rfl, rfl, rfl⟩, fun h => absurd h (by decide),
      fun _ => ⟨_, _, _, rfl, rfl, rfl⟩, List.forall_mem_nil _⟩

/-- A target with an app and a malformed entry. -/
def malformedCustom : Json :=
  .obj [("docker_compose_apps", .obj [("db", .str "db@1"), ("web", .obj [("uri", .str "web@1")])])]

theorem malformed_entry_throws :
    getApps deviceConfig malformedCustom = .ok [("web", "web@1")] ∧
      ¬Returns (getRequiredApps (fun _ => "") deviceConfig malformedCustom) ∧
      ¬TakesReadable (fun _ => "") deviceConfig malformedCustom := by
  have hthrows : ¬Returns (getRequiredApps (fun _ => "") deviceConfig malformedCustom) := by
    rintro ⟨required, ⟨⟩⟩
  refine ⟨rfl, hthrows, ?_⟩
  rintro ⟨_, _, required, _, _, h, _⟩
  exact hthrows ⟨required, h⟩

end Client
end AkLite
