/-
The targets that a bundle has the content of.

`getAvailableTargets` tests each allowed target as it came, against the apps that
the configuration requires and the shortlist that CI left in the member
`fetched-apps`, and hands out a target with other custom data.  Here the test is
stated on the target that is handed out: `canInstall` asks for the commit and for
the apps that `getRequiredApps` finds in the rebuilt target, and `Rewritten` says
what a rebuilt target is.  The function returns the rebuilt targets that can be
installed, in the order of the allowed ones.

The two tests agree because a required app is an entry of the member of the apps
under a required name (`mem_getRequiredApps`), and the rebuilt member has the
entries that the shortlist names.
-/
import AkLite.Client.Escaping
import AkLite.Client.RequiredApps

namespace AkLite
namespace Client

open Lib

/-! ## What is to be shown -/

/-- A text that is missing, or something else than a text, counts as the empty one. -/
def textOf : Option Json → String
  | some (.str text) => text
  | _ => ""

/-- The app is one that CI fetched for an offline update. -/
def inShortlist (custom : Json) (name : String) : Bool :=
  match custom.index "fetched-apps" with
  | .ok (.obj fetched) =>
    if textOf (fetched.lookup "uri") = "" then false
    else if textOf (fetched.lookup "shortlist") = "" then true
    else (splitTokens (textOf (fetched.lookup "shortlist"))).contains name
  | _ => true

/-- The entries of the apps can be read, and the member that is written to is missing or an
object. -/
structure WellFormed (styled : Json → String) (custom : Json) : Prop where
  apps : ∃ fields, AppFields custom fields ∧
    ∀ entry ∈ fields, Returns (appDesc styled entry.1 entry.2)
  src : SrcIsObject custom

/-- The custom data differ in where the content is and, if there are apps, in the apps, which
are those of the shortlist. -/
structure CustomRewritten (cfg : Config) (source : LocalUpdateSource) (custom custom' : Json) :
    Prop where
  members : ∀ key, key ≠ localSrcDirKey →
    (cfg.pacman = .compose → key ≠ "docker_compose_apps") → custom'.find key = custom.find key
  apps : cfg.pacman = .compose → ∀ fields, AppFields custom fields →
    AppFields custom' (fields.filter fun entry => inShortlist custom entry.1)
  ostree : ∃ src, custom'.index localSrcDirKey = .ok src ∧
    src.index "ostree" = .ok (.str source.ostreeRepo)

/-- A target that is handed out for an allowed one.  The allowed targets have no correlation
ID and are valid, as `fromTufTarget` leaves them. -/
structure Rewritten (cfg : Config) (source : LocalUpdateSource) (t r : Target) : Prop where
  filename : r.filename = t.filename
  sha256Hash : r.sha256Hash = t.sha256Hash
  only : t.correlationId = "" → t.isValid = true → r = { t with custom := r.custom }
  custom : CustomRewritten cfg source t.custom r.custom

/-- The bundle has every app that the configuration requires of the custom data. -/
def hasRequiredApps (styled : Json → String) (cfg : Config) (foundApps : List String)
    (custom : Json) : Bool :=
  match getRequiredApps styled cfg custom with
  | .ok required => required.all fun app => foundApps.contains app.2
  | .error _ => false

/-- The bundle has the commit of the target and, with apps, the apps of the one handed out
for it. -/
def canInstall (styled : Json → String) (cfg : Config) (foundApps : List String)
    (hasCommit : String → Bool) (t r : Target) : Bool :=
  hasCommit t.sha256Hash &&
    (cfg.pacman != .compose || hasRequiredApps styled cfg foundApps r.custom)

section Proofs

variable {styled : Json → String} {cfg : Config} {source : LocalUpdateSource}
  {foundApps : List String} {custom custom' : Json} {fields : List (String × Json)}

/-! ## The shortlist -/

theorem filterWhere_eq_filter {α : Type} {p : α → Except String Bool} {q : α → Bool}
    (hp : ∀ a, p a = .ok (q a)) (xs : List α) : filterWhere p xs = .ok (xs.filter q) := by
  induction xs with
  | nil => rfl
  | cons a rest ih =>
    rw [filterWhere, hp a, ih, List.filter_cons]
    rfl

theorem shortlistedApps_eq (hfields : AppFields custom fields) (shortlist : String) :
    (do shortlistedApps (← appsJson custom) shortlist) =
      .ok ((splitTokens shortlist).filter fun name => (fields.lookup name).isSome) := by
  obtain ⟨json, hjson, _, hfind⟩ := hfields.json
  rw [hjson, ok_bind, shortlistedApps]
  exact filterWhere_eq_filter (fun name => Json.isMember_of_find (hfind name)) _

theorem textOf_of_ne {value : Option Json} (h : ∀ text, value = some (.str text) → False) :
    textOf value = "" := by
  unfold textOf
  split
  · next text => exact absurd rfl (h text)
  · rfl

/-- A shortlist that names no app is none. -/
theorem needs_tokens (apps : List String) (name : String) :
    (if apps.isEmpty then OfflineApps.noneOfTargetApps else .onlyShortlistedApps apps).needs name =
      apps.contains name := by
  cases apps with
  | nil => rfl
  | cons a rest => rfl

/-- The two texts of `fetched-apps` decide. -/
theorem getAppsFetchedForOfflineUpdate_eq {members : List (String × Json)}
    (h : custom.index "fetched-apps" = .ok (.obj members)) :
    getAppsFetchedForOfflineUpdate custom =
      if textOf (members.lookup "uri") = "" then .ok .noneOfTargetApps
      else if textOf (members.lookup "shortlist") = "" then .ok .allTargetApps
      else do
        let apps ← shortlistedApps (← appsJson custom) (textOf (members.lookup "shortlist"))
        return if apps.isEmpty then .noneOfTargetApps else .onlyShortlistedApps apps := by
  rw [getAppsFetchedForOfflineUpdate, h, ok_bind]
  dsimp only
  split
  · next uri huri =>
    rw [huri, textOf]
    split
    · rfl
    · split
      · next shortlist hlist =>
        rw [hlist, textOf]
        rfl
      · next hlist => rw [textOf_of_ne hlist, if_pos rfl]; rfl
  · next huri => rw [textOf_of_ne huri, if_pos rfl]; rfl

/-- The apps that the bundle has to bring are those of the target in the shortlist. -/
theorem needs_eq_inShortlist (hfields : AppFields custom fields) :
    ∃ offline, getAppsFetchedForOfflineUpdate custom = .ok offline ∧
      ∀ name, (fields.lookup name).isSome = true →
        offline.needs name = inShortlist custom name := by
  obtain ⟨json, hjson, _, _⟩ := hfields.json
  obtain ⟨fetched, hfetched⟩ := Json.index_returns hjson "fetched-apps"
  cases fetched with
  | obj members =>
    rw [getAppsFetchedForOfflineUpdate_eq hfetched]
    unfold inShortlist
    rw [hfetched]
    dsimp only
    by_cases huri : textOf (members.lookup "uri") = ""
    · exact ⟨.noneOfTargetApps, by rw [if_pos huri], fun _ _ => by rw [if_pos huri]; rfl⟩
    by_cases hlist : textOf (members.lookup "shortlist") = ""
    · refine ⟨.allTargetApps, by rw [if_neg huri, if_pos hlist], fun _ _ => ?_⟩
      rw [if_neg huri, if_pos hlist]
      rfl
    rw [if_neg huri, if_neg hlist, ← bind_assoc, shortlistedApps_eq hfields, ok_bind]
    refine ⟨_, rfl, fun name hname => ?_⟩
    rw [if_neg huri, if_neg hlist, Bool.eq_iff_iff, needs_tokens]
    simp [hname]
  | _ =>
    unfold getAppsFetchedForOfflineUpdate inShortlist
    rw [hfetched]
    exact ⟨.allTargetApps, rfl, fun _ _ => rfl⟩

/-! ## The custom data rebuilt -/

/-- The path that was written last is there. -/
theorem putLocalSrc_self {key value : String} (h : putLocalSrc custom key value = .ok custom') :
    ∃ src, custom'.index localSrcDirKey = .ok src ∧ src.index key = .ok (.str value) := by
  obtain ⟨⟨touched, src⟩, _, h⟩ := bind_eq_ok.mp h
  obtain ⟨src', hsrc, h⟩ := bind_eq_ok.mp h
  exact ⟨src', Json.index_of_find (Json.find_insert_self h),
    Json.index_of_find (Json.find_insert_self hsrc)⟩

/-- So is the one written before. -/
theorem putLocalSrc_of_ne {key value other : String} {src : Json}
    (h : putLocalSrc custom key value = .ok custom') (hne : other ≠ key)
    (hsrc : custom.index localSrcDirKey = .ok src) :
    ∃ src', custom'.index localSrcDirKey = .ok src' ∧ src'.index other = src.index other := by
  obtain ⟨⟨touched, src₁⟩, htouch, hput⟩ := bind_eq_ok.mp h
  obtain ⟨src', hinsert, hset⟩ := bind_eq_ok.mp hput
  obtain rfl : src = src₁ := Except.ok.inj (hsrc.symm.trans (Json.index_of_touch htouch))
  exact ⟨src', Json.index_of_find (Json.find_insert_self hset),
    Json.index_insert_of_ne hinsert hne⟩

theorem restrictApps_fields {apps : List String} (hfields : AppFields custom fields)
    (h : restrictApps custom apps = .ok custom') :
    AppFields custom' (fields.filter fun entry => apps.contains entry.1) := by
  unfold restrictApps at h
  rcases hfields with hobj | ⟨hnull, rfl⟩
  · rw [hobj, ok_bind] at h
    dsimp only at h
    split at h
    · next hnil =>
      rw [hnil]
      exact .inr ⟨Json.index_of_find (Json.find_removeMember_self h), rfl⟩
    · exact .inl (Json.index_of_find (Json.find_insert_self h))
  · rw [hnull, ok_bind] at h
    cases h
    exact .inr ⟨hnull, rfl⟩

/-- The entries that the update is for are those of the shortlist. -/
theorem filter_needs {offline : OfflineApps}
    (hneeds : ∀ name, (fields.lookup name).isSome = true →
      offline.needs name = inShortlist custom name) :
    (fields.filter fun entry => offline.needs entry.1) =
      fields.filter fun entry => inShortlist custom entry.1 :=
  List.filter_congr fun entry hentry => hneeds entry.1 (lookup_isSome_of_mem hentry)

/-- The shortlist is applied if there is one. -/
theorem restricted (offline : OfflineApps) (hfields : AppFields custom fields) :
    ∃ kept, (∀ rest : Json → Except String (Option Json),
        (match offline with
        | .onlyShortlistedApps apps => restrictApps custom apps >>= rest
        | _ => pure custom >>= rest) = rest kept) ∧
      (offline ≠ .noneOfTargetApps →
        AppFields kept (fields.filter fun entry => offline.needs entry.1)) ∧
      ∀ key, key ≠ "docker_compose_apps" → kept.find key = custom.find key := by
  cases offline with
  | onlyShortlistedApps apps =>
    obtain ⟨json, hjson, _, _⟩ := hfields.json
    obtain ⟨kept, hkept⟩ := restrictApps_returns hjson apps
    refine ⟨kept, fun rest => ?_, fun _ => restrictApps_fields hfields hkept, fun _ =>
      restrictApps_find hkept⟩
    dsimp only
    rw [hkept, ok_bind]
  | allTargetApps =>
    refine ⟨custom, fun _ => rfl, fun _ => ?_, fun _ _ => rfl⟩
    have hall : (fields.filter fun entry => OfflineApps.allTargetApps.needs entry.1) = fields :=
      List.filter_eq_self.mpr fun _ _ => rfl
    rwa [hall]
  | noneOfTargetApps => exact ⟨custom, fun _ => rfl, fun h => absurd rfl h, fun _ _ => rfl⟩

/-! ## The two tests -/

theorem hasRequiredApps_iff (hfields : AppFields custom fields)
    (hreads : ∀ entry ∈ fields, Returns (appDesc styled entry.1 entry.2)) :
    hasRequiredApps styled cfg foundApps custom = true ↔
      ∀ app, cfg.requires app.1 = true → IsApp styled fields app → app.2 ∈ foundApps := by
  obtain ⟨required, hrequired, hmem⟩ : ∃ required, getRequiredApps styled cfg custom =
    .ok required ∧ ∀ app, app ∈ required ↔ cfg.requires app.1 = true ∧ IsApp styled fields app :=
    mem_getRequiredApps hfields fun e he _ => hreads e he
  unfold hasRequiredApps
  rw [hrequired]
  simp only [List.all_eq_true, List.contains_iff_mem, hmem, and_imp]

/-- The test of the target as it came is the test of the target that is handed out. -/
theorem lacks_iff {offline : OfflineApps} {required : List App}
    (hmem : ∀ app, app ∈ required ↔ cfg.requires app.1 = true ∧ IsApp styled fields app)
    (hreads : ∀ entry ∈ fields, Returns (appDesc styled entry.1 entry.2))
    (hfields' : AppFields custom' (fields.filter fun entry => offline.needs entry.1)) :
    (required.any fun app => !foundApps.contains app.2 && offline.needs app.1) = true ↔
      ¬ hasRequiredApps styled cfg foundApps custom' = true := by
  have hreads' : ∀ entry ∈ fields.filter fun entry => offline.needs entry.1,
      Returns (appDesc styled entry.1 entry.2) :=
    fun entry hentry => hreads entry (List.mem_filter.mp hentry).1
  rw [hasRequiredApps_iff hfields' hreads', List.any_eq_true]
  constructor
  · rintro ⟨app, happ, hlacks⟩ hall
    obtain ⟨hrequires, hisApp⟩ := (hmem app).mp happ
    rw [Bool.and_eq_true, Bool.not_eq_true'] at hlacks
    have hfound := hall app hrequires (isApp_filter.mpr ⟨hlacks.2, hisApp⟩)
    cases (List.contains_iff_mem.mpr hfound).symm.trans hlacks.1
  · intro hnot
    by_contra hnone
    refine hnot fun app hrequires hisApp => ?_
    obtain ⟨hneeds, hisApp⟩ := isApp_filter.mp hisApp
    by_contra hfound
    refine hnone ⟨app, (hmem app).mpr ⟨hrequires, hisApp⟩, ?_⟩
    simp [hfound, hneeds]

/-- With apps, the custom data are rebuilt and pass or fail by the apps that are left. -/
theorem availableCustom_compose (hcompose : cfg.pacman = .compose)
    (hwf : WellFormed styled custom) :
    ∃ custom', CustomRewritten cfg source custom custom' ∧
      availableCustom styled cfg source foundApps custom =
        .ok (if hasRequiredApps styled cfg foundApps custom' then some custom' else none) := by
  obtain ⟨fields, hfields, hreads⟩ := hwf.apps
  obtain ⟨offline, hoffline, hneeds⟩ := needs_eq_inShortlist hfields
  have hunique : ∀ {c : Json}, AppFields c (fields.filter fun entry => offline.needs entry.1) →
      ∀ fields', AppFields custom fields' →
        AppFields c (fields'.filter fun entry => inShortlist custom entry.1) := by
    intro c hc fields' hfields'
    rwa [← hfields.unique hfields', ← filter_needs hneeds]
  unfold availableCustom
  rw [if_neg (not_not.mpr hcompose), hoffline, ok_bind]
  by_cases hnone : offline = .noneOfTargetApps
  · -- no app is left, so none can be missing
    subst hnone
    obtain ⟨c₁, hc₁⟩ : Returns (putLocalSrc custom "ostree" source.ostreeRepo) :=
      returns_putLocalSrc_iff.mpr hwf.src
    obtain ⟨src, hsrc, hostree⟩ := putLocalSrc_self hc₁
    obtain ⟨c₂, hc₂⟩ := removeMember_returns hsrc "docker_compose_apps"
    have happs : AppFields c₂ [] := .inr ⟨Json.index_of_find (Json.find_removeMember_self hc₂), rfl⟩
    have hnil : (fields.filter fun entry => OfflineApps.noneOfTargetApps.needs entry.1) = [] :=
      List.filter_eq_nil_iff.mpr fun _ _ => Bool.false_ne_true
    have hpass : hasRequiredApps styled cfg foundApps c₂ = true := by
      refine (hasRequiredApps_iff happs (by simp)).mpr fun app _ hisApp => ?_
      obtain ⟨data, hdata, _⟩ := hisApp
      cases hdata
    refine ⟨c₂, ⟨?_, fun _ => hunique (hnil ▸ happs), ?_⟩, ?_⟩
    · intro key hkey hother
      rw [Json.find_removeMember_of_ne hc₂ (hother hcompose), putLocalSrc_find hc₁ hkey]
    · exact ⟨src, (Json.index_removeMember_of_ne hc₂ (by decide)).trans hsrc, hostree⟩
    · rw [if_pos rfl, hc₁, ok_bind, hc₂, hpass]
      rfl
  · obtain ⟨required, hrequired, hmem⟩ : ∃ required, getRequiredApps styled cfg custom =
      .ok required ∧ ∀ app, app ∈ required ↔ cfg.requires app.1 = true ∧
        IsApp styled fields app := mem_getRequiredApps hfields fun e he _ => hreads e he
    obtain ⟨kept, hkept, happs, hsame⟩ := restricted offline hfields
    have hindex := Json.index_congr (hsame localSrcDirKey (by decide))
    obtain ⟨c₁, hc₁⟩ : Returns (putLocalSrc kept "ostree" source.ostreeRepo) :=
      returns_putLocalSrc_iff.mpr ((SrcIsObject.of_index hindex).mpr hwf.src)
    obtain ⟨src₁, hsrc₁, hostree⟩ := putLocalSrc_self hc₁
    obtain ⟨c₂, hc₂⟩ : Returns (putLocalSrc c₁ "apps" source.appStore) :=
      returns_putLocalSrc_iff.mpr (srcIsObject_putLocalSrc hc₁)
    have hne : "ostree" ≠ "apps" := by decide
    obtain ⟨src₂, hsrc₂, hostree₂⟩ := putLocalSrc_of_ne hc₂ hne hsrc₁
    have happs₂ : AppFields c₂ (fields.filter fun entry => offline.needs entry.1) :=
      AppFields.congr (putLocalSrc_index hc₂ (by decide))
        (AppFields.congr (putLocalSrc_index hc₁ (by decide)) (happs hnone))
    refine ⟨c₂, ⟨?_, fun _ => hunique happs₂, src₂, hsrc₂, hostree₂.trans hostree⟩, ?_⟩
    · intro key hkey hother
      rw [putLocalSrc_find hc₂ hkey, putLocalSrc_find hc₁ hkey, hsame key (hother hcompose)]
    · rw [if_neg hnone, hrequired, ok_bind]
      by_cases hpass : hasRequiredApps styled cfg foundApps c₂ = true
      · rw [if_neg fun hlacks => (lacks_iff hmem hreads happs₂).mp hlacks hpass, if_pos hpass]
        refine Eq.trans (hkept _) ?_
        exact bind_eq_ok.mpr ⟨c₁, hc₁, bind_eq_ok.mpr ⟨c₂, hc₂, rfl⟩⟩
      · rw [if_pos ((lacks_iff hmem hreads happs₂).mpr hpass), if_neg hpass]
        rfl

/-- The custom data are rebuilt whatever the package manager. -/
theorem availableCustom_eq (hwf : WellFormed styled custom) :
    ∃ custom', CustomRewritten cfg source custom custom' ∧
      availableCustom styled cfg source foundApps custom =
        .ok (if cfg.pacman != .compose || hasRequiredApps styled cfg foundApps custom' then
          some custom' else none) := by
  by_cases hcompose : cfg.pacman = .compose
  · obtain ⟨custom', hrewritten, heq⟩ : ∃ custom', CustomRewritten cfg source custom custom' ∧
      availableCustom styled cfg source foundApps custom =
        .ok (if hasRequiredApps styled cfg foundApps custom' then some custom' else none) :=
      availableCustom_compose hcompose hwf
    refine ⟨custom', hrewritten, ?_⟩
    rw [heq, hcompose, bne_self_eq_false, Bool.false_or]
  · obtain ⟨custom', hput⟩ : Returns (putLocalSrc custom "ostree" source.ostreeRepo) :=
      returns_putLocalSrc_iff.mpr hwf.src
    refine ⟨custom', ⟨fun key hkey _ => putLocalSrc_find hput hkey, fun h => absurd h hcompose,
      putLocalSrc_self hput⟩, ?_⟩
    have hother : (cfg.pacman != .compose) = true := bne_iff_ne.mpr hcompose
    rw [availableCustom, if_pos hcompose, hput, ok_bind, hother, Bool.true_or, if_pos rfl]
    rfl

/-! ## The loop -/

theorem availableTarget_eq {lookup : String → Except String Bool} {hasCommit : String → Bool}
    {t : Target} (hcommit : lookup t.sha256Hash = .ok (hasCommit t.sha256Hash))
    (hwf : WellFormed styled t.custom) :
    ∃ r, Rewritten cfg source t r ∧
      availableTarget styled cfg source foundApps lookup t =
        .ok (if canInstall styled cfg foundApps hasCommit t r then some r else none) := by
  obtain ⟨custom', hrewritten, heq⟩ : ∃ custom', CustomRewritten cfg source t.custom custom' ∧
    availableCustom styled cfg source foundApps t.custom =
      .ok (if cfg.pacman != .compose || hasRequiredApps styled cfg foundApps custom' then
        some custom' else none) := availableCustom_eq hwf
  refine ⟨updateCustom t custom', ⟨rfl, rfl, fun hid hvalid => ?_, hrewritten⟩, ?_⟩
  · rw [updateCustom, ← hid, ← hvalid]
  · unfold availableTarget canInstall
    rw [hcommit, ok_bind]
    cases hasCommit t.sha256Hash with
    | false => rfl
    | true =>
      rw [heq, Bool.true_and]
      cases hpass : (cfg.pacman != .compose || hasRequiredApps styled cfg foundApps custom') with
      | false => simp [updateCustom, hpass, bind, Except.bind, pure, Except.pure]
      | true => simp [updateCustom, hpass, bind, Except.bind, pure, Except.pure]

/-- One target after the other, those that pass are handed out. -/
theorem availableTargets_eq {lookup : String → Except String Bool} {hasCommit : String → Bool}
    {rewrite : Target → Target} {allowed : List Target} (h : ∀ t ∈ allowed,
      availableTarget styled cfg source foundApps lookup t =
        .ok (if canInstall styled cfg foundApps hasCommit t (rewrite t) then some (rewrite t)
          else none)) :
    availableTargets styled cfg source foundApps lookup allowed =
      .ok ((allowed.filter fun t =>
        canInstall styled cfg foundApps hasCommit t (rewrite t)).map rewrite) := by
  induction allowed with
  | nil => rfl
  | cons t rest ih =>
    rw [availableTargets, h t List.mem_cons_self, ok_bind,
      ih fun t ht => h t (List.mem_cons_of_mem _ ht), ok_bind, List.filter_cons]
    split
    · rfl
    · rfl

end Proofs

/-- Of the allowed targets, those whose content is in the bundle are handed out, each once,
in their order, and rebuilt for the apps that CI fetched. -/
theorem available_iff_can_install (styled : Json → String) (cfg : Config)
    (source : LocalUpdateSource) (content : Content) (allowed : List Target)
    (foundApps : List String) (lookup : String → Except String Bool) (hasCommit : String → Bool)
    (hwf : ∀ t ∈ allowed, WellFormed styled t.custom)
    (happs : parseUpdateContent content.apps = .ok foundApps)
    (hostree : content.ostree = .ok lookup)
    (hcommit : ∀ t ∈ allowed, lookup t.sha256Hash = .ok (hasCommit t.sha256Hash)) :
    ∃ rewrite : Target → Target, (∀ t ∈ allowed, Rewritten cfg source t (rewrite t)) ∧
      getAvailableTargets styled cfg source content allowed =
        .ok ((allowed.filter fun t =>
          canInstall styled cfg foundApps hasCommit t (rewrite t)).map rewrite) := by
  have hex : ∀ t, ∃ r, t ∈ allowed → Rewritten cfg source t r ∧
      availableTarget styled cfg source foundApps lookup t =
        .ok (if canInstall styled cfg foundApps hasCommit t r then some r else none) := by
    intro t
    by_cases ht : t ∈ allowed
    · obtain ⟨r, hr⟩ := availableTarget_eq (hcommit t ht) (hwf t ht)
      exact ⟨r, fun _ => hr⟩
    · exact ⟨t, fun h => absurd h ht⟩
  choose rewrite hrewrite using hex
  refine ⟨rewrite, fun t ht => (hrewrite t ht).1, ?_⟩
  have hloop := availableTargets_eq fun t ht => (hrewrite t ht).2
  unfold getAvailableTargets
  cases allowed with
  | nil => rfl
  | cons t rest => rw [if_neg (by simp), happs, ok_bind, hostree, ok_bind, hloop]

/-- A target with two apps, of which CI fetched those of the shortlist. -/
def fetchedTarget (shortlist : String) : Target :=
  { boardTarget with
    custom := .obj [("version", .str "2"),
      ("docker_compose_apps", .obj
        [("web", .obj [("uri", .str "web@2")]), ("log", .obj [("uri", .str "log@2")])]),
      ("fetched-apps", .obj [("uri", .str "apps.tar"), ("shortlist", .str shortlist)])] }

theorem wellFormed_fetchedTarget (shortlist : String) :
    WellFormed (fun _ => "") (fetchedTarget shortlist).custom where
  apps := by
    refine ⟨_, .inl rfl, ?_⟩
    simp only [List.forall_mem_cons]
    exact ⟨⟨_, rfl⟩, ⟨_, rfl⟩, List.forall_mem_nil _⟩
  src := ⟨.null, rfl, .null, rfl⟩

/-- A bundle with the app web only. -/
def webContent : Content := { boardContent with apps := some (.ok [.ok [.ok "web@2"]]) }

/-- The bundle is enough for the target that needs web only. -/
theorem available_for_shortlist :
    (∃ rewrite : Target → Target,
      (∀ t ∈ [fetchedTarget "log, web", fetchedTarget "web"],
        Rewritten deviceConfig boardSource t (rewrite t)) ∧
      getAvailableTargets (fun _ => "") deviceConfig boardSource webContent
          [fetchedTarget "log, web", fetchedTarget "web"] =
        .ok (([fetchedTarget "log, web", fetchedTarget "web"].filter fun t =>
          canInstall (fun _ => "") deviceConfig ["web@2"] (fun _ => true) t
            (rewrite t)).map rewrite)) ∧
    (do
      let available ← getAvailableTargets (fun _ => "") deviceConfig boardSource webContent
        [fetchedTarget "log, web", fetchedTarget "web"]
      available.mapM fun r : Target => targetApps (fun _ => "") r.custom) =
        .ok [[("web", "web@2")]] := by
  refine ⟨available_iff_can_install _ _ _ _ _ _ _ _ ?_ rfl rfl fun _ _ => rfl,
    by decide +kernel⟩
  simp only [List.forall_mem_cons]
  exact ⟨wellFormed_fetchedTarget _, wellFormed_fetchedTarget _, List.forall_mem_nil _⟩

end Client
end AkLite
