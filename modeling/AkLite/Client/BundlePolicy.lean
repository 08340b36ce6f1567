/-
What a device takes from an offline bundle.

Between the bundle's signatures and the list that `CheckInLocal` returns stand four
filters: the type and the tag of the bundle, the targets it lists, and the filter by tags,
format and hardware ID that every check-in has.  The targets are rebuilt in between, with
custom data that differ in two members only, so what the filters saw is what the caller
gets (`availableCustom_index`).

The check of the type rejects a bundle whose type is the one of other devices.  A type that
is neither `ci` nor `prod`, or none, passes on every device.  So the policy holds exactly
for the accepted bundles of a known type (`bundle_policy_iff`).
-/
import AkLite.Bundle.Handled
import AkLite.Client.CheckIn
import AkLite.Client.InstalledVersions

namespace AkLite
namespace Client

open Lib

variable {Key Stamp R T : Type} {d : Device Key Stamp R T}

/-! ## The policy -/

def bundleType (bundle : Json) : Except String String := do
  (← (← Bundle.offlineBundle bundle).index "type").asString

def bundleTag (bundle : Json) : Except String String := do
  (← (← Bundle.offlineBundle bundle).index "tag").asString

def bundleTargets (bundle : Json) : Except String Json := do
  (← Bundle.offlineBundle bundle).index "targets"

/-- The target has the tag. -/
def HasTag (custom : Json) (tag : String) : Prop :=
  ∃ entries, custom.index "tags" = .ok (.arr entries) ∧ ∃ entry ∈ entries, entry.asString = .ok tag

/-- One target of the result: it is a verified target that the bundle lists, and it is for
the device. -/
structure TargetAllowed (d : Device Key Stamp R T) (bundle : Json) (verified : List TufTarget)
    (u : TufTarget) : Prop where
  tag : d.tags ≠ [] → ∃ tag ∈ d.tags, HasTag u.custom tag
  is_verified : ∃ v ∈ verified, v.name = u.name ∧ v.sha256Hash = u.sha256Hash ∧
    v.version = u.version
  listed : ∃ listed, bundleTargets bundle = .ok listed ∧ .str u.name ∈ listed.values
  format : u.custom.index "targetFormat" = .ok (.str "OSTREE")
  hardware : ∃ id, u.hardwareId = .ok id ∧ (id = d.hwId ∨ id ∈ d.secondaryHwids)

structure BundlePolicy (d : Device Key Stamp R T) (bundle : Json) (verified : List TufTarget)
    (targets : List TufTarget) : Prop where
  prod : d.type = .prod → bundleType bundle = .ok "prod"
  dev : d.type = .dev → bundleType bundle = .ok "ci"
  tag : d.tags ≠ [] → ∃ tag ∈ d.tags, bundleTag bundle = .ok tag
  targets : ∀ u ∈ targets, TargetAllowed d bundle verified u

/-- The type is one of the two that bundles are made with. -/
def KnownType (bundle : Json) : Prop :=
  bundleType bundle = .ok "ci" ∨ bundleType bundle = .ok "prod"

/-! ## The bundle's own metadata -/

theorem checkAndGetBundleMeta_same {tk : Bundle.Toolkit Key Stamp} {rr : Bundle.RootRepo R}
    {latestRoot text : String} {dir : Bundle.Dir} {bundle : Json}
    (h : Bundle.checkAndGetBundleMeta tk rr latestRoot dir = .ok bundle)
    (htext : dir.bundleTargets = some text) :
    Bundle.offlineBundle bundle = Bundle.offlineBundle (tk.parseJSON text) ∧
      bundle.isEmpty = false := by
  obtain ⟨root, hroot, _⟩ := bind_eq_ok.mp h
  obtain ⟨_, hexpiry⟩ := (Bundle.checkAndGetBundleMeta_iff hroot htext).mp h
  have hsame := (Bundle.checkExpiry_ok hexpiry).1
  exact ⟨hsame.offlineBundle, hsame.not_empty⟩

/-- A device of a known type and a type that is not the other devices'. -/
def TypePasses (type : Bundle.ClientType) (text : String) : Prop :=
  ¬ ((text = "ci" ∧ type ≠ .dev) ∨ (text = "prod" ∧ type ≠ .prod))

theorem checkBundleType_ok {bundle : Json} {type : Bundle.ClientType} {u : Unit}
    (h : Bundle.checkBundleType bundle type = .ok u) (htype : type ≠ .undefined) :
    ∃ text, bundleType bundle = .ok text ∧ TypePasses type text := by
  unfold Bundle.checkBundleType at h
  rw [if_neg htype] at h
  obtain ⟨text, htext, h⟩ := bind_eq_ok.mp h
  exact ⟨text, Bundle.thrown_eq_ok.mp htext, (ite_error_eq_ok.mp h).1⟩

theorem checkBundleTag_ok {bundle : Json} {tags : List String} {u : Unit}
    (h : Bundle.checkBundleTag bundle tags = .ok u) (htags : tags ≠ []) :
    ∃ tag ∈ tags, bundleTag bundle = .ok tag := by
  unfold Bundle.checkBundleTag at h
  rw [if_neg (by simpa using htags)] at h
  obtain ⟨tag, htag, h⟩ := bind_eq_ok.mp h
  by_cases hmem : tags.contains tag = true
  · exact ⟨tag, by simpa using hmem, Bundle.thrown_eq_ok.mp htag⟩
  · rw [if_neg hmem] at h
    cases h

/-- What an accepted bundle has passed, said of the file it is in. -/
structure BundlePassed (d : Device Key Stamp R T) (file bundle : Json) : Prop where
  same : Bundle.offlineBundle bundle = Bundle.offlineBundle file
  not_empty : bundle.isEmpty = false
  type : d.type ≠ .undefined → ∃ text, bundleType file = .ok text ∧ TypePasses d.type text
  tag : d.tags ≠ [] → ∃ tag ∈ d.tags, bundleTag file = .ok tag

theorem getBundleMeta_passed {latestRoot text : String} {dir : Bundle.Dir} {bundle : Json}
    (h : Bundle.getBundleMeta d.tk d.rootRepo latestRoot dir d.type d.tags = .ok bundle)
    (htext : dir.bundleTargets = some text) : BundlePassed d (d.tk.parseJSON text) bundle := by
  unfold Bundle.getBundleMeta at h
  rw [htext] at h
  obtain ⟨bundle', hmeta, h⟩ := bind_eq_ok.mp h
  obtain ⟨_, _, h⟩ := bind_eq_ok.mp h
  obtain ⟨_, htype, h⟩ := bind_eq_ok.mp h
  obtain ⟨_, htag, h⟩ := bind_eq_ok.mp h
  cases h
  obtain ⟨hsame, hne⟩ := checkAndGetBundleMeta_same hmeta htext
  refine ⟨hsame, hne, fun hknown => ?_, fun htags => ?_⟩
  · obtain ⟨text', htype, hpasses⟩ := checkBundleType_ok htype hknown
    exact ⟨text', by rw [bundleType, ← hsame]; exact htype, hpasses⟩
  · obtain ⟨tag, hmem, htag⟩ := checkBundleTag_ok htag htags
    exact ⟨tag, hmem, by rw [bundleTag, ← hsame]; exact htag⟩

/-! ## The filters on targets -/

theorem eq_filter_of_filterWhere {α : Type} {p : α → Except String Bool} {xs ys : List α}
    (h : filterWhere p xs = .ok ys) : ys = xs.filter fun a => (p a).toOption == some true := by
  induction xs generalizing ys with
  | nil =>
    cases h
    rfl
  | cons x rest ih =>
    obtain ⟨keep, hkeep, h⟩ := bind_eq_ok.mp h
    obtain ⟨others, hothers, h⟩ := bind_eq_ok.mp h
    cases h
    rw [List.filter_cons, hkeep, ← ih hothers]
    cases keep with
    | false => rfl
    | true => rfl

/-- The elements that pass are the ones kept. -/
theorem mem_filterWhere_iff {α : Type} {p : α → Except String Bool} {xs ys : List α}
    (h : filterWhere p xs = .ok ys) {a : α} : a ∈ ys ↔ a ∈ xs ∧ p a = .ok true := by
  rw [eq_filter_of_filterWhere h, List.mem_filter]
  cases p a with
  | error e => simp [Except.toOption]
  | ok keep => simp [Except.toOption]

theorem findTag_iff {tag : String} {entries : List Json} {found : Bool}
    (h : findTag tag entries = .ok found) :
    found = true ↔ ∃ entry ∈ entries, entry.asString = .ok tag := by
  induction entries with
  | nil =>
    cases h
    simp
  | cons entry rest ih =>
    obtain ⟨text, htext, h⟩ := bind_eq_ok.mp h
    rw [List.exists_mem_cons_iff, htext]
    split at h
    · next heq =>
      cases h
      exact iff_of_true rfl (.inl (congrArg _ heq))
    · next hne =>
      rw [ih h]
      exact ⟨.inr, fun h => h.resolve_left fun heq => hne (Except.ok.inj heq)⟩

theorem findOneOfTags_iff {entries : List Json} {tags : List String} {found : Bool}
    (h : findOneOfTags entries tags = .ok found) :
    found = true ↔ ∃ tag ∈ tags, ∃ entry ∈ entries, entry.asString = .ok tag := by
  induction tags with
  | nil =>
    cases h
    simp
  | cons tag rest ih =>
    obtain ⟨first, hfirst, h⟩ := bind_eq_ok.mp h
    rw [List.exists_mem_cons_iff, ← findTag_iff hfirst]
    cases first with
    | true =>
      cases h
      simp
    | false => simpa using ih h

theorem hasOneOfTags_true {custom : Json} {tags : List String}
    (h : hasOneOfTags custom tags = .ok true) : ∃ tag ∈ tags, HasTag custom tag := by
  obtain ⟨value, hvalue, h⟩ := bind_eq_ok.mp h
  cases value with
  | arr entries =>
    obtain ⟨tag, hmem, hentry⟩ := (findOneOfTags_iff h).mp rfl
    exact ⟨tag, hmem, entries, hvalue, hentry⟩
  | _ => cases h

/-- What a target that passes the filter has. -/
structure ForDevice (d : Device Key Stamp R T) (u : TufTarget) : Prop where
  tag : d.tags ≠ [] → ∃ tag ∈ d.tags, HasTag u.custom tag
  format : u.custom.index "targetFormat" = .ok (.str "OSTREE")
  hardware : ∃ id, u.hardwareId = .ok id ∧ (id = d.hwId ∨ id ∈ d.secondaryHwids)

theorem isForDevice_true {u : TufTarget}
    (h : isForDevice d.hwId d.tags d.secondaryHwids u = .ok true) : ForDevice d u := by
  obtain ⟨format, hformat, h⟩ := bind_eq_ok.mp h
  by_cases hne : format ≠ .str "OSTREE"
  · rw [if_pos hne] at h
    cases h
  rw [if_neg hne] at h
  -- the hardware ID is looked at last, with or without tags
  have hlast : (d.tags ≠ [] → ∃ tag ∈ d.tags, HasTag u.custom tag) ∧
      (do
        let id ← u.hardwareId
        return id == d.hwId || d.secondaryHwids.contains id : Except String Bool) = .ok true := by
    by_cases htags : (!d.tags.isEmpty) = true
    · rw [if_pos htags] at h
      obtain ⟨found, hfound, h⟩ := bind_eq_ok.mp h
      cases found with
      | false => cases h
      | true => exact ⟨fun _ => hasOneOfTags_true hfound, h⟩
    · rw [if_neg htags] at h
      exact ⟨fun hne => absurd (by simpa using hne) htags, h⟩
  obtain ⟨id, hid, hmatch⟩ := bind_eq_ok.mp hlast.2
  refine ⟨hlast.1, by rw [hformat, not_not.mp hne], id, hid, ?_⟩
  have hor := Except.ok.inj hmatch
  simpa using hor

theorem mem_filterTargets {all matching : List TufTarget}
    (h : filterTargets all d.hwId d.tags d.secondaryHwids = .ok matching) {u : TufTarget}
    (hu : u ∈ matching) : u ∈ all ∧ ForDevice d u := by
  obtain ⟨kept, hkept, h⟩ := bind_eq_ok.mp h
  cases h
  have hmem : u ∈ kept := (List.mem_insertionSort _).mp hu
  obtain ⟨hall, hpass⟩ := (mem_filterWhere_iff hkept).mp hmem
  exact ⟨hall, isForDevice_true hpass⟩

theorem mem_getTrustedTargets {file bundle : Json} (hbundle : BundlePassed d file bundle)
    {all trusted : List TufTarget} (h : getTrustedTargets all bundle = .ok trusted) {u : TufTarget}
    (hu : u ∈ trusted) :
    u ∈ all ∧ ∃ listed, bundleTargets file = .ok listed ∧ .str u.name ∈ listed.values := by
  unfold getTrustedTargets at h
  rw [if_neg (by simp [hbundle.not_empty])] at h
  unfold getTrustedBundleTargets at h
  obtain ⟨offline, hoffline, h⟩ := bind_eq_ok.mp h
  obtain ⟨listed, hlisted, h⟩ := bind_eq_ok.mp h
  cases h
  obtain ⟨entry, hentry, hmem⟩ := List.mem_flatMap.mp hu
  obtain ⟨hall, hname⟩ := List.mem_filter.mp hmem
  refine ⟨hall, listed, ?_, ?_⟩
  · unfold bundleTargets
    rw [← hbundle.same, hoffline]
    exact hlisted
  · rwa [← eq_of_beq hname]

/-! ## The targets rebuilt -/

variable {styled : Json → String} {cfg : Config} {source : LocalUpdateSource} {content : Content}
  {custom custom' : Json}

theorem putLocalSrc_find {key value other : String} (h : putLocalSrc custom key value = .ok custom')
    (hne : other ≠ localSrcDirKey) : custom'.find other = custom.find other := by
  obtain ⟨⟨touched, src⟩, htouch, h⟩ := bind_eq_ok.mp h
  obtain ⟨src', _, h⟩ := bind_eq_ok.mp h
  rw [Json.find_insert_of_ne h hne, Json.find_touch_of_ne htouch hne]

theorem putLocalSrc_index {key value other : String}
    (h : putLocalSrc custom key value = .ok custom') (hne : other ≠ localSrcDirKey) :
    custom'.index other = custom.index other :=
  Json.index_congr (putLocalSrc_find h hne)

theorem restrictApps_find {shortlist : List String} {other : String}
    (h : restrictApps custom shortlist = .ok custom') (hne : other ≠ "docker_compose_apps") :
    custom'.find other = custom.find other := by
  obtain ⟨apps, _, h⟩ := bind_eq_ok.mp h
  cases apps with
  | obj fields =>
    dsimp only at h
    split at h
    · exact Json.find_removeMember_of_ne h hne
    · exact Json.find_insert_of_ne h hne
  | _ =>
    cases h
    rfl

theorem restrictApps_index {shortlist : List String} {other : String}
    (h : restrictApps custom shortlist = .ok custom') (hne : other ≠ "docker_compose_apps") :
    custom'.index other = custom.index other :=
  Json.index_congr (restrictApps_find h hne)

/-- A target gets new custom data in two members. -/
theorem availableCustom_index {foundApps : List String}
    (h : availableCustom styled cfg source foundApps custom = .ok (some custom')) {other : String}
    (hsrc : other ≠ localSrcDirKey) (happs : other ≠ "docker_compose_apps") :
    custom'.index other = custom.index other := by
  unfold availableCustom at h
  split at h
  · obtain ⟨c, hc, h⟩ := bind_eq_ok.mp h
    cases h
    exact putLocalSrc_index hc hsrc
  obtain ⟨offline, _, h⟩ := bind_eq_ok.mp h
  split at h
  · obtain ⟨c, hc, h⟩ := bind_eq_ok.mp h
    obtain ⟨c', hc', h⟩ := bind_eq_ok.mp h
    cases h
    rw [Json.index_removeMember_of_ne hc' happs, putLocalSrc_index hc hsrc]
  obtain ⟨required, _, h⟩ := bind_eq_ok.mp h
  split at h
  · cases h
  -- the shortlist, then the two paths
  have hrest : ∀ c : Json, c.index other = custom.index other →
      (do
        let c ← putLocalSrc c "ostree" source.ostreeRepo
        return some (← putLocalSrc c "apps" source.appStore) : Except String (Option Json)) =
          .ok (some custom') →
      custom'.index other = custom.index other := by
    intro c hc h
    obtain ⟨c₁, h₁, h⟩ := bind_eq_ok.mp h
    obtain ⟨c₂, h₂, h⟩ := bind_eq_ok.mp h
    cases h
    rw [putLocalSrc_index h₂ hsrc, putLocalSrc_index h₁ hsrc, hc]
  cases offline with
  | onlyShortlistedApps apps =>
    obtain ⟨c, hc, h⟩ := bind_eq_ok.mp h
    exact hrest c (restrictApps_index hc happs) h
  | allTargetApps => exact hrest custom rfl h
  | noneOfTargetApps => exact hrest custom rfl h

theorem mem_availableTargets {foundApps : List String} {hasCommit : String → Except String Bool}
    {allowed available : List Target}
    (h : availableTargets styled cfg source foundApps hasCommit allowed = .ok available)
    {a : Target} (ha : a ∈ available) :
    ∃ m ∈ allowed, ∃ custom, a = updateCustom m custom ∧
      availableCustom styled cfg source foundApps m.custom = .ok (some custom) := by
  induction allowed generalizing available with
  | nil =>
    cases h
    cases ha
  | cons m rest ih =>
    obtain ⟨found, hfound, h⟩ := bind_eq_ok.mp h
    obtain ⟨others, hothers, h⟩ := bind_eq_ok.mp h
    cases h
    rcases List.mem_append.mp ha with ha | ha
    · obtain ⟨present, _, hfound⟩ := bind_eq_ok.mp hfound
      split at hfound
      · cases hfound
        cases ha
      · obtain ⟨custom?, hcustom, hfound⟩ := bind_eq_ok.mp hfound
        cases hfound
        obtain ⟨custom, rfl, hupdate⟩ := Option.map_eq_some_iff.mp (Option.mem_toList.mp ha)
        exact ⟨m, List.mem_cons_self, custom, hupdate.symm, hcustom⟩
    · obtain ⟨m', hmem, custom, hupdate, hcustom⟩ := ih hothers ha
      exact ⟨m', List.mem_cons_of_mem _ hmem, custom, hupdate, hcustom⟩

theorem mem_getAvailableTargets {allowed available : List Target}
    (h : getAvailableTargets styled cfg source content allowed = .ok available) {a : Target}
    (ha : a ∈ available) :
    ∃ m ∈ allowed, ∃ foundApps custom, a = updateCustom m custom ∧
      availableCustom styled cfg source foundApps m.custom = .ok (some custom) := by
  unfold getAvailableTargets at h
  split at h
  · cases h
    cases ha
  · obtain ⟨foundApps, _, h⟩ := bind_eq_ok.mp h
    obtain ⟨hasCommit, _, h⟩ := bind_eq_ok.mp h
    obtain ⟨m, hmem, custom, hupdate, hcustom⟩ := mem_availableTargets h ha
    exact ⟨m, hmem, foundApps, custom, hupdate, hcustom⟩

/-- The version is read from the name and one member of the custom data. -/
theorem toTufTarget_of_same {x y : Target} {u : TufTarget} (h : toTufTarget x = .ok u)
    (hname : y.filename = x.filename)
    (hversion : y.custom.index "version" = x.custom.index "version") :
    toTufTarget y = .ok { name := y.filename, sha256Hash := y.sha256Hash, version := u.version,
                          custom := y.custom } := by
  have hcustom : y.customVersion = x.customVersion := by
    rw [Target.customVersion, Target.customVersion, hversion]
  have hinitial : y.isInitial = x.isInitial := by rw [Target.isInitial, Target.isInitial, hname]
  unfold toTufTarget at h ⊢
  rw [hcustom, hinitial]
  split
  · next hi =>
    rw [if_pos hi] at h
    cases h
    rfl
  · next hi =>
    rw [if_neg hi] at h
    cases hstoi : stoi x.customVersion <;> rw [hstoi] at h <;> cases h <;> rfl

/-- A rebuilt target is the verified one but for the two members. -/
theorem rebuilt {x : Target} {m u : TufTarget} {custom : Json} (hm : toTufTarget x = .ok m)
    (hcustom : ∀ other, other ≠ localSrcDirKey → other ≠ "docker_compose_apps" →
      custom.index other = m.custom.index other)
    (hu : toTufTarget (updateCustom (fromTufTarget m) custom) = .ok u) :
    u = { m with custom := custom } := by
  obtain ⟨hname, hhash, hmcustom⟩ := toTufTarget_fields hm
  have hversion : custom.index "version" = x.custom.index "version" := by
    rw [hcustom "version" (by decide) (by decide), hmcustom]
  have hsame := toTufTarget_of_same (y := updateCustom (fromTufTarget m) custom) hm hname hversion
  exact Except.ok.inj (hu.symm.trans hsame)

theorem ForDevice.of_custom {m : TufTarget} {custom : Json} (h : ForDevice d m)
    (hcustom : ∀ other, other ≠ localSrcDirKey → other ≠ "docker_compose_apps" →
      custom.index other = m.custom.index other) :
    ForDevice d { m with custom := custom } := by
  refine ⟨fun htags => ?_, ?_, ?_⟩
  · obtain ⟨tag, hmem, entries, hentries, hentry⟩ := h.tag htags
    exact ⟨tag, hmem, entries, (hcustom "tags" (by decide) (by decide)).trans hentries, hentry⟩
  · exact (hcustom "targetFormat" (by decide) (by decide)).trans h.format
  · obtain ⟨id, hid, hmatch⟩ := h.hardware
    refine ⟨id, ?_, hmatch⟩
    rw [TufTarget.hardwareId, hcustom "hardwareIds" (by decide) (by decide)]
    exact hid

/-! ## The check-in -/

/-- A good result comes from the end of the call. -/
theorem localTargets_good {status : CheckInStatus} {file bundle : Json} {t : T} {out : CheckedIn}
    (hbundle : BundlePassed d file bundle)
    (h : localTargets d source content status bundle t = .ok out) (hgood : out.result.good = true) :
    ∃ verified, d.repo.getTargets t = .ok verified ∧
      ∀ u ∈ out.result.targets, TargetAllowed d file verified u := by
  obtain ⟨verified, hverified, h⟩ := bind_eq_ok.mp h
  obtain ⟨trusted, htrusted, h⟩ := bind_eq_ok.mp h
  refine ⟨verified, hverified, ?_⟩
  split at h
  · cases h
    cases hgood
  obtain ⟨matching, hmatching, h⟩ := bind_eq_ok.mp h
  split at h
  · cases h
    cases hgood
  obtain ⟨available, havailable, h⟩ := bind_eq_ok.mp h
  split at h
  · cases h
    cases hgood
  obtain ⟨targets, htargets, h⟩ := bind_eq_ok.mp h
  cases h
  intro u hu
  obtain ⟨a, ha, hua⟩ := exists_of_mem_mapM htargets hu
  obtain ⟨m', hm', foundApps, custom, rfl, hcustom⟩ := mem_getAvailableTargets havailable ha
  obtain ⟨m, hm, rfl⟩ := List.mem_map.mp hm'
  obtain ⟨hmtrusted, hdevice⟩ := mem_filterTargets hmatching hm
  obtain ⟨hmverified, hlisted⟩ := mem_getTrustedTargets hbundle htrusted hmtrusted
  obtain ⟨x, _, hx⟩ := exists_of_mem_mapM hverified hmverified
  have hsame : ∀ other, other ≠ localSrcDirKey → other ≠ "docker_compose_apps" →
      custom.index other = m.custom.index other :=
    fun other hsrc happs => availableCustom_index hcustom hsrc happs
  obtain rfl := rebuilt hx hsame hua
  have hrebuilt := hdevice.of_custom hsame
  exact ⟨hrebuilt.tag, ⟨m, hmverified, rfl, rfl, rfl⟩, hlisted, hrebuilt.format, hrebuilt.hardware⟩

/-- What a good check-in has been through. -/
theorem checkInLocal_good {t t' : T} {out : CheckedIn} {text : String}
    (htext : content.tuf.bundleTargets = some text)
    (h : checkInLocal d source content t = (.ok out, t')) (hgood : out.result.good = true) :
    ∃ bundle verified, BundlePassed d (d.tk.parseJSON text) bundle ∧
      d.repo.getTargets t' = .ok verified ∧
      ∀ u ∈ out.result.targets, TargetAllowed d (d.tk.parseJSON text) verified u := by
  unfold checkInLocal at h
  split at h
  · cases h
  · next type what _ =>
    cases h
    cases type <;> cases hgood
  · next bundle hbundle =>
    have hpassed := getBundleMeta_passed hbundle htext
    split at h
    next status err t₁ _ =>
    split at h
    · injection h with hout ht
      subst ht
      obtain ⟨verified, hverified, hall⟩ := localTargets_good hpassed hout hgood
      exact ⟨bundle, verified, hpassed, hverified, hall⟩
    · next hstatus =>
      cases h
      simp [CheckInResult.good, checkInFailure] at hgood
      exact absurd hgood hstatus

/-- A good check-in with a bundle keeps to the policy exactly if the bundle has one of the
known types, where the device has a type. -/
theorem bundle_policy_iff (d : Device Key Stamp R T) (source : LocalUpdateSource)
    (content : Content) (t t' : T) (out : CheckedIn) (text : String)
    (htext : content.tuf.bundleTargets = some text)
    (h : checkInLocal d source content t = (.ok out, t')) (hgood : out.result.good = true) :
    (∃ verified, d.repo.getTargets t' = .ok verified ∧
      BundlePolicy d (d.tk.parseJSON text) verified out.result.targets) ↔
    (d.type ≠ .undefined → KnownType (d.tk.parseJSON text)) := by
  obtain ⟨bundle, verified, hpassed, hverified, hall⟩ := checkInLocal_good htext h hgood
  constructor
  · rintro ⟨_, _, hpolicy⟩ hknown
    cases htype : d.type with
    | undefined => exact absurd htype hknown
    | dev => exact .inl (hpolicy.dev htype)
    | prod => exact .inr (hpolicy.prod htype)
  · intro hknown
    have hfits (type : Bundle.ClientType) (htype : d.type = type) (hne : type ≠ .undefined) :
        ∃ name, bundleType (d.tk.parseJSON text) = .ok name ∧ TypePasses type name ∧
          (name = "ci" ∨ name = "prod") := by
      obtain ⟨name, hname, hpasses⟩ := hpassed.type (htype ▸ hne)
      refine ⟨name, hname, htype ▸ hpasses, ?_⟩
      rcases hknown (htype ▸ hne) with hci | hprod
      · exact .inl (Except.ok.inj (hname.symm.trans hci))
      · exact .inr (Except.ok.inj (hname.symm.trans hprod))
    refine ⟨verified, hverified, fun htype => ?_, fun htype => ?_, hpassed.tag, hall⟩
    · obtain ⟨name, hname, hpasses, rfl | rfl⟩ := hfits .prod htype (by decide)
      · exact absurd (.inl ⟨rfl, by decide⟩) hpasses
      · exact hname
    · obtain ⟨name, hname, hpasses, rfl | rfl⟩ := hfits .dev htype (by decide)
      · exact hname
      · exact absurd (.inr ⟨rfl, by decide⟩) hpasses

/-! ## A bundle without a type -/

/-- A repository whose update brings one target. -/
def oneTargetRepo (target : Target) : TufRepo Unit where
  getRoot _ := "root"
  targets _ := some [target]
  updateMeta _ t := (.ok (), t)
  checkMeta t := (.ok (), t)

def boardTarget : Target where
  filename := "board-lmp-2"
  sha256Hash := "h2"
  custom := .obj [("hardwareIds", .arr [.str "board"]), ("tags", .arr [.str "main"]),
    ("targetFormat", .str "OSTREE"), ("version", .str "2")]
  correlationId := ""
  isValid := true

/-- A bundle with one target and these further fields, signed with the key it needs. -/
def boardBundle (fields : List (String × Json)) : Json :=
  .obj [("signatures", .arr [Bundle.sampleSignature "k1" "a"]),
    ("signed", .obj [("expires", .str ""), ("x-fio-offline-bundle",
      .obj (fields ++ [("tag", .str "main"), ("targets", .arr [.str "board-lmp-2"])]))])]

/-- A production device and the bundle it is given. -/
def prodDevice (bundle : Json) : Device String Unit Int Unit where
  tk := Bundle.sampleToolkit (Bundle.sampleRoot 1) bundle
  rootRepo := Bundle.sampleRootRepo
  repo := oneTargetRepo boardTarget
  cfg := deviceConfig
  hwId := "board"
  secondaryHwids := []
  tags := ["main"]
  type := .prod

def boardSource : LocalUpdateSource :=
  { tufRepo := "/media/tuf", ostreeRepo := "/media/ostree", appStore := "/media/apps" }

def boardContent : Content where
  tuf := Bundle.sampleDir
  apps := none
  ostree := .ok fun _ => .ok true

/-- A production bundle keeps to the policy. -/
theorem bundle_policy_of_prod_bundle :
    ∃ verified, (prodDevice (boardBundle [("type", .str "prod")])).repo.getTargets () =
        .ok verified ∧
      ∃ out, checkInLocal (prodDevice (boardBundle [("type", .str "prod")])) boardSource
          boardContent () = (.ok out, ()) ∧
        BundlePolicy (prodDevice (boardBundle [("type", .str "prod")]))
          (boardBundle [("type", .str "prod")]) verified out.result.targets := by
  have hrun : ∃ out, checkInLocal (prodDevice (boardBundle [("type", .str "prod")])) boardSource
      boardContent () = (.ok out, ()) ∧ out.result.good = true := ⟨_, rfl, rfl⟩
  obtain ⟨out, hout, hgood⟩ := hrun
  have hiff := bundle_policy_iff (prodDevice (boardBundle [("type", .str "prod")])) boardSource
    boardContent () () out "bundle" rfl hout hgood
  obtain ⟨verified, hverified, hpolicy⟩ := hiff.mpr fun _ => .inr rfl
  exact ⟨verified, hverified, out, hout, hpolicy⟩

/-- A production device takes a bundle that has no type. -/
theorem untyped_bundle_is_accepted :
    ∃ out, checkInLocal (prodDevice (boardBundle [])) boardSource boardContent () =
        (.ok out, ()) ∧ out.result.status = .ok ∧ out.result.targets.length = 1 ∧
      ∀ verified, ¬ BundlePolicy (prodDevice (boardBundle [])) (boardBundle []) verified
        out.result.targets := by
  refine ⟨_, rfl, rfl, rfl, fun verified hpolicy => ?_⟩
  have hnone : bundleType (boardBundle []) = .ok "" := rfl
  exact absurd (Except.ok.inj (hnone.symm.trans (hpolicy.prod rfl))) (by decide)

end Client
end AkLite
