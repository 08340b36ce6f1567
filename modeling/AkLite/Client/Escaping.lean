/-
The exceptions that leave a check-in.

`CheckInLocal` has a handler for one class of exceptions around the check of the bundle, and
both check-ins have handlers for the metadata update.  What follows has none: the version
numbers of the targets, the filter by format, tags and hardware ID, the apps and the ostree
repository of the bundle, and the custom data of the targets that are rebuilt.

The check-ins return exactly for the devices, bundles and metadata from which all of this can
be read (`check_in_returns_iff`).
-/
import AkLite.Client.BundlePolicy

namespace AkLite
namespace Client

open Lib

variable {Key Stamp R T : Type} {d : Device Key Stamp R T} {source : LocalUpdateSource}
  {content : Content}

/-! ## The condition -/

/-- The version is no number that is out of the range of `int`. -/
def VersionFits (x : Target) : Prop := x.isInitial = true ∨ stoi x.customVersion ≠ .outOfRange

/-- The filter can read the target: its custom data have members, and, as far as they are
looked at, its tags and its hardware ID are texts. -/
structure FieldsRead (d : Device Key Stamp R T) (m : TufTarget) : Prop where
  format : Returns (m.custom.index "targetFormat")
  tags : m.custom.index "targetFormat" = .ok (.str "OSTREE") → d.tags ≠ [] →
    Returns (hasOneOfTags m.custom d.tags)
  hardware : m.custom.index "targetFormat" = .ok (.str "OSTREE") →
    (d.tags ≠ [] → hasOneOfTags m.custom d.tags = .ok true) → Returns m.hardwareId

/-- The member that is written to is missing, null or an object. -/
def SrcIsObject (custom : Json) : Prop :=
  ∃ src, custom.index localSrcDirKey = .ok src ∧ Returns (src.index "ostree")

/-- The bundle lacks an app that the update needs. -/
def LacksApps (styled : Json → String) (cfg : Config) (foundApps : List String) (custom : Json) :
    Prop :=
  cfg.pacman = .compose ∧ ∃ offline required,
    getAppsFetchedForOfflineUpdate custom = .ok offline ∧ offline ≠ .noneOfTargetApps ∧
    getRequiredApps styled cfg custom = .ok required ∧
    (required.any fun app => !foundApps.contains app.2 && offline.needs app.1) = true

/-- The custom data can be read and rebuilt. -/
structure CustomReads (styled : Json → String) (cfg : Config) (foundApps : List String)
    (custom : Json) : Prop where
  shortlist : cfg.pacman = .compose → Returns (getAppsFetchedForOfflineUpdate custom)
  apps : cfg.pacman = .compose → getAppsFetchedForOfflineUpdate custom ≠ .ok .noneOfTargetApps →
    Returns (getRequiredApps styled cfg custom)
  src : ¬ LacksApps styled cfg foundApps custom → SrcIsObject custom

/-- The commit can be looked up and, if it is there, the custom data can be read. -/
def CommitReads (styled : Json → String) (cfg : Config) (foundApps : List String)
    (hasCommit : String → Except String Bool) (hash : String) (custom : Json) : Prop :=
  ∃ present, hasCommit hash = .ok present ∧
    (present = true → CustomReads styled cfg foundApps custom)

/-- The bundle's directories can be read, and so can the target, as far as it is looked at. -/
def ContentReads (d : Device Key Stamp R T) (content : Content) (m : TufTarget) : Prop :=
  ∃ foundApps hasCommit, parseUpdateContent content.apps = .ok foundApps ∧
    content.ostree = .ok hasCommit ∧
    CommitReads d.tk.toStyledString d.cfg foundApps hasCommit m.sha256Hash m.custom

/-- A verified target that the bundle lists. -/
def Trusted (d : Device Key Stamp R T) (bundle : Json) (t : T) (m : TufTarget) : Prop :=
  ∃ verified trusted, d.repo.getTargets t = .ok verified ∧
    getTrustedTargets verified bundle = .ok trusted ∧ m ∈ trusted

structure LocalTargetsRead (d : Device Key Stamp R T) (content : Content) (bundle : Json) (t : T) :
    Prop where
  versions : ∀ x ∈ (d.repo.targets t).getD [], VersionFits x
  fields : ∀ m, Trusted d bundle t m → FieldsRead d m
  content : ∀ m, Trusted d bundle t m →
    isForDevice d.hwId d.tags d.secondaryHwids m = .ok true → ContentReads d content m

structure RemoteTargetsRead (d : Device Key Stamp R T) (t : T) : Prop where
  versions : ∀ x ∈ (d.repo.targets t).getD [], VersionFits x
  fields : ∀ verified, d.repo.getTargets t = .ok verified → ∀ m ∈ verified, FieldsRead d m

/-- What `CheckInLocal` reads can be read.  The targets are those of the metadata that the
update leaves, and they are read if the bundle is accepted and the update leaves valid ones. -/
structure LocalReads (d : Device Key Stamp R T) (source : LocalUpdateSource) (content : Content)
    (t : T) : Prop where
  bundle : ∀ text, content.tuf.bundleTargets = some text →
    Bundle.BundleReads d.tk d.rootRepo (d.repo.getRoot t) content.tuf text
  targets : ∀ bundle status err t',
    Bundle.getBundleMeta d.tk d.rootRepo (d.repo.getRoot t) content.tuf d.type d.tags =
      .ok bundle →
    updateMeta d.repo (.local source.tufRepo) t = ((status, err), t') →
    (status = .ok ∨ status = .okCached) → LocalTargetsRead d content bundle t'

/-- What `CheckIn` reads can be read: the apps of the current target, and the targets of the
metadata if the update leaves valid ones. -/
structure RemoteReads (d : Device Key Stamp R T) (current : Target) (t : T) : Prop where
  apps : Returns (targetApps d.tk.toStyledString current.custom)
  targets : ∀ src status err t', remoteSource d current = .ok src →
    updateMeta d.repo src t = ((status, err), t') → (status = .ok ∨ status = .okCached) →
    RemoteTargetsRead d t'

/-! ## The verified targets -/

theorem returns_toTufTarget_iff {x : Target} : Returns (toTufTarget x) ↔ VersionFits x := by
  unfold toTufTarget VersionFits
  split
  · next hi => exact iff_of_true ⟨_, rfl⟩ (.inl hi)
  · next hi =>
    cases stoi x.customVersion with
    | value n => exact iff_of_true ⟨_, rfl⟩ (.inr fun h => by cases h)
    | invalidArgument => exact iff_of_true ⟨_, rfl⟩ (.inr fun h => by cases h)
    | outOfRange =>
      refine iff_of_false (not_returns_error _) ?_
      rintro (h | h)
      · exact hi h
      · exact h rfl

theorem returns_getTargets_iff {t : T} :
    Returns (d.repo.getTargets t) ↔ ∀ x ∈ (d.repo.targets t).getD [], VersionFits x := by
  unfold TufRepo.getTargets
  simp only [returns_mapM_iff, returns_toTufTarget_iff]

/-! ## The filter -/

theorem returns_filterWhere_iff {α : Type} {p : α → Except String Bool} {xs : List α} :
    Returns (filterWhere p xs) ↔ ∀ a ∈ xs, Returns (p a) := by
  induction xs with
  | nil => exact iff_of_true ⟨[], rfl⟩ fun _ h => by cases h
  | cons x rest ih =>
    unfold filterWhere
    rw [returns_bind_iff]
    constructor
    · rintro ⟨keep, hkeep, h⟩
      obtain ⟨others, hothers, _⟩ := returns_bind_iff.mp h
      intro a ha
      rcases List.mem_cons.mp ha with rfl | ha
      · exact ⟨keep, hkeep⟩
      · exact ih.mp ⟨others, hothers⟩ a ha
    · intro h
      obtain ⟨keep, hkeep⟩ := h x List.mem_cons_self
      obtain ⟨others, hothers⟩ := ih.mpr fun a ha => h a (List.mem_cons_of_mem _ ha)
      exact ⟨keep, hkeep, returns_bind_iff.mpr ⟨others, hothers, _, rfl⟩⟩

theorem returns_isForDevice_iff {m : TufTarget} :
    Returns (isForDevice d.hwId d.tags d.secondaryHwids m) ↔ FieldsRead d m := by
  have hlast : Returns (do
      let id ← m.hardwareId
      return id == d.hwId || d.secondaryHwids.contains id : Except String Bool) ↔
      Returns m.hardwareId := by
    rw [returns_bind_iff]
    exact ⟨fun ⟨id, hid, _⟩ => ⟨id, hid⟩, fun ⟨id, hid⟩ => ⟨id, hid, _, rfl⟩⟩
  unfold isForDevice
  cases hformat : m.custom.index "targetFormat" with
  | error e =>
    refine iff_of_false (not_returns_error e) fun h => ?_
    obtain ⟨v, hv⟩ := h.format
    cases hformat.symm.trans hv
  | ok format =>
    rw [ok_bind]
    by_cases hostree : format = .str "OSTREE"
    · subst hostree
      rw [if_neg (fun h => h rfl)]
      by_cases htags : d.tags = []
      · rw [if_neg (by simp [htags])]
        refine hlast.trans ⟨fun h => ?_, fun h => ?_⟩
        · exact ⟨⟨_, hformat⟩, fun _ hne => absurd htags hne, fun _ _ => h⟩
        · exact h.hardware hformat fun hne => absurd htags hne
      · rw [if_pos (by simpa using htags), returns_bind_iff]
        constructor
        · rintro ⟨found, hfound, h⟩
          refine ⟨⟨_, hformat⟩, fun _ _ => ⟨found, hfound⟩, fun _ htrue => ?_⟩
          cases hfound.symm.trans (htrue htags)
          exact hlast.mp h
        · intro h
          obtain ⟨found, hfound⟩ := h.tags hformat htags
          refine ⟨found, hfound, ?_⟩
          cases found with
          | false => exact ⟨false, rfl⟩
          | true => exact hlast.mpr (h.hardware hformat fun _ => hfound)
    · rw [if_pos hostree]
      refine iff_of_true ⟨false, rfl⟩ ⟨⟨_, hformat⟩, fun h => ?_, fun h => ?_⟩
      · cases hformat.symm.trans h
        exact absurd rfl hostree
      · cases hformat.symm.trans h
        exact absurd rfl hostree

theorem returns_filterTargets_iff {all : List TufTarget} :
    Returns (filterTargets all d.hwId d.tags d.secondaryHwids) ↔ ∀ m ∈ all, FieldsRead d m := by
  unfold filterTargets
  simp only [← returns_isForDevice_iff]
  rw [← returns_filterWhere_iff, returns_bind_iff]
  exact ⟨fun ⟨kept, hkept, _⟩ => ⟨kept, hkept⟩, fun ⟨kept, hkept⟩ => ⟨kept, hkept, _, rfl⟩⟩

/-! ## The custom data rebuilt -/

theorem returns_putLocalSrc_iff {custom : Json} {key value : String} :
    Returns (putLocalSrc custom key value) ↔ SrcIsObject custom := by
  unfold putLocalSrc
  rw [returns_bind_iff]
  constructor
  · rintro ⟨⟨touched, src⟩, htouch, h⟩
    obtain ⟨src', hinsert, _⟩ := returns_bind_iff.mp h
    refine ⟨src, Json.index_of_touch htouch, ?_⟩
    cases src with
    | null => exact ⟨_, rfl⟩
    | obj fields => exact ⟨_, rfl⟩
    | _ => cases hinsert
  · rintro ⟨src, hindex, v, hv⟩
    obtain ⟨touched, src', htouch⟩ := Json.touch_returns hindex
    cases hindex.symm.trans (Json.index_of_touch htouch)
    obtain ⟨src', hinsert⟩ := Json.insert_returns hv (.str value) key
    have htouched := (Json.index_touch htouch localSrcDirKey).trans hindex
    refine ⟨_, htouch, returns_bind_iff.mpr ⟨src', hinsert, ?_⟩⟩
    exact Json.insert_returns htouched src' localSrcDirKey

/-- After one path is written, so can be the other. -/
theorem srcIsObject_putLocalSrc {custom custom' : Json} {key value : String}
    (h : putLocalSrc custom key value = .ok custom') : SrcIsObject custom' := by
  obtain ⟨⟨touched, src⟩, _, h⟩ := bind_eq_ok.mp h
  obtain ⟨src', hsrc, h⟩ := bind_eq_ok.mp h
  have hmember := Json.index_of_find (Json.find_insert_self hsrc)
  exact ⟨src', Json.index_of_find (Json.find_insert_self h), Json.index_returns hmember "ostree"⟩

theorem removeMember_returns {custom v : Json} {key : String} (h : custom.index key = .ok v)
    (other : String) : Returns (custom.removeMember other) := by
  cases custom with
  | null => exact ⟨_, rfl⟩
  | obj fields => exact ⟨_, rfl⟩
  | _ => cases h

theorem restrictApps_returns {custom v : Json} {key : String} (h : custom.index key = .ok v)
    (shortlist : List String) : Returns (restrictApps custom shortlist) := by
  obtain ⟨apps, happs⟩ := Json.index_returns h "docker_compose_apps"
  unfold restrictApps appsJson
  rw [happs, ok_bind]
  cases apps with
  | obj fields =>
    dsimp only
    split
    · exact removeMember_returns happs _
    · exact Json.insert_returns happs _ _
  | _ => exact ⟨_, rfl⟩

/-- Both paths are written, or none can be. -/
theorem returns_putBoth_iff {custom : Json} :
    Returns (do
      let c ← putLocalSrc custom "ostree" source.ostreeRepo
      return some (← putLocalSrc c "apps" source.appStore) : Except String (Option Json)) ↔
      SrcIsObject custom := by
  rw [returns_bind_iff]
  constructor
  · rintro ⟨c, hc, _⟩
    exact returns_putLocalSrc_iff.mp ⟨c, hc⟩
  · intro h
    obtain ⟨c, hc⟩ := returns_putLocalSrc_iff.mpr h
    obtain ⟨c', hc'⟩ := returns_putLocalSrc_iff.mpr (srcIsObject_putLocalSrc hc)
    exact ⟨c, hc, returns_bind_iff.mpr ⟨c', hc', _, rfl⟩⟩

theorem SrcIsObject.of_index {custom custom' : Json}
    (h : custom'.index localSrcDirKey = custom.index localSrcDirKey) :
    SrcIsObject custom' ↔ SrcIsObject custom := by
  unfold SrcIsObject
  rw [h]

/-- The shortlist does not touch where the paths go. -/
theorem returns_restricted_iff {custom v : Json} {key : String} (h : custom.index key = .ok v)
    (offline : OfflineApps) :
    Returns (do
      let custom ←
        match offline with
        | .onlyShortlistedApps apps => restrictApps custom apps
        | _ => pure custom
      let custom ← putLocalSrc custom "ostree" source.ostreeRepo
      return some (← putLocalSrc custom "apps" source.appStore) : Except String (Option Json)) ↔
      SrcIsObject custom := by
  cases offline with
  | onlyShortlistedApps apps =>
    obtain ⟨restricted, hrestricted⟩ := restrictApps_returns h apps
    have hsame : restricted.index localSrcDirKey = custom.index localSrcDirKey :=
      restrictApps_index hrestricted (by decide)
    change Returns (restrictApps custom apps >>= _) ↔ _
    rw [hrestricted, ok_bind]
    exact returns_putBoth_iff.trans (SrcIsObject.of_index hsame)
  | allTargetApps => exact returns_putBoth_iff
  | noneOfTargetApps => exact returns_putBoth_iff

theorem returns_availableCustom_iff {styled : Json → String} {cfg : Config}
    {foundApps : List String} {custom v : Json} {key : String} (h : custom.index key = .ok v) :
    Returns (availableCustom styled cfg source foundApps custom) ↔
      CustomReads styled cfg foundApps custom := by
  unfold availableCustom
  by_cases hcompose : cfg.pacman = .compose
  swap
  · -- only the ostree part is taken
    rw [if_pos hcompose, returns_bind_iff]
    constructor
    · rintro ⟨c, hc, _⟩
      exact ⟨fun h => absurd h hcompose, fun h => absurd h hcompose, fun _ =>
        returns_putLocalSrc_iff.mp ⟨c, hc⟩⟩
    · intro hreads
      obtain ⟨c, hc⟩ := returns_putLocalSrc_iff.mpr (hreads.src fun hlacks => hcompose hlacks.1)
      exact ⟨c, hc, _, rfl⟩
  rw [if_neg (not_not.mpr hcompose)]
  cases hoffline : getAppsFetchedForOfflineUpdate custom with
  | error e =>
    refine iff_of_false (not_returns_error e) fun hreads => ?_
    obtain ⟨offline, ho⟩ := hreads.shortlist hcompose
    cases hoffline.symm.trans ho
  | ok offline =>
    rw [ok_bind]
    by_cases hnone : offline = .noneOfTargetApps
    · subst hnone
      rw [if_pos rfl, returns_bind_iff]
      constructor
      · rintro ⟨c, hc, _⟩
        exact ⟨fun _ => ⟨_, hoffline⟩, fun _ hne => absurd hoffline hne, fun _ =>
          returns_putLocalSrc_iff.mp ⟨c, hc⟩⟩
      · intro hreads
        have hsrc : SrcIsObject custom := hreads.src fun ⟨_, o, _, ho, hne, _⟩ => by
          cases hoffline.symm.trans ho
          exact hne rfl
        obtain ⟨c, hc⟩ := returns_putLocalSrc_iff.mpr hsrc
        obtain ⟨src, hindex, _⟩ := srcIsObject_putLocalSrc hc
        obtain ⟨c', hc'⟩ := removeMember_returns hindex "docker_compose_apps"
        exact ⟨c, hc, returns_bind_iff.mpr ⟨c', hc', _, rfl⟩⟩
    rw [if_neg hnone]
    have hnone' : getAppsFetchedForOfflineUpdate custom ≠ .ok .noneOfTargetApps := fun h' =>
      hnone (Except.ok.inj (hoffline.symm.trans h'))
    cases hrequired : getRequiredApps styled cfg custom with
    | error e =>
      refine iff_of_false (not_returns_error e) fun hreads => ?_
      obtain ⟨required, hr⟩ := hreads.apps hcompose hnone'
      cases hrequired.symm.trans hr
    | ok required =>
      rw [ok_bind]
      have hreads_iff : CustomReads styled cfg foundApps custom ↔
          (¬ LacksApps styled cfg foundApps custom → SrcIsObject custom) :=
        ⟨CustomReads.src, fun hsrc => ⟨fun _ => ⟨_, hoffline⟩, fun _ _ => ⟨_, hrequired⟩, hsrc⟩⟩
      rw [hreads_iff]
      split
      · next hmissing =>
        refine iff_of_true ⟨none, rfl⟩ fun hlacks => absurd ?_ hlacks
        exact ⟨hcompose, offline, required, hoffline, hnone, hrequired, hmissing⟩
      · next hmissing =>
        have hnot : ¬ LacksApps styled cfg foundApps custom := by
          rintro ⟨_, o, r, ho, _, hr, hany⟩
          cases hoffline.symm.trans ho
          cases hrequired.symm.trans hr
          exact hmissing hany
        rw [imp_iff_right hnot]
        exact returns_restricted_iff h offline

theorem returns_availableTargets_iff {styled : Json → String} {cfg : Config}
    {foundApps : List String} {hasCommit : String → Except String Bool} {allowed : List Target}
    (h : ∀ m ∈ allowed, Returns (m.custom.index "targetFormat")) :
    Returns (availableTargets styled cfg source foundApps hasCommit allowed) ↔
      ∀ m ∈ allowed, CommitReads styled cfg foundApps hasCommit m.sha256Hash m.custom := by
  induction allowed with
  | nil => exact iff_of_true ⟨[], rfl⟩ fun _ hm => by cases hm
  | cons m rest ih =>
    obtain ⟨v, hv⟩ := h m List.mem_cons_self
    have ih := ih fun x hx => h x (List.mem_cons_of_mem _ hx)
    have hfirst : Returns (availableTarget styled cfg source foundApps hasCommit m) ↔
        CommitReads styled cfg foundApps hasCommit m.sha256Hash m.custom := by
      have hcustom : Returns (availableCustom styled cfg source foundApps m.custom) ↔
          CustomReads styled cfg foundApps m.custom := returns_availableCustom_iff hv
      unfold availableTarget CommitReads
      rw [← hcustom, returns_bind_iff]
      refine exists_congr fun present => and_congr_right fun _ => ?_
      cases present with
      | false => exact iff_of_true ⟨none, rfl⟩ fun hf => absurd hf (by decide)
      | true =>
        rw [if_neg (by decide), returns_bind_iff]
        exact ⟨fun ⟨c, hc, _⟩ _ => ⟨c, hc⟩, fun hc => (hc rfl).imp fun c hc => ⟨hc, _, rfl⟩⟩
    unfold availableTargets
    rw [returns_bind_iff, List.forall_mem_cons, ← hfirst, ← ih]
    constructor
    · rintro ⟨found, hfound, hrest⟩
      obtain ⟨others, hothers, _⟩ := returns_bind_iff.mp hrest
      exact ⟨⟨found, hfound⟩, others, hothers⟩
    · rintro ⟨⟨found, hfound⟩, others, hothers⟩
      exact ⟨found, hfound, returns_bind_iff.mpr ⟨others, hothers, _, rfl⟩⟩

theorem returns_getAvailableTargets_iff {targets : List TufTarget}
    (h : ∀ m ∈ targets, Returns (m.custom.index "targetFormat")) :
    Returns (getAvailableTargets d.tk.toStyledString d.cfg source content
        (targets.map fromTufTarget)) ↔ ∀ m ∈ targets, ContentReads d content m := by
  unfold getAvailableTargets
  cases targets with
  | nil => exact iff_of_true ⟨[], rfl⟩ fun _ hm => by cases hm
  | cons first rest =>
    have hcustom : ∀ x ∈ (first :: rest).map fromTufTarget,
        Returns (x.custom.index "targetFormat") := by
      intro x hx
      obtain ⟨m, hm, rfl⟩ := List.mem_map.mp hx
      exact h m hm
    have hmap (foundApps : List String) (hasCommit : String → Except String Bool) :
        (∀ x ∈ (first :: rest).map fromTufTarget,
          CommitReads d.tk.toStyledString d.cfg foundApps hasCommit x.sha256Hash x.custom) ↔
        ∀ m ∈ first :: rest,
          CommitReads d.tk.toStyledString d.cfg foundApps hasCommit m.sha256Hash m.custom :=
      List.forall_mem_map
    rw [if_neg (by simp), returns_bind_iff]
    constructor
    · rintro ⟨foundApps, hfound, hrest⟩
      obtain ⟨hasCommit, hcommit, hrest⟩ := returns_bind_iff.mp hrest
      have hall := (hmap foundApps hasCommit).mp ((returns_availableTargets_iff hcustom).mp hrest)
      exact fun m hm => ⟨foundApps, hasCommit, hfound, hcommit, hall m hm⟩
    · intro hreads
      obtain ⟨foundApps, hasCommit, hfound, hcommit, _⟩ := hreads first List.mem_cons_self
      refine ⟨foundApps, hfound, returns_bind_iff.mpr ⟨hasCommit, hcommit, ?_⟩⟩
      refine (returns_availableTargets_iff hcustom).mpr ((hmap foundApps hasCommit).mpr ?_)
      intro m hm
      obtain ⟨foundApps', hasCommit', hfound', hcommit', hreads⟩ := hreads m hm
      cases hfound.symm.trans hfound'
      cases hcommit.symm.trans hcommit'
      exact hreads

/-! ## The calls -/

theorem returns_getTrustedTargets {bundle : Json} (verified : List TufTarget)
    (h : bundle.isEmpty = true ∨ Returns (bundleTargets bundle)) :
    Returns (getTrustedTargets verified bundle) := by
  unfold getTrustedTargets
  split
  · exact ⟨_, rfl⟩
  · next hne =>
    obtain ⟨listed, hlisted⟩ := h.resolve_left hne
    obtain ⟨offline, hoffline, hlisted⟩ := bind_eq_ok.mp hlisted
    exact ⟨_, bind_eq_ok.mpr ⟨offline, hoffline, bind_eq_ok.mpr ⟨listed, hlisted, rfl⟩⟩⟩

theorem mem_getTrustedTargets_verified {bundle : Json} {verified trusted : List TufTarget}
    (h : getTrustedTargets verified bundle = .ok trusted) {m : TufTarget} (hm : m ∈ trusted) :
    m ∈ verified := by
  unfold getTrustedTargets at h
  split at h
  · cases h
    exact hm
  · obtain ⟨offline, _, h⟩ := bind_eq_ok.mp h
    obtain ⟨listed, _, h⟩ := bind_eq_ok.mp h
    cases h
    obtain ⟨entry, _, hmem⟩ := List.mem_flatMap.mp hm
    exact (List.mem_filter.mp hmem).1

/-- The targets that are rebuilt have the versions they had. -/
theorem returns_toTufTargets {verified targets : List TufTarget} {available : List Target} {t : T}
    (hverified : d.repo.getTargets t = .ok verified) (htargets : ∀ m ∈ targets, m ∈ verified)
    (havailable : getAvailableTargets d.tk.toStyledString d.cfg source content
      (targets.map fromTufTarget) = .ok available) :
    Returns (available.mapM toTufTarget) := by
  refine returns_mapM_iff.mpr fun a ha => ?_
  obtain ⟨m', hm', foundApps, custom, rfl, hcustom⟩ := mem_getAvailableTargets havailable ha
  obtain ⟨m, hm, rfl⟩ := List.mem_map.mp hm'
  obtain ⟨x, _, hx⟩ := exists_of_mem_mapM hverified (htargets m hm)
  obtain ⟨hname, _, hmcustom⟩ := toTufTarget_fields hx
  have hversion : custom.index "version" = x.custom.index "version" := by
    rw [availableCustom_index hcustom (by decide) (by decide), fromTufTarget_custom, hmcustom]
  exact ⟨_, toTufTarget_of_same (y := updateCustom (fromTufTarget m) custom) hx hname hversion⟩

theorem returns_localTargets_iff {status : CheckInStatus} {bundle : Json} {t : T}
    (hbundle : bundle.isEmpty = true ∨ Returns (bundleTargets bundle)) :
    Returns (localTargets d source content status bundle t) ↔
      LocalTargetsRead d content bundle t := by
  unfold localTargets
  rw [returns_bind_iff]
  constructor
  · rintro ⟨verified, hverified, h⟩
    obtain ⟨trusted, htrusted, h⟩ := returns_bind_iff.mp h
    have hmem : ∀ m, Trusted d bundle t m → m ∈ trusted := by
      rintro m ⟨verified', trusted', hverified', htrusted', hm⟩
      cases hverified.symm.trans hverified'
      cases htrusted.symm.trans htrusted'
      exact hm
    have hversions := returns_getTargets_iff.mp ⟨verified, hverified⟩
    by_cases hempty : trusted.isEmpty = true
    · have hnone : trusted = [] := by simpa using hempty
      subst hnone
      exact ⟨hversions, fun m hm => (List.not_mem_nil (hmem m hm)).elim, fun m hm =>
        (List.not_mem_nil (hmem m hm)).elim⟩
    rw [if_neg hempty] at h
    obtain ⟨matching, hmatching, h⟩ := returns_bind_iff.mp h
    have hfields := returns_filterTargets_iff.mp ⟨matching, hmatching⟩
    obtain ⟨kept, hkept, hsort⟩ := bind_eq_ok.mp hmatching
    cases hsort
    have hmatch : ∀ m, Trusted d bundle t m →
        isForDevice d.hwId d.tags d.secondaryHwids m = .ok true → m ∈ sortTargets kept :=
      fun m hm hpass => (List.mem_insertionSort _).mpr
        ((mem_filterWhere_iff hkept).mpr ⟨hmem m hm, hpass⟩)
    refine ⟨hversions, fun m hm => hfields m (hmem m hm), fun m hm hpass => ?_⟩
    have hmm := hmatch m hm hpass
    rw [if_neg (by simpa using List.ne_nil_of_mem hmm)] at h
    obtain ⟨available, havailable, _⟩ := returns_bind_iff.mp h
    refine (returns_getAvailableTargets_iff ?_).mp ⟨available, havailable⟩ m hmm
    exact fun x hx => (hfields x (mem_filterTargets hmatching hx).1).format
  · intro h
    obtain ⟨verified, hverified⟩ := returns_getTargets_iff.mpr h.versions
    obtain ⟨trusted, htrusted⟩ := returns_getTrustedTargets verified hbundle
    refine ⟨verified, hverified, returns_bind_iff.mpr ⟨trusted, htrusted, ?_⟩⟩
    split
    · exact ⟨_, rfl⟩
    have hfields : ∀ m ∈ trusted, FieldsRead d m := fun m hm =>
      h.fields m ⟨verified, trusted, hverified, htrusted, hm⟩
    obtain ⟨matching, hmatching⟩ := returns_filterTargets_iff.mpr hfields
    refine returns_bind_iff.mpr ⟨matching, hmatching, ?_⟩
    split
    · exact ⟨_, rfl⟩
    obtain ⟨kept, hkept, hsort⟩ := bind_eq_ok.mp hmatching
    cases hsort
    have hcontent : ∀ m ∈ sortTargets kept, ContentReads d content m := by
      intro m hm
      obtain ⟨hmt, hpass⟩ := (mem_filterWhere_iff hkept).mp ((List.mem_insertionSort _).mp hm)
      exact h.content m ⟨verified, trusted, hverified, htrusted, hmt⟩ hpass
    have hin : ∀ m ∈ sortTargets kept, m ∈ trusted := fun m hm => (mem_filterTargets hmatching hm).1
    have havail : Returns (getAvailableTargets d.tk.toStyledString d.cfg source content
        ((sortTargets kept).map fromTufTarget)) :=
      (returns_getAvailableTargets_iff fun m hm => (hfields m (hin m hm)).format).mpr hcontent
    obtain ⟨available, havailable⟩ := havail
    refine returns_bind_iff.mpr ⟨available, havailable, ?_⟩
    split
    · exact ⟨_, rfl⟩
    obtain ⟨targets, htargets⟩ := returns_toTufTargets hverified
      (fun m hm => mem_getTrustedTargets_verified htrusted (hin m hm)) havailable
    exact returns_bind_iff.mpr ⟨targets, htargets, _, rfl⟩

/-- An accepted bundle has a list of targets, or there is no bundle. -/
theorem getBundleMeta_targets {latestRoot : String} {dir : Bundle.Dir} {bundle : Json}
    (h : Bundle.getBundleMeta d.tk d.rootRepo latestRoot dir d.type d.tags = .ok bundle) :
    bundle.isEmpty = true ∨ Returns (bundleTargets bundle) := by
  unfold Bundle.getBundleMeta at h
  split at h
  · cases h
    exact .inl rfl
  · obtain ⟨bundle', _, h⟩ := bind_eq_ok.mp h
    obtain ⟨u, hprint, h⟩ := bind_eq_ok.mp h
    obtain ⟨_, _, h⟩ := bind_eq_ok.mp h
    obtain ⟨_, _, h⟩ := bind_eq_ok.mp h
    cases h
    obtain ⟨offline, _, _, targets, hoffline, _, _, htargets⟩ :=
      Bundle.printBundleMeta_reads ⟨u, Bundle.thrown_eq_ok.mp hprint⟩
    exact .inr ⟨targets, bind_eq_ok.mpr ⟨offline, hoffline, htargets⟩⟩

theorem handled_iff_bundle_reads {latestRoot : String} {dir : Bundle.Dir} :
    Bundle.Handled (Bundle.getBundleMeta d.tk d.rootRepo latestRoot dir d.type d.tags) ↔
      ∀ text, dir.bundleTargets = some text →
        Bundle.BundleReads d.tk d.rootRepo latestRoot dir text := by
  cases htext : dir.bundleTargets with
  | none =>
    refine iff_of_true ?_ fun _ h => by cases h
    unfold Bundle.getBundleMeta
    rw [htext]
    exact Bundle.handled_ok _
  | some text =>
    rw [Bundle.handled_getBundleMeta htext]
    refine ⟨fun h text' ht => ?_, fun h => h text rfl⟩
    cases ht
    exact h

theorem returns_checkInLocal_iff (d : Device Key Stamp R T) (source : LocalUpdateSource)
    (content : Content) (t : T) :
    Returns (checkInLocal d source content t).1 ↔ LocalReads d source content t := by
  unfold checkInLocal
  cases hmeta : Bundle.getBundleMeta d.tk d.rootRepo (d.repo.getRoot t) content.tuf d.type
      d.tags with
  | error e =>
    cases e with
    | other what =>
      refine iff_of_false (not_returns_error what) fun h => ?_
      exact handled_iff_bundle_reads.mpr h.bundle what hmeta
    | bundleMeta type what =>
      refine iff_of_true ⟨_, rfl⟩ ⟨handled_iff_bundle_reads.mp ?_, fun _ _ _ _ h => ?_⟩
      · rw [hmeta]
        exact Bundle.handled_bundleMeta _ _
      · cases hmeta.symm.trans h
  | ok bundle =>
    have hhandled := handled_iff_bundle_reads.mp (hmeta ▸ Bundle.handled_ok bundle)
    have htargets := getBundleMeta_targets hmeta
    rcases hupdate : updateMeta d.repo (.local source.tufRepo) t with ⟨⟨status, err⟩, t'⟩
    dsimp only
    split
    · next hgood =>
      refine (returns_localTargets_iff htargets).trans ⟨fun h => ⟨hhandled, ?_⟩, fun h => ?_⟩
      · intro bundle' status' err' t'' hmeta' hupdate' _
        cases hmeta.symm.trans hmeta'
        cases hupdate.symm.trans hupdate'
        exact h
      · exact h.targets bundle status err t' hmeta hupdate hgood
    · next hbad =>
      refine iff_of_true ⟨_, rfl⟩ ⟨hhandled, fun bundle' status' err' t'' _ hupdate' hgood => ?_⟩
      cases hupdate.symm.trans hupdate'
      exact absurd hgood hbad

theorem returns_remoteSource_iff {current : Target} :
    Returns (remoteSource d current) ↔ Returns (targetApps d.tk.toStyledString current.custom) := by
  unfold remoteSource appsStr
  rw [returns_bind_iff]
  constructor
  · rintro ⟨text, htext, _⟩
    obtain ⟨apps, happs, _⟩ := bind_eq_ok.mp htext
    exact ⟨apps, happs⟩
  · rintro ⟨apps, happs⟩
    exact ⟨_, bind_eq_ok.mpr ⟨apps, happs, rfl⟩, _, rfl⟩

theorem returns_remoteTargets_iff {t : T} :
    Returns (remoteTargets d t) ↔ RemoteTargetsRead d t := by
  unfold remoteTargets
  rw [returns_bind_iff]
  constructor
  · rintro ⟨verified, hverified, h⟩
    obtain ⟨matching, hmatching, _⟩ := returns_bind_iff.mp h
    refine ⟨returns_getTargets_iff.mp ⟨verified, hverified⟩, fun verified' hverified' => ?_⟩
    cases hverified.symm.trans hverified'
    exact returns_filterTargets_iff.mp ⟨matching, hmatching⟩
  · intro h
    obtain ⟨verified, hverified⟩ := returns_getTargets_iff.mpr h.versions
    obtain ⟨matching, hmatching⟩ := returns_filterTargets_iff.mpr (h.fields verified hverified)
    refine ⟨verified, hverified, returns_bind_iff.mpr ⟨matching, hmatching, ?_⟩⟩
    split
    · exact ⟨_, rfl⟩
    · exact ⟨_, rfl⟩

theorem returns_checkIn_iff (d : Device Key Stamp R T) (current : Target) (t : T) :
    Returns (checkIn d current t).1 ↔ RemoteReads d current t := by
  unfold checkIn
  cases hsource : remoteSource d current with
  | error what =>
    refine iff_of_false (not_returns_error what) fun h => ?_
    obtain ⟨src, hsrc⟩ := returns_remoteSource_iff.mpr h.apps
    cases hsource.symm.trans hsrc
  | ok src =>
    have happs := returns_remoteSource_iff.mp ⟨src, hsource⟩
    rcases hupdate : updateMeta d.repo src t with ⟨⟨status, err⟩, t'⟩
    simp only [hupdate]
    split
    · next hgood =>
      refine returns_remoteTargets_iff.trans ⟨fun h => ⟨happs, ?_⟩, fun h => ?_⟩
      · intro src' status' err' t'' hsource' hupdate' _
        cases hsource.symm.trans hsource'
        cases hupdate.symm.trans hupdate'
        exact h
      · exact h.targets src status err t' hsource hupdate hgood
    · next hbad =>
      refine iff_of_true ⟨_, rfl⟩ ⟨happs, fun src' status' err' t'' hsource' hupdate' hgood => ?_⟩
      cases hsource.symm.trans hsource'
      cases hupdate.symm.trans hupdate'
      exact absurd hgood hbad

/-- The check-ins return a result exactly if what they read can be read. -/
theorem check_in_returns_iff (d : Device Key Stamp R T) (source : LocalUpdateSource)
    (content : Content) (current : Target) (t u : T) :
    (∃ out t', checkInLocal d source content t = (.ok out, t')) ∧
        (∃ out u', checkIn d current u = (.ok out, u')) ↔
      LocalReads d source content t ∧ RemoteReads d current u := by
  have hpair {α : Type} (p : Except String CheckedIn × α) :
      (∃ out a, p = (.ok out, a)) ↔ Returns p.1 := by
    obtain ⟨x, a⟩ := p
    exact ⟨fun ⟨out, _, h⟩ => ⟨out, congrArg Prod.fst h⟩,
      fun ⟨out, h⟩ => ⟨out, a, congrArg (·, a) h⟩⟩
  rw [hpair, hpair, returns_checkInLocal_iff, returns_checkIn_iff]

/-! ## Two exceptions that escape -/

/-- The production device, with a library that verifies no new root. -/
def wary : Device String Unit Int Unit :=
  { prodDevice (boardBundle [("type", .str "prod")]) with
    rootRepo := { Bundle.sampleRootRepo with
      verifyRoot := fun _ _ => .error "Signature threshold error" } }

/-- A bundle that brings a root the device cannot verify. -/
def forgedContent : Content :=
  { boardContent with tuf := { Bundle.sampleDir with fetchRoot := fun _ => .found "root" } }

/-- The metadata have a target with a version that is too long a number. -/
def overflowing : Device String Unit Int Unit :=
  { wary with
    repo := oneTargetRepo
      { boardTarget with
        custom := .obj [("hardwareIds", .arr [.str "board"]), ("targetFormat", .str "OSTREE"),
          ("version", .str "20240101120000")] } }

/-- A forged root leaves `CheckInLocal` as an exception, and a long version number leaves
`CheckIn`. -/
theorem forged_root_and_long_version_escape :
    (∃ what, (checkInLocal wary boardSource forgedContent ()).1 = .error what) ∧
      ∃ what, (checkIn overflowing boardTarget ()).1 = .error what :=
  ⟨⟨_, rfl⟩, _, rfl⟩

end Client
end AkLite
