/-
The latest target of a check-in.

A check-in filters the TUF targets, sorts them by version and, with a bundle, turns them
into another type, keeps those whose content is there and turns them back.  The latest
target for a hardware ID is then the last one in the list.  `check_in_latest` says that no
stage loses a target or the order, so that the latest target is one of the highest version
among those that are offered.

What is offered with a bundle are the targets that the bundle's metadata list and that the
bundle has the content of.  A target whose content came along unlisted is not
(`unlisted_content_ignored`).
-/
import AkLite.Client.Escaping

namespace AkLite
namespace Client

open Lib

variable {Key Stamp R T : Type}

/-! ## What is to be shown -/

/-- An OSTREE target with one of the device's tags, if it has any, and with a hardware ID. -/
structure Matching (d : Device Key Stamp R T) (hwid : String) (m : TufTarget) : Prop where
  format : m.custom.index "targetFormat" = .ok (.str "OSTREE")
  tag : d.tags ≠ [] → ∃ tag ∈ d.tags, HasTag m.custom tag
  hardware : m.hardwareId = .ok hwid

/-- The target of a list for a hardware ID, with the highest version that is offered. -/
structure IsLatest (d : Device Key Stamp R T) (offered : TufTarget → Prop) (hwid : String)
    (targets : List TufTarget) (t : TufTarget) : Prop where
  listed : t ∈ targets
  hardware : t.hardwareId = .ok hwid
  is_offered : ∃ m, offered m ∧ Matching d hwid m ∧ m.name = t.name ∧
    m.sha256Hash = t.sha256Hash ∧ m.version = t.version
  highest : ∀ m, offered m → Matching d hwid m → m.version ≤ t.version

/-- The list is sorted, and the latest target for each hardware ID of the device is found in it,
if there is one. -/
structure HasLatest (d : Device Key Stamp R T) (offered : TufTarget → Prop) (ci : CheckInResult) :
    Prop where
  sorted : ci.targets.Pairwise fun a b => a.version ≤ b.version
  latest : ∀ hwid, (hwidOf ci hwid = d.hwId ∨ hwidOf ci hwid ∈ d.secondaryHwids) →
    ∃ t, selectTargetFor ci (-1) "" hwid = .ok t ∧
      (t = .unknown ↔ ∀ m, offered m → ¬Matching d (hwidOf ci hwid) m) ∧
      (t ≠ .unknown → IsLatest d offered (hwidOf ci hwid) ci.targets t)

/-- The bundle's metadata, if it has any, list the target. -/
def ListedBy (d : Device Key Stamp R T) (dir : Bundle.Dir) (m : TufTarget) : Prop :=
  ∀ text, dir.bundleTargets = some text →
    ∃ listed, bundleTargets (d.tk.parseJSON text) = .ok listed ∧ .str m.name ∈ listed.values

/-- The bundle has the commit of the target and the apps that the update needs. -/
def InBundle (d : Device Key Stamp R T) (content : Content) (m : TufTarget) : Prop :=
  ∃ foundApps hasCommit, parseUpdateContent content.apps = .ok foundApps ∧
    content.ostree = .ok hasCommit ∧ hasCommit m.sha256Hash = .ok true ∧
    ¬LacksApps d.tk.toStyledString d.cfg foundApps m.custom

/-! ## The last one in a sorted list -/

/-- The last match of a sorted list is the greatest. -/
theorem rel_of_find_reverse {α : Type} {r : α → α → Prop} (hrefl : ∀ a, r a a) {xs : List α}
    (hsorted : xs.Pairwise r) {test : α → Bool} {a : α} (h : xs.reverse.find? test = some a)
    {b : α} (hb : b ∈ xs) (htest : test b = true) : r b a := by
  obtain ⟨_, behind, before, hsplit, hbehind⟩ := List.find?_eq_some_iff_append.mp h
  have hxs : xs = before.reverse ++ a :: behind.reverse := by
    rw [← List.reverse_reverse xs, hsplit]
    simp
  rw [hxs, List.pairwise_append] at hsorted
  rw [hxs, List.mem_append, List.mem_cons] at hb
  rcases hb with hb | rfl | hb
  · exact hsorted.2.2 b hb a List.mem_cons_self
  · exact hrefl b
  · have hnot := hbehind b (List.mem_reverse.mp hb)
    rw [htest] at hnot
    cases hnot

def hasHwid (hwid : String) (t : TufTarget) : Bool := t.hardwareId.toOption == some hwid

theorem hasHwid_iff {hwid : String} {t : TufTarget} :
    hasHwid hwid t = true ↔ t.hardwareId = .ok hwid := by
  unfold hasHwid
  cases t.hardwareId with
  | error e => simp [Except.toOption]
  | ok id => simp [Except.toOption]

theorem bind_hardwareId {hwid : String} {t : TufTarget} (h : Returns t.hardwareId) :
    (do return (← t.hardwareId) == hwid) = .ok (hasHwid hwid t) := by
  obtain ⟨id, hid⟩ := h
  rw [hasHwid, hid]
  rfl

theorem selectTargetFor_latest {ci : CheckInResult}
    (hread : ∀ t ∈ ci.targets, Returns t.hardwareId) (hwid : String) :
    selectTargetFor ci (-1) "" hwid =
      .ok ((ci.targets.reverse.find? (hasHwid (hwidOf ci hwid))).getD .unknown) := by
  unfold selectTargetFor
  rw [if_pos ⟨rfl, rfl⟩,
    firstWhere_eq_find fun t ht => bind_hardwareId (hread t (List.mem_reverse.mp ht))]
  rfl

/-! ## Listings -/

/-- A target that differs from another in where its content is, and in its apps. -/
def Rebuilt (m u : TufTarget) : Prop :=
  ∃ custom, u = { m with custom := custom } ∧
    ∀ other, other ≠ localSrcDirKey → other ≠ "docker_compose_apps" →
      custom.index other = m.custom.index other

theorem Rebuilt.refl (m : TufTarget) : Rebuilt m m := ⟨m.custom, rfl, fun _ _ _ => rfl⟩

theorem Rebuilt.version {m u : TufTarget} (h : Rebuilt m u) : u.version = m.version := by
  obtain ⟨custom, rfl, _⟩ := h
  rfl

theorem Rebuilt.hardwareId {m u : TufTarget} (h : Rebuilt m u) :
    u.hardwareId = m.hardwareId := by
  obtain ⟨custom, rfl, hcustom⟩ := h
  rw [TufTarget.hardwareId, TufTarget.hardwareId, hcustom "hardwareIds" (by decide) (by decide)]

/-- The targets of the list are the ones offered for the device, in the order of their
versions. -/
structure Listing (d : Device Key Stamp R T) (offered : TufTarget → Prop)
    (targets : List TufTarget) : Prop where
  sorted : targets.Pairwise fun a b => a.version ≤ b.version
  sound : ∀ u ∈ targets, ∃ m, offered m ∧ ForDevice d m ∧ Rebuilt m u
  complete : ∀ m, offered m → ForDevice d m → ∃ u ∈ targets, Rebuilt m u

section Proofs

variable {d : Device Key Stamp R T} {offered : TufTarget → Prop} {targets : List TufTarget}

theorem ForDevice.matching {m : TufTarget} (h : ForDevice d m) {hwid : String}
    (hid : m.hardwareId = .ok hwid) : Matching d hwid m :=
  ⟨h.format, h.tag, hid⟩

theorem Matching.forDevice {hwid : String} {m : TufTarget} (h : Matching d hwid m)
    (hhwid : hwid = d.hwId ∨ hwid ∈ d.secondaryHwids) : ForDevice d m :=
  ⟨h.tag, h.format, hwid, h.hardware, hhwid⟩

/-- A hardware ID of a listed target can be read. -/
theorem Listing.reads (h : Listing d offered targets) :
    ∀ t ∈ targets, Returns t.hardwareId := by
  intro t ht
  obtain ⟨m, _, hdevice, hrebuilt⟩ := h.sound t ht
  obtain ⟨id, hid, _⟩ := hdevice.hardware
  exact ⟨id, hrebuilt.hardwareId.trans hid⟩

theorem ne_unknown_of_rebuilt {m u : TufTarget} (hdevice : ForDevice d m) (h : Rebuilt m u) :
    u ≠ .unknown := by
  obtain ⟨custom, rfl, hcustom⟩ := h
  intro hunknown
  have hformat := (hcustom "targetFormat" (by decide) (by decide)).trans hdevice.format
  rw [show custom = .null from congrArg TufTarget.custom hunknown] at hformat
  cases hformat

theorem Listing.hasLatest {ci : CheckInResult} (h : Listing d offered ci.targets) :
    HasLatest d offered ci := by
  refine ⟨h.sorted, fun hwid hhwid => ⟨_, selectTargetFor_latest h.reads hwid, ?_⟩⟩
  generalize hwidOf ci hwid = id at hhwid ⊢
  -- a target that is offered has its version in the list
  have hoffered : ∀ m, offered m → Matching d id m →
      ∃ u ∈ ci.targets.reverse, hasHwid id u = true ∧ u.version = m.version := by
    intro m hm hmatching
    obtain ⟨u, hu, hrebuilt⟩ := h.complete m hm (hmatching.forDevice hhwid)
    exact ⟨u, List.mem_reverse.mpr hu,
      hasHwid_iff.mpr (hrebuilt.hardwareId.trans hmatching.hardware),
      hrebuilt.version⟩
  cases hfind : ci.targets.reverse.find? (hasHwid id) with
  | none =>
    refine ⟨iff_of_true rfl fun m hm hmatching => ?_, fun hne => absurd rfl hne⟩
    obtain ⟨u, hu, htest, _⟩ := hoffered m hm hmatching
    exact List.find?_eq_none.mp hfind u hu htest
  | some t =>
    have ht : t ∈ ci.targets := List.mem_reverse.mp (List.mem_of_find?_eq_some hfind)
    have hid : t.hardwareId = .ok id := hasHwid_iff.mp (List.find?_some hfind)
    obtain ⟨m, hm, hdevice, hrebuilt⟩ := h.sound t ht
    have hmatching : Matching d id m := hdevice.matching (hrebuilt.hardwareId.symm.trans hid)
    refine ⟨iff_of_false (ne_unknown_of_rebuilt hdevice hrebuilt) fun hnone =>
      hnone m hm hmatching, fun _ => ⟨ht, hid, ⟨m, hm, hmatching, ?_⟩, fun m' hm' hmatching' => ?_⟩⟩
    · obtain ⟨custom, rfl, _⟩ := hrebuilt
      exact ⟨rfl, rfl, rfl⟩
    · obtain ⟨u, hu, htest, hversion⟩ := hoffered m' hm' hmatching'
      rw [← hversion]
      exact rel_of_find_reverse (fun a => Int.le_refl a.version) h.sorted hfind
        (List.mem_reverse.mp hu) htest

/-! ## The filter -/

/-- A target for the device passes, if the filter can read it. -/
theorem isForDevice_of_forDevice {m : TufTarget} (h : ForDevice d m)
    (hreturns : Returns (isForDevice d.hwId d.tags d.secondaryHwids m)) :
    isForDevice d.hwId d.tags d.secondaryHwids m = .ok true := by
  obtain ⟨id, hid, hdevice⟩ := h.hardware
  have hlast : (do
      let id ← m.hardwareId
      return id == d.hwId || d.secondaryHwids.contains id : Except String Bool) = .ok true := by
    rw [hid, ok_bind]
    show Except.ok (id == d.hwId || d.secondaryHwids.contains id) = .ok true
    simpa using hdevice
  have hread := returns_isForDevice_iff.mp hreturns
  rw [isForDevice, h.format, ok_bind, if_neg (fun hne => hne rfl)]
  by_cases htags : d.tags = []
  · rw [if_neg (by simp [htags])]
    exact hlast
  · rw [if_pos (by simpa using htags)]
    obtain ⟨found, hfound⟩ := hread.tags h.format htags
    rw [hfound, ok_bind]
    cases found with
    | true => exact hlast
    | false =>
      obtain ⟨tag, htag, entries, hentries, entry, hentry, htext⟩ := h.tag htags
      rw [hasOneOfTags, hentries, ok_bind] at hfound
      exact absurd ((findOneOfTags_iff hfound).mpr ⟨tag, htag, entry, hentry, htext⟩) (by decide)

variable {all matching : List TufTarget} {m u : TufTarget}

theorem mem_filterTargets_iff
    (h : filterTargets all d.hwId d.tags d.secondaryHwids = .ok matching) :
    m ∈ matching ↔ m ∈ all ∧ ForDevice d m := by
  refine ⟨mem_filterTargets h, fun ⟨hall, hdevice⟩ => ?_⟩
  have hread := returns_filterTargets_iff.mp ⟨_, h⟩ m hall
  obtain ⟨kept, hkept, h⟩ := bind_eq_ok.mp h
  cases h
  exact (List.mem_insertionSort _).mpr ((mem_filterWhere_iff hkept).mpr
    ⟨hall, isForDevice_of_forDevice hdevice (returns_isForDevice_iff.mpr hread)⟩)

theorem sorted_filterTargets (h : filterTargets all d.hwId d.tags d.secondaryHwids = .ok matching) :
    matching.Pairwise fun a b => a.version ≤ b.version := by
  obtain ⟨kept, _, h⟩ := bind_eq_ok.mp h
  cases h
  have htotal : Std.Total fun a b : TufTarget => a.version ≤ b.version :=
    ⟨fun a b => Int.le_total a.version b.version⟩
  have htrans : IsTrans TufTarget fun a b => a.version ≤ b.version :=
    ⟨fun _ _ _ hab hbc => Int.le_trans hab hbc⟩
  exact List.pairwise_insertionSort _ kept

/-- A target for the device is kept as often as it is there. -/
theorem count_filterTargets (h : filterTargets all d.hwId d.tags d.secondaryHwids = .ok matching)
    (hdevice : ForDevice d m) :
    matching.countP (fun t => decide (t = m)) = all.countP fun t => decide (t = m) := by
  have hread := returns_filterTargets_iff.mp ⟨_, h⟩
  obtain ⟨kept, hkept, h⟩ := bind_eq_ok.mp h
  cases h
  rw [sortTargets, (List.perm_insertionSort _ kept).countP_eq, eq_filter_of_filterWhere hkept,
    List.countP_filter]
  apply List.countP_congr
  intro t ht
  by_cases hsame : t = m
  · have hpass := isForDevice_of_forDevice hdevice
      (returns_isForDevice_iff.mpr (hread m (hsame ▸ ht)))
    rw [hsame, hpass]
    simp [Except.toOption]
  · simp [hsame]

theorem listing_filterTargets
    (h : filterTargets all d.hwId d.tags d.secondaryHwids = .ok matching) :
    Listing d (· ∈ all) matching := by
  refine ⟨sorted_filterTargets h, fun u hu => ?_, fun m hm hdevice => ?_⟩
  · obtain ⟨hall, hdevice⟩ := mem_filterTargets h hu
    exact ⟨u, hall, hdevice, .refl u⟩
  · exact ⟨m, (mem_filterTargets_iff h).mpr ⟨hm, hdevice⟩, .refl m⟩

/-! ## The content of a bundle -/

section Content

variable {styled : Json → String} {cfg : Config} {source : LocalUpdateSource}
  {foundApps : List String} {hasCommit : String → Except String Bool}

theorem isSome_availableCustom {custom : Json} {result : Option Json}
    (h : availableCustom styled cfg source foundApps custom = .ok result) :
    result.isSome = true ↔ ¬LacksApps styled cfg foundApps custom := by
  unfold availableCustom at h
  split at h
  · next hother =>
    obtain ⟨c, _, h⟩ := bind_eq_ok.mp h
    cases h
    exact iff_of_true rfl fun hlacks => hother hlacks.1
  next hcompose =>
  obtain ⟨offline, hoffline, h⟩ := bind_eq_ok.mp h
  split at h
  · next hnone =>
    obtain ⟨c, _, h⟩ := bind_eq_ok.mp h
    obtain ⟨c', _, h⟩ := bind_eq_ok.mp h
    cases h
    refine iff_of_true rfl ?_
    rintro ⟨_, offline', _, hoffline', hne, _⟩
    cases hoffline.symm.trans hoffline'
    exact hne hnone
  next hsome =>
  obtain ⟨required, hrequired, h⟩ := bind_eq_ok.mp h
  split at h
  · next hmissing =>
    cases h
    exact iff_of_false (by decide) fun hlacks => hlacks
      ⟨not_not.mp hcompose, offline, required, hoffline, hsome, hrequired, hmissing⟩
  next hthere =>
  have hnot : ¬LacksApps styled cfg foundApps custom := by
    rintro ⟨_, offline', required', hoffline', _, hrequired', hmissing⟩
    cases hoffline.symm.trans hoffline'
    cases hrequired.symm.trans hrequired'
    exact hthere hmissing
  refine iff_of_true ?_ hnot
  have hrest : ∀ c : Json,
      (do
        let c ← putLocalSrc c "ostree" source.ostreeRepo
        return some (← putLocalSrc c "apps" source.appStore) : Except String (Option Json)) =
          .ok result → result.isSome = true := by
    intro c h
    obtain ⟨c₁, _, h⟩ := bind_eq_ok.mp h
    obtain ⟨c₂, _, h⟩ := bind_eq_ok.mp h
    cases h
    rfl
  cases offline with
  | onlyShortlistedApps apps =>
    obtain ⟨c, _, h⟩ := bind_eq_ok.mp h
    exact hrest c h
  | allTargetApps => exact hrest custom h
  | noneOfTargetApps => exact hrest custom h

theorem eq_filterMap_of_availableTargets {allowed available : List Target}
    (h : availableTargets styled cfg source foundApps hasCommit allowed = .ok available) :
    (∀ t ∈ allowed, Returns (availableTarget styled cfg source foundApps hasCommit t)) ∧
      available = allowed.filterMap fun t =>
        (availableTarget styled cfg source foundApps hasCommit t).toOption.join := by
  induction allowed generalizing available with
  | nil =>
    cases h
    exact ⟨List.forall_mem_nil _, rfl⟩
  | cons t rest ih =>
    obtain ⟨found, hfound, h⟩ := bind_eq_ok.mp h
    obtain ⟨others, hothers, h⟩ := bind_eq_ok.mp h
    cases h
    obtain ⟨hreturns, hrest⟩ := ih hothers
    refine ⟨List.forall_mem_cons.mpr ⟨⟨found, hfound⟩, hreturns⟩, ?_⟩
    rw [List.filterMap_cons, hfound, hrest]
    cases found with
    | none => rfl
    | some r => rfl

/-- A target whose content is there, and the one that is handed out for it. -/
def HandedOut (styled : Json → String) (cfg : Config) (source : LocalUpdateSource)
    (foundApps : List String) (hasCommit : String → Except String Bool) (m u : TufTarget) : Prop :=
  ∃ r, availableTarget styled cfg source foundApps hasCommit (fromTufTarget m) = .ok (some r) ∧
    toTufTarget r = .ok u

theorem eq_some_iff_handedOut :
    (((availableTarget styled cfg source foundApps hasCommit
      (fromTufTarget m)).toOption.join).bind fun r => (toTufTarget r).toOption) = some u ↔
        HandedOut styled cfg source foundApps hasCommit m u := by
  unfold HandedOut
  cases availableTarget styled cfg source foundApps hasCommit (fromTufTarget m) with
  | error e => simp [Except.toOption]
  | ok result =>
    cases result with
    | none => simp [Except.toOption]
    | some r => cases hr : toTufTarget r <;> simp [Except.toOption, hr]

/-- A target that was read from TUF metadata is handed out with its version. -/
theorem HandedOut.rebuilt {x : Target} (hx : toTufTarget x = .ok m)
    (h : HandedOut styled cfg source foundApps hasCommit m u) : Rebuilt m u := by
  obtain ⟨r, havailable, hu⟩ := h
  obtain ⟨present, _, havailable⟩ := bind_eq_ok.mp havailable
  split at havailable
  · cases havailable
  · obtain ⟨custom?, hcustom, havailable⟩ := bind_eq_ok.mp havailable
    obtain ⟨custom, rfl, rfl⟩ := Option.map_eq_some_iff.mp (Except.ok.inj havailable)
    have hsame : ∀ other, other ≠ localSrcDirKey → other ≠ "docker_compose_apps" →
        custom.index other = m.custom.index other :=
      fun other hsrc happs => availableCustom_index hcustom hsrc happs
    exact ⟨custom, Client.rebuilt hx hsame hu, hsame⟩

theorem handedOut_iff
    (hreturns : Returns (availableTarget styled cfg source foundApps hasCommit (fromTufTarget m)))
    (hread : ∀ r, availableTarget styled cfg source foundApps hasCommit (fromTufTarget m) =
      .ok (some r) → Returns (toTufTarget r)) :
    (∃ u, HandedOut styled cfg source foundApps hasCommit m u) ↔
      hasCommit m.sha256Hash = .ok true ∧ ¬LacksApps styled cfg foundApps m.custom := by
  obtain ⟨result, hresult⟩ := hreturns
  have hout : (∃ u, HandedOut styled cfg source foundApps hasCommit m u) ↔
      result.isSome = true := by
    constructor
    · rintro ⟨u, r, havailable, _⟩
      cases hresult.symm.trans havailable
      rfl
    · intro hsome
      obtain ⟨r, rfl⟩ := Option.isSome_iff_exists.mp hsome
      obtain ⟨u, hu⟩ := hread r hresult
      exact ⟨u, r, hresult, hu⟩
  rw [hout]
  obtain ⟨present, hcommit, hresult⟩ := bind_eq_ok.mp hresult
  rw [show hasCommit m.sha256Hash = .ok present from hcommit]
  cases present with
  | false =>
    cases hresult
    simp
  | true =>
    obtain ⟨custom?, hcustom, hresult⟩ := bind_eq_ok.mp hresult
    cases hresult
    rw [Option.isSome_map, isSome_availableCustom hcustom]
    simp [fromTufTarget]

end Content

/-- The targets whose content is in the bundle, in the order of their versions. -/
theorem listing_getAvailableTargets {source : LocalUpdateSource} {content : Content}
    {matching : List TufTarget} {available : List Target}
    (hsorted : matching.Pairwise fun a b => a.version ≤ b.version)
    (hmatching : ∀ m, m ∈ matching ↔ offered m ∧ ForDevice d m)
    (hverified : ∀ m ∈ matching, ∃ x, toTufTarget x = .ok m) (hne : matching ≠ [])
    (h : getAvailableTargets d.tk.toStyledString d.cfg source content
      (matching.map fromTufTarget) = .ok available)
    (htargets : available.mapM toTufTarget = .ok targets) :
    Listing d (fun m => offered m ∧ InBundle d content m) targets := by
  unfold getAvailableTargets at h
  rw [if_neg (by simpa using hne)] at h
  obtain ⟨foundApps, happs, h⟩ := bind_eq_ok.mp h
  obtain ⟨hasCommit, hostree, h⟩ := bind_eq_ok.mp h
  obtain ⟨hreturns, havailable⟩ := eq_filterMap_of_availableTargets h
  have hlist : targets = matching.filterMap fun m =>
      ((availableTarget d.tk.toStyledString d.cfg source foundApps hasCommit
        (fromTufTarget m)).toOption.join).bind fun r => (toTufTarget r).toOption := by
    rw [eq_filterMap_of_mapM htargets, havailable, List.filterMap_filterMap, List.filterMap_map]
    rfl
  have hmem : ∀ u, u ∈ targets ↔ ∃ m ∈ matching,
      HandedOut d.tk.toStyledString d.cfg source foundApps hasCommit m u := by
    intro u
    rw [hlist, List.mem_filterMap]
    simp only [eq_some_iff_handedOut]
  have hiff : ∀ m ∈ matching,
      ((∃ u, HandedOut d.tk.toStyledString d.cfg source foundApps hasCommit m u) ↔
        hasCommit m.sha256Hash = .ok true ∧
          ¬LacksApps d.tk.toStyledString d.cfg foundApps m.custom) := by
    intro m hm
    refine handedOut_iff (hreturns _ (List.mem_map_of_mem hm)) fun r hr => ?_
    apply mapM_eq_ok htargets r
    rw [havailable, List.mem_filterMap]
    exact ⟨_, List.mem_map_of_mem hm, by rw [hr]; rfl⟩
  refine ⟨?_, fun u hu => ?_, fun m hm hdevice => ?_⟩
  · rw [hlist, List.pairwise_filterMap]
    refine hsorted.imp_of_mem fun {a b} ha hb hle u hu v hv => ?_
    obtain ⟨x, hx⟩ := hverified a ha
    obtain ⟨y, hy⟩ := hverified b hb
    rw [((eq_some_iff_handedOut.mp hu).rebuilt hx).version,
      ((eq_some_iff_handedOut.mp hv).rebuilt hy).version]
    exact hle
  · obtain ⟨m, hm, hout⟩ := (hmem u).mp hu
    obtain ⟨hoffered, hdevice⟩ := (hmatching m).mp hm
    obtain ⟨x, hx⟩ := hverified m hm
    obtain ⟨hcommit, hthere⟩ := (hiff m hm).mp ⟨u, hout⟩
    exact ⟨m, ⟨hoffered, foundApps, hasCommit, happs, hostree, hcommit, hthere⟩, hdevice,
      hout.rebuilt hx⟩
  · obtain ⟨hoffered, foundApps', hasCommit', happs', hostree', hthere⟩ := hm
    cases happs.symm.trans happs'
    cases hostree.symm.trans hostree'
    have hm : m ∈ matching := (hmatching m).mpr ⟨hoffered, hdevice⟩
    obtain ⟨u, hout⟩ := (hiff m hm).mpr hthere
    obtain ⟨x, hx⟩ := hverified m hm
    exact ⟨u, (hmem u).mpr ⟨m, hm, hout⟩, hout.rebuilt hx⟩

/-! ## The check-ins -/

theorem verified_of_mem {all : List TufTarget} {t : T} (h : d.repo.getTargets t = .ok all)
    (hm : m ∈ all) : ∃ x, toTufTarget x = .ok m := by
  obtain ⟨x, _, hx⟩ := exists_of_mem_mapM h hm
  exact ⟨x, hx⟩

theorem checkIn_listing {current : Target} {t t' : T} {out : CheckedIn}
    (h : checkIn d current t = (.ok out, t')) (hgood : out.result.good = true) :
    ∃ all, d.repo.getTargets t' = .ok all ∧ Listing d (· ∈ all) out.result.targets := by
  unfold checkIn at h
  split at h
  · cases h
  split at h
  split at h
  · injection h with hout ht
    subst ht
    obtain ⟨all, hall, hout⟩ := bind_eq_ok.mp hout
    obtain ⟨matching, hmatching, hout⟩ := bind_eq_ok.mp hout
    split at hout
    · cases hout
      cases hgood
    · cases hout
      exact ⟨all, hall, listing_filterTargets hmatching⟩
  · next hstatus =>
    cases h
    simp [CheckInResult.good, checkInFailure] at hgood
    exact absurd hgood hstatus

/-- The targets that a bundle restricts the device to are those that it lists. -/
theorem mem_getTrustedTargets_iff {latestRoot : String} {dir : Bundle.Dir} {bundle : Json}
    {all trusted : List TufTarget}
    (hbundle : Bundle.getBundleMeta d.tk d.rootRepo latestRoot dir d.type d.tags = .ok bundle)
    (h : getTrustedTargets all bundle = .ok trusted) :
    m ∈ trusted ↔ m ∈ all ∧ ListedBy d dir m := by
  cases htext : dir.bundleTargets with
  | none =>
    unfold Bundle.getBundleMeta at hbundle
    rw [htext] at hbundle
    cases hbundle
    cases h
    refine ⟨fun hm => ⟨hm, fun text hsome => ?_⟩, fun hm => hm.1⟩
    cases htext.symm.trans hsome
  | some text =>
    have hpassed := getBundleMeta_passed hbundle htext
    constructor
    · intro hm
      obtain ⟨hall, hlisted⟩ := mem_getTrustedTargets hpassed h hm
      refine ⟨hall, fun text' hsome => ?_⟩
      cases htext.symm.trans hsome
      exact hlisted
    · rintro ⟨hall, hlisted⟩
      obtain ⟨listed, hlisted, hname⟩ := hlisted text htext
      unfold getTrustedTargets at h
      rw [if_neg (by simp [hpassed.not_empty])] at h
      obtain ⟨offline, hoffline, h⟩ := bind_eq_ok.mp h
      obtain ⟨values, hvalues, h⟩ := bind_eq_ok.mp h
      cases h
      have hsame : bundleTargets (d.tk.parseJSON text) = .ok values := by
        rw [bundleTargets, ← hpassed.same, hoffline]
        exact hvalues
      cases hlisted.symm.trans hsame
      exact List.mem_flatMap.mpr ⟨_, hname, List.mem_filter.mpr ⟨hall, by simp⟩⟩

theorem checkInLocal_listing {source : LocalUpdateSource} {content : Content} {t t' : T}
    {out : CheckedIn} (h : checkInLocal d source content t = (.ok out, t'))
    (hgood : out.result.good = true) :
    ∃ all, d.repo.getTargets t' = .ok all ∧
      Listing d (fun m => (m ∈ all ∧ ListedBy d content.tuf m) ∧ InBundle d content m)
        out.result.targets := by
  unfold checkInLocal at h
  split at h
  · cases h
  · next type what _ =>
    cases h
    cases type <;> cases hgood
  next bundle hbundle =>
  split at h
  split at h
  · injection h with hout ht
    subst ht
    obtain ⟨all, hall, hout⟩ := bind_eq_ok.mp hout
    obtain ⟨trusted, htrusted, hout⟩ := bind_eq_ok.mp hout
    split at hout
    · cases hout
      cases hgood
    obtain ⟨matching, hmatching, hout⟩ := bind_eq_ok.mp hout
    split at hout
    · cases hout
      cases hgood
    next hne =>
    obtain ⟨available, havailable, hout⟩ := bind_eq_ok.mp hout
    split at hout
    · cases hout
      cases hgood
    obtain ⟨targets, htargets, hout⟩ := bind_eq_ok.mp hout
    cases hout
    refine ⟨all, hall, listing_getAvailableTargets (sorted_filterTargets hmatching)
      (fun m => ?_) (fun m hm => ?_) (by simpa using hne) havailable htargets⟩
    · rw [mem_filterTargets_iff hmatching, mem_getTrustedTargets_iff hbundle htrusted]
    · have hm := ((mem_filterTargets_iff hmatching).mp hm).1
      exact verified_of_mem hall ((mem_getTrustedTargets_iff hbundle htrusted).mp hm).1
  · next hstatus =>
    cases h
    simp [CheckInResult.good, checkInFailure] at hgood
    exact absurd hgood hstatus

/-- The stored targets, with or without a bundle. -/
theorem checkInCurrent_listing {bundle? : Option (LocalUpdateSource × Content)} {t t' : T}
    {ci : CheckInResult} (h : checkInCurrent d bundle? t = (.ok ci, t')) (hgood : ci.good = true) :
    ∃ all, d.repo.getTargets t' = .ok all ∧
      Listing d (fun m => m ∈ all ∧ ∀ bundle ∈ bundle?, InBundle d bundle.2 m) ci.targets := by
  unfold checkInCurrent at h
  split at h
  · cases h
    cases hgood
  injection h with hout ht
  subst ht
  obtain ⟨all, hall, hout⟩ := bind_eq_ok.mp hout
  obtain ⟨matching, hmatching, hout⟩ := bind_eq_ok.mp hout
  split at hout
  · cases hout
    cases hgood
  next hne =>
  refine ⟨all, hall, ?_⟩
  cases bundle? with
  | none =>
    cases hout
    simpa using listing_filterTargets hmatching
  | some bundle =>
    obtain ⟨source, content⟩ := bundle
    obtain ⟨available, havailable, hout⟩ := bind_eq_ok.mp hout
    split at hout
    · cases hout
      cases hgood
    obtain ⟨targets, htargets, hout⟩ := bind_eq_ok.mp hout
    cases hout
    have hlisting := listing_getAvailableTargets (sorted_filterTargets hmatching)
      (fun m => mem_filterTargets_iff hmatching)
      (fun m hm => verified_of_mem hall ((mem_filterTargets_iff hmatching).mp hm).1)
      (by simpa using hne) havailable htargets
    simpa using hlisting

end Proofs

/-- A check-in lists the targets for the device, each as often as it is offered and in the
order of the versions, so that the latest target is the one to take. -/
theorem check_in_latest (d : Device Key Stamp R T) :
    (∀ all matching, filterTargets all d.hwId d.tags d.secondaryHwids = .ok matching →
      ∀ m, (ForDevice d m →
          matching.countP (fun t => decide (t = m)) = all.countP fun t => decide (t = m)) ∧
        (¬ForDevice d m → m ∉ matching)) ∧
    (∀ current t t' out, checkIn d current t = (.ok out, t') → out.result.good = true →
      ∃ all, d.repo.getTargets t' = .ok all ∧ HasLatest d (· ∈ all) out.result) ∧
    (∀ source content t t' out, checkInLocal d source content t = (.ok out, t') →
      out.result.good = true →
      ∃ all, d.repo.getTargets t' = .ok all ∧
        HasLatest d (fun m => (m ∈ all ∧ ListedBy d content.tuf m) ∧ InBundle d content m)
          out.result) := by
  refine ⟨fun all matching h m => ?_, fun current t t' out h hgood => ?_,
    fun source content t t' out h hgood => ?_⟩
  · exact ⟨count_filterTargets h, fun hnot hm => hnot (mem_filterTargets h hm).2⟩
  · obtain ⟨all, hall, hlisting⟩ := checkIn_listing h hgood
    exact ⟨all, hall, hlisting.hasLatest⟩
  · obtain ⟨all, hall, hlisting⟩ := checkInLocal_listing h hgood
    exact ⟨all, hall, hlisting.hasLatest⟩

def newerBuild : Target :=
  { boardTarget with
    filename := "board-lmp-3", sha256Hash := "h3"
    custom := .obj [("hardwareIds", .arr [.str "board"]), ("tags", .arr [.str "main"]),
      ("targetFormat", .str "OSTREE"), ("version", .str "3")] }

/-- Two builds, of which a bundle that has both lists the older one. -/
def twoBuilds : Device String Unit Int Unit :=
  { prodDevice (boardBundle [("type", .str "prod")]) with
    repo := { oneTargetRepo boardTarget with targets := fun _ => some [newerBuild, boardTarget] } }

/-- The server's check-in gives the newer build and the bundle's the one that is listed. -/
theorem two_builds_latest :
    (∃ all out, checkIn twoBuilds boardTarget () = (.ok out, ()) ∧
      twoBuilds.repo.getTargets () = .ok all ∧ HasLatest twoBuilds (· ∈ all) out.result ∧
      ∃ t, selectTargetFor out.result (-1) "" "board" = .ok t ∧ t.name = "board-lmp-3") ∧
    (∃ all out, checkInLocal twoBuilds boardSource boardContent () = (.ok out, ()) ∧
      twoBuilds.repo.getTargets () = .ok all ∧
      HasLatest twoBuilds (fun m => (m ∈ all ∧ ListedBy twoBuilds boardContent.tuf m) ∧
        InBundle twoBuilds boardContent m) out.result ∧
      ∃ t, selectTargetFor out.result (-1) "" "board" = .ok t ∧ t.name = "board-lmp-2") := by
  obtain ⟨_, hremote, hlocal⟩ := check_in_latest twoBuilds
  constructor
  · obtain ⟨all, hall, hlatest⟩ := hremote boardTarget () () _ rfl rfl
    exact ⟨all, _, rfl, hall, hlatest, _, rfl, rfl⟩
  · obtain ⟨all, hall, hlatest⟩ := hlocal boardSource boardContent () () _ rfl rfl
    exact ⟨all, _, rfl, hall, hlatest, _, rfl, rfl⟩

/-- The content of the newer build is in the bundle, too. -/
theorem unlisted_content_ignored :
    ∃ all out m t, twoBuilds.repo.getTargets () = .ok all ∧
      checkInLocal twoBuilds boardSource boardContent () = (.ok out, ()) ∧
      out.result.good = true ∧
      m ∈ all ∧ Matching twoBuilds "board" m ∧ InBundle twoBuilds boardContent m ∧
      selectTargetFor out.result (-1) "" "board" = .ok t ∧ t.version < m.version := by
  refine ⟨_, _, _, _, rfl, rfl, rfl, List.mem_cons_self, ⟨rfl, fun _ => ?_, rfl⟩,
    ⟨[], fun _ => .ok true, rfl, rfl, rfl, ?_⟩, rfl, by decide⟩
  · exact ⟨"main", List.mem_cons_self, _, rfl, _, List.mem_cons_self, rfl⟩
  · rintro ⟨_, offline, required, hoffline, _, hrequired, hmissing⟩
    cases hrequired
    cases hmissing

end Client
end AkLite
