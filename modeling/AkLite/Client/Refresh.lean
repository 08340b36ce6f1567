/-
Which metadata a check-in goes on with.

The metadata are those that the update brings or, if it fails, the stored ones after a
check.  For a bundle the stored ones are taken only if they are newer than the bundle's,
which the library reports as a rollback attempt.  `Refreshed` says this of the library's
answers, and `refreshed_iff` that it is what `updateMeta` does.

The status tells the caller which of the two it was.  `CheckInLocal` hands on the status of
the update.  `CheckIn` reports a success of its own, so the stored metadata pass for new
ones if they have a target for the device (`check_in_status_iff`).
-/
import AkLite.Client.Escaping

namespace AkLite
namespace Client

open Lib

variable {Key Stamp R T : Type} {d : Device Key Stamp R T}

/-! ## The metadata update -/

theorem hasInfix_iff {part text : String} :
    hasInfix part text = true ↔ part.toList <:+: text.toList := by
  unfold hasInfix
  rw [List.any_eq_true, List.infix_iff_prefix_suffix]
  constructor
  · rintro ⟨i, _, hi⟩
    exact ⟨text.toList.drop i, List.isPrefixOf_iff_prefix.mp hi, List.drop_suffix i _⟩
  · rintro ⟨rest, hprefix, hsuffix⟩
    have hlength := hsuffix.length_le
    refine ⟨text.toList.length - rest.length, List.mem_range.mpr (by omega), ?_⟩
    rw [← List.suffix_iff_eq_drop.mp hsuffix]
    exact List.isPrefixOf_iff_prefix.mpr hprefix

/-- The exception for metadata that are older than the stored ones. -/
def MetaError.RollbackAttempt (e : MetaError) : Prop :=
  ∃ what, e = .security what ∧ "Rollback attempt".toList <:+: what.toList

theorem isRollbackAttempt_iff {e : MetaError} :
    e.isRollbackAttempt = true ↔ e.RollbackAttempt := by
  cases e with
  | security what =>
    refine hasInfix_iff.trans ⟨fun h => ⟨what, rfl, h⟩, fun h => ?_⟩
    obtain ⟨_, heq, h⟩ := h
    cases heq
    exact h
  | _ =>
    refine iff_of_false (fun h => by cases h) fun h => ?_
    obtain ⟨_, heq, _⟩ := h
    cases heq

/-- The update succeeds. -/
def Updates (repo : TufRepo T) (source : RepoSource) (t : T) : Prop :=
  (repo.updateMeta source t).1 = .ok ()

/-- The update fails and the stored metadata stand in. -/
def FallsBack (repo : TufRepo T) (source : RepoSource) (t t' : T) : Prop :=
  ∃ e t₁, repo.updateMeta source t = (.error e, t₁) ∧
    (source.isOffline = true → e.RollbackAttempt) ∧ repo.checkMeta t₁ = (.ok (), t')

variable {repo : TufRepo T} {source : RepoSource} {t t' : T}

theorem FallsBack.not_updates (h : FallsBack repo source t t') : ¬ Updates repo source t := by
  obtain ⟨e, t₁, hupdate, _⟩ := h
  rw [Updates, hupdate]
  exact fun h => by cases h

/-- There are metadata to go on with, and this is the status of the update. -/
inductive Refreshed (repo : TufRepo T) (source : RepoSource) (t : T) : CheckInStatus → T → Prop
  | updated {t' : T} (h : repo.updateMeta source t = (.ok (), t')) : Refreshed repo source t .ok t'
  | stored {t' : T} (h : FallsBack repo source t t') : Refreshed repo source t .okCached t'

theorem MetaError.checkIn_bad (offline : Bool) (e : MetaError) :
    (e.checkIn offline).1 ≠ .ok ∧ (e.checkIn offline).1 ≠ .okCached := by
  cases e <;> simp [MetaError.checkIn]

theorem refreshed_iff {status : CheckInStatus} :
    Refreshed repo source t status t' ↔
      (∃ err, updateMeta repo source t = ((status, err), t')) ∧
        (status = .ok ∨ status = .okCached) := by
  constructor
  · intro h
    cases h with
    | updated h => exact ⟨⟨"", by simp only [updateMeta, h]⟩, .inl rfl⟩
    | stored h =>
      obtain ⟨e, t₁, hupdate, hattempt, hcheck⟩ := h
      have hfalls : (!source.isOffline || e.isRollbackAttempt) = true := by
        cases hoffline : source.isOffline with
        | false => rfl
        | true => exact isRollbackAttempt_iff.mpr (hattempt hoffline)
      exact ⟨⟨_, by simp only [updateMeta, hupdate, if_pos hfalls, hcheck]; rfl⟩, .inr rfl⟩
  · rintro ⟨⟨err, h⟩, hgood⟩
    rcases hupdate : repo.updateMeta source t with ⟨⟨e⟩ | ⟨⟨⟩⟩, t₁⟩
    · obtain ⟨hok, hcached⟩ := e.checkIn_bad source.isOffline
      simp only [updateMeta, hupdate] at h
      -- A failed update has a good status only after a successful check.
      have hbad : status ≠ (e.checkIn source.isOffline).1 := by
        intro heq
        rcases hgood with hgood | hgood
        · exact hok (heq.symm.trans hgood)
        · exact hcached (heq.symm.trans hgood)
      split at h
      · next hfalls =>
        rcases hcheck : repo.checkMeta t₁ with ⟨what | ⟨⟨⟩⟩, t₂⟩
        · simp only [hcheck] at h
          cases h
          exact absurd rfl hbad
        · simp only [hcheck] at h
          cases h
          refine .stored ⟨e, t₁, hupdate, fun hoffline => ?_, hcheck⟩
          rw [hoffline] at hfalls
          exact isRollbackAttempt_iff.mp hfalls
      · cases h
        exact absurd rfl hbad
    · simp only [updateMeta, hupdate] at h
      cases h
      exact .updated hupdate

theorem Refreshed.unique {t t₁ t₂ : T} {status₁ status₂ : CheckInStatus}
    (h₁ : Refreshed repo source t status₁ t₁) (h₂ : Refreshed repo source t status₂ t₂) :
    status₁ = status₂ ∧ t₁ = t₂ := by
  obtain ⟨⟨_, h₁⟩, _⟩ := refreshed_iff.mp h₁
  obtain ⟨⟨_, h₂⟩, _⟩ := refreshed_iff.mp h₂
  cases h₁.symm.trans h₂
  exact ⟨rfl, rfl⟩

theorem updateMeta_bad {status : CheckInStatus} {err : String}
    (h : updateMeta repo source t = ((status, err), t'))
    (hbad : ¬ (status = .ok ∨ status = .okCached)) (status' : CheckInStatus) (t'' : T) :
    ¬ Refreshed repo source t status' t'' := by
  intro hrefreshed
  obtain ⟨⟨_, h'⟩, hgood⟩ := refreshed_iff.mp hrefreshed
  cases h.symm.trans h'
  exact hbad hgood

/-! ## What a check-in returns -/

/-- A failed check-in has no targets, and its end is reported. -/
structure CheckedIn.Failed (c : CheckedIn) : Prop where
  bad : c.result.good = false
  targets : c.result.targets = []
  finished : ∃ err, c.finished = some err

theorem failed_checkInFailure {hwId err : String} {status : CheckInStatus}
    (h : ¬ (status = .ok ∨ status = .okCached)) : (checkInFailure hwId status err).Failed := by
  refine ⟨?_, rfl, err, rfl⟩
  rw [not_or] at h
  simp [CheckInResult.good, checkInFailure, h]

theorem failed_noMatchingTargets (hwId err : String) :
    (checkInFailure hwId .noMatchingTargets err).Failed := ⟨rfl, rfl, err, rfl⟩

/-- A target of the metadata is for the device. -/
def Offers (d : Device Key Stamp R T) (t : T) : Prop :=
  ∃ verified, d.repo.getTargets t = .ok verified ∧
    ∃ m ∈ verified, isForDevice d.hwId d.tags d.secondaryHwids m = .ok true

theorem filterTargets_ne_nil_iff {all matching : List TufTarget}
    (h : filterTargets all d.hwId d.tags d.secondaryHwids = .ok matching) :
    matching ≠ [] ↔ ∃ m ∈ all, isForDevice d.hwId d.tags d.secondaryHwids m = .ok true := by
  obtain ⟨found, hfound, hsort⟩ := bind_eq_ok.mp h
  cases hsort
  have hmem : ∀ m, m ∈ sortTargets found ↔ m ∈ found := fun m => List.mem_insertionSort _
  rw [ne_eq, List.eq_nil_iff_forall_not_mem, not_forall]
  simp only [not_not, hmem, mem_filterWhere_iff hfound]

/-- `CheckIn` after the update succeeds if there is a target for the device. -/
theorem remoteTargets_ok {t : T} {c : CheckedIn} (h : remoteTargets d t = .ok c) :
    (Offers d t ∧ ∃ targets, targets ≠ [] ∧ c = checkInSuccess d .ok targets) ∨
      (¬ Offers d t ∧ c.Failed) := by
  obtain ⟨verified, hverified, h⟩ := bind_eq_ok.mp h
  obtain ⟨matching, hmatching, h⟩ := bind_eq_ok.mp h
  have hoffers : Offers d t ↔ matching ≠ [] := by
    rw [filterTargets_ne_nil_iff hmatching]
    refine ⟨fun ⟨verified', hverified', hm⟩ => ?_, fun hm => ⟨verified, hverified, hm⟩⟩
    cases hverified.symm.trans hverified'
    exact hm
  split at h
  · next hnone =>
    cases h
    refine .inr ⟨fun ho => hoffers.mp ho (by simpa using hnone), failed_noMatchingTargets _ _⟩
  · next hsome =>
    cases h
    have hne : matching ≠ [] := by simpa using hsome
    exact .inl ⟨hoffers.mpr hne, matching, hne, rfl⟩

theorem checkIn_ok {current : Target} {c : CheckedIn}
    (hsource : remoteSource d current = .ok source) (h : checkIn d current t = (.ok c, t')) :
    (∃ status, Refreshed d.repo source t status t' ∧ remoteTargets d t' = .ok c) ∨
      ((∀ status t'', ¬ Refreshed d.repo source t status t'') ∧ c.Failed) := by
  unfold checkIn at h
  rw [hsource] at h
  rcases hupdate : updateMeta d.repo source t with ⟨⟨status, err⟩, t₁⟩
  simp only [hupdate] at h
  split at h
  · next hgood =>
    injection h with hc ht
    subst ht
    exact .inl ⟨status, refreshed_iff.mpr ⟨⟨err, hupdate⟩, hgood⟩, hc⟩
  · next hbad =>
    cases h
    exact .inr ⟨updateMeta_bad hupdate hbad, failed_checkInFailure hbad⟩

/-- The targets that the bundle lists, that are for the device and whose content is there. -/
def offeredTargets (d : Device Key Stamp R T) (source : LocalUpdateSource) (content : Content)
    (bundle : Json) (t : T) : Except String (List Target) := do
  let trusted ← getTrustedTargets (← d.repo.getTargets t) bundle
  let matching ← filterTargets trusted d.hwId d.tags d.secondaryHwids
  getAvailableTargets d.tk.toStyledString d.cfg source content (matching.map fromTufTarget)

theorem mapM_ne_nil {α β : Type} {f : α → Except String β} {xs : List α} {ys : List β}
    (h : xs.mapM f = .ok ys) (hne : xs ≠ []) : ys ≠ [] := by
  cases xs with
  | nil => exact absurd rfl hne
  | cons x rest =>
    obtain ⟨y, others, _, _, rfl⟩ := mapM_cons_eq_ok.mp h
    exact List.cons_ne_nil y others

/-- `CheckInLocal` after the update succeeds if the bundle offers a target. -/
theorem localTargets_ok {source : LocalUpdateSource} {content : Content}
    {status : CheckInStatus} {bundle : Json} {t : T} {c : CheckedIn}
    (h : localTargets d source content status bundle t = .ok c) :
    ∃ offered, offeredTargets d source content bundle t = .ok offered ∧
      ((offered ≠ [] ∧ ∃ targets, targets ≠ [] ∧ c = checkInSuccess d status targets) ∨
        (offered = [] ∧ c.Failed)) := by
  obtain ⟨verified, hverified, h⟩ := bind_eq_ok.mp h
  obtain ⟨trusted, htrusted, h⟩ := bind_eq_ok.mp h
  unfold offeredTargets
  rw [hverified, ok_bind, htrusted, ok_bind]
  split at h
  · next hnone =>
    cases h
    rw [List.isEmpty_iff.mp hnone]
    exact ⟨[], rfl, .inr ⟨rfl, failed_noMatchingTargets _ _⟩⟩
  obtain ⟨matching, hmatching, h⟩ := bind_eq_ok.mp h
  rw [hmatching, ok_bind]
  split at h
  · next hnone =>
    cases h
    rw [List.isEmpty_iff.mp hnone]
    exact ⟨[], rfl, .inr ⟨rfl, failed_noMatchingTargets _ _⟩⟩
  obtain ⟨available, havailable, h⟩ := bind_eq_ok.mp h
  refine ⟨available, havailable, ?_⟩
  split at h
  · next hnone =>
    cases h
    exact .inr ⟨List.isEmpty_iff.mp hnone, rfl, rfl, _, rfl⟩
  · next hsome =>
    obtain ⟨targets, htargets, h⟩ := bind_eq_ok.mp h
    cases h
    have hne : available ≠ [] := by simpa using hsome
    exact .inl ⟨hne, targets, mapM_ne_nil htargets hne, rfl⟩

theorem bundleStatus_bad (type : Bundle.ErrorType) :
    ¬ (bundleStatus type = .ok ∨ bundleStatus type = .okCached) := by
  cases type <;> simp [bundleStatus]

/-- The bundle's own metadata, as far as the bundle has any. -/
def bundleMeta (d : Device Key Stamp R T) (content : Content) (t : T) :
    Except Bundle.Failure Json :=
  Bundle.getBundleMeta d.tk d.rootRepo (d.repo.getRoot t) content.tuf d.type d.tags

theorem checkInLocal_ok {source : LocalUpdateSource} {content : Content} {c : CheckedIn}
    (h : checkInLocal d source content t = (.ok c, t')) :
    (∃ bundle status, bundleMeta d content t = .ok bundle ∧
        Refreshed d.repo (.local source.tufRepo) t status t' ∧
        localTargets d source content status bundle t' = .ok c) ∨
      ((∀ bundle status t'', bundleMeta d content t = .ok bundle →
        ¬ Refreshed d.repo (.local source.tufRepo) t status t'') ∧ c.Failed) := by
  unfold checkInLocal at h
  rw [← bundleMeta] at h
  cases hbundle : bundleMeta d content t with
  | error failure =>
    rw [hbundle] at h
    cases failure with
    | other what => cases h
    | bundleMeta type what =>
      cases h
      exact .inr ⟨fun _ _ _ h => (by cases h), failed_checkInFailure (bundleStatus_bad type)⟩
  | ok bundle =>
    rw [hbundle] at h
    rcases hupdate : updateMeta d.repo (.local source.tufRepo) t with ⟨⟨status, err⟩, t₁⟩
    simp only [hupdate] at h
    split at h
    · next hgood =>
      injection h with hc ht
      subst ht
      exact .inl ⟨bundle, status, rfl, refreshed_iff.mpr ⟨⟨err, hupdate⟩, hgood⟩, hc⟩
    · next hbad =>
      cases h
      exact .inr ⟨fun _ status' t'' _ => updateMeta_bad hupdate hbad status' t'',
        failed_checkInFailure hbad⟩

/-! ## The status -/

/-- The status says where the metadata come from, and without new metadata there are
targets only from a fallback. -/
structure HonestStatus (repo : TufRepo T) (source : RepoSource) (t : T) (r : CheckInResult) :
    Prop where
  ok : r.status = .ok → Updates repo source t
  cached : r.status = .okCached → ∃ t', FallsBack repo source t t'
  targets : r.targets ≠ [] → ¬ Updates repo source t → r.status = .okCached

theorem CheckedIn.Failed.honest {c : CheckedIn} (h : c.Failed) (repo : TufRepo T)
    (source : RepoSource) (t : T) : HonestStatus repo source t c.result := by
  have hbad := h.bad
  simp only [CheckInResult.good, Bool.or_eq_false_iff, beq_eq_false_iff_ne] at hbad
  exact ⟨fun h => absurd h hbad.1, fun h => absurd h hbad.2,
    fun hne => absurd h.targets hne⟩

theorem Refreshed.honest {r : CheckInResult} (h : Refreshed repo source t r.status t') :
    HonestStatus repo source t r := by
  generalize hstatus : r.status = status at h
  cases h with
  | updated h =>
    have hupdates : Updates repo source t := by rw [Updates, h]
    exact ⟨fun _ => hupdates, fun hcached => (by cases hstatus.symm.trans hcached),
      fun _ hnot => absurd hupdates hnot⟩
  | stored h =>
    exact ⟨fun hok => (by cases hstatus.symm.trans hok), fun _ => ⟨t', h⟩, fun _ _ => hstatus⟩

/-- The results of `CheckInLocal`. -/
def LocalHonest (d : Device Key Stamp R T) (source : LocalUpdateSource) (content : Content)
    (t : T) : Prop :=
  ∀ c t', checkInLocal d source content t = (.ok c, t') →
    HonestStatus d.repo (.local source.tufRepo) t c.result

/-- The results of `CheckIn`. -/
def RemoteHonest (d : Device Key Stamp R T) (current : Target) (t : T) : Prop :=
  ∀ source c t', remoteSource d current = .ok source → checkIn d current t = (.ok c, t') →
    HonestStatus d.repo source t c.result

theorem checkInLocal_honest (source : LocalUpdateSource) (content : Content) (t : T) :
    LocalHonest d source content t := by
  intro c t' h
  rcases checkInLocal_ok h with ⟨bundle, status, _, hrefreshed, htargets⟩ | ⟨_, hfailed⟩
  · obtain ⟨_, _, ⟨_, targets, _, rfl⟩ | ⟨_, hfailed⟩⟩ := localTargets_ok htargets
    · exact Refreshed.honest hrefreshed
    · exact hfailed.honest _ _ _
  · exact hfailed.honest _ _ _

/-- The update from the server fails, and the stored metadata are valid and have a target
for the device. -/
def ServesStored (d : Device Key Stamp R T) (current : Target) (t : T) : Prop :=
  ∃ source t', remoteSource d current = .ok source ∧ FallsBack d.repo source t t' ∧
    RemoteTargetsRead d t' ∧ Offers d t'

theorem remoteHonest_iff (current : Target) (t : T) :
    RemoteHonest d current t ↔ ¬ ServesStored d current t := by
  constructor
  · rintro hhonest ⟨source, t', hsource, hfalls, hread, hoffers⟩
    obtain ⟨⟨err, hupdate⟩, hgood⟩ := refreshed_iff.mp (Refreshed.stored hfalls)
    obtain ⟨c, hc⟩ := returns_remoteTargets_iff.mpr hread
    have hrun : checkIn d current t = (.ok c, t') := by
      rw [checkIn, hsource]
      dsimp only
      rw [hupdate]
      dsimp only
      rw [if_pos hgood, hc]
    rcases remoteTargets_ok hc with ⟨_, targets, _, rfl⟩ | ⟨hnone, _⟩
    · exact hfalls.not_updates ((hhonest source _ t' hsource hrun).ok rfl)
    · exact hnone hoffers
  · intro hnot source c t' hsource h
    rcases checkIn_ok hsource h with ⟨status, hrefreshed, htargets⟩ | ⟨_, hfailed⟩
    · rcases remoteTargets_ok htargets with ⟨hoffers, targets, _, rfl⟩ | ⟨_, hfailed⟩
      · cases hrefreshed with
        | updated hupdate => exact Refreshed.honest (Refreshed.updated hupdate)
        | stored hfalls =>
          have hread := returns_remoteTargets_iff.mp ⟨_, htargets⟩
          exact absurd ⟨source, t', hsource, hfalls, hread, hoffers⟩ hnot
      · exact hfailed.honest _ _ _
    · exact hfailed.honest _ _ _

/-- The status of every check-in is honest, except that of a `CheckIn` which is served from
the stored metadata. -/
theorem check_in_status_iff (d : Device Key Stamp R T) (current : Target)
    (source : LocalUpdateSource) (content : Content) (t : T) :
    RemoteHonest d current t ∧ LocalHonest d source content t ↔ ¬ ServesStored d current t := by
  rw [remoteHonest_iff, and_iff_left (checkInLocal_honest source content t)]

/-- The server is out of reach, and the stored metadata have one target. -/
def unreachable : Device String Unit Int Unit :=
  { prodDevice (boardBundle []) with
    repo := { oneTargetRepo boardTarget with
      updateMeta := fun _ t => (.error (.fetchFailure "Failed to fetch role root"), t) } }

/-- `CheckIn` reports `Ok` and a target though the update failed. -/
theorem stored_metadata_pass_for_new :
    ∃ c, checkIn unreachable boardTarget () = (.ok c, ()) ∧ c.result.status = .ok ∧
      c.result.targets.length = 1 ∧ ¬ RemoteHonest unreachable boardTarget () := by
  refine ⟨_, rfl, rfl, rfl, fun h => ?_⟩
  have hupdates := (h _ _ () rfl rfl).ok rfl
  cases hupdates

end Client
end AkLite
