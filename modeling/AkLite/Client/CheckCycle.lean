/-
The notifications of a check for updates.

The user's program is called at the start and at the end of a check, as
`check-for-update-pre` and `check-for-update-post`.  A cycle is a check-in of one of the
three kinds and the selection of a target from its result.  By a flag of the client the end
is notified by a successful check-in or by the selection.  A failed check-in notifies the
end whatever the flag is, and `CheckInCurrent` does not notify the start.

So if the selection is to notify the end, it notifies the end of a failed check-in once
more, and the end of a check that was not started.  The calls alternate exactly in the runs
without such a cycle (`check_callbacks_alternate_iff`).
-/
import AkLite.Client.Checks
import AkLite.Client.Refresh
import AkLite.Lib.Run

namespace AkLite
namespace Client

open Lib

variable {Key Stamp R T Db : Type}

/-! ## The calls of the program -/

inductive CheckCallback where
  | pre
  | post (err : String)
  deriving DecidableEq, Repr

def Event.checkCallback : Event → Option CheckCallback
  | .tufUpdateStarted => some .pre
  | .tufUpdateFinished err => some (.post err)
  | _ => none

/-- The calls in the order in which they were made. -/
def checkCallbacks (trace : List Event) : List CheckCallback :=
  trace.reverse.filterMap Event.checkCallback

/-- Every start is followed by its end, and there is no end without a start. -/
def Alternating : List CheckCallback → Prop
  | [] => True
  | .pre :: .post _ :: rest => Alternating rest
  | _ => False

@[simp]
theorem alternating_check (err : String) (rest : List CheckCallback) :
    Alternating (.pre :: .post err :: rest) ↔ Alternating rest := by
  rw [Alternating]

@[simp]
theorem not_alternating_post (err : String) (rest : List CheckCallback) :
    ¬ Alternating (.post err :: rest) := by
  simp [Alternating]

@[simp]
theorem checkCallbacks_append (events trace : List Event) :
    checkCallbacks (events ++ trace) = checkCallbacks trace ++ checkCallbacks events := by
  simp [checkCallbacks]

theorem checkCallbacks_cons (e : Event) (trace : List Event) :
    checkCallbacks (e :: trace) = checkCallbacks trace ++ e.checkCallback.toList := by
  cases h : e.checkCallback <;> simp [checkCallbacks, h]

/-! ## Cycles -/

/-- A check-in of one of the three kinds, with what it finds in a bundle. -/
inductive CheckInCall where
  | remote
  | bundle (source : LocalUpdateSource) (content : Content)
  | stored (bundle? : Option (LocalUpdateSource × Content))

/-- `notifyTufUpdateStarted` is called. -/
def CheckInCall.starts : CheckInCall → Bool
  | .stored _ => false
  | _ => true

structure CheckCycle where
  call : CheckInCall
  args : SelectArgs
  env : CheckEnv

structure Session (Db T : Type) where
  world : World Db
  repo : T

section Cycles

variable (d : Device Key Stamp R T) (St : Storage Db)

def CheckInCall.run (s : Session Db T) : CheckInCall → Except String CheckedIn × T
  | .remote => checkIn d (getCurrent St s.world) s.repo
  | .bundle source content => checkInLocal d source content s.repo
  | .stored bundle? =>
    let (result, repo) := checkInCurrent d bundle? s.repo
    (result.map fun r => { result := r, finished := none }, repo)

/-- The notifications of a check-in that returned, the latest first. -/
def CheckInCall.events (call : CheckInCall) (finished : Option String) : List Event :=
  (finished.map Event.tufUpdateFinished).toList ++ if call.starts then [.tufUpdateStarted] else []

/-- A check-in and the selection from its result.  There is no next state if one of them
throws. -/
def checkCycle (s : Session Db T) (c : CheckCycle) : Option (Session Db T) :=
  match c.call.run d St s with
  | (.error _, _) => none
  | (.ok checked, repo) =>
    let world := { s.world with trace := c.call.events checked.finished ++ s.world.trace }
    match getTargetToInstall St d.tk.toStyledString d.cfg checked.result c.args c.env world with
    | .ok _ world => some { world := world, repo := repo }
    | .error _ _ => none

def CheckStep (s : Session Db T) (c : CheckCycle) (s' : Session Db T) : Prop :=
  checkCycle d St s c = some s'

/-- The check for updates is started and has a target to select from: there are valid
metadata and, in them, a target for the device, which for a bundle is one of its own. -/
def Finds (s : Session Db T) : CheckInCall → Prop
  | .remote => ∃ source status t', remoteSource d (getCurrent St s.world) = .ok source ∧
      Refreshed d.repo source s.repo status t' ∧ Offers d t'
  | .bundle source content => ∃ bundle status t' offered,
      bundleMeta d content s.repo = .ok bundle ∧
      Refreshed d.repo (.local source.tufRepo) s.repo status t' ∧
      offeredTargets d source content bundle t' = .ok offered ∧ offered ≠ []
  | .stored _ => False

end Cycles

/-! ## What a cycle notifies -/

section Steps

variable {d : Device Key Stamp R T} {St : Storage Db} {s s' : Session Db T}

theorem remoteSource_of_ok {current : Target} {t t' : T} {c : CheckedIn}
    (h : checkIn d current t = (.ok c, t')) : ∃ source, remoteSource d current = .ok source := by
  unfold checkIn at h
  cases hsource : remoteSource d current with
  | error what =>
    rw [hsource] at h
    cases h
  | ok source => exact ⟨source, rfl⟩

/-- A check-in that is started leaves its end to the selection if it finds a target and the
flag says so.  Otherwise it notifies its end. -/
theorem run_finished {call : CheckInCall} {c : CheckedIn} {t' : T}
    (h : call.run d St s = (.ok c, t')) (hstarts : call.starts = true) :
    (Finds d St s call ∧ c.finished = if d.cfg.invokePostCbAtCheckin then some "" else none) ∨
      (¬ Finds d St s call ∧ ∃ err, c.finished = some err) := by
  cases call with
  | remote =>
    obtain ⟨source, hsource⟩ := remoteSource_of_ok h
    rcases checkIn_ok hsource h with ⟨status, hrefreshed, htargets⟩ | ⟨hnone, hfailed⟩
    · rcases remoteTargets_ok htargets with ⟨hoffers, targets, _, rfl⟩ | ⟨hnot, hfailed⟩
      · exact .inl ⟨⟨source, status, t', hsource, hrefreshed, hoffers⟩, rfl⟩
      · refine .inr ⟨?_, hfailed.finished⟩
        rintro ⟨source', status', t'', hsource', hrefreshed', hoffers⟩
        cases hsource.symm.trans hsource'
        obtain ⟨rfl, rfl⟩ := hrefreshed.unique hrefreshed'
        exact hnot hoffers
    · refine .inr ⟨?_, hfailed.finished⟩
      rintro ⟨source', status', t'', hsource', hrefreshed, _⟩
      cases hsource.symm.trans hsource'
      exact hnone status' t'' hrefreshed
  | bundle source content =>
    rcases checkInLocal_ok h with ⟨bundle, status, hbundle, hrefreshed, htargets⟩ | ⟨hnone, hfailed⟩
    · obtain ⟨offered, hoffered, hcases⟩ := localTargets_ok htargets
      rcases hcases with ⟨hne, targets, _, rfl⟩ | ⟨hnil, hfailed⟩
      · exact .inl ⟨⟨bundle, status, t', offered, hbundle, hrefreshed, hoffered, hne⟩, rfl⟩
      · refine .inr ⟨?_, hfailed.finished⟩
        rintro ⟨bundle', status', t'', offered', hbundle', hrefreshed', hoffered', hne⟩
        cases hbundle.symm.trans hbundle'
        obtain ⟨rfl, rfl⟩ := hrefreshed.unique hrefreshed'
        cases hoffered.symm.trans hoffered'
        exact hne hnil
    · refine .inr ⟨?_, hfailed.finished⟩
      rintro ⟨bundle', status', t'', offered', hbundle', hrefreshed', _⟩
      exact hnone bundle' status' t'' hbundle' hrefreshed'
  | stored bundle? => cases hstarts

theorem run_stored {call : CheckInCall} {c : CheckedIn} {t' : T}
    (h : call.run d St s = (.ok c, t')) (hstarts : call.starts = false) :
    ¬ Finds d St s call ∧ c.finished = none := by
  cases call with
  | remote => cases hstarts
  | bundle source content => cases hstarts
  | stored bundle? =>
    refine ⟨fun hfinds => hfinds, ?_⟩
    have hc : Except.map _ (checkInCurrent d bundle? s.repo).1 = .ok c := congrArg Prod.fst h
    cases hr : (checkInCurrent d bundle? s.repo).1 with
    | error e =>
      rw [hr] at hc
      cases hc
    | ok r =>
      rw [hr] at hc
      cases hc
      rfl

variable {styled : Json → String} {cfg : Config} {w : World Db}

/-- The end as the selection notifies it. -/
def endOfSelection (cfg : Config) (err : String) : List CheckCallback :=
  if cfg.invokePostCbAtCheckin then [] else [.post err]

theorem callbacks_notified {err : String} {v : World Db}
    (h : checkCallbacks v.trace = checkCallbacks w.trace) :
    checkCallbacks (notified cfg err v).trace =
      checkCallbacks w.trace ++ endOfSelection cfg err := by
  unfold notified endOfSelection
  split
  · rw [h, List.append_nil]
  · rw [checkCallbacks_cons, h]
    rfl

theorem CheckEffect.callbacks {env : CheckEnv} {target : TufTarget} {v : World Db}
    (h : CheckEffect St styled cfg env target w v) :
    checkCallbacks v.trace = checkCallbacks w.trace := by
  rcases h.lists with ⟨_, htrace⟩ | ⟨c, _, _, htrace⟩
  · rw [htrace]
  · rw [htrace, checkCallbacks_cons]
    exact List.append_nil _

/-- The selection notifies the end once or not at all, by the flag alone. -/
theorem callbacks_getTargetToInstall (ci : CheckInResult) (args : SelectArgs) (env : CheckEnv) :
    wp (getTargetToInstall St styled cfg ci args env)
      (fun _ w' => ∃ err, checkCallbacks w'.trace =
        checkCallbacks w.trace ++ endOfSelection cfg err) (fun _ _ => True) w := by
  refine getTargetToInstall_rule (fun _ _ => trivial)
    (fun _ err _ => ⟨err, callbacks_notified rfl⟩) (fun _ _ _ _ v hv => ?_) fun _ _ _ v hv => ?_
  · exact ⟨fun _ _ => trivial, fun _ => ⟨"", callbacks_notified hv.callbacks⟩⟩
  · exact ⟨fun _ _ _ => trivial, fun _ _ => trivial,
      fun _ _ _ _ _ => ⟨"", callbacks_notified hv.callbacks⟩,
      fun _ _ => ⟨"", callbacks_notified hv.callbacks⟩⟩

/-- The calls of one cycle: those of the check-in and that of the selection. -/
theorem callbacks_checkCycle {c : CheckCycle} (h : CheckStep d St s c s') :
    ∃ checked t' err, c.call.run d St s = (.ok checked, t') ∧
      checkCallbacks s'.world.trace = checkCallbacks s.world.trace ++
        (checkCallbacks (c.call.events checked.finished) ++ endOfSelection d.cfg err) := by
  unfold CheckStep checkCycle at h
  split at h
  · cases h
  · next checked repo hrun =>
    dsimp only at h
    split at h
    · next result w' hselect =>
      cases h
      obtain ⟨err, herr⟩ := wp_ok (callbacks_getTargetToInstall checked.result c.args c.env) hselect
      refine ⟨checked, repo, err, hrun, herr.trans ?_⟩
      rw [checkCallbacks_append, List.append_assoc]
    · cases h

/-- A cycle adds a start and its end, or nothing, unless the selection is to notify the end
and the check-in has not left it to it. -/
theorem alternating_checkCycle {c : CheckCycle} (h : CheckStep d St s c s') :
    ∃ calls, checkCallbacks s'.world.trace = checkCallbacks s.world.trace ++ calls ∧
      ∀ rest, Alternating (calls ++ rest) ↔
        (d.cfg.invokePostCbAtCheckin = true ∨ Finds d St s c.call) ∧ Alternating rest := by
  obtain ⟨checked, t', err, hrun, hcalls⟩ := callbacks_checkCycle h
  refine ⟨_, hcalls, fun rest => ?_⟩
  unfold CheckInCall.events endOfSelection
  cases hstarts : c.call.starts with
  | false =>
    obtain ⟨hnot, hfinished⟩ := run_stored hrun hstarts
    cases hflag : d.cfg.invokePostCbAtCheckin with
    | false => simp [hfinished, hnot, checkCallbacks]
    | true => simp [hfinished, checkCallbacks]
  | true =>
    rcases run_finished hrun hstarts with ⟨hfinds, hfinished⟩ | ⟨hnot, text, hfinished⟩
    · cases hflag : d.cfg.invokePostCbAtCheckin with
      | false => simp [hfinished, hflag, hfinds, checkCallbacks, Event.checkCallback]
      | true => simp [hfinished, hflag, checkCallbacks, Event.checkCallback]
    · cases hflag : d.cfg.invokePostCbAtCheckin with
      | false => simp [hfinished, hnot, checkCallbacks, Event.checkCallback]
      | true => simp [hfinished, checkCallbacks, Event.checkCallback]

theorem alternating_run {visits : List (Session Db T × CheckCycle)}
    (h : Visits (CheckStep d St) s visits s') :
    ∃ calls, checkCallbacks s'.world.trace = checkCallbacks s.world.trace ++ calls ∧
      (Alternating calls ↔
        ∀ v ∈ visits, d.cfg.invokePostCbAtCheckin = true ∨ Finds d St v.1 v.2.call) := by
  induction h with
  | nil s => exact ⟨[], (List.append_nil _).symm, by simp [Alternating]⟩
  | cons hstep _ ih =>
    obtain ⟨first, hfirst, halternating⟩ := alternating_checkCycle hstep
    obtain ⟨calls, hcalls, ih⟩ := ih
    refine ⟨first ++ calls, by rw [hcalls, hfirst, List.append_assoc], ?_⟩
    rw [halternating, ih, List.forall_mem_cons]

end Steps

/-- In a run of cycles that all return, the calls of the program alternate exactly if each
check-in notifies its own end or is one that was started and found a target. -/
theorem check_callbacks_alternate_iff (d : Device Key Stamp R T) (St : Storage Db)
    (s s' : Session Db T) (visits : List (Session Db T × CheckCycle))
    (hrun : Visits (CheckStep d St) s visits s') (hstart : checkCallbacks s.world.trace = []) :
    Alternating (checkCallbacks s'.world.trace) ↔
      ∀ v ∈ visits, d.cfg.invokePostCbAtCheckin = true ∨ Finds d St v.1 v.2.call := by
  obtain ⟨calls, hcalls, halternating⟩ := alternating_run hrun
  rw [hcalls, hstart, List.nil_append]
  exact halternating

/-! ## Two cycles on a device -/

def updatedSession : Session InstalledVersions Unit := { world := factoryDevice, repo := () }

def cycleWith (call : CheckInCall) : CheckCycle :=
  { call := call, args := .daemon false, env := .allRunning }

/-- A check-in with the server that finds a target is finished by the selection. -/
theorem daemon_check_is_finished :
    ∃ s', CheckStep (prodDevice (boardBundle [])) installedVersions updatedSession
        (cycleWith .remote) s' ∧ Alternating (checkCallbacks s'.world.trace) := by
  have hrun : ∃ s', checkCycle (prodDevice (boardBundle [])) installedVersions updatedSession
      (cycleWith .remote) = some s' := ⟨_, rfl⟩
  obtain ⟨s', hs'⟩ := hrun
  refine ⟨s', hs', ?_⟩
  refine (check_callbacks_alternate_iff (prodDevice (boardBundle [])) installedVersions
    updatedSession s' [(updatedSession, cycleWith .remote)]
    (.cons hs' (.nil s')) rfl).mpr fun v hv => .inr ?_
  obtain rfl := List.mem_singleton.mp hv
  exact ⟨_, .ok, (), rfl, .updated rfl, _, rfl, _, List.mem_singleton.mpr rfl, rfl⟩

/-- The check-in fails as there are no targets, or it is one that is not started; both are
finished once too often. -/
theorem check_is_finished_twice :
    (∃ s', CheckStep { prodDevice (boardBundle []) with hwId := "other" } installedVersions
        updatedSession (cycleWith .remote) s' ∧
      (checkCallbacks s'.world.trace).length = 3 ∧
      ¬ Alternating (checkCallbacks s'.world.trace)) ∧
    ∃ s', CheckStep (prodDevice (boardBundle [])) installedVersions updatedSession
        (cycleWith (.stored none)) s' ∧ checkCallbacks s'.world.trace = [.post ""] ∧
      ¬ Alternating (checkCallbacks s'.world.trace) :=
  ⟨⟨_, rfl, rfl, fun h => h⟩, _, rfl, rfl, fun h => h⟩

end Client
end AkLite
