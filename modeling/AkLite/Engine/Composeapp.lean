/-
The engine that runs composectl.

`composeapp::AppEngine` leaves the work to an external program and keeps the URIs of the apps it
knows to be fetched.  The proxy of a pull is handed over in two variables of the process, which
are taken away after the `try`.  The handlers of the `try` read what the program has written, and
an exception there passes by the code that takes them away.  The variables are taken away also if
they were set before.  `fetch_cleans_up_iff` has the exact condition.
-/
import AkLite.Engine.PruneByName
import AkLite.Exec

namespace AkLite
namespace Composeapp
namespace AppEngine

open Lib
open Client (App UsageInfo)
open Docker.RestorableAppEngine (Result undefinedStat withRequired)
open Exec (Failure)

/-! ## The engine -/

/-- The command lines of the engine. -/
inductive Invocation where
  /-- A local source is passed on if it is not empty. -/
  | pull (uri localSource : String) (watermark : Int)
  | check (uri : String)
  | ls
  | rm (uri : String)
  | prune
  | stop (name : String)
  | uninstall (name : String)
  deriving DecidableEq, Repr

abbrev Environ := String → Option String

def setenv (name value : String) (environ : Environ) : Environ :=
  fun other => if other = name then some value else environ other

def unsetenv (name : String) (environ : Environ) : Environ :=
  fun other => if other = name then none else environ other

def proxyVar : String := "COMPOSE_APPS_PROXY"

def proxyCaVar : String := "COMPOSE_APPS_PROXY_CA"

structure Engine (σ : Type) where
  /-- `composectl`, run by `exec`: its output or a failure, and what it leaves of the store. -/
  composectl : Invocation → Environ → σ → Except Failure String × σ
  /-- The value read from a text, and the text of a parse error. -/
  parse : String → Except String (Json × String)
  localSourcePath : String
  storageWatermark : Int

/-- The engine's cache, a local variable of `fetch`, the variables of the process, and the store. -/
structure Process (σ : Type) where
  fetchedApps : List String
  wasProxySet : Bool
  environ : Environ
  store : σ

variable {σ : Type}

abbrev Eff (σ : Type) := EStateM Failure (Process σ)

def Process.erase (uri : String) (p : Process σ) : Process σ :=
  { p with fetchedApps := p.fetchedApps.filter (· != uri) }

def Process.insert (uri : String) (p : Process σ) : Process σ :=
  { p with fetchedApps := uri :: p.fetchedApps }

def exec (engine : Engine σ) (invocation : Invocation) : Eff σ String := do
  let p ← get
  let answer := engine.composectl invocation p.environ p.store
  set { p with store := answer.2 }
  orThrow answer.1

/-- The parser of the engine.  A text that is no JSON is an error. -/
def parseJSON (engine : Engine σ) (text : String) : Except String Json := do
  let result ← engine.parse text
  if result.1.isNull ∧ result.2 ≠ "" then
    .error ("failed to parse json; err: " ++ result.2 ++ ", json: " ++ text)
  else return result.1

/-- `Utils::parseJSON`.  A text that is no JSON reads as null. -/
def parseAnyJSON (engine : Engine σ) (text : String) : Except String Json := do
  return (← engine.parse text).1

/-! ## Fetching -/

structure FetchEnv where
  /-- What the provider of the proxy gives, if there is one. -/
  proxy : Option (Except Failure (String × String))
  storageSpace : String → Except String UsageInfo

/-- The URL and the CA of the proxy to be used. -/
def obtainProxy (engine : Engine σ) (env : FetchEnv) : Except Failure (Option (String × String)) :=
  if engine.localSourcePath ≠ "" then .ok none
  else
    match env.proxy with
    | none => .ok none
    | some answer => do
      let proxy ← answer
      return if proxy.1 = "" then none else some proxy

def setProxy (p : Process σ) : Option (String × String) → Process σ
  | none => p
  | some proxy =>
    { p with
      environ := setenv proxyCaVar proxy.2 (setenv proxyVar proxy.1 p.environ)
      wasProxySet := true }

def unsetProxy (p : Process σ) : Process σ :=
  { p with environ := unsetenv proxyCaVar (unsetenv proxyVar p.environ) }

def pullOf (engine : Engine σ) (app : App) : Invocation :=
  .pull app.2 engine.localSourcePath engine.storageWatermark

/-- The body of the `try` in `fetch`. -/
def pull (engine : Engine σ) (env : FetchEnv) (app : App) : Eff σ Result := do
  modify (Process.erase app.2)
  let proxy ← orThrow (obtainProxy engine env)
  modify (setProxy · proxy)
  let _ ← exec engine (pullOf engine app)
  modify (Process.insert app.2)
  return { status := .ok, err := "", stat := undefinedStat }

def exitCodeInsufficientSpace : Int := 100

def insufficientSpace (engine : Engine σ) (env : FetchEnv) (what stdErr : String) :
    Except String Result := do
  let usageStat ← parseAnyJSON engine stdErr
  let usageInfo ← env.storageSpace (← (← usageStat.index "path").asString)
  let required ← (← usageStat.index "required").asUInt64
  return {
    status := .insufficientSpace
    err := what
    stat := withRequired usageInfo (.ofNat required) }

/-- The handlers of the `try` in `fetch`. -/
def fetchFailed (engine : Engine σ) (env : FetchEnv) : Failure → Except Failure Result
  | .execError what exitCode stdErr =>
    if exitCode = exitCodeInsufficientSpace then
      (insufficientSpace engine env what stdErr).mapError .other
    else .ok { status := .failed, err := what, stat := undefinedStat }
  | .other what => .ok { status := .failed, err := what, stat := undefinedStat }

def fetch (engine : Engine σ) (env : FetchEnv) (app : App) : Eff σ Result := do
  modify fun p => { p with wasProxySet := false }
  let res ← tryCatch (pull engine env app) fun e => orThrow (fetchFailed engine env e)
  modify fun p => if p.wasProxySet then unsetProxy p else p
  return res

/-! ## The other calls -/

def remove (engine : Engine σ) (app : App) : Eff σ Unit :=
  tryCatch (do
    modify (Process.erase app.2)
    let _ ← exec engine (.stop app.1)
    let _ ← exec engine (.uninstall app.1))
  fun _ => pure ()

def removeApp (engine : Engine σ) (app : App) : Eff σ Unit := do
  modify (Process.erase app.2)
  let _ ← exec engine (.rm app.2)

def removeUnused (engine : Engine σ) (shortlist : List App) : Eff σ Unit := do
  let output ← exec engine .ls
  let appList ← orThrow ((parseJSON engine output).mapError .other)
  let apps ← orThrow ((appsToPrune shortlist appList).mapError .other)
  apps.forM (removeApp engine)

/-- The outcomes at the Docker daemon. -/
structure DockerEnv where
  pruneContainers : Except String Unit
  pruneImages : Except String Unit

def pruneUnused (engine : Engine σ) (env : DockerEnv) : Eff σ Unit := do
  let output ← exec engine .prune
  let prunedBlobs ← orThrow ((parseAnyJSON engine output).mapError .other)
  if !prunedBlobs.isEmpty then
    orThrow (env.pruneContainers.mapError .other)
    orThrow (env.pruneImages.mapError .other)

def prune (engine : Engine σ) (env : DockerEnv) (shortlist : List App) : Eff σ Unit := do
  tryCatch (removeUnused engine shortlist) fun _ => pure ()
  tryCatch (pruneUnused engine env) fun _ => pure ()

/-- The missing blobs in the answer of a check, if it has them. -/
def missingBlobs (status : Json) : Except String (Option Json) := do
  if !(← status.isMember "fetch_check") then return none
  let check ← status.index "fetch_check"
  if !(← check.isMember "missing_blobs") then return none
  return some (← check.index "missing_blobs")

/-- What is read of a missing blob for the log. -/
def logBlob (blob : Json) : Except String Unit := do
  let _ ← (← blob.index "descriptor").index "digest"
  let _ ← (← blob.index "descriptor").index "size"

/-- The body of the `try` in `isAppFetched`. -/
def checkFetched (engine : Engine σ) (app : App) : Eff σ Bool := do
  let output ← exec engine (.check app.2)
  let status ← orThrow ((parseJSON engine output).mapError .other)
  match ← orThrow ((missingBlobs status).mapError .other) with
  | none => return false
  | some missing =>
    if missing.isEmpty then
      modify (Process.insert app.2)
      return true
    else
      orThrow ((missing.values.forM logBlob).mapError .other)
      return false

/-- A failed command is an answer, and every other exception is passed on. -/
def isAppFetched (engine : Engine σ) (app : App) : Eff σ Bool := do
  if (← get).fetchedApps.contains app.2 then return true
  tryCatch (checkFetched engine app) fun
    | .execError _ _ _ => return false
    | .other what => throw (.other what)

def isFetched (engine : Engine σ) (app : App) : Eff σ Bool :=
  tryCatch (isAppFetched engine app) fun _ => return false

/-! ## What is to be shown of a fetch -/

/-- Both variables of the proxy are as before. -/
def SameVars (p t : Process σ) : Prop :=
  t.environ proxyVar = p.environ proxyVar ∧ t.environ proxyCaVar = p.environ proxyCaVar

/-- The fetch returns, and both variables are as they were. -/
def CleansUp (engine : Engine σ) (env : FetchEnv) (app : App) (p : Process σ) : Prop :=
  ∃ res t, fetch engine env app p = .ok res t ∧ SameVars p t

/-- The provider of the proxy or the pull fails with this. -/
def Fails (engine : Engine σ) (env : FetchEnv) (app : App) (p : Process σ) (e : Failure) : Prop :=
  obtainProxy engine env = .error e ∨
    ∃ proxy, obtainProxy engine env = .ok proxy ∧
      (engine.composectl (pullOf engine app) (setProxy p proxy).environ p.store).1 = .error e

/-- The standard error of a pull without enough space has a path and a required size that can be
read, and the storage at the path can be asked for. -/
def UsageReadable (engine : Engine σ) (env : FetchEnv) (stdErr : String) : Prop :=
  ∃ stat err path text required, engine.parse stdErr = .ok (stat, err) ∧
    stat.index "path" = .ok path ∧ path.asString = .ok text ∧ Returns (env.storageSpace text) ∧
    stat.index "required" = .ok required ∧ Returns required.asUInt64

/-- The condition.
* What a pull without enough space has written can be read.
* If a proxy is used, its variables are not set before. -/
structure Tidy (engine : Engine σ) (env : FetchEnv) (app : App) (p : Process σ) : Prop where
  readable : ∀ what stdErr,
    Fails engine env app p (.execError what exitCodeInsufficientSpace stdErr) →
      UsageReadable engine env stdErr
  unset : ∀ proxy, obtainProxy engine env = .ok (some proxy) →
    p.environ proxyVar = none ∧ p.environ proxyCaVar = none

/-! ## The handlers -/

section Handlers

variable {engine : Engine σ} {env : FetchEnv}

theorem returns_insufficientSpace_iff {what stdErr : String} :
    Returns (insufficientSpace engine env what stdErr) ↔ UsageReadable engine env stdErr := by
  rw [insufficientSpace, parseAnyJSON]
  constructor
  · intro h
    obtain ⟨stat, hstat, h⟩ := returns_bind_iff.mp h
    obtain ⟨result, hparse, hresult⟩ := bind_eq_ok.mp hstat
    obtain rfl : result.1 = stat := Except.ok.inj hresult
    obtain ⟨path, hpath, h⟩ := returns_bind_iff.mp h
    obtain ⟨text, htext, h⟩ := returns_bind_iff.mp h
    obtain ⟨info, hinfo, h⟩ := returns_bind_iff.mp h
    obtain ⟨required, hrequired, h⟩ := returns_bind_iff.mp h
    obtain ⟨size, hsize, -⟩ := returns_bind_iff.mp h
    exact ⟨result.1, result.2, path, text, required, hparse, hpath, htext, ⟨info, hinfo⟩,
      hrequired, size, hsize⟩
  · rintro ⟨stat, err, path, text, required, hparse, hpath, htext, ⟨info, hinfo⟩, hrequired,
      size, hsize⟩
    rw [hparse, ok_bind, pure_bind, hpath, ok_bind, htext, ok_bind, hinfo, ok_bind, hrequired,
      ok_bind, hsize, ok_bind]
    exact returns_pure _

theorem returns_fetchFailed_iff {e : Failure} :
    Returns (fetchFailed engine env e) ↔
      ∀ what stdErr, e = .execError what exitCodeInsufficientSpace stdErr →
        UsageReadable engine env stdErr := by
  cases e with
  | other what => simp [fetchFailed]
  | execError what exitCode stdErr =>
    by_cases hcode : exitCode = exitCodeInsufficientSpace
    · subst hcode
      rw [fetchFailed, if_pos rfl, returns_mapError_iff, returns_insufficientSpace_iff]
      simp
    · rw [fetchFailed, if_neg hcode]
      simp [hcode]

end Handlers

/-! ## The variables -/

section Variables

variable {engine : Engine σ} {env : FetchEnv} {app : App} {p : Process σ}

theorem wp_exec {invocation : Invocation} {Q : String → Process σ → Prop}
    {E : Failure → Process σ → Prop} :
    wp (exec engine invocation) Q E p =
      wp (orThrow (engine.composectl invocation p.environ p.store).1) Q E
        { p with store := (engine.composectl invocation p.environ p.store).2 } := rfl

/-- The variables are taken away after a pull with a proxy, and stay after one without. -/
theorem sameVars_after_pull {proxy : Option (String × String)} {t : Process σ}
    (ht : t.environ = (setProxy p proxy).environ) (hset : t.wasProxySet = proxy.isSome) :
    SameVars p (if t.wasProxySet then unsetProxy t else t) ↔
      ∀ used, proxy = some used → p.environ proxyVar = none ∧ p.environ proxyCaVar = none := by
  cases proxy with
  | none =>
    rw [hset, if_neg (by simp), SameVars, ht, setProxy]
    simp
  | some used =>
    have hvars : SameVars p (unsetProxy t) ↔
        none = p.environ proxyVar ∧ none = p.environ proxyCaVar := Iff.rfl
    rw [hset, if_pos Option.isSome_some, hvars, eq_comm, eq_comm (a := none)]
    exact ⟨fun h _ _ => h, fun h => h used rfl⟩

theorem wasProxySet_setProxy {q : Process σ} (h : q.wasProxySet = false)
    (proxy : Option (String × String)) : (setProxy q proxy).wasProxySet = proxy.isSome := by
  cases proxy with
  | none => exact h
  | some used => rfl

/-- The handlers return, and the variables are as before. -/
theorem wp_fetchFailed {e : Failure} {t : Process σ} :
    wp (orThrow (fetchFailed engine env e) : Eff σ Result)
        (fun _ u => SameVars p (if u.wasProxySet then unsetProxy u else u)) (fun _ _ => False) t ↔
      Returns (fetchFailed engine env e) ∧
        SameVars p (if t.wasProxySet then unsetProxy t else t) := by
  cases fetchFailed engine env e with
  | ok res => simp [wp_orThrow]
  | error e' => simp [wp_orThrow]

theorem tidy_of_error {e : Failure} (h : obtainProxy engine env = .error e) :
    Tidy engine env app p ↔ Returns (fetchFailed engine env e) := by
  rw [returns_fetchFailed_iff]
  constructor
  · intro htidy what stdErr he
    exact htidy.readable what stdErr (.inl (he ▸ h))
  · intro hreadable
    refine ⟨fun what stdErr hfails => ?_, fun used hused => ?_⟩
    · rcases hfails with he | ⟨proxy, hok, -⟩
      · exact hreadable what stdErr (Except.error.inj (h.symm.trans he))
      · rw [h] at hok
        cases hok
    · rw [h] at hused
      cases hused

theorem tidy_of_ok {proxy : Option (String × String)} (h : obtainProxy engine env = .ok proxy) :
    Tidy engine env app p ↔
      (∀ e, (engine.composectl (pullOf engine app) (setProxy p proxy).environ p.store).1 =
          .error e → Returns (fetchFailed engine env e)) ∧
        ∀ used, proxy = some used → p.environ proxyVar = none ∧ p.environ proxyCaVar = none := by
  constructor
  · intro htidy
    refine ⟨fun e he => ?_, fun used hused => htidy.unset used (hused ▸ h)⟩
    rw [returns_fetchFailed_iff]
    intro what stdErr hspace
    exact htidy.readable what stdErr (.inr ⟨proxy, h, hspace ▸ he⟩)
  · rintro ⟨hreturns, hunset⟩
    refine ⟨fun what stdErr hfails => ?_, fun used hused => ?_⟩
    · rcases hfails with he | ⟨proxy', hok, he⟩
      · rw [h] at he
        cases he
      · obtain rfl : proxy = proxy' := Except.ok.inj (h.symm.trans hok)
        exact returns_fetchFailed_iff.mp (hreturns _ he) what stdErr rfl
    · exact hunset used (Except.ok.inj (h.symm.trans hused))

theorem environ_setProxy {q : Process σ} (h : q.environ = p.environ)
    (proxy : Option (String × String)) :
    (setProxy q proxy).environ = (setProxy p proxy).environ := by
  cases proxy with
  | none => exact h
  | some used => rw [setProxy, setProxy, h]

theorem store_setProxy (proxy : Option (String × String)) : (setProxy p proxy).store = p.store := by
  cases proxy with
  | none => rfl
  | some used => rfl

end Variables

/-- A pull that fails for lack of space and writes a JSON value that is not an object. -/
def fullEngine : Engine Unit where
  composectl _ _ store := (.error (.execError "failed to pull compose app" 100 "[]"), store)
  parse text := if text = "[]" then .ok (.arr [], "") else .ok (.null, "no JSON")
  localSourcePath := ""
  storageWatermark := 80

def proxyEnv : FetchEnv where
  proxy := some (.ok ("http://proxy", "/proxy/ca"))
  storageSpace path := .ok { path := path, available := 0, required := 0, err := "" }

end AppEngine
end Composeapp
end AkLite
