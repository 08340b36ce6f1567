/-
The client of the docker daemon.

The client talks to the daemon through a socket, which `DOCKER_HOST` names.  The prefix of the
name is not compared: any of its characters at the start will do.

The running apps are what the daemon tells of its containers.  The client goes through them
and adds each one that belongs to an app to the services of the app, with its health.  The
daemon has a health for a container only if its image has a check; without one a container is
unhealthy if it is dead, or has exited with an error.
-/
import AkLite.Lib.Json
import AkLite.Lib.Outcome
import AkLite.Lib.Text

namespace AkLite
namespace Docker
namespace DockerClient

open Lib

/-! ## The connection -/

/-- What the factory reads of the environment: `DOCKER_HOST` and `COMPOSE_HTTP_TIMEOUT`. -/
structure FactoryEnv where
  dockerHost : Option String
  httpTimeout : Option String
  lexicalCast : String → Except String Int

inductive FactoryError where
  | invalidArgument (what : String)
  | outOfRange
  deriving DecidableEq, Repr

structure HttpClient where
  socket : String
  timeoutMs : Int
  deriving DecidableEq, Repr

def dockerHostPrefix : String := "unix://"

/-- A minute, if there is no other time or it is no number. -/
def timeoutMs (env : FactoryEnv) : Int :=
  match env.httpTimeout with
  | none => 1000 * 60
  | some text =>
    match env.lexicalCast text with
    | .ok seconds => seconds * 1000
    | .error _ => 1000 * 60

/-- `substr` from a position on. -/
def substr (text : String) (pos : Nat) : Except FactoryError String :=
  if text.length < pos then .error .outOfRange else .ok (String.ofList (text.toList.drop pos))

def invalidHost (dockerHost : String) : FactoryError :=
  .invalidArgument ("Invalid docker host value, must start with unix:// : " ++ dockerHost)

def defaultHttpClientFactory (env : FactoryEnv) (dockerHostIn : String) :
    Except FactoryError HttpClient := do
  let dockerHost := env.dockerHost.getD dockerHostIn
  if findFirstOf dockerHostPrefix.toList dockerHost.toList ≠ some 0 then
    .error (invalidHost dockerHost)
  let socket ← substr dockerHost dockerHostPrefix.length
  return { socket := socket, timeoutMs := timeoutMs env }

/-- The host is taken if it starts with the prefix, and the rest is the socket.  There is one
error. -/
structure HostRead (env : FactoryEnv) (dockerHostIn : String) : Prop where
  accepted : ∀ client, defaultHttpClientFactory env dockerHostIn = .ok client ↔
    ∃ socket, env.dockerHost.getD dockerHostIn = dockerHostPrefix ++ socket ∧
      client = { socket := socket, timeoutMs := timeoutMs env }
  refused : ∀ e, defaultHttpClientFactory env dockerHostIn = .error e →
    e = invalidHost (env.dockerHost.getD dockerHostIn)

/-- A host with the prefix. -/
theorem factory_of_append {env : FactoryEnv} {dockerHostIn socket : String}
    (h : env.dockerHost.getD dockerHostIn = dockerHostPrefix ++ socket) :
    defaultHttpClientFactory env dockerHostIn =
      .ok { socket := socket, timeoutMs := timeoutMs env } := by
  have hfirst : findFirstOf dockerHostPrefix.toList (dockerHostPrefix ++ socket).toList =
      some 0 := by
    rw [String.toList_append]
    rfl
  have hlength : ¬ (dockerHostPrefix ++ socket).length < dockerHostPrefix.length := by
    rw [String.length_append]
    omega
  unfold defaultHttpClientFactory
  rw [h]
  dsimp only
  rw [if_neg (not_not.mpr hfirst), substr, if_neg hlength, String.toList_append,
    ← String.length_toList, List.drop_left, String.ofList_toList]
  rfl

theorem prefix_dockerHost_iff {dockerHost : String} :
    dockerHostPrefix.toList <+: dockerHost.toList ↔
      ∃ socket, dockerHost = dockerHostPrefix ++ socket := by
  constructor
  · intro h
    obtain ⟨rest, hrest⟩ := h
    refine ⟨String.ofList rest, String.toList_inj.mp ?_⟩
    rw [String.toList_append, String.toList_ofList, hrest]
  · intro h
    obtain ⟨socket, hsocket⟩ := h
    exact ⟨socket.toList, by rw [hsocket, String.toList_append]⟩

section HostRead

variable {env : FactoryEnv} {dockerHostIn : String}

/-- A host that the search takes is accepted, or it is too short for the socket. -/
theorem factory_ne_invalidHost
    (h : findFirstOf dockerHostPrefix.toList (env.dockerHost.getD dockerHostIn).toList = some 0)
    (dockerHost : String) :
    defaultHttpClientFactory env dockerHostIn ≠ .error (invalidHost dockerHost) := by
  unfold defaultHttpClientFactory substr
  dsimp only
  rw [if_neg (not_not.mpr h)]
  split
  · intro heq
    cases heq
  · intro heq
    cases heq

theorem hostRead_of_append {socket : String}
    (h : env.dockerHost.getD dockerHostIn = dockerHostPrefix ++ socket) :
    HostRead env dockerHostIn := by
  have hfactory := factory_of_append h
  constructor
  · intro client
    rw [hfactory, h]
    constructor
    · intro heq
      cases heq
      exact ⟨socket, rfl, rfl⟩
    · intro hclient
      obtain ⟨socket', happend, rfl⟩ := hclient
      rw [(String.append_right_inj dockerHostPrefix).mp happend]
  · intro e he
    rw [hfactory] at he
    cases he

/-- The search refuses the host. -/
theorem hostRead_of_ne
    (h : findFirstOf dockerHostPrefix.toList (env.dockerHost.getD dockerHostIn).toList ≠ some 0)
    (hhost : ¬ dockerHostPrefix.toList <+: (env.dockerHost.getD dockerHostIn).toList) :
    HostRead env dockerHostIn := by
  have hfactory : defaultHttpClientFactory env dockerHostIn =
      .error (invalidHost (env.dockerHost.getD dockerHostIn)) := by
    unfold defaultHttpClientFactory
    dsimp only
    rw [if_pos h]
    rfl
  constructor
  · intro client
    rw [hfactory]
    refine iff_of_false (fun heq => by cases heq) fun hclient => hhost ?_
    obtain ⟨socket, hsocket, _⟩ := hclient
    exact prefix_dockerHost_iff.mpr ⟨socket, hsocket⟩
  · intro e he
    rw [hfactory] at he
    cases he
    rfl

theorem hostRead_iff :
    HostRead env dockerHostIn ↔
      (dockerHostPrefix.toList <+: (env.dockerHost.getD dockerHostIn).toList ∨
        ∀ c ∈ dockerHostPrefix.toList,
          (env.dockerHost.getD dockerHostIn).toList.head? ≠ some c) := by
  rw [← findFirstOf_prefix_iff (by decide)]
  constructor
  · intro h
    refine ⟨fun hzero => ?_, fun hprefix => ?_⟩
    · cases hfactory : defaultHttpClientFactory env dockerHostIn with
      | ok client =>
        obtain ⟨socket, hsocket, _⟩ := (h.accepted client).mp hfactory
        exact prefix_dockerHost_iff.mpr ⟨socket, hsocket⟩
      | error e =>
        have he := h.refused e hfactory
        exact absurd (hfactory.trans (congrArg _ he)) (factory_ne_invalidHost hzero _)
    · obtain ⟨socket, hsocket⟩ := prefix_dockerHost_iff.mp hprefix
      rw [hsocket, String.toList_append]
      rfl
  · intro hsearch
    by_cases hhost : dockerHostPrefix.toList <+: (env.dockerHost.getD dockerHostIn).toList
    · obtain ⟨socket, hsocket⟩ := prefix_dockerHost_iff.mp hhost
      exact hostRead_of_append hsocket
    · exact hostRead_of_ne (fun hzero => hhost (hsearch.mp hzero)) hhost

end HostRead

/-! ## The running apps -/

/-- What the daemon tells of a container. -/
structure ClientEnv where
  getContainerInfo : String → Except String Json
  getContainerLogs : String → Except String String

def text (container : Json) (key : String) : Except String String := do
  (← container.index key).asString

def label (container : Json) (key : String) : Except String String := do
  text (← container.index "Labels") key

def projectLabel : String := "com.docker.compose.project"

def exitCode (env : ClientEnv) (container : Json) : Except String Int := do
  let info ← env.getContainerInfo (← text container "Id")
  (← (← info.index "State").index "ExitCode").asInt

def healthStatus (env : ClientEnv) (container : Json) : Except String String := do
  let info ← env.getContainerInfo (← text container "Id")
  (← (← (← info.index "State").index "Health").index "Status").asString

def containerHealth (env : ClientEnv) (container : Json) (state status : String) :
    Except String String := do
  if mentions status "health" then healthStatus env container
  else if state = "dead" then return "unhealthy"
  else if state = "exited" then
    if (← exitCode env container) ≠ 0 then return "unhealthy" else return "healthy"
  else return "healthy"

/-- The logs of a service that is not healthy. -/
def serviceLogs (env : ClientEnv) (container : Json) (health : String) :
    Except String (List (String × Json)) := do
  if health = "healthy" then return []
  return [("logs", .str (← env.getContainerLogs (← text container "Id")))]

def serviceAttributes (env : ClientEnv) (container : Json) : Except String Json := do
  let state ← text container "State"
  let status ← text container "Status"
  let name ← label container "com.docker.compose.service"
  let hash ← label container "io.compose-spec.config-hash"
  let image ← text container "Image"
  let health ← containerHealth env container state status
  let logs ← serviceLogs env container health
  return .obj ([("name", .str name), ("hash", .str hash), ("image", .str image),
    ("state", .str state), ("status", .str status), ("health", .str health)] ++ logs)

/-- The engine's addition to an app: the version and the state in its files, if it has
some. -/
def extend (states : String → Option (String × String)) (name : String) (app : Json) :
    Except String Json := do
  if ← app.isMember "uri" then return app
  match states name with
  | some (version, state) => (← app.insert "uri" (.str version)).insert "state" (.str state)
  | none => return app

/-- One round of the loop. -/
def addContainer (env : ClientEnv) (states : String → Option (String × String))
    (apps container : Json) : Except String Json := do
  let name ← label container projectLabel
  if name = "" then return apps
  let service ← serviceAttributes env container
  let app ← apps.index name
  let services ← (← app.index "services").append service
  apps.insert name (← extend states name (← app.insert "services" services))

/-- An engine that adds nothing has no states. -/
def getRunningApps (env : ClientEnv) (states : String → Option (String × String))
    (containers : Json) : Except String Json :=
  containers.values.foldlM (addContainer env states) .null

/-! ## The health of a container -/

variable {env : ClientEnv} {states : String → Option (String × String)}

/-- The entry of a container. -/
structure ServiceOf (env : ClientEnv) (container service : Json) : Prop where
  health : ∃ state status health, text container "State" = .ok state ∧
    text container "Status" = .ok status ∧
    containerHealth env container state status = .ok health ∧
    service.find "health" = .ok (some (.str health)) ∧
    service.index "state" = .ok (.str state)

theorem serviceOf_eq_ok {container service : Json}
    (h : serviceAttributes env container = .ok service) : ServiceOf env container service := by
  unfold serviceAttributes at h
  obtain ⟨state, hstate, h⟩ := bind_eq_ok.mp h
  obtain ⟨status, hstatus, h⟩ := bind_eq_ok.mp h
  obtain ⟨name, _, h⟩ := bind_eq_ok.mp h
  obtain ⟨hash, _, h⟩ := bind_eq_ok.mp h
  obtain ⟨image, _, h⟩ := bind_eq_ok.mp h
  obtain ⟨health, hhealth, h⟩ := bind_eq_ok.mp h
  obtain ⟨logs, _, h⟩ := bind_eq_ok.mp h
  cases h
  exact ⟨state, status, health, hstate, hstatus, hhealth, rfl, rfl⟩

/-! ## The loop over the containers -/

/-- The service is the one of the container. -/
def IsServiceOf (env : ClientEnv) (name : String) (container service : Json) : Prop :=
  label container projectLabel = .ok name ∧ serviceAttributes env container = .ok service

def HasServices (app : Json) (services : List Json) : Prop :=
  app.index "services" = .ok (.arr services)

/-- The apps have the services of the containers that are done, and no others. -/
structure Lists (env : ClientEnv) (done : List Json) (apps : Json) : Prop where
  dict : apps.IsDict
  sound : ∀ entry ∈ apps.entries, ∃ services, HasServices entry.2 services ∧
    ∀ service ∈ services, ∃ container ∈ done, IsServiceOf env entry.1 container service
  complete : ∀ container ∈ done, ∀ name, label container projectLabel = .ok name → name ≠ "" →
    ∃ app services, (name, app) ∈ apps.entries ∧ HasServices app services ∧
      ∃ service ∈ services, IsServiceOf env name container service

theorem lists_nil : Lists env [] .null where
  dict := Json.isDict_null
  sound _ h := by cases h
  complete _ h := by cases h

/-- The engine does not touch the services. -/
theorem index_extend {name : String} {app app' : Json} (h : extend states name app = .ok app') :
    app'.index "services" = app.index "services" := by
  unfold extend at h
  obtain ⟨member, _, h⟩ := bind_eq_ok.mp h
  split at h
  · cases h
    rfl
  · split at h
    · obtain ⟨app₁, huri, hstate⟩ := bind_eq_ok.mp h
      rw [Json.index_insert_of_ne hstate (by decide), Json.index_insert_of_ne huri (by decide)]
    · cases h
      rfl

/-- The services an app had before. -/
theorem Lists.before {done : List Json} {apps app old services service : Json} {name : String}
    (h : Lists env done apps) (happ : apps.index name = .ok app)
    (hold : app.index "services" = .ok old) (happend : old.append service = .ok services) :
    ∃ items, services = .arr (items ++ [service]) ∧
      (∀ item ∈ items, ∃ container ∈ done, IsServiceOf env name container item) ∧
      ∀ other, (name, other) ∈ apps.entries → HasServices other items := by
  have hfind := Json.find_eq_lookup happ name
  obtain rfl := Except.ok.inj (happ.symm.trans (Json.index_of_find hfind))
  cases hlookup : apps.entries.lookup name with
  | none =>
    rw [hlookup] at hold
    cases hold
    cases happend
    refine ⟨[], rfl, by simp, fun other hother => ?_⟩
    rw [(lookup_eq_some_iff_mem h.dict.nodup).mpr hother] at hlookup
    cases hlookup
  | some app =>
    rw [hlookup] at hold
    obtain ⟨items, hitems, hsound⟩ := h.sound _ (mem_of_lookup hlookup)
    obtain rfl := Except.ok.inj (hold.symm.trans hitems)
    cases happend
    refine ⟨items, rfl, hsound, fun other hother => ?_⟩
    rw [(lookup_eq_some_iff_mem h.dict.nodup).mpr hother] at hlookup
    cases hlookup
    exact hitems

/-- One container. -/
theorem Lists.add {done : List Json} {apps apps' container : Json} (h : Lists env done apps)
    (hadd : addContainer env states apps container = .ok apps') :
    Lists env (container :: done) apps' := by
  unfold addContainer at hadd
  obtain ⟨name, hname, hadd⟩ := bind_eq_ok.mp hadd
  split at hadd
  · next hempty =>
    cases hadd
    refine ⟨h.dict, fun entry hentry => ?_, fun other hother name' hname' hne => ?_⟩
    · obtain ⟨services, hservices, hsound⟩ := h.sound entry hentry
      refine ⟨services, hservices, fun service hservice => ?_⟩
      obtain ⟨other, hother, hof⟩ := hsound service hservice
      exact ⟨other, List.mem_cons_of_mem _ hother, hof⟩
    · rcases List.mem_cons.mp hother with rfl | hother
      · obtain rfl := Except.ok.inj (hname.symm.trans hname')
        exact absurd hempty hne
      · exact h.complete other hother name' hname' hne
  · obtain ⟨service, hservice, hadd⟩ := bind_eq_ok.mp hadd
    obtain ⟨app, happ, hadd⟩ := bind_eq_ok.mp hadd
    obtain ⟨old, hold, hadd⟩ := bind_eq_ok.mp hadd
    obtain ⟨services, happend, hadd⟩ := bind_eq_ok.mp hadd
    obtain ⟨app₁, hinsert, hadd⟩ := bind_eq_ok.mp hadd
    obtain ⟨app₂, hextend, hput⟩ := bind_eq_ok.mp hadd
    obtain ⟨items, rfl, hitems, hentry⟩ := h.before happ hold happend
    have hof : IsServiceOf env name container service := ⟨hname, hservice⟩
    have hservices : HasServices app₂ (items ++ [service]) :=
      (index_extend hextend).trans (Json.index_of_find (Json.find_insert_self hinsert))
    refine ⟨h.dict.insert hput, fun entry hmem => ?_,
      fun other hother name' hname' hne => ?_⟩
    · rcases (Json.mem_entries_insert hput).mp hmem with ⟨hmem, _⟩ | rfl
      · obtain ⟨services, hservices, hsound⟩ := h.sound entry hmem
        refine ⟨services, hservices, fun service hservice => ?_⟩
        obtain ⟨other, hother, hof⟩ := hsound service hservice
        exact ⟨other, List.mem_cons_of_mem _ hother, hof⟩
      · refine ⟨items ++ [service], hservices, fun item hitem => ?_⟩
        rcases List.mem_append.mp hitem with hitem | hitem
        · obtain ⟨other, hother, hof⟩ := hitems item hitem
          exact ⟨other, List.mem_cons_of_mem _ hother, hof⟩
        · obtain rfl := List.mem_singleton.mp hitem
          exact ⟨container, List.mem_cons_self, hof⟩
    · have hnew : (name, app₂) ∈ apps'.entries := (Json.mem_entries_insert hput).mpr (.inr rfl)
      rcases List.mem_cons.mp hother with rfl | hother
      · obtain rfl := Except.ok.inj (hname.symm.trans hname')
        exact ⟨app₂, _, hnew, hservices, service, by simp, hof⟩
      · obtain ⟨app', services, hmem, hservices', item, hitem, hof'⟩ :=
          h.complete other hother name' hname' hne
        by_cases hsame : name' = name
        · cases hsame
          obtain rfl : services = items := by
            have heq := hservices'.symm.trans (hentry app' hmem)
            cases heq
            rfl
          exact ⟨app₂, _, hnew, hservices, item, List.mem_append_left _ hitem, hof'⟩
        · exact ⟨app', services, (Json.mem_entries_insert hput).mpr (.inl ⟨hmem, hsame⟩),
            hservices', item, hitem, hof'⟩

/-- All containers. -/
theorem Lists.foldlM {done containers : List Json} {apps apps' : Json} (h : Lists env done apps)
    (hloop : containers.foldlM (addContainer env states) apps = .ok apps') :
    Lists env (containers.reverse ++ done) apps' := by
  induction containers generalizing done apps with
  | nil =>
    cases hloop
    exact h
  | cons container containers ih =>
    obtain ⟨apps₁, hadd, hloop⟩ := bind_eq_ok.mp hloop
    rw [List.reverse_cons, List.append_assoc]
    exact ih (h.add hadd) hloop

/-- The apps have the services of all containers. -/
theorem lists_getRunningApps {containers apps : Json}
    (h : getRunningApps env states containers = .ok apps) :
    Lists env containers.values.reverse apps := by
  have hlists := lists_nil.foldlM h
  rwa [List.append_nil] at hlists

end DockerClient
end Docker
end AkLite
