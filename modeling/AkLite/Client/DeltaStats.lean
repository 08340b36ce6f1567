/-
Does the update fit?

A target may refer to statistics of the static deltas that lead to it.  Before an ostree commit
is pulled from a remote, `Download` looks for the size of the delta from the booted commit, and
compares it with what is available.  A local remote has no such statistics.  Whether a remote is
local is told by a search for one of the characters of `file://`, so that other remotes that
start with one of them are not compared either.
-/
import AkLite.Boot.RootfsTreeManager
import AkLite.Client.LiteClient
import AkLite.Engine.DockerClient
import AkLite.Lib.Text

namespace AkLite
namespace Client

open Lib

/-! ## The statistics -/

structure Remote where
  baseUrl : String
  headers : List (String × String)
  deriving DecidableEq, Repr

structure DeltaStatsRef where
  sha256 : String
  size : Nat
  deriving DecidableEq, Repr

structure DeltaStat where
  size : Nat
  uncompressedSize : Nat
  deriving DecidableEq, Repr

structure HttpResponse where
  isOk : Bool
  body : String
  deriving DecidableEq, Repr

/-- What the download asks of others.  `get` takes a URL, the headers and a limit. -/
structure DeltaEnv where
  get : String → List String → Nat → HttpResponse
  sha256hex : String → String
  parseJSON : String → Json
  whole : String → Bool
  currentHash : Except String String
  usageText : UsageInfo → String
  repoPath : String

def fileScheme : String := "file://"

/-- The guard of `getDeltaStatIfAvailable`. -/
def isLocal (remote : Remote) : Bool :=
  findFirstOf fileScheme.toList remote.baseUrl.toList == some 0

/-- A reference that is not well formed counts as none. -/
def getDeltaStatsRef (whole : String → Bool) (custom : Json) :
    Except String (Option DeltaStatsRef) := do
  if !(← custom.isMember "delta-stats") then return none
  let ref ← custom.index "delta-stats"
  if !(← ref.isMember "sha256") then return none
  if !(← ref.index "sha256").isString then return none
  if !(← ref.isMember "size") then return none
  if !(← ref.index "size").isUInt whole then return none
  return some { sha256 := ← (← ref.index "sha256").asString
                size := ← (← ref.index "size").asUInt }

def deltaStatsMaxSize : Nat := 1024 * 1024

/-- Null if the file cannot be had, or is another one. -/
def downloadDeltaStats (env : DeltaEnv) (ref : DeltaStatsRef) (remote : Remote) : Json :=
  let uri := remote.baseUrl ++ "/delta-stats/" ++ ref.sha256
  if deltaStatsMaxSize < ref.size then .null
  else
    let extraHeaders := remote.headers.map fun header => header.1 ++ ": " ++ header.2
    let resp := env.get uri extraHeaders ref.size
    if !resp.isOk then .null
    else if resp.body.length ≠ ref.size then .null
    else if env.sha256hex resp.body ≠ ref.sha256 then .null
    else env.parseJSON resp.body

def findDeltaStatForUpdate (whole : String → Bool) (deltaStats : Json) (source target : String) :
    Except String (Option DeltaStat) := do
  if !(← deltaStats.isMember target) then return none
  let found := ((← deltaStats.index target).entries.lookup source).getD .null
  if found.isNull then return none
  if !(← found.isMember "size") then return none
  if !(← found.index "size").isUInt64 whole then return none
  if !(← found.isMember "u_size") then return none
  if !(← found.index "u_size").isUInt64 whole then return none
  return some { size := ← (← found.index "size").asUInt64
                uncompressedSize := ← (← found.index "u_size").asUInt64 }

/-- The body of the `try` block. -/
def lookUpDeltaStat (env : DeltaEnv) (target : TufTarget) (remote : Remote) :
    Except String (Option DeltaStat) := do
  match ← getDeltaStatsRef env.whole target.custom with
  | none => return none
  | some ref =>
    let stats := downloadDeltaStats env ref remote
    if stats.isNull then return none
    findDeltaStatForUpdate env.whole stats (← env.currentHash) target.sha256Hash

def getDeltaStatIfAvailable (env : DeltaEnv) (target : TufTarget) (remote : Remote) :
    Option DeltaStat :=
  if isLocal remote then none
  else
    match lookUpDeltaStat env target remote with
    | .ok stat => stat
    | .error _ => none

/-! ## The pull -/

/-- What happens at one remote.  The texts are those of the statistics, in which a required size
may show up that was only put there for a log line. -/
structure Pull where
  usageBefore : UsageInfo
  result : Boot.InstallationResult
  usageAfter : UsageInfo
  textBefore : String
  textAfter : String

inductive PullEvent where
  | sizeCheck (url : String) (available uncompressedSize : Nat)
  | pull (url : String)
  deriving DecidableEq, Repr

def required (usage : UsageInfo) (size : Nat) : UsageInfo := { usage with required := size }

/-- The texts of a pull that ran out of space. -/
def lacksSpace (description : String) : Bool :=
  (mentions description "would be exceeded, at least" &&
    (mentions description "min-free-space-size" ||
      mentions description "min-free-space-percent")) ||
  (mentions description "Delta requires" && mentions description "free space, but only")

def noSpace (env : DeltaEnv) (description : String) (usage : UsageInfo) : DownloadResult :=
  { status := .noSpace, description := description, destinationPath := env.repoPath, stat := usage }

/-- The check before the pull: whether a comparison is made, and the result that ends the
download. -/
def checkSize (env : DeltaEnv) (remote : Remote) (stat : Option DeltaStat) (usage : UsageInfo) :
    List PullEvent × Option DownloadResult :=
  match stat with
  | some stat =>
    if usage.isOk then
      ([.sizeCheck remote.baseUrl usage.available stat.uncompressedSize],
        if usage.available < stat.uncompressedSize then
          some (noSpace env ("Insufficient storage available; " ++
            env.usageText (required usage stat.uncompressedSize))
            (required usage stat.uncompressedSize))
        else none)
    else ([], none)
  | none =>
    ([], if usage.isOk && usage.available == 0 then
        some (noSpace env ("No available storage left; " ++
          env.usageText (required usage (4096 * 10))) (required usage (4096 * 10)))
      else none)

/-- The texts of both statistics. -/
def Pull.usageTexts (p : Pull) : String :=
  "before ostree pull; " ++ p.textBefore ++ "\nafter ostree pull; " ++ p.textAfter

/-- One round of the loop: the result that ends it, or the texts of the errors so far. -/
def pullFrom (env : DeltaEnv) (target : TufTarget) (remote : Remote) (p : Pull)
    (errorDesc : String) : List PullEvent × Except String DownloadResult :=
  let stat := getDeltaStatIfAvailable env target remote
  match checkSize env remote stat p.usageBefore with
  | (events, some res) => (events, .ok res)
  | (events, none) =>
    (events ++ [.pull remote.baseUrl],
      if p.result.isSuccess then
        .ok { status := .ok, description := p.usageTexts, destinationPath := env.repoPath,
              stat := .empty }
      else if lacksSpace p.result.description then
        .ok (noSpace env ("Insufficient storage available; " ++ p.result.description ++ "\n" ++
          p.usageTexts)
          (match stat with
          | some stat => required p.usageAfter stat.uncompressedSize
          | none => required p.usageAfter (p.usageAfter.available + 4096 * 10)))
      else .error (errorDesc ++ p.result.description ++ "\n" ++ p.usageTexts))

/-- The loop over the remotes. -/
def pullFromAny (env : DeltaEnv) (target : TufTarget) :
    List (Remote × Pull) → String → DownloadResult → List PullEvent × DownloadResult
  | [], _, res => ([], res)
  | (remote, p) :: rest, errorDesc, _ =>
    match pullFrom env target remote p errorDesc with
    | (events, .ok res) => (events, res)
    | (events, .error errorDesc) =>
      let res : DownloadResult :=
        { status := .downloadFailed, description := errorDesc, destinationPath := env.repoPath,
          stat := .empty }
      let (events', res) := pullFromAny env target rest errorDesc res
      (events ++ events', res)

/-- `Download`, with the remotes it tries. -/
def download (env : DeltaEnv) (target : TufTarget) (remotes : List (Remote × Pull)) :
    List PullEvent × DownloadResult :=
  pullFromAny env target remotes "" (.of .ok "")

/-! ## What is to be shown -/

/-- The target refers to statistics that can be had, with the delta from the booted commit. -/
structure HasDeltaStat (env : DeltaEnv) (target : TufTarget) (remote : Remote) (stat : DeltaStat) :
    Prop where
  ref : ∃ ref, getDeltaStatsRef env.whole target.custom = .ok (some ref) ∧
    (downloadDeltaStats env ref remote).isNull = false ∧
    ∃ hash, env.currentHash = .ok hash ∧
      findDeltaStatForUpdate env.whole (downloadDeltaStats env ref remote) hash
        target.sha256Hash = .ok (some stat)

/-- A remote with this URL is local if it is a file, and otherwise the size is compared, if the
remotes before it have failed. -/
structure RemoteRead (url : String) : Prop where
  isLocal : ∀ headers, isLocal ⟨url, headers⟩ = true ↔ fileScheme.toList <+: url.toList
  sizeCheck : ¬ fileScheme.toList <+: url.toList → ∀ env target headers stat,
    HasDeltaStat env target ⟨url, headers⟩ stat → ∀ p : Pull, p.usageBefore.isOk = true →
      ∀ before rest, (∀ q ∈ before, ¬ Returns (pullFrom env target q.1 q.2 "").2) →
        .sizeCheck url p.usageBefore.available stat.uncompressedSize ∈
          (download env target (before ++ (⟨url, headers⟩, p) :: rest)).1

/-! ## The check -/

variable {env : DeltaEnv} {target : TufTarget} {remote : Remote} {p : Pull}

theorem lookUpDeltaStat_eq {stat : DeltaStat} (h : HasDeltaStat env target remote stat) :
    lookUpDeltaStat env target remote = .ok (some stat) := by
  obtain ⟨ref, href, hstats, hash, hhash, hfind⟩ := h.ref
  unfold lookUpDeltaStat
  rw [href, ok_bind]
  dsimp only
  rw [hstats, if_neg (by decide), hhash]
  exact hfind

/-- A remote that is not taken for local. -/
theorem mem_pullFrom {stat : DeltaStat} (hlocal : isLocal remote = false)
    (h : HasDeltaStat env target remote stat) (husage : p.usageBefore.isOk = true)
    (errorDesc : String) :
    .sizeCheck remote.baseUrl p.usageBefore.available stat.uncompressedSize ∈
      (pullFrom env target remote p errorDesc).1 := by
  have hstat : getDeltaStatIfAvailable env target remote = some stat := by
    unfold getDeltaStatIfAvailable
    rw [hlocal, if_neg (by decide), lookUpDeltaStat_eq h]
  unfold pullFrom
  rw [hstat]
  dsimp only [checkSize]
  rw [husage, if_pos rfl]
  by_cases hless : p.usageBefore.available < stat.uncompressedSize
  · rw [if_pos hless]
    exact List.mem_cons_self
  · rw [if_neg hless]
    exact List.mem_append_left _ List.mem_cons_self

/-- Whether a remote fails does not depend on the errors before it. -/
theorem returns_pullFrom (errorDesc : String) :
    Returns (pullFrom env target remote p errorDesc).2 ↔
      Returns (pullFrom env target remote p "").2 := by
  unfold pullFrom
  dsimp only
  cases checkSize env remote (getDeltaStatIfAvailable env target remote) p.usageBefore with
  | mk events res =>
    cases res with
    | some res => exact iff_of_true (returns_ok res) (returns_ok res)
    | none =>
      by_cases hsuccess : p.result.isSuccess = true
      · simp only [hsuccess, if_true, returns_ok]
      · by_cases hspace : lacksSpace p.result.description = true
        · simp only [hsuccess, hspace, if_true, if_false, returns_ok, Bool.false_eq_true]
        · simp only [hsuccess, hspace, if_false, not_returns_error, Bool.false_eq_true]

/-- The loop goes on after a remote that has failed. -/
theorem mem_pullFromAny {event : PullEvent}
    (h : ∀ errorDesc, event ∈ (pullFrom env target remote p errorDesc).1)
    {before : List (Remote × Pull)}
    (hbefore : ∀ q ∈ before, ¬ Returns (pullFrom env target q.1 q.2 "").2)
    (rest : List (Remote × Pull)) (errorDesc : String) (res : DownloadResult) :
    event ∈ (pullFromAny env target (before ++ (remote, p) :: rest) errorDesc res).1 := by
  induction before generalizing errorDesc res with
  | nil =>
    have hevent := h errorDesc
    rw [List.nil_append, pullFromAny]
    cases hpull : pullFrom env target remote p errorDesc with
    | mk events outcome =>
      rw [hpull] at hevent
      cases outcome with
      | ok res => exact hevent
      | error e => exact List.mem_append_left _ hevent
  | cons q before ih =>
    obtain ⟨hq, hbefore⟩ := List.forall_mem_cons.mp hbefore
    have hfails := mt (returns_pullFrom errorDesc).mp hq
    rw [List.cons_append, pullFromAny]
    cases hpull : pullFrom env target q.1 q.2 errorDesc with
    | mk events outcome =>
      rw [hpull] at hfails
      cases outcome with
      | ok res => exact absurd (returns_ok res) hfails
      | error e => exact List.mem_append_right _ (ih hbefore _ _)

theorem isLocal_iff {url : String} {headers : List (String × String)} :
    isLocal ⟨url, headers⟩ = true ↔ findFirstOf fileScheme.toList url.toList = some 0 :=
  beq_iff_eq

theorem remoteRead_iff {url : String} :
    RemoteRead url ↔
      (fileScheme.toList <+: url.toList ∨ ∀ c ∈ fileScheme.toList, url.toList.head? ≠ some c) := by
  rw [← findFirstOf_prefix_iff (by decide)]
  constructor
  · intro h
    rw [← h.isLocal [], isLocal_iff]
  · intro hsearch
    constructor
    · intro headers
      rw [isLocal_iff, hsearch]
    · intro hurl env target headers stat hstat p husage before rest hbefore
      have hlocal : isLocal ⟨url, headers⟩ = false := by
        rw [← Bool.not_eq_true, isLocal_iff, hsearch]
        exact hurl
      exact mem_pullFromAny (fun errorDesc => mem_pullFrom hlocal hstat husage errorDesc) hbefore
        rest _ _

/-- Both tests are right for a text that starts with the word, or with none of its characters. -/
theorem prefix_tests_iff (env : Docker.DockerClient.FactoryEnv) (dockerHostIn url : String) :
    (Docker.DockerClient.HostRead env dockerHostIn ∧ RemoteRead url) ↔
      (("unix://".toList <+: (env.dockerHost.getD dockerHostIn).toList ∨
        ∀ c ∈ "unix://".toList, (env.dockerHost.getD dockerHostIn).toList.head? ≠ some c) ∧
      ("file://".toList <+: url.toList ∨ ∀ c ∈ "file://".toList, url.toList.head? ≠ some c)) :=
  and_congr Docker.DockerClient.hostRead_iff remoteRead_iff

/-- A named pipe is taken for a socket, a short name ends in another error, and a remote that is
no file is taken for local. -/
theorem other_schemes_pass :
    Docker.DockerClient.defaultHttpClientFactory
          ⟨some "npipe:////./pipe/docker", none, fun _ => .ok 0⟩ "unix:///var/run/docker.sock" =
        .ok ⟨"///./pipe/docker", 60000⟩ ∧
      Docker.DockerClient.defaultHttpClientFactory ⟨some "unix", none, fun _ => .ok 0⟩
        "unix:///var/run/docker.sock" = .error .outOfRange ∧
      isLocal ⟨"ftp://host/repo", []⟩ = true :=
  ⟨rfl, rfl, rfl⟩

end Client
end AkLite
