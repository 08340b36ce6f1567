/-
The report on the apps.

The engine tells which apps run, and what it knows of their services.  The manager marks
every service as healthy or not, and then the app.  The loop over the services ends at the
first one that is not healthy, so services after it stay as the engine gave them.
-/
import AkLite.Engine.DockerClient
import AkLite.Lib.Json
import AkLite.Lib.Text
import Mathlib.Data.List.Pairwise

namespace AkLite
namespace Client

open Lib

/-! ## The report -/

/-- One round of the loop over the services, and whether the service is healthy. -/
def checkService (service : Json) : Except String (Json × Bool) := do
  if ← service.isMember "health" then
    return (service, decide ((← service.index "health") = .str "healthy"))
  let (service, state) ← service.touch "state"
  let state ← state.asString
  if state = "dead" then
    return (← service.insert "health" (.str "unhealthy"), false)
  if state = "exited" then
    let (service, status) ← service.touch "status"
    if !mentions (← status.asString) "Exited (0)" then
      return (← service.insert "health" (.str "unhealthy"), false)
    return (← service.insert "health" (.str "healthy"), true)
  return (← service.insert "health" (.str "healthy"), true)

/-- The loop, with a `break`. -/
def checkServices : List Json → Except String (List Json × Bool)
  | [] => .ok ([], true)
  | service :: services => do
    let first ← checkService service
    if !first.2 then return (first.1 :: services, false)
    let rest ← checkServices services
    return (first.1 :: rest.1, rest.2)

def markState (app : Json) (healthy : Bool) : Except String Json :=
  if healthy then .ok app else app.insert "state" (.str "unhealthy")

def addUri (app : Json) : Except String Json := do
  if ← app.isMember "uri" then return app else app.insert "uri" (.str "")

def checkApp (app : Json) : Except String Json := do
  let (app, services) ← app.touch "services"
  let app ← app.insert "state" (.str "healthy")
  let (values, healthy) ← checkServices services.values
  let app ← app.insert "services" (services.withValues values)
  addUri (← markState app healthy)

/-- The report is null if something is thrown. -/
def getAppsState (runningApps : Except String Json) (deploymentHash : Except String String)
    (now : String) : Json :=
  let report := do
    let apps ← (← runningApps).mapValues checkApp
    let hash ← deploymentHash
    return Json.obj [("deviceTime", .str now), ("ostree", .str hash), ("apps", apps)]
  match report with
  | .ok report => report
  | .error _ => .null

/-! ## Exit codes -/

/-- The status text of a container that has exited. -/
def ExitText (status : String) (code : Int) : Prop :=
  ∃ ago, status = "Exited (" ++ toString code ++ ") " ++ ago ∧ mentions ago "Exited (0)" = false

/-- A number is written with digits and a sign. -/
theorem mem_toString {code : Int} {c : Char} (h : c ∈ (toString code).toList) :
    c = '-' ∨ c.isDigit = true := by
  cases code with
  | ofNat n =>
    change c ∈ n.repr.toList at h
    rw [Nat.toList_repr] at h
    exact .inr (Nat.isDigit_of_mem_toDigits (by decide) (by decide) h)
  | negSucc n =>
    change c ∈ ("-" ++ (n + 1).repr).toList at h
    rw [String.toList_append, Nat.toList_repr] at h
    rcases List.mem_cons.mp h with h | h
    · exact .inl h
    · exact .inr (Nat.isDigit_of_mem_toDigits (by decide) (by decide) h)

theorem not_mem_toString {code : Int} {c : Char} (hsign : c ≠ '-') (hdigit : c.isDigit = false) :
    c ∉ (toString code).toList := by
  intro h
  rcases mem_toString h with h | h
  · exact hsign h
  · rw [hdigit] at h
    cases h

theorem toString_eq_zero {code : Int} : toString code = "0" ↔ code = 0 := by
  constructor
  · intro h
    cases code with
    | ofNat n =>
      have hrepr : n.repr = (0 : Nat).repr := h
      have hdigits := congrArg String.toList hrepr
      rw [Nat.toList_repr, Nat.toList_repr] at hdigits
      have hvalue := congrArg (Nat.ofDigitChars 10 · 0) hdigits
      rw [Nat.ofDigitChars_toDigits (by decide) (by decide),
        Nat.ofDigitChars_toDigits (by decide) (by decide)] at hvalue
      rw [hvalue]
      rfl
    | negSucc n =>
      have hrepr : "-" ++ (n + 1).repr = "0" := h
      have hhead := congrArg (fun text => text.toList.head?) hrepr
      rw [String.toList_append] at hhead
      cases hhead
  · rintro rfl
    rfl

/-- The text of a number up to the bracket is zero's. -/
theorem zero_prefix_iff {code : Int} {rest : List Char} :
    ['0', ')'] <+: (toString code).toList ++ ')' :: rest ↔ code = 0 := by
  rw [← toString_eq_zero, ← String.toList_inj]
  constructor
  · intro h
    have hbracket : ')' ∉ (toString code).toList := not_mem_toString (by decide) (by decide)
    revert h hbracket
    generalize (toString code).toList = text
    intro h hbracket
    cases text with
    | nil => exact absurd (List.cons_prefix_cons.mp h).1 (by decide)
    | cons c text =>
      obtain ⟨hzero, h⟩ := List.cons_prefix_cons.mp h
      cases text with
      | nil => rw [← hzero]; rfl
      | cons d text =>
        obtain ⟨rfl, _⟩ := List.cons_prefix_cons.mp h
        exact absurd (List.mem_cons_of_mem _ List.mem_cons_self) hbracket
  · intro h
    rw [h]
    exact ⟨rest, rfl⟩

/-- The manager finds out that the exit code is zero. -/
theorem mentions_exitText {status : String} {code : Int} (h : ExitText status code) :
    mentions status "Exited (0)" = true ↔ code = 0 := by
  obtain ⟨ago, rfl, hago⟩ := h
  have hnot : ¬ "Exited (0)".toList <:+: ago.toList := by
    rw [← mentions_iff, hago]
    decide
  -- the word starts with its only capital letter
  have htext : ("Exited (" ++ toString code ++ ") " ++ ago).toList =
      'E' :: ("xited (".toList ++ ((toString code).toList ++ ')' :: ' ' :: ago.toList)) := by
    simp only [String.toList_append, List.append_assoc]
    rfl
  have hrest : ¬ 'E' :: ("xited (".toList ++ ['0', ')']) <:+:
      "xited (".toList ++ ((toString code).toList ++ ')' :: ' ' :: ago.toList) := by
    rw [infix_append_of_not_mem (by decide),
      infix_append_of_not_mem (not_mem_toString (by decide) (by decide))]
    rw [show ')' :: ' ' :: ago.toList = [')', ' '] ++ ago.toList from rfl,
      infix_append_of_not_mem (by decide)]
    exact hnot
  rw [mentions_iff, htext]
  change 'E' :: ("xited (".toList ++ ['0', ')']) <:+: _ ↔ _
  rw [List.infix_cons_iff, or_iff_left hrest, List.cons_prefix_cons, List.prefix_append_right_inj]
  exact (and_iff_right rfl).trans zero_prefix_iff

/-! ## Services -/

/-- What the engine tells of a service. -/
structure ServiceInfo where
  health : Option Json
  state : String
  exitCode : Int

namespace ServiceInfo

/-- The service is dead, or has exited with an error. -/
def failed (s : ServiceInfo) : Bool :=
  s.state = "dead" || (s.state = "exited" && s.exitCode ≠ 0)

/-- The health of a service in a report. -/
def reported (s : ServiceInfo) : Json :=
  s.health.getD (if s.failed then .str "unhealthy" else .str "healthy")

def healthy (s : ServiceInfo) : Bool := decide (s.reported = .str "healthy")

/-- The entry of a service.  One that has exited tells its exit code. -/
structure Describes (s : ServiceInfo) (service : Json) : Prop where
  health : service.find "health" = .ok s.health
  state : ∃ v, service.index "state" = .ok v ∧ v.asString = .ok s.state
  status : s.health = none → s.state = "exited" →
    ∃ v status, service.index "status" = .ok v ∧ v.asString = .ok status ∧
      ExitText status s.exitCode

end ServiceInfo

open ServiceInfo

variable {s : ServiceInfo} {infos : List ServiceInfo} {app : Json}

theorem healthy_of_none (h : s.health = none) : s.healthy = !s.failed := by
  rw [healthy, reported, h, Option.getD_none]
  cases s.failed with
  | false => rfl
  | true => rfl

theorem reported_of_failed (h : s.health = none) (hfailed : s.failed = true) :
    s.reported = .str "unhealthy" := by
  rw [reported, h, Option.getD_none, if_pos hfailed]

theorem reported_of_not_failed (h : s.health = none) (hfailed : s.failed = false) :
    s.reported = .str "healthy" := by
  rw [reported, h, Option.getD_none, hfailed, if_neg (by decide)]

/-- The end of a round that sets the health. -/
theorem exists_insert_health {service v : Json} (h : service.index "state" = .ok v)
    (health : Json) :
    ∃ service', service.insert "health" health = .ok service' ∧
      service'.find "health" = .ok (some health) := by
  obtain ⟨service', hinsert⟩ := Json.insert_returns h health "health"
  exact ⟨service', hinsert, Json.find_insert_self hinsert⟩

/-- One round. -/
theorem checkService_eq {service : Json} (h : s.Describes service) :
    ∃ service', checkService service = .ok (service', s.healthy) ∧
      service'.find "health" = .ok (some s.reported) := by
  unfold checkService
  cases hhealth : s.health with
  | some v =>
    have hfind := h.health
    rw [hhealth] at hfind
    have hreported : s.reported = v := by
      rw [reported, hhealth, Option.getD_some]
    rw [Json.isMember_of_find hfind, ok_bind, if_pos (by rfl), Json.index_of_find hfind, ok_bind,
      healthy, hreported]
    exact ⟨service, rfl, hfind⟩
  | none =>
    have hfind := h.health
    rw [hhealth] at hfind
    obtain ⟨v, hindex, hstate⟩ := h.state
    obtain ⟨service₁, u, htouch⟩ := Json.touch_returns hindex
    obtain rfl : v = u := Except.ok.inj (hindex.symm.trans (Json.index_of_touch htouch))
    have hindex₁ := (Json.index_touch htouch "state").trans hindex
    rw [Json.isMember_of_find hfind, ok_bind, if_neg (by decide), htouch, ok_bind]
    dsimp only
    rw [hstate, ok_bind, healthy_of_none hhealth]
    by_cases hdead : s.state = "dead"
    · have hfailed : s.failed = true := by simp [failed, hdead]
      obtain ⟨service', hinsert, hfind'⟩ := exists_insert_health hindex₁ (.str "unhealthy")
      rw [if_pos hdead, hinsert, hfailed, reported_of_failed hhealth hfailed]
      exact ⟨service', rfl, hfind'⟩
    · rw [if_neg hdead]
      by_cases hexited : s.state = "exited"
      · obtain ⟨w, status, hstatus, htext, hexit⟩ := h.status hhealth hexited
        have hstatus₁ := (Json.index_touch htouch "status").trans hstatus
        obtain ⟨service₂, u, htouch₂⟩ := Json.touch_returns hstatus₁
        obtain rfl : w = u := Except.ok.inj (hstatus₁.symm.trans (Json.index_of_touch htouch₂))
        have hindex₂ := (Json.index_touch htouch₂ "state").trans hindex₁
        rw [if_pos hexited, htouch₂, ok_bind]
        dsimp only
        rw [htext, ok_bind]
        by_cases hcode : s.exitCode = 0
        · have hfailed : s.failed = false := by simp [failed, hdead, hcode]
          obtain ⟨service', hinsert, hfind'⟩ := exists_insert_health hindex₂ (.str "healthy")
          rw [(mentions_exitText hexit).mpr hcode, if_neg (by decide), hinsert, hfailed,
            reported_of_not_failed hhealth hfailed]
          exact ⟨service', rfl, hfind'⟩
        · have hfailed : s.failed = true := by simp [failed, hexited, hcode]
          have hnot : mentions status "Exited (0)" = false := by
            rw [← Bool.not_eq_true, mentions_exitText hexit]
            exact hcode
          obtain ⟨service', hinsert, hfind'⟩ := exists_insert_health hindex₂ (.str "unhealthy")
          rw [hnot, if_pos (by decide), hinsert, hfailed, reported_of_failed hhealth hfailed]
          exact ⟨service', rfl, hfind'⟩
      · have hfailed : s.failed = false := by simp [failed, hdead, hexited]
        obtain ⟨service', hinsert, hfind'⟩ := exists_insert_health hindex₁ (.str "healthy")
        rw [if_neg hexited, hinsert, hfailed, reported_of_not_failed hhealth hfailed]
        exact ⟨service', rfl, hfind'⟩

/-! ## The loop over the services -/

/-- The health in the entry of a service. -/
def HasHealth (health : Option Json) (service : Json) : Prop :=
  service.find "health" = .ok health

/-- The health of each service after the loop: the services behind the `break` have what the
engine gave them. -/
def marked : List ServiceInfo → List (Option Json)
  | [] => []
  | s :: rest => some s.reported :: if s.healthy then marked rest else rest.map ServiceInfo.health

theorem checkServices_eq {services : List Json} (h : List.Forall₂ Describes infos services) :
    ∃ services', checkServices services = .ok (services', infos.all ServiceInfo.healthy) ∧
      List.Forall₂ HasHealth (marked infos) services' := by
  induction h with
  | nil => exact ⟨[], rfl, .nil⟩
  | @cons s service infos services hfirst hrest ih =>
    obtain ⟨service', hcheck, hfind⟩ := checkService_eq hfirst
    rw [checkServices, hcheck, ok_bind, marked, List.all_cons]
    cases hhealthy : s.healthy with
    | false =>
      rw [if_pos (by rfl), if_neg (by decide)]
      refine ⟨service' :: services, rfl, .cons hfind ?_⟩
      rw [List.forall₂_map_left_iff]
      exact hrest.imp fun _ _ hd => hd.health
    | true =>
      obtain ⟨services', hloop, hall⟩ := ih
      rw [if_neg (by simp), if_pos rfl, hloop, ok_bind]
      exact ⟨service' :: services', rfl, .cons hfind hall⟩

/-- Services without a health come before every service that is not healthy. -/
def Orderly (infos : List ServiceInfo) : Prop :=
  infos.Pairwise fun s t => s.healthy = false → t.health ≠ none

theorem reported_eq_of_ne_none (h : s.health ≠ none) : s.health = some s.reported := by
  cases hhealth : s.health with
  | none => exact absurd hhealth h
  | some v => rw [reported, hhealth, Option.getD_some]

theorem marked_eq (h : Orderly infos) : marked infos = infos.map fun s => some s.reported := by
  induction infos with
  | nil => rfl
  | cons s rest ih =>
    obtain ⟨hfirst, hrest⟩ := List.pairwise_cons.mp h
    rw [marked, List.map_cons]
    cases hhealthy : s.healthy with
    | true => rw [if_pos rfl, ih hrest]
    | false =>
      rw [if_neg (by decide)]
      refine congrArg _ (List.map_congr_left fun t ht => ?_)
      exact reported_eq_of_ne_none (hfirst t ht hhealthy)

theorem orderly_of_marked (h : ∀ health ∈ marked infos, health ≠ none) : Orderly infos := by
  induction infos with
  | nil => exact .nil
  | cons s rest ih =>
    rw [marked, List.forall_mem_cons] at h
    refine List.pairwise_cons.mpr ⟨fun t ht hhealthy => ?_, ?_⟩
    · rw [hhealthy, if_neg (by decide)] at h
      exact h.2 _ (List.mem_map_of_mem ht)
    · cases hhealthy : s.healthy with
      | true =>
        rw [hhealthy, if_pos rfl] at h
        exact ih h.2
      | false =>
        rw [hhealthy, if_neg (by decide), List.forall_mem_map] at h
        exact List.pairwise_of_forall_mem_list fun _ _ t ht _ => h.2 t ht

/-- The first service that is not healthy is marked so. -/
theorem all_healthy_iff :
    infos.all ServiceInfo.healthy = true ↔
      ∀ health ∈ marked infos, health = some (.str "healthy") := by
  induction infos with
  | nil => simp [marked]
  | cons s rest ih =>
    rw [List.all_cons, Bool.and_eq_true, marked, List.forall_mem_cons]
    have hfirst : s.healthy = true ↔ some s.reported = some (.str "healthy") := by
      rw [healthy, decide_eq_true_eq, Option.some.injEq]
    rw [← hfirst]
    refine and_congr_right fun hhealthy => ?_
    rw [hhealthy, if_pos rfl]
    exact ih

theorem length_marked (infos : List ServiceInfo) : (marked infos).length = infos.length := by
  induction infos with
  | nil => rfl
  | cons s rest ih =>
    rw [marked, List.length_cons, List.length_cons]
    split
    · rw [ih]
    · rw [List.length_map]

/-! ## Apps -/

def DescribesApp (infos : List ServiceInfo) (app : Json) : Prop :=
  ∃ services, app.index "services" = .ok services ∧ List.Forall₂ Describes infos services.values

/-- The engine's answer, app by app. -/
def DescribesApps (infos : List (String × List ServiceInfo)) (apps : Json) : Prop :=
  List.Forall₂ (fun info entry => info.1 = entry.1 ∧ DescribesApp info.2 entry.2) infos apps.entries

/-- The entry of an app after its check. -/
structure Checked (infos : List ServiceInfo) (app : Json) : Prop where
  services : ∃ services, app.index "services" = .ok services ∧
    List.Forall₂ HasHealth (marked infos) services.values
  state : app.index "state" =
    .ok (.str (if infos.all ServiceInfo.healthy then "healthy" else "unhealthy"))

/-- The last step of a check leaves the rest. -/
theorem exists_addUri (h : Checked infos app) :
    ∃ app', addUri app = .ok app' ∧ Checked infos app' := by
  obtain ⟨found, hfind⟩ := Json.find_returns h.state "uri"
  obtain ⟨app', hinsert⟩ := Json.insert_returns h.state (.str "") "uri"
  obtain ⟨services, hindex, hall⟩ := h.services
  unfold addUri
  rw [Json.isMember_of_find hfind, ok_bind]
  split
  · exact ⟨app, rfl, h⟩
  · refine ⟨app', hinsert, ⟨services, ?_, hall⟩, ?_⟩
    · rw [Json.index_insert_of_ne hinsert (by decide), hindex]
    · rw [Json.index_insert_of_ne hinsert (by decide), h.state]

/-- The state was set to healthy before the loop. -/
theorem exists_markState {app services : Json} (hservices : app.index "services" = .ok services)
    (hstate : app.index "state" = .ok (.str "healthy")) (healthy : Bool) :
    ∃ app', markState app healthy = .ok app' ∧ app'.index "services" = .ok services ∧
      app'.index "state" = .ok (.str (if healthy then "healthy" else "unhealthy")) := by
  cases healthy with
  | true => exact ⟨app, rfl, hservices, hstate⟩
  | false =>
    obtain ⟨app', hinsert⟩ := Json.insert_returns hservices (.str "unhealthy") "state"
    refine ⟨app', hinsert, ?_, Json.index_of_find (Json.find_insert_self hinsert)⟩
    rw [Json.index_insert_of_ne hinsert (by decide), hservices]

theorem checkApp_eq (h : DescribesApp infos app) :
    ∃ app', checkApp app = .ok app' ∧ Checked infos app' := by
  obtain ⟨services, hservices, hall⟩ := h
  obtain ⟨app₁, u, htouch⟩ := Json.touch_returns hservices
  obtain rfl : services = u := Except.ok.inj (hservices.symm.trans (Json.index_of_touch htouch))
  have hindex := (Json.index_touch htouch "services").trans hservices
  obtain ⟨app₂, hinsert₂⟩ := Json.insert_returns hindex (.str "healthy") "state"
  have hstate₂ := Json.index_of_find (Json.find_insert_self hinsert₂)
  obtain ⟨values, hloop, hvalues⟩ := checkServices_eq hall
  obtain ⟨app₃, hinsert₃⟩ := Json.insert_returns hstate₂ (services.withValues values) "services"
  have hservices₃ := Json.index_of_find (Json.find_insert_self hinsert₃)
  have hstate₃ := (Json.index_insert_of_ne hinsert₃ (by decide)).trans hstate₂
  obtain ⟨app₄, hmark, hservices₄, hstate₄⟩ :=
    exists_markState hservices₃ hstate₃ (infos.all ServiceInfo.healthy)
  have hlength : values.length = services.values.length := by
    rw [← hvalues.length_eq, length_marked, hall.length_eq]
  have hchecked : Checked infos app₄ := by
    refine ⟨⟨_, hservices₄, ?_⟩, hstate₄⟩
    rwa [Option.getD_some, Json.values_withValues hlength]
  obtain ⟨app₅, huri, hchecked₅⟩ := exists_addUri hchecked
  refine ⟨app₅, ?_, hchecked₅⟩
  unfold checkApp
  rw [htouch, ok_bind]
  dsimp only
  rw [hinsert₂, ok_bind, hloop, ok_bind]
  dsimp only
  rw [hinsert₃, ok_bind, hmark, ok_bind, huri]

/-- Every service of the app has a health, and the app is healthy if all of them are. -/
def AppReported (infos : List ServiceInfo) (app : Json) : Prop :=
  ∃ services, app.index "services" = .ok services ∧
    List.Forall₂ (fun s => HasHealth (some s.reported)) infos services.values ∧
    (app.index "state" = .ok (.str "healthy") ↔
      ∀ service ∈ services.values, service.index "health" = .ok (.str "healthy"))

theorem leftUnique_health : Relator.LeftUnique HasHealth :=
  fun _ _ _ h h' => Except.ok.inj (h.symm.trans h')

theorem forall_healthy_iff {healths : List (Option Json)} {services : List Json}
    (h : List.Forall₂ HasHealth healths services) :
    (∀ service ∈ services, service.index "health" = .ok (.str "healthy")) ↔
      ∀ health ∈ healths, health = some (.str "healthy") := by
  induction h with
  | nil => simp
  | @cons health service _ _ hfind _ ih =>
    rw [List.forall_mem_cons, List.forall_mem_cons, ih, Json.index_of_find hfind]
    refine and_congr_left fun _ => ?_
    cases health with
    | none => simp
    | some v => simp

/-- The mark of the app is right in every case. -/
theorem Checked.state_iff {app services : Json} (h : Checked infos app)
    (hall : List.Forall₂ HasHealth (marked infos) services.values) :
    app.index "state" = .ok (.str "healthy") ↔
      ∀ service ∈ services.values, service.index "health" = .ok (.str "healthy") := by
  rw [forall_healthy_iff hall, ← all_healthy_iff, h.state]
  cases infos.all ServiceInfo.healthy with
  | false => simp
  | true => simp

theorem appReported_iff (h : Checked infos app) : AppReported infos app ↔ Orderly infos := by
  obtain ⟨services, hservices, hall⟩ := h.services
  constructor
  · rintro ⟨services', hservices', hreported, _⟩
    obtain rfl := Except.ok.inj (hservices.symm.trans hservices')
    have hmarked : marked infos = infos.map fun s => some s.reported :=
      List.left_unique_forall₂' leftUnique_health hall (List.forall₂_map_left_iff.mpr hreported)
    refine orderly_of_marked ?_
    rw [hmarked, List.forall_mem_map]
    exact fun _ _ => Option.some_ne_none _
  · intro horderly
    refine ⟨services, hservices, ?_, h.state_iff hall⟩
    rwa [marked_eq horderly, List.forall₂_map_left_iff] at hall

/-- The report on the apps of the engine. -/
def HealthReported (infos : List (String × List ServiceInfo)) (report : Json) : Prop :=
  ∃ apps, report.find "apps" = .ok (some apps) ∧
    List.Forall₂ (fun info entry => info.1 = entry.1 ∧ AppReported info.2 entry.2) infos
      apps.entries

theorem forall_appReported_iff {infos : List (String × List ServiceInfo)}
    {entries : List (String × Json)}
    (h : List.Forall₂ (fun info entry => info.1 = entry.1 ∧ Checked info.2 entry.2) infos entries) :
    List.Forall₂ (fun info entry => info.1 = entry.1 ∧ AppReported info.2 entry.2) infos entries ↔
      ∀ app ∈ infos, Orderly app.2 := by
  induction h with
  | nil => simp
  | cons hfirst _ ih =>
    rw [List.forall₂_cons, List.forall_mem_cons, ih, appReported_iff hfirst.2]
    exact and_congr_left fun _ => and_iff_right hfirst.1

/-- All apps are checked. -/
theorem getAppsState_eq {infos : List (String × List ServiceInfo)} {apps : Json}
    (h : DescribesApps infos apps) (hash now : String) :
    ∃ apps', getAppsState (.ok apps) (.ok hash) now =
        .obj [("deviceTime", .str now), ("ostree", .str hash), ("apps", apps')] ∧
      List.Forall₂ (fun info entry => info.1 = entry.1 ∧ Checked info.2 entry.2) infos
        apps'.entries := by
  obtain ⟨apps', hmap, hchecked⟩ := Json.exists_mapValues
    (Q := fun info entry => info.1 = entry.1 ∧ Checked info.2 entry.2) h
    fun info entry hentry => by
      obtain ⟨app', hcheck, hchecked⟩ := checkApp_eq hentry.2
      exact ⟨app', hcheck, hentry.1, hchecked⟩
  refine ⟨apps', ?_, hchecked⟩
  unfold getAppsState
  rw [ok_bind, hmap]
  rfl

theorem healthReported_iff {infos : List (String × List ServiceInfo)} {apps : Json}
    (h : DescribesApps infos apps) (hash now : String) :
    HealthReported infos (getAppsState (.ok apps) (.ok hash) now) ↔
      ∀ app ∈ infos, Orderly app.2 := by
  obtain ⟨apps', hreport, hchecked⟩ := getAppsState_eq h hash now
  rw [← forall_appReported_iff hchecked, hreport]
  constructor
  · rintro ⟨apps'', hfind, hall⟩
    cases hfind
    exact hall
  · intro hall
    exact ⟨apps', rfl, hall⟩

/-! ## Engines on the docker daemon -/

theorem exists_forall₂ {α β : Type} {R : α → β → Prop} {l : List β} (h : ∀ b ∈ l, ∃ a, R a b) :
    ∃ as, List.Forall₂ R as l := by
  induction l with
  | nil => exact ⟨[], .nil⟩
  | cons b l ih =>
    obtain ⟨⟨a, ha⟩, hl⟩ := List.forall_mem_cons.mp h
    obtain ⟨as, has⟩ := ih hl
    exact ⟨a :: as, .cons ha has⟩

/-- The docker client gives every service a health. -/
theorem exists_infos {env : Docker.DockerClient.ClientEnv} {done : List Json} {apps : Json}
    (h : Docker.DockerClient.Lists env done apps) :
    ∃ infos, DescribesApps infos apps ∧ ∀ app ∈ infos, ∀ s ∈ app.2, s.health ≠ none := by
  have hservice : ∀ {container service : Json},
      Docker.DockerClient.ServiceOf env container service →
      ∃ s : ServiceInfo, s.health ≠ none ∧ s.Describes service := by
    rintro container service ⟨state, status, health, _, _, _, hfind, hstate⟩
    refine ⟨⟨some (.str health), state, 0⟩, by simp, hfind, ⟨_, hstate, rfl⟩, fun hnone => ?_⟩
    cases hnone
  have happ : ∀ entry ∈ apps.entries, ∃ info : String × List ServiceInfo,
      (∀ s ∈ info.2, s.health ≠ none) ∧ info.1 = entry.1 ∧ DescribesApp info.2 entry.2 := by
    intro entry hentry
    obtain ⟨services, hservices, hsound⟩ := h.sound entry hentry
    obtain ⟨infos, hinfos⟩ := exists_forall₂ fun service hmem => by
      obtain ⟨container, _, _, hattributes⟩ := hsound service hmem
      exact hservice (Docker.DockerClient.serviceOf_eq_ok hattributes)
    obtain ⟨hhealth, hdescribes⟩ := (List.forall₂_and_left _ _).mp hinfos
    refine ⟨(entry.1, infos), hhealth, rfl, _, hservices, ?_⟩
    rwa [Json.values_arr]
  obtain ⟨infos, hinfos⟩ := exists_forall₂ happ
  obtain ⟨hhealth, hdescribes⟩ := (List.forall₂_and_left _ _).mp hinfos
  exact ⟨infos, hdescribes, hhealth⟩

theorem orderly_of_health (h : ∀ s ∈ infos, s.health ≠ none) : Orderly infos :=
  List.pairwise_of_forall_mem_list fun _ _ t ht _ => h t ht

/-- The report is right exactly if no service that the engine gave no health comes after one
that is not healthy.  With the docker client there is no such service. -/
theorem apps_health_iff (infos : List (String × List ServiceInfo)) (apps : Json) (hash now : String)
    (h : DescribesApps infos apps) :
    (HealthReported infos (getAppsState (.ok apps) (.ok hash) now) ↔
      ∀ app ∈ infos, Orderly app.2) ∧
    ∀ env states containers dockerApps,
      Docker.DockerClient.getRunningApps env states containers = .ok dockerApps →
        Docker.DockerClient.Lists env containers.values.reverse dockerApps ∧
        ∃ dockerInfos, DescribesApps dockerInfos dockerApps ∧
          HealthReported dockerInfos (getAppsState (.ok dockerApps) (.ok hash) now) := by
  refine ⟨healthReported_iff h hash now, fun env states containers dockerApps hdocker => ?_⟩
  have hlists := Docker.DockerClient.lists_getRunningApps hdocker
  obtain ⟨dockerInfos, hdescribes, hhealth⟩ := exists_infos hlists
  refine ⟨hlists, dockerInfos, hdescribes, (healthReported_iff hdescribes hash now).mpr ?_⟩
  exact fun app happ => orderly_of_health (hhealth app happ)

/-- A service that has exited with an error is the last one. -/
def exitedApps : Json :=
  .obj [("web", .obj [("services", .arr [.obj [("state", .str "running")],
    .obj [("state", .str "exited"), ("status", .str "Exited (1) 2 days ago")]])])]

theorem exited_last_reported :
    HealthReported [("web", [⟨none, "running", 0⟩, ⟨none, "exited", 1⟩])]
      (getAppsState (.ok exitedApps) (.ok "aa") "now") := by
  have hrunning : Describes ⟨none, "running", 0⟩ (.obj [("state", .str "running")]) :=
    ⟨rfl, ⟨_, rfl, rfl⟩, fun _ hexited => absurd hexited (by decide)⟩
  have hexited : Describes ⟨none, "exited", 1⟩
      (.obj [("state", .str "exited"), ("status", .str "Exited (1) 2 days ago")]) :=
    ⟨rfl, ⟨_, rfl, rfl⟩, fun _ _ => ⟨_, _, rfl, rfl, "2 days ago", by decide, by decide⟩⟩
  refine (apps_health_iff _ exitedApps "aa" "now" ?_).1.mpr ?_
  · exact .cons ⟨rfl, _, rfl, .cons hrunning (.cons hexited .nil)⟩ .nil
  · intro app happ
    rw [List.mem_singleton.mp happ]
    exact .cons (fun t _ h => absurd h (by decide)) (.cons (fun t ht => by cases ht) .nil)

/-- A service that is running comes after a dead one. -/
def deadApps : Json :=
  .obj [("web", .obj [("services", .arr [.obj [("state", .str "dead")],
    .obj [("state", .str "running")]])])]

/-- It has no health in the report. -/
theorem no_health_after_dead :
    DescribesApps [("web", [⟨none, "dead", 0⟩, ⟨none, "running", 0⟩])] deadApps ∧
      ¬HealthReported [("web", [⟨none, "dead", 0⟩, ⟨none, "running", 0⟩])]
        (getAppsState (.ok deadApps) (.ok "aa") "now") := by
  have hservice (state : String) (h : state ≠ "exited") :
      Describes ⟨none, state, 0⟩ (.obj [("state", .str state)]) :=
    ⟨rfl, ⟨_, rfl, rfl⟩, fun _ hexited => absurd hexited h⟩
  have hdescribes : DescribesApps [("web", [⟨none, "dead", 0⟩, ⟨none, "running", 0⟩])] deadApps :=
    .cons ⟨rfl, _, rfl, .cons (hservice "dead" (by decide))
      (.cons (hservice "running" (by decide)) .nil)⟩ .nil
  refine ⟨hdescribes, fun h => ?_⟩
  have horderly := (healthReported_iff hdescribes "aa" "now").mp h _ List.mem_cons_self
  exact List.rel_of_pairwise_cons horderly List.mem_cons_self rfl rfl

end Client
end AkLite
