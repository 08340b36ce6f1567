/-
The event at the end of a metadata update.

The versions of the roles and the target list are taken down before an update and compared
after it.  The loop over the roles sets `was_updated` anew for each of them, so that the role
it visits last decides alone, and the target lists are compared only if that role has changed.
`metadata_event_iff` says when the event is right nevertheless.
-/
import AkLite.Lib.Json
import AkLite.Target
import Mathlib.Data.List.Perm.Basic

namespace AkLite
namespace Client
namespace TufUpdate

open Lib

/-! ## The stored metadata -/

inductive Role where
  | root
  | snapshot
  | targets
  | timestamp
  deriving DecidableEq, Repr

/-- The roles in the order of their names. -/
def Role.all : List Role := [.root, .snapshot, .targets, .timestamp]

def Role.name : Role → String
  | .root => "root"
  | .snapshot => "snapshot"
  | .targets => "targets"
  | .timestamp => "timestamp"

theorem Role.mem_all (role : Role) : role ∈ Role.all := by
  cases role <;> decide

/-- The last root, and the metadata of the other roles. -/
structure Stored where
  loadRoot : Option String
  loadNonRoot : Role → Option String

structure Targets (T : Type) where
  isInitialized : Bool
  targets : List T

/-- The library: the version in a text, the target list in a value, and the comparison of
lists.  A text that is no JSON reads as null. -/
structure MetaLib (T : Type) where
  extractVersionUntrusted : String → Int
  parseJSON : String → Json
  targets : Json → Except String (Targets T)
  matchTargetVector : List T → List T → Bool

variable {T : Type}

/-- What `forEachRoleVersion` passes on for a role. -/
def roleVersion (lib : MetaLib T) (s : Stored) (role : Role) : Int :=
  let loaded := if role = .root then s.loadRoot else s.loadNonRoot role
  match loaded with
  | some text => lib.extractVersionUntrusted text
  | none => -1

def getTargetList (lib : MetaLib T) (s : Stored) : Option (Targets T) :=
  match s.loadNonRoot .targets with
  | none => none
  | some text =>
    match lib.parseJSON text with
    | .obj fields =>
      if fields.isEmpty then none
      else
        match lib.targets (.obj fields) with
        | .ok targets => some targets
        | .error _ => none
    | _ => none

/-! ## The two notifications -/

structure Diff where
  fromVersion : Int
  toVersion : Int

/-- `tuf_update_details_` and `targets_`. -/
structure Tracker (T : Type) where
  details : Role → Diff
  targets : Option (Targets T)

/-- `MetadataUpdateCompletedReport`. -/
structure UpdateReport where
  target : Target
  success : Bool
  details : String

def startRole (lib : MetaLib T) (s : Stored) (details : Role → Diff) (role : Role) : Role → Diff :=
  Function.update details role { details role with fromVersion := roleVersion lib s role }

def notifyTufUpdateStarted (lib : MetaLib T) (roles : List Role) (s : Stored) (c : Tracker T) :
    Tracker T :=
  { details := roles.foldl (startRole lib s) c.details, targets := getTargetList lib s }

/-- One round of the loop over the roles, with `was_updated`. -/
def finishRole (lib : MetaLib T) (s : Stored) (acc : (Role → Diff) × Bool) (role : Role) :
    (Role → Diff) × Bool :=
  let d : Diff := { acc.1 role with toVersion := roleVersion lib s role }
  (Function.update acc.1 role d, d.fromVersion ≠ d.toVersion)

/-- The comparison of the target lists. -/
def targetsUpdated (lib : MetaLib T) (old new : Option (Targets T)) (wasUpdated : Bool) : Bool :=
  match old, new with
  | some old, some new =>
    if wasUpdated && old.isInitialized && new.isInitialized then
      !lib.matchTargetVector new.targets old.targets
    else wasUpdated
  | _, _ => wasUpdated

def diffText (details : Role → Diff) (role : Role) : String :=
  let text := role.name ++ ": " ++ toString (details role).fromVersion
  if (details role).fromVersion ≠ (details role).toVersion then
    text ++ " -> " ++ toString (details role).toVersion
  else text

def detailsText (details : Role → Diff) (wasUpdated : Bool) (err : String) : String :=
  let text :=
    if err ≠ "" ∨ wasUpdated then "; ".intercalate (Role.all.map (diffText details)) else ""
  if err ≠ "" then text ++ "; err: " ++ err else text

/-- `uninitialized` is what `was_updated` holds before the loop, and `current` the target of the
device. -/
def notifyTufUpdateFinished (lib : MetaLib T) (roles : List Role) (s : Stored) (err : String)
    (t current : Target) (uninitialized : Bool) (c : Tracker T) :
    Tracker T × Option UpdateReport :=
  let (details, wasUpdated) := roles.foldl (finishRole lib s) (c.details, uninitialized)
  let wasUpdated := targetsUpdated lib c.targets (getTargetList lib s) wasUpdated
  let text := detailsText details wasUpdated err
  ({ c with details := details },
    if text ≠ "" then
      some { target := if t.isValid then t else current, success := err = "", details := text }
    else none)

/-! ## What is to be shown -/

/-- The target list, if it can be loaded. -/
def loadedTargets (lib : MetaLib T) (s : Stored) : Option (List T) :=
  match getTargetList lib s with
  | some targets => if targets.isInitialized then some targets.targets else none
  | none => none

/-- The target lists differ if both can be loaded, and otherwise the version of some role. -/
def UpdateDue (lib : MetaLib T) (before after : Stored) : Prop :=
  match loadedTargets lib before, loadedTargets lib after with
  | some old, some new => lib.matchTargetVector new old = false
  | _, _ => ∃ role, roleVersion lib before role ≠ roleVersion lib after role

/-- An update without an error ends with an event. -/
def EventSent (lib : MetaLib T) (roles : List Role) (before after : Stored) (t current : Target)
    (uninitialized : Bool) (c : Tracker T) : Prop :=
  (notifyTufUpdateFinished lib roles after "" t current uninitialized
    (notifyTufUpdateStarted lib roles before c)).2.isSome = true

/-! ## The loops -/

section Loops

variable {lib : MetaLib T} {s : Stored}

theorem startRole_self (details : Role → Diff) (role : Role) :
    (startRole lib s details role role).fromVersion = roleVersion lib s role := by
  rw [startRole, Function.update_self]

/-- A version that has been taken down stays. -/
theorem foldl_startRole_keeps {details : Role → Diff} {role : Role}
    (h : (details role).fromVersion = roleVersion lib s role) (roles : List Role) :
    (roles.foldl (startRole lib s) details role).fromVersion = roleVersion lib s role := by
  induction roles generalizing details with
  | nil => exact h
  | cons first rest ih =>
    refine ih ?_
    by_cases hrole : role = first
    · rw [hrole, startRole_self]
    · rw [startRole, Function.update_of_ne hrole, h]

theorem foldl_startRole {roles : List Role} {role : Role} (h : role ∈ roles)
    (details : Role → Diff) :
    (roles.foldl (startRole lib s) details role).fromVersion = roleVersion lib s role := by
  induction roles generalizing details with
  | nil => cases h
  | cons first rest ih =>
    by_cases hrole : role = first
    · rw [hrole]
      exact foldl_startRole_keeps (startRole_self details first) rest
    · exact ih ((List.mem_cons.mp h).resolve_left hrole) _

/-- The second loop leaves what was taken down. -/
theorem foldl_finishRole_fromVersion (roles : List Role) (acc : (Role → Diff) × Bool)
    (role : Role) :
    ((roles.foldl (finishRole lib s) acc).1 role).fromVersion = (acc.1 role).fromVersion := by
  induction roles generalizing acc with
  | nil => rfl
  | cons first rest ih =>
    rw [List.foldl_cons, ih]
    dsimp only [finishRole]
    by_cases hrole : role = first
    · rw [hrole, Function.update_self]
    · rw [Function.update_of_ne hrole]

/-- The last role decides. -/
theorem foldl_finishRole_snd (roles : List Role) (last : Role) (acc : (Role → Diff) × Bool) :
    ((roles ++ [last]).foldl (finishRole lib s) acc).2 =
      decide ((acc.1 last).fromVersion ≠ roleVersion lib s last) := by
  rw [List.foldl_append]
  dsimp only [List.foldl, finishRole]
  rw [foldl_finishRole_fromVersion]

end Loops

/-! ## The event -/

theorem detailsText_ne (details : Role → Diff) (wasUpdated : Bool) :
    detailsText details wasUpdated "" ≠ "" ↔ wasUpdated = true := by
  cases wasUpdated with
  | false => simp [detailsText]
  | true =>
    have htext : detailsText details true "" = diffText details .root ++ "; " ++
        diffText details .snapshot ++ "; " ++ diffText details .targets ++ "; " ++
        diffText details .timestamp := by
      rfl
    refine iff_of_true (fun h => ?_) rfl
    have hlength := congrArg String.length (htext.symm.trans h)
    simp only [String.length_append] at hlength
    have hseparator : "; ".length = 2 := by
      decide
    have hempty : "".length = 0 := by
      decide
    omega

theorem targetsUpdated_iff {lib : MetaLib T} {before after : Stored} {wasUpdated : Bool}
    (h : wasUpdated = true → ∃ role, roleVersion lib before role ≠ roleVersion lib after role) :
    targetsUpdated lib (getTargetList lib before) (getTargetList lib after) wasUpdated = true ↔
      wasUpdated = true ∧ UpdateDue lib before after := by
  have hversions : wasUpdated = true ↔ wasUpdated = true ∧
      ∃ role, roleVersion lib before role ≠ roleVersion lib after role :=
    ⟨fun hupdated => ⟨hupdated, h hupdated⟩, fun hboth => hboth.1⟩
  unfold targetsUpdated UpdateDue loadedTargets
  cases getTargetList lib before with
  | none => exact hversions
  | some old =>
    obtain ⟨oldInitialized, old⟩ := old
    cases getTargetList lib after with
    | none =>
      cases oldInitialized with
      | false => exact hversions
      | true => exact hversions
    | some new =>
      obtain ⟨newInitialized, new⟩ := new
      -- only two lists that can be loaded are compared
      cases oldInitialized with
      | false => simpa using hversions
      | true =>
        cases newInitialized with
        | false => simpa using hversions
        | true =>
          cases wasUpdated with
          | false => simp
          | true => simp

theorem eventSent_iff {lib : MetaLib T} {roles : List Role} {before after : Stored} {last : Role}
    {t current : Target} {uninitialized : Bool} {c : Tracker T} :
    EventSent lib (roles ++ [last]) before after t current uninitialized c ↔
      roleVersion lib before last ≠ roleVersion lib after last ∧ UpdateDue lib before after := by
  have hstart : ((roles ++ [last]).foldl (startRole lib before) c.details last).fromVersion =
      roleVersion lib before last :=
    foldl_startRole (List.mem_append_right roles (List.mem_singleton_self last)) c.details
  have hfinish : ((roles ++ [last]).foldl (finishRole lib after)
      ((roles ++ [last]).foldl (startRole lib before) c.details, uninitialized)).2 =
      decide (roleVersion lib before last ≠ roleVersion lib after last) := by
    rw [foldl_finishRole_snd, hstart]
  unfold EventSent notifyTufUpdateFinished notifyTufUpdateStarted
  dsimp only
  rw [Option.isSome_ite, detailsText_ne, hfinish, targetsUpdated_iff, decide_eq_true_eq]
  exact fun hdiffers => ⟨last, of_decide_eq_true hdiffers⟩

/-- For one order of the roles, the event is right if it is not due or the last role has
changed. -/
theorem eventSent_iff_due {lib : MetaLib T} {roles : List Role} {before after : Stored}
    {last : Role} {t current : Target} {uninitialized : Bool} {c : Tracker T} :
    (EventSent lib (roles ++ [last]) before after t current uninitialized c ↔
        UpdateDue lib before after) ↔
      (UpdateDue lib before after → roleVersion lib before last ≠ roleVersion lib after last) := by
  rw [eventSent_iff, and_iff_right_iff_imp]

theorem exists_order (last : Role) : ∃ roles, (roles ++ [last]).Perm Role.all := by
  refine ⟨Role.all.erase last, ?_⟩
  have hperm := (List.perm_cons_erase last.mem_all).symm
  exact (List.perm_append_singleton last _).trans hperm

/-- The event is right in every order of the roles exactly if it is not due, or all roles have
changed.  In one order the last role counts. -/
theorem metadata_event_iff (lib : MetaLib T) (before after : Stored) (t current : Target)
    (uninitialized : Bool) (c : Tracker T) :
    ((∀ roles, roles.Perm Role.all →
        (EventSent lib roles before after t current uninitialized c ↔
          UpdateDue lib before after)) ↔
      (UpdateDue lib before after →
        ∀ role, roleVersion lib before role ≠ roleVersion lib after role)) ∧
    ∀ roles last, (roles ++ [last]).Perm Role.all →
      ((EventSent lib (roles ++ [last]) before after t current uninitialized c ↔
          UpdateDue lib before after) ↔
        (UpdateDue lib before after →
          roleVersion lib before last ≠ roleVersion lib after last)) := by
  refine ⟨⟨fun h hdue role => ?_, fun h roles hroles => ?_⟩, fun roles last _ => eventSent_iff_due⟩
  · obtain ⟨roles, hroles⟩ := exists_order role
    exact eventSent_iff_due.mp (h _ hroles) hdue
  · have hne : roles ≠ [] := by
      intro hnil
      rw [hnil] at hroles
      exact absurd hroles.length_eq (by decide)
    rw [← List.dropLast_append_getLast hne]
    exact eventSent_iff_due.mpr fun hdue => h hdue _

/-- A library for which one text is newer than the others. -/
def sampleLib : MetaLib Json where
  extractVersionUntrusted text := if text = "newer" then 2 else 1
  parseJSON text := .obj [("signed", .str text)]
  targets json := .ok ⟨true, [json]⟩
  matchTargetVector v w := v == w

def sampleTarget : Target :=
  { filename := "target", sha256Hash := "aa", custom := .null, correlationId := "",
    isValid := true }

/-- After a switch to another tag the target list has changed, but no version, and after a
rotation of the root only its version.  There is no event for either. -/
theorem tag_switch_unnoticed :
    (UpdateDue sampleLib ⟨some "root", fun _ => some "main"⟩ ⟨some "root", fun _ => some "tag"⟩ ∧
      (notifyTufUpdateFinished sampleLib Role.all ⟨some "root", fun _ => some "tag"⟩ "" sampleTarget
        sampleTarget false (notifyTufUpdateStarted sampleLib Role.all
          ⟨some "root", fun _ => some "main"⟩ ⟨fun _ => ⟨0, 0⟩, none⟩)).2.isSome = false) ∧
    UpdateDue sampleLib ⟨some "root", fun _ => none⟩ ⟨some "newer", fun _ => none⟩ ∧
      (notifyTufUpdateFinished sampleLib Role.all ⟨some "newer", fun _ => none⟩ "" sampleTarget
        sampleTarget false (notifyTufUpdateStarted sampleLib Role.all
          ⟨some "root", fun _ => none⟩ ⟨fun _ => ⟨0, 0⟩, none⟩)).2.isSome = false := by
  refine ⟨⟨?_, by decide +kernel⟩, ⟨.root, ?_⟩, by decide +kernel⟩
  · show sampleLib.matchTargetVector _ _ = false
    decide
  · decide

end TufUpdate
end Client
end AkLite
