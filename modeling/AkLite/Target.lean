/-
Targets.

`Target` is the library's `Uptane::Target` and `TufTarget` the form the public
API hands out.  Both keep the custom JSON data, from which the app list and the
hardware ID are read.  The conversions between the two are `toTufTarget`, which
parses the version as `std::stoi` with base zero does, and `fromTufTarget`.

`styled` is the JSON printer, which is used for one error text.
-/
import AkLite.Lib.Json

namespace AkLite

open Lib

/-- The fields of `Uptane::Target` that the client reads. -/
structure Target where
  filename : String
  sha256Hash : String
  custom : Json
  correlationId : String
  isValid : Bool
  deriving Repr, BEq, DecidableEq, Inhabited

/-- `aklite::TufTarget`. -/
structure TufTarget where
  name : String
  sha256Hash : String
  version : Int
  custom : Json
  deriving Repr, BEq, DecidableEq, Inhabited

/-- The default-constructed `TufTarget`. -/
def TufTarget.unknown : TufTarget :=
  { name := "unknown", sha256Hash := "", version := -1, custom := .null }

def TufTarget.isUnknown (t : TufTarget) : Bool := t.name == "unknown"

/-! ## Version numbers -/

/-- The outcomes of `std::stoi`. -/
inductive Stoi where
  | value (n : Int)
  | invalidArgument
  | outOfRange
  deriving DecidableEq, Repr

def isSpace (c : Char) : Bool := c == ' ' || ('\t' ≤ c && c ≤ '\r')

def digitValue (c : Char) : Nat :=
  if '0' ≤ c ∧ c ≤ '9' then c.toNat - '0'.toNat
  else if 'a' ≤ c ∧ c ≤ 'f' then c.toNat - 'a'.toNat + 10
  else if 'A' ≤ c ∧ c ≤ 'F' then c.toNat - 'A'.toNat + 10
  else 16

/-- The digits at the start of a text in the given base. -/
def leadingDigits (base : Nat) (s : List Char) : List Nat :=
  (s.takeWhile fun c => decide (digitValue c < base)).map digitValue

/-- The base a numeral announces, and its digits. -/
def numeral : List Char → Nat × List Nat
  | '0' :: x :: rest =>
    if (x = 'x' ∨ x = 'X') ∧ leadingDigits 16 rest ≠ [] then (16, leadingDigits 16 rest)
    else (8, leadingDigits 8 ('0' :: x :: rest))
  | s => if s = ['0'] then (8, [0]) else (10, leadingDigits 10 s)

def stoi (text : String) : Stoi :=
  let s := text.toList.dropWhile isSpace
  let negative := s.head? == some '-'
  let s := if negative || s.head? == some '+' then s.tail else s
  let (base, digits) := numeral s
  if digits = [] then .invalidArgument
  else
    let magnitude : Int := (digits.foldl (fun acc d => acc * base + d) 0 : Nat)
    let n := if negative then -magnitude else magnitude
    if Json.minInt ≤ n ∧ n ≤ Json.maxInt then .value n else .outOfRange

example : stoi " 0x1f-rc" = .value 31 := by decide

/-- The library's accessor, which hides a malformed version. -/
def Target.customVersion (t : Target) : String :=
  match t.custom.index "version" with
  | .ok v => v.asString.toOption.getD ""
  | .error _ => ""

/-! ## Conversions -/

def initialTarget : String := "Initial Target"

def Target.isInitial (t : Target) : Bool := t.filename == initialTarget

/-- A version that is no number is minus one.  One that does not fit an `int` is an
exception. -/
def toTufTarget (t : Target) : Except String TufTarget :=
  if t.isInitial then
    .ok { name := t.filename, sha256Hash := t.sha256Hash, version := -1, custom := t.custom }
  else
    match stoi t.customVersion with
    | .value n =>
      .ok { name := t.filename, sha256Hash := t.sha256Hash, version := n, custom := t.custom }
    | .invalidArgument =>
      .ok { name := t.filename, sha256Hash := t.sha256Hash, version := -1, custom := t.custom }
    | .outOfRange => .error "stoi"

def fromTufTarget (t : TufTarget) : Target :=
  { filename := t.name, sha256Hash := t.sha256Hash, custom := t.custom, correlationId := "",
    isValid := true }

@[simp]
theorem fromTufTarget_sha256Hash (t : TufTarget) :
    (fromTufTarget t).sha256Hash = t.sha256Hash := rfl

/-- The name, the hash and the custom data survive the conversion. -/
@[simp]
theorem fromTufTarget_custom (t : TufTarget) : (fromTufTarget t).custom = t.custom := rfl

theorem toTufTarget_fields {t : Target} {u : TufTarget} (h : toTufTarget t = .ok u) :
    u.name = t.filename ∧ u.sha256Hash = t.sha256Hash ∧ u.custom = t.custom := by
  unfold toTufTarget at h
  by_cases hi : t.isInitial = true
  · rw [if_pos hi] at h
    cases h
    exact ⟨rfl, rfl, rfl⟩
  · rw [if_neg hi] at h
    cases hs : stoi t.customVersion <;> rw [hs] at h <;> cases h <;> exact ⟨rfl, rfl, rfl⟩

/-! ## Custom data -/

/-- The member `docker_compose_apps`, or null. -/
def appsJson (custom : Json) : Except String Json := custom.index "docker_compose_apps"

/-- One app of a target: its name and its URI. -/
def appDesc (styled : Json → String) (name : String) (json : Json) :
    Except String (String × String) := do
  let malformed := "Invalid format of App in Target json: " ++ styled json
  match json with
  | .obj fields =>
    match fields.lookup "uri" with
    | some uri => return (name, ← uri.asString)
    | none => .error malformed
  | _ => .error malformed

/-- The apps of a target in the order of its JSON. -/
def targetApps (styled : Json → String) (custom : Json) : Except String (List (String × String)) :=
  do (← appsJson custom).entries.mapM fun e => appDesc styled e.1 e.2

def TufTarget.hardwareId (t : TufTarget) : Except String String := do
  let ids ← t.custom.index "hardwareIds"
  if ids.isNull || ids.size != 1 then return ""
  (← ids.elem 0).asString

end AkLite
