/-
Boot firmware and the boot environment.

The boot environment is a set of variables that a bootloader's tools print and
set.  A print or set command that fails is part of the environment here; its
output goes to the log only and is left out.  The successful set commands are
recorded, the latest first.

A boot firmware version is known in three forms: as a variable, as a file of the
target's commit, and as the same file in the directory of the deployed target.
-/
import AkLite.Lib.Outcome

namespace AkLite
namespace Boot

inductive RollbackMode where
  | kBootloaderNone
  | kUbootGeneric
  | kUbootMasked
  | kFioVB
  | kFioEFI
  deriving DecidableEq, Repr

/-- `getCmds`: the command that prints a variable, empty if there is none. -/
def RollbackMode.getEnvCmd : RollbackMode → String
  | .kUbootMasked => "fw_printenv -n"
  | .kFioVB => "fiovb_printenv"
  | .kFioEFI => "fioefi_printenv"
  | _ => ""

/-- `setCmds`. -/
def RollbackMode.setEnvCmd : RollbackMode → String
  | .kUbootMasked => "fw_setenv"
  | .kFioVB => "fiovb_setenv"
  | .kFioEFI => "fioefi_setenv"
  | _ => ""

structure SetCmd where
  envCmdVars : String
  cmd : String
  name : String
  value : String
  deriving DecidableEq, Repr

/-- The variables with what the print command answers, whether the set command
works, and the variables set so far. -/
structure BootEnv where
  vars : String → Option String
  settable : Bool
  sets : List SetCmd

/-- What the boot firmware upgrade is triggered by. -/
def BootEnv.flagged (b : BootEnv) : Bool :=
  b.sets.any fun c => c.name == "bootupgrade_available" && c.value == "1"

/-! ## Text -/

/-- `boost::trim_if` with these characters. -/
def isBlank (c : Char) : Bool := c == ' ' || c == '\t' || c == '\r' || c == '\n'

def trim (s : String) : String :=
  String.ofList (((s.toList.dropWhile isBlank).reverse.dropWhile isBlank).reverse)

/-- The first position of a text in another. -/
def findText (text : List Char) : List Char → Option Nat
  | [] => if text = [] then some 0 else none
  | c :: rest =>
    if text.isPrefixOf (c :: rest) then some 0 else (findText text rest).map (· + 1)

def watermark : String := "bootfirmware_version"

/-- The version line without the watermark and the character behind it. -/
def extractVersionValue (versionLine : String) : Except String String :=
  match findText watermark.toList versionLine.toList with
  | none =>
    .error ("Failed to parse the bootloader version line; no \x60" ++ watermark ++
      "\x60 is found in \x60" ++ versionLine ++ "\x60")
  | some pos =>
    let line := versionLine.toList
    .ok (trim (String.ofList (line.take pos ++ line.drop (pos + watermark.toList.length + 1))))

example : extractVersionValue "bootfirmware_version=12\n" = .ok "12" := by decide

def isDigit (c : Char) : Bool := '0' ≤ c && c ≤ '9'

/-- The value of a text of decimal digits that fits 64 bits. -/
def digits (s : List Char) : Option Nat :=
  let value := s.foldl (fun acc c => acc * 10 + (c.toNat - '0'.toNat)) 0
  if s ≠ [] ∧ s.all isDigit ∧ value < UInt64.size then some value else none

/-- `boost::lexical_cast` to `uint64_t`.  A sign is accepted, and a negative number
wraps around. -/
def lexicalCast (s : String) : Option Nat :=
  match s.toList with
  | '+' :: rest => digits rest
  | '-' :: rest => (digits rest).map fun n => (UInt64.size - n) % UInt64.size
  | rest => digits rest

example : lexicalCast "007" = some 7 ∧ lexicalCast "1.2" = none := by decide

/-! ## Variables -/

section Variables

variable (mode : RollbackMode)

def getEnvVar (name : String) (b : BootEnv) : Option String :=
  if mode.getEnvCmd = "" then none else (b.vars name).map trim

/-- A variable that was set prints its new value. -/
def setEnvVar (envCmdVars name value : String) (b : BootEnv) : BootEnv :=
  if mode.setEnvCmd = "" ∨ b.settable = false then b
  else
    { b with
      vars := fun n => if n = name then some value else b.vars n
      sets := { envCmdVars := envCmdVars, cmd := mode.setEnvCmd, name := name, value := value } ::
        b.sets }

def isUpdateSupported : Bool := mode.getEnvCmd != ""

def isUpdateInProgress (b : BootEnv) : Bool :=
  isUpdateSupported mode && getEnvVar mode "bootupgrade_available" b == some "1"

def isRollbackProtectionEnabled (b : BootEnv) : Bool :=
  isUpdateSupported mode && getEnvVar mode "rollback_protection" b == some "1"

def getCurrentVersion (b : BootEnv) : Option String := getEnvVar mode "bootfirmware_version" b

end Variables

/-! ## Deployed versions -/

/-- An entry of the deployment directory, with the content of its version file. -/
structure DeployEntry where
  path : String
  isDirectory : Bool
  versionFile : Option String
  deriving DecidableEq, Repr

/-- Listing the deployment directory can throw. -/
abbrev Deployments := Except String (List DeployEntry)

/-- The first directory whose path contains the hash. -/
def getTargetDir (deployments : Deployments) (hash : String) : Except String (Option DeployEntry) :=
  do return (← deployments).find? fun e =>
    e.isDirectory && (findText hash.toList e.path.toList).isSome

/-- The version of a deployed target, empty if it cannot be told. -/
def getVersion (deployments : Deployments) (hash : String) : String :=
  match getTargetDir deployments hash with
  | .ok (some dir) =>
    match dir.versionFile with
    | some line => (extractVersionValue line).toOption.getD ""
    | none => ""
  | _ => ""

def ostreeTargetPathVar : String := "FIO_OSTREE_TARGET_SYSROOT"

/-- The upgrade flag is set when the deployed version is known and its text is not
that of the current version. -/
def notifyVersion (mode : RollbackMode) (envCmdVars : String) (deployments : Deployments)
    (hash : String) (b : BootEnv) : BootEnv :=
  let targetVersion := getVersion deployments hash
  if targetVersion = "" then b
  else if getCurrentVersion mode b = some targetVersion then b
  else setEnvVar mode envCmdVars "bootupgrade_available" "1" b

/-- `BootloaderLite::installNotify`.  The EFI case falls through to the others. -/
def installNotify (mode : RollbackMode) (deployments : Deployments) (hash : String) (b : BootEnv) :
    Except String BootEnv :=
  match mode with
  | .kBootloaderNone | .kUbootGeneric => .ok b
  | .kFioEFI => do
    let dir ← getTargetDir deployments hash
    let vars := ostreeTargetPathVar ++ "=" ++ (dir.map DeployEntry.path).getD ""
    return notifyVersion mode vars deployments hash b
  | .kUbootMasked | .kFioVB => .ok (notifyVersion mode "" deployments hash b)

/-- `getTargetVersion`, the two exceptions told apart: the file cannot be read, or it
has no version line. -/
inductive TargetVersion where
  | unreadable (what : String)
  | malformed (what : String)
  | text (version : String)
  deriving DecidableEq, Repr

def getTargetVersion (commitFile : Except String String) : TargetVersion :=
  match commitFile with
  | .error what => .unreadable what
  | .ok line =>
    match extractVersionValue line with
    | .error what => .malformed what
    | .ok version => .text version

end Boot
end AkLite
