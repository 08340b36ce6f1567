/-
The callback program.

`LiteClient::callback` builds a command line of variable assignments in front of
the configured program and hands it to `std::system`.  The values are put between
double quotes as they are.  `callback_reads_iff` says when the shell reads the
command as it was meant: every value has to be literal text between double
quotes.  `bundle_error_is_expanded` is a failed check of an offline bundle whose
error text is not.
-/
import AkLite.Bundle.Meta
import AkLite.Lib.Shell
import AkLite.Target

namespace AkLite
namespace Callback

open Lib Lib.Shell

/-- What `callback` reads of the client.  `currentTargetFile` is the path of the
file `current-target` in the storage directory, and `matchesUnknown` the library's
comparison with the unknown target. -/
structure Client where
  callbackProgram : String
  currentTargetFile : String
  current : Target
  matchesUnknown : Target → Bool

/-- The variables in front of the program. -/
def envVariables (c : Client) (msg : String) (installTarget : Target) (result : String) :
    String :=
  let env := "MESSAGE=\"" ++ msg ++ "\" "
  let env := env ++ ("CURRENT_TARGET=\"" ++ c.currentTargetFile ++ "\" ")
  let env :=
    if !c.matchesUnknown c.current then
      env ++ ("CURRENT_TARGET_NAME=\"" ++ c.current.filename ++ "\" ")
    else env
  let env :=
    if !c.matchesUnknown installTarget then
      env ++ ("INSTALL_TARGET_NAME=\"" ++ installTarget.filename ++ "\" ")
    else env
  if result != "" then env ++ ("RESULT=\"" ++ result ++ "\" ") else env

/-- The string whose `c_str()` goes to `std::system`, if there is a program. -/
def callback (c : Client) (msg : String) (installTarget : Target) (result : String) :
    Option String :=
  if c.callbackProgram = "" then none
  else some (envVariables c msg installTarget result ++ c.callbackProgram)

/-- The call at the end of a check for updates. -/
def notifyTufUpdateFinished (c : Client) (err : String) (t : Target) : Option String :=
  let msg := if err = "" then "OK" else "FAILED: " ++ err
  callback c "check-for-update-post" t msg

/-- The error text that `CheckInLocal` passes on when the check of the bundle
fails.  Other exceptions leave it. -/
def bundleCheckError : Bundle.Failure → Option String
  | .bundleMeta _ what => some ("The bundle metadata check failed: " ++ what)
  | .other _ => none

/-- The assignments the command is meant to make. -/
def assignments (c : Client) (msg : String) (installTarget : Target) (result : String) :
    List (List Char × List Char) :=
  [("MESSAGE".toList, msg.toList), ("CURRENT_TARGET".toList, c.currentTargetFile.toList)] ++
    (if c.matchesUnknown c.current then []
      else [("CURRENT_TARGET_NAME".toList, c.current.filename.toList)]) ++
    (if c.matchesUnknown installTarget then []
      else [("INSTALL_TARGET_NAME".toList, installTarget.filename.toList)]) ++
    (if result = "" then [] else [("RESULT".toList, result.toList)])

/-- The shell reads the command as the assignments in front of the program. -/
def ReadsAsMeant (c : Client) (msg : String) (installTarget : Target) (result cmd : String) :
    Prop :=
  ReadsAs (cStr cmd.toList) (assignments c msg installTarget result) c.callbackProgram.toList

/-- Every value is literal between double quotes, and no text has a NUL. -/
def LiteralValues (c : Client) (msg : String) (installTarget : Target) (result : String) : Prop :=
  (∀ a ∈ assignments c msg installTarget result, Literal a.2 ∧ nul ∉ a.2) ∧
    nul ∉ c.callbackProgram.toList

theorem envVariables_toList (c : Client) (msg : String) (t : Target) (result : String) :
    (envVariables c msg t result).toList = (assignments c msg t result).flatMap assign := by
  unfold envVariables assignments
  cases c.matchesUnknown c.current <;> cases c.matchesUnknown t <;> by_cases hr : result = "" <;>
    simp [hr, assign, dquote]

theorem validName_assignments (c : Client) (msg : String) (t : Target) (result : String) :
    ∀ a ∈ assignments c msg t result, ValidName a.1 := by
  have hnames : ∀ name ∈ ["MESSAGE", "CURRENT_TARGET", "CURRENT_TARGET_NAME",
      "INSTALL_TARGET_NAME", "RESULT"], ValidName name.toList := by decide
  intro a ha
  unfold assignments at ha
  simp only [List.mem_append, List.mem_cons, List.not_mem_nil, or_false] at ha
  rcases ha with (((rfl | rfl) | ha) | ha) | ha
  · exact hnames "MESSAGE" (by simp)
  · exact hnames "CURRENT_TARGET" (by simp)
  · split_ifs at ha
    · simp at ha
    · rw [List.mem_singleton.mp ha]
      exact hnames "CURRENT_TARGET_NAME" (by simp)
  · split_ifs at ha
    · simp at ha
    · rw [List.mem_singleton.mp ha]
      exact hnames "INSTALL_TARGET_NAME" (by simp)
  · split_ifs at ha
    · simp at ha
    · rw [List.mem_singleton.mp ha]
      exact hnames "RESULT" (by simp)

theorem readsAsMeant_iff (c : Client) (msg : String) (t : Target) (result : String) :
    ReadsAsMeant c msg t result (envVariables c msg t result ++ c.callbackProgram) ↔
      LiteralValues c msg t result := by
  rw [ReadsAsMeant, String.toList_append, envVariables_toList, readsAs_iff,
    readAssignments_cStr_iff (validName_assignments c msg t result)]
  exact Iff.rfl

/-- The command of every callback reads as it was meant exactly when all its
values are literal text between double quotes. -/
theorem callback_reads_iff {c : Client} {msg : String} {t : Target} {result cmd : String}
    (h : callback c msg t result = some cmd) :
    ReadsAsMeant c msg t result cmd ↔ LiteralValues c msg t result := by
  unfold callback at h
  split_ifs at h
  cases h
  exact readsAsMeant_iff c msg t result

/-! ## Fixed inputs -/

/-- A target of which only the name matters. -/
def named (filename : String) : Target :=
  { filename := filename, sha256Hash := "", custom := .null, correlationId := "",
    isValid := true }

def sampleClient : Client where
  callbackProgram := "/usr/bin/notify"
  currentTargetFile := "/var/sota/current-target"
  current := named "intel-corei7-64-lmp-7"
  matchesUnknown t := t.filename == "unknown"

theorem callback_reads_iff_install :
    ∃ cmd, callback sampleClient "install-post" (named "intel-corei7-64-lmp-8") "OK" = some cmd ∧
      ReadsAsMeant sampleClient "install-post" (named "intel-corei7-64-lmp-8") "OK" cmd :=
  ⟨_, rfl, (callback_reads_iff rfl).mpr ⟨by decide, by decide⟩⟩

/-- A toolkit for which no text is JSON. -/
def nullToolkit : Bundle.Toolkit Unit Unit where
  parseJSON _ := .null
  jsonToCanonicalStr _ := ""
  toStyledString _ := ""
  publicKey _ := .ok ()
  verifySignature _ _ _ := .ok true
  timeStamp _ := .ok ()
  stampToString _ := ""
  isExpiredNow _ := false

def nullRootRepo : Bundle.RootRepo Unit where
  empty := ()
  rootVersion _ := 1
  initRoot _ _ := .ok ()
  verifyRoot _ _ := .ok ()

/-- A bundle with this text in place of its metadata. -/
def bundleDir (text : String) : Bundle.Dir where
  fetchRoot _ := .notFound
  bundleTargetsPath := "bundle-targets.json"
  bundleTargets := some text

/-- The text of a bundle that fails its check reaches the shell unquoted, and so do
the grave accents of the error message itself. -/
theorem bundle_error_is_expanded :
    ¬ ∀ (c : Client) (t : Target) (text : String) (failure : Bundle.Failure) (err cmd : String),
      Bundle.getBundleMeta nullToolkit nullRootRepo "root" (bundleDir text) .undefined [] =
        .error failure →
      bundleCheckError failure = some err →
      notifyTufUpdateFinished c err t = some cmd →
      ReadsAsMeant c "check-for-update-post" t ("FAILED: " ++ err) cmd := by
  intro h
  have hreads := h sampleClient (named "unknown") "$(reboot)" _ _ _ rfl rfl rfl
  have hliteral := (readsAsMeant_iff sampleClient "check-for-update-post" (named "unknown") _).mp
    hreads
  exact absurd hliteral.1 (by decide +kernel)

end Callback
end AkLite
