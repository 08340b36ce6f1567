/-
The files of an app's state, byte by byte.

A value is written to a temporary file, and that is renamed over the file.  But the temporary
file is not cut off when it is opened, and the number of bytes that were written is not
looked at: what is read back is the value if what stays in the temporary file happens to
continue it.
-/
import AkLite.Lib.Effect
import AkLite.Lib.OutStream
import AkLite.Lib.Text

namespace AkLite
namespace Engine
namespace StateFile

open Lib

/-- A file and its temporary file. -/
structure Files where
  file : Option (List UInt8)
  tmp : Option (List UInt8)
  deriving DecidableEq

/-- How the system calls of a write end.  An error has a text. -/
structure WriteEnv where
  opens : Except String Unit
  /-- The number of bytes written. -/
  writes : Except String Nat
  renames : Except String Unit
  removes : Bool
  path : String

/-- `File::open` creates a file that is missing, and cuts nothing off. -/
def opened (file : Option (List UInt8)) : List UInt8 := file.getD []

/-- `std::system_error`. -/
def systemError {α : Type} (what : String) (x : Except String α) : EStateM String Files α :=
  orThrow (x.mapError fun error => what ++ ": " ++ error)

/-- The first part of a write, up to the rename. -/
def writeTmp (data : List UInt8) (env : WriteEnv) : EStateM String Files Unit := do
  systemError ("Failed to open/create a file: " ++ env.path ++ ".tmp") env.opens
  modify fun s => { s with tmp := some (opened s.tmp) }
  let count ← systemError ("Failed to write to a file: " ++ env.path) env.writes
  modify fun s => { s with tmp := some (overwriteAt 0 (data.take count) (opened s.tmp)) }

def renameTmp (env : WriteEnv) : EStateM String Files Unit := do
  match env.renames with
  | .ok _ => modify fun s => { file := s.tmp, tmp := none }
  | .error error =>
    modify fun s => if env.removes then { s with tmp := none } else s
    throw ("Failed to rename the tmp file to: " ++ env.path ++ ": " ++ error)

def write (data : List UInt8) (env : WriteEnv) : EStateM String Files Unit := do
  writeTmp data env
  renameTmp env

/-- A buffer of zeros after the file has been read into it. -/
def read (size : Nat) (file : Option (List UInt8)) : List UInt8 :=
  (opened file).take size ++ List.replicate (size - (opened file).length) 0

def bufferSize : Nat := 4096

/-- The text in the buffer.  Without a zero it has no end. -/
def readStr (file : Option (List UInt8)) : Option (List UInt8) :=
  if (read bufferSize file).contains 0 then
    some ((read bufferSize file).takeWhile (· ≠ 0))
  else none

/-! ## Reading -/

/-- The text is all there is, or a zero is behind it. -/
def Ends (text content : List UInt8) : Prop :=
  content = text ∨ ∃ rest, content = text ++ 0 :: rest

variable {value content : List UInt8} {size : Nat}

theorem exists_read_of_ends (h : Ends value content) (hlength : value.length < size) :
    ∃ rest, read size (some content) = value ++ 0 :: rest := by
  obtain ⟨room, hroom⟩ := Nat.exists_eq_add_of_lt hlength
  rw [read]
  change ∃ rest, content.take size ++ List.replicate (size - content.length) 0 = _
  rcases h with rfl | ⟨rest, rfl⟩
  · refine ⟨List.replicate room 0, ?_⟩
    rw [List.take_of_length_le (Nat.le_of_lt hlength), ← List.replicate_succ]
    congr 2
    omega
  · refine ⟨rest.take room ++ List.replicate (size - (value ++ 0 :: rest).length) 0, ?_⟩
    have htake : (value ++ 0 :: rest).take size = value ++ 0 :: rest.take room := by
      rw [hroom, Nat.add_assoc, List.take_length_add_append, List.take_succ_cons]
    rw [htake, List.append_assoc, List.cons_append]

theorem ends_of_read {rest : List UInt8} (hnul : 0 ∉ value) (hlength : value.length < size)
    (h : read size (some content) = value ++ 0 :: rest) : Ends value content := by
  have hwhole : ∀ {text : List UInt8}, content.take size = text → text.length < size →
      content = text := by
    rintro text rfl hshort
    rw [List.length_take] at hshort
    exact (List.take_of_length_le (by omega)).symm
  have hread : content.take size ++ List.replicate (size - content.length) 0 =
      value ++ 0 :: rest := h
  rcases List.append_eq_append_iff.mp hread with ⟨pad, hvalue, hpad⟩ | ⟨more, htake, hmore⟩
  · -- the zero is one of the buffer
    have hnil : pad = [] := by
      refine List.eq_nil_iff_forall_not_mem.mpr fun b hb => hnul ?_
      have hzero : b = 0 := List.eq_of_mem_replicate (hpad ▸ List.mem_append_left _ hb)
      rw [hvalue, ← hzero]
      exact List.mem_append_right _ hb
    rw [hnil, List.append_nil] at hvalue
    exact .inl (hwhole hvalue.symm hlength)
  · cases more with
    | nil =>
      rw [List.append_nil] at htake
      exact .inl (hwhole htake hlength)
    | cons b more =>
      -- the zero is one of the file
      obtain ⟨rfl, _⟩ := List.cons.inj hmore
      refine .inr ⟨more ++ content.drop size, ?_⟩
      rw [← List.cons_append, ← List.append_assoc, ← htake, List.take_append_drop]

/-- What is read from a file. -/
theorem readStr_eq_some (hnul : 0 ∉ value) (hlength : value.length < bufferSize) :
    readStr (some content) = some value ↔ Ends value content := by
  rw [readStr]
  constructor
  · intro h
    split at h
    · next hzero =>
      obtain ⟨text, rest, hread, htext⟩ :=
        List.eq_append_cons_of_mem (List.contains_iff_mem.mp hzero)
      rw [hread, takeWhile_ne_append htext] at h
      cases h
      exact ends_of_read hnul hlength hread
    · cases h
  · intro h
    obtain ⟨rest, hread⟩ := exists_read_of_ends h hlength
    rw [hread, if_pos (by simp), takeWhile_ne_append hnul]

/-! ## Writing -/

variable {env : WriteEnv} {s : Files}

/-- The whole value is in the file, written or left there. -/
theorem ends_overwrite (count : Nat) (tmp : List UInt8) :
    Ends value (overwriteAt 0 (value.take count) tmp) ↔
      Ends (value.drop count) (tmp.drop (min count value.length)) := by
  rw [overwriteAt_zero, List.length_take]
  nth_rewrite 1 [← List.take_append_drop count value]
  simp only [Ends, List.append_assoc, List.append_cancel_left_eq]

section

variable {α : Type} {what error : String} {a : α} {Q : α → Files → Prop} {E : String → Files → Prop}

theorem wp_systemError_ok : wp (systemError what (.ok a)) Q E s = Q a s := rfl

theorem wp_systemError_error :
    wp (systemError what (.error error : Except String α)) Q E s =
      E (what ++ ": " ++ error) s := rfl

end

/-- A value that was written is read back, and a failure changes nothing, exactly if what
stays in the temporary file behind the bytes that were written is the rest of the value. -/
theorem write_read_iff (value : List UInt8) (env : WriteEnv) (s : Files) (hnul : 0 ∉ value)
    (hlength : value.length < bufferSize) :
    wp (write value env) (fun _ t => readStr t.file = some value)
        (fun _ t => readStr t.file = readStr s.file) s ↔
      (env.opens = .ok () → env.renames = .ok () → ∀ count, env.writes = .ok count →
        Ends (value.drop count) ((opened s.tmp).drop (min count value.length))) := by
  unfold write writeTmp renameTmp
  rw [wp_bind, wp_bind]
  cases hopens : env.opens with
  | error error =>
    rw [wp_systemError_error]
    exact iff_of_true rfl fun h => by cases h
  | ok _ =>
    rw [wp_systemError_ok, wp_bind, wp_modify, wp_bind]
    cases hwrites : env.writes with
    | error error =>
      rw [wp_systemError_error]
      exact iff_of_true rfl fun _ _ _ h => by cases h
    | ok count =>
      rw [wp_systemError_ok, wp_modify]
      cases hrenames : env.renames with
      | error error =>
        dsimp only
        rw [wp_bind, wp_modify, wp_throw]
        refine iff_of_true ?_ fun _ h => by cases h
        split
        · rfl
        · rfl
      | ok _ =>
        dsimp only
        rw [wp_modify, readStr_eq_some hnul hlength, ends_overwrite]
        constructor
        · rintro h _ _ _ ⟨⟩
          exact h
        · intro h
          exact h rfl rfl count rfl

/-- All bytes are written, and the old ones are fewer. -/
theorem short_leftover_read :
    wp (write [118, 50] ⟨.ok (), .ok 2, .ok (), true, "version"⟩)
      (fun _ t => readStr t.file = some [118, 50])
      (fun _ t => readStr t.file = readStr (some [118, 49])) ⟨some [118, 49], some [120]⟩ :=
  (write_read_iff [118, 50] ⟨.ok (), .ok 2, .ok (), true, "version"⟩ ⟨some [118, 49], some [120]⟩
    (by decide) (by decide)).mpr fun _ _ count hcount => by
      cases hcount
      exact .inl rfl

/-- A longer value left by a process that stopped before the rename, and a write of one byte
out of two. -/
theorem leftover_read :
    (∃ s t,
      writeTmp [97, 98] ⟨.ok (), .ok 2, .ok (), true, "version"⟩ ⟨some [100], none⟩ = .ok () s ∧
      write [99] ⟨.ok (), .ok 1, .ok (), true, "version"⟩ s = .ok () t ∧
      readStr t.file = some [99, 98]) ∧
    ∃ t, write [97, 98] ⟨.ok (), .ok 1, .ok (), true, "version"⟩ ⟨some [100], none⟩ = .ok () t ∧
      readStr t.file = some [97] := by
  refine ⟨⟨_, _, rfl, rfl, ?_⟩, _, rfl, ?_⟩
  · decide +kernel
  · decide +kernel

end StateFile
end Engine
end AkLite
