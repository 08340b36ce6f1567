/-
Output streams on files.

The content of a stream is what has been put into it.  A write replaces what is there from
the position on, and nothing is cut off where a stream goes back.  After a write that failed
the stream is bad, and a bad stream takes nothing and has no position.
-/
import Mathlib.Data.List.Basic

namespace AkLite
namespace Lib

universe u

variable {β : Type u}

/-- The content after data were written over it from a position on. -/
def overwriteAt (pos : Nat) (data content : List β) : List β :=
  content.take pos ++ (data ++ content.drop (pos + data.length))

/-- The greatest position in a file. -/
def maxOffset : Nat := 9223372036854775807

structure OutStream (β : Type u) where
  content : List β
  pos : Nat
  good : Bool

namespace OutStream

/-- A stream on a file that has just been opened for writing. -/
def opened : OutStream β := { content := [], pos := 0, good := true }

def tellp (s : OutStream β) : Int := if s.good then s.pos else -1

/-- A write with an error after `fails` elements, or without one.  It also fails where the
file would become too long. -/
def write (s : OutStream β) (data : List β) (fails : Option Nat) : OutStream β :=
  if !s.good then s
  else
    let taken := data.take (min (fails.getD data.length) (maxOffset - s.pos))
    { content := overwriteAt s.pos taken s.content
      pos := s.pos + taken.length
      good := fails.isNone && decide (s.pos + data.length ≤ maxOffset) }

/-- Back to the start, if the elements put so far can be written out. -/
def rewind (s : OutStream β) (flushed : Bool) : OutStream β :=
  if !s.good then s else if flushed then { s with pos := 0 } else { s with good := false }

end OutStream

/-! ## Overwriting -/

variable {pos : Nat} {data content tail : List β}

theorem overwriteAt_append (a data tail : List β) :
    overwriteAt a.length data (a ++ tail) = a ++ data ++ tail.drop data.length := by
  rw [overwriteAt, List.take_left, List.drop_append, List.drop_eq_nil_of_le (Nat.le_add_right _ _),
    Nat.add_sub_cancel_left, List.nil_append, List.append_assoc]

theorem overwriteAt_zero (data content : List β) :
    overwriteAt 0 data content = data ++ content.drop data.length := by
  have h := overwriteAt_append [] data content
  rwa [List.nil_append] at h

theorem length_overwriteAt_le (pos : Nat) (data content : List β) :
    (overwriteAt pos data content).length ≤ max content.length (pos + data.length) := by
  simp only [overwriteAt, List.length_append, List.length_take, List.length_drop]
  omega

namespace OutStream

variable {s : OutStream β} {fails : Option Nat}

theorem tellp_of_good (h : s.good = true) : s.tellp = s.pos := by
  rw [tellp, if_pos h]

theorem tellp_of_bad (h : s.good = false) : s.tellp = -1 := by
  rw [tellp, h, if_neg (by decide)]

/-- All of the data are there after a write that did not fail. -/
theorem write_of_good (hgood : s.good = true) (hwritten : (s.write data fails).good = true) :
    s.pos + data.length ≤ maxOffset ∧
      s.write data fails =
        { content := overwriteAt s.pos data s.content, pos := s.pos + data.length,
          good := true } := by
  rw [write, hgood, if_neg (by decide)] at hwritten ⊢
  dsimp only at hwritten ⊢
  rw [Bool.and_eq_true, decide_eq_true_eq] at hwritten
  obtain ⟨hnone, hroom⟩ := hwritten
  have htake : data.take (min (fails.getD data.length) (maxOffset - s.pos)) = data := by
    rw [Option.isNone_iff_eq_none.mp hnone]
    refine List.take_of_length_le ?_
    rw [Option.getD_none]
    omega
  refine ⟨hroom, ?_⟩
  rw [htake, hnone, decide_eq_true hroom]
  rfl

theorem good_write (hgood : s.good = true) (hroom : s.pos + data.length ≤ maxOffset) :
    (s.write data none).good = true := by
  rw [write, hgood, if_neg (by decide)]
  exact decide_eq_true hroom

theorem bad_write (s : OutStream β) (data : List β) (n : Nat) :
    (s.write data (some n)).good = false := by
  rw [write]
  split
  · next hbad => simpa using hbad
  · rfl

/-- A file does not become too long, whatever fails. -/
theorem length_write_le (hlength : s.content.length ≤ maxOffset) (hpos : s.pos ≤ maxOffset) :
    (s.write data fails).content.length ≤ maxOffset := by
  rw [write]
  split
  · exact hlength
  · refine Nat.le_trans (length_overwriteAt_le _ _ _) ?_
    rw [List.length_take]
    omega

/-- Nothing is put where there is nothing to write. -/
theorem content_write_nil : (s.write [] fails).content = s.content := by
  rw [write]
  split
  · rfl
  · rw [List.take_nil]
    change s.content.take s.pos ++ ([] ++ s.content.drop (s.pos + 0)) = s.content
    rw [List.nil_append, Nat.add_zero, List.take_append_drop]

theorem content_rewind (s : OutStream β) (flushed : Bool) :
    (s.rewind flushed).content = s.content := by
  rw [rewind]
  split
  · rfl
  · split
    · rfl
    · rfl

theorem rewind_of_good {flushed : Bool} (h : (s.rewind flushed).good = true) :
    s.good = true ∧ (s.rewind flushed).pos = 0 := by
  rw [rewind] at h ⊢
  split at h
  · next hbad =>
    rw [h] at hbad
    cases hbad
  · next hgood =>
    rw [Bool.not_eq_true', Bool.not_eq_false] at hgood
    split at h
    · next hflushed =>
      rw [hgood, hflushed]
      exact ⟨rfl, rfl⟩
    · cases h

end OutStream

end Lib
end AkLite
