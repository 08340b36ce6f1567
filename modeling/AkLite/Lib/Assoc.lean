/-
Association lists.

The first entry of a key counts, and the lists are described by what is found in them.
-/
import Mathlib.Data.List.Perm.Subperm

namespace AkLite
namespace Lib

/-- Of two lists of one length, without duplicates in the first, none is a proper part. -/
theorem subset_of_length {α : Type} {xs ys : List α} (hnodup : xs.Nodup)
    (hlength : xs.length = ys.length) (hsub : xs ⊆ ys) : ys ⊆ xs := by
  have hsubperm := List.subperm_of_subset hnodup hsub
  exact (hsubperm.perm_of_length_le (Nat.le_of_eq hlength.symm)).symm.subset

variable {α β : Type} [BEq α] [LawfulBEq α] {l : List (α × β)} {key other : α} {v : β}

theorem mem_of_lookup (h : l.lookup key = some v) : (key, v) ∈ l := by
  obtain ⟨l₁, l₂, hl, -⟩ := List.lookup_eq_some_iff.mp h
  simp [hl]

theorem lookup_isSome_of_mem {entry : α × β} (h : entry ∈ l) :
    (l.lookup entry.1).isSome = true := by
  rw [Option.isSome_iff_ne_none, Ne, List.lookup_eq_none_iff]
  exact fun hne => absurd (hne entry h) (by simp)

/-- Among distinct keys every entry is found. -/
theorem lookup_eq_some_iff_mem (hkeys : (l.map Prod.fst).Nodup) :
    l.lookup key = some v ↔ (key, v) ∈ l := by
  refine ⟨mem_of_lookup, fun h => ?_⟩
  induction l with
  | nil => cases h
  | cons e rest ih =>
    obtain ⟨k, x⟩ := e
    rw [List.map_cons, List.nodup_cons] at hkeys
    rcases List.mem_cons.mp h with h | h
    · cases h
      exact List.lookup_cons_self
    · have hne : (key == k) = false := by
        refine beq_eq_false_iff_ne.mpr fun heq => hkeys.1 ?_
        exact List.mem_map.mpr ⟨(key, v), h, heq⟩
      rw [List.lookup_cons, hne]
      exact ih hkeys.2 h

theorem mem_keys_iff : key ∈ l.map Prod.fst ↔ (l.lookup key).isSome = true := by
  constructor
  · intro h
    obtain ⟨entry, hentry, rfl⟩ := List.mem_map.mp h
    exact lookup_isSome_of_mem hentry
  · intro h
    obtain ⟨v, hv⟩ := Option.isSome_iff_exists.mp h
    exact List.mem_map.mpr ⟨(key, v), mem_of_lookup hv, rfl⟩

/-- Two lists agree under every key, up to `f`, if they have one length and every entry of the
first is found in the second. -/
theorem forall_lookup_iff {γ : Type} {l' : List (α × β)} (f : β → γ)
    (hkeys : (l.map Prod.fst).Nodup) (hkeys' : (l'.map Prod.fst).Nodup) :
    (∀ key, (l.lookup key).map f = (l'.lookup key).map f) ↔
      l.length = l'.length ∧ ∀ entry ∈ l, ∃ v, l'.lookup entry.1 = some v ∧ f entry.2 = f v := by
  constructor
  · intro h
    constructor
    · have hmem : ∀ key, key ∈ l.map Prod.fst ↔ key ∈ l'.map Prod.fst := by
        intro key
        rw [mem_keys_iff, mem_keys_iff, ← Option.isSome_map, h key, Option.isSome_map]
      have hperm := (List.perm_ext_iff_of_nodup hkeys hkeys').mpr hmem
      rw [← List.length_map Prod.fst, hperm.length_eq, List.length_map]
    · intro entry hentry
      have hentry := h entry.1
      rw [(lookup_eq_some_iff_mem hkeys).mpr ‹entry ∈ l›] at hentry
      obtain ⟨v, hv, hf⟩ := Option.map_eq_some_iff.mp hentry.symm
      exact ⟨v, hv, hf.symm⟩
  · rintro ⟨hlength, h⟩ key
    have hsub : l.map Prod.fst ⊆ l'.map Prod.fst := by
      intro key hkey
      obtain ⟨entry, hentry, rfl⟩ := List.mem_map.mp hkey
      obtain ⟨v, hv, -⟩ := h entry hentry
      exact mem_keys_iff.mpr (by rw [hv, Option.isSome_some])
    cases hlookup : l.lookup key with
    | some u =>
      obtain ⟨v, hv, hf⟩ := h (key, u) (mem_of_lookup hlookup)
      rw [hv, Option.map_some, Option.map_some, hf]
    | none =>
      have hnone : (l'.lookup key).isSome = false := by
        refine Bool.eq_false_iff.mpr fun hsome => ?_
        have hlength : (l.map Prod.fst).length = (l'.map Prod.fst).length := by
          rw [List.length_map, List.length_map, hlength]
        have hkey := subset_of_length hkeys hlength hsub (mem_keys_iff.mpr hsome)
        rw [mem_keys_iff, hlookup] at hkey
        cases hkey
      rw [Option.isSome_eq_false_iff, Option.isNone_iff_eq_none] at hnone
      rw [hnone]

/-- A filter on the keys hides what it drops. -/
theorem lookup_filter_key (p : α → Bool) (l : List (α × β)) (key : α) :
    (l.filter fun e => p e.1).lookup key = if p key then l.lookup key else none := by
  induction l with
  | nil => simp
  | cons e rest ih =>
    obtain ⟨k, v⟩ := e
    by_cases hk : key = k
    · subst hk
      by_cases hp : p key = true
      · simp [hp]
      · simp [hp, ih]
    · have hbeq : (key == k) = false := by simpa using hk
      by_cases hp : p k = true
      · simp [hp, List.lookup_cons, hbeq, ih]
      · simp [hp, List.lookup_cons, hbeq, ih]

section Assign

variable [DecidableEq α]

/-- Assigning to a key leaves the others. -/
theorem lookup_map_of_ne (hne : other ≠ key) (v : β) (l : List (α × β)) :
    (l.map fun e => if e.1 = key then (key, v) else e).lookup other = l.lookup other := by
  induction l with
  | nil => rfl
  | cons e rest ih =>
    obtain ⟨k, x⟩ := e
    rw [List.map_cons]
    by_cases hk : k = key
    · have hbeq : (other == key) = false := by simpa using hne
      simp only [hk, if_true, List.lookup_cons, hbeq, ih]
    · simp only [hk, if_false, List.lookup_cons, ih]

theorem lookup_map_self (h : (l.lookup key).isSome = true) :
    (l.map fun e => if e.1 = key then (key, v) else e).lookup key = some v := by
  induction l with
  | nil => cases h
  | cons e rest ih =>
    obtain ⟨k, x⟩ := e
    rw [List.map_cons]
    by_cases hk : k = key
    · simp only [hk, if_true, List.lookup_cons_self]
    · have hbeq : (key == k) = false := by simpa using Ne.symm hk
      rw [List.lookup_cons, hbeq] at h
      simp only [hk, if_false, List.lookup_cons, hbeq, ih h]

end Assign

end Lib
end AkLite
