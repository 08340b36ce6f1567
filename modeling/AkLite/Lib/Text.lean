/-
Searching in texts.

A text is a list of characters, of any type.  A search for the first occurrence of a
character is described by what stands before it, a search for the last occurrence of a
word by what follows it.  `trim` takes the blanks off both ends.
-/
import Mathlib.Data.List.Basic
import Mathlib.Data.List.Infix

namespace AkLite
namespace Lib

universe u

variable {α : Type u} [DecidableEq α] {c : α} {a b l r word : List α}

/-! ## The first occurrence of a character -/

theorem takeWhile_ne_append (h : c ∉ a) : (a ++ c :: b).takeWhile (· ≠ c) = a := by
  have hall : ∀ x ∈ a, decide (x ≠ c) = true := fun x hx =>
    decide_eq_true fun hxc => h (hxc ▸ hx)
  rw [List.takeWhile_append_of_pos hall, List.takeWhile_cons_of_neg (by simp), List.append_nil]

theorem dropWhile_ne_append (h : c ∉ a) : (a ++ c :: b).dropWhile (· ≠ c) = c :: b := by
  have hall : ∀ x ∈ a, decide (x ≠ c) = true := fun x hx =>
    decide_eq_true fun hxc => h (hxc ▸ hx)
  rw [List.dropWhile_append_of_pos hall, List.dropWhile_cons_of_neg (by simp)]

omit [DecidableEq α] in
theorem drop_length_succ_append : (a ++ c :: b).drop (a.length + 1) = b := by
  rw [← List.drop_drop, List.drop_left]
  rfl

/-! ## The first occurrence of one of several characters -/

/-- `find_first_of`. -/
def findFirstOf (chars l : List α) : Option Nat := l.findIdx? fun c => decide (c ∈ chars)

theorem findFirstOf_eq_zero {chars : List α} :
    findFirstOf chars l = some 0 ↔ ∃ c ∈ chars, l.head? = some c := by
  cases l with
  | nil => simp [findFirstOf]
  | cons c rest =>
    by_cases hc : c ∈ chars
    · simp [findFirstOf, List.findIdx?_cons, hc]
    · simp [findFirstOf, List.findIdx?_cons, hc]

/-- As a test for the start of a text, the search is wrong if the text starts with a character
of the word, but not with the word. -/
theorem findFirstOf_prefix_iff (hword : word ≠ []) :
    (findFirstOf word l = some 0 ↔ word <+: l) ↔
      (word <+: l ∨ ∀ c ∈ word, l.head? ≠ some c) := by
  have hfirst : word <+: l → findFirstOf word l = some 0 := by
    intro h
    obtain ⟨c, rest, hcons⟩ := List.exists_cons_of_ne_nil hword
    obtain ⟨tail, htail⟩ := h
    refine findFirstOf_eq_zero.mpr ⟨c, by simp [hcons], ?_⟩
    rw [← htail, hcons]
    rfl
  constructor
  · intro h
    by_cases hprefix : word <+: l
    · exact .inl hprefix
    · refine .inr fun c hc hhead => hprefix (h.mp ?_)
      exact findFirstOf_eq_zero.mpr ⟨c, hc, hhead⟩
  · intro h
    refine ⟨fun hzero => ?_, hfirst⟩
    obtain ⟨c, hc, hhead⟩ := findFirstOf_eq_zero.mp hzero
    exact h.resolve_right fun hnone => hnone c hc hhead

/-! ## Words -/

omit [DecidableEq α] in
/-- A word without the character stands before it or after it. -/
theorem infix_append_cons (h : word <:+: a ++ c :: b) (hc : c ∉ word) :
    word <:+: a ∨ word <:+: b := by
  obtain ⟨x, y, hxy⟩ := h
  rw [List.append_assoc] at hxy
  rcases List.append_eq_append_iff.mp hxy with ⟨z, ha, hrest⟩ | ⟨z, hx, hrest⟩
  · -- the word starts before the character
    rcases List.append_eq_append_iff.mp hrest with ⟨w, hz, _⟩ | ⟨w, hword, hcons⟩
    · exact .inl ⟨x, w, by rw [ha, hz, List.append_assoc]⟩
    · cases w with
      | nil =>
        rw [List.append_nil] at hword
        exact .inl ⟨x, [], by rw [ha, hword, List.append_nil]⟩
      | cons d w =>
        obtain ⟨rfl, _⟩ := List.cons.inj hcons
        exact absurd (hword ▸ List.mem_append_right z List.mem_cons_self) hc
  · -- or after it
    cases z with
    | nil =>
      cases word with
      | nil => exact .inl List.nil_infix
      | cons d rest =>
        obtain ⟨rfl, _⟩ := List.cons.inj hrest
        exact absurd List.mem_cons_self hc
    | cons d z =>
      obtain ⟨_, hb⟩ := List.cons.inj hrest
      exact .inr ⟨z, y, by rw [List.append_assoc, hb]; rfl⟩

/-- What follows the last occurrence of the word. -/
def afterLast (word : List α) : List α → Option (List α)
  | [] => if word = [] then some [] else none
  | c :: rest =>
    match afterLast word rest with
    | some r => some r
    | none =>
      if word.isPrefixOf (c :: rest) then some ((c :: rest).drop word.length) else none

theorem eq_append_of_afterLast (h : afterLast word l = some r) : ∃ x, l = x ++ (word ++ r) := by
  induction l with
  | nil =>
    rw [afterLast] at h
    split at h
    · next hword =>
      cases h
      exact ⟨[], by rw [hword]; rfl⟩
    · cases h
  | cons c rest ih =>
    rw [afterLast] at h
    split at h
    · next r' hr =>
      cases h
      obtain ⟨x, hx⟩ := ih hr
      exact ⟨c :: x, by rw [hx, List.cons_append]⟩
    · split at h
      · next hbegins =>
        obtain ⟨y, hy⟩ := List.isPrefixOf_iff_prefix.mp hbegins
        rw [← hy, List.drop_left] at h
        cases h
        exact ⟨[], hy.symm⟩
      · cases h

theorem afterLast_isSome (h : word <:+: l) : (afterLast word l).isSome = true := by
  induction l with
  | nil => simp [afterLast, List.infix_nil.mp h]
  | cons c rest ih =>
    rw [afterLast]
    split
    · rfl
    · next hnone =>
      rcases List.infix_cons_iff.mp h with hbegins | hrest
      · rw [if_pos (List.isPrefixOf_iff_prefix.mpr hbegins)]
        rfl
      · rw [hnone] at ih
        exact absurd (ih hrest) (by simp)

theorem afterLast_isSome_iff : (afterLast word l).isSome = true ↔ word <:+: l := by
  refine ⟨fun h => ?_, afterLast_isSome⟩
  obtain ⟨r, hr⟩ := Option.isSome_iff_exists.mp h
  obtain ⟨x, hx⟩ := eq_append_of_afterLast hr
  exact ⟨x, r, by rw [hx, List.append_assoc]⟩

omit [DecidableEq α] in
/-- A word is not found before its first character. -/
theorem infix_append_of_not_mem {d : α} {ds : List α} (h : d ∉ a) :
    d :: ds <:+: a ++ b ↔ d :: ds <:+: b := by
  induction a with
  | nil => exact Iff.rfl
  | cons c rest ih =>
    rw [List.mem_cons, not_or] at h
    rw [List.cons_append, List.infix_cons_iff, ih h.2]
    refine or_iff_right fun hbegins => h.1 ?_
    exact (List.cons_prefix_cons.mp hbegins).1

/-- The last occurrence is not before any other. -/
theorem exists_afterLast_suffix (hword : word ≠ []) (a b : List α) :
    ∃ r, afterLast word (a ++ (word ++ b)) = some r ∧ r <:+ b := by
  induction a with
  | nil =>
    cases word with
    | nil => exact absurd rfl hword
    | cons d ds =>
      change ∃ r, afterLast (d :: ds) (d :: (ds ++ b)) = some r ∧ r <:+ b
      rw [afterLast]
      cases hrest : afterLast (d :: ds) (ds ++ b) with
      | some r =>
        -- a later occurrence ends later
        obtain ⟨x, hx⟩ := eq_append_of_afterLast hrest
        have hsuffix : r <:+ ds ++ b := ⟨x ++ d :: ds, by rw [hx, List.append_assoc]⟩
        refine ⟨r, rfl, List.suffix_of_suffix_length_le hsuffix (List.suffix_append ds b) ?_⟩
        have hlength := congrArg List.length hx
        simp only [List.length_append, List.length_cons] at hlength
        omega
      | none =>
        have hbegins : (d :: ds).isPrefixOf (d :: (ds ++ b)) = true :=
          List.isPrefixOf_iff_prefix.mpr ⟨b, rfl⟩
        refine ⟨b, ?_, List.suffix_refl b⟩
        rw [if_pos hbegins]
        rw [← List.cons_append, List.drop_left]
  | cons c rest ih =>
    obtain ⟨r, hr, hsuffix⟩ := ih
    refine ⟨r, ?_, hsuffix⟩
    rw [List.cons_append, afterLast, hr]

/-- The text has the word somewhere in it. -/
def mentions (text word : String) : Bool := (afterLast word.toList text.toList).isSome

theorem mentions_iff {text word : String} :
    mentions text word = true ↔ word.toList <:+: text.toList :=
  afterLast_isSome_iff

/-- A word that is nowhere else is found at the start. -/
theorem afterLast_start {d : α} {ds : List α} (h : ¬ d :: ds <:+: ds ++ b) :
    afterLast (d :: ds) (d :: (ds ++ b)) = some b := by
  have hbegins : (d :: ds).isPrefixOf (d :: (ds ++ b)) = true :=
    List.isPrefixOf_iff_prefix.mpr ⟨b, rfl⟩
  rw [afterLast]
  cases hrest : afterLast (d :: ds) (ds ++ b) with
  | some r =>
    obtain ⟨x, hx⟩ := eq_append_of_afterLast hrest
    exact absurd ⟨x, r, by rw [List.append_assoc, hx]⟩ h
  | none =>
    rw [if_pos hbegins]
    rw [← List.cons_append, List.drop_left]

/-! ## Blanks -/

section

omit [DecidableEq α]

variable {blank : α → Bool}

def trim (blank : α → Bool) (l : List α) : List α :=
  ((l.dropWhile blank).reverse.dropWhile blank).reverse

/-- Neither end is a blank. -/
def Trimmed (blank : α → Bool) (l : List α) : Prop :=
  (∀ c ∈ l.head?, blank c = false) ∧ ∀ c ∈ l.getLast?, blank c = false

instance : Decidable (Trimmed blank l) :=
  inferInstanceAs (Decidable ((∀ c ∈ l.head?, blank c = false) ∧ ∀ c ∈ l.getLast?, blank c = false))

theorem dropWhile_append_of_head (h : ∀ c ∈ l.head?, blank c = false)
    (ha : ∀ c ∈ a, blank c = true) : (a ++ l).dropWhile blank = l := by
  rw [List.dropWhile_append_of_pos ha]
  cases l with
  | nil => rfl
  | cons c rest => exact List.dropWhile_cons_of_neg (by simp [h c rfl])

theorem dropWhile_eq_nil (h : ∀ c ∈ a, blank c = true) : a.dropWhile blank = [] := by
  have happend := dropWhile_append_of_head (l := []) (fun _ hc => by cases hc) h
  rwa [List.append_nil] at happend

theorem trim_sublist (blank : α → Bool) (l : List α) : (trim blank l).Sublist l := by
  have hends := (List.dropWhile_sublist (l := (l.dropWhile blank).reverse) blank).reverse
  rw [List.reverse_reverse] at hends
  exact hends.trans (List.dropWhile_sublist blank)

/-- Blanks around a text are taken off. -/
theorem trim_pad (h : Trimmed blank l) (ha : ∀ c ∈ a, blank c = true)
    (hb : ∀ c ∈ b, blank c = true) : trim blank (a ++ (l ++ b)) = l := by
  cases l with
  | nil =>
    rw [trim, List.nil_append, List.dropWhile_append_of_pos ha, dropWhile_eq_nil hb]
    rfl
  | cons c rest =>
    have hreverse : ∀ x ∈ b.reverse, blank x = true := fun x hx => hb x (List.mem_reverse.mp hx)
    have hlast : ∀ x ∈ (c :: rest).reverse.head?, blank x = false := by
      rw [List.head?_reverse]
      exact h.2
    rw [trim, dropWhile_append_of_head (l := c :: rest ++ b) h.1 ha, List.reverse_append,
      dropWhile_append_of_head hlast hreverse, List.reverse_reverse]

end

end Lib
end AkLite
