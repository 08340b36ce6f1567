/-
The version of a target as a number.

The version is a text in the custom data of a target, and it is read in two ways: with
base zero, where a prefix announces the base (`stoi`), and with base ten (`stoi10`).  Both
read the longest numeral at the start of the text and ignore what follows.  The value of
a text that is an integer as a whole is `integerOf`.

`stoi_eq_integerOf` says what the first reading makes of an integer, and
`sameReading_iff` for which texts the two readings agree.
-/
import AkLite.Target
import AkLite.Lib.Outcome
import Mathlib.Data.Char
import Mathlib.Data.List.TakeWhile

namespace AkLite

open Lib

/-! ## Reading a numeral -/

/-- The text of a numeral: without leading spaces and without a sign. -/
def numeralText (text : String) : List Char :=
  let s := text.toList.dropWhile isSpace
  if s.head? == some '-' || s.head? == some '+' then s.tail else s

def isNegative (text : String) : Bool := (text.toList.dropWhile isSpace).head? == some '-'

/-- The number with the digits in a base. -/
def valueIn (base : Nat) (digits : List Nat) : Nat :=
  digits.foldl (fun acc d => acc * base + d) 0

def signed (negative : Bool) (magnitude : Nat) : Int :=
  if negative then -(magnitude : Int) else magnitude

/-- The number fits an `int`. -/
def FitsInt (n : Int) : Prop := Json.minInt ≤ n ∧ n ≤ Json.maxInt

instance (n : Int) : Decidable (FitsInt n) := inferInstanceAs (Decidable (_ ∧ _))

/-- The outcome of `std::stoi` for the digits that were found. -/
def stoiOf (negative : Bool) (scanned : Nat × List Nat) : Stoi :=
  if scanned.2 = [] then .invalidArgument
  else if FitsInt (signed negative (valueIn scanned.1 scanned.2)) then
    .value (signed negative (valueIn scanned.1 scanned.2))
  else .outOfRange

/-- `std::stoi` with base ten. -/
def stoi10 (text : String) : Stoi :=
  stoiOf (isNegative text) (10, leadingDigits 10 (numeralText text))

theorem stoi_eq (text : String) :
    stoi text = stoiOf (isNegative text) (numeral (numeralText text)) :=
  rfl

example : stoi10 " 0x1f-rc" = .value 0 := by decide

/-! ## Integers -/

/-- The text is a numeral, with the prefix of its base if it is not ten. -/
def isNumeral : List Char → Bool
  | '0' :: x :: rest =>
    if x = 'x' ∨ x = 'X' then !rest.isEmpty && rest.all fun c => decide (digitValue c < 16)
    else (x :: rest).all fun c => decide (digitValue c < 8)
  | s => !s.isEmpty && s.all fun c => decide (digitValue c < 10)

/-- The integer that a text is, from its first character to its last. -/
def integerOf (text : String) : Option Int :=
  let negative := text.toList.head? == some '-'
  let s := if negative || text.toList.head? == some '+' then text.toList.tail else text.toList
  if isNumeral s then some (signed negative (valueIn (numeral s).1 (numeral s).2)) else none

example : integerOf "-12" = some (-12) := by decide
example : integerOf "12-rc" = none := by decide

/-- The integer that a text is as a decimal numeral, with a sign or without one. -/
def decimalOf (text : String) : Option Int :=
  let negative := text.toList.head? == some '-'
  let s := if negative || text.toList.head? == some '+' then text.toList.tail else text.toList
  if !s.isEmpty && s.all fun c => decide (digitValue c < 10) then
    some (signed negative (valueIn 10 (s.map digitValue)))
  else none

example : decimalOf "012" = some 12 := by decide
example : decimalOf " 12" = none := by decide

/-! ## Digits in two bases -/

/-- The number behind more digits, in base ten. -/
theorem le_foldl_ten (a : Nat) (digits : List Nat) :
    a ≤ digits.foldl (fun acc d => acc * 10 + d) a := by
  induction digits generalizing a with
  | nil => exact Nat.le_refl a
  | cons d rest ih =>
    have := ih (a * 10 + d)
    rw [List.foldl_cons]
    omega

/-- The octal digits at the start, read with base eight, stay as far behind all digits as they
are at the start. -/
theorem foldl_eight_add_le {a b : Nat} (k : Nat) (hle : a + k ≤ b) (digits : List Nat) :
    (digits.takeWhile fun d => decide (d < 8)).foldl (fun acc d => acc * 8 + d) a + k ≤
      digits.foldl (fun acc d => acc * 10 + d) b := by
  induction digits generalizing a b with
  | nil => exact hle
  | cons d rest ih =>
    by_cases hd : d < 8
    · rw [List.takeWhile_cons_of_pos (by simpa using hd), List.foldl_cons, List.foldl_cons]
      exact ih (by omega)
    · rw [List.takeWhile_cons_of_neg (by simpa using hd), List.foldl_cons, List.foldl_nil]
      have := le_foldl_ten (b * 10 + d) rest
      omega

/-- With base eight instead of ten a number stays the same only below eight. -/
theorem valueIn_eight_eq (digits : List Nat) :
    valueIn 8 (digits.takeWhile fun d => decide (d < 8)) = valueIn 10 digits ↔
      valueIn 10 digits < 8 := by
  unfold valueIn
  induction digits with
  | nil => simp
  | cons d rest ih =>
    rw [List.foldl_cons, Nat.zero_mul, Nat.zero_add]
    by_cases hd : d < 8
    · rw [List.takeWhile_cons_of_pos (by simpa using hd), List.foldl_cons, Nat.zero_mul,
        Nat.zero_add]
      by_cases hzero : d = 0
      · rw [hzero]
        exact ih
      · cases rest with
        | nil => exact iff_of_true rfl hd
        | cons e rest =>
          -- A second digit makes ten or more.
          have hten := le_foldl_ten (d * 10 + e) rest
          rw [List.foldl_cons]
          refine iff_of_false (Nat.ne_of_lt ?_) (by omega)
          by_cases he : e < 8
          · rw [List.takeWhile_cons_of_pos (by simpa using he), List.foldl_cons]
            exact foldl_eight_add_le 1 (by omega) rest
          · rw [List.takeWhile_cons_of_neg (by simpa using he), List.foldl_nil]
            omega
    · rw [List.takeWhile_cons_of_neg (by simpa using hd), List.foldl_nil]
      have := le_foldl_ten d rest
      exact iff_of_false (by omega) (by omega)

theorem valueIn_eight_le (digits : List Nat) :
    valueIn 8 (digits.takeWhile fun d => decide (d < 8)) ≤ valueIn 10 digits :=
  foldl_eight_add_le 0 (Nat.le_refl 0) digits

theorem leadingDigits_eight (s : List Char) :
    leadingDigits 8 s = (leadingDigits 10 s).takeWhile fun d => decide (d < 8) := by
  unfold leadingDigits
  induction s with
  | nil => rfl
  | cons c rest ih =>
    by_cases hc : digitValue c < 8
    · have hten : digitValue c < 10 := by omega
      simp [hc, hten, ih]
    · by_cases hten : digitValue c < 10
      · simp [hc, hten]
      · simp [hc, hten]

/-! ## Two readings -/

/-- Both readings that give a number give the same one. -/
def SameReading (text : String) : Prop :=
  ∀ n m, stoi10 text = .value n → stoi text = .value m → n = m

/-- The text has the prefix of a hexadecimal numeral, and these digits. -/
def HexDigits (text : String) (digits : List Nat) : Prop :=
  ∃ x rest, numeralText text = '0' :: x :: rest ∧ (x = 'x' ∨ x = 'X') ∧
    digits = leadingDigits 16 rest ∧ digits ≠ []

/-- A hexadecimal numeral is zero, and a decimal one with a leading zero is below eight, if it
fits at all. -/
structure BasesAgree (text : String) : Prop where
  hex : ∀ digits, HexDigits text digits →
    FitsInt (signed (isNegative text) (valueIn 16 digits)) → valueIn 16 digits = 0
  zero : ∀ rest, numeralText text = '0' :: rest → (∀ digits, ¬HexDigits text digits) →
    FitsInt (signed (isNegative text) (valueIn 10 (leadingDigits 10 (numeralText text)))) →
      valueIn 10 (leadingDigits 10 (numeralText text)) < 8

theorem stoiOf_eq_value {negative : Bool} {scanned : Nat × List Nat} {n : Int} :
    stoiOf negative scanned = .value n ↔
      scanned.2 ≠ [] ∧ FitsInt (signed negative (valueIn scanned.1 scanned.2)) ∧
        n = signed negative (valueIn scanned.1 scanned.2) := by
  unfold stoiOf
  by_cases hdigits : scanned.2 = []
  · simp [hdigits]
  · by_cases hfits : FitsInt (signed negative (valueIn scanned.1 scanned.2))
    · simp [hdigits, hfits, eq_comm]
    · simp [hdigits, hfits]

theorem signed_inj {negative : Bool} {a b : Nat} :
    signed negative a = signed negative b ↔ a = b := by
  unfold signed
  cases negative with
  | false => exact Int.ofNat_inj
  | true => exact Int.neg_inj.trans Int.ofNat_inj

theorem fitsInt_of_le {negative : Bool} {a b : Nat} (hle : a ≤ b)
    (h : FitsInt (signed negative b)) : FitsInt (signed negative a) := by
  unfold FitsInt signed Json.minInt Json.maxInt at *
  cases negative with
  | false =>
    simp only [Bool.false_eq_true, if_false] at *
    omega
  | true =>
    simp only [if_true] at *
    omega

variable {text : String} {s rest : List Char} {n : Int}

/-- A numeral that does not begin with a zero announces base ten. -/
theorem numeral_of_ne_zero (h : ∀ rest, s ≠ '0' :: rest) :
    numeral s = (10, leadingDigits 10 s) := by
  unfold numeral
  split
  · exact absurd rfl (h _)
  · rw [if_neg (h [])]

theorem numeral_hex {x : Char} (hx : x = 'x' ∨ x = 'X') (hdigits : leadingDigits 16 rest ≠ []) :
    numeral ('0' :: x :: rest) = (16, leadingDigits 16 rest) := by
  rw [numeral, if_pos ⟨hx, hdigits⟩]

/-- A numeral that begins with a zero, and is not hexadecimal, announces base eight. -/
theorem numeral_octal
    (h : ∀ x rest', rest = x :: rest' → (x = 'x' ∨ x = 'X') → leadingDigits 16 rest' = []) :
    numeral ('0' :: rest) = (8, leadingDigits 8 ('0' :: rest)) := by
  cases rest with
  | nil => rfl
  | cons x rest =>
    rw [numeral, if_neg]
    rintro ⟨hx, hdigits⟩
    exact hdigits (h x rest rfl hx)

theorem leadingDigits_zero_cons (base : Nat) (hbase : 0 < base) (rest : List Char) :
    leadingDigits base ('0' :: rest) = 0 :: leadingDigits base rest := by
  have hzero : digitValue '0' = 0 := by decide
  simp [leadingDigits, hzero, hbase]

/-- The prefix of a hexadecimal numeral reads as zero with base ten. -/
theorem leadingDigits_ten_hex {x : Char} (hx : x = 'x' ∨ x = 'X') :
    leadingDigits 10 ('0' :: x :: rest) = [0] := by
  rw [leadingDigits_zero_cons 10 (by decide)]
  rcases hx with rfl | rfl
  · rfl
  · rfl

theorem sameReading_hex {digits : List Nat} (h : HexDigits text digits) :
    SameReading text ↔
      (FitsInt (signed (isNegative text) (valueIn 16 digits)) → valueIn 16 digits = 0) := by
  obtain ⟨x, rest, hrest, hx, rfl, hdigits⟩ := h
  have hzero : valueIn 10 [0] = 0 := rfl
  have hfits : FitsInt (signed (isNegative text) 0) := by
    cases isNegative text with
    | false => decide
    | true => decide
  unfold SameReading stoi10
  rw [stoi_eq, hrest, leadingDigits_ten_hex hx, numeral_hex hx hdigits]
  simp only [stoiOf_eq_value, hzero]
  constructor
  · intro h hfits16
    have heq := h _ _ ⟨List.cons_ne_nil _ _, hfits, rfl⟩ ⟨hdigits, hfits16, rfl⟩
    exact (signed_inj.mp heq).symm
  · rintro h n m ⟨-, -, rfl⟩ ⟨-, hfits16, rfl⟩
    rw [h hfits16]

theorem sameReading_zero (hrest : numeralText text = '0' :: rest)
    (hhex : ∀ digits, ¬HexDigits text digits) :
    SameReading text ↔
      (FitsInt (signed (isNegative text) (valueIn 10 (leadingDigits 10 (numeralText text)))) →
        valueIn 10 (leadingDigits 10 (numeralText text)) < 8) := by
  have hoctal : numeral (numeralText text) = (8, leadingDigits 8 (numeralText text)) := by
    rw [hrest]
    refine numeral_octal fun x rest' hx hprefix => ?_
    by_contra hdigits
    exact hhex _ ⟨x, rest', by rw [hrest, hx], hprefix, rfl, hdigits⟩
  have hsome : ∀ base, 0 < base → leadingDigits base (numeralText text) ≠ [] := by
    intro base hbase
    rw [hrest, leadingDigits_zero_cons base hbase]
    exact List.cons_ne_nil _ _
  have hle : valueIn 8 (leadingDigits 8 (numeralText text)) ≤
      valueIn 10 (leadingDigits 10 (numeralText text)) := by
    rw [leadingDigits_eight]
    exact valueIn_eight_le _
  have height : valueIn 8 (leadingDigits 8 (numeralText text)) =
      valueIn 10 (leadingDigits 10 (numeralText text)) ↔
        valueIn 10 (leadingDigits 10 (numeralText text)) < 8 := by
    rw [leadingDigits_eight]
    exact valueIn_eight_eq _
  unfold SameReading stoi10
  rw [stoi_eq, hoctal]
  simp only [stoiOf_eq_value]
  constructor
  · intro h hfits
    have heq := h _ _ ⟨hsome 10 (by decide), hfits, rfl⟩
      ⟨hsome 8 (by decide), fitsInt_of_le hle hfits, rfl⟩
    exact height.mp (signed_inj.mp heq).symm
  · rintro h n m ⟨-, hfits, rfl⟩ ⟨-, -, rfl⟩
    exact signed_inj.mpr (height.mpr (h hfits)).symm

/-- The two readings agree on the texts that announce no other base, and on small numbers. -/
theorem sameReading_iff (text : String) : SameReading text ↔ BasesAgree text := by
  by_cases hhex : ∃ digits, HexDigits text digits
  · obtain ⟨digits, hdigits⟩ := hhex
    have hunique : ∀ digits', HexDigits text digits' → digits' = digits := by
      obtain ⟨x, rest, hrest, _, rfl, _⟩ := hdigits
      rintro digits' ⟨x', rest', hrest', _, rfl, _⟩
      cases hrest.symm.trans hrest'
      rfl
    rw [sameReading_hex hdigits]
    constructor
    · intro h
      refine ⟨fun digits' h' => ?_, fun _ _ hno => absurd hdigits (hno digits)⟩
      rw [hunique digits' h']
      exact h
    · exact fun h => h.hex digits hdigits
  · have hno : ∀ digits, ¬HexDigits text digits := fun digits h => hhex ⟨digits, h⟩
    by_cases hzero : ∃ rest, numeralText text = '0' :: rest
    · obtain ⟨rest, hrest⟩ := hzero
      rw [sameReading_zero hrest hno]
      exact ⟨fun h => ⟨fun digits h' => absurd h' (hno digits), fun _ _ _ => h⟩,
        fun h => h.zero rest hrest hno⟩
    · have hne : ∀ rest, numeralText text ≠ '0' :: rest := fun rest h => hzero ⟨rest, h⟩
      refine iff_of_true ?_
        ⟨fun digits h => absurd h (hno digits), fun rest h => absurd h (hne rest)⟩
      intro n m hn hm
      rw [stoi_eq, numeral_of_ne_zero hne] at hm
      exact Stoi.value.inj (hn.symm.trans hm)

/-! ## Integers -/

/-- A numeral begins with a digit. -/
theorem isNumeral_head (h : isNumeral s = true) : ∃ c rest, s = c :: rest ∧ digitValue c < 10 := by
  unfold isNumeral at h
  split at h
  · next x rest => exact ⟨'0', x :: rest, rfl, by decide⟩
  · cases s with
    | nil => cases h
    | cons c rest =>
      refine ⟨c, rest, rfl, ?_⟩
      rw [Bool.and_eq_true, List.all_cons, Bool.and_eq_true] at h
      exact of_decide_eq_true h.2.1

theorem isSpace_of_digit {c : Char} (h : digitValue c < 10) : isSpace c = false := by
  refine Bool.eq_false_iff.mpr fun hspace => ?_
  have hlow : c < '0' := by
    unfold isSpace at hspace
    rw [Bool.or_eq_true, beq_iff_eq, Bool.and_eq_true, decide_eq_true_iff, decide_eq_true_iff]
      at hspace
    rcases hspace with rfl | ⟨-, hle⟩
    · decide
    · exact lt_of_le_of_lt hle (by decide)
  unfold digitValue at h
  have hdigit : ¬('0' ≤ c ∧ c ≤ '9') := fun hd => absurd hlow (not_lt.mpr hd.1)
  have hlower : ¬('a' ≤ c ∧ c ≤ 'f') :=
    fun hd => absurd (lt_of_le_of_lt hd.1 hlow) (by decide)
  have hupper : ¬('A' ≤ c ∧ c ≤ 'F') :=
    fun hd => absurd (lt_of_le_of_lt hd.1 hlow) (by decide)
  rw [if_neg hdigit, if_neg hlower, if_neg hupper] at h
  omega

theorem leadingDigits_ne_nil {base : Nat} {c : Char} (h : digitValue c < base) :
    leadingDigits base (c :: rest) ≠ [] := by
  simp [leadingDigits, h]

/-- A numeral has digits. -/
theorem numeral_ne_nil (h : isNumeral s = true) : (numeral s).2 ≠ [] := by
  obtain ⟨c, rest, rfl, hc⟩ := isNumeral_head h
  unfold numeral
  split
  · next x rest' =>
    split
    · next hhex => exact hhex.2
    · exact leadingDigits_ne_nil (by decide)
  · split
    · exact List.cons_ne_nil _ _
    · exact leadingDigits_ne_nil hc

/-- An integer is read from its first character on. -/
theorem numeralText_of_digit {c : Char}
    (hs : s = if text.toList.head? == some '-' || text.toList.head? == some '+' then
      text.toList.tail else text.toList) (hcons : s = c :: rest) (hc : digitValue c < 10) :
    numeralText text = s ∧ isNegative text = (text.toList.head? == some '-') := by
  have hdrop : text.toList.dropWhile isSpace = text.toList := by
    cases htext : text.toList with
    | nil => rfl
    | cons d l =>
      have hd : isSpace d = false := by
        rw [htext] at hs
        by_cases hsign : d = '-' ∨ d = '+'
        · rcases hsign with rfl | rfl
          · decide
          · decide
        · obtain ⟨hminus, hplus⟩ := not_or.mp hsign
          rw [if_neg (by simp [hminus, hplus]), hcons] at hs
          cases hs
          exact isSpace_of_digit hc
      rw [List.dropWhile_cons_of_neg (by simp [hd])]
  unfold numeralText isNegative
  rw [hdrop, hs]
  exact ⟨rfl, rfl⟩

/-- An integer is read as the number that it is. -/
theorem stoi_of_integerOf (h : integerOf text = some n) :
    stoi text = if FitsInt n then .value n else .outOfRange := by
  unfold integerOf at h
  dsimp only at h
  rw [Option.ite_none_right_eq_some] at h
  obtain ⟨hnumeral, h⟩ := h
  obtain ⟨c, rest, hcons, hc⟩ := isNumeral_head hnumeral
  obtain ⟨htext, hnegative⟩ := numeralText_of_digit rfl hcons hc
  cases h
  rw [stoi_eq, htext, hnegative, stoiOf, if_neg (numeral_ne_nil hnumeral)]

theorem leadingDigits_of_all {base : Nat}
    (h : s.all (fun c => decide (digitValue c < base)) = true) :
    leadingDigits base s = s.map digitValue := by
  unfold leadingDigits
  rw [List.takeWhile_eq_self_iff.mpr (List.all_eq_true.mp h)]

/-- A decimal numeral is read as the number that it is, with base ten. -/
theorem stoi10_of_decimalOf (h : decimalOf text = some n) :
    stoi10 text = if FitsInt n then .value n else .outOfRange := by
  unfold decimalOf at h
  dsimp only at h
  rw [Option.ite_none_right_eq_some, Bool.and_eq_true, Bool.not_eq_true', List.isEmpty_eq_false_iff]
    at h
  obtain ⟨⟨hne, hdigits⟩, h⟩ := h
  obtain ⟨c, rest, hcons⟩ := List.exists_cons_of_ne_nil hne
  have hc : digitValue c < 10 := by
    have := List.all_eq_true.mp hdigits c (by rw [hcons]; exact List.mem_cons_self)
    exact of_decide_eq_true this
  obtain ⟨htext, hnegative⟩ := numeralText_of_digit rfl hcons hc
  cases h
  rw [stoi10, htext, hnegative, leadingDigits_of_all hdigits, stoiOf, if_neg]
  simpa using hne

theorem decimalOf_of_invalid (h : stoi10 text = .invalidArgument) : decimalOf text = none := by
  cases hdecimal : decimalOf text with
  | none => rfl
  | some n =>
    have hread := stoi10_of_decimalOf hdecimal
    rw [h] at hread
    split at hread <;> cases hread

theorem decimalOf_of_value (h : stoi10 text = .value n) :
    decimalOf text = none ∨ decimalOf text = some n := by
  cases hdecimal : decimalOf text with
  | none => exact .inl rfl
  | some m =>
    have hread := stoi10_of_decimalOf hdecimal
    rw [h] at hread
    split at hread
    · cases hread
      exact .inr rfl
    · cases hread

end AkLite
