/-
Double quotes in a shell command line.

A word is read as the POSIX shell reads it.  Between double quotes every
character stands for itself, except that a backslash is removed in front of a
dollar sign, a grave accent, a double quote, a backslash or a line end, and that
a dollar sign and a grave accent start an expansion.  A command line whose text
depends on an expansion, or that ends inside quotes, has no reading here.  What
is read is kept with its quotation marks, so that the reading shows where the
quotes begin and end, and `value` removes them.

`readAssignments n` reads `n` variable assignments, each followed by a blank, and
returns them with the rest of the text.  A C string ends at its first NUL
character, which is `cStr`.

`Literal v` says that `v` between double quotes stands for itself.  The theorem
this file exists for is `readAssignments_cStr_iff`: a line of assignments
`NAME="value"` reads as these names with these quoted values exactly when every
value is literal and nothing is cut off.
-/
import Mathlib.Data.List.TakeWhile

namespace AkLite
namespace Lib
namespace Shell

def dquote : Char := '\x22'

def squote : Char := '\x27'

def grave : Char := '\x60'

def backslash : Char := '\x5c'

def nul : Char := '\x00'

def isBlank (c : Char) : Bool := c == ' ' || c == '\t'

/-- The characters that end a word outside quotes. -/
def delimits (c : Char) : Bool :=
  isBlank c || c == '\n' || c == '|' || c == '&' || c == ';' || c == '<' || c == '>' ||
    c == '(' || c == ')'

/-- The characters that start an expansion, inside and outside double quotes. -/
def expands (c : Char) : Bool := c == '$' || c == grave

/-- The characters that a backslash quotes between double quotes. -/
def escapable (c : Char) : Bool := expands c || c == dquote || c == backslash || c == '\n'

/-- A character of a word after its escapes are resolved, or a quotation mark. -/
inductive Piece where
  | char (c : Char)
  | dqOpen
  | dqClose
  | sqOpen
  | sqClose
  deriving DecidableEq, Repr

/-- Quote removal. -/
def value (w : List Piece) : List Char :=
  w.filterMap fun
    | .char c => some c
    | _ => none

/-- Where the reader is: outside quotes, between double or single quotes, or right
after a backslash. -/
inductive Mode where
  | out
  | outEsc
  | dq
  | dqEsc
  | sq
  deriving DecidableEq, Repr

def push (p : Piece) (r : Option (List Piece × List Char)) : Option (List Piece × List Char) :=
  r.map fun q => (p :: q.1, q.2)

/-- Read one word.  The result is the word and the text from its delimiter on. -/
def read : Mode → List Char → Option (List Piece × List Char)
  | .out, [] => some ([], [])
  | _, [] => none
  | .out, c :: rest =>
    if delimits c then some ([], c :: rest)
    else if c = dquote then push .dqOpen (read .dq rest)
    else if c = squote then push .sqOpen (read .sq rest)
    else if c = backslash then read .outEsc rest
    else if expands c then none
    else push (.char c) (read .out rest)
  | .outEsc, c :: rest => if c = '\n' then read .out rest else push (.char c) (read .out rest)
  | .dq, c :: rest =>
    if c = dquote then push .dqClose (read .out rest)
    else if c = backslash then read .dqEsc rest
    else if expands c then none
    else push (.char c) (read .dq rest)
  | .dqEsc, c :: rest =>
    if c = '\n' then read .dq rest
    else if escapable c then push (.char c) (read .dq rest)
    else push (.char backslash) (push (.char c) (read .dq rest))
  | .sq, c :: rest =>
    if c = squote then push .sqClose (read .out rest) else push (.char c) (read .sq rest)

def isNameStart (c : Char) : Bool := c.isAlpha || c == '_'

def isNameChar (c : Char) : Bool := c.isAlphanum || c == '_'

/-- An assignment at the start of the text: its name, its word and the text from
the delimiter of the word on. -/
def readAssignment (s : List Char) : Option ((List Char × List Piece) × List Char) :=
  match s.takeWhile isNameChar, s.dropWhile isNameChar with
  | c :: name, e :: rest =>
    if isNameStart c && e == '=' then
      (read .out rest).map fun q => ((c :: name, q.1), q.2)
    else none
  | _, _ => none

/-- The first `n` words of a command, when they are assignments with a blank after
each, and the text after the last of these blanks. -/
def readAssignments : Nat → List Char → Option (List (List Char × List Piece) × List Char)
  | 0, s => some ([], s)
  | n + 1, s =>
    match readAssignment (s.dropWhile isBlank) with
    | some (a, c :: rest) =>
      if isBlank c then (readAssignments n rest).map fun q => (a :: q.1, q.2) else none
    | _ => none

/-- The text of a string that is passed as a C string. -/
def cStr (s : List Char) : List Char := s.takeWhile fun c => c != nul

/-- Between double quotes the text stands for itself: it has no double quote,
dollar sign or grave accent, and every backslash is followed by a character that
it does not quote. -/
def Literal : List Char → Prop
  | [] => True
  | c :: rest =>
    c ≠ dquote ∧ expands c = false ∧
      (c = backslash → ∃ d ∈ rest.head?, escapable d = false) ∧ Literal rest

/-- The word `"v"`. -/
def quoted (v : List Char) : List Piece := .dqOpen :: (v.map .char ++ [.dqClose])

/-- The text `name="v" ` with its blank. -/
def assign (a : List Char × List Char) : List Char :=
  a.1 ++ '=' :: dquote :: (a.2 ++ [dquote, ' '])

/-- The text reads as these assignments in front of `tail`, each value being one
text between double quotes. -/
def ReadsAs (s : List Char) (as : List (List Char × List Char)) (tail : List Char) : Prop :=
  ∃ words, readAssignments as.length s = some (words, tail) ∧
    (∀ w ∈ words, ∃ v, w.2 = quoted v) ∧ words.map (fun w => (w.1, value w.2)) = as

/-- A name a variable can have. -/
def ValidName (name : List Char) : Prop :=
  (∃ c ∈ name.head?, isNameStart c = true) ∧ ∀ c ∈ name, isNameChar c = true

theorem any_eq_true_iff (p : Char → Bool) (o : Option Char) :
    o.any p = true ↔ ∃ c ∈ o, p c = true := by
  cases o with
  | none => simp
  | some c => simp

instance decidableLiteral : (v : List Char) → Decidable (Literal v)
  | [] => isTrue trivial
  | c :: rest =>
    have := decidableLiteral rest
    have : Decidable (∃ d ∈ rest.head?, escapable d = false) :=
      decidable_of_iff (rest.head?.any (fun d => !escapable d) = true)
        (by simp only [any_eq_true_iff, Bool.not_eq_true'])
    inferInstanceAs (Decidable (c ≠ dquote ∧ expands c = false ∧
      (c = backslash → ∃ d ∈ rest.head?, escapable d = false) ∧ Literal rest))

instance (name : List Char) : Decidable (ValidName name) :=
  decidable_of_iff ((name.head?.any isNameStart && name.all isNameChar) = true)
    (by rw [Bool.and_eq_true, any_eq_true_iff, List.all_eq_true, ValidName])

/-! ## Lengths

Each piece of a word is at least one character of the text, so a reading is never
longer than what it was read from, and is as long only when nothing was escaped. -/

theorem push_eq_some {p : Piece} {r : Option (List Piece × List Char)} {w : List Piece}
    {t : List Char} : push p r = some (w, t) ↔ ∃ w', w = p :: w' ∧ r = some (w', t) := by
  cases r with
  | none => simp [push]
  | some q =>
    obtain ⟨w', t'⟩ := q
    simp only [push, Option.map_some, Option.some.injEq, Prod.mk.injEq]
    constructor
    · rintro ⟨rfl, rfl⟩
      exact ⟨w', rfl, rfl, rfl⟩
    · rintro ⟨u, rfl, rfl, rfl⟩
      exact ⟨rfl, rfl⟩

/-- After a backslash between double quotes one more piece can be owed. -/
def owed : Mode → Nat
  | .dqEsc => 1
  | _ => 0

/-- One character of text and one piece. -/
theorem push_length {p : Piece} {m : Mode} {s t : List Char} {w : List Piece}
    (hm : owed m = 0) (h : push p (read m s) = some (w, t))
    (ih : ∀ {w}, read m s = some (w, t) → w.length + t.length ≤ s.length + owed m) :
    w.length + t.length ≤ s.length + 1 := by
  obtain ⟨w', rfl, hw⟩ := push_eq_some.mp h
  have hle := ih hw
  rw [List.length_cons]
  omega

theorem read_length {m : Mode} {s : List Char} {w : List Piece} {r : List Char}
    (h : read m s = some (w, r)) : w.length + r.length ≤ s.length + owed m := by
  induction s generalizing m w with
  | nil => cases m <;> simp_all [read, owed]
  | cons c rest ih =>
    rw [List.length_cons]
    cases m with
    | out =>
      simp only [read] at h
      split_ifs at h
      · cases h
        simp
      · exact push_length rfl h ih
      · exact push_length rfl h ih
      · exact Nat.le_succ_of_le (ih h)
      · exact push_length rfl h ih
    | outEsc =>
      simp only [read] at h
      split_ifs at h
      · exact Nat.le_succ_of_le (ih h)
      · exact push_length rfl h ih
    | dq =>
      simp only [read] at h
      split_ifs at h
      · exact push_length rfl h ih
      · exact ih h
      · exact push_length rfl h ih
    | dqEsc =>
      simp only [read] at h
      split_ifs at h
      · exact Nat.le_succ_of_le (Nat.le_succ_of_le (ih h))
      · exact Nat.le_succ_of_le (push_length rfl h ih)
      · obtain ⟨w', rfl, hw⟩ := push_eq_some.mp h
        have hle := push_length rfl hw ih
        simp only [List.length_cons, owed]
        omega
    | sq =>
      simp only [read] at h
      split_ifs at h
      · exact push_length rfl h ih
      · exact push_length rfl h ih

/-! ## Literal text -/

/-- A backslash that quotes nothing stands for itself. -/
theorem read_dqEsc_of_not_escapable {d : Char} (h : escapable d = false) (s : List Char) :
    read .dqEsc (d :: s) = push (.char backslash) (read .dq (d :: s)) := by
  simp only [escapable, Bool.or_eq_false_iff, beq_eq_false_iff_ne] at h
  obtain ⟨⟨⟨hexp, hdq⟩, hbs⟩, hnl⟩ := h
  simp [read, escapable, hexp, hdq, hbs, hnl]

theorem read_dq_literal {v : List Char} (h : Literal v) (s : List Char) :
    read .dq (v ++ dquote :: s) =
      (read .out s).map fun q => (v.map .char ++ .dqClose :: q.1, q.2) := by
  induction v with
  | nil => simp [read, push]
  | cons c v ih =>
    obtain ⟨hdq, hexp, hesc, hv⟩ := h
    have ih := ih hv
    by_cases hbs : c = backslash
    · obtain ⟨d, hd, hnot⟩ := hesc hbs
      obtain ⟨v', rfl⟩ : ∃ v', v = d :: v' := by
        cases v with
        | nil => simp at hd
        | cons x v' => exact ⟨v', by simpa using hd⟩
      have hstep : read .dq (c :: (d :: v' ++ dquote :: s)) =
          read .dqEsc (d :: (v' ++ dquote :: s)) := by
        simp [read, hbs, backslash, dquote]
      rw [List.cons_append, hstep, read_dqEsc_of_not_escapable hnot, ← List.cons_append, ih, hbs]
      simp [push, Option.map_map, Function.comp_def]
    · have hstep : read .dq (c :: (v ++ dquote :: s)) =
          push (.char c) (read .dq (v ++ dquote :: s)) := by
        simp [read, hdq, hexp, hbs]
      rw [List.cons_append, hstep, ih]
      simp [push, Option.map_map, Function.comp_def]

/-- A reading of double quotes that drops no character is of literal text. -/
theorem literal_of_read {v s r : List Char}
    (h : read .dq s = some (v.map .char ++ [.dqClose], r))
    (hlen : v.length + 1 + r.length = s.length) : Literal v := by
  induction v generalizing s with
  | nil => trivial
  | cons x v ih =>
    cases s with
    | nil => simp [read] at h
    | cons c rest =>
      simp only [List.length_cons] at hlen
      simp only [read, List.map_cons, List.cons_append] at h
      split_ifs at h with hdq hbs hexp
      · obtain ⟨w', hw, -⟩ := push_eq_some.mp h
        simp at hw
      · cases rest with
        | nil => simp [read] at h
        | cons d rest =>
          by_cases hesc : escapable d = true
          · -- The backslash is dropped, and then the pieces are too few.
            exfalso
            simp only [List.length_cons] at hlen
            simp only [read, hesc, if_true] at h
            split_ifs at h
            · have hle := read_length h
              simp [owed] at hle
              omega
            · obtain ⟨w', hw, hread⟩ := push_eq_some.mp h
              have hle := read_length hread
              rw [(List.cons.inj hw).2.symm] at hle
              simp [owed] at hle
              omega
          · have hnot : escapable d = false := by simpa using hesc
            rw [read_dqEsc_of_not_escapable hnot] at h
            obtain ⟨w', hw, hread⟩ := push_eq_some.mp h
            obtain ⟨hx, rfl⟩ := List.cons.inj hw
            obtain rfl : x = backslash := by simpa using hx
            refine ⟨by decide, by decide, fun _ => ⟨d, ?_, hnot⟩, ih hread (by omega)⟩
            -- The next piece is the character after the backslash.
            simp only [escapable, Bool.or_eq_false_iff, beq_eq_false_iff_ne] at hnot
            obtain ⟨⟨⟨hdexp, hddq⟩, hdbs⟩, -⟩ := hnot
            simp only [read, hddq, hdbs, hdexp, if_false, Bool.false_eq_true] at hread
            obtain ⟨w', hw, -⟩ := push_eq_some.mp hread
            cases v with
            | nil => simp at hw
            | cons y v =>
              obtain rfl : y = d := Piece.char.inj (List.cons.inj hw).1
              rfl
      · obtain ⟨w', hw, hread⟩ := push_eq_some.mp h
        obtain ⟨hx, rfl⟩ := List.cons.inj hw
        obtain rfl : x = c := by simpa using hx
        exact ⟨hdq, by simpa using hexp, fun e => absurd e hbs, ih hread (by omega)⟩

/-! ## Assignments -/

theorem isNameStart_not_blank {c : Char} (h : isNameStart c = true) : isBlank c = false := by
  by_contra hb
  simp only [isBlank, Bool.not_eq_false, Bool.or_eq_true, beq_iff_eq] at hb
  rcases hb with rfl | rfl <;> simp [isNameStart] at h

/-- The reading of a text that starts with a valid name, an equals sign and a
double quote. -/
theorem readAssignments_cons {name s tail : List Char} (hname : ValidName name) {k : Nat}
    {w : List Piece} {as : List (List Char × List Piece)} :
    readAssignments (k + 1) (name ++ '=' :: dquote :: s) = some ((name, .dqOpen :: w) :: as, tail) ↔
      ∃ c rest, read .dq s = some (w, c :: rest) ∧ isBlank c = true ∧
        readAssignments k rest = some (as, tail) := by
  obtain ⟨⟨x, hx, hstart⟩, hall⟩ := hname
  obtain ⟨name', rfl⟩ : ∃ name', name = x :: name' := by
    cases name with
    | nil => simp at hx
    | cons y name' => exact ⟨name', by simpa using hx⟩
  have htake : (x :: name' ++ '=' :: dquote :: s).takeWhile isNameChar = x :: name' := by
    rw [List.takeWhile_append_of_pos hall]
    simp [isNameChar]
  have hdrop : (x :: name' ++ '=' :: dquote :: s).dropWhile isNameChar = '=' :: dquote :: s := by
    rw [List.dropWhile_append_of_pos hall]
    simp [isNameChar]
  have hblank : (x :: name' ++ '=' :: dquote :: s).dropWhile isBlank =
      x :: name' ++ '=' :: dquote :: s := by
    rw [List.cons_append, List.dropWhile_cons_of_neg (by simp [isNameStart_not_blank hstart])]
  have hword : read .out (dquote :: s) = push .dqOpen (read .dq s) := by
    simp [read, delimits, isBlank, dquote]
  rw [readAssignments, hblank, readAssignment, htake, hdrop]
  simp only [hstart, beq_self_eq_true, Bool.and_self, if_true, hword]
  cases hread : read .dq s with
  | none => simp [push]
  | some q =>
    obtain ⟨w', t⟩ := q
    cases t with
    | nil => simp [push]
    | cons c rest =>
      by_cases hc : isBlank c = true
      · cases hrest : readAssignments k rest with
        | none => simp [push, hc, hrest]
        | some q => simp [push, hc, hrest, Prod.ext_iff, and_assoc]
      · simp [push, hc]

theorem readAssignment_length {s t : List Char} {a : List Char × List Piece}
    (h : readAssignment s = some (a, t)) : a.1.length + 1 + a.2.length + t.length ≤ s.length := by
  have hs : (s.takeWhile isNameChar).length + (s.dropWhile isNameChar).length = s.length := by
    rw [← List.length_append, List.takeWhile_append_dropWhile]
  unfold readAssignment at h
  split at h
  · rename_i c name e rest htake hdrop
    split_ifs at h
    obtain ⟨q, hread, hq⟩ := Option.map_eq_some_iff.mp h
    cases hq
    have hle := read_length hread
    rw [htake, hdrop] at hs
    simp only [List.length_cons, owed] at hs hle ⊢
    omega
  · simp at h

/-- The least length of a text that reads as these words. -/
def wordsLength : List (List Char × List Piece) → Nat
  | [] => 0
  | a :: rest => a.1.length + a.2.length + 2 + wordsLength rest

theorem readAssignments_length {k : Nat} {s tail : List Char} {as : List (List Char × List Piece)}
    (h : readAssignments k s = some (as, tail)) :
    wordsLength as + tail.length ≤ s.length := by
  induction k generalizing s as with
  | zero =>
    simp [readAssignments] at h
    simp [h, wordsLength]
  | succ k ih =>
    rw [readAssignments] at h
    cases ha : readAssignment (s.dropWhile isBlank) with
    | none => simp [ha] at h
    | some q =>
      obtain ⟨a, t⟩ := q
      cases t with
      | nil => simp [ha] at h
      | cons c rest =>
        by_cases hc : isBlank c = true
        · cases hrest : readAssignments k rest with
          | none => simp [ha, hc, hrest] at h
          | some q =>
            simp only [ha, hc, hrest, if_true, Option.map_some, Option.some.injEq,
              Prod.mk.injEq] at h
            obtain ⟨rfl, rfl⟩ := h
            have hle := ih hrest
            have hone := readAssignment_length ha
            have hdrop := (List.dropWhile_suffix isBlank (l := s)).length_le
            simp only [wordsLength, List.length_cons] at hone ⊢
            omega
        · simp [ha, hc] at h

/-! ## C strings -/

theorem cStr_append_of_notMem {a : List Char} (h : nul ∉ a) (b : List Char) :
    cStr (a ++ b) = a ++ cStr b := by
  refine List.takeWhile_append_of_pos (fun c hc => ?_)
  simpa using fun e : c = nul => h (e ▸ hc)

theorem cStr_length_lt {a : List Char} (h : nul ∈ a) (b : List Char) :
    (cStr (a ++ b)).length < a.length := by
  induction a with
  | nil => simp at h
  | cons c a ih =>
    by_cases hc : c = nul
    · simp [cStr, hc]
    · rw [List.cons_append, cStr, List.takeWhile_cons_of_pos (by simpa using hc)]
      have ih := ih (by simpa [Ne.symm hc] using h)
      simpa [cStr] using ih

theorem cStr_length_le (s : List Char) : (cStr s).length ≤ s.length :=
  (List.takeWhile_prefix _).length_le

theorem cStr_eq_self_iff {s : List Char} : cStr s = s ↔ nul ∉ s := by
  rw [cStr, List.takeWhile_eq_self_iff]
  constructor
  · intro h hmem
    simpa using h nul hmem
  · intro h c hc
    simpa using fun e : c = nul => h (e ▸ hc)

theorem nul_notMem_of_validName {name : List Char} (h : ValidName name) : nul ∉ name := by
  intro hmem
  have := h.2 nul hmem
  revert this
  decide

/-- The length of a line of assignments, counted as the reading counts it. -/
theorem length_flatMap_assign (as : List (List Char × List Char)) (tail : List Char) :
    (as.flatMap assign ++ tail).length =
      wordsLength (as.map fun a => (a.1, quoted a.2)) + tail.length := by
  induction as with
  | nil => simp [wordsLength]
  | cons a as ih =>
    simp only [List.flatMap_cons, List.map_cons, wordsLength, List.length_append] at ih ⊢
    have hone : (assign a).length = a.1.length + (quoted a.2).length + 2 := by
      simp [assign, quoted]
      omega
    omega

theorem value_quoted (v : List Char) : value (quoted v) = v := by
  induction v with
  | nil => rfl
  | cons c v ih => exact congrArg (c :: ·) ih

theorem readsAs_iff {s tail : List Char} {as : List (List Char × List Char)} :
    ReadsAs s as tail ↔
      readAssignments as.length s = some (as.map fun a => (a.1, quoted a.2), tail) := by
  constructor
  · rintro ⟨words, hread, hquoted, rfl⟩
    have hwords : words.map (fun w => (w.1, quoted (value w.2))) = words := by
      refine (List.map_congr_left (g := id) (fun w hw => ?_)).trans (List.map_id words)
      obtain ⟨v, hv⟩ := hquoted w hw
      simp [hv, value_quoted, Prod.ext_iff]
    rw [hread, List.map_map]
    exact congrArg (fun l => some (l, tail)) hwords.symm
  · intro hread
    refine ⟨_, hread, fun w hw => ?_, ?_⟩
    · obtain ⟨a, -, rfl⟩ := List.mem_map.mp hw
      exact ⟨a.2, rfl⟩
    · simp [value_quoted, Function.comp_def]

/-- A line of assignments `name="value"` in front of `tail`, passed as a C string,
reads as these assignments with `tail` behind them exactly when every value is
literal and there is no NUL character. -/
theorem readAssignments_cStr_iff {as : List (List Char × List Char)} {tail : List Char}
    (hnames : ∀ a ∈ as, ValidName a.1) :
    readAssignments as.length (cStr (as.flatMap assign ++ tail)) =
        some (as.map fun a => (a.1, quoted a.2), tail) ↔
      (∀ a ∈ as, Literal a.2 ∧ nul ∉ a.2) ∧ nul ∉ tail := by
  induction as with
  | nil => simp [readAssignments, cStr_eq_self_iff]
  | cons a as ih =>
    obtain ⟨name, v⟩ := a
    have hname : ValidName name := hnames (name, v) List.mem_cons_self
    have ih := ih (fun a ha => hnames a (List.mem_cons_of_mem _ ha))
    -- The text up to the opening quote has no NUL.
    have hhead : nul ∉ name ++ ['=', dquote] := by
      have := nul_notMem_of_validName hname
      simp only [List.mem_append, List.mem_cons, List.not_mem_nil, or_false, not_or]
      exact ⟨this, by decide, by decide⟩
    have htext : cStr (((name, v) :: as).flatMap assign ++ tail) =
        name ++ '=' :: dquote :: cStr (v ++ dquote :: ' ' :: (as.flatMap assign ++ tail)) := by
      rw [show ((name, v) :: as).flatMap assign ++ tail = (name ++ ['=', dquote]) ++
        (v ++ dquote :: ' ' :: (as.flatMap assign ++ tail)) by simp [assign],
        cStr_append_of_notMem hhead]
      simp
    rw [htext, List.length_cons, List.map_cons, quoted, readAssignments_cons hname]
    simp only [List.forall_mem_cons]
    by_cases hv : nul ∈ v
    · -- The text is cut inside the value, which is then too short.
      refine iff_of_false ?_ (fun h => h.1.1.2 hv)
      rintro ⟨c, rest, hread, -⟩
      have hle := read_length hread
      have hlt := cStr_length_lt hv (dquote :: ' ' :: (as.flatMap assign ++ tail))
      simp [owed] at hle
      omega
    have hbody : cStr (v ++ dquote :: ' ' :: (as.flatMap assign ++ tail)) =
        v ++ dquote :: ' ' :: cStr (as.flatMap assign ++ tail) := by
      rw [cStr_append_of_notMem hv]
      simp [cStr, nul, dquote]
    rw [hbody]
    constructor
    · rintro ⟨c, rest, hread, hc, hrest⟩
      -- The rest is long enough for the assignments to come, so nothing was dropped.
      have hlen := readAssignments_length hrest
      rw [← length_flatMap_assign] at hlen
      have hle := read_length hread
      have hcut := cStr_length_le (as.flatMap assign ++ tail)
      have hlit : Literal v := by
        refine literal_of_read hread ?_
        simp [owed] at hle ⊢
        omega
      have htail : c :: rest = ' ' :: cStr (as.flatMap assign ++ tail) := by
        rw [read_dq_literal hlit] at hread
        simp [read, delimits, isBlank] at hread
        rw [← hread.1, hread.2]
      rw [(List.cons.inj htail).2] at hrest
      obtain ⟨hall, hnul⟩ := ih.mp hrest
      exact ⟨⟨⟨hlit, hv⟩, hall⟩, hnul⟩
    · rintro ⟨⟨⟨hlit, -⟩, hall⟩, hnul⟩
      refine ⟨' ', _, ?_, by decide, ih.mpr ⟨hall, hnul⟩⟩
      rw [read_dq_literal hlit]
      simp [read, delimits, isBlank]

end Shell
end Lib
end AkLite
