/-
The challenge of a registry.

A registry that wants a token answers with a header `bearer name="value", ...`.  The
parser takes what follows the last `bearer` in the header, and reads one parameter after
the other: the name up to the next `=`, the value between the next two quotes, and then on
from the next comma.  So a header is read as it was written unless the word is in one of
its parameters.
-/
import AkLite.Lib.Assoc
import AkLite.Lib.Outcome
import AkLite.Lib.Text
import Mathlib.Data.List.Nodup

namespace AkLite
namespace Docker

open Lib

structure BearerAuth where
  realm : String
  service : String
  scope : String
  deriving DecidableEq, Repr

namespace BearerAuth

def authType : List Char := "bearer".toList

/-- What `boost::trim` takes off. -/
def isSpace (c : Char) : Bool :=
  c = ' ' || c = '\t' || c = '\n' || c = '\x0b' || c = '\x0c' || c = '\r'

/-- A parameter, and where the next one starts. -/
structure Param where
  name : String
  value : String
  next : Option (List Char)

/-- One round of the loop.  There is no parameter without a `=`. -/
def nextParam (header : String) (rest : List Char) : Except String (Option Param) := do
  if !rest.contains '=' then return none
  let untilEq := rest.takeWhile (· ≠ '=')
  if !rest.contains '"' then
    throw ("Invalid value of Bearer auth parameters; missing openning `\"` in " ++ header)
  let untilQuote := rest.takeWhile (· ≠ '"')
  if untilQuote.length < untilEq.length then
    throw ("Invalid value of Bearer auth parameters; `\"` before `=` in " ++ header)
  if (untilQuote.drop (untilEq.length + 1)).any (· ≠ ' ') then
    throw ("Invalid value of Bearer auth parameters; missing openning `\"` in " ++ header)
  let quoted := rest.drop (untilQuote.length + 1)
  if !quoted.contains '"' then
    throw ("Invalid value of Bearer auth parameters; missing clossing `\"` in " ++ header)
  let value := quoted.takeWhile (· ≠ '"')
  let closed := quoted.drop value.length
  return some
    { name := String.ofList (trim isSpace untilEq)
      value := String.ofList (trim isSpace value)
      next := if closed.contains ',' then
          some (closed.drop ((closed.takeWhile (· ≠ ',')).length + 1))
        else none }

/-- The loop, with the parameters read so far.  It gives nothing if it is not over after
`fuel` rounds. -/
def readParams (header : String) :
    Nat → List Char → List (String × String) → Option (Except String (List (String × String)))
  | 0, _, _ => none
  | fuel + 1, rest, params =>
    match nextParam header rest with
    | .error what => some (.error what)
    | .ok none => some (.ok params)
    | .ok (some param) =>
      match param.next with
      | none => some (.ok ((param.name, param.value) :: params))
      | some rest => readParams header fuel rest ((param.name, param.value) :: params)

def requiredParams : List String := ["realm", "service", "scope"]

/-- The end of the constructor.  The latest value of a parameter counts. -/
def ofParams (params : List (String × String)) : Except String BearerAuth :=
  let missing := requiredParams.filter fun name => (params.lookup name).isNone
  if missing ≠ [] then
    .error ("Missing required auth param(s): " ++ ", ".intercalate missing)
  else
    .ok { realm := (params.lookup "realm").getD ""
          service := (params.lookup "service").getD ""
          scope := (params.lookup "scope").getD "" }

/-- The constructor. -/
def parse (header : String) : Option (Except String BearerAuth) :=
  if !authType.isPrefixOf header.toList then
    some (.error ("Unsupported authentication type to access Registry: " ++ header))
  else
    let value := trim isSpace ((afterLast authType header.toList).getD [])
    (readParams header (value.length + 1) value []).map fun params => params >>= ofParams

/-! ## One round -/

variable {header : String} {rest : List Char}

/-- What a round has passed over: two quotes, and the next parameter comes after them. -/
theorem nextParam_shape {param : Param} (h : nextParam header rest = .ok (some param)) :
    ∃ a b c, rest = a ++ '"' :: (b ++ '"' :: c) ∧ ∀ next ∈ param.next, next <:+ c := by
  unfold nextParam at h
  split at h
  · cases h
  obtain ⟨hquote, h⟩ := ite_error_eq_ok.mp h
  obtain ⟨_, h⟩ := ite_error_eq_ok.mp h
  obtain ⟨_, h⟩ := ite_error_eq_ok.mp h
  obtain ⟨hclosing, h⟩ := ite_error_eq_ok.mp h
  cases h
  have hquote : '"' ∈ rest := by simpa using hquote
  obtain ⟨a, quoted, rfl, ha⟩ := List.eq_append_cons_of_mem hquote
  rw [takeWhile_ne_append ha, drop_length_succ_append] at hclosing ⊢
  have hclosing : '"' ∈ quoted := by simpa using hclosing
  obtain ⟨b, c, rfl, hb⟩ := List.eq_append_cons_of_mem hclosing
  refine ⟨a, b, c, rfl, ?_⟩
  rw [takeWhile_ne_append hb, List.drop_left]
  intro next hnext
  dsimp only at hnext
  split at hnext
  · cases hnext
    rw [List.takeWhile_cons_of_pos (by decide), List.length_cons, List.drop_succ_cons]
    exact List.drop_suffix _ _
  · cases hnext

/-- A parameter is read as it is written. -/
theorem nextParam_eq {a b value c : List Char} (ha : '=' ∉ a ∧ '"' ∉ a) (hb : ∀ x ∈ b, x = ' ')
    (hvalue : '"' ∉ value) :
    nextParam header (a ++ '=' :: (b ++ '"' :: (value ++ '"' :: c))) =
      .ok (some
        { name := String.ofList (trim isSpace a)
          value := String.ofList (trim isSpace value)
          next := if c.contains ',' then some (c.drop ((c.takeWhile (· ≠ ',')).length + 1))
            else none }) := by
  have hopening : a ++ '=' :: (b ++ '"' :: (value ++ '"' :: c)) =
      (a ++ '=' :: b) ++ '"' :: (value ++ '"' :: c) := by
    rw [List.append_assoc]
    rfl
  have hquote : '"' ∉ a ++ '=' :: b := by
    simp only [List.mem_append, List.mem_cons, not_or]
    refine ⟨ha.2, by decide, fun hmem => ?_⟩
    have hspace := hb _ hmem
    revert hspace
    decide
  have hblanks : (b.any (· ≠ ' ')) = false := by
    rw [List.any_eq_false]
    exact fun x hx => by simp [hb x hx]
  have hlength : ¬ (a ++ '=' :: b).length < a.length := by
    rw [List.length_append]
    omega
  unfold nextParam
  rw [if_neg (by simp), takeWhile_ne_append ha.1, hopening, takeWhile_ne_append hquote]
  dsimp only
  rw [drop_length_succ_append, drop_length_succ_append, if_neg (by simp), if_neg hlength, hblanks,
    if_neg (by decide), if_neg (by simp), takeWhile_ne_append hvalue, List.drop_left,
    List.takeWhile_cons_of_pos (by decide)]
  simp
  rfl

/-! ## The loop ends -/

/-- Every round starts behind the one before, so there are not more rounds than characters. -/
theorem exists_readParams {fuel : Nat} {params : List (String × String)}
    (h : rest.length < fuel) : ∃ result, readParams header fuel rest params = some result := by
  induction fuel generalizing rest params with
  | zero => exact absurd h (Nat.not_lt_zero _)
  | succ fuel ih =>
    rw [readParams]
    split
    · exact ⟨_, rfl⟩
    · exact ⟨_, rfl⟩
    · next param hparam =>
      split
      · exact ⟨_, rfl⟩
      · next next hnext =>
        obtain ⟨a, b, c, rfl, hsuffix⟩ := nextParam_shape hparam
        have hle := (hsuffix next hnext).length_le
        simp only [List.length_append, List.length_cons] at h
        exact ih (by omega)

theorem readParams_succ {fuel : Nat} {params : List (String × String)}
    {result : Except String (List (String × String))}
    (h : readParams header fuel rest params = some result) :
    readParams header (fuel + 1) rest params = some result := by
  induction fuel generalizing rest params with
  | zero => cases h
  | succ fuel ih =>
    rw [readParams] at h ⊢
    cases hparam : nextParam header rest with
    | error what =>
      rw [hparam] at h
      exact h
    | ok found =>
      rw [hparam] at h
      cases found with
      | none => exact h
      | some param =>
        dsimp only at h ⊢
        cases hnext : param.next with
        | none =>
          rw [hnext] at h
          exact h
        | some next =>
          rw [hnext] at h
          exact ih h

theorem readParams_ends (header : String) (rest : List Char) (params : List (String × String)) :
    ∃ result, ∀ fuel, rest.length < fuel → readParams header fuel rest params = some result := by
  obtain ⟨result, hresult⟩ : ∃ result,
      readParams header (rest.length + 1) rest params = some result :=
    exists_readParams (Nat.lt_succ_self rest.length)
  refine ⟨result, fun fuel hfuel => ?_⟩
  induction hfuel with
  | refl => exact hresult
  | step _ ih => exact readParams_succ ih

/-- Two quotes have been passed over for every parameter. -/
theorem length_readParams {fuel : Nat} {params result : List (String × String)}
    (h : readParams header fuel rest params = some (.ok result)) :
    2 * result.length ≤ 2 * params.length + rest.count '"' := by
  induction fuel generalizing rest params with
  | zero => cases h
  | succ fuel ih =>
    rw [readParams] at h
    split at h
    · cases h
    · cases h
      omega
    · next param hparam =>
      obtain ⟨a, b, c, rfl, hsuffix⟩ := nextParam_shape hparam
      have hcount : (a ++ '"' :: (b ++ '"' :: c)).count '"' =
          a.count '"' + b.count '"' + c.count '"' + 2 := by
        simp only [List.count_append, List.count_cons_self]
        omega
      rw [hcount]
      split at h
      · cases h
        rw [List.length_cons]
        omega
      · next next hnext =>
        have hrest := ih h
        have hle := (hsuffix next hnext).sublist.count_le '"'
        rw [List.length_cons] at hrest
        omega

/-! ## Writing a header -/

structure Field where
  name : List Char
  value : List Char
  deriving DecidableEq

/-- A name has no separators and no blanks, and a value has no quotes and no blanks at its
ends. -/
structure Field.Plain (field : Field) : Prop where
  name : ∀ c ∈ field.name, c ≠ '=' ∧ c ≠ '"' ∧ c ≠ ',' ∧ isSpace c = false
  value : '"' ∉ field.value
  trimmed : Trimmed isSpace field.value

instance (field : Field) : Decidable field.Plain :=
  have : Decidable (∀ c ∈ field.name, c ≠ '=' ∧ c ≠ '"' ∧ c ≠ ',' ∧ isSpace c = false) :=
    List.decidableBAll _ field.name
  decidable_of_iff ((∀ c ∈ field.name, c ≠ '=' ∧ c ≠ '"' ∧ c ≠ ',' ∧ isSpace c = false) ∧
    '"' ∉ field.value ∧ Trimmed isSpace field.value)
    ⟨fun h => ⟨h.1, h.2.1, h.2.2⟩, fun h => ⟨h.name, h.value, h.trimmed⟩⟩

/-- The numbers of spaces before the name, before and after the `=`, and after the value. -/
structure Spacing where
  lead : Nat
  beforeEq : Nat
  afterEq : Nat
  trail : Nat

def spaces (n : Nat) : List Char := List.replicate n ' '

/-- The text of a parameter up to its `=`. -/
def Spacing.nameText (space : Spacing) (name : List Char) : List Char :=
  spaces space.lead ++ (name ++ spaces space.beforeEq)

/-- A parameter, with what follows it. -/
def write (field : Field × Spacing) (rest : List Char) : List Char :=
  field.2.nameText field.1.name ++ '=' :: (spaces field.2.afterEq ++
    '"' :: (field.1.value ++ '"' :: (spaces field.2.trail ++ rest)))

def writeAll : List (Field × Spacing) → List Char
  | [] => []
  | [field] => write field []
  | field :: other :: fields => write field (',' :: writeAll (other :: fields))

def writeHeader (fields : List (Field × Spacing)) : String :=
  String.ofList (authType ++ ' ' :: writeAll fields)

def Field.entry (field : Field) : String × String :=
  (String.ofList field.name, String.ofList field.value)

variable {n : Nat} {c : Char} {field : Field × Spacing} {fields : List (Field × Spacing)}

theorem eq_space_of_mem_spaces (h : c ∈ spaces n) : c = ' ' :=
  (List.mem_replicate.mp h).2

theorem isSpace_of_mem_spaces (h : c ∈ spaces n) : isSpace c = true := by
  rw [eq_space_of_mem_spaces h]
  rfl

theorem trimmed_of_plain_name {name : List Char} (h : ∀ c ∈ name, isSpace c = false) :
    Trimmed isSpace name :=
  ⟨fun c hc => h c (List.mem_of_mem_head? hc), fun c hc => h c (List.mem_of_mem_getLast? hc)⟩

theorem trim_nameText {field : Field} (h : field.Plain) (space : Spacing) :
    trim isSpace (space.nameText field.name) = field.name :=
  trim_pad (trimmed_of_plain_name fun c hc => (h.name c hc).2.2.2)
    (fun _ => isSpace_of_mem_spaces) fun _ => isSpace_of_mem_spaces

theorem trim_value {field : Field} (h : field.Plain) : trim isSpace field.value = field.value := by
  have htrim := trim_pad (a := []) (b := []) h.trimmed (List.forall_mem_nil _)
    (List.forall_mem_nil _)
  rwa [List.nil_append, List.append_nil] at htrim

theorem not_mem_nameText {field : Field} {space : Spacing} (hname : c ∉ field.name)
    (hspace : c ≠ ' ') : c ∉ space.nameText field.name := by
  rw [Spacing.nameText, List.mem_append, List.mem_append]
  rintro (h | h | h)
  · exact hspace (eq_space_of_mem_spaces h)
  · exact hname h
  · exact hspace (eq_space_of_mem_spaces h)

theorem comma_not_mem_spaces (n : Nat) : ',' ∉ spaces n := by
  intro h
  have hspace := eq_space_of_mem_spaces h
  revert hspace
  decide

/-- A written parameter is read, up to what follows it. -/
theorem nextParam_write (h : field.1.Plain) (rest : List Char) {next : Option (List Char)}
    (hnext : next = if (spaces field.2.trail ++ rest).contains ',' then
        some ((spaces field.2.trail ++ rest).drop
          (((spaces field.2.trail ++ rest).takeWhile (· ≠ ',')).length + 1))
      else none) :
    nextParam header (write field rest) =
      .ok (some { name := field.1.entry.1, value := field.1.entry.2, next := next }) := by
  rw [write, nextParam_eq ⟨not_mem_nameText (fun hc => (h.name _ hc).1 rfl) (by decide),
    not_mem_nameText (fun hc => (h.name _ hc).2.1 rfl) (by decide)⟩
    (fun _ => eq_space_of_mem_spaces) h.value, trim_nameText h, trim_value h, hnext]
  rfl

theorem nextParam_write_last (h : field.1.Plain) : nextParam header (write field []) =
      .ok (some { name := field.1.entry.1, value := field.1.entry.2, next := none }) := by
  refine nextParam_write h [] ?_
  rw [List.append_nil, if_neg (by simpa using comma_not_mem_spaces _)]

theorem nextParam_write_comma (h : field.1.Plain) (rest : List Char) :
    nextParam header (write field (',' :: rest)) =
      .ok (some { name := field.1.entry.1, value := field.1.entry.2, next := some rest }) := by
  refine nextParam_write h (',' :: rest) ?_
  rw [if_pos (by simp), takeWhile_ne_append (comma_not_mem_spaces _), drop_length_succ_append]

/-- The loop reads what was written, the last parameter first. -/
theorem readParams_writeAll (hne : fields ≠ []) (h : ∀ field ∈ fields, field.1.Plain) {fuel : Nat}
    (hfuel : fields.length ≤ fuel) (params : List (String × String)) :
    readParams header fuel (writeAll fields) params =
      some (.ok ((fields.map fun field => field.1.entry).reverse ++ params)) := by
  induction fields generalizing fuel params with
  | nil => exact absurd rfl hne
  | cons field fields ih =>
    obtain ⟨hfield, hfields⟩ := List.forall_mem_cons.mp h
    cases fuel with
    | zero => exact absurd hfuel (by simp)
    | succ fuel =>
      rw [List.length_cons, Nat.add_le_add_iff_right] at hfuel
      cases fields with
      | nil =>
        rw [writeAll, readParams, nextParam_write_last hfield]
        rfl
      | cons other fields =>
        rw [writeAll, readParams, nextParam_write_comma hfield]
        dsimp only
        rw [ih (by simp) hfields hfuel]
        simp

/-! ## The blanks at the ends -/

theorem write_append (field : Field × Spacing) (a b : List Char) :
    write field (a ++ b) = write field a ++ b := by
  simp [write]

theorem writeAll_cons_of_ne_nil (field : Field × Spacing) (h : fields ≠ []) :
    writeAll (field :: fields) = write field (',' :: writeAll fields) := by
  cases fields with
  | nil => exact absurd rfl h
  | cons other fields => rfl

/-- The first parameter starts with its name. -/
theorem writeAll_cons (field : Field) (space : Spacing) (fields : List (Field × Spacing)) :
    ∃ rest, ∀ lead beforeEq,
      writeAll ((field, { space with lead := lead, beforeEq := beforeEq }) :: fields) =
        spaces lead ++ (field.name ++ (spaces beforeEq ++ '=' :: rest)) := by
  cases fields with
  | nil =>
    refine ⟨spaces space.afterEq ++ '"' :: (field.value ++ '"' :: (spaces space.trail ++ [])),
      fun lead beforeEq => ?_⟩
    simp [writeAll, write, Spacing.nameText]
  | cons other fields =>
    refine ⟨spaces space.afterEq ++ '"' :: (field.value ++ '"' :: (spaces space.trail ++
      ',' :: writeAll (other :: fields))), fun lead beforeEq => ?_⟩
    simp [writeAll, write, Spacing.nameText]

/-- Without the blanks before the first name it is still a list of parameters. -/
theorem exists_dropWhile_writeAll (hne : fields ≠ []) (h : ∀ field ∈ fields, field.1.Plain) :
    ∃ fields', fields'.map Prod.fst = fields.map Prod.fst ∧
      (' ' :: writeAll fields).dropWhile isSpace = writeAll fields' := by
  cases fields with
  | nil => exact absurd rfl hne
  | cons first fields =>
    obtain ⟨field, space⟩ := first
    obtain ⟨rest, hrest⟩ := writeAll_cons field space fields
    have hwrite : ' ' :: writeAll ((field, space) :: fields) =
        spaces (space.lead + 1) ++ (field.name ++ (spaces space.beforeEq ++ '=' :: rest)) :=
      congrArg (' ' :: ·) (hrest space.lead space.beforeEq)
    have hspaces : ∀ n, ∀ c ∈ spaces n, isSpace c = true := fun _ _ => isSpace_of_mem_spaces
    rw [hwrite, List.dropWhile_append_of_pos (hspaces _)]
    cases hname : field.name with
    | nil =>
      refine ⟨(field, { space with lead := 0, beforeEq := 0 }) :: fields, rfl, ?_⟩
      rw [hrest 0 0, hname, List.nil_append, List.dropWhile_append_of_pos (hspaces _)]
      rfl
    | cons c name =>
      refine ⟨(field, { space with lead := 0 }) :: fields, rfl, ?_⟩
      have hhead := ((h _ List.mem_cons_self).name c (hname ▸ List.mem_cons_self)).2.2.2
      rw [hrest 0 space.beforeEq, hname]
      exact List.dropWhile_cons_of_neg (by simp [hhead])

/-- So it is without the blanks after the last value. -/
theorem exists_writeAll_end (hne : fields ≠ []) :
    ∃ fields' text n, fields'.map Prod.fst = fields.map Prod.fst ∧
      writeAll fields = text ++ '"' :: spaces n ∧ writeAll fields' = text ++ ['"'] := by
  induction fields with
  | nil => exact absurd rfl hne
  | cons field fields ih =>
    by_cases hlast : fields = []
    · cases hlast
      refine ⟨[(field.1, { field.2 with trail := 0 })], field.2.nameText field.1.name ++
        '=' :: (spaces field.2.afterEq ++ '"' :: field.1.value), field.2.trail, rfl, ?_, ?_⟩
      · simp [writeAll, write]
      · simp [writeAll, write, Spacing.nameText, spaces]
    · obtain ⟨fields', text, n, hsame, hwrite, hwrite'⟩ := ih hlast
      have hne' : fields' ≠ [] := by
        rintro rfl
        exact hlast (List.map_eq_nil_iff.mp hsame.symm)
      refine ⟨field :: fields', write field (',' :: text), n, ?_, ?_, ?_⟩
      · rw [List.map_cons, List.map_cons, hsame]
      · rw [writeAll_cons_of_ne_nil field hlast, hwrite]
        exact write_append field (',' :: text) ('"' :: spaces n)
      · rw [writeAll_cons_of_ne_nil field hne', hwrite']
        exact write_append field (',' :: text) ['"']

/-- What is left of a header is a list of the same parameters. -/
theorem exists_trim_writeAll (hne : fields ≠ []) (h : ∀ field ∈ fields, field.1.Plain) :
    ∃ fields', fields'.map Prod.fst = fields.map Prod.fst ∧
      trim isSpace (' ' :: writeAll fields) = writeAll fields' := by
  obtain ⟨started, hsame, hdrop⟩ := exists_dropWhile_writeAll hne h
  have hne' : started ≠ [] := by
    rintro rfl
    exact hne (List.map_eq_nil_iff.mp hsame.symm)
  obtain ⟨fields', text, n, hsame', hwrite, hwrite'⟩ := exists_writeAll_end hne'
  refine ⟨fields', hsame'.trans hsame, ?_⟩
  have hblank : ∀ c ∈ (spaces n).reverse, isSpace c = true := fun c hc =>
    isSpace_of_mem_spaces (List.mem_reverse.mp hc)
  rw [trim, hdrop, hwrite, hwrite', List.reverse_append, List.reverse_cons, List.append_assoc,
    List.dropWhile_append_of_pos hblank]
  change (List.dropWhile isSpace ('"' :: text.reverse)).reverse = _
  rw [List.dropWhile_cons_of_neg (by decide), List.reverse_cons, List.reverse_reverse]

/-! ## The word in a header -/

theorem infix_of_spaces {l : List Char} (h : authType <:+: spaces n ++ l) : authType <:+: l := by
  induction n with
  | zero => exact h
  | succ n ih =>
    have hcons : authType <:+: [] ++ ' ' :: (spaces n ++ l) := h
    rcases infix_append_cons hcons (by decide) with hnil | hrest
    · exact absurd (List.infix_nil.mp hnil) (by decide)
    · exact ih hrest

theorem infix_of_append_spaces {l : List Char} (h : authType <:+: l ++ spaces n) :
    authType <:+: l := by
  cases n with
  | zero =>
    have hl : authType <:+: l ++ [] := h
    rwa [List.append_nil] at hl
  | succ n =>
    have hcons : authType <:+: l ++ ' ' :: spaces n := h
    rcases infix_append_cons hcons (by decide) with hl | hspaces
    · exact hl
    · rw [← List.append_nil (spaces n)] at hspaces
      exact absurd (List.infix_nil.mp (infix_of_spaces hspaces)) (by decide)

/-- The word has no separators, so it stands in a name or in a value. -/
theorem infix_of_write {rest : List Char} (h : authType <:+: write field rest) :
    authType <:+: field.1.name ∨ authType <:+: field.1.value ∨ authType <:+: rest := by
  rw [write] at h
  rcases infix_append_cons h (by decide) with hname | h
  · rw [Spacing.nameText] at hname
    exact .inl (infix_of_append_spaces (infix_of_spaces hname))
  · rcases infix_append_cons h (by decide) with hspaces | h
    · rw [← List.append_nil (spaces _)] at hspaces
      exact absurd (List.infix_nil.mp (infix_of_spaces hspaces)) (by decide)
    · rcases infix_append_cons h (by decide) with hvalue | h
      · exact .inr (.inl hvalue)
      · exact .inr (.inr (infix_of_spaces h))

theorem infix_of_writeAll (h : authType <:+: writeAll fields) :
    ∃ field ∈ fields, authType <:+: field.1.name ∨ authType <:+: field.1.value := by
  induction fields with
  | nil => exact absurd (List.infix_nil.mp h) (by decide)
  | cons field fields ih =>
    by_cases hlast : fields = []
    · cases hlast
      rcases infix_of_write h with hname | hvalue | hrest
      · exact ⟨field, List.mem_cons_self, .inl hname⟩
      · exact ⟨field, List.mem_cons_self, .inr hvalue⟩
      · exact absurd (List.infix_nil.mp hrest) (by decide)
    · rw [writeAll_cons_of_ne_nil field hlast] at h
      rcases infix_of_write h with hname | hvalue | hrest
      · exact ⟨field, List.mem_cons_self, .inl hname⟩
      · exact ⟨field, List.mem_cons_self, .inr hvalue⟩
      · have hcons : authType <:+: [] ++ ',' :: writeAll fields := hrest
        rcases infix_append_cons hcons (by decide) with hnil | hrest
        · exact absurd (List.infix_nil.mp hnil) (by decide)
        · obtain ⟨other, hmem, hother⟩ := ih hrest
          exact ⟨other, List.mem_cons_of_mem field hmem, hother⟩

/-- A header without the word in it is read from its start. -/
theorem afterLast_writeHeader (h : ¬ authType <:+: writeAll fields) :
    afterLast authType (writeHeader fields).toList = some (' ' :: writeAll fields) := by
  rw [writeHeader, String.toList_ofList]
  change afterLast ('b' :: "earer".toList) ('b' :: ("earer".toList ++ ' ' :: writeAll fields)) = _
  refine afterLast_start fun hinfix => ?_
  rcases infix_append_cons hinfix (by decide) with hstart | hrest
  · exact absurd hstart.length_le (by decide)
  · exact h hrest

theorem length_le_writeAll (fields : List (Field × Spacing)) :
    fields.length ≤ (writeAll fields).length := by
  induction fields with
  | nil => exact Nat.le_refl _
  | cons field fields ih =>
    have hwrite : ∀ rest, rest.length + 1 ≤ (write field rest).length := by
      intro rest
      simp only [write, List.length_append, List.length_cons]
      omega
    by_cases hlast : fields = []
    · cases hlast
      exact hwrite []
    · have hle := hwrite (',' :: writeAll fields)
      rw [writeAll_cons_of_ne_nil field hlast, List.length_cons]
      rw [List.length_cons] at hle
      omega

theorem isPrefixOf_writeHeader (fields : List (Field × Spacing)) :
    authType.isPrefixOf (writeHeader fields).toList = true := by
  rw [writeHeader, String.toList_ofList]
  exact List.isPrefixOf_iff_prefix.mpr (List.prefix_append _ _)

/-- The parameters of a header without the word in it. -/
theorem parse_writeHeader (hne : fields ≠ []) (hplain : ∀ field ∈ fields, field.1.Plain)
    (h : ¬ authType <:+: writeAll fields) :
    parse (writeHeader fields) =
      some (ofParams ((fields.map fun field => field.1.entry).reverse)) := by
  obtain ⟨fields', hsame, htrim⟩ := exists_trim_writeAll hne hplain
  have hne' : fields' ≠ [] := by
    rintro rfl
    exact hne (List.map_eq_nil_iff.mp hsame.symm)
  have hentries : (fields'.map fun field => field.1.entry) =
      fields.map fun field => field.1.entry := by
    have hmap := congrArg (List.map Field.entry) hsame
    rw [List.map_map, List.map_map] at hmap
    exact hmap
  have hplain' : ∀ field ∈ fields', field.1.Plain := by
    intro field hfield
    have hmem : field.1 ∈ fields.map Prod.fst := hsame ▸ List.mem_map_of_mem hfield
    obtain ⟨other, hother, heq⟩ := List.mem_map.mp hmem
    rw [← heq]
    exact hplain other hother
  rw [parse, isPrefixOf_writeHeader, if_neg (by decide), afterLast_writeHeader h]
  dsimp only [Option.getD_some]
  rw [htrim, readParams_writeAll hne' hplain' (Nat.le_succ_of_le (length_le_writeAll fields')) [],
    hentries, List.append_nil]
  rfl

/-! ## The token -/

theorem ofParams_eq {params : List (String × String)} {auth : BearerAuth}
    (hrealm : params.lookup "realm" = some auth.realm)
    (hservice : params.lookup "service" = some auth.service)
    (hscope : params.lookup "scope" = some auth.scope) : ofParams params = .ok auth := by
  have hmissing : (requiredParams.filter fun name => (params.lookup name).isNone) = [] := by
    simp [requiredParams, hrealm, hservice, hscope]
  rw [ofParams, hmissing, if_neg (by simp), hrealm, hservice, hscope]
  rfl

/-- One parameter is not enough. -/
theorem ofParams_short {params : List (String × String)} (h : params.length ≤ 1)
    (auth : BearerAuth) : ofParams params ≠ .ok auth := by
  intro hok
  rw [ofParams, ite_error_eq_ok, not_not] at hok
  have hfound : ∀ name ∈ requiredParams, ∃ value, (name, value) ∈ params := by
    intro name hname
    have hsome := List.filter_eq_nil_iff.mp hok.1 name hname
    simpa using hsome
  obtain ⟨realm, hrealm⟩ := hfound "realm" (by decide)
  obtain ⟨service, hservice⟩ := hfound "service" (by decide)
  cases params with
  | nil => cases hrealm
  | cons param params =>
    obtain rfl : params = [] := by simpa using h
    have hsame := (List.mem_singleton.mp hrealm).trans (List.mem_singleton.mp hservice).symm
    exact absurd (congrArg Prod.fst hsame) (by simp)

/-- The order of the parameters does not matter, since their names differ. -/
theorem lookup_entries {fields : List Field} (hnames : (fields.map Field.name).Nodup)
    {written : List (Field × Spacing)} (hperm : (written.map Prod.fst).Perm fields)
    {name value : String} (h : ⟨name.toList, value.toList⟩ ∈ fields) :
    ((written.map fun field => field.1.entry).reverse).lookup name = some value := by
  have hentries : ((written.map fun field => field.1.entry).reverse).Perm
      (fields.map Field.entry) := by
    have hmap := hperm.map Field.entry
    rw [List.map_map] at hmap
    exact (List.reverse_perm _).trans hmap
  have hkeys : ((fields.map Field.entry).map Prod.fst).Nodup := by
    have hmap := List.Nodup.map (f := String.ofList) (fun _ _ => String.ofList_injective) hnames
    rw [List.map_map] at hmap ⊢
    exact hmap
  rw [lookup_eq_some_iff_mem ((hentries.map Prod.fst).nodup_iff.mpr hkeys), hentries.mem_iff,
    List.mem_map]
  refine ⟨_, h, ?_⟩
  rw [Field.entry, String.ofList_toList, String.ofList_toList]

/-! ## The word in a parameter -/

theorem infix_write (h : authType <:+: field.1.name ∨ authType <:+: field.1.value) :
    authType <:+: write field [] := by
  rcases h with h | h
  · refine h.trans ⟨spaces field.2.lead, spaces field.2.beforeEq ++ '=' ::
      (spaces field.2.afterEq ++ '"' :: (field.1.value ++ '"' :: (spaces field.2.trail ++ []))), ?_⟩
    simp [write, Spacing.nameText]
  · refine h.trans ⟨field.2.nameText field.1.name ++ '=' :: (spaces field.2.afterEq ++ ['"']),
      '"' :: (spaces field.2.trail ++ []), ?_⟩
    simp [write]

theorem count_write (h : field.1.Plain) : (write field []).count '"' = 2 := by
  have hname : (field.2.nameText field.1.name).count '"' = 0 :=
    List.count_eq_zero.mpr
      (not_mem_nameText (fun hc => (h.name _ hc).2.1 rfl) (by decide))
  have hspaces : ∀ n, (spaces n).count '"' = 0 := by
    intro n
    refine List.count_eq_zero.mpr fun hc => ?_
    have hspace := eq_space_of_mem_spaces hc
    revert hspace
    decide
  have hvalue : field.1.value.count '"' = 0 := List.count_eq_zero.mpr h.value
  simp [write, List.count_append, hname, hspaces, hvalue]

theorem exists_writeAll_append (fields : List (Field × Spacing)) (last : Field × Spacing) :
    ∃ text, writeAll (fields ++ [last]) = text ++ write last [] := by
  induction fields with
  | nil => exact ⟨[], rfl⟩
  | cons field fields ih =>
    obtain ⟨text, htext⟩ := ih
    refine ⟨write field (',' :: text), ?_⟩
    rw [List.cons_append, writeAll_cons_of_ne_nil field (by simp), htext]
    exact write_append field (',' :: text) _

/-- With the word in its last parameter not more than one parameter of a header is read. -/
theorem parse_ne_of_last (fields : List (Field × Spacing)) {last : Field × Spacing}
    (hplain : last.1.Plain) (h : authType <:+: last.1.name ∨ authType <:+: last.1.value)
    (auth : BearerAuth) : parse (writeHeader (fields ++ [last])) ≠ some (.ok auth) := by
  obtain ⟨text, htext⟩ := exists_writeAll_append fields last
  obtain ⟨a, b, hab⟩ := infix_write h
  have hheader : (writeHeader (fields ++ [last])).toList =
      (authType ++ ' ' :: (text ++ a)) ++ (authType ++ b) := by
    rw [writeHeader, String.toList_ofList, htext, ← hab]
    simp
  have hword : authType ≠ [] := by decide
  obtain ⟨rest, hrest, hsuffix⟩ :=
    exists_afterLast_suffix hword (authType ++ ' ' :: (text ++ a)) b
  have hquotes : (trim isSpace rest).count '"' ≤ 2 := by
    have hb : b.Sublist (write last []) := hab ▸ (List.suffix_append _ b).sublist
    have hle := (((trim_sublist isSpace rest).trans hsuffix.sublist).trans hb).count_le '"'
    rwa [count_write hplain] at hle
  intro hparse
  rw [parse, isPrefixOf_writeHeader, if_neg (by decide), hheader, hrest] at hparse
  dsimp only [Option.getD_some] at hparse
  obtain ⟨result, hresult, hok⟩ := Option.map_eq_some_iff.mp hparse
  obtain ⟨params, hparams, hok⟩ := bind_eq_ok.mp hok
  rw [hparams] at hresult
  have hlength := length_readParams hresult
  rw [List.length_nil] at hlength
  exact ofParams_short (by omega) auth hok

/-- The parameters are read in any order, with any spaces. -/
def Reads (fields : List Field) (auth : BearerAuth) : Prop :=
  ∀ written : List (Field × Spacing), (written.map Prod.fst).Perm fields →
    parse (writeHeader written) = some (.ok auth)

/-- A header is read as it was written, in every order, exactly if the word is in none of its
parameters; and the loop of the parser ends on every text. -/
theorem bearer_auth_iff (fields : List Field) (auth : BearerAuth)
    (hplain : ∀ field ∈ fields, field.Plain) (hnames : (fields.map Field.name).Nodup)
    (hrealm : ⟨"realm".toList, auth.realm.toList⟩ ∈ fields)
    (hservice : ⟨"service".toList, auth.service.toList⟩ ∈ fields)
    (hscope : ⟨"scope".toList, auth.scope.toList⟩ ∈ fields) :
    (Reads fields auth ↔
      ∀ field ∈ fields, ¬ authType <:+: field.name ∧ ¬ authType <:+: field.value) ∧
    ∀ header rest params, ∃ result, ∀ fuel, rest.length < fuel →
      readParams header fuel rest params = some result := by
  refine ⟨⟨fun hreads field hfield => ?_, fun hword written hperm => ?_⟩, readParams_ends⟩
  · rw [← not_or]
    intro hword
    -- the parameter with the word in it is written last
    let space : Spacing := ⟨0, 0, 0, 0⟩
    let others : List (Field × Spacing) := (fields.erase field).map fun other => (other, space)
    have hperm : ((others ++ [(field, space)]).map Prod.fst).Perm fields := by
      have hothers : others.map Prod.fst = fields.erase field := by
        rw [List.map_map]
        exact List.map_id _
      rw [List.map_append, hothers]
      exact (List.perm_append_singleton _ _).trans (List.perm_cons_erase hfield).symm
    exact parse_ne_of_last others (hplain field hfield) hword auth (hreads _ hperm)
  · have hmem : ∀ field ∈ written, field.1 ∈ fields := fun field hfield =>
      hperm.mem_iff.mp (List.mem_map_of_mem hfield)
    have hne : written ≠ [] := by
      rintro rfl
      exact List.not_mem_nil (hperm.mem_iff.mpr hrealm)
    have hinfix : ¬ authType <:+: writeAll written := by
      intro hinfix
      obtain ⟨field, hfield, hbad⟩ := infix_of_writeAll hinfix
      have hgood := hword _ (hmem field hfield)
      exact hbad.elim hgood.1 hgood.2
    rw [parse_writeHeader hne (fun field hfield => hplain _ (hmem field hfield)) hinfix,
      ofParams_eq (lookup_entries hnames hperm hrealm) (lookup_entries hnames hperm hservice)
        (lookup_entries hnames hperm hscope)]

/-- Commas, equals signs and blanks in a value do no harm. -/
theorem push_scope_read :
    Reads [⟨"scope".toList, "repository:app:pull,push".toList⟩,
        ⟨"service".toList, "a = b".toList⟩, ⟨"realm".toList, "hub".toList⟩]
      ⟨"hub", "a = b", "repository:app:pull,push"⟩ := by
  exact (bearer_auth_iff _ ⟨"hub", "a = b", "repository:app:pull,push"⟩ (by decide +kernel)
    (by decide) (by decide) (by decide) (by decide)).1.mpr (by decide +kernel)

/-- The scope of a repository of this name hides the parameters before it. -/
theorem bearer_scope_refused :
    parse "bearer realm=\"hub\",service=\"registry\",scope=\"repository:bearer/app:pull\"" =
      some (.error "Missing required auth param(s): realm, service, scope") := by
  decide +kernel

end BearerAuth

end Docker
end AkLite
