/-
JSON values with the accessors of a C++ JSON library.

The accessors are partial in the way the C++ ones are: a member of a value that
is neither an object nor null is a logic error, a missing member of an object
reads as null, and a conversion that the type does not offer is an error.  An
error is the text of the exception.  The fields of an object are an association
list, and the first entry of a key is its value.

A real number is known here by its truncation and by its printed form, which are
all the accessors look at.
-/
import AkLite.Lib.Assoc
import AkLite.Lib.Outcome
import Mathlib.Data.List.Forall2

namespace AkLite
namespace Lib

inductive Json where
  | null
  | bool (b : Bool)
  | int (n : Int)
  | real (trunc : Int) (text : String)
  | str (s : String)
  | arr (items : List Json)
  | obj (fields : List (String × Json))
  deriving Repr, Inhabited

namespace Json

mutual

/-- Equality of values.  The fields of an object stand in the order of its keys, so
they are compared in turn. -/
def beq : Json → Json → Bool
  | null, null => true
  | bool b, bool c => b == c
  | int n, int m => n == m
  | real n t, real m u => n == m && t == u
  | str s, str t => s == t
  | arr xs, arr ys => beqItems xs ys
  | obj xs, obj ys => beqFields xs ys
  | _, _ => false
termination_by structural j => j

def beqItems : List Json → List Json → Bool
  | [], [] => true
  | x :: xs, y :: ys => beq x y && beqItems xs ys
  | _, _ => false
termination_by structural j => j

def beqFields : List (String × Json) → List (String × Json) → Bool
  | [], [] => true
  | x :: xs, y :: ys => beqField x y && beqFields xs ys
  | _, _ => false
termination_by structural j => j

def beqField : String × Json → String × Json → Bool
  | (k, x), (l, y) => k == l && beq x y
termination_by structural p => p

end

instance : BEq Json := ⟨beq⟩

mutual

theorem beq_iff : ∀ x y : Json, beq x y = true ↔ x = y
  | null, y => by cases y <;> simp [beq]
  | bool _, y => by cases y <;> simp [beq]
  | int _, y => by cases y <;> simp [beq]
  | real _ _, y => by cases y <;> simp [beq]
  | str _, y => by cases y <;> simp [beq]
  | arr xs, y => by cases y <;> simp [beq, beqItems_iff xs]
  | obj xs, y => by cases y <;> simp [beq, beqFields_iff xs]
termination_by structural x => x

theorem beqItems_iff : ∀ xs ys : List Json, beqItems xs ys = true ↔ xs = ys
  | [], ys => by cases ys <;> simp [beqItems]
  | x :: xs, ys => by cases ys <;> simp [beqItems, beq_iff x, beqItems_iff xs]
termination_by structural xs => xs

theorem beqFields_iff : ∀ xs ys : List (String × Json), beqFields xs ys = true ↔ xs = ys
  | [], ys => by cases ys <;> simp [beqFields]
  | x :: xs, ys => by cases ys <;> simp [beqFields, beqField_iff x, beqFields_iff xs]
termination_by structural xs => xs

theorem beqField_iff : ∀ p q : String × Json, beqField p q = true ↔ p = q
  | (k, x), (l, y) => by simp [beqField, beq_iff x]
termination_by structural p => p

end

instance : DecidableEq Json := fun x y => decidable_of_iff _ (beq_iff x y)

instance : LawfulBEq Json where
  eq_of_beq h := (beq_iff _ _).mp h
  rfl := (beq_iff _ _).mpr rfl

def isNull : Json → Bool
  | null => true
  | _ => false

variable {j j' v : Json} {key other : String}

theorem isNull_iff : j.isNull = true ↔ j = null := by
  cases j <;> simp [isNull]

/-- The number of elements of an array or an object, and zero for the rest. -/
def size : Json → Nat
  | arr items => items.length
  | obj fields => fields.length
  | _ => 0

/-- Null, the empty array and the empty object are empty. -/
def isEmpty : Json → Bool
  | null => true
  | arr items => items.isEmpty
  | obj fields => fields.isEmpty
  | _ => false

/-- The lookup behind the member accessors. -/
def find (j : Json) (key : String) : Except String (Option Json) :=
  match j with
  | null => .ok none
  | obj fields => .ok (fields.lookup key)
  | _ => .error "in Json::Value::find(begin, end): requires objectValue or nullValue"

/-- The member of a value that is not modified.  A missing member is null. -/
def index (j : Json) (key : String) : Except String Json := do
  return (← j.find key).getD null

def isMember (j : Json) (key : String) : Except String Bool := do
  return (← j.find key).isSome

/-- An object that has the member. -/
def isObjectWith (j : Json) (key : String) : Bool :=
  match j with
  | obj fields => (fields.lookup key).isSome
  | _ => false

theorem index_of_find {found : Option Json}
    (h : j.find key = .ok found) : j.index key = .ok (found.getD null) := by
  rw [index, h]
  rfl

/-- A member that reads as something else than null is there. -/
theorem find_of_index (h : j.index key = .ok v) (hv : v ≠ null) : j.find key = .ok (some v) := by
  rw [index] at h
  cases hfind : j.find key with
  | error e =>
    rw [hfind] at h
    cases h
  | ok found =>
    rw [hfind] at h
    cases found with
    | none =>
      cases h
      exact absurd rfl hv
    | some u =>
      cases h
      rfl

/-- A value that has members can be asked for any. -/
theorem index_returns (h : j.index key = .ok v) (other : String) : ∃ u, j.index other = .ok u := by
  cases j with
  | null => exact ⟨_, rfl⟩
  | obj fields => exact ⟨_, rfl⟩
  | _ => cases h

theorem find_returns (h : j.index key = .ok v) (other : String) :
    ∃ found, j.find other = .ok found := by
  cases j with
  | null => exact ⟨_, rfl⟩
  | obj fields => exact ⟨_, rfl⟩
  | _ => cases h

theorem isMember_of_find {found : Option Json}
    (h : j.find key = .ok found) : j.isMember key = .ok found.isSome := by
  rw [isMember, h]
  rfl

/-- The element of an array that is not modified.  A missing element is null. -/
def elem (j : Json) (i : Nat) : Except String Json :=
  match j with
  | null => .ok null
  | arr items => .ok (items.getD i null)
  | _ => .error "in Json::Value::operator[](ArrayIndex)const: requires arrayValue"

theorem index_of_not_isMember (h : j.isMember key = .ok false) : j.index key = .ok null := by
  obtain ⟨found, hfound, h⟩ := bind_eq_ok.mp h
  cases found with
  | none => exact index_of_find hfound
  | some v => cases h

theorem elem_of_size_le {i : Nat} (hsize : j.size ≤ i) (h : j.elem i = .ok v) : v = null := by
  cases j with
  | null =>
    cases h
    rfl
  | arr items =>
    cases h
    rw [List.getD_eq_getElem?_getD, List.getElem?_eq_none hsize]
    rfl
  | _ => cases h

/-- Iteration with keys.  The key of an array element is its position. -/
def entries : Json → List (String × Json)
  | obj fields => fields
  | arr items => (items.zipIdx).map fun p => (toString p.2, p.1)
  | _ => []

/-- Iteration over the values of an array or an object. -/
def values (j : Json) : List Json := j.entries.map Prod.snd

/-- A member is looked up in the entries. -/
theorem find_eq_lookup (h : j.index key = .ok v) (other : String) :
    j.find other = .ok (j.entries.lookup other) := by
  cases j with
  | null => rfl
  | obj fields => rfl
  | _ => cases h

theorem values_arr (items : List Json) : (Json.arr items).values = items := by
  rw [Json.values, Json.entries, List.map_map]
  exact List.zipIdx_map_fst 0 items

/-- The value after a loop over its values has changed them. -/
def withValues : Json → List Json → Json
  | arr _, values => arr values
  | obj fields, values => obj ((fields.map Prod.fst).zip values)
  | j, _ => j

theorem entries_withValues {values : List Json} (h : values.length = j.entries.length) :
    (j.withValues values).entries = (j.entries.map Prod.fst).zip values := by
  cases j with
  | arr items =>
    have hlength : values.length = items.length := by simpa [entries] using h
    refine List.ext_getElem (by simp [withValues, entries, hlength]) fun i hi hi' => ?_
    simp [withValues, entries]
  | obj fields => rfl
  | _ =>
    obtain rfl := List.eq_nil_of_length_eq_zero (h.trans rfl)
    rfl

theorem values_withValues {values : List Json} (h : values.length = j.values.length) :
    (j.withValues values).values = values := by
  have hentries : values.length = j.entries.length := by
    rw [h, Json.values, List.length_map]
  rw [Json.values, entries_withValues hentries]
  exact List.map_snd_zip (Nat.le_of_eq (by rw [hentries, List.length_map]))

theorem size_eq_length (j : Json) : j.size = j.entries.length := by
  cases j with
  | arr items => simp [size, entries]
  | _ => rfl

/-- A loop that changes every value. -/
def mapValues (f : Json → Except String Json) (j : Json) : Except String Json := do
  return j.withValues (← j.values.mapM f)

/-- The values change one by one, and the keys stay. -/
theorem exists_mapValues {α : Type} {f : Json → Except String Json} {infos : List α}
    {P Q : α → String × Json → Prop} (h : List.Forall₂ P infos j.entries)
    (hstep : ∀ info entry, P info entry → ∃ v, f entry.2 = .ok v ∧ Q info (entry.1, v)) :
    ∃ j', j.mapValues f = .ok j' ∧ List.Forall₂ Q infos j'.entries := by
  have hloop : ∀ {infos : List α} {entries : List (String × Json)}, List.Forall₂ P infos entries →
      ∃ values, (entries.map Prod.snd).mapM f = .ok values ∧ values.length = entries.length ∧
        List.Forall₂ Q infos ((entries.map Prod.fst).zip values) := by
    intro infos entries h
    induction h with
    | nil => exact ⟨[], rfl, rfl, .nil⟩
    | cons hfirst _ ih =>
      obtain ⟨v, hv, hQ⟩ := hstep _ _ hfirst
      obtain ⟨values, hvalues, hlength, hall⟩ := ih
      refine ⟨v :: values, ?_, by rw [List.length_cons, List.length_cons, hlength],
        .cons hQ hall⟩
      rw [List.map_cons, List.mapM_cons, hv, ok_bind, hvalues]
      rfl
  obtain ⟨values, hvalues, hlength, hall⟩ := hloop h
  refine ⟨j.withValues values, ?_, ?_⟩
  · rw [mapValues, Json.values, hvalues]
    rfl
  · rwa [entries_withValues hlength]

/-- A value whose members can be asked for, with distinct keys. -/
structure IsDict (j : Json) : Prop where
  find : ∀ key, j.find key = .ok (j.entries.lookup key)
  nodup : (j.entries.map Prod.fst).Nodup

theorem isDict_null : IsDict null := ⟨fun _ => rfl, .nil⟩

/-- A loop over the values leaves the keys. -/
theorem IsDict.mapValues {f : Json → Except String Json} (h : j.IsDict)
    (hmap : j.mapValues f = .ok j') :
    j'.IsDict ∧ ∀ entry ∈ j'.entries, ∃ v, f v = .ok entry.2 := by
  obtain ⟨values, hvalues, hj'⟩ := bind_eq_ok.mp hmap
  cases hj'
  have hlength : values.length = j.entries.length := by
    have hunits := congrArg List.length (mapM_map (g := fun _ => ()) (k := fun _ => ()) hvalues
      fun _ _ _ => rfl)
    rwa [List.length_map, List.length_map, Json.values, List.length_map] at hunits
  have hentries := entries_withValues hlength
  have hkeys : (j.withValues values).entries.map Prod.fst = j.entries.map Prod.fst := by
    rw [hentries]
    exact List.map_fst_zip (Nat.le_of_eq (by rw [hlength, List.length_map]))
  refine ⟨⟨?_, by rw [hkeys]; exact h.nodup⟩, fun entry hentry => ?_⟩
  · intro key
    cases j with
    | null => rfl
    | obj fields => rfl
    | _ => cases h.find key
  · rw [hentries] at hentry
    obtain ⟨v, -, hv⟩ := exists_of_mem_mapM hvalues (List.of_mem_zip hentry).2
    exact ⟨v, hv⟩

def asString : Json → Except String String
  | null => .ok ""
  | bool b => .ok (if b then "true" else "false")
  | int n => .ok (toString n)
  | real _ text => .ok text
  | str s => .ok s
  | _ => .error "Type is not convertible to string"

def minInt : Int := -2147483648

def maxInt : Int := 2147483647

def asInt : Json → Except String Int
  | null => .ok 0
  | bool b => .ok (if b then 1 else 0)
  | int n => if minInt ≤ n ∧ n ≤ maxInt then .ok n else .error "LargestInt out of Int range"
  | real n _ => if minInt ≤ n ∧ n ≤ maxInt then .ok n else .error "double out of Int range"
  | _ => .error "Value is not convertible to Int."

def minInt64 : Int := -9223372036854775808

def maxInt64 : Int := 9223372036854775807

def asInt64 : Json → Except String Int
  | null => .ok 0
  | bool b => .ok (if b then 1 else 0)
  | int n => if minInt64 ≤ n ∧ n ≤ maxInt64 then .ok n else .error "LargestUInt out of Int64 range"
  | real n _ => if minInt64 ≤ n ∧ n ≤ maxInt64 then .ok n else .error "double out of Int64 range"
  | _ => .error "Value is not convertible to Int64."

def asUInt64 : Json → Except String Nat
  | null => .ok 0
  | bool b => .ok (if b then 1 else 0)
  | int n => if 0 ≤ n then .ok n.toNat else .error "LargestInt out of UInt64 range"
  | real n _ =>
    if 0 ≤ n ∧ n < UInt64.size then .ok n.toNat else .error "double out of UInt64 range"
  | _ => .error "Value is not convertible to UInt64."

def maxUInt : Int := 4294967295

def asUInt : Json → Except String Nat
  | null => .ok 0
  | bool b => .ok (if b then 1 else 0)
  | int n => if 0 ≤ n ∧ n ≤ maxUInt then .ok n.toNat else .error "LargestInt out of UInt range"
  | real n _ => if 0 ≤ n ∧ n ≤ maxUInt then .ok n.toNat else .error "double out of UInt range"
  | _ => .error "Value is not convertible to UInt."

/-- The texts of whole real numbers are known to the caller. -/
def isInt64 (whole : String → Bool) : Json → Bool
  | int n => decide (minInt64 ≤ n ∧ n ≤ maxInt64)
  | real n text => decide (minInt64 ≤ n ∧ n ≤ maxInt64) && whole text
  | _ => false

def isUInt (whole : String → Bool) : Json → Bool
  | int n => decide (0 ≤ n ∧ n ≤ maxUInt)
  | real n text => decide (0 ≤ n ∧ n ≤ maxUInt) && whole text
  | _ => false

def isUInt64 (whole : String → Bool) : Json → Bool
  | int n => decide (0 ≤ n)
  | real n text => decide (0 ≤ n ∧ n < UInt64.size) && whole text
  | _ => false

def isString : Json → Bool
  | str _ => true
  | _ => false

/-- Assignment to a member.  Assigning to a member of null makes an object. -/
def insert (j : Json) (key : String) (v : Json) : Except String Json :=
  match j with
  | null => .ok (obj [(key, v)])
  | obj fields =>
    if (fields.lookup key).isSome then
      .ok (obj (fields.map fun f => if f.1 = key then (key, v) else f))
    else .ok (obj (fields ++ [(key, v)]))
  | _ => .error "in Json::Value::resolveReference(key, end): requires objectValue"

/-- A new element at the end of an array.  Appending to null makes an array. -/
def append (j v : Json) : Except String Json :=
  match j with
  | null => .ok (arr [v])
  | arr items => .ok (arr (items ++ [v]))
  | _ => .error "in Json::Value::append: requires arrayValue"

def removeMember (j : Json) (key : String) : Except String Json :=
  match j with
  | null => .ok null
  | obj fields => .ok (obj (fields.filter fun f => f.1 != key))
  | _ => .error "in Json::Value::removeMember(): requires objectValue"

/-- A reference to a member of a value that may be modified: reading a missing
member adds it as null. -/
def touch (j : Json) (key : String) : Except String (Json × Json) := do
  match ← j.find key with
  | some v => return (j, v)
  | none => return (← j.insert key null, null)

/-- An assigned member is found. -/
theorem find_insert_self (h : j.insert key v = .ok j') : j'.find key = .ok (some v) := by
  cases j with
  | null =>
    cases h
    simp [find]
  | obj fields =>
    rw [insert] at h
    split at h
    · next hsome =>
      cases h
      rw [find, lookup_map_self hsome]
    · next hnone =>
      cases h
      rw [Option.isSome_iff_ne_none, not_not] at hnone
      simp [find, List.lookup_append, hnone]
  | _ => cases h

/-- What is found under a key decides what is read there. -/
theorem index_congr (h : j'.find key = j.find key) : j'.index key = j.index key := by
  rw [index, index, h]

/-- An assignment to a member leaves the others. -/
theorem find_insert_of_ne (h : j.insert key v = .ok j')
    (hne : other ≠ key) : j'.find other = j.find other := by
  have hbeq : (other == key) = false := by simpa using hne
  cases j with
  | null =>
    cases h
    simp [find, List.lookup_cons, hbeq]
  | obj fields =>
    rw [insert] at h
    split at h
    · cases h
      simp only [find, lookup_map_of_ne hne]
    · cases h
      simp only [find, List.lookup_append, List.lookup_cons, List.lookup_nil, hbeq,
        Option.or_none]
  | _ => cases h

/-- The entries after an assignment to a member. -/
theorem mem_entries_insert (h : j.insert key v = .ok j') {entry : String × Json} :
    entry ∈ j'.entries ↔ (entry ∈ j.entries ∧ entry.1 ≠ key) ∨ entry = (key, v) := by
  cases j with
  | null =>
    cases h
    simp [entries]
  | obj fields =>
    rw [insert] at h
    split at h
    · next hsome =>
      cases h
      obtain ⟨old, hold⟩ := Option.isSome_iff_exists.mp hsome
      have hmem := mem_of_lookup hold
      simp only [entries, List.mem_map]
      constructor
      · rintro ⟨field, hfield, rfl⟩
        split
        · exact .inr rfl
        · next hne => exact .inl ⟨hfield, hne⟩
      · rintro (⟨hfield, hne⟩ | rfl)
        · exact ⟨entry, hfield, if_neg hne⟩
        · exact ⟨(key, old), hmem, if_pos rfl⟩
    · next hnone =>
      cases h
      simp only [entries, List.mem_append, List.mem_singleton]
      refine or_congr_left ⟨fun hfield => ⟨hfield, ?_⟩, fun h => h.1⟩
      rintro rfl
      exact hnone (lookup_isSome_of_mem hfield)
  | _ => cases h

/-- Distinct members stay distinct. -/
theorem nodup_insert (h : j.insert key v = .ok j')
    (hkeys : (j.entries.map Prod.fst).Nodup) : (j'.entries.map Prod.fst).Nodup := by
  cases j with
  | null =>
    cases h
    simp [entries]
  | obj fields =>
    rw [insert] at h
    split at h
    · cases h
      have hsame : (fields.map fun f => if f.1 = key then (key, v) else f).map Prod.fst =
          fields.map Prod.fst := by
        rw [List.map_map]
        refine List.map_congr_left fun f _ => ?_
        rw [Function.comp_apply]
        split
        · next hkey => exact hkey.symm
        · rfl
      rw [entries, hsame]
      exact hkeys
    · next hnone =>
      cases h
      rw [entries, List.map_append, List.nodup_append]
      refine ⟨hkeys, by simp, ?_⟩
      rintro name hname _ hkey rfl
      obtain ⟨field, hfield, rfl⟩ := List.mem_map.mp hname
      obtain rfl := List.mem_singleton.mp hkey
      exact hnone (lookup_isSome_of_mem hfield)
  | _ => cases h

theorem IsDict.insert (h : j.IsDict) (hinsert : j.insert key v = .ok j') : j'.IsDict := by
  refine ⟨fun other => ?_, nodup_insert hinsert h.nodup⟩
  exact find_eq_lookup (index_of_find (find_insert_self hinsert)) other

theorem index_insert_of_ne (h : j.insert key v = .ok j')
    (hne : other ≠ key) : j'.index other = j.index other :=
  index_congr (find_insert_of_ne h hne)

/-- Taking a member out leaves the others. -/
theorem find_removeMember_of_ne
    (h : j.removeMember key = .ok j') (hne : other ≠ key) : j'.find other = j.find other := by
  cases j with
  | null =>
    cases h
    rfl
  | obj fields =>
    cases h
    have hkeep : (other != key) = true := by simpa using hne
    rw [find, find, lookup_filter_key (· != key), if_pos hkeep]
  | _ => cases h

theorem find_removeMember_self (h : j.removeMember key = .ok j') : j'.find key = .ok none := by
  cases j with
  | null =>
    cases h
    rfl
  | obj fields =>
    cases h
    rw [find, lookup_filter_key (· != key), if_neg (by simp)]
  | _ => cases h

theorem index_removeMember_of_ne
    (h : j.removeMember key = .ok j') (hne : other ≠ key) : j'.index other = j.index other :=
  index_congr (find_removeMember_of_ne h hne)

/-- A member that is read is there, or it is added as null. -/
theorem touch_eq_ok (h : j.touch key = .ok (j', v)) : (j.find key = .ok (some v) ∧ j' = j) ∨
      (j.find key = .ok none ∧ v = null ∧ j.insert key null = .ok j') := by
  unfold touch at h
  cases hfind : j.find key with
  | error e =>
    rw [hfind] at h
    cases h
  | ok found =>
    rw [hfind] at h
    cases found with
    | some u =>
      cases h
      exact .inl ⟨rfl, rfl⟩
    | none =>
      cases hinsert : j.insert key null with
      | error e =>
        simp only [bind, Except.bind, hinsert] at h
        cases h
      | ok j₁ =>
        simp only [bind, Except.bind, hinsert] at h
        cases h
        exact .inr ⟨rfl, rfl, rfl⟩

/-- Reading a member of a value that may be modified leaves the others. -/
theorem find_touch_of_ne (h : j.touch key = .ok (j', v))
    (hne : other ≠ key) : j'.find other = j.find other := by
  rcases touch_eq_ok h with ⟨_, hsame⟩ | ⟨_, _, hinsert⟩
  · rw [hsame]
  · exact find_insert_of_ne hinsert hne

/-- The value read is the member's. -/
theorem index_of_touch (h : j.touch key = .ok (j', v)) : j.index key = .ok v := by
  rcases touch_eq_ok h with ⟨hfind, _⟩ | ⟨hfind, hnull, _⟩
  · exact index_of_find hfind
  · rw [index_of_find hfind, hnull]
    rfl

/-- Reading a member of a value that may be modified changes no member. -/
theorem index_touch (h : j.touch key = .ok (j', v))
    (other : String) : j'.index other = j.index other := by
  by_cases hother : other = key
  swap
  · exact index_congr (find_touch_of_ne h hother)
  subst hother
  rcases touch_eq_ok h with ⟨_, hsame⟩ | ⟨hfind, _, hinsert⟩
  · rw [hsame]
  · rw [index_of_find hfind, index_of_find (find_insert_self hinsert)]
    rfl

/-- A value that has members can be given one. -/
theorem insert_returns (h : j.index key = .ok v) (u : Json)
    (other : String) : ∃ j', j.insert other u = .ok j' := by
  cases j with
  | null => exact ⟨_, rfl⟩
  | obj fields =>
    by_cases hsome : (fields.lookup other).isSome = true
    · exact ⟨_, if_pos hsome⟩
    · exact ⟨_, if_neg hsome⟩
  | _ => cases h

theorem touch_returns (h : j.index key = .ok v) : ∃ j' u, j.touch key = .ok (j', u) := by
  obtain ⟨j₁, hinsert⟩ := insert_returns h null key
  unfold touch
  unfold index at h
  cases hfind : j.find key with
  | error e =>
    rw [hfind] at h
    cases h
  | ok found =>
    cases found with
    | some u => exact ⟨j, u, rfl⟩
    | none => exact ⟨j₁, null, by simp only [bind, Except.bind, hinsert]; rfl⟩

/-- The text is the one of a value somewhere in the value. -/
inductive Occurs (text : String) : Json → Prop
  | self {j : Json} : j.asString = .ok text → Occurs text j
  | item {items : List Json} {j : Json} : j ∈ items → Occurs text j → Occurs text (arr items)
  | field {fields : List (String × Json)} {key : String} {j : Json} :
    (key, j) ∈ fields → Occurs text j → Occurs text (obj fields)

@[simp]
theorem occurs_str {text s : String} : Occurs text (str s) ↔ text = s := by
  constructor
  · intro h
    cases h with
    | self hself =>
      cases hself
      rfl
  · rintro rfl
    exact .self rfl

@[simp]
theorem occurs_int {text : String} {n : Int} : Occurs text (int n) ↔ text = toString n := by
  constructor
  · intro h
    cases h with
    | self hself =>
      cases hself
      rfl
  · rintro rfl
    exact .self rfl

@[simp]
theorem occurs_arr {text : String} {items : List Json} :
    Occurs text (arr items) ↔ ∃ j ∈ items, Occurs text j := by
  constructor
  · intro h
    cases h with
    | self hself => cases hself
    | item hmem h => exact ⟨_, hmem, h⟩
  · rintro ⟨j, hmem, h⟩
    exact .item hmem h

@[simp]
theorem occurs_obj {text : String} {fields : List (String × Json)} :
    Occurs text (obj fields) ↔ ∃ f ∈ fields, Occurs text f.2 := by
  constructor
  · intro h
    cases h with
    | self hself => cases hself
    | field hmem h => exact ⟨_, hmem, h⟩
  · rintro ⟨f, hmem, h⟩
    exact .field hmem h

theorem not_occurs_null {text : String} (h : text ≠ "") : ¬ Occurs text null := by
  intro hoccurs
  cases hoccurs with
  | self hself =>
    cases hself
    exact h rfl

/-- What occurs in a member occurs in the value. -/
theorem Occurs.of_index {text key : String} (hindex : j.index key = .ok v)
    (htext : text ≠ "") (h : Occurs text v) : Occurs text j := by
  cases j with
  | null =>
    cases hindex
    exact absurd h (not_occurs_null htext)
  | obj fields =>
    cases hlookup : fields.lookup key with
    | none =>
      rw [index, find, hlookup] at hindex
      cases hindex
      exact absurd h (not_occurs_null htext)
    | some u =>
      rw [index, find, hlookup] at hindex
      cases hindex
      exact .field (mem_of_lookup hlookup) h
  | _ => cases hindex

/-- What occurs in an element occurs in the array. -/
theorem Occurs.of_elem {text : String} {i : Nat} (helem : j.elem i = .ok v)
    (htext : text ≠ "") (h : Occurs text v) : Occurs text j := by
  cases j with
  | null =>
    cases helem
    exact absurd h (not_occurs_null htext)
  | arr items =>
    cases helem
    rw [List.getD_eq_getElem?_getD] at h
    cases hitem : items[i]? with
    | none =>
      rw [hitem] at h
      exact absurd h (not_occurs_null htext)
    | some item =>
      rw [hitem] at h
      exact .item (List.mem_of_getElem? hitem) h
  | _ => cases helem

end Json
end Lib
end AkLite
