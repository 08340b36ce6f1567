/-
Files and directories by their paths.

A tree is a list of paths with what stands there, and the first entry of a path
counts.  A path is the list of its components below the root of the tree.  The
operations are described by what can be read afterwards.  The order in which a
directory lists its names is open, and a program that depends on it takes it as
an argument (`DirOrder`).
-/
import AkLite.Lib.Assoc
import Mathlib.Data.List.Dedup
import Mathlib.Data.List.Infix

namespace AkLite
namespace Lib

abbrev Path := List String

inductive Node where
  | dir
  | file (content : String)
  deriving DecidableEq, Repr

structure FileTree where
  entries : List (Path × Node)
  deriving DecidableEq, Repr

namespace FileTree

def node (t : FileTree) (p : Path) : Option Node := t.entries.lookup p

/-- Something stands at the path. -/
def has (t : FileTree) (p : Path) : Bool := (t.node p).isSome

/-- The content of a file. -/
def read (t : FileTree) (p : Path) : Option String :=
  match t.node p with
  | some (.file content) => some content
  | _ => none

def write (t : FileTree) (p : Path) (content : String) : FileTree :=
  { entries := (p, .file content) :: t.entries }

/-- Files written below a directory.  Of a path that is listed twice the first entry counts. -/
def unpack (t : FileTree) (dir : Path) (files : List (Path × String)) : FileTree :=
  { entries := files.map (fun f => (dir ++ f.1, .file f.2)) ++ t.entries }

/-- A directory, unless something is there. -/
def mkdir (t : FileTree) (p : Path) : FileTree :=
  if t.has p then t else { entries := (p, .dir) :: t.entries }

/-- The directory and those above it. -/
def mkdirs (t : FileTree) (p : Path) : FileTree := p.inits.foldl mkdir t

/-- What stands at the path and everything below it. -/
def removeAll (t : FileTree) (p : Path) : FileTree :=
  { entries := t.entries.filter fun e => !p.isPrefixOf e.1 }

/-- A file or a directory with nothing in it. -/
def remove (t : FileTree) (p : Path) : Except String FileTree :=
  if t.entries.any fun e => p.isPrefixOf e.1 && e.1 != p then .error "Directory not empty"
  else .ok { entries := t.entries.filter fun e => e.1 != p }

/-- Everything in the tree, each path once. -/
def paths (t : FileTree) : List Path := (t.entries.map Prod.fst).dedup

def isDirectory (t : FileTree) (p : Path) : Bool := t.node p == some .dir

/-- The names in a directory. -/
def names (t : FileTree) (p : Path) : List String :=
  t.paths.filterMap fun q => if q.dropLast = p then q.getLast? else none

/-- Everything stands in a directory, or in the root. -/
def Valid (t : FileTree) : Prop :=
  ∀ p name, p ≠ [] → t.has (p ++ [name]) = true → t.isDirectory p = true

theorem node_write_self (t : FileTree) (p : Path) (content : String) :
    (t.write p content).node p = some (.file content) := by
  simp [node, write]

@[simp]
theorem read_write_self (t : FileTree) (p : Path) (content : String) :
    (t.write p content).read p = some content := by
  rw [read, node_write_self]

variable {t t' : FileTree} {p q : Path}

theorem node_write_of_ne (h : q ≠ p) (t : FileTree) (content : String) :
    (t.write p content).node q = t.node q := by
  have hbeq : (q == p) = false := by simpa using h
  simp [node, write, List.lookup_cons, hbeq]

theorem read_write_of_ne (h : q ≠ p) (t : FileTree) (content : String) :
    (t.write p content).read q = t.read q := by
  rw [read, read, node_write_of_ne h]

theorem lookup_unpacked (dir p : Path) (files : List (Path × String)) :
    (files.map fun f => (dir ++ f.1, Node.file f.2)).lookup (dir ++ p) =
      (files.lookup p).map Node.file := by
  induction files with
  | nil => rfl
  | cons f rest ih =>
    rw [List.map_cons, List.lookup_cons, List.lookup_cons, ih]
    by_cases hp : p = f.1
    · simp [hp]
    · have hbeq : (p == f.1) = false := by simpa using hp
      have hbeq' : (dir ++ p == dir ++ f.1) = false := by simpa using hp
      rw [hbeq, hbeq']

/-- What is unpacked stands over what was there. -/
theorem read_unpack (t : FileTree) (dir p : Path) (files : List (Path × String)) :
    (t.unpack dir files).read (dir ++ p) = (files.lookup p).or (t.read (dir ++ p)) := by
  have hnode : (t.unpack dir files).node (dir ++ p) =
      ((files.lookup p).map Node.file).or (t.node (dir ++ p)) := by
    rw [node, unpack, List.lookup_append, lookup_unpacked]
    rfl
  rw [read, read, hnode]
  cases files.lookup p <;> rfl

theorem read_mkdir (t : FileTree) (p q : Path) : (t.mkdir p).read q = t.read q := by
  unfold mkdir
  split
  · rfl
  · next hp =>
    by_cases hq : q = p
    · subst hq
      have hnone : t.entries.lookup q = none := Option.not_isSome_iff_eq_none.mp hp
      simp [read, node, hnone]
    · have hbeq : (q == p) = false := by simpa using hq
      simp [read, node, List.lookup_cons, hbeq]

/-- New directories stand in no file's place. -/
theorem read_mkdirs (t : FileTree) (p q : Path) : (t.mkdirs p).read q = t.read q := by
  unfold mkdirs
  induction p.inits generalizing t with
  | nil => rfl
  | cons dir rest ih => rw [List.foldl_cons, ih, read_mkdir]

/-- Writing removes nothing. -/
theorem has_write (h : t.has q = true) (p : Path) (content : String) :
    (t.write p content).has q = true := by
  by_cases hq : q = p
  · rw [has, hq, node_write_self]
    rfl
  · rw [has, node_write_of_ne hq]
    exact h

theorem has_mkdir (t : FileTree) (p q : Path) :
    (t.mkdir p).has q = true ↔ t.has q = true ∨ q = p := by
  unfold mkdir
  split
  · next hp =>
    constructor
    · exact .inl
    · rintro (h | rfl)
      · exact h
      · exact hp
  · by_cases hq : q = p
    · simp [has, node, hq]
    · have hbeq : (q == p) = false := by simpa using hq
      simp [has, node, List.lookup_cons, hbeq, hq]

/-- The new directories are those on the way. -/
theorem has_mkdirs (t : FileTree) (p q : Path) :
    (t.mkdirs p).has q = true ↔ t.has q = true ∨ q <+: p := by
  rw [← List.mem_inits]
  unfold mkdirs
  induction p.inits generalizing t with
  | nil => simp
  | cons dir rest ih => rw [List.foldl_cons, ih, has_mkdir, List.mem_cons, or_assoc]

theorem read_remove_of_ne (h : t.remove p = .ok t') (hne : q ≠ p) : t'.read q = t.read q := by
  unfold remove at h
  split at h
  · cases h
  · cases h
    have hq : (q != p) = true := by simpa using hne
    simp [read, node, lookup_filter_key fun q => q != p, hq]

/-- A directory that is removed had nothing in it. -/
theorem node_remove (h : t.remove p = .ok t') : t'.node q = if p <+: q then none else t.node q := by
  unfold remove at h
  split at h
  · cases h
  · next hempty =>
    cases h
    rw [node, lookup_filter_key fun q => q != p]
    split
    · next hq =>
      have hq : q ≠ p := by simpa using hq
      split
      · next hp =>
        rw [List.lookup_eq_none_iff]
        intro e he
        by_contra hbeq
        have heq : q = e.1 := by simpa using hbeq
        apply hempty
        rw [List.any_eq_true]
        exact ⟨e, he, by simpa [← heq] using ⟨hp, hq⟩⟩
      · rfl
    · next hq =>
      have hq : q = p := by simpa using hq
      rw [if_pos (hq ▸ List.prefix_refl p)]

theorem has_iff_mem_paths : t.has p = true ↔ p ∈ t.paths := by
  rw [has, node, paths, List.mem_dedup, List.mem_map, Option.isSome_iff_ne_none, Ne,
    List.lookup_eq_none_iff]
  constructor
  · intro h
    push Not at h
    obtain ⟨e, he, hp⟩ := h
    exact ⟨e, he, (eq_of_beq (by simpa using hp)).symm⟩
  · rintro ⟨e, he, rfl⟩ hne
    simpa using hne e he

theorem valid_iff : t.Valid ↔ ∀ q ∈ t.paths, q.dropLast ≠ [] → t.isDirectory q.dropLast = true := by
  constructor
  · intro h q hq hne
    have hlast : q ≠ [] := fun hnil => hne (by rw [hnil]; rfl)
    have hsplit : q.dropLast ++ [q.getLast hlast] = q := List.dropLast_append_getLast hlast
    refine h q.dropLast (q.getLast hlast) hne ?_
    rw [hsplit, has_iff_mem_paths]
    exact hq
  · intro h p name hne hhas
    have hdir := h (p ++ [name]) (has_iff_mem_paths.mp hhas)
    rw [List.dropLast_concat] at hdir
    exact hdir hne

instance (t : FileTree) : Decidable t.Valid := decidable_of_iff _ valid_iff.symm

/-- A directory lists what stands in it. -/
theorem mem_names {name : String} : name ∈ t.names p ↔ t.has (p ++ [name]) = true := by
  rw [has_iff_mem_paths, names, List.mem_filterMap]
  constructor
  · rintro ⟨q, hq, h⟩
    split at h
    · next hp =>
      have hlast : q.dropLast ++ [name] = q := List.dropLast_append_getLast? name h
      rwa [← hp, hlast]
    · cases h
  · intro h
    exact ⟨p ++ [name], h, by simp⟩

theorem has_of_isDirectory (h : t.isDirectory p = true) : t.has p = true := by
  rw [has, eq_of_beq h]
  rfl

theorem node_removeAll (t : FileTree) (p q : Path) :
    (t.removeAll p).node q = if p.isPrefixOf q then none else t.node q := by
  rw [node, removeAll, lookup_filter_key fun q => !p.isPrefixOf q]
  cases p.isPrefixOf q <;> rfl

theorem has_removeAll_self (t : FileTree) (p : Path) : (t.removeAll p).has p = false := by
  rw [has, node_removeAll, if_pos (by simp)]
  rfl

/-- What is not below the path stays. -/
theorem node_removeAll_of_not_prefix (h : ¬ p <+: q) : (t.removeAll p).node q = t.node q := by
  rw [node_removeAll, if_neg (by simpa using h)]

theorem isDirectory_removeAll :
    (t.removeAll p).isDirectory q = true ↔ ¬ p <+: q ∧ t.isDirectory q = true := by
  by_cases h : p <+: q
  · have hp : p.isPrefixOf q = true := by simpa using h
    simp [isDirectory, node_removeAll, hp, h]
  · rw [isDirectory, isDirectory, node_removeAll_of_not_prefix h]
    simp [h]

end FileTree

/-- The order in which directories list their names. -/
structure DirOrder where
  order : Path → List String → List String
  perm : ∀ p names, (order p names).Perm names

/-- What a directory iterator goes over. -/
def FileTree.list (t : FileTree) (o : DirOrder) (p : Path) : List String := o.order p (t.names p)

theorem FileTree.mem_list {t : FileTree} {o : DirOrder} {p : Path} {name : String} :
    name ∈ t.list o p ↔ t.has (p ++ [name]) = true :=
  (o.perm p _).mem_iff.trans mem_names

/-- The name comes first, if it is there. -/
def moveFront (name : String) (names : List String) : List String :=
  if name ∈ names then name :: names.erase name else names

theorem moveFront_perm (name : String) (names : List String) :
    (moveFront name names).Perm names := by
  unfold moveFront
  split
  · next h => exact (List.perm_cons_erase h).symm
  · exact List.Perm.refl _

theorem foldr_moveFront_perm (first names : List String) :
    (first.foldr moveFront names).Perm names := by
  induction first with
  | nil => exact List.Perm.refl _
  | cons name rest ih => exact (moveFront_perm name _).trans ih

theorem foldr_moveFront {first names : List String} (hnodup : first.Nodup)
    (hall : ∀ name ∈ first, name ∈ names) :
    ∃ rest, first.foldr moveFront names = first ++ rest := by
  induction first with
  | nil => exact ⟨names, rfl⟩
  | cons name others ih =>
    obtain ⟨hname, hnodup⟩ := List.nodup_cons.mp hnodup
    obtain ⟨hhas, hall⟩ := List.forall_mem_cons.mp hall
    obtain ⟨rest, hrest⟩ := ih hnodup hall
    have hmem : name ∈ others ++ rest :=
      hrest ▸ (foldr_moveFront_perm others names).mem_iff.mpr hhas
    refine ⟨rest.erase name, ?_⟩
    rw [List.foldr_cons, hrest, moveFront, if_pos hmem, List.erase_append_right _ hname]
    rfl

/-- An order that begins with given names. -/
def DirOrder.front (first : Path → List String) : DirOrder where
  order p names := (first p).foldr moveFront names
  perm p := foldr_moveFront_perm (first p)

theorem FileTree.list_front (t : FileTree) (first : Path → List String) {p : Path}
    (hnodup : (first p).Nodup) (hall : ∀ name ∈ first p, t.has (p ++ [name]) = true) :
    ∃ rest, t.list (DirOrder.front first) p = first p ++ rest :=
  foldr_moveFront hnodup fun name hname => mem_names.mpr (hall name hname)

end Lib
end AkLite
