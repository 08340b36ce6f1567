/-
Advisory locks on files that are found by name.

The three calls modelled are `open` with `O_CREAT`, `flock` with
`LOCK_EX | LOCK_NB`, and `unlink`, as POSIX and the BSD `flock` specify them.  A
name refers to an inode or to nothing.  `open` creates a new inode when the name
refers to nothing, and returns a new open file description of the inode either
way.  A lock belongs to a description and excludes every other description of
the same inode, those of the same process included.  `unlink` removes the name
and leaves the inode with its descriptions and locks alone.  The end of a
process closes its descriptions, and closing one drops its lock.

`Exclusive` is what the kernel maintains: an inode has at most one locked
description.  It says nothing about two inodes that a name referred to one after
the other, so exclusion by name needs the name to stay where it is.
-/
import Mathlib.Data.List.Basic

namespace AkLite
namespace Lib

/-- An open file description. -/
structure Desc where
  id : Nat
  proc : Nat
  inode : Nat
  locked : Bool
  deriving DecidableEq, Repr

/-- One name, the descriptions open on the inodes it has referred to, and the
next unused inode and description numbers. -/
structure FileLock where
  name : Option Nat
  descs : List Desc
  freshInode : Nat
  freshDesc : Nat
  deriving DecidableEq, Repr

namespace FileLock

/-- A machine on which the name has never been used. -/
def fresh : FileLock := { name := none, descs := [], freshInode := 0, freshDesc := 0 }

/-- The inode an `open` with `O_CREAT` gives: the one the name refers to, or a
new one. -/
def openInode (f : FileLock) : Nat := f.name.getD f.freshInode

/-- `open(name, O_CREAT)` in process `p`.  The new description has the number
`f.freshDesc`. -/
def openAt (f : FileLock) (p : Nat) : FileLock :=
  { name := some f.openInode
    descs := { id := f.freshDesc, proc := p, inode := f.openInode, locked := false } :: f.descs
    freshInode := if f.name.isSome then f.freshInode else f.freshInode + 1
    freshDesc := f.freshDesc + 1 }

/-- Some description other than `d` holds the lock of inode `i`. -/
def lockedByOther (f : FileLock) (d i : Nat) : Bool :=
  f.descs.any fun x => x.locked && x.inode == i && x.id != d

/-- The description numbered `d`. -/
def find (f : FileLock) (d : Nat) : Option Desc := f.descs.find? fun x => x.id == d

/-- `flock(d, LOCK_EX | LOCK_NB)` fails with `EWOULDBLOCK`. -/
def wouldBlock (f : FileLock) (d : Nat) : Bool :=
  match f.find d with
  | some x => f.lockedByOther d x.inode
  | none => false

/-- A `flock` that succeeds marks the description as the holder. -/
def flock (f : FileLock) (d : Nat) : FileLock :=
  { f with descs := f.descs.map fun x => if x.id = d then { x with locked := true } else x }

/-- `unlink(name)`. -/
def unlink (f : FileLock) : FileLock := { f with name := none }

/-- The end of process `p`. -/
def exit (f : FileLock) (p : Nat) : FileLock :=
  { f with descs := f.descs.filter fun x => x.proc != p }

/-! ## What the kernel maintains -/

/-- Description numbers are used once, numbers in use are below the next unused
ones, and a locked inode has one locked description. -/
structure Wf (f : FileLock) : Prop where
  unique : ∀ x ∈ f.descs, ∀ y ∈ f.descs, x.id = y.id → x = y
  descLt : ∀ x ∈ f.descs, x.id < f.freshDesc
  inodeLt : ∀ x ∈ f.descs, x.inode < f.freshInode
  nameLt : ∀ i, f.name = some i → i < f.freshInode
  exclusive : ∀ x ∈ f.descs, ∀ y ∈ f.descs,
    x.locked = true → y.locked = true → x.inode = y.inode → x.id = y.id

theorem wf_fresh : Wf fresh := by
  constructor <;> simp [fresh]

variable {f : FileLock} {d : Nat} {x : Desc}

theorem openInode_lt (h : f.Wf) : f.openInode < (f.openAt p).freshInode := by
  cases hn : f.name with
  | none => simp [openAt, openInode, hn]
  | some i => simpa [openAt, openInode, hn] using h.nameLt i hn

theorem freshInode_le_openAt (f : FileLock) (p : Nat) : f.freshInode ≤ (f.openAt p).freshInode := by
  simp only [openAt]
  split <;> omega

theorem Wf.openAt (h : f.Wf) (p : Nat) : (f.openAt p).Wf := by
  have hlt := openInode_lt (p := p) h
  have hle := freshInode_le_openAt f p
  constructor
  · intro x hx y hy hid
    rcases List.mem_cons.mp hx with rfl | hx <;> rcases List.mem_cons.mp hy with rfl | hy
    · rfl
    · exact absurd hid.symm (Nat.ne_of_lt (h.descLt y hy))
    · exact absurd hid (Nat.ne_of_lt (h.descLt x hx))
    · exact h.unique x hx y hy hid
  · intro x hx
    rcases List.mem_cons.mp hx with rfl | hx
    · exact Nat.lt_succ_self _
    · exact Nat.lt_succ_of_lt (h.descLt x hx)
  · intro x hx
    rcases List.mem_cons.mp hx with rfl | hx
    · exact hlt
    · exact Nat.lt_of_lt_of_le (h.inodeLt x hx) hle
  · intro i hi
    have : f.openInode = i := Option.some.inj hi
    exact this ▸ hlt
  · intro x hx y hy hxl hyl hi
    rcases List.mem_cons.mp hx with rfl | hx
    · exact absurd hxl (by simp)
    · rcases List.mem_cons.mp hy with rfl | hy
      · exact absurd hyl (by simp)
      · exact h.exclusive x hx y hy hxl hyl hi

theorem Wf.unlink (h : f.Wf) : f.unlink.Wf :=
  { h with nameLt := by intro i hi; exact absurd hi (by simp [FileLock.unlink]) }

theorem Wf.exit (h : f.Wf) (p : Nat) : (f.exit p).Wf := by
  have hsub : ∀ x ∈ (f.exit p).descs, x ∈ f.descs := fun x hx => (List.mem_filter.mp hx).1
  exact
    { unique := fun x hx y hy => h.unique x (hsub x hx) y (hsub y hy)
      descLt := fun x hx => h.descLt x (hsub x hx)
      inodeLt := fun x hx => h.inodeLt x (hsub x hx)
      nameLt := h.nameLt
      exclusive := fun x hx y hy => h.exclusive x (hsub x hx) y (hsub y hy) }

theorem flock_id (x : Desc) (d : Nat) :
    (if x.id = d then { x with locked := true } else x).id = x.id := by
  split <;> rfl

/-- The descriptions after a successful `flock`: the one locked, and the others
as they were. -/
theorem mem_flock {y : Desc} (hy : y ∈ (f.flock d).descs) :
    ∃ x ∈ f.descs, y.id = x.id ∧ y.proc = x.proc ∧ y.inode = x.inode ∧
      (y.locked = true → y.id = d ∨ x.locked = true) := by
  obtain ⟨x, hx, rfl⟩ := List.mem_map.mp hy
  by_cases hd : x.id = d
  · exact ⟨x, hx, by simp [hd]⟩
  · exact ⟨x, hx, by simp [hd]⟩

theorem find_eq_some (h : f.find d = some x) : x ∈ f.descs ∧ x.id = d := by
  refine ⟨List.mem_of_find?_eq_some h, ?_⟩
  simpa using List.find?_some h

theorem find_of_mem (h : f.Wf) (hx : x ∈ f.descs) : f.find x.id = some x := by
  cases hf : f.find x.id with
  | none =>
    have := List.find?_eq_none.mp hf x hx
    simp at this
  | some y =>
    obtain ⟨hy, hid⟩ := find_eq_some hf
    rw [h.unique y hy x hx hid]

/-- `flock` blocks exactly when another description of the inode is locked. -/
theorem wouldBlock_iff (h : f.Wf) (hx : x ∈ f.descs) :
    f.wouldBlock x.id = true ↔
      ∃ y ∈ f.descs, y.locked = true ∧ y.inode = x.inode ∧ y.id ≠ x.id := by
  simp only [wouldBlock, find_of_mem h hx, lockedByOther, List.any_eq_true,
    Bool.and_eq_true, beq_iff_eq, bne_iff_ne, and_assoc]

theorem Wf.flock (h : f.Wf) (hfree : f.wouldBlock d = false) : (f.flock d).Wf := by
  -- The lock is free for `d`, so a locked description of its inode is `d` itself.
  have hown : ∀ x ∈ f.descs, x.id = d → ∀ y ∈ f.descs, y.locked = true →
      y.inode = x.inode → y.id = d := by
    intro x hx hxd y hy hyl hyi
    by_contra hne
    have hblock : f.wouldBlock x.id = true :=
      (wouldBlock_iff h hx).mpr ⟨y, hy, hyl, hyi, hxd ▸ hne⟩
    rw [hxd, hfree] at hblock
    exact absurd hblock (by simp)
  constructor
  · intro x hx y hy hid
    obtain ⟨a, ha, rfl⟩ := List.mem_map.mp hx
    obtain ⟨b, hb, rfl⟩ := List.mem_map.mp hy
    rw [flock_id, flock_id] at hid
    rw [h.unique a ha b hb hid]
  · intro y hy
    obtain ⟨x, hx, hid, -⟩ := mem_flock hy
    exact hid ▸ h.descLt x hx
  · intro y hy
    obtain ⟨x, hx, -, -, hi, -⟩ := mem_flock hy
    exact hi ▸ h.inodeLt x hx
  · exact h.nameLt
  · intro x hx y hy hxl hyl hi
    obtain ⟨a, ha, haid, -, hai, hal⟩ := mem_flock hx
    obtain ⟨b, hb, hbid, -, hbi, hbl⟩ := mem_flock hy
    have hab : a.inode = b.inode := hai ▸ hbi ▸ hi
    rcases hal hxl with hxd | hal
    · rcases hbl hyl with hyd | hbl
      · rw [hxd, hyd]
      · rw [hxd, hbid, hown a ha (haid ▸ hxd) b hb hbl hab.symm]
    · rcases hbl hyl with hyd | hbl
      · rw [hyd, haid, hown b hb (hbid ▸ hyd) a ha hal hab]
      · rw [haid, hbid]
        exact h.exclusive a ha b hb hal hbl hab

end FileLock
end Lib
end AkLite
