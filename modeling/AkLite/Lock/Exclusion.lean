/-
Mutual exclusion of locking clients.

Exclusion rests on the name: two clients exclude each other when the descriptors
they lock are descriptors of one inode, and that is so as long as nothing unlinks
the name between the two `open` calls.  The destructor unlinks it, so the runs in
which exclusion holds are those where a client is destroyed only while no other
client holds the lock and no other construction is inside `assert_lock`.  In
those runs at most one client holds the lock (`holding_unique`), and every
construction that reaches its `flock` while a client of another process holds it
reports another instance (`lock_exclusive`).

A read-only client needs no lock and unlinks the file all the same.
`readOnly_client_breaks_exclusion` is the shortest run with two holders: a holder,
a short-lived read-only client, and a newcomer.
-/
import AkLite.Lock.Clients

namespace AkLite
namespace Lock

open Lib

/-- A client holds the lock, or its construction is between `open` and `flock`. -/
def Client.engaged (c : Client) : Bool := c.holding || c.phase == .opened

/-- The condition on steps: a client is destroyed only while no other client is
engaged with the lock. -/
def Admitted (s : Device) : Action → Prop
  | .destroy c => ∀ x ∈ s.clients, x.id ≠ c → x.engaged = false
  | _ => True

instance (s : Device) (a : Action) : Decidable (Admitted s a) := by
  cases a <;> unfold Admitted <;> infer_instance

/-- Client numbers are used once, every engaged client has its own descriptor of
the inode the name refers to, and the descriptor of a holder is locked. -/
structure Inv (s : Device) : Prop where
  wf : s.file.Wf
  unique : ∀ x ∈ s.clients, ∀ y ∈ s.clients, x.id = y.id → x = y
  clientLt : ∀ x ∈ s.clients, x.id < s.freshClient
  attached : ∀ x ∈ s.clients, x.engaged = true →
    ∃ d ∈ s.file.descs, x.desc = some d.id ∧ d.proc = x.proc ∧
      s.file.name = some d.inode ∧ (x.holding = true → d.locked = true)
  own : ∀ x ∈ s.clients, ∀ y ∈ s.clients, ∀ d, x.desc = some d → y.desc = some d → x = y
  descLt : ∀ x ∈ s.clients, ∀ d, x.desc = some d → d < s.file.freshDesc

theorem inv_fresh : Inv Device.fresh := by
  constructor <;> simp [Device.fresh, FileLock.wf_fresh]

variable {s : Device} {c : Nat} {x : Client}

theorem client_eq_some (h : s.client c = some x) : x ∈ s.clients ∧ x.id = c := by
  refine ⟨List.mem_of_find?_eq_some h, ?_⟩
  simpa using List.find?_some h

theorem mem_drop : x ∈ s.drop c ↔ x ∈ s.clients ∧ x.id ≠ c := by
  simp [Device.drop]

/-- Dropping clients and descriptors no remaining client uses keeps the
invariant.  The remaining clients keep their descriptors and the name keeps its
inode whenever one of them is engaged. -/
theorem Inv.restrict (h : Inv s) {file : FileLock} {clients : List Client}
    (hwf : file.Wf) (hsub : ∀ x ∈ clients, x ∈ s.clients)
    (hdesc : ∀ x ∈ clients, x.engaged = true → ∀ d ∈ s.file.descs, d.proc = x.proc →
      ∃ d' ∈ file.descs, d'.id = d.id ∧ d'.proc = d.proc ∧ d'.inode = d.inode ∧
        (d.locked = true → d'.locked = true))
    (hname : ∀ x ∈ clients, x.engaged = true → file.name = s.file.name)
    (hfresh : s.file.freshDesc ≤ file.freshDesc) :
    Inv { s with file := file, clients := clients } := by
  constructor
  · exact hwf
  · exact fun x hx y hy => h.unique x (hsub x hx) y (hsub y hy)
  · exact fun x hx => h.clientLt x (hsub x hx)
  · intro x hx hen
    obtain ⟨d, hd, hxd, hproc, hn, hl⟩ := h.attached x (hsub x hx) hen
    obtain ⟨d', hd', hid, hproc', hinode, hl'⟩ := hdesc x hx hen d hd hproc
    exact ⟨d', hd', hid ▸ hxd, hproc'.trans hproc, by rw [hname x hx hen, hn, hinode],
      fun hh => hl' (hl hh)⟩
  · exact fun x hx y hy => h.own x (hsub x hx) y (hsub y hy)
  · exact fun x hx d hd => Nat.lt_of_lt_of_le (h.descLt x (hsub x hx) d hd) hfresh

/-- A new client whose number and descriptor are unused joins the others. -/
theorem Inv.add (h : Inv s) (hid : x.id = s.freshClient)
    (hatt : x.engaged = true → ∃ d ∈ s.file.descs, x.desc = some d.id ∧ d.proc = x.proc ∧
      s.file.name = some d.inode ∧ (x.holding = true → d.locked = true))
    (hown : ∀ y ∈ s.clients, ∀ d, x.desc = some d → y.desc ≠ some d)
    (hlt : ∀ d, x.desc = some d → d < s.file.freshDesc) :
    Inv { s with clients := x :: s.clients, freshClient := s.freshClient + 1 } := by
  have hne : ∀ y ∈ s.clients, y.id ≠ x.id := fun y hy =>
    hid ▸ Nat.ne_of_lt (h.clientLt y hy)
  constructor
  · exact h.wf
  · intro a ha b hb hab
    rcases List.mem_cons.mp ha with rfl | hs <;> rcases List.mem_cons.mp hb with rfl | ht
    · rfl
    · exact absurd hab.symm (hne b ht)
    · exact absurd hab (hne a hs)
    · exact h.unique a hs b ht hab
  · intro a ha
    rcases List.mem_cons.mp ha with rfl | ha
    · exact hid ▸ Nat.lt_succ_self _
    · exact Nat.lt_succ_of_lt (h.clientLt a ha)
  · intro a ha hen
    rcases List.mem_cons.mp ha with rfl | ha
    · exact hatt hen
    · exact h.attached a ha hen
  · intro a ha b hb d had hbd
    rcases List.mem_cons.mp ha with rfl | hs <;> rcases List.mem_cons.mp hb with rfl | ht
    · rfl
    · exact absurd hbd (hown b ht d had)
    · exact absurd had (hown a hs d hbd)
    · exact h.own a hs b ht d had hbd
  · intro a ha d had
    rcases List.mem_cons.mp ha with rfl | ha
    · exact hlt d had
    · exact h.descLt a ha d had

/-! ## Each step keeps the invariant -/

/-- A locking construction opens the file.  The new description is of the inode
the name refers to afterwards, and the name moves only if it referred to nothing,
in which case no client is engaged. -/
theorem Inv.openAt (h : Inv s) (p : Nat) : Inv { s with file := s.file.openAt p } := by
  refine h.restrict (h.wf.openAt p) (fun _ hx => hx) ?_ ?_ (Nat.le_succ _)
  · intro x _ _ d hd _
    exact ⟨d, List.mem_cons_of_mem _ hd, rfl, rfl, rfl, id⟩
  · intro x hx hen
    obtain ⟨d, -, -, -, hn, -⟩ := h.attached x hx hen
    simp [FileLock.openAt, FileLock.openInode, hn]

theorem inv_construct (h : Inv s) (p : Nat) (readOnly applyLock openErr restErr : Bool) :
    Inv (construct s p readOnly applyLock openErr restErr) := by
  unfold construct
  by_cases hlock : (!readOnly && applyLock) = true
  · rw [if_pos hlock]
    by_cases herr : openErr = true
    · rw [if_pos herr]
      exact h
    · rw [if_neg herr]
      refine (h.openAt p).add rfl (fun _ => ⟨_, List.mem_cons_self, rfl, rfl, rfl, ?_⟩) ?_ ?_
      · intro hh
        simp [Client.holding] at hh
      · intro y hy d hd hyd
        obtain rfl : s.file.freshDesc = d := Option.some.inj hd
        exact absurd (h.descLt y hy _ hyd) (Nat.lt_irrefl _)
      · intro d hd
        obtain rfl : s.file.freshDesc = d := Option.some.inj hd
        exact Nat.lt_succ_self _
  · rw [if_neg hlock]
    by_cases herr : restErr = true
    · rw [if_pos herr]
      exact h
    · rw [if_neg herr]
      -- A client that takes no lock is never engaged.
      refine h.add rfl (fun hen => ?_) (fun _ _ _ hd => absurd hd (by simp))
        (fun _ hd => absurd hd (by simp))
      simp [Client.engaged, Client.holding, Client.locking] at hen
      simp [hen] at hlock

/-- Removing a client object leaves the file alone. -/
theorem Inv.dropClient (h : Inv s) (c : Nat) : Inv { s with clients := s.drop c } :=
  h.restrict h.wf (fun _ hx => (mem_drop.mp hx).1)
    (fun _ _ _ d hd _ => ⟨d, hd, rfl, rfl, rfl, id⟩) (fun _ _ _ => rfl) (Nat.le_refl _)

/-- A successful `flock` changes one description and no name. -/
theorem Inv.flock (h : Inv s) {d : Nat} (hfree : s.file.wouldBlock d = false) :
    Inv { s with file := s.file.flock d } := by
  refine h.restrict (h.wf.flock hfree) (fun _ hx => hx) ?_ (fun _ _ _ => rfl) (Nat.le_refl _)
  intro x _ _ y hy _
  refine ⟨_, List.mem_map_of_mem hy, ?_⟩
  by_cases hd : y.id = d <;> simp [hd]

/-- A construction that got the lock becomes a holder: the object keeps its
number and its descriptor, which is now locked. -/
theorem Inv.enliven (h : Inv s) (hx : x ∈ s.clients) (hopened : x.phase = .opened)
    (hlocked : ∀ y ∈ s.file.descs, x.desc = some y.id → y.locked = true) :
    Inv { s with clients := { x with phase := .living } :: s.drop x.id } := by
  have hdrop : ∀ y ∈ s.drop x.id, y ∈ s.clients := fun y hy => (mem_drop.mp hy).1
  constructor
  · exact h.wf
  · intro a ha b hb hab
    rcases List.mem_cons.mp ha with rfl | hs <;> rcases List.mem_cons.mp hb with rfl | ht
    · rfl
    · exact absurd hab.symm (mem_drop.mp ht).2
    · exact absurd hab (mem_drop.mp hs).2
    · exact h.unique a (hdrop a hs) b (hdrop b ht) hab
  · intro a ha
    rcases List.mem_cons.mp ha with rfl | hs
    · exact h.clientLt x hx
    · exact h.clientLt a (hdrop a hs)
  · intro a ha hen
    rcases List.mem_cons.mp ha with rfl | hs
    · obtain ⟨d, hd, hxd, hproc, hn, -⟩ := h.attached x hx (by simp [Client.engaged, hopened])
      exact ⟨d, hd, hxd, hproc, hn, fun _ => hlocked d hd hxd⟩
    · exact h.attached a (hdrop a hs) hen
  · intro a ha b hb d had hbd
    rcases List.mem_cons.mp ha with rfl | hs <;> rcases List.mem_cons.mp hb with rfl | ht
    · rfl
    · exact absurd (congrArg Client.id (h.own x hx b (hdrop b ht) d had hbd)).symm
        (mem_drop.mp ht).2
    · exact absurd (congrArg Client.id (h.own a (hdrop a hs) x hx d had hbd)) (mem_drop.mp hs).2
    · exact h.own a (hdrop a hs) b (hdrop b ht) d had hbd
  · intro a ha d had
    rcases List.mem_cons.mp ha with rfl | hs
    · exact h.descLt x hx d had
    · exact h.descLt a (hdrop a hs) d had

theorem inv_finishLock (h : Inv s) (hx : x ∈ s.clients) (hopened : x.phase = .opened) {d : Nat}
    (hd : x.desc = some d) (sysErr restErr : Bool) : Inv (finishLock s x d sysErr restErr) := by
  unfold finishLock flockResult
  by_cases hsys : sysErr = true
  · rw [if_pos hsys]
    exact h.dropClient x.id
  rw [if_neg hsys]
  by_cases hblock : s.file.wouldBlock d = true
  · rw [if_pos hblock]
    exact h.dropClient x.id
  rw [if_neg hblock]
  have hflock := h.flock (Bool.eq_false_iff.mpr hblock)
  by_cases herr : restErr = true
  · simp only [herr, if_true]
    exact hflock.dropClient x.id
  · simp only [herr, if_false, Bool.false_eq_true]
    refine hflock.enliven hx hopened (fun y hy hyd => ?_)
    obtain ⟨z, -, rfl⟩ := List.mem_map.mp hy
    have hz : z.id = d := by
      rw [FileLock.flock_id] at hyd
      exact Option.some.inj (hyd.symm.trans hd)
    simp [hz]

theorem inv_destroy (h : Inv s) (hadm : Admitted s (.destroy c)) :
    Inv { s with file := s.file.unlink, clients := s.drop c } := by
  -- Nobody is engaged afterwards, so nothing is asked of the name.
  have hidle : ∀ x ∈ s.drop c, x.engaged = false := fun x hx =>
    hadm x (mem_drop.mp hx).1 (mem_drop.mp hx).2
  refine h.restrict h.wf.unlink (fun _ hx => (mem_drop.mp hx).1)
    (fun x hx hen => ?_) (fun x hx hen => ?_) (Nat.le_refl _)
  · exact absurd hen (by simp [hidle x hx])
  · exact absurd hen (by simp [hidle x hx])

theorem inv_exit (h : Inv s) (p : Nat) :
    Inv { s with file := s.file.exit p, clients := s.clients.filter fun x => x.proc != p } := by
  refine h.restrict (h.wf.exit p) (fun _ hx => (List.mem_filter.mp hx).1) ?_
    (fun _ _ _ => rfl) (Nat.le_refl _)
  intro x hx _ d hd hproc
  have hxp : x.proc ≠ p := by simpa using (List.mem_filter.mp hx).2
  exact ⟨d, List.mem_filter.mpr ⟨hd, by simpa [hproc] using hxp⟩, rfl, rfl, rfl, id⟩

theorem inv_step {s t : Device} {a : Action} (h : Inv s) (hadm : Admitted s a)
    (hstep : Step s a t) : Inv t := by
  cases a with
  | construct p readOnly applyLock openErr restErr =>
    obtain rfl : construct s p readOnly applyLock openErr restErr = t := Option.some.inj hstep
    exact inv_construct h p readOnly applyLock openErr restErr
  | lock c sysErr restErr =>
    cases hc : s.client c with
    | none => simp [Step, step, hc] at hstep
    | some x =>
      obtain ⟨hx, -⟩ := client_eq_some hc
      cases hphase : x.phase <;> cases hdesc : x.desc <;>
        simp [Step, step, hc, hphase, hdesc] at hstep
      subst hstep
      exact inv_finishLock h hx hphase hdesc sysErr restErr
  | destroy c =>
    cases hc : s.client c with
    | none => simp [Step, step, hc] at hstep
    | some x =>
      cases hphase : x.phase <;> simp [Step, step, hc, hphase] at hstep
      subst hstep
      exact inv_destroy h hadm
  | exit p =>
    have ht := Option.some.inj hstep
    subst ht
    exact inv_exit h p

/-! ## Exclusion -/

/-- Two holders lock descriptions of one inode, so they are one client. -/
theorem holding_unique (h : Inv s) {x y : Client} (hx : x ∈ s.clients) (hy : y ∈ s.clients)
    (hxh : x.holding = true) (hyh : y.holding = true) : x = y := by
  obtain ⟨d, hd, hxd, -, hxn, hxl⟩ := h.attached x hx (by simp [Client.engaged, hxh])
  obtain ⟨e, he, hye, -, hyn, hyl⟩ := h.attached y hy (by simp [Client.engaged, hyh])
  have hinode : d.inode = e.inode := Option.some.inj (hxn.symm.trans hyn)
  have hid : d.id = e.id := h.wf.exclusive d hd e he (hxl hxh) (hyl hyh) hinode
  exact h.own x hx y hy d.id hxd (hid ▸ hye)

/-- A construction that reaches its `flock` while another client holds the lock
finds a locked description of its own inode. -/
theorem opened_wouldBlock (h : Inv s) {x y : Client} (hx : x ∈ s.clients) (hy : y ∈ s.clients)
    (hxh : x.holding = true) (hopened : y.phase = .opened) {d : Nat} (hd : y.desc = some d) :
    s.file.wouldBlock d = true := by
  obtain ⟨a, ha, hxa, -, hxn, hxl⟩ := h.attached x hx (by simp [Client.engaged, hxh])
  obtain ⟨b, hb, hyb, -, hyn, -⟩ := h.attached y hy (by simp [Client.engaged, hopened])
  obtain rfl : b.id = d := Option.some.inj (hyb.symm.trans hd)
  refine (FileLock.wouldBlock_iff h.wf hb).mpr
    ⟨a, ha, hxl hxh, Option.some.inj (hxn.symm.trans hyn), fun hid => ?_⟩
  have hxy : x = y := h.own x hx y hy a.id hxa (hid ▸ hyb)
  subst hxy
  simp [Client.holding, hopened] at hxh

/-- At most one process has a holder, and a construction of a locking client in
another process fails at its `flock`, for a held lock with the report of another
instance. -/
def Excludes (s : Device) : Prop :=
  (∀ x ∈ s.clients, ∀ y ∈ s.clients, x.holding = true → y.holding = true → x.proc = y.proc) ∧
  (∀ x ∈ s.clients, ∀ y ∈ s.clients, x.holding = true → y.phase = .opened →
    x.proc ≠ y.proc → ∀ d, y.desc = some d → ∀ sysErr,
      flockResult s.file d sysErr =
        .error (if sysErr then .systemError else .anotherInstance))

/-- In every run in which clients are destroyed only while no other client is
engaged with the lock, the lock excludes in every state reached. -/
theorem lock_exclusive {s : Device} (h : Reaches Step Admitted Device.fresh s) : Excludes s := by
  have hinv : Inv s := Reaches.invariant Inv (fun _ _ _ => inv_step) inv_fresh h
  constructor
  · intro x hx y hy hxh hyh
    rw [holding_unique hinv hx hy hxh hyh]
  · intro x hx y hy hxh hopened _ d hd sysErr
    have hblock := opened_wouldBlock hinv hx hy hxh hopened hd
    cases sysErr <;> simp [flockResult, hblock]

/-- A daemon in process 0 holds the lock while process 1 is between `open` and
`flock`. -/
def contended : List Action :=
  [.construct 0 false true false false, .lock 0 false false, .construct 1 false true false false]

theorem lock_exclusive_contended :
    ∃ s, runList step Admitted Device.fresh contended = some s ∧ Excludes s ∧
      s.clients.length = 2 := by
  refine ⟨(runList step Admitted Device.fresh contended).get (by decide), by decide, ?_, by decide⟩
  exact lock_exclusive (reaches_of_runList (l := contended) (by decide))

/-- A daemon in process 0 holds the lock, a read-only client of process 1 comes
and goes, and process 2 takes the lock as well. -/
def shortLived : List Action :=
  [.construct 0 false true false false, .lock 0 false false,
    .construct 1 true false false false, .destroy 1,
    .construct 2 false true false false, .lock 2 false false]

/-- The destructor of a client that never took the lock removes the name of the
locked file, so the next construction locks another inode. -/
theorem readOnly_client_breaks_exclusion :
    ¬ ∀ s, Reaches Step (fun _ _ => True) Device.fresh s → Excludes s := by
  intro h
  have hrun := h _ (reaches_of_runList (t := (runList step (fun _ _ => True) Device.fresh
    shortLived).get (by decide)) (l := shortLived) (by decide))
  exact absurd hrun.1 (by decide)

end Lock
end AkLite
