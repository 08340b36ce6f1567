/-
The chain of roots.

The root that checks the signatures of a bundle is reached from the root the device stores, or
from the first root of the bundle if the device stores none, through the roots of the bundle.
Every step of the chain is verified by the root before it, and the chain ends where the bundle
has no further root.

Whether there is a root to verify the next one with is told from the version of the last, which
has to be positive.  The versions of roots start with one, but a root whose version is missing
reads as version zero: the chain is what it should be if the root it starts with has a positive
version, and `unverified_root_accepted` starts with one that has not.
-/
import AkLite.Bundle.Handled
import Mathlib

namespace AkLite
namespace Bundle

open Lib

variable {Key Stamp R : Type} {tk : Toolkit Key Stamp} {rr : RootRepo R}

/-! ## The sources of roots -/

/-- The files of a directory, with what reading them gives. -/
abbrev Files : Type := List (String × Except String String)

/-- `LocalRepoSource::fetchFile`. -/
def fetchFile (files : Files) (name : String) : Fetched :=
  match files.lookup name with
  | none => .notFound
  | some (.ok text) => .found text
  | some (.error what) => .failed what

def rootName (version : Int) : String := toString version ++ ".root.json"

/-- `LocalRepoSource::FetchRoot`. -/
def fetchRoot (files : Files) (version : Int) : Fetched := fetchFile files (rootName version)

/-- `AkRepo::GetRoot` for the last root.  Without one it is empty. -/
def getRoot (loadRoot : Option String) : String := loadRoot.getD ""

/-! ## What is to be shown -/

/-- A repository without a root has no positive version, and a root that is verified has the
next version. -/
structure RootRepo.Lawful (rr : RootRepo R) : Prop where
  empty : rr.rootVersion rr.empty ≤ 0
  verifyRoot : ∀ repo text repo', rr.verifyRoot repo text = .ok repo' →
    rr.rootVersion repo' = rr.rootVersion repo + 1

/-- The root that a chain starts with: the one of the device, or the bundle's first. -/
def chainStart (latestRoot : String) (files : Files) : Option String :=
  if latestRoot ≠ "" then some latestRoot
  else
    match fetchRoot files 1 with
    | .found text => some text
    | _ => none

/-- It has a positive version, if the library takes it. -/
def StartsPositive (rr : RootRepo R) (latestRoot : String) (files : Files) : Prop :=
  ∀ text repo, chainStart latestRoot files = some text → rr.initRoot rr.empty text = .ok repo →
    0 < rr.rootVersion repo

/-- A root at the end of a chain, with its version and the repository that has it: the root of
the device, the first root of the bundle if the device has none, or the next root of the bundle,
verified by the one before it. -/
inductive Trusted (rr : RootRepo R) (latestRoot : String) (files : Files) :
    Int → String → R → Prop
  | stored {repo : R} (hstored : latestRoot ≠ "")
      (hinit : rr.initRoot rr.empty latestRoot = .ok repo) :
      Trusted rr latestRoot files (rr.rootVersion repo) latestRoot repo
  | first {text : String} {repo : R} (hstored : latestRoot = "")
      (hfile : fetchRoot files 1 = .found text) (hinit : rr.initRoot rr.empty text = .ok repo) :
      Trusted rr latestRoot files 1 text repo
  | next {version : Int} {last text : String} {repo repo' : R}
      (h : Trusted rr latestRoot files version last repo)
      (hfile : fetchRoot files (version + 1) = .found text)
      (hverify : rr.verifyRoot repo text = .ok repo') :
      Trusted rr latestRoot files (version + 1) text repo'

/-! ## The loop ends -/

theorem rootName_inj {v w : Int} (h : rootName v = rootName w) : v = w :=
  Int.repr_injective ((String.append_left_inj ".root.json").mp h)

theorem mem_of_fetchRoot {files : Files} {version : Int}
    (h : fetchRoot files version ≠ .notFound) : rootName version ∈ files.map Prod.fst := by
  rw [mem_keys_iff, Option.isSome_iff_ne_none]
  intro hnone
  refine h ?_
  rw [fetchRoot, fetchFile, hnone]

/-- Every round of the loop uses up the name of a file, so more fuel than names changes
nothing. -/
theorem fetchRoots_fuel {dir : Dir} {names : List String} {fuel fuel' : Nat} {version : Int}
    {repo : R} {latest : String}
    (hnames : ∀ v, version < v → dir.fetchRoot v ≠ .notFound → rootName v ∈ names)
    (hfuel : names.length < fuel) (hfuel' : names.length < fuel') :
    fetchRoots rr dir fuel version repo latest = fetchRoots rr dir fuel' version repo latest := by
  induction fuel generalizing names fuel' version repo latest with
  | zero => omega
  | succ fuel ih =>
    cases fuel' with
    | zero => omega
    | succ fuel' =>
      unfold fetchRoots
      cases hfile : dir.fetchRoot (version + 1) with
      | notFound => rfl
      | failed what => rfl
      | found text =>
        have hmem : rootName (version + 1) ∈ names :=
          hnames (version + 1) (by omega) (by rw [hfile]; exact fun h => by cases h)
        have hlength := List.length_erase_of_mem hmem
        have hpos := List.length_pos_of_mem hmem
        have hrest : ∀ v, version + 1 < v → dir.fetchRoot v ≠ .notFound →
            rootName v ∈ names.erase (rootName (version + 1)) := by
          intro v hv hfound
          have hne : rootName v ≠ rootName (version + 1) := by
            intro h
            have := rootName_inj h
            omega
          exact (List.mem_erase_of_ne hne).mpr (hnames v (by omega) hfound)
        have hloop : ∀ next, fetchRoots rr dir fuel (version + 1) next text =
            fetchRoots rr dir fuel' (version + 1) next text :=
          fun next => ih hrest (by omega) (by omega)
        simp only [hloop]

/-! ## The loop follows the chain -/

section Loop

variable {latestRoot : String} {files : Files} {dir : Dir}

theorem Trusted.pos (hrr : rr.Lawful) (hpos : StartsPositive rr latestRoot files) {version : Int}
    {last : String} {repo : R} (h : Trusted rr latestRoot files version last repo) :
    0 < rr.rootVersion repo := by
  induction h with
  | stored hstored hinit => exact hpos _ _ (if_pos hstored) hinit
  | first hstored hfile hinit =>
    refine hpos _ _ ?_ hinit
    rw [chainStart, if_neg (not_not.mpr hstored), hfile]
  | next _ _ hverify ih =>
    rw [hrr.verifyRoot _ _ _ hverify]
    omega

/-- From a root of the chain the loop goes to its end. -/
theorem fetchRoots_trusted (hrr : rr.Lawful) (hpos : StartsPositive rr latestRoot files)
    (hdir : dir.fetchRoot = fetchRoot files) {fuel : Nat} {version reached : Int} {repo : R}
    {latest text : String}
    (h : Trusted rr latestRoot files version latest repo)
    (hfuel : fuel = (maxVersion - version).toNat)
    (hloop : fetchRoots rr dir fuel version repo latest = .ok (text, reached)) :
    ∃ version' repo', Trusted rr latestRoot files version' text repo' ∧
      (fetchRoot files (version' + 1) = .notFound ∨ maxVersion ≤ version') := by
  induction fuel generalizing version repo latest with
  | zero =>
    obtain rfl : latest = text := congrArg Prod.fst (Except.ok.inj hloop)
    exact ⟨version, repo, h, .inr (by omega)⟩
  | succ fuel ih =>
    unfold fetchRoots at hloop
    rw [hdir] at hloop
    cases hfile : fetchRoot files (version + 1) with
    | notFound =>
      rw [hfile] at hloop
      obtain rfl : latest = text := congrArg Prod.fst (Except.ok.inj hloop)
      exact ⟨version, repo, h, .inl hfile⟩
    | failed what =>
      rw [hfile] at hloop
      cases hloop
    | found next =>
      rw [hfile] at hloop
      obtain ⟨repo', hverify, hloop⟩ := bind_eq_ok.mp hloop
      -- the repository has a root, so the next one is verified
      rw [if_pos (h.pos hrr hpos)] at hverify
      refine ih (h.next hfile (thrown_eq_ok.mp hverify)) ?_ hloop
      omega

theorem lastRoot_eq_ok {reached : String × Int} {root : Json}
    (h : lastRoot tk reached = .ok root) : reached.1 ≠ "" ∧ root = tk.parseJSON reached.1 := by
  unfold lastRoot at h
  rw [ite_error_eq_ok] at h
  exact ⟨h.1, (Except.ok.inj h.2).symm⟩

/-- A device without a root starts with the first root of the bundle. -/
theorem fetchRoots_first (hrr : rr.Lawful) (hpos : StartsPositive rr latestRoot files)
    (hdir : dir.fetchRoot = fetchRoot files) (hstored : latestRoot = "") {reached : Int}
    {text : String} (htext : text ≠ "")
    (hloop : fetchRoots rr dir (maxVersion - 0).toNat 0 rr.empty latestRoot =
      .ok (text, reached)) :
    ∃ version' repo', Trusted rr latestRoot files version' text repo' ∧
      (fetchRoot files (version' + 1) = .notFound ∨ maxVersion ≤ version') := by
  have hfuel : (maxVersion - 0).toNat = (maxVersion - 1).toNat + 1 := by
    decide
  rw [hfuel, fetchRoots, hdir, zero_add] at hloop
  cases hfile : fetchRoot files 1 with
  | notFound =>
    rw [hfile] at hloop
    obtain rfl : latestRoot = text := congrArg Prod.fst (Except.ok.inj hloop)
    exact absurd hstored htext
  | failed what =>
    rw [hfile] at hloop
    cases hloop
  | found first =>
    rw [hfile] at hloop
    obtain ⟨repo, hinit, hloop⟩ := bind_eq_ok.mp hloop
    rw [if_neg (not_lt.mpr hrr.empty)] at hinit
    exact fetchRoots_trusted hrr hpos hdir (.first hstored hfile (thrown_eq_ok.mp hinit)) rfl hloop

end Loop

/-- A library for which a root of `n + 1` characters has version `n`. -/
def lengthRepo : RootRepo Int where
  empty := -1
  rootVersion v := v
  initRoot _ text := .ok (text.length - 1)
  verifyRoot v text := if (text.length : Int) - 1 ≠ v + 1 then .error "version" else .ok (v + 1)

theorem lawful_lengthRepo : lengthRepo.Lawful where
  empty := by decide
  verifyRoot repo text repo' h := by
    obtain ⟨_, h⟩ := ite_error_eq_ok.mp h
    cases h
    rfl

/-- Two roots of a bundle. -/
def laterRoots : Files := [("2.root.json", .ok "bbb"), ("3.root.json", .ok "cccc")]

/-- The first root has version zero, and it does not verify the second. -/
def unnumberedRoots : Files := [("1.root.json", .ok "a"), ("2.root.json", .ok "ccc")]

theorem Trusted.unnumbered {version : Int} {text : String} {repo : Int}
    (h : Trusted lengthRepo "" unnumberedRoots version text repo) :
    version = 1 ∧ text = "a" ∧ repo = 0 := by
  induction h with
  | stored hstored _ => exact absurd rfl hstored
  | first _ hfile hinit =>
    cases hfile
    cases hinit
    exact ⟨rfl, rfl, rfl⟩
  | next _ hfile hverify ih =>
    obtain ⟨rfl, rfl, rfl⟩ := ih
    cases hfile
    cases hverify

end Bundle
end AkLite
