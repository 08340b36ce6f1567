/-
The sizes of an app update.

Both size functions go through a list of layers, leave out those whose blob is in the
store, and add up in unsigned 64-bit words.  The estimate reads one size of a layer and
checks it.  The layer metadata have two numbers for a layer; one of them is checked to be
an integer, none for its sign, and a number that is missing reads as zero.
-/
import AkLite.Engine.Refetch
import Mathlib.Algebra.Group.Prod
import Mathlib.Algebra.GroupWithZero.Nat

namespace AkLite
namespace Docker
namespace RestorableAppEngine

open Lib

/-! ## Sums of words -/

/-- The addition returns the sum, if there is a word for it. -/
theorem addSize_eq_ok {total sum : UInt64} {size : Int} :
    addSize total size = .ok sum ↔ sum.toNat = total.toNat + (UInt64.ofInt size).toNat := by
  rw [addSize, ite_error_eq_ok, sum_overflows_iff]
  constructor
  · rintro ⟨hfits, h⟩
    cases h
    exact toNat_sum hfits
  · intro h
    have hlt := sum.toNat_lt_size
    have hfits : ¬ UInt64.size ≤ total.toNat + (UInt64.ofInt size).toNat := by omega
    refine ⟨hfits, congrArg Except.ok (UInt64.toNat_inj.mp ?_)⟩
    rw [toNat_sum hfits, h]

theorem toNat_ofInt_of_nonneg {n : Int} (h : 0 ≤ n) (hmax : n ≤ Json.maxInt64) :
    (UInt64.ofInt n).toNat = n.toNat := by
  rw [Json.maxInt64] at hmax
  rw [UInt64.ofInt, UInt64.toNat_ofNat']
  omega

theorem toNat_injective : Function.Injective UInt64.toNat := fun _ _ => UInt64.toNat_inj.mp

/-- A part of a sum that has a word has one. -/
theorem exists_word_of_add {a : UInt64} {m k : Nat} (h : a.toNat = m + k) :
    ∃ c : UInt64, c.toNat = m := by
  have hlt := a.toNat_lt_size
  exact ⟨.ofNat m, UInt64.toNat_ofNat_of_lt' (by omega)⟩

/-! ## The numbers of a layer -/

/-- The integer that a member is, if it is there and an int64. -/
def int64Of (tk : Toolkit) (layer : Json) (key : String) : Option Int :=
  match layer.index key with
  | .ok value => if value.isInt64 tk.whole then value.asInt64.toOption else none
  | .error _ => none

/-- The member is a non-negative int64. -/
def HasSize (tk : Toolkit) (layer : Json) (key : String) : Prop :=
  ∃ n ∈ int64Of tk layer key, 0 ≤ n

def sizeOf (tk : Toolkit) (layer : Json) (key : String) : Nat :=
  ((int64Of tk layer key).getD 0).toNat

variable {tk : Toolkit} {layer : Json} {key : String}

theorem asInt64_of_isInt64 {value : Json} (h : value.isInt64 tk.whole = true) :
    ∃ n, value.asInt64 = .ok n ∧ n ≤ Json.maxInt64 := by
  cases value with
  | int n =>
    have hrange := of_decide_eq_true h
    exact ⟨n, if_pos hrange, hrange.2⟩
  | real n text =>
    have hrange := of_decide_eq_true (Bool.and_eq_true_iff.mp h).1
    exact ⟨n, if_pos hrange, hrange.2⟩
  | _ => cases h

theorem int64Of_eq_some_iff {n : Int} :
    int64Of tk layer key = some n ↔
      ∃ value, layer.index key = .ok value ∧ value.isInt64 tk.whole = true ∧
        value.asInt64 = .ok n := by
  rw [int64Of]
  cases layer.index key with
  | error e => simp
  | ok value =>
    cases hint : value.isInt64 tk.whole with
    | false => simp [hint]
    | true =>
      obtain ⟨m, hm, _⟩ := asInt64_of_isInt64 hint
      simp [hint, hm, Except.toOption]

theorem hasSize_iff_of_eq_some {n : Int} (h : int64Of tk layer key = some n) :
    HasSize tk layer key ↔ 0 ≤ n := by
  simp [HasSize, h]

theorem sizeOf_of_eq_some {n : Int} (h : int64Of tk layer key = some n) :
    sizeOf tk layer key = n.toNat := by
  rw [sizeOf, h]
  rfl

theorem not_hasSize_of_not_isInt64 {value : Json} (hvalue : layer.index key = .ok value)
    (hint : value.isInt64 tk.whole = false) : ¬ HasSize tk layer key := by
  simp [HasSize, int64Of, hvalue, hint]

/-! ## The estimate -/

def layerDigest (layer : Json) : Except String HashedDigest := do
  HashedDigest.parse (← (← layer.index "digest").asString)

/-- The blob of the layer is not in the store. -/
def isMissing (stored : String → Bool) (layer : Json) : Bool :=
  match layerDigest layer with
  | .ok digest => !stored digest.hash
  | .error _ => false

/-- The sum of the sizes of the layers that are not in the store. -/
def missingSize (tk : Toolkit) (stored : String → Bool) (entries : List Json) : Nat :=
  ((entries.filter (isMissing stored)).map fun layer => sizeOf tk layer "size").sum

/-- The two calls in `checkAppUpdateSize`. -/
def updateSizes (tk : Toolkit) (entries : List Json) (stored : String → Bool) (ratio : UInt64) :
    Except String (UInt64 × UInt64) := do
  let skopeo ← getAppUpdateSize tk (.arr entries) stored
  return (skopeo, ← getDockerStoreSizeForAppUpdate skopeo ratio)

section

variable {entries : List Json} {stored : String → Bool}

/-- The loop of the estimate, for entries that all have a digest. -/
theorem getAppUpdateSize_eq_ok (hdigests : ∀ layer ∈ entries, Returns (layerDigest layer))
    {sum : UInt64} :
    getAppUpdateSize tk (.arr entries) stored = .ok sum ↔
      (∀ layer ∈ entries.filter (isMissing stored), HasSize tk layer "size") ∧
        sum.toNat = missingSize tk stored entries := by
  rw [getAppUpdateSize, Json.values_arr, missingSize, ← Nat.zero_add (List.sum _)]
  refine foldlM_sum_iff toNat_injective (fun _ _ _ => exists_word_of_add) ?_ ?_
  · intro layer hmem hstored total
    obtain ⟨digest, hdigest⟩ := hdigests layer hmem
    have hblob : stored digest.hash = true := by simpa [isMissing, hdigest] using hstored
    obtain ⟨value, hvalue, hdigest⟩ := bind_eq_ok.mp hdigest
    obtain ⟨text, htext, hdigest⟩ := bind_eq_ok.mp hdigest
    simp only [hvalue, htext, hdigest, ok_bind, hblob, if_true]
    rfl
  · intro layer hmem hmissing total total'
    obtain ⟨digest, hdigest⟩ := hdigests layer hmem
    have hblob : stored digest.hash = false := by simpa [isMissing, hdigest] using hmissing
    obtain ⟨value, hvalue, hdigest⟩ := bind_eq_ok.mp hdigest
    obtain ⟨text, htext, hdigest⟩ := bind_eq_ok.mp hdigest
    simp only [hvalue, htext, hdigest, ok_bind, hblob, Bool.false_eq_true, if_false]
    obtain ⟨sizeObj, hsize⟩ := Json.index_returns hvalue "size"
    simp only [hsize, ok_bind]
    cases hint : sizeObj.isInt64 tk.whole with
    | false =>
      refine iff_of_false ?_ fun h => not_hasSize_of_not_isInt64 hsize hint h.1
      intro h
      obtain ⟨_, _, h⟩ := bind_eq_ok.mp h
      cases h
    | true =>
      obtain ⟨n, hn, hmax⟩ := asInt64_of_isInt64 hint
      have hsome := int64Of_eq_some_iff.mpr ⟨sizeObj, hsize, hint, hn⟩
      rw [hasSize_iff_of_eq_some hsome, sizeOf_of_eq_some hsome]
      simp only [Bool.not_true, Bool.false_eq_true, if_false, hn, ok_bind]
      by_cases hneg : n < 0
      · rw [if_pos hneg]
        exact iff_of_false (fun h => by cases h) fun h => absurd h.1 (Int.not_le.mpr hneg)
      · have hnonneg := Int.not_lt.mp hneg
        rw [if_neg hneg, addSize_eq_ok, toNat_ofInt_of_nonneg hnonneg hmax]
        exact (and_iff_right hnonneg).symm

theorem getDockerStoreSizeForAppUpdate_eq_ok {compressed ratio docker : UInt64} :
    getDockerStoreSizeForAppUpdate compressed ratio = .ok docker ↔
      docker.toNat = ratio.toNat * compressed.toNat := by
  rw [getDockerStoreSizeForAppUpdate, ite_error_eq_ok, Nat.mul_comm]
  constructor
  · rintro ⟨hfits, h⟩
    cases h
    rw [UInt64.toNat_mul, Nat.mul_comm]
    exact Nat.mod_eq_of_lt (Nat.not_le.mp hfits)
  · intro h
    have hlt := docker.toNat_lt_size
    rw [h] at hlt
    refine ⟨Nat.not_le.mpr hlt, congrArg Except.ok (UInt64.toNat_inj.mp ?_)⟩
    rw [UInt64.toNat_mul, Nat.mul_comm, h]
    exact Nat.mod_eq_of_lt hlt

theorem updateSizes_eq_ok (hdigests : ∀ layer ∈ entries, Returns (layerDigest layer))
    {ratio skopeo docker : UInt64} :
    updateSizes tk entries stored ratio = .ok (skopeo, docker) ↔
      (∀ layer ∈ entries.filter (isMissing stored), HasSize tk layer "size") ∧
        skopeo.toNat = missingSize tk stored entries ∧
        docker.toNat = ratio.toNat * missingSize tk stored entries := by
  rw [updateSizes, bind_eq_ok]
  constructor
  · rintro ⟨sum, hsum, h⟩
    obtain ⟨product, hproduct, h⟩ := bind_eq_ok.mp h
    cases h
    obtain ⟨hsizes, hsum⟩ := (getAppUpdateSize_eq_ok hdigests).mp hsum
    rw [getDockerStoreSizeForAppUpdate_eq_ok, hsum] at hproduct
    exact ⟨hsizes, hsum, hproduct⟩
  · rintro ⟨hsizes, hsum, hproduct⟩
    rw [← hsum, ← getDockerStoreSizeForAppUpdate_eq_ok] at hproduct
    exact ⟨skopeo, (getAppUpdateSize_eq_ok hdigests).mpr ⟨hsizes, hsum⟩,
      bind_eq_ok.mpr ⟨docker, hproduct, rfl⟩⟩

/-- The entries are the same, or they have the same digest and its blob is stored. -/
def SameIfMissing (stored : String → Bool) (layer layer' : Json) : Prop :=
  layer' = layer ∨
    ∃ digest, layerDigest layer = .ok digest ∧ layerDigest layer' = .ok digest ∧
      stored digest.hash = true

/-- A stored entry is passed over when its digest is known. -/
theorem getAppUpdateSize_congr {entries' : List Json}
    (h : List.Forall₂ (SameIfMissing stored) entries entries') :
    getAppUpdateSize tk (.arr entries') stored = getAppUpdateSize tk (.arr entries) stored := by
  rw [getAppUpdateSize, getAppUpdateSize, Json.values_arr, Json.values_arr]
  generalize (0 : UInt64) = total
  induction h generalizing total with
  | nil => rfl
  | @cons layer layer' rest rest' hsame _ ih =>
    rw [List.foldlM_cons, List.foldlM_cons]
    rcases hsame with rfl | ⟨digest, hdigest, hdigest', hblob⟩
    · exact bind_congr ih
    · obtain ⟨value, hvalue, hdigest⟩ := bind_eq_ok.mp hdigest
      obtain ⟨text, htext, hdigest⟩ := bind_eq_ok.mp hdigest
      obtain ⟨value', hvalue', hdigest'⟩ := bind_eq_ok.mp hdigest'
      obtain ⟨text', htext', hdigest'⟩ := bind_eq_ok.mp hdigest'
      simp only [hvalue, htext, hdigest, hvalue', htext', hdigest', ok_bind, hblob, if_true]
      exact ih total

/-- The two sizes are the sum over the missing entries and its multiple, a missing entry
without a proper size and a sum without a word are refused, and nothing of a stored entry
but its digest matters. -/
theorem update_sizes_exact (tk : Toolkit) (entries : List Json) (stored : String → Bool)
    (ratio : UInt64) (hdigests : ∀ layer ∈ entries, Returns (layerDigest layer)) :
    (∀ skopeo docker, updateSizes tk entries stored ratio = .ok (skopeo, docker) ↔
      (∀ layer ∈ entries.filter (isMissing stored), HasSize tk layer "size") ∧
        skopeo.toNat = missingSize tk stored entries ∧
        docker.toNat = ratio.toNat * missingSize tk stored entries) ∧
    (¬ Returns (updateSizes tk entries stored ratio) ↔
      (∃ layer ∈ entries.filter (isMissing stored), ¬ HasSize tk layer "size") ∨
        UInt64.size ≤ missingSize tk stored entries ∨
        UInt64.size ≤ ratio.toNat * missingSize tk stored entries) ∧
    ∀ entries', List.Forall₂ (SameIfMissing stored) entries entries' →
      updateSizes tk entries' stored ratio = updateSizes tk entries stored ratio := by
  refine ⟨fun _ _ => updateSizes_eq_ok hdigests, ?_, fun entries' h => ?_⟩
  · constructor
    · intro hthrows
      by_contra hnone
      simp only [not_or, not_exists, not_and, not_not, Nat.not_le] at hnone
      obtain ⟨hsizes, hsum, hproduct⟩ := hnone
      refine hthrows ⟨(.ofNat (missingSize tk stored entries),
        .ofNat (ratio.toNat * missingSize tk stored entries)),
        (updateSizes_eq_ok hdigests).mpr ⟨hsizes, ?_, ?_⟩⟩
      · exact UInt64.toNat_ofNat_of_lt' hsum
      · exact UInt64.toNat_ofNat_of_lt' hproduct
    · rintro hbad ⟨⟨skopeo, docker⟩, hrun⟩
      obtain ⟨hsizes, hsum, hproduct⟩ := (updateSizes_eq_ok hdigests).mp hrun
      have hskopeo := skopeo.toNat_lt_size
      have hdocker := docker.toNat_lt_size
      rcases hbad with ⟨layer, hmem, hno⟩ | hover | hover
      · exact hno (hsizes layer hmem)
      · omega
      · omega
  · rw [updateSizes, updateSizes, getAppUpdateSize_congr h]

/-- A layer of seven bytes is missing; the size of the stored one is no number. -/
def letterLayers : List Json :=
  [.obj [("digest", letterDigest "k"), ("size", .int 7)],
    .obj [("digest", letterDigest "l"), ("size", .str "large")]]

theorem letter_update_sizes :
    updateSizes letterToolkit letterLayers letterStore.hasBlob 5 = .ok (7, 35) :=
  ((update_sizes_exact letterToolkit letterLayers letterStore.hasBlob 5 (by
    simp only [letterLayers, List.forall_mem_cons]
    exact ⟨⟨_, rfl⟩, ⟨_, rfl⟩, List.forall_mem_nil _⟩)).1 7 35).mpr
    ⟨by
      show ∀ layer ∈ letterLayers.take 1, HasSize letterToolkit layer "size"
      simp only [letterLayers, List.take_succ_cons, List.take_zero, List.forall_mem_cons]
      exact ⟨⟨7, rfl, by decide⟩, List.forall_mem_nil _⟩, by decide +kernel, by decide +kernel⟩

end

/-! ## The layer metadata -/

/-- The layer has a digest whose blob is in the store. -/
def isStored (stored : String → Bool) (entry : String × Json) : Bool :=
  match HashedDigest.parse entry.1 with
  | .ok digest => stored digest.hash
  | .error _ => false

/-- The layers that are not in the store. -/
def unstored (stored : String → Bool) (layers : Json) : List (String × Json) :=
  layers.entries.filter fun entry => !isStored stored entry

/-- The integer that a member is converted to.  A missing one is zero, and a real number
loses its fraction. -/
def converted (layer : Json) (key : String) : Except String Int := do
  (← layer.index key).asInt64

/-- The word that is added for a member.  A negative number is taken modulo the size of the
words. -/
def wordOf (layer : Json) (key : String) : Nat :=
  match converted layer key with
  | .ok n => (UInt64.ofInt n).toNat
  | .error _ => 0

/-- What is checked of a missing layer. -/
structure Checked (tk : Toolkit) (layer : Json) : Prop where
  usage : (int64Of tk layer "usage").isSome = true
  size : Returns (converted layer "size")
  archive : Returns (converted layer "archive_size")

/-- Both numbers of the layer are sizes. -/
structure WellSized (tk : Toolkit) (layer : Json) : Prop where
  archive : HasSize tk layer "archive_size"
  usage : HasSize tk layer "usage"

section

variable {layers : Json} {stored : String → Bool}

theorem int64Of_converted {n : Int} (h : int64Of tk layer key = some n) :
    converted layer key = .ok n ∧ n ≤ Json.maxInt64 := by
  obtain ⟨value, hvalue, hint, hn⟩ := int64Of_eq_some_iff.mp h
  obtain ⟨m, hm, hmax⟩ := asInt64_of_isInt64 hint
  rw [hn] at hm
  cases hm
  exact ⟨bind_eq_ok.mpr ⟨value, hvalue, hn⟩, hmax⟩

theorem HasSize.wordOf_eq (h : HasSize tk layer key) : wordOf layer key = sizeOf tk layer key := by
  obtain ⟨n, hn, hnonneg⟩ := h
  obtain ⟨hconv, hmax⟩ := int64Of_converted hn
  rw [sizeOf_of_eq_some hn, wordOf, hconv]
  exact toNat_ofInt_of_nonneg hnonneg hmax

theorem sum_map_pair {α : Type} (f g : α → Nat) (xs : List α) :
    (xs.map fun x => (f x, g x)).sum = ((xs.map f).sum, (xs.map g).sum) := by
  induction xs with
  | nil => rfl
  | cons x rest ih => simp [ih]

def pairToNat (sums : UInt64 × UInt64) : Nat × Nat := (sums.1.toNat, sums.2.toNat)

theorem pairToNat_injective : Function.Injective pairToNat := by
  rintro ⟨a, b⟩ ⟨c, d⟩ h
  obtain ⟨hfst, hsnd⟩ := Prod.mk.inj h
  exact Prod.ext (toNat_injective hfst) (toNat_injective hsnd)

theorem exists_pair_of_add {sums : UInt64 × UInt64} {m k : Nat × Nat}
    (h : pairToNat sums = m + k) : ∃ c, pairToNat c = m := by
  obtain ⟨hfst, hsnd⟩ := Prod.mk.inj h
  obtain ⟨a, ha⟩ := exists_word_of_add hfst
  obtain ⟨b, hb⟩ := exists_word_of_add hsnd
  exact ⟨(a, b), Prod.ext ha hb⟩

theorem wordOf_of_eq_ok {n : Int} (h : converted layer key = .ok n) :
    wordOf layer key = (UInt64.ofInt n).toNat := by
  rw [wordOf, h]

/-- Both totals are extended, if there are words for them. -/
theorem addSizes_eq_ok {total total' : UInt64 × UInt64} {archiveSize usage : Int} :
    (do return (← addSize total.1 archiveSize, ← addSize total.2 usage)) =
        (.ok total' : Except String (UInt64 × UInt64)) ↔
      pairToNat total' =
        pairToNat total + ((UInt64.ofInt archiveSize).toNat, (UInt64.ofInt usage).toNat) := by
  rw [bind_eq_ok]
  constructor
  · rintro ⟨skopeo, hskopeo, h⟩
    obtain ⟨docker, hdocker, h⟩ := bind_eq_ok.mp h
    cases h
    exact Prod.ext (addSize_eq_ok.mp hskopeo) (addSize_eq_ok.mp hdocker)
  · intro h
    obtain ⟨hskopeo, hdocker⟩ := Prod.mk.inj h
    exact ⟨total'.1, addSize_eq_ok.mpr hskopeo,
      bind_eq_ok.mpr ⟨total'.2, addSize_eq_ok.mpr hdocker, rfl⟩⟩

/-- The loop over the metadata. -/
theorem precise_loop {sums : UInt64 × UInt64} :
    getPreciseAppUpdateSize tk layers stored = .ok sums ↔
      (∀ entry ∈ unstored stored layers,
        Returns (HashedDigest.parse entry.1) ∧ Checked tk entry.2) ∧
      pairToNat sums = ((unstored stored layers).map fun entry =>
        (wordOf entry.2 "archive_size", wordOf entry.2 "usage")).sum := by
  rw [getPreciseAppUpdateSize, unstored, ← zero_add (List.sum _)]
  refine foldlM_sum_iff pairToNat_injective (fun _ _ _ => exists_pair_of_add) ?_ ?_
  · rintro ⟨key, layer⟩ _ hstored total
    rw [Bool.not_eq_false', isStored] at hstored
    split at hstored
    · next digest hdigest =>
      simp only [hdigest, ok_bind, hstored, if_true]
      rfl
    · cases hstored
  · rintro ⟨key, layer⟩ _ hmissing total total'
    rw [Bool.not_eq_true', isStored] at hmissing
    constructor
    · intro h
      obtain ⟨digest, hdigest, h⟩ := bind_eq_ok.mp h
      have hblob : stored digest.hash = false := by simpa [hdigest] using hmissing
      rw [if_neg (by simp [hblob])] at h
      obtain ⟨member, hmember, h⟩ := bind_eq_ok.mp h
      cases member with
      | false =>
        obtain ⟨_, _, h⟩ := bind_eq_ok.mp h
        cases h
      | true =>
        obtain ⟨value, hvalue, h⟩ := bind_eq_ok.mp h
        cases hint : value.isInt64 tk.whole with
        | false =>
          simp only [hint, Bool.not_false, if_true] at h
          obtain ⟨_, _, h⟩ := bind_eq_ok.mp h
          obtain ⟨_, _, h⟩ := bind_eq_ok.mp h
          cases h
        | true =>
          simp only [hint, Bool.not_true, Bool.false_eq_true, if_false] at h
          obtain ⟨sizeObj, hsizeObj, h⟩ := bind_eq_ok.mp h
          obtain ⟨_, hsize, h⟩ := bind_eq_ok.mp h
          obtain ⟨size, hsize, _⟩ := (bind_eq_ok (x := sizeObj.asInt64)).mp hsize
          obtain ⟨value', hvalue', h⟩ := bind_eq_ok.mp h
          rw [hvalue] at hvalue'
          cases hvalue'
          obtain ⟨usage, husage, h⟩ := bind_eq_ok.mp h
          obtain ⟨archiveObj, harchiveObj, h⟩ := bind_eq_ok.mp h
          obtain ⟨archiveSize, harchive, h⟩ := bind_eq_ok.mp h
          have husage64 := int64Of_eq_some_iff.mpr ⟨value, hvalue, hint, husage⟩
          have hconverted := bind_eq_ok.mpr ⟨archiveObj, harchiveObj, harchive⟩
          refine ⟨⟨⟨digest, hdigest⟩, ?_, ⟨size, ?_⟩, ⟨archiveSize, hconverted⟩⟩, ?_⟩
          · rw [husage64]
            rfl
          · exact bind_eq_ok.mpr ⟨sizeObj, hsizeObj, hsize⟩
          · rw [wordOf_of_eq_ok hconverted, wordOf_of_eq_ok (int64Of_converted husage64).1]
            exact addSizes_eq_ok.mp h
    · rintro ⟨⟨⟨digest, hdigest⟩, husage, ⟨size, hsize⟩, ⟨archiveSize, harchive⟩⟩, hsum⟩
      have hblob : stored digest.hash = false := by simpa [hdigest] using hmissing
      obtain ⟨usage, husage⟩ := Option.isSome_iff_exists.mp husage
      rw [wordOf_of_eq_ok harchive, wordOf_of_eq_ok (int64Of_converted husage).1] at hsum
      obtain ⟨sizeObj, hsizeObj, hsize⟩ := bind_eq_ok.mp hsize
      obtain ⟨archiveObj, harchiveObj, harchive⟩ := bind_eq_ok.mp harchive
      obtain ⟨value, hvalue, hint, husage⟩ := int64Of_eq_some_iff.mp husage
      have hnotNull : value ≠ .null := by
        rintro rfl
        cases hint
      have hmember := Json.isMember_of_find (Json.find_of_index hvalue hnotNull)
      have hdiscard : discard sizeObj.asInt64 = .ok () := by
        rw [hsize]
        rfl
      simp only [hdigest, hblob, hmember, hvalue, hint, hsizeObj, hdiscard, husage, harchiveObj,
        harchive, ok_bind, Option.isSome_some, Bool.not_true, Bool.false_eq_true, if_false]
      exact addSizes_eq_ok.mpr hsum

/-- The sum of a member over the layers that are not in the store. -/
def unstoredSize (tk : Toolkit) (stored : String → Bool) (layers : Json) (key : String) : Nat :=
  ((unstored stored layers).map fun entry => sizeOf tk entry.2 key).sum

/-- The sum of the words that are added for a member. -/
def unstoredWords (stored : String → Bool) (layers : Json) (key : String) : Nat :=
  ((unstored stored layers).map fun entry => wordOf entry.2 key).sum

theorem getPreciseAppUpdateSize_eq_ok {skopeo docker : UInt64} :
    getPreciseAppUpdateSize tk layers stored = .ok (skopeo, docker) ↔
      (∀ entry ∈ unstored stored layers,
        Returns (HashedDigest.parse entry.1) ∧ Checked tk entry.2) ∧
      skopeo.toNat = unstoredWords stored layers "archive_size" ∧
      docker.toNat = unstoredWords stored layers "usage" := by
  rw [precise_loop, sum_map_pair, pairToNat, Prod.mk.injEq]
  rfl

theorem WellSized.checked (h : WellSized tk layer) (hsize : Returns (converted layer "size")) :
    Checked tk layer := by
  obtain ⟨usage, husage, _⟩ := h.usage
  obtain ⟨archiveSize, harchive, _⟩ := h.archive
  exact ⟨Option.isSome_iff_exists.mpr ⟨usage, husage⟩, hsize, _, (int64Of_converted harchive).1⟩

/-- Proper sizes are added as they are. -/
theorem unstoredWords_eq (h : ∀ entry ∈ unstored stored layers, HasSize tk entry.2 key) :
    unstoredWords stored layers key = unstoredSize tk stored layers key := by
  have hwords := List.map_congr_left fun entry hentry => (h entry hentry).wordOf_eq
  rw [unstoredWords, unstoredSize, hwords]

/-- What is returned are the sums, and only for sizes that are all there and proper. -/
def PreciselySized (tk : Toolkit) (layers : Json) (stored : String → Bool) : Prop :=
  ∀ skopeo docker, getPreciseAppUpdateSize tk layers stored = .ok (skopeo, docker) →
    (∀ entry ∈ unstored stored layers, WellSized tk entry.2) ∧
      skopeo.toNat = unstoredSize tk stored layers "archive_size" ∧
      docker.toNat = unstoredSize tk stored layers "usage"

/-- The sums are returned for sizes that are there.  A layer without proper sizes is refused
only for what is checked of it or of another one, or since the words that stand for the
numbers have no sum. -/
theorem precisely_sized_iff (tk : Toolkit) (layers : Json) (stored : String → Bool) :
    ((∀ entry ∈ unstored stored layers, Returns (HashedDigest.parse entry.1) ∧
        Returns (converted entry.2 "size") ∧ WellSized tk entry.2) →
      unstoredSize tk stored layers "archive_size" < UInt64.size →
      unstoredSize tk stored layers "usage" < UInt64.size →
      Returns (getPreciseAppUpdateSize tk layers stored)) ∧
    (PreciselySized tk layers stored ↔
      (∃ entry ∈ unstored stored layers,
        ¬ (Returns (HashedDigest.parse entry.1) ∧ Checked tk entry.2)) ∨
      UInt64.size ≤ unstoredWords stored layers "archive_size" ∨
      UInt64.size ≤ unstoredWords stored layers "usage" ∨
      ∀ entry ∈ unstored stored layers, WellSized tk entry.2) := by
  refine ⟨fun hlayers harchive husage => ?_, fun hsized => ?_, fun hcond skopeo docker hrun => ?_⟩
  · refine ⟨(.ofNat _, .ofNat _), getPreciseAppUpdateSize_eq_ok.mpr ⟨fun entry hentry => ?_,
      UInt64.toNat_ofNat_of_lt' ?_, UInt64.toNat_ofNat_of_lt' ?_⟩⟩
    · obtain ⟨hdigest, hsize, hsizes⟩ := hlayers entry hentry
      exact ⟨hdigest, hsizes.checked hsize⟩
    · rwa [unstoredWords_eq fun entry hentry => (hlayers entry hentry).2.2.archive]
    · rwa [unstoredWords_eq fun entry hentry => (hlayers entry hentry).2.2.usage]
  · by_contra hnone
    rw [not_or, not_or, not_or, Nat.not_le, Nat.not_le] at hnone
    obtain ⟨hrefused, harchive, husage, hnot⟩ := hnone
    have hchecked := fun entry hentry => by_contra fun hno => hrefused ⟨entry, hentry, hno⟩
    exact hnot (hsized (.ofNat _) (.ofNat _) (getPreciseAppUpdateSize_eq_ok.mpr ⟨hchecked,
      UInt64.toNat_ofNat_of_lt' harchive, UInt64.toNat_ofNat_of_lt' husage⟩)).1
  · obtain ⟨hchecked, harchive, husage⟩ := getPreciseAppUpdateSize_eq_ok.mp hrun
    have hskopeo := skopeo.toNat_lt_size
    have hdocker := docker.toNat_lt_size
    rcases hcond with ⟨entry, hentry, hno⟩ | hover | hover | hsizes
    · exact absurd (hchecked entry hentry) hno
    · omega
    · omega
    · rw [unstoredWords_eq fun entry hentry => (hsizes entry hentry).archive] at harchive
      rw [unstoredWords_eq fun entry hentry => (hsizes entry hentry).usage] at husage
      exact ⟨hsizes, harchive, husage⟩

/-- The metadata of one layer without the size of its archive. -/
def bareLayers : Json := .obj [("sha256:" ++ letterHash "k", .obj [("usage", .int 1)])]

/-- The archive of the layer is taken to need no space. -/
theorem bare_layers_not_sized : ¬ PreciselySized letterToolkit bareLayers fun _ => false := by
  intro h
  obtain ⟨hsizes, _⟩ := h 0 1 (by decide +kernel)
  obtain ⟨n, hn, _⟩ := (hsizes _ List.mem_cons_self).archive
  cases hn

end

end RestorableAppEngine
end Docker
end AkLite
