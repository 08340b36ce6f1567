/-
Is there room in both stores?

Before the images of an app are pulled, the sizes of the layers are compared with what is
available to the two stores, and their sum with what is available to the image store if
the stores share a volume.  `room_iff` compares the check with what it is for: a store
counts if its statistic can be obtained, and the sum counts unless the volumes are known
to be different.  The code differs in two ways.  A statistic that cannot be obtained
reads as no space, and a volume ID that cannot be obtained as zero, which is the ID of
another volume, unless both are missing.
-/
import AkLite.Engine.Refetch

namespace AkLite
namespace Docker
namespace RestorableAppEngine

open Lib
open Client (UsageInfo)

/-! ## Volumes -/

/-- What `fstatvfs` gives for a store, less the reserve, or the text of its failure. -/
inductive Statistic where
  | available (bytes : UInt64)
  | unobtainable (what : String)
  deriving DecidableEq, Repr

/-- `Volume::getUsageInfo`.  Every text of a failure begins in the same way, and the other
fields keep their default. -/
def Statistic.usageInfo (path : String) : Statistic → UsageInfo
  | .available bytes => { path := path, available := bytes.toNat, required := 0, err := "" }
  | .unobtainable what => { path := "", available := 0, required := 0, err := "Failed to " ++ what }

/-- The volumes of the two stores: their statistics, and the IDs that `statvfs` gives. -/
structure Volumes where
  skopeo : Statistic
  docker : Statistic
  skopeoID : Option UInt64
  dockerID : Option UInt64
  deriving DecidableEq, Repr

def getPathVolumeID (id : Option UInt64) : UInt64 × Bool :=
  match id with
  | none => (0, false)
  | some id => (id, true)

def areDockerAndSkopeoOnTheSameVolume (v : Volumes) : Bool :=
  (getPathVolumeID v.skopeoID).1 == (getPathVolumeID v.dockerID).1

/-- The answers of volumes that do not change during a call.  The sum is compared with the
statistic of the image store. -/
def FetchEnv.onVolumes (env : FetchEnv) (v : Volumes) : FetchEnv :=
  { env with
    space := fun
      | .docker => v.docker.usageInfo "docker"
      | .archive | .skopeo _ | .both _ => v.skopeo.usageInfo "skopeo"
    sameVolume := areDockerAndSkopeoOnTheSameVolume v }

/-! ## What the check is for -/

/-- The volumes are the same, or it is not known that they are not. -/
def Volumes.MayBeShared (v : Volumes) : Prop :=
  v.skopeoID = none ∨ v.dockerID = none ∨ v.skopeoID = v.dockerID

/-- There is room, as far as the statistics can be obtained. -/
structure Volumes.HaveRoom (v : Volumes) (skopeo docker : UInt64) : Prop where
  inSkopeo : ∀ bytes, v.skopeo = .available bytes → skopeo.toNat ≤ bytes.toNat
  inDocker : ∀ bytes, v.docker = .available bytes → docker.toNat ≤ bytes.toNat
  inBoth : v.MayBeShared → ∀ bytes, v.skopeo = .available bytes →
    skopeo.toNat + docker.toNat ≤ bytes.toNat

/-- One ID is missing and the other one is not zero. -/
def Volumes.TakenApart (v : Volumes) : Prop :=
  ∃ id : UInt64, id ≠ 0 ∧
    ((v.skopeoID = none ∧ v.dockerID = some id) ∨ (v.skopeoID = some id ∧ v.dockerID = none))

/-- What is missing of the answers makes no difference. -/
structure Volumes.Suffice (v : Volumes) (skopeo docker : UInt64) : Prop where
  /-- Nothing is asked of an image store without a statistic, unless the docker store is full. -/
  skopeoStat : ∀ what, v.skopeo = .unobtainable what →
    (skopeo = 0 ∧ (¬v.TakenApart → v.MayBeShared → docker = 0)) ∨
      ∃ bytes, v.docker = .available bytes ∧ bytes.toNat < docker.toNat
  /-- Nothing is asked of a docker store without a statistic, unless the image store is full. -/
  dockerStat : ∀ what, v.docker = .unobtainable what →
    docker = 0 ∨ ∃ bytes, v.skopeo = .available bytes ∧
      (bytes.toNat < skopeo.toNat ∨
        (v.MayBeShared ∧ bytes.toNat < skopeo.toNat + docker.toNat))
  /-- Of volumes that are taken apart, what fits into each fits into the one. -/
  volumes : v.TakenApart → ∀ bytes bytes', v.skopeo = .available bytes →
    v.docker = .available bytes' → skopeo.toNat ≤ bytes.toNat → docker.toNat ≤ bytes'.toNat →
      skopeo.toNat + docker.toNat ≤ bytes.toNat

/-! ## The check -/

variable {env : FetchEnv} {v : Volumes} {skopeo docker : UInt64}

/-- The code takes volumes for the same unless their IDs differ or one is taken for zero. -/
theorem sameVolume_iff :
    areDockerAndSkopeoOnTheSameVolume v = true ↔ v.MayBeShared ∧ ¬v.TakenApart := by
  unfold areDockerAndSkopeoOnTheSameVolume Volumes.MayBeShared Volumes.TakenApart
  rw [beq_iff_eq]
  cases v.skopeoID with
  | none =>
    cases v.dockerID with
    | none => simp [getPathVolumeID]
    | some id => simp [getPathVolumeID, eq_comm]
  | some id =>
    cases v.dockerID with
    | none => simp [getPathVolumeID]
    | some id' => simp [getPathVolumeID]

theorem Volumes.TakenApart.mayBeShared (h : v.TakenApart) : v.MayBeShared := by
  obtain ⟨id, -, ⟨hnone, -⟩ | ⟨-, hnone⟩⟩ := h
  · exact .inl hnone
  · exact .inr (.inl hnone)

/-- What the check compares with: nothing is available without a statistic. -/
def Statistic.bytes : Statistic → Nat
  | .available bytes => bytes.toNat
  | .unobtainable _ => 0

theorem usageInfo_available (path : String) (stat : Statistic) :
    (stat.usageInfo path).available = stat.bytes := by
  cases stat with
  | available bytes => rfl
  | unobtainable what => rfl

theorem bytes_lt_size (stat : Statistic) : stat.bytes < UInt64.size := by
  cases stat with
  | available bytes => exact bytes.toNat_lt_size
  | unobtainable what => exact Nat.zero_lt_succ _

/-- The check in numbers.  A sum that fits into the store does not overflow. -/
theorem hasRoom_onVolumes :
    (env.onVolumes v).HasRoom skopeo docker ↔
      skopeo.toNat ≤ v.skopeo.bytes ∧ docker.toNat ≤ v.docker.bytes ∧
        (v.MayBeShared → ¬v.TakenApart → skopeo.toNat + docker.toNat ≤ v.skopeo.bytes) := by
  have hat : ∀ {probe : Bool → Probe}, (probe = .skopeo ∨ probe = .both) → ∀ required,
      ((env.onVolumes v).HasRoomAt probe required ↔ required ≤ v.skopeo.bytes) := by
    rintro probe (rfl | rfl) required
    · exact (or_self_iff).trans (by rw [← usageInfo_available "skopeo"]; rfl)
    · exact (or_self_iff).trans (by rw [← usageInfo_available "skopeo"]; rfl)
  have hdocker : ((env.onVolumes v).space .docker).available = v.docker.bytes :=
    usageInfo_available "docker" v.docker
  have hlt := bytes_lt_size v.skopeo
  constructor
  · intro h
    refine ⟨(hat (.inl rfl) _).mp h.inSkopeo, hdocker ▸ h.inDocker, ?_⟩
    intro hshared hapart
    exact (hat (.inr rfl) _).mp (h.inBoth (sameVolume_iff.mpr ⟨hshared, hapart⟩)).2
  · rintro ⟨hskopeo, hd, hboth⟩
    refine ⟨(hat (.inl rfl) _).mpr hskopeo, hdocker ▸ hd, ?_⟩
    intro hsame
    obtain ⟨hshared, hapart⟩ := sameVolume_iff.mp hsame
    have hsum := hboth hshared hapart
    exact ⟨by omega, (hat (.inr rfl) _).mpr hsum⟩

theorem returns_checkAvailableStorageInStores (s : Store) :
    (∃ t, checkAvailableStorageInStores env skopeo docker s = .ok () t) ↔
      env.HasRoom skopeo docker := by
  have hwp : wp (checkAvailableStorageInStores env skopeo docker)
      (fun _ _ => True ↔ env.HasRoom skopeo docker) (fun _ _ => ¬env.HasRoom skopeo docker) s :=
    wp_mono (wp_checkAvailableStorageInStores (p := [composeFile]) (by decide))
      (fun _ _ h => iff_of_true trivial h.1) fun _ _ h => h
  rw [← exists_ok_iff hwp]
  exact ⟨fun ⟨t, h⟩ => ⟨(), t, h, trivial⟩, fun ⟨_, t, h, _⟩ => ⟨t, h⟩⟩

theorem haveRoom_iff :
    v.HaveRoom skopeo docker ↔
      (∀ bytes, v.skopeo = .available bytes → skopeo.toNat ≤ bytes.toNat) ∧
        (∀ bytes, v.docker = .available bytes → docker.toNat ≤ bytes.toNat) ∧
        (v.MayBeShared → ∀ bytes, v.skopeo = .available bytes →
          skopeo.toNat + docker.toNat ≤ bytes.toNat) :=
  ⟨fun h => ⟨h.inSkopeo, h.inDocker, h.inBoth⟩, fun h => ⟨h.1, h.2.1, h.2.2⟩⟩

theorem suffice_iff :
    v.Suffice skopeo docker ↔
      (∀ what, v.skopeo = .unobtainable what →
        (skopeo = 0 ∧ (¬v.TakenApart → v.MayBeShared → docker = 0)) ∨
          ∃ bytes, v.docker = .available bytes ∧ bytes.toNat < docker.toNat) ∧
      (∀ what, v.docker = .unobtainable what →
        docker = 0 ∨ ∃ bytes, v.skopeo = .available bytes ∧
          (bytes.toNat < skopeo.toNat ∨
            (v.MayBeShared ∧ bytes.toNat < skopeo.toNat + docker.toNat))) ∧
      (v.TakenApart → ∀ bytes bytes', v.skopeo = .available bytes →
        v.docker = .available bytes' → skopeo.toNat ≤ bytes.toNat →
          docker.toNat ≤ bytes'.toNat → skopeo.toNat + docker.toNat ≤ bytes.toNat) :=
  ⟨fun h => ⟨h.skopeoStat, h.dockerStat, h.volumes⟩, fun h => ⟨h.1, h.2.1, h.2.2⟩⟩

/-- The check returns exactly if there is room, if what could not be obtained makes no
difference. -/
theorem room_iff (env : FetchEnv) (v : Volumes) (skopeo docker : UInt64) (s : Store) :
    ((∃ t, checkAvailableStorageInStores (env.onVolumes v) skopeo docker s = .ok () t) ↔
      v.HaveRoom skopeo docker) ↔ v.Suffice skopeo docker := by
  rw [returns_checkAvailableStorageInStores, hasRoom_onVolumes]
  have hzero : ∀ n : UInt64, n = 0 ↔ n.toNat = 0 := fun n => UInt64.toNat_inj.symm
  have hcases : (v.TakenApart ∧ v.MayBeShared) ∨ (¬v.TakenApart ∧ v.MayBeShared) ∨
      (¬v.TakenApart ∧ ¬v.MayBeShared) := by
    by_cases hapart : v.TakenApart
    · exact .inl ⟨hapart, hapart.mayBeShared⟩
    · exact .inr ((em v.MayBeShared).imp (⟨hapart, ·⟩) (⟨hapart, ·⟩))
  rw [haveRoom_iff, suffice_iff]
  simp only [hzero]
  -- Both statistics, then the three situations of the volumes.
  cases hskopeo : v.skopeo with
  | available bytes =>
    cases hdocker : v.docker with
    | available bytes' =>
      rcases hcases with ⟨ha, hm⟩ | ⟨ha, hm⟩ | ⟨ha, hm⟩ <;> simp [Statistic.bytes, ha, hm]
    | unobtainable what =>
      rcases hcases with ⟨ha, hm⟩ | ⟨ha, hm⟩ | ⟨ha, hm⟩ <;> simp [Statistic.bytes, ha, hm] <;>
        omega
  | unobtainable what =>
    cases hdocker : v.docker with
    | available bytes' =>
      rcases hcases with ⟨ha, hm⟩ | ⟨ha, hm⟩ | ⟨ha, hm⟩ <;> simp [Statistic.bytes, ha, hm] <;>
        omega
    | unobtainable what' =>
      rcases hcases with ⟨ha, hm⟩ | ⟨ha, hm⟩ | ⟨ha, hm⟩ <;> simp [Statistic.bytes, ha, hm]
      omega

/-- A hundred bytes for both stores, on a volume whose ID was obtained once only. -/
def volumesOnce : Volumes :=
  { skopeo := .available 100, docker := .available 100, skopeoID := none, dockerID := some 7 }

/-- The same volume without a statistic. -/
def volumesUnknown : Volumes :=
  { skopeo := .unobtainable "open a file/directory", docker := .available 100,
    skopeoID := some 7, dockerID := some 7 }

/-- Two stores may take more than the volume has, and a store that should be skipped is full. -/
theorem room_misjudged :
    ((∃ t, checkAvailableStorageInStores (unreachable.onVolumes volumesOnce) 60 60 letterStore =
        .ok () t) ∧ ¬volumesOnce.HaveRoom 60 60) ∧
      (¬(∃ t, checkAvailableStorageInStores (unreachable.onVolumes volumesUnknown) 1 0
        letterStore = .ok () t) ∧ volumesUnknown.HaveRoom 1 0) := by
  refine ⟨⟨⟨letterStore, rfl⟩, fun h => ?_⟩, fun h => ?_, ?_⟩
  · have hsum := h.inBoth (.inl rfl) 100 rfl
    revert hsum
    decide
  · rw [returns_checkAvailableStorageInStores, hasRoom_onVolumes] at h
    have hskopeo := h.1
    revert hskopeo
    decide
  · refine ⟨?_, ?_, ?_⟩
    · rintro bytes ⟨⟩
    · rintro bytes ⟨⟩
      decide
    · rintro - bytes ⟨⟩

end RestorableAppEngine
end Docker
end AkLite
