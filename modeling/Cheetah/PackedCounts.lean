import Mathlib.Algebra.Group.Nat.Defs
import Mathlib.Data.Int.Notation
import Mathlib.Order.Basic
import Mathlib.Tactic.Common

/-! The word `disengaged_sentinel` of `global.h`, which packs two worker counts, and
the predicates of `worker_sleep.cpp` on these counts. -/
namespace Cheetah

abbrev Word := BitVec 64

/-- The macro `DISENGAGED_SENTINEL`. -/
def disengagedSentinel (a b : BitVec 32) : Word := a ++ b

def getDisengaged (d : Word) : ℕ := (d >>> 32).toNat

def getSentinel (d : Word) : ℕ := (d &&& 0xffffffff#64).toNat

/-- Subtraction of unsigned 32-bit values. -/
def usub (a b : ℕ) : ℕ := (a + 2^32 - b) % 2^32

structure WorkerCounts where
  active : ℤ
  sentinels : ℕ
  disengaged : ℕ

def getWorkerCounts (disengagedSentinel : Word) (nworkers : ℕ) : WorkerCounts where
  active := nworkers - getDisengaged disengagedSentinel - getSentinel disengagedSentinel
  sentinels := getSentinel disengagedSentinel
  disengaged := getDisengaged disengagedSentinel

/-- The assertions of `get_worker_counts`. -/
def WorkerCountsOk (disengagedSentinel : Word) (nworkers : ℕ) : Prop :=
  getDisengaged disengagedSentinel < nworkers ∧ getSentinel disengagedSentinel ≤ nworkers ∧
    getSentinel disengagedSentinel + getDisengaged disengagedSentinel ≤ nworkers

def asRatio : ℤ := 2

def isInefficient (counts : WorkerCounts) : Bool :=
  counts.sentinels > 1 && counts.active ≥ 1 && counts.active * asRatio < counts.sentinels

def isEfficient (counts : WorkerCounts) : Bool :=
  counts.active ≥ counts.sentinels * asRatio || counts.sentinels ≤ 1

/-- The word that holds these two counts. -/
def packed (disengaged sentinels : ℕ) : Word := BitVec.ofNat 64 (disengaged * 2^32 + sentinels)

section Packed

variable {d s : ℕ}

theorem packed_toNat (hd : d < 2^32) (hs : s < 2^32) : (packed d s).toNat = d * 2^32 + s := by
  rw [packed, BitVec.toNat_ofNat]
  omega

@[simp] theorem getDisengaged_packed (hd : d < 2^32) (hs : s < 2^32) :
    getDisengaged (packed d s) = d := by
  rw [getDisengaged, BitVec.toNat_ushiftRight, packed_toNat hd hs, Nat.shiftRight_eq_div_pow]
  omega

@[simp] theorem getSentinel_packed (hd : d < 2^32) (hs : s < 2^32) :
    getSentinel (packed d s) = s := by
  rw [getSentinel, BitVec.toNat_and, packed_toNat hd hs]
  change (d * 2^32 + s) &&& (2^32 - 1) = s
  rw [Nat.and_two_pow_sub_one_eq_mod]
  omega

theorem disengagedSentinel_toNat (a b : BitVec 32) :
    (disengagedSentinel a b).toNat = a.toNat * 2^32 + b.toNat := by
  rw [disengagedSentinel, BitVec.toNat_append, Nat.shiftLeft_eq, Nat.mul_comm,
    ← Nat.two_pow_add_eq_or_of_lt b.isLt]

theorem disengagedSentinel_eq_packed (a b : BitVec 32) :
    disengagedSentinel a b = packed a.toNat b.toNat := by
  apply BitVec.eq_of_toNat_eq
  rw [disengagedSentinel_toNat, packed_toNat a.isLt b.isLt]

/-- Adding one to the upper half. -/
theorem packed_add_disengaged :
    packed d s + disengagedSentinel 1 0 = packed (d+1) s := by
  apply BitVec.eq_of_toNat_eq
  rw [BitVec.toNat_add, disengagedSentinel_toNat, packed, packed, BitVec.toNat_ofNat,
    BitVec.toNat_ofNat, show (1 : BitVec 32).toNat = 1 from rfl,
    show (0 : BitVec 32).toNat = 0 from rfl]
  omega

theorem packed_sub_disengaged : packed (d+1) s + disengagedSentinel (-1) 0 = packed d s := by
  apply BitVec.eq_of_toNat_eq
  rw [BitVec.toNat_add, disengagedSentinel_toNat, packed, packed, BitVec.toNat_ofNat,
    BitVec.toNat_ofNat, show (-1 : BitVec 32).toNat = 2^32 - 1 from rfl,
    show (0 : BitVec 32).toNat = 0 from rfl]
  omega

/-- One worker moves from the upper half to the lower. -/
theorem packed_wake : packed (d+1) s + disengagedSentinel (-1) 1 = packed d (s+1) := by
  apply BitVec.eq_of_toNat_eq
  rw [BitVec.toNat_add, disengagedSentinel_toNat, packed, packed, BitVec.toNat_ofNat,
    BitVec.toNat_ofNat, show (-1 : BitVec 32).toNat = 2^32 - 1 from rfl,
    show (1 : BitVec 32).toNat = 1 from rfl]
  omega

theorem packed_add_sentinel : packed d s + 1 = packed d (s+1) := by
  apply BitVec.eq_of_toNat_eq
  rw [BitVec.toNat_add, packed, packed, BitVec.toNat_ofNat, BitVec.toNat_ofNat,
    show (1 : Word).toNat = 1 from rfl]
  omega

theorem packed_sub_sentinel : packed d (s+1) + (-1) = packed d s := by
  apply BitVec.eq_of_toNat_eq
  rw [BitVec.toNat_add, packed, packed, BitVec.toNat_ofNat, BitVec.toNat_ofNat,
    show (-1 : Word).toNat = 2^64 - 1 from rfl]
  omega

/-- The word that `try_to_disengage_thief` puts in the place of one it has seen. -/
theorem packed_exchange (hd : d + 1 < 2^32) (hs : s < 2^32) (hpos : 0 < s) :
    disengagedSentinel (BitVec.ofNat 32 d + 1) (BitVec.ofNat 32 s - 1) = packed (d+1) (s-1) := by
  rw [disengagedSentinel_eq_packed, BitVec.toNat_add, BitVec.toNat_sub, BitVec.toNat_ofNat,
    BitVec.toNat_ofNat, show (1 : BitVec 32).toNat = 1 from rfl]
  congr 1 <;> omega

theorem one_lt_of_inefficient {word : Word} {n : ℕ}
    (h : isInefficient (getWorkerCounts word n) = true) : 1 < getSentinel word := by
  simp only [isInefficient, Bool.and_eq_true, decide_eq_true_iff] at h
  exact h.1.1

end Packed

end Cheetah
