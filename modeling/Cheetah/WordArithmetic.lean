import Mathlib.Algebra.Ring.GeomSum
import Mathlib.Data.BitVec
import Mathlib.Data.Nat.Prime.Basic
import Mathlib.RingTheory.Nilpotent.Basic
import Mathlib.Tactic.LinearCombination
import Mathlib.Tactic.Ring

/-! Words of `w` bits as the ring of integers modulo `2^w`: odd words are units, and a linear
congruential generator with the right constants runs through all words. -/
namespace Cheetah
open Finset

section Units

variable {w : ℕ}

theorem word_natCast_eq_zero_iff (n : ℕ) : (n : BitVec w) = 0 ↔ 2^w ∣ n := by
  rw [BitVec.natCast_eq_ofNat, ← BitVec.toNat_inj, BitVec.toNat_ofNat]
  exact Nat.dvd_iff_mod_eq_zero.symm

theorem word_two_pow : (2 : BitVec w)^w = 0 := by
  have h := (word_natCast_eq_zero_iff (w := w) (2^w)).mpr (dvd_refl _)
  rw [Nat.cast_pow, Nat.cast_ofNat] at h
  exact h

/-- Twice a word is nilpotent, so that one more is a unit. -/
theorem word_isUnit_odd (z : BitVec w) : IsUnit (2*z+1) := by
  have hnil : IsNilpotent (2*z) := ⟨w, by rw [mul_pow, word_two_pow, zero_mul]⟩
  exact hnil.isUnit_add_one

/-- The difference of two values has the difference of the arguments as a factor, and the other
factor is odd. -/
theorem word_quadratic_injective : Function.Injective fun x : BitVec w => x*(2*x+1) := by
  intro x y h
  have hfactor : (x-y)*(2*(x+y)+1) = 0 := by
    calc
      _ = x*(2*x+1) - y*(2*y+1) := by ring
      _ = 0 := sub_eq_zero.mpr h
  exact sub_eq_zero.mp ((word_isUnit_odd (x+y)).mul_left_eq_zero.mp hfactor)

end Units

section Generator

variable {w a c : ℕ}

theorem geomSum_even (ha : a % 4 = 1) {n : ℕ} (h : 2 ∣ ∑ i ∈ range n, a^i) : 2 ∣ n := by
  have hodd : ∀ i, a^i % 2 = 1 := by
    intro i
    rw [Nat.pow_mod, show a % 2 = 1 by omega, one_pow, Nat.one_mod]
  have hsum : (∑ i ∈ range n, a^i) % 2 = n % 2 := by
    rw [Finset.sum_nat_mod, Finset.sum_congr rfl fun i _ => hodd i, Finset.sum_const, card_range,
      smul_eq_mul, mul_one]
  omega

/-- Twice as many terms add exactly one factor of two. -/
theorem geomSum_double (ha : a % 4 = 1) (m : ℕ) :
    ∃ q, ∑ i ∈ range (m+m), a^i = (∑ i ∈ range m, a^i) * (2*(2*q+1)) := by
  have hfour : a^m % 4 = 1 := by rw [Nat.pow_mod, ha, one_pow, Nat.one_mod_eq_one.mpr (by decide)]
  refine ⟨a^m/4, ?_⟩
  have hpow : a^m + 1 = 2*(2*(a^m/4)+1) := by omega
  rw [← hpow, Finset.sum_range_add]
  calc
    _ = ∑ i ∈ range m, a^i + a^m * ∑ i ∈ range m, a^i := by
      rw [Finset.mul_sum]
      simp only [pow_add]
    _ = _ := by ring

theorem dvd_of_dvd_geomSum (ha : a % 4 = 1) (k : ℕ) :
    ∀ n, 2^k ∣ ∑ i ∈ range n, a^i → 2^k ∣ n := by
  induction k with
  | zero => exact fun n _ => one_dvd n
  | succ k ih =>
    intro n h
    obtain ⟨m, rfl⟩ := geomSum_even ha ((dvd_pow_self 2 k.succ_ne_zero).trans h)
    obtain ⟨q, hq⟩ := geomSum_double ha m
    rw [two_mul, hq, pow_succ, ← mul_assoc, mul_assoc _ 2, mul_comm 2, ← mul_assoc] at h
    have hdvd := Nat.dvd_of_mul_dvd_mul_right two_pos h
    have hcoprime : Nat.Coprime (2^k) (2*q+1) :=
      Nat.Coprime.pow_left k (Nat.coprime_two_left.mpr ⟨q, rfl⟩)
    rw [pow_succ, mul_comm]
    exact mul_dvd_mul_left 2 (ih m (hcoprime.dvd_of_dvd_mul_right hdvd))

/-- One step of the generator. -/
def lcg (w a c : ℕ) (x : BitVec w) : BitVec w := .ofNat w a * x + .ofNat w c

theorem lcg_eq (x : BitVec w) : lcg w a c x = a*x + c := rfl

theorem lcg_iterate_sub (x : BitVec w) (n : ℕ) :
    (lcg w a c)^[n] x - x = (∑ i ∈ range n, (a : BitVec w)^i) * ((a-1)*x + c) := by
  induction n with
  | zero => simp only [Function.iterate_zero, id, sub_self, range_zero, sum_empty, zero_mul]
  | succ n ih =>
    rw [Function.iterate_succ_apply', geom_sum_succ, lcg_eq]
    linear_combination (a : BitVec w) * ih

theorem lcg_injective (ha : a % 4 = 1) : Function.Injective (lcg w a c) := by
  have hunit : IsUnit (a : BitVec w) := by
    have h := word_isUnit_odd (w := w) (a/2 : ℕ)
    have heq : a = 2*(a/2)+1 := by omega
    rw [heq]
    push_cast
    exact h
  intro x y h
  rw [lcg_eq, lcg_eq] at h
  exact hunit.mul_left_cancel (add_right_cancel h)

/-- The words come back after a multiple of `2^w` steps only. -/
theorem lcg_return (ha : a % 4 = 1) (hc : c % 2 = 1) {x : BitVec w} {n : ℕ}
    (h : (lcg w a c)^[n] x = x) : 2^w ∣ n := by
  have hunit : IsUnit (((a : BitVec w)-1)*x + c) := by
    have hodd := word_isUnit_odd (w := w) (2*(a/4 : ℕ)*x + (c/2 : ℕ))
    have ha' : a = 4*(a/4)+1 := by omega
    have hc' : c = 2*(c/2)+1 := by omega
    rw [ha', hc']
    push_cast
    convert hodd using 1
    ring
  have hsub := lcg_iterate_sub (a := a) (c := c) x n
  rw [h, sub_self] at hsub
  have hzero := hunit.mul_left_eq_zero.mp hsub.symm
  refine dvd_of_dvd_geomSum ha w n ((word_natCast_eq_zero_iff _).mp ?_)
  push_cast
  exact hzero

/-- The generator has the full period. -/
theorem lcg_reaches (ha : a % 4 = 1) (hc : c % 2 = 1) (x y : BitVec w) :
    ∃ n, (lcg w a c)^[n] x = y := by
  have hinj : Function.Injective fun n : Fin (2^w) => ((lcg w a c)^[n] x).toFin := by
    have hle : ∀ m n : Fin (2^w), m ≤ n → (lcg w a c)^[m] x = (lcg w a c)^[n] x → m = n := by
      intro m n hmn h
      obtain ⟨d, hd⟩ := Nat.exists_eq_add_of_le (Fin.le_def.mp hmn)
      rw [hd, Function.iterate_add_apply] at h
      have hback := lcg_return ha hc ((lcg_injective ha).iterate m h).symm
      have hzero := Nat.eq_zero_of_dvd_of_lt hback (by omega)
      exact Fin.ext (by omega)
    intro m n h
    have heq := BitVec.toFin_injective h
    rcases le_total m n with hmn | hmn
    · exact hle m n hmn heq
    · exact (hle n m hmn heq.symm).symm
  obtain ⟨n, hn⟩ := Finite.injective_iff_surjective.mp hinj y.toFin
  exact ⟨n, BitVec.toFin_injective hn⟩

end Generator

end Cheetah
