import Mathlib.Data.Set.Card
import Cheetah.WordArithmetic

/-! The word arithmetic of the DPRNG in `pedigree-internal.h`. -/
namespace Cheetah

def dprngPrime : BitVec 64 := -59

def dprngSwapHalves (x : BitVec 64) : BitVec 64 := x >>> 32 ||| x <<< 32

/-- The body of the loop of `__cilkrts_dprng_mix`. -/
def dprngMixRound (x : BitVec 64) : BitVec 64 := dprngSwapHalves (x*(2*x+1))

def dprngMix (x : BitVec 64) : BitVec 64 := dprngMixRound^[4] x

/-- The comparison of `__cilkrts_dprng_mix_mod_p` is an `int`, negated and used as a mask. -/
def dprngMixModP (x : BitVec 64) : BitVec 64 :=
  let x := dprngMix x
  x - (dprngPrime &&& -(if x ≥ dprngPrime then 1 else 0))

def dprngSumModP (a b : BitVec 64) : BitVec 64 :=
  let z := a + b
  if z < a ∨ z ≥ dprngPrime then z - dprngPrime else z

theorem dprngPrime_toNat : dprngPrime.toNat = 2^64 - 59 := by decide

section Mix

/-- Swapping the halves twice gives the word back. -/
theorem dprngSwapHalves_involutive : Function.Involutive dprngSwapHalves := by
  intro x
  apply BitVec.eq_of_getLsbD_eq
  intro i hi
  simp only [dprngSwapHalves, BitVec.getLsbD_or, BitVec.getLsbD_ushiftRight,
    BitVec.getLsbD_shiftLeft]
  by_cases hlow : i < 32
  · simp [hlow, hi, show 32 + i < 64 by omega, show ¬ 32 + i < 32 by omega,
      show 32 + (32 + i) ≥ 64 by omega]
  · have hhigh : 32 + (i-32) = i := by omega
    have htop : x.getLsbD (32 + (32 + i)) = false := BitVec.getLsbD_of_ge x _ (by omega)
    simp [hlow, hi, htop, show ¬ 32 + i < 64 by omega, show i - 32 < 32 by omega, hhigh]

theorem dprngMixRound_injective : Function.Injective dprngMixRound :=
  dprngSwapHalves_involutive.injective.comp word_quadratic_injective

theorem dprngMix_injective : Function.Injective dprngMix := dprngMixRound_injective.iterate 4

/-- The mask is empty below the modulus, and full from there on. -/
theorem dprngMixModP_eq (x : BitVec 64) : dprngMixModP x =
    if dprngMix x ≥ dprngPrime then dprngMix x - dprngPrime else dprngMix x := by
  unfold dprngMixModP
  dsimp only
  split_ifs with h
  · rw [show (-1 : BitVec 64) = BitVec.allOnes 64 by decide, BitVec.and_allOnes]
  · rw [show (-0 : BitVec 64) = 0#64 by decide, BitVec.and_zero, BitVec.sub_zero]

theorem dprngMixModP_lt (x : BitVec 64) : dprngMixModP x < dprngPrime := by
  rw [dprngMixModP_eq, BitVec.lt_def, dprngPrime_toNat]
  have hlt := (dprngMix x).isLt
  split_ifs with h
  · rw [ge_iff_le, BitVec.le_def, dprngPrime_toNat] at h
    rw [BitVec.toNat_sub_of_le (BitVec.le_def.mpr (dprngPrime_toNat ▸ h)), dprngPrime_toNat]
    omega
  · rw [ge_iff_le, BitVec.le_def, dprngPrime_toNat] at h
    omega

/-- The mixer is a bijection of the words, its reduction is below the modulus, and no value of the
reduction comes from more than two words. -/
theorem dprngMix_losesNothing : Function.Bijective dprngMix ∧
    (∀ x, (dprngMixModP x).toNat < 2^64 - 59) ∧
    ∀ v, {x | dprngMixModP x = v}.encard ≤ 2 := by
  refine ⟨?_, fun x => ?_, fun v => ?_⟩
  · have hfin : Function.Injective fun i : Fin (2^64) => (dprngMix (BitVec.ofFin i)).toFin :=
      fun i j h => BitVec.ofFin.inj (dprngMix_injective (BitVec.toFin_injective h))
    refine ⟨dprngMix_injective, fun y => ?_⟩
    obtain ⟨i, hi⟩ := Finite.injective_iff_surjective.mp hfin y.toFin
    exact ⟨BitVec.ofFin i, BitVec.toFin_injective hi⟩
  · rw [← dprngPrime_toNat]
    exact BitVec.lt_def.mp (dprngMixModP_lt x)
  · have hmaps : Set.MapsTo dprngMix {x | dprngMixModP x = v} {v, v + dprngPrime} := by
      intro x hx
      have hx' : dprngMixModP x = v := hx
      rw [dprngMixModP_eq] at hx'
      split_ifs at hx' with h
      · exact .inr (by rw [Set.mem_singleton_iff, ← hx', BitVec.sub_add_cancel])
      · exact .inl hx'
    calc
      _ ≤ ({v, v + dprngPrime} : Set (BitVec 64)).encard :=
        Set.encard_le_encard_of_injOn hmaps dprngMix_injective.injOn
      _ ≤ ({v + dprngPrime} : Set (BitVec 64)).encard + 1 := Set.encard_insert_le _ _
      _ = 2 := by rw [Set.encard_singleton, one_add_one_eq_two]

end Mix

end Cheetah
