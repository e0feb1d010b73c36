import Mathlib.Logic.Function.Iterate
import Mathlib.Order.Bounds.Basic
import Cheetah.HyperTableProbe

/-! The bit trick of `continue_probe` against the four cases of its header comment. -/
namespace Cheetah

variable {n tgt hash idx s : ℕ}

/-- Going on by `inc_index` is walking round the buffer. -/
theorem incIndex_iterate (hidx : idx < n) (hs : s < n) :
    (fun j => incIndex j n)^[s] idx = advance n idx s := by
  induction s with
  | zero => exact (advance_zero hidx).symm
  | succ s ih =>
    rw [Function.iterate_succ_apply', ih (by omega), incIndex_advance hidx (by omega)]

/-- The first time that the steps from one index reach another. -/
theorem incIndex_isLeast (hhash : hash < n) (hidx : idx < n) :
    IsLeast {d | (fun j => incIndex j n)^[d] hash = idx} (circDist n hash idx) := by
  have hlt := circDist_lt hhash hidx
  refine ⟨?_, fun d hd => ?_⟩
  · show (fun j => incIndex j n)^[circDist n hash idx] hash = idx
    rw [incIndex_iterate hhash hlt, advance_circDist hhash hidx]
  · by_contra hless
    have hd' : (fun j => incIndex j n)^[d] hash = idx := hd
    rw [incIndex_iterate hhash (by omega)] at hd'
    have hdist := circDist_advance (s := d) hhash (by omega)
    rw [hd'] at hdist
    omega

/-- The four cases of the header: which of the probe and the run have wrapped round the buffer. -/
theorem continueProbe_cases (hn : n ≤ 2^31) (ht : tgt < n) (hh : hash < n) (hi : idx < n) :
    (tgt ≤ idx → hash ≤ idx → (continueProbe tgt hash idx = false ↔ tgt < hash)) ∧
      (idx < tgt → idx < hash → (continueProbe tgt hash idx = false ↔ tgt < hash)) ∧
      (tgt ≤ idx → idx < hash → continueProbe tgt hash idx = true) ∧
      (idx < tgt → hash ≤ idx → continueProbe tgt hash idx = false) := by
  have hiff := continueProbe_iff hn ht hh hi
  rw [← Bool.not_eq_true, hiff]
  unfold circDist
  refine ⟨fun h h' => ?_, fun h h' => ?_, fun h h' => ?_, fun h h' => ?_⟩
  · rw [if_pos h, if_pos h']
    omega
  · rw [if_neg (by omega), if_neg (by omega)]
    omega
  · rw [if_pos h, if_neg (by omega)]
    omega
  · rw [if_neg (by omega), if_pos h']
    omega

/-- The comparison of `continue_probe` after `s` steps of the probe is one of displacements, and the
probe stops or goes on as each of the four cases of the header demands. -/
theorem continueProbe_isDisplacement {k : ℕ} (hk : k ≤ 31) (ht : tgt < 2^k) (hh : hash < 2^k)
    (hs : s < 2^k) (hidx : idx = (fun j => incIndex j (2^k))^[s] tgt) :
    (∃ d, IsLeast {d | (fun j => incIndex j (2^k))^[d] hash = idx} d ∧
      (continueProbe tgt hash idx = true ↔ s ≤ d)) ∧
    (tgt ≤ idx → hash ≤ idx → (continueProbe tgt hash idx = false ↔ tgt < hash)) ∧
      (idx < tgt → idx < hash → (continueProbe tgt hash idx = false ↔ tgt < hash)) ∧
      (tgt ≤ idx → idx < hash → continueProbe tgt hash idx = true) ∧
      (idx < tgt → hash ≤ idx → continueProbe tgt hash idx = false) := by
  have hn : 2^k ≤ 2^31 := Nat.pow_le_pow_right (by decide) hk
  rw [incIndex_iterate ht hs] at hidx
  have hi : idx < 2^k := by
    rw [hidx]
    exact advance_lt ht hs.le
  refine ⟨⟨_, incIndex_isLeast hh hi, ?_⟩, continueProbe_cases hn ht hh hi⟩
  rw [continueProbe_iff hn ht hh hi, hidx, circDist_advance ht hs]

/-- The third example of the header: the probe for 0 goes on past a wrapped run. -/
theorem continueProbe_isDisplacement_wrapped :
    (∃ d, IsLeast {d | (fun j => incIndex j (2^3))^[d] 7 = 1} d ∧
      (continueProbe 0 7 1 = true ↔ 1 ≤ d)) ∧ continueProbe 0 7 1 = true := by
  have h := continueProbe_isDisplacement (show 3 ≤ 31 by decide) (show 0 < 2^3 by decide)
    (show 7 < 2^3 by decide) (show 1 < 2^3 by decide)
    (show 1 = (fun j => incIndex j (2^3))^[1] 0 from rfl)
  exact ⟨h.1, h.2.2.2.1 (by decide) (by decide)⟩

end Cheetah
