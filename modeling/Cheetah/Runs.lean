import Mathlib.Data.Nat.Count
import Mathlib.Logic.Function.Basic
import Mathlib.Logic.Relation
import Mathlib.Tactic.Common

/-! Runs of a transition system, and counts over its parties. -/
namespace Cheetah

section Runs

variable {σ : Type*} {step : σ → σ → Prop} {s t : σ}

/-- `t` is reached from `s` by steps of the system. -/
abbrev Reaches (step : σ → σ → Prop) : σ → σ → Prop := Relation.ReflTransGen step

/-- What every step preserves holds along a run. -/
theorem Reaches.preserves {Inv : σ → Prop} (hrun : Reaches step s t)
    (hstep : ∀ s t, Inv s → step s t → Inv t) (hs : Inv s) : Inv t := by
  induction hrun with
  | refl => exact hs
  | tail _ hlast ih => exact hstep _ _ ih hlast

/-- A system whose steps lower a measure comes to a state that has no step. -/
theorem Reaches.exists_stuck {Inv : σ → Prop} (measure : σ → ℕ)
    (hstep : ∀ s t, Inv s → step s t → Inv t)
    (hless : ∀ s t, Inv s → step s t → measure t < measure s) (hs : Inv s) :
    ∃ t, Reaches step s t ∧ Inv t ∧ ∀ u, ¬ step t u := by
  induction hn : measure s using Nat.strong_induction_on generalizing s with
  | _ n ih =>
    by_cases hstuck : ∀ u, ¬ step s u
    · exact ⟨s, Relation.ReflTransGen.refl, hs, hstuck⟩
    · obtain ⟨u, hu⟩ := not_forall_not.mp hstuck
      have hlower : measure u < n := hn ▸ hless s u hs hu
      obtain ⟨t, hrun, ht⟩ := ih (measure u) hlower (hstep s u hs hu) rfl
      exact ⟨t, Relation.ReflTransGen.head hu hrun, ht⟩

end Runs

section Tally

variable {β : Type*} {n : ℕ} {f : ℕ → β} {p q : β → Bool}

/-- The number of parties below `n` whose state satisfies `p`. -/
def tally (n : ℕ) (f : ℕ → β) (p : β → Bool) : ℕ := Nat.count (fun w => p (f w) = true) n

theorem tally_succ (n : ℕ) (f : ℕ → β) (p : β → Bool) :
    tally (n+1) f p = tally n f p + if p (f n) = true then 1 else 0 := Nat.count_succ _ n

theorem tally_congr {g : ℕ → β} (h : ∀ w < n, p (f w) = q (g w)) : tally n f p = tally n g q := by
  induction n with
  | zero => rfl
  | succ n ih =>
    rw [tally_succ, tally_succ, h n (Nat.lt_succ_self n), ih fun w hw => h w (Nat.lt_succ_of_lt hw)]

theorem tally_le_of_imp (h : ∀ w < n, p (f w) = true → q (f w) = true) :
    tally n f p ≤ tally n f q := by
  induction n with
  | zero => exact Nat.le_refl 0
  | succ n ih =>
    have hn := h n (Nat.lt_succ_self n)
    have hle := ih fun w hw => h w (Nat.lt_succ_of_lt hw)
    rw [tally_succ, tally_succ]
    split_ifs with hp hq
    · omega
    · exact absurd (hn hp) hq
    · omega
    · omega

/-- Two groups without a common party count no more than all parties. -/
theorem tally_add_le (h : ∀ w < n, ¬ (p (f w) = true ∧ q (f w) = true)) :
    tally n f p + tally n f q ≤ n := by
  induction n with
  | zero => exact Nat.le_refl 0
  | succ n ih =>
    have hn := h n (Nat.lt_succ_self n)
    have hle := ih fun w hw => h w (Nat.lt_succ_of_lt hw)
    rw [tally_succ, tally_succ]
    split_ifs with hp hq
    · exact absurd ⟨hp, hq⟩ hn
    · omega
    · omega
    · omega

theorem tally_le (n : ℕ) (f : ℕ → β) (p : β → Bool) : tally n f p ≤ n := Nat.count_le _

theorem tally_pos {w : ℕ} (hw : w < n) (hp : p (f w) = true) : 0 < tally n f p := by
  induction n with
  | zero => omega
  | succ n ih =>
    rw [tally_succ]
    rcases Nat.lt_or_ge w n with hlt | hge
    · exact Nat.lt_of_lt_of_le (ih hlt) (Nat.le_add_right _ _)
    · rw [show n = w by omega, if_pos hp]
      omega

theorem tally_eq_zero (h : ∀ w < n, p (f w) = false) : tally n f p = 0 := by
  induction n with
  | zero => rfl
  | succ n ih =>
    rw [tally_succ, ih fun w hw => h w (Nat.lt_succ_of_lt hw), h n (Nat.lt_succ_self n)]
    rfl

theorem tally_lt {w : ℕ} (hw : w < n) (hp : ¬ p (f w) = true) : tally n f p < n := by
  induction n with
  | zero => omega
  | succ n ih =>
    rw [tally_succ]
    rcases Nat.lt_or_ge w n with hlt | hge
    · have := ih hlt
      split_ifs <;> omega
    · obtain rfl : w = n := by omega
      have := tally_le w f p
      rw [if_neg hp]
      omega

/-- One party changes its state. -/
theorem tally_update {w : ℕ} (hw : w < n) (v : β) :
    tally n (Function.update f w v) p + (if p (f w) = true then 1 else 0) =
      tally n f p + if p v = true then 1 else 0 := by
  induction n with
  | zero => omega
  | succ n ih =>
    rw [tally_succ, tally_succ]
    rcases Nat.lt_or_ge w n with hlt | hge
    · have := ih hlt
      rw [Function.update_of_ne (by omega)]
      omega
    · obtain rfl : w = n := by omega
      have hrest : tally w (Function.update f w v) p = tally w f p :=
        tally_congr fun u hu => by rw [Function.update_of_ne (by omega)]
      rw [hrest, Function.update_self]
      omega

theorem tally_update_same {w : ℕ} (hw : w < n) {v : β} (h : p v = p (f w)) :
    tally n (Function.update f w v) p = tally n f p := by
  have := tally_update (p := p) (f := f) hw v
  rw [h] at this
  omega

theorem tally_update_add {w : ℕ} (hw : w < n) {v : β} (hf : p (f w) = false)
    (hv : p v = true) : tally n (Function.update f w v) p = tally n f p + 1 := by
  have := tally_update (p := p) (f := f) hw v
  rwa [hf, hv, if_neg Bool.false_ne_true, if_pos rfl] at this

theorem tally_update_sub {w : ℕ} (hw : w < n) {v : β} (hf : p (f w) = true)
    (hv : p v = false) : tally n (Function.update f w v) p + 1 = tally n f p := by
  have := tally_update (p := p) (f := f) hw v
  rwa [hf, hv, if_neg Bool.false_ne_true, if_pos rfl] at this

end Tally

end Cheetah
