import Cheetah.WordArithmetic
import Mathlib.Tactic.NormNum

/-! The choice of a random victim in the work-stealing loop of `worker_scheduler`. -/
namespace Cheetah

def updateRandState (state : BitVec 32) : BitVec 32 := state * 1103515245 + 12345

def getRand (state : BitVec 32) : ℕ := (state >>> 16).toNat

variable {ω : Type*}

def drawVictim (indexToWorker : ℕ → ω) (stealable : ℕ) (randState : BitVec 32) : ω :=
  indexToWorker (getRand randState % stealable)

/-- The loop that draws until the victim is not the worker itself, for a number of draws. The
result is the victim and the state of the generator after the last draw. -/
def chooseVictim [DecidableEq ω] (self : ω) (indexToWorker : ℕ → ω) (stealable : ℕ) :
    ℕ → BitVec 32 → Option (ω × BitVec 32)
  | 0, _ => none
  | draws+1, randState =>
    let victim := drawVictim indexToWorker stealable randState
    let randState := updateRandState randState
    if victim = self then chooseVictim self indexToWorker stealable draws randState
    else some (victim, randState)

section Victims

variable {self : ω} {indexToWorker : ℕ → ω} {stealable : ℕ}

theorem updateRandState_eq : updateRandState = lcg 32 1103515245 12345 := by
  funext state
  rw [updateRandState, lcg, mul_comm]
  rfl

/-- Every state of the generator comes up. -/
theorem randState_reaches (state target : BitVec 32) : ∃ n, updateRandState^[n] state = target := by
  rw [updateRandState_eq]
  exact lcg_reaches (by norm_num) (by norm_num) state target

/-- The first draw that is not the worker itself ends the loop. -/
theorem chooseVictim_ends [DecidableEq ω] (n : ℕ) : ∀ state : BitVec 32,
    drawVictim indexToWorker stealable (updateRandState^[n] state) ≠ self →
    ∃ draws ≤ n+1, ∃ i < n+1, chooseVictim self indexToWorker stealable draws state =
      some (drawVictim indexToWorker stealable (updateRandState^[i] state),
        updateRandState^[i+1] state) ∧
      drawVictim indexToWorker stealable (updateRandState^[i] state) ≠ self := by
  induction n with
  | zero =>
    intro state hne
    rw [Function.iterate_zero_apply] at hne
    refine ⟨1, le_refl 1, 0, Nat.one_pos, ?_, hne⟩
    rw [chooseVictim, Function.iterate_zero_apply, Function.iterate_one]
    exact if_neg hne
  | succ n ih =>
    intro state hne
    by_cases hself : drawVictim indexToWorker stealable state = self
    · rw [Function.iterate_succ_apply] at hne
      obtain ⟨draws, hdraws, i, hi, hloop, hother⟩ := ih (updateRandState state) hne
      rw [← Function.iterate_succ_apply, ← Function.iterate_succ_apply] at hloop
      rw [← Function.iterate_succ_apply] at hother
      refine ⟨draws+1, Nat.succ_le_succ hdraws, i+1, Nat.succ_lt_succ hi, ?_, hother⟩
      rw [chooseVictim]
      exact (if_pos hself).trans hloop
    · refine ⟨1, by omega, 0, by omega, ?_, hself⟩
      rw [chooseVictim, Function.iterate_zero_apply, Function.iterate_one]
      exact if_neg hself

/-- Two of the upper halves that come up are 0 and 1, and they select different workers. -/
theorem draws_another (self : ω) (hstealable : 2 ≤ stealable)
    (hinj : ∀ i j, i < stealable → j < stealable → indexToWorker i = indexToWorker j → i = j)
    (state : BitVec 32) :
    ∃ n, drawVictim indexToWorker stealable (updateRandState^[n] state) ≠ self := by
  by_contra hno
  push Not at hno
  obtain ⟨m, hm⟩ := randState_reaches state 0
  obtain ⟨n, hn⟩ := randState_reaches state 65536
  have hzero := hno m
  have hone := hno n
  rw [hm, drawVictim, show getRand 0 = 0 by decide, Nat.zero_mod] at hzero
  rw [hn, drawVictim, show getRand 65536 = 1 by decide, Nat.mod_eq_of_lt hstealable] at hone
  have h := hinj 0 1 (by omega) hstealable (hzero.trans hone.symm)
  exact absurd h zero_ne_one

/-- Whatever the seed, the worker and the map of the stealable workers, the loop ends after finitely
many draws, with a stealable worker that is not the worker itself. -/
theorem chooseVictim_terminates [DecidableEq ω] (hstealable : 2 ≤ stealable)
    (hinj : ∀ i j, i < stealable → j < stealable → indexToWorker i = indexToWorker j → i = j)
    (state : BitVec 32) : ∃ draws victim state', victim ≠ self ∧
      (∃ i < stealable, indexToWorker i = victim) ∧
      chooseVictim self indexToWorker stealable draws state = some (victim, state') := by
  obtain ⟨n, hn⟩ := draws_another self hstealable hinj state
  obtain ⟨draws, -, i, -, hloop, hne⟩ := chooseVictim_ends n state hn
  exact ⟨draws, _, _, hne, ⟨_, Nat.mod_lt _ (by omega), rfl⟩, hloop⟩

/-- Worker 1 of two, whose seed is the one that `scheduler_thread_proc` gives it. -/
theorem chooseVictim_terminates_two : ∃ draws victim state', victim ≠ 1 ∧
    (∃ i < 2, id i = victim) ∧ chooseVictim 1 id 2 draws 324694 = some (victim, state') :=
  chooseVictim_terminates (le_refl 2) (fun _ _ _ _ h => h) 324694

end Victims

end Cheetah
