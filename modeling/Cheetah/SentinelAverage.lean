import Mathlib.Data.List.GetD
import Mathlib.Data.Nat.ModEq
import Mathlib.Tactic.IntervalCases
import Mathlib.Tactic.Tauto
import Cheetah.SentinelWindow

/-! The average of the recent sentinel counts of one worker, over any calls with any readings. -/
namespace Cheetah

/-- `handle_failed_steal_attempts` on the word it loads. If `maybe_disengage_thief` returns true,
`nap` is the time that passes in it and the word that is read afterwards. -/
def handleFailedStealAttempts (aarch64 : Bool) (self nworkers : ℕ) (word : Word)
    (nap : Option (ℕ × Word)) (h : History) : History :=
  let fails := (h.fails + attempts) % 2^32
  if fails % sentinelThreshold = 0 then
    if fails > maxFails then { h with fails := maxFails }
    else
      let h := sampleCounts nworkers word { h with fails := fails }
      match nap with
      | some (elapsed, after) =>
        if wantsDisengage self nworkers word h then afterDisengage aarch64 elapsed after h else h
      | none => h
  else { h with fails := fails }

/-- A call in the scheduling loop, with what it reads. -/
inductive SleepCall where
  | failedSteals (word : Word) (nap : Option (ℕ × Word))
  /-- `maybe_reengage_workers`, with the word after its change. -/
  | reengage (word : Word) (thieves : ℕ)
  | work (elapsed : ℕ)

namespace SleepCall

def run (aarch64 : Bool) (self n : ℕ) (h : History) : SleepCall → History
  | .failedSteals word nap => handleFailedStealAttempts aarch64 self n word nap h
  | .reengage word thieves =>
    if h.fails ≥ sentinelThreshold then (maybeReengageWorkers self n word thieves h).1 else h
  | .work elapsed => afterWork aarch64 elapsed h

/-- The samples of `handle_failed_steal_attempts` are due. -/
def due (h : History) : Prop :=
  (h.fails + attempts) % 2^32 % sentinelThreshold = 0 ∧ (h.fails + attempts) % 2^32 ≤ maxFails

instance (h : History) : Decidable (due h) := inferInstanceAs (Decidable (_ ∧ _))

/-- The worker comes back from a disengagement of at least `HISTORY_LENGTH` samples. -/
def refills (aarch64 : Bool) (self n : ℕ) (h : History) : SleepCall → Prop
  | .failedSteals word (some (elapsed, _)) => due h ∧
    wantsDisengage self n word
      (sampleCounts n word { h with fails := (h.fails + attempts) % 2^32 }) = true ∧
    historyLength ≤ getScaledElapsed aarch64 elapsed / sentinelThreshold
  | _ => False

instance (aarch64 : Bool) (self n : ℕ) (h : History) (c : SleepCall) :
    Decidable (c.refills aarch64 self n h) := by
  unfold refills
  split <;> infer_instance

/-- The samples that a call records, the newest first. A refill counts as four. -/
def recorded (aarch64 : Bool) (self n : ℕ) (h : History) (c : SleepCall) : List ℕ :=
  match c with
  | .failedSteals word nap =>
    if due h then
      (if c.refills aarch64 self n h then
        List.replicate sentinelCountHistoryLength (nap.elim 0 fun reading => getSentinel reading.2)
      else []) ++ [getSentinel word]
    else []
  | .reengage word _ =>
    if h.fails ≥ sentinelThreshold ∧ h.fails ≥ h.sampleThreshold then [getSentinel word + 1]
    else []
  | .work _ => []

end SleepCall

/-- The history of a worker, and all samples it has recorded, the newest first. -/
structure SampledHistory where
  history : History
  samples : List ℕ := []

def SampledHistory.after (aarch64 : Bool) (self n : ℕ) (r : SampledHistory) (c : SleepCall) :
    SampledHistory where
  history := c.run aarch64 self n r.history
  samples := c.recorded aarch64 self n r.history ++ r.samples

/-- The calls of a worker that has entered the scheduling loop. -/
def sampledRun (aarch64 : Bool) (self n wakeVal : ℕ) (calls : List SleepCall) : SampledHistory :=
  calls.foldl (SampledHistory.after aarch64 self n) { history := { fails := initFails n wakeVal } }

/-- The total is that of the window, and a quarter of it is the average of the last four
samples. Totals are those of 32-bit counters. -/
def SampledHistory.Averages (r : SampledHistory) : Prop :=
  r.history.recentSentinelCount = r.history.sentinelCountHistory.sum % 2^32 ∧
    (sentinelCountHistoryLength ≤ r.samples.length →
      r.history.recentSentinelCount / sentinelCountHistoryLength =
        (r.samples.take sentinelCountHistoryLength).sum % 2^32 / sentinelCountHistoryLength)

/-- The window holds the last samples, newest at the tail, and the total is theirs and `k` more. -/
structure History.Holds (k : ℕ) (samples : List ℕ) (h : History) : Prop where
  tail : h.sentinelCountHistoryTail < sentinelCountHistoryLength
  length : h.sentinelCountHistory.length = sentinelCountHistoryLength
  le : ∀ c ∈ h.sentinelCountHistory, c ≤ 2^32
  lt : h.recentSentinelCount < 2^32
  total : h.recentSentinelCount ≡ h.sentinelCountHistory.sum + k [MOD 2^32]
  window : ∀ i < sentinelCountHistoryLength, i < samples.length →
    h.sentinelCountHistory.getD ((h.sentinelCountHistoryTail + 3 - i) % sentinelCountHistoryLength) 0
      = samples.getD i 0

section Holds

variable {k n self : ℕ} {h : History} {samples : List ℕ} {aarch64 : Bool}

theorem holds_fresh (fails : ℕ) : History.Holds 3 [] { fails := fails } where
  tail := Nat.zero_lt_succ 3
  length := rfl
  le := by
    intro c hc
    simp only [List.mem_cons, List.not_mem_nil, or_false] at hc
    omega
  lt := by
    change 4 < 2^32
    decide
  total := Nat.ModEq.refl 4
  window := fun i _ hi => absurd hi (Nat.not_lt_zero i)

/-- Only the window matters. -/
theorem History.Holds.congr {h' : History} (hh : h.Holds k samples)
    (htail : h'.sentinelCountHistoryTail = h.sentinelCountHistoryTail)
    (hrecent : h'.recentSentinelCount = h.recentSentinelCount)
    (hwindow : h'.sentinelCountHistory = h.sentinelCountHistory) : h'.Holds k samples where
  tail := htail ▸ hh.tail
  length := hwindow ▸ hh.length
  le := hwindow ▸ hh.le
  lt := hrecent ▸ hh.lt
  total := by
    rw [hrecent, hwindow]
    exact hh.total
  window := by
    rw [htail, hwindow]
    exact hh.window

theorem getD_set (l : List ℕ) (i j c : ℕ) (hi : i < l.length) :
    (l.set i c).getD j 0 = if i = j then c else l.getD j 0 := by
  rw [List.getD_eq_getElem?_getD, List.getElem?_set, List.getD_eq_getElem?_getD]
  by_cases heq : i = j
  · rw [if_pos heq, if_pos heq, if_pos hi, Option.getD_some]
  · rw [if_neg heq, if_neg heq]

/-- Subtract the old entry, add the new one. -/
theorem History.Holds.record (hh : h.Holds k samples) {c : ℕ} (hc : c ≤ 2^32) :
    (h.recordSentinels c).Holds k (c :: samples) := by
  have htail : h.sentinelCountHistoryTail < h.sentinelCountHistory.length := by
    rw [hh.length]
    exact hh.tail
  refine ⟨Nat.mod_lt _ (by decide), ?_, ?_, Nat.mod_lt _ (by decide), ?_, ?_⟩
  · change (h.sentinelCountHistory.set _ c).length = _
    rw [List.length_set, hh.length]
  · intro x hx
    rcases List.mem_or_eq_of_mem_set hx with hx | rfl
    · exact hh.le x hx
    · exact hc
  · have hset := sum_set_add htail c
    have hold : h.sentinelCountHistory.getD h.sentinelCountHistoryTail 0 ≤ 2^32 := by
      rw [List.getD_eq_getElem _ _ htail]
      exact hh.le _ (List.getElem_mem htail)
    have htotal := hh.total
    have hlt := hh.lt
    unfold Nat.ModEq at *
    change (usub h.recentSentinelCount _ + c) % 2^32 % 2^32 =
      ((h.sentinelCountHistory.set h.sentinelCountHistoryTail c).sum + k) % 2^32
    rw [usub]
    omega
  · intro i hi hlen
    have htail4 := hh.tail
    change (h.sentinelCountHistory.set h.sentinelCountHistoryTail c).getD
      (((h.sentinelCountHistoryTail + 1) % sentinelCountHistoryLength + 3 - i) %
        sentinelCountHistoryLength) 0 = (c :: samples).getD i 0
    rw [getD_set _ _ _ _ htail]
    cases i with
    | zero =>
      rw [if_pos (by
        unfold sentinelCountHistoryLength at *
        omega), List.getD_cons_zero]
    | succ i =>
      have hprev := hh.window i (Nat.lt_of_succ_lt hi) (Nat.lt_of_succ_lt_succ hlen)
      rw [if_neg (by
        unfold sentinelCountHistoryLength at *
        omega), List.getD_cons_succ, ← hprev]
      congr 1
      unfold sentinelCountHistoryLength at *
      omega

/-- The whole window is overwritten. -/
theorem History.Holds.refill {c : ℕ} (hc : c ≤ 2^32)
    (htail : h.sentinelCountHistoryTail < sentinelCountHistoryLength)
    (hwindow : h.sentinelCountHistory = List.replicate sentinelCountHistoryLength c)
    (hrecent : h.recentSentinelCount = c * sentinelCountHistoryLength % 2^32) :
    h.Holds 0 (List.replicate sentinelCountHistoryLength c ++ samples) where
  tail := htail
  length := by rw [hwindow, List.length_replicate]
  le := by
    intro x hx
    rw [hwindow] at hx
    exact (List.eq_of_mem_replicate hx).trans_le hc
  lt := hrecent ▸ Nat.mod_lt _ (by decide)
  total := by
    rw [hrecent, hwindow, List.sum_replicate, smul_eq_mul, Nat.add_zero, Nat.mul_comm]
    exact Nat.mod_modEq _ _
  window := by
    intro i hi _
    have hmod := Nat.mod_lt (h.sentinelCountHistoryTail + 3 - i) (y := sentinelCountHistoryLength)
      (by decide)
    rw [hwindow, List.getD_eq_getElem _ _ (by rw [List.length_replicate]; exact hmod),
      List.getD_append _ _ _ _ (by rw [List.length_replicate]; exact hi),
      List.getD_eq_getElem _ _ (by rw [List.length_replicate]; exact hi), List.getElem_replicate,
      List.getElem_replicate]

theorem getSentinel_le (word : Word) : getSentinel word < 2^32 := by
  rw [getSentinel, BitVec.toNat_and]
  exact Nat.lt_of_le_of_lt Nat.and_le_right (by decide)

/-- What a disengagement does to the window. -/
theorem History.Holds.afterDisengage (hh : h.Holds k samples) (aarch64 : Bool) (elapsed : ℕ) (word : Word) :
    if historyLength ≤ getScaledElapsed aarch64 elapsed / sentinelThreshold then
      (afterDisengage aarch64 elapsed word h).Holds 0
        (List.replicate sentinelCountHistoryLength (getSentinel word) ++ samples)
    else (Cheetah.afterDisengage aarch64 elapsed word h).Holds k samples := by
  by_cases hslept : historyLength ≤ getScaledElapsed aarch64 elapsed / sentinelThreshold
  · have hlong : getScaledElapsed aarch64 elapsed > sentinelThreshold := by
      unfold historyLength sentinelThreshold at *
      omega
    rw [if_pos hslept, Cheetah.afterDisengage]
    rw [if_pos hlong, if_pos hslept]
    exact .refill (getSentinel_le word).le hh.tail rfl rfl
  · rw [if_neg hslept, Cheetah.afterDisengage]
    rw [if_neg (show ¬ getScaledElapsed aarch64 elapsed / sentinelThreshold ≥ historyLength from
      hslept)]
    split_ifs <;> exact hh.congr rfl rfl rfl

theorem History.Holds.sampleCounts (hh : h.Holds k samples) (word : Word) :
    (Cheetah.sampleCounts n word h).Holds k (getSentinel word :: samples) :=
  (hh.record (getSentinel_le word).le).congr rfl rfl rfl

theorem handleFailedStealAttempts_eq (word : Word) (nap : Option (ℕ × Word)) :
    handleFailedStealAttempts aarch64 self n word nap h =
      let fails := (h.fails + attempts) % 2^32
      let sampled := sampleCounts n word { h with fails := fails }
      if SleepCall.due h then
        match nap with
        | some (elapsed, after) =>
          if wantsDisengage self n word sampled then
            afterDisengage aarch64 elapsed after sampled
          else sampled
        | none => sampled
      else { h with fails := if fails % sentinelThreshold = 0 then maxFails else fails } := by
  unfold handleFailedStealAttempts
  dsimp only
  by_cases hdue : SleepCall.due h
  · rw [if_pos hdue, if_pos hdue.1, if_neg (Nat.not_lt.mpr hdue.2)]
  · rw [if_neg hdue]
    by_cases hmod : (h.fails + attempts) % 2^32 % sentinelThreshold = 0
    · rw [if_pos hmod, if_pos hmod, if_pos (Nat.not_le.mp fun hle => hdue ⟨hmod, hle⟩)]
    · rw [if_neg hmod, if_neg hmod]

/-- One call: the samples it records enter the window, and a refill makes the total exact. -/
theorem History.Holds.call (hh : h.Holds k samples) (aarch64 : Bool) (self n : ℕ) (c : SleepCall) :
    (c.run aarch64 self n h).Holds (if c.refills aarch64 self n h then 0 else k)
      (c.recorded aarch64 self n h ++ samples) := by
  cases c with
  | failedSteals word nap =>
    rw [SleepCall.run, handleFailedStealAttempts_eq, SleepCall.recorded]
    dsimp only
    have hmissed : History.Holds k samples { h with fails := (h.fails + attempts) % 2^32 } :=
      hh.congr rfl rfl rfl
    have hsampled := hmissed.sampleCounts (n := n) word
    by_cases hdue : SleepCall.due h
    · rw [if_pos hdue, if_pos hdue]
      cases nap with
      | none => exact hsampled
      | some reading =>
        obtain ⟨elapsed, after⟩ := reading
        have hiff : (SleepCall.failedSteals word (some (elapsed, after))).refills aarch64 self n h ↔
            SleepCall.due h ∧ wantsDisengage self n word
              (Cheetah.sampleCounts n word { h with fails := (h.fails + attempts) % 2^32 }) = true ∧
              historyLength ≤ getScaledElapsed aarch64 elapsed / sentinelThreshold := Iff.rfl
        dsimp only
        by_cases hwants : wantsDisengage self n word
            (Cheetah.sampleCounts n word { h with fails := (h.fails + attempts) % 2^32 }) = true
        · have hslept := hsampled.afterDisengage aarch64 elapsed after
          rw [if_pos hwants]
          by_cases hlong : historyLength ≤ getScaledElapsed aarch64 elapsed / sentinelThreshold
          · rw [if_pos hlong] at hslept
            have hyes := hiff.mpr ⟨hdue, hwants, hlong⟩
            rw [if_pos hyes, if_pos hyes, List.append_assoc]
            exact hslept
          · rw [if_neg hlong] at hslept
            have hno := fun hyes => hlong (hiff.mp hyes).2.2
            rw [if_neg hno, if_neg hno]
            exact hslept
        · have hno := fun hyes => hwants (hiff.mp hyes).2.1
          rw [if_neg hwants, if_neg hno, if_neg hno]
          exact hsampled
    · have hno : ¬ SleepCall.refills aarch64 self n h (.failedSteals word nap) := by
        rcases nap with - | ⟨elapsed, after⟩
        · exact id
        · exact fun hall => hdue hall.1
      rw [if_neg hdue, if_neg hdue, if_neg hno]
      exact hh.congr rfl rfl rfl
  | reengage word thieves =>
    have hno : ¬ (SleepCall.reengage word thieves).refills aarch64 self n h := id
    rw [SleepCall.run, SleepCall.recorded, if_neg hno]
    by_cases hfails : h.fails ≥ sentinelThreshold
    · rw [if_pos hfails]
      rw [maybeReengageWorkers_eq]
      refine History.Holds.congr (h := h.sampledForRequest n word) ?_ rfl rfl rfl
      unfold History.sampledForRequest
      dsimp only
      by_cases hsample : h.fails ≥ h.sampleThreshold
      · rw [if_pos hsample, if_pos ⟨hfails, hsample⟩]
        exact (hh.record (getSentinel_le word)).congr rfl rfl rfl
      · rw [if_neg hsample, if_neg fun hall => hsample hall.2]
        exact hh
    · rw [if_neg hfails, if_neg fun hall => hfails hall.1]
      exact hh
  | work elapsed =>
    have hno : ¬ (SleepCall.work elapsed).refills aarch64 self n h := id
    rw [SleepCall.run, SleepCall.recorded, if_neg hno]
    unfold afterWork
    split_ifs
    · dsimp only
      split_ifs <;> exact hh.congr rfl rfl rfl
    · exact hh.congr rfl rfl rfl

/-- Some call has refilled the window. -/
def Refilled (aarch64 : Bool) (self n wakeVal : ℕ) (calls : List SleepCall) : Prop :=
  ∃ before call later, calls = before ++ call :: later ∧
    call.refills aarch64 self n (sampledRun aarch64 self n wakeVal before).history

theorem sampledRun_snoc {wakeVal : ℕ} (calls : List SleepCall) (c : SleepCall) :
    sampledRun aarch64 self n wakeVal (calls ++ [c]) =
      (sampledRun aarch64 self n wakeVal calls).after aarch64 self n c :=
  List.foldl_concat _ _ _ _

theorem refilled_snoc {wakeVal : ℕ} (calls : List SleepCall) (c : SleepCall) :
    Refilled aarch64 self n wakeVal (calls ++ [c]) ↔
      c.refills aarch64 self n (sampledRun aarch64 self n wakeVal calls).history ∨
        Refilled aarch64 self n wakeVal calls := by
  constructor
  · rintro ⟨before, call, later, heq, hrefills⟩
    rcases List.eq_nil_or_concat later with rfl | ⟨later, last, rfl⟩
    · obtain ⟨rfl, hlast⟩ := List.append_inj' heq rfl
      rw [List.cons.inj hlast |>.1]
      exact .inl hrefills
    · rw [List.concat_eq_append, ← List.cons_append, ← List.append_assoc] at heq
      exact .inr ⟨before, call, later, (List.append_inj' heq rfl).1, hrefills⟩
  · rintro (hrefills | ⟨before, call, later, rfl, hrefills⟩)
    · exact ⟨calls, c, [], rfl, hrefills⟩
    · exact ⟨before, call, later ++ [c], by rw [List.append_assoc, List.cons_append], hrefills⟩

open Classical in
/-- After any calls the window holds the last samples, and the total counts three more than the
window until a refill. -/
theorem sampledRun_holds (aarch64 : Bool) (self n wakeVal : ℕ) (calls : List SleepCall) :
    (sampledRun aarch64 self n wakeVal calls).history.Holds
      (if Refilled aarch64 self n wakeVal calls then 0 else 3)
      (sampledRun aarch64 self n wakeVal calls).samples := by
  induction calls using List.reverseRecOn with
  | nil =>
    have hno : ¬ Refilled aarch64 self n wakeVal [] := by
      rintro ⟨before, call, later, heq, -⟩
      exact absurd heq.symm (List.append_ne_nil_of_right_ne_nil _ (List.cons_ne_nil _ _))
    rw [if_neg hno]
    exact holds_fresh _
  | append_singleton calls c ih =>
    have hcall := ih.call aarch64 self n c
    rw [sampledRun_snoc]
    refine Eq.mp ?_ hcall
    congr 1
    rw [refilled_snoc]
    split_ifs <;> tauto

/-- Four samples fill the window. -/
theorem History.Holds.sum_window (hh : h.Holds k samples)
    (hlen : sentinelCountHistoryLength ≤ samples.length) :
    (samples.take sentinelCountHistoryLength).sum = h.sentinelCountHistory.sum := by
  have hlength := hh.length
  have htail := hh.tail
  have hwindow := hh.window
  unfold sentinelCountHistoryLength at *
  match samples, hlen with
  | s₀ :: s₁ :: s₂ :: s₃ :: rest, _ =>
    have h₀ := hwindow 0 (by omega) (by simp)
    have h₁ := hwindow 1 (by omega) (by simp)
    have h₂ := hwindow 2 (by omega) (by simp)
    have h₃ := hwindow 3 (by omega) (by simp)
    generalize h.sentinelCountHistory = window at *
    generalize h.sentinelCountHistoryTail = tail at *
    match window, hlength with
    | [w₀, w₁, w₂, w₃], _ =>
      interval_cases tail <;> simp at h₀ h₁ h₂ h₃ ⊢ <;> omega

/-- After any calls with any readings the total is that of the window, and a quarter of it the
average of the last four samples, exactly when an earlier call has refilled the window. -/
theorem averages_iff_refilled {wakeVal : ℕ} (calls : List SleepCall) :
    (sampledRun aarch64 self n wakeVal calls).Averages ↔
      Refilled aarch64 self n wakeVal calls := by
  have hholds := sampledRun_holds aarch64 self n wakeVal calls
  have htotal := hholds.total
  have hlt := hholds.lt
  unfold Nat.ModEq at htotal
  constructor
  · rintro ⟨hsum, -⟩
    by_contra hno
    rw [if_neg hno] at htotal
    omega
  · intro hyes
    rw [if_pos hyes] at htotal
    have hsum : (sampledRun aarch64 self n wakeVal calls).history.recentSentinelCount =
        (sampledRun aarch64 self n wakeVal calls).history.sentinelCountHistory.sum % 2^32 := by
      rw [Nat.mod_eq_of_lt hlt] at htotal
      exact htotal
    refine ⟨hsum, fun hlen => ?_⟩
    rw [hholds.sum_window hlen, hsum]

/-- A worker among eight that enters as a sentinel and steals next to another sentinel: its total is
5, its window sums up to 2. -/
theorem total_exceeds_window : ∃ calls, ¬ (sampledRun false 1 8 2 calls).Averages := by
  refine ⟨[.reengage 1 0], ?_⟩
  rintro ⟨hsum, -⟩
  revert hsum
  decide

end Holds

end Cheetah
