import Mathlib.Data.Nat.Size
import Cheetah.SentinelWindow

/-! The fail counts and sample thresholds of the scheduling loop, with every unsigned subtraction
and every shift checked. -/
namespace Cheetah

/-- An unsigned subtraction that must not wrap. -/
def checkedSub (a b : ℕ) : Option ℕ := if b ≤ a then some (a - b) else none

/-- A shift of a 32-bit value, by less than its width. -/
def checkedShr (h : HistorySample) (amount : ℕ) : Option HistorySample :=
  if amount < 32 then some (h >>> amount) else none

def checkedShl (h : HistorySample) (amount : ℕ) : Option HistorySample :=
  if amount < 32 then some (h <<< amount) else none

section Checked

variable {a b : ℕ}

theorem checkedSub_of_le (hle : b ≤ a) : checkedSub a b = some (a - b) := if_pos hle

theorem checkedSub_usub (ha : a < 2^32) (hle : b ≤ a) : checkedSub a b = some (usub a b) := by
  rw [checkedSub_of_le hle, usub_of_le ha hle]

theorem checkedShr_of_lt (h : HistorySample) (hlt : b < 32) : checkedShr h b = some (h >>> b) :=
  if_pos hlt

theorem checkedShl_of_lt (h : HistorySample) (hlt : b < 32) : checkedShl h b = some (h <<< b) :=
  if_pos hlt

end Checked

/-- `pushSample`, checked. -/
def pushSampleChecked (h : HistorySample) (sample : Bool) : Option HistorySample := do
  let old ← checkedShr h 1
  let new ← checkedShl (if sample then 1 else 0) (historyLength - 1)
  return old ||| new

namespace History

/-- `recordSentinels`, checked. -/
def recordSentinelsChecked (h : History) (current : ℕ) : Option History := do
  let tail := h.sentinelCountHistoryTail
  let rest ← checkedSub h.recentSentinelCount (h.sentinelCountHistory.getD tail 0)
  return { h with
    recentSentinelCount := (rest + current) % 2^32
    sentinelCountHistory := h.sentinelCountHistory.set tail current
    sentinelCountHistoryTail := (tail + 1) % sentinelCountHistoryLength }

/-- The samples of a worker, checked. -/
def sampleChecked (h : History) (counts : WorkerCounts) (current : ℕ) : Option History := do
  let sampled ← h.recordSentinelsChecked current
  let efficient ← pushSampleChecked h.efficientHistory (isEfficient counts)
  let inefficient ← pushSampleChecked h.inefficientHistory (isInefficient counts)
  return { sampled with
    efficientHistory := efficient
    inefficientHistory := inefficient }

end History

/-- `sampleCounts`, checked. -/
def sampleCountsChecked (nworkers : ℕ) (word : Word) (h : History) : Option History :=
  let counts := getWorkerCounts word nworkers
  h.sampleChecked counts counts.sentinels

/-- `sampledForRequest`, checked. -/
def sampledForRequestChecked (nworkers : ℕ) (word : Word) (h : History) : Option History :=
  let counts := getWorkerCounts word nworkers
  if h.fails ≥ h.sampleThreshold then h.sampleChecked counts (counts.sentinels + 1) else some h

/-- `maybeReengageWorkers` on the word before its change, checked. -/
def maybeReengageWorkersChecked (self nworkers : ℕ) (before : Word) (thieves : ℕ) (h : History) :
    Option (History × ℕ) := do
  let left ← checkedSub before.toNat 1
  let word := BitVec.ofNat 64 left
  let sampled ← sampledForRequestChecked nworkers word h
  return sampled.requestFrom self nworkers word thieves

/-- The histories after a disengagement, checked. -/
def historiesAfterDisengageChecked (scaledElapsed : ℕ) (word : Word) (h : History) :
    Option History :=
  let samples := scaledElapsed / sentinelThreshold
  if scaledElapsed > sentinelThreshold then
    if samples ≥ historyLength then
      some { h with
        efficientHistory := 0
        inefficientHistory := 0
        sentinelCountHistory := List.replicate sentinelCountHistoryLength (getSentinel word)
        recentSentinelCount := getSentinel word * sentinelCountHistoryLength % 2^32 }
    else do
      let efficient ← checkedShr h.efficientHistory samples
      let inefficient ← checkedShr h.inefficientHistory samples
      return { h with
        efficientHistory := efficient
        inefficientHistory := inefficient }
  else some h

/-- The fail count after a disengagement, checked. -/
def failsAfterDisengageChecked (scaledElapsed : ℕ) (h : History) : Option ℕ :=
  if scaledElapsed < sentinelThreshold then checkedSub h.fails scaledElapsed
  else checkedSub disengageThreshold sentinelThreshold

/-- `afterDisengage`, checked. -/
def afterDisengageChecked (aarch64 : Bool) (elapsed : ℕ) (word : Word) (h : History) :
    Option History := do
  let scaledElapsed := getScaledElapsed aarch64 elapsed
  let h ← historiesAfterDisengageChecked scaledElapsed word h
  let fails ← failsAfterDisengageChecked scaledElapsed h
  return { h with
    fails := fails
    sampleThreshold := sentinelThreshold }

/-- The fail count that `decrease_fails_by_work` returns, checked. -/
def decreasedFailsChecked (scaledElapsed : ℕ) (h : History) : Option ℕ :=
  if scaledElapsed > h.fails then some 0 else checkedSub h.fails scaledElapsed

/-- The threshold that `decrease_fails_by_work` leaves, checked. -/
def decreasedThresholdChecked (scaledElapsed : ℕ) (h : History) : Option ℕ := do
  let credit ← checkedSub h.sampleThreshold sentinelThreshold
  if scaledElapsed > credit then some sentinelThreshold
  else checkedSub h.sampleThreshold scaledElapsed

/-- `decreaseFailsByWork`, checked. -/
def decreaseFailsByWorkChecked (aarch64 : Bool) (elapsed : ℕ) (h : History) : Option History := do
  let scaledElapsed := getScaledElapsed aarch64 elapsed
  let fails ← decreasedFailsChecked scaledElapsed h
  let sampleThreshold ← decreasedThresholdChecked scaledElapsed h
  return { h with
    fails := fails
    sampleThreshold := sampleThreshold }

/-- `__builtin_clz`, of a positive 32-bit value. -/
def clz (x : ℕ) : ℕ := 32 - Nat.size x

/-- The delay factor of `worker_scheduler`, from the average number of sentinels, checked. -/
def sentinelDivLgSentinelChecked (sentinel : ℕ) : Option HistorySample :=
  if sentinel = 0 then some 1
  else do
    let lgSentinel ← checkedSub 32 (clz sentinel)
    let amount ← checkedSub 32 (clz lgSentinel)
    checkedShr (BitVec.ofNat 32 sentinel) amount

/-- What `worker_scheduler` computes before a round of steal attempts, checked: the number of workers
to steal from and the factor of the delay. -/
def stealRoundChecked (nworkers : ℕ) (word : Word) (h : History) : Option (ℕ × HistorySample) := do
  let stealable ← checkedSub nworkers (getDisengaged word)
  let delay ← sentinelDivLgSentinelChecked (h.recentSentinelCount / sentinelCountHistoryLength)
  return (stealable, delay)

section Checked

variable {n : ℕ} {h : History} {aarch64 : Bool}

theorem pushSampleChecked_eq (b : HistorySample) (sample : Bool) :
    pushSampleChecked b sample = some (pushSample b sample) := by
  have hbit : (if sample then 1 else 0 : HistorySample) <<< (historyLength - 1) =
      (((if sample then 1 else 0) <<< (historyLength - 1) : ℕ) : HistorySample) := by
    cases sample <;> rfl
  rw [pushSampleChecked, checkedShr_of_lt _ (by decide), checkedShl_of_lt _ (by decide), pushSample,
    ← hbit]
  rfl

theorem History.Windowed.sampleChecked (hw : h.Windowed n) (hn : n < 2^30) (counts : WorkerCounts)
    {c : ℕ} (hc : c ≤ n) : h.sampleChecked counts c = some { h.recordSentinels c with
      efficientHistory := pushSample h.efficientHistory (isEfficient counts)
      inefficientHistory := pushSample h.inefficientHistory (isInefficient counts) } := by
  obtain ⟨hold, -, -⟩ := hw.recordsExactly hn hc
  have hlt := hw.recent_le
  rw [History.sampleChecked, History.recordSentinelsChecked, checkedSub_usub (by omega) hold,
    pushSampleChecked_eq, pushSampleChecked_eq]
  simp only [Option.bind_eq_bind, Option.bind_some, Option.pure_def, History.recordSentinels]

theorem History.Windowed.sampleCountsChecked (hw : h.Windowed n) (hn : n < 2^30) {word : Word}
    (hle : getSentinel word ≤ n) :
    Cheetah.sampleCountsChecked n word h = some (sampleCounts n word h) :=
  hw.sampleChecked hn _ hle

theorem History.Windowed.sampledForRequestChecked (hw : h.Windowed n) (hn : n < 2^30)
    {word : Word} (hlt : getSentinel word < n) :
    Cheetah.sampledForRequestChecked n word h = some (h.sampledForRequest n word) := by
  rw [Cheetah.sampledForRequestChecked, History.sampledForRequest]
  split_ifs with hge
  · exact hw.sampleChecked hn _ hlt
  · rfl

theorem History.Windowed.maybeReengageWorkersChecked (hw : h.Windowed n) (hn : n < 2^30)
    {word : Word} {self thieves : ℕ} (hpos : 0 < word.toNat)
    (hlt : getSentinel (word + (-1)) < n) :
    Cheetah.maybeReengageWorkersChecked self n word thieves h =
      some (maybeReengageWorkers self n (word + (-1)) thieves h) := by
  have hword : BitVec.ofNat 64 (word.toNat - 1) = word + (-1) := by
    apply BitVec.eq_of_toNat_eq
    have hbound := word.isLt
    rw [BitVec.toNat_ofNat, BitVec.toNat_add, show (-1 : Word).toNat = 2^64 - 1 from rfl]
    omega
  rw [maybeReengageWorkers_eq, Cheetah.maybeReengageWorkersChecked, checkedSub_of_le hpos]
  simp only [Option.bind_eq_bind, Option.bind_some, Option.pure_def]
  rw [hword, hw.sampledForRequestChecked hn hlt, Option.bind_some]

/-- The fail count of a worker that wakes is large enough for what is subtracted. -/
theorem History.Tired.failsAfterDisengageChecked (ht : h.Tired) {scaled : ℕ} {h' : History}
    (hsame : h'.fails = h.fails) : Cheetah.failsAfterDisengageChecked scaled h' =
      some (if scaled < sentinelThreshold then usub h'.fails scaled
        else disengageThreshold - sentinelThreshold) := by
  have hge := ht.ge
  have hle := ht.le
  rw [maxFails_eq] at hle
  rw [Cheetah.failsAfterDisengageChecked, hsame]
  split_ifs with hless
  · refine checkedSub_usub (by omega) ?_
    unfold sentinelThreshold at *
    omega
  · rfl

/-- A history is shifted by fewer samples than it has. -/
theorem historiesAfterDisengageChecked_eq (scaled : ℕ) (word : Word) (h : History) :
    historiesAfterDisengageChecked scaled word h =
      some (if scaled > sentinelThreshold then
        if scaled / sentinelThreshold ≥ historyLength then
          { h with
            efficientHistory := 0
            inefficientHistory := 0
            sentinelCountHistory := List.replicate sentinelCountHistoryLength (getSentinel word)
            recentSentinelCount := getSentinel word * sentinelCountHistoryLength % 2^32 }
        else
          { h with
            efficientHistory := h.efficientHistory >>> (scaled / sentinelThreshold)
            inefficientHistory := h.inefficientHistory >>> (scaled / sentinelThreshold) }
      else h) := by
  unfold historiesAfterDisengageChecked
  dsimp only
  split_ifs with hlong hslept
  · rfl
  · rw [checkedShr_of_lt _ (Nat.not_le.mp hslept), checkedShr_of_lt _ (Nat.not_le.mp hslept)]
    rfl
  · rfl

theorem History.Tired.afterDisengageChecked (ht : h.Tired) (elapsed : ℕ) (word : Word) :
    Cheetah.afterDisengageChecked aarch64 elapsed word h =
      some (afterDisengage aarch64 elapsed word h) := by
  rw [Cheetah.afterDisengageChecked, historiesAfterDisengageChecked_eq, afterDisengage]
  simp only [Option.bind_eq_bind, Option.bind_some, Option.pure_def]
  rw [ht.failsAfterDisengageChecked (by split_ifs <;> rfl), Option.bind_some]

/-- The sample threshold of a worker in the scheduling loop. -/
def History.ThresholdOk (h : History) : Prop :=
  sentinelThreshold ≤ h.sampleThreshold ∧ h.sampleThreshold ≤ 2 * sentinelThreshold

/-- With a threshold of at least 128 the comparison of `decrease_fails_by_work` does not wrap. -/
theorem History.ThresholdOk.credit (ho : h.ThresholdOk) :
    (h.sampleThreshold + 2^64 - sentinelThreshold) % 2^64 =
      h.sampleThreshold - sentinelThreshold := by
  obtain ⟨hge, hle⟩ := ho
  unfold sentinelThreshold at *
  omega

theorem History.ThresholdOk.decreaseFailsByWorkChecked (ho : h.ThresholdOk) (hp : h.Paced)
    (elapsed : ℕ) : Cheetah.decreaseFailsByWorkChecked aarch64 elapsed h =
      some (decreaseFailsByWork aarch64 elapsed h) := by
  have hle := hp.le
  have hmax := maxFails_eq
  have hcredit := ho.credit
  obtain ⟨hge, hle'⟩ := ho
  rw [Cheetah.decreaseFailsByWorkChecked, decreaseFailsByWork, decreasedFailsChecked,
    decreasedThresholdChecked, hcredit, checkedSub_of_le hge]
  simp only [Option.bind_eq_bind, Option.bind_some, Option.pure_def]
  generalize getScaledElapsed aarch64 elapsed = scaled
  have hfails : (if scaled > h.fails then some 0 else checkedSub h.fails scaled) =
      some (if scaled > h.fails then 0 else usub h.fails scaled) := by
    split_ifs with hless
    · rfl
    · refine checkedSub_usub ?_ (Nat.not_lt.mp hless)
      unfold sentinelThreshold attempts at hle
      omega
  have hthreshold : (if scaled > h.sampleThreshold - sentinelThreshold then some sentinelThreshold
      else checkedSub h.sampleThreshold scaled) =
      some (if scaled > h.sampleThreshold - sentinelThreshold then sentinelThreshold
        else usub h.sampleThreshold scaled) := by
    split_ifs with hless
    · rfl
    · refine checkedSub_usub ?_ (by omega)
      unfold sentinelThreshold at hle'
      omega
  rw [hfails, hthreshold]
  rfl

theorem thresholdOk_fresh (fails : ℕ) : History.ThresholdOk { fails := fails } :=
  ⟨Nat.le_refl sentinelThreshold, Nat.le_mul_of_pos_left _ Nat.two_pos⟩

theorem History.ThresholdOk.change (ho : h.ThresholdOk) {w : ℕ} {h' : History}
    (hchange : HistoryChange n aarch64 w h h') : h'.ThresholdOk := by
  cases hchange with
  | missed fails | sampled word hpos hle => exact ho
  | reengaged word thieves hp hfails hlt =>
    unfold History.ThresholdOk
    rw [(fails_reengage n w thieves word hfails).2]
    exact ⟨Nat.le_mul_of_pos_left _ Nat.two_pos, Nat.le_refl _⟩
  | disengaged word elapsed ht hpos hle => exact thresholdOk_fresh h.fails
  | worked elapsed hp =>
    have hfresh := thresholdOk_fresh 0
    have hdecreased : (decreaseFailsByWork aarch64 elapsed h).ThresholdOk := by
      have hcredit := ho.credit
      obtain ⟨hge, hle⟩ := ho
      unfold History.ThresholdOk decreaseFailsByWork
      dsimp only
      rw [hcredit]
      split_ifs with hmore
      · exact hfresh
      · rw [usub_of_le (by unfold sentinelThreshold at *; omega) (by omega)]
        omega
    unfold afterWork
    split_ifs
    · dsimp only
      split_ifs <;> exact hdecreased
    · exact hfresh

theorem thresholdOk_of_reaches {s : SleepState} (hpos : 0 < n) (hn : n < 2^32)
    (hrun : Reaches (SleepStep n aarch64) sleepInit s) {w : ℕ}
    (hw : (s.phase w).historyOf = some h) : h.ThresholdOk :=
  history_preserves hpos hn (fun _ => thresholdOk_fresh _) (fun _ _ _ hchange ho => ho.change hchange)
    hrun w h hw

/-- The leading zeros of a positive value leave at least one and at most `k` bits. -/
theorem checkedSub_clz {x k : ℕ} (hlt : x < 2^k) (hk : k ≤ 32) :
    checkedSub 32 (clz x) = some (Nat.size x) := by
  have hsize : Nat.size x ≤ k := Nat.size_le.mpr hlt
  rw [clz, checkedSub_of_le (Nat.sub_le _ _), Nat.sub_sub_self (hsize.trans hk)]

theorem sentinelDivLgSentinelChecked_isSome {sentinel : ℕ} (hlt : sentinel < 2^32) :
    (sentinelDivLgSentinelChecked sentinel).isSome = true := by
  unfold sentinelDivLgSentinelChecked
  split_ifs with hzero
  · rfl
  · have hlg : Nat.size sentinel ≤ 32 := Nat.size_le.mpr hlt
    have hsmall : Nat.size sentinel < 2^6 := Nat.lt_of_le_of_lt hlg (by decide)
    have hamount : Nat.size (Nat.size sentinel) ≤ 6 := Nat.size_le.mpr hsmall
    rw [checkedSub_clz hlt (Nat.le_refl 32), Option.bind_eq_bind, Option.bind_some,
      checkedSub_clz hsmall (by decide), Option.bind_some, checkedShr_of_lt _ (by omega)]
    rfl

theorem History.Windowed.stealRoundChecked_isSome (hw : h.Windowed n) (hn : n < 2^30) {word : Word}
    (hle : getDisengaged word ≤ n) : (stealRoundChecked n word h).isSome = true := by
  have hrecent := hw.recent_le
  have hlt : h.recentSentinelCount / sentinelCountHistoryLength < 2^32 :=
    Nat.lt_of_le_of_lt (Nat.div_le_self _ _) (by omega)
  obtain ⟨delay, hdelay⟩ := Option.isSome_iff_exists.mp (sentinelDivLgSentinelChecked_isSome hlt)
  rw [stealRoundChecked, checkedSub_of_le hle, hdelay]
  rfl

/-- In every state of the scheduling loops, for every worker and every elapsed time: the fail count
and the threshold at a round of steal attempts are in range, a worker that has been disengaged is
still a sentinel, and no unsigned subtraction wraps and no shift reaches the width. The bound on the
number of workers, which are threads, is that of the sum of four counts. -/
theorem failCounts_inRange {s : SleepState} (hpos : 0 < n) (hn : n < 2^30)
    (hrun : Reaches (SleepStep n aarch64) sleepInit s) (w : ℕ) (h : History) :
    (s.phase w = .stealing h →
      h.fails % attempts = 0 ∧ h.fails ≤ maxFails + sentinelThreshold - attempts ∧
      sentinelThreshold ≤ h.sampleThreshold ∧
      (h.fails < sentinelThreshold → h.inefficientHistory = 0 ∧ h.efficientHistory = 0) ∧
      (stealRoundChecked n s.word h).isSome = true ∧
      (sentinelThreshold ≤ h.fails → ∀ thieves, maybeReengageWorkersChecked w n s.word thieves h =
        some (maybeReengageWorkers w n (s.word + (-1)) thieves h))) ∧
    (s.phase w = .sampling h → sampleCountsChecked n s.word h = some (sampleCounts n s.word h)) ∧
    (s.phase w = .woken h → ∀ elapsed,
      sentinelThreshold ≤ (afterDisengage aarch64 elapsed s.word h).fails ∧
      afterDisengageChecked aarch64 elapsed s.word h =
        some (afterDisengage aarch64 elapsed s.word h)) ∧
    (s.phase w = .working h → ∀ elapsed, decreaseFailsByWorkChecked aarch64 elapsed h =
      some (decreaseFailsByWork aarch64 elapsed h)) := by
  have hi := sleepInv_of_reaches hpos (by omega) hrun
  refine ⟨fun hp => ?_, fun hp => ?_, fun hp elapsed => ?_, fun hp elapsed => ?_⟩
  · have hold : (s.phase w).historyOf = some h := by rw [hp, SleepPhase.historyOf]
    have hpaced : h.Paced := hi.ok_of hp
    have hwindow : h.Windowed n := windowed_of_reaches hpos hn hrun hold
    have hdis : getDisengaged s.word ≤ n := by
      rw [(hi.halves hpos (by omega)).1]
      exact tally_le _ _ _
    refine ⟨hpaced.dvd, hpaced.le, (thresholdOk_of_reaches hpos (by omega) hrun hold).1,
      hpaced.clear, hwindow.stealRoundChecked_isSome hn hdis, fun hge thieves => ?_⟩
    have hsen : (s.phase w).isSentinel = true := by
      rw [hp]
      exact decide_eq_true hge
    refine hwindow.maybeReengageWorkersChecked hn ?_ (hi.reengage_lt hpos (by omega) hsen)
    have hhalf := (hi.sentinel_pos hpos (by omega) hsen).1
    rw [getSentinel, BitVec.toNat_and] at hhalf
    exact Nat.lt_of_lt_of_le hhalf Nat.and_le_left
  · have hold : (s.phase w).historyOf = some h := by rw [hp, SleepPhase.historyOf]
    have hsen : (s.phase w).isSentinel = true := by
      rw [hp]
      exact decide_eq_true (SleepPhase.Ok.sampling_ge (hi.ok_of hp))
    exact (windowed_of_reaches hpos hn hrun hold).sampleCountsChecked hn
      (hi.sentinel_pos hpos (by omega) hsen).2
  · have ht : h.Tired := hi.ok_of hp
    exact ⟨(paced_afterDisengage ht).2, ht.afterDisengageChecked elapsed s.word⟩
  · have hold : (s.phase w).historyOf = some h := by rw [hp, SleepPhase.historyOf]
    exact (thresholdOk_of_reaches hpos (by omega) hrun hold).decreaseFailsByWorkChecked
      (hi.ok_of hp) elapsed

/-- Worker 0 of 2 enters the scheduling loop as a sentinel. -/
theorem failCounts_inRange_two : ∃ s h, Reaches (SleepStep 2 false) sleepInit s ∧
    s.phase 0 = .stealing h ∧ h.fails % attempts = 0 ∧ sentinelThreshold ≤ h.sampleThreshold ∧
    maybeReengageWorkersChecked 0 2 s.word 0 h =
      some (maybeReengageWorkers 0 2 (s.word + (-1)) 0 h) := by
  have hrun := Relation.ReflTransGen.single
    (@SleepStep.initFails 2 false sleepInit 0 0 (by decide) rfl)
  have hall := (failCounts_inRange (by decide) (by decide) hrun 0
    { fails := sentinelThreshold }).1 rfl
  exact ⟨_, _, hrun, rfl, hall.1, hall.2.2.1, hall.2.2.2.2.2 (by decide) 0⟩

end Checked

section Work

variable {n : ℕ} {h : History} {aarch64 : Bool}

/-- The elapsed times after which `get_scaled_elapsed` starts again at 0. -/
def elapsedPeriod (aarch64 : Bool) : ℕ := if aarch64 then 2^24 else 2^25

/-- The elapsed time that is worth `ATTEMPTS` failed steals. -/
def elapsedBlock (aarch64 : Bool) : ℕ := if aarch64 then 2^10 else 2^11

/-- The elapsed times that the two wrapping conversions of `get_scaled_elapsed` keep in order, or
of which the longer one is worth all the credit of the worker even after these. -/
def WorkOrdered (aarch64 : Bool) (h : History) (e₁ e₂ : ℕ) : Prop :=
  e₁ % elapsedPeriod aarch64 / elapsedBlock aarch64 ≤
      e₂ % elapsedPeriod aarch64 / elapsedBlock aarch64 ∨
    max h.fails (h.sampleThreshold - sentinelThreshold) ≤
      attempts * (e₂ % elapsedPeriod aarch64 / elapsedBlock aarch64)

theorem getScaledElapsed_eq (elapsed : ℕ) : getScaledElapsed aarch64 elapsed =
    attempts * (elapsed % elapsedPeriod aarch64 / elapsedBlock aarch64) := by
  unfold getScaledElapsed elapsedPeriod elapsedBlock sentinelThreshold attempts
  cases aarch64 with
  | false =>
    simp only [Bool.false_eq_true, if_false]
    omega
  | true =>
    simp only [if_true]
    omega

/-- What work leaves of the fail count and of the threshold. -/
theorem decreaseFailsByWork_eq (aarch64 : Bool) (ho : h.ThresholdOk) (hp : h.Paced) (elapsed : ℕ) :
    (decreaseFailsByWork aarch64 elapsed h).fails =
        h.fails - getScaledElapsed aarch64 elapsed ∧
      (decreaseFailsByWork aarch64 elapsed h).sampleThreshold =
        sentinelThreshold + (h.sampleThreshold - sentinelThreshold -
          getScaledElapsed aarch64 elapsed) := by
  have hcredit := ho.credit
  have hle := hp.le
  have hmax := maxFails_eq
  obtain ⟨hge, hle'⟩ := ho
  unfold decreaseFailsByWork
  dsimp only
  rw [hcredit]
  generalize getScaledElapsed aarch64 elapsed = scaled
  unfold sentinelThreshold attempts at *
  refine ⟨?_, ?_⟩
  · split_ifs with hless
    · omega
    · rw [usub_of_le (by omega) (by omega)]
  · split_ifs with hless
    · omega
    · rw [usub_of_le (by omega) (by omega)]
      omega

/-- In every state of the scheduling loops, for a worker that has worked and any two elapsed times,
the first no longer than the second: the second leaves no more fails and no higher threshold
exactly when the two are ordered so. -/
theorem moreWork_lessCredit_iff {s : SleepState} (hpos : 0 < n) (hn : n < 2^32)
    (hrun : Reaches (SleepStep n aarch64) sleepInit s) {w : ℕ} (hp : s.phase w = .working h)
    (e₁ e₂ : ℕ) :
    ((decreaseFailsByWork aarch64 e₂ h).fails ≤ (decreaseFailsByWork aarch64 e₁ h).fails ∧
      (decreaseFailsByWork aarch64 e₂ h).sampleThreshold ≤
        (decreaseFailsByWork aarch64 e₁ h).sampleThreshold) ↔ WorkOrdered aarch64 h e₁ e₂ := by
  have hi := sleepInv_of_reaches hpos hn hrun
  have hpaced : h.Paced := hi.ok_of hp
  have hthreshold := thresholdOk_of_reaches hpos hn hrun (w := w) (by
    rw [hp, SleepPhase.historyOf])
  obtain ⟨hfails₁, hthr₁⟩ := decreaseFailsByWork_eq aarch64 hthreshold hpaced e₁
  obtain ⟨hfails₂, hthr₂⟩ := decreaseFailsByWork_eq aarch64 hthreshold hpaced e₂
  rw [hfails₁, hfails₂, hthr₁, hthr₂, getScaledElapsed_eq, getScaledElapsed_eq, WorkOrdered]
  unfold attempts
  omega

/-- Worker 0 of 2 steals as a sentinel and works. -/
theorem sleep_works : ∃ s h, Reaches (SleepStep 2 false) sleepInit s ∧ s.phase 0 = .working h ∧
    h.fails = sentinelThreshold ∧ h.sampleThreshold = 2 * sentinelThreshold := by
  have hrun := (Relation.ReflTransGen.single
    (@SleepStep.initFails 2 false sleepInit 0 0 (by decide) rfl)).tail (.stole 0 0 rfl)
  rw [if_pos (by decide)] at hrun
  exact ⟨_, _, hrun, rfl, fails_reengage _ _ _ _ (by decide)⟩

/-- With one cycle more than `2^25-1`, worker 0 keeps all of its fails instead of none. -/
theorem moreWork_moreCredit : ∃ s h, Reaches (SleepStep 2 false) sleepInit s ∧
    s.phase 0 = .working h ∧ h.fails > 2 * attempts ∧
    ¬ (decreaseFailsByWork false (2^25) h).fails ≤
      (decreaseFailsByWork false (2^25 - 1) h).fails := by
  obtain ⟨s, h, hrun, hp, hfails, hthr⟩ := sleep_works
  refine ⟨s, h, hrun, hp, by rw [hfails]; decide, ?_⟩
  unfold decreaseFailsByWork
  dsimp only
  rw [hfails]
  decide

theorem moreWork_lessCredit_iff_short : ∃ s h, Reaches (SleepStep 2 false) sleepInit s ∧
    s.phase 0 = .working h ∧ (((decreaseFailsByWork false 200000 h).fails ≤
      (decreaseFailsByWork false 100000 h).fails ∧
      (decreaseFailsByWork false 200000 h).sampleThreshold ≤
        (decreaseFailsByWork false 100000 h).sampleThreshold) ↔ WorkOrdered false h 100000 200000) := by
  obtain ⟨s, h, hrun, hp, -⟩ := sleep_works
  exact ⟨s, h, hrun, hp, moreWork_lessCredit_iff (by decide) (by decide) hrun hp 100000 200000⟩

end Work

end Cheetah
