import Mathlib.Algebra.Order.BigOperators.Group.List
import Mathlib.Algebra.Order.Ring.Nat
import Mathlib.Algebra.GroupWithZero.Action.Defs
import Cheetah.SleepHistories

/-! The window of recent sentinel counts: its total as a divisor in `maybe_reengage_workers`. -/
namespace Cheetah

section Totals

/-- One entry of a list is replaced. -/
theorem sum_set_add {l : List ℕ} {i : ℕ} (hi : i < l.length) (c : ℕ) :
    (l.set i c).sum + l.getD i 0 = l.sum + c := by
  induction l generalizing i with
  | nil => exact absurd hi (Nat.not_lt_zero i)
  | cons a l ih =>
    cases i with
    | zero =>
      rw [List.set_cons_zero, List.getD_cons_zero, List.sum_cons, List.sum_cons]
      omega
    | succ i =>
      have hrest := ih (i := i) (Nat.lt_of_succ_lt_succ hi)
      rw [List.set_cons_succ, List.getD_cons_succ, List.sum_cons, List.sum_cons]
      omega

theorem getD_le_sum {l : List ℕ} {i : ℕ} (hi : i < l.length) : l.getD i 0 ≤ l.sum := by
  have hset := sum_set_add hi 0
  omega

/-- A subtraction that does not wrap. -/
theorem usub_of_le {a b : ℕ} (ha : a < 2^32) (hle : b ≤ a) : usub a b = a - b := by
  rw [usub]
  omega

end Totals

namespace History

/-- The entries of the window are counts of sentinels, and the total is theirs or, as long as the
window has not been filled anew, three more. -/
structure Windowed (n : ℕ) (h : History) : Prop where
  tail : h.sentinelCountHistoryTail < sentinelCountHistoryLength
  length : h.sentinelCountHistory.length = sentinelCountHistoryLength
  le : ∀ c ∈ h.sentinelCountHistory, c ≤ n
  total : h.recentSentinelCount = h.sentinelCountHistory.sum + 3 ∧ 1 ≤ h.sentinelCountHistory.sum ∨
    h.recentSentinelCount = h.sentinelCountHistory.sum ∧ ∀ c ∈ h.sentinelCountHistory, 1 ≤ c

/-- The counter that the update of the total subtracts from holds at least the old entry, and
the new total fits the counter. -/
def RecordsExactly (h : History) (current : ℕ) : Prop :=
  let old := h.sentinelCountHistory.getD h.sentinelCountHistoryTail 0
  old ≤ h.recentSentinelCount ∧ h.recentSentinelCount - old + current < 2^32 ∧
    (h.recordSentinels current).recentSentinelCount = h.recentSentinelCount - old + current

/-- What `maybe_reengage_workers` keeps in its locals after its own sample, if it takes one. -/
def sampledForRequest (n : ℕ) (word : Word) (h : History) : History :=
  let counts := getWorkerCounts word n
  if h.fails ≥ h.sampleThreshold then
    { h.recordSentinels (counts.sentinels + 1) with
      inefficientHistory := pushSample h.inefficientHistory (isInefficient counts)
      efficientHistory := pushSample h.efficientHistory (isEfficient counts) }
  else h

def effDiff (h : History) : ℤ := popcount h.efficientHistory - popcount h.inefficientHistory

def avgSentinels (h : History) : ℕ := h.recentSentinelCount / sentinelCountHistoryLength

/-- The request of the branch with enough efficient samples. -/
def effRequest (self : ℕ) (h : History) : ℕ :=
  let remainder := h.effDiff.toNat % h.avgSentinels
  h.effDiff.toNat / h.avgSentinels + if remainder ≠ 0 ∧ self % remainder ≠ 0 then 1 else 0

/-- What `maybe_reengage_workers` does after its sample. -/
def requestFrom (self n : ℕ) (word : Word) (thieves : ℕ) (sampled : History) : History × ℕ :=
  let counts := getWorkerCounts word n
  let keeps := sampled.effDiff < historyThreshold
  let request := if keeps then 0 else sampled.effRequest self
  let wanted := ((counts.active + 3) / 4).toNat
  let request := if request = 0 ∧ counts.sentinels = 0 ∧ counts.active < n ∧
    thieves < wanted then wanted - thieves else request
  let fails := if sampled.fails > sentinelThreshold then sentinelThreshold else sampled.fails
  ({ sampled with
    inefficientHistory := if keeps then sampled.inefficientHistory else 0
    efficientHistory := if keeps then sampled.efficientHistory else 0
    fails := fails
    sampleThreshold := fails + sentinelThreshold }, request)

end History

section Window

variable {n : ℕ} {h : History}

theorem History.Windowed.tail_lt (hw : h.Windowed n) :
    h.sentinelCountHistoryTail < h.sentinelCountHistory.length := by
  rw [hw.length]
  exact hw.tail

theorem History.Windowed.sum_le (hw : h.Windowed n) : h.sentinelCountHistory.sum ≤ 4 * n := by
  have hle := List.sum_le_card_nsmul _ n hw.le
  rw [hw.length, smul_eq_mul] at hle
  exact hle

theorem History.Windowed.recent_le (hw : h.Windowed n) :
    h.recentSentinelCount ≤ 4 * n + 3 := by
  have hsum := hw.sum_le
  rcases hw.total with ⟨htotal, -⟩ | ⟨htotal, -⟩ <;> omega

/-- Only the window matters. -/
theorem History.Windowed.congr {h' : History} (hw : h.Windowed n)
    (htail : h'.sentinelCountHistoryTail = h.sentinelCountHistoryTail)
    (hrecent : h'.recentSentinelCount = h.recentSentinelCount)
    (hwindow : h'.sentinelCountHistory = h.sentinelCountHistory) : h'.Windowed n where
  tail := htail ▸ hw.tail
  length := hwindow ▸ hw.length
  le := hwindow ▸ hw.le
  total := by
    rw [hrecent, hwindow]
    exact hw.total

theorem windowed_fresh (hpos : 0 < n) (fails : ℕ) : History.Windowed n { fails := fails } where
  tail := Nat.zero_lt_succ 3
  length := rfl
  le := by
    intro c hc
    simp only [List.mem_cons, List.not_mem_nil, or_false] at hc
    omega
  total := .inl ⟨rfl, Nat.le_refl 1⟩

theorem History.Windowed.recordsExactly (hw : h.Windowed n) (hn : n < 2^30) {c : ℕ} (hc : c ≤ n) :
    h.RecordsExactly c := by
  have hold := getD_le_sum hw.tail_lt
  have hset := sum_set_add hw.tail_lt c
  have hle := hw.recent_le
  have hnew : (h.sentinelCountHistory.set h.sentinelCountHistoryTail c).sum ≤ 4 * n := by
    have hall : ∀ x ∈ h.sentinelCountHistory.set h.sentinelCountHistoryTail c, x ≤ n := by
      intro x hx
      rcases List.mem_or_eq_of_mem_set hx with hx | rfl
      · exact hw.le x hx
      · exact hc
    have hcard := List.sum_le_card_nsmul _ n hall
    rw [List.length_set, hw.length, smul_eq_mul] at hcard
    exact hcard
  have hge : h.sentinelCountHistory.sum ≤ h.recentSentinelCount ∧
      h.recentSentinelCount ≤ h.sentinelCountHistory.sum + 3 := by
    rcases hw.total with ⟨htotal, -⟩ | ⟨htotal, -⟩ <;> omega
  refine ⟨by omega, by omega, ?_⟩
  dsimp only [recordSentinels]
  rw [usub_of_le (by omega) (by omega), Nat.mod_eq_of_lt (by omega)]

theorem History.Windowed.record (hw : h.Windowed n) (hn : n < 2^30) {c : ℕ} (hpos : 0 < c)
    (hc : c ≤ n) : (h.recordSentinels c).Windowed n := by
  obtain ⟨hold, -, hrecent⟩ := hw.recordsExactly hn hc
  have hset := sum_set_add hw.tail_lt c
  have hsum := getD_le_sum hw.tail_lt
  refine ⟨Nat.mod_lt _ (by decide), ?_, ?_, ?_⟩
  · change (h.sentinelCountHistory.set _ c).length = _
    rw [List.length_set, hw.length]
  · intro x hx
    rcases List.mem_or_eq_of_mem_set hx with hx | rfl
    · exact hw.le x hx
    · exact hc
  · rw [hrecent]
    change _ = (h.sentinelCountHistory.set _ c).sum + 3 ∧
      1 ≤ (h.sentinelCountHistory.set _ c).sum ∨ _ = (h.sentinelCountHistory.set _ c).sum ∧
      ∀ x ∈ h.sentinelCountHistory.set _ c, 1 ≤ x
    rcases hw.total with ⟨htotal, -⟩ | ⟨htotal, hall⟩
    · exact .inl ⟨by omega, by omega⟩
    · refine .inr ⟨by omega, fun x hx => ?_⟩
      rcases List.mem_or_eq_of_mem_set hx with hx | rfl
      · exact hall x hx
      · exact hpos

/-- The window that a worker fills anew after a long sleep. -/
theorem History.Windowed.refill (hn : n < 2^30) {c : ℕ} (hpos : 0 < c) (hc : c ≤ n) {h' : History}
    (htail : h'.sentinelCountHistoryTail < sentinelCountHistoryLength)
    (hwindow : h'.sentinelCountHistory = List.replicate sentinelCountHistoryLength c)
    (hrecent : h'.recentSentinelCount = c * sentinelCountHistoryLength % 2^32) :
    h'.Windowed n where
  tail := htail
  length := by rw [hwindow, List.length_replicate]
  le := by
    intro x hx
    rw [hwindow] at hx
    exact (List.eq_of_mem_replicate hx).trans_le hc
  total := by
    refine .inr ⟨?_, fun x hx => ?_⟩
    · rw [hrecent, hwindow, List.sum_replicate, smul_eq_mul]
      unfold sentinelCountHistoryLength
      omega
    · rw [hwindow] at hx
      exact hpos.trans_eq (List.eq_of_mem_replicate hx).symm

theorem History.Windowed.sampledForRequest (hw : h.Windowed n) (hn : n < 2^30) {word : Word}
    (hlt : getSentinel word < n) : (h.sampledForRequest n word).Windowed n := by
  unfold History.sampledForRequest
  dsimp only
  split_ifs with hge
  · exact (hw.record hn (Nat.succ_pos _) hlt).congr rfl rfl rfl
  · exact hw

theorem maybeReengageWorkers_eq (self thieves : ℕ) (word : Word) (h : History) :
    maybeReengageWorkers self n word thieves h =
      (h.sampledForRequest n word).requestFrom self n word thieves := by
  unfold maybeReengageWorkers History.requestFrom History.sampledForRequest History.effRequest
    History.effDiff History.avgSentinels
  dsimp only
  by_cases hge : h.fails ≥ h.sampleThreshold
  · simp only [if_pos hge]
  · simp only [if_neg hge]

theorem History.Windowed.change (hw : h.Windowed n) (hn : n < 2^30) {aarch64 : Bool} {w : ℕ}
    {h' : History} (hchange : HistoryChange n aarch64 w h h') : h'.Windowed n := by
  cases hchange with
  | missed fails => exact hw.congr rfl rfl rfl
  | reengaged word thieves hp hfails hlt =>
    rw [maybeReengageWorkers_eq]
    exact (hw.sampledForRequest hn hlt).congr rfl rfl rfl
  | sampled word hpos hle => exact (hw.record hn hpos hle).congr rfl rfl rfl
  | disengaged word elapsed ht hpos hle =>
    unfold afterDisengage
    dsimp only
    split_ifs with hlong hrefill
    all_goals
      first
      | exact hw.congr rfl rfl rfl
      | exact History.Windowed.refill hn hpos hle hw.tail rfl rfl
  | worked elapsed hp =>
    unfold afterWork
    split_ifs with hmin
    · dsimp only
      split_ifs <;> exact hw.congr rfl rfl rfl
    · exact hw.congr rfl rfl rfl

theorem History.Windowed.avg_pos (hw : h.Windowed n) : 1 ≤ h.avgSentinels := by
  have hfour : 4 ≤ h.recentSentinelCount := by
    rcases hw.total with ⟨htotal, hsum⟩ | ⟨htotal, hall⟩
    · omega
    · have hcard := List.card_nsmul_le_sum _ 1 hall
      rw [hw.length, smul_eq_mul] at hcard
      rw [htotal]
      exact hcard
  exact (Nat.le_div_iff_mul_le (by decide)).mpr hfour

theorem windowed_of_reaches {s : SleepState} {aarch64 : Bool} (hpos : 0 < n) (hn : n < 2^30)
    (hrun : Reaches (SleepStep n aarch64) sleepInit s) {w : ℕ}
    (hw : (s.phase w).historyOf = some h) : h.Windowed n :=
  history_preserves hpos (by omega) (fun _ => windowed_fresh hpos _)
    (fun _ _ _ hchange hold => hold.change hn hchange) hrun w h hw

theorem popcount_le (b : HistorySample) : popcount b ≤ historyLength := by
  have hle := List.countP_le_length (p := fun i => b.getLsbD i) (l := List.range historyLength)
  rwa [List.length_range] at hle

theorem History.effDiff_le (h : History) : h.effDiff ≤ historyLength := by
  have hle := popcount_le h.efficientHistory
  unfold History.effDiff
  omega

/-- A share of the efficient samples is no more than all of them. -/
theorem History.effRequest_le (self : ℕ) (h : History) (hpos : 1 ≤ h.avgSentinels) :
    h.effRequest self ≤ historyLength := by
  have hdiff := h.effDiff_le
  have hall : h.effDiff.toNat ≤ historyLength := Int.toNat_le.mpr hdiff
  unfold History.effRequest
  dsimp only
  generalize h.effDiff.toNat = d at hall
  generalize h.avgSentinels = avg at hpos
  rcases hpos.eq_or_lt with rfl | htwo
  · rw [Nat.mod_one, Nat.div_one, if_neg fun hne => hne.1 rfl]
    exact hall
  · have hhalf : d / avg ≤ d / 2 := Nat.div_le_div_left htwo (by decide)
    unfold historyLength at *
    split_ifs <;> omega

/-- In every state of the scheduling loops: the total of a worker that takes a sample is updated
without a wrap, and where a worker reaches the division of `maybe_reengage_workers` the divisor is
positive and the request is at most the length of a history. Below `2^30` workers, each of them a
thread of the process, the sum of four counts fits its 32 bits. -/
theorem thiefRequest_divides {s : SleepState} {aarch64 : Bool} (hpos : 0 < n) (hn : n < 2^30)
    (hrun : Reaches (SleepStep n aarch64) sleepInit s) :
    (∀ w h, s.phase w = .sampling h → h.RecordsExactly (getWorkerCounts s.word n).sentinels) ∧
    ∀ w h thieves, s.phase w = .stealing h → sentinelThreshold ≤ h.fails →
      let word := s.word + (-1)
      let sampled := h.sampledForRequest n word
      (h.sampleThreshold ≤ h.fails →
        h.RecordsExactly ((getWorkerCounts word n).sentinels + 1)) ∧
      (historyThreshold ≤ sampled.effDiff → 1 ≤ sampled.avgSentinels ∧
        sampled.effRequest w ≤ historyLength ∧ (sampled.effRequest w ≠ 0 →
          (maybeReengageWorkers w n word thieves h).2 = sampled.effRequest w)) := by
  have hi := sleepInv_of_reaches hpos (by omega) hrun
  refine ⟨fun w h hp => ?_, fun w h thieves hp hge => ?_⟩
  · have hwindow : h.Windowed n := windowed_of_reaches hpos hn hrun (w := w) (by rw [hp]; rfl)
    have hcounts := hi.sentinel_pos (w := w) hpos (by omega) (by
      rw [hp]
      exact decide_eq_true (SleepPhase.Ok.sampling_ge (hi.ok_of hp)))
    exact hwindow.recordsExactly hn hcounts.2
  · have hwindow : h.Windowed n := windowed_of_reaches hpos hn hrun (w := w) (by rw [hp]; rfl)
    have hlt : getSentinel (s.word + (-1)) < n := by
      refine hi.reengage_lt (w := w) hpos (by omega) ?_
      rw [hp]
      exact decide_eq_true hge
    have havg := (hwindow.sampledForRequest hn hlt).avg_pos
    refine ⟨fun _ => hwindow.recordsExactly hn hlt, fun hbranch => ⟨havg, ?_, fun hsome => ?_⟩⟩
    · exact History.effRequest_le w _ havg
    · rw [maybeReengageWorkers_eq, History.requestFrom]
      dsimp only
      rw [if_neg (Int.not_lt.mpr hbranch), if_neg fun hnone => hsome hnone.1]

/-- Failed attempts that bring no sample. -/
theorem failed_reaches {s : SleepState} (hp : s.phase 0 = .stealing h)
    (hmod : h.fails % sentinelThreshold = 0) (k : ℕ) (hk : k < sentinelThreshold / attempts) :
    Reaches (SleepStep n false) s
      (s.setPhase 0 (.stealing { h with fails := h.fails + attempts * k })) := by
  unfold sentinelThreshold at hmod
  unfold sentinelThreshold attempts at hk
  induction k with
  | zero =>
    have hsame : s.setPhase 0 (.stealing { h with fails := h.fails + attempts * 0 }) = s := by
      rw [SleepState.setPhase, Nat.mul_zero, Nat.add_zero, ← hp, Function.update_eq_self]
    rw [hsame]
  | succ k ih =>
    have hno : ¬ (h.fails + attempts * k + attempts) % sentinelThreshold = 0 := by
      unfold attempts sentinelThreshold
      omega
    have hstep := @SleepStep.failed n false _ 0 _
      (s.setPhase_phase 0 (.stealing { h with fails := h.fails + attempts * k })) (.inl hno)
    simp only [SleepState.setPhase_setPhase, if_neg hno] at hstep
    simp only [Nat.add_assoc, ← Nat.mul_succ] at hstep
    exact (ih (by omega)).tail hstep

/-- What worker 0 knows as a sentinel after 128 more failed attempts. -/
def History.sampleRound (n : ℕ) (word : Word) (h : History) : History :=
  sampleCounts n word { h with fails := h.fails + sentinelThreshold }

theorem sampleRound_reaches {s : SleepState} (hp : s.phase 0 = .stealing h)
    (hmod : h.fails % sentinelThreshold = 0) (hpos : 0 < h.fails)
    (hmax : h.fails + sentinelThreshold ≤ maxFails) :
    Reaches (SleepStep n false) s (s.setPhase 0 (.stealing (h.sampleRound n s.word))) := by
  have hlast : attempts * (sentinelThreshold / attempts - 1) + attempts = sentinelThreshold := rfl
  have hfailed := failed_reaches (n := n) hp hmod (sentinelThreshold / attempts - 1) (by decide)
  have hsum : h.fails + attempts * (sentinelThreshold / attempts - 1) + attempts =
      h.fails + sentinelThreshold := by rw [Nat.add_assoc, hlast]
  have hmod' : (h.fails + sentinelThreshold) % sentinelThreshold = 0 := by
    rw [Nat.add_mod_right, hmod]
  have hne : sentinelThreshold ≠ h.fails + sentinelThreshold := by omega
  have hsampling := hfailed.tail (SleepStep.failedSample 0 (s.setPhase_phase 0 _)
    (hsum ▸ hmod') (hsum ▸ Nat.not_lt.mpr hmax))
  simp only [hsum, if_neg hne, SleepState.setPhase_setPhase] at hsampling
  have hnot : wantsDisengage 0 n s.word
      (sampleCounts n s.word { h with fails := h.fails + sentinelThreshold }) = false := rfl
  have hsampled := @SleepStep.sample n false _ 0 _
    (s.setPhase_phase 0 (.sampling { h with fails := h.fails + sentinelThreshold }))
  rw [SleepState.setPhase_setPhase] at hsampled
  exact hsampling.tail hsampled

theorem sampleRounds_reaches (r : ℕ) {s : SleepState} (hp : s.phase 0 = .stealing h)
    (hmod : h.fails % sentinelThreshold = 0) (hpos : 0 < h.fails)
    (hmax : h.fails + sentinelThreshold * r ≤ maxFails) :
    Reaches (SleepStep n false) s
      (s.setPhase 0 (.stealing ((History.sampleRound n s.word)^[r] h))) := by
  induction r generalizing s h with
  | zero =>
    have hsame : s.setPhase 0 (.stealing h) = s := by
      rw [SleepState.setPhase, ← hp, Function.update_eq_self]
    rw [Function.iterate_zero_apply, hsame]
  | succ r ih =>
    unfold sentinelThreshold at *
    have hfails : (h.sampleRound n s.word).fails = h.fails + 128 := rfl
    have hround := sampleRound_reaches (n := n) hp hmod hpos (by unfold sentinelThreshold; omega)
    have hrest := ih (s.setPhase_phase 0 (.stealing (h.sampleRound n s.word)))
      (by rw [hfails]; omega) (by rw [hfails]; omega) (by rw [hfails]; omega)
    rw [SleepState.setPhase_setPhase] at hrest
    exact hround.trans hrest

/-- Worker 0 of 2 is the only sentinel for 24 rounds of failed attempts, and steals. -/
theorem thiefRequest_divides_two : ∃ s h, Reaches (SleepStep 2 false) sleepInit s ∧
    s.phase 0 = .stealing h ∧
    historyThreshold ≤ (h.sampledForRequest 2 (s.word + (-1))).effDiff ∧
    1 ≤ (h.sampledForRequest 2 (s.word + (-1))).avgSentinels ∧
    (h.sampledForRequest 2 (s.word + (-1))).effRequest 0 ≤ historyLength := by
  have hstart : Reaches (SleepStep 2 false) sleepInit
      (SleepState.setPhase ⟨1, sleepInit.phase⟩ 0 (.stealing { fails := sentinelThreshold })) :=
    .single (.initFails 0 0 (by decide) rfl)
  have hrun := hstart.trans (sampleRounds_reaches 24 (SleepState.setPhase_phase ⟨1, _⟩ 0 _)
    (by decide) (by decide) (by decide))
  have hdiff : historyThreshold ≤
      (((History.sampleRound 2 1)^[24] { fails := sentinelThreshold }).sampledForRequest 2
        0).effDiff := by decide +kernel
  have hall := ((thiefRequest_divides (by decide) (by decide) hrun).2 0 _ 0
    (SleepState.setPhase_phase _ 0 _) (by decide +kernel)).2 hdiff
  exact ⟨_, _, hrun, SleepState.setPhase_phase _ 0 _, hdiff, hall.1, hall.2.1⟩

end Window

end Cheetah
