import Cheetah.PackedCounts
import Cheetah.Runs

/-! The scheduling loop of `worker_scheduler` as far as it decides, by failed steals and work,
which workers are sentinels and which are disengaged (`worker_sleep.cpp`). -/
namespace Cheetah

def sentinelThreshold : ℕ := 128

def attempts : ℕ := 4

def historyLength : ℕ := 32

def sentinelCountHistoryLength : ℕ := 4

def historyThreshold : ℕ := 3 * historyLength / 4

def disengageThreshold : ℕ := historyThreshold * sentinelThreshold

def napThreshold : ℕ := sentinelThreshold * 64

def maxFails : ℕ := 2 * max napThreshold disengageThreshold

abbrev HistorySample := BitVec 32

/-- `history_t`, and the copies of its fields in `worker_scheduler`. -/
structure History where
  inefficientHistory : HistorySample := 0
  efficientHistory : HistorySample := 0
  sentinelCountHistoryTail : ℕ := 0
  recentSentinelCount : ℕ := sentinelCountHistoryLength
  fails : ℕ := 0
  sampleThreshold : ℕ := sentinelThreshold
  sentinelCountHistory : List ℕ := [1, 0, 0, 0]
deriving DecidableEq

def popcount (h : HistorySample) : ℕ := (List.range historyLength).countP fun i => h.getLsbD i

/-- A sample enters a history at the highest bit. -/
def pushSample (h : HistorySample) (sample : Bool) : HistorySample :=
  h >>> 1 ||| (if sample then 1 else 0) <<< (historyLength - 1)

/-- The update of the sentinel counts with the current one. -/
def History.recordSentinels (h : History) (current : ℕ) : History :=
  let tail := h.sentinelCountHistoryTail
  { h with
    recentSentinelCount :=
      (usub h.recentSentinelCount (h.sentinelCountHistory.getD tail 0) + current) % 2^32
    sentinelCountHistory := h.sentinelCountHistory.set tail current
    sentinelCountHistoryTail := (tail + 1) % sentinelCountHistoryLength }

/-- `get_scaled_elapsed` on its 32-bit argument. -/
def getScaledElapsed (aarch64 : Bool) (elapsed : ℕ) : ℕ :=
  let ratio := if aarch64 then 2 * sentinelThreshold else 1 * sentinelThreshold
  (elapsed % 2^32 * ratio % 2^32 / (1 * 65536)) / attempts * attempts

/-- `maybe_reengage_workers` after its change of the word to `word`, where `thieves` is what it
reads of `disengaged_thieves`. The second component is the number of thieves requested. -/
def maybeReengageWorkers (self nworkers : ℕ) (word : Word) (thieves : ℕ) (h : History) :
    History × ℕ :=
  let counts := getWorkerCounts word nworkers
  let sampled := h.fails ≥ h.sampleThreshold
  let myInefficient := if sampled then pushSample h.inefficientHistory (isInefficient counts)
    else h.inefficientHistory
  let myEfficient := if sampled then pushSample h.efficientHistory (isEfficient counts)
    else h.efficientHistory
  let h := if sampled then h.recordSentinels (counts.sentinels + 1) else h
  let effDiff : ℤ := popcount myEfficient - popcount myInefficient
  let avgSentinels := h.recentSentinelCount / sentinelCountHistoryLength
  let keeps := effDiff < historyThreshold
  let request := if keeps then 0
    else effDiff.toNat / avgSentinels +
      (if effDiff.toNat % avgSentinels ≠ 0 ∧ self % (effDiff.toNat % avgSentinels) ≠ 0
        then 1 else 0)
  let wanted := ((counts.active + 3) / 4).toNat
  let request := if request = 0 ∧ counts.sentinels = 0 ∧ counts.active < nworkers ∧
    thieves < wanted then wanted - thieves else request
  let fails := if h.fails > sentinelThreshold then sentinelThreshold else h.fails
  ({ h with
    inefficientHistory := if keeps then myInefficient else 0
    efficientHistory := if keeps then myEfficient else 0
    fails := fails
    sampleThreshold := fails + sentinelThreshold }, request)

/-- The samples of `handle_failed_steal_attempts` on the word it loads. -/
def sampleCounts (nworkers : ℕ) (word : Word) (h : History) : History :=
  let counts := getWorkerCounts word nworkers
  { h.recordSentinels counts.sentinels with
    efficientHistory := pushSample h.efficientHistory (isEfficient counts)
    inefficientHistory := pushSample h.inefficientHistory (isInefficient counts) }

/-- After its samples `handle_failed_steal_attempts` calls `maybe_disengage_thief`. -/
def wantsDisengage (self nworkers : ℕ) (word : Word) (h : History) : Bool :=
  self ≠ 0 && isInefficient (getWorkerCounts word nworkers) &&
    (popcount h.inefficientHistory : ℤ) - popcount h.efficientHistory > historyThreshold

/-- The updates of `handle_failed_steal_attempts` after a disengagement. -/
def afterDisengage (aarch64 : Bool) (elapsed : ℕ) (word : Word) (h : History) : History :=
  let scaledElapsed := getScaledElapsed aarch64 elapsed
  let samples := scaledElapsed / sentinelThreshold
  let h := if scaledElapsed > sentinelThreshold then
      if samples ≥ historyLength then
        { h with
          efficientHistory := 0
          inefficientHistory := 0
          sentinelCountHistory := List.replicate sentinelCountHistoryLength (getSentinel word)
          recentSentinelCount := getSentinel word * sentinelCountHistoryLength % 2^32 }
      else
        { h with
          efficientHistory := h.efficientHistory >>> samples
          inefficientHistory := h.inefficientHistory >>> samples }
    else h
  { h with
    fails := if scaledElapsed < sentinelThreshold then usub h.fails scaledElapsed
      else disengageThreshold - sentinelThreshold
    sampleThreshold := sentinelThreshold }

/-- `decrease_fails_by_work`, up to its change of the word. -/
def decreaseFailsByWork (aarch64 : Bool) (elapsed : ℕ) (h : History) : History :=
  let scaledElapsed := getScaledElapsed aarch64 elapsed
  { h with
    fails := if scaledElapsed > h.fails then 0 else usub h.fails scaledElapsed
    sampleThreshold :=
      if scaledElapsed > (h.sampleThreshold + 2^64 - sentinelThreshold) % 2^64 then
        sentinelThreshold
      else usub h.sampleThreshold scaledElapsed }

/-- What `worker_scheduler` does to its counters after `do_what_it_says`. -/
def afterWork (aarch64 : Bool) (elapsed : ℕ) (h : History) : History :=
  if h.fails > 2 * attempts then
    let h := decreaseFailsByWork aarch64 elapsed h
    if h.fails < sentinelThreshold then { h with inefficientHistory := 0, efficientHistory := 0 }
    else h
  else { h with fails := 0, sampleThreshold := sentinelThreshold }

/-- `init_fails`: the fail count of a worker that enters the scheduling loop. -/
def initFails (nworkers wakeVal : ℕ) : ℕ :=
  if wakeVal ≤ nworkers / 2 then sentinelThreshold else 0

/-- Where a worker stands. -/
inductive SleepPhase where
  /-- In user code or between the scheduling loop and `thief_wait`. -/
  | outside
  /-- Between `disengage_worker` and `reengage_worker`. -/
  | waiting
  | stealing (h : History)
  /-- In `handle_failed_steal_attempts`, before it loads the word. -/
  | sampling (h : History)
  /-- At the top of the loop of `maybe_disengage_thief`. -/
  | deciding (h : History)
  /-- In `try_to_disengage_thief`, before its compare-exchange. -/
  | trying (h : History) (seen : Word)
  | napping (h : History)
  /-- After the second phase of `try_to_disengage_thief`. -/
  | woken (h : History)
  /-- In `do_what_it_says`. -/
  | working (h : History)
deriving DecidableEq

structure SleepState where
  word : Word
  phase : ℕ → SleepPhase

def SleepState.setPhase (s : SleepState) (w : ℕ) (p : SleepPhase) : SleepState :=
  { s with phase := Function.update s.phase w p }

theorem SleepState.setPhase_phase (s : SleepState) (w : ℕ) (p : SleepPhase) :
    (s.setPhase w p).phase w = p := Function.update_self _ _ _

theorem SleepState.setPhase_setPhase (s : SleepState) (w : ℕ) (p q : SleepPhase) :
    (s.setPhase w p).setPhase w q = s.setPhase w q :=
  congrArg (SleepState.mk s.word) (Function.update_idem _ _ _)

/-- The state before the workers start. -/
def sleepInit : SleepState := ⟨0, fun _ => .outside⟩

/-- One atomic access to `disengaged_sentinel` by worker `w`, with the computation of the
worker around it. Elapsed times, steal outcomes and wake-ups are arbitrary. -/
inductive SleepStep (n : ℕ) (aarch64 : Bool) : SleepState → SleepState → Prop
  | disengageWorker {s : SleepState} (w : ℕ) (hw : 0 < w ∧ w < n) (hp : s.phase w = .outside) :
      SleepStep n aarch64 s
        { s.setPhase w .waiting with word := s.word + disengagedSentinel 1 0 }
  | reengageWorker {s : SleepState} (w : ℕ) (hp : s.phase w = .waiting) :
      SleepStep n aarch64 s
        { s.setPhase w .outside with word := s.word + disengagedSentinel (-1) 0 }
  | initFails {s : SleepState} (w wakeVal : ℕ) (hw : w < n) (hp : s.phase w = .outside) :
      SleepStep n aarch64 s
        { s.setPhase w (.stealing { fails := initFails n wakeVal }) with
          word := if wakeVal ≤ n / 2 then s.word + 1 else s.word }
  | resetFails {s : SleepState} (w : ℕ) {h : History} (hp : s.phase w = .stealing h) :
      SleepStep n aarch64 s
        { s.setPhase w .outside with
          word := if h.fails ≥ sentinelThreshold then s.word + (-1) else s.word }
  -- `Closure_steal` found a closure
  | stole {s : SleepState} (w thieves : ℕ) {h : History} (hp : s.phase w = .stealing h) :
      SleepStep n aarch64 s
        (if h.fails ≥ sentinelThreshold then
          { s.setPhase w (.working (maybeReengageWorkers w n (s.word + (-1)) thieves h).1) with
            word := s.word + (-1) }
        else s.setPhase w (.working h))
  -- all steal attempts failed: no, or no further, samples are due
  | failed {s : SleepState} (w : ℕ) {h : History} (hp : s.phase w = .stealing h)
      (hno : ¬ (h.fails + attempts) % sentinelThreshold = 0 ∨ h.fails + attempts > maxFails) :
      SleepStep n aarch64 s (s.setPhase w (.stealing { h with
        fails := if (h.fails + attempts) % sentinelThreshold = 0 then maxFails
          else h.fails + attempts }))
  | failedSample {s : SleepState} (w : ℕ) {h : History} (hp : s.phase w = .stealing h)
      (hmod : (h.fails + attempts) % sentinelThreshold = 0)
      (hmax : ¬ h.fails + attempts > maxFails) :
      SleepStep n aarch64 s
        { s.setPhase w (.sampling { h with fails := h.fails + attempts }) with
          word := if sentinelThreshold = h.fails + attempts then s.word + 1 else s.word }
  | sample {s : SleepState} (w : ℕ) {h : History} (hp : s.phase w = .sampling h) :
      SleepStep n aarch64 s (s.setPhase w
        (if wantsDisengage w n s.word (sampleCounts n s.word h) then
          .deciding (sampleCounts n s.word h)
        else .stealing (sampleCounts n s.word h)))
  | maybeDisengage {s : SleepState} (w : ℕ) {h : History} (hp : s.phase w = .deciding h) :
      SleepStep n aarch64 s (s.setPhase w
        (if isInefficient (getWorkerCounts s.word n) then .trying h s.word else .stealing h))
  -- the lock is taken, or the word has changed
  | tryFails {s : SleepState} (w : ℕ) {h : History} {seen : Word}
      (hp : s.phase w = .trying h seen) : SleepStep n aarch64 s (s.setPhase w (.deciding h))
  | tryDisengage {s : SleepState} (w : ℕ) {h : History} {seen : Word}
      (hp : s.phase w = .trying h seen) (heq : s.word = seen) :
      SleepStep n aarch64 s
        { s.setPhase w (.napping h) with
          word := disengagedSentinel (BitVec.ofNat 32 (getDisengaged seen) + 1)
            (BitVec.ofNat 32 (getSentinel seen) - 1) }
  | wake {s : SleepState} (w : ℕ) {h : History} (hp : s.phase w = .napping h) :
      SleepStep n aarch64 s
        { s.setPhase w (.woken h) with word := s.word + disengagedSentinel (-1) 1 }
  | afterDisengage {s : SleepState} (w elapsed : ℕ) {h : History} (hp : s.phase w = .woken h) :
      SleepStep n aarch64 s
        (s.setPhase w (.stealing (afterDisengage aarch64 elapsed s.word h)))
  | afterWork {s : SleepState} (w elapsed : ℕ) {h : History} (hp : s.phase w = .working h) :
      SleepStep n aarch64 s
        { s.setPhase w (.stealing (afterWork aarch64 elapsed h)) with
          word := if (afterWork aarch64 elapsed h).fails ≥ sentinelThreshold then s.word + 1
            else s.word }
  -- the region ends in the stolen work of worker 0, which leaves by a longjmp
  | longjmp {s : SleepState} {h : History} (hp : s.phase 0 = .working h) :
      SleepStep n aarch64 s (s.setPhase 0 .outside)

namespace SleepPhase

/-- Disengaged, by either routine. -/
def isDisengaged : SleepPhase → Bool
  | .waiting | .napping _ => true
  | _ => false

/-- In the scheduling loop, not executing stolen work, with at least `SENTINEL_THRESHOLD`
failed steals. -/
def isSentinel : SleepPhase → Bool
  | .stealing h | .sampling h | .deciding h | .trying h _ | .woken h =>
    h.fails ≥ sentinelThreshold
  | _ => false

end SleepPhase

end Cheetah
