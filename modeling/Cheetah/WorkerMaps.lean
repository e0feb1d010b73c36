import Cheetah.PackedCounts
import Cheetah.Runs

/-! The maps `index_to_worker` and `worker_to_index` and the three routines that change
them: `disengage_worker`, `reengage_worker` and `try_to_disengage_thief`. -/
namespace Cheetah

structure WorkerMaps where
  indexToWorker : ℕ → ℕ
  workerToIndex : ℕ → ℕ

def WorkerMaps.swapWorkerWithTarget (m : WorkerMaps) (self targetIndex : ℕ) : WorkerMaps :=
  let selfIndex := m.workerToIndex self
  let targetWorker := m.indexToWorker targetIndex
  { indexToWorker := Function.update (Function.update m.indexToWorker selfIndex targetWorker)
      targetIndex self
    workerToIndex := Function.update (Function.update m.workerToIndex targetWorker selfIndex)
      self targetIndex }

/-- The routine by which a worker disengages: `disengage_worker`, to be undone by
`reengage_worker`, or the first phase of `try_to_disengage_thief`, to be undone by its second. -/
inductive Leave where
  | worker
  | thief
deriving DecidableEq

/-- Where a worker stands in these routines. From `locked` to `swapped` and from `relocked` to
`reswapped` it holds `index_lock`. -/
inductive MapPhase where
  | engaged
  /-- About to try the lock, with the word that `maybe_disengage_thief` loaded. -/
  | trying (seen : Word)
  | locked (seen : Option Word)
  | counted (leave : Leave) (lastIndex : ℕ)
  | swapped (leave : Leave)
  | disengaged (leave : Leave)
  | relocked (leave : Leave)
  | recounted (lastIndex : ℕ)
  | reswapped
deriving DecidableEq

structure MapState where
  word : Word
  indexLock : Option ℕ
  maps : WorkerMaps
  phase : ℕ → MapPhase

def MapState.setPhase (s : MapState) (w : ℕ) (p : MapPhase) : MapState :=
  { s with phase := Function.update s.phase w p }

/-- The state that `workers_init` leaves behind. -/
def workersInit : MapState where
  word := 0
  indexLock := none
  maps := ⟨id, id⟩
  phase := fun _ => .engaged

/-- One atomic access to the shared state by one worker, or a change of the sentinel half of
the word by other code. -/
inductive MapStep (n : ℕ) : MapState → MapState → Prop
  | sentinels {s : MapState} (count : ℕ) (hle : getDisengaged s.word + count ≤ n) :
      MapStep n s { s with word := packed (getDisengaged s.word) count }
  -- `disengage_worker` waits for the lock
  | lock {s : MapState} (w : ℕ) (hw : 0 < w ∧ w < n) (hp : s.phase w = .engaged)
      (hfree : s.indexLock = none) :
      MapStep n s { s.setPhase w (.locked none) with indexLock := some w }
  -- `maybe_disengage_thief` calls `try_to_disengage_thief` on counts that are inefficient
  | load {s : MapState} (w : ℕ) (hw : 0 < w ∧ w < n) (hp : s.phase w = .engaged)
      (hineff : isInefficient (getWorkerCounts s.word n) = true) :
      MapStep n s (s.setPhase w (.trying s.word))
  | tryFails {s : MapState} (w : ℕ) {seen : Word} (hp : s.phase w = .trying seen)
      (hheld : s.indexLock ≠ none) : MapStep n s (s.setPhase w .engaged)
  | tryLocks {s : MapState} (w : ℕ) {seen : Word} (hp : s.phase w = .trying seen)
      (hfree : s.indexLock = none) :
      MapStep n s { s.setPhase w (.locked (some seen)) with indexLock := some w }
  | count {s : MapState} (w : ℕ) (hp : s.phase w = .locked none) :
      MapStep n s { s.setPhase w (.counted .worker (usub n (getDisengaged s.word + 1))) with
        word := s.word + disengagedSentinel 1 0 }
  | exchange {s : MapState} (w : ℕ) {seen new : Word} (hp : s.phase w = .locked (some seen))
      (heq : s.word = seen)
      (hnew : new = disengagedSentinel (BitVec.ofNat 32 (getDisengaged seen) + 1)
        (BitVec.ofNat 32 (getSentinel seen) - 1)) :
      MapStep n s { s.setPhase w (.counted .thief (usub n (getDisengaged new))) with word := new }
  | exchangeFails {s : MapState} (w : ℕ) {seen : Word} (hp : s.phase w = .locked (some seen))
      (hne : s.word ≠ seen) : MapStep n s { s.setPhase w .engaged with indexLock := none }
  | swap {s : MapState} (w : ℕ) {leave : Leave} {lastIndex : ℕ}
      (hp : s.phase w = .counted leave lastIndex) :
      MapStep n s { s.setPhase w (.swapped leave) with
        maps := if s.maps.workerToIndex w < lastIndex then
          s.maps.swapWorkerWithTarget w lastIndex else s.maps }
  | unlock {s : MapState} (w : ℕ) {leave : Leave} (hp : s.phase w = .swapped leave) :
      MapStep n s { s.setPhase w (.disengaged leave) with indexLock := none }
  | relock {s : MapState} (w : ℕ) {leave : Leave} (hp : s.phase w = .disengaged leave)
      (hfree : s.indexLock = none) :
      MapStep n s { s.setPhase w (.relocked leave) with indexLock := some w }
  | recount {s : MapState} (w : ℕ) {leave : Leave} (hp : s.phase w = .relocked leave) :
      MapStep n s { s.setPhase w (.recounted (usub n (getDisengaged s.word))) with
        word := s.word + match leave with
          | .worker => disengagedSentinel (-1) 0
          | .thief => disengagedSentinel (-1) 1 }
  | reswap {s : MapState} (w : ℕ) {lastIndex : ℕ} (hp : s.phase w = .recounted lastIndex) :
      MapStep n s { s.setPhase w .reswapped with
        maps := if s.maps.workerToIndex w > lastIndex then
          s.maps.swapWorkerWithTarget w lastIndex else s.maps }
  | reunlock {s : MapState} (w : ℕ) (hp : s.phase w = .reswapped) :
      MapStep n s { s.setPhase w .engaged with indexLock := none }

/-- The worker waits in `thief_disengage`. -/
def MapPhase.isDisengaged : MapPhase → Bool
  | .disengaged _ => true
  | _ => false

/-- The number of workers that `worker_scheduler` may steal from. -/
def stealable (word : Word) (n : ℕ) : ℕ := usub n (getDisengaged word)

/-- The victim that it draws with the random number `r`. -/
def MapState.victim (s : MapState) (n r : ℕ) : ℕ := s.maps.indexToWorker (r % stealable s.word n)

end Cheetah
