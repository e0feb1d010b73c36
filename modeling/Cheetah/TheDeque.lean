import Mathlib.Logic.Function.Basic
import Mathlib.Tactic.Common
import Cheetah.Runs

/-! The deque of one worker between two calls of `setup_for_execution`, with every load and
store of `head`, `tail` and `exc` a step of its own. Pointers into the deque are indices;
`exc` is never `EXCEPTION_INFINITY`, which nothing stores. -/
namespace Cheetah

/-- The index that `setup_for_execution` stores in all three pointers. -/
def dequeInit : ℕ := 1

inductive Party where
  | owner
  | thief (i : ℕ)
deriving DecidableEq

/-- Where the owner stands in `__cilkrts_detach`, `__cilkrts_leave_frame_helper` and
`__cilkrts_exception_handler`. -/
inductive OwnerPc where
  | running
  /-- The parent is stored at the tail, the tail not yet incremented. -/
  | detaching
  /-- The tail is decremented, `exc` not yet loaded. -/
  | leaving
  /-- Waits for the busy lock. -/
  | handling
  | locked
  /-- About to store the loaded head in `exc`. -/
  | resetting (head : ℕ)
  | comparing
  /-- About to load the tail. -/
  | comparingTail (head : ℕ)
  | unlocking
  /-- In the stolen branch, with the busy lock. -/
  | stolen
deriving DecidableEq

/-- Where a thief stands in `do_dekker_on` and `promote_child`. -/
inductive ThiefPc where
  | away
  | locked
  /-- About to store `exc + 1`. -/
  | raising (exc : ℕ)
  | raised
  /-- About to load the tail. -/
  | checking (head : ℕ)
  | lowering
  /-- About to store `exc - 1`. -/
  | lowered (exc : ℕ)
  /-- Dekker succeeded: about to load the frame. -/
  | promoting (head : ℕ)
  /-- About to store `head + 1`. -/
  | promoted (head frame : ℕ)
  | unlocking
deriving DecidableEq

/-- The shared deque, the program counters, and two ghosts: frames are numbered in the order
in which they are pushed, and the log tells by whom each of them was consumed. -/
structure DequeState where
  head : ℕ
  tail : ℕ
  exc : ℕ
  slot : ℕ → ℕ
  busyLock : Option Party
  owner : OwnerPc
  thief : ℕ → ThiefPc
  pushed : ℕ
  log : List (ℕ × Party)

def DequeState.setThief (s : DequeState) (i : ℕ) (p : ThiefPc) : DequeState :=
  { s with thief := Function.update s.thief i p }

def initialDeque : DequeState where
  head := dequeInit
  tail := dequeInit
  exc := dequeInit
  slot := fun _ => 0
  busyLock := none
  owner := .running
  thief := fun _ => .away
  pushed := 0
  log := []

inductive DequeStep : DequeState → DequeState → Prop
  -- `__cilkrts_detach`
  | storeParent {s : DequeState} (ho : s.owner = .running) :
      DequeStep s { s with slot := Function.update s.slot s.tail s.pushed, owner := .detaching }
  | incrementTail {s : DequeState} (ho : s.owner = .detaching) :
      DequeStep s { s with tail := s.tail + 1, owner := .running, pushed := s.pushed + 1 }
  -- `__cilkrts_leave_frame_helper`, for a frame that was pushed before
  | decrementTail {s : DequeState} (ho : s.owner = .running) (hpushed : dequeInit < s.tail) :
      DequeStep s { s with tail := s.tail - 1, owner := .leaving }
  | loadExc {s : DequeState} (ho : s.owner = .leaving) (hle : s.exc ≤ s.tail) :
      DequeStep s { s with owner := .running, log := s.log ++ [(s.slot s.tail, .owner)] }
  | loadExcGreater {s : DequeState} (ho : s.owner = .leaving) (hgt : s.exc > s.tail) :
      DequeStep s { s with owner := .handling }
  -- `__cilkrts_exception_handler`
  | lockSelf {s : DequeState} (ho : s.owner = .handling) (hfree : s.busyLock = none) :
      DequeStep s { s with owner := .locked, busyLock := some .owner }
  | loadHeadForReset {s : DequeState} (ho : s.owner = .locked) :
      DequeStep s { s with owner := .resetting s.head }
  | resetExc {s : DequeState} {head : ℕ} (ho : s.owner = .resetting head) :
      DequeStep s { s with exc := head, owner := .comparing }
  | loadHead {s : DequeState} (ho : s.owner = .comparing) :
      DequeStep s { s with owner := .comparingTail s.head }
  | loadTailStolen {s : DequeState} {head : ℕ} (ho : s.owner = .comparingTail head)
      (hgt : head > s.tail) : DequeStep s { s with owner := .stolen }
  | loadTail {s : DequeState} {head : ℕ} (ho : s.owner = .comparingTail head)
      (hle : ¬ head > s.tail) :
      DequeStep s { s with owner := .unlocking, log := s.log ++ [(s.slot s.tail, .owner)] }
  | unlockSelf {s : DequeState} (ho : s.owner = .unlocking) :
      DequeStep s { s with owner := .running, busyLock := none }
  -- `Closure_steal` and `do_dekker_on`
  | trylock {s : DequeState} (i : ℕ) (hp : s.thief i = .away) (hfree : s.busyLock = none) :
      DequeStep s { s.setThief i .locked with busyLock := some (.thief i) }
  | thiefLoadExc {s : DequeState} (i : ℕ) (hp : s.thief i = .locked) :
      DequeStep s (s.setThief i (.raising s.exc))
  | thiefRaiseExc {s : DequeState} (i : ℕ) {exc : ℕ} (hp : s.thief i = .raising exc) :
      DequeStep s { s.setThief i .raised with exc := exc + 1 }
  | thiefLoadHead {s : DequeState} (i : ℕ) (hp : s.thief i = .raised) :
      DequeStep s (s.setThief i (.checking s.head))
  | thiefLoadTail {s : DequeState} (i : ℕ) {head : ℕ} (hp : s.thief i = .checking head) :
      DequeStep s (s.setThief i (if head ≥ s.tail then .lowering else .promoting head))
  | thiefReloadExc {s : DequeState} (i : ℕ) (hp : s.thief i = .lowering) :
      DequeStep s (s.setThief i (.lowered s.exc))
  | thiefLowerExc {s : DequeState} (i : ℕ) {exc : ℕ} (hp : s.thief i = .lowered exc) :
      DequeStep s { s.setThief i .unlocking with exc := exc - 1 }
  -- `promote_child`
  | thiefLoadFrame {s : DequeState} (i : ℕ) {head : ℕ} (hp : s.thief i = .promoting head) :
      DequeStep s (s.setThief i (.promoted head (s.slot head)))
  | thiefStoreHead {s : DequeState} (i : ℕ) {head frame : ℕ}
      (hp : s.thief i = .promoted head frame) :
      DequeStep s { s.setThief i .unlocking with
        head := head + 1, log := s.log ++ [(frame, .thief i)] }
  | thiefUnlock {s : DequeState} (i : ℕ) (hp : s.thief i = .unlocking) :
      DequeStep s { s.setThief i .away with busyLock := none }

/-- Between its decrement of the tail and its decision the owner pops the frame at the tail. -/
def OwnerPc.isPopping : OwnerPc → Bool
  | .running | .detaching | .unlocking => false
  | _ => true

/-- The end of the frames that nobody has consumed. -/
def DequeState.top (s : DequeState) : ℕ := if s.owner.isPopping then s.tail + 1 else s.tail

/-- The frames in the slots from `head` to `top`. -/
def liveFrames (head top : ℕ) (slot : ℕ → ℕ) : List ℕ :=
  (List.range' head (top - head)).map slot

/-- The frames that a log says were stolen, in the order of the thefts. -/
def stolenIn (log : List (ℕ × Party)) : List ℕ := (log.filter fun e => e.2 ≠ .owner).map Prod.fst

end Cheetah
