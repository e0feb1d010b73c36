import Mathlib.Data.Finset.Insert
import Mathlib.Data.Int.Notation
import Cheetah.Runs

/-! The pools of `fiber-pool.cpp`: one of each worker, and a global one that they share under a
lock. Between two steps of a worker the others may take any number of steps. -/
namespace Cheetah

abbrev PoolFiber := ℕ

def batchFraction : ℕ := 2

/-- `CILK_FIBER_POOL` as `parse_rts_environment` reads it: a value that is not admitted leaves
`DEFAULT_FIBER_POOL_CAP`, and `set_fiber_pool_cap` asserts a bound. -/
def parseFiberPoolCap (fiberPoolCap : ℤ) : Option ℕ :=
  if fiberPoolCap = 0 ∨ fiberPoolCap > 1 then
    if fiberPoolCap ≤ 999999 then some fiberPoolCap.toNat else none
  else some 8

structure FiberPoolStats where
  inUse : ℤ
  maxInUse : ℤ
  maxFree : ℕ
deriving DecidableEq

structure FiberPool where
  capacity : ℕ
  size : ℕ
  fibers : ℕ → Option PoolFiber
  stats : FiberPoolStats

namespace FiberPool

/-- `fiber_pool_init` and `fiber_pool_stat_init`. -/
def init (bufsize : ℕ) : FiberPool := ⟨bufsize, 0, fun _ => none, ⟨0, 0, 0⟩⟩

/-- `size - 1` as an unsigned number. -/
def top (p : FiberPool) : ℕ := if p.size = 0 then 2^32 - 1 else p.size - 1

/-- `capacity - size` as an unsigned number. -/
def room (p : FiberPool) : ℕ :=
  if p.size ≤ p.capacity then p.capacity - p.size else p.capacity + 2^32 - p.size

/-- `fibers[size++] = fiber`. -/
def push (p : FiberPool) (fiber : Option PoolFiber) : FiberPool :=
  { p with fibers := Function.update p.fibers p.size fiber, size := p.size + 1 }

/-- `--size`. -/
def pop (p : FiberPool) : FiberPool := { p with size := p.top }

def increaseCapacity (p : FiberPool) (newSize : ℕ) : FiberPool :=
  if p.capacity < newSize then { p with capacity := newSize } else p

def addInUse (p : FiberPool) (n : ℤ) : FiberPool :=
  { p with stats := { p.stats with inUse := p.stats.inUse + n } }

def noteInUse (p : FiberPool) : FiberPool :=
  { p with stats := { p.stats with maxInUse := max p.stats.maxInUse p.stats.inUse } }

def noteFree (p : FiberPool) : FiberPool :=
  { p with stats := { p.stats with maxFree := max p.stats.maxFree p.size } }

end FiberPool

/-- The callers of `fiber_pool_allocate_batch`. -/
inductive BatchCaller where
  | perWorkerInit
  | allocateFromPool
deriving DecidableEq

/-- Where a worker stands; `i` counts the iterations of the loop that it is in. -/
inductive PoolPc where
  | uninit
  | idle
  /-- In `fiber_pool_allocate_batch`, before the lock of the parent. -/
  | allocating (batch : ℕ) (caller : BatchCaller)
  | fromParent (i n batch : ℕ) (caller : BatchCaller)
  | fromSystem (i batch : ℕ) (caller : BatchCaller)
  /-- In `cilk_fiber_allocate_from_pool`, after the batch. -/
  | popping
  /-- In `fiber_pool_free_batch`, before the lock of the parent. -/
  | freeing (batch : ℕ) (held : Option PoolFiber)
  | toParent (i n batch : ℕ) (held : Option PoolFiber)
  | toSystem (i batch : ℕ) (held : Option PoolFiber)
  /-- In `cilk_fiber_deallocate_to_pool`, after the batch. -/
  | pushing (held : Option PoolFiber)
deriving DecidableEq

/-- The fiber that a worker is about to return. -/
def PoolPc.held : PoolPc → Option PoolFiber
  | freeing _ held | toParent _ _ _ held | toSystem _ _ held | pushing held => held
  | _ => none

/-- The worker is between `fiber_pool_lock` and `fiber_pool_unlock`. -/
def PoolPc.locks : PoolPc → Bool
  | fromParent .. | toParent .. => true
  | _ => false

def BatchCaller.after : BatchCaller → PoolPc
  | perWorkerInit => .idle
  | allocateFromPool => .popping

/-- The pools, and where the fibers are that are in none of them. Fibers are numbered in the order
in which the system gave them out; `accesses` has the index and the capacity of each access to a
slot. -/
structure PoolState where
  cap : ℕ
  parent : FiberPool
  mutexOwner : Option ℕ
  pools : ℕ → FiberPool
  pc : ℕ → PoolPc
  numFibers : ℕ
  inUse : Finset PoolFiber
  returned : Finset PoolFiber
  accesses : List (ℕ × ℕ)

namespace PoolState

def setPool (s : PoolState) (w : ℕ) (p : FiberPool) : PoolState :=
  { s with pools := Function.update s.pools w p }

def setPc (s : PoolState) (w : ℕ) (pc : PoolPc) : PoolState :=
  { s with pc := Function.update s.pc w pc }

/-- The state before the workers are initialized. -/
def initial (cap nproc : ℕ) : PoolState where
  cap := cap
  parent := .init (nproc * cap % 2^32)
  mutexOwner := none
  pools := fun _ => .init 0
  pc := fun _ => .uninit
  numFibers := 0
  inUse := ∅
  returned := ∅
  accesses := []

/-- `fiber_pool_allocate_batch` up to the lock of the parent. -/
def allocateBatch (s : PoolState) (w batch : ℕ) (caller : BatchCaller) : PoolState :=
  if batch = 0 then s.setPc w caller.after
  else
    (s.setPool w ((s.pools w).increaseCapacity (batch + (s.pools w).size))).setPc w
      (.allocating batch caller)

/-- `cilk_fiber_pool_per_worker_init`. -/
def perWorkerInit (s : PoolState) (w : ℕ) : PoolState :=
  (s.setPool w (.init s.cap)).allocateBatch w (s.cap / batchFraction) .perWorkerInit

/-- `fiber_pool_lock` and what is to be taken from the parent. -/
def lockToAllocate (s : PoolState) (w batch : ℕ) (caller : BatchCaller) : PoolState :=
  let fromParent := if s.parent.size ≤ batch then s.parent.size else batch
  { s.setPc w (.fromParent 0 fromParent batch caller) with mutexOwner := some w }

/-- `pool->fibers[pool->size++] = parent->fibers[--parent->size]`. -/
def takeFromParent (s : PoolState) (w : ℕ) : PoolState :=
  { s.setPool w ((s.pools w).push (s.parent.fibers s.parent.top)) with
    parent := s.parent.pop
    accesses := (s.parent.top, s.parent.capacity) ::
      ((s.pools w).size, (s.pools w).capacity) :: s.accesses }

/-- The statistics of the parent, and `fiber_pool_unlock`. -/
def unlockAllocated (s : PoolState) (w n batch : ℕ) (caller : BatchCaller) : PoolState :=
  { s.setPc w (.fromSystem n batch caller) with
    parent := (s.parent.addInUse n).noteInUse
    mutexOwner := none }

/-- `pool->fibers[pool->size++] = cilk_fiber_allocate(pool->stack_size)`. -/
def takeFromSystem (s : PoolState) (w : ℕ) : PoolState :=
  { s.setPool w ((s.pools w).push (some s.numFibers)) with
    numFibers := s.numFibers + 1
    accesses := ((s.pools w).size, (s.pools w).capacity) :: s.accesses }

/-- `cilk_fiber_allocate_from_pool` up to the batch. -/
def allocateFromPool (s : PoolState) (w : ℕ) : PoolState :=
  let pool := s.pools w
  if pool.capacity = 0 then
    { s with inUse := insert s.numFibers s.inUse, numFibers := s.numFibers + 1 }
  else if pool.size = 0 then
    s.allocateBatch w (pool.capacity / batchFraction) .allocateFromPool
  else s.setPc w .popping

/-- The fiber that `cilk_fiber_allocate_from_pool` returns. -/
def allocated (s : PoolState) (w : ℕ) : Option PoolFiber := (s.pools w).fibers (s.pools w).top

/-- The rest of `cilk_fiber_allocate_from_pool`. -/
def popFiber (s : PoolState) (w : ℕ) : PoolState :=
  let pool := s.pools w
  { (s.setPool w (pool.pop.addInUse 1).noteInUse).setPc w .idle with
    inUse := (s.allocated w).elim s.inUse (insert · s.inUse)
    accesses := (pool.top, pool.capacity) :: s.accesses }

/-- `cilk_fiber_deallocate_to_pool` up to the batch. -/
def deallocateToPool (s : PoolState) (w : ℕ) (fiberToReturn : Option PoolFiber) : PoolState :=
  let pool := s.pools w
  let rest := fiberToReturn.elim s.inUse s.inUse.erase
  if pool.capacity = 0 then
    { s with inUse := rest, returned := fiberToReturn.elim s.returned (insert · s.returned) }
  else if pool.size = pool.capacity then
    { s.setPc w (.freeing (pool.capacity / batchFraction) fiberToReturn) with inUse := rest }
  else { s.setPc w (.pushing fiberToReturn) with inUse := rest }

/-- `fiber_pool_lock` and what the parent has room for. -/
def lockToFree (s : PoolState) (w batch : ℕ) (held : Option PoolFiber) : PoolState :=
  let toParent := if batch ≤ s.parent.room then batch else s.parent.room
  { s.setPc w (.toParent 0 toParent batch held) with mutexOwner := some w }

/-- `parent->fibers[parent->size++] = pool->fibers[--pool->size]`. -/
def giveToParent (s : PoolState) (w : ℕ) : PoolState :=
  let pool := s.pools w
  { s.setPool w pool.pop with
    parent := s.parent.push (pool.fibers pool.top)
    accesses := (pool.top, pool.capacity) :: (s.parent.size, s.parent.capacity) :: s.accesses }

/-- The statistics of the parent, and `fiber_pool_unlock`. -/
def unlockFreed (s : PoolState) (w n batch : ℕ) (held : Option PoolFiber) : PoolState :=
  { s.setPc w (.toSystem n batch held) with
    parent := (s.parent.addInUse (-n)).noteFree
    mutexOwner := none }

/-- `cilk_fiber_deallocate(pool->fibers[--pool->size])`. -/
def giveToSystem (s : PoolState) (w : ℕ) : PoolState :=
  let pool := s.pools w
  { s.setPool w pool.pop with
    returned := (pool.fibers pool.top).elim s.returned (insert · s.returned)
    accesses := (pool.top, pool.capacity) :: s.accesses }

/-- The rest of `cilk_fiber_deallocate_to_pool`. -/
def pushFiber (s : PoolState) (w : ℕ) (held : Option PoolFiber) : PoolState :=
  match held with
  | none => s.setPc w .idle
  | some fiber =>
    let pool := s.pools w
    { (s.setPool w ((pool.push (some fiber)).addInUse (-1)).noteFree).setPc w .idle with
      accesses := (pool.size, pool.capacity) :: s.accesses }

end PoolState

inductive PoolStep : PoolState → PoolState → Prop
  | perWorkerInit {s : PoolState} (w : ℕ) (hpc : s.pc w = .uninit) : PoolStep s (s.perWorkerInit w)
  -- `fiber_pool_allocate_batch`
  | lockToAllocate {s : PoolState} (w : ℕ) {batch : ℕ} {caller : BatchCaller}
      (hpc : s.pc w = .allocating batch caller) (hfree : s.mutexOwner = none) :
      PoolStep s (s.lockToAllocate w batch caller)
  | takeFromParent {s : PoolState} (w : ℕ) {i n batch : ℕ} {caller : BatchCaller}
      (hpc : s.pc w = .fromParent i n batch caller) (hi : i < n) :
      PoolStep s ((s.takeFromParent w).setPc w (.fromParent (i + 1) n batch caller))
  | unlockAllocated {s : PoolState} (w : ℕ) {i n batch : ℕ} {caller : BatchCaller}
      (hpc : s.pc w = .fromParent i n batch caller) (hi : ¬ i < n) :
      PoolStep s (s.unlockAllocated w n batch caller)
  | takeFromSystem {s : PoolState} (w : ℕ) {i batch : ℕ} {caller : BatchCaller}
      (hpc : s.pc w = .fromSystem i batch caller) (hi : i < batch) :
      PoolStep s ((s.takeFromSystem w).setPc w (.fromSystem (i + 1) batch caller))
  | batchAllocated {s : PoolState} (w : ℕ) {i batch : ℕ} {caller : BatchCaller}
      (hpc : s.pc w = .fromSystem i batch caller) (hi : ¬ i < batch) :
      PoolStep s ((s.setPool w (s.pools w).noteFree).setPc w caller.after)
  -- `cilk_fiber_allocate_from_pool`
  | allocateFromPool {s : PoolState} (w : ℕ) (hpc : s.pc w = .idle) :
      PoolStep s (s.allocateFromPool w)
  | popFiber {s : PoolState} (w : ℕ) (hpc : s.pc w = .popping) : PoolStep s (s.popFiber w)
  -- `cilk_fiber_deallocate_to_pool`, for a null pointer or a fiber that is in use
  | deallocateToPool {s : PoolState} (w : ℕ) (fiberToReturn : Option PoolFiber)
      (hpc : s.pc w = .idle) (hin : ∀ fiber ∈ fiberToReturn, fiber ∈ s.inUse) :
      PoolStep s (s.deallocateToPool w fiberToReturn)
  | pushFiber {s : PoolState} (w : ℕ) {held : Option PoolFiber} (hpc : s.pc w = .pushing held) :
      PoolStep s (s.pushFiber w held)
  -- `fiber_pool_free_batch`
  | lockToFree {s : PoolState} (w : ℕ) {batch : ℕ} {held : Option PoolFiber}
      (hpc : s.pc w = .freeing batch held) (hfree : s.mutexOwner = none) :
      PoolStep s (s.lockToFree w batch held)
  | giveToParent {s : PoolState} (w : ℕ) {i n batch : ℕ} {held : Option PoolFiber}
      (hpc : s.pc w = .toParent i n batch held) (hi : i < n) :
      PoolStep s ((s.giveToParent w).setPc w (.toParent (i + 1) n batch held))
  | unlockFreed {s : PoolState} (w : ℕ) {i n batch : ℕ} {held : Option PoolFiber}
      (hpc : s.pc w = .toParent i n batch held) (hi : ¬ i < n) :
      PoolStep s (s.unlockFreed w n batch held)
  | giveToSystem {s : PoolState} (w : ℕ) {i batch : ℕ} {held : Option PoolFiber}
      (hpc : s.pc w = .toSystem i batch held) (hi : i < batch) :
      PoolStep s ((s.giveToSystem w).setPc w (.toSystem (i + 1) batch held))
  | batchFreed {s : PoolState} (w : ℕ) {i batch : ℕ} {held : Option PoolFiber}
      (hpc : s.pc w = .toSystem i batch held) (hi : ¬ i < batch) :
      PoolStep s (s.setPc w (.pushing held))

/-- The places where a fiber can be. -/
inductive FiberPlace where
  | inUse
  /-- On its way back to a pool. -/
  | held (w : ℕ)
  | parentSlot (i : ℕ)
  | slot (w i : ℕ)
  | returned
deriving DecidableEq

def PoolState.At (s : PoolState) (fiber : PoolFiber) : FiberPlace → Prop
  | .inUse => fiber ∈ s.inUse
  | .held w => (s.pc w).held = some fiber
  | .parentSlot i => i < s.parent.size ∧ s.parent.fibers i = some fiber
  | .slot w i => i < (s.pools w).size ∧ (s.pools w).fibers i = some fiber
  | .returned => fiber ∈ s.returned

end Cheetah
