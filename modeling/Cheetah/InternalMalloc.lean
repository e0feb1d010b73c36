import Mathlib.Algebra.BigOperators.Group.Finset.Basic
import Mathlib.Data.Int.Notation
import Cheetah.Runs

/-! The internal allocator of `internal-malloc.cpp`: free lists of each worker, global free lists,
and a pool that is cut into blocks. A call runs without other calls in between; only a batch takes
the global lock. -/
namespace Cheetah

def internalMallocChunkSize : ℕ := 32 * 1024

def memListSize : ℕ := 8

def numBuckets : ℕ := 7

def bucketSizes : List ℕ := [32, 64, 128, 256, 512, 1024, 2048]

def bucketCapacities : List ℕ := [256, 128, 64, 64, 32, 16, 8]

/-- `bucket_to_size`. -/
def bucketToSize (whichBucket : ℕ) : ℕ := bucketSizes.getD whichBucket 0

def bucketCapacity (whichBucket : ℕ) : ℕ := bucketCapacities.getD whichBucket 0

def sizeThresh : ℕ := bucketToSize (numBuckets - 1)

/-- `size_to_bucket`; infinity is `none`. -/
def sizeToBucket (size : ℕ) : Option ℕ :=
  (List.range numBuckets).find? fun i => size ≤ bucketToSize i

inductive ImTag where
  | unclassified
  | closure
  | fiber
  | reducerMap
deriving DecidableEq

structure ImBucket where
  freeList : List ℕ
  freeListSize : ℕ
  freeListLimit : ℕ
  allocated : ℤ
  maxAllocated : ℤ
  wasted : ℤ
deriving DecidableEq

structure ImDesc where
  buckets : ℕ → ImBucket
  used : ℤ
  numMalloc : ImTag → ℤ

/-- `memListIndex` is -1 before the first chunk; `chunks` counts the calls of the system. -/
structure GlobalImPool where
  memBegin : ℕ
  memEnd : ℕ
  memList : ℕ → ℕ
  memListIndex : ℤ
  memListSize : ℕ
  allocated : ℕ
  wasted : ℕ
  chunks : ℕ

namespace ImBucket

/-- `add_to_free_list`. -/
def add (b : ImBucket) (p : ℕ) : ImBucket :=
  { b with freeList := p :: b.freeList, freeListSize := b.freeListSize + 1 }

def dropFirst (b : ImBucket) : ImBucket :=
  { b with freeList := b.freeList.tail, freeListSize := b.freeListSize - 1 }

/-- `remove_from_free_list`. -/
def remove (b : ImBucket) : Option (ℕ × ImBucket) :=
  match b.freeList with
  | [] => none
  | mem :: _ => some (mem, b.dropFirst)

def addAllocated (b : ImBucket) (n : ℤ) : ImBucket := { b with allocated := b.allocated + n }

def addWasted (b : ImBucket) (wasted : ℤ) : ImBucket := { b with wasted := b.wasted + wasted }

def noteAllocated (b : ImBucket) : ImBucket :=
  { b with maxAllocated := max b.maxAllocated b.allocated }

end ImBucket

namespace ImDesc

def setBucket (d : ImDesc) (whichBucket : ℕ) (b : ImBucket) : ImDesc :=
  { d with buckets := Function.update d.buckets whichBucket b }

def addUsed (d : ImDesc) (n : ℤ) : ImDesc := { d with used := d.used + n }

def countCalls (d : ImDesc) (tag : ImTag) (calls : ℤ) : ImDesc :=
  { d with numMalloc := Function.update d.numMalloc tag (d.numMalloc tag + calls) }

/-- The bytes that are used and wasted, and the calls with the tag, are counted. -/
def count (d : ImDesc) (whichBucket : ℕ) (used wasted : ℤ) (tag : ImTag) (calls : ℤ) : ImDesc :=
  ((d.setBucket whichBucket ((d.buckets whichBucket).addWasted wasted)).addUsed used).countCalls
    tag calls

/-- `init_im_buckets`. -/
def init : ImDesc where
  buckets := fun i => ⟨[], 0, bucketCapacity i, 0, 0, 0⟩
  used := 0
  numMalloc := fun _ => 0

def freeBytes (d : ImDesc) : ℤ :=
  ∑ i ∈ Finset.range numBuckets, ((d.buckets i).freeListSize * bucketToSize i : ℕ)

def wastedBytes (d : ImDesc) : ℤ := ∑ i ∈ Finset.range numBuckets, (d.buckets i).wasted

end ImDesc

/-- A block that was handed out, with the size and the tag of the call. -/
structure Handed where
  addr : ℕ
  size : ℕ
  tag : ImTag
deriving DecidableEq

/-- `handed` are the blocks of the allocator that were not freed, and `large` those that came straight
from the system. -/
structure MallocState where
  nworkers : ℕ
  pool : GlobalImPool
  desc : ImDesc
  workers : ℕ → ImDesc
  handed : Multiset Handed
  large : Multiset Handed

namespace MallocState

def setWorker (s : MallocState) (w : ℕ) (d : ImDesc) : MallocState :=
  { s with workers := Function.update s.workers w d }

def setBucket (s : MallocState) (w whichBucket : ℕ) (b : ImBucket) : MallocState :=
  s.setWorker w ((s.workers w).setBucket whichBucket b)

def bucket (s : MallocState) (w whichBucket : ℕ) : ImBucket := (s.workers w).buckets whichBucket

/-- `cilk_internal_malloc_global_init` and `cilk_internal_malloc_per_worker_init`. -/
def initial (nworkers : ℕ) : MallocState where
  nworkers := nworkers
  pool := ⟨0, 0, fun _ => 0, -1, memListSize, 0, 0, 0⟩
  desc := .init
  workers := fun _ => .init
  handed := 0
  large := 0

end MallocState

/-- `extend_global_pool`, where the system answers the n-th call with a chunk at `system n`. -/
def GlobalImPool.extend (system : ℕ → ℕ) (pool : GlobalImPool) : GlobalImPool :=
  let memBegin := system pool.chunks
  let memListIndex := pool.memListIndex + 1
  let grows := memListIndex ≥ pool.memListSize
  let newListSize := if grows then 2 * pool.memListSize else pool.memListSize
  let memList i := if grows ∧ pool.memListSize ≤ i ∧ i < newListSize then 0 else pool.memList i
  { pool with
    memBegin := memBegin
    memEnd := memBegin + internalMallocChunkSize
    allocated := pool.allocated + internalMallocChunkSize
    memListIndex := memListIndex
    memListSize := newListSize
    memList := Function.update memList memListIndex.toNat memBegin
    chunks := pool.chunks + 1 }

/-- The part of `global_im_alloc` that cuts a block from the pool. -/
def GlobalImPool.cut (system : ℕ → ℕ) (pool : GlobalImPool) (size : ℕ) : ℕ × GlobalImPool :=
  let pool :=
    if pool.memBegin + size > pool.memEnd then
      { pool with wasted := pool.wasted + (pool.memEnd - pool.memBegin) }.extend system
    else pool
  (pool.memBegin, { pool with memBegin := pool.memBegin + size })

namespace MallocState

/-- `global_im_alloc`. -/
def globalImAlloc (system : ℕ → ℕ) (s : MallocState) (size whichBucket : ℕ) : ℕ × MallocState :=
  let desc := s.desc.addUsed size
  match (desc.buckets whichBucket).remove with
  | some (mem, b) => (mem, { s with desc := desc.setBucket whichBucket b })
  | none =>
    let (mem, pool) := s.pool.cut system size
    (mem, { s with desc := desc, pool := pool })

/-- An iteration of the loop of `im_allocate_batch`. -/
def allocateOne (system : ℕ → ℕ) (w size whichBucket : ℕ) (s : MallocState) : MallocState :=
  let (p, s) := s.globalImAlloc system size whichBucket
  s.setBucket w whichBucket ((s.bucket w whichBucket).add p)

/-- `im_allocate_batch`. -/
def imAllocateBatch (system : ℕ → ℕ) (s : MallocState) (w size whichBucket : ℕ) : MallocState :=
  let batchSize := bucketCapacity whichBucket / 2
  let s := (allocateOne system w size whichBucket)^[batchSize] s
  s.setBucket w whichBucket ((s.bucket w whichBucket).addAllocated batchSize).noteAllocated

/-- The loop of `im_free_batch` with `n` iterations to go. -/
def freeLoop (w size whichBucket : ℕ) : ℕ → MallocState → MallocState
  | 0, s => s
  | n + 1, s =>
    match (s.bucket w whichBucket).remove with
    | none => s
    | some (mem, b) =>
      let desc := s.desc.setBucket whichBucket ((s.desc.buckets whichBucket).add mem)
      let s := { s with desc := desc.addUsed (-size) }
      freeLoop w size whichBucket n (s.setBucket w whichBucket (b.addAllocated (-1)))

/-- `im_free_batch`. -/
def imFreeBatch (s : MallocState) (w size whichBucket : ℕ) : MallocState :=
  freeLoop w size whichBucket (bucketCapacity whichBucket / 2) s

/-- `cilk_internal_malloc`, where `malloc_from_system` answers with the block `mem` when the size has
no bucket. The assertion that there is a block after a batch may fail. -/
def cilkInternalMalloc (system : ℕ → ℕ) (s : MallocState) (w size : ℕ) (tag : ImTag) (mem : ℕ) :
    Option (ℕ × MallocState) :=
  match sizeToBucket size with
  | none => some (mem, s)
  | some whichBucket =>
    let csize := bucketToSize whichBucket
    let s := s.setWorker w ((s.workers w).count whichBucket size (csize - size) tag 1)
    let s := if (s.bucket w whichBucket).freeList = [] then
      s.imAllocateBatch system w csize whichBucket else s
    (s.bucket w whichBucket).remove.map fun res => (res.1, s.setBucket w whichBucket res.2)

/-- The loop of `cilk_internal_free`, for `fuel` evaluations of its condition. -/
def trim (w size whichBucket : ℕ) : ℕ → MallocState → MallocState
  | 0, s => s
  | fuel + 1, s =>
    if (s.bucket w whichBucket).freeListSize > (s.bucket w whichBucket).freeListLimit then
      trim w size whichBucket fuel (s.imFreeBatch w size whichBucket)
    else s

/-- `cilk_internal_free`; `free_to_system` takes the block when it is too large for a bucket. -/
def cilkInternalFree (s : MallocState) (w p size : ℕ) (tag : ImTag) : Option MallocState :=
  if size > sizeThresh then some s
  else (sizeToBucket size).map fun whichBucket =>
    let csize := bucketToSize whichBucket
    let s := s.setWorker w ((s.workers w).count whichBucket (-size) (-(csize - size)) tag (-1))
    let s := s.setBucket w whichBucket ((s.bucket w whichBucket).add p)
    s.trim w csize whichBucket ((s.bucket w whichBucket).freeListSize + 1)

/-- `cilk_internal_free_global`, for when the workers have terminated. -/
def cilkInternalFreeGlobal (s : MallocState) (p size : ℕ) (tag : ImTag) : Option MallocState :=
  (sizeToBucket size).map fun whichBucket =>
    let desc := s.desc.setBucket whichBucket ((s.desc.buckets whichBucket).add p)
    let desc := desc.countCalls tag (-1)
    { s with desc := desc.addUsed (-bucketToSize whichBucket) }

/-- The loop of `cilk_internal_malloc_per_worker_terminate` over a free list, for `fuel` evaluations
of its condition. -/
def drain (w whichBucket : ℕ) : ℕ → MallocState → MallocState
  | 0, s => s
  | fuel + 1, s =>
    if (s.bucket w whichBucket).freeList = [] then s
    else drain w whichBucket fuel (s.imFreeBatch w (bucketToSize whichBucket) whichBucket)

def drainAll (w : ℕ) (buckets : List ℕ) (s : MallocState) : MallocState :=
  buckets.foldl (fun s i => s.drain w i ((s.bucket w i).freeList.length + 1)) s

/-- The calls that a worker has counted are moved to the global counts. -/
def moveCalls (w : ℕ) (s : MallocState) : MallocState :=
  { s.setWorker w { s.workers w with numMalloc := fun _ => 0 } with
    desc := { s.desc with
      numMalloc := fun tag => s.desc.numMalloc tag + (s.workers w).numMalloc tag } }

/-- `cilk_internal_malloc_per_worker_terminate`. -/
def perWorkerTerminate (w : ℕ) (s : MallocState) : MallocState :=
  (s.drainAll w (List.range numBuckets)).moveCalls w

/-- `workers_terminate`, from worker `n - 1` down to worker 0, with the states in which
`internal_malloc_global_check` may be called. -/
def workersTerminate : ℕ → MallocState → List MallocState × MallocState
  | 0, s => ([], s)
  | w + 1, s =>
    let t := s.perWorkerTerminate w
    let (checks, u) := workersTerminate w t
    (s :: t :: checks, u)

/-- `__cilkrts_shutdown`, as far as it is about this memory: the root closure is destroyed, the
workers terminate, and `cilk_internal_malloc_global_terminate` checks once more. -/
def shutdown (s : MallocState) (root : Handed) : Option (List MallocState × MallocState) :=
  (s.cilkInternalFreeGlobal root.addr root.size root.tag).map fun t =>
    let (checks, u) := workersTerminate t.nworkers { t with handed := t.handed.erase root }
    (checks ++ [u], u)

/-- The sum in `workers_used_and_free`. -/
def workersUsedAndFree (s : MallocState) : ℤ :=
  ∑ w ∈ Finset.range s.nworkers,
    ((s.workers w).used + (s.workers w).freeBytes + (s.workers w).wastedBytes)

def available (s : MallocState) : ℕ := s.pool.memEnd - s.pool.memBegin

/-- The two equations of `internal_malloc_global_check`. -/
def UsedEq (s : MallocState) : Prop := s.desc.used = s.workersUsedAndFree

def AllocatedEq (s : MallocState) : Prop :=
  s.desc.used + s.desc.freeBytes + s.available = s.pool.allocated

/-- The total that `internal_malloc_global_check` sums up for a tag. -/
def totalMalloc (s : MallocState) (tag : ImTag) : ℤ :=
  s.desc.numMalloc tag + ∑ w ∈ Finset.range s.nworkers, (s.workers w).numMalloc tag

end MallocState

/-- The calls of the workers. A block is freed by any worker, with the size and the tag that it was
allocated with. -/
inductive MallocStep (system : ℕ → ℕ) : MallocState → MallocState → Prop
  | malloc {s t : MallocState} (w size : ℕ) (tag : ImTag) (any : ℕ) {mem : ℕ}
      (hw : w < s.nworkers) (hsize : size ≤ sizeThresh)
      (hmalloc : s.cilkInternalMalloc system w size tag any = some (mem, t)) :
      MallocStep system s { t with handed := ⟨mem, size, tag⟩ ::ₘ t.handed }
  | mallocLarge {s t : MallocState} (w size : ℕ) (tag : ImTag) (any : ℕ) {mem : ℕ}
      (hw : w < s.nworkers) (hsize : sizeThresh < size)
      (hmalloc : s.cilkInternalMalloc system w size tag any = some (mem, t)) :
      MallocStep system s { t with large := ⟨mem, size, tag⟩ ::ₘ t.large }
  | free {s t : MallocState} (w : ℕ) {b : Handed} (hw : w < s.nworkers) (hb : b ∈ s.handed)
      (hfree : s.cilkInternalFree w b.addr b.size b.tag = some t) :
      MallocStep system s { t with handed := t.handed.erase b }
  | freeLarge {s t : MallocState} (w : ℕ) {b : Handed} (hw : w < s.nworkers) (hb : b ∈ s.large)
      (hsize : sizeThresh < b.size) (hfree : s.cilkInternalFree w b.addr b.size b.tag = some t) :
      MallocStep system s { t with large := t.large.erase b }

end Cheetah
