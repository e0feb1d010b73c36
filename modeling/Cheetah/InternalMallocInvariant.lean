import Mathlib.Algebra.BigOperators.Ring.Finset
import Mathlib.Algebra.Order.BigOperators.Group.Finset
import Mathlib.Data.Multiset.Count
import Mathlib.Tactic.Abel
import Cheetah.InternalMalloc

/-! The blocks of the allocator are disjoint, none is lost, and the bytes add up. -/
namespace Cheetah

section Sums

variable {M : Type*} [AddCommMonoid M] {n i : ℕ} {f g : ℕ → M}

/-- A sum of which one term changes. -/
theorem sum_range_change (hi : i < n) (h : ∀ k, k ≠ i → f k = g k) :
    ∑ k ∈ Finset.range n, f k + g i = ∑ k ∈ Finset.range n, g k + f i := by
  have hmem : i ∈ Finset.range n := Finset.mem_range.mpr hi
  have hrest : ∑ k ∈ (Finset.range n).erase i, f k = ∑ k ∈ (Finset.range n).erase i, g k :=
    Finset.sum_congr rfl fun k hk => h k (Finset.ne_of_mem_erase hk)
  rw [← Finset.sum_erase_add _ _ hmem, ← Finset.sum_erase_add _ g hmem, hrest, add_assoc,
    add_assoc, add_comm (f i)]

end Sums

section Buckets

variable {whichBucket size : ℕ}

theorem bucket_cases (h : whichBucket < numBuckets) : whichBucket = 0 ∨ whichBucket = 1 ∨
    whichBucket = 2 ∨ whichBucket = 3 ∨ whichBucket = 4 ∨ whichBucket = 5 ∨ whichBucket = 6 := by
  unfold numBuckets at h
  omega

/-- A batch is one or two pages of blocks. -/
theorem batch_bytes (h : whichBucket < numBuckets) :
    4096 ∣ bucketCapacity whichBucket / 2 * bucketToSize whichBucket := by
  rcases bucket_cases h with rfl | rfl | rfl | rfl | rfl | rfl | rfl <;> decide

theorem bucketToSize_dvd (h : whichBucket < numBuckets) : bucketToSize whichBucket ∣ 4096 := by
  rcases bucket_cases h with rfl | rfl | rfl | rfl | rfl | rfl | rfl <;> decide

theorem bucketToSize_pos (h : whichBucket < numBuckets) : 0 < bucketToSize whichBucket := by
  rcases bucket_cases h with rfl | rfl | rfl | rfl | rfl | rfl | rfl <;> decide

theorem bucketCapacity_pos (h : whichBucket < numBuckets) : 2 ≤ bucketCapacity whichBucket := by
  rcases bucket_cases h with rfl | rfl | rfl | rfl | rfl | rfl | rfl <;> decide

theorem sizeToBucket_some (h : sizeToBucket size = some whichBucket) :
    whichBucket < numBuckets ∧ size ≤ bucketToSize whichBucket := by
  unfold sizeToBucket at h
  have hle := List.find?_some h
  have hmem := List.mem_of_find?_eq_some h
  exact ⟨List.mem_range.mp hmem, by simpa using hle⟩

theorem sizeToBucket_isSome (h : size ≤ sizeThresh) :
    ∃ whichBucket, sizeToBucket size = some whichBucket := by
  rw [← Option.isSome_iff_exists, sizeToBucket, List.find?_isSome]
  exact ⟨numBuckets - 1, by decide, decide_eq_true h⟩

theorem bucketToSize_le (h : whichBucket < numBuckets) :
    bucketToSize whichBucket ≤ sizeThresh := by
  rcases bucket_cases h with rfl | rfl | rfl | rfl | rfl | rfl | rfl <;> decide

theorem sizeToBucket_le (h : sizeToBucket size = some whichBucket) : size ≤ sizeThresh :=
  (sizeToBucket_some h).2.trans (bucketToSize_le (sizeToBucket_some h).1)

theorem sizeToBucket_none (h : sizeThresh < size) : sizeToBucket size = none := by
  cases hsize : sizeToBucket size with
  | none => rfl
  | some whichBucket => exact absurd (sizeToBucket_le hsize) (Nat.not_le.mpr h)

end Buckets

section Bytes

variable {d : ImDesc} {b : ImBucket} {whichBucket : ℕ}

/-- The bytes of a worker: used, on free lists and wasted. -/
def ImDesc.total (d : ImDesc) : ℤ := d.used + d.freeBytes + d.wastedBytes

theorem ImDesc.setBucket_of_ne {i : ℕ} (h : i ≠ whichBucket) :
    (d.setBucket whichBucket b).buckets i = d.buckets i := Function.update_of_ne h _ _

@[simp] theorem ImDesc.setBucket_self : (d.setBucket whichBucket b).buckets whichBucket = b :=
  Function.update_self _ _ _

theorem ImDesc.freeBytes_setBucket (h : whichBucket < numBuckets) :
    (d.setBucket whichBucket b).freeBytes +
      ((d.buckets whichBucket).freeListSize * bucketToSize whichBucket : ℕ) =
    d.freeBytes + (b.freeListSize * bucketToSize whichBucket : ℕ) := by
  have hsum := sum_range_change (n := numBuckets) (i := whichBucket)
    (f := fun i => (((d.setBucket whichBucket b).buckets i).freeListSize * bucketToSize i : ℤ))
    (g := fun i => ((d.buckets i).freeListSize * bucketToSize i : ℤ)) h
    (fun k hk => by rw [ImDesc.setBucket_of_ne hk])
  simp only [setBucket_self] at hsum
  unfold freeBytes
  push_cast
  exact hsum

theorem ImDesc.wastedBytes_setBucket (h : whichBucket < numBuckets) :
    (d.setBucket whichBucket b).wastedBytes + (d.buckets whichBucket).wasted =
      d.wastedBytes + b.wasted := by
  have hsum := sum_range_change (n := numBuckets) (i := whichBucket)
    (f := fun i => ((d.setBucket whichBucket b).buckets i).wasted)
    (g := fun i => (d.buckets i).wasted) h
    (fun k hk => by rw [ImDesc.setBucket_of_ne hk])
  simp only [setBucket_self] at hsum
  exact hsum

/-- What a worker uses and wastes more is what its total gains. -/
theorem ImDesc.total_count (h : whichBucket < numBuckets) (used wasted : ℤ) (tag : ImTag)
    (calls : ℤ) : (d.count whichBucket used wasted tag calls).total = d.total + used + wasted := by
  have hfree := freeBytes_setBucket (d := d) (b := (d.buckets whichBucket).addWasted wasted) h
  have hwasted := wastedBytes_setBucket (d := d) (b := (d.buckets whichBucket).addWasted wasted) h
  have hf : (d.count whichBucket used wasted tag calls).freeBytes =
      (d.setBucket whichBucket ((d.buckets whichBucket).addWasted wasted)).freeBytes := rfl
  have hw : (d.count whichBucket used wasted tag calls).wastedBytes =
      (d.setBucket whichBucket ((d.buckets whichBucket).addWasted wasted)).wastedBytes := rfl
  have hu : (d.count whichBucket used wasted tag calls).used = d.used + used := rfl
  have hsize : ((d.buckets whichBucket).addWasted wasted).freeListSize =
      (d.buckets whichBucket).freeListSize := rfl
  have hnew : ((d.buckets whichBucket).addWasted wasted).wasted =
      (d.buckets whichBucket).wasted + wasted := rfl
  unfold total
  rw [hu, hf, hw]
  rw [hsize] at hfree
  rw [hnew] at hwasted
  omega

end Bytes

section Pool

variable {system : ℕ → ℕ} {pool : GlobalImPool} {size : ℕ}

/-- The number of chunks, among the first `n`, that have the address. -/
def chunkCovers (system : ℕ → ℕ) (n a : ℕ) : ℕ :=
  ∑ k ∈ Finset.range n, if system k ≤ a ∧ a < system k + internalMallocChunkSize then 1 else 0

namespace GlobalImPool

/-- Whether the address is in the unused tail of the current chunk. -/
def tailCovers (pool : GlobalImPool) (a : ℕ) : ℕ :=
  if pool.memBegin ≤ a ∧ a < pool.memEnd then 1 else 0

/-- The chunks are recorded in the order in which they were obtained, and the tail is the end of the
last one. -/
structure Inv (system : ℕ → ℕ) (pool : GlobalImPool) : Prop where
  le : pool.memBegin ≤ pool.memEnd
  wasted : pool.wasted = 0
  allocated : pool.allocated = internalMallocChunkSize * pool.chunks
  tail : pool.memBegin = pool.memEnd ∨ ∃ k, pool.chunks = k + 1 ∧ system k ≤ pool.memBegin ∧
    pool.memEnd = system k + internalMallocChunkSize
  index : pool.memListIndex = pool.chunks - 1
  listSize : 0 < pool.memListSize ∧ pool.chunks ≤ pool.memListSize
  recorded : ∀ i < pool.memListSize, pool.memList i = if i < pool.chunks then system i else 0

/-- A chunk is added where nothing is left of the last one. -/
theorem Inv.extend (hi : Inv system pool) : Inv system (pool.extend system) := by
  have hindex := hi.index
  obtain ⟨hpos, hle⟩ := hi.listSize
  have hnat : (pool.memListIndex + 1).toNat = pool.chunks := by rw [hindex]; omega
  have hgrows : pool.memListIndex + 1 ≥ pool.memListSize ↔ pool.memListSize = pool.chunks := by
    rw [hindex]
    omega
  refine ⟨Nat.le_add_right _ _, hi.wasted, ?_, .inr ⟨pool.chunks, rfl, Nat.le_refl _, rfl⟩, ?_, ?_,
    fun i hlt => ?_⟩
  · simp only [GlobalImPool.extend, hi.allocated, Nat.mul_succ]
  · simp only [GlobalImPool.extend, hindex]
    omega
  · simp only [GlobalImPool.extend, hgrows]
    split_ifs <;> omega
  · simp only [GlobalImPool.extend, hgrows, hnat] at hlt ⊢
    by_cases hself : i = pool.chunks
    · rw [hself, Function.update_self, if_pos (Nat.lt_succ_self _)]
    · rw [Function.update_of_ne hself]
      by_cases hold : i < pool.memListSize
      · rw [if_neg (by omega), hi.recorded i hold]
        by_cases hic : i < pool.chunks
        · rw [if_pos hic, if_pos (by omega)]
        · rw [if_neg hic, if_neg (by omega)]
      · have hfull : pool.memListSize = pool.chunks := by
          by_contra hne
          rw [if_neg hne] at hlt
          exact hold hlt
        rw [if_pos hfull] at hlt
        rw [if_pos ⟨hfull, by omega, by rw [if_pos hfull]; exact hlt⟩, if_neg (by omega)]

/-- What is true of a block that was cut from the pool, and of the rest of the pool. -/
structure Cuts (system : ℕ → ℕ) (pool : GlobalImPool) (size mem : ℕ) (pool' : GlobalImPool) :
    Prop where
  inv : Inv system pool'
  dvd : size ∣ pool'.memEnd - pool'.memBegin
  bytes : pool'.allocated + (pool.memEnd - pool.memBegin) =
    pool.allocated + (pool'.memEnd - pool'.memBegin) + size
  chunks_le : pool.chunks ≤ pool'.chunks
  inside : ∃ k < pool'.chunks, system k ≤ mem ∧ mem + size ≤ system k + internalMallocChunkSize
  covers : ∀ a, (if mem ≤ a ∧ a < mem + size then 1 else 0) + pool'.tailCovers a +
    chunkCovers system pool.chunks a = pool.tailCovers a + chunkCovers system pool'.chunks a

/-- A block is cut from a tail with room for it. -/
theorem Inv.cuts_tail (hi : Inv system pool) (hpos : 0 < size)
    (hdvd : size ∣ pool.memEnd - pool.memBegin) (hroom : pool.memBegin + size ≤ pool.memEnd) :
    Cuts system pool size pool.memBegin { pool with memBegin := pool.memBegin + size } := by
  obtain ⟨k, hk, hsys, hend⟩ := hi.tail.resolve_left (by omega)
  refine ⟨⟨hroom, hi.wasted, hi.allocated, .inr ⟨k, hk, by dsimp only; omega, hend⟩, hi.index,
    hi.listSize, hi.recorded⟩, ?_, ?_, Nat.le_refl _,
    ⟨k, by dsimp only; omega, hsys, by omega⟩, fun a => ?_⟩
  · dsimp only
    rw [Nat.sub_add_eq]
    exact Nat.dvd_sub hdvd (Nat.dvd_refl _)
  · dsimp only
    omega
  · unfold tailCovers
    dsimp only
    split_ifs <;> omega

/-- Since the tail is in whole blocks, nothing of it is left when a block does not fit. -/
theorem Inv.cut (hi : Inv system pool) (hpos : 0 < size) (hchunk : size ∣ internalMallocChunkSize)
    (hdvd : size ∣ pool.memEnd - pool.memBegin) :
    Cuts system pool size (pool.cut system size).1 (pool.cut system size).2 := by
  unfold GlobalImPool.cut
  by_cases hroom : pool.memBegin + size ≤ pool.memEnd
  · rw [if_neg (by omega)]
    exact hi.cuts_tail hpos hdvd hroom
  · rw [if_pos (by omega)]
    have hempty : pool.memEnd - pool.memBegin = 0 := Nat.eq_zero_of_dvd_of_lt hdvd (by omega)
    have hle := hi.le
    have hsame : { pool with wasted := pool.wasted + (pool.memEnd - pool.memBegin) } = pool := by
      rw [hempty]
      rfl
    rw [hsame]
    have hext := hi.extend
    have hnew : (pool.extend system).memBegin = system pool.chunks := rfl
    have hend : (pool.extend system).memEnd = system pool.chunks + internalMallocChunkSize := rfl
    have hnum : (pool.extend system).chunks = pool.chunks + 1 := rfl
    have hbytes : (pool.extend system).allocated = pool.allocated + internalMallocChunkSize := rfl
    have hcut := hext.cuts_tail hpos (by rw [hnew, hend, Nat.add_sub_cancel_left]; exact hchunk)
      (by rw [hnew, hend]; exact Nat.add_le_add_left (Nat.le_of_dvd (by decide) hchunk) _)
    refine ⟨hcut.inv, hcut.dvd, ?_, ?_, hcut.inside, fun a => ?_⟩
    · have hb := hcut.bytes
      rw [hnew, hend, Nat.add_sub_cancel_left, hbytes] at hb
      dsimp only at hb ⊢
      rw [hbytes]
      omega
    · exact Nat.le_succ_of_le (Nat.le_refl _)
    · have hc := hcut.covers a
      have hold : pool.tailCovers a = 0 := if_neg (by omega)
      have hchunks : chunkCovers system (pool.chunks + 1) a = chunkCovers system pool.chunks a +
          if system pool.chunks ≤ a ∧ a < system pool.chunks + internalMallocChunkSize
            then 1 else 0 := Finset.sum_range_succ _ _
      have htail : (pool.extend system).tailCovers a =
          if system pool.chunks ≤ a ∧ a < system pool.chunks + internalMallocChunkSize
            then 1 else 0 := rfl
      dsimp only at hc ⊢
      rw [hnum, hchunks, htail] at hc
      rw [hnum, hchunks, hold]
      omega

end GlobalImPool

end Pool

/-- The blocks of a free list, with their bucket. -/
def ImDesc.blocks (d : ImDesc) : Multiset (ℕ × ℕ) :=
  ∑ i ∈ Finset.range numBuckets, ((d.buckets i).freeList : Multiset ℕ).map (i, ·)

def Handed.block (b : Handed) : ℕ × ℕ := ((sizeToBucket b.size).getD 0, b.addr)

namespace MallocState

/-- The blocks that were cut: those handed out, and those on the free lists. -/
def blocks (s : MallocState) : Multiset (ℕ × ℕ) :=
  s.handed.map Handed.block + s.desc.blocks +
    ∑ w ∈ Finset.range s.nworkers, (s.workers w).blocks

/-- The number of blocks that have the address. -/
def blockCovers (s : MallocState) (a : ℕ) : ℕ :=
  s.blocks.countP fun b => b.2 ≤ a ∧ a < b.2 + bucketToSize b.1

end MallocState

/-- Each byte of a chunk is in one block or in the tail of the pool. -/
structure BlockInv (system : ℕ → ℕ) (s : MallocState) : Prop where
  pool : s.pool.Inv system
  covers : ∀ a, s.blockCovers a + s.pool.tailCovers a = chunkCovers system s.pool.chunks a
  inside : ∀ b ∈ s.blocks, ∃ k < s.pool.chunks, system k ≤ b.2 ∧
    b.2 + bucketToSize b.1 ≤ system k + internalMallocChunkSize
  fits : ∀ b ∈ s.handed, ∃ whichBucket, sizeToBucket b.size = some whichBucket

/-- The free lists are counted, and the counters add up, but for the bytes of the call that is on its
way. -/
structure CountInv (extra : ℤ) (s : MallocState) : Prop where
  descSize : ∀ i, (s.desc.buckets i).freeListSize = (s.desc.buckets i).freeList.length
  size : ∀ w i, (s.bucket w i).freeListSize = (s.bucket w i).freeList.length
  limit : ∀ w i, (s.bucket w i).freeListLimit = bucketCapacity i
  usedEq : s.desc.used + extra = s.workersUsedAndFree
  allocatedEq : s.AllocatedEq

section Lists

variable {system : ℕ → ℕ} {s : MallocState} {d : ImDesc} {b : ImBucket} {w whichBucket : ℕ}
  {extra : ℤ}

theorem ImDesc.blocks_setBucket (h : whichBucket < numBuckets) :
    (d.setBucket whichBucket b).blocks +
      ((d.buckets whichBucket).freeList : Multiset ℕ).map (whichBucket, ·) =
    d.blocks + (b.freeList : Multiset ℕ).map (whichBucket, ·) := by
  have hsum := sum_range_change (n := numBuckets) (i := whichBucket)
    (f := fun i => (((d.setBucket whichBucket b).buckets i).freeList : Multiset ℕ).map (i, ·))
    (g := fun i => ((d.buckets i).freeList : Multiset ℕ).map (i, ·)) h
    (fun k hk => by rw [ImDesc.setBucket_of_ne hk])
  simp only [setBucket_self] at hsum
  exact hsum

theorem ImDesc.count_blocks (used wasted : ℤ) (tag : ImTag) (calls : ℤ) :
    (d.count whichBucket used wasted tag calls).blocks = d.blocks := by
  apply Finset.sum_congr rfl
  intro i _
  by_cases hi : i = whichBucket
  · rw [hi]
    simp [ImDesc.count, ImDesc.countCalls, ImDesc.setBucket, ImDesc.addUsed, ImBucket.addWasted]
  · simp [ImDesc.count, ImDesc.countCalls, ImDesc.setBucket, ImDesc.addUsed,
      Function.update_of_ne hi]

theorem blocks_setWorker (hw : w < s.nworkers) :
    (s.setWorker w d).blocks + (s.workers w).blocks = s.blocks + d.blocks := by
  have hsum := sum_range_change (n := s.nworkers) (i := w)
    (f := fun v => (Function.update s.workers w d v).blocks)
    (g := fun v => (s.workers v).blocks) hw
    (fun k hk => by rw [Function.update_of_ne hk])
  simp only [Function.update_self] at hsum
  unfold MallocState.blocks
  rw [add_assoc, add_assoc _ _ d.blocks, ← hsum]
  rfl

theorem total_setWorker (hw : w < s.nworkers) :
    (s.setWorker w d).workersUsedAndFree + (s.workers w).total =
      s.workersUsedAndFree + d.total := by
  have hsum := sum_range_change (n := s.nworkers) (i := w)
    (f := fun v => (Function.update s.workers w d v).total)
    (g := fun v => (s.workers v).total) hw
    (fun k hk => by rw [Function.update_of_ne hk])
  simp only [Function.update_self] at hsum
  exact hsum

theorem blocks_setBucket (hw : w < s.nworkers) (h : whichBucket < numBuckets) :
    (s.setBucket w whichBucket b).blocks +
      ((s.bucket w whichBucket).freeList : Multiset ℕ).map (whichBucket, ·) =
    s.blocks + (b.freeList : Multiset ℕ).map (whichBucket, ·) := by
  have hworker := blocks_setWorker (d := (s.workers w).setBucket whichBucket b) hw
  have hdesc := ImDesc.blocks_setBucket (d := s.workers w) (b := b) h
  apply add_right_cancel (b := (s.workers w).blocks)
  calc (s.setBucket w whichBucket b).blocks +
        ((s.bucket w whichBucket).freeList : Multiset ℕ).map (whichBucket, ·) + (s.workers w).blocks
      = (s.setBucket w whichBucket b).blocks + (s.workers w).blocks +
        ((s.bucket w whichBucket).freeList : Multiset ℕ).map (whichBucket, ·) := by abel
    _ = s.blocks + (((s.workers w).setBucket whichBucket b).blocks +
        ((s.bucket w whichBucket).freeList : Multiset ℕ).map (whichBucket, ·)) := by
      rw [← add_assoc]
      exact congrArg (· + _) hworker
    _ = s.blocks + (b.freeList : Multiset ℕ).map (whichBucket, ·) + (s.workers w).blocks := by
      rw [show ((s.bucket w whichBucket).freeList : Multiset ℕ) =
        (((s.workers w).buckets whichBucket).freeList : Multiset ℕ) from rfl, hdesc]
      abel

@[simp] theorem bucket_setBucket_self : (s.setBucket w whichBucket b).bucket w whichBucket = b := by
  simp [MallocState.bucket, MallocState.setBucket, MallocState.setWorker]

theorem bucket_setBucket_of_ne {v i : ℕ} (h : v ≠ w ∨ i ≠ whichBucket) :
    (s.setBucket w whichBucket b).bucket v i = s.bucket v i := by
  unfold MallocState.bucket MallocState.setBucket MallocState.setWorker
  by_cases hv : v = w
  · subst hv
    simp [ImDesc.setBucket, Function.update_of_ne (h.resolve_left (absurd rfl))]
  · simp [Function.update_of_ne hv]

/-- The total of a worker follows the bytes on its free list. -/
theorem used_setBucket (hw : w < s.nworkers) (h : whichBucket < numBuckets)
    (hwasted : b.wasted = (s.bucket w whichBucket).wasted) :
    (s.setBucket w whichBucket b).workersUsedAndFree +
      ((s.bucket w whichBucket).freeListSize * bucketToSize whichBucket : ℕ) =
    s.workersUsedAndFree + (b.freeListSize * bucketToSize whichBucket : ℕ) := by
  have htotal := total_setWorker (d := (s.workers w).setBucket whichBucket b) hw
  have hfree := ImDesc.freeBytes_setBucket (d := s.workers w) (b := b) h
  have hwaste := ImDesc.wastedBytes_setBucket (d := s.workers w) (b := b) h
  have hused : ((s.workers w).setBucket whichBucket b).used = (s.workers w).used := rfl
  unfold ImDesc.total at htotal
  unfold MallocState.bucket at hwasted ⊢
  unfold MallocState.setBucket
  rw [hused] at htotal
  omega

/-- The global side of the state after one call of `global_im_alloc`. -/
def MallocState.setGlobal (s : MallocState) (desc : ImDesc) (pool : GlobalImPool) : MallocState :=
  { s with desc := desc, pool := pool }

theorem blocks_setGlobal (desc : ImDesc) (pool : GlobalImPool) :
    (s.setGlobal desc pool).blocks + s.desc.blocks = s.blocks + desc.blocks := by
  unfold MallocState.blocks MallocState.setGlobal
  dsimp only
  abel

theorem allocateOne_list {mem size : ℕ} {rest : List ℕ}
    (hlist : (s.desc.buckets whichBucket).freeList = mem :: rest) :
    s.allocateOne system w size whichBucket =
      (s.setGlobal ((s.desc.addUsed size).setBucket whichBucket
        (s.desc.buckets whichBucket).dropFirst) s.pool).setBucket w whichBucket
          ((s.bucket w whichBucket).add mem) := by
  have hsame : (s.desc.addUsed size).buckets whichBucket = s.desc.buckets whichBucket := rfl
  simp only [MallocState.allocateOne, MallocState.globalImAlloc, ImBucket.remove, hsame, hlist]
  rfl

theorem allocateOne_pool {size : ℕ} (hlist : (s.desc.buckets whichBucket).freeList = []) :
    s.allocateOne system w size whichBucket =
      (s.setGlobal (s.desc.addUsed size) (s.pool.cut system size).2).setBucket w whichBucket
        ((s.bucket w whichBucket).add (s.pool.cut system size).1) := by
  have hsame : (s.desc.addUsed size).buckets whichBucket = s.desc.buckets whichBucket := rfl
  simp only [MallocState.allocateOne, MallocState.globalImAlloc, ImBucket.remove, hsame, hlist]
  rfl

/-- What `n` iterations of the loop of `im_allocate_batch` have changed. The global list gives what
it has, and the pool gives the rest. -/
structure Batched (system : ℕ → ℕ) (extra : ℤ) (s : MallocState) (w whichBucket n : ℕ)
    (t : MallocState) : Prop where
  blocks : BlockInv system t
  counts : CountInv extra t
  dvd : bucketToSize whichBucket ∣ t.available
  grows : s.blocks ≤ t.blocks
  handed : t.handed = s.handed
  nworkers : t.nworkers = s.nworkers
  listLength : (t.desc.buckets whichBucket).freeList.length =
    (s.desc.buckets whichBucket).freeList.length - n
  otherLists : ∀ i, i ≠ whichBucket → t.desc.buckets i = s.desc.buckets i
  taken : t.pool.allocated + s.available = s.pool.allocated + t.available +
    (n - (s.desc.buckets whichBucket).freeList.length) * bucketToSize whichBucket
  length : (t.bucket w whichBucket).freeList.length =
    (s.bucket w whichBucket).freeList.length + n
  others : ∀ v i, v ≠ w ∨ i ≠ whichBucket → t.bucket v i = s.bucket v i

theorem blocks_add (hw : w < s.nworkers) (h : whichBucket < numBuckets) (mem : ℕ) :
    (s.setBucket w whichBucket ((s.bucket w whichBucket).add mem)).blocks =
      s.blocks + {(whichBucket, mem)} := by
  have hset := blocks_setBucket (b := (s.bucket w whichBucket).add mem) hw h
  have hadd : (((s.bucket w whichBucket).add mem).freeList : Multiset ℕ).map (whichBucket, ·) =
      {(whichBucket, mem)} +
        ((s.bucket w whichBucket).freeList : Multiset ℕ).map (whichBucket, ·) := by
    simp [ImBucket.add]
  rw [hadd, ← add_assoc] at hset
  exact add_right_cancel hset

/-- The block moves from the global list to the list of the worker. -/
theorem allocateOne_list_blocks (size : ℕ) {mem : ℕ} {rest : List ℕ} (hw : w < s.nworkers)
    (h : whichBucket < numBuckets) (hlist : (s.desc.buckets whichBucket).freeList = mem :: rest) :
    (s.allocateOne system w size whichBucket).blocks = s.blocks := by
  rw [allocateOne_list hlist]
  have hglobal := blocks_setGlobal (s := s)
    ((s.desc.addUsed size).setBucket whichBucket (s.desc.buckets whichBucket).dropFirst) s.pool
  have hdesc := ImDesc.blocks_setBucket (d := s.desc.addUsed size)
    (b := (s.desc.buckets whichBucket).dropFirst) h
  have hsame : (s.desc.addUsed size).blocks = s.desc.blocks := rfl
  have hold : ((s.desc.addUsed size).buckets whichBucket).freeList = mem :: rest := hlist
  have hnew : (s.desc.buckets whichBucket).dropFirst.freeList = rest := by
    simp [ImBucket.dropFirst, hlist]
  have hcons : ((mem :: rest : List ℕ) : Multiset ℕ).map (whichBucket, ·) =
      {(whichBucket, mem)} + (rest : Multiset ℕ).map (whichBucket, ·) := by simp
  rw [hold, hnew, hcons, hsame, ← add_assoc] at hdesc
  rw [← add_right_cancel hdesc, add_comm _ {(whichBucket, mem)}, ← add_assoc] at hglobal
  have hadd := blocks_add (s := s.setGlobal ((s.desc.addUsed size).setBucket whichBucket
    (s.desc.buckets whichBucket).dropFirst) s.pool) hw h mem
  exact hadd.trans (add_right_cancel hglobal)

/-- The block is new. -/
theorem allocateOne_pool_blocks (size : ℕ) (hw : w < s.nworkers) (h : whichBucket < numBuckets)
    (hlist : (s.desc.buckets whichBucket).freeList = []) :
    (s.allocateOne system w size whichBucket).blocks =
      s.blocks + {(whichBucket, (s.pool.cut system size).1)} := by
  rw [allocateOne_pool hlist]
  have hglobal := blocks_setGlobal (s := s) (s.desc.addUsed size) (s.pool.cut system size).2
  have hsame : (s.desc.addUsed size).blocks = s.desc.blocks := rfl
  rw [hsame] at hglobal
  have hadd := blocks_add (s := s.setGlobal (s.desc.addUsed size) (s.pool.cut system size).2) hw h
    (s.pool.cut system size).1
  rw [add_right_cancel hglobal] at hadd
  exact hadd

theorem allocateOne_grows {size : ℕ} (hw : w < s.nworkers) (h : whichBucket < numBuckets) :
    s.blocks ≤ (s.allocateOne system w size whichBucket).blocks := by
  cases hlist : (s.desc.buckets whichBucket).freeList with
  | nil =>
    rw [allocateOne_pool_blocks size hw h hlist]
    exact Multiset.le_add_right _ _
  | cons mem rest => exact (allocateOne_list_blocks size hw h hlist).ge

theorem allocateOne_handed {size : ℕ} :
    (s.allocateOne system w size whichBucket).handed = s.handed := by
  cases hlist : (s.desc.buckets whichBucket).freeList with
  | nil => rw [allocateOne_pool hlist]; rfl
  | cons mem rest => rw [allocateOne_list hlist]; rfl

theorem BlockInv.allocateOne (hi : BlockInv system s) (hw : w < s.nworkers)
    (h : whichBucket < numBuckets) (hdvd : bucketToSize whichBucket ∣ s.available) :
    BlockInv system (s.allocateOne system w (bucketToSize whichBucket) whichBucket) := by
  cases hlist : (s.desc.buckets whichBucket).freeList with
  | nil =>
    have hcut := hi.pool.cut (bucketToSize_pos h) ((bucketToSize_dvd h).trans (by decide)) hdvd
    have hblocks : (s.allocateOne system w (bucketToSize whichBucket) whichBucket).blocks =
        s.blocks + {(whichBucket, (s.pool.cut system (bucketToSize whichBucket)).1)} :=
      allocateOne_pool_blocks _ hw h hlist
    have hpool : (s.allocateOne system w (bucketToSize whichBucket) whichBucket).pool =
        (s.pool.cut system (bucketToSize whichBucket)).2 := by
      rw [allocateOne_pool hlist]
      rfl
    refine ⟨by rw [hpool]; exact hcut.inv, fun a => ?_, fun b hb => ?_, ?_⟩
    · have hc := hcut.covers a
      have hold := hi.covers a
      unfold MallocState.blockCovers at hold ⊢
      rw [hblocks, hpool, Multiset.countP_add, ← Multiset.cons_zero, Multiset.countP_cons,
        Multiset.countP_zero]
      dsimp only
      omega
    · rw [hpool]
      rw [hblocks, Multiset.mem_add, Multiset.mem_singleton] at hb
      rcases hb with hb | rfl
      · obtain ⟨k, hk, hin⟩ := hi.inside b hb
        exact ⟨k, hk.trans_le hcut.chunks_le, hin⟩
      · exact hcut.inside
    · rw [allocateOne_handed]
      exact hi.fits
  | cons mem rest =>
    have hblocks : (s.allocateOne system w (bucketToSize whichBucket) whichBucket).blocks =
        s.blocks := allocateOne_list_blocks _ hw h hlist
    have hpool : (s.allocateOne system w (bucketToSize whichBucket) whichBucket).pool =
        s.pool := by
      rw [allocateOne_list hlist]
      rfl
    refine ⟨by rw [hpool]; exact hi.pool, fun a => ?_, fun b hb => ?_, ?_⟩
    · unfold MallocState.blockCovers
      rw [hblocks, hpool]
      exact hi.covers a
    · rw [hpool]
      rw [hblocks] at hb
      exact hi.inside b hb
    · rw [allocateOne_handed]
      exact hi.fits

/-- The list of one bucket of a worker changes. -/
theorem CountInv.setBucket (hi : CountInv extra s) (hw : w < s.nworkers)
    (h : whichBucket < numBuckets) (hsize : b.freeListSize = b.freeList.length)
    (hlimit : b.freeListLimit = bucketCapacity whichBucket)
    (hwasted : b.wasted = (s.bucket w whichBucket).wasted) :
    CountInv (extra + (b.freeList.length * bucketToSize whichBucket : ℕ) -
        ((s.bucket w whichBucket).freeList.length * bucketToSize whichBucket : ℕ))
      (s.setBucket w whichBucket b) := by
  have hsum := used_setBucket hw h hwasted
  have hold := hi.usedEq
  rw [hi.size w whichBucket, hsize] at hsum
  refine ⟨hi.descSize, fun v i => ?_, fun v i => ?_, ?_, hi.allocatedEq⟩
  · by_cases hv : v ≠ w ∨ i ≠ whichBucket
    · rw [bucket_setBucket_of_ne hv]
      exact hi.size v i
    · push Not at hv
      rw [hv.1, hv.2, bucket_setBucket_self]
      exact hsize
  · by_cases hv : v ≠ w ∨ i ≠ whichBucket
    · rw [bucket_setBucket_of_ne hv]
      exact hi.limit v i
    · push Not at hv
      rw [hv.1, hv.2, bucket_setBucket_self]
      exact hlimit
  · have hsame : (s.setBucket w whichBucket b).desc.used = s.desc.used := rfl
    rw [hsame]
    omega

/-- The bytes that the global side counts as used are those that the workers have more. -/
theorem CountInv.setGlobal (hi : CountInv extra s) (desc : ImDesc) (pool : GlobalImPool)
    (hdesc : ∀ i, (desc.buckets i).freeListSize = (desc.buckets i).freeList.length)
    (hbytes : desc.used + desc.freeBytes + (pool.memEnd - pool.memBegin : ℕ) = pool.allocated) :
    CountInv (extra + s.desc.used - desc.used) (s.setGlobal desc pool) := by
  refine ⟨hdesc, hi.size, hi.limit, ?_, hbytes⟩
  have hold := hi.usedEq
  have hsame : (s.setGlobal desc pool).workersUsedAndFree = s.workersUsedAndFree := rfl
  have hused : (s.setGlobal desc pool).desc.used = desc.used := rfl
  rw [hsame, hused]
  omega

/-- The lists of the worker, and the global side, after an iteration. -/
theorem CountInv.setGlobal_add (hi : CountInv extra s) (hw : w < s.nworkers)
    (h : whichBucket < numBuckets) {desc : ImDesc} {pool : GlobalImPool} (mem : ℕ)
    (hdesc : ∀ i, (desc.buckets i).freeListSize = (desc.buckets i).freeList.length)
    (hused : desc.used = s.desc.used + bucketToSize whichBucket)
    (hbytes : desc.used + desc.freeBytes + (pool.memEnd - pool.memBegin : ℕ) = pool.allocated) :
    CountInv extra ((s.setGlobal desc pool).setBucket w whichBucket
      ((s.bucket w whichBucket).add mem)) := by
  have hsize : ((s.bucket w whichBucket).add mem).freeListSize =
      ((s.bucket w whichBucket).add mem).freeList.length :=
    congrArg Nat.succ (hi.size w whichBucket)
  have hset := (hi.setGlobal desc pool hdesc hbytes).setBucket hw h hsize (hi.limit w whichBucket) rfl
  have hlen : ((s.bucket w whichBucket).add mem).freeList.length =
      (s.bucket w whichBucket).freeList.length + 1 := List.length_cons
  have hbucket : (s.setGlobal desc pool).bucket w whichBucket = s.bucket w whichBucket := rfl
  rw [hlen, hbucket, Nat.succ_mul, hused] at hset
  convert hset using 1
  push_cast
  omega

theorem CountInv.allocateOne (hb : BlockInv system s) (hi : CountInv extra s) (hw : w < s.nworkers)
    (h : whichBucket < numBuckets) (hdvd : bucketToSize whichBucket ∣ s.available) :
    CountInv extra (s.allocateOne system w (bucketToSize whichBucket) whichBucket) := by
  have hold : s.desc.used + s.desc.freeBytes + (s.pool.memEnd - s.pool.memBegin : ℕ) =
      s.pool.allocated := hi.allocatedEq
  cases hlist : (s.desc.buckets whichBucket).freeList with
  | nil =>
    have hcut := hb.pool.cut (bucketToSize_pos h) ((bucketToSize_dvd h).trans (by decide)) hdvd
    rw [allocateOne_pool hlist]
    refine hi.setGlobal_add hw h _ hi.descSize rfl ?_
    have hbytes := hcut.bytes
    have hused : (s.desc.addUsed (bucketToSize whichBucket)).used =
        s.desc.used + bucketToSize whichBucket := rfl
    have hfree : (s.desc.addUsed (bucketToSize whichBucket)).freeBytes = s.desc.freeBytes := rfl
    rw [hused, hfree]
    omega
  | cons mem rest =>
    rw [allocateOne_list hlist]
    have hlen := hi.descSize whichBucket
    rw [hlist, List.length_cons] at hlen
    have hdrop : (s.desc.buckets whichBucket).dropFirst.freeListSize = rest.length := by
      simp [ImBucket.dropFirst, hlen]
    refine hi.setGlobal_add hw h _ (fun i => ?_) rfl ?_
    · by_cases hii : i = whichBucket
      · rw [hii, ImDesc.setBucket_self, hdrop]
        simp [ImBucket.dropFirst, hlist]
      · rw [ImDesc.setBucket_of_ne hii]
        exact hi.descSize i
    · have hfree := ImDesc.freeBytes_setBucket (d := s.desc.addUsed (bucketToSize whichBucket))
        (b := (s.desc.buckets whichBucket).dropFirst) h
      have hsame : (s.desc.addUsed (bucketToSize whichBucket)).freeBytes = s.desc.freeBytes := rfl
      have hsize : ((s.desc.addUsed (bucketToSize whichBucket)).buckets whichBucket).freeListSize =
          rest.length + 1 := hlen
      have hused : ((s.desc.addUsed (bucketToSize whichBucket)).setBucket whichBucket
          (s.desc.buckets whichBucket).dropFirst).used =
            s.desc.used + bucketToSize whichBucket := rfl
      rw [hdrop, hsize, hsame, Nat.succ_mul] at hfree
      rw [hused]
      push_cast at hfree
      omega

/-- The tail stays in whole blocks, and the bytes of the blocks that come from the pool are counted. -/
theorem allocateOne_taken (hb : BlockInv system s) (h : whichBucket < numBuckets)
    (hdvd : bucketToSize whichBucket ∣ s.available) :
    bucketToSize whichBucket ∣
        (s.allocateOne system w (bucketToSize whichBucket) whichBucket).available ∧
      (s.allocateOne system w (bucketToSize whichBucket) whichBucket).pool.allocated +
          s.available =
        s.pool.allocated +
          (s.allocateOne system w (bucketToSize whichBucket) whichBucket).available +
          (1 - (s.desc.buckets whichBucket).freeList.length) * bucketToSize whichBucket := by
  cases hlist : (s.desc.buckets whichBucket).freeList with
  | nil =>
    have hcut := hb.pool.cut (bucketToSize_pos h) ((bucketToSize_dvd h).trans (by decide)) hdvd
    rw [allocateOne_pool hlist, List.length_nil, Nat.sub_zero, Nat.one_mul]
    exact ⟨hcut.dvd, hcut.bytes⟩
  | cons mem rest =>
    rw [allocateOne_list hlist, List.length_cons, Nat.sub_eq_zero_of_le (Nat.le_add_left _ _),
      Nat.zero_mul]
    exact ⟨hdvd, rfl⟩

theorem allocateOne_listLength {size : ℕ} :
    ((s.allocateOne system w size whichBucket).desc.buckets whichBucket).freeList.length =
      (s.desc.buckets whichBucket).freeList.length - 1 := by
  cases hlist : (s.desc.buckets whichBucket).freeList with
  | nil =>
    rw [allocateOne_pool hlist]
    exact congrArg List.length hlist
  | cons mem rest =>
    rw [allocateOne_list hlist]
    simp [MallocState.setBucket, MallocState.setWorker, MallocState.setGlobal, ImBucket.dropFirst,
      hlist]

theorem allocateOne_otherLists {size i : ℕ} (hi : i ≠ whichBucket) :
    (s.allocateOne system w size whichBucket).desc.buckets i = s.desc.buckets i := by
  cases hlist : (s.desc.buckets whichBucket).freeList with
  | nil => rw [allocateOne_pool hlist]; rfl
  | cons mem rest =>
    rw [allocateOne_list hlist]
    exact ImDesc.setBucket_of_ne hi

/-- The worker gets one block, whatever list it is from. -/
theorem allocateOne_bucket {size : ℕ} : ∃ mem, ∀ v i,
    (s.allocateOne system w size whichBucket).bucket v i =
      (s.setBucket w whichBucket ((s.bucket w whichBucket).add mem)).bucket v i := by
  cases hlist : (s.desc.buckets whichBucket).freeList with
  | nil =>
    rw [allocateOne_pool hlist]
    exact ⟨_, fun _ _ => rfl⟩
  | cons mem rest =>
    rw [allocateOne_list hlist]
    exact ⟨mem, fun _ _ => rfl⟩

theorem allocateOne_nworkers {size : ℕ} :
    (s.allocateOne system w size whichBucket).nworkers = s.nworkers := by
  cases hlist : (s.desc.buckets whichBucket).freeList with
  | nil => rw [allocateOne_pool hlist]; rfl
  | cons mem rest => rw [allocateOne_list hlist]; rfl

/-- The loop of `im_allocate_batch`. -/
theorem batched (hb : BlockInv system s) (hc : CountInv extra s) (hw : w < s.nworkers)
    (h : whichBucket < numBuckets) (hdvd : bucketToSize whichBucket ∣ s.available) (n : ℕ) :
    Batched system extra s w whichBucket n
      ((MallocState.allocateOne system w (bucketToSize whichBucket) whichBucket)^[n] s) := by
  induction n with
  | zero => exact ⟨hb, hc, hdvd, le_refl _, rfl, rfl, rfl, fun _ _ => rfl, by simp, rfl, fun _ _ _ => rfl⟩
  | succ n ih =>
    rw [Function.iterate_succ_apply']
    generalize (MallocState.allocateOne system w (bucketToSize whichBucket) whichBucket)^[n] s = t
      at ih ⊢
    have hwt : w < t.nworkers := by rw [ih.nworkers]; exact hw
    obtain ⟨hdvd', htaken⟩ := allocateOne_taken (w := w) ih.blocks h ih.dvd
    obtain ⟨mem, hbucket⟩ : ∃ mem, ∀ v i,
        (t.allocateOne system w (bucketToSize whichBucket) whichBucket).bucket v i =
          (t.setBucket w whichBucket ((t.bucket w whichBucket).add mem)).bucket v i :=
      allocateOne_bucket
    refine ⟨ih.blocks.allocateOne hwt h ih.dvd, ih.counts.allocateOne ih.blocks hwt h ih.dvd, hdvd',
      ih.grows.trans (allocateOne_grows hwt h), allocateOne_handed.trans ih.handed,
      allocateOne_nworkers.trans ih.nworkers, ?_,
      fun i hi => (allocateOne_otherLists hi).trans (ih.otherLists i hi), ?_, ?_,
      fun v i hvi => ?_⟩
    · rw [allocateOne_listLength, ih.listLength, Nat.sub_sub]
    · have hold := ih.taken
      rw [ih.listLength] at htaken
      have hsplit : n + 1 - (s.desc.buckets whichBucket).freeList.length =
          n - (s.desc.buckets whichBucket).freeList.length +
            (1 - ((s.desc.buckets whichBucket).freeList.length - n)) := by omega
      rw [hsplit, Nat.add_mul]
      omega
    · rw [hbucket, bucket_setBucket_self]
      calc (mem :: (t.bucket w whichBucket).freeList).length
          = (t.bucket w whichBucket).freeList.length + 1 := List.length_cons
        _ = (s.bucket w whichBucket).freeList.length + (n + 1) := by rw [ih.length, add_assoc]
    · rw [hbucket, bucket_setBucket_of_ne hvi]
      exact ih.others v i hvi

end Lists

end Cheetah
