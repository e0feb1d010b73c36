import Cheetah.InternalMallocInvariant

/-! What a whole call of the allocator keeps, and so every run of calls. -/
namespace Cheetah

section Calls

variable {system : ℕ → ℕ} {s t : MallocState} {b : ImBucket} {w whichBucket : ℕ} {extra : ℤ}

theorem bucket_count (whichBucket : ℕ) (used wasted : ℤ) (tag : ImTag) (calls : ℤ) (v i : ℕ) :
    ∃ n, (s.setWorker w ((s.workers w).count whichBucket used wasted tag calls)).bucket v i =
      (s.bucket v i).addWasted n := by
  have hnone : s.bucket v i = (s.bucket v i).addWasted 0 := by simp [ImBucket.addWasted]
  unfold MallocState.setWorker MallocState.bucket at *
  dsimp only
  by_cases hv : v = w
  · rw [hv, Function.update_self]
    by_cases hi : i = whichBucket
    · rw [hi]
      exact ⟨wasted, ImDesc.setBucket_self⟩
    · exact ⟨0, (ImDesc.setBucket_of_ne hi).trans (hv ▸ hnone)⟩
  · rw [Function.update_of_ne hv]
    exact ⟨0, hnone⟩

/-- The bytes of a call are counted first. -/
theorem CountInv.count (hi : CountInv extra s) (hw : w < s.nworkers)
    (h : whichBucket < numBuckets) (used wasted : ℤ) (tag : ImTag) (calls : ℤ) :
    CountInv (extra + used + wasted)
      (s.setWorker w ((s.workers w).count whichBucket used wasted tag calls)) := by
  refine ⟨hi.descSize, fun v i => ?_, fun v i => ?_, ?_, hi.allocatedEq⟩
  · obtain ⟨n, hn⟩ := bucket_count (s := s) (w := w) whichBucket used wasted tag calls v i
    rw [hn]
    exact hi.size v i
  · obtain ⟨n, hn⟩ := bucket_count (s := s) (w := w) whichBucket used wasted tag calls v i
    rw [hn]
    exact hi.limit v i
  · have htotal := total_setWorker
      (d := (s.workers w).count whichBucket used wasted tag calls) hw
    rw [ImDesc.total_count h] at htotal
    have hold := hi.usedEq
    have hsame : (s.setWorker w ((s.workers w).count whichBucket used wasted tag calls)).desc.used =
      s.desc.used := rfl
    rw [hsame]
    omega

theorem blocks_count (hw : w < s.nworkers) (whichBucket : ℕ) (used wasted : ℤ) (tag : ImTag) (calls : ℤ) :
    (s.setWorker w ((s.workers w).count whichBucket used wasted tag calls)).blocks =
      s.blocks := by
  have hblocks := blocks_setWorker (d := (s.workers w).count whichBucket used wasted tag calls) hw
  rw [ImDesc.count_blocks] at hblocks
  exact add_right_cancel hblocks

/-- The first block of a list leaves it. -/
theorem blocks_dropFirst {mem : ℕ} {rest : List ℕ} (hw : w < s.nworkers)
    (h : whichBucket < numBuckets) (hlist : (s.bucket w whichBucket).freeList = mem :: rest)
    (hb : b.freeList = rest) :
    (s.setBucket w whichBucket b).blocks + {(whichBucket, mem)} = s.blocks := by
  have hset := blocks_setBucket (b := b) hw h
  have hcons : ((mem :: rest : List ℕ) : Multiset ℕ).map (whichBucket, ·) =
      {(whichBucket, mem)} + (rest : Multiset ℕ).map (whichBucket, ·) := by simp
  rw [hlist, hb, hcons, ← add_assoc] at hset
  exact add_right_cancel hset

theorem BlockInv.congr (hi : BlockInv system s) (hblocks : t.blocks = s.blocks)
    (hpool : t.pool = s.pool)
    (hfits : ∀ b ∈ t.handed, ∃ whichBucket, sizeToBucket b.size = some whichBucket) :
    BlockInv system t := by
  refine ⟨by rw [hpool]; exact hi.pool, fun a => ?_, fun b hb => ?_, hfits⟩
  · unfold MallocState.blockCovers
    rw [hblocks, hpool]
    exact hi.covers a
  · rw [hpool]
    exact hi.inside b (hblocks ▸ hb)

/-- What `n` iterations of the loop of `im_free_batch` have changed. -/
structure Freed (extra : ℤ) (s : MallocState) (w whichBucket n : ℕ) (t : MallocState) : Prop where
  counts : CountInv extra t
  blocks : t.blocks = s.blocks
  pool : t.pool = s.pool
  handed : t.handed = s.handed
  nworkers : t.nworkers = s.nworkers
  listLength : (t.desc.buckets whichBucket).freeList.length =
    (s.desc.buckets whichBucket).freeList.length +
      min n (s.bucket w whichBucket).freeList.length
  otherLists : ∀ i, i ≠ whichBucket → t.desc.buckets i = s.desc.buckets i
  length : (t.bucket w whichBucket).freeList.length =
    (s.bucket w whichBucket).freeList.length - n
  others : ∀ v i, v ≠ w ∨ i ≠ whichBucket → t.bucket v i = s.bucket v i

/-- The global free lists after a block has come back. -/
def ImDesc.takeBack (d : ImDesc) (size whichBucket mem : ℕ) : ImDesc :=
  (d.setBucket whichBucket ((d.buckets whichBucket).add mem)).addUsed (-size)

theorem ImDesc.takeBack_self {d : ImDesc} {size mem : ℕ} :
    (d.takeBack size whichBucket mem).buckets whichBucket = (d.buckets whichBucket).add mem :=
  ImDesc.setBucket_self

theorem ImDesc.takeBack_of_ne {d : ImDesc} {size mem i : ℕ} (h : i ≠ whichBucket) :
    (d.takeBack size whichBucket mem).buckets i = d.buckets i := ImDesc.setBucket_of_ne h

theorem ImDesc.takeBack_freeBytes {d : ImDesc} (mem : ℕ) (h : whichBucket < numBuckets) :
    (d.takeBack (bucketToSize whichBucket) whichBucket mem).used +
      (d.takeBack (bucketToSize whichBucket) whichBucket mem).freeBytes =
        d.used + d.freeBytes := by
  have hfree := ImDesc.freeBytes_setBucket (b := (d.buckets whichBucket).add mem) (d := d) h
  have hsize : ((d.buckets whichBucket).add mem).freeListSize =
      (d.buckets whichBucket).freeListSize + 1 := rfl
  have hused : (d.takeBack (bucketToSize whichBucket) whichBucket mem).used =
      d.used + -(bucketToSize whichBucket) := rfl
  have hsame : (d.takeBack (bucketToSize whichBucket) whichBucket mem).freeBytes =
      (d.setBucket whichBucket ((d.buckets whichBucket).add mem)).freeBytes := rfl
  rw [hsize, Nat.succ_mul] at hfree
  push_cast at hfree
  omega

theorem ImDesc.takeBack_blocks {d : ImDesc} {size mem : ℕ} (h : whichBucket < numBuckets) :
    (d.takeBack size whichBucket mem).blocks = d.blocks + {(whichBucket, mem)} := by
  have hset := ImDesc.blocks_setBucket (d := d) (b := (d.buckets whichBucket).add mem) h
  have hcons : (((d.buckets whichBucket).add mem).freeList : Multiset ℕ).map (whichBucket, ·) =
      {(whichBucket, mem)} + ((d.buckets whichBucket).freeList : Multiset ℕ).map
        (whichBucket, ·) := by
    simp [ImBucket.add]
  rw [hcons, ← add_assoc] at hset
  exact add_right_cancel hset

/-- The state after an iteration of the loop of `im_free_batch` that has found a block. -/
def MallocState.freeOne (s : MallocState) (w size whichBucket mem : ℕ) : MallocState :=
  (s.setGlobal (s.desc.takeBack size whichBucket mem) s.pool).setBucket w whichBucket
    ((s.bucket w whichBucket).dropFirst.addAllocated (-1))

theorem freeLoop_cons {size mem : ℕ} {rest : List ℕ} (n : ℕ)
    (hlist : (s.bucket w whichBucket).freeList = mem :: rest) :
    s.freeLoop w size whichBucket (n + 1) =
      (s.freeOne w size whichBucket mem).freeLoop w size whichBucket n := by
  simp only [MallocState.freeLoop, ImBucket.remove, hlist]
  rfl

theorem freeLoop_nil {size : ℕ} (n : ℕ) (hlist : (s.bucket w whichBucket).freeList = []) :
    s.freeLoop w size whichBucket n = s := by
  cases n with
  | zero => rfl
  | succ n => simp only [MallocState.freeLoop, ImBucket.remove, hlist]

/-- The block moves from the list of the worker to the global list. -/
theorem freed_one {mem : ℕ} {rest : List ℕ} (hc : CountInv extra s) (hw : w < s.nworkers)
    (h : whichBucket < numBuckets) (hlist : (s.bucket w whichBucket).freeList = mem :: rest) :
    Freed extra s w whichBucket 1 (s.freeOne w (bucketToSize whichBucket) whichBucket mem) := by
  have hlen : (s.bucket w whichBucket).freeList.length = rest.length + 1 := by
    rw [hlist, List.length_cons]
  have hdrop : ((s.bucket w whichBucket).dropFirst.addAllocated (-1)).freeList = rest := by
    simp [ImBucket.dropFirst, ImBucket.addAllocated, hlist]
  have hdropSize : ((s.bucket w whichBucket).dropFirst.addAllocated (-1)).freeListSize =
      rest.length := by
    have hsize := hc.size w whichBucket
    simp [ImBucket.dropFirst, ImBucket.addAllocated, hsize, hlist]
  refine ⟨?_, ?_, rfl, rfl, rfl, ?_, fun i hi => ImDesc.takeBack_of_ne hi, ?_,
    fun v i hvi => bucket_setBucket_of_ne hvi⟩
  · have hdesc : ∀ i, ((s.desc.takeBack (bucketToSize whichBucket) whichBucket mem).buckets
        i).freeListSize = ((s.desc.takeBack (bucketToSize whichBucket) whichBucket mem).buckets
          i).freeList.length := fun i => by
      by_cases hi : i = whichBucket
      · rw [hi, ImDesc.takeBack_self]
        exact congrArg Nat.succ (hc.descSize whichBucket)
      · rw [ImDesc.takeBack_of_ne hi]
        exact hc.descSize i
    have hglobal := hc.setGlobal _ s.pool hdesc
      (by rw [ImDesc.takeBack_freeBytes mem h]; exact hc.allocatedEq)
    have hset := hglobal.setBucket (b := (s.bucket w whichBucket).dropFirst.addAllocated (-1))
      hw h (by rw [hdrop, hdropSize]) (hc.limit w whichBucket) rfl
    have hextra : extra + s.desc.used -
        (s.desc.takeBack (bucketToSize whichBucket) whichBucket mem).used +
          (rest.length * bucketToSize whichBucket : ℕ) -
          ((rest.length + 1) * bucketToSize whichBucket : ℕ) = extra := by
      have hused : (s.desc.takeBack (bucketToSize whichBucket) whichBucket mem).used =
          s.desc.used + -(bucketToSize whichBucket) := rfl
      rw [hused, Nat.succ_mul]
      push_cast
      omega
    have hbucket : (s.setGlobal (s.desc.takeBack (bucketToSize whichBucket) whichBucket mem)
        s.pool).bucket w whichBucket = s.bucket w whichBucket := rfl
    rw [hbucket, hdrop, hlen, hextra] at hset
    exact hset
  · have hworker := blocks_dropFirst (b := (s.bucket w whichBucket).dropFirst.addAllocated (-1))
      (s := s.setGlobal (s.desc.takeBack (bucketToSize whichBucket) whichBucket mem) s.pool)
      hw h hlist hdrop
    have hglobal := blocks_setGlobal (s := s)
      (s.desc.takeBack (bucketToSize whichBucket) whichBucket mem) s.pool
    rw [ImDesc.takeBack_blocks h, ← hworker, add_comm s.desc.blocks, ← add_assoc] at hglobal
    have hsame := add_right_cancel hglobal
    exact add_right_cancel hsame
  · have hself : ((s.freeOne w (bucketToSize whichBucket) whichBucket mem).desc.buckets
        whichBucket) = (s.desc.buckets whichBucket).add mem := ImDesc.setBucket_self
    rw [hself, hlen, Nat.min_eq_left (Nat.le_add_left _ _)]
    exact List.length_cons
  · have hself : (s.freeOne w (bucketToSize whichBucket) whichBucket mem).bucket w whichBucket =
        (s.bucket w whichBucket).dropFirst.addAllocated (-1) := bucket_setBucket_self
    rw [hself, hdrop, hlen, Nat.add_sub_cancel]

/-- The loop of `im_free_batch`. -/
theorem freed (hc : CountInv extra s) (hw : w < s.nworkers) (h : whichBucket < numBuckets)
    (n : ℕ) :
    Freed extra s w whichBucket n (s.freeLoop w (bucketToSize whichBucket) whichBucket n) := by
  induction n generalizing s with
  | zero => exact ⟨hc, rfl, rfl, rfl, rfl, by simp [MallocState.freeLoop], fun _ _ => rfl, rfl,
      fun _ _ _ => rfl⟩
  | succ n ih =>
    cases hlist : (s.bucket w whichBucket).freeList with
    | nil =>
      rw [freeLoop_nil _ hlist]
      exact ⟨hc, rfl, rfl, rfl, rfl, by rw [hlist]; simp, fun _ _ => rfl, by rw [hlist]; simp,
        fun _ _ _ => rfl⟩
    | cons mem rest =>
      rw [freeLoop_cons n hlist]
      have hone := freed_one hc hw h hlist
      have hrest := ih hone.counts (by rw [hone.nworkers]; exact hw)
      have hlen : (s.bucket w whichBucket).freeList.length = rest.length + 1 := by
        rw [hlist, List.length_cons]
      refine ⟨hrest.counts, hrest.blocks.trans hone.blocks, hrest.pool.trans hone.pool,
        hrest.handed.trans hone.handed, hrest.nworkers.trans hone.nworkers, ?_,
        fun i hi => (hrest.otherLists i hi).trans (hone.otherLists i hi), ?_,
        fun v i hvi => (hrest.others v i hvi).trans (hone.others v i hvi)⟩
      · rw [hrest.listLength, hone.listLength, hone.length, hlen]
        omega
      · rw [hrest.length, hone.length, Nat.sub_sub, Nat.add_comm 1 n]

/-- A batch is half a list, so the global lists are in whole batches, and the tail of the pool is in
whole pages. The bytes of a call that is on its way are apart. -/
structure MallocInv (system : ℕ → ℕ) (extra : ℤ) (s : MallocState) : Prop where
  blocks : BlockInv system s
  counts : CountInv extra s
  pages : 4096 ∣ s.available
  batches : ∀ i < numBuckets, bucketCapacity i / 2 ∣ (s.desc.buckets i).freeList.length
  within : ∀ v, ∀ i < numBuckets, (s.bucket v i).freeList.length ≤ bucketCapacity i

theorem MallocInv.count (hi : MallocInv system extra s) (hw : w < s.nworkers)
    (h : whichBucket < numBuckets) (used wasted : ℤ) (tag : ImTag) (calls : ℤ) :
    MallocInv system (extra + used + wasted)
      (s.setWorker w ((s.workers w).count whichBucket used wasted tag calls)) := by
  refine ⟨hi.blocks.congr (blocks_count hw whichBucket used wasted tag calls) rfl hi.blocks.fits,
    hi.counts.count hw h used wasted tag calls, hi.pages, hi.batches, fun v i hlt => ?_⟩
  obtain ⟨n, hn⟩ := bucket_count (s := s) (w := w) whichBucket used wasted tag calls v i
  rw [hn]
  exact hi.within v i hlt

/-- A bucket of a worker gets other counters, with the same list. -/
theorem MallocInv.setCounters (hi : MallocInv system extra s) (hw : w < s.nworkers)
    (h : whichBucket < numBuckets) (hlist : b.freeList = (s.bucket w whichBucket).freeList)
    (hsize : b.freeListSize = (s.bucket w whichBucket).freeListSize)
    (hlimit : b.freeListLimit = (s.bucket w whichBucket).freeListLimit)
    (hwasted : b.wasted = (s.bucket w whichBucket).wasted) :
    MallocInv system extra (s.setBucket w whichBucket b) := by
  have hblocks := blocks_setBucket (b := b) hw h
  rw [hlist] at hblocks
  have hcounts := hi.counts.setBucket hw h (by rw [hsize, hi.counts.size, hlist])
    (hlimit.trans (hi.counts.limit w whichBucket)) hwasted
  rw [hlist, add_sub_cancel_right] at hcounts
  refine ⟨hi.blocks.congr (add_right_cancel hblocks) rfl hi.blocks.fits, hcounts, hi.pages,
    hi.batches, fun v i hlt => ?_⟩
  by_cases hv : v ≠ w ∨ i ≠ whichBucket
  · rw [bucket_setBucket_of_ne hv]
    exact hi.within v i hlt
  · push Not at hv
    rw [hv.1, hv.2, bucket_setBucket_self, hlist]
    exact hi.within w whichBucket h

/-- The bytes of the chunks are whole pages, and so is a batch from the pool. -/
theorem Batched.pages {n : ℕ} (hb : Batched system extra s w whichBucket n t)
    (hi : MallocInv system extra s)
    (hbatch : 4096 ∣ (n - (s.desc.buckets whichBucket).freeList.length) *
      bucketToSize whichBucket) : 4096 ∣ t.available := by
  have htaken := hb.taken
  have hold := hi.pages
  have hchunks : 4096 ∣ s.pool.allocated := by
    rw [hi.blocks.pool.allocated]
    exact Dvd.dvd.mul_right (by decide) _
  have hchunks' : 4096 ∣ t.pool.allocated := by
    rw [hb.blocks.pool.allocated]
    exact Dvd.dvd.mul_right (by decide) _
  omega

/-- A batch is whole, from the global list or from the pool. -/
theorem MallocInv.batch (hi : MallocInv system extra s) (hw : w < s.nworkers)
    (h : whichBucket < numBuckets) (hempty : (s.bucket w whichBucket).freeList = []) :
    MallocInv system extra (s.imAllocateBatch system w (bucketToSize whichBucket) whichBucket) ∧
      (s.imAllocateBatch system w (bucketToSize whichBucket) whichBucket).handed = s.handed ∧
      (s.imAllocateBatch system w (bucketToSize whichBucket) whichBucket).nworkers = s.nworkers ∧
      s.blocks ≤ (s.imAllocateBatch system w (bucketToSize whichBucket) whichBucket).blocks ∧
      ((s.imAllocateBatch system w (bucketToSize whichBucket) whichBucket).bucket w
        whichBucket).freeList ≠ [] := by
  have hb := batched hi.blocks hi.counts hw h ((bucketToSize_dvd h).trans hi.pages)
    (bucketCapacity whichBucket / 2)
  unfold MallocState.imAllocateBatch
  dsimp only
  generalize (MallocState.allocateOne system w (bucketToSize whichBucket) whichBucket)^[
    bucketCapacity whichBucket / 2] s = t at hb ⊢
  have hcap := bucketCapacity_pos h
  have hwhole := hi.batches whichBucket h
  have hinv : MallocInv system extra t := by
    refine ⟨hb.blocks, hb.counts, hb.pages hi ?_, fun i hlt => ?_, fun v i hlt => ?_⟩
    · cases hlen : (s.desc.buckets whichBucket).freeList.length with
      | zero =>
        rw [Nat.sub_zero]
        exact batch_bytes h
      | succ n =>
        rw [hlen] at hwhole
        rw [Nat.sub_eq_zero_of_le (Nat.le_of_dvd (Nat.succ_pos n) hwhole), Nat.zero_mul]
        exact Nat.dvd_zero _
    · by_cases hself : i = whichBucket
      · rw [hself, hb.listLength]
        exact Nat.dvd_sub hwhole (Nat.dvd_refl _)
      · rw [hb.otherLists i hself]
        exact hi.batches i hlt
    · by_cases hv : v ≠ w ∨ i ≠ whichBucket
      · rw [hb.others v i hv]
        exact hi.within v i hlt
      · push Not at hv
        rw [hv.1, hv.2, hb.length, hempty, List.length_nil, Nat.zero_add]
        exact Nat.div_le_self _ _
  have hwt : w < t.nworkers := by rw [hb.nworkers]; exact hw
  have hblocks := blocks_setBucket (b := ((t.bucket w whichBucket).addAllocated
    (bucketCapacity whichBucket / 2 : ℕ)).noteAllocated) hwt h
  refine ⟨hinv.setCounters hwt h rfl rfl rfl rfl, hb.handed, hb.nworkers,
    hb.grows.trans (add_right_cancel hblocks).ge, ?_⟩
  rw [bucket_setBucket_self]
  apply List.ne_nil_of_length_pos
  calc 0 < bucketCapacity whichBucket / 2 := Nat.div_pos hcap (by decide)
    _ = (t.bucket w whichBucket).freeList.length := by
      rw [hb.length, hempty, List.length_nil, Nat.zero_add]

theorem blocks_hand {mem : ℕ} {rest : List ℕ} {o : Handed} (hw : w < s.nworkers)
    (h : whichBucket < numBuckets) (hlist : (s.bucket w whichBucket).freeList = mem :: rest)
    (hsize : sizeToBucket o.size = some whichBucket) (haddr : o.addr = mem) :
    MallocState.blocks
      { s.setBucket w whichBucket (s.bucket w whichBucket).dropFirst with
        handed := o ::ₘ s.handed } = s.blocks := by
  have hdrop : (s.bucket w whichBucket).dropFirst.freeList = rest := by
    simp [ImBucket.dropFirst, hlist]
  have hblock : o.block = (whichBucket, mem) := by
    rw [Handed.block, hsize, haddr]
    rfl
  rw [← blocks_dropFirst hw h hlist hdrop]
  unfold MallocState.blocks
  dsimp only
  rw [Multiset.map_cons, hblock, ← Multiset.singleton_add]
  have hhanded : (s.setBucket w whichBucket (s.bucket w whichBucket).dropFirst).handed =
    s.handed := rfl
  rw [hhanded]
  abel

/-- The first block of a list of a worker is handed out. -/
theorem MallocInv.hand {mem : ℕ} {rest : List ℕ} {o : Handed}
    (hi : MallocInv system (bucketToSize whichBucket) s) (hw : w < s.nworkers)
    (h : whichBucket < numBuckets) (hlist : (s.bucket w whichBucket).freeList = mem :: rest)
    (hsize : sizeToBucket o.size = some whichBucket) (haddr : o.addr = mem) :
    MallocInv system 0
      { s.setBucket w whichBucket (s.bucket w whichBucket).dropFirst with
        handed := o ::ₘ s.handed } := by
  have hlen : (s.bucket w whichBucket).freeList.length = rest.length + 1 := by
    rw [hlist, List.length_cons]
  have hdrop : (s.bucket w whichBucket).dropFirst.freeList = rest := by
    simp [ImBucket.dropFirst, hlist]
  have hdropSize : (s.bucket w whichBucket).dropFirst.freeListSize = rest.length := by
    have hsize := hi.counts.size w whichBucket
    simp [ImBucket.dropFirst, hsize, hlist]
  have hcounts := hi.counts.setBucket (b := (s.bucket w whichBucket).dropFirst) hw h
    (by rw [hdropSize, hdrop]) (hi.counts.limit w whichBucket) rfl
  have hextra : (bucketToSize whichBucket : ℤ) + (rest.length * bucketToSize whichBucket : ℕ) -
      ((rest.length + 1) * bucketToSize whichBucket : ℕ) = 0 := by
    rw [Nat.succ_mul]
    push_cast
    omega
  rw [hdrop, hlen, hextra] at hcounts
  refine ⟨hi.blocks.congr (blocks_hand hw h hlist hsize haddr) rfl fun b hb => ?_, ⟨hcounts.descSize, hcounts.size,
    hcounts.limit, hcounts.usedEq, hcounts.allocatedEq⟩, hi.pages, hi.batches, fun v i hlt => ?_⟩
  · rcases Multiset.mem_cons.mp hb with rfl | hb
    · exact ⟨whichBucket, hsize⟩
    · exact hi.blocks.fits b hb
  · have hold := hi.within w whichBucket h
    have hbucket : MallocState.bucket
        { s.setBucket w whichBucket (s.bucket w whichBucket).dropFirst with
          handed := o ::ₘ s.handed } v i =
        (s.setBucket w whichBucket (s.bucket w whichBucket).dropFirst).bucket v i := rfl
    rw [hbucket]
    by_cases hv : v ≠ w ∨ i ≠ whichBucket
    · rw [bucket_setBucket_of_ne hv]
      exact hi.within v i hlt
    · push Not at hv
      rw [hv.1, hv.2, bucket_setBucket_self, hdrop]
      omega

/-- `cilk_internal_malloc` answers every size that has a bucket. -/
theorem MallocInv.malloc_eq (hi : MallocInv system 0 s) (hw : w < s.nworkers) {size : ℕ}
    (tag : ImTag) (any : ℕ) (hsize : sizeToBucket size = some whichBucket) :
    ∃ u mem rest, MallocInv system (bucketToSize whichBucket) u ∧ u.handed = s.handed ∧
      u.nworkers = s.nworkers ∧ s.blocks ≤ u.blocks ∧
      (u.bucket w whichBucket).freeList = mem :: rest ∧
      s.cilkInternalMalloc system w size tag any =
        some (mem, u.setBucket w whichBucket (u.bucket w whichBucket).dropFirst) := by
  obtain ⟨h, hle⟩ := sizeToBucket_some hsize
  have hcount := hi.count hw h size (bucketToSize whichBucket - size) tag 1
  rw [zero_add, add_sub_cancel] at hcount
  unfold MallocState.cilkInternalMalloc
  rw [hsize]
  dsimp only
  generalize hv : s.setWorker w ((s.workers w).count whichBucket size
    (bucketToSize whichBucket - size) tag 1) = v at hcount ⊢
  have hhanded : v.handed = s.handed := by rw [← hv]; rfl
  have hblocks : v.blocks = s.blocks := by rw [← hv]; exact blocks_count hw _ _ _ _ _
  have hworkers : v.nworkers = s.nworkers := by rw [← hv]; rfl
  have hwv : w < v.nworkers := by rw [hworkers]; exact hw
  by_cases hempty : (v.bucket w whichBucket).freeList = []
  · obtain ⟨hinv, hbHanded, hbWorkers, hgrows, hne⟩ := hcount.batch hwv h hempty
    rw [if_pos hempty]
    obtain ⟨mem, rest, hlist⟩ := List.exists_cons_of_ne_nil hne
    refine ⟨_, mem, rest, hinv, hbHanded.trans hhanded, hbWorkers.trans hworkers,
      hblocks.ge.trans hgrows, hlist, ?_⟩
    simp only [ImBucket.remove, hlist, Option.map_some]
  · rw [if_neg hempty]
    obtain ⟨mem, rest, hlist⟩ := List.exists_cons_of_ne_nil hempty
    refine ⟨v, mem, rest, hcount, hhanded, hworkers, hblocks.ge, hlist, ?_⟩
    simp only [ImBucket.remove, hlist, Option.map_some]

theorem MallocInv.malloc (hi : MallocInv system 0 s) (hw : w < s.nworkers) {size mem : ℕ}
    {tag : ImTag} {any : ℕ} (hle : size ≤ sizeThresh)
    (hmalloc : s.cilkInternalMalloc system w size tag any = some (mem, t)) :
    MallocInv system 0 { t with handed := ⟨mem, size, tag⟩ ::ₘ t.handed } ∧
      t.handed = s.handed ∧ t.nworkers = s.nworkers ∧
      s.blocks ≤ MallocState.blocks { t with handed := ⟨mem, size, tag⟩ ::ₘ t.handed } := by
  obtain ⟨whichBucket, hsize⟩ := sizeToBucket_isSome hle
  obtain ⟨u, mem', rest, hinv, hhanded, hworkers, hgrows, hlist, heq⟩ :=
    hi.malloc_eq hw tag any hsize
  rw [heq] at hmalloc
  cases hmalloc
  have hwu : w < u.nworkers := by rw [hworkers]; exact hw
  have hlt := (sizeToBucket_some hsize).1
  exact ⟨hinv.hand (o := ⟨mem, size, tag⟩) hwu hlt hlist hsize rfl, hhanded, hworkers,
    hgrows.trans (blocks_hand (o := ⟨mem, size, tag⟩) hwu hlt hlist hsize rfl).ge⟩

/-- The system serves a size without a bucket. -/
theorem cilkInternalMalloc_large {size mem any : ℕ} {tag : ImTag} (hsize : sizeThresh < size)
    (hmalloc : s.cilkInternalMalloc system w size tag any = some (mem, t)) : t = s := by
  rw [MallocState.cilkInternalMalloc, sizeToBucket_none hsize] at hmalloc
  exact (congrArg Prod.snd (Option.some.inj hmalloc)).symm

theorem cilkInternalFree_large {p size : ℕ} {tag : ImTag} (hsize : sizeThresh < size)
    (hfree : s.cilkInternalFree w p size tag = some t) : t = s := by
  rw [MallocState.cilkInternalFree, if_pos hsize] at hfree
  exact (Option.some.inj hfree).symm

/-- The loop of `cilk_internal_free` frees at most one batch, since a list has one block too many. -/
theorem trimmed (hc : CountInv extra s) (hw : w < s.nworkers) (h : whichBucket < numBuckets)
    (hlen : (s.bucket w whichBucket).freeList.length ≤ bucketCapacity whichBucket + 1) (fuel : ℕ) :
    ∃ n, (n = 0 ∨ n = bucketCapacity whichBucket / 2) ∧
      n ≤ (s.bucket w whichBucket).freeList.length ∧
      (s.bucket w whichBucket).freeList.length ≤ bucketCapacity whichBucket + n ∧
      Freed extra s w whichBucket n
        (s.trim w (bucketToSize whichBucket) whichBucket (fuel + 2)) := by
  have hcap := bucketCapacity_pos h
  have hsize := hc.size w whichBucket
  have hlimit := hc.limit w whichBucket
  rw [MallocState.trim]
  by_cases hover : (s.bucket w whichBucket).freeList.length > bucketCapacity whichBucket
  · rw [hsize, hlimit, if_pos hover]
    have hfreed := freed hc hw h (bucketCapacity whichBucket / 2)
    have hlen' := hfreed.length
    refine ⟨_, .inr rfl, by omega, by omega, ?_⟩
    rw [MallocState.imFreeBatch, MallocState.trim, hfreed.counts.size, hfreed.counts.limit,
      if_neg (by omega)]
    exact hfreed
  · rw [hsize, hlimit, if_neg hover]
    exact ⟨0, .inl rfl, Nat.zero_le _, by omega, freed hc hw h 0⟩

/-- A block that is freed goes on the list of the worker, and perhaps a batch goes back. -/
theorem MallocInv.free {o : Handed} (hi : MallocInv system 0 s) (hw : w < s.nworkers)
    (ho : o ∈ s.handed) (hfree : s.cilkInternalFree w o.addr o.size o.tag = some t) :
    MallocInv system 0 { t with handed := t.handed.erase o } ∧ t.handed = s.handed ∧
      t.nworkers = s.nworkers ∧
      MallocState.blocks { t with handed := t.handed.erase o } = s.blocks := by
  obtain ⟨whichBucket, hsize⟩ := hi.blocks.fits o ho
  obtain ⟨h, hle⟩ := sizeToBucket_some hsize
  have hcount := hi.count hw h (-o.size) (-(bucketToSize whichBucket - o.size)) o.tag (-1)
  have hbytes : 0 + -(o.size : ℤ) + -(bucketToSize whichBucket - o.size) =
    -(bucketToSize whichBucket) := by omega
  have hcountBlocks := blocks_count hw whichBucket (-(o.size : ℤ))
    (-(bucketToSize whichBucket - o.size)) o.tag (-1)
  rw [hbytes] at hcount
  unfold MallocState.cilkInternalFree at hfree
  rw [if_neg (Nat.not_lt.mpr (sizeToBucket_le hsize)), hsize, Option.map_some,
    Option.some.injEq] at hfree
  dsimp only at hfree
  generalize hv : s.setWorker w ((s.workers w).count whichBucket (-o.size)
    (-(bucketToSize whichBucket - o.size)) o.tag (-1)) = v at hcount hcountBlocks hfree
  have hwv : w < v.nworkers := by rw [← hv]; exact hw
  have hlen : ((v.bucket w whichBucket).add o.addr).freeList.length =
      (v.bucket w whichBucket).freeList.length + 1 := List.length_cons
  have hadd := hcount.counts.setBucket (b := (v.bucket w whichBucket).add o.addr) hwv h
    (congrArg Nat.succ (hcount.counts.size w whichBucket)) (hcount.counts.limit w whichBucket) rfl
  have hextra : -(bucketToSize whichBucket : ℤ) +
      (((v.bucket w whichBucket).freeList.length + 1) * bucketToSize whichBucket : ℕ) -
      ((v.bucket w whichBucket).freeList.length * bucketToSize whichBucket : ℕ) = 0 := by
    rw [Nat.succ_mul]
    push_cast
    omega
  rw [hlen, hextra] at hadd
  have hblocks := blocks_add hwv h o.addr
  have hself : (v.setBucket w whichBucket ((v.bucket w whichBucket).add o.addr)).bucket w
      whichBucket = (v.bucket w whichBucket).add o.addr := bucket_setBucket_self
  have hlimit := hcount.within w whichBucket h
  obtain ⟨n, hn, hnle, hnlimit, hfreed⟩ := trimmed hadd hwv h (by rw [hself, hlen]; omega)
    (v.bucket w whichBucket).freeListSize
  rw [hself] at hfree
  have hfuel : ((v.bucket w whichBucket).add o.addr).freeListSize + 1 =
    (v.bucket w whichBucket).freeListSize + 2 := rfl
  rw [hfuel] at hfree
  rw [hfree] at hfreed
  have hvHanded : v.handed = s.handed := by rw [← hv]; rfl
  have hhanded : t.handed = s.handed := hfreed.handed.trans hvHanded
  have hblock : o.block = (whichBucket, o.addr) := by
    rw [Handed.block, hsize]
    rfl
  have hsame : MallocState.blocks { t with handed := t.handed.erase o } = s.blocks := by
    have hall := hfreed.blocks.trans hblocks
    rw [hcountBlocks] at hall
    have hcons : t.handed.map Handed.block =
        (t.handed.erase o).map Handed.block + {(whichBucket, o.addr)} := by
      rw [← Multiset.cons_erase (show o ∈ t.handed by rw [hhanded]; exact ho), Multiset.map_cons,
        hblock, Multiset.erase_cons_head, add_comm, Multiset.singleton_add]
    unfold MallocState.blocks at hall ⊢
    rw [hcons] at hall
    dsimp only
    apply add_right_cancel (b := {(whichBucket, o.addr)})
    rw [← hall]
    abel
  have hpool : t.pool = s.pool := by
    rw [← hv] at hfreed
    exact hfreed.pool
  have hdesc : v.desc = s.desc := by rw [← hv]; rfl
  refine ⟨⟨hi.blocks.congr hsame hpool fun b hb => ?_, ⟨hfreed.counts.descSize, hfreed.counts.size,
    hfreed.counts.limit, hfreed.counts.usedEq, hfreed.counts.allocatedEq⟩, ?_, fun i hlt => ?_,
    fun u i hlt => ?_⟩, hhanded, ?_, hsame⟩
  · exact hi.blocks.fits b (hhanded ▸ Multiset.mem_of_mem_erase hb)
  · unfold MallocState.available
    dsimp only
    rw [hpool]
    exact hi.pages
  · by_cases hself' : i = whichBucket
    · have hlist := hfreed.listLength
      rw [Nat.min_eq_left hnle] at hlist
      have hvdesc : (v.setBucket w whichBucket ((v.bucket w whichBucket).add o.addr)).desc =
        s.desc := hdesc
      rw [hself']
      dsimp only
      rw [hlist, hvdesc]
      apply Nat.dvd_add (hi.batches whichBucket h)
      rcases hn with rfl | rfl
      · exact Nat.dvd_zero _
      · exact Nat.dvd_refl _
    · exact (hfreed.otherLists i hself').symm ▸ hdesc.symm ▸ hi.batches i hlt
  · by_cases hne : u ≠ w ∨ i ≠ whichBucket
    · have hothers := (hfreed.others u i hne).trans (bucket_setBucket_of_ne hne)
      exact (congrArg (fun b : ImBucket => b.freeList.length) hothers).le.trans
        (hcount.within u i hlt)
    · push Not at hne
      have hlast := hfreed.length
      rw [hself, hlen] at hlast hnlimit
      rw [hne.1, hne.2]
      exact hlast.le.trans (by omega)
  · rw [← hv] at hfreed
    exact hfreed.nworkers

end Calls

section Runs

variable {system : ℕ → ℕ} {s t : MallocState} {n : ℕ}

theorem init_blocks : ImDesc.init.blocks = 0 := by
  apply Finset.sum_eq_zero
  intro i _
  rfl

theorem init_total : ImDesc.init.total = 0 := by decide

theorem mallocInv_initial : MallocInv system 0 (.initial n) := by
  have hblocks : (MallocState.initial n).blocks = 0 := by
    simp [MallocState.blocks, MallocState.initial, init_blocks]
  have hused : (MallocState.initial n).workersUsedAndFree = 0 := by
    apply Finset.sum_eq_zero
    intro w _
    exact init_total
  refine ⟨⟨⟨le_refl _, rfl, rfl, .inl rfl, rfl, ⟨Nat.zero_lt_succ 7, Nat.zero_le _⟩, fun i _ => rfl⟩, fun a => ?_,
    fun b hb => ?_, fun b hb => ?_⟩, ⟨fun _ => rfl, fun _ _ => rfl, fun _ _ => rfl, ?_, ?_⟩,
    Nat.dvd_zero _, fun _ _ => Nat.dvd_zero _, fun _ _ _ => Nat.zero_le _⟩
  · unfold MallocState.blockCovers
    have htail : (MallocState.initial n).pool.tailCovers a = 0 :=
      if_neg fun h => absurd h.2 (Nat.not_lt_zero a)
    rw [hblocks, Multiset.countP_zero, htail]
    rfl
  · rw [hblocks] at hb
    exact absurd hb (Multiset.notMem_zero b)
  · exact absurd hb (Multiset.notMem_zero b)
  · rw [hused]
    rfl
  · exact init_total

/-- The blocks that come straight from the system are none of the allocator's business. -/
theorem MallocInv.withLarge {extra : ℤ} (hi : MallocInv system extra s) (l : Multiset Handed) :
    MallocInv system extra { s with large := l } where
  blocks := ⟨hi.blocks.pool, hi.blocks.covers, hi.blocks.inside, hi.blocks.fits⟩
  counts := ⟨hi.counts.descSize, hi.counts.size, hi.counts.limit, hi.counts.usedEq,
    hi.counts.allocatedEq⟩
  pages := hi.pages
  batches := hi.batches
  within := hi.within

theorem MallocStep.keeps (hi : MallocInv system 0 s) (hs : MallocStep system s t) :
    MallocInv system 0 t ∧ s.blocks ≤ t.blocks := by
  cases hs with
  | malloc w size tag any hw hsize hmalloc =>
    have hkeep := hi.malloc hw hsize hmalloc
    exact ⟨hkeep.1, hkeep.2.2.2⟩
  | mallocLarge w size tag any hw hsize hmalloc =>
    obtain rfl := cilkInternalMalloc_large hsize hmalloc
    exact ⟨hi.withLarge _, le_refl _⟩
  | free w hw hb hfree =>
    have hkeep := hi.free hw hb hfree
    exact ⟨hkeep.1, hkeep.2.2.2.ge⟩
  | freeLarge w hw hb hsize hfree =>
    obtain rfl := cilkInternalFree_large hsize hfree
    exact ⟨hi.withLarge _, le_refl _⟩

theorem mallocInv_run (hrun : Reaches (MallocStep system) (.initial n) s) :
    MallocInv system 0 s :=
  hrun.preserves (fun _ _ hi hs => (hs.keeps hi).1) mallocInv_initial

/-- A worker allocates a block that has a bucket. -/
theorem exists_malloc (hrun : Reaches (MallocStep system) (.initial n) s) {w size : ℕ}
    (hw : w < s.nworkers) (hsize : size ≤ sizeThresh) (tag : ImTag) :
    ∃ mem t, Reaches (MallocStep system) (.initial n) t ∧ t.nworkers = s.nworkers ∧
      t.handed = ⟨mem, size, tag⟩ ::ₘ s.handed := by
  have hi := mallocInv_run hrun
  obtain ⟨whichBucket, hfit⟩ := sizeToBucket_isSome hsize
  obtain ⟨u, mem, rest, -, hhanded, hworkers, -, -, heq⟩ := hi.malloc_eq hw tag 0 hfit
  refine ⟨mem, _, hrun.tail (.malloc w size tag 0 hw hsize heq), hworkers, ?_⟩
  exact congrArg (⟨mem, size, tag⟩ ::ₘ ·) hhanded

/-- Any worker frees a block that was handed out. -/
theorem exists_free (hrun : Reaches (MallocStep system) (.initial n) s) {w : ℕ} {b : Handed}
    (hw : w < s.nworkers) (hb : b ∈ s.handed) :
    ∃ t, s.cilkInternalFree w b.addr b.size b.tag = some t ∧
      Reaches (MallocStep system) (.initial n) { t with handed := t.handed.erase b } ∧
      t.handed = s.handed := by
  have hi := mallocInv_run hrun
  obtain ⟨whichBucket, hfit⟩ := hi.blocks.fits b hb
  have hfree : ∃ t, s.cilkInternalFree w b.addr b.size b.tag = some t := by
    rw [← Option.isSome_iff_exists, MallocState.cilkInternalFree,
      if_neg (Nat.not_lt.mpr (sizeToBucket_le hfit)), hfit]
    rfl
  obtain ⟨t, hfree⟩ := hfree
  exact ⟨t, hfree, hrun.tail (.free w hw hb hfree), (hi.free hw hb hfree).2.1⟩

/-- A worker is served by the system. -/
theorem exists_mallocLarge (hrun : Reaches (MallocStep system) (.initial n) s) {w size : ℕ}
    (hw : w < s.nworkers) (hsize : sizeThresh < size) (tag : ImTag) (mem : ℕ) :
    Reaches (MallocStep system) (.initial n) { s with large := ⟨mem, size, tag⟩ ::ₘ s.large } := by
  refine hrun.tail (.mallocLarge w size tag mem hw hsize ?_)
  rw [MallocState.cilkInternalMalloc, sizeToBucket_none hsize]

/-- The chunks of the system do not overlap. -/
def ChunksDisjoint (system : ℕ → ℕ) : Prop :=
  Pairwise fun k l => system k + internalMallocChunkSize ≤ system l ∨
    system l + internalMallocChunkSize ≤ system k

theorem ChunksDisjoint.covers_le (hsys : ChunksDisjoint system) (k a : ℕ) :
    chunkCovers system k a ≤ 1 := by
  induction k with
  | zero => exact Nat.zero_le _
  | succ k ih =>
    unfold chunkCovers at ih ⊢
    rw [Finset.sum_range_succ]
    by_cases hlast : system k ≤ a ∧ a < system k + internalMallocChunkSize
    · have hzero : ∑ l ∈ Finset.range k,
          (if system l ≤ a ∧ a < system l + internalMallocChunkSize then 1 else 0) = 0 := by
        apply Finset.sum_eq_zero
        intro l hl
        have hne : l ≠ k := (Finset.mem_range.mp hl).ne
        have hapart := hsys hne
        exact if_neg (by omega)
      rw [hzero, if_pos hlast]
    · rw [if_neg hlast]
      exact ih

theorem ChunksDisjoint.injective (hsys : ChunksDisjoint system) : Function.Injective system := by
  intro k l hkl
  by_contra hne
  have hapart := hsys hne
  dsimp only at hapart
  rw [hkl] at hapart
  have hpos : 0 < internalMallocChunkSize := by decide
  omega

/-- What every sequence of calls keeps true of the blocks: those handed out and those on the free
lists, with the tail of the pool, share the bytes of the chunks, and each chunk is recorded once. -/
structure Partitioned (system : ℕ → ℕ) (s : MallocState) : Prop where
  recorded : ∀ k < s.pool.chunks, ∃! i : ℕ, i ≤ s.pool.memListIndex ∧
    s.pool.memList i = system k
  chunk : ∀ i : ℕ, i ≤ s.pool.memListIndex → i < s.pool.memListSize ∧
    ∃ k < s.pool.chunks, s.pool.memList i = system k
  inside : ∀ b ∈ s.blocks, ∃ i : ℕ, i ≤ s.pool.memListIndex ∧ s.pool.memList i ≤ b.2 ∧
    b.2 + bucketToSize b.1 ≤ s.pool.memList i + internalMallocChunkSize
  tail : s.pool.memBegin = s.pool.memEnd ∨ ∃ i : ℕ, i = s.pool.memListIndex ∧
    s.pool.memList i ≤ s.pool.memBegin ∧
    s.pool.memEnd = s.pool.memList i + internalMallocChunkSize
  disjoint : ∀ a, s.blockCovers a + s.pool.tailCovers a ≤ 1
  complete : ∀ i : ℕ, i ≤ s.pool.memListIndex → ∀ a, s.pool.memList i ≤ a →
    a < s.pool.memList i + internalMallocChunkSize →
    s.blockCovers a + s.pool.tailCovers a = 1
  large : ∀ b ∈ s.handed, b.size ≤ bucketToSize b.block.1

theorem MallocInv.partitioned (hsys : ChunksDisjoint system) (hi : MallocInv system 0 s) :
    Partitioned system s := by
  have hpool := hi.blocks.pool
  have hindex := hpool.index
  have hsize := hpool.listSize
  have hrecorded : ∀ i : ℕ, i ≤ s.pool.memListIndex →
      i < s.pool.chunks ∧ s.pool.memList i = system i := by
    intro i hle
    have hlt : i < s.pool.chunks := by omega
    rw [hpool.recorded i (hlt.trans_le hsize.2), if_pos hlt]
    exact ⟨hlt, rfl⟩
  refine ⟨fun k hk => ⟨k, ⟨by omega, (hrecorded k (by omega)).2⟩, fun i hik => ?_⟩,
    fun i hle => ?_, fun b hb => ?_, ?_, fun a => ?_, fun i hle a hfrom hto => ?_, fun b hb => ?_⟩
  · exact hsys.injective ((hrecorded i hik.1).2.symm.trans hik.2)
  · have hrec := hrecorded i hle
    exact ⟨hrec.1.trans_le hsize.2, i, hrec⟩
  · obtain ⟨k, hk, hin⟩ := hi.blocks.inside b hb
    refine ⟨k, by omega, ?_⟩
    rw [(hrecorded k (by omega)).2]
    exact hin
  · refine hpool.tail.imp_right fun ⟨k, hk, hin⟩ => ⟨k, by omega, ?_⟩
    rw [(hrecorded k (by omega)).2]
    exact hin
  · rw [hi.blocks.covers a]
    exact hsys.covers_le _ _
  · obtain ⟨hlt, hrec⟩ := hrecorded i hle
    rw [hrec] at hfrom hto
    rw [hi.blocks.covers a]
    apply le_antisymm (hsys.covers_le _ _)
    have hone : (if system i ≤ a ∧ a < system i + internalMallocChunkSize then 1 else 0) = 1 :=
      if_pos ⟨hfrom, hto⟩
    calc 1 = _ := hone.symm
      _ ≤ chunkCovers system s.pool.chunks a := Finset.single_le_sum
          (f := fun k => if system k ≤ a ∧ a < system k + internalMallocChunkSize then 1 else 0)
          (fun _ _ => Nat.zero_le _) (Finset.mem_range.mpr hlt)
  · obtain ⟨whichBucket, hfit⟩ := hi.blocks.fits b hb
    unfold Handed.block
    rw [hfit]
    exact (sizeToBucket_some hfit).2

/-- A call is answered, by any worker. -/
theorem MallocInv.answers (hi : MallocInv system 0 s) {w : ℕ} (hw : w < s.nworkers) :
    (∀ size tag any, (s.cilkInternalMalloc system w size tag any).isSome) ∧
      ∀ b ∈ s.handed, (s.cilkInternalFree w b.addr b.size b.tag).isSome := by
  refine ⟨fun size tag any => ?_, fun b hb => ?_⟩
  · by_cases hsize : size ≤ sizeThresh
    · obtain ⟨whichBucket, hfit⟩ := sizeToBucket_isSome hsize
      obtain ⟨u, mem, rest, -, -, -, -, -, heq⟩ := hi.malloc_eq hw tag any hfit
      rw [heq]
      rfl
    · rw [MallocState.cilkInternalMalloc, sizeToBucket_none (Nat.not_le.mp hsize)]
      rfl
  · obtain ⟨whichBucket, hfit⟩ := hi.blocks.fits b hb
    rw [MallocState.cilkInternalFree, if_neg (Nat.not_lt.mpr (sizeToBucket_le hfit)), hfit]
    rfl

/-- After every sequence of calls the blocks partition the chunks, no call makes a block disappear,
and every call is answered. -/
theorem internalMalloc_partitions (hsys : ChunksDisjoint system)
    (hrun : Reaches (MallocStep system) (.initial n) s) :
    Partitioned system s ∧ (∀ t, MallocStep system s t → s.blocks ≤ t.blocks) ∧
    ∀ w < s.nworkers,
      (∀ size tag any, (s.cilkInternalMalloc system w size tag any).isSome) ∧
      ∀ b ∈ s.handed, (s.cilkInternalFree w b.addr b.size b.tag).isSome := by
  have hi := mallocInv_run hrun
  exact ⟨hi.partitioned hsys, fun t hs => (hs.keeps hi).2, fun w hw => hi.answers hw⟩

/-- Chunks side by side. -/
def adjacentChunks (k : ℕ) : ℕ := internalMallocChunkSize * (k + 1)

theorem adjacentChunks_disjoint : ChunksDisjoint adjacentChunks := by
  intro k l hne
  unfold adjacentChunks internalMallocChunkSize
  omega

/-- Worker 0 allocates two blocks, and worker 1 one from the system. -/
theorem otherWorker_frees : ∃ s root b, Reaches (MallocStep adjacentChunks) (.initial 2) s ∧
    root.size = 256 ∧ s.nworkers = 2 ∧ s.handed = {b, root} ∧
    ∃ large ∈ s.large, large.size = 5000 := by
  have hstart : Reaches (MallocStep adjacentChunks) (.initial 2) (.initial 2) := .refl
  have hroot : 256 ≤ sizeThresh := by decide
  have hsmall : 100 ≤ sizeThresh := by decide
  have hlarge : sizeThresh < 5000 := by decide
  obtain ⟨mem, s, hs, hworkers, hhanded⟩ :=
    exists_malloc hstart (w := 0) Nat.two_pos hroot .closure
  have hs0 : s.handed = {⟨mem, 256, .closure⟩} := hhanded
  obtain ⟨mem', t, ht, hworkers', hhanded'⟩ :=
    exists_malloc hs (w := 0) (hworkers ▸ Nat.two_pos) hsmall .fiber
  have hlast := exists_mallocLarge ht (w := 1) (hworkers'.trans hworkers ▸ Nat.one_lt_two) hlarge
    .fiber 4096
  exact ⟨_, _, _, hlast, rfl, hworkers'.trans hworkers, hs0 ▸ hhanded', _,
    Multiset.mem_cons_self _ _, rfl⟩

/-- Worker 1 frees a block of worker 0. -/
theorem internalMalloc_partitions_first : ∃ s root b t,
    Reaches (MallocStep adjacentChunks) (.initial 2) s ∧ s.handed = {b, root} ∧
    s.cilkInternalFree 1 b.addr b.size b.tag = some t ∧
    Partitioned adjacentChunks { t with handed := t.handed.erase b } := by
  obtain ⟨s, root, b, hrun, -, hworkers, hhanded, -⟩ := otherWorker_frees
  have hb : b ∈ s.handed := by rw [hhanded]; exact Multiset.mem_cons_self b _
  obtain ⟨t, hfree, hlast, -⟩ := exists_free hrun (w := 1) (hworkers ▸ by decide) hb
  exact ⟨s, root, b, t, hrun, hhanded, hfree,
    (internalMalloc_partitions adjacentChunks_disjoint hlast).1⟩

/-- After every sequence of calls both equations of `internal_malloc_global_check` hold, nothing of a
chunk was wasted, and each list of a worker is within its limit. -/
theorem internalMalloc_accounts (hrun : Reaches (MallocStep system) (.initial n) s) :
    s.UsedEq ∧ s.AllocatedEq ∧ s.pool.wasted = 0 ∧
    ∀ w, ∀ i < numBuckets, (s.bucket w i).freeListSize = (s.bucket w i).freeList.length ∧
      (s.bucket w i).freeListSize ≤ (s.bucket w i).freeListLimit := by
  have hi := mallocInv_run hrun
  refine ⟨(add_zero _).symm.trans hi.counts.usedEq, hi.counts.allocatedEq, hi.blocks.pool.wasted,
    fun w i hlt => ⟨hi.counts.size w i, ?_⟩⟩
  rw [hi.counts.size, hi.counts.limit]
  exact hi.within w i hlt

/-- The bytes that worker 1 has freed count against it. -/
theorem internalMalloc_accounts_first : ∃ s b t,
    Reaches (MallocStep adjacentChunks) (.initial 2) s ∧ b ∈ s.handed ∧
    s.cilkInternalFree 1 b.addr b.size b.tag = some t ∧
    MallocState.UsedEq { t with handed := t.handed.erase b } := by
  obtain ⟨s, root, b, hrun, -, hworkers, hhanded, -⟩ := otherWorker_frees
  have hb : b ∈ s.handed := by rw [hhanded]; exact Multiset.mem_cons_self b _
  obtain ⟨t, hfree, hlast, -⟩ := exists_free hrun (w := 1) (hworkers ▸ by decide) hb
  exact ⟨s, b, t, hrun, hb, hfree, (internalMalloc_accounts hlast).1⟩

end Runs

end Cheetah
