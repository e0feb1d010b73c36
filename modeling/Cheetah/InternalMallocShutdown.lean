import Cheetah.InternalMallocRuns

/-! The counts of the calls, and what the check of the memory finds when the runtime shuts down. -/
namespace Cheetah

section Calls

variable {system : ℕ → ℕ} {s t u : MallocState} {w whichBucket size : ℕ} {tag : ImTag}

/-- No call was counted between the two states. -/
structure SameCalls (s t : MallocState) : Prop where
  desc : t.desc.numMalloc = s.desc.numMalloc
  workers : ∀ w, (t.workers w).numMalloc = (s.workers w).numMalloc
  nworkers : t.nworkers = s.nworkers

theorem SameCalls.refl : SameCalls s s := ⟨rfl, fun _ => rfl, rfl⟩

theorem SameCalls.trans (hst : SameCalls s t) (htu : SameCalls t u) : SameCalls s u :=
  ⟨htu.desc.trans hst.desc, fun w => (htu.workers w).trans (hst.workers w),
    htu.nworkers.trans hst.nworkers⟩

theorem SameCalls.total (hst : SameCalls s t) : t.totalMalloc tag = s.totalMalloc tag := by
  unfold MallocState.totalMalloc
  simp only [hst.desc, hst.workers, hst.nworkers]

theorem sameCalls_setBucket {b : ImBucket} : SameCalls s (s.setBucket w whichBucket b) := by
  refine ⟨rfl, fun v => ?_, rfl⟩
  unfold MallocState.setBucket MallocState.setWorker
  dsimp only
  by_cases hv : v = w
  · rw [hv, Function.update_self]
    rfl
  · rw [Function.update_of_ne hv]

theorem sameCalls_setGlobal {desc : ImDesc} {pool : GlobalImPool} {b : ImBucket}
    (h : desc.numMalloc = s.desc.numMalloc) :
    SameCalls s ((s.setGlobal desc pool).setBucket w whichBucket b) := by
  have hglobal : SameCalls s (s.setGlobal desc pool) := ⟨h, fun _ => rfl, rfl⟩
  exact hglobal.trans sameCalls_setBucket

theorem sameCalls_allocateOne :
    SameCalls s (s.allocateOne system w size whichBucket) := by
  cases hlist : (s.desc.buckets whichBucket).freeList with
  | nil =>
    rw [allocateOne_pool hlist]
    exact sameCalls_setGlobal rfl
  | cons mem rest =>
    rw [allocateOne_list hlist]
    exact sameCalls_setGlobal rfl

theorem sameCalls_batch : SameCalls s (s.imAllocateBatch system w size whichBucket) := by
  have hloop : ∀ n, SameCalls s
      ((MallocState.allocateOne system w size whichBucket)^[n] s) := by
    intro n
    induction n with
    | zero => exact .refl
    | succ n ih =>
      rw [Function.iterate_succ_apply']
      exact ih.trans sameCalls_allocateOne
  exact (hloop _).trans sameCalls_setBucket

theorem sameCalls_freeLoop (n : ℕ) : SameCalls s (s.freeLoop w size whichBucket n) := by
  induction n generalizing s with
  | zero => exact .refl
  | succ n ih =>
    cases hlist : (s.bucket w whichBucket).freeList with
    | nil =>
      rw [freeLoop_nil _ hlist]
      exact .refl
    | cons mem rest =>
      rw [freeLoop_cons n hlist]
      have hone : SameCalls s (s.freeOne w size whichBucket mem) :=
        sameCalls_setGlobal rfl
      exact hone.trans ih

theorem sameCalls_trim (fuel : ℕ) : SameCalls s (s.trim w size whichBucket fuel) := by
  induction fuel generalizing s with
  | zero => exact .refl
  | succ fuel ih =>
    rw [MallocState.trim]
    split_ifs
    · exact (sameCalls_freeLoop _).trans ih
    · exact .refl

theorem sameCalls_drain (fuel : ℕ) : SameCalls s (s.drain w whichBucket fuel) := by
  induction fuel generalizing s with
  | zero => exact .refl
  | succ fuel ih =>
    rw [MallocState.drain]
    split_ifs
    · exact .refl
    · exact (sameCalls_freeLoop _).trans ih

theorem sameCalls_drainAll (buckets : List ℕ) : SameCalls s (s.drainAll w buckets) := by
  induction buckets generalizing s with
  | nil => exact .refl
  | cons i rest ih => exact (sameCalls_drain _).trans ih

/-- A call is counted by the worker that makes it. -/
theorem totalMalloc_count (hw : w < s.nworkers) (whichBucket : ℕ) (tag : ImTag)
    (used wasted calls : ℤ) (tag' : ImTag) :
    (s.setWorker w ((s.workers w).count whichBucket used wasted tag calls)).totalMalloc tag' =
      s.totalMalloc tag' + if tag' = tag then calls else 0 := by
  have hsum := sum_range_change (n := s.nworkers) (i := w)
    (f := fun v => (Function.update s.workers w
      ((s.workers w).count whichBucket used wasted tag calls) v).numMalloc tag')
    (g := fun v => (s.workers v).numMalloc tag') hw
    (fun k hk => by rw [Function.update_of_ne hk])
  simp only [Function.update_self] at hsum
  have hcount : ((s.workers w).count whichBucket used wasted tag calls).numMalloc tag' =
      (s.workers w).numMalloc tag' + if tag' = tag then calls else 0 := by
    by_cases htag : tag' = tag
    · rw [htag, if_pos rfl]
      exact Function.update_self _ _ _
    · rw [if_neg htag, add_zero]
      exact Function.update_of_ne htag _ _
  rw [hcount] at hsum
  have hnew : (s.setWorker w ((s.workers w).count whichBucket used wasted tag calls)).totalMalloc
      tag' = s.desc.numMalloc tag' + ∑ v ∈ Finset.range s.nworkers, (Function.update s.workers w
        ((s.workers w).count whichBucket used wasted tag calls) v).numMalloc tag' := rfl
  have hold : s.totalMalloc tag' = s.desc.numMalloc tag' +
      ∑ v ∈ Finset.range s.nworkers, (s.workers v).numMalloc tag' := rfl
  omega

theorem totalMalloc_malloc {mem any : ℕ} (hw : w < s.nworkers) (tag' : ImTag)
    (hle : size ≤ sizeThresh)
    (hmalloc : s.cilkInternalMalloc system w size tag any = some (mem, t)) :
    t.totalMalloc tag' = s.totalMalloc tag' + if tag' = tag then 1 else 0 := by
  obtain ⟨whichBucket, hsize⟩ := sizeToBucket_isSome hle
  rw [MallocState.cilkInternalMalloc, hsize] at hmalloc
  dsimp only at hmalloc
  have hcount := totalMalloc_count hw whichBucket tag size
    (bucketToSize whichBucket - size) 1 tag'
  generalize s.setWorker w ((s.workers w).count whichBucket size
    (bucketToSize whichBucket - size) tag 1) = v at hcount hmalloc
  obtain ⟨res, hres, heq⟩ := Option.map_eq_some_iff.mp hmalloc
  have ht := congrArg Prod.snd heq
  dsimp only at ht
  rw [← hcount, ← ht]
  split_ifs
  · exact (sameCalls_batch.trans sameCalls_setBucket).total
  · exact sameCalls_setBucket.total

theorem totalMalloc_free {p : ℕ} (hw : w < s.nworkers) (tag' : ImTag) (hle : size ≤ sizeThresh)
    (hfree : s.cilkInternalFree w p size tag = some t) :
    t.totalMalloc tag' = s.totalMalloc tag' + if tag' = tag then -1 else 0 := by
  rw [MallocState.cilkInternalFree, if_neg (Nat.not_lt.mpr hle)] at hfree
  obtain ⟨whichBucket, -, heq⟩ := Option.map_eq_some_iff.mp hfree
  rw [← heq, ← totalMalloc_count hw whichBucket tag (-size)
    (-(bucketToSize whichBucket - size)) (-1) tag']
  exact (sameCalls_setBucket.trans (sameCalls_trim _)).total

/-- The blocks that are handed out are counted under their tag. -/
theorem MallocStep.totals (hi : MallocInv system 0 s)
    (htotal : ∀ tag, s.totalMalloc tag = s.handed.countP (·.tag = tag))
    (hs : MallocStep system s t) :
    ∀ tag, t.totalMalloc tag = t.handed.countP (·.tag = tag) := by
  intro tag'
  cases hs with
  | @malloc u w size tag any mem hw hsize hmalloc =>
    have hcalls : u.totalMalloc tag' = _ := totalMalloc_malloc hw tag' hsize hmalloc
    have hhanded := (hi.malloc hw hsize hmalloc).2.1
    dsimp only
    rw [Multiset.countP_cons, hhanded]
    push_cast
    rw [← htotal tag']
    have hsym : tag = tag' ↔ tag' = tag := eq_comm
    simp only [hsym]
    exact hcalls
  | mallocLarge w size tag any hw hsize hmalloc =>
    obtain rfl := cilkInternalMalloc_large hsize hmalloc
    exact htotal tag'
  | freeLarge w hw hb hsize hfree =>
    obtain rfl := cilkInternalFree_large hsize hfree
    exact htotal tag'
  | @free u w b hw hb hfree =>
    obtain ⟨whichBucket, hfit⟩ := hi.blocks.fits b hb
    have hcalls : u.totalMalloc tag' = _ := totalMalloc_free hw tag' (sizeToBucket_le hfit) hfree
    have hhanded := (hi.free hw hb hfree).2.1
    dsimp only
    have hsplit : (s.handed.countP (·.tag = tag') : ℤ) =
        (s.handed.erase b).countP (·.tag = tag') + if b.tag = tag' then 1 else 0 := by
      rw [← Multiset.cons_erase hb, Multiset.countP_cons, Multiset.erase_cons_head]
      push_cast
      rfl
    have hsym : b.tag = tag' ↔ tag' = b.tag := eq_comm
    have hnew : MallocState.totalMalloc { u with handed := u.handed.erase b } tag' =
      u.totalMalloc tag' := rfl
    have hold := htotal tag'
    rw [hnew, hcalls, hhanded, hold, hsplit]
    simp only [hsym]
    split_ifs <;> omega

theorem totals_run {n : ℕ} (hrun : Reaches (MallocStep system) (.initial n) s) :
    ∀ tag, s.totalMalloc tag = s.handed.countP (·.tag = tag) := by
  have hstep : ∀ s t : MallocState, (MallocInv system 0 s ∧
      ∀ tag, s.totalMalloc tag = s.handed.countP (·.tag = tag)) → MallocStep system s t →
      MallocInv system 0 t ∧ ∀ tag, t.totalMalloc tag = t.handed.countP (·.tag = tag) :=
    fun _ _ hi hs => ⟨(hs.keeps hi.1).1, hs.totals hi.1 hi.2⟩
  have hinit : ∀ tag, (MallocState.initial n).totalMalloc tag =
      (MallocState.initial n).handed.countP (·.tag = tag) := by
    intro tag
    have hzero : ∑ w ∈ Finset.range n, ((MallocState.initial n).workers w).numMalloc tag = 0 :=
      Finset.sum_eq_zero fun _ _ => rfl
    unfold MallocState.totalMalloc
    exact (congrArg (0 + ·) hzero).trans rfl
  exact (hrun.preserves hstep ⟨mallocInv_initial, hinit⟩).2

end Calls

section Shutdown

variable {system : ℕ → ℕ} {s t u : MallocState} {w whichBucket size : ℕ} {tag : ImTag} {extra : ℤ}

/-- Every batch takes a block off the list, so the loop ends with an empty list. -/
theorem drained (hc : CountInv extra s) (hw : w < s.nworkers) (h : whichBucket < numBuckets)
    (fuel : ℕ) : CountInv extra (s.drain w whichBucket fuel) ∧
      ((s.bucket w whichBucket).freeList.length < fuel →
        ((s.drain w whichBucket fuel).bucket w whichBucket).freeList = []) ∧
      ∀ v i, v ≠ w ∨ i ≠ whichBucket → (s.drain w whichBucket fuel).bucket v i = s.bucket v i := by
  induction fuel generalizing s with
  | zero => exact ⟨hc, fun hlt => absurd hlt (Nat.not_lt_zero _), fun _ _ _ => rfl⟩
  | succ fuel ih =>
    rw [MallocState.drain]
    by_cases hempty : (s.bucket w whichBucket).freeList = []
    · rw [if_pos hempty]
      exact ⟨hc, fun _ => hempty, fun _ _ _ => rfl⟩
    · rw [if_neg hempty]
      have hfreed := freed hc hw h (bucketCapacity whichBucket / 2)
      have hrest := ih hfreed.counts (by rw [hfreed.nworkers]; exact hw)
      refine ⟨hrest.1, fun hlt => hrest.2.1 ?_,
        fun v i hvi => (hrest.2.2 v i hvi).trans (hfreed.others v i hvi)⟩
      have hpos := List.length_pos_of_ne_nil hempty
      have hbatch : 0 < bucketCapacity whichBucket / 2 :=
        Nat.div_pos (bucketCapacity_pos h) (by decide)
      rw [hfreed.length]
      omega

/-- Every list of the worker is empty after it terminates. -/
theorem drainedAll (buckets : List ℕ) (hlt : ∀ i ∈ buckets, i < numBuckets)
    (hc : CountInv extra s) (hw : w < s.nworkers) :
    CountInv extra (s.drainAll w buckets) ∧
      (∀ i ∈ buckets, ((s.drainAll w buckets).bucket w i).freeList = []) ∧
      ∀ i ∉ buckets, (s.drainAll w buckets).bucket w i = s.bucket w i := by
  induction buckets generalizing s with
  | nil => exact ⟨hc, fun i hi => absurd hi List.not_mem_nil, fun _ _ => rfl⟩
  | cons j rest ih =>
    have hone := drained hc hw (hlt j List.mem_cons_self) ((s.bucket w j).freeList.length + 1)
    have hworkers : (s.drain w j ((s.bucket w j).freeList.length + 1)).nworkers = s.nworkers :=
      (sameCalls_drain _).nworkers
    have hrest := ih (fun i hi => hlt i (List.mem_cons_of_mem j hi)) hone.1
      (by rw [hworkers]; exact hw)
    refine ⟨hrest.1, fun i hi => ?_, fun i hi => ?_⟩
    · by_cases hin : i ∈ rest
      · exact hrest.2.1 i hin
      · obtain rfl := (List.mem_cons.mp hi).resolve_right hin
        exact (congrArg ImBucket.freeList (hrest.2.2 i hin)).trans
          (hone.2.1 (Nat.lt_succ_self _))
    · have hne : i ≠ j ∧ i ∉ rest := not_or.mp fun hor => hi (List.mem_cons.mpr hor)
      exact (hrest.2.2 i hne.2).trans (hone.2.2 w i (.inr hne.1))

theorem CountInv.moveCalls (hc : CountInv extra s) : CountInv extra (s.moveCalls w) := by
  have hbucket : ∀ v i, (s.moveCalls w).bucket v i = s.bucket v i := by
    intro v i
    unfold MallocState.moveCalls MallocState.setWorker MallocState.bucket
    dsimp only
    by_cases hv : v = w
    · rw [hv, Function.update_self]
    · rw [Function.update_of_ne hv]
  have htotal : (s.moveCalls w).workersUsedAndFree = s.workersUsedAndFree := by
    unfold MallocState.workersUsedAndFree
    apply Finset.sum_congr rfl
    intro v _
    unfold MallocState.moveCalls MallocState.setWorker
    dsimp only
    by_cases hv : v = w
    · rw [hv, Function.update_self]
      rfl
    · rw [Function.update_of_ne hv]
  exact ⟨hc.descSize, fun v i => by rw [hbucket]; exact hc.size v i,
    fun v i => by rw [hbucket]; exact hc.limit v i, hc.usedEq.trans htotal.symm, hc.allocatedEq⟩

theorem totalMalloc_moveCalls (hw : w < s.nworkers) :
    (s.moveCalls w).totalMalloc tag = s.totalMalloc tag := by
  have hsum := sum_range_change (n := s.nworkers) (i := w)
    (f := fun v => (Function.update s.workers w
      { s.workers w with numMalloc := fun _ => 0 } v).numMalloc tag)
    (g := fun v => (s.workers v).numMalloc tag) hw
    (fun k hk => by rw [Function.update_of_ne hk])
  simp only [Function.update_self] at hsum
  have hnew : (s.moveCalls w).totalMalloc tag = s.desc.numMalloc tag +
      (s.workers w).numMalloc tag + ∑ v ∈ Finset.range s.nworkers, (Function.update s.workers w
        { s.workers w with numMalloc := fun _ => 0 } v).numMalloc tag := rfl
  have hold : s.totalMalloc tag = s.desc.numMalloc tag +
      ∑ v ∈ Finset.range s.nworkers, (s.workers v).numMalloc tag := rfl
  dsimp only at hnew
  omega

/-- What the termination of a worker keeps, and what it does to the counts of the calls. -/
theorem perWorkerTerminate_keeps (hc : CountInv extra s) (hw : w < s.nworkers) :
    CountInv extra (s.perWorkerTerminate w) ∧
      (s.perWorkerTerminate w).nworkers = s.nworkers ∧
      (∀ tag, (s.perWorkerTerminate w).totalMalloc tag = s.totalMalloc tag) ∧
      (∀ tag, ((s.perWorkerTerminate w).workers w).numMalloc tag = 0) ∧
      ∀ v, v ≠ w → ((s.perWorkerTerminate w).workers v).numMalloc = (s.workers v).numMalloc := by
  have hsame : SameCalls s (s.drainAll w (List.range numBuckets)) := sameCalls_drainAll _
  have hwt : w < (s.drainAll w (List.range numBuckets)).nworkers := by
    rw [hsame.nworkers]
    exact hw
  have hdrained := drainedAll (List.range numBuckets) (fun i hi => List.mem_range.mp hi) hc hw
  refine ⟨hdrained.1.moveCalls, hsame.nworkers,
    fun tag => (totalMalloc_moveCalls hwt).trans hsame.total, fun tag => ?_, fun v hv => ?_⟩
  · unfold MallocState.perWorkerTerminate MallocState.moveCalls MallocState.setWorker
    dsimp only
    rw [Function.update_self]
  · have hother : ((s.perWorkerTerminate w).workers v) =
        (s.drainAll w (List.range numBuckets)).workers v := Function.update_of_ne hv _ _
    rw [hother]
    exact hsame.workers v

/-- The drift of the counters is the same at each check. -/
theorem workersTerminate_keeps (n : ℕ) (hc : CountInv extra s) (hn : n ≤ s.nworkers)
    (htotal : ∀ tag, s.totalMalloc tag = 0) :
    (∀ c ∈ (MallocState.workersTerminate n s).1,
      CountInv extra c ∧ ∀ tag, c.totalMalloc tag = 0) ∧
    CountInv extra (MallocState.workersTerminate n s).2 ∧
    (MallocState.workersTerminate n s).2.nworkers = s.nworkers ∧
    (∀ tag, (MallocState.workersTerminate n s).2.totalMalloc tag = 0) ∧
    (∀ v < n, ∀ tag, ((MallocState.workersTerminate n s).2.workers v).numMalloc tag = 0) ∧
    ∀ v ≥ n, ((MallocState.workersTerminate n s).2.workers v).numMalloc =
      (s.workers v).numMalloc := by
  induction n generalizing s with
  | zero => exact ⟨fun c hmem => absurd hmem List.not_mem_nil, hc, rfl, htotal,
      fun v hv => absurd hv (Nat.not_lt_zero v), fun _ _ => rfl⟩
  | succ n ih =>
    obtain ⟨hone, hworkers, hsame, hself, hothers⟩ := perWorkerTerminate_keeps hc hn
    have hnext : ∀ tag, (s.perWorkerTerminate n).totalMalloc tag = 0 :=
      fun tag => (hsame tag).trans (htotal tag)
    obtain ⟨hchecks, hlast, hnum, hzero, hdone, hrest⟩ :=
      ih hone (by rw [hworkers]; exact Nat.le_of_succ_le hn) hnext
    rw [MallocState.workersTerminate]
    refine ⟨fun c hmem => ?_, hlast, hnum.trans hworkers, hzero, fun v hv tag => ?_,
      fun v hv => ?_⟩
    · rcases List.mem_cons.mp hmem with rfl | hmem
      · exact ⟨hc, htotal⟩
      · rcases List.mem_cons.mp hmem with rfl | hmem
        · exact ⟨hone, hnext⟩
        · exact hchecks c hmem
    · rcases Nat.lt_succ_iff_lt_or_eq.mp hv with hlt | rfl
      · exact hdone v hlt tag
      · exact (congrFun (hrest v (Nat.le_refl v)) tag).trans (hself tag)
    · have hne : v ≠ n := by omega
      exact (hrest v (by omega)).trans (hothers v hne)

/-- The root closure goes back to the global lists, which no longer count it as used. What worker 0
counted for it stays. -/
theorem freeGlobal_keeps {root : Handed} (hi : MallocInv system 0 s) (hroot : root ∈ s.handed) :
    ∃ t, s.cilkInternalFreeGlobal root.addr root.size root.tag = some t ∧
      CountInv (bucketToSize root.block.1) t ∧ t.nworkers = s.nworkers ∧
      ∀ tag, t.totalMalloc tag = s.totalMalloc tag + if tag = root.tag then -1 else 0 := by
  obtain ⟨whichBucket, hfit⟩ := hi.blocks.fits root hroot
  obtain ⟨h, -⟩ := sizeToBucket_some hfit
  have hblock : root.block.1 = whichBucket := by
    rw [Handed.block, hfit]
    rfl
  obtain ⟨d, hd⟩ : ∃ d, d = ((s.desc.setBucket whichBucket ((s.desc.buckets whichBucket).add
      root.addr)).countCalls root.tag (-1)).addUsed (-(bucketToSize whichBucket)) := ⟨_, rfl⟩
  have hself : d.buckets whichBucket = (s.desc.buckets whichBucket).add root.addr := by
    rw [hd]
    exact ImDesc.setBucket_self
  have hother : ∀ i, i ≠ whichBucket → d.buckets i = s.desc.buckets i := by
    intro i hi
    rw [hd]
    exact ImDesc.setBucket_of_ne hi
  have hused : d.used = s.desc.used + -(bucketToSize whichBucket) := by rw [hd]; rfl
  have hcalls : ∀ tag, d.numMalloc tag =
      s.desc.numMalloc tag + if tag = root.tag then -1 else 0 := by
    intro tag
    rw [hd]
    by_cases htag : tag = root.tag
    · rw [htag, if_pos rfl]
      exact Function.update_self _ _ _
    · rw [if_neg htag, add_zero]
      exact Function.update_of_ne htag _ _
  have hbytes : d.used + d.freeBytes = s.desc.used + s.desc.freeBytes := by
    have hback := ImDesc.takeBack_freeBytes (d := s.desc) root.addr h
    have hlists : d.buckets =
        (s.desc.takeBack (bucketToSize whichBucket) whichBucket root.addr).buckets := by
      rw [hd]
      rfl
    have hfree : d.freeBytes =
        (s.desc.takeBack (bucketToSize whichBucket) whichBucket root.addr).freeBytes := by
      unfold ImDesc.freeBytes
      rw [hlists]
    rw [← hback, hused, hfree]
    rfl
  have hcounts := hi.counts.setGlobal d s.pool (fun i => by
    by_cases hi' : i = whichBucket
    · rw [hi', hself]
      exact congrArg Nat.succ (hi.counts.descSize whichBucket)
    · rw [hother i hi']
      exact hi.counts.descSize i) (by rw [hbytes]; exact hi.counts.allocatedEq)
  have hextra : 0 + s.desc.used - d.used = bucketToSize whichBucket := by omega
  rw [hextra] at hcounts
  refine ⟨s.setGlobal d s.pool, ?_, by rw [hblock]; exact hcounts, rfl, fun tag => ?_⟩
  · rw [MallocState.cilkInternalFreeGlobal, hfit, Option.map_some, hd]
    rfl
  · have hnew : (s.setGlobal d s.pool).totalMalloc tag = d.numMalloc tag +
        ∑ v ∈ Finset.range s.nworkers, (s.workers v).numMalloc tag := rfl
    rw [hnew, hcalls tag]
    exact add_right_comm _ _ _

/-- What a check at shutdown needs: both equations wherever `internal_malloc_global_check` may be
called, and in the end no call that was not freed. -/
def AccountsClosed (checks : List MallocState) (u : MallocState) : Prop :=
  (∀ c ∈ checks, c.UsedEq ∧ c.AllocatedEq) ∧ ∀ tag, u.desc.numMalloc tag = 0

/-- In every run that has freed all but the root closure, the first equation is off by the size of
the block of the root at each check, while the second one holds and the calls add up to zero. -/
theorem shutdown_drifts {n : ℕ} {root : Handed}
    (hrun : Reaches (MallocStep system) (.initial n) s) (hroot : s.handed = {root}) :
    ∃ checks u, s.shutdown root = some (checks, u) ∧ checks ≠ [] ∧
      (∀ c ∈ checks, c.desc.used + bucketToSize root.block.1 = c.workersUsedAndFree ∧
        ¬ c.UsedEq ∧ c.AllocatedEq ∧ ∀ tag, c.totalMalloc tag = 0) ∧
      (∀ tag, u.desc.numMalloc tag = 0) ∧ ¬ AccountsClosed checks u := by
  have hi := mallocInv_run hrun
  have htotals := totals_run hrun
  have hmem : root ∈ s.handed := by rw [hroot]; exact Multiset.mem_singleton_self root
  obtain ⟨t, hfree, hcounts, hworkers, hcalls⟩ := freeGlobal_keeps hi hmem
  have hzero : ∀ tag, t.totalMalloc tag = 0 := by
    intro tag
    have hone := htotals tag
    rw [hroot, ← Multiset.cons_zero, Multiset.countP_cons, Multiset.countP_zero] at hone
    rw [hcalls tag, hone]
    have hsym : root.tag = tag ↔ tag = root.tag := eq_comm
    simp only [hsym]
    split_ifs <;> rfl
  have herased : CountInv (bucketToSize root.block.1)
      { t with handed := t.handed.erase root } :=
    ⟨hcounts.descSize, hcounts.size, hcounts.limit, hcounts.usedEq, hcounts.allocatedEq⟩
  have hdone := workersTerminate_keeps t.nworkers herased (Nat.le_refl _) hzero
  obtain ⟨hchecks, hlast, hnum, htotal, hpart, -⟩ := hdone
  unfold MallocState.shutdown
  rw [hfree, Option.map_some]
  dsimp only
  generalize hres : MallocState.workersTerminate t.nworkers
    { t with handed := t.handed.erase root } = res at hchecks hlast hnum htotal hpart
  obtain ⟨checks, u⟩ := res
  dsimp only at hchecks hlast hnum htotal hpart
  have hpos : 0 < bucketToSize root.block.1 := by
    obtain ⟨whichBucket, hfit⟩ := hi.blocks.fits root hmem
    rw [Handed.block, hfit]
    exact bucketToSize_pos (sizeToBucket_some hfit).1
  have hdrift : ∀ c ∈ checks ++ [u],
      CountInv (bucketToSize root.block.1) c ∧ ∀ tag, c.totalMalloc tag = 0 := by
    intro c hc
    rcases List.mem_append.mp hc with hc | hc
    · exact hchecks c hc
    · rw [List.mem_singleton.mp hc]
      exact ⟨hlast, htotal⟩
  have hoff : ∀ c, CountInv (bucketToSize root.block.1) c → ¬ c.UsedEq := by
    intro c hc heq
    have hused := hc.usedEq
    unfold MallocState.UsedEq at heq
    omega
  refine ⟨checks ++ [u], u, rfl, by simp, fun c hc => ?_, fun tag => ?_, fun hclosed => ?_⟩
  · have hcd := hdrift c hc
    exact ⟨hcd.1.usedEq, hoff c hcd.1, hcd.1.allocatedEq, hcd.2⟩
  · have hsum := htotal tag
    have hrest : ∑ v ∈ Finset.range u.nworkers, (u.workers v).numMalloc tag = 0 := by
      apply Finset.sum_eq_zero
      intro v hv
      have hlt := Finset.mem_range.mp hv
      rw [hnum] at hlt
      exact hpart v hlt tag
    unfold MallocState.totalMalloc at hsum
    omega
  · have hu : u ∈ checks ++ [u] := List.mem_append_right _ List.mem_cons_self
    exact hoff u hlast (hclosed.1 u hu).1

/-- After worker 1 has freed the other block of worker 0, the root closure is destroyed. -/
theorem shutdown_drifts_first : ∃ s root, Reaches (MallocStep adjacentChunks) (.initial 2) s ∧
    root.size = 256 ∧ s.handed = {root} ∧
    ∃ checks u, s.shutdown root = some (checks, u) ∧ ¬ AccountsClosed checks u := by
  obtain ⟨s, root, b, hrun, hsize, hworkers, hhanded, -⟩ := otherWorker_frees
  have hb : b ∈ s.handed := by rw [hhanded]; exact Multiset.mem_cons_self b _
  obtain ⟨t, -, hlast, hsame⟩ := exists_free hrun (w := 1) (hworkers ▸ by decide) hb
  have hroot : t.handed.erase b = {root} := by
    rw [hsame, hhanded]
    exact Multiset.erase_cons_head b _
  obtain ⟨checks, u, hshut, -, -, -, hopen⟩ := shutdown_drifts hlast hroot
  exact ⟨_, root, hlast, hsize, hroot, checks, u, hshut, hopen⟩

theorem shutdown_last {root : Handed} {checks : List MallocState}
    (hshut : s.shutdown root = some (checks, u)) : u ∈ checks := by
  obtain ⟨t, -, heq⟩ := Option.map_eq_some_iff.mp hshut
  dsimp only at heq
  cases heq
  exact List.mem_append_right _ List.mem_cons_self

/-- One worker allocates a root closure of 256 bytes, and the runtime shuts down. The last check finds
0 bytes used, and 256 bytes with the workers. -/
theorem shutdown_reportsLeak : ∃ s, Reaches (MallocStep adjacentChunks) (.initial 1) s ∧
    s.handed = {⟨40704, 256, .closure⟩} ∧
    ∃ checks u, s.shutdown ⟨40704, 256, .closure⟩ = some (checks, u) ∧
      u.desc.used = 0 ∧ u.workersUsedAndFree = 256 ∧ ¬ AccountsClosed checks u := by
  have hmem : ((MallocState.initial 1).cilkInternalMalloc adjacentChunks 0 256 .closure 0).map
      Prod.fst = some 40704 := by decide +kernel
  have hclosed : ((MallocState.initial 1).cilkInternalMalloc adjacentChunks 0 256 .closure 0).bind
      (fun res => (MallocState.shutdown
        { res.2 with handed := {⟨40704, 256, .closure⟩} } ⟨40704, 256, .closure⟩).map
          fun out => (out.2.desc.used, out.2.workersUsedAndFree)) = some (0, 256) := by
    decide +kernel
  cases hres : (MallocState.initial 1).cilkInternalMalloc adjacentChunks 0 256 .closure 0 with
  | none =>
    rw [hres] at hmem
    cases hmem
  | some res =>
    obtain ⟨mem, t⟩ := res
    rw [hres] at hmem
    rw [hres, Option.bind_some] at hclosed
    obtain rfl : mem = 40704 := Option.some.inj hmem
    have hworker : 0 < (MallocState.initial 1).nworkers := by decide
    have hempty : t.handed = 0 := (mallocInv_initial.malloc hworker (by decide) hres).2.1
    have hrun := Relation.ReflTransGen.single
      (MallocStep.malloc 0 256 .closure 0 hworker (by decide) hres)
    rw [hempty] at hrun
    obtain ⟨⟨checks, u⟩, hshut, hbytes⟩ := Option.map_eq_some_iff.mp hclosed
    have hused : u.desc.used = 0 := congrArg Prod.fst hbytes
    have htotal : u.workersUsedAndFree = 256 := congrArg Prod.snd hbytes
    refine ⟨_, hrun, rfl, checks, u, hshut, hused, htotal, fun hopen => ?_⟩
    have heq : u.desc.used = u.workersUsedAndFree := (hopen.1 u (shutdown_last hshut)).1
    rw [hused, htotal] at heq
    cases heq

end Shutdown

end Cheetah
