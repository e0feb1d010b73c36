import Cheetah.WorkerMaps

/-! The worker maps stay inverse permutations with the disengaged workers at the top. -/
namespace Cheetah

namespace MapPhase

def holdsLock : MapPhase → Bool
  | .engaged | .trying _ | .disengaged _ => false
  | _ => true

/-- Counted in the upper half of the word. -/
def isOut : MapPhase → Bool
  | .counted _ _ | .swapped _ | .disengaged _ | .relocked _ => true
  | _ => false

/-- Placed among the disengaged workers in the maps. -/
def isAbove : MapPhase → Bool
  | .swapped _ | .disengaged _ | .relocked _ | .recounted _ => true
  | _ => false

/-- Owes one to the lower half of the word. -/
def isNapping : MapPhase → Bool
  | .counted .thief _ | .swapped .thief | .disengaged .thief | .relocked .thief => true
  | _ => false

/-- The word that the compare-exchange of the worker expects. -/
def expected : MapPhase → Option Word
  | .trying seen => some seen
  | .locked seen => seen
  | _ => none

theorem isOut_eq_isAbove {p : MapPhase} (h : p.holdsLock = false) : p.isOut = p.isAbove := by
  cases p <;> first | rfl | cases h

theorem isOut_of_isNapping {p : MapPhase} (h : p.isNapping = true) : p.isOut = true := by
  cases p <;> first | rfl | cases h

end MapPhase

/-- The maps are mutually inverse permutations of the workers. -/
structure WorkerMaps.Inverse (n : ℕ) (m : WorkerMaps) : Prop where
  index_lt : ∀ w < n, m.workerToIndex w < n
  worker_lt : ∀ i < n, m.indexToWorker i < n
  worker_index : ∀ w < n, m.indexToWorker (m.workerToIndex w) = w
  index_worker : ∀ i < n, m.workerToIndex (m.indexToWorker i) = i

section Swap

variable {n : ℕ} {m : WorkerMaps} {self target : ℕ}

theorem WorkerMaps.Inverse.injective (hm : m.Inverse n) {u w : ℕ} (hu : u < n) (hw : w < n)
    (h : m.workerToIndex u = m.workerToIndex w) : u = w := by
  rw [← hm.worker_index u hu, h, hm.worker_index w hw]

/-- Where the workers are after the swap. -/
theorem swap_workerToIndex (hm : m.Inverse n) (ht : target < n) {w : ℕ}
    (hw : w < n) : (m.swapWorkerWithTarget self target).workerToIndex w =
      if w = self then target
      else if m.workerToIndex w = target then m.workerToIndex self
      else m.workerToIndex w := by
  unfold WorkerMaps.swapWorkerWithTarget
  dsimp only
  by_cases hws : w = self
  · rw [if_pos hws, hws, Function.update_self]
  · rw [if_neg hws, Function.update_of_ne hws]
    by_cases hwt : m.workerToIndex w = target
    · rw [if_pos hwt, ← hwt, hm.worker_index w hw, Function.update_self]
    · have hne : w ≠ m.indexToWorker target := by
        rintro rfl
        exact hwt (hm.index_worker target ht)
      rw [if_neg hwt, Function.update_of_ne hne]

theorem swap_indexToWorker {i : ℕ} : (m.swapWorkerWithTarget self target).indexToWorker i =
      if i = target then self
      else if i = m.workerToIndex self then m.indexToWorker target
      else m.indexToWorker i := by
  unfold WorkerMaps.swapWorkerWithTarget
  dsimp only
  by_cases hit : i = target
  · rw [if_pos hit, hit, Function.update_self]
  · rw [if_neg hit, Function.update_of_ne hit]
    by_cases his : i = m.workerToIndex self
    · rw [if_pos his, his, Function.update_self]
    · rw [if_neg his, Function.update_of_ne his]

theorem WorkerMaps.Inverse.swap (hm : m.Inverse n) (hself : self < n) (ht : target < n) :
    (m.swapWorkerWithTarget self target).Inverse n where
  index_lt := by
    intro w hw
    rw [swap_workerToIndex hm ht hw]
    have := hm.index_lt w hw
    have := hm.index_lt self hself
    split_ifs <;> assumption
  worker_lt := by
    intro i hi
    rw [swap_indexToWorker]
    have := hm.worker_lt i hi
    have := hm.worker_lt target ht
    split_ifs <;> assumption
  worker_index := by
    intro w hw
    have hlt := hm.index_lt w hw
    have hslt := hm.index_lt self hself
    rw [swap_workerToIndex hm ht hw]
    by_cases hws : w = self
    · rw [if_pos hws, swap_indexToWorker, if_pos rfl, hws]
    rw [if_neg hws]
    by_cases hwt : m.workerToIndex w = target
    · rw [if_pos hwt, swap_indexToWorker, if_pos rfl]
      have hne : m.workerToIndex self ≠ target := fun h => hws (hm.injective hw hself (hwt.trans h.symm))
      rw [if_neg hne, ← hwt, hm.worker_index w hw]
    · have hne : m.workerToIndex w ≠ m.workerToIndex self := fun h => hws (hm.injective hw hself h)
      rw [if_neg hwt, swap_indexToWorker, if_neg hwt, if_neg hne,
        hm.worker_index w hw]
  index_worker := by
    intro i hi
    have hlt := hm.worker_lt i hi
    have htlt := hm.worker_lt target ht
    rw [swap_indexToWorker]
    by_cases hit : i = target
    · rw [if_pos hit, swap_workerToIndex hm ht hself, if_pos rfl, hit]
    rw [if_neg hit]
    by_cases his : i = m.workerToIndex self
    · rw [if_pos his, swap_workerToIndex hm ht htlt, if_pos (hm.index_worker target ht)]
      have hne : m.indexToWorker target ≠ self := by
        intro h
        rw [← h, hm.index_worker target ht] at his
        exact hit his
      rw [if_neg hne, his]
    · have hne : m.indexToWorker i ≠ self := by
        rintro rfl
        exact his (hm.index_worker i hi).symm
      rw [if_neg his, swap_workerToIndex hm ht hlt, if_neg hne, hm.index_worker i hi,
        if_neg hit]

end Swap

/-- What holds of every state that is reached. The workers above the boundary are those that
count as disengaged, but for the one that holds the lock. -/
structure MapInv (n : ℕ) (s : MapState) : Prop where
  inverse : s.maps.Inverse n
  word : ∃ count, s.word = packed (tally n s.phase MapPhase.isOut) count ∧
    count + tally n s.phase MapPhase.isNapping ≤ n
  lock : ∀ w, (s.phase w).holdsLock = true ↔ s.indexLock = some w
  thief : ∀ w, s.phase w ≠ .engaged → 0 < w ∧ w < n
  expected : ∀ w seen, (s.phase w).expected = some seen →
    isInefficient (getWorkerCounts seen n) = true
  above : ∀ w < n, (s.phase w).isAbove = true ↔
    n ≤ s.maps.workerToIndex w + tally n s.phase MapPhase.isAbove
  counted : ∀ w leave i, s.phase w = .counted leave i →
    i + tally n s.phase MapPhase.isAbove + 1 = n
  recounted : ∀ w i, s.phase w = .recounted i → i + tally n s.phase MapPhase.isAbove = n

section Steps

variable {n : ℕ} {s t : MapState}

/-- A phase and a lock that agree for every worker but `w` agree for all. -/
theorem lock_update {w : ℕ} {q : MapPhase} {lock : Option ℕ}
    (hlock : ∀ u, (s.phase u).holdsLock = true ↔ s.indexLock = some u)
    (hw : q.holdsLock = true ↔ lock = some w)
    (hother : ∀ u, u ≠ w → (lock = some u ↔ s.indexLock = some u)) :
    ∀ u, (Function.update s.phase w q u).holdsLock = true ↔ lock = some u := by
  intro u
  by_cases hu : u = w
  · rw [hu, Function.update_self]
    exact hw
  · rw [Function.update_of_ne hu, hother u hu]
    exact hlock u

theorem lock_taken {w : ℕ} (hfree : s.indexLock = none) :
    ∀ u, u ≠ w → (some w = some u ↔ s.indexLock = some u) := by
  intro u hu
  rw [hfree]
  exact iff_of_false (fun h => hu (Option.some.inj h).symm) (fun h => by cases h)

theorem MapInv.lock_freed (hi : MapInv n s) {w : ℕ} (hw : (s.phase w).holdsLock = true) :
    ∀ u, u ≠ w → (none = some u ↔ s.indexLock = some u) := by
  intro u hu
  rw [(hi.lock w).mp hw]
  exact iff_of_false (fun h => by cases h) (fun h => hu (Option.some.inj h).symm)

/-- While the lock is free or its holder stands above exactly if it counts as out, the workers
above are those that count as out. -/
theorem MapInv.tally_above (hi : MapInv n s) {w : ℕ} (hw : (s.phase w).holdsLock = true)
    (heq : (s.phase w).isOut = (s.phase w).isAbove) :
    tally n s.phase MapPhase.isOut = tally n s.phase MapPhase.isAbove := by
  apply tally_congr
  intro u hu
  by_cases huw : u = w
  · rw [huw, heq]
  · apply MapPhase.isOut_eq_isAbove
    rw [← Bool.not_eq_true, hi.lock u, (hi.lock w).mp hw]
    exact fun h => huw (Option.some.inj h).symm

theorem tally_isNapping_le (n : ℕ) (s : MapState) :
    tally n s.phase MapPhase.isNapping ≤ tally n s.phase MapPhase.isOut :=
  tally_le_of_imp fun _ _ => MapPhase.isOut_of_isNapping

/-- Worker 0 never leaves. -/
theorem MapInv.out_lt (hi : MapInv n s) (hpos : 0 < n) :
    tally n s.phase MapPhase.isOut < n := by
  have h0 : s.phase 0 = .engaged := by
    by_contra hne
    exact absurd (hi.thief 0 hne).1 (Nat.lt_irrefl 0)
  refine tally_lt hpos ?_
  rw [h0]
  exact Bool.false_ne_true

theorem MapInv.disengaged_eq (hi : MapInv n s) (hpos : 0 < n) (hn : n < 2^32) :
    getDisengaged s.word = tally n s.phase MapPhase.isOut := by
  obtain ⟨count, hword, hle⟩ := hi.word
  have := hi.out_lt hpos
  rw [hword, getDisengaged_packed (by omega) (by omega)]

theorem thief_update {w : ℕ} {q : MapPhase} (hw : 0 < w ∧ w < n)
    (hthief : ∀ u, s.phase u ≠ .engaged → 0 < u ∧ u < n) :
    ∀ u, Function.update s.phase w q u ≠ .engaged → 0 < u ∧ u < n := by
  intro u
  by_cases hu : u = w
  · rw [hu]
    exact fun _ => hw
  · rw [Function.update_of_ne hu]
    exact hthief u

theorem expected_update {w : ℕ} {q : MapPhase}
    (hq : ∀ seen, q.expected = some seen → isInefficient (getWorkerCounts seen n) = true)
    (hexp : ∀ u seen, (s.phase u).expected = some seen →
      isInefficient (getWorkerCounts seen n) = true) :
    ∀ u seen, (Function.update s.phase w q u).expected = some seen →
      isInefficient (getWorkerCounts seen n) = true := by
  intro u
  by_cases hu : u = w
  · rw [hu, Function.update_self]
    exact hq
  · rw [Function.update_of_ne hu]
    exact hexp u

/-- A worker that holds the lock is the only one that does. -/
theorem MapInv.only_holder (hi : MapInv n s) {u w : ℕ} (hu : (s.phase u).holdsLock = true)
    (hw : (s.phase w).holdsLock = true) : u = w := by
  have h := (hi.lock u).mp hu
  rw [(hi.lock w).mp hw] at h
  exact (Option.some.inj h).symm

/-- After a step of the lock's holder any worker in a locked phase is that holder. -/
theorem MapInv.holder_update (hi : MapInv n s) {u w : ℕ} {p q : MapPhase}
    (hw : (s.phase w).holdsLock = true) (hu : Function.update s.phase w q u = p)
    (hp : p.holdsLock = true) : q = p := by
  by_cases huw : u = w
  · rwa [huw, Function.update_self] at hu
  · rw [Function.update_of_ne huw] at hu
    exact absurd (hi.only_holder (hu ▸ hp) hw) huw

/-- A step that changes neither the counts nor the maps. -/
theorem MapInv.relabel (hi : MapInv n s) {w : ℕ} {q : MapPhase} {lock : Option ℕ}
    (hw : 0 < w ∧ w < n) (hout : q.isOut = (s.phase w).isOut)
    (habove : q.isAbove = (s.phase w).isAbove) (hnap : q.isNapping = (s.phase w).isNapping)
    (hsettled : q.isOut = q.isAbove)
    (hexp : ∀ seen, q.expected = some seen → isInefficient (getWorkerCounts seen n) = true)
    (hlock : ∀ u, (Function.update s.phase w q u).holdsLock = true ↔ lock = some u) :
    MapInv n { s.setPhase w q with indexLock := lock } where
  inverse := hi.inverse
  word := by
    change ∃ count, s.word = packed (tally n (Function.update s.phase w q) _) count ∧
      count + tally n (Function.update s.phase w q) _ ≤ n
    rw [tally_update_same hw.2 hout, tally_update_same hw.2 hnap]
    exact hi.word
  lock := hlock
  thief := thief_update hw hi.thief
  expected := expected_update hexp hi.expected
  above := by
    intro u hu
    change (Function.update s.phase w q u).isAbove = true ↔
      n ≤ s.maps.workerToIndex u + tally n (Function.update s.phase w q) _
    rw [tally_update_same hw.2 habove, ← hi.above u hu]
    by_cases huw : u = w
    · rw [huw, Function.update_self, habove]
    · rw [Function.update_of_ne huw]
  counted := by
    intro u leave i hu
    change Function.update s.phase w q u = _ at hu
    change i + tally n (Function.update s.phase w q) _ + 1 = n
    rw [tally_update_same hw.2 habove]
    by_cases huw : u = w
    · rw [huw, Function.update_self] at hu
      rw [hu] at hsettled
      cases hsettled
    · rw [Function.update_of_ne huw] at hu
      exact hi.counted u leave i hu
  recounted := by
    intro u i hu
    change Function.update s.phase w q u = _ at hu
    change i + tally n (Function.update s.phase w q) _ = n
    rw [tally_update_same hw.2 habove]
    by_cases huw : u = w
    · rw [huw, Function.update_self] at hu
      rw [hu] at hsettled
      cases hsettled
    · rw [Function.update_of_ne huw] at hu
      exact hi.recounted u i hu

/-- The count goes up while the maps still wait for their swap. -/
theorem MapInv.leave (hi : MapInv n s) {w lastIndex : ℕ} {leave : Leave} {word : Word}
    {seen : Option Word} (hp : s.phase w = .locked seen)
    (hlast : lastIndex + tally n s.phase MapPhase.isOut + 1 = n)
    (hword : ∃ count, word = packed (tally n s.phase MapPhase.isOut + 1) count ∧
      count + tally n (Function.update s.phase w (.counted leave lastIndex)) MapPhase.isNapping ≤ n) :
    MapInv n { s.setPhase w (.counted leave lastIndex) with word := word } := by
  have hw := hi.thief w (by rw [hp]; exact MapPhase.noConfusion)
  have hholds : (s.phase w).holdsLock = true := by rw [hp]; rfl
  have hsame : tally n (Function.update s.phase w (.counted leave lastIndex)) MapPhase.isAbove =
      tally n s.phase MapPhase.isAbove := tally_update_same hw.2 (by rw [hp]; rfl)
  have htally := hi.tally_above hholds (by rw [hp]; rfl)
  refine ⟨hi.inverse, ?_, lock_update hi.lock (iff_of_true rfl ((hi.lock w).mp hholds))
    (fun _ _ => Iff.rfl), thief_update hw hi.thief,
    expected_update (fun _ h => by cases h) hi.expected, fun u hu => ?_,
    fun u leave' i hu => ?_, fun u i hu => ?_⟩
  · obtain ⟨count, hcount, hle⟩ := hword
    refine ⟨count, ?_, hle⟩
    change word = packed (tally n (Function.update s.phase w _) _) count
    rw [tally_update_add hw.2 (by rw [hp]; rfl) rfl]
    exact hcount
  · change (Function.update s.phase w _ u).isAbove = true ↔
      n ≤ s.maps.workerToIndex u + tally n (Function.update s.phase w _) _
    rw [hsame, ← hi.above u hu]
    by_cases huw : u = w
    · rw [huw, Function.update_self, hp]
      exact Iff.rfl
    · rw [Function.update_of_ne huw]
  · change i + tally n (Function.update s.phase w _) _ + 1 = n
    cases hi.holder_update hholds hu rfl
    omega
  · cases hi.holder_update hholds hu rfl

/-- The swap puts the worker at the last index below the boundary, which moves under it. -/
theorem MapInv.swap (hi : MapInv n s) {w lastIndex : ℕ} {leave : Leave}
    (hp : s.phase w = .counted leave lastIndex) :
    MapInv n { s.setPhase w (.swapped leave) with
      maps := if s.maps.workerToIndex w < lastIndex then
        s.maps.swapWorkerWithTarget w lastIndex else s.maps } := by
  have hw := hi.thief w (by rw [hp]; exact MapPhase.noConfusion)
  have hholds : (s.phase w).holdsLock = true := by rw [hp]; rfl
  have hlast := hi.counted w leave lastIndex hp
  have hadd : tally n (Function.update s.phase w (.swapped leave)) MapPhase.isAbove =
      tally n s.phase MapPhase.isAbove + 1 := tally_update_add hw.2 (by rw [hp]; rfl) rfl
  have hbelow : ¬ (s.phase w).isAbove = true := by rw [hp]; exact Bool.false_ne_true
  have hwlt := hi.inverse.index_lt w hw.2
  rw [hi.above w hw.2] at hbelow
  have hpos : ∀ u < n, (if s.maps.workerToIndex w < lastIndex then
      s.maps.swapWorkerWithTarget w lastIndex else s.maps).workerToIndex u =
        if u = w then lastIndex
        else if s.maps.workerToIndex u = lastIndex then s.maps.workerToIndex w
        else s.maps.workerToIndex u := by
    intro u hu
    by_cases hlt : s.maps.workerToIndex w < lastIndex
    · rw [if_pos hlt, swap_workerToIndex hi.inverse (by omega) hu]
    · have heq : s.maps.workerToIndex w = lastIndex := by omega
      rw [if_neg hlt]
      by_cases huw : u = w
      · rw [if_pos huw, huw, heq]
      · have hne : s.maps.workerToIndex u ≠ lastIndex :=
          fun h => huw (hi.inverse.injective hu hw.2 (h.trans heq.symm))
        rw [if_neg huw, if_neg hne]
  refine ⟨?_, ?_, lock_update hi.lock (iff_of_true rfl ((hi.lock w).mp hholds))
    (fun _ _ => Iff.rfl), thief_update hw hi.thief,
    expected_update (fun _ h => by cases h) hi.expected, fun u hu => ?_,
    fun u leave' i hu => ?_, fun u i hu => ?_⟩
  · dsimp only
    split_ifs with hlt
    · exact hi.inverse.swap hw.2 (by omega)
    · exact hi.inverse
  · change ∃ count, s.word = packed (tally n (Function.update s.phase w _) _) count ∧
      count + tally n (Function.update s.phase w _) _ ≤ n
    rw [tally_update_same hw.2 (by rw [hp]; rfl), tally_update_same hw.2 (by rw [hp]; cases leave <;> rfl)]
    exact hi.word
  · change (Function.update s.phase w _ u).isAbove = true ↔ n ≤ (if _ then _ else _ :
      WorkerMaps).workerToIndex u + tally n (Function.update s.phase w _) _
    rw [hadd, hpos u hu]
    by_cases huw : u = w
    · rw [if_pos huw, huw, Function.update_self]
      exact iff_of_true rfl (by omega)
    · have hne : s.maps.workerToIndex u ≠ s.maps.workerToIndex w :=
        fun h => huw (hi.inverse.injective hu hw.2 h)
      rw [if_neg huw, Function.update_of_ne huw, hi.above u hu]
      split_ifs with hul
      · omega
      · omega
  · cases hi.holder_update hholds hu rfl
  · cases hi.holder_update hholds hu rfl

/-- The count goes down while the maps still wait for their swap. -/
theorem MapInv.recount (hi : MapInv n s) (hpos : 0 < n) (hn : n < 2^32) {w : ℕ} {leave : Leave}
    (hp : s.phase w = .relocked leave) :
    MapInv n { s.setPhase w (.recounted (usub n (getDisengaged s.word))) with
      word := s.word + match leave with
        | .worker => disengagedSentinel (-1) 0
        | .thief => disengagedSentinel (-1) 1 } := by
  have hw := hi.thief w (by rw [hp]; exact MapPhase.noConfusion)
  have hholds : (s.phase w).holdsLock = true := by rw [hp]; rfl
  have htally := hi.tally_above hholds (by rw [hp]; rfl)
  have hget := hi.disengaged_eq hpos hn
  have hlt := hi.out_lt hpos
  have hlast : usub n (getDisengaged s.word) + tally n s.phase MapPhase.isAbove = n := by
    rw [hget, usub, ← htally]
    omega
  generalize usub n (getDisengaged s.word) = lastIndex at hlast
  have hsame : tally n (Function.update s.phase w (.recounted lastIndex)) MapPhase.isAbove =
      tally n s.phase MapPhase.isAbove := tally_update_same hw.2 (by rw [hp]; rfl)
  refine ⟨hi.inverse, ?_, lock_update hi.lock (iff_of_true rfl ((hi.lock w).mp hholds))
    (fun _ _ => Iff.rfl), thief_update hw hi.thief,
    expected_update (fun _ h => by cases h) hi.expected, fun u hu => ?_,
    fun u leave' i hu => ?_, fun u i hu => ?_⟩
  · obtain ⟨count, hword, hle⟩ := hi.word
    have hsub : tally n (Function.update s.phase w (.recounted lastIndex)) MapPhase.isOut + 1 =
        tally n s.phase MapPhase.isOut := tally_update_sub hw.2 (by rw [hp]; rfl) rfl
    cases leave with
    | worker =>
      refine ⟨count, ?_, ?_⟩
      · change s.word + disengagedSentinel (-1) 0 =
          packed (tally n (Function.update s.phase w _) _) count
        rw [hword, ← hsub, packed_sub_disengaged]
      · change count + tally n (Function.update s.phase w _) _ ≤ n
        rw [tally_update_same hw.2 (by rw [hp]; rfl)]
        exact hle
    | thief =>
      have hnap : tally n (Function.update s.phase w (.recounted lastIndex)) MapPhase.isNapping
          + 1 = tally n s.phase MapPhase.isNapping := tally_update_sub hw.2 (by rw [hp]; rfl) rfl
      refine ⟨count + 1, ?_, ?_⟩
      · change s.word + disengagedSentinel (-1) 1 =
          packed (tally n (Function.update s.phase w _) _) (count + 1)
        rw [hword, ← hsub, packed_wake]
      · change count + 1 + tally n (Function.update s.phase w _) _ ≤ n
        omega
  · change (Function.update s.phase w _ u).isAbove = true ↔
      n ≤ s.maps.workerToIndex u + tally n (Function.update s.phase w _) _
    rw [hsame, ← hi.above u hu]
    by_cases huw : u = w
    · rw [huw, Function.update_self, hp]
      exact Iff.rfl
    · rw [Function.update_of_ne huw]
  · cases hi.holder_update hholds hu rfl
  · change i + tally n (Function.update s.phase w _) _ = n
    cases hi.holder_update hholds hu rfl
    omega

/-- The swap puts the worker at the first index above the boundary, which moves over it. -/
theorem MapInv.reswap (hi : MapInv n s) {w lastIndex : ℕ}
    (hp : s.phase w = .recounted lastIndex) :
    MapInv n { s.setPhase w .reswapped with
      maps := if s.maps.workerToIndex w > lastIndex then
        s.maps.swapWorkerWithTarget w lastIndex else s.maps } := by
  have hw := hi.thief w (by rw [hp]; exact MapPhase.noConfusion)
  have hholds : (s.phase w).holdsLock = true := by rw [hp]; rfl
  have hlast := hi.recounted w lastIndex hp
  have hsub : tally n (Function.update s.phase w .reswapped) MapPhase.isAbove + 1 =
      tally n s.phase MapPhase.isAbove := tally_update_sub hw.2 (by rw [hp]; rfl) rfl
  have habove : (s.phase w).isAbove = true := by rw [hp]; rfl
  have hwlt := hi.inverse.index_lt w hw.2
  rw [hi.above w hw.2] at habove
  have hpos : ∀ u < n, (if s.maps.workerToIndex w > lastIndex then
      s.maps.swapWorkerWithTarget w lastIndex else s.maps).workerToIndex u =
        if u = w then lastIndex
        else if s.maps.workerToIndex u = lastIndex then s.maps.workerToIndex w
        else s.maps.workerToIndex u := by
    intro u hu
    by_cases hlt : s.maps.workerToIndex w > lastIndex
    · rw [if_pos hlt, swap_workerToIndex hi.inverse (by omega) hu]
    · have heq : s.maps.workerToIndex w = lastIndex := by omega
      rw [if_neg hlt]
      by_cases huw : u = w
      · rw [if_pos huw, huw, heq]
      · have hne : s.maps.workerToIndex u ≠ lastIndex :=
          fun h => huw (hi.inverse.injective hu hw.2 (h.trans heq.symm))
        rw [if_neg huw, if_neg hne]
  refine ⟨?_, ?_, lock_update hi.lock (iff_of_true rfl ((hi.lock w).mp hholds))
    (fun _ _ => Iff.rfl), thief_update hw hi.thief,
    expected_update (fun _ h => by cases h) hi.expected, fun u hu => ?_,
    fun u leave' i hu => ?_, fun u i hu => ?_⟩
  · dsimp only
    split_ifs with hlt
    · exact hi.inverse.swap hw.2 (by omega)
    · exact hi.inverse
  · change ∃ count, s.word = packed (tally n (Function.update s.phase w _) _) count ∧
      count + tally n (Function.update s.phase w _) _ ≤ n
    rw [tally_update_same hw.2 (by rw [hp]; rfl), tally_update_same hw.2 (by rw [hp]; rfl)]
    exact hi.word
  · change (Function.update s.phase w _ u).isAbove = true ↔ n ≤ (if _ then _ else _ :
      WorkerMaps).workerToIndex u + tally n (Function.update s.phase w _) _
    rw [hpos u hu]
    by_cases huw : u = w
    · rw [if_pos huw, huw, Function.update_self]
      exact iff_of_false Bool.false_ne_true (by omega)
    · have hne : s.maps.workerToIndex u ≠ s.maps.workerToIndex w :=
        fun h => huw (hi.inverse.injective hu hw.2 h)
      rw [if_neg huw, Function.update_of_ne huw, hi.above u hu]
      split_ifs with hul
      · omega
      · omega
  · cases hi.holder_update hholds hu rfl
  · cases hi.holder_update hholds hu rfl

theorem MapInv.step (hi : MapInv n s) (hpos : 0 < n) (hn : n < 2^32) (hst : MapStep n s t) :
    MapInv n t := by
  have hlt := hi.out_lt hpos
  have hget := hi.disengaged_eq hpos hn
  cases hst with
  | sentinels count hle =>
    have hnap := tally_isNapping_le n s
    refine ⟨hi.inverse, ⟨count, by rw [hget], ?_⟩, hi.lock, hi.thief, hi.expected, hi.above, hi.counted,
      hi.recounted⟩
    change count + tally n s.phase _ ≤ n
    omega
  | lock w hw hp hfree =>
    exact hi.relabel hw (by rw [hp]; rfl) (by rw [hp]; rfl) (by rw [hp]; rfl) rfl
      (fun _ h => by cases h) (lock_update hi.lock (iff_of_true rfl rfl) (lock_taken hfree))
  | load w hw hp hineff =>
    refine hi.relabel hw (by rw [hp]; rfl) (by rw [hp]; rfl) (by rw [hp]; rfl) rfl
      (fun seen h => Option.some.inj h ▸ hineff) (lock_update hi.lock ?_ fun _ _ => Iff.rfl)
    rw [← hi.lock w, hp]
    exact Iff.rfl
  | tryFails w hp hheld =>
    have hw := hi.thief w (by rw [hp]; exact MapPhase.noConfusion)
    refine hi.relabel hw (by rw [hp]; rfl) (by rw [hp]; rfl) (by rw [hp]; rfl) rfl
      (fun _ h => by cases h) (lock_update hi.lock ?_ fun _ _ => Iff.rfl)
    rw [← hi.lock w, hp]
    exact Iff.rfl
  | tryLocks w hp hfree =>
    have hw := hi.thief w (by rw [hp]; exact MapPhase.noConfusion)
    exact hi.relabel hw (by rw [hp]; rfl) (by rw [hp]; rfl) (by rw [hp]; rfl) rfl
      (fun seen h => hi.expected w seen (by rw [hp]; exact h)) (lock_update hi.lock (iff_of_true rfl rfl) (lock_taken hfree))
  | count w hp =>
    have hw := hi.thief w (by rw [hp]; exact MapPhase.noConfusion)
    obtain ⟨count, hword, hle⟩ := hi.word
    refine hi.leave hp ?_ ⟨count, ?_, ?_⟩
    · rw [hget, usub]
      omega
    · rw [hword, packed_add_disengaged]
    · rw [tally_update_same hw.2 (by rw [hp]; rfl)]
      exact hle
  | exchange w hp heq hnew =>
    have hw := hi.thief w (by rw [hp]; exact MapPhase.noConfusion)
    have hineff := hi.expected w _ (by rw [hp]; rfl)
    obtain ⟨count, hword, hle⟩ := hi.word
    subst hnew heq
    have hcount : getSentinel s.word = count := by
      rw [hword, getSentinel_packed (by omega) (by omega)]
    have hgt : 1 < count := by
      rw [← hcount]
      exact one_lt_of_inefficient hineff
    have hnew : disengagedSentinel (BitVec.ofNat 32 (getDisengaged s.word) + 1)
        (BitVec.ofNat 32 (getSentinel s.word) - 1) =
          packed (tally n s.phase MapPhase.isOut + 1) (count - 1) := by
      rw [hget, hcount, packed_exchange (by omega) (by omega) (by omega)]
    rw [hnew, getDisengaged_packed (by omega) (by omega)]
    refine hi.leave hp ?_ ⟨count - 1, rfl, ?_⟩
    · rw [usub]
      omega
    · rw [tally_update_add hw.2 (by rw [hp]; rfl) rfl]
      omega
  | exchangeFails w hp hne =>
    have hw := hi.thief w (by rw [hp]; exact MapPhase.noConfusion)
    exact hi.relabel hw (by rw [hp]; rfl) (by rw [hp]; rfl) (by rw [hp]; rfl) rfl
      (fun _ h => by cases h) (lock_update hi.lock (iff_of_false Bool.false_ne_true (fun h => by cases h))
        (hi.lock_freed (by rw [hp]; rfl)))
  | swap w hp => exact hi.swap hp
  | unlock w hp =>
    have hw := hi.thief w (by rw [hp]; exact MapPhase.noConfusion)
    exact hi.relabel hw (by rw [hp]; rfl) (by rw [hp]; rfl) (by rw [hp]; rename_i l; cases l <;> rfl) rfl
      (fun _ h => by cases h) (lock_update hi.lock (iff_of_false Bool.false_ne_true (fun h => by cases h))
        (hi.lock_freed (by rw [hp]; rfl)))
  | relock w hp hfree =>
    have hw := hi.thief w (by rw [hp]; exact MapPhase.noConfusion)
    exact hi.relabel hw (by rw [hp]; rfl) (by rw [hp]; rfl) (by rw [hp]; rename_i l; cases l <;> rfl) rfl
      (fun _ h => by cases h) (lock_update hi.lock (iff_of_true rfl rfl) (lock_taken hfree))
  | recount w hp => exact hi.recount hpos hn hp
  | reswap w hp => exact hi.reswap hp
  | reunlock w hp =>
    have hw := hi.thief w (by rw [hp]; exact MapPhase.noConfusion)
    exact hi.relabel hw (by rw [hp]; rfl) (by rw [hp]; rfl) (by rw [hp]; rfl) rfl
      (fun _ h => by cases h) (lock_update hi.lock (iff_of_false Bool.false_ne_true (fun h => by cases h))
        (hi.lock_freed (by rw [hp]; rfl)))

end Steps

section Agree

variable {n : ℕ} {s : MapState}

theorem workersInit_inv (n : ℕ) : MapInv n workersInit := by
  have hzero {p : MapPhase → Bool} (h : p .engaged = false) :
      tally n workersInit.phase p = 0 := by
    induction n with
    | zero => rfl
    | succ n ih => rw [tally_succ, ih, workersInit, h, if_neg Bool.false_ne_true]
  refine ⟨⟨fun w hw => hw, fun i hi => hi, fun _ _ => rfl, fun _ _ => rfl⟩, ⟨0, ?_, ?_⟩,
    fun w => iff_of_false Bool.false_ne_true (fun h => by cases h), fun w h => absurd rfl h,
    fun w seen h => (by cases h), fun w hw => ?_, fun w leave i h => (by cases h),
    fun w i h => (by cases h)⟩
  · rw [hzero rfl]
    rfl
  · rw [hzero rfl]
    exact Nat.zero_le n
  · refine iff_of_false Bool.false_ne_true ?_
    rw [hzero rfl]
    change ¬ n ≤ w + 0
    omega

/-- The maps and the count of disengaged workers agree. -/
structure MapsAgree (n : ℕ) (s : MapState) : Prop where
  inverse : s.maps.Inverse n
  count : getDisengaged s.word = tally n s.phase MapPhase.isDisengaged
  above : ∀ i < n, (s.phase (s.maps.indexToWorker i)).isDisengaged = true ↔
    n - getDisengaged s.word ≤ i
  boss : s.maps.workerToIndex 0 < n - getDisengaged s.word
  victim : ∀ r, s.victim n r < n ∧ (s.phase (s.victim n r)).isDisengaged = false

theorem MapInv.stealable_eq (hi : MapInv n s) (hpos : 0 < n) (hn : n < 2^32) :
    stealable s.word n = n - getDisengaged s.word ∧ 0 < stealable s.word n := by
  have hlt := hi.out_lt hpos
  have hget := hi.disengaged_eq hpos hn
  rw [stealable, hget, usub]
  omega

/-- With the lock free no worker is between a change of the counts and its swap. -/
theorem MapInv.agree (hi : MapInv n s) (hpos : 0 < n) (hn : n < 2^32)
    (hfree : s.indexLock = none) : MapsAgree n s := by
  have hget := hi.disengaged_eq hpos hn
  obtain ⟨hst, hstpos⟩ := hi.stealable_eq hpos hn
  have hsettled (w : ℕ) : (s.phase w).isOut = (s.phase w).isDisengaged ∧
      (s.phase w).isAbove = (s.phase w).isDisengaged := by
    have hw : ¬ (s.phase w).holdsLock = true := by
      rw [hi.lock w, hfree]
      exact fun h => by cases h
    cases hp : s.phase w <;> rw [hp] at hw <;> first | exact ⟨rfl, rfl⟩ | exact absurd rfl hw
  have hcount : tally n s.phase MapPhase.isOut = tally n s.phase MapPhase.isDisengaged :=
    tally_congr fun w _ => (hsettled w).1
  have htally : tally n s.phase MapPhase.isAbove = tally n s.phase MapPhase.isDisengaged :=
    tally_congr fun w _ => (hsettled w).2
  have habove : ∀ i < n, (s.phase (s.maps.indexToWorker i)).isDisengaged = true ↔
      n - getDisengaged s.word ≤ i := by
    intro i hin
    rw [← (hsettled _).2, hi.above _ (hi.inverse.worker_lt i hin),
      hi.inverse.index_worker i hin, hget, hcount, htally]
    omega
  have hzero : (s.phase 0).isDisengaged = false := by
    have h0 : s.phase 0 = .engaged := by
      by_contra hne
      exact absurd (hi.thief 0 hne).1 (Nat.lt_irrefl 0)
    rw [h0]
    rfl
  refine ⟨hi.inverse, hget.trans hcount, habove, ?_, fun r => ?_⟩
  · have hb := habove _ (hi.inverse.index_lt 0 hpos)
    rw [hi.inverse.worker_index 0 hpos, hzero] at hb
    by_contra hge
    exact Bool.false_ne_true (hb.mpr (by omega))
  · have hr : r % stealable s.word n < n - getDisengaged s.word := hst ▸ Nat.mod_lt r hstpos
    refine ⟨hi.inverse.worker_lt _ (by omega), ?_⟩
    rw [← Bool.not_eq_true, MapState.victim, habove _ (by omega)]
    omega

/-- In every state that is reached some worker can be stolen from, and whenever `index_lock`
is free the maps agree with the counts. -/
theorem workerMaps_agree (hpos : 0 < n) (hn : n < 2^32)
    (hrun : Reaches (MapStep n) workersInit s) :
    stealable s.word n = n - getDisengaged s.word ∧ 0 < stealable s.word n ∧
      (s.indexLock = none → MapsAgree n s) := by
  have hi : MapInv n s := hrun.preserves (fun s t hi hst => hi.step hpos hn hst) (workersInit_inv n)
  obtain ⟨hst, hstpos⟩ := hi.stealable_eq hpos hn
  exact ⟨hst, hstpos, hi.agree hpos hn⟩

/-- Worker 1 of 3 disengages: it changes places with worker 2. -/
theorem workerMaps_agree_three : ∃ s, Reaches (MapStep 3) workersInit s ∧
    s.maps.indexToWorker 2 = 1 ∧ (stealable s.word 3 = 3 - getDisengaged s.word ∧
      0 < stealable s.word 3 ∧ (s.indexLock = none → MapsAgree 3 s)) := by
  have hlock := MapStep.lock (n := 3) (s := workersInit) 1 (by decide) rfl rfl
  have hrun := (((Relation.ReflTransGen.single hlock).tail (.count 1 rfl)).tail
    (.swap 1 rfl)).tail (.unlock 1 rfl)
  exact ⟨_, hrun, rfl, workerMaps_agree (by decide) (by decide) hrun⟩

end Agree

end Cheetah
