import Cheetah.FiberPool
import Cheetah.Placement

/-! Every fiber is in one place, and the pools stay within their capacities. -/
namespace Cheetah

section Pools

variable {p : FiberPool} {fiber x : PoolFiber} {i : ℕ}

/-- The slots below the size hold fibers and are within the capacity. -/
structure FiberPool.Fits (p : FiberPool) : Prop where
  size_le : p.size ≤ p.capacity
  capacity_lt : p.capacity < 2^32
  filled : ∀ i < p.size, ∃ fiber, p.fibers i = some fiber

def FiberPool.Has (p : FiberPool) (fiber : PoolFiber) (i : ℕ) : Prop :=
  i < p.size ∧ p.fibers i = some fiber

theorem FiberPool.fits_init {bufsize : ℕ} (h : bufsize < 2^32) : (FiberPool.init bufsize).Fits :=
  ⟨Nat.zero_le _, h, fun _ hi => absurd hi (Nat.not_lt_zero _)⟩

theorem FiberPool.top_succ (hpos : 0 < p.size) : p.top + 1 = p.size := by
  unfold top
  rw [if_neg (Nat.pos_iff_ne_zero.mp hpos)]
  omega

theorem FiberPool.Fits.room_eq (h : p.Fits) : p.size + p.room = p.capacity := by
  have hle := h.size_le
  unfold room
  rw [if_pos hle]
  omega

theorem FiberPool.Fits.push (h : p.Fits) (hroom : p.size < p.capacity) (fiber : PoolFiber) :
    (p.push (some fiber)).Fits := by
  refine ⟨hroom, h.capacity_lt, fun i hi => ?_⟩
  by_cases his : i = p.size
  · exact ⟨fiber, by rw [his]; exact Function.update_self ..⟩
  · obtain ⟨f, hf⟩ := h.filled i (by change i < p.size + 1 at hi; omega)
    exact ⟨f, (Function.update_of_ne his _ _).trans hf⟩

@[simp] theorem FiberPool.pop_size (p : FiberPool) : p.pop.size = p.top := rfl

@[simp] theorem FiberPool.pop_capacity (p : FiberPool) : p.pop.capacity = p.capacity := rfl

@[simp] theorem FiberPool.pop_fibers (p : FiberPool) : p.pop.fibers = p.fibers := rfl

@[simp] theorem FiberPool.push_size (p : FiberPool) (f : Option PoolFiber) :
    (p.push f).size = p.size + 1 := rfl

@[simp] theorem FiberPool.push_capacity (p : FiberPool) (f : Option PoolFiber) :
    (p.push f).capacity = p.capacity := rfl

theorem FiberPool.Fits.pop (h : p.Fits) (hpos : 0 < p.size) : p.pop.Fits := by
  have htop := FiberPool.top_succ hpos
  have hle := h.size_le
  constructor
  · rw [pop_size, pop_capacity]
    omega
  · rw [pop_capacity]
    exact h.capacity_lt
  · intro i hi
    rw [pop_size] at hi
    rw [pop_fibers]
    exact h.filled i (by omega)

theorem FiberPool.Fits.stats (h : p.Fits) (stats : FiberPoolStats) :
    ({ p with stats := stats } : FiberPool).Fits := ⟨h.size_le, h.capacity_lt, h.filled⟩

theorem FiberPool.push_has_size :
    (p.push (some fiber)).Has x p.size ↔ x = fiber ∨ p.Has x p.size := by
  simp [Has, push, eq_comm]

theorem FiberPool.push_has_of_ne (hi : i ≠ p.size) :
    (p.push (some fiber)).Has x i ↔ p.Has x i := by
  unfold Has push
  dsimp only
  rw [Function.update_of_ne hi]
  exact and_congr_left fun _ => ⟨fun h => by omega, fun h => by omega⟩

theorem FiberPool.pop_has_top (hpos : 0 < p.size) (hf : p.fibers p.top = some fiber) :
    p.pop.Has x p.top ↔ x ≠ fiber ∧ p.Has x p.top := by
  have htop := FiberPool.top_succ hpos
  unfold Has
  rw [pop_size, pop_fibers, hf]
  constructor
  · exact fun h => absurd h.1 (Nat.lt_irrefl _)
  · exact fun h => absurd (Option.some.inj h.2.2).symm h.1

theorem FiberPool.pop_has_of_ne (hpos : 0 < p.size) (hi : i ≠ p.top) :
    p.pop.Has x i ↔ p.Has x i := by
  have htop := FiberPool.top_succ hpos
  unfold Has
  rw [pop_size, pop_fibers]
  exact and_congr_left fun _ => ⟨fun h => by omega, fun h => by omega⟩

theorem FiberPool.Fits.has_top (h : p.Fits) (hpos : 0 < p.size) :
    ∃ fiber, p.fibers p.top = some fiber ∧ p.Has fiber p.top := by
  have htop := FiberPool.top_succ hpos
  obtain ⟨fiber, hf⟩ := h.filled p.top (by omega)
  exact ⟨fiber, hf, by omega, hf⟩

end Pools

/-- What holds of the pool of a worker, and of the parent, where the worker stands. -/
def PoolPc.Stands (cap : ℕ) (parent pool : FiberPool) : PoolPc → Prop
  | uninit => pool.size = 0
  | idle => pool.capacity = cap
  | allocating batch _ => pool.capacity = cap ∧ pool.size = 0 ∧ batch = cap / 2 ∧ 0 < batch
  | fromParent i n batch _ => pool.capacity = cap ∧ pool.size = i ∧ i ≤ n ∧ n ≤ batch ∧
      batch = cap / 2 ∧ 0 < batch ∧ n ≤ i + parent.size
  | fromSystem i batch _ => pool.capacity = cap ∧ pool.size = i ∧ i ≤ batch ∧ batch = cap / 2 ∧
      0 < batch
  | popping => pool.capacity = cap ∧ 0 < pool.size
  | freeing batch _ => pool.capacity = cap ∧ pool.size = cap ∧ batch = cap / 2 ∧ 2 ≤ cap
  | toParent i n batch _ => pool.capacity = cap ∧ pool.size + i = cap ∧ i ≤ n ∧ n ≤ batch ∧
      batch = cap / 2 ∧ 2 ≤ cap ∧ parent.size + n ≤ parent.capacity + i
  | toSystem i batch _ => pool.capacity = cap ∧ pool.size + i = cap ∧ i ≤ batch ∧ batch = cap / 2 ∧
      2 ≤ cap
  | pushing _ => pool.capacity = cap ∧ pool.size < cap

theorem PoolPc.Stands.of_not_locks {cap : ℕ} {parent parent' pool : FiberPool} {pc : PoolPc}
    (h : pc.Stands cap parent pool) (hl : pc.locks = false) : pc.Stands cap parent' pool := by
  cases pc <;> first | exact h | cases hl

structure PoolInv (s : PoolState) : Prop where
  cap_ok : s.cap = 0 ∨ 2 ≤ s.cap
  cap_lt : s.cap < 2^32
  placed : Placed s.At (· < s.numFibers)
  parent : s.parent.Fits
  pools : ∀ w, (s.pools w).Fits
  stands : ∀ w, (s.pc w).Stands s.cap s.parent (s.pools w)
  owner : ∀ w, (s.pc w).locks = true → s.mutexOwner = some w
  accesses : ∀ a ∈ s.accesses, a.1 < a.2

section Steps

variable {s s' : PoolState} {w : ℕ}

/-- Nobody else is between lock and unlock. -/
def PoolState.Alone (s : PoolState) (w : ℕ) : Prop := ∀ v, v ≠ w → (s.pc v).locks = false

theorem PoolInv.alone_of_free (hi : PoolInv s) (hfree : s.mutexOwner = none) (w : ℕ) :
    s.Alone w := by
  intro v _
  cases hl : (s.pc v).locks with
  | false => rfl
  | true =>
    have hv := hi.owner v hl
    rw [hfree] at hv
    cases hv

theorem PoolInv.alone_of_locks (hi : PoolInv s) (hl : (s.pc w).locks = true) : s.Alone w := by
  intro v hv
  cases hlv : (s.pc v).locks with
  | false => rfl
  | true =>
    have hsame := (hi.owner v hlv).symm.trans (hi.owner w hl)
    exact absurd (Option.some.inj hsame) hv

/-- A step of one worker. It changes the parent and its lock only while no other worker is between
lock and unlock. -/
theorem PoolInv.step_of (hi : PoolInv s) (pool parent : FiberPool) (pc : PoolPc)
    (hcap : s'.cap = s.cap) (hpools : s'.pools = Function.update s.pools w pool)
    (hpcs : s'.pc = Function.update s.pc w pc) (hparent : s'.parent = parent)
    (hplaced : Placed s'.At (· < s'.numFibers)) (hfits : parent.Fits) (hpool : pool.Fits)
    (hstands : pc.Stands s.cap parent pool) (howner : pc.locks = true → s'.mutexOwner = some w)
    (hothers : (parent = s.parent ∧ s'.mutexOwner = s.mutexOwner) ∨ s.Alone w)
    (haccess : ∀ a ∈ s'.accesses, a.1 < a.2) : PoolInv s' := by
  refine ⟨by rw [hcap]; exact hi.cap_ok, by rw [hcap]; exact hi.cap_lt, hplaced,
    by rw [hparent]; exact hfits, fun v => ?_, fun v => ?_, fun v hl => ?_, haccess⟩
  · rw [hpools]
    by_cases hv : v = w
    · rw [hv, Function.update_self]
      exact hpool
    · rw [Function.update_of_ne hv]
      exact hi.pools v
  · rw [hpools, hpcs, hcap, hparent]
    by_cases hv : v = w
    · rw [hv, Function.update_self, Function.update_self]
      exact hstands
    · rw [Function.update_of_ne hv, Function.update_of_ne hv]
      rcases hothers with h | h
      · rw [h.1]
        exact hi.stands v
      · exact (hi.stands v).of_not_locks (h v hv)
  · rw [hpcs] at hl
    by_cases hv : v = w
    · rw [hv, Function.update_self] at hl
      rw [hv]
      exact howner hl
    · rw [Function.update_of_ne hv] at hl
      rcases hothers with h | h
      · rw [h.2]
        exact hi.owner v hl
      · rw [h v hv] at hl
        cases hl

theorem PoolState.at_rest {pool : FiberPool} {pc : PoolPc} {x : PoolFiber} {place : FiberPlace}
    (hpools : s'.pools = Function.update s.pools w pool)
    (hpcs : s'.pc = Function.update s.pc w pc)
    (hin : place = .inUse → (x ∈ s'.inUse ↔ x ∈ s.inUse))
    (hheld : place = .held w → (pc.held = some x ↔ (s.pc w).held = some x))
    (hparent : ∀ i, place = .parentSlot i → (s'.parent.Has x i ↔ s.parent.Has x i))
    (hpool : ∀ i, place = .slot w i → (pool.Has x i ↔ (s.pools w).Has x i))
    (hret : place = .returned → (x ∈ s'.returned ↔ x ∈ s.returned)) :
    s'.At x place ↔ s.At x place := by
  cases place with
  | inUse => exact hin rfl
  | held v =>
    simp only [At, hpcs]
    by_cases hv : v = w
    · subst hv
      rw [Function.update_self]
      exact hheld rfl
    · rw [Function.update_of_ne hv]
  | parentSlot i => exact hparent i rfl
  | slot v i =>
    simp only [At, hpools]
    by_cases hv : v = w
    · subst hv
      rw [Function.update_self]
      exact hpool i rfl
    · rw [Function.update_of_ne hv]
  | returned => exact hret rfl

/-- A step that moves no fiber. -/
theorem PoolInv.placed_of_same (hi : PoolInv s) {pool : FiberPool} {pc : PoolPc}
    (hpools : s'.pools = Function.update s.pools w pool)
    (hpcs : s'.pc = Function.update s.pc w pc) (hnum : s'.numFibers = s.numFibers)
    (hin : s'.inUse = s.inUse) (hheld : pc.held = (s.pc w).held)
    (hparent : ∀ x i, s'.parent.Has x i ↔ s.parent.Has x i)
    (hpool : ∀ x i, pool.Has x i ↔ (s.pools w).Has x i) (hret : s'.returned = s.returned) :
    Placed s'.At (· < s'.numFibers) := by
  rw [hnum]
  exact hi.placed.congr fun x place => PoolState.at_rest hpools hpcs (fun _ => by rw [hin])
    (fun _ => by rw [hheld]) (fun i _ => hparent x i) (fun i _ => hpool x i)
    (fun _ => by rw [hret])

theorem BatchCaller.after_held (caller : BatchCaller) : caller.after.held = none := by
  cases caller <;> rfl

theorem BatchCaller.after_locks (caller : BatchCaller) : caller.after.locks = false := by
  cases caller <;> rfl

theorem PoolInv.capacity_eq (hi : PoolInv s) (hpc : s.pc w ≠ .uninit) :
    (s.pools w).capacity = s.cap := by
  have hstands := hi.stands w
  cases hcase : s.pc w with
  | uninit => exact absurd hcase hpc
  | idle => rw [hcase] at hstands; exact hstands
  | _ => rw [hcase] at hstands; exact hstands.1

theorem pools_same (s : PoolState) (w : ℕ) :
    s.pools = Function.update s.pools w (s.pools w) := (Function.update_eq_self _ _).symm

theorem pcs_same (s : PoolState) (w : ℕ) : s.pc = Function.update s.pc w (s.pc w) :=
  (Function.update_eq_self _ _).symm

/-- A step that only changes where the worker stands. -/
theorem PoolInv.goTo (hi : PoolInv s) {pc : PoolPc} (hheld : pc.held = (s.pc w).held)
    (hstands : pc.Stands s.cap s.parent (s.pools w))
    (hlocks : pc.locks = false) : PoolInv (s.setPc w pc) :=
  hi.step_of (s.pools w) s.parent pc rfl (pools_same s w) rfl rfl
    (hi.placed_of_same (pools_same s w) rfl rfl rfl hheld (fun _ _ => Iff.rfl)
      (fun _ _ => Iff.rfl) rfl)
    hi.parent (hi.pools w) hstands (fun h => by rw [hlocks] at h; cases h) (Or.inl ⟨rfl, rfl⟩)
    hi.accesses

/-- `fiber_pool_allocate_batch` starts on an empty pool. -/
theorem PoolInv.allocateBatch (hi : PoolInv s) {caller : BatchCaller}
    (hempty : (s.pools w).size = 0) (hcap : (s.pools w).capacity = s.cap)
    (hheld : (s.pc w).held = none) (hcaller : caller = .allocateFromPool → s.cap ≠ 0) :
    PoolInv (s.allocateBatch w (s.cap / 2) caller) := by
  have hok := hi.cap_ok
  unfold PoolState.allocateBatch
  split_ifs with hzero
  · have hcap0 : s.cap = 0 := by omega
    cases caller with
    | perWorkerInit => exact hi.goTo hheld.symm hcap rfl
    | allocateFromPool => exact absurd hcap0 (hcaller rfl)
  · have hsame : (s.pools w).increaseCapacity (s.cap / 2 + (s.pools w).size) = s.pools w := by
      unfold FiberPool.increaseCapacity
      rw [if_neg (by rw [hempty, hcap]; omega)]
    rw [hsame]
    have hself : s.setPool w (s.pools w) = s := by
      unfold PoolState.setPool
      rw [← pools_same]
    rw [hself]
    exact hi.goTo hheld.symm ⟨hcap, hempty, rfl, by omega⟩ rfl

theorem PoolInv.perWorkerInit (hi : PoolInv s) (hpc : s.pc w = .uninit) :
    PoolInv (s.perWorkerInit w) := by
  have hst := hi.stands w
  rw [hpc] at hst
  have hsize : (s.pools w).size = 0 := hst
  have hnone : ∀ (p : FiberPool) x i, p.size = 0 → ¬ p.Has x i := by
    intro p x i hp h
    exact Nat.not_lt_zero i (hp ▸ h.1)
  have hinit : PoolInv (s.setPool w (.init s.cap)) :=
    hi.step_of (.init s.cap) s.parent .uninit rfl rfl (by rw [← hpc]; exact (pcs_same s w)) rfl
      (hi.placed_of_same rfl (pcs_same s w) rfl rfl rfl (fun _ _ => Iff.rfl)
        (fun x i => iff_of_false (hnone _ x i rfl) (hnone _ x i hsize)) rfl)
      hi.parent (FiberPool.fits_init hi.cap_lt) rfl (fun h => by cases h) (Or.inl ⟨rfl, rfl⟩)
      hi.accesses
  have hpool : (s.setPool w (.init s.cap)).pools w = .init s.cap := Function.update_self ..
  exact hinit.allocateBatch (by rw [hpool]; rfl) (by rw [hpool]; rfl)
    (by change (s.pc w).held = none; rw [hpc]; rfl) (fun h => by cases h)

theorem PoolInv.lockToAllocate (hi : PoolInv s) {batch : ℕ} {caller : BatchCaller}
    (hpc : s.pc w = .allocating batch caller) (hfree : s.mutexOwner = none) :
    PoolInv (s.lockToAllocate w batch caller) := by
  have hst := hi.stands w
  rw [hpc] at hst
  obtain ⟨hcap, hsize, hb, hpos⟩ := hst
  refine hi.step_of (s.pools w) s.parent _ rfl (pools_same s w) rfl rfl
    (hi.placed_of_same (pools_same s w) rfl rfl rfl (by rw [hpc]; rfl) (fun _ _ => Iff.rfl)
      (fun _ _ => Iff.rfl) rfl)
    hi.parent (hi.pools w) ⟨hcap, hsize, Nat.zero_le _, ?_, hb, hpos, ?_⟩ (fun _ => rfl)
    (Or.inr (hi.alone_of_free hfree w)) hi.accesses
  · split_ifs with h
    · exact h
    · exact Nat.le_refl _
  · split_ifs with h <;> omega

theorem PoolInv.takeFromParent (hi : PoolInv s) {i n batch : ℕ} {caller : BatchCaller}
    (hpc : s.pc w = .fromParent i n batch caller) (hin : i < n) :
    PoolInv ((s.takeFromParent w).setPc w (.fromParent (i + 1) n batch caller)) := by
  have hst := hi.stands w
  rw [hpc] at hst
  obtain ⟨hcap, hsize, hile, hnle, hb, hpos, hparent⟩ := hst
  have hppos : 0 < s.parent.size := by omega
  have hroom : (s.pools w).size < (s.pools w).capacity := by omega
  have htop := FiberPool.top_succ hppos
  have hle := hi.parent.size_le
  obtain ⟨fiber, hfiber, hhas⟩ := hi.parent.has_top hppos
  have hpools : ((s.takeFromParent w).setPc w (.fromParent (i + 1) n batch caller)).pools =
      Function.update s.pools w ((s.pools w).push (some fiber)) := by
    rw [← hfiber]
    rfl
  have hslot : ((s.takeFromParent w).setPc w (.fromParent (i + 1) n batch caller)).pools w =
      (s.pools w).push (some fiber) := by rw [hpools, Function.update_self]
  refine hi.step_of ((s.pools w).push (some fiber)) s.parent.pop
    (.fromParent (i + 1) n batch caller) rfl hpools rfl rfl ?_ (hi.parent.pop hppos)
    ((hi.pools w).push hroom fiber)
    ⟨hcap, by rw [FiberPool.push_size, hsize], hin, hnle, hb, hpos, ?_⟩
    (fun _ => hi.owner w (by rw [hpc]; rfl)) (Or.inr (hi.alone_of_locks (by rw [hpc]; rfl))) ?_
  · refine hi.placed.move fiber (.parentSlot s.parent.top)
      (.slot w (s.pools w).size) hhas (fun x => FiberPool.pop_has_top hppos hfiber)
      (fun x => ?_) (fun x place h₀ h₁ => ?_)
    · simp only [PoolState.At, hslot]
      exact FiberPool.push_has_size
    · exact PoolState.at_rest hpools rfl (fun _ => Iff.rfl) (fun _ => by rw [hpc]; rfl)
        (fun j hj => FiberPool.pop_has_of_ne hppos fun h => h₀ (by rw [hj, h]))
        (fun j hj => FiberPool.push_has_of_ne fun h => h₁ (by rw [hj, h])) (fun _ => Iff.rfl)
  · rw [FiberPool.pop_size]
    omega
  · intro a ha
    simp only [PoolState.takeFromParent, PoolState.setPc, PoolState.setPool,
      List.mem_cons] at ha
    rcases ha with rfl | rfl | ha
    · dsimp only
      omega
    · exact hroom
    · exact hi.accesses a ha

theorem PoolInv.unlockAllocated (hi : PoolInv s) {i n batch : ℕ} {caller : BatchCaller}
    (hpc : s.pc w = .fromParent i n batch caller) (hin : ¬ i < n) :
    PoolInv (s.unlockAllocated w n batch caller) := by
  have hst := hi.stands w
  rw [hpc] at hst
  obtain ⟨hcap, hsize, hile, hnle, hb, hpos, -⟩ := hst
  exact hi.step_of (s.pools w) ((s.parent.addInUse n).noteInUse) (.fromSystem n batch caller) rfl
    (pools_same s w) rfl rfl
    (hi.placed_of_same (pools_same s w) rfl rfl rfl (by rw [hpc]; rfl) (fun _ _ => Iff.rfl)
      (fun _ _ => Iff.rfl) rfl)
    ((hi.parent.stats _).stats _) (hi.pools w)
    ⟨hcap, by omega, by omega, hb, hpos⟩ (fun h => by cases h)
    (Or.inr (hi.alone_of_locks (by rw [hpc]; rfl))) hi.accesses

theorem lt_succ_iff_eq_or {n : ℕ} : (fun x => x < n + 1) = fun x => x = n ∨ x < n := by
  funext x
  exact propext (by omega)

theorem PoolInv.takeFromSystem (hi : PoolInv s) {i batch : ℕ} {caller : BatchCaller}
    (hpc : s.pc w = .fromSystem i batch caller) (hib : i < batch) :
    PoolInv ((s.takeFromSystem w).setPc w (.fromSystem (i + 1) batch caller)) := by
  have hst := hi.stands w
  rw [hpc] at hst
  obtain ⟨hcap, hsize, hile, hb, hpos⟩ := hst
  have hroom : (s.pools w).size < (s.pools w).capacity := by omega
  have hslot : ((s.takeFromSystem w).setPc w (.fromSystem (i + 1) batch caller)).pools w =
      (s.pools w).push (some s.numFibers) := Function.update_self ..
  refine hi.step_of ((s.pools w).push (some s.numFibers)) s.parent
    (.fromSystem (i + 1) batch caller) rfl rfl rfl rfl ?_ hi.parent
    ((hi.pools w).push hroom _) ⟨hcap, by rw [FiberPool.push_size, hsize], hib, hb, hpos⟩
    (fun h => by cases h) (Or.inl ⟨rfl, rfl⟩) ?_
  · have hnum : ((s.takeFromSystem w).setPc w (.fromSystem (i + 1) batch caller)).numFibers =
        s.numFibers + 1 := rfl
    rw [hnum, lt_succ_iff_eq_or]
    refine hi.placed.create s.numFibers (.slot w (s.pools w).size) (Nat.lt_irrefl _)
      (fun x => ?_) (fun x place h₁ => ?_)
    · simp only [PoolState.At, hslot]
      exact FiberPool.push_has_size
    · exact PoolState.at_rest rfl rfl (fun _ => Iff.rfl) (fun _ => by rw [hpc]; rfl)
        (fun _ _ => Iff.rfl) (fun j hj => FiberPool.push_has_of_ne fun h => h₁ (by rw [hj, h]))
        (fun _ => Iff.rfl)
  · intro a ha
    simp only [PoolState.takeFromSystem, PoolState.setPc, PoolState.setPool, List.mem_cons] at ha
    rcases ha with rfl | ha
    · exact hroom
    · exact hi.accesses a ha

theorem PoolInv.batchAllocated (hi : PoolInv s) {i batch : ℕ} {caller : BatchCaller}
    (hpc : s.pc w = .fromSystem i batch caller) (hib : ¬ i < batch) :
    PoolInv ((s.setPool w (s.pools w).noteFree).setPc w caller.after) := by
  have hst := hi.stands w
  rw [hpc] at hst
  obtain ⟨hcap, hsize, hile, hb, hpos⟩ := hst
  refine hi.step_of (s.pools w).noteFree s.parent caller.after rfl rfl rfl rfl
    (hi.placed_of_same rfl rfl rfl rfl (by rw [hpc]; exact caller.after_held)
      (fun _ _ => Iff.rfl) (fun _ _ => Iff.rfl) rfl)
    hi.parent ((hi.pools w).stats _) ?_
    (fun h => by rw [caller.after_locks] at h; cases h) (Or.inl ⟨rfl, rfl⟩) hi.accesses
  cases caller with
  | perWorkerInit => exact hcap
  | allocateFromPool =>
    refine ⟨hcap, ?_⟩
    change 0 < (s.pools w).size
    omega

theorem PoolInv.allocateFromPool (hi : PoolInv s) (hpc : s.pc w = .idle) :
    PoolInv (s.allocateFromPool w) := by
  have hst := hi.stands w
  rw [hpc] at hst
  have hcap : (s.pools w).capacity = s.cap := hst
  have hok := hi.cap_ok
  unfold PoolState.allocateFromPool
  dsimp only
  split_ifs with hzero hempty
  · refine hi.step_of (s.pools w) s.parent (s.pc w) rfl (pools_same s w) (pcs_same s w) rfl ?_
      hi.parent (hi.pools w) (hi.stands w) (hi.owner w) (Or.inl ⟨rfl, rfl⟩) hi.accesses
    dsimp only
    rw [lt_succ_iff_eq_or]
    refine hi.placed.create s.numFibers .inUse (Nat.lt_irrefl _) (fun x => Finset.mem_insert)
      (fun x place h₁ => ?_)
    exact PoolState.at_rest (pools_same s w) (pcs_same s w) (fun h => absurd h h₁)
      (fun _ => Iff.rfl) (fun _ _ => Iff.rfl) (fun _ _ => Iff.rfl) (fun _ => Iff.rfl)
  · rw [hcap]
    exact hi.allocateBatch hempty hcap (by rw [hpc]; rfl) (fun _ => by omega)
  · exact hi.goTo (by rw [hpc]; rfl) ⟨hcap, Nat.pos_of_ne_zero hempty⟩ rfl

theorem PoolInv.popFiber (hi : PoolInv s) (hpc : s.pc w = .popping) : PoolInv (s.popFiber w) := by
  have hst := hi.stands w
  rw [hpc] at hst
  obtain ⟨hcap, hpos⟩ := hst
  have htop := FiberPool.top_succ hpos
  have hle := (hi.pools w).size_le
  obtain ⟨fiber, hfiber, hhas⟩ := (hi.pools w).has_top hpos
  have hallocated : s.allocated w = some fiber := hfiber
  have hslot : (s.popFiber w).pools w = ((s.pools w).pop.addInUse 1).noteInUse :=
    Function.update_self ..
  refine hi.step_of (((s.pools w).pop.addInUse 1).noteInUse) s.parent .idle rfl rfl rfl rfl ?_
    hi.parent ((((hi.pools w).pop hpos).stats _).stats _) hcap (fun h => by cases h)
    (Or.inl ⟨rfl, rfl⟩) ?_
  · refine hi.placed.move fiber (.slot w (s.pools w).top) .inUse hhas (fun x => ?_) (fun x => ?_)
      (fun x place h₀ h₁ => ?_)
    · simp only [PoolState.At, hslot]
      exact FiberPool.pop_has_top hpos hfiber
    · simp only [PoolState.At, PoolState.popFiber, hallocated, Option.elim_some, Finset.mem_insert]
    · exact PoolState.at_rest rfl rfl (fun h => absurd h h₁) (fun _ => by rw [hpc]; rfl)
        (fun _ _ => Iff.rfl) (fun j hj => FiberPool.pop_has_of_ne hpos fun h => h₀ (by rw [hj, h]))
        (fun _ => Iff.rfl)
  · intro a ha
    simp only [PoolState.popFiber, PoolState.setPc, PoolState.setPool, List.mem_cons] at ha
    rcases ha with rfl | ha
    · dsimp only
      omega
    · exact hi.accesses a ha

/-- The worker has a fiber in hand that is to be returned. -/
theorem PoolInv.hold (hi : PoolInv s) (hpc : s.pc w = .idle) {pc : PoolPc}
    {held : Option PoolFiber} (hheld : pc.held = held) (hin : ∀ fiber ∈ held, fiber ∈ s.inUse)
    (hstands : pc.Stands s.cap s.parent (s.pools w)) (hlocks : pc.locks = false) :
    PoolInv { s.setPc w pc with inUse := held.elim s.inUse s.inUse.erase } := by
  refine hi.step_of (s.pools w) s.parent pc rfl (pools_same s w) rfl rfl ?_ hi.parent (hi.pools w)
    hstands (fun h => by rw [hlocks] at h; cases h) (Or.inl ⟨rfl, rfl⟩) hi.accesses
  cases held with
  | none =>
    exact hi.placed_of_same (pools_same s w) rfl rfl rfl (by rw [hheld, hpc]; rfl)
      (fun _ _ => Iff.rfl) (fun _ _ => Iff.rfl) rfl
  | some fiber =>
    refine hi.placed.move fiber .inUse (.held w) (hin fiber rfl) (fun x => Finset.mem_erase)
      (fun x => ?_) (fun x place h₀ h₁ => ?_)
    · simp only [PoolState.At, PoolState.setPc, Function.update_self, hheld, hpc]
      simp [PoolPc.held, eq_comm]
    · exact PoolState.at_rest (pools_same s w) rfl (fun h => absurd h h₀) (fun h => absurd h h₁)
        (fun _ _ => Iff.rfl) (fun _ _ => Iff.rfl) (fun _ => Iff.rfl)

theorem PoolInv.deallocateToPool (hi : PoolInv s) (hpc : s.pc w = .idle)
    {fiberToReturn : Option PoolFiber} (hin : ∀ fiber ∈ fiberToReturn, fiber ∈ s.inUse) :
    PoolInv (s.deallocateToPool w fiberToReturn) := by
  have hst := hi.stands w
  rw [hpc] at hst
  have hcap : (s.pools w).capacity = s.cap := hst
  have hok := hi.cap_ok
  have hle := (hi.pools w).size_le
  unfold PoolState.deallocateToPool
  dsimp only
  split_ifs with hzero hfull
  · cases fiberToReturn with
    | none => exact hi
    | some fiber =>
      refine hi.step_of (s.pools w) s.parent (s.pc w) rfl (pools_same s w) (pcs_same s w) rfl ?_
        hi.parent (hi.pools w) (hi.stands w) (hi.owner w) (Or.inl ⟨rfl, rfl⟩) hi.accesses
      refine hi.placed.move fiber .inUse .returned (hin fiber rfl) (fun x => Finset.mem_erase)
        (fun x => Finset.mem_insert) (fun x place h₀ h₁ => ?_)
      exact PoolState.at_rest (pools_same s w) (pcs_same s w) (fun h => absurd h h₀)
        (fun _ => Iff.rfl) (fun _ _ => Iff.rfl) (fun _ _ => Iff.rfl) (fun h => absurd h h₁)
  · have htwo : 2 ≤ s.cap := by omega
    exact hi.hold hpc rfl hin ⟨hcap, hfull.trans hcap, by rw [hcap]; rfl, htwo⟩ rfl
  · exact hi.hold hpc rfl hin ⟨hcap, by omega⟩ rfl

theorem PoolInv.pushFiber (hi : PoolInv s) {held : Option PoolFiber}
    (hpc : s.pc w = .pushing held) : PoolInv (s.pushFiber w held) := by
  have hst := hi.stands w
  rw [hpc] at hst
  obtain ⟨hcap, hlt⟩ := hst
  cases held with
  | none => exact hi.goTo (by rw [hpc]; rfl) hcap rfl
  | some fiber =>
    have hroom : (s.pools w).size < (s.pools w).capacity := by omega
    have hslot : (s.pushFiber w (some fiber)).pools w =
        (((s.pools w).push (some fiber)).addInUse (-1)).noteFree := Function.update_self ..
    have hhand : (s.pushFiber w (some fiber)).pc w = .idle := Function.update_self ..
    refine hi.step_of ((((s.pools w).push (some fiber)).addInUse (-1)).noteFree) s.parent .idle
      rfl rfl rfl rfl ?_ hi.parent ((((hi.pools w).push hroom fiber).stats _).stats _) hcap
      (fun h => by cases h) (Or.inl ⟨rfl, rfl⟩) ?_
    · refine hi.placed.move fiber (.held w) (.slot w (s.pools w).size) (by
        simp only [PoolState.At, hpc]; rfl) (fun x => ?_) (fun x => ?_) (fun x place h₀ h₁ => ?_)
      · simp only [PoolState.At, hhand, hpc]
        simp [PoolPc.held, eq_comm]
      · simp only [PoolState.At, hslot]
        exact FiberPool.push_has_size
      · exact PoolState.at_rest rfl rfl (fun _ => Iff.rfl) (fun h => absurd h h₀)
          (fun _ _ => Iff.rfl) (fun j hj => FiberPool.push_has_of_ne fun h => h₁ (by rw [hj, h]))
          (fun _ => Iff.rfl)
    · intro a ha
      simp only [PoolState.pushFiber, PoolState.setPc, PoolState.setPool, List.mem_cons] at ha
      rcases ha with rfl | ha
      · exact hroom
      · exact hi.accesses a ha

theorem PoolInv.lockToFree (hi : PoolInv s) {batch : ℕ} {held : Option PoolFiber}
    (hpc : s.pc w = .freeing batch held) (hfree : s.mutexOwner = none) :
    PoolInv (s.lockToFree w batch held) := by
  have hst := hi.stands w
  rw [hpc] at hst
  obtain ⟨hcap, hsize, hb, htwo⟩ := hst
  have hroom := hi.parent.room_eq
  refine hi.step_of (s.pools w) s.parent _ rfl (pools_same s w) rfl rfl
    (hi.placed_of_same (pools_same s w) rfl rfl rfl (by rw [hpc]; rfl) (fun _ _ => Iff.rfl)
      (fun _ _ => Iff.rfl) rfl)
    hi.parent (hi.pools w) ⟨hcap, hsize, Nat.zero_le _, ?_, hb, htwo, ?_⟩ (fun _ => rfl)
    (Or.inr (hi.alone_of_free hfree w)) hi.accesses
  · split_ifs with h
    · exact Nat.le_refl _
    · omega
  · split_ifs with h <;> omega

theorem PoolInv.giveToParent (hi : PoolInv s) {i n batch : ℕ} {held : Option PoolFiber}
    (hpc : s.pc w = .toParent i n batch held) (hin : i < n) :
    PoolInv ((s.giveToParent w).setPc w (.toParent (i + 1) n batch held)) := by
  have hst := hi.stands w
  rw [hpc] at hst
  obtain ⟨hcap, hsize, hile, hnle, hb, htwo, hparent⟩ := hst
  have hpos : 0 < (s.pools w).size := by omega
  have hroom : s.parent.size < s.parent.capacity := by omega
  have htop := FiberPool.top_succ hpos
  have hle := (hi.pools w).size_le
  obtain ⟨fiber, hfiber, hhas⟩ := (hi.pools w).has_top hpos
  have hslot : ((s.giveToParent w).setPc w (.toParent (i + 1) n batch held)).pools w =
      (s.pools w).pop := Function.update_self ..
  have hparent' : ((s.giveToParent w).setPc w (.toParent (i + 1) n batch held)).parent =
      s.parent.push (some fiber) := by
    rw [← hfiber]
    rfl
  refine hi.step_of (s.pools w).pop (s.parent.push (some fiber)) (.toParent (i + 1) n batch held)
    rfl rfl rfl hparent' ?_ (hi.parent.push hroom fiber) ((hi.pools w).pop hpos)
    ⟨hcap, by rw [FiberPool.pop_size]; omega, hin, hnle, hb, htwo, ?_⟩
    (fun _ => hi.owner w (by rw [hpc]; rfl)) (Or.inr (hi.alone_of_locks (by rw [hpc]; rfl))) ?_
  · refine hi.placed.move fiber (.slot w (s.pools w).top) (.parentSlot s.parent.size) hhas
      (fun x => ?_) (fun x => ?_) (fun x place h₀ h₁ => ?_)
    · simp only [PoolState.At, hslot]
      exact FiberPool.pop_has_top hpos hfiber
    · simp only [PoolState.At, hparent']
      exact FiberPool.push_has_size
    · exact PoolState.at_rest rfl rfl (fun _ => Iff.rfl) (fun _ => by rw [hpc]; rfl)
        (fun j hj => by
          rw [hparent']
          exact FiberPool.push_has_of_ne fun h => h₁ (by rw [hj, h]))
        (fun j hj => FiberPool.pop_has_of_ne hpos fun h => h₀ (by rw [hj, h])) (fun _ => Iff.rfl)
  · rw [FiberPool.push_size, FiberPool.push_capacity]
    omega
  · intro a ha
    simp only [PoolState.giveToParent, PoolState.setPc, PoolState.setPool, List.mem_cons] at ha
    rcases ha with rfl | rfl | ha
    · dsimp only
      omega
    · exact hroom
    · exact hi.accesses a ha

theorem PoolInv.unlockFreed (hi : PoolInv s) {i n batch : ℕ} {held : Option PoolFiber}
    (hpc : s.pc w = .toParent i n batch held) (hin : ¬ i < n) :
    PoolInv (s.unlockFreed w n batch held) := by
  have hst := hi.stands w
  rw [hpc] at hst
  obtain ⟨hcap, hsize, hile, hnle, hb, htwo, -⟩ := hst
  exact hi.step_of (s.pools w) ((s.parent.addInUse (-n)).noteFree) (.toSystem n batch held) rfl
    (pools_same s w) rfl rfl
    (hi.placed_of_same (pools_same s w) rfl rfl rfl (by rw [hpc]; rfl) (fun _ _ => Iff.rfl)
      (fun _ _ => Iff.rfl) rfl)
    ((hi.parent.stats _).stats _) (hi.pools w) ⟨hcap, by omega, by omega, hb, htwo⟩
    (fun h => by cases h) (Or.inr (hi.alone_of_locks (by rw [hpc]; rfl))) hi.accesses

theorem PoolInv.giveToSystem (hi : PoolInv s) {i batch : ℕ} {held : Option PoolFiber}
    (hpc : s.pc w = .toSystem i batch held) (hib : i < batch) :
    PoolInv ((s.giveToSystem w).setPc w (.toSystem (i + 1) batch held)) := by
  have hst := hi.stands w
  rw [hpc] at hst
  obtain ⟨hcap, hsize, hile, hb, htwo⟩ := hst
  have hpos : 0 < (s.pools w).size := by omega
  have htop := FiberPool.top_succ hpos
  have hle := (hi.pools w).size_le
  obtain ⟨fiber, hfiber, hhas⟩ := (hi.pools w).has_top hpos
  have hslot : ((s.giveToSystem w).setPc w (.toSystem (i + 1) batch held)).pools w =
      (s.pools w).pop := Function.update_self ..
  refine hi.step_of (s.pools w).pop s.parent (.toSystem (i + 1) batch held) rfl rfl rfl rfl ?_
    hi.parent ((hi.pools w).pop hpos)
    ⟨hcap, by rw [FiberPool.pop_size]; omega, hib, hb, htwo⟩ (fun h => by cases h)
    (Or.inl ⟨rfl, rfl⟩) ?_
  · refine hi.placed.move fiber (.slot w (s.pools w).top) .returned hhas (fun x => ?_)
      (fun x => ?_) (fun x place h₀ h₁ => ?_)
    · simp only [PoolState.At, hslot]
      exact FiberPool.pop_has_top hpos hfiber
    · simp only [PoolState.At, PoolState.setPc, PoolState.giveToSystem, hfiber, Option.elim_some,
        Finset.mem_insert]
    · exact PoolState.at_rest rfl rfl (fun _ => Iff.rfl) (fun _ => by rw [hpc]; rfl)
        (fun _ _ => Iff.rfl) (fun j hj => FiberPool.pop_has_of_ne hpos fun h => h₀ (by rw [hj, h]))
        (fun h => absurd h h₁)
  · intro a ha
    simp only [PoolState.giveToSystem, PoolState.setPc, PoolState.setPool, List.mem_cons] at ha
    rcases ha with rfl | ha
    · dsimp only
      omega
    · exact hi.accesses a ha

theorem PoolInv.batchFreed (hi : PoolInv s) {i batch : ℕ} {held : Option PoolFiber}
    (hpc : s.pc w = .toSystem i batch held) (hib : ¬ i < batch) :
    PoolInv (s.setPc w (.pushing held)) := by
  have hst := hi.stands w
  rw [hpc] at hst
  obtain ⟨hcap, hsize, hile, hb, htwo⟩ := hst
  exact hi.goTo (by rw [hpc]; rfl) ⟨hcap, by omega⟩ rfl

theorem PoolInv.step (hi : PoolInv s) (hs : PoolStep s s') : PoolInv s' := by
  cases hs with
  | perWorkerInit w hpc => exact hi.perWorkerInit hpc
  | lockToAllocate w hpc hfree => exact hi.lockToAllocate hpc hfree
  | takeFromParent w hpc hin => exact hi.takeFromParent hpc hin
  | unlockAllocated w hpc hin => exact hi.unlockAllocated hpc hin
  | takeFromSystem w hpc hib => exact hi.takeFromSystem hpc hib
  | batchAllocated w hpc hib => exact hi.batchAllocated hpc hib
  | allocateFromPool w hpc => exact hi.allocateFromPool hpc
  | popFiber w hpc => exact hi.popFiber hpc
  | deallocateToPool w fiberToReturn hpc hin => exact hi.deallocateToPool hpc hin
  | pushFiber w hpc => exact hi.pushFiber hpc
  | lockToFree w hpc hfree => exact hi.lockToFree hpc hfree
  | giveToParent w hpc hin => exact hi.giveToParent hpc hin
  | unlockFreed w hpc hin => exact hi.unlockFreed hpc hin
  | giveToSystem w hpc hib => exact hi.giveToSystem hpc hib
  | batchFreed w hpc hib => exact hi.batchFreed hpc hib

theorem parseFiberPoolCap_admits {env : ℤ} {cap : ℕ} (h : parseFiberPoolCap env = some cap) :
    (cap = 0 ∨ 2 ≤ cap) ∧ cap < 2^32 := by
  unfold parseFiberPoolCap at h
  split_ifs at h with hadmitted hle
  · obtain rfl := Option.some.inj h
    omega
  · obtain rfl := Option.some.inj h
    omega

theorem poolInv_initial {cap : ℕ} (nproc : ℕ) (hok : cap = 0 ∨ 2 ≤ cap) (hlt : cap < 2^32) :
    PoolInv (.initial cap nproc) := by
  have hnone : ∀ fiber place, ¬ (PoolState.initial cap nproc).At fiber place := by
    intro fiber place h
    cases place with
    | inUse => exact Finset.notMem_empty _ h
    | held w => cases h
    | parentSlot i => exact Nat.not_lt_zero i h.1
    | slot w i => exact Nat.not_lt_zero i h.1
    | returned => exact Finset.notMem_empty _ h
  exact ⟨hok, hlt, ⟨fun _ hx => absurd hx (Nat.not_lt_zero _), fun x p h => absurd h (hnone x p)⟩,
    FiberPool.fits_init (Nat.mod_lt _ (Nat.two_pow_pos 32)),
    fun _ => FiberPool.fits_init (Nat.two_pow_pos 32), fun _ => rfl,
    fun _ h => absurd h Bool.false_ne_true, fun _ ha => absurd ha List.not_mem_nil⟩

theorem poolInv_run {cap nproc : ℕ} {env : ℤ} (hcap : parseFiberPoolCap env = some cap)
    (hrun : Reaches PoolStep (.initial cap nproc) s) : PoolInv s :=
  hrun.preserves (fun _ _ hi hs => hi.step hs)
    (poolInv_initial nproc (parseFiberPoolCap_admits hcap).1 (parseFiberPoolCap_admits hcap).2)

/-- Only the pools of the workers are resized. -/
theorem PoolStep.parent_capacity (hs : PoolStep s s') : s'.parent.capacity = s.parent.capacity := by
  have hbatch : ∀ (s : PoolState) (w batch : ℕ) (caller : BatchCaller),
      (s.allocateBatch w batch caller).parent = s.parent := by
    intro s w batch caller
    unfold PoolState.allocateBatch
    split_ifs <;> rfl
  cases hs with
  | perWorkerInit w hpc =>
    unfold PoolState.perWorkerInit
    rw [hbatch]
    rfl
  | allocateFromPool w hpc =>
    unfold PoolState.allocateFromPool
    dsimp only
    split_ifs
    · rfl
    · rw [hbatch]
    · rfl
  | deallocateToPool w fiberToReturn hpc hin =>
    unfold PoolState.deallocateToPool
    dsimp only
    split_ifs <;> rfl
  | @pushFiber w held hpc => cases held <;> rfl
  | _ => rfl

/-- In every interleaving each fiber that the system gave out is in one place: in use, on its way
back, in a slot below the size of one pool, or returned to the system. An allocation takes a fiber
that is not in use, slots are accessed below the capacity, and no pool outgrows its capacity. -/
theorem fiberPool_conserves {cap nproc : ℕ} {env : ℤ} (hcap : parseFiberPoolCap env = some cap)
    (hrun : Reaches PoolStep (.initial cap nproc) s) :
    (∀ fiber < s.numFibers, ∃! place, s.At fiber place) ∧
    (∀ fiber place, s.At fiber place → fiber < s.numFibers) ∧
    (∀ w, s.pc w = .popping → ∃ fiber, s.allocated w = some fiber ∧ fiber ∉ s.inUse ∧
      ∀ v, (s.pc v).held ≠ some fiber) ∧
    s.numFibers ∉ s.inUse ∧
    (∀ a ∈ s.accesses, a.1 < a.2) ∧
    (∀ w, (s.pools w).size ≤ (s.pools w).capacity ∧
      (s.pc w ≠ .uninit → (s.pools w).capacity = s.cap)) ∧
    s.parent.size ≤ s.parent.capacity ∧ s.parent.capacity = nproc * cap % 2^32 := by
  have hi := poolInv_run hcap hrun
  refine ⟨hi.placed.one, hi.placed.live, fun w hpc => ?_, fun hin => ?_, hi.accesses,
    fun w => ⟨(hi.pools w).size_le, hi.capacity_eq⟩, hi.parent.size_le, ?_⟩
  · have hst := hi.stands w
    rw [hpc] at hst
    obtain ⟨fiber, hfiber, hhas⟩ := (hi.pools w).has_top hst.2
    have hslot : s.At fiber (.slot w (s.pools w).top) := hhas
    refine ⟨fiber, hfiber, fun hin => ?_, fun v hv => ?_⟩
    · cases hi.placed.unique hslot (show s.At fiber .inUse from hin)
    · cases hi.placed.unique hslot (show s.At fiber (.held v) from hv)
  · exact Nat.lt_irrefl _ (hi.placed.live s.numFibers .inUse hin)
  · have hkeep : ∀ t t' : PoolState, t.parent.capacity = nproc * cap % 2^32 → PoolStep t t' →
        t'.parent.capacity = nproc * cap % 2^32 := fun _ _ h hs => hs.parent_capacity.trans h
    exact hrun.preserves hkeep rfl

/-- A worker is about to take the fiber that its initialization got from the system. -/
theorem fiberPool_conserves_initialized :
    ∃ s, Reaches PoolStep (.initial 2 1) s ∧ s.allocated 0 = some 0 ∧ 0 ∉ s.inUse := by
  have hrun := (Relation.ReflTransGen.refl (r := PoolStep) (a := .initial 2 1)).tail
    (.perWorkerInit 0 rfl) |>.tail (.lockToAllocate 0 rfl rfl)
    |>.tail (.unlockAllocated 0 rfl (by decide)) |>.tail (.takeFromSystem 0 rfl (by decide))
    |>.tail (.batchAllocated 0 rfl (by decide)) |>.tail (.allocateFromPool 0 rfl)
  obtain ⟨fiber, hfiber, hin, -⟩ := (fiberPool_conserves
    (show parseFiberPoolCap 2 = some 2 from rfl) hrun).2.2.1 0 rfl
  obtain rfl : fiber = 0 := (Option.some.inj hfiber).symm
  exact ⟨_, hrun, hfiber, hin⟩

end Steps

end Cheetah
