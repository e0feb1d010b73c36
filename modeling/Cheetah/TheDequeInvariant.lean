import Mathlib.Data.List.Perm.Basic
import Cheetah.TheDeque

/-! Every frame that is pushed on the deque is consumed once, by its owner or by a thief. -/
namespace Cheetah

section Frames

variable {head top pushed : ℕ} {slot : ℕ → ℕ} {log : List (ℕ × Party)}

/-- The frames in the slots from `head` to `top` are those that are not in the log, and the
log's thefts are in push order. -/
structure FramesInv (head top : ℕ) (slot : ℕ → ℕ) (pushed : ℕ) (log : List (ℕ × Party)) :
    Prop where
  le_top : head ≤ top
  sorted : ∀ i j, head ≤ i → i < j → j < top → slot i < slot j
  fresh : ∀ i, head ≤ i → i < top → slot i < pushed
  consumed : (log.map Prod.fst ++ liveFrames head top slot).Perm (List.range pushed)
  past : ∀ i, dequeInit ≤ i → i < head → slot i ∈ stolenIn log
  order : (stolenIn log).Pairwise (· < ·)
  before : ∀ f ∈ stolenIn log, ∀ i, head ≤ i → i < top → f < slot i
  bound : ∀ f ∈ stolenIn log, f < pushed

theorem liveFrames_head (h : head < top) :
    liveFrames head top slot = slot head :: liveFrames (head+1) top slot := by
  unfold liveFrames
  obtain ⟨k, hk⟩ : ∃ k, top - head = k + 1 := ⟨top - head - 1, by omega⟩
  rw [hk, List.range'_succ, List.map_cons, show top - (head + 1) = k by omega]

theorem liveFrames_top (h : head ≤ top) :
    liveFrames head (top+1) slot = liveFrames head top slot ++ [slot top] := by
  unfold liveFrames
  rw [show top + 1 - head = (top - head) + 1 by omega, List.range'_1_concat, List.map_append,
    show head + (top - head) = top by omega]
  rfl

theorem mem_liveFrames {f : ℕ} :
    f ∈ liveFrames head top slot ↔ ∃ i, head ≤ i ∧ i < top ∧ slot i = f := by
  simp only [liveFrames, List.mem_map, List.mem_range'_1]
  constructor
  · rintro ⟨i, ⟨hle, hlt⟩, rfl⟩
    exact ⟨i, hle, by omega, rfl⟩
  · rintro ⟨i, hle, hlt, rfl⟩
    exact ⟨i, ⟨hle, by omega⟩, rfl⟩

theorem stolenIn_owner (f : ℕ) : stolenIn (log ++ [(f, .owner)]) = stolenIn log := by
  simp [stolenIn]

theorem stolenIn_thief (f i : ℕ) : stolenIn (log ++ [(f, .thief i)]) = stolenIn log ++ [f] := by
  simp [stolenIn]

/-- A store outside the frames that are in use or stolen changes nothing. -/
theorem FramesInv.store (hi : FramesInv head top slot pushed log) (f : ℕ) :
    FramesInv head top (Function.update slot top f) pushed log := by
  have hsame : ∀ i, i < top → Function.update slot top f i = slot i :=
    fun i hlt => Function.update_of_ne (by omega) _ _
  have hlive : liveFrames head top (Function.update slot top f) = liveFrames head top slot := by
    apply List.map_congr_left
    intro i hmem
    rw [List.mem_range'_1] at hmem
    exact hsame i (by omega)
  have hle := hi.le_top
  refine ⟨hle, fun i j hhi hij hj => ?_, fun i hhi hit => ?_, by rw [hlive]; exact hi.consumed,
    fun i hin hih => ?_, hi.order, fun g hg i hhi hit => ?_, hi.bound⟩
  · rw [hsame i (by omega), hsame j hj]
    exact hi.sorted i j hhi hij hj
  · rw [hsame i hit]
    exact hi.fresh i hhi hit
  · rw [hsame i (by omega)]
    exact hi.past i hin hih
  · rw [hsame i hit]
    exact hi.before g hg i hhi hit

/-- The owner makes the frame after the last one visible. -/
theorem FramesInv.push (hi : FramesInv head top slot pushed log) (hf : slot top = pushed) :
    FramesInv head (top+1) slot (pushed+1) log := by
  have hle := hi.le_top
  refine ⟨by omega, fun i j hhi hij hj => ?_, fun i hhi hit => ?_, ?_, hi.past, hi.order,
    fun g hg i hhi hit => ?_, fun g hg => Nat.lt_succ_of_lt (hi.bound g hg)⟩
  · rcases Nat.lt_or_ge j top with hlt | hge
    · exact hi.sorted i j hhi hij hlt
    · rw [show j = top by omega, hf]
      exact hi.fresh i hhi (by omega)
  · rcases Nat.lt_or_ge i top with hlt | hge
    · exact Nat.lt_succ_of_lt (hi.fresh i hhi hlt)
    · rw [show i = top by omega, hf]
      exact Nat.lt_succ_self pushed
  · rw [liveFrames_top hle, ← List.append_assoc, hf, List.range_succ]
    exact hi.consumed.append_right _
  · rcases Nat.lt_or_ge i top with hlt | hge
    · exact hi.before g hg i hhi hlt
    · rw [show i = top by omega, hf]
      exact hi.bound g hg

/-- The owner returns past the last frame. -/
theorem FramesInv.pop (hi : FramesInv head (top+1) slot pushed log) (hle : head ≤ top) :
    FramesInv head top slot pushed (log ++ [(slot top, .owner)]) := by
  refine ⟨hle, fun i j hhi hij hj => hi.sorted i j hhi hij (by omega),
    fun i hhi hit => hi.fresh i hhi (by omega), ?_, ?_, ?_, ?_, ?_⟩
  · have hperm := hi.consumed
    rw [liveFrames_top hle] at hperm
    rw [List.map_append, List.append_assoc]
    exact (List.Perm.append_left _ List.perm_append_comm).trans hperm
  · rw [stolenIn_owner]
    exact hi.past
  · rw [stolenIn_owner]
    exact hi.order
  · rw [stolenIn_owner]
    exact fun g hg i hhi hit => hi.before g hg i hhi (by omega)
  · rw [stolenIn_owner]
    exact hi.bound

/-- A thief takes the first frame. -/
theorem FramesInv.steal (hi : FramesInv head top slot pushed log) (hlt : head < top) (i : ℕ) :
    FramesInv (head+1) top slot pushed (log ++ [(slot head, .thief i)]) := by
  refine ⟨hlt, fun a b ha hab hb => hi.sorted a b (by omega) hab hb,
    fun a ha hat => hi.fresh a (by omega) hat, ?_, ?_, ?_, ?_, ?_⟩
  · have hperm := hi.consumed
    rw [liveFrames_head hlt] at hperm
    rw [List.map_append, List.append_assoc]
    exact hperm
  · intro a hin hah
    rw [stolenIn_thief]
    rcases Nat.lt_or_ge a head with hlt' | hge
    · exact List.mem_append_left _ (hi.past a hin hlt')
    · rw [show a = head by omega]
      exact List.mem_append_right _ (List.mem_singleton_self _)
  · rw [stolenIn_thief, List.pairwise_append]
    refine ⟨hi.order, List.pairwise_singleton _ _, fun g hg b hb => ?_⟩
    rw [List.mem_singleton.mp hb]
    exact hi.before g hg head (Nat.le_refl head) hlt
  · intro g hg a ha hat
    rw [stolenIn_thief] at hg
    rcases List.mem_append.mp hg with hg | hg
    · exact hi.before g hg a (by omega) hat
    · rw [List.mem_singleton.mp hg]
      exact hi.sorted head a (Nat.le_refl head) (by omega) hat
  · intro g hg
    rw [stolenIn_thief] at hg
    rcases List.mem_append.mp hg with hg | hg
    · exact hi.bound g hg
    · rw [List.mem_singleton.mp hg]
      exact hi.fresh head (Nat.le_refl head) hlt

/-- The frame in a slot was stolen exactly if the head is past it. -/
theorem FramesInv.stolen_iff (hi : FramesInv head top slot pushed log) {i : ℕ}
    (hin : dequeInit ≤ i) (hit : i < top) : slot i ∈ stolenIn log ↔ i < head := by
  refine ⟨fun hmem => ?_, hi.past i hin⟩
  by_contra hge
  have hlive : slot i ∈ liveFrames head top slot := mem_liveFrames.mpr ⟨i, by omega, hit, rfl⟩
  exact Nat.lt_irrefl _ (hi.before _ hmem i (by omega) hit)

end Frames

/-- The owner holds its busy lock in the critical section of `__cilkrts_exception_handler`. -/
def OwnerPc.holdsLock : OwnerPc → Bool
  | .running | .detaching | .leaving | .handling => false
  | _ => true

/-- What the owner knows between a load and the step that uses it. -/
def OwnerPc.Knows (head tail : ℕ) (slot : ℕ → ℕ) (pushed : ℕ) : OwnerPc → Prop
  | .detaching => slot tail = pushed
  | .resetting h => h = head
  | .comparingTail h => h = head
  | .stolen => tail < head
  | _ => True

/-- What holds while a thief stands at a program point with the busy lock. -/
def ThiefPc.Knows (head top exc : ℕ) (slot : ℕ → ℕ) : ThiefPc → Prop
  | .away => True
  | .locked => exc = head
  | .raising e => e = exc ∧ exc = head
  | .raised => exc = head + 1
  | .checking h => h = head ∧ exc = head + 1
  | .lowering => exc = head + 1
  | .lowered e => e = exc ∧ exc = head + 1
  | .promoting h => h = head ∧ exc = head + 1 ∧ head < top
  | .promoted h frame => h = head ∧ exc = head + 1 ∧ head < top ∧ frame = slot head
  | .unlocking => exc = head

/-- The invariant of the protocol. -/
structure DequeInv (s : DequeState) : Prop where
  ownerLock : s.busyLock = some .owner ↔ s.owner.holdsLock
  thiefLock : ∀ i, s.busyLock = some (.thief i) ↔ s.thief i ≠ .away
  init_le_head : dequeInit ≤ s.head
  init_le_tail : dequeInit ≤ s.tail
  exc_eq : (∀ i, s.thief i = .away) → s.exc = s.head
  thiefKnows : ∀ i, (s.thief i).Knows s.head s.top s.exc s.slot
  ownerKnows : s.owner.Knows s.head s.tail s.slot s.pushed
  frames : FramesInv s.head s.top s.slot s.pushed s.log

section Protocol

variable {s s' : DequeState}

theorem framesInv_initial : FramesInv dequeInit dequeInit (fun _ => 0) 0 [] where
  le_top := Nat.le_refl _
  sorted := fun i j hi hij hj => by omega
  fresh := fun i hi hit => by omega
  consumed := by decide
  past := fun i hi hih => by omega
  order := List.Pairwise.nil
  before := fun f hf => by cases hf
  bound := fun f hf => by cases hf

theorem dequeInv_initial : DequeInv initialDeque where
  ownerLock := by simp [initialDeque, OwnerPc.holdsLock]
  thiefLock := by simp [initialDeque]
  init_le_head := Nat.le_refl _
  init_le_tail := Nat.le_refl _
  exc_eq := fun _ => rfl
  thiefKnows := fun _ => trivial
  ownerKnows := trivial
  frames := framesInv_initial

/-- No thief is inside while the owner holds the busy lock or nobody does. -/
theorem DequeInv.thief_away (hi : DequeInv s) (hlock : ∀ i, s.busyLock ≠ some (.thief i))
    (i : ℕ) : s.thief i = .away := by
  by_contra hp
  exact hlock i ((hi.thiefLock i).mpr hp)

/-- While the owner is inside, no thief is, and the exception pointer is at the head. -/
theorem DequeInv.owner_inside (hi : DequeInv s) (ho : s.owner.holdsLock = true) :
    s.busyLock = some .owner ∧ (∀ i, s.busyLock ≠ some (.thief i)) ∧ s.exc = s.head := by
  have hown := hi.ownerLock.mpr ho
  have hlock : ∀ i, s.busyLock ≠ some (.thief i) := by simp [hown]
  exact ⟨hown, hlock, hi.exc_eq (hi.thief_away hlock)⟩

theorem DequeInv.thief_unique (hi : DequeInv s) {i j : ℕ} (hp : s.thief i ≠ .away)
    (hne : j ≠ i) : s.thief j = .away := by
  by_contra hq
  have hlock := (hi.thiefLock i).mpr hp
  rw [(hi.thiefLock j).mpr hq] at hlock
  cases hlock
  exact hne rfl

theorem DequeInv.owner_unlocked (hi : DequeInv s) {i : ℕ} (hp : s.thief i ≠ .away) :
    s.owner.holdsLock = false := by
  rw [Bool.eq_false_iff]
  intro hown
  have hlock := (hi.thiefLock i).mpr hp
  rw [hi.ownerLock.mpr hown] at hlock
  cases hlock

/-- The exception pointer never falls behind the head. -/
theorem DequeInv.head_le_exc (hi : DequeInv s) : s.head ≤ s.exc := by
  by_cases haway : ∀ i, s.thief i = .away
  · exact Nat.le_of_eq (hi.exc_eq haway).symm
  · push Not at haway
    obtain ⟨i, hp⟩ := haway
    have hk := hi.thiefKnows i
    cases hpc : s.thief i <;> rw [hpc] at hk <;> simp only [ThiefPc.Knows] at hk <;>
      first | exact absurd hpc hp | omega

/-- A thief keeps what it knows as long as the frame it is about to promote stays in place. -/
theorem ThiefPc.Knows.frame {p : ThiefPc} {head top top' exc : ℕ} {slot slot' : ℕ → ℕ}
    (hk : p.Knows head top exc slot)
    (hkeep : exc = head + 1 → head < top → head < top' ∧ slot' head = slot head) :
    p.Knows head top' exc slot' := by
  cases p with
  | promoting h =>
    obtain ⟨hh, hexc, hlt⟩ := hk
    exact ⟨hh, hexc, (hkeep hexc hlt).1⟩
  | promoted h frame =>
    obtain ⟨hh, hexc, hlt, hframe⟩ := hk
    exact ⟨hh, hexc, (hkeep hexc hlt).1, by rw [hframe, (hkeep hexc hlt).2]⟩
  | _ => exact hk

/-- A step of the owner that keeps the lock, the head and the exception pointer, and the frame
that a thief is about to promote. -/
theorem DequeInv.ownerMove (hi : DequeInv s) (hlock : s'.busyLock = s.busyLock)
    (hholds : s'.owner.holdsLock = s.owner.holdsLock) (hthief : s'.thief = s.thief)
    (hhead : s'.head = s.head) (hexc : s'.exc = s.exc) (htail : dequeInit ≤ s'.tail)
    (hknows : s'.owner.Knows s'.head s'.tail s'.slot s'.pushed)
    (hframes : FramesInv s'.head s'.top s'.slot s'.pushed s'.log)
    (hkeep : s.exc = s.head + 1 → s.head < s.top →
      s.head < s'.top ∧ s'.slot s.head = s.slot s.head) : DequeInv s' where
  ownerLock := by rw [hlock, hholds]; exact hi.ownerLock
  thiefLock := by rw [hlock, hthief]; exact hi.thiefLock
  init_le_head := by rw [hhead]; exact hi.init_le_head
  init_le_tail := htail
  exc_eq := by rw [hthief, hexc, hhead]; exact hi.exc_eq
  thiefKnows := by
    intro i
    rw [hthief, hexc, hhead]
    exact (hi.thiefKnows i).frame hkeep
  ownerKnows := hknows
  frames := hframes

/-- A step of the thief that holds the lock and keeps it. -/
theorem DequeInv.thiefMove (hi : DequeInv s) (i : ℕ) (hp : s.thief i ≠ .away) {p : ThiefPc}
    (hp' : p ≠ .away) {head exc : ℕ} {log : List (ℕ × Party)}
    (hknows : p.Knows head s.top exc s.slot) (hhead : s.head ≤ head)
    (hframes : FramesInv head s.top s.slot s.pushed log) :
    DequeInv { s.setThief i p with head := head, exc := exc, log := log } where
  ownerLock := hi.ownerLock
  thiefLock := by
    intro j
    by_cases hj : j = i
    · subst hj
      simpa [DequeState.setThief, hp'] using (hi.thiefLock j).mpr hp
    · simpa [DequeState.setThief, hj] using hi.thiefLock j
  init_le_head := Nat.le_trans hi.init_le_head hhead
  init_le_tail := hi.init_le_tail
  exc_eq := by
    intro haway
    have hi' := haway i
    simp only [DequeState.setThief, Function.update_self] at hi'
    exact absurd hi' hp'
  thiefKnows := by
    intro j
    by_cases hj : j = i
    · subst hj
      simp only [DequeState.setThief, Function.update_self]
      exact hknows
    · have haway := hi.thief_unique hp hj
      simp [DequeState.setThief, hj, haway, ThiefPc.Knows]
  ownerKnows := by
    have hown := hi.owner_unlocked hp
    have hk := hi.ownerKnows
    cases hpc : s.owner <;> simp_all [DequeState.setThief, OwnerPc.holdsLock, OwnerPc.Knows]
  frames := hframes

/-- The owner takes or releases its busy lock, or moves on while holding it. -/
theorem DequeInv.ownerLocked (hi : DequeInv s) (hlock : ∀ i, s.busyLock ≠ some (.thief i))
    {o : OwnerPc} {b : Option Party} (hb : ∀ i, b ≠ some (.thief i))
    (hholds : b = some .owner ↔ o.holdsLock) (hknows : o.Knows s.head s.tail s.slot s.pushed)
    {exc : ℕ} (hexc : exc = s.head) {log : List (ℕ × Party)}
    (hframes : FramesInv s.head (if o.isPopping then s.tail + 1 else s.tail) s.slot s.pushed log) :
    DequeInv { s with owner := o, busyLock := b, exc := exc, log := log } where
  ownerLock := hholds
  thiefLock := by
    intro i
    simp [hb i, hi.thief_away hlock i]
  init_le_head := hi.init_le_head
  init_le_tail := hi.init_le_tail
  exc_eq := fun _ => hexc
  thiefKnows := by
    intro i
    simp only [hi.thief_away hlock i]
    trivial
  ownerKnows := hknows
  frames := hframes

theorem DequeInv.trylock (hi : DequeInv s) (i : ℕ) (hfree : s.busyLock = none) :
    DequeInv { s.setThief i .locked with busyLock := some (.thief i) } := by
  have haway := hi.thief_away (by simp [hfree])
  have hexc := hi.exc_eq haway
  have hother : ∀ j, j ≠ i → (s.setThief i .locked).thief j = .away := by
    intro j hj
    simp [DequeState.setThief, hj, haway j]
  have hown : s.owner.holdsLock = false := by
    rw [Bool.eq_false_iff]
    intro h
    have hlock := hi.ownerLock.mpr h
    rw [hfree] at hlock
    cases hlock
  refine ⟨by simp [DequeState.setThief, hown], fun j => ?_, hi.init_le_head, hi.init_le_tail,
    fun h => ?_, fun j => ?_, hi.ownerKnows, hi.frames⟩
  · by_cases hj : j = i
    · subst hj
      simp [DequeState.setThief]
    · simp [hother j hj, Ne.symm hj]
  · exact hexc
  · by_cases hj : j = i
    · subst hj
      simpa [DequeState.setThief, ThiefPc.Knows] using hexc
    · simp [hother j hj, ThiefPc.Knows]

theorem DequeInv.thiefUnlock (hi : DequeInv s) (i : ℕ) (hp : s.thief i = .unlocking) :
    DequeInv { s.setThief i .away with busyLock := none } := by
  have hne : s.thief i ≠ .away := by simp [hp]
  have haway : ∀ j, (s.setThief i .away).thief j = .away := by
    intro j
    by_cases hj : j = i
    · simp [DequeState.setThief, hj]
    · simpa [DequeState.setThief, hj] using hi.thief_unique hne hj
  have hexc : s.exc = s.head := by
    have hk := hi.thiefKnows i
    rwa [hp] at hk
  have hown := hi.owner_unlocked hne
  refine ⟨by simp [DequeState.setThief, hown], fun j => by simp [haway j], hi.init_le_head,
    hi.init_le_tail, fun _ => hexc, fun j => ?_, hi.ownerKnows, hi.frames⟩
  simp [haway j, ThiefPc.Knows]

theorem DequeState.top_popping (ho : s.owner.isPopping = true) : s.top = s.tail + 1 :=
  if_pos ho

theorem DequeState.top_not_popping (ho : s.owner.isPopping = false) : s.top = s.tail :=
  if_neg (by simp [ho])

/-- Every step keeps the invariant. The frame that the tail leaves stays in use until the owner has
decided. -/
theorem DequeInv.step (hi : DequeInv s) (hs : DequeStep s s') : DequeInv s' := by
  have hle := hi.frames.le_top
  have hexc := hi.head_le_exc
  have hframes := hi.frames
  have hknows := hi.ownerKnows
  cases hs with
  | storeParent ho =>
    have htop := s.top_not_popping (by rw [ho]; rfl)
    rw [htop] at hframes
    refine hi.ownerMove rfl (by simp [ho, OwnerPc.holdsLock]) rfl rfl rfl hi.init_le_tail
      (by simp [OwnerPc.Knows]) (hframes.store s.pushed) fun _ hlt => ?_
    rw [htop] at hlt
    exact ⟨hlt, Function.update_of_ne (by omega) _ _⟩
  | incrementTail ho =>
    have htop := s.top_not_popping (by rw [ho]; rfl)
    rw [htop] at hframes
    rw [ho] at hknows
    refine hi.ownerMove rfl (by simp [ho, OwnerPc.holdsLock]) rfl rfl rfl
      (Nat.le_succ_of_le hi.init_le_tail) trivial (hframes.push hknows) fun _ hlt => ?_
    rw [htop] at hlt
    exact ⟨Nat.lt_succ_of_lt hlt, rfl⟩
  | decrementTail ho hpushed =>
    have htop := s.top_not_popping (by rw [ho]; rfl)
    have htop' : s.tail - 1 + 1 = s.tail := by omega
    rw [htop] at hframes
    refine hi.ownerMove rfl (by simp [ho, OwnerPc.holdsLock]) rfl rfl rfl
      (Nat.le_sub_one_of_lt hpushed) trivial ?_ fun _ hlt => ?_
    · show FramesInv s.head (s.tail - 1 + 1) s.slot s.pushed s.log
      rwa [htop']
    · rw [htop] at hlt
      exact ⟨by show s.head < s.tail - 1 + 1; omega, rfl⟩
  | loadExc ho hexcle =>
    have htop := s.top_popping (by rw [ho]; rfl)
    rw [htop] at hframes
    refine hi.ownerMove rfl (by simp [ho, OwnerPc.holdsLock]) rfl rfl rfl
      hi.init_le_tail trivial (hframes.pop (Nat.le_trans hexc hexcle)) fun hraised _ => ?_
    exact ⟨by show s.head < s.tail; omega, rfl⟩
  | loadExcGreater ho hgt =>
    have htop := s.top_popping (by rw [ho]; rfl)
    rw [htop] at hframes
    refine hi.ownerMove rfl (by simp [ho, OwnerPc.holdsLock]) rfl rfl rfl
      hi.init_le_tail trivial hframes fun _ hlt => ?_
    rw [htop] at hlt
    exact ⟨hlt, rfl⟩
  | lockSelf ho hfree =>
    have hlock : ∀ i, s.busyLock ≠ some (.thief i) := by simp [hfree]
    rw [s.top_popping (by rw [ho]; rfl)] at hframes
    exact hi.ownerLocked (o := .locked) hlock (by simp) (by simp [OwnerPc.holdsLock]) trivial
      (hi.exc_eq (hi.thief_away hlock)) hframes
  | loadHeadForReset ho =>
    obtain ⟨hown, hlock, hexc⟩ := hi.owner_inside (by rw [ho]; rfl)
    rw [s.top_popping (by rw [ho]; rfl)] at hframes
    exact hi.ownerLocked (o := .resetting s.head) hlock hlock (by simp [hown, OwnerPc.holdsLock])
      rfl hexc hframes
  | @resetExc head ho =>
    obtain ⟨hown, hlock, hexc⟩ := hi.owner_inside (by rw [ho]; rfl)
    rw [s.top_popping (by rw [ho]; rfl)] at hframes
    rw [ho] at hknows
    exact hi.ownerLocked (o := .comparing) hlock hlock (by simp [hown, OwnerPc.holdsLock])
      trivial hknows hframes
  | loadHead ho =>
    obtain ⟨hown, hlock, hexc⟩ := hi.owner_inside (by rw [ho]; rfl)
    rw [s.top_popping (by rw [ho]; rfl)] at hframes
    exact hi.ownerLocked (o := .comparingTail s.head) hlock hlock
      (by simp [hown, OwnerPc.holdsLock]) rfl hexc hframes
  | @loadTailStolen head ho hgt =>
    obtain ⟨hown, hlock, hexc⟩ := hi.owner_inside (by rw [ho]; rfl)
    rw [s.top_popping (by rw [ho]; rfl)] at hframes
    rw [ho] at hknows
    have hhead : head = s.head := hknows
    exact hi.ownerLocked (o := .stolen) hlock hlock (by simp [hown, OwnerPc.holdsLock])
      (hhead ▸ hgt) hexc hframes
  | @loadTail head ho hle' =>
    obtain ⟨hown, hlock, hexc⟩ := hi.owner_inside (by rw [ho]; rfl)
    rw [s.top_popping (by rw [ho]; rfl)] at hframes
    rw [ho] at hknows
    have hhead : head = s.head := hknows
    exact hi.ownerLocked (o := .unlocking) hlock hlock (by simp [hown, OwnerPc.holdsLock])
      trivial hexc (hframes.pop (by omega))
  | unlockSelf ho =>
    obtain ⟨hown, hlock, hexc⟩ := hi.owner_inside (by rw [ho]; rfl)
    rw [s.top_not_popping (by rw [ho]; rfl)] at hframes
    exact hi.ownerLocked (o := .running) hlock (by simp) (by simp [OwnerPc.holdsLock]) trivial
      hexc hframes
  | trylock i hp hfree => exact hi.trylock i hfree
  | thiefLoadExc i hp =>
    have hk := hi.thiefKnows i
    rw [hp] at hk
    exact hi.thiefMove i (by simp [hp]) (p := .raising s.exc) (by simp) ⟨rfl, hk⟩ (Nat.le_refl _)
      hframes
  | @thiefRaiseExc i exc hp =>
    have hk := hi.thiefKnows i
    rw [hp] at hk
    obtain ⟨rfl, hhead⟩ := hk
    exact hi.thiefMove i (by simp [hp]) (p := .raised) (by simp) (congrArg (· + 1) hhead)
      (Nat.le_refl _) hframes
  | thiefLoadHead i hp =>
    have hk := hi.thiefKnows i
    rw [hp] at hk
    exact hi.thiefMove i (by simp [hp]) (p := .checking s.head) (by simp) ⟨rfl, hk⟩
      (Nat.le_refl _) hframes
  | @thiefLoadTail i head hp =>
    have hk := hi.thiefKnows i
    rw [hp] at hk
    obtain ⟨rfl, hraised⟩ := hk
    by_cases hge : s.head ≥ s.tail
    · rw [if_pos hge]
      exact hi.thiefMove i (by simp [hp]) (p := .lowering) (by simp) hraised (Nat.le_refl _) hframes
    · have htop : s.tail ≤ s.top := by
        unfold DequeState.top
        split <;> omega
      rw [if_neg hge]
      exact hi.thiefMove i (by simp [hp]) (p := .promoting s.head) (by simp)
        ⟨rfl, hraised, by omega⟩ (Nat.le_refl _) hframes
  | thiefReloadExc i hp =>
    have hk := hi.thiefKnows i
    rw [hp] at hk
    exact hi.thiefMove i (by simp [hp]) (p := .lowered s.exc) (by simp) ⟨rfl, hk⟩
      (Nat.le_refl _) hframes
  | @thiefLowerExc i exc hp =>
    have hk := hi.thiefKnows i
    rw [hp] at hk
    obtain ⟨rfl, hraised⟩ := hk
    have hlowered : s.exc - 1 = s.head := by omega
    exact hi.thiefMove i (by simp [hp]) (p := .unlocking) (by simp) hlowered (Nat.le_refl _)
      hframes
  | @thiefLoadFrame i head hp =>
    have hk := hi.thiefKnows i
    rw [hp] at hk
    obtain ⟨rfl, hraised, hlt⟩ := hk
    exact hi.thiefMove i (by simp [hp]) (p := .promoted s.head (s.slot s.head)) (by simp)
      ⟨rfl, hraised, hlt, rfl⟩ (Nat.le_refl _) hframes
  | @thiefStoreHead i head frame hp =>
    have hk := hi.thiefKnows i
    rw [hp] at hk
    obtain ⟨rfl, hraised, hlt, rfl⟩ := hk
    exact hi.thiefMove i (by simp [hp]) (p := .unlocking) (by simp) hraised (Nat.le_succ _)
      (hframes.steal hlt i)
  | thiefUnlock i hp => exact hi.thiefUnlock i hp

theorem dequeInv_run (hrun : Reaches DequeStep initialDeque s) : DequeInv s :=
  hrun.preserves (fun _ _ hi hs => hi.step hs) dequeInv_initial

/-- While the owner pops a frame, it was stolen exactly if the head is past it. -/
theorem DequeInv.stolen_iff (hi : DequeInv s) (ho : s.owner.isPopping = true) :
    s.slot s.tail ∈ stolenIn s.log ↔ s.tail < s.head := by
  have htop := s.top_popping ho
  exact hi.frames.stolen_iff hi.init_le_tail (by omega)

/-- In every interleaving each frame is consumed once, by its owner or by one thief, or is still
in the deque; thieves take the oldest frame; the owner returns past a frame that was not stolen
and takes the stolen branch for one that was; and `exc` is back at `head` when no thief is
inside. -/
theorem theProtocol_safe (hrun : Reaches DequeStep initialDeque s) :
    (s.log.map Prod.fst ++ liveFrames s.head s.top s.slot).Perm (List.range s.pushed) ∧
    (stolenIn s.log).Pairwise (· < ·) ∧
    (∀ f ∈ stolenIn s.log, ∀ g ∈ liveFrames s.head s.top s.slot, f < g) ∧
    (s.owner = .leaving → s.exc ≤ s.tail → s.slot s.tail ∉ stolenIn s.log) ∧
    (∀ head, s.owner = .comparingTail head →
      (head > s.tail ↔ s.slot s.tail ∈ stolenIn s.log)) ∧
    (s.owner = .stolen →
      s.slot s.tail ∈ stolenIn s.log ∧ liveFrames s.head s.top s.slot = []) ∧
    ((∀ i, s.thief i = .away) → s.exc = s.head) := by
  have hi := dequeInv_run hrun
  have hknows := hi.ownerKnows
  refine ⟨hi.frames.consumed, hi.frames.order, fun f hf g hg => ?_, fun ho hle hmem => ?_,
    fun head ho => ?_, fun ho => ?_, hi.exc_eq⟩
  · obtain ⟨i, hhi, hit, rfl⟩ := mem_liveFrames.mp hg
    exact hi.frames.before f hf i hhi hit
  · have hlt := (hi.stolen_iff (by rw [ho]; rfl)).mp hmem
    have hexc := hi.head_le_exc
    omega
  · rw [hi.stolen_iff (by rw [ho]; rfl)]
    rw [ho] at hknows
    have hhead : head = s.head := hknows
    rw [hhead]
  · have hpop : s.owner.isPopping = true := by rw [ho]; rfl
    rw [hi.stolen_iff hpop, s.top_popping hpop]
    rw [ho] at hknows
    have hlt : s.tail < s.head := hknows
    have hempty : s.tail + 1 - s.head = 0 := by omega
    refine ⟨hlt, ?_⟩
    rw [liveFrames, hempty]
    rfl

/-- A thief takes the only frame while its owner returns: the owner finds it stolen. -/
theorem theProtocol_safe_lastFrame : ∃ s, Reaches DequeStep initialDeque s ∧
    s.owner = .stolen ∧ s.log = [(0, .thief 7)] ∧ 0 ∈ stolenIn s.log := by
  have hpushed := (Relation.ReflTransGen.refl (r := DequeStep) (a := initialDeque)).tail
    (.storeParent rfl) |>.tail (.incrementTail rfl)
  have hraised := hpushed.tail (.trylock 7 rfl rfl) |>.tail (.thiefLoadExc 7 rfl)
    |>.tail (.thiefRaiseExc 7 rfl) |>.tail (.thiefLoadHead 7 rfl)
  have hrace := hraised.tail (.thiefLoadTail 7 rfl) |>.tail (.decrementTail rfl (by decide))
    |>.tail (.loadExcGreater rfl (by decide))
  have hstolen := hrace.tail (.thiefLoadFrame 7 rfl) |>.tail (.thiefStoreHead 7 rfl)
    |>.tail (.thiefUnlock 7 rfl)
  have hhandled := hstolen.tail (.lockSelf rfl rfl) |>.tail (.loadHeadForReset rfl)
    |>.tail (.resetExc rfl) |>.tail (.loadHead rfl) |>.tail (.loadTailStolen rfl (by decide))
  exact ⟨_, hhandled, rfl, rfl, ((theProtocol_safe hhandled).2.2.2.2.2.1 rfl).1⟩

end Protocol

end Cheetah
