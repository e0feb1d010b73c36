import Mathlib.Data.Finset.Card
import Mathlib.Order.Interval.Finset.Nat
import Cheetah.SentinelWindow

/-! The counter `disengaged_thieves`, whose value is the number of thieves that may wake up: the
routines of `global.cpp` that store, raise and take it, before the runtime terminates. -/
namespace Cheetah

/-- A 32-bit value, read as an `int32_t`. -/
def asInt32 (x : ℕ) : ℤ := (BitVec.ofNat 32 x).toInt

/-- The `to_wake` of `request_more_thieves`, unless that returns without a change. -/
def requestToWake (nworkers copy count : ℕ) : Option ℕ :=
  let maxRequests := nworkers / 2
  let maxToWake := asInt32 (usub maxRequests copy)
  if maxToWake ≤ 0 then none
  else some (if maxToWake < asInt32 count then maxToWake.toNat else count)

/-- Where a thread stands. -/
inductive PermitPc where
  /-- In none of the routines. -/
  | idle
  /-- At the top of the loop of `request_more_thieves`. -/
  | requesting (count : ℕ)
  /-- Before the compare-exchange of `request_more_thieves`. -/
  | raising (count copy toWake : ℕ)
  /-- At the top of the inner loop of `thief_disengage`. -/
  | disengaging
  | taking (val : ℕ)
  /-- In `disengaged_thieves.wait`. -/
  | waiting
  /-- At the top of the loop of `thief_should_wait`. -/
  | entering
  | skipping (val : ℕ)
deriving DecidableEq

/-- What has changed the counter. -/
inductive PermitChange where
  | wakeThieves
  | sleepThieves
  | request (count : ℕ)
  | disengage
  | shouldWait
deriving DecidableEq

/-- A change of the counter, with its value before and after. -/
structure PermitEvent where
  change : PermitChange
  old : ℕ
  new : ℕ
deriving DecidableEq

/-- A thief is let go, with the old value of the counter as its permit. -/
def PermitEvent.releases (e : PermitEvent) : Bool :=
  e.change = .disengage || e.change = .shouldWait

structure PermitState where
  thieves : ℕ
  pc : ℕ → PermitPc
  /-- All changes of the counter, the newest first. -/
  log : List PermitEvent

def permitInit : PermitState := ⟨0, fun _ => .idle, []⟩

def PermitState.goto (s : PermitState) (w : ℕ) (p : PermitPc) : PermitState :=
  { s with pc := Function.update s.pc w p }

/-- The counter changes. -/
def PermitState.put (s : PermitState) (change : PermitChange) (new : ℕ) : PermitState :=
  { s with
    thieves := new
    log := ⟨change, s.thieves, new⟩ :: s.log }

/-- One atomic access to `disengaged_thieves`. Any thread calls any routine, and a weak
compare-exchange and a wait may fail for no reason. -/
inductive PermitStep (n : ℕ) : PermitState → PermitState → Prop
  | wakeThieves {s : PermitState} : PermitStep n s (s.put .wakeThieves (usub n 1))
  | sleepThieves {s : PermitState} : PermitStep n s (s.put .sleepThieves 0)
  | callRequest {s : PermitState} (w count : ℕ) (hcount : 0 < count ∧ count < 2^32)
      (hp : s.pc w = .idle) : PermitStep n s (s.goto w (.requesting count))
  | loadRequest {s : PermitState} (w : ℕ) {count : ℕ} (hp : s.pc w = .requesting count) :
      PermitStep n s (s.goto w
        ((requestToWake n s.thieves count).elim .idle (.raising count s.thieves)))
  | requestFails {s : PermitState} (w : ℕ) {count copy toWake : ℕ}
      (hp : s.pc w = .raising count copy toWake) (hne : s.thieves ≠ copy) :
      PermitStep n s (s.goto w (.requesting count))
  | requestRaises {s : PermitState} (w : ℕ) {count copy toWake : ℕ}
      (hp : s.pc w = .raising count copy toWake) (heq : s.thieves = copy) :
      PermitStep n s ((s.put (.request count) ((copy + toWake) % 2^32)).goto w .idle)
  | callDisengage {s : PermitState} (w : ℕ) (hp : s.pc w = .idle) :
      PermitStep n s (s.goto w .disengaging)
  | loadDisengage {s : PermitState} (w : ℕ) (hp : s.pc w = .disengaging) :
      PermitStep n s (s.goto w (if s.thieves = 0 then .waiting else .taking s.thieves))
  | waitEnds {s : PermitState} (w : ℕ) (hp : s.pc w = .waiting) :
      PermitStep n s (s.goto w .disengaging)
  | disengageFails {s : PermitState} (w : ℕ) {val : ℕ} (hp : s.pc w = .taking val) :
      PermitStep n s (s.goto w .disengaging)
  | disengageTakes {s : PermitState} (w : ℕ) {val : ℕ} (hp : s.pc w = .taking val)
      (heq : s.thieves = val) :
      PermitStep n s ((s.put .disengage (usub val 1)).goto w .idle)
  | callShouldWait {s : PermitState} (w : ℕ) (hp : s.pc w = .idle) :
      PermitStep n s (s.goto w .entering)
  | loadShouldWait {s : PermitState} (w : ℕ) (hp : s.pc w = .entering) :
      PermitStep n s (s.goto w (if s.thieves = 0 then .idle else .skipping s.thieves))
  | shouldWaitFails {s : PermitState} (w : ℕ) {val : ℕ} (hp : s.pc w = .skipping val) :
      PermitStep n s (s.goto w .entering)
  | shouldWaitTakes {s : PermitState} (w : ℕ) {val : ℕ} (hp : s.pc w = .skipping val)
      (heq : s.thieves = val) :
      PermitStep n s ((s.put .shouldWait (usub val 1)).goto w .idle)

/-- The values that `thief_disengage` has returned in a part of the log. -/
def returnedValues (log : List PermitEvent) : List ℕ :=
  (log.filter fun e => e.change = .disengage).map PermitEvent.old

/-- What is wanted of the counter `thieves` and of its changes so far. -/
structure PermitsConserved (n : ℕ) (s : PermitState) : Prop where
  le : s.thieves ≤ n - 1
  always : ∀ e ∈ s.log, e.new ≤ n - 1
  /-- A request takes no permit away, and makes no more of them than half of the workers. -/
  request : ∀ e ∈ s.log, ∀ count, e.change = .request count → e.old ≤ e.new ∧ e.new ≤ n / 2
  release : ∀ e ∈ s.log, e.releases = true → e.old = e.new + 1
  /-- From a `wake_thieves` on, until the counter is raised, no two thieves get the same value, and
  no more than half of the workers start as sentinels. -/
  distinct : ∀ later wake earlier, s.log = later ++ wake :: earlier →
    wake.change = .wakeThieves → (∀ e ∈ later, e.new ≤ e.old) →
    (returnedValues later).Nodup ∧
      ((returnedValues later).filter fun val => initFails n val = sentinelThreshold).length ≤ n / 2

/-- The count of each request that has changed the counter is an `int32_t`. -/
def RequestsFit (log : List PermitEvent) : Prop :=
  ∀ e ∈ log, ∀ count, e.change = .request count → count < 2^31

section Permits

variable {n : ℕ} {s t : PermitState}

theorem asInt32_of_lt {x : ℕ} (hx : x < 2^31) : asInt32 x = x := by
  rw [asInt32, BitVec.toInt_eq_toNat_cond, BitVec.toNat_ofNat]
  omega

theorem asInt32_neg {x : ℕ} (hge : 2^31 ≤ x) (hx : x < 2^32) : asInt32 x < 0 := by
  rw [asInt32, BitVec.toInt_eq_toNat_cond, BitVec.toNat_ofNat]
  omega

/-- A count that is an `int32_t` is cut to the headroom. -/
theorem requestToWake_le (hn : n < 2^32) {copy count toWake : ℕ} (hcopy : copy ≤ n - 1)
    (hcount : count < 2^31) (hwake : requestToWake n copy count = some toWake) :
    copy + toWake ≤ n / 2 ∧ n / 2 ≤ n - 1 := by
  unfold requestToWake at hwake
  dsimp only at hwake
  rw [asInt32_of_lt hcount] at hwake
  split_ifs at hwake with hnone hless
  all_goals
    have hhead : copy < n / 2 ∧ asInt32 (usub (n / 2) copy) = n / 2 - copy := by
      by_cases hle : copy ≤ n / 2
      · rw [usub_of_le (by omega) hle, asInt32_of_lt (by omega)] at *
        omega
      · have hneg : asInt32 (usub (n / 2) copy) < 0 :=
          asInt32_neg (by rw [usub]; omega) (by rw [usub]; omega)
        omega
    obtain ⟨hlt, hmax⟩ := hhead
    rw [hmax] at hless hnone
    have htake := Option.some.inj hwake
    rw [← htake]
    omega

/-- A count that is no `int32_t` is not cut. -/
theorem requestToWake_large {copy count toWake : ℕ} (hge : 2^31 ≤ count) (hcount : count < 2^32)
    (hwake : requestToWake n copy count = some toWake) : toWake = count := by
  have hneg := asInt32_neg hge hcount
  unfold requestToWake at hwake
  dsimp only at hwake
  split_ifs at hwake with hnone hless
  · omega
  · exact (Option.some.inj hwake).symm

/-- The log leads from the value `v₀` to the value `v`. -/
def Follows (v₀ : ℕ) : List PermitEvent → ℕ → Prop
  | [], v => v = v₀
  | e :: log, v => e.new = v ∧ Follows v₀ log e.old

theorem Follows.suffix {v₀ v : ℕ} {later earlier : List PermitEvent} {e : PermitEvent}
    (hf : Follows v₀ (later ++ e :: earlier) v) : Follows e.new later v := by
  induction later generalizing v with
  | nil => exact hf.1.symm
  | cons x later ih => exact ⟨hf.1, ih hf.2⟩

/-- What each change of the counter does. -/
def PermitEvent.Ok (n : ℕ) (e : PermitEvent) : Prop :=
  match e.change with
  | .wakeThieves => e.new = n - 1
  | .sleepThieves => e.new = 0
  | .request count => count < 2^32 ∧
    ∃ toWake, requestToWake n e.old count = some toWake ∧ e.new = (e.old + toWake) % 2^32
  | .disengage | .shouldWait => e.old = e.new + 1

def PermitPc.Ok (n : ℕ) : PermitPc → Prop
  | .requesting count => count < 2^32
  | .raising count copy toWake => count < 2^32 ∧ requestToWake n copy count = some toWake
  | .taking val | .skipping val => 0 < val
  | .idle | .disengaging | .waiting | .entering => True

structure PermitInv (n : ℕ) (s : PermitState) : Prop where
  lt : s.thieves < 2^32
  follows : Follows 0 s.log s.thieves
  events : ∀ e ∈ s.log, e.Ok n
  pcs : ∀ w, (s.pc w).Ok n

theorem permitInit_inv (n : ℕ) : PermitInv n permitInit :=
  ⟨Nat.two_pow_pos 32, rfl, fun _ he => absurd he List.not_mem_nil, fun _ => trivial⟩

theorem PermitInv.goto (hi : PermitInv n s) (w : ℕ) {p : PermitPc} (hp : p.Ok n) :
    PermitInv n (s.goto w p) := by
  refine ⟨hi.lt, hi.follows, hi.events, fun u => ?_⟩
  change (Function.update s.pc w p u).Ok n
  by_cases hu : u = w
  · rw [hu, Function.update_self]
    exact hp
  · rw [Function.update_of_ne hu]
    exact hi.pcs u

theorem PermitInv.put (hi : PermitInv n s) {change : PermitChange} {new : ℕ} (hlt : new < 2^32)
    (hok : PermitEvent.Ok n ⟨change, s.thieves, new⟩) : PermitInv n (s.put change new) := by
  refine ⟨hlt, ⟨rfl, hi.follows⟩, fun e he => ?_, hi.pcs⟩
  rcases List.mem_cons.mp he with rfl | he
  · exact hok
  · exact hi.events e he

/-- A thief takes a permit that it has seen. -/
theorem PermitInv.take (hi : PermitInv n s) {change : PermitChange} {val : ℕ}
    (hchange : change = .disengage ∨ change = .shouldWait) (hval : 0 < val)
    (heq : s.thieves = val) : PermitInv n (s.put change (usub val 1)) := by
  have hlt := hi.lt
  have hsub : usub val 1 = val - 1 := by
    rw [usub]
    omega
  refine hi.put (by omega) ?_
  rw [hsub, heq]
  rcases hchange with rfl | rfl <;> exact (Nat.sub_add_cancel hval).symm

theorem PermitInv.step (hpos : 0 < n) (hn : n < 2^32) (hi : PermitInv n s)
    (hst : PermitStep n s t) : PermitInv n t := by
  have hpc {w : ℕ} {p : PermitPc} (hp : s.pc w = p) : p.Ok n := hp ▸ hi.pcs w
  cases hst with
  | wakeThieves =>
    have hsub : usub n 1 = n - 1 := by
      rw [usub]
      omega
    rw [hsub]
    exact hi.put (by omega) rfl
  | sleepThieves => exact hi.put (Nat.two_pow_pos 32) rfl
  | callRequest w count hcount hp => exact hi.goto w hcount.2
  | @loadRequest w count hp =>
    refine hi.goto w ?_
    cases hwake : requestToWake n s.thieves count with
    | none => exact trivial
    | some toWake => exact ⟨hpc hp, hwake⟩
  | requestFails w hp hne => exact hi.goto w (hpc hp).1
  | @requestRaises w count copy toWake hp heq =>
    obtain ⟨hcount, hwake⟩ := hpc hp
    subst heq
    have hok : PermitEvent.Ok n ⟨.request count, s.thieves, (s.thieves + toWake) % 2^32⟩ :=
      ⟨hcount, toWake, hwake, rfl⟩
    exact (hi.put (Nat.mod_lt _ (Nat.two_pow_pos 32)) hok).goto w trivial
  | callDisengage w hp | waitEnds w hp | disengageFails w hp | callShouldWait w hp
  | shouldWaitFails w hp => exact hi.goto w trivial
  | loadDisengage w hp | loadShouldWait w hp =>
    refine hi.goto w ?_
    split_ifs with hzero
    · exact trivial
    · exact Nat.pos_of_ne_zero hzero
  | disengageTakes w hp heq => exact (hi.take (.inl rfl) (hpc hp) heq).goto w trivial
  | shouldWaitTakes w hp heq => exact (hi.take (.inr rfl) (hpc hp) heq).goto w trivial

/-- While nothing raises the counter, the values that thieves get go down. -/
theorem Follows.returned {v₀ v : ℕ} {log : List PermitEvent} (hf : Follows v₀ log v)
    (hok : ∀ e ∈ log, e.Ok n) (hno : ∀ e ∈ log, e.new ≤ e.old) :
    (∀ val ∈ returnedValues log, v < val) ∧ (returnedValues log).Nodup := by
  induction log generalizing v with
  | nil => exact ⟨fun _ h => absurd h List.not_mem_nil, List.nodup_nil⟩
  | cons e log ih =>
    obtain ⟨habove, hnodup⟩ := ih hf.2 (fun x hx => hok x (List.mem_cons_of_mem _ hx))
      fun x hx => hno x (List.mem_cons_of_mem _ hx)
    have hle := hno e List.mem_cons_self
    have hnew := hf.1
    unfold returnedValues at *
    by_cases hrel : e.change = .disengage
    · have hone : e.old = e.new + 1 := by
        have he := hok e List.mem_cons_self
        rw [PermitEvent.Ok, hrel] at he
        exact he
      rw [List.filter_cons_of_pos (by simpa using hrel), List.map_cons]
      refine ⟨fun val hval => ?_, List.nodup_cons.mpr ⟨fun hmem => ?_, hnodup⟩⟩
      · rcases List.mem_cons.mp hval with rfl | hval
        · omega
        · have := habove val hval
          omega
      · exact Nat.lt_irrefl _ (habove _ hmem)
    · rw [List.filter_cons_of_neg (by simpa using hrel)]
      refine ⟨fun val hval => ?_, hnodup⟩
      have := habove val hval
      omega

/-- Different positive values up to `m` are at most `m` many. -/
theorem length_le_of_nodup {l : List ℕ} {m : ℕ} (hnodup : l.Nodup) (hpos : ∀ x ∈ l, 0 < x)
    (hle : ∀ x ∈ l, x ≤ m) : l.length ≤ m := by
  have hsub : l.toFinset ⊆ Finset.Ioc 0 m := by
    intro x hx
    rw [List.mem_toFinset] at hx
    exact Finset.mem_Ioc.mpr ⟨hpos x hx, hle x hx⟩
  calc
    l.length = l.toFinset.card := (List.toFinset_card_of_nodup hnodup).symm
    _ ≤ (Finset.Ioc 0 m).card := Finset.card_le_card hsub
    _ = m := by rw [Nat.card_Ioc, Nat.sub_zero]

theorem initFails_iff (val : ℕ) : initFails n val = sentinelThreshold ↔ val ≤ n / 2 := by
  unfold initFails sentinelThreshold
  split_ifs with hle
  · exact ⟨fun _ => hle, fun _ => rfl⟩
  · exact ⟨fun h => absurd h (by decide), fun h => absurd h hle⟩

/-- The values stay below the number of workers, and requests keep to half of it. -/
theorem Follows.bounded (hn : n < 2^32) {v : ℕ} {log : List PermitEvent} (hf : Follows 0 log v)
    (hok : ∀ e ∈ log, e.Ok n) (hfit : RequestsFit log) :
    v ≤ n - 1 ∧ ∀ e ∈ log, e.new ≤ n - 1 ∧
      ∀ count, e.change = .request count → e.old ≤ e.new ∧ e.new ≤ n / 2 := by
  induction log generalizing v with
  | nil => exact ⟨(Nat.le_of_eq hf).trans (Nat.zero_le _), fun _ h => absurd h List.not_mem_nil⟩
  | cons e log ih =>
    obtain ⟨hold, hrest⟩ := ih hf.2 (fun x hx => hok x (List.mem_cons_of_mem _ hx))
      fun x hx => hfit x (List.mem_cons_of_mem _ hx)
    have he := hok e List.mem_cons_self
    have hone : e.new ≤ n - 1 ∧
        ∀ count, e.change = .request count → e.old ≤ e.new ∧ e.new ≤ n / 2 := by
      unfold PermitEvent.Ok at he
      cases hchange : e.change with
      | wakeThieves =>
        rw [hchange] at he
        exact ⟨Nat.le_of_eq he, fun count h => by cases h⟩
      | sleepThieves =>
        rw [hchange] at he
        exact ⟨he.trans_le (Nat.zero_le _), fun count h => by cases h⟩
      | disengage | shouldWait =>
        rw [hchange] at he
        exact ⟨by omega, fun count h => by cases h⟩
      | request count =>
        rw [hchange] at he
        obtain ⟨hcount, toWake, hwake, hnew⟩ := he
        have hsmall := hfit e List.mem_cons_self count hchange
        obtain ⟨hle, hhalf⟩ := requestToWake_le hn hold hsmall hwake
        rw [Nat.mod_eq_of_lt (by omega)] at hnew
        exact ⟨by omega, fun _ _ => by omega⟩
    refine ⟨hf.1 ▸ hone.1, fun x hx => ?_⟩
    rcases List.mem_cons.mp hx with rfl | hx
    · exact hone
    · exact hrest x hx

/-- In every state that any threads reach by any requests, wake-ups and waits: the permits are
conserved exactly when the requests fit. -/
theorem permits_conserved_iff (hpos : 0 < n) (hn : n < 2^32)
    (hrun : Reaches (PermitStep n) permitInit s) :
    PermitsConserved n s ↔ RequestsFit s.log := by
  have hi : PermitInv n s :=
    hrun.preserves (fun _ _ hi hst => hi.step hpos hn hst) (permitInit_inv n)
  constructor
  · intro hall e he count hchange
    by_contra hno
    have hlarge : 2^31 ≤ count := Nat.not_lt.mp hno
    have hok := hi.events e he
    rw [PermitEvent.Ok, hchange] at hok
    obtain ⟨hcount, toWake, hwake, hnew⟩ := hok
    rw [requestToWake_large hlarge hcount hwake] at hnew
    obtain ⟨hkeeps, hhalf⟩ := hall.request e he count hchange
    have hold : e.old < 2^32 := hkeeps.trans_lt (hnew ▸ Nat.mod_lt _ (Nat.two_pow_pos 32))
    omega
  · intro hfit
    obtain ⟨hle, hevents⟩ := hi.follows.bounded hn hi.events hfit
    refine ⟨hle, fun e he => (hevents e he).1, fun e he => (hevents e he).2, ?_, ?_⟩
    · intro e he hrel
      have hok := hi.events e he
      unfold PermitEvent.Ok at hok
      unfold PermitEvent.releases at hrel
      cases hchange : e.change with
      | disengage | shouldWait =>
        rw [hchange] at hok
        exact hok
      | wakeThieves | sleepThieves | request count =>
        rw [hchange] at hrel
        exact absurd hrel Bool.false_ne_true
    · intro later wake earlier hlog _ hno
      have hfollows : Follows wake.new later s.thieves := (hlog ▸ hi.follows).suffix
      obtain ⟨habove, hnodup⟩ := hfollows.returned
        (fun e he => hi.events e (hlog ▸ List.mem_append_left _ he)) hno
      refine ⟨hnodup, length_le_of_nodup (hnodup.filter _) (fun x hx => ?_) fun x hx => ?_⟩
      · exact Nat.zero_lt_of_lt (habove x (List.mem_filter.mp hx).1)
      · exact (initFails_iff x).mp (of_decide_eq_true (List.mem_filter.mp hx).2)

/-- Among eight workers a request for `2^31` thieves is granted in full. -/
theorem request_exceeds_half : ∃ s, Reaches (PermitStep 8) permitInit s ∧
    ¬ PermitsConserved 8 s := by
  have hcall := Relation.ReflTransGen.single
    (@PermitStep.callRequest 8 permitInit 1 (2^31) (by decide) rfl)
  have hload := hcall.tail (.loadRequest 1 rfl)
  have hraise := hload.tail (.requestRaises 1 rfl rfl)
  refine ⟨_, hraise, fun hall => ?_⟩
  exact absurd hall.le (by decide)

/-- Two of eight workers ask for three thieves. -/
theorem permits_conserved_iff_eight : ∃ s, Reaches (PermitStep 8) permitInit s ∧
    (PermitsConserved 8 s ↔ RequestsFit s.log) ∧ s.thieves = 3 := by
  have hcall := Relation.ReflTransGen.single
    (@PermitStep.callRequest 8 permitInit 1 3 (by decide) rfl)
  have hload := hcall.tail (.loadRequest 1 rfl)
  have hraise := hload.tail (.requestRaises 1 rfl rfl)
  exact ⟨_, hraise, permits_conserved_iff (by decide) (by decide) hraise, rfl⟩

end Permits

end Cheetah
