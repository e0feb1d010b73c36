import Cheetah.LockOrder
import Cheetah.OwnershipRuns

/-! What the owned things of the workers say about busy slots, and about the order of the locks. -/
namespace Cheetah
open Function (update)

variable {s : LockState} {g : Ghost} {w v victim : WorkerId} {cl d : ClosureId} {code : List Instr}

inductive Lock where
  | busy (pn : WorkerId)
  | closure (cl : ClosureId)
deriving DecidableEq

namespace LockState

def Holds (s : LockState) (w : WorkerId) : Lock → Prop
  | .busy pn => s.busyOwner pn = some w
  | .closure cl => s.mutexOwner cl = some w

/-- The next statement of the worker takes the lock, and waits until it is free. -/
def Waits (s : LockState) (w : WorkerId) : Lock → Prop
  | .busy pn => pn = w ∧ ∃ code, s.code w = .lockSelf :: code
  | .closure cl => ∃ code, s.code w = .lock cl :: code

/-- The worker is a thief that has peeked the closure in the slot of its victim. -/
def Peeked (s : LockState) (w victim : WorkerId) (cl : ClosureId) : Prop :=
  (∃ code, s.code w = .trylockClosure victim cl :: code) ∨
    ∃ code, s.code w = .switchStatus victim cl :: code

end LockState

/-- A thief peeks at the closure of the boss and steals the frame. The boss comes back with the child,
and waits for the child's lock. -/
theorem steal_and_return : ∃ s s', Reaches LockStep (.initial 2 false) s ∧
    s.Peeked 1 0 rootClosure ∧ s.slot 0 = some rootClosure ∧
    Reaches LockStep (.initial 2 false) s' ∧ s'.Waits 0 (.closure 1) ∧
    s'.Holds 0 (.closure rootClosure) ∧ s'.code 1 = [] := by
  have h1 : Reaches LockStep (.initial 2 false) _ := .single (.invokeCilkifiedRoot 0 rfl rfl rfl)
  have h2 := h1.tail (.setupForExecution 0 rootClosure rfl)
  have h3 := h2.tail (.execute 0 rootClosure rfl rfl rfl)
  have h4 := h3.tail (.lockSelf 0 rfl rfl)
  have h5 := h4.tail (.set 0 0 rootClosure rfl)
  have h6 := h5.tail (.unlockBusy 0 0 rfl)
  have h7 := h6.tail (.push 0 ⟨0, true⟩ rfl rfl)
  have h8 := h7.tail (.steal 1 0 rfl rfl (by decide) (by decide))
  have h9 := h8.tail (.trylockBusy 1 0 rfl rfl)
  have h10 := h9.tail (.peekVictim 1 0 rfl rfl)
  have h11 := h10.tail (.trylockClosure 1 0 rootClosure rfl rfl (by decide) (by decide))
  have h12 := h11.tail (.stealOwn 1 0 rootClosure rfl rfl rfl rfl)
  have h13 := h12.tail (.xtract 1 0 rfl)
  have h14 := h13.tail (.promoteChild 1 0 rootClosure rfl)
  have h15 := h14.tail (.unlockBusy 1 0 rfl)
  have h16 := h15.tail (.setStatus 1 rootClosure .ready rfl)
  have h17 := h16.tail (.setupForExecution 1 rootClosure rfl)
  have h18 := h17.tail (.unlock 1 rootClosure rfl)
  have h19 := h18.tail (.call 0 .exceptionHandler rfl rfl)
  have h20 := h19.tail (.lockSelf 0 rfl rfl)
  have h21 := h20.tail (.peekSelf 0 .exceptionHandler rfl rfl)
  have h22 := h21.tail (.lock 0 1 rfl rfl)
  have h23 := h22.tail (.handleSteal 0 1 rfl rfl)
  have h24 := h23.tail (.setReturning 0 1 rfl)
  have h25 := h24.tail (.unlock 0 1 rfl)
  have h26 := h25.tail (.xtract 0 0 rfl)
  have h27 := h26.tail (.unlockBusy 0 0 rfl)
  have h28 := h27.tail (.returnValue 0 1 rootClosure rfl rfl rfl rfl)
  have h29 := h28.tail (.lock 0 rootClosure rfl rfl)
  exact ⟨_, _, h11, .inr ⟨_, rfl⟩, rfl, h29, ⟨_, rfl⟩, rfl, rfl⟩

/-- Busy slots come before closures, and parents before their children. -/
def Lock.rank : Lock → ℕ
  | .busy _ => 0
  | .closure cl => cl+1

section Order

/-- A worker that waits for its busy slot holds nothing. -/
theorem Owning.waits_busy (ho : Owning s g) (hcode : s.code w = .lockSelf :: code) (l : Lock) :
    ¬ s.Holds w l := by
  obtain ⟨hbusy, hlocks, -, -⟩ := (ho.head hcode).1
  intro hholds
  cases l with
  | busy pn =>
    have hself : g.busy w = some pn := (ho.consistent.busy pn w).mp hholds
    rw [show g.busy w = none from hbusy] at hself
    cases hself
  | closure c =>
    have hself : c ∈ g.locks w := (ho.consistent.locks c w).mp hholds
    rw [show g.locks w = [] from hlocks] at hself
    exact absurd hself List.not_mem_nil

/-- A worker that waits for a closure holds no other, or only the parent and no busy slot. -/
theorem Owning.waits_closure (ho : Owning s g) (hcode : s.code w = .lock cl :: code)
    (hholds : s.Holds w (.closure d)) :
    s.spawnParent cl = some d ∧ ∀ l, s.Holds w l → l = .closure d := by
  obtain ⟨hlocks, -⟩ := (ho.head hcode).1
  have hself : d ∈ g.locks w := (ho.consistent.locks d w).mp hholds
  rcases hlocks with hnone | ⟨parent, hone, hbusy, hrest⟩
  · rw [show g.locks w = [] from hnone] at hself
    exact absurd hself List.not_mem_nil
  · have hlist : g.locks w = [parent] := hone
    rw [hlist, List.mem_singleton] at hself
    have hfact : Instr.Fact s w (.takeTables cl parent) := by
      refine ho.facts w _ ?_
      rw [hcode, hrest]
      exact List.mem_cons_of_mem _ List.mem_cons_self
    refine ⟨hself ▸ hfact, fun l hl => ?_⟩
    cases l with
    | busy pn =>
      have howns : g.busy w = some pn := (ho.consistent.busy pn w).mp hl
      rw [show g.busy w = none from hbusy] at howns
      cases howns
    | closure c =>
      have howns : c ∈ g.locks w := (ho.consistent.locks c w).mp hl
      rw [hlist, List.mem_singleton] at howns
      rw [howns, hself]

/-- Workers wait for locks in the order of their ranks. -/
theorem Owning.ranked (ho : Owning s g) : RankedLocks s.Holds s.Waits Lock.rank := by
  intro w l l' hwaits hholds
  cases l with
  | busy pn =>
    obtain ⟨-, code, hcode⟩ := hwaits
    exact absurd hholds (ho.waits_busy hcode l')
  | closure cl =>
    obtain ⟨code, hcode⟩ := hwaits
    cases l' with
    | busy pn => exact Nat.succ_pos cl
    | closure d =>
      have hparent := (ho.waits_closure hcode hholds).1
      exact Nat.succ_lt_succ (ho.consistent.parentLt cl d (.inl hparent)).1

/-- In every state that any number of workers reach: who waits for a busy slot holds no lock, who
waits for a closure while holding a closure holds only the parent, and no worker waits, through
others, for itself. -/
theorem locks_are_ordered {nworkers : ℕ} {debug : Bool}
    (hrun : Reaches LockStep (.initial nworkers debug) s) :
    (∀ w pn, s.Waits w (.busy pn) → ∀ l, ¬ s.Holds w l) ∧
      (∀ w cl d, s.Waits w (.closure cl) → s.Holds w (.closure d) →
        s.spawnParent cl = some d ∧ ∀ l, s.Holds w l → l = .closure d) ∧
      ∀ w, ¬ Relation.TransGen (WaitsFor s.Holds s.Waits) w w := by
  obtain ⟨g, ho⟩ := Owning.run hrun
  refine ⟨fun w pn hwaits => ?_, fun w cl d hwaits => ?_, ho.ranked.acyclic⟩
  · obtain ⟨-, code, hcode⟩ := hwaits
    exact ho.waits_busy hcode
  · obtain ⟨code, hcode⟩ := hwaits
    exact ho.waits_closure hcode

/-- The boss that waits for the child holds the parent only, and no one waits for itself. -/
theorem locks_are_ordered_child : ∃ s : LockState, s.Waits 0 (.closure 1) ∧
    s.spawnParent 1 = some rootClosure ∧ (∀ l, s.Holds 0 l → l = .closure rootClosure) ∧
    ∀ w, ¬ Relation.TransGen (WaitsFor s.Holds s.Waits) w w := by
  obtain ⟨-, s, -, -, -, hrun, hwaits, hholds, -⟩ := steal_and_return
  have hparent := (locks_are_ordered hrun).2.1 0 1 rootClosure hwaits hholds
  exact ⟨s, hwaits, hparent.1, hparent.2, (locks_are_ordered hrun).2.2⟩

end Order

section Slots

theorem Owning.peeked (ho : Owning s g) (hpeeked : s.Peeked w victim cl) :
    s.status cl = .running := by
  rcases hpeeked with ⟨code, hcode⟩ | ⟨code, hcode⟩
  · exact (ho.thief_sees (ho.head hcode).1.2.2.2).2.2.1
  · exact ho.switchStatus hcode

/-- A worker whose routine has ended holds nothing. -/
theorem Owning.ended (ho : Owning s g) (hcode : s.code w = []) (l : Lock) : ¬ s.Holds w l := by
  have hlast := ho.last hcode
  have hnone : g.busy w = none ∧ g.locks w = [] := by
    cases hafter : s.after w with
    | doWhatItSays t =>
      rw [hafter] at hlast
      obtain ⟨status, -, howned⟩ := hlast
      exact ⟨(owned_eq howned).1, (owned_eq howned).2.2.1⟩
    | _ =>
      rw [hafter] at hlast
      exact ⟨(owned_eq hlast).1, (owned_eq hlast).2.2.1⟩
  intro hholds
  cases l with
  | busy pn =>
    have hself : g.busy w = some pn := (ho.consistent.busy pn w).mp hholds
    rw [hnone.1] at hself
    cases hself
  | closure c =>
    have hself : c ∈ g.locks w := (ho.consistent.locks c w).mp hholds
    rw [hnone.2] at hself
    exact absurd hself List.not_mem_nil

/-- In every state that any number of workers reach, over any number of regions: a closure is in one
busy slot at most, whose worker is its owner; the thief that has peeked a closure finds it running or
returning, so that the switch has no other case; a routine that has ended has left no lock. -/
theorem busy_slots_hold {nworkers : ℕ} {debug : Bool}
    (hrun : Reaches LockStep (.initial nworkers debug) s) :
    (∀ v cl, s.slot v = some cl → s.owner cl = some v ∧ ∀ u, s.slot u = some cl → u = v) ∧
      (∀ w victim cl, s.Peeked w victim cl → s.status cl = .running ∨ s.status cl = .returning) ∧
      ∀ w, s.code w = [] → ∀ l, ¬ s.Holds w l := by
  obtain ⟨g, ho⟩ := Owning.run hrun
  refine ⟨fun v cl hv => ⟨ho.consistent.owner v cl hv, fun u hu => ?_⟩,
    fun w victim cl hpeeked => .inl (ho.peeked hpeeked), fun w hcode => ho.ended hcode⟩
  exact ho.consistent.slot_unique hu hv

/-- The thief finds the root closure running in the slot of the boss, who owns it; after the steal it
holds nothing. -/
theorem busy_slots_hold_steal : ∃ s s' : LockState, s.Peeked 1 0 rootClosure ∧
    s.owner rootClosure = some 0 ∧
    (s.status rootClosure = .running ∨ s.status rootClosure = .returning) ∧
    ∀ l, ¬ s'.Holds 1 l := by
  obtain ⟨s, s', hrun, hpeeked, hslot, hrun', -, -, hcode⟩ := steal_and_return
  have hslots := busy_slots_hold hrun
  exact ⟨s, s', hpeeked, (hslots.1 0 rootClosure hslot).1, hslots.2.1 1 0 rootClosure hpeeked,
    (busy_slots_hold hrun').2.2 1 hcode⟩

end Slots

end Cheetah
