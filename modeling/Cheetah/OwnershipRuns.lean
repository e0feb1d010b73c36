import Cheetah.OwnershipStatements

/-! The routines that user code and the runtime begin, and from them every run of the scheduler. -/
namespace Cheetah
open Function (update)

variable {s s' : LockState} {g g' : Ghost} {w : WorkerId} {cl t child parent : ClosureId}
  {code : List Instr}

section User

theorem Owning.call (ho : Owning s g) (routine : Routine) (hcode : s.code w = [])
    (hafter : s.after w = .user) : ∃ g', Owning (s.goto w [.lockSelf, .peekSelf routine]) g' := by
  have hidle := ho.last hcode
  rw [hafter] at hidle
  have howned : g.owned w = .idle true := hidle
  refine ⟨g, ho.goto (.frame rfl rfl rfl rfl fun _ _ _ => rfl) ho.consistent (fun _ _ => rfl) rfl rfl
    ?_ fun i hi => ?_⟩
  · rw [howned, hafter]
    exact ⟨rfl, rfl, rfl, rfl, rfl, rfl⟩
  · rcases List.mem_pair.mp hi with rfl | rfl <;> trivial

theorem Owning.setDeque (ho : Owning s g) {frames : List DequeFrame} (hcode : s.code w = [])
    (hclaim : ∀ u, g.busy u = some w → g.claim u = true → frames ≠ []) :
    ∃ g', Owning (s.setDeque w frames) g' := by
  have hstable : Stable s (s.setDeque w frames) w :=
    ⟨fun _ _ h => h, fun _ _ h => h, Nat.le_refl _,
      fun u hu h => ⟨(Function.update_of_ne hu _ _).trans h, rfl⟩⟩
  refine ⟨g, ho.advance hstable (ho.consistent.setDeque w frames hclaim) (fun _ _ => rfl)
    (fun _ _ => ⟨rfl, rfl⟩) (ho.typed w) fun i hi => ?_⟩
  rw [show (s.setDeque w frames).code w = [] from hcode] at hi
  exact absurd hi List.not_mem_nil

theorem Owning.peekSelf (ho : Owning s g) {routine : Routine}
    (hcode : s.code w = .peekSelf routine :: code) (hslot : s.slot w = some t) :
    ∃ g', Owning (s.goto w [.lock t, .enter routine t]) g' := by
  obtain ⟨-, hafter, huser⟩ := (ho.head hcode).1
  obtain ⟨hbusy, hview, -, hhand, hhome, -⟩ := owned_eq huser
  refine ⟨_, ho.goto (.frame rfl rfl rfl rfl fun _ _ _ => rfl)
    (ho.consistent.look (.running t) fun v hv => ?_) owned_setView.2 rfl rfl ?_
    fun i hi => ?_⟩
  · rw [hbusy] at hv
    cases hv
    exact ⟨hslot, ho.own_slot hbusy hview hhome hslot, fun h => absurd rfl h⟩
  · rw [owned_setView.1, huser, hhand, hafter]
    exact ⟨.inl rfl, rfl, rfl, rfl⟩
  · rcases List.mem_pair.mp hi with rfl | rfl
    · exact ho.consistent.slotLt w t hslot
    · trivial

/-- A routine of user code, with the closure locked, goes on with one of its branches. -/
theorem Owning.enter (ho : Owning s g) {routine : Routine}
    (hcode : s.code w = .enter routine t :: code) {code' : List Instr}
    (htyped : Typed w code' .user (.inUser w (.running t) [t]))
    (hfacts : ∀ i ∈ code', i.Fact s w) : ∃ g', Owning (s.goto w code') g' := by
  obtain ⟨-, hafter, huser⟩ := (ho.head hcode).1
  refine ⟨g, ho.goto (.frame rfl rfl rfl rfl fun _ _ _ => rfl) ho.consistent (fun _ _ => rfl) rfl rfl
    ?_ hfacts⟩
  rw [huser, hafter]
  exact htyped

theorem Owning.leave (ho : Owning s g) {routine : Routine}
    (hcode : s.code w = .enter routine t :: code) {code' : List Instr} {after : After}
    (htyped : Typed w code' after (.inUser w (.running t) [t]))
    (hfacts : ∀ i ∈ code', i.Fact s w) : ∃ g', Owning ((s.goto w code').goAfter w after) g' := by
  obtain ⟨-, -, huser⟩ := (ho.head hcode).1
  refine ⟨g, ho.goAfter (.frame rfl rfl rfl rfl fun _ _ _ => rfl) ho.consistent (fun _ _ => rfl) rfl
    rfl ?_ hfacts⟩
  rw [huser]
  exact htyped

theorem unlockBoth_facts : ∀ i ∈ unlockBoth w t, i.Fact s w := by
  intro i hi
  rcases List.mem_pair.mp hi with rfl | rfl <;> trivial

theorem setReturn_facts (ho : Owning s g) (hparent : s.callParent t = some parent) :
    ∀ i ∈ setReturn w t parent, i.Fact s w := by
  have hlt := ho.consistent.parentLt t parent (.inr hparent)
  intro i hi
  simp only [setReturn, List.mem_cons, List.not_mem_nil, or_false] at hi
  rcases hi with rfl | rfl | rfl | rfl | rfl | rfl | rfl | rfl
  · trivial
  · exact hparent
  · trivial
  · exact hlt.1.trans hlt.2
  · exact hparent
  · trivial
  · trivial
  · trivial

/-- The exception handler takes the last frame back. -/
theorem Owning.falseAlarm (ho : Owning s g) {routine : Routine} {frames : List DequeFrame}
    (hcode : s.code w = .enter routine t :: code) :
    ∃ g', Owning ((s.setDeque w frames).goto w (unlockBoth w t)) g' := by
  obtain ⟨-, hafter, huser⟩ := (ho.head hcode).1
  obtain ⟨hbusy, -, -, -, -, hclaim⟩ := owned_eq huser
  have hstable : Stable s (s.setDeque w frames) w :=
    ⟨fun _ _ h => h, fun _ _ h => h, Nat.le_refl _,
      fun u hu h => ⟨(Function.update_of_ne hu _ _).trans h, rfl⟩⟩
  refine ⟨g, ho.goto hstable (ho.consistent.setDeque w frames fun u hu hc => ?_) (fun _ _ => rfl) rfl rfl ?_
    unlockBoth_facts⟩
  · by_cases huw : u = w
    · rw [huw, show g.claim w = false from hclaim] at hc
      cases hc
    · exact absurd rfl (ho.consistent.busy_ne hbusy hu huw)
  · rw [huser, hafter]
    exact typed_unlockBoth

theorem Owning.againToRuntime (ho : Owning s g) (hcode : s.code w = [])
    (hafter : s.after w = .user) (hslot : s.slot w = some t) (hdeque : s.deque w = []) :
    ∃ g', Owning ((s.goto w (Cheetah.returnAgain w t)).goAfter w (.doWhatItSays t)) g' := by
  have hidle := ho.last hcode
  rw [hafter] at hidle
  have howned : g.owned w = .idle true := hidle
  refine ⟨g, ho.goAfter (.frame rfl rfl rfl rfl fun _ _ _ => rfl) ho.consistent (fun _ _ => rfl) rfl
    rfl ?_ fun i hi => ?_⟩
  · rw [howned]
    exact typed_returnAgain
  · simp only [Cheetah.returnAgain, List.mem_cons, List.not_mem_nil, or_false] at hi
    rcases hi with rfl | rfl | rfl | rfl
    · trivial
    · exact ⟨hdeque, hslot⟩
    · trivial
    · trivial

end User

section Returns

/-- The runtime takes up a closure that it has in its hands. -/
theorem Owning.handed (ho : Owning s g) (hcode : s.code w = [])
    (hafter : s.after w = .doWhatItSays t) :
    g.owned w = .inRuntime [] (some ⟨t, s.status t, true⟩) := by
  have howns := ho.last hcode
  rw [hafter] at howns
  obtain ⟨status, -, howned⟩ := howns
  have hhand : g.hand w = some ⟨t, status, true⟩ := (owned_eq howned).2.2.2.1
  have hstatus : s.status t = status := (ho.consistent.hand w _ hhand).1
  rw [howned, hstatus]

theorem Owning.execute (ho : Owning s g) (hcode : s.code w = [])
    (hafter : s.after w = .doWhatItSays t) (hstatus : s.status t = .running) :
    ∃ g', Owning ((s.goto w (execute w t)).goAfter w .user) g' := by
  refine ⟨g, ho.goAfter (.frame rfl rfl rfl rfl fun _ _ _ => rfl) ho.consistent (fun _ _ => rfl) rfl
    rfl ?_ fun i hi => ?_⟩
  · rw [ho.handed hcode hafter, hstatus]
    exact typed_execute
  · simp only [Cheetah.execute, List.mem_cons, List.not_mem_nil, or_false] at hi
    rcases hi with rfl | rfl | rfl <;> trivial

theorem Owning.returnValue (ho : Owning s g) (hcode : s.code w = [])
    (hafter : s.after w = .doWhatItSays t) (hstatus : s.status t = .returning)
    (hparent : s.spawnParent t = some parent) :
    ∃ g', Owning ((s.goto w (closureReturn t parent)).goAfter w .scheduling) g' := by
  have hlt := ho.consistent.parentLt t parent (.inl hparent)
  refine ⟨g, ho.goAfter (.frame rfl rfl rfl rfl fun _ _ _ => rfl) ho.consistent (fun _ _ => rfl) rfl
    rfl ?_ fun i hi => ?_⟩
  · rw [ho.handed hcode hafter, hstatus]
    exact typed_closureReturn
  · simp only [closureReturn, List.mem_cons, List.not_mem_nil, or_false] at hi
    rcases hi with rfl | rfl | rfl
    · exact hlt.1.trans hlt.2
    · exact hlt.2
    · exact hparent

theorem Owning.reduceFirst (ho : Owning s g) (hcode : s.code w = .takeTables child parent :: code) :
    ∃ g', Owning ((({ s with reducing := update s.reducing child true } : LockState).goto w
      (reduceFirst child parent)).goAfter w (.doWhatItSays child)) g' := by
  obtain ⟨-, -, hruntime⟩ := (ho.head hcode).1
  have hc : Consistent { s with reducing := update s.reducing child true } g :=
    { ho.consistent with busy := ho.consistent.busy }
  refine ⟨g, ho.goAfter (.frame rfl rfl rfl rfl fun _ _ _ => rfl) hc (fun _ _ => rfl) rfl rfl ?_
    fun i hi => ?_⟩
  · rw [hruntime]
    exact typed_reduceFirst
  · simp only [Cheetah.reduceFirst, List.mem_cons, List.not_mem_nil, or_false] at hi
    rcases hi with rfl | rfl | rfl | rfl <;> trivial

theorem Owning.finishReturn (ho : Owning s g) (hcode : s.code w = .takeTables child parent :: code) :
    ∃ g', Owning (s.goto w (finishReturn child parent)) g' := by
  obtain ⟨⟨-, hafter, hruntime⟩, hparent⟩ := ho.head hcode
  refine ⟨g, ho.goto (.frame rfl rfl rfl rfl fun _ _ _ => rfl) ho.consistent (fun _ _ => rfl) rfl rfl
    ?_ fun i hi => ?_⟩
  · rw [hruntime, hafter]
    exact typed_finishReturn
  · simp only [Cheetah.finishReturn, List.mem_cons, List.not_mem_nil, or_false] at hi
    rcases hi with rfl | rfl | rfl | rfl
    · trivial
    · trivial
    · exact hparent
    · trivial

theorem Owning.provablyGoodSteal (ho : Owning s g)
    (hcode : s.code w = .provablyGoodSteal parent :: code) (hjoin : s.joinCounter parent = 0)
    (hsus : s.status parent = .suspended) :
    ∃ g', Owning (((s.setStatus parent .ready).goto w (resumeParent parent)).goAfter w
      (.doWhatItSays parent)) g' := by
  obtain ⟨-, -, hruntime⟩ := (ho.head hcode).1
  obtain ⟨hbusy, hview, hlocks, -, -, -⟩ := owned_eq hruntime
  have hlock : parent ∈ g.locks w := by
    rw [hlocks]
    exact List.mem_singleton_self parent
  refine ⟨_, ho.goAfter (.frame rfl rfl rfl rfl fun _ _ _ => rfl)
    (ho.consistent.provablyGoodSteal hbusy hlock hjoin hsus) owned_setView.2 rfl rfl ?_
    fun i hi => ?_⟩
  · rw [owned_setView.1, hruntime, hview]
    exact typed_resumeParent
  · rcases List.mem_pair.mp hi with rfl | rfl <;> trivial

theorem Owning.noSteal (ho : Owning s g)
    (hcode : s.code w = .provablyGoodSteal parent :: code) :
    ∃ g', Owning (s.goto w [.unlock parent]) g' := by
  obtain ⟨-, hafter, hruntime⟩ := (ho.head hcode).1
  refine ⟨g, ho.goto (.frame rfl rfl rfl rfl fun _ _ _ => rfl) ho.consistent (fun _ _ => rfl) rfl rfl
    ?_ fun i hi => ?_⟩
  · rw [hruntime, hafter]
    simp [Typed, Owned.inRuntime, After.Owns, Owned.idle]
  · rw [List.mem_singleton.mp hi]
    trivial

end Returns

section Regions

theorem Owning.invokeCilkifiedRoot (ho : Owning s g) (frame : FrameId) (hcode : s.code 0 = [])
    (hafter : s.after 0 = .outside) (huncilkified : s.cilkified = false) :
    ∃ g', Owning (((s.invokeCilkifiedRoot frame).goto 0 [.setupForExecution rootClosure]).goAfter 0
      (.doWhatItSays rootClosure)) g' := by
  have hidle := ho.last hcode
  rw [hafter] at hidle
  have howned : g.owned 0 = .idle false := hidle
  obtain ⟨hbusy, hview, -, -, -, -⟩ := owned_eq howned
  refine ⟨_, ho.goAfter (.frame rfl rfl rfl rfl fun _ _ _ => rfl)
    (ho.consistent.invokeCilkifiedRoot hbusy huncilkified frame) owned_setView.2 rfl rfl ?_
    fun i hi => ?_⟩
  · rw [owned_setView.1, howned, hview]
    simp [Typed, Owned.idle, After.Owns, Owned.inRuntime]
  · rw [List.mem_singleton.mp hi]
    trivial

theorem Owning.exitCilkifiedRoot (ho : Owning s g) (hcode : s.code w = [])
    (hafter : s.after w = .user) (hslot : s.slot w = some rootClosure) (hdeque : s.deque w = []) :
    ∃ g', Owning ((s.goto w (exitCilkifiedRoot w)).goAfter w
      (if w = 0 then .outside else .scheduling)) g' := by
  have hidle := ho.last hcode
  rw [hafter] at hidle
  have howned : g.owned w = .idle true := hidle
  refine ⟨g, ho.goAfter (.frame rfl rfl rfl rfl fun _ _ _ => rfl) ho.consistent (fun _ _ => rfl) rfl
    rfl ?_ fun i hi => ?_⟩
  · rw [howned]
    exact typed_exitCilkifiedRoot
  · simp only [Cheetah.exitCilkifiedRoot, List.mem_cons, List.not_mem_nil, or_false] at hi
    rcases hi with rfl | rfl | rfl | rfl
    · trivial
    · exact ⟨hdeque, hslot⟩
    · trivial
    · trivial

theorem Owning.clearSlot (ho : Owning s g) (hcode : s.code w = .clearSlot :: code) :
    ∃ g', Owning ((s.clearSlot w).goto w code) g' := by
  obtain ⟨⟨hbusy, hview, hhome, -, -, hreads, htyped⟩, -, hslot⟩ := ho.head hcode
  refine ⟨_, ho.next hcode (ho.stable_slot hbusy (fun h => absurd rfl h) rfl rfl rfl rfl
    fun u hu => Function.update_of_ne hu _ _) (fun j hj hr => ?_)
    (ho.consistent.clearSlot hbusy hslot (ho.own_slot hbusy hview hhome hslot))
    (fun u hu => (owned_setEnding.2 u hu).trans (owned_setView.2 u hu)) rfl rfl ?_⟩
  · rw [hreads j hj] at hr
    cases hr
  · rw [owned_setEnding.1, owned_setView.1]
    exact htyped

theorem Owning.signalUncilkified (ho : Owning s g) (hcode : s.code w = .signalUncilkified :: code) :
    ∃ g', Owning (({ s with cilkified := false } : LockState).goto w code) g' := by
  obtain ⟨hend, htyped⟩ := (ho.head hcode).1
  refine ⟨_, ho.next hcode (.frame rfl rfl rfl rfl fun _ _ _ => rfl) (fun _ _ _ h => ⟨h, rfl⟩)
    (ho.consistent.signalUncilkified hend) owned_setEnding.2 rfl rfl ?_⟩
  rw [owned_setEnding.1]
  exact htyped

theorem Owning.bossWaits (ho : Owning s g) (hcode : s.code 0 = []) (hafter : s.after 0 = .scheduling) :
    ∃ g', Owning (s.goAfter 0 .outside) g' := by
  have hidle := ho.last hcode
  rw [hafter] at hidle
  have howned : g.owned 0 = .idle false := hidle
  refine ⟨g, ho.advance (w := 0) ⟨fun _ _ h => h, fun _ _ h => h, Nat.le_refl _, fun _ _ h => ⟨h, rfl⟩⟩
    ho.consistent.goAfter (fun _ _ => rfl) (fun u hu => ⟨rfl, Function.update_of_ne hu _ _⟩) ?_
    fun i hi => ?_⟩
  · rw [show (s.goAfter 0 .outside).code 0 = [] from hcode,
      show (s.goAfter 0 .outside).after 0 = .outside from rfl]
    exact howned
  · rw [show (s.goAfter 0 .outside).code 0 = [] from hcode] at hi
    exact absurd hi List.not_mem_nil

end Regions

section Runs

/-- Each step leaves to every worker what it needs. -/
theorem Owning.step (ho : Owning s g) (hstep : LockStep s s') : ∃ g', Owning s' g' := by
  cases hstep with
  | execute w t hcode hafter hstatus => exact ho.execute hcode hafter hstatus
  | returnValue w t parent hcode hafter hstatus hparent =>
    exact ho.returnValue hcode hafter hstatus hparent
  | steal w victim hcode hafter hne _ => exact ho.steal hcode hafter hne
  | lockSelf w hcode hfree => exact ho.lockSelf hcode hfree
  | unlockBusy w pn hcode => exact ho.unlockBusy hcode
  | xtract w pn hcode => exact ho.xtract hcode
  | set w pn cl hcode => exact ho.set hcode
  | lock w cl hcode hfree => exact ho.lock hcode hfree
  | unlock w cl hcode => exact ho.unlock hcode
  | setStatus w cl status hcode => exact ho.setStatus hcode
  | destroy w cl hcode => exact ho.destroy hcode
  | setupForExecution w cl hcode => exact ho.setupForExecution hcode
  | trylockBusy w victim hcode hfree => exact ho.trylockBusy hcode hfree
  | trylockBusyFails w victim hcode => exact ho.trylockBusyFails hcode
  | peekVictim w victim hcode hslot => exact ho.peekVictim hcode hslot
  | peekNothing w victim hcode _ => exact ho.peekNothing hcode
  | trylockClosure w victim cl hcode hfree _ _ => exact ho.trylockClosure hcode hfree
  | trylockClosureFails w victim cl hcode => exact ho.trylockClosureFails hcode
  | dekkerFails w victim cl hcode _ _ => exact ho.giveUp hcode
  | leaveReturning w victim cl hcode _ => exact ho.giveUp hcode
  | defaultCase w victim cl hcode hrunning _ => exact absurd (ho.switchStatus hcode) hrunning
  | stealOwn w victim cl hcode _ hdeque _ =>
    refine ho.claim hcode ?_ typed_stealOwn fun i hi _ => ?_
    · rw [hdeque]
      exact List.cons_ne_nil _ _
    · rcases List.mem_pair.mp hi with rfl | rfl <;> trivial
  | stealHelper w victim cl hcode _ hdeque _ _ =>
    have hclaim : ∃ g', Owning ((s.setClaimed victim true).goto w
        [.xtract victim, .promoteChild victim cl]) g' := by
      refine ho.claim hcode ?_ typed_stealOwn fun i hi _ => ?_
      · rw [hdeque]
        exact List.cons_ne_nil _ _
      · rcases List.mem_pair.mp hi with rfl | rfl <;> trivial
    obtain ⟨g', ho'⟩ := hclaim
    exact ⟨g', { ho'.consistent with busy := ho'.consistent.busy }, ho'.typed, ho'.facts⟩
  | stealCalled w victim cl hcode _ hdeque _ _ =>
    refine ho.claim hcode ?_ (fun hne => ⟨rfl, rfl, hne, rfl⟩) fun i hi _ => ?_
    · rw [hdeque]
      exact List.cons_ne_nil _ _
    · rw [List.mem_singleton.mp hi]
      trivial
  | addCallee w victim cl frame hcode => exact ho.addCallee hcode
  | promoteChild w victim res hcode => exact ho.promoteChild hcode
  | push w f hcode _ =>
    exact ho.setDeque hcode fun _ _ _ => List.append_ne_nil_of_right_ne_nil _ (List.cons_ne_nil _ _)
  | pop w hcode _ _ hclaimed =>
    exact ho.setDeque hcode fun u hu hc => hclaimed (ho.consistent.claims w u hu hc).2.1
  | call w routine hcode hafter => exact ho.call routine hcode hafter
  | peekSelf w routine hcode hslot => exact ho.peekSelf hcode hslot
  | syncFails w t hcode _ =>
    refine ho.leave hcode typed_suspendAtSync fun i hi => ?_
    simp only [suspendAtSync, List.mem_cons, List.not_mem_nil, or_false] at hi
    rcases hi with rfl | rfl | rfl | rfl <;> trivial
  | syncSucceeds w t hcode _ => exact ho.enter hcode typed_unlockBoth unlockBoth_facts
  | setReturn w t hcode hparent =>
    exact ho.enter hcode typed_setReturn (setReturn_facts ho hparent)
  | handleSteal w t hcode _ =>
    refine ho.leave hcode typed_returnToRuntime fun i hi => ?_
    simp only [returnToRuntime, List.mem_cons, List.not_mem_nil, or_false] at hi
    rcases hi with rfl | rfl | rfl | rfl <;> trivial
  | falseAlarm w t hcode _ => exact ho.falseAlarm hcode
  | syncInPersonality w t hcode => exact ho.enter hcode typed_unlockBoth unlockBoth_facts
  | suspend w t hcode => exact ho.suspend hcode
  | setReturning w t hcode => exact ho.setReturning hcode
  | setCallParent w t callParent hcode => exact ho.setCallParent hcode
  | removeCallee w t callParent hcode => exact ho.removeCallee hcode
  | againToRuntime w t hcode hafter hslot _ hdeque =>
    exact ho.againToRuntime hcode hafter hslot hdeque
  | returnAgain w t hcode => exact ho.returnAgain hcode
  | reduceFirst w child parent hcode => exact ho.reduceFirst hcode
  | finishReturn w child parent hcode => exact ho.finishReturn hcode
  | decrementJoin w child parent hcode => exact ho.decrementJoin hcode
  | provablyGoodSteal w parent hcode hjoin hstatus =>
    exact ho.provablyGoodSteal hcode hjoin hstatus
  | noSteal w parent hcode _ => exact ho.noSteal hcode
  | invokeCilkifiedRoot frame hcode hafter huncilkified =>
    exact ho.invokeCilkifiedRoot frame hcode hafter huncilkified
  | exitCilkifiedRoot w hcode hafter hslot hdeque =>
    exact ho.exitCilkifiedRoot hcode hafter hslot hdeque
  | clearSlot w hcode => exact ho.clearSlot hcode
  | signalUncilkified w hcode => exact ho.signalUncilkified hcode
  | bossWaits hcode hafter _ => exact ho.bossWaits hcode hafter

/-- At first no one owns anything. -/
def Ghost.initial : Ghost where
  busy := fun _ => none
  view := fun _ => .atRest
  locks := fun _ => []
  hand := fun _ => none
  home := fun _ => false
  claim := fun _ => false
  ending := fun _ => false
  counted := fun _ => false

theorem Owning.initial (nworkers : ℕ) (debug : Bool) :
    Owning (.initial nworkers debug) .initial where
  consistent :=
    { busy := fun _ _ => iff_of_false (fun h => by cases h) (fun h => by cases h)
      locks := fun _ _ => iff_of_false (fun h => by cases h) List.not_mem_nil
      nodup := fun _ => List.nodup_nil
      free := fun _ _ => rfl
      sees := fun _ _ h => by cases h
      claims := fun _ _ h => by cases h
      owner := fun _ _ h => by cases h
      hand := fun _ _ h => by cases h
      handUnique := fun _ _ _ _ h => by cases h
      live := fun _ _ h => by rcases h with h | h <;> cases h
      callee := fun _ _ h => by cases h
      calleeUnique := fun _ _ _ h => by cases h
      join := fun _ => (tally_eq_zero fun _ _ => rfl).symm
      pos := Nat.one_pos
      slotLt := fun _ _ h => by cases h
      handLt := fun _ _ h => by cases h
      parentLt := fun _ _ h => by rcases h with h | h <;> cases h
      lockLt := fun _ _ h => absurd h List.not_mem_nil
      parentUnique := fun _ _ _ h => by rcases h with h | h <;> cases h
      countedLt := fun _ h => by cases h
      suspendedLt := fun _ h => by cases h
      idle := fun _ => ⟨(fun _ h => by cases h), (fun _ _ h => by cases h), (fun h => by cases h)⟩
      endingCilkified := fun _ h => by cases h
      endingUnique := fun _ _ h => by cases h }
  typed w := by
    show (if w = 0 then After.outside else After.scheduling).Owns (Ghost.owned .initial w)
    split_ifs <;> rfl
  facts _ _ h := absurd h List.not_mem_nil

/-- Whatever the workers do, over any number of regions, each owns what its code needs. -/
theorem Owning.run {nworkers : ℕ} {debug : Bool}
    (hrun : Reaches LockStep (.initial nworkers debug) s) : ∃ g, Owning s g := by
  have hstep : ∀ s s', (∃ g, Owning s g) → LockStep s s' → ∃ g, Owning s' g := by
    rintro s s' ⟨g, ho⟩ hstep
    exact ho.step hstep
  exact hrun.preserves hstep ⟨.initial, Owning.initial nworkers debug⟩

end Runs

end Cheetah
