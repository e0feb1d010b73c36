import Cheetah.OwnershipSteals

/-! Whatever statement a worker executes, it owns what the next ones need. Each statement has one
lemma of one shape. -/
namespace Cheetah
open Function (update)

variable {s s' : LockState} {g g' : Ghost} {w u v victim : WorkerId} {cl t child parent : ClosureId}
  {code : List Instr} {i : Instr}

section Ghosts

theorem owned_lockBusy {view : View} : (g.lockBusy w v view).owned w =
    { g.owned w with busy := some v, view := view } ∧
      ∀ u, u ≠ w → (g.lockBusy w v view).owned u = g.owned u := by
  refine ⟨?_, fun u hu => ?_⟩
  · simp only [Ghost.owned, Ghost.lockBusy, Function.update_self]
  · simp only [Ghost.owned, Ghost.lockBusy, Function.update_of_ne hu]

theorem owned_unlockBusy : (g.unlockBusy w v).owned w = { g.owned w with
      busy := none
      view := .atRest
      home := if v = w then (g.view w).full (g.home w) else g.home w } ∧
    ∀ u, u ≠ w → (g.unlockBusy w v).owned u = g.owned u := by
  refine ⟨?_, fun u hu => ?_⟩
  · simp only [Ghost.owned, Ghost.unlockBusy, Function.update_self]
  · simp only [Ghost.owned, Ghost.unlockBusy, Function.update_of_ne hu]

theorem owned_setLocks {locks : List ClosureId} : (g.setLocks w locks).owned w =
    { g.owned w with locks := locks } ∧ ∀ u, u ≠ w → (g.setLocks w locks).owned u = g.owned u := by
  refine ⟨?_, fun u hu => ?_⟩
  · simp only [Ghost.owned, Ghost.setLocks, Function.update_self]
  · simp only [Ghost.owned, Ghost.setLocks, Function.update_of_ne hu]

theorem owned_setView {view : View} {hand : Option Held} {counted : ClosureId → Bool} :
    ({ g.setView w view hand with counted := counted } : Ghost).owned w =
      { g.owned w with view := view, hand := hand } ∧
    ∀ u, u ≠ w → ({ g.setView w view hand with counted := counted } : Ghost).owned u =
      g.owned u := by
  refine ⟨?_, fun u hu => ?_⟩
  · simp only [Ghost.owned, Ghost.setView, Function.update_self]
  · simp only [Ghost.owned, Ghost.setView, Function.update_of_ne hu]

theorem owned_setClaim {claim : Bool} : (g.setClaim w claim).owned w =
    { g.owned w with claim := claim } ∧ ∀ u, u ≠ w → (g.setClaim w claim).owned u = g.owned u := by
  refine ⟨?_, fun u hu => ?_⟩
  · simp only [Ghost.owned, Ghost.setClaim, Function.update_self]
  · simp only [Ghost.owned, Ghost.setClaim, Function.update_of_ne hu]

theorem owned_setEnding {ending : Bool} : (g.setEnding w ending).owned w =
    { g.owned w with ending := ending } ∧
      ∀ u, u ≠ w → (g.setEnding w ending).owned u = g.owned u := by
  refine ⟨?_, fun u hu => ?_⟩
  · simp only [Ghost.owned, Ghost.setEnding, Function.update_self]
  · simp only [Ghost.owned, Ghost.setEnding, Function.update_of_ne hu]

end Ghosts

section Advance

/-- What a step of worker `w` leaves of the facts of the others: parents stay, and no one touches a
slot whose worker has an empty deque. -/
structure Stable (s s' : LockState) (w : WorkerId) : Prop where
  spawnParent : ∀ c p, s.spawnParent c = some p → s'.spawnParent c = some p
  callParent : ∀ c p, s.callParent c = some p → s'.callParent c = some p
  numClosures : s.numClosures ≤ s'.numClosures
  lone : ∀ u, u ≠ w → s.deque u = [] → s'.deque u = [] ∧ s'.slot u = s.slot u

theorem Stable.frame (hspawn : s'.spawnParent = s.spawnParent) (hcall : s'.callParent = s.callParent)
    (hnum : s'.numClosures = s.numClosures) (hdeque : s'.deque = s.deque)
    (hslot : ∀ u, u ≠ w → s.deque u = [] → s'.slot u = s.slot u) : Stable s s' w where
  spawnParent c p hp := by rw [hspawn, hp]
  callParent c p hp := by rw [hcall, hp]
  numClosures := Nat.le_of_eq hnum.symm
  lone u hu hlone := ⟨(congrFun hdeque u).trans hlone, hslot u hu hlone⟩

theorem Instr.Fact.stable (h : i.Fact s u) (hs : Stable s s' w)
    (hlone : i.readsSlot = true → s.deque u = [] → s'.deque u = [] ∧ s'.slot u = s.slot u) :
    i.Fact s' u := by
  cases i with
  | lock cl => exact Nat.lt_of_lt_of_le h hs.numClosures
  | takeTables child parent => exact hs.spawnParent _ _ h
  | decrementJoin child parent => exact hs.spawnParent _ _ h
  | setCallParent t callParent => exact hs.callParent _ _ h
  | removeCallee t callParent => exact hs.callParent _ _ h
  | clearSlot =>
    obtain ⟨hdeque, hslot⟩ := hlone rfl h.1
    exact ⟨hdeque, hslot.trans h.2⟩
  | returnAgain t =>
    obtain ⟨hdeque, hslot⟩ := hlone rfl h.1
    exact ⟨hdeque, hslot.trans h.2⟩
  | _ => trivial

/-- A step of worker `w`, which may execute what it goes to. -/
theorem Owning.advance (ho : Owning s g) (hs : Stable s s' w) (hc : Consistent s' g')
    (hothers : ∀ u, u ≠ w → g'.owned u = g.owned u)
    (hcode : ∀ u, u ≠ w → s'.code u = s.code u ∧ s'.after u = s.after u)
    (hself : Typed w (s'.code w) (s'.after w) (g'.owned w))
    (hfacts : ∀ i ∈ s'.code w, i.Fact s' w) : Owning s' g' := by
  refine ⟨hc, fun u => ?_, fun u i hi => ?_⟩
  · by_cases hu : u = w
    · rw [hu]
      exact hself
    · rw [(hcode u hu).1, (hcode u hu).2, hothers u hu]
      exact ho.typed u
  · by_cases hu : u = w
    · rw [hu] at hi ⊢
      exact hfacts i hi
    · rw [(hcode u hu).1] at hi
      exact (ho.facts u i hi).stable hs fun _ => hs.lone u hu

theorem Owning.goto (ho : Owning s g) (hs : Stable s s' w) (hc : Consistent s' g')
    (hothers : ∀ u, u ≠ w → g'.owned u = g.owned u) (hcode : s'.code = s.code)
    (hafter : s'.after = s.after) (hself : Typed w code (s.after w) (g'.owned w))
    (hfacts : ∀ i ∈ code, i.Fact s' w) : Owning (s'.goto w code) g' := by
  have hnew : (s'.goto w code).code w = code := Function.update_self _ _ _
  refine ho.advance (w := w) ⟨hs.spawnParent, hs.callParent, hs.numClosures, hs.lone⟩ hc.goto
    hothers (fun u hu => ⟨?_, congrFun hafter u⟩) ?_ ?_
  · rw [← hcode]
    exact Function.update_of_ne hu _ _
  · rw [hnew, show (s'.goto w code).after w = s.after w from congrFun hafter w]
    exact hself
  · rw [hnew]
    exact hfacts

theorem Owning.goAfter (ho : Owning s g) {after : After} (hs : Stable s s' w)
    (hc : Consistent s' g') (hothers : ∀ u, u ≠ w → g'.owned u = g.owned u)
    (hcode : s'.code = s.code) (hafter : s'.after = s.after)
    (hself : Typed w code after (g'.owned w)) (hfacts : ∀ i ∈ code, i.Fact s' w) :
    Owning ((s'.goto w code).goAfter w after) g' := by
  have hnew : ((s'.goto w code).goAfter w after).code w = code := Function.update_self _ _ _
  refine ho.advance (w := w) ⟨hs.spawnParent, hs.callParent, hs.numClosures, hs.lone⟩
    hc.goto.goAfter hothers (fun u hu => ⟨?_, ?_⟩) ?_ ?_
  · rw [← hcode]
    exact Function.update_of_ne hu _ _
  · rw [← hafter]
    exact Function.update_of_ne hu _ _
  · rw [hnew, show ((s'.goto w code).goAfter w after).after w = after from
      Function.update_self _ _ _]
    exact hself
  · rw [hnew]
    exact hfacts

/-- A worker goes on with the rest of its code. -/
theorem Owning.next (ho : Owning s g) (hi : s.code w = i :: code) (hs : Stable s s' w)
    (hlone : ∀ j ∈ code, j.readsSlot = true → s.deque w = [] →
      s'.deque w = [] ∧ s'.slot w = s.slot w) (hc : Consistent s' g')
    (hothers : ∀ u, u ≠ w → g'.owned u = g.owned u) (hcode : s'.code = s.code)
    (hafter : s'.after = s.after) (hself : Typed w code (s.after w) (g'.owned w)) :
    Owning (s'.goto w code) g' := by
  refine ho.goto hs hc hothers hcode hafter hself fun j hj => ?_
  refine (ho.facts w j ?_).stable hs (hlone j hj)
  rw [hi]
  exact List.mem_cons_of_mem _ hj

/-- What the first statement of the code needs is owned. -/
theorem Owning.head (ho : Owning s g) (hi : s.code w = i :: code) :
    Typed w (i :: code) (s.after w) (g.owned w) ∧ i.Fact s w := by
  refine ⟨?_, ho.facts w i ?_⟩
  · rw [← hi]
    exact ho.typed w
  · rw [hi]
    exact List.mem_cons_self

theorem Owning.last (ho : Owning s g) (hcode : s.code w = []) :
    (s.after w).Owns (g.owned w) := by
  have htyped := ho.typed w
  rw [hcode] at htyped
  exact htyped

end Advance

section Locks

theorem Owning.lockSelf (ho : Owning s g) (hcode : s.code w = .lockSelf :: code)
    (hfree : s.busyOwner w = none) :
    ∃ g', Owning ((s.setBusyOwner w (some w)).goto w code) g' := by
  obtain ⟨hnone, -, hclaim, htyped⟩ := (ho.head hcode).1
  refine ⟨_, ho.next hcode (.frame rfl rfl rfl rfl fun _ _ _ => rfl) (fun _ _ _ h => ⟨h, rfl⟩)
    (ho.consistent.lockBusy hfree hnone hclaim (if g.home w then .atRest else .empty)
      fun hrest => ?_) owned_lockBusy.2 rfl rfl ?_⟩
  · cases hhome : g.home w with
    | true =>
      show AtRest s w (g.home w)
      exact hrest
    | false =>
      rw [hhome] at hrest
      exact ⟨hrest, fun h => absurd rfl h⟩
  · rw [owned_lockBusy.1]
    exact htyped

theorem Owning.unlockBusy (ho : Owning s g) (hcode : s.code w = .unlockBusy v :: code) :
    ∃ g', Owning ((s.setBusyOwner v none).goto w code) g' := by
  obtain ⟨hbusy, hsettled, -, htyped⟩ := (ho.head hcode).1
  refine ⟨_, ho.next hcode (.frame rfl rfl rfl rfl fun _ _ _ => rfl) (fun _ _ _ h => ⟨h, rfl⟩)
    (ho.consistent.unlockBusy hbusy hsettled) owned_unlockBusy.2 rfl rfl ?_⟩
  rw [owned_unlockBusy.1]
  exact htyped

theorem Owning.lock (ho : Owning s g) (hcode : s.code w = .lock cl :: code)
    (hfree : s.mutexOwner cl = none) :
    ∃ g', Owning ((s.setMutexOwner cl (some w)).goto w code) g' := by
  obtain ⟨⟨-, htyped⟩, hlt⟩ := ho.head hcode
  refine ⟨_, ho.next hcode (.frame rfl rfl rfl rfl fun _ _ _ => rfl) (fun _ _ _ h => ⟨h, rfl⟩)
    (ho.consistent.lock hfree hlt) owned_setLocks.2 rfl rfl ?_⟩
  rw [owned_setLocks.1]
  exact htyped

theorem Owning.unlock (ho : Owning s g) (hcode : s.code w = .unlock cl :: code) :
    ∃ g', Owning ((s.setMutexOwner cl none).goto w code) g' := by
  obtain ⟨hmem, hview, htyped⟩ := (ho.head hcode).1
  refine ⟨_, ho.next hcode (.frame rfl rfl rfl rfl fun _ _ _ => rfl) (fun _ _ _ h => ⟨h, rfl⟩)
    (ho.consistent.unlock hmem hview) owned_setLocks.2 rfl rfl ?_⟩
  rw [owned_setLocks.1]
  exact htyped

end Locks

section Slots

/-- A worker that changes a slot changes its own, or has claimed a frame of its victim. -/
theorem Owning.stable_slot (ho : Owning s g) (hbusy : g.busy w = some v)
    (hclaim : v ≠ w → g.claim w = true) (hspawn : s'.spawnParent = s.spawnParent)
    (hcall : s'.callParent = s.callParent) (hnum : s'.numClosures = s.numClosures)
    (hdeque : s'.deque = s.deque) (hslot : ∀ u, u ≠ v → s'.slot u = s.slot u) : Stable s s' w := by
  refine .frame hspawn hcall hnum hdeque fun u hu hlone => hslot u ?_
  rintro rfl
  exact (ho.consistent.claims u w hbusy (hclaim hu)).1 hlone

theorem Owning.xtract (ho : Owning s g) (hcode : s.code w = .xtract v :: code) :
    ∃ g', Owning ((s.xtract v).goto w code) g' := by
  obtain ⟨hbusy, hclaim, hreads, htyped⟩ := (ho.head hcode).1
  have hsees := ho.consistent.sees v w hbusy
  have hhome : v ≠ w → g.home v = true :=
    fun h => (ho.consistent.claims v w hbusy (hclaim h)).2.2
  have hstep : ∀ cl st hand, s.slot v = some cl →
      (hand = some ⟨cl, st, true⟩ ∧ s.status cl = st ∧ st ≠ .suspended ∨ hand = g.hand w) →
      Typed w code (s.after w) { g.owned w with view := .empty, hand := hand } →
      ∃ g', Owning ((s.xtract v).goto w code) g' := by
    intro cl st hand hslot hhand hrest
    refine ⟨_, ho.next hcode ?_ (fun j hj hr => ?_)
      (ho.consistent.xtract hbusy hslot hhome hhand) owned_setView.2 ?_ ?_ ?_⟩
    · refine ho.stable_slot hbusy hclaim ?_ ?_ ?_ ?_ fun u hu => ?_ <;> rw [xtract_eq hslot]
      exact Function.update_of_ne hu _ _
    · rw [hreads j hj] at hr
      cases hr
    · rw [xtract_eq hslot]
    · rw [xtract_eq hslot]
    · rw [owned_setView.1]
      exact hrest
  have hview : (g.owned w).view = g.view w := rfl
  rw [hview] at htyped
  cases hv : g.view w with
  | running cl =>
    rw [hv] at hsees htyped
    exact hstep cl .running _ hsees.1 (.inl ⟨rfl, hsees.2.1, fun h => by cases h⟩) htyped.2
  | returning cl =>
    rw [hv] at hsees htyped
    exact hstep cl .returning _ hsees.1 (.inl ⟨rfl, hsees.2.1, fun h => by cases h⟩) htyped.2
  | parked cl =>
    rw [hv] at hsees htyped
    exact hstep cl .suspended _ hsees.1 (.inr rfl) htyped
  | atRest =>
    rw [hv] at htyped
    exact htyped.elim
  | empty =>
    rw [hv] at htyped
    exact htyped.elim
  | callParent cl =>
    rw [hv] at htyped
    exact htyped.elim

theorem Owning.set (ho : Owning s g) (hcode : s.code w = .set v cl :: code) :
    ∃ g', Owning ((s.set v cl).goto w code) g' := by
  obtain ⟨hbusy, rfl, -, hhand, hreads, htyped⟩ := (ho.head hcode).1
  refine ⟨_, ho.next hcode (ho.stable_slot hbusy (fun h => absurd rfl h) rfl rfl rfl rfl
    fun u hu => Function.update_of_ne hu _ _) (fun j hj hr => ?_)
    (ho.consistent.setHand hbusy hhand) owned_setView.2 rfl rfl ?_⟩
  · rw [hreads j hj] at hr
    cases hr
  · rw [owned_setView.1]
    exact htyped

theorem Owning.setStatus (ho : Owning s g) {st : ClosureStatus}
    (hcode : s.code w = .setStatus cl st :: code) :
    ∃ g', Owning ((s.setStatus cl st).goto w code) g' := by
  obtain ⟨hns, ⟨old, hhand⟩, htyped⟩ := (ho.head hcode).1
  refine ⟨_, ho.next hcode (.frame rfl rfl rfl rfl fun _ _ _ => rfl) (fun _ _ _ h => ⟨h, rfl⟩)
    (ho.consistent.setStatus hhand hns) owned_setView.2 rfl rfl ?_⟩
  rw [owned_setView.1]
  exact htyped

theorem Owning.destroy (ho : Owning s g) (hcode : s.code w = .destroy cl :: code) :
    ∃ g', Owning ((s.setStatus cl .postInvalid).goto w code) g' := by
  obtain ⟨old, live, hhand, hbusy, htyped⟩ := (ho.head hcode).1
  cases live with
  | true =>
    refine ⟨_, ho.next hcode (.frame rfl rfl rfl rfl fun _ _ _ => rfl) (fun _ _ _ h => ⟨h, rfl⟩)
      (ho.consistent.setStatus hhand fun h => by cases h) owned_setView.2 rfl rfl ?_⟩
    rw [owned_setView.1]
    exact htyped
  | false =>
    refine ⟨_, ho.next hcode (.frame rfl rfl rfl rfl fun _ _ _ => rfl) (fun _ _ _ h => ⟨h, rfl⟩)
      (ho.consistent.drop (hbusy rfl) hhand fun h => by cases h) owned_setView.2 rfl rfl ?_⟩
    rw [owned_setView.1]
    exact htyped

theorem Owning.setupForExecution (ho : Owning s g)
    (hcode : s.code w = .setupForExecution cl :: code) :
    ∃ g', Owning ((s.setupForExecution w cl).goto w code) g' := by
  obtain ⟨hhome, ⟨old, hhand⟩, htyped⟩ := (ho.head hcode).1
  have hrun : Consistent (s.setStatus cl .running) _ :=
    ho.consistent.setStatus hhand fun h => by cases h
  have hdeque : Consistent (s.setupForExecution w cl) _ := hrun.setDeque w [] fun u hu hclaim => by
    have hfull := (ho.consistent.claims w u hu hclaim).2.2
    rw [show g.home w = false from hhome] at hfull
    cases hfull
  refine ⟨_, ho.next hcode ⟨fun _ _ h => h, fun _ _ h => h, Nat.le_refl _, fun u hu h => ?_⟩
    (fun _ _ _ _ => ⟨Function.update_self _ _ _, rfl⟩) hdeque owned_setView.2 rfl rfl ?_⟩
  · exact ⟨(Function.update_of_ne hu _ _).trans h, rfl⟩
  · rw [owned_setView.1]
    exact htyped

end Slots

section Routines

theorem Owning.suspend (ho : Owning s g) (hcode : s.code w = .suspend t :: code) :
    ∃ g', Owning ((s.setStatus t .suspended).goto w code) g' := by
  obtain ⟨hbusy, hview, hlock, htyped⟩ := (ho.head hcode).1
  refine ⟨_, ho.next hcode (.frame rfl rfl rfl rfl fun _ _ _ => rfl) (fun _ _ _ h => ⟨h, rfl⟩)
    (ho.consistent.suspend hbusy hview hlock) owned_setView.2 rfl rfl ?_⟩
  rw [owned_setView.1]
  exact htyped

theorem Owning.setReturning (ho : Owning s g) (hcode : s.code w = .setReturning t :: code) :
    ∃ g', Owning ((s.setStatus t .returning).goto w code) g' := by
  obtain ⟨hbusy, hview, htyped⟩ := (ho.head hcode).1
  have hsees := ho.consistent.sees w w hbusy
  rw [show g.view w = .running t from hview] at hsees
  refine ⟨_, ho.next hcode (.frame rfl rfl rfl rfl fun _ _ _ => rfl) (fun _ _ _ h => ⟨h, rfl⟩)
    (ho.consistent.setReturning hbusy hsees.1 hsees.2.1) owned_setView.2 rfl rfl ?_⟩
  rw [owned_setView.1]
  exact htyped

/-- The slot of a worker that has entered the runtime from user code. -/
theorem Owning.own_slot (ho : Owning s g) (hbusy : g.busy w = some w) (hview : g.view w = .atRest)
    (hhome : g.home w = true) (hslot : s.slot w = some cl) : s.status cl = .running := by
  have hsees := ho.consistent.sees w w hbusy
  rw [hview] at hsees
  have hrest : AtRest s w (g.home w) := hsees
  rw [hhome] at hrest
  obtain ⟨c, hc, hrun⟩ := hrest
  rw [hslot] at hc
  cases hc
  exact hrun

theorem Owning.returnAgain (ho : Owning s g) (hcode : s.code w = .returnAgain t :: code) :
    ∃ g', Owning ((s.setStatus t .returning).goto w code) g' := by
  obtain ⟨⟨hbusy, hview, hhome, htyped⟩, -, hslot⟩ := ho.head hcode
  refine ⟨_, ho.next hcode (.frame rfl rfl rfl rfl fun _ _ _ => rfl) (fun _ _ _ h => ⟨h, rfl⟩)
    (ho.consistent.setReturning hbusy hslot (ho.own_slot hbusy hview hhome hslot))
    owned_setView.2 rfl rfl ?_⟩
  rw [owned_setView.1]
  exact htyped

theorem Owning.setCallParent (ho : Owning s g) (hcode : s.code w = .setCallParent t parent :: code) :
    ∃ g', Owning (({ s.set w parent with frame := update s.frame t none } : LockState).goto w
      code) g' := by
  obtain ⟨⟨hbusy, hview, hhand, hreads, htyped⟩, hparent⟩ := ho.head hcode
  have hset := ho.consistent.setCallParent hbusy hview hhand hparent
  refine ⟨_, ho.next hcode (ho.stable_slot hbusy (fun h => absurd rfl h) rfl rfl rfl rfl
    fun u hu => Function.update_of_ne hu _ _) (fun j hj hr => ?_) { hset with busy := hset.busy }
    owned_setView.2 rfl rfl ?_⟩
  · rw [hreads j hj] at hr
    cases hr
  · rw [owned_setView.1]
    exact htyped

theorem Owning.removeCallee (ho : Owning s g) (hcode : s.code w = .removeCallee t parent :: code) :
    ∃ g', Owning ((s.removeCallee parent).goto w code) g' := by
  obtain ⟨⟨hbusy, hview, hhand, htyped⟩, hparent⟩ := ho.head hcode
  refine ⟨_, ho.next hcode (.frame rfl rfl rfl rfl fun _ _ _ => rfl) (fun _ _ _ h => ⟨h, rfl⟩)
    (ho.consistent.removeCallee hbusy hview hhand hparent) owned_setView.2 rfl rfl ?_⟩
  rw [owned_setView.1]
  exact htyped

theorem Owning.decrementJoin (ho : Owning s g)
    (hcode : s.code w = .decrementJoin child parent :: code) :
    ∃ g', Owning ((s.setJoin parent (s.joinCounter parent - 1)).goto w code) g' := by
  obtain ⟨⟨hbusy, hhand, htyped⟩, hparent⟩ := ho.head hcode
  refine ⟨_, ho.next hcode (.frame rfl rfl rfl rfl fun _ _ _ => rfl) (fun _ _ _ h => ⟨h, rfl⟩)
    (ho.consistent.decrementJoin hbusy hhand (.inl hparent)) owned_setView.2 rfl rfl ?_⟩
  rw [owned_setView.1]
  exact htyped

end Routines

section Thieves

/-- The owned things of worker `w` as a record. -/
theorem owned_eq {o : Owned} (h : g.owned w = o) : g.busy w = o.busy ∧ g.view w = o.view ∧
    g.locks w = o.locks ∧ g.hand w = o.hand ∧ g.home w = o.home ∧ g.claim w = o.claim := by
  rw [← h]
  exact ⟨rfl, rfl, rfl, rfl, rfl, rfl⟩

/-- The owner of a slot looks at it. -/
theorem Consistent.look (hi : Consistent s g) (view : View)
    (hsees : ∀ v, g.busy w = some v → Sees s g w v view) :
    Consistent s (g.setView w view (g.hand w)) := by
  have hhand : update g.hand w (g.hand w) = g.hand := Function.update_eq_self _ _
  refine { hi with free := hi.free, sees := fun v' u hu => ?_, hand := fun u k hk => ?_,
                   handUnique := fun u u' k k' hk hk' => ?_, live := fun c p hp halive => ?_,
                   handLt := fun u k hk => ?_, idle := fun h => ?_ }
  · by_cases huw : u = w
    · rw [huw] at hu ⊢
      rw [setView_self.1]
      exact (hsees v' hu).frame rfl (fun _ _ => rfl) rfl rfl setView_self.2 rfl rfl
    · rw [(setView_of_ne huw).1]
      exact (hi.sees v' u hu).frame rfl (fun _ _ => rfl) rfl rfl (setView_of_ne huw).2 rfl rfl
  · exact hi.hand u k ((congrFun hhand u).symm.trans hk)
  · exact hi.handUnique u u' k k' ((congrFun hhand u).symm.trans hk)
      ((congrFun hhand u').symm.trans hk')
  · refine hi.live c p hp ?_
    rw [← hhand]
    exact halive
  · exact hi.handLt u k ((congrFun hhand u).symm.trans hk)
  · obtain ⟨hslots, hhands, hns⟩ := hi.idle h
    exact ⟨hslots, fun u k hk => hhands u k ((congrFun hhand u).symm.trans hk), hns⟩

/-- A closure in a slot at rest is running. -/
theorem AtRest.running {home : Bool} (h : AtRest s v home) (hslot : s.slot v = some cl) :
    home = true ∧ s.status cl = .running := by
  cases home with
  | true =>
    obtain ⟨c, hc, hrun⟩ := h
    rw [hslot] at hc
    cases hc
    exact ⟨rfl, hrun⟩
  | false =>
    have hnone : s.slot v = none := h
    rw [hslot] at hnone
    cases hnone

theorem Owning.steal (ho : Owning s g) (hcode : s.code w = []) (hafter : s.after w = .scheduling)
    (hne : victim ≠ w) : ∃ g', Owning (s.goto w [.trylockBusy victim]) g' := by
  have hidle := ho.last hcode
  rw [hafter] at hidle
  refine ⟨g, ho.goto (.frame rfl rfl rfl rfl fun _ _ _ => rfl) ho.consistent (fun _ _ => rfl) rfl rfl
    ⟨rfl, hafter, hne, hidle⟩ fun i hi => ?_⟩
  rw [List.mem_singleton.mp hi]
  trivial

theorem Owning.trylockBusy (ho : Owning s g) (hcode : s.code w = .trylockBusy victim :: code)
    (hfree : s.busyOwner victim = none) :
    ∃ g', Owning ((s.setBusyOwner victim (some w)).goto w [.peekVictim victim]) g' := by
  obtain ⟨-, hafter, hne, hidle⟩ := (ho.head hcode).1
  obtain ⟨hnone, -, -, -, -, hclaim⟩ := owned_eq hidle
  refine ⟨_, ho.goto (.frame rfl rfl rfl rfl fun _ _ _ => rfl)
    (ho.consistent.lockBusy hfree hnone hclaim .atRest fun hrest => hrest)
    owned_lockBusy.2 rfl rfl ⟨rfl, hafter, hne, ?_⟩ fun i hi => ?_⟩
  · rw [owned_lockBusy.1, hidle]
    rfl
  · rw [List.mem_singleton.mp hi]
    trivial

theorem Owning.trylockBusyFails (ho : Owning s g)
    (hcode : s.code w = .trylockBusy victim :: code) : ∃ g', Owning (s.goto w []) g' := by
  obtain ⟨-, hafter, -, hidle⟩ := (ho.head hcode).1
  refine ⟨g, ho.goto (.frame rfl rfl rfl rfl fun _ _ _ => rfl) ho.consistent (fun _ _ => rfl) rfl rfl
    ?_ fun i hi => absurd hi List.not_mem_nil⟩
  rw [hafter]
  exact hidle

theorem Owning.peekVictim (ho : Owning s g) (hcode : s.code w = .peekVictim victim :: code)
    (hslot : s.slot victim = some cl) :
    ∃ g', Owning (s.goto w [.trylockClosure victim cl]) g' := by
  obtain ⟨-, hafter, hne, hthief⟩ := (ho.head hcode).1
  obtain ⟨hbusy, hview, -, hhand, -, -⟩ := owned_eq hthief
  have hrest := ho.consistent.sees victim w hbusy
  rw [hview] at hrest
  obtain ⟨hhome, hrun⟩ := AtRest.running hrest hslot
  refine ⟨_, ho.goto (.frame rfl rfl rfl rfl fun _ _ _ => rfl)
    (ho.consistent.look (.running cl) fun v' hv' => ?_) owned_setView.2 rfl rfl
    ⟨rfl, hafter, hne, ?_⟩ fun i hi => ?_⟩
  · rw [hbusy] at hv'
    cases hv'
    exact ⟨hslot, hrun, fun _ => hhome⟩
  · rw [owned_setView.1, hthief, hhand]
    rfl
  · rw [List.mem_singleton.mp hi]
    trivial

theorem Owning.peekNothing (ho : Owning s g) (hcode : s.code w = .peekVictim victim :: code) :
    ∃ g', Owning (s.goto w [.unlockBusy victim]) g' := by
  obtain ⟨-, hafter, hne, hthief⟩ := (ho.head hcode).1
  refine ⟨g, ho.goto (.frame rfl rfl rfl rfl fun _ _ _ => rfl) ho.consistent (fun _ _ => rfl) rfl rfl
    ?_ fun i hi => ?_⟩
  · rw [hthief, hafter]
    simp [Typed, Owned.thief, View.settled, After.Owns, Owned.idle, hne]
  · rw [List.mem_singleton.mp hi]
    trivial

/-- A thief with a closure that it has peeked knows that the closure is running. -/
theorem Owning.thief_sees (ho : Owning s g) {locks : List ClosureId} {hand : Option Held}
    {claim : Bool} (hthief : g.owned w = .thief victim (.running cl) locks hand claim) :
    g.busy w = some victim ∧ s.slot victim = some cl ∧ s.status cl = .running ∧
      (victim ≠ w → g.home victim = true) := by
  obtain ⟨hbusy, hview, -, -, -, -⟩ := owned_eq hthief
  have hsees := ho.consistent.sees victim w hbusy
  rw [hview] at hsees
  exact ⟨hbusy, hsees⟩

theorem Owning.trylockClosure (ho : Owning s g)
    (hcode : s.code w = .trylockClosure victim cl :: code) (hfree : s.mutexOwner cl = none) :
    ∃ g', Owning ((s.setMutexOwner cl (some w)).goto w [.switchStatus victim cl]) g' := by
  obtain ⟨-, hafter, hne, hthief⟩ := (ho.head hcode).1
  obtain ⟨-, hslot, -, -⟩ := ho.thief_sees hthief
  refine ⟨_, ho.goto (.frame rfl rfl rfl rfl fun _ _ _ => rfl)
    (ho.consistent.lock hfree (ho.consistent.slotLt victim cl hslot)) owned_setLocks.2 rfl rfl
    ⟨rfl, hafter, hne, ?_⟩ fun i hi => ?_⟩
  · rw [owned_setLocks.1, hthief, (owned_eq hthief).2.2.1]
    rfl
  · rw [List.mem_singleton.mp hi]
    trivial

theorem Owning.trylockClosureFails (ho : Owning s g)
    (hcode : s.code w = .trylockClosure victim cl :: code) :
    ∃ g', Owning (s.goto w [.unlockBusy victim]) g' := by
  obtain ⟨-, hafter, hne, hthief⟩ := (ho.head hcode).1
  refine ⟨g, ho.goto (.frame rfl rfl rfl rfl fun _ _ _ => rfl) ho.consistent (fun _ _ => rfl) rfl rfl
    ?_ fun i hi => ?_⟩
  · rw [hthief, hafter]
    simp [Typed, Owned.thief, View.settled, After.Owns, Owned.idle, hne]
  · rw [List.mem_singleton.mp hi]
    trivial

theorem Owning.giveUp (ho : Owning s g) (hcode : s.code w = .switchStatus victim cl :: code) :
    ∃ g', Owning (s.goto w (giveUp victim cl)) g' := by
  obtain ⟨-, hafter, hne, hthief⟩ := (ho.head hcode).1
  refine ⟨g, ho.goto (.frame rfl rfl rfl rfl fun _ _ _ => rfl) ho.consistent (fun _ _ => rfl) rfl rfl
    ?_ fun i hi => ?_⟩
  · rw [hthief, hafter]
    exact typed_giveUp hne
  · rcases List.mem_pair.mp hi with rfl | rfl <;> trivial

/-- The closure in the slot is running, so the switch has no other case. -/
theorem Owning.switchStatus (ho : Owning s g)
    (hcode : s.code w = .switchStatus victim cl :: code) : s.status cl = .running :=
  (ho.thief_sees (ho.head hcode).1.2.2.2).2.2.1

/-- The thief has passed Dekker's protocol. -/
theorem Owning.claim (ho : Owning s g) (hcode : s.code w = .switchStatus victim cl :: code)
    (hdeque : s.deque victim ≠ []) {code' : List Instr}
    (htyped : victim ≠ w → Typed w code' .scheduling (.thief victim (.running cl) [cl] none true))
    (hfacts : ∀ i ∈ code', ∀ r, i.Fact r w) :
    ∃ g', Owning ((s.setClaimed victim true).goto w code') g' := by
  obtain ⟨-, hafter, hne, hthief⟩ := (ho.head hcode).1
  obtain ⟨hbusy, -, -, hhome⟩ := ho.thief_sees hthief
  refine ⟨_, ho.goto (.frame rfl rfl rfl rfl fun _ _ _ => rfl)
    (ho.consistent.claim hbusy hdeque (hhome hne)) owned_setClaim.2 rfl rfl ?_
    fun i hi => hfacts i hi _⟩
  rw [hafter, owned_setClaim.1, hthief]
  exact htyped hne

theorem Owning.addCallee (ho : Owning s g) {frame : FrameId}
    (hcode : s.code w = .addCallee victim cl frame :: code) :
    ∃ g', Owning ((s.addCallee cl frame).goto w [.xtract victim, .unlock cl, .lock s.numClosures,
      .promoteChild victim s.numClosures]) g' := by
  obtain ⟨-, hafter, hne, hthief⟩ := (ho.head hcode).1
  obtain ⟨hbusy, hview, hlocks, hhand, -, -⟩ := owned_eq hthief
  have hlock : cl ∈ g.locks w := by
    rw [hlocks]
    exact List.mem_singleton_self cl
  have hparents : ∀ c p, ChildOf s c p → c ≠ s.numClosures :=
    fun c p hp => Nat.ne_of_lt (ho.consistent.parentLt c p hp).2
  refine ⟨_, ho.goto ⟨fun c p hp => ?_, fun c p hp => ?_, Nat.le_succ _, fun _ _ h => ⟨h, rfl⟩⟩
    (ho.consistent.addCallee hbusy hview hlock hhand frame) owned_setView.2 rfl rfl ?_
    fun i hi => ?_⟩
  · exact (Function.update_of_ne (hparents c p (.inl hp)) _ _).trans hp
  · exact (Function.update_of_ne (hparents c p (.inr hp)) _ _).trans hp
  · rw [hafter, owned_setView.1, hthief]
    exact typed_addCallee hne
  · simp only [List.mem_cons, List.not_mem_nil, or_false] at hi
    rcases hi with rfl | rfl | rfl | rfl
    · trivial
    · trivial
    · exact Nat.lt_succ_self _
    · trivial

theorem Owning.promoteChild (ho : Owning s g) {res : ClosureId}
    (hcode : s.code w = .promoteChild victim res :: code) :
    ∃ g', Owning (((s.promoteChild victim res).goto w (finishPromote victim res)).goAfter w
      (.doWhatItSays res)) g' := by
  obtain ⟨-, -, hne, hthief⟩ := (ho.head hcode).1
  obtain ⟨hbusy, hview, -, hhand, -, hclaim⟩ := owned_eq hthief
  have hres : g.hand w = some ⟨res, .running, true⟩ := hhand
  have hparents : ∀ c p, ChildOf s c p → c ≠ s.numClosures :=
    fun c p hp => Nat.ne_of_lt (ho.consistent.parentLt c p hp).2
  have hlone : ∀ u, s.deque u = [] → u ≠ victim := by
    rintro u hu rfl
    exact (ho.consistent.claims u w hbusy hclaim).1 hu
  have hstable : Stable s (s.promoteChild victim res) w :=
    { spawnParent := fun c p hp => (Function.update_of_ne (hparents c p (.inl hp)) _ _).trans hp
      callParent := fun c p hp => (Function.update_of_ne (hparents c p (.inr hp)) _ _).trans hp
      numClosures := Nat.le_succ _
      lone := fun u _ h => ⟨(Function.update_of_ne (hlone u h) _ _).trans h,
        Function.update_of_ne (hlone u h) _ _⟩ }
  have hpromote := ho.consistent.promoteChild hbusy hview hne hres
  refine ⟨_, ho.goAfter hstable hpromote (fun u hu => ?_) rfl rfl ?_ fun i hi => ?_⟩
  · exact (owned_setView.2 u hu).trans (owned_setClaim.2 u hu)
  · rw [owned_setView.1, owned_setClaim.1, hthief, hres]
    exact typed_finishPromote hne
  · simp only [finishPromote, List.mem_cons, List.not_mem_nil, or_false] at hi
    rcases hi with rfl | rfl | rfl | rfl <;> trivial

end Thieves

end Cheetah
