import Cheetah.OwnershipSteps

/-! One rule for each statement that moves a closure, changes its status or changes a join counter. -/
namespace Cheetah
open Function (update)

variable {s : LockState} {g : Ghost} {w v : WorkerId} {cl t parent : ClosureId}
  {st old : ClosureStatus}

section Hands

/-- A closure in a slot is in no one's hands. -/
theorem Consistent.hand_ne (hi : Consistent s g) (hslot : s.slot v = some cl) {u : WorkerId}
    {k : Held} (hk : g.hand u = some k) : k.closure ≠ cl := by
  rintro rfl
  exact (hi.hand u k hk).2.2 v hslot

/-- A closure is in the hands of one worker. -/
theorem Consistent.hand_others (hi : Consistent s g) {h : Held} (hhand : g.hand w = some h)
    {u : WorkerId} {k : Held} (hu : u ≠ w) (hk : g.hand u = some k) : k.closure ≠ h.closure :=
  fun heq => hu (hi.handUnique u w k h hk hhand heq)

/-- The closure that a worker holds stays where it is. -/
theorem Consistent.hand_kept (hi : Consistent s g) {slot : WorkerId → Option ClosureId}
    {status : ClosureId → ClosureStatus} {k : Held} (hk : g.hand w = some k)
    (hslot : ∀ v, slot v = some k.closure → s.slot v = some k.closure)
    (hstatus : status k.closure = s.status k.closure) :
    status k.closure = k.status ∧ k.status ≠ .suspended ∧ (∀ v, slot v ≠ some k.closure) ∧
      (k.closure = cl ∨ ∃ old, g.hand w = some old ∧ old.closure = k.closure ∧
        (k.live = true → old.live = true)) := by
  obtain ⟨hs, hns, hslots⟩ := hi.hand w k hk
  exact ⟨hstatus.trans hs, hns, fun v hv => hslots v (hslot v hv), .inr ⟨k, hk, rfl, id⟩⟩

/-- `BusyClosure::xtract`. The worker keeps the closure in its hands, unless it was suspended. -/
theorem Consistent.xtract (hi : Consistent s g) (hbusy : g.busy w = some v)
    (hslot : s.slot v = some cl) (hhome : v ≠ w → g.home v = true) {hand : Option Held}
    (hhand : hand = some ⟨cl, st, true⟩ ∧ s.status cl = st ∧ st ≠ .suspended ∨
      hand = g.hand w) : Consistent (s.xtract v) (g.setView w .empty hand) := by
  have hslots : ∀ v' c, update s.slot v none v' = some c → v' ≠ v ∧ s.slot v' = some c := by
    intro v' c hc
    by_cases hv : v' = v
    · rw [hv, Function.update_self] at hc
      cases hc
    · rw [Function.update_of_ne hv] at hc
      exact ⟨hv, hc⟩
  rw [xtract_eq hslot]
  refine hi.change (hi.slotLt v cl hslot) (fun v' hne => ⟨?_, fun _ _ => rfl⟩) (fun _ _ => rfl)
    (fun v' c hc _ => (hslots v' c hc).2) (fun v' c hc => ?_) (fun v' hv' => ?_)
    (fun u k _ hk => hi.hand_ne hslot hk) (fun k hk => ?_) (fun _ h => h) (fun _ _ h => h)
    (fun p hp _ => hi.live cl p hp (.inl ⟨v, hslot⟩)) (fun d hd hp => hi.callee d cl hd hp) hi.join
    (fun _ hroot hcl => hroot.1 v (hcl ▸ hslot))
  · rw [hbusy] at hne
    exact Function.update_of_ne (fun h => hne (congrArg some h.symm)) _ _
  · obtain ⟨hv, hold⟩ := hslots v' c hc
    have hcl : c ≠ cl := by
      rintro rfl
      exact hv (hi.slot_unique hold hslot)
    exact (Function.update_of_ne hcl _ _).trans (hi.owner v' c hold)
  · rw [hbusy] at hv'
    cases hv'
    exact ⟨Function.update_self _ _ _, hhome⟩
  · rcases hhand with ⟨hsome, hstatus, hns⟩ | hsame
    · rw [hsome] at hk
      cases hk
      refine ⟨hstatus, hns, fun v' hc => ?_, .inl rfl⟩
      obtain ⟨hv, hold⟩ := hslots v' cl hc
      exact hv (hi.slot_unique hold hslot)
    · exact hi.hand_kept (hsame ▸ hk) (fun v' hc => (hslots v' _ hc).2) rfl

/-- Another closure goes to the worker's empty slot. -/
theorem set_slots (hempty : ∀ v, s.slot v ≠ some cl) :
    (∀ v' c, update s.slot v (some cl) v' = some c → c ≠ cl → s.slot v' = some c) ∧
      ((∀ v' c, s.slot v' = some c → s.owner c = some v') →
        ∀ v' c, update s.slot v (some cl) v' = some c →
          update s.owner cl (some v) c = some v') := by
  have hslots : ∀ v' c, update s.slot v (some cl) v' = some c → c ≠ cl → s.slot v' = some c := by
    intro v' c hc hne
    by_cases hv : v' = v
    · rw [hv, Function.update_self] at hc
      exact absurd (Option.some.inj hc).symm hne
    · exact (Function.update_of_ne hv _ _).symm.trans hc
  refine ⟨hslots, fun howner v' c hc => ?_⟩
  by_cases hcl : c = cl
  · rw [hcl] at hc ⊢
    rw [Function.update_self]
    by_cases hv : v' = v
    · rw [hv]
    · exact absurd ((Function.update_of_ne hv _ _).symm.trans hc) (hempty v')
  · exact (Function.update_of_ne hcl _ _).trans (howner v' c (hslots v' c hc hcl))

/-- `BusyClosure::set` with a running closure that no one else has. -/
theorem Consistent.set (hi : Consistent s g) (hbusy : g.busy w = some v) (hlt : cl < s.numClosures)
    (hrun : s.status cl = .running) (hempty : ∀ v, s.slot v ≠ some cl)
    (hothers : ∀ u k, u ≠ w → g.hand u = some k → k.closure ≠ cl)
    (hhome : v ≠ w → g.home v = true) (hlive : ∀ p, ChildOf s cl p → g.counted cl = true)
    (hroot : RootIdle s g → cl ≠ rootClosure) {hand : Option Held}
    (hhand : ∀ k, hand = some k → g.hand w = some k ∧ k.closure ≠ cl) :
    Consistent (s.set v cl) (g.setView w (.running cl) hand) := by
  have hslots := set_slots (v := v) hempty
  refine hi.change hlt (fun v' hne => ⟨?_, fun _ _ => rfl⟩) (fun _ _ => rfl)
    hslots.1 (hslots.2 hi.owner) (fun v' hv' => ?_) hothers
    (fun k hk => hi.hand_kept (hhand k hk).1 (fun v' hc => hslots.1 v' _ hc (hhand k hk).2) rfl)
    (fun _ h => h) (fun _ _ h => h) (fun p hp _ => hlive p hp)
    (fun c hc hp => hi.callee c cl hc hp) hi.join (fun _ => hroot)
  · rw [hbusy] at hne
    exact Function.update_of_ne (fun h => hne (congrArg some h.symm)) _ _
  · rw [hbusy] at hv'
    cases hv'
    exact ⟨Function.update_self _ _ _, hrun, hhome⟩

/-- The closure in the worker's hands goes to its slot. -/
theorem Consistent.setHand (hi : Consistent s g) (hbusy : g.busy w = some w)
    (hhand : g.hand w = some ⟨cl, .running, true⟩) :
    Consistent (s.set w cl) (g.setView w (.running cl) none) := by
  obtain ⟨hrun, -, hempty⟩ := hi.hand w _ hhand
  exact hi.set hbusy (hi.handLt w _ hhand) hrun hempty
    (fun u k hu hk => hi.hand_others hhand hu hk) (fun h => absurd rfl h)
    (fun p hp => hi.live cl p hp (.inr (.inl ⟨w, _, hhand⟩)))
    (fun hroot => hroot.2.1 w _ hhand) (fun k hk => by cases hk)

/-- The status of the closure in the worker's hands changes. -/
theorem Consistent.setStatus (hi : Consistent s g) (hhand : g.hand w = some ⟨cl, old, true⟩)
    (hns : st ≠ .suspended) :
    Consistent (s.setStatus cl st) (g.setView w (g.view w) (some ⟨cl, st, true⟩)) := by
  obtain ⟨-, -, hempty⟩ := hi.hand w _ hhand
  have hkept : ∀ c, c ≠ cl → update s.status cl st c = s.status c :=
    fun c hc => Function.update_of_ne hc _ _
  have hslots : ∀ v c, s.slot v = some c → c ≠ cl := by
    rintro v c hc rfl
    exact hempty v hc
  refine hi.change (hi.handLt w _ hhand)
    (fun v' _ => ⟨rfl, fun c hc => hkept c (hslots v' c hc)⟩) hkept (fun _ _ h _ => h) hi.owner
    (fun v' hv' => ?_) (fun u k hu hk => hi.hand_others hhand hu hk) (fun k hk => ?_)
    (fun _ h => h) (fun _ _ h => h) (fun p hp _ => hi.live cl p hp (.inr (.inl ⟨w, _, hhand⟩)))
    (fun d hd hp => ?_) hi.join (fun _ hroot => hroot.2.1 w _ hhand)
  · refine (hi.sees v' w hv').congr rfl (fun c hc => hkept c (hslots v' c hc)) rfl
      (fun _ _ h => h) (fun h hh => ?_) (fun _ _ _ hd hp => ⟨hd, hp⟩) (fun _ _ => rfl)
    rw [hhand] at hh
    cases hh
    exact ⟨_, Function.update_self _ _ _, rfl, id⟩
  · cases hk
    exact ⟨Function.update_self _ _ _, hns, hempty, .inl rfl⟩
  · have hsus := hi.callee d cl hd hp
    rw [(hi.hand w _ hhand).1] at hsus
    exact absurd hsus (hi.hand w _ hhand).2.1

/-- The closure in the worker's hands, which no parent counts, is destroyed. -/
theorem Consistent.drop (hi : Consistent s g) (hbusy : g.busy w = none)
    (hhand : g.hand w = some ⟨cl, old, false⟩) (hns : st ≠ .suspended) :
    Consistent (s.setStatus cl st) (g.setView w (g.view w) none) := by
  obtain ⟨hstatus, hold, hempty⟩ := hi.hand w _ hhand
  have hkept : ∀ c, c ≠ cl → update s.status cl st c = s.status c :=
    fun c hc => Function.update_of_ne hc _ _
  have hslots : ∀ v c, s.slot v = some c → c ≠ cl := by
    rintro v c hc rfl
    exact hempty v hc
  refine hi.change (hi.handLt w _ hhand)
    (fun v' _ => ⟨rfl, fun c hc => hkept c (hslots v' c hc)⟩) hkept (fun _ _ h _ => h) hi.owner
    (fun v' hv' => ?_) (fun u k hu hk => hi.hand_others hhand hu hk) (fun k hk => by cases hk)
    (fun _ h => h) (fun _ _ h => h) (fun p _ halive => ?_) (fun d hd hp => ?_) hi.join
    (fun _ hroot => hroot.2.1 w _ hhand)
  · rw [hbusy] at hv'
    cases hv'
  · rcases halive with ⟨v', hv'⟩ | ⟨u, st', hu⟩ | hsus
    · exact absurd hv' (hempty v')
    · by_cases huw : u = w
      · rw [huw, Function.update_self] at hu
        cases hu
      · rw [Function.update_of_ne huw] at hu
        exact (hi.hand_others hhand huw hu rfl).elim
    · rw [Function.update_self] at hsus
      exact absurd hsus hns
  · have hsus := hi.callee d cl hd hp
    rw [hstatus] at hsus
    exact absurd hsus hold

/-- A suspended closure in a slot was parked there, or its callee is returning to it. -/
theorem Consistent.suspended_slot (hi : Consistent s g) (hslot : s.slot v = some cl)
    (hsus : s.status cl = .suspended) :
    ∃ u, g.busy u = some v ∧ (g.view u = .parked cl ∨ g.view u = .callParent cl) := by
  rcases hi.slot_cases hslot with hrun | ⟨u, hu, hview | hview⟩
  · rw [hsus] at hrun
    cases hrun
  · have hsees := hi.sees v u hu
    rw [hview] at hsees
    have hret := hsees.2.1
    rw [hsus] at hret
    cases hret
  · exact ⟨u, hu, hview⟩

/-- While a worker holds the callee, only this worker can have the call parent in a slot. -/
theorem Consistent.callParent_slot (hi : Consistent s g) (hhand : g.hand w = some ⟨t, st, true⟩)
    (hparent : s.callParent t = some parent) (hslot : s.slot v = some parent) :
    g.busy w = some v ∧ (g.view w = .parked parent ∨ g.view w = .callParent parent) := by
  have hcounted := hi.live t parent (.inr hparent) (.inr (.inl ⟨w, st, hhand⟩))
  obtain ⟨u, hu, hview⟩ := hi.suspended_slot hslot (hi.callee t parent hcounted hparent)
  have hsees := hi.sees v u hu
  have huw : u = w := by
    rcases hview with hview | hview
    · rw [hview] at hsees
      obtain ⟨h, hh, hclosure⟩ := hsees.2.2.2.2 t hcounted hparent
      exact hi.handUnique u w h _ hh hhand hclosure
    · rw [hview] at hsees
      obtain ⟨-, -, -, d, status, hd, hp⟩ := hsees
      have hd' := hi.live d parent (.inr hp) (.inr (.inl ⟨u, status, hd⟩))
      exact hi.handUnique u w _ _ hd hhand (hi.calleeUnique d t parent hd' hcounted hp hparent)
  rw [huw] at hu hview
  exact ⟨hu, hview⟩

/-- The call parent of the callee in the worker's hands is put into the slot. -/
theorem Consistent.setCallParent (hi : Consistent s g) (hbusy : g.busy w = some w)
    (hview : g.view w = .empty) (hhand : g.hand w = some ⟨t, st, true⟩)
    (hparent : s.callParent t = some parent) :
    Consistent (s.set w parent) (g.setView w (.callParent parent) (g.hand w)) := by
  have hcounted := hi.live t parent (.inr hparent) (.inr (.inl ⟨w, st, hhand⟩))
  have hsus := hi.callee t parent hcounted hparent
  have hempty : ∀ v, s.slot v ≠ some parent := by
    intro v hv
    have hnot := (hi.callParent_slot hhand hparent hv).2
    rw [hview] at hnot
    rcases hnot with h | h <;> cases h
  have hhands : ∀ u k, g.hand u = some k → k.closure ≠ parent := by
    rintro u k hk rfl
    have hk' := hi.hand u k hk
    exact hk'.2.1 (hk'.1.symm.trans hsus)
  have hslots := set_slots (v := w) hempty
  refine hi.change (hi.suspendedLt parent hsus) (fun v' hne => ⟨?_, fun _ _ => rfl⟩)
    (fun _ _ => rfl) hslots.1 (hslots.2 hi.owner) (fun v' hv' => ?_)
    (fun u k _ hk => hhands u k hk) (fun k hk => hi.hand_kept hk (fun v' hc => ?_) rfl)
    (fun _ h => h) (fun _ _ h => h) (fun p hp _ => hi.live parent p hp (.inr (.inr hsus)))
    (fun _ _ _ => hsus) hi.join (fun _ hroot hcl => hroot.2.2 (hcl ▸ hsus))
  · rw [hbusy] at hne
    exact Function.update_of_ne (fun h => hne (congrArg some h.symm)) _ _
  · rw [hbusy] at hv'
    cases hv'
    exact ⟨Function.update_self _ _ _, hsus, rfl, t, st,
      (Function.update_self _ _ _).trans hhand, hparent⟩
  · exact hslots.1 v' _ hc (hhands w k hk)

/-- The closure in the slot is suspended under its lock. -/
theorem Consistent.suspend (hi : Consistent s g) (hbusy : g.busy w = some v)
    (hview : g.view w = .running t) (hlock : t ∈ g.locks w) :
    Consistent (s.setStatus t .suspended) (g.setView w (.parked t) (g.hand w)) := by
  have hsees := hi.sees v w hbusy
  rw [hview] at hsees
  obtain ⟨hslot, hrun, hhome⟩ := hsees
  have hkept : ∀ c, c ≠ t → update s.status t .suspended c = s.status c :=
    fun c hc => Function.update_of_ne hc _ _
  have hnone : ∀ d, g.counted d = true → s.callParent d ≠ some t := by
    intro d hd hp
    have hsus := hi.callee d t hd hp
    rw [hrun] at hsus
    cases hsus
  refine hi.change (hi.slotLt v t hslot) (fun v' hne => ⟨rfl, fun c hc => hkept c ?_⟩) hkept
    (fun _ _ h _ => h) hi.owner (fun v' hv' => ?_) (fun u k _ hk => hi.hand_ne hslot hk)
    (fun k hk => hi.hand_kept hk (fun _ h => h) (hkept _ (hi.hand_ne hslot hk)))
    (fun _ h => h) (fun _ _ h => h) (fun p hp _ => hi.live t p hp (.inl ⟨v, hslot⟩))
    (fun _ _ _ => Function.update_self _ _ _) hi.join
    (fun _ hroot hcl => hroot.1 v (hcl ▸ hslot))
  · rintro rfl
    exact hne (hbusy.trans (congrArg some (hi.slot_unique hslot hc)))
  · rw [hbusy] at hv'
    cases hv'
    exact ⟨hslot, Function.update_self _ _ _, hlock, hhome, fun d hd hp => absurd hp (hnone d hd)⟩

/-- The closure in the worker's own slot is marked as returning. -/
theorem Consistent.setReturning (hi : Consistent s g) (hbusy : g.busy w = some w)
    (hslot : s.slot w = some t) (hrun : s.status t = .running) :
    Consistent (s.setStatus t .returning) (g.setView w (.returning t) (g.hand w)) := by
  have hkept : ∀ c, c ≠ t → update s.status t .returning c = s.status c :=
    fun c hc => Function.update_of_ne hc _ _
  refine hi.change (hi.slotLt w t hslot) (fun v' hne => ⟨rfl, fun c hc => hkept c ?_⟩) hkept
    (fun _ _ h _ => h) hi.owner (fun v' hv' => ?_) (fun u k _ hk => hi.hand_ne hslot hk)
    (fun k hk => hi.hand_kept hk (fun _ h => h) (hkept _ (hi.hand_ne hslot hk)))
    (fun _ h => h) (fun _ _ h => h) (fun p hp _ => hi.live t p hp (.inl ⟨w, hslot⟩))
    (fun d hd hp => ?_) hi.join (fun _ hroot hcl => hroot.1 w (hcl ▸ hslot))
  · rintro rfl
    exact hne (hbusy.trans (congrArg some (hi.slot_unique hslot hc)))
  · rw [hbusy] at hv'
    cases hv'
    exact ⟨hslot, Function.update_self _ _ _, rfl⟩
  · have hsus := hi.callee d t hd hp
    rw [hrun] at hsus
    cases hsus

end Hands

section Counts

theorem countsFor_update (counted : ClosureId → Bool) (d : ClosureId) (b : Bool) :
    countsFor s (update counted d b) cl = update (countsFor s counted cl) d
      (b && (s.spawnParent d == some cl || s.callParent d == some cl)) := by
  funext c
  by_cases hc : c = d
  · rw [hc, Function.update_self]
    simp only [countsFor, Function.update_self]
  · rw [Function.update_of_ne hc]
    simp only [countsFor, Function.update_of_ne hc]

theorem childOf_iff : (s.spawnParent cl == some parent || s.callParent cl == some parent) = true ↔
    ChildOf s cl parent := by
  simp only [Bool.or_eq_true, beq_iff_eq, ChildOf]

/-- The join counters after a parent counts one closure more, or one less. -/
theorem Consistent.join_update (hi : Consistent s g) {d : ClosureId} (hd : d < s.numClosures)
    (hchild : ChildOf s d parent) (b : Bool) (hb : g.counted d = !b) (c : ClosureId) :
    update s.joinCounter parent
        (if b then s.joinCounter parent + 1 else s.joinCounter parent - 1) c =
      tally s.numClosures (countsFor s (update g.counted d b) c) id := by
  rw [countsFor_update]
  by_cases hc : c = parent
  · rw [hc, Function.update_self, hi.join parent, childOf_iff.mpr hchild, Bool.and_true]
    have hold : countsFor s g.counted parent d = !b := by
      rw [countsFor, childOf_iff.mpr hchild, Bool.and_true, hb]
    cases b with
    | true => exact (tally_update_add hd hold rfl).symm
    | false =>
      have htrue : countsFor s g.counted parent d = true := hold
      have hsub := tally_update_sub (p := id) (f := countsFor s g.counted parent)
        (v := false) hd htrue rfl
      exact Nat.sub_eq_of_eq_add hsub.symm
  · have hnot : ¬ (s.spawnParent d == some c || s.callParent d == some c) = true :=
      fun h => hc (hi.parentUnique d c parent (childOf_iff.mp h) hchild)
    rw [Function.update_of_ne hc, hi.join c, Bool.eq_false_of_not_eq_true hnot, Bool.and_false]
    refine (tally_update_same hd ?_).symm
    rw [id, id, countsFor, Bool.eq_false_of_not_eq_true hnot, Bool.and_false]

/-- A parent whose join counter is zero has no child that it counts. -/
theorem Consistent.no_children (hi : Consistent s g) (hjoin : s.joinCounter parent = 0)
    (hchild : ChildOf s cl parent) : g.counted cl = false := by
  rw [Bool.eq_false_iff]
  intro hcounted
  have hpos := tally_pos (n := s.numClosures) (f := countsFor s g.counted parent) (p := id)
    (hi.countedLt cl hcounted)
    (show countsFor s g.counted parent cl = true by
      rw [countsFor, hcounted, childOf_iff.mpr hchild, Bool.and_true])
  rw [← hi.join parent, hjoin] at hpos
  exact lt_irrefl 0 hpos

/-- `Closure_return` decrements the join counter of the parent; the child is gone. -/
theorem Consistent.decrementJoin (hi : Consistent s g) (hbusy : g.busy w = none)
    (hhand : g.hand w = some ⟨t, st, true⟩) (hchild : ChildOf s t parent) :
    Consistent (s.setJoin parent (s.joinCounter parent - 1))
      { g.setView w (g.view w) none with counted := update g.counted t false } := by
  have hcounted := hi.live t parent hchild (.inr (.inl ⟨w, st, hhand⟩))
  obtain ⟨hstatus, hns, hempty⟩ := hi.hand w _ hhand
  have hless : ∀ d, update g.counted t false d = true → d ≠ t ∧ g.counted d = true := by
    intro d hd
    by_cases hdt : d = t
    · rw [hdt, Function.update_self] at hd
      cases hd
    · rw [Function.update_of_ne hdt] at hd
      exact ⟨hdt, hd⟩
  have hgone : ¬ Alive s.slot (update g.hand w none) s.status t := by
    rintro (⟨v, hv⟩ | ⟨u, st', hu⟩ | hsus)
    · exact hempty v hv
    · by_cases huw : u = w
      · rw [huw, Function.update_self] at hu
        cases hu
      · rw [Function.update_of_ne huw] at hu
        exact hi.hand_others hhand huw hu rfl
    · exact hns (hstatus.symm.trans hsus)
  refine hi.change (hi.handLt w _ hhand) (fun _ _ => ⟨rfl, fun _ _ => rfl⟩) (fun _ _ => rfl)
    (fun _ _ h _ => h) hi.owner (fun v hv => ?_) (fun u k hu hk => hi.hand_others hhand hu hk)
    (fun k hk => by cases hk) (fun d hd => (hless d hd).2) (fun c halive hc => ?_)
    (fun p _ halive => absurd halive hgone) (fun d hd hp => hi.callee d t (hless d hd).2 hp)
    (hi.join_update (hi.handLt w _ hhand) hchild false hcounted)
    (fun _ hroot => hroot.2.1 w _ hhand)
  · rw [hbusy] at hv
    cases hv
  · have hct : c ≠ t := by
      rintro rfl
      exact hgone halive
    exact (Function.update_of_ne hct _ _).trans hc

/-- `Closure::remove_callee` and `setup_call_parent_resumption`. -/
theorem Consistent.removeCallee (hi : Consistent s g) (hbusy : g.busy w = some w)
    (hview : g.view w = .callParent parent) (hhand : g.hand w = some ⟨t, st, true⟩)
    (hparent : s.callParent t = some parent) :
    Consistent (s.removeCallee parent)
      { g.setView w (.running parent) (some ⟨t, st, false⟩) with
        counted := update g.counted t false } := by
  have hcounted := hi.live t parent (.inr hparent) (.inr (.inl ⟨w, st, hhand⟩))
  have hsus := hi.callee t parent hcounted hparent
  have hsees := hi.sees w w hbusy
  rw [hview] at hsees
  have hslot : s.slot w = some parent := hsees.1
  obtain ⟨hstatus, hns, hempty⟩ := hi.hand w _ hhand
  have hne : t ≠ parent := by
    rintro rfl
    exact hempty w hslot
  have hkept : ∀ c, c ≠ parent → update s.status parent .running c = s.status c :=
    fun c hc => Function.update_of_ne hc _ _
  have hless : ∀ d, update g.counted t false d = true → d ≠ t ∧ g.counted d = true := by
    intro d hd
    by_cases hdt : d = t
    · rw [hdt, Function.update_self] at hd
      cases hd
    · rw [Function.update_of_ne hdt] at hd
      exact ⟨hdt, hd⟩
  have hgone : ¬ Alive s.slot (update g.hand w (some ⟨t, st, false⟩))
      (update s.status parent .running) t := by
    rintro (⟨v, hv⟩ | ⟨u, st', hu⟩ | hsus')
    · exact hempty v hv
    · by_cases huw : u = w
      · rw [huw, Function.update_self] at hu
        cases hu
      · rw [Function.update_of_ne huw] at hu
        exact hi.hand_others hhand huw hu rfl
    · rw [hkept t hne] at hsus'
      exact hns (hstatus.symm.trans hsus')
  refine hi.change (hi.slotLt w parent hslot) (fun v' hv' => ⟨rfl, fun c hc => hkept c ?_⟩) hkept
    (fun _ _ h _ => h) hi.owner (fun v' hv' => ?_) (fun u k _ hk => hi.hand_ne hslot hk)
    (fun k hk => ?_) (fun d hd => (hless d hd).2) (fun c halive hc => ?_)
    (fun p hp _ => hi.live parent p hp (.inl ⟨w, hslot⟩)) (fun d hd hp => ?_)
    (hi.join_update (hi.handLt w _ hhand) (.inr hparent) false hcounted)
    (fun _ hroot hcl => hroot.1 w (hcl ▸ hslot))
  · rintro rfl
    exact hv' (hbusy.trans (congrArg some (hi.slot_unique hslot hc)))
  · rw [hbusy] at hv'
    cases hv'
    exact ⟨hslot, Function.update_self _ _ _, fun h => absurd rfl h⟩
  · cases hk
    exact ⟨(hkept t hne).trans hstatus, hns, hempty, .inr ⟨_, hhand, rfl, fun h => by cases h⟩⟩
  · have hct : c ≠ t := by
      rintro rfl
      exact hgone halive
    exact (Function.update_of_ne hct _ _).trans hc
  · obtain ⟨hdt, hd'⟩ := hless d hd
    exact absurd (hi.calleeUnique d t parent hd' hcounted hp hparent) hdt

/-- `provably_good_steal_maybe` takes the suspended parent. -/
theorem Consistent.provablyGoodSteal (hi : Consistent s g) (hbusy : g.busy w = none)
    (hlock : parent ∈ g.locks w) (hjoin : s.joinCounter parent = 0)
    (hsus : s.status parent = .suspended) :
    Consistent (s.setStatus parent .ready)
      (g.setView w (g.view w) (some ⟨parent, .ready, true⟩)) := by
  have hkept : ∀ c, c ≠ parent → update s.status parent .ready c = s.status c :=
    fun c hc => Function.update_of_ne hc _ _
  have hnone : ∀ d, g.counted d = true → s.callParent d ≠ some parent := by
    intro d hd hp
    rw [hi.no_children hjoin (.inr hp)] at hd
    cases hd
  have hempty : ∀ v, s.slot v ≠ some parent := by
    intro v hv
    obtain ⟨u, hu, hview⟩ := hi.suspended_slot hv hsus
    have hsees := hi.sees v u hu
    rcases hview with hview | hview
    · rw [hview] at hsees
      have hmutex := (hi.locks parent u).mpr hsees.2.2.1
      rw [(hi.locks parent w).mpr hlock] at hmutex
      rw [← Option.some.inj hmutex, hbusy] at hu
      cases hu
    · rw [hview] at hsees
      obtain ⟨-, -, -, d, status, hd, hp⟩ := hsees
      exact hnone d (hi.live d parent (.inr hp) (.inr (.inl ⟨u, status, hd⟩))) hp
  have hhands : ∀ u k, g.hand u = some k → k.closure ≠ parent := by
    rintro u k hk rfl
    have hk' := hi.hand u k hk
    exact hk'.2.1 (hk'.1.symm.trans hsus)
  refine hi.change (hi.suspendedLt parent hsus) (fun v' _ => ⟨rfl, fun c hc => hkept c ?_⟩) hkept
    (fun _ _ h _ => h) hi.owner (fun v' hv' => ?_) (fun u k _ hk => hhands u k hk)
    (fun k hk => ?_) (fun _ h => h) (fun _ _ h => h)
    (fun p hp _ => hi.live parent p hp (.inr (.inr hsus))) (fun d hd hp => absurd hp (hnone d hd))
    hi.join (fun _ hroot hcl => hroot.2.2 (hcl ▸ hsus))
  · rintro rfl
    exact hempty v' hc
  · rw [hbusy] at hv'
    cases hv'
  · cases hk
    exact ⟨Function.update_self _ _ _, (fun h => by cases h), hempty, .inl rfl⟩

end Counts

end Cheetah
