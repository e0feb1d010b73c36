import Cheetah.OwnershipRules

/-! Closures are created by steals. A thief that has claimed a frame may empty the slot of its victim. -/
namespace Cheetah
open Function (update)

variable {s : LockState} {g : Ghost} {w v : WorkerId} {cl d parent : ClosureId}

section Creation

/-- A new closure has a parent that exists, and no one has it or counts it. -/
theorem Consistent.create (hi : Consistent s g) (frame : Option FrameId)
    (spawnParent callParent : Option ClosureId)
    (hlt : ∀ p, spawnParent = some p ∨ callParent = some p → p < s.numClosures)
    (hunique : ∀ p q, spawnParent = some p ∨ callParent = some p →
      spawnParent = some q ∨ callParent = some q → p = q) :
    Consistent (s.create frame spawnParent callParent) g := by
  have hkept : ∀ {β : Type} (f : ClosureId → β) (x : β) (c : ClosureId), c < s.numClosures →
      update f s.numClosures x c = f c :=
    fun f x c hc => Function.update_of_ne (Nat.ne_of_lt hc) _ _
  have hself : ∀ p, ChildOf (s.create frame spawnParent callParent) s.numClosures p →
      spawnParent = some p ∨ callParent = some p := by
    intro p hp
    simpa only [ChildOf, LockState.create, Function.update_self] using hp
  have hold : ∀ c p, c ≠ s.numClosures →
      (ChildOf (s.create frame spawnParent callParent) c p ↔ ChildOf s c p) := by
    intro c p hc
    simp only [ChildOf, LockState.create, Function.update_of_ne hc]
  have hcall : ∀ c p, g.counted c = true →
      (s.create frame spawnParent callParent).callParent c = some p → s.callParent c = some p :=
    fun c p hc hp => (hkept _ _ c (hi.countedLt c hc)).symm.trans hp
  have hlater : s.numClosures < (s.create frame spawnParent callParent).numClosures :=
    Nat.lt_succ_self _
  refine { hi with
    locks := fun c u => ?_, free := fun v' hv' => ?_, sees := fun v' u hu => ?_,
    owner := fun v' c hc => ?_, hand := fun u k hk => ?_, live := fun c p hp halive => ?_,
    callee := fun c p hc hp => ?_, calleeUnique := fun c e p hc he hp hq => ?_,
    join := fun c => ?_, pos := hi.pos.trans hlater,
    slotLt := fun v' c hc => (hi.slotLt v' c hc).trans hlater,
    handLt := fun u k hk => (hi.handLt u k hk).trans hlater, parentLt := fun c p hp => ?_,
    lockLt := fun u c hc => (hi.lockLt u c hc).trans hlater,
    parentUnique := fun c p q hp hq => ?_,
    countedLt := fun c hc => (hi.countedLt c hc).trans hlater,
    suspendedLt := fun c hc => ?_, idle := fun h => ?_ }
  · show update s.mutexOwner s.numClosures none c = some u ↔ c ∈ g.locks u
    by_cases hc : c = s.numClosures
    · rw [hc, Function.update_self]
      exact iff_of_false (fun h => by cases h) fun h => Nat.lt_irrefl _ (hi.lockLt u _ h)
    · rw [Function.update_of_ne hc]
      exact hi.locks c u
  · exact (hi.free v' hv').congr rfl fun c hc => hkept _ _ c (hi.slotLt v' c hc)
  · refine (hi.sees v' u hu).congr rfl (fun c hc => hkept _ _ c (hi.slotLt v' c hc)) rfl
      (fun _ _ h => h) (fun k hk => ⟨k, hk, rfl, id⟩) (fun c e _ he hp => ⟨he, hcall e c he hp⟩)
      (fun k hk => hkept _ _ _ (hi.handLt u k hk))
  · exact (hkept _ _ c (hi.slotLt v' c hc)).trans (hi.owner v' c hc)
  · obtain ⟨hs, hrest⟩ := hi.hand u k hk
    exact ⟨(hkept _ _ _ (hi.handLt u k hk)).trans hs, hrest⟩
  · by_cases hc : c = s.numClosures
    · rw [hc] at halive
      rcases halive with ⟨v', hv'⟩ | ⟨u, st, hu⟩ | hsus
      · exact absurd (hi.slotLt v' _ hv') (Nat.lt_irrefl _)
      · exact absurd (hi.handLt u _ hu) (Nat.lt_irrefl _)
      · have hrun : (s.create frame spawnParent callParent).status s.numClosures = .running :=
          Function.update_self _ _ _
        rw [hrun] at hsus
        cases hsus
    · refine hi.live c p ((hold c p hc).mp hp) ?_
      exact halive.imp_right (Or.imp_right fun h => (Function.update_of_ne hc _ _).symm.trans h)
  · have hp' := hcall c p hc hp
    have hlt' := hi.parentLt c p (.inr hp')
    exact (hkept _ _ p (hlt'.1.trans hlt'.2)).trans (hi.callee c p hc hp')
  · exact hi.calleeUnique c e p hc he (hcall c p hc hp) (hcall e p he hq)
  · have hsame : ∀ e < s.numClosures,
        countsFor (s.create frame spawnParent callParent) g.counted c e =
          countsFor s g.counted c e := by
      intro e he
      simp only [countsFor, LockState.create, Function.update_of_ne (Nat.ne_of_lt he)]
    have hlast : countsFor (s.create frame spawnParent callParent) g.counted c s.numClosures =
        false := by
      rw [countsFor, Bool.eq_false_iff.mpr fun h => Nat.lt_irrefl _ (hi.countedLt _ h)]
      rfl
    have hcount : tally (s.create frame spawnParent callParent).numClosures
        (countsFor (s.create frame spawnParent callParent) g.counted c) id =
          tally s.numClosures (countsFor s g.counted c) id := by
      refine (tally_succ _ _ _).trans ?_
      rw [hlast]
      exact tally_congr hsame
    rw [hcount]
    by_cases hc : c = s.numClosures
    · have hnone : tally s.numClosures (countsFor s g.counted c) id = 0 := by
        refine tally_eq_zero fun e he => ?_
        refine Bool.eq_false_iff.mpr fun h => ?_
        have hchild := hi.parentLt e c (childOf_iff.mp (Bool.and_eq_true_iff.mp h).2)
        exact Nat.lt_irrefl _ (hc ▸ hchild.1.trans he)
      rw [hnone, hc]
      exact Function.update_self _ _ _
    · exact (Function.update_of_ne hc _ _).trans (hi.join c)
  · by_cases hc : c = s.numClosures
    · rw [hc] at hp ⊢
      exact ⟨hlt p (hself p hp), hlater⟩
    · have hp' := hi.parentLt c p ((hold c p hc).mp hp)
      exact ⟨hp'.1, hp'.2.trans hlater⟩
  · by_cases hc : c = s.numClosures
    · rw [hc] at hp hq
      exact hunique p q (hself p hp) (hself q hq)
    · exact hi.parentUnique c p q ((hold c p hc).mp hp) ((hold c q hc).mp hq)
  · by_cases hc' : c = s.numClosures
    · rw [hc']
      exact hlater
    · exact (hi.suspendedLt c ((Function.update_of_ne hc' _ _).symm.trans hc)).trans hlater
  · obtain ⟨hslots, hhands, hns⟩ := hi.idle h
    exact ⟨hslots, hhands, fun hsus => hns ((hkept _ _ _ hi.pos).symm.trans hsus)⟩

/-- The parent counts a new closure. Where it is a callee, its worker has the parent in a slot. -/
theorem Consistent.count (hi : Consistent s g) (d parent : ClosureId) (hlt : d < s.numClosures)
    (hcounted : g.counted d = false) (hchild : ChildOf s d parent)
    (hcall : s.callParent d = some parent → s.status parent = .suspended ∧
      (∀ c, g.counted c = true → s.callParent c ≠ some parent) ∧
      g.busy w = some v ∧ s.slot v = some parent ∧
      ∃ h, g.hand w = some h ∧ h.closure = d) :
    Consistent (s.setJoin parent (s.joinCounter parent + 1))
      { g with counted := update g.counted d true } := by
  have hcases : ∀ c, update g.counted d true c = true → c = d ∨ g.counted c = true := by
    intro c hc
    by_cases hcd : c = d
    · exact .inl hcd
    · exact .inr ((Function.update_of_ne hcd _ _).symm.trans hc)
  have hself : ∀ p, s.callParent d = some p → p = parent :=
    fun p hp => hi.parentUnique d p parent (.inr hp) hchild
  refine { hi with
    free := fun v' hv' => hi.free v' hv', sees := fun v' u hu => ?_, hand := hi.hand,
    live := fun c p hp halive => ?_, callee := fun c p hc hp => ?_,
    calleeUnique := fun c e p hc he hp hq => ?_,
    join := hi.join_update hlt hchild true hcounted, countedLt := fun c hc => ?_, idle := hi.idle }
  · have hsees := hi.sees v' u hu
    show Sees (s.setJoin parent (s.joinCounter parent + 1))
      { g with counted := update g.counted d true } u v' (g.view u)
    cases hview : g.view u with
    | parked c =>
      rw [hview] at hsees
      obtain ⟨hslot, hsus, hlock, hhome, hnew⟩ := hsees
      refine ⟨hslot, hsus, hlock, hhome, fun e he hp => ?_⟩
      rcases hcases e he with hed | he
      · rw [hed] at hp ⊢
        have hsame := hself c hp
        rw [hsame] at hslot hp
        obtain ⟨-, -, hbusy, hpslot, hhand⟩ := hcall hp
        rw [hi.slot_unique hslot hpslot] at hu
        by_cases huw : u = w
        · rw [huw]
          exact hhand
        · exact absurd rfl (hi.busy_ne hbusy hu huw)
      · exact hnew e he hp
    | _ =>
      rw [hview] at hsees
      exact hsees
  · by_cases hcd : c = d
    · rw [hcd]
      exact Function.update_self _ _ _
    · exact (Function.update_of_ne hcd _ _).trans (hi.live c p hp halive)
  · rcases hcases c hc with hcd | hc
    · rw [hcd] at hp
      have hsame := hself p hp
      rw [hsame] at hp ⊢
      exact (hcall hp).1
    · exact hi.callee c p hc hp
  · rcases hcases c hc with hcd | hc
    · rcases hcases e he with hed | he
      · exact hcd.trans hed.symm
      · rw [hcd] at hp
        have hsame := hself p hp
        rw [hsame] at hp hq
        exact absurd hq ((hcall hp).2.1 e he)
    · rcases hcases e he with hed | he
      · rw [hed] at hq
        have hsame := hself p hq
        rw [hsame] at hp hq
        exact absurd hp ((hcall hq).2.1 c hc)
      · exact hi.calleeUnique c e p hc he hp hq
  · rcases hcases c hc with hcd | hc
    · rw [hcd]
      exact hlt
    · exact hi.countedLt c hc

/-- A worker takes a closure that no one else has, or its parent begins to count it. -/
theorem Consistent.take (hi : Consistent s g) {k : Held} (hlt : k.closure < s.numClosures)
    (hstatus : s.status k.closure = k.status) (hns : k.status ≠ .suspended)
    (hslot : ∀ v, s.slot v ≠ some k.closure)
    (hself : ∀ h, g.hand w = some h → h.closure = k.closure ∧ (h.live = true → k.live = true))
    (hothers : ∀ u h, u ≠ w → g.hand u = some h → h.closure ≠ k.closure)
    (hlive : k.live = true → g.counted k.closure = true) (hroot : k.closure ≠ rootClosure) :
    Consistent s (g.setView w (g.view w) (some k)) := by
  refine hi.change hlt (fun _ _ => ⟨rfl, fun _ _ => rfl⟩) (fun _ _ => rfl) (fun _ _ h _ => h)
    hi.owner (fun v' hv' => ?_) hothers (fun h hh => ?_) (fun _ h => h) (fun _ _ h => h)
    (fun p _ halive => ?_) (fun c hc hp => hi.callee c _ hc hp) hi.join (fun _ _ => hroot)
  · refine (hi.sees v' w hv').congr rfl (fun _ _ => rfl) rfl (fun _ _ h => h) (fun h hh => ?_)
      (fun _ _ _ hc hp => ⟨hc, hp⟩) (fun _ _ => rfl)
    exact ⟨k, Function.update_self _ _ _, (hself h hh).1.symm, (hself h hh).2⟩
  · cases hh
    exact ⟨hstatus, hns, hslot, .inl rfl⟩
  · rcases halive with ⟨v', hv'⟩ | ⟨u, st, hu⟩ | hsus
    · exact absurd hv' (hslot v')
    · by_cases huw : u = w
      · rw [huw, Function.update_self] at hu
        exact hlive (congrArg Held.live (Option.some.inj hu))
      · rw [Function.update_of_ne huw] at hu
        exact (hothers u _ huw hu rfl).elim
    · exact absurd (hstatus.symm.trans hsus) hns

end Creation

section Steals

/-- A thief that has passed Dekker's protocol claims a frame. -/
def Ghost.setClaim (g : Ghost) (w : WorkerId) (claim : Bool) : Ghost :=
  { g with claim := update g.claim w claim }

theorem Consistent.claim (hi : Consistent s g) (hbusy : g.busy w = some v)
    (hdeque : s.deque v ≠ []) (hhome : g.home v = true) :
    Consistent (s.setClaimed v true) (g.setClaim w true) := by
  refine { hi with free := hi.free, sees := fun v' u hu => ?_, claims := fun v' u hu hc => ?_,
                   hand := hi.hand, idle := hi.idle }
  · exact (hi.sees v' u hu).frame rfl (fun _ _ => rfl) rfl rfl rfl rfl rfl
  · by_cases hv : v' = v
    · rw [hv]
      exact ⟨hdeque, Function.update_self _ _ _, hhome⟩
    · have huw : u ≠ w := by
        rintro rfl
        exact hv (Option.some.inj (hu.symm.trans hbusy))
      obtain ⟨hd, hclaimed, hh⟩ := hi.claims v' u hu ((Function.update_of_ne huw _ _).symm.trans hc)
      exact ⟨hd, (Function.update_of_ne hv _ _).trans hclaimed, hh⟩

/-- The claim ends, with or without the frame. -/
theorem Consistent.unclaim (hi : Consistent s g) (hbusy : g.busy w = some v) :
    Consistent (s.setClaimed v false) (g.setClaim w false) := by
  refine { hi with free := hi.free, sees := fun v' u hu => ?_, claims := fun v' u hu hc => ?_,
                   hand := hi.hand, idle := hi.idle }
  · exact (hi.sees v' u hu).frame rfl (fun _ _ => rfl) rfl rfl rfl rfl rfl
  · have huw : u ≠ w := by
      rintro rfl
      rw [show (g.setClaim u false).claim u = false from Function.update_self _ _ _] at hc
      cases hc
    have hv : v' ≠ v := hi.busy_ne hbusy hu huw
    obtain ⟨hd, hclaimed, hh⟩ := hi.claims v' u hu ((Function.update_of_ne huw _ _).symm.trans hc)
    exact ⟨hd, (Function.update_of_ne hv _ _).trans hclaimed, hh⟩

/-- No one takes the last frame of a deque while it is claimed. -/
theorem Consistent.setDeque (hi : Consistent s g) (v : WorkerId) (frames : List DequeFrame)
    (hclaim : ∀ u, g.busy u = some v → g.claim u = true → frames ≠ []) :
    Consistent (s.setDeque v frames) g := by
  refine { hi with free := hi.free, sees := fun v' u hu => ?_, claims := fun v' u hu hc => ?_,
                   hand := hi.hand, idle := hi.idle }
  · exact (hi.sees v' u hu).frame rfl (fun _ _ => rfl) rfl rfl rfl rfl rfl
  · obtain ⟨hd, hrest⟩ := hi.claims v' u hu hc
    refine ⟨?_, hrest⟩
    by_cases hv : v' = v
    · rw [hv] at hu ⊢
      rw [show (s.setDeque v frames).deque v = frames from Function.update_self _ _ _]
      exact hclaim u hu hc
    · rw [show (s.setDeque v frames).deque v' = s.deque v' from Function.update_of_ne hv _ _]
      exact hd

/-- A new closure is known to no one. -/
theorem Consistent.fresh (hi : Consistent s g) :
    (∀ v, s.slot v ≠ some s.numClosures) ∧
      (∀ u h, g.hand u = some h → h.closure ≠ s.numClosures) ∧
      g.counted s.numClosures = false ∧ s.numClosures ≠ rootClosure :=
  ⟨fun v hv => Nat.lt_irrefl _ (hi.slotLt v _ hv),
    fun u h hh => Nat.ne_of_lt (hi.handLt u h hh),
    Bool.eq_false_iff.mpr fun h => Nat.lt_irrefl _ (hi.countedLt _ h), Nat.ne_of_gt hi.pos⟩

/-- `promote_child` where the frame has no closure: the thief keeps the new callee. It is held first
and then counted: a parked closure has no callee but the one held. -/
theorem Consistent.addCallee (hi : Consistent s g) (hbusy : g.busy w = some v)
    (hview : g.view w = .running cl) (hlock : cl ∈ g.locks w) (hhand : g.hand w = none)
    (frame : FrameId) : Consistent (s.addCallee cl frame)
      { g.setView w (.parked cl) (some ⟨s.numClosures, .running, true⟩) with
        counted := update g.counted s.numClosures true } := by
  have hsees := hi.sees v w hbusy
  rw [hview] at hsees
  have hcl := hi.slotLt v cl hsees.1
  have hne : s.numClosures ≠ cl := Nat.ne_of_gt hcl
  obtain ⟨hslots, hhands, hcounted, hroot⟩ := hi.fresh
  have hcreate := hi.create (some frame) none (some cl)
    (fun p hp => by
      rcases hp with hp | hp
      · cases hp
      · cases hp
        exact hcl)
    (fun p q hp hq => by
      rcases hp with hp | hp
      · cases hp
      · rcases hq with hq | hq
        · cases hq
        · exact Option.some.inj (hp.symm.trans hq))
  have hparked := hcreate.suspend hbusy hview hlock
  have hrun : ((s.create (some frame) none (some cl)).setStatus cl .suspended).status
      s.numClosures = .running :=
    (Function.update_of_ne hne _ _).trans (Function.update_self _ _ _)
  have hheld := hparked.take (w := w) (k := ⟨s.numClosures, .running, false⟩)
    (Nat.lt_succ_self _) hrun (fun h => by cases h) hslots
    (fun h hh => by
      rw [setView_self.2, hhand] at hh
      cases hh)
    (fun u h hu hh => hhands u h ((setView_of_ne hu).2.symm.trans hh)) (fun h => by cases h) hroot
  have hsame : ((s.create (some frame) none (some cl)).setStatus cl .suspended).joinCounter cl =
      s.joinCounter cl := Function.update_of_ne hne.symm _ _
  have hnone : ∀ c, g.counted c = true →
      (s.create (some frame) none (some cl)).callParent c ≠ some cl := by
    intro c hc hp
    have hp' : s.callParent c = some cl :=
      (Function.update_of_ne (Nat.ne_of_lt (hi.countedLt c hc)) _ _).symm.trans hp
    have hsus := hi.callee c cl hc hp'
    rw [hsees.2.1] at hsus
    cases hsus
  have hcount := hheld.count (w := w) (v := v) s.numClosures cl
    (Nat.lt_succ_self _) hcounted (.inr (Function.update_self _ _ _))
    (fun _ => ⟨Function.update_self _ _ _, hnone, hbusy, hsees.1, _, setView_self.2, rfl⟩)
  have hlive := hcount.take (w := w) (k := ⟨s.numClosures, .running, true⟩)
    (Nat.lt_succ_self _) hrun (fun h => by cases h) hslots
    (fun h hh => by
      obtain rfl := Option.some.inj ((Function.update_self w _ _).symm.trans hh)
      exact ⟨rfl, fun _ => rfl⟩)
    (fun u h hu hh => by
      have hh' := (Function.update_of_ne hu _ _).symm.trans hh
      exact hhands u h ((Function.update_of_ne hu _ _).symm.trans hh'))
    (fun _ => Function.update_self _ _ _) hroot
  rw [hsame] at hlive
  show Consistent (((s.create (some frame) none (some cl)).setStatus cl .suspended).setJoin cl
    (s.joinCounter cl + 1)) _
  simpa only [Ghost.setView, Function.update_idem, Function.update_self] using hlive

/-- The rest of `promote_child`: the new child goes to the victim's slot, and takes the frame. -/
theorem Consistent.promoteChild (hi : Consistent s g) (hbusy : g.busy w = some v)
    (hview : g.view w = .empty) (hne : v ≠ w) {k : Held} (hhand : g.hand w = some k) :
    Consistent (s.promoteChild v k.closure)
      { (g.setClaim w false).setView w (.running s.numClosures) (g.hand w) with
        counted := update g.counted s.numClosures true } := by
  have hsees := hi.sees v w hbusy
  rw [hview] at hsees
  have hlt := hi.handLt w k hhand
  obtain ⟨hslots, hhands, hcounted, hroot⟩ := hi.fresh
  have hcreate := hi.create none (some k.closure) none
    (fun p hp => by
      rcases hp with hp | hp
      · cases hp
        exact hlt
      · cases hp)
    (fun p q hp hq => by
      rcases hp with hp | hp
      · rcases hq with hq | hq
        · exact Option.some.inj (hp.symm.trans hq)
        · cases hq
      · cases hp)
  have hcount := hcreate.count (w := w) (v := v) s.numClosures k.closure
    (Nat.lt_succ_self _) hcounted (.inl (Function.update_self _ _ _)) (fun hp => by
      rw [show (s.create none (some k.closure) none).callParent s.numClosures = none from
        Function.update_self _ _ _] at hp
      cases hp)
  rw [show (s.create none (some k.closure) none).joinCounter k.closure =
    s.joinCounter k.closure from Function.update_of_ne (Nat.ne_of_lt hlt) _ _] at hcount
  have hunclaim := hcount.unclaim hbusy
  have hdeque := hunclaim.setDeque v (s.deque v).tail (fun u hu hc => by
    by_cases huw : u = w
    · rw [huw, show (Ghost.setClaim _ w false).claim w = false from Function.update_self _ _ _] at hc
      cases hc
    · exact absurd rfl (hi.busy_ne hbusy hu huw))
  exact hdeque.set hbusy (Nat.lt_succ_self _) (Function.update_self _ _ _) hslots
    (fun u h _ hh => hhands u h hh) (fun _ => hsees.2 hne) (fun _ _ => Function.update_self _ _ _)
    (fun _ => hroot) (fun h hh => ⟨hh, hhands w h hh⟩)

end Steals

section Regions

/-- A worker begins or ends to end the region. -/
def Ghost.setEnding (g : Ghost) (w : WorkerId) (ending : Bool) : Ghost :=
  { g with ending := update g.ending w ending }

/-- While the root closure is in a slot, its region has not ended. -/
theorem Consistent.cilkified (hi : Consistent s g) (hslot : s.slot v = some rootClosure) :
    s.cilkified = true ∧ ∀ u, g.ending u = false := by
  have hnot : ¬ (s.cilkified = false ∨ ∃ u, g.ending u = true) :=
    fun h => (hi.idle h).1 v hslot
  constructor
  · cases hc : s.cilkified with
    | true => rfl
    | false => exact absurd (.inl hc) hnot
  · intro u
    cases hu : g.ending u with
    | false => rfl
    | true => exact absurd (.inr ⟨u, hu⟩) hnot

/-- The root closure leaves the slot at the end of a region. -/
theorem Consistent.clearSlot (hi : Consistent s g) (hbusy : g.busy w = some w)
    (hslot : s.slot w = some rootClosure) (hrun : s.status rootClosure = .running) :
    Consistent (s.clearSlot w) ((g.setView w .empty (g.hand w)).setEnding w true) := by
  obtain ⟨hcilkified, hending⟩ := hi.cilkified hslot
  have hslots : ∀ v' c, update s.slot w none v' = some c →
      s.slot v' = some c ∧ c ≠ rootClosure := by
    intro v' c hc
    by_cases hv : v' = w
    · rw [hv, Function.update_self] at hc
      cases hc
    · rw [Function.update_of_ne hv] at hc
      refine ⟨hc, ?_⟩
      rintro rfl
      exact hv (hi.slot_unique hc hslot)
  have hchange : Consistent (s.clearSlot w) (g.setView w .empty (g.hand w)) := by
    refine hi.change (hi.slotLt w _ hslot) (fun v' hne => ⟨?_, fun _ _ => rfl⟩) (fun _ _ => rfl)
      (fun v' c hc _ => (hslots v' c hc).1) (fun v' c hc => ?_) (fun v' hv' => ?_)
      (fun u k _ hk => hi.hand_ne hslot hk)
      (fun k hk => hi.hand_kept hk (fun v' hc => (hslots v' _ hc).1) rfl) (fun _ h => h)
      (fun _ _ h => h) (fun p hp _ => hi.live _ p hp (.inl ⟨w, hslot⟩))
      (fun c hc hp => hi.callee c _ hc hp) hi.join (fun _ hroot => absurd hslot (hroot.1 w))
    · rw [hbusy] at hne
      exact Function.update_of_ne (fun h => hne (congrArg some h.symm)) _ _
    · obtain ⟨hold, hne⟩ := hslots v' c hc
      refine Eq.trans ?_ (hi.owner v' c hold)
      split_ifs
      · exact Function.update_of_ne hne _ _
      · rfl
    · rw [hbusy] at hv'
      cases hv'
      exact ⟨Function.update_self _ _ _, fun h => absurd rfl h⟩
  have hunique : ∀ u, update g.ending w true u = true → u = w := by
    intro u hu
    by_cases huw : u = w
    · exact huw
    · rw [Function.update_of_ne huw, hending u] at hu
      cases hu
  refine { hchange with
    free := hchange.free, sees := fun v' u hu => ?_, hand := hchange.hand,
    idle := fun _ => ⟨fun v' hc => (hslots v' _ hc).2 rfl, fun u k hk => ?_, fun hsus => ?_⟩,
    endingCilkified := fun _ _ => hcilkified,
    endingUnique := fun u u' hu hu' => (hunique u hu).trans (hunique u' hu').symm }
  · exact (hchange.sees v' u hu).frame rfl (fun _ _ => rfl) rfl rfl rfl rfl rfl
  · have hk' : g.hand u = some k := (congrFun (Function.update_eq_self w g.hand) u).symm.trans hk
    exact hi.hand_ne hslot hk'
  · have hsus' : s.status rootClosure = .suspended := hsus
    rw [hrun] at hsus'
    cases hsus'

/-- The end of the region is signalled. -/
theorem Consistent.signalUncilkified (hi : Consistent s g) (hend : g.ending w = true) :
    Consistent { s with cilkified := false } (g.setEnding w false) := by
  have hnone : ∀ u, update g.ending w false u ≠ true := by
    intro u hu
    by_cases huw : u = w
    · rw [huw, Function.update_self] at hu
      cases hu
    · rw [Function.update_of_ne huw] at hu
      exact huw (hi.endingUnique u w hu hend)
  exact { hi with
    free := hi.free, hand := hi.hand,
    sees := fun v' u hu => (hi.sees v' u hu).frame rfl (fun _ _ => rfl) rfl rfl rfl rfl rfl
    idle := fun _ => hi.idle (.inr ⟨w, hend⟩)
    endingCilkified := fun u hu => absurd hu (hnone u)
    endingUnique := fun u u' hu _ => absurd hu (hnone u) }

/-- The boss starts a region with the root closure. -/
theorem Consistent.invokeCilkifiedRoot (hi : Consistent s g) (hbusy : g.busy w = none)
    (huncilkified : s.cilkified = false) (frame : FrameId) :
    Consistent (s.invokeCilkifiedRoot frame)
      (g.setView w (g.view w) (some ⟨rootClosure, .ready, true⟩)) := by
  obtain ⟨hslots, hhands, hns⟩ := hi.idle (.inl huncilkified)
  have hnone : ∀ u, g.ending u ≠ true := by
    intro u hu
    have hc := hi.endingCilkified u hu
    rw [huncilkified] at hc
    cases hc
  have hbegin : Consistent { s with cilkified := true } g := { hi with
    free := hi.free, hand := hi.hand,
    sees := fun v' u hu => (hi.sees v' u hu).frame rfl (fun _ _ => rfl) rfl rfl rfl rfl rfl
    idle := fun h => by
      rcases h with h | ⟨u, hu⟩
      · cases h
      · exact absurd hu (hnone u)
    endingCilkified := fun _ _ => rfl }
  have hkept : ∀ c, c ≠ rootClosure → update s.status rootClosure .ready c = s.status c :=
    fun c hc => Function.update_of_ne hc _ _
  have hready : Consistent (({ s with cilkified := true } : LockState).setStatus rootClosure .ready)
      (g.setView w (g.view w) (some ⟨rootClosure, .ready, true⟩)) := hbegin.change
    (show rootClosure < s.numClosures from hi.pos)
    (fun v' _ => ⟨rfl, fun c hc => hkept c fun h => hslots v' (h ▸ hc)⟩) hkept
    (fun _ _ h _ => h) hi.owner (fun v' hv' => by
      rw [hbusy] at hv'
      cases hv') (fun u k _ hk => hhands u k hk) (fun k hk => by
      cases hk
      exact ⟨Function.update_self _ _ _, (fun h => by cases h), hslots, .inl rfl⟩)
    (fun _ h => h) (fun _ _ h => h)
    (fun p hp _ => absurd (hi.parentLt _ p hp).1 (Nat.not_lt_zero p))
    (fun c hc hp => absurd (hi.callee c _ hc hp) hns) hi.join (fun h => by
      rcases h with h | ⟨u, hu⟩
      · cases h
      · exact absurd hu (hnone u))
  exact { hready with busy := hready.busy }

end Regions

end Cheetah
