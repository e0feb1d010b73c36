import Cheetah.Ownership

/-! Each statement keeps the state consistent with what the workers own. -/
namespace Cheetah
open Function (update)

section Frame

variable {s s' : LockState} {g g' : Ghost} {w v : WorkerId} {cl : ClosureId} {view : View}

theorem Consistent.goto {code : List Instr} (hi : Consistent s g) :
    Consistent (s.goto w code) g := { hi with busy := hi.busy }

theorem Consistent.goAfter {after : After} (hi : Consistent s g) :
    Consistent (s.goAfter w after) g := { hi with busy := hi.busy }

theorem AtRest.congr {home : Bool} (h : AtRest s v home) (hslot : s'.slot v = s.slot v)
    (hstatus : ∀ c, s.slot v = some c → s'.status c = s.status c) : AtRest s' v home := by
  unfold AtRest at h ⊢
  rw [hslot]
  cases home with
  | false => exact h
  | true =>
    obtain ⟨c, hc, hrun⟩ := h
    exact ⟨c, hc, (hstatus c hc).trans hrun⟩

/-- What a worker sees stays while nothing changes of the slot, and no closure gets a new callee. -/
theorem Sees.congr (h : Sees s g w v view) (hslot : s'.slot v = s.slot v)
    (hstatus : ∀ c, s.slot v = some c → s'.status c = s.status c)
    (hhome : g'.home v = g.home v)
    (hlocks : ∀ c, view = .parked c → c ∈ g.locks w → c ∈ g'.locks w)
    (hhand : ∀ h, g.hand w = some h →
      ∃ h', g'.hand w = some h' ∧ h'.closure = h.closure ∧ (h.live = true → h'.live = true))
    (hcallee : ∀ c d, s.slot v = some c → g'.counted d = true → s'.callParent d = some c →
      g.counted d = true ∧ s.callParent d = some c)
    (hcall : ∀ h, g.hand w = some h → s'.callParent h.closure = s.callParent h.closure) :
    Sees s' g' w v view := by
  cases view with
  | atRest =>
    show AtRest s' v (g'.home v)
    rw [hhome]
    exact AtRest.congr h hslot hstatus
  | empty => exact ⟨hslot.trans h.1, fun hne => hhome.trans (h.2 hne)⟩
  | running c =>
    exact ⟨hslot.trans h.1, (hstatus c h.1).trans h.2.1, fun hne => hhome.trans (h.2.2 hne)⟩
  | returning c => exact ⟨hslot.trans h.1, (hstatus c h.1).trans h.2.1, h.2.2⟩
  | parked c =>
    obtain ⟨hc, hsus, hlock, hfull, hnew⟩ := h
    refine ⟨hslot.trans hc, (hstatus c hc).trans hsus, hlocks c rfl hlock,
      fun hne => hhome.trans (hfull hne), fun d hd hp => ?_⟩
    obtain ⟨hd', hp'⟩ := hcallee c d hc hd hp
    obtain ⟨k, hk, hclosure⟩ := hnew d hd' hp'
    obtain ⟨k', hk', hsame, -⟩ := hhand k hk
    exact ⟨k', hk', hsame.trans hclosure⟩
  | callParent c =>
    obtain ⟨hc, hsus, hown, t, status, ht, hp⟩ := h
    obtain ⟨k, hk, hclosure, hlive⟩ := hhand _ ht
    refine ⟨hslot.trans hc, (hstatus c hc).trans hsus, hown, t, k.status, ?_,
      (hcall _ ht).trans hp⟩
    obtain ⟨closure, kstatus, live⟩ := k
    obtain rfl : closure = t := hclosure
    obtain rfl : live = true := hlive rfl
    exact hk

/-- The frame rule for a worker whose locks and closure stay. -/
theorem Sees.frame (h : Sees s g w v view) (hslot : s'.slot v = s.slot v)
    (hstatus : ∀ c, s.slot v = some c → s'.status c = s.status c)
    (hhome : g'.home v = g.home v) (hlocks : g'.locks w = g.locks w)
    (hhand : g'.hand w = g.hand w) (hcounted : g'.counted = g.counted)
    (hparent : s'.callParent = s.callParent) : Sees s' g' w v view := by
  refine h.congr hslot hstatus hhome (fun c _ hc => hlocks ▸ hc)
    (fun k hk => ⟨k, hhand.trans hk, rfl, id⟩) (fun c d _ hd hp => ?_) (fun _ _ => by rw [hparent])
  rw [hcounted] at hd
  rw [hparent] at hp
  exact ⟨hd, hp⟩

/-- A closure in a slot is running, or the slot is locked and its owner sees it otherwise. -/
theorem Consistent.slot_cases (hi : Consistent s g) (hslot : s.slot v = some cl) :
    s.status cl = .running ∨ ∃ w, g.busy w = some v ∧
      (g.view w = .returning cl ∨ g.view w = .parked cl ∨ g.view w = .callParent cl) := by
  have hrest : AtRest s v (g.home v) → s.status cl = .running := by
    intro h
    unfold AtRest at h
    cases hhome : g.home v with
    | false =>
      rw [hhome] at h
      rw [hslot] at h
      cases h
    | true =>
      rw [hhome] at h
      obtain ⟨c, hc, hrun⟩ := h
      rw [hslot] at hc
      cases hc
      exact hrun
  cases hown : s.busyOwner v with
  | none => exact .inl (hrest (hi.free v hown))
  | some w =>
    have hbusy := (hi.busy v w).mp hown
    have hsees := hi.sees v w hbusy
    cases hview : g.view w with
    | atRest =>
      rw [hview] at hsees
      exact .inl (hrest hsees)
    | empty =>
      rw [hview] at hsees
      rw [hsees.1] at hslot
      cases hslot
    | running c =>
      rw [hview] at hsees
      have hc := hsees.1
      rw [hslot] at hc
      cases hc
      exact .inl hsees.2.1
    | returning c =>
      rw [hview] at hsees
      have hc := hsees.1
      rw [hslot] at hc
      cases hc
      exact .inr ⟨w, hbusy, .inl hview⟩
    | parked c =>
      rw [hview] at hsees
      have hc := hsees.1
      rw [hslot] at hc
      cases hc
      exact .inr ⟨w, hbusy, .inr (.inl hview)⟩
    | callParent c =>
      rw [hview] at hsees
      have hc := hsees.1
      rw [hslot] at hc
      cases hc
      exact .inr ⟨w, hbusy, .inr (.inr hview)⟩

/-- No closure is in two slots. -/
theorem Consistent.slot_unique (hi : Consistent s g) {u : WorkerId} (hv : s.slot v = some cl)
    (hu : s.slot u = some cl) : v = u :=
  Option.some.inj ((hi.owner v cl hv).symm.trans (hi.owner u cl hu))

end Frame

section Locks

variable {s : LockState} {g : Ghost} {w v : WorkerId} {cl : ClosureId}

/-- The slot is locked by a worker that has no other slot. -/
def Ghost.lockBusy (g : Ghost) (w v : WorkerId) (view : View) : Ghost :=
  { g with busy := update g.busy w (some v), view := update g.view w view }

theorem Consistent.lockBusy (hi : Consistent s g) (hfree : s.busyOwner v = none)
    (hnone : g.busy w = none) (hclaim : g.claim w = false) (view : View)
    (hview : AtRest s v (g.home v) → Sees s g w v view) :
    Consistent (s.setBusyOwner v (some w)) (g.lockBusy w v view) := by
  have hbusy : ∀ v' u, update s.busyOwner v (some w) v' = some u ↔
      update g.busy w (some v) u = some v' := by
    intro v' u
    by_cases hv : v' = v
    · rw [hv, Function.update_self]
      by_cases hu : u = w
      · rw [hu, Function.update_self]
        exact iff_of_true rfl rfl
      · rw [Function.update_of_ne hu]
        refine iff_of_false (fun h => hu (Option.some.inj h).symm) (fun h => ?_)
        rw [← hi.busy, hfree] at h
        cases h
    · rw [Function.update_of_ne hv, hi.busy]
      by_cases hu : u = w
      · rw [hu, Function.update_self, hnone]
        exact iff_of_false (fun h => by cases h) (fun h => hv (Option.some.inj h).symm)
      · rw [Function.update_of_ne hu]
  have hothers : ∀ u, u ≠ w → (g.lockBusy w v view).busy u = g.busy u ∧
      (g.lockBusy w v view).view u = g.view u :=
    fun u hu => ⟨Function.update_of_ne hu _ _, Function.update_of_ne hu _ _⟩
  have hself : (g.lockBusy w v view).busy w = some v ∧ (g.lockBusy w v view).view w = view :=
    ⟨Function.update_self _ _ _, Function.update_self _ _ _⟩
  refine { hi with busy := hbusy, free := fun v' hv' => ?_, sees := fun v' u hu => ?_,
                   claims := fun v' u hu hc => ?_ }
  · by_cases hv : v' = v
    · rw [hv, show (s.setBusyOwner v (some w)).busyOwner v = some w from
        Function.update_self _ _ _] at hv'
      cases hv'
    · exact hi.free v' ((Function.update_of_ne hv _ _).symm.trans hv')
  · by_cases huw : u = w
    · rw [huw, hself.1] at hu
      cases hu
      rw [huw, hself.2]
      exact (hview (hi.free v hfree)).frame rfl (fun _ _ => rfl) rfl rfl rfl rfl rfl
    · rw [(hothers u huw).1] at hu
      rw [(hothers u huw).2]
      exact (hi.sees v' u hu).frame rfl (fun _ _ => rfl) rfl rfl rfl rfl rfl
  · by_cases huw : u = w
    · have hc' : g.claim u = true := hc
      rw [huw, hclaim] at hc'
      cases hc'
    · rw [(hothers u huw).1] at hu
      exact hi.claims v' u hu hc

/-- The slot is unlocked as its worker would leave it. -/
def Ghost.unlockBusy (g : Ghost) (w v : WorkerId) : Ghost :=
  { g with
    busy := update g.busy w none
    view := update g.view w .atRest
    home := update g.home w (if v = w then (g.view w).full (g.home w) else g.home w) }

theorem Sees.settled {view : View} (h : Sees s g w v view)
    (hsettled : view.settled (decide (v = w)) = true) :
    AtRest s v (if v = w then view.full (g.home w) else g.home v) := by
  cases view with
  | atRest =>
    split_ifs with hv
    · rw [← hv]
      exact h
    · exact h
  | empty =>
    have hv : v = w := of_decide_eq_true hsettled
    rw [if_pos hv]
    exact h.1
  | running c =>
    have hrest : AtRest s v true := ⟨c, h.1, h.2.1⟩
    split_ifs with hv
    · exact hrest
    · rw [h.2.2 hv]
      exact hrest
  | returning c => cases hsettled
  | parked c => cases hsettled
  | callParent c => cases hsettled

theorem Consistent.unlockBusy (hi : Consistent s g) (hbusy : g.busy w = some v)
    (hsettled : (g.view w).settled (decide (v = w)) = true) :
    Consistent (s.setBusyOwner v none) (g.unlockBusy w v) := by
  have howner := (hi.busy v w).mpr hbusy
  have hothers : ∀ u, u ≠ w → (g.unlockBusy w v).busy u = g.busy u ∧
      (g.unlockBusy w v).view u = g.view u :=
    fun u hu => ⟨Function.update_of_ne hu _ _, Function.update_of_ne hu _ _⟩
  have hself : (g.unlockBusy w v).busy w = none := Function.update_self _ _ _
  have hunlocked : (s.setBusyOwner v none).busyOwner v = none := Function.update_self _ _ _
  have hlocked : ∀ v', v' ≠ v → (s.setBusyOwner v none).busyOwner v' = s.busyOwner v' :=
    fun v' hv' => Function.update_of_ne hv' _ _
  have hhome : ∀ v', v' ≠ v → (g.unlockBusy w v).home v' = g.home v' := by
    intro v' hv'
    unfold Ghost.unlockBusy
    dsimp only
    by_cases hw : v' = w
    · rw [hw, Function.update_self, if_neg fun h => hv' (hw.trans h.symm)]
    · exact Function.update_of_ne hw _ _
  have hhomeSelf : (g.unlockBusy w v).home v =
      if v = w then (g.view w).full (g.home w) else g.home v := by
    unfold Ghost.unlockBusy
    dsimp only
    by_cases hw : v = w
    · rw [hw, Function.update_self]
    · rw [Function.update_of_ne hw, if_neg hw]
  refine { hi with busy := fun v' u => ?_, free := fun v' hv' => ?_, sees := fun v' u hu => ?_,
                   claims := fun v' u hu hc => ?_ }
  · by_cases hu : u = w
    · rw [hu, hself]
      refine iff_of_false (fun h => ?_) (fun h => by cases h)
      by_cases hv : v' = v
      · rw [hv, hunlocked] at h
        cases h
      · rw [hlocked v' hv, hi.busy, hbusy] at h
        exact hv (Option.some.inj h).symm
    · rw [(hothers u hu).1]
      by_cases hv : v' = v
      · rw [hv, hunlocked]
        refine iff_of_false (fun h => by cases h) (fun h => ?_)
        rw [← hi.busy, howner] at h
        exact hu (Option.some.inj h).symm
      · rw [hlocked v' hv]
        exact hi.busy v' u
  · by_cases hv : v' = v
    · rw [hv, hhomeSelf]
      exact (hi.sees v w hbusy).settled hsettled
    · rw [hhome v' hv]
      exact hi.free v' ((hlocked v' hv).symm.trans hv')
  · by_cases huw : u = w
    · rw [huw, hself] at hu
      cases hu
    · rw [(hothers u huw).1] at hu
      rw [(hothers u huw).2]
      have hv : v' ≠ v := by
        rintro rfl
        rw [← hi.busy, howner] at hu
        exact huw (Option.some.inj hu).symm
      exact (hi.sees v' u hu).frame rfl (fun _ _ => rfl) (hhome v' hv) rfl rfl rfl rfl
  · by_cases huw : u = w
    · rw [huw, hself] at hu
      cases hu
    · rw [(hothers u huw).1] at hu
      have hv : v' ≠ v := by
        rintro rfl
        rw [← hi.busy, howner] at hu
        exact huw (Option.some.inj hu).symm
      have hold := hi.claims v' u hu hc
      exact ⟨hold.1, hold.2.1, (hhome v' hv).trans hold.2.2⟩

def Ghost.setLocks (g : Ghost) (w : WorkerId) (locks : List ClosureId) : Ghost :=
  { g with locks := update g.locks w locks }

/-- The lock of one closure changes hands. -/
theorem Consistent.setLocks (hi : Consistent s g) {self : Option WorkerId}
    {locks : List ClosureId} (hnodup : locks.Nodup) (hlt : ∀ d ∈ locks, d < s.numClosures)
    (hself : self = some w ∧ cl ∈ locks ∨ self = none ∧ cl ∉ locks)
    (hfree : ∀ u, u ≠ w → cl ∉ g.locks u)
    (hrest : ∀ d, d ≠ cl → (d ∈ locks ↔ d ∈ g.locks w))
    (hparked : g.view w = .parked cl → cl ∈ locks) :
    Consistent (s.setMutexOwner cl self) (g.setLocks w locks) := by
  have hothers : ∀ u, u ≠ w → (g.setLocks w locks).locks u = g.locks u :=
    fun u hu => Function.update_of_ne hu _ _
  have hnew : (g.setLocks w locks).locks w = locks := Function.update_self _ _ _
  have hmutex : (s.setMutexOwner cl self).mutexOwner cl = self := Function.update_self _ _ _
  have hkept : ∀ d, d ≠ cl → (s.setMutexOwner cl self).mutexOwner d = s.mutexOwner d :=
    fun d hd => Function.update_of_ne hd _ _
  refine { hi with locks := fun d u => ?_, nodup := fun u => ?_, sees := fun v' u hu => ?_,
                   lockLt := fun u d hd => ?_ }
  · by_cases hd : d = cl
    · rw [hd, hmutex]
      by_cases huw : u = w
      · rw [huw, hnew]
        rcases hself with ⟨hsome, hin⟩ | ⟨hnone, hout⟩
        · exact iff_of_true hsome hin
        · exact iff_of_false (by rw [hnone]; exact fun h => by cases h) hout
      · rw [hothers u huw]
        refine iff_of_false (fun h => ?_) (hfree u huw)
        rcases hself with ⟨hsome, -⟩ | ⟨hnone, -⟩
        · rw [hsome] at h
          exact huw (Option.some.inj h).symm
        · rw [hnone] at h
          cases h
    · rw [hkept d hd, hi.locks]
      by_cases huw : u = w
      · rw [huw, hnew]
        exact (hrest d hd).symm
      · rw [hothers u huw]
  · by_cases huw : u = w
    · rw [huw, hnew]
      exact hnodup
    · rw [hothers u huw]
      exact hi.nodup u
  · refine (hi.sees v' u hu).congr rfl (fun _ _ => rfl) rfl (fun c hview hc => ?_)
      (fun k hk => ⟨k, hk, rfl, id⟩) (fun _ _ _ hd hp => ⟨hd, hp⟩) (fun _ _ => rfl)
    by_cases huw : u = w
    · rw [huw, hnew]
      rw [huw] at hview hc
      by_cases hcc : c = cl
      · rw [hcc] at hview ⊢
        exact hparked hview
      · exact (hrest c hcc).mpr hc
    · rw [hothers u huw]
      exact hc
  · by_cases huw : u = w
    · rw [huw, hnew] at hd
      exact hlt d hd
    · rw [hothers u huw] at hd
      exact hi.lockLt u d hd

theorem Consistent.lock (hi : Consistent s g) (hfree : s.mutexOwner cl = none)
    (hlt : cl < s.numClosures) :
    Consistent (s.setMutexOwner cl (some w)) (g.setLocks w (cl :: g.locks w)) := by
  have hnone : ∀ u, cl ∉ g.locks u := by
    intro u hu
    rw [← hi.locks, hfree] at hu
    cases hu
  refine hi.setLocks (List.nodup_cons.mpr ⟨hnone w, hi.nodup w⟩)
    (List.forall_mem_cons.mpr ⟨hlt, hi.lockLt w⟩) (.inl ⟨rfl, List.mem_cons_self⟩) (fun u _ => hnone u) (fun d hd => ?_)
    (fun _ => List.mem_cons_self)
  rw [List.mem_cons]
  exact or_iff_right hd

theorem Consistent.unlock (hi : Consistent s g) (hmem : cl ∈ g.locks w)
    (hview : g.view w ≠ .parked cl) :
    Consistent (s.setMutexOwner cl none) (g.setLocks w ((g.locks w).erase cl)) := by
  have howner := (hi.locks cl w).mpr hmem
  refine hi.setLocks ((hi.nodup w).erase cl) (fun d hd => hi.lockLt w d (List.mem_of_mem_erase hd))
    (.inr ⟨rfl, fun h => ((hi.nodup w).mem_erase_iff.mp h).1 rfl⟩) (fun u huw hu => ?_)
    (fun d hd => ?_) (fun h => absurd h hview)
  · rw [← hi.locks, howner] at hu
    exact huw (Option.some.inj hu).symm
  · rw [(hi.nodup w).mem_erase_iff]
    exact and_iff_right hd

end Locks

section Slots

variable {s : LockState} {g : Ghost} {w v : WorkerId} {cl : ClosureId}

/-- The worker sees its slot otherwise, and has another closure in its hands. -/
def Ghost.setView (g : Ghost) (w : WorkerId) (view : View) (hand : Option Held) : Ghost :=
  { g with view := update g.view w view, hand := update g.hand w hand }

theorem setView_self {view : View} {hand : Option Held} :
    (g.setView w view hand).view w = view ∧ (g.setView w view hand).hand w = hand :=
  ⟨Function.update_self _ _ _, Function.update_self _ _ _⟩

theorem setView_of_ne {view : View} {hand : Option Held} {u : WorkerId} (hu : u ≠ w) :
    (g.setView w view hand).view u = g.view u ∧ (g.setView w view hand).hand u = g.hand u :=
  ⟨Function.update_of_ne hu _ _, Function.update_of_ne hu _ _⟩

theorem xtract_eq (hslot : s.slot v = some cl) : s.xtract v =
    { s with slot := update s.slot v none, owner := update s.owner cl none } := by
  simp only [LockState.xtract, hslot]

/-- The owner of a slot is the only one who sees it. -/
theorem Consistent.busy_ne (hi : Consistent s g) {u v' : WorkerId} (hbusy : g.busy w = some v)
    (hu : g.busy u = some v') (hne : u ≠ w) : v' ≠ v := by
  rintro rfl
  rw [← hi.busy, (hi.busy v' w).mpr hbusy] at hu
  exact hne (Option.some.inj hu).symm

/-- The places, the statuses and the join counters after a statement. -/
def LockState.place (s : LockState) (slot : WorkerId → Option ClosureId)
    (owner : ClosureId → Option WorkerId) (status : ClosureId → ClosureStatus)
    (joinCounter : ClosureId → ℕ) : LockState :=
  { s with slot := slot, owner := owner, status := status, joinCounter := joinCounter }

/-- A statement of worker `w` that moves one closure, or changes its status. No one else sees the
closure, and `lost` closures are no longer counted. -/
theorem Consistent.change (hi : Consistent s g) {slot : WorkerId → Option ClosureId}
    {owner : ClosureId → Option WorkerId} {status : ClosureId → ClosureStatus}
    {joinCounter : ClosureId → ℕ} {view : View} {hand : Option Held} {counted : ClosureId → Bool}
    (hlt : cl < s.numClosures)
    (huntouched : ∀ v, g.busy w ≠ some v →
      slot v = s.slot v ∧ ∀ c, s.slot v = some c → status c = s.status c)
    (hstatus : ∀ c, c ≠ cl → status c = s.status c)
    (hfrom : ∀ v c, slot v = some c → c ≠ cl → s.slot v = some c)
    (howner : ∀ v c, slot v = some c → owner c = some v)
    (hsees : ∀ v, g.busy w = some v → Sees (s.place slot owner status joinCounter)
      { g.setView w view hand with counted := counted } w v view)
    (hprivate : ∀ u k, u ≠ w → g.hand u = some k → k.closure ≠ cl)
    (hhand : ∀ k, hand = some k → status k.closure = k.status ∧ k.status ≠ .suspended ∧
      (∀ v, slot v ≠ some k.closure) ∧ (k.closure = cl ∨
        ∃ old, g.hand w = some old ∧ old.closure = k.closure ∧ (k.live = true → old.live = true)))
    (hcounted : ∀ d, counted d = true → g.counted d = true)
    (hkept : ∀ c, Alive slot (update g.hand w hand) status c → g.counted c = true →
      counted c = true)
    (hlive : ∀ parent, ChildOf s cl parent → Alive slot (update g.hand w hand) status cl →
      g.counted cl = true)
    (hcallee : ∀ d, counted d = true → s.callParent d = some cl → status cl = .suspended)
    (hjoin : ∀ c, joinCounter c = tally s.numClosures (countsFor s counted c) id)
    (hroot : (s.cilkified = false ∨ ∃ w, g.ending w = true) → RootIdle s g →
      cl ≠ rootClosure) :
    Consistent (s.place slot owner status joinCounter)
      { g.setView w view hand with counted := counted } := by
  have hfresh : ∀ k, hand = some k → ∀ u k', u ≠ w → g.hand u = some k' →
      k.closure ≠ k'.closure := by
    intro k hk u k' hu hk' heq
    rcases (hhand k hk).2.2.2 with hcl | ⟨old, hold, hsame, -⟩
    · exact hprivate u k' hu hk' (heq.symm.trans hcl)
    · exact hu (hi.handUnique u w k' old hk' hold (heq.symm.trans hsame.symm))
  have hnew : update g.hand w hand w = hand := Function.update_self _ _ _
  have hothers : ∀ u, u ≠ w → update g.hand w hand u = g.hand u :=
    fun u hu => Function.update_of_ne hu _ _
  refine { hi with free := fun v' hv' => ?_, sees := fun v' u hu => ?_, owner := howner,
                   hand := fun u k hk => ?_, handUnique := fun u u' k k' hk hk' heq => ?_,
                   live := fun c parent hp hc => ?_, callee := fun d parent hd hp => ?_,
                   calleeUnique := fun c d parent hc hd => ?_, join := hjoin,
                   slotLt := fun v' c hc => ?_, handLt := fun u k hk => ?_,
                   countedLt := fun d hd => ?_, suspendedLt := fun c hc => ?_,
                   idle := fun h => ?_ }
  · have hfree : s.busyOwner v' = none := hv'
    have hne : g.busy w ≠ some v' := by
      intro hbusy
      rw [(hi.busy v' w).mpr hbusy] at hfree
      cases hfree
    exact (hi.free v' hfree).congr (huntouched v' hne).1 (huntouched v' hne).2
  · by_cases huw : u = w
    · rw [huw] at hu ⊢
      rw [show ({ g.setView w view hand with counted := counted } : Ghost).view w = view from
        Function.update_self _ _ _]
      exact hsees v' hu
    · have howns : g.busy u = some v' := hu
      have hne : g.busy w ≠ some v' := fun hbusy => hi.busy_ne hbusy howns huw rfl
      rw [show ({ g.setView w view hand with counted := counted } : Ghost).view u = g.view u from
        Function.update_of_ne huw _ _]
      exact (hi.sees v' u howns).congr (huntouched v' hne).1 (huntouched v' hne).2 rfl
        (fun _ _ hc => hc) (fun k hk => ⟨k, (hothers u huw).trans hk, rfl, id⟩)
        (fun c d _ hd hp => ⟨hcounted d hd, hp⟩) (fun _ _ => rfl)
  · by_cases huw : u = w
    · rw [huw] at hk
      have hk' := hhand k (hnew.symm.trans hk)
      exact ⟨hk'.1, hk'.2.1, hk'.2.2.1⟩
    · have hk' : g.hand u = some k := (hothers u huw).symm.trans hk
      obtain ⟨hs, hns, hslots⟩ := hi.hand u k hk'
      have hne := hprivate u k huw hk'
      exact ⟨(hstatus _ hne).trans hs, hns, fun v' hc => hslots v' (hfrom v' _ hc hne)⟩
  · by_cases huw : u = w
    · by_cases huw' : u' = w
      · exact huw.trans huw'.symm
      · rw [huw] at hk
        exact absurd heq (hfresh k (hnew.symm.trans hk) u' k' huw'
          ((hothers u' huw').symm.trans hk'))
    · by_cases huw' : u' = w
      · rw [huw'] at hk'
        exact absurd heq.symm (hfresh k' (hnew.symm.trans hk') u k huw
          ((hothers u huw).symm.trans hk))
      · exact hi.handUnique u u' k k' ((hothers u huw).symm.trans hk)
          ((hothers u' huw').symm.trans hk') heq
  · refine hkept c hc ?_
    by_cases hcl : c = cl
    · rw [hcl] at hp ⊢
      exact hlive parent hp (hcl ▸ hc)
    · apply hi.live c parent hp
      rcases hc with ⟨v', hc⟩ | ⟨u, st, hk⟩ | hc
      · exact .inl ⟨v', hfrom v' c hc hcl⟩
      · by_cases huw : u = w
        · rw [huw] at hk
          rcases (hhand _ (hnew.symm.trans hk)).2.2.2 with hsame | ⟨old, hold, hsame, hlive⟩
          · exact absurd hsame hcl
          · obtain ⟨closure, st', live⟩ := old
            obtain rfl : closure = c := hsame
            obtain rfl : live = true := hlive rfl
            exact .inr (.inl ⟨w, st', hold⟩)
        · exact .inr (.inl ⟨u, st, (hothers u huw).symm.trans hk⟩)
      · exact .inr (.inr ((hstatus c hcl).symm.trans hc))
  · by_cases hcl : parent = cl
    · rw [hcl] at hp ⊢
      exact hcallee d hd hp
    · exact (hstatus parent hcl).trans (hi.callee d parent (hcounted d hd) hp)
  · exact hi.calleeUnique c d parent (hcounted c hc) (hcounted d hd)
  · by_cases hcl : c = cl
    · rw [hcl]
      exact hlt
    · exact hi.slotLt v' c (hfrom v' c hc hcl)
  · by_cases huw : u = w
    · rw [huw] at hk
      rcases (hhand k (hnew.symm.trans hk)).2.2.2 with hcl | ⟨old, hold, hsame, -⟩
      · rw [hcl]
        exact hlt
      · rw [← hsame]
        exact hi.handLt w old hold
    · exact hi.handLt u k ((hothers u huw).symm.trans hk)
  · exact hi.countedLt d (hcounted d hd)
  · by_cases hcl : c = cl
    · rw [hcl]
      exact hlt
    · exact hi.suspendedLt c ((hstatus c hcl).symm.trans hc)
  · have hidle := hi.idle h
    have hne := hroot h hidle
    obtain ⟨hslots, hhands, hns⟩ := hidle
    refine ⟨fun v' hc => hslots v' (hfrom v' _ hc hne.symm), fun u k hk => ?_, ?_⟩
    · by_cases huw : u = w
      · rw [huw] at hk
        rcases (hhand k (hnew.symm.trans hk)).2.2.2 with hcl | ⟨old, hold, hsame, -⟩
        · rw [hcl]
          exact hne
        · rw [← hsame]
          exact hhands w old hold
      · exact hhands u k ((hothers u huw).symm.trans hk)
    · have hsame : status rootClosure = s.status rootClosure := hstatus rootClosure hne.symm
      intro hc
      exact hns (hsame.symm.trans hc)

end Slots

end Cheetah
