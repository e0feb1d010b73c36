import Cheetah.SchedulerRuns

/-! Joins: what a sync waits for, who resumes a suspended closure, and how closures end. -/
namespace Cheetah
open Function (update)

variable {κ V : Type} {s s' : Runtime κ V}

/-- The spawned and the called children of a closure, as its links have them. -/
structure IsFamily (s : Runtime κ V) (c : ClosureId) (spawned called : List ClosureId) : Prop where
  linked : Linked s.leftSib s.rightSib spawned
  rightMost : s.rightMostChild c = spawned.getLast?
  inOrder : spawned.Pairwise (· < ·)
  mem_spawned : ∀ k, k ∈ spawned ↔ s.live k ∧ s.spawnParent k = some c
  mem_called : ∀ k, k ∈ called ↔ s.live k ∧ s.callParent k = some c
  oneCalled : called.length ≤ 1

theorem SchedInv.family (hi : SchedInv s) {c : ClosureId} (hc : s.live c) :
    IsFamily s c (s.children c) (s.callee c).toList where
  linked := hi.links.linked c hc
  rightMost := hi.links.rightMost c hc
  inOrder := hi.tree.sorted c hc
  mem_spawned := fun k => hi.links.child c k hc
  mem_called := fun k => by
    rw [Option.mem_toList]
    exact hi.links.called c k hc
  oneCalled := by cases s.callee c <;> simp

theorem SchedInv.join_eq (hi : SchedInv s) {c : ClosureId} (hc : s.live c) :
    s.joinCounter c = (s.children c).length + (s.callee c).toList.length := by
  rw [hi.links.joinCounter c hc]
  cases s.callee c <;> simp

/-- A suspended closure has something to wait for. -/
theorem SchedInv.suspended_waits (hi : SchedInv s) {c : ClosureId} (hc : s.live c)
    (hsuspended : s.status c = .suspended) :
    (∀ w, (s.phase w).closure ≠ some c) ∧ s.joinCounter c ≠ 0 := by
  have hfree : ∀ w, (s.phase w).closure ≠ some c := fun w hw =>
    hi.hold.not_suspended hw hsuspended
  exact ⟨hfree, (hi.hold.waiting c hc hfree).2⟩

variable [DecidableEq κ] [Monoid V]

/-- The flag of a closure's frame is cleared by its own sync, or by the worker that returns its
last child. -/
theorem SchedInv.sync_cases (hi : SchedInv s) (hs : SchedStep s s') {c : ClosureId} {f : FrameId}
    (hc : s.live c) (hframe : s.frame c = some f) (hunsynched : s.unsynched f = true)
    (hsynched : s'.unsynched f = false) :
    (∃ w rsp, s.children c = [] ∧ s.callee c = none ∧
      s' = { s with sp := update s.sp f rsp }.passSync w c) ∨
    ∃ w t, s.phase w = .returning t ∧ s.spawnParent t = some c ∧ s.joinCounter c = 1 ∧
      s.status c = .suspended ∧ s' = (s.returnChild w c t).resumeParent w c := by
  obtain ⟨hl, hh, hf, ht, -⟩ := hi
  have hmem := hf.frame_mem hc hframe
  have hnew : f ≠ s.numFrames := (hf.bound c f hc hmem).ne
  have hsame : ∀ t, s.live t → s.frame t = some f → t = c := fun t hlive hft =>
    hf.disjoint t c f hlive hc (hf.frame_mem hlive hft) hmem
  cases hs with
  | enterFrame | detach | exceptionHandler =>
    exact absurd (hunsynched.symm.trans ((Function.update_of_ne hnew _ _).symm.trans hsynched))
      (by simp)
  | @stealStolen w victim cl g | @stealHelper w victim cl g | @stealCalled w victim cl g =>
    by_cases hfg : f = g
    · subst hfg
      exact absurd ((Function.update_self _ _ _).symm.trans hsynched) (by simp)
    · exact absurd (hunsynched.symm.trans ((Function.update_of_ne hfg _ _).symm.trans hsynched))
        (by simp)
  | @passSync w t g below rsp hw hstack hcode hung hchildren =>
    have hlive := hh.live w t (by rw [hw]; rfl)
    have hown := (hf.at_sync hh hw hstack hung).1
    by_cases hfg : f = g
    · subst hfg
      obtain rfl := hsame t hlive hown
      obtain ⟨hnone, hcallee⟩ := (hl.join_zero hlive).mp hchildren
      exact .inl ⟨w, rsp, hnone, hcallee, rfl⟩
    · have hkept : storeAt s.unsynched (s.frame t) false f = s.unsynched f :=
        storeAt_of_ne (by rw [hown]; exact fun h => hfg (Option.some.inj h).symm)
      exact absurd (hunsynched.symm.trans (hkept.symm.trans hsynched)) (by simp)
  | @resumeParent w t parent hw hparent hleft hright hsteal =>
    obtain ⟨hlive, hp, hmemt, hne⟩ := hl.parent hh hf hw hparent
    obtain ⟨hlast, hnone⟩ := hl.last_child hp hmemt hsteal.1
    obtain ⟨g, hg, hstack⟩ := hf.parked parent hp hsteal.2 hnone
    have hflag : storeAt (s.returnChild w parent t).unsynched
      ((s.returnChild w parent t).frame parent) false f = false := hsynched
    rw [(SameFlags.returnChild w parent t).unsynched, (returnChild_same w parent t).2.2.2.2.1, hg]
      at hflag
    by_cases hfg : f = g
    · subst hfg
      obtain rfl := hsame parent hp hg
      exact .inr ⟨w, t, hw, hparent, hsteal.1, hsteal.2, rfl⟩
    · rw [storeAt_of_ne (by simpa using Ne.symm hfg), hunsynched] at hflag
      cases hflag
  | _ => exact absurd (hunsynched.symm.trans hsynched) (by simp)

/-- A sync has nothing left to wait for. -/
theorem SchedInv.sync_passed (hi : SchedInv s) (hs : SchedStep s s') {c : ClosureId} {f : FrameId}
    (hc : s.live c) (hframe : s.frame c = some f) (hunsynched : s.unsynched f = true)
    (hsynched : s'.unsynched f = false) : ∀ k ∈ s.promoted c, k ∈ s'.destroyed := by
  intro k hk
  have hpromoted := hi.tree.promoted c k hc hk
  rcases hi.sync_cases hs hc hframe hunsynched hsynched with
    ⟨w, rsp, hnone, -, rfl⟩ | ⟨w, t, hw, hparent, hjoin, -, rfl⟩
  · rw [hnone] at hpromoted
    exact hpromoted.resolve_left (List.not_mem_nil)
  · obtain ⟨-, hp, hmem, -⟩ := hi.links.parent hi.hold hi.frames hw hparent
    rw [(hi.links.last_child hp hmem hjoin).1] at hpromoted
    show k ∈ s.destroyed ++ [t]
    exact List.mem_append.mpr hpromoted.symm

/-- A closure that a failed sync has suspended stays so, until the worker that returns its last
child takes it. -/
theorem SchedInv.resumed (hi : SchedInv s) (hs : SchedStep s s') {c : ClosureId} (hc : s.live c)
    (hsuspended : s.status c = .suspended) (hcallee : s.callee c = none) :
    s'.status c = .suspended ∧ s'.callee c = none ∨
    ∃ w t, s.phase w = .returning t ∧ s.spawnParent t = some c ∧ s.joinCounter c = 1 ∧
      s'.joinCounter c = 0 ∧ s'.phase w = .scheduled c := by
  have hfree := (hi.suspended_waits hc hsuspended).1
  obtain ⟨hl, hh, hf, ht, -⟩ := hi
  have hheld : ∀ w t, (s.phase w).closure = some t → c ≠ t := by
    rintro w t hw rfl
    exact hfree w hw
  cases hs with
  | @exceptionHandler w t f below hw | @suspendAtSync w t f below rsp hw
  | @doReductionsForReturn w t f hw | @takeTables w t parent hw =>
    have hct := hheld w t (by rw [hw]; rfl)
    exact .inl ⟨(Function.update_of_ne hct _ _).trans hsuspended, hcallee⟩
  | @stealStolen w victim cl f parents above below hw hvictim
  | @stealHelper w victim cl f parents above below hw hvictim =>
    have hccl := hheld victim cl (by rw [hvictim]; rfl)
    have hcn := hl.ne_fresh hc
    exact .inl ⟨(Function.update_of_ne hccl _ _).trans ((Function.update_of_ne hcn _ _).trans
      ((Function.update_of_ne hcn _ _).trans hsuspended)),
        (Function.update_of_ne hcn _ _).trans hcallee⟩
  | @stealCalled w victim cl f parents above below hw hvictim hdeque =>
    have hccl := hheld victim cl (by rw [hvictim]; rfl)
    have hlt := hl.bound cl (hh.live victim cl (by rw [hvictim]; rfl))
    have hltc := hl.bound c hc
    have hvw : victim ≠ w := by
      rintro rfl
      rw [hw] at hvictim
      cases hvictim
    have hsplits := Splits.called above below hlt.ne
      (Nat.lt_succ_of_lt hlt).ne hvw hdeque
    exact .inl ⟨(hsplits.status c (Nat.lt_succ_of_lt hltc).ne hltc.ne hccl).trans hsuspended,
      (hsplits.callee c (Nat.lt_succ_of_lt hltc).ne hltc.ne hccl).trans hcallee⟩
  | @returnChild w t parent hw hparent hleft hright hsteal =>
    have hct := hheld w t (by rw [hw]; rfl)
    exact .inl ⟨(Function.update_of_ne hct _ _).trans hsuspended,
      (congrFun (returnChild_same w parent t).2.2.2.1 c).trans hcallee⟩
  | @resumeParent w t parent hw hparent hleft hright hsteal =>
    have hct := hheld w t (by rw [hw]; rfl)
    by_cases hcp : c = parent
    · subst hcp
      refine .inr ⟨w, t, hw, hparent, hsteal.1, ?_, Function.update_self _ _ _⟩
      have hjoin : update s.joinCounter c (s.joinCounter c - 1) c = 0 := by
        rw [Function.update_self, hsteal.1]
        rfl
      exact hjoin
    · exact .inl ⟨(Function.update_of_ne hcp _ _).trans ((Function.update_of_ne hct _ _).trans
        hsuspended), (congrFun (returnChild_same w parent t).2.2.2.1 c).trans hcallee⟩
  | @setReturn w t f below parent hw hstack hcode hsynched hdetached hlast hstolen hparent =>
    have hct := hheld w t (by rw [hw]; rfl)
    have hlive := hh.live w t (by rw [hw]; rfl)
    have hp := hl.caller t parent hlive hparent
    have hcp : c ≠ parent := by
      rintro rfl
      rw [(hl.called c t hp).mpr ⟨hlive, hparent⟩] at hcallee
      cases hcallee
    exact .inl ⟨(Function.update_of_ne hcp _ _).trans ((Function.update_of_ne hct _ _).trans
      hsuspended), (Function.update_of_ne hcp _ _).trans hcallee⟩
  | _ => exact .inl ⟨hsuspended, hcallee⟩

/-- What the destructor of a closure asserts. -/
structure Unlinked (s : Runtime κ V) (c : ClosureId) : Prop where
  leftSib : s.leftSib c = none
  rightSib : s.rightSib c = none
  rightMostChild : s.rightMostChild c = none
  userHt : s.userHt c = none
  childHt : s.childHt c = none
  rightHt : s.rightHt c = none

omit [DecidableEq κ] [Monoid V] in
theorem SchedInv.userHt_none (hi : SchedInv s) {w : WorkerId} {t : ClosureId}
    (hw : (s.phase w).closure = some t) : s.userHt t = none := by
  by_contra h
  exact hi.hold.not_suspended hw (hi.tree.user t (hi.hold.live w t hw) h).1

omit [DecidableEq κ] [Monoid V] in
/-- A child that is returned is no longer linked. -/
theorem SchedInv.unlinked_returnChild (hi : SchedInv s) {w : WorkerId} {t parent : ClosureId}
    (hw : s.phase w = .returning t) (hparent : s.spawnParent t = some parent)
    (hright : s.rightHt t = none) : Unlinked (s.returnChild w parent t) t := by
  obtain ⟨hlive, hp, hmem, hne⟩ := hi.links.parent hi.hold hi.frames hw hparent
  obtain ⟨hchildren, hchildHt, -⟩ := hi.frames.returning_childless hi.hold hw
  have hself := hi.links.leftSib_ne hp hmem
  have hmost : s.rightMostChild t = none := by
    rw [hi.links.rightMost t hlive, hchildren]
    rfl
  constructor
  · exact Function.update_self _ _ _
  · exact Function.update_self _ _ _
  · show (if s.rightMostChild parent = some t
      then update s.rightMostChild parent (s.leftSib t) else s.rightMostChild) t = none
    split
    · exact (Function.update_of_ne (Ne.symm hne) _ _).trans hmost
    · exact hmost
  · exact hi.userHt_none (w := w) (by rw [hw]; rfl)
  · exact (childHt_setLeftHt (Ne.symm hne) _).trans hchildHt
  · exact (storeAt_of_ne hself).trans hright

/-- A closure ends unlinked, in the hands of the worker that held it. -/
theorem SchedInv.ended (hi : SchedInv s) (hs : SchedStep s s') {c : ClosureId} (hc : s.live c)
    (hgone : s'.live c = false) : (∃ w, (s.phase w).closure = some c) ∧ Unlinked s' c := by
  have hold : ∀ t, update s.live t false c = false → c = t := by
    intro t h
    by_contra hct
    rw [Function.update_of_ne hct, hc] at h
    cases h
  cases hs with
  | stealStolen | stealHelper =>
    have hcn := hi.links.ne_fresh hc
    exact absurd (hc.symm.trans ((Function.update_of_ne hcn _ _).symm.trans hgone)) (by simp)
  | stealCalled =>
    have hltc := hi.links.bound c hc
    exact absurd (hc.symm.trans ((Function.update_of_ne hltc.ne _ _).symm.trans
      ((Function.update_of_ne (Nat.lt_succ_of_lt hltc).ne _ _).symm.trans hgone))) (by simp)
  | @returnChild w t parent hw hparent hleft hright hsteal =>
    obtain rfl := hold t hgone
    exact ⟨⟨w, by rw [hw]; rfl⟩, hi.unlinked_returnChild hw hparent hright⟩
  | @resumeParent w t parent hw hparent hleft hright hsteal =>
    obtain rfl := hold t hgone
    obtain ⟨h1, h2, h3, h4, h5, h6⟩ := hi.unlinked_returnChild hw hparent hright
    have hne := (hi.links.parent hi.hold hi.frames hw hparent).2.2.2
    exact ⟨⟨w, by rw [hw]; rfl⟩, h1, h2, h3, (Function.update_of_ne (Ne.symm hne) _ _).trans h4,
      (Function.update_of_ne (Ne.symm hne) _ _).trans h5, h6⟩
  | @setReturn w t f below parent hw hstack hcode hsynched hdetached hlast hstolen hparent =>
    obtain rfl := hold t hgone
    have hheld : (s.phase w).closure = some c := by rw [hw]; rfl
    have hown := hi.frames.own c f hc (by rw [hstack]; simp) (.inl hstolen)
    obtain ⟨hchildren, hchildHt, -⟩ := hi.frames.childless hc hown hsynched
    have hspawn : s.spawnParent c = none := by
      by_contra h
      rw [hi.links.oneParent c hc h] at hparent
      cases hparent
    obtain ⟨h1, h2, h3⟩ := hi.tree.alone c hc hspawn
    refine ⟨⟨w, hheld⟩, h1, h2, ?_, hi.userHt_none hheld, hchildHt, h3⟩
    exact (hi.links.rightMost c hc).trans (by rw [hchildren]; rfl)
  | _ => exact absurd (hc.symm.trans hgone) (by simp)

omit [DecidableEq κ] [Monoid V] in
theorem numClosures_returnChild (w : WorkerId) (parent t : ClosureId) :
    (s.returnChild w parent t).numClosures = s.numClosures := by
  cases s
  rfl

theorem SchedStep.numClosures_le (hs : SchedStep s s') : s.numClosures ≤ s'.numClosures := by
  cases hs with
  | stealStolen | stealHelper => exact Nat.le_succ _
  | stealCalled => exact Nat.le_add_right _ 2
  | @returnChild w t parent | @resumeParent w t parent =>
    exact (numClosures_returnChild w parent t).ge
  | _ => exact Nat.le_refl _

theorem SchedInv.live_of_suspended (hi : SchedInv s) (hs : SchedStep s s') {c : ClosureId}
    (hc : s.live c) (hsuspended : s.status c = .suspended) : s'.live c := by
  by_contra h
  obtain ⟨⟨w, hw⟩, -⟩ := hi.ended hs hc (Bool.eq_false_iff.mpr h)
  exact hi.hold.not_suspended hw hsuspended

/-- Joins are correct in every run: the counter of a closure counts its linked children and its
callee, it is not negative, and not zero while the closure is suspended; a sync is passed only
when every child since the one before has returned; and what a failed sync has suspended is
resumed once, by the worker whose return brings the counter to zero. -/
theorem join_correct {code : Code κ V} {table : Option (ViewMap κ V)}
    (hrun : Reaches SchedStep (initialRuntime code table) s) :
    (∀ c, s.live c → (∃ spawned called, IsFamily s c spawned called ∧
        s.joinCounter c = spawned.length + called.length) ∧ 0 ≤ s.joinCounter c ∧
      (s.status c = .suspended → s.joinCounter c ≠ 0)) ∧
    (∀ w t f below, s.phase w = .running t → s.stack t = f :: below →
      (s.code f).atSync = true → s.unsynched f = false →
      ∀ c, s.live c → s.frame c = some f → s.promoted c = []) ∧
    (∀ s' c f, SchedStep s s' → s.live c → s.frame c = some f → s.unsynched f = true →
      s'.unsynched f = false → ∀ k ∈ s.promoted c, k ∈ s'.destroyed) ∧
    (∀ s' c, SchedStep s s' → s.live c → s.status c = .suspended → s.callee c = none →
      s'.status c = .suspended ∧ s'.callee c = none ∧ s'.joinCounter c ≠ 0 ∧
        (∀ w, (s'.phase w).closure ≠ some c) ∨
      ∃ w t, s.phase w = .returning t ∧ s.spawnParent t = some c ∧ s.joinCounter c = 1 ∧
        s'.joinCounter c = 0 ∧ s'.phase w = .scheduled c ∧
        ∀ w', (s'.phase w').closure = some c → w' = w) ∧
    ∀ w t, s.phase w = .exited t → ∀ c, s.live c → s.status c ≠ .suspended := by
  have hi := schedInv_reachable hrun
  refine ⟨fun c hc => ⟨⟨_, _, hi.family hc, hi.join_eq hc⟩, hi.links.join_nonneg hc,
    fun h => (hi.suspended_waits hc h).2⟩, ?_, fun s' c f hs hc => hi.sync_passed hs hc, ?_, ?_⟩
  · intro w t f below hw hstack hsync hsynched c hc hframe
    exact (hi.frames.childless hc hframe hsynched).2.2
  · intro s' c hs hc hsuspended hcallee
    have hi' := hi.step hs
    rcases hi.resumed hs hc hsuspended hcallee with ⟨hst, hcal⟩ | ⟨w, t, hw, hp, h1, h0, hw'⟩
    · have hwait := hi'.suspended_waits (hi.live_of_suspended hs hc hsuspended) hst
      exact .inl ⟨hst, hcal, hwait.2, hwait.1⟩
    · refine .inr ⟨w, t, hw, hp, h1, h0, hw', fun w₁ hw₁ => ?_⟩
      exact hi'.hold.unique w₁ w c hw₁ (by rw [hw']; rfl)
  · intro w t hw c hc
    have hheld : (s.phase w).closure = some t := by rw [hw]; rfl
    have hc0 := hi.exited w t hw c hc
    have ht0 := hi.exited w t hw t (hi.hold.live w t hheld)
    exact hi.hold.not_suspended (w := w) (by rw [hheld, hc0, ht0])

theorem join_correct_suspendedRoot : ∃ s, Reaches SchedStep (initialRuntime sampleCode none) s ∧
    s.status 0 = .suspended ∧ s.joinCounter 0 ≠ 0 := by
  have hstolen := (Relation.ReflTransGen.refl (r := SchedStep)
    (a := initialRuntime sampleCode none)).tail
    (.resumeStolen (w := 0) (t := 0) (f := 0) 5 rfl rfl rfl)
    |>.tail (.detach (w := 0) (t := 0) (f := 0) 7 rfl rfl rfl)
    |>.tail (@SchedStep.stealStolen _ _ _ _ _ 1 0 0 0 _ [1] []
    rfl rfl rfl rfl rfl)
  have hsuspended := hstolen.tail (.resumeStolen (w := 1) (t := 0) (f := 0) 9 rfl rfl rfl)
    |>.tail (.update (w := 1) (t := 0) (f := 0) rfl rfl rfl)
    |>.tail (.suspendAtSync (w := 1) (t := 0) (f := 0) 9 rfl rfl rfl rfl (by decide))
  exact ⟨_, hsuspended, rfl, ((join_correct hsuspended).1 0 rfl).2.2 rfl⟩

/-- The closures form a tree in every run, with the siblings linked in spawn order; each is
destroyed once, unlinked from all others and without tables, and when the region ends only the
root is left. -/
theorem closureTree_wellFormed {code : Code κ V} {table : Option (ViewMap κ V)}
    (hrun : Reaches SchedStep (initialRuntime code table) s) :
    (∀ c, s.live c → ∃ spawned called, IsFamily s c spawned called) ∧
    (∀ k, s.live k → s.spawnParent k = none → s.leftSib k = none ∧ s.rightSib k = none) ∧
    (∀ k p, s.live k → s.spawnParent k = some p → s.live p) ∧
    s.destroyed.Nodup ∧ (∀ c ∈ s.destroyed, s.live c = false ∧ c ≠ 0) ∧
    (∀ s' c, SchedStep s s' → s.live c → s'.live c = false →
      c ∈ s'.destroyed ∧ c ∉ s.destroyed ∧ Unlinked s' c) ∧
    ∀ w t, s.phase w = .exited t →
      t = 0 ∧ ∀ c, c < s.numClosures → c ≠ 0 → c ∈ s.destroyed := by
  have hi := schedInv_reachable hrun
  refine ⟨fun c hc => ⟨_, _, hi.family hc⟩, fun k hk h => ?_, hi.links.spawner, hi.tree.once, ?_,
    ?_, ?_⟩
  · have halone := hi.tree.alone k hk h
    exact ⟨halone.1, halone.2.1⟩
  · intro c hc
    have hdead := ((hi.tree.destroyed c).mp hc).2
    refine ⟨hdead, ?_⟩
    rintro rfl
    rw [hi.tree.root] at hdead
    cases hdead
  · intro s' c hs hc hgone
    have hbound := Nat.lt_of_lt_of_le (hi.links.bound c hc) hs.numClosures_le
    refine ⟨((hi.step hs).tree.destroyed c).mpr ⟨hbound, hgone⟩, fun hmem => ?_,
      (hi.ended hs hc hgone).2⟩
    rw [((hi.tree.destroyed c).mp hmem).2] at hc
    cases hc
  · intro w t hw
    have hheld : (s.phase w).closure = some t := by rw [hw]; rfl
    refine ⟨hi.exited w t hw t (hi.hold.live w t hheld), fun c hc hne => ?_⟩
    refine (hi.tree.destroyed c).mpr ⟨hc, Bool.eq_false_iff.mpr fun hlive => ?_⟩
    exact hne (hi.exited w t hw c hlive)

theorem closureTree_wellFormed_region : ∃ s,
    Reaches SchedStep (initialRuntime sampleCode none) s ∧ s.phase 0 = .exited 0 ∧
      1 ∈ s.destroyed := by
  obtain ⟨s, hrun, hexited, hclosures⟩ := stolenRegion
  have hended := (closureTree_wellFormed hrun).2.2.2.2.2.2 0 0 hexited
  exact ⟨s, hrun, hexited, hended.2 1 (by rw [hclosures]; decide) (by decide)⟩

end Cheetah
