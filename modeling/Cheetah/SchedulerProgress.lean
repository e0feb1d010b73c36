import Cheetah.StepBound

/-! No deadlock and no infinite run: a worker that holds a closure always has a section to run, and
a region ends after a number of sections that is linear in its code. -/
namespace Cheetah
open Function (update)

variable {κ V : Type} {s s' : Runtime κ V}

/-- Nothing happens to another worker that holds a closure, nor to the stack of that closure. -/
structure LeavesOthers (w : WorkerId) (s s' : Runtime κ V) : Prop where
  phase : ∀ w' c, w' ≠ w → (s.phase w').closure = some c → s'.phase w' = s.phase w'
  deque : ∀ w' c, w' ≠ w → (s.phase w').closure = some c → s'.deque w' = s.deque w'
  hyperTable : ∀ w' c, w' ≠ w → (s.phase w').closure = some c → s'.hyperTable w' = s.hyperTable w'
  stack : ∀ w' c, w' ≠ w → (s.phase w').closure = some c → s'.stack c = s.stack c
  code : ∀ w' c f, w' ≠ w → (s.phase w').closure = some c → f ∈ s.stack c → s'.code f = s.code f

/-- The steps of a worker stay within its closure. -/
theorem SchedInv.leavesOthers (hi : SchedInv s) {w : WorkerId} {t : ClosureId}
    (hheld : (s.phase w).closure = some t)
    (hphase : ∀ w', w' ≠ w → s'.phase w' = s.phase w')
    (hdeque : ∀ w', w' ≠ w → s'.deque w' = s.deque w')
    (htable : ∀ w', w' ≠ w → s'.hyperTable w' = s.hyperTable w')
    (hstack : ∀ c, c ≠ t → s'.stack c = s.stack c)
    (hcode : ∀ f, f ∉ s.stack t → f ≠ s.numFrames → s'.code f = s.code f) :
    LeavesOthers w s s' := by
  have hother : ∀ w' c, w' ≠ w → (s.phase w').closure = some c → c ≠ t := by
    rintro w' c hne hw' rfl
    exact hne (hi.hold.unique w' w c hw' hheld)
  constructor
  case phase => exact fun w' _ hne _ => hphase w' hne
  case deque => exact fun w' _ hne _ => hdeque w' hne
  case hyperTable => exact fun w' _ hne _ => htable w' hne
  case stack => exact fun w' c hne hw' => hstack c (hother w' c hne hw')
  case code =>
    intro w' c f hne hw' hf
    have hlive := hi.hold.live w' c hw'
    apply hcode f
    · exact fun h => hother w' c hne hw'
        (hi.frames.disjoint c t f hlive (hi.hold.live w t hheld) hf h)
    · exact hi.new_frame hlive hf

/-- A stolen frame that is not a spawn helper was called, unless it is the root frame. -/
theorem SchedInv.stolen_called (hi : SchedInv s) (he : EndInv s) {x : Extensions}
    (hc : CallLinks s x) {w : WorkerId} {t : ClosureId} {f : FrameId} {below : List FrameId}
    (hw : s.phase w = .running t) (hstack : s.stack t = f :: below)
    (hdetached : s.detached f = false) (hlast : s.last f = false) (hstolen : s.stolen f = true) :
    ∃ parent, s.callParent t = some parent := by
  have hheld : (s.phase w).closure = some t := by rw [hw]; rfl
  have hlive := hi.hold.live w t hheld
  have hmem : f ∈ s.stack t := by rw [hstack]; exact List.mem_cons_self
  have hframe := hi.frames.own t f hlive hmem (.inl hstolen)
  obtain ⟨above, hbottom⟩ := hi.frames.bottom t f hlive hframe
  cases hcall : s.callParent t with
  | some parent => exact ⟨parent, rfl⟩
  | none =>
    exfalso
    cases hspawn : s.spawnParent t with
    | some p =>
      have huser := hi.frames.user hi.hold hw hmem
      rw [(hc.spawned t p above f hlive hspawn hbottom huser).1] at hdetached
      cases hdetached
    | none =>
      obtain rfl := hi.tree.parent t hlive hspawn hcall
      obtain rfl := hi.tree.root_frame hi.frames hbottom
      have hexits : ∀ w' c, s.phase w' ≠ .exited c := by
        intro w' c hw'
        have hheld' : (s.phase w').closure = some c := by rw [hw']; rfl
        have hc0 := hi.exited w' c hw' c (hi.hold.live w' c hheld')
        obtain rfl := hi.hold.unique w' w 0 (hc0 ▸ hheld') hheld
        rw [hw] at hw'
        cases hw'
      rw [he.last hexits] at hlast
      cases hlast

variable [DecidableEq κ] [Monoid V]

/-- A worker in user code is never stuck. -/
theorem SchedInv.running_acts (hi : SchedInv s) (he : EndInv s) {x : Extensions}
    (hc : CallLinks s x) {w : WorkerId} {t : ClosureId} (hw : s.phase w = .running t) :
    ∃ s', SchedStep s s' ∧ LeavesOthers w s s' := by
  have hheld : (s.phase w).closure = some t := by rw [hw]; rfl
  have hlive := hi.hold.live w t hheld
  obtain ⟨f, below, hstack⟩ := hi.frames.exists_running hlive
  have hmem : f ∈ s.stack t := by rw [hstack]; exact List.mem_cons_self
  have hnot : ∀ g, g ∉ s.stack t → g ≠ f := by
    rintro g hg rfl
    exact hg hmem
  have hsync : (s.code f).atSync = true → s.unsynched f = true →
      ∃ s', SchedStep s s' ∧ LeavesOthers w s s' := by
    intro hcode hunsynched
    by_cases hchildren : s.joinCounter t = 0
    · refine ⟨_, .passSync 0 hw hstack hcode hunsynched hchildren, ?_⟩
      exact hi.leavesOthers hheld (fun w' h => Function.update_of_ne h _ _) (fun _ _ => rfl)
        (fun _ _ => rfl) (fun _ _ => rfl) fun _ _ _ => rfl
    · refine ⟨_, .suspendAtSync 0 hw hstack hcode hunsynched hchildren, ?_⟩
      exact hi.leavesOthers hheld (fun w' h => Function.update_of_ne h _ _) (fun _ _ => rfl)
        (fun w' h => Function.update_of_ne h _ _) (fun _ _ => rfl) fun _ _ _ => rfl
  cases hcode : s.code f with
  | update reducer u rest =>
    refine ⟨_, .update hw hstack hcode, ?_⟩
    exact hi.leavesOthers hheld (fun _ _ => rfl) (fun _ _ => rfl)
      (fun w' h => Function.update_of_ne h _ _) (fun _ _ => rfl)
      fun g hg _ => Function.update_of_ne (hnot g hg) _ _
  | spawn child rest =>
    refine ⟨_, .detach 0 hw hstack hcode, ?_⟩
    exact hi.leavesOthers hheld (fun _ _ => rfl) (fun w' h => Function.update_of_ne h _ _)
      (fun _ _ => rfl) (fun c hct => Function.update_of_ne hct _ _)
      fun g hg hgn => (Function.update_of_ne hgn _ _).trans (Function.update_of_ne (hnot g hg) _ _)
  | call callee rest =>
    refine ⟨_, .enterFrame hw hstack hcode, ?_⟩
    exact hi.leavesOthers hheld (fun _ _ => rfl) (fun _ _ => rfl) (fun _ _ => rfl)
      (fun c hct => Function.update_of_ne hct _ _)
      fun g hg hgn => (Function.update_of_ne hgn _ _).trans (Function.update_of_ne (hnot g hg) _ _)
  | sync rest =>
    cases hunsynched : s.unsynched f with
    | true => exact hsync (by rw [hcode]; rfl) hunsynched
    | false =>
      refine ⟨_, .syncFast hw hstack hcode hunsynched, ?_⟩
      exact hi.leavesOthers hheld (fun _ _ => rfl) (fun _ _ => rfl) (fun _ _ => rfl)
        (fun _ _ => rfl) fun g hg _ => Function.update_of_ne (hnot g hg) _ _
  | done =>
    cases hunsynched : s.unsynched f with
    | true => exact hsync (by rw [hcode]; rfl) hunsynched
    | false =>
      cases hdetached : s.detached f with
      | true =>
        rcases List.eq_nil_or_concat (s.deque w) with hdeque | ⟨parents, parent, hdeque⟩
        · refine ⟨_, .exceptionHandler hw hstack hcode hunsynched hdetached hdeque, ?_⟩
          exact hi.leavesOthers hheld (fun w' h => Function.update_of_ne h _ _) (fun _ _ => rfl)
            (fun _ _ => rfl)
            (fun c hct => (Function.update_of_ne hct _ _).trans (Function.update_of_ne hct _ _))
            fun g _ hgn => Function.update_of_ne hgn _ _
        · rw [List.concat_eq_append] at hdeque
          refine ⟨_, .leaveFrameHelper hw hstack hcode hunsynched hdetached hdeque, ?_⟩
          exact hi.leavesOthers hheld (fun _ _ => rfl) (fun w' h => Function.update_of_ne h _ _)
            (fun _ _ => rfl) (fun c hct => Function.update_of_ne hct _ _) fun _ _ _ => rfl
      | false =>
        cases hlast : s.last f with
        | true =>
          have hstep := SchedStep.exitRoot hw hstack hcode hunsynched hlast
          refine ⟨_, hstep, ?_⟩
          have halone : ∀ w' c, w' ≠ w → (s.phase w').closure = some c → False := by
            intro w' c hww hw'
            have hexited := (hi.step hstep).exited w t (Function.update_self _ _ _)
            have hc0 := hexited c (hi.hold.live w' c hw')
            have ht0 := hexited t hlive
            exact hww (hi.hold.unique w' w c hw' (by rw [hheld, hc0, ht0]))
          exact ⟨fun w' c h h' => (halone w' c h h').elim, fun w' c h h' => (halone w' c h h').elim,
            fun w' c h h' => (halone w' c h h').elim, fun w' c h h' => (halone w' c h h').elim,
            fun w' c _ h h' => (halone w' c h h').elim⟩
        | false =>
          cases hstolen : s.stolen f with
          | false =>
            refine ⟨_, .leaveFrame hw hstack hcode hunsynched hdetached hlast hstolen, ?_⟩
            exact hi.leavesOthers hheld (fun _ _ => rfl) (fun _ _ => rfl) (fun _ _ => rfl)
              (fun c hct => Function.update_of_ne hct _ _) fun _ _ _ => rfl
          | true =>
            obtain ⟨parent, hparent⟩ :=
              hi.stolen_called he hc hw hstack hdetached hlast hstolen
            refine ⟨_, .setReturn hw hstack hcode hunsynched hdetached hlast hstolen hparent, ?_⟩
            exact hi.leavesOthers hheld (fun w' h => Function.update_of_ne h _ _) (fun _ _ => rfl)
              (fun _ _ => rfl) (fun c hct => Function.update_of_ne hct _ _) fun _ _ _ => rfl

/-- A worker that returns a closure deposits its table or takes others to reduce them. -/
theorem SchedInv.returning_acts (hi : SchedInv s) (he : EndInv s) {w : WorkerId} {t : ClosureId}
    (hw : s.phase w = .returning t) : ∃ s', SchedStep s s' ∧ LeavesOthers w s s' := by
  have hheld : (s.phase w).closure = some t := by rw [hw]; rfl
  obtain ⟨f, hframe, -⟩ := hi.frames.single w t (.inr (.inr hw))
  have hspawned := he.spawned t f (hi.hold.live w t hheld) hframe
    (hi.frames.returning w t f hw hframe)
  obtain ⟨parent, hparent⟩ := Option.ne_none_iff_exists'.mp hspawned
  by_cases htables : s.leftHt parent t ≠ none ∨ s.rightHt t ≠ none
  · refine ⟨_, .takeTables hw hparent htables, ?_⟩
    exact hi.leavesOthers hheld (fun w' h => Function.update_of_ne h _ _)
      (fun w' h => Function.update_of_ne h _ _) (fun _ _ => rfl) (fun _ _ => rfl) fun _ _ _ => rfl
  · rw [not_or, not_not, not_not] at htables
    have hcode := (returnChild_same (s := s) w parent t).1
    have hdeque := (returnChild_same (s := s) w parent t).2.2.1
    by_cases hsteal : s.joinCounter parent = 1 ∧ s.status parent = .suspended
    · refine ⟨_, .resumeParent hw hparent htables.1 htables.2 hsteal, ?_⟩
      apply hi.leavesOthers hheld
      case hphase =>
        intro w' h
        exact (Function.update_of_ne h _ _).trans (Function.update_of_ne h _ _)
      case hdeque =>
        intro w' h
        exact (Function.update_of_ne h _ _).trans (congrFun hdeque w')
      case htable =>
        intro w' h
        exact (Function.update_of_ne h _ _).trans (Function.update_of_ne h _ _)
      case hstack => exact fun c hct => Function.update_of_ne hct _ _
      case hcode => exact fun g _ _ => congrFun hcode g
    · refine ⟨_, .returnChild hw hparent htables.1 htables.2 hsteal, ?_⟩
      apply hi.leavesOthers hheld
      case hphase => exact fun w' h => Function.update_of_ne h _ _
      case hdeque => exact fun w' _ => congrFun hdeque w'
      case htable => exact fun w' h => Function.update_of_ne h _ _
      case hstack => exact fun c hct => Function.update_of_ne hct _ _
      case hcode => exact fun g _ _ => congrFun hcode g

/-- A worker that holds a closure can go on, unless it has ended the region. -/
theorem SchedInv.holder_acts (hi : SchedInv s) (he : EndInv s) {x : Extensions}
    (hc : CallLinks s x) {w : WorkerId} {c : ClosureId} (hheld : (s.phase w).closure = some c)
    (hexit : s.phase w ≠ .exited c) : ∃ s', SchedStep s s' ∧ LeavesOthers w s s' := by
  cases hw : s.phase w with
  | stealing =>
    rw [hw] at hheld
    cases hheld
  | scheduled t =>
    have hheldt : (s.phase w).closure = some t := by rw [hw]; rfl
    obtain ⟨f, hframe, -⟩ := hi.frames.single w t (.inl hw)
    cases hsteal : s.provablyGoodSteal w with
    | false =>
      refine ⟨_, .resumeStolen 0 hw hframe hsteal, ?_⟩
      exact hi.leavesOthers hheldt (fun w' h => Function.update_of_ne h _ _) (fun _ _ => rfl)
        (fun _ _ => rfl) (fun _ _ => rfl) fun _ _ _ => rfl
    | true =>
      refine ⟨_, .resumeSync hw hsteal, ?_⟩
      exact hi.leavesOthers hheldt (fun w' h => Function.update_of_ne h _ _) (fun _ _ => rfl)
        (fun _ _ => rfl) (fun _ _ => rfl) fun _ _ _ => rfl
  | running t => exact hi.running_acts he hc hw
  | reducing t =>
    have hheldt : (s.phase w).closure = some t := by rw [hw]; rfl
    obtain ⟨f, hframe, hstack⟩ := hi.frames.single w t (.inr (.inl hw))
    cases hreduction : s.reduction f with
    | false =>
      refine ⟨_, .doReductions hw hframe hreduction, ?_⟩
      refine hi.leavesOthers hheldt (fun w' h => Function.update_of_ne h _ _) (fun _ _ => rfl)
        (fun w' h => Function.update_of_ne h _ _) (fun _ _ => rfl) ?_
      intro g hg _
      apply Function.update_of_ne
      rintro rfl
      exact hg (by rw [hstack]; exact List.mem_cons_self)
    | true =>
      refine ⟨_, .doReductionsForReturn hw hframe hreduction, ?_⟩
      exact hi.leavesOthers hheldt (fun w' h => Function.update_of_ne h _ _) (fun _ _ => rfl)
        (fun w' h => Function.update_of_ne h _ _) (fun _ _ => rfl) fun _ _ _ => rfl
  | returning t => exact hi.returning_acts he hw
  | exited t =>
    rw [hw] at hheld hexit
    exact absurd (congrArg Phase.exited (Option.some.inj hheld)) hexit

omit [DecidableEq κ] [Monoid V] in
theorem not_exited_update {phase : WorkerId → Phase} (h : ∀ w c, phase w ≠ .exited c)
    {w₀ : WorkerId} {q : Phase} (hq : ∀ c, q ≠ .exited c) (w : WorkerId) (c : ClosureId) :
    update phase w₀ q w ≠ .exited c := by
  by_cases hw : w = w₀
  · rw [hw, Function.update_self]
    exact hq c
  · rw [Function.update_of_ne hw]
    exact h w c

/-- Only `__cilkrts_internal_exit_cilkified_root` ends the region, in the root frame and with the
root closure. -/
theorem SchedInv.exit_cases (hi : SchedInv s) (hs : SchedStep s s') {w : WorkerId} {c : ClosureId}
    (hw' : s'.phase w = .exited c) :
    s.phase w = .running 0 ∧ s.stack 0 = [0] ∧ s.code 0 = .done ∧ s.unsynched 0 = false ∧
      s' = { s with
        stolen := update s.stolen 0 false
        last := update s.last 0 false
        hyperTable := if w = 0 then s.hyperTable
          else update (update s.hyperTable 0 (s.hyperTable w)) w none
        phase := update s.phase w (.exited 0) } := by
  have hnone : ∀ w c, s.phase w ≠ .exited c := fun w c hw => hi.ends hw hs
  have hmoved : ∀ w₀ q, (∀ c, q ≠ Phase.exited c) → update s.phase w₀ q w ≠ .exited c :=
    fun w₀ q hq => not_exited_update hnone hq w c
  cases hs with
  | @exitRoot w₀ t f below hw hstack hcode hsynched hlast =>
    have hlive := hi.hold.live w₀ t (by rw [hw]; rfl)
    obtain rfl := hi.tree.last f hlast
    have hmem := hi.frames.frame_mem hi.tree.root hi.tree.rootFrame
    obtain rfl := hi.frames.disjoint t 0 0 hlive hi.tree.root (by rw [hstack]; simp) hmem
    obtain ⟨above, hbottom⟩ := hi.frames.bottom 0 0 hlive hi.tree.rootFrame
    have hbelow : below = [] := by
      have hnodup := hi.frames.nodup 0 hlive
      rw [hstack] at hbottom hnodup
      cases above with
      | nil => exact (List.cons.inj hbottom).2
      | cons g above =>
        rw [(List.cons.inj hbottom).2] at hnodup
        simp at hnodup
    obtain rfl : w = w₀ := by
      by_contra hne
      exact hnone w c ((Function.update_of_ne hne _ _).symm.trans hw')
    exact ⟨hw, hbelow ▸ hstack, hcode, hsynched, rfl⟩
  | update | enterFrame | detach | leaveFrame | leaveFrameHelper | syncFast =>
    exact absurd hw' (hnone w c)
  | exceptionHandler | suspendAtSync | passSync | doReductions | doReductionsForReturn
  | resumeStolen | resumeSync | takeTables | returnChild | setReturn =>
    exact absurd hw' (hmoved _ _ (by simp))
  | resumeParent | stealStolen | stealHelper | stealCalled =>
    exact absurd hw' (not_exited_update (not_exited_update hnone (by simp)) (by simp) w c)

omit [DecidableEq κ] [Monoid V] in
/-- A closure that nobody holds waits for a younger one, so somebody holds a closure. -/
theorem SchedInv.someone_holds (hi : SchedInv s) : ∃ w c, (s.phase w).closure = some c := by
  by_contra hnone
  have hfree : ∀ c w, (s.phase w).closure ≠ some c := fun c w hw => hnone ⟨w, c, hw⟩
  have hdead : ∀ n c : ℕ, s.live c → c + n < s.numClosures := by
    intro n
    induction n with
    | zero => exact fun c hc => hi.links.bound c hc
    | succ n ih =>
      intro c hc
      have hyounger : ∃ k, s.live k ∧ c < k := by
        have hwaits := (hi.hold.waiting c hc (hfree c)).2
        by_contra hno
        apply hwaits
        rw [hi.links.join_zero hc]
        refine ⟨List.eq_nil_iff_forall_not_mem.mpr fun k hk => hno ?_,
          Option.eq_none_iff_forall_ne_some.mpr fun k hk => hno ?_⟩
        · obtain ⟨hlive, hparent⟩ := (hi.links.child c k hc).mp hk
          exact ⟨k, hlive, hi.tree.older k c hlive (.inl hparent)⟩
        · obtain ⟨hlive, hparent⟩ := (hi.links.called c k hc).mp hk
          exact ⟨k, hlive, hi.tree.older k c hlive (.inr hparent)⟩
      obtain ⟨k, hk, hlt⟩ := hyounger
      have hbound : k + n < s.numClosures := ih k hk
      exact Nat.lt_of_le_of_lt (Nat.succ_add_eq_add_succ c n ▸ Nat.add_le_add_right hlt n) hbound
  exact Nat.not_lt_of_le (Nat.le_add_left _ _) (hdead s.numClosures 0 hi.tree.root)

/-- A run in which the root is stolen and the thief waits at its sync. -/
theorem suspendedRegion : ∃ s, Reaches SchedStep (initialRuntime sampleCode none) s ∧
    s.status 0 = .suspended ∧ s.numFibers = 2 ∧ s.phase 0 = .running 1 ∧ s.phase 1 = .stealing ∧
      ∀ w, 2 ≤ w → s.phase w = .stealing := by
  have hspawned := (Relation.ReflTransGen.refl (r := SchedStep)
    (a := initialRuntime sampleCode none)).tail
    (.resumeStolen (w := 0) (t := 0) (f := 0) 5 rfl rfl rfl)
    |>.tail (.detach (w := 0) (t := 0) (f := 0) 7 rfl rfl rfl)
  have hstolen := hspawned.tail (@SchedStep.stealStolen _ _ _ _ _ 1 0 0 0 _ [1] []
    rfl rfl rfl rfl rfl)
    |>.tail (.resumeStolen (w := 1) (t := 0) (f := 0) 9 rfl rfl rfl)
  have hsuspended := hstolen.tail (.update (w := 1) (t := 0) (f := 0) rfl rfl rfl)
    |>.tail (.suspendAtSync (w := 1) (t := 0) (f := 0) 9 rfl rfl rfl rfl (by decide))
  refine ⟨_, hsuspended, rfl, rfl, rfl, rfl, ?_⟩
  intro w hw
  have hphase : ∀ u, u ≠ w → ∀ phase : WorkerId → Phase, ∀ q, update phase u q w = phase w :=
    fun u hu phase q => Function.update_of_ne hu.symm _ _
  have h0 : (0 : WorkerId) ≠ w := (Nat.lt_of_lt_of_le Nat.two_pos hw).ne
  have h1 : (1 : WorkerId) ≠ w := (Nat.lt_of_lt_of_le Nat.one_lt_two hw).ne
  refine (hphase 1 h1 _ _).trans ((hphase 1 h1 _ _).trans ((hphase 1 h1 _ _).trans
    ((hphase 0 h0 _ _).trans ((hphase 0 h0 _ _).trans ?_))))
  exact if_neg h0.symm

/-- Each step of a run costs credit. -/
theorem SchedInv.run_length {l : List (Runtime κ V)} (hi : SchedInv s)
    (hrun : (s :: l).IsChain SchedStep) : l.length ≤ s.credit := by
  induction l generalizing s with
  | nil => exact Nat.zero_le _
  | cons s' l ih =>
    obtain ⟨hs, hrest⟩ := List.isChain_cons_cons.mp hrun
    have hless := hi.credit_step hs
    have hlength := ih (hi.step hs) hrest
    rw [List.length_cons]
    omega

omit [DecidableEq κ] [Monoid V] in
theorem credit_initial (code : Code κ V) (views : Option (ViewMap κ V)) :
    (initialRuntime code views).credit = 9 * code.size + 4 := by
  have hi := schedInv_initial code views
  have hheld : ((initialRuntime code views).phase 0).closure = some 0 := rfl
  have hhold : (initialRuntime code views).holdCredit 0 = 4 := hi.hold.holdCredit_held hheld
  have hlive : (initialRuntime code views).live 0 := rfl
  have hsum : (initialRuntime code views).credit =
      ∑ c ∈ Finset.range 1, (initialRuntime code views).closureCredit c := rfl
  rw [hsum, Finset.sum_range_one, closureCredit_live hlive, hhold]
  rfl

/-- Whatever the workers steal, and in whatever order they run, a region ends after a number of
sections and strand steps that is linear in the size of its code. -/
theorem region_stepBound {code : Code κ V} {views : Option (ViewMap κ V)} {l : List (Runtime κ V)}
    (hrun : (initialRuntime code views :: l).IsChain SchedStep) : l.length ≤ 9 * code.size + 4 := by
  rw [← credit_initial code views]
  exact (schedInv_initial code views).run_length hrun

theorem region_stepBound_spawned : ∃ l : List (Runtime Unit (FreeMonoid Bool)), l.length = 2 ∧
    l.length ≤ 9 * sampleCode.size + 4 := by
  let started : Runtime Unit (FreeMonoid Bool) := initialRuntime sampleCode none
  have hresumed := SchedStep.resumeStolen (s := started) (w := 0) (t := 0) (f := 0) 5 rfl rfl rfl
  have hspawned := SchedStep.detach (s := { started with
      sp := update started.sp 0 5
      phase := update started.phase 0 (.running 0) }) (w := 0) (t := 0) (f := 0) 7 rfl rfl rfl
  have hchain := List.isChain_cons_cons.mpr
    ⟨hresumed, List.isChain_cons_cons.mpr ⟨hspawned, List.isChain_singleton _⟩⟩
  exact ⟨_, rfl, region_stepBound hchain⟩

end Cheetah
