import Cheetah.CactusRuns
import Cheetah.LeftHolderRuns

/-! The extension fibers go with the fibers, and each fiber that strands run on, or that waits for
a sync, is that of one closure. -/
namespace Cheetah
open Function (update)

variable {κ V : Type} {s s' : Runtime κ V} {x x' : Extensions}

/-- The extension fibers are handed out, passed on and given back together with the fibers. -/
structure SameFibers (s : Runtime κ V) (x : Extensions) : Prop where
  extFiber : x.extFiber = s.fiber
  extFiberChild : x.extFiberChild = s.fiberChild
  numExtFibers : x.numExtFibers = s.numFibers
  freedExt : x.freedExt = s.freed
  fresh : ∀ c, s.numClosures ≤ c → s.fiberChild c = none

/-- The closure is on the fiber with a worker, or has it back from its leftmost child. -/
def Runtime.Uses (s : Runtime κ V) (c : ClosureId) (fiber : FiberId) : Prop :=
  s.live c ∧ ((∃ w, (s.phase w).closure = some c) ∧ s.fiber c = some fiber ∨
    s.fiberChild c = some fiber)

structure FibersApart (s : Runtime κ V) : Prop where
  sole : ∀ c c' F, s.Uses c F → s.Uses c' F → c = c'
  parked : ∀ c, s.live c → s.status c = .suspended → s.callee c = none → s.fiber c = none

theorem sameFibers_initial (code : Code κ V) (views : Option (ViewMap κ V)) (root : PedigreeFrame) :
    SameFibers (initialRuntime code views) (initialExtensions root) :=
  ⟨rfl, rfl, rfl, rfl, fun _ _ => rfl⟩

theorem fibersApart_initial (code : Code κ V) (views : Option (ViewMap κ V)) :
    FibersApart (initialRuntime code views) where
  sole := by
    intro c c' F hc hc'
    have hzero : c = 0 := of_decide_eq_true hc.1
    have hzero' : c' = 0 := of_decide_eq_true hc'.1
    rw [hzero, hzero']
  parked := by
    intro c hc hs
    have hzero : c = 0 := of_decide_eq_true hc
    subst hzero
    cases hs

section Same

theorem SameFibers.keep (h : SameFibers s x) (hfiber : s'.fiber = s.fiber)
    (hfiberChild : s'.fiberChild = s.fiberChild) (hbound : s'.numFibers = s.numFibers)
    (hfreed : s'.freed = s.freed) (hclosures : s'.numClosures = s.numClosures)
    (hextFiber : x'.extFiber = x.extFiber) (hextFiberChild : x'.extFiberChild = x.extFiberChild)
    (hnumExtFibers : x'.numExtFibers = x.numExtFibers) (hfreedExt : x'.freedExt = x.freedExt) :
    SameFibers s' x' := by
  constructor
  · rw [hextFiber, hfiber, h.extFiber]
  · rw [hextFiberChild, hfiberChild, h.extFiberChild]
  · rw [hnumExtFibers, hbound, h.numExtFibers]
  · rw [hfreedExt, hfreed, h.freedExt]
  · rw [hfiberChild, hclosures]
    exact h.fresh

/-- A thief makes a child of `res`, which stays with the fiber of `cl`. -/
theorem SameFibers.steal (h : SameFibers s x) {cl res child : ClosureId}
    (hchild : s.numClosures ≤ child) (hbound : s'.numFibers = s.numFibers + 1)
    (hfiber : s'.fiber = update (update s.fiber child (s.fiber cl)) res (some s.numFibers))
    (hfiberChild : s'.fiberChild = s.fiberChild) (hfreed : s'.freed = s.freed)
    (hclosures : s.numClosures ≤ s'.numClosures) : SameFibers s' (x.steal cl res child) := by
  constructor
  · rw [hfiber, Extensions.steal, h.extFiber, h.numExtFibers]
  · change update x.extFiberChild child none = s'.fiberChild
    rw [hfiberChild, h.extFiberChild, Function.update_eq_self_iff.mpr (h.fresh child hchild).symm]
  · rw [hbound, Extensions.steal, h.numExtFibers]
  · rw [hfreed, Extensions.steal, h.freedExt]
  · intro c hc
    rw [hfiberChild]
    exact h.fresh c (hclosures.trans hc)

theorem SameFibers.stealOwn (h : SameFibers s x) {w victim : WorkerId} {cl : ClosureId}
    {f : FrameId} {above below : List FrameId} :
    SameFibers (s.stealOwn w victim cl f above below) (x.steal cl cl s.numClosures) := by
  apply h.steal
  case hchild => exact Nat.le_refl _
  case hbound | hfreed => rfl
  case hclosures => exact Nat.le_succ _
  case hfiber =>
    simp [Runtime.stealOwn, Runtime.promoteChild, Runtime.finishSteal, Runtime.setupForExecution,
      Runtime.addChild, Runtime.createClosure]
  case hfiberChild => exact Function.update_eq_self_iff.mpr (h.fresh _ (Nat.le_refl _)).symm

theorem SameFibers.stealCalled (h : SameFibers s x) {w victim : WorkerId} {cl : ClosureId}
    {f : FrameId} {above below : List FrameId} :
    SameFibers (s.stealCalled w victim cl f above below)
      (x.steal cl s.numClosures (s.numClosures + 1)) := by
  apply h.steal
  case hchild => exact Nat.le_succ _
  case hbound | hfreed => rfl
  case hclosures => exact (Nat.le_succ _).trans (Nat.le_succ _)
  case hfiber =>
    have hne : s.numClosures ≠ s.numClosures + 1 := (Nat.lt_succ_self _).ne
    simp only [Runtime.stealCalled, Runtime.promoteChild, Runtime.finishSteal, Runtime.addCallee,
      Runtime.setupForExecution, Runtime.addChild, Runtime.createClosure, Function.update_idem]
    rw [Function.update_comm hne, Function.update_idem]
  case hfiberChild =>
    have hcallee : update s.fiberChild s.numClosures none = s.fiberChild :=
      Function.update_eq_self_iff.mpr (h.fresh _ (Nat.le_refl _)).symm
    have hchild : update s.fiberChild (s.numClosures + 1) none = s.fiberChild :=
      Function.update_eq_self_iff.mpr (h.fresh _ (Nat.le_succ _)).symm
    change update (update s.fiberChild s.numClosures none) (s.numClosures + 1) none = s.fiberChild
    rw [hcallee, hchild]

theorem SameFibers.setupForSync (h : SameFibers s x) {p : ClosureId} (hp : p < s.numClosures)
    (w : WorkerId) (frame : Option FrameId) :
    SameFibers (s.setupForSync p) (x.setupForSync w p frame) := by
  constructor
  case fresh =>
    intro c hc
    exact (Function.update_of_ne (hp.trans_le hc).ne' _ _).trans (h.fresh c hc)
  all_goals
    simp only [Extensions.setupForSync, Runtime.setupForSync, Runtime.deallocateFiber, h.extFiber,
      h.extFiberChild, h.numExtFibers, h.freedExt]

theorem SameFibers.returnChild (h : SameFibers s x) {p t : ClosureId} (hp : p < s.numClosures)
    (w : WorkerId) : SameFibers (s.returnChild w p t) (x.returnChild s p t) := by
  constructor
  case fresh =>
    intro c hc
    have hcp : c ≠ p := (hp.trans_le hc).ne'
    have hkept : update s.fiberChild p (s.fiber t) c = none :=
      (Function.update_of_ne hcp _ _).trans (h.fresh c hc)
    change (if s.leftSib t ≠ none ∨ s.fiberChild p ≠ none then s.fiberChild
      else update s.fiberChild p (s.fiber t)) c = none
    by_cases hleft : s.leftSib t ≠ none ∨ s.fiberChild p ≠ none
    · rw [if_pos hleft]
      exact h.fresh c hc
    · rw [if_neg hleft]
      exact hkept
  all_goals
    simp only [Extensions.returnChild, h.extFiber, h.extFiberChild, h.numExtFibers, h.freedExt]
    rfl

variable [DecidableEq κ] [Monoid V] {table : ℕ → BitVec 64} {bumps : κ → Bool}
  {allowed : Extensions → WorkerId → Prop}

theorem SameFibers.step (h : SameFibers s x) (hi : SchedInv s) (hs : SchedStep s s')
    (hx : ExtensionStep table bumps allowed hs x x') : SameFibers s' x' := by
  cases hx with
  | update hw hstack hcode =>
    split
    all_goals exact h.keep rfl rfl rfl rfl rfl rfl rfl rfl rfl
  | @doReductions w t f x hw hframe hreduction =>
    split
    all_goals exact h.keep rfl rfl rfl rfl rfl rfl rfl rfl rfl
  | @suspendAtSync w t f below rsp x hw hstack hcode hunsynched hchildren =>
    constructor
    case fresh => exact h.fresh
    all_goals
      simp only [Extensions.suspendAtSync, Runtime.suspendAtSync, Runtime.deallocateFiber,
        h.extFiber, h.extFiberChild, h.numExtFibers, h.freedExt]
  | @passSync w t f below rsp x hw hstack hcode hunsynched hchildren =>
    have hlive := hi.links.bound t (hi.hold.live w t (by rw [hw]; rfl))
    have hsync := h.setupForSync hlive w (s.frame t)
    exact hsync.keep rfl rfl rfl rfl rfl rfl rfl rfl rfl
  | stealStolen hw hvictim hdeque hstack hframe => exact h.stealOwn
  | @stealHelper w victim cl f parents above below x hw hvictim hdeque hstack hframe hdetached =>
    have hpromoted : SameFibers (s.promoteHelper cl f) x :=
      ⟨h.extFiber, h.extFiberChild, h.numExtFibers, h.freedExt, h.fresh⟩
    exact hpromoted.stealOwn
  | stealCalled hw hvictim hdeque hstack hframe hdetached => exact h.stealCalled
  | @returnChild w t parent x hw hparent hleft hright hsteal =>
    obtain ⟨-, hp, -⟩ := hi.links.parent hi.hold hi.frames hw hparent
    exact h.returnChild (hi.links.bound parent hp) w
  | @resumeParent w t parent x hw hparent hleft hright hsteal =>
    obtain ⟨-, hp, -⟩ := hi.links.parent hi.hold hi.frames hw hparent
    have hret := h.returnChild (t := t) (hi.links.bound parent hp) w
    have hsync := hret.setupForSync (hi.links.bound parent hp) w (s.frame parent)
    exact hsync.keep rfl rfl rfl rfl rfl rfl rfl rfl rfl
  | @setReturn w t f below parent x hw hstack hcode hsynched hdetached hlast hstolen hparent =>
    constructor
    case fresh => exact h.fresh
    all_goals
      simp only [Extensions.setReturn, Extensions.bump, Runtime.setReturn, Runtime.destroyClosure,
        h.extFiber, h.extFiberChild, h.numExtFibers, h.freedExt]
  | _ => exact h.keep rfl rfl rfl rfl rfl rfl rfl rfl rfl

end Same

section Apart

/-- Who holds a closure after a worker has gone on. -/
theorem closure_update {w w' : WorkerId} {q : Phase} {c : ClosureId}
    (h : (update s.phase w q w').closure = some c) :
    w' = w ∧ q.closure = some c ∨ w' ≠ w ∧ (s.phase w').closure = some c := by
  by_cases hww : w' = w
  · subst hww
    rw [Function.update_self] at h
    exact .inl ⟨rfl, h⟩
  · rw [Function.update_of_ne hww] at h
    exact .inr ⟨hww, h⟩

theorem stealing_update {w w' : WorkerId} {c : ClosureId}
    (h : (update s.phase w .stealing w').closure = some c) :
    w' ≠ w ∧ (s.phase w').closure = some c :=
  (closure_update h).resolve_left fun h => by cases h.2

theorem suspended_update {status : ClosureId → ClosureStatus} {t c : ClosureId} {q : ClosureStatus}
    (hq : q ≠ .suspended) (h : update status t q c = .suspended) :
    c ≠ t ∧ status c = .suspended := by
  by_cases hct : c = t
  · subst hct
    rw [Function.update_self] at h
    exact absurd h hq
  · rw [Function.update_of_ne hct] at h
    exact ⟨hct, h⟩

theorem FibersApart.keep (h : FibersApart s) (huses : ∀ c F, s'.Uses c F → s.Uses c F)
    (hparked : ∀ c, s'.live c → s'.status c = .suspended → s'.callee c = none →
      s'.fiber c ≠ none → s.live c ∧ s.status c = .suspended ∧ s.callee c = none ∧
        s.fiber c ≠ none) : FibersApart s' := by
  constructor
  · intro c c' F hc hc'
    exact h.sole c c' F (huses c F hc) (huses c' F hc')
  · intro c hc hs hnone
    by_contra hfiber
    obtain ⟨hc', hs', hnone', hfiber'⟩ := hparked c hc hs hnone hfiber
    exact hfiber' (h.parked c hc' hs' hnone')

/-- The worker keeps the closure that it holds. -/
theorem FibersApart.hold (h : FibersApart s) {w : WorkerId} {q : Phase}
    (hq : q.closure = (s.phase w).closure) (hphase : s'.phase = update s.phase w q)
    (hlive : s'.live = s.live) (hfiber : s'.fiber = s.fiber)
    (hfiberChild : s'.fiberChild = s.fiberChild) (hcallee : s'.callee = s.callee)
    (hstatus : ∀ c, s'.status c = .suspended → s.status c = .suspended) : FibersApart s' := by
  have hclosure : ∀ w', (s'.phase w').closure = (s.phase w').closure := by
    intro w'
    rw [hphase]
    by_cases hww : w' = w
    · subst hww
      rw [Function.update_self, hq]
    · rw [Function.update_of_ne hww]
  apply h.keep
  · intro c F hc
    simpa only [Runtime.Uses, hlive, hfiber, hfiberChild, hclosure] using hc
  · intro c hc hs hnone hne
    rw [hlive] at hc
    rw [hcallee] at hnone
    rw [hfiber] at hne
    exact ⟨hc, hstatus c hs, hnone, hne⟩

/-- The fiber that a closure gets back is not the one that a worker is on with it. -/
theorem FiberInv.fiberChild_ne (hx : FiberInv s) {c : ClosureId} {F : FiberId} (hc : s.live c)
    (hF : s.fiber c = some F) : s.fiberChild c ≠ some F := by
  intro hF'
  by_cases hcalm : s.origRsp c = none
  · rw [(hx.calm c hc hcalm).2.1] at hF'
    cases hF'
  · rcases hx.leftmost c hc hcalm with hhome | ⟨hnone, -⟩
    · apply hx.away c hc hcalm
      rw [hF, ← hhome, hF']
    · rw [hnone] at hF'
      cases hF'

theorem FiberInv.uses_lt (hx : FiberInv s) {c : ClosureId} {F : FiberId} (h : s.Uses c F) :
    F < s.numFibers := by
  obtain ⟨hc, ⟨-, hF⟩ | hF⟩ := h
  · exact hx.bound c F hc (.inr hF)
  · by_cases hcalm : s.origRsp c = none
    · rw [(hx.calm c hc hcalm).2.1] at hF
      cases hF
    · rcases hx.leftmost c hc hcalm with hhome | ⟨hnone, -⟩
      · exact hx.bound c F hc (.inl (hhome ▸ hF))
      · rw [hnone] at hF
        cases hF

/-- What a steal does to the fibers: that of `cl` goes to the new child `k`, and the closure `res`
that the thief takes gets a new one. -/
structure SplitsFiber (s s' : Runtime κ V) (cl k res : ClosureId) : Prop where
  fiber : s'.fiber = update (update s.fiber k (s.fiber cl)) res (some s.numFibers)
  fiberChild : ∀ c F, s'.live c → s'.fiberChild c = some F →
    c ≠ k ∧ s.live c ∧ s.fiberChild c = some F
  numFibers : s'.numFibers = s.numFibers + 1
  freed : s'.freed = s.freed
  homeChild : s'.home k = s.fiber cl
  homeRes : s'.home res = if res = cl then s.home cl else s.fiber cl
  home : ∀ c, c ≠ k → s.live c → s'.home c = s.home c
  origRspChild : s'.origRsp k = none
  origRsp : ∀ c, c ≠ k → c ≠ res → s'.origRsp c = s.origRsp c
  spawnParentChild : s'.spawnParent k = some res
  spawnParentRes : res ≠ cl → s'.spawnParent res = none
  spawnParent : ∀ c, c ≠ k → s.live c → s'.spawnParent c = s.spawnParent c

theorem SchedInv.splitsFiber_own (hi : SchedInv s) {w victim : WorkerId} {cl : ClosureId}
    {f : FrameId} {above below : List FrameId} (hcl : s.live cl) :
    SplitsFiber s (s.stealOwn w victim cl f above below) cl s.numClosures cl := by
  have hne := hi.links.ne_fresh hcl
  constructor
  case fiberChild =>
    intro c F hlive hF
    have hck : c ≠ s.numClosures := by
      rintro rfl
      rw [show (s.stealOwn w victim cl f above below).fiberChild s.numClosures = none from
        Function.update_self _ _ _] at hF
      cases hF
    refine ⟨hck, ?_, ?_⟩
    · exact (Function.update_of_ne hck _ _).symm.trans hlive
    · exact (Function.update_of_ne hck _ _).symm.trans hF
  all_goals
    simp +contextual [Runtime.stealOwn, Runtime.promoteChild, Runtime.finishSteal,
      Runtime.setupForExecution, Runtime.addChild, Runtime.createClosure, hne, hne.symm]

theorem SchedInv.splitsFiber_called (hi : SchedInv s) {w victim : WorkerId} {cl : ClosureId}
    {f : FrameId} {above below : List FrameId} (hcl : s.live cl) :
    SplitsFiber s (s.stealCalled w victim cl f above below) cl (s.numClosures + 1)
      s.numClosures := by
  have hne := hi.links.ne_fresh hcl
  have hlt := hi.links.bound cl hcl
  have hne' : cl ≠ s.numClosures + 1 := (Nat.lt_succ_of_lt hlt).ne
  have hkr : s.numClosures ≠ s.numClosures + 1 := (Nat.lt_succ_self _).ne
  have hfresh : ∀ c, s.live c → c ≠ s.numClosures := fun c hc => hi.links.ne_fresh hc
  constructor
  case fiber =>
    simp only [Runtime.stealCalled, Runtime.promoteChild, Runtime.finishSteal, Runtime.addCallee,
      Runtime.setupForExecution, Runtime.addChild, Runtime.createClosure, Function.update_idem]
    rw [Function.update_comm hkr, Function.update_idem]
  case fiberChild =>
    intro c F hlive hF
    have hck : c ≠ s.numClosures + 1 := by
      rintro rfl
      rw [show (s.stealCalled w victim cl f above below).fiberChild (s.numClosures + 1) = none from
        Function.update_self _ _ _] at hF
      cases hF
    have hF' := (Function.update_of_ne hck _ _).symm.trans hF
    have hcr : c ≠ s.numClosures := by
      rintro rfl
      exact absurd ((Function.update_self _ _ _).symm.trans hF') (by simp)
    refine ⟨hck, ?_, ?_⟩
    · exact ((Function.update_of_ne hck _ _).trans (Function.update_of_ne hcr _ _)).symm.trans hlive
    · exact (Function.update_of_ne hcr _ _).symm.trans hF'
  all_goals
    simp +contextual [Runtime.stealCalled, Runtime.promoteChild, Runtime.finishSteal,
      Runtime.addCallee, Runtime.setupForExecution, Runtime.addChild, Runtime.createClosure, hne,
      hne.symm, hfresh]

/-- The fiber of the stolen closure goes to the child, with the victim. -/
theorem FibersApart.steal (h : FibersApart s) (hi : SchedInv s) (hx : FiberInv s)
    {w victim : WorkerId} {cl k res : ClosureId} {f : FrameId} {parents above below : List FrameId}
    (hs : Splits s s' w victim cl k res f parents above below) (hf : SplitsFiber s s' cl k res)
    (hvictim : s.phase victim = .running cl) (hres : res ≠ k) : FibersApart s' := by
  have hheld : (s.phase victim).closure = some cl := by rw [hvictim]; rfl
  have hcl := hi.hold.live victim cl hheld
  have hother : ∀ c F, s'.Uses c F → c ≠ k → F = s.numFibers ∧ c = res ∨
      s.Uses c F ∧ s.fiber cl ≠ some F := by
    rintro c F ⟨hc, ⟨⟨w', hw'⟩, hF⟩ | hF⟩ hck
    · rw [hf.fiber] at hF
      by_cases hcr : c = res
      · subst hcr
        rw [Function.update_self] at hF
        exact .inl ⟨(Option.some.inj hF).symm, rfl⟩
      · rw [Function.update_of_ne hcr, Function.update_of_ne hck] at hF
        have hww : w' ≠ w := by
          rintro rfl
          rw [hs.phaseThief] at hw'
          exact hcr (Option.some.inj hw').symm
        have hwv : w' ≠ victim := by
          rintro rfl
          rw [hs.phaseVictim] at hw'
          exact hck (Option.some.inj hw').symm
        rw [hs.phase w' hww hwv] at hw'
        have huses : s.Uses c F := ⟨hi.hold.live w' c hw', .inl ⟨⟨w', hw'⟩, hF⟩⟩
        refine .inr ⟨huses, fun hsame => ?_⟩
        have hcc := h.sole c cl F huses ⟨hcl, .inl ⟨⟨victim, hheld⟩, hsame⟩⟩
        exact hwv (hi.hold.unique w' victim cl (hcc ▸ hw') hheld)
    · obtain ⟨-, hlive, hF'⟩ := hf.fiberChild c F hc hF
      have huses : s.Uses c F := ⟨hlive, .inr hF'⟩
      refine .inr ⟨huses, fun hsame => ?_⟩
      obtain rfl := h.sole c cl F huses ⟨hcl, .inl ⟨⟨victim, hheld⟩, hsame⟩⟩
      exact hx.fiberChild_ne hlive hsame hF'
  have hchild : ∀ F, s'.Uses k F → s.fiber cl = some F := by
    rintro F ⟨hc, ⟨-, hF⟩ | hF⟩
    · rwa [hf.fiber, Function.update_of_ne hres.symm, Function.update_self] at hF
    · exact absurd rfl (hf.fiberChild k F hc hF).1
  have hnew : ∀ F, s.fiber cl = some F → F ≠ s.numFibers :=
    fun F hF => (hx.bound cl F hcl (.inr hF)).ne
  constructor
  · intro c c' F hc hc'
    by_cases hck : c = k
    · subst hck
      by_contra hne
      have hF := hchild F hc
      rcases hother c' F hc' (Ne.symm hne) with ⟨hFn, -⟩ | ⟨-, hF'⟩
      · exact hnew F hF hFn
      · exact hF' hF
    · by_cases hck' : c' = k
      · subst hck'
        have hF := hchild F hc'
        rcases hother c F hc hck with ⟨hFn, -⟩ | ⟨-, hF'⟩
        · exact absurd hFn (hnew F hF)
        · exact absurd hF hF'
      · rcases hother c F hc hck with ⟨hFn, rfl⟩ | ⟨huses, -⟩
        · rcases hother c' F hc' hck' with ⟨-, rfl⟩ | ⟨huses, -⟩
          · rfl
          · exact absurd hFn (hx.uses_lt huses).ne
        · rcases hother c' F hc' hck' with ⟨hFn, -⟩ | ⟨huses', -⟩
          · exact absurd hFn (hx.uses_lt huses).ne
          · exact h.sole c c' F huses huses'
  · intro c hc hsus hnone
    rcases hs.live c hc with rfl | rfl | ⟨hck, hcr, hc⟩
    · rw [hs.statusChild] at hsus
      cases hsus
    · rw [hs.statusRes] at hsus
      cases hsus
    · have hcc : c ≠ cl := by
        rintro rfl
        exact hs.calleeKept hcr hnone
      rw [hs.status c hck hcr hcc] at hsus
      rw [hs.callee c hck hcr hcc] at hnone
      rw [hf.fiber, Function.update_of_ne hcr, Function.update_of_ne hck]
      exact h.parked c hc hsus hnone

/-- A closure goes on after a sync with the fiber that it has back. -/
theorem FibersApart.sync (h : FibersApart s) {p : ClosureId} (hp : s.live p)
    (hlive : s'.live = s.live) (hfiber : s'.fiber = update s.fiber p (s.fiberChild p))
    (hfiberChild : s'.fiberChild = update s.fiberChild p none) (hcallee : s'.callee = s.callee)
    (hclosure : ∀ w c, (s'.phase w).closure = some c → c = p ∨ (s.phase w).closure = some c)
    (hstatus : ∀ c, s'.status c = .suspended → c ≠ p ∧ s.status c = .suspended) :
    FibersApart s' := by
  apply h.keep
  · rintro c F ⟨hc, ⟨⟨w, hw⟩, hF⟩ | hF⟩
    · rw [hlive] at hc
      rw [hfiber] at hF
      by_cases hcp : c = p
      · subst hcp
        rw [Function.update_self] at hF
        exact ⟨hp, .inr hF⟩
      · rw [Function.update_of_ne hcp] at hF
        exact ⟨hc, .inl ⟨⟨w, (hclosure w c hw).resolve_left hcp⟩, hF⟩⟩
    · rw [hlive] at hc
      rw [hfiberChild] at hF
      by_cases hcp : c = p
      · subst hcp
        rw [Function.update_self] at hF
        cases hF
      · rw [Function.update_of_ne hcp] at hF
        exact ⟨hc, .inr hF⟩
  · intro c hc hs hnone hne
    obtain ⟨hcp, hs'⟩ := hstatus c hs
    rw [hlive] at hc
    rw [hcallee] at hnone
    rw [hfiber, Function.update_of_ne hcp] at hne
    exact ⟨hc, hs', hnone, hne⟩

/-- A closure that a worker holds ends, and its fiber is the parent's from then on, or free. -/
theorem FibersApart.pass (h : FibersApart s) {w : WorkerId} {t p : ClosureId}
    (hheld : (s.phase w).closure = some t) (hlivet : s.live t)
    (hlive : s'.live = update s.live t false)
    (huses : ∀ c F, c ≠ t → s'.Uses c F → s.Uses c F ∨ c = p ∧ s.fiber t = some F)
    (hstatus : ∀ c, c ≠ t → s'.status c = .suspended → s'.callee c = none →
      s.status c = .suspended ∧ s.callee c = none)
    (hfiber : ∀ c, c ≠ t → s'.fiber c = s.fiber c) : FibersApart s' := by
  have hdead : ∀ c, s'.live c → c ≠ t := by
    rintro c hc rfl
    rw [hlive, Function.update_self] at hc
    cases hc
  have hlast : ∀ c F, c ≠ t → s.Uses c F → s.fiber t ≠ some F := by
    intro c F hct hc hF
    exact hct (h.sole c t F hc ⟨hlivet, .inl ⟨⟨w, hheld⟩, hF⟩⟩)
  constructor
  · intro c c' F hc hc'
    have hct := hdead c hc.1
    have hct' := hdead c' hc'.1
    rcases huses c F hct hc with hold | ⟨rfl, hF⟩
    · rcases huses c' F hct' hc' with hold' | ⟨rfl, hF⟩
      · exact h.sole c c' F hold hold'
      · exact absurd hF (hlast c F hct hold)
    · rcases huses c' F hct' hc' with hold' | ⟨rfl, -⟩
      · exact absurd hF (hlast c' F hct' hold')
      · rfl
  · intro c hc hs hnone
    have hct := hdead c hc
    obtain ⟨hs', hnone'⟩ := hstatus c hct hs hnone
    rw [hlive, Function.update_of_ne hct] at hc
    rw [hfiber c hct]
    exact h.parked c hc hs' hnone'

theorem FibersApart.stealOwn (h : FibersApart s) (hi : SchedInv s) (hx : FiberInv s)
    {w victim : WorkerId} {cl : ClosureId} {f : FrameId} {parents above below : List FrameId}
    (hw : s.phase w = .stealing) (hvictim : s.phase victim = .running cl)
    (hdeque : s.deque victim = f :: parents) (hstack : s.stack cl = above ++ f :: below)
    (hframe : s.frame cl = some f) : FibersApart (s.stealOwn w victim cl f above below) := by
  obtain ⟨rfl, hsplits⟩ :=
    hi.frames.splits_own hi.links hi.hold hw hvictim hdeque hstack hframe
  have hlive := hi.hold.live victim cl (by rw [hvictim]; rfl)
  exact h.steal hi hx hsplits (hi.splitsFiber_own hlive) hvictim (hi.links.ne_fresh hlive)

/-- How the stack is split when the stolen frame was called. -/
theorem SchedInv.splits_called (hi : SchedInv s) {w victim : WorkerId} {cl : ClosureId}
    {f : FrameId} {parents : List FrameId} (hw : s.phase w = .stealing)
    (hvictim : s.phase victim = .running cl) (hdeque : s.deque victim = f :: parents)
    (above below : List FrameId) :
    Splits s (s.stealCalled w victim cl f above below) w victim cl (s.numClosures + 1)
      s.numClosures f parents above below := by
  have hlt := hi.links.bound cl (hi.hold.live victim cl (by rw [hvictim]; rfl))
  have hvw : victim ≠ w := by
    rintro rfl
    rw [hw] at hvictim
    cases hvictim
  exact .called above below (Nat.ne_of_lt hlt) (Nat.ne_of_lt (Nat.lt_succ_of_lt hlt)) hvw hdeque

theorem FibersApart.returnChild (h : FibersApart s) (hi : SchedInv s) {w : WorkerId}
    {t parent : ClosureId} (hw : s.phase w = .returning t) :
    FibersApart (s.returnChild w parent t) := by
  have hheld : (s.phase w).closure = some t := by rw [hw]; rfl
  have hlivet := hi.hold.live w t hheld
  have hcallee := (returnChild_same (s := s) w parent t).2.2.2.1
  apply h.pass (p := parent) hheld hlivet rfl
  · rintro c F hct ⟨hc, ⟨⟨w', hw'⟩, hF⟩ | hF⟩
    · left
      have hheldc : (s.phase w').closure = some c := (stealing_update hw').2
      have hF' : s.fiber c = some F := (Function.update_of_ne hct _ _).symm.trans hF
      exact ⟨hi.hold.live w' c hheldc, .inl ⟨⟨w', hheldc⟩, hF'⟩⟩
    · have hlivec : s.live c := (Function.update_of_ne hct _ _).symm.trans hc
      rw [(returnChild_leftHolder (s := s) w parent t).1] at hF
      by_cases hleft : s.leftSib t ≠ none ∨ s.fiberChild parent ≠ none
      · rw [if_pos hleft] at hF
        exact .inl ⟨hlivec, .inr hF⟩
      · rw [if_neg hleft] at hF
        by_cases hcp : c = parent
        · subst hcp
          rw [Function.update_self] at hF
          exact .inr ⟨rfl, hF⟩
        · rw [Function.update_of_ne hcp] at hF
          exact .inl ⟨hlivec, .inr hF⟩
  · intro c hct hs hnone
    exact ⟨(Function.update_of_ne hct _ _).symm.trans hs, hcallee ▸ hnone⟩
  · exact fun c hct => Function.update_of_ne hct _ _

variable [DecidableEq κ] [Monoid V]

theorem FibersApart.step (h : FibersApart s) (hi : SchedInv s) (hx : FiberInv s)
    (hs : SchedStep s s') : FibersApart s' := by
  cases hs with
  | @exceptionHandler w t f below hw hstack hcode hsynched hdetached hdeque =>
    exact h.hold (q := .returning t) (by rw [hw]; rfl) rfl rfl rfl rfl rfl
      fun c hc => (suspended_update (by simp) hc).2
  | @suspendAtSync w t f below rsp hw hstack hcode hunsynched hchildren =>
    have hfiber : ∀ c F, update s.fiber t none c = some F → c ≠ t ∧ s.fiber c = some F := by
      intro c F hF
      have hct : c ≠ t := by
        rintro rfl
        rw [Function.update_self] at hF
        cases hF
      exact ⟨hct, (Function.update_of_ne hct _ _).symm.trans hF⟩
    apply h.keep
    · rintro c F ⟨hc, ⟨⟨w', hw'⟩, hF⟩ | hF⟩
      · exact ⟨hc, .inl ⟨⟨w', (stealing_update hw').2⟩, (hfiber c F hF).2⟩⟩
      · exact ⟨hc, .inr hF⟩
    · intro c hc hs hnone hne
      obtain ⟨F, hF⟩ := Option.ne_none_iff_exists'.mp hne
      obtain ⟨hct, hF'⟩ := hfiber c F hF
      exact ⟨hc, (Function.update_of_ne hct _ _).symm.trans hs, hnone, hF' ▸ Option.some_ne_none F⟩
  | @passSync w t f below rsp hw hstack hcode hunsynched hchildren =>
    have hlive := hi.hold.live w t (by rw [hw]; rfl)
    have hnot := hi.hold.not_suspended (w := w) (c := t) (by rw [hw]; rfl)
    refine h.sync hlive rfl rfl rfl rfl ?_ ?_
    · intro w' c hc
      exact (closure_update hc).imp (fun h => (Option.some.inj h.2).symm) And.right
    · intro c hc
      refine ⟨?_, hc⟩
      rintro rfl
      exact hnot hc
  | @doReductions w t f hw hframe hreduction =>
    exact h.hold (q := .running t) (by rw [hw]; rfl) rfl rfl rfl rfl rfl fun _ hc => hc
  | @doReductionsForReturn w t f hw hframe hreduction =>
    exact h.hold (q := .returning t) (by rw [hw]; rfl) rfl rfl rfl rfl rfl
      fun c hc => (suspended_update (by simp) hc).2
  | @stealStolen w victim cl f parents above below hw hvictim hdeque hstack hframe =>
    exact h.stealOwn hi hx hw hvictim hdeque hstack hframe
  | @stealHelper w victim cl f parents above below hw hvictim hdeque hstack hframe hdetached =>
    have hpromoted : FibersApart (s.promoteHelper cl f) := ⟨h.sole, h.parked⟩
    exact hpromoted.stealOwn (hi.promoteHelper hvictim hdeque hstack hdetached)
      (hx.promoteHelper hi.hold hi.frames hvictim hdeque hstack hframe hdetached) hw hvictim hdeque
      hstack (Function.update_self _ _ _)
  | @stealCalled w victim cl f parents above below hw hvictim hdeque hstack hframe hdetached =>
    have hlive := hi.hold.live victim cl (by rw [hvictim]; rfl)
    have hsplits := hi.splits_called hw hvictim hdeque
    exact h.steal hi hx (hsplits above below) (hi.splitsFiber_called hlive) hvictim
      (Nat.lt_succ_self _).ne
  | @resumeStolen w t f rsp hw hframe hsteal =>
    exact h.hold (q := .running t) (by rw [hw]; rfl) rfl rfl rfl rfl rfl fun _ hc => hc
  | @resumeSync w t hw hsteal =>
    exact h.hold (q := .reducing t) (by rw [hw]; rfl) rfl rfl rfl rfl rfl fun _ hc => hc
  | @takeTables w t parent hw hparent htables =>
    exact h.hold (q := .scheduled t) (by rw [hw]; rfl) rfl rfl rfl rfl rfl
      fun c hc => (suspended_update (by simp) hc).2
  | @returnChild w t parent hw hparent hleft hright hsteal => exact h.returnChild hi hw
  | @resumeParent w t parent hw hparent hleft hright hsteal =>
    obtain ⟨-, hp, -, hpt⟩ := hi.links.parent hi.hold hi.frames hw hparent
    have hret : FibersApart (s.returnChild w parent t) := h.returnChild hi hw
    have hp' : (s.returnChild w parent t).live parent := (Function.update_of_ne hpt _ _).trans hp
    refine hret.sync hp' rfl rfl rfl rfl ?_ ?_
    · intro w' c hc
      exact (closure_update hc).imp (fun h => (Option.some.inj h.2).symm) And.right
    · intro c hc
      exact suspended_update (q := .running) (by simp) hc
  | @setReturn w t f below parent hw hstack hcode hsynched hdetached hlast hstolen hparent =>
    have hheldt : (s.phase w).closure = some t := by rw [hw]; rfl
    have hlive := hi.hold.live w t hheldt
    have hp := hi.links.caller t parent hlive hparent
    have hown := hi.frames.own t f hlive (by rw [hstack]; simp) (.inl hstolen)
    have hcalm := hx.calm_of_frame hi.frames hlive fun g hg => by
      rw [hown] at hg
      exact Option.some.inj hg ▸ hsynched
    have hcallee := (hi.links.called parent t hp).mpr ⟨hlive, hparent⟩
    have hfiber : s.fiber parent = s.fiber t :=
      (hx.called parent t hp hcallee).trans (hx.calm t hlive hcalm).1.symm
    apply h.pass (p := parent) hheldt hlive rfl
    · rintro c F hct ⟨hc, ⟨⟨w', hw'⟩, hF⟩ | hF⟩
      · have hF' : s.fiber c = some F := (Function.update_of_ne hct _ _).symm.trans hF
        rcases closure_update hw' with ⟨-, hq⟩ | ⟨-, hw''⟩
        · obtain rfl : parent = c := Option.some.inj hq
          exact .inr ⟨rfl, hfiber ▸ hF'⟩
        · exact .inl ⟨hi.hold.live w' c hw'', .inl ⟨⟨w', hw''⟩, hF'⟩⟩
      · exact .inl ⟨(Function.update_of_ne hct _ _).symm.trans hc, .inr hF⟩
    · intro c hct hs hnone
      obtain ⟨hcp, hs'⟩ := suspended_update (q := .running) (by simp) hs
      refine ⟨(suspended_update (q := .postInvalid) (by simp) hs').2, ?_⟩
      exact (Function.update_of_ne hcp _ _).symm.trans hnone
    · exact fun c hct => Function.update_of_ne hct _ _
  | @exitRoot w t f below hw hstack hcode hsynched hlast =>
    exact h.hold (q := .exited t) (by rw [hw]; rfl) rfl rfl rfl rfl rfl fun _ hc => hc
  | _ => exact h.keep (fun _ _ hc => hc) fun _ hc hs hnone hne => ⟨hc, hs, hnone, hne⟩

end Apart

end Cheetah
