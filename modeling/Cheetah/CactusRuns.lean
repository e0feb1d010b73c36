import Cheetah.ExtensionLinks
import Cheetah.LeftHolderRuns

/-! The frames hang together in every run, whatever is stolen. -/
namespace Cheetah
open Function (update)

variable {κ V : Type} {s s' : Runtime κ V} {x x' : Extensions}

theorem callLinks_initial (code : Code κ V) (views : Option (ViewMap κ V)) (root : PedigreeFrame) :
    CallLinks (initialRuntime code views) (initialExtensions root) := by
  constructor
  case chain =>
    intro c hc
    have hroot : c = 0 := of_decide_eq_true hc
    subst hroot
    exact List.isChain_singleton 0
  case spawned =>
    intro k p above b hk hspawn
    cases hspawn
  case called =>
    intro d p above b hd hcall
    cases hcall
  case root => rfl

/-- A stolen spawn helper becomes the frame of a closure that has no children yet. -/
theorem CallLinks.promoteHelper (hc : CallLinks s x) (hi : SchedInv s) {victim : WorkerId}
    {cl : ClosureId} {f : FrameId} (hvictim : s.phase victim = .running cl)
    (hnone : s.frame cl = none) : CallLinks (s.promoteHelper cl f) x := by
  have hlive := hi.hold.live victim cl (by rw [hvictim]; rfl)
  refine ⟨hc.chain, ?_, hc.called, hc.root⟩
  intro k p above b hk hspawn hb hred
  have hpc : p ≠ cl := by
    rintro rfl
    have hmem := (hi.links.child p k hlive).mpr ⟨hk, hspawn⟩
    obtain ⟨g, hg, -⟩ := hi.frames.synched p hlive (.inl (List.ne_nil_of_mem hmem))
    rw [hnone] at hg
    cases hg
  have hframe : (s.promoteHelper cl f).frame p = s.frame p := Function.update_of_ne hpc _ _
  rw [hframe]
  exact hc.spawned k p above b hk hspawn hb hred

theorem SchedInv.promoteHelper (hi : SchedInv s) {victim : WorkerId} {cl : ClosureId} {f : FrameId}
    {parents above below : List FrameId} (hvictim : s.phase victim = .running cl)
    (hdeque : s.deque victim = f :: parents) (hstack : s.stack cl = above ++ f :: below)
    (hdetached : s.detached f = true) : SchedInv (s.promoteHelper cl f) where
  links := { hi.links with }
  hold := { hi.hold with }
  frames := hi.frames.promoteHelper hi.hold hvictim hdeque hstack hdetached
  tree := hi.tree.promoteHelper hi.hold hi.frames hvictim hdeque hstack hdetached
  exited := hi.exited

/-- The stolen frame and the frames above it, in a closure that has the frame as its own. -/
theorem CallLinks.stealOwn (hc : CallLinks s x) (hi : SchedInv s) {w victim : WorkerId}
    {cl : ClosureId} {f : FrameId} {parents above below : List FrameId}
    (hw : s.phase w = .stealing) (hvictim : s.phase victim = .running cl)
    (hdeque : s.deque victim = f :: parents) (hstack : s.stack cl = above ++ f :: below)
    (hframe : s.frame cl = some f) (hx : x'.callParent = x.callParent) :
    CallLinks (s.stealOwn w victim cl f above below) x' := by
  obtain ⟨rfl, hsplits⟩ :=
    hi.frames.splits_own hi.links hi.hold hw hvictim hdeque hstack hframe
  have hlive := hi.hold.live victim cl (by rw [hvictim]; rfl)
  have hne := hi.links.ne_fresh hlive
  apply hc.steal hi hsplits hvictim hdeque hstack hi.links.fresh (.inl ⟨rfl, hframe, rfl⟩)
    ⟨Function.update_self _ _ _, Function.update_self _ _ _⟩
  case hcalled => exact fun h => absurd rfl h
  case hspawnParent =>
    intro c hck _
    exact (Function.update_of_ne hck _ _).trans (Function.update_of_ne hck _ _)
  case hcallParent => exact fun c hck _ => Function.update_of_ne hck _ _
  case hx => exact hx

theorem CallLinks.returnChild (hc : CallLinks s x) (hi : SchedInv s) {w : WorkerId}
    {t parent : ClosureId} (hw : s.phase w = .returning t) (hx : x'.callParent = x.callParent) :
    CallLinks (s.returnChild w parent t) x' := by
  have hheld : (s.phase w).closure = some t := by rw [hw]; rfl
  exact hc.drop hi (hi.hold.live w t hheld) (hi.frames.returning_childless hi.hold hw).1
    (hi.hold.callee w t hheld) rfl (fun c hct => Function.update_of_ne hct _ _) rfl rfl
    (fun _ _ => rfl) rfl rfl hx

/-- A spawn helper that finds its parent stolen belongs to a spawned closure. -/
theorem CallLinks.spawned_of_helper (hc : CallLinks s x) (hi : SchedInv s) {t : ClosureId}
    {f : FrameId} (hlive : s.live t) (hstack : s.stack t = [f]) (hdetached : s.detached f = true) :
    s.callParent t = none ∧ s.spawnParent t ≠ none := by
  have hcall : s.callParent t = none := by
    cases hcall : s.callParent t with
    | none => rfl
    | some p =>
      rw [(hc.called t p [] f hlive hcall hstack).1] at hdetached
      cases hdetached
  refine ⟨hcall, fun hspawn => ?_⟩
  have hroot := hi.tree.parent t hlive hspawn hcall
  have hbottom : s.stack t = [] ++ [f] := hstack
  exact hi.tree.not_root hi.frames hbottom hdetached hroot

variable [DecidableEq κ] [Monoid V] {table : ℕ → BitVec 64} {bumps : κ → Bool}
  {allowed : Extensions → WorkerId → Prop}

theorem CallLinks.step (hc : CallLinks s x) (hi : SchedInv s) (hs : SchedStep s s')
    (hx : ExtensionStep table bumps allowed hs x x') : CallLinks s' x' := by
  have hkeep : s'.live = s.live → s'.stack = s.stack → s'.spawnParent = s.spawnParent →
      s'.callParent = s.callParent → s'.frame = s.frame → s'.detached = s.detached →
      s'.reduction = s.reduction → x'.callParent = x.callParent → CallLinks s' x' := by
    intro hlive hstack hspawnParent hcallParent hframe hdetached hreduction hx
    constructor
    all_goals
      simp only [hlive, hstack, hspawnParent, hcallParent, hframe, hdetached, hreduction, hx]
    · exact hc.chain
    · exact hc.spawned
    · exact hc.called
    · exact hc.root
  cases hx with
  | @update w t f below reducer u rest x hw hstack hcode =>
    apply hkeep rfl rfl rfl rfl rfl rfl rfl
    split <;> rfl
  | @enterFrame w t f below callee rest x hw hstack hcode =>
    exact hc.push hi hw hstack rfl (congrArg (update s.stack t) (congrArg _ hstack)) rfl rfl rfl
      (fun g hg => Function.update_of_ne hg _ _) (fun g hg => Function.update_of_ne hg _ _) rfl
  | @detach w t f below child rest rsp x hw hstack hcode hallowed =>
    exact hc.push hi hw hstack rfl (congrArg (update s.stack t) (congrArg _ hstack)) rfl rfl rfl
      (fun g hg => Function.update_of_ne hg _ _) (fun g hg => Function.update_of_ne hg _ _) rfl
  | @leaveFrame w t f below x hw hstack hcode hsynched hdetached hlast hstolen =>
    exact hc.pop hi hw hstack rfl rfl rfl rfl rfl (fun _ _ => rfl) rfl rfl
  | @leaveFrameHelper w t f below parents parent x hw hstack hcode hsynched hdetached hdeque =>
    exact hc.pop hi hw hstack rfl rfl rfl rfl rfl (fun g hg => Function.update_of_ne hg _ _) rfl rfl
  | @exceptionHandler w t f below x hw hstack hcode hsynched hdetached hdeque =>
    have hheld : (s.phase w).closure = some t := by rw [hw]; rfl
    have hlive := hi.hold.live w t hheld
    have hspawners := hi.frames.deque w t hheld
    rw [hdeque, hstack] at hspawners
    obtain rfl : below = [] := eq_nil_of_spawners_nil hspawners.symm hdetached
    have hspawned := (hc.spawned_of_helper hi hlive hstack hdetached).1
    refine hc.handle hi hw hstack hsynched rfl ?_ rfl rfl hspawned
      (fun c hct => Function.update_of_ne hct _ _) ?_ ?_ rfl
    · intro c
      by_cases hct : c = t
      · subst hct
        rw [if_pos rfl]
        exact (Function.update_self _ _ _).trans
          (congrArg (s.numFrames :: ·) (Function.update_self _ _ _))
      · rw [if_neg hct]
        exact (Function.update_of_ne hct _ _).trans (Function.update_of_ne hct _ _)
    · intro g hgf hgn
      exact (Function.update_of_ne hgn _ _).trans (Function.update_of_ne hgf _ _)
    · exact fun g => Function.update_apply s.reduction s.numFrames true g
  | @doReductions w t f x hw hframe hreduction =>
    apply hkeep rfl rfl rfl rfl rfl rfl rfl
    split <;> rfl
  | @stealStolen w victim cl f parents above below x hw hvictim hdeque hstack hframe =>
    exact hc.stealOwn hi hw hvictim hdeque hstack hframe rfl
  | @stealHelper w victim cl f parents above below x hw hvictim hdeque hstack hframe hdetached =>
    have hnone := hi.frames.helper_none hi.hold hvictim hdeque hstack hframe hdetached
    exact (hc.promoteHelper hi hvictim hnone).stealOwn
      (hi.promoteHelper hvictim hdeque hstack hdetached) hw hvictim hdeque hstack
      (Function.update_self _ _ _) rfl
  | @stealCalled w victim cl f parents above below x hw hvictim hdeque hstack hframe hdetached =>
    have hlive := hi.hold.live victim cl (by rw [hvictim]; rfl)
    have hlt := hi.links.bound cl hlive
    have hvw : victim ≠ w := by
      rintro rfl
      rw [hw] at hvictim
      cases hvictim
    have hk : ¬ s.live (s.numClosures + 1) := fun h =>
      Nat.not_lt_of_gt (Nat.lt_succ_self _) (hi.links.bound _ h)
    have hkr : s.numClosures ≠ s.numClosures + 1 := Nat.ne_of_lt (Nat.lt_succ_self _)
    have hsplits := Splits.called (s := s) above below (Nat.ne_of_lt hlt)
      (Nat.ne_of_lt (Nat.lt_succ_of_lt hlt)) hvw hdeque
    apply hc.steal hi hsplits hvictim hdeque hstack hk
      (.inr ⟨hi.links.fresh, hkr, hframe, hdetached⟩)
      ⟨Function.update_self _ _ _, Function.update_self _ _ _⟩
    case hcalled =>
      intro _
      refine ⟨(Function.update_of_ne hkr _ _).trans ((Function.update_of_ne hkr _ _).trans
        (Function.update_self _ _ _)), (Function.update_of_ne hkr _ _).trans
        (Function.update_self _ _ _)⟩
    case hspawnParent =>
      intro c hck hlivec
      have hcr := hi.links.ne_fresh hlivec
      exact (Function.update_of_ne hck _ _).trans ((Function.update_of_ne hck _ _).trans
        (Function.update_of_ne hcr _ _))
    case hcallParent =>
      intro c hck hlivec
      have hcr := hi.links.ne_fresh hlivec
      exact (Function.update_of_ne hck _ _).trans ((Function.update_of_ne hcr _ _).trans
        (Function.update_of_ne hcr _ _))
    case hx => rfl
  | @returnChild w t parent x hw hparent hleft hright hsteal =>
    exact hc.returnChild hi hw rfl
  | @resumeParent w t parent x hw hparent hleft hright hsteal =>
    have hret : CallLinks (s.returnChild w parent t)
        ((x.returnChild s parent t).setupForSync w parent (s.frame parent)) :=
      hc.returnChild hi hw rfl
    exact ⟨hret.chain, hret.spawned, hret.called, hret.root⟩
  | @setReturn w t f below parent x hw hstack hcode hsynched hdetached hlast hstolen hparent =>
    have hheld : (s.phase w).closure = some t := by rw [hw]; rfl
    have hlive := hi.hold.live w t hheld
    have hown := hi.frames.own t f hlive (by rw [hstack]; simp) (.inl hstolen)
    exact hc.drop hi hlive (hi.frames.childless hlive hown hsynched).1 (hi.hold.callee w t hheld)
      rfl (fun c hct => Function.update_of_ne hct _ _) rfl rfl
      (fun c hct => Function.update_of_ne hct _ _) rfl rfl rfl
  | _ => exact hkeep rfl rfl rfl rfl rfl rfl rfl rfl

/-- The extension keeps nobody from a step. -/
theorem ExtensionStep.total (table : ℕ → BitVec 64) (bumps : κ → Bool) (hs : SchedStep s s')
    (x : Extensions) : ∃ x', ExtensionStep table bumps (fun _ _ => True) hs x x' := by
  cases hs with
  | update hw hstack hcode => exact ⟨_, .update hw hstack hcode⟩
  | enterFrame hw hstack hcode => exact ⟨_, .enterFrame hw hstack hcode⟩
  | detach rsp hw hstack hcode => exact ⟨_, .detach hw hstack hcode trivial⟩
  | leaveFrame hw hstack hcode hsynched hdetached hlast hstolen =>
    exact ⟨_, .leaveFrame hw hstack hcode hsynched hdetached hlast hstolen⟩
  | leaveFrameHelper hw hstack hcode hsynched hdetached hdeque =>
    exact ⟨_, .leaveFrameHelper hw hstack hcode hsynched hdetached hdeque⟩
  | exceptionHandler hw hstack hcode hsynched hdetached hdeque =>
    exact ⟨_, .exceptionHandler hw hstack hcode hsynched hdetached hdeque⟩
  | syncFast hw hstack hcode hsynched => exact ⟨_, .syncFast hw hstack hcode hsynched⟩
  | suspendAtSync rsp hw hstack hcode hunsynched hchildren =>
    exact ⟨_, .suspendAtSync hw hstack hcode hunsynched hchildren⟩
  | passSync rsp hw hstack hcode hunsynched hchildren =>
    exact ⟨_, .passSync hw hstack hcode hunsynched hchildren⟩
  | doReductions hw hframe hreduction => exact ⟨_, .doReductions hw hframe hreduction⟩
  | doReductionsForReturn hw hframe hreduction =>
    exact ⟨_, .doReductionsForReturn hw hframe hreduction⟩
  | stealStolen hw hvictim hdeque hstack hframe =>
    exact ⟨_, .stealStolen hw hvictim hdeque hstack hframe⟩
  | stealHelper hw hvictim hdeque hstack hframe hdetached =>
    exact ⟨_, .stealHelper hw hvictim hdeque hstack hframe hdetached⟩
  | stealCalled hw hvictim hdeque hstack hframe hdetached =>
    exact ⟨_, .stealCalled hw hvictim hdeque hstack hframe hdetached⟩
  | resumeStolen rsp hw hframe hsteal => exact ⟨_, .resumeStolen hw hframe hsteal⟩
  | resumeSync hw hsteal => exact ⟨_, .resumeSync hw hsteal⟩
  | takeTables hw hparent htables => exact ⟨_, .takeTables hw hparent htables⟩
  | returnChild hw hparent hleft hright hsteal =>
    exact ⟨_, .returnChild hw hparent hleft hright hsteal⟩
  | resumeParent hw hparent hleft hright hsteal =>
    exact ⟨_, .resumeParent hw hparent hleft hright hsteal⟩
  | setReturn hw hstack hcode hsynched hdetached hlast hstolen hparent =>
    exact ⟨_, .setReturn hw hstack hcode hsynched hdetached hlast hstolen hparent⟩
  | exitRoot hw hstack hcode hsynched hlast =>
    exact ⟨_, .exitRoot hw hstack hcode hsynched hlast⟩

/-- The frames of the reductions belong to closures that were spawned, and the root frame stays the
last one until the region ends. -/
structure EndInv (s : Runtime κ V) : Prop where
  spawned : ∀ c f, s.live c → s.frame c = some f → s.reduction f = true → s.spawnParent c ≠ none
  last : (∀ w c, s.phase w ≠ .exited c) → s.last 0 = true

omit [DecidableEq κ] [Monoid V] in
theorem endInv_initial (code : Code κ V) (views : Option (ViewMap κ V)) :
    EndInv (initialRuntime code views) where
  spawned := fun _ _ _ _ hred => absurd hred Bool.false_ne_true
  last := fun _ => rfl

omit [DecidableEq κ] [Monoid V] in
/-- No closure gets one of the frames for reductions. -/
theorem EndInv.keep (he : EndInv s) (hi : SchedInv s) (hlive : ∀ c, s'.live c → s.live c)
    (hframe : ∀ c, s'.live c → s'.frame c = s.frame c)
    (hreduction : ∀ f, f ≠ s.numFrames → s'.reduction f = s.reduction f)
    (hspawnParent : s'.spawnParent = s.spawnParent)
    (hlast : (∀ w c, s'.phase w ≠ .exited c) → s'.last 0 = true) : EndInv s' := by
  refine ⟨fun c f hlivec hf hred => ?_, hlast⟩
  rw [hframe c hlivec] at hf
  have hold := hi.new_frame (hlive c hlivec) (hi.frames.frame_mem (hlive c hlivec) hf)
  rw [hreduction f hold] at hred
  rw [hspawnParent]
  exact he.spawned c f (hlive c hlivec) hf hred

omit [DecidableEq κ] [Monoid V] in
theorem EndInv.steal (he : EndInv s) (hi : SchedInv s) {w victim : WorkerId}
    {cl k res : ClosureId} {f : FrameId} {parents above below : List FrameId}
    (hs : Splits s s' w victim cl k res f parents above below)
    (hvictim : s.phase victim = .running cl) (hstack : s.stack cl = above ++ f :: below)
    (hspawnParent : ∀ c, c ≠ k → s.live c → s'.spawnParent c = s.spawnParent c)
    (hlast : s'.last 0 = true) : EndInv s' := by
  refine ⟨fun c g hlive hg hred => ?_, fun _ => hlast⟩
  rw [hs.reduction] at hred
  rcases hs.live c hlive with rfl | rfl | ⟨hck, hcr, hlivec⟩
  · rw [hs.frameChild] at hg
    cases hg
  · have huser := hi.frames.user hi.hold hvictim (f := f) (by rw [hstack]; simp)
    rw [hs.frameRes] at hg
    rw [← Option.some.inj hg, huser] at hred
    cases hred
  · rw [hs.frame c hck hcr] at hg
    rw [hspawnParent c hck hlivec]
    exact he.spawned c g hlivec hg hred

omit [DecidableEq κ] [Monoid V] in
theorem EndInv.stealOwn (he : EndInv s) (hi : SchedInv s) {w victim : WorkerId}
    {cl : ClosureId} {f : FrameId} {parents above below : List FrameId}
    (hw : s.phase w = .stealing) (hvictim : s.phase victim = .running cl)
    (hdeque : s.deque victim = f :: parents) (hstack : s.stack cl = above ++ f :: below)
    (hframe : s.frame cl = some f) (hlast : s.last 0 = true) :
    EndInv (s.stealOwn w victim cl f above below) := by
  obtain ⟨rfl, hsplits⟩ :=
    hi.frames.splits_own hi.links hi.hold hw hvictim hdeque hstack hframe
  apply he.steal hi hsplits hvictim hstack _ hlast
  intro c hck _
  exact (Function.update_of_ne hck _ _).trans (Function.update_of_ne hck _ _)

omit [DecidableEq κ] [Monoid V] in
theorem EndInv.promoteHelper (he : EndInv s) (hi : SchedInv s) {victim : WorkerId} {cl : ClosureId}
    {f : FrameId} {above below : List FrameId} (hvictim : s.phase victim = .running cl)
    (hstack : s.stack cl = above ++ f :: below) : EndInv (s.promoteHelper cl f) := by
  refine ⟨fun c g hlive hg hred => ?_, he.last⟩
  have hg' : update s.frame cl (some f) c = some g := hg
  by_cases hcl : c = cl
  · subst hcl
    have huser := hi.frames.user hi.hold hvictim (f := f) (by rw [hstack]; simp)
    rw [Function.update_self] at hg'
    have hred' : s.reduction g = true := hred
    rw [← Option.some.inj hg', huser] at hred'
    cases hred'
  · rw [Function.update_of_ne hcl] at hg'
    exact he.spawned c g hlive hg' hred

theorem EndInv.step (he : EndInv s) (hc : CallLinks s x) (hi : SchedInv s) (hs : SchedStep s s') :
    EndInv s' := by
  have hpos := hi.tree.numFrames_pos hi.frames
  have hlast0 := he.last fun w c hw => hi.ends hw hs
  have hdestroy : ∀ t c, update s.live t false c = true → c ≠ t ∧ s.live c = true := by
    intro t c h
    by_cases hct : c = t
    · rw [hct, Function.update_self] at h
      cases h
    · rw [Function.update_of_ne hct] at h
      exact ⟨hct, h⟩
  cases hs with
  | enterFrame hw hstack hcode =>
    exact he.keep hi (fun _ h => h) (fun _ _ => rfl) (fun g hg => Function.update_of_ne hg _ _) rfl
      fun _ => (Function.update_of_ne hpos.ne _ _).trans hlast0
  | detach rsp hw hstack hcode =>
    exact he.keep hi (fun _ h => h) (fun _ _ => rfl) (fun g hg => Function.update_of_ne hg _ _) rfl
      fun _ => (Function.update_of_ne hpos.ne _ _).trans hlast0
  | @exceptionHandler w t f below hw hstack hcode hsynched hdetached hdeque =>
    have hheld : (s.phase w).closure = some t := by rw [hw]; rfl
    have hlivet := hi.hold.live w t hheld
    have hspawners := hi.frames.deque w t hheld
    rw [hdeque, hstack] at hspawners
    obtain rfl : below = [] := eq_nil_of_spawners_nil hspawners.symm hdetached
    refine ⟨fun c g hlive hg hred => ?_, fun _ => ?_⟩
    · by_cases hct : c = t
      · rw [hct]
        exact (hc.spawned_of_helper hi hlivet hstack hdetached).2
      · have hg' : s.frame c = some g := (Function.update_of_ne hct _ _).symm.trans hg
        have hold := hi.new_frame hlive (hi.frames.frame_mem hlive hg')
        exact he.spawned c g hlive hg' ((Function.update_of_ne hold _ _).symm.trans hred)
    · exact (Function.update_of_ne hpos.ne _ _).trans hlast0
  | stealStolen hw hvictim hdeque hstack hframe =>
    exact he.stealOwn hi hw hvictim hdeque hstack hframe hlast0
  | stealHelper hw hvictim hdeque hstack hframe hdetached =>
    exact (he.promoteHelper hi hvictim hstack).stealOwn
      (hi.promoteHelper hvictim hdeque hstack hdetached) hw hvictim hdeque hstack
      (Function.update_self _ _ _) hlast0
  | @stealCalled w victim cl f parents above below hw hvictim hdeque hstack hframe hdetached =>
    have hlt := hi.links.bound cl (hi.hold.live victim cl (by rw [hvictim]; rfl))
    have hvw : victim ≠ w := by
      rintro rfl
      rw [hw] at hvictim
      cases hvictim
    have hsplits := Splits.called (s := s) above below (Nat.ne_of_lt hlt)
      (Nat.ne_of_lt (Nat.lt_succ_of_lt hlt)) hvw hdeque
    apply he.steal hi hsplits hvictim hstack _ hlast0
    intro c hck hlive
    exact (Function.update_of_ne hck _ _).trans ((Function.update_of_ne hck _ _).trans
      (Function.update_of_ne (hi.links.ne_fresh hlive) _ _))
  | @returnChild w t parent hw hparent hleft hright hsteal =>
    exact he.keep hi (fun c h => (hdestroy t c h).2) (fun _ _ => rfl) (fun _ _ => rfl) rfl
      fun _ => hlast0
  | @resumeParent w t parent hw hparent hleft hright hsteal =>
    have hret : EndInv (s.returnChild w parent t) :=
      he.keep hi (fun c h => (hdestroy t c h).2) (fun _ _ => rfl) (fun _ _ => rfl) rfl
        fun _ => hlast0
    exact ⟨hret.spawned, fun _ => hlast0⟩
  | @setReturn w t f below parent hw hstack hcode hsynched hdetached hlast hstolen hparent =>
    exact he.keep hi (fun c h => (hdestroy t c h).2)
      (fun c h => Function.update_of_ne (hdestroy t c h).1 _ _) (fun _ _ => rfl) rfl fun _ => hlast0
  | @exitRoot w t f below hw hstack hcode hsynched hlast =>
    refine he.keep hi (fun _ h => h) (fun _ _ => rfl) (fun _ _ => rfl) rfl fun hnone => ?_
    exact absurd (Function.update_self _ _ _) (hnone w t)
  | _ => exact he.keep hi (fun _ h => h) (fun _ _ => rfl) (fun _ _ => rfl) rfl fun _ => hlast0

/-- The invariants of the scheduler hold in every run, for some extension that goes along. -/
theorem cactus_reachable {code : Code κ V} {views : Option (ViewMap κ V)}
    (hrun : Reaches SchedStep (initialRuntime code views) s) :
    SchedInv s ∧ EndInv s ∧ ∃ x, CallLinks s x := by
  induction hrun with
  | refl =>
    exact ⟨schedInv_initial code views, endInv_initial code views, _,
      callLinks_initial code views ⟨0, none, 0, 0, 0⟩⟩
  | tail _ hs ih =>
    obtain ⟨hi, he, x, hc⟩ := ih
    obtain ⟨x', hx⟩ := ExtensionStep.total (fun _ => 0) (fun _ => false) hs x
    exact ⟨hi.step hs, he.step hc hi hs, x', hc.step hi hs hx⟩

end Cheetah
