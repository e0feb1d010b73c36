import Cheetah.LeftHolder
import Cheetah.SchedulerJoins

/-! The left-holder rule for stacks: in every run a sync resumes a closure on the fiber and with
the stack pointer of its first steal, and gives every other fiber back once. -/
namespace Cheetah
open Function (update)

variable {κ V : Type} {s s' : Runtime κ V}

/-- A frame without a steal since its sync. -/
theorem FrameInv.unstolen (hf : FrameInv s) {f : FrameId} (hsynched : s.unsynched f = false) :
    s.steals f = [] := by
  by_contra h
  rw [(hf.steals f).mpr h] at hsynched
  cases hsynched

/-- The steals of frames that no live closure has do not matter. -/
theorem FrameInv.firstSteal_congr (hf : FrameInv s) {c : ClosureId} (hc : s.live c)
    (hframe : s'.frame c = s.frame c)
    (hsteals : ∀ f, s.frame c = some f → f < s.numFrames → f ∈ s.stack c →
      s'.steals f = s.steals f) : s'.firstSteal c = s.firstSteal c := by
  rw [Runtime.firstSteal, Runtime.firstSteal, hframe]
  cases hown : s.frame c with
  | none => rfl
  | some f =>
    have hmem := hf.frame_mem hc hown
    rw [Option.bind_some, Option.bind_some, hsteals f hown (hf.bound c f hc hmem) hmem]

/-- The oldest frame of a closure that is stolen for the first time is a spawn helper, and the
closure has no frame yet. -/
theorem FrameInv.helper_none (hh : HoldInv s) (hf : FrameInv s) {victim : WorkerId}
    {cl : ClosureId} {f : FrameId} {parents above below : List FrameId}
    (hvictim : s.phase victim = .running cl) (hdeque : s.deque victim = f :: parents)
    (hstack : s.stack cl = above ++ f :: below) (hframe : s.frame cl ≠ some f)
    (hdetached : s.detached f = true) : s.frame cl = none := by
  obtain rfl : below = [] :=
    eq_nil_of_spawners_nil (hf.victim hh hvictim hdeque hstack).2.1 hdetached
  have hlive := hh.live victim cl (by rw [hvictim]; rfl)
  cases hown : s.frame cl with
  | none => rfl
  | some g =>
    obtain ⟨above', habove'⟩ := hf.bottom cl g hlive hown
    obtain ⟨-, hfg⟩ := List.append_inj' (hstack.symm.trans habove') rfl
    obtain rfl : f = g := by simpa using hfg
    exact absurd hown hframe

/-- A closure that has not been stolen since its last sync has no children. -/
theorem FiberInv.childless (hx : FiberInv s) (hf : FrameInv s) {c : ClosureId} (hc : s.live c)
    (hcalm : s.origRsp c = none) : s.children c = [] := by
  by_contra h
  exact hx.stolen hf hc h hcalm

/-- A closure whose own frame has passed its syncs, or that has none, is on its first fiber. -/
theorem FiberInv.calm_of_frame (hx : FiberInv s) (hf : FrameInv s) {c : ClosureId}
    (hc : s.live c) (hframe : ∀ f, s.frame c = some f → s.unsynched f = false) :
    s.origRsp c = none := by
  have hfirst := hx.first c hc
  have hnone : s.firstSteal c = none := by
    rw [Runtime.firstSteal]
    cases hown : s.frame c with
    | none => rfl
    | some f => simp [hf.unstolen (hframe f hown)]
  rw [hnone] at hfirst
  simpa using hfirst.symm

theorem FiberInv.stolen_of_frame (hx : FiberInv s) (hf : FrameInv s) {c : ClosureId} {f : FrameId}
    (hc : s.live c) (hframe : s.frame c = some f) (hunsynched : s.unsynched f = true) :
    s.origRsp c ≠ none := by
  have hfirst := hx.first c hc
  have hsteals := (hf.steals f).mp hunsynched
  intro hnone
  rw [hnone, Runtime.firstSteal, hframe] at hfirst
  exact hsteals (List.head?_eq_none_iff.mp hfirst)

section Steals

attribute [local simp] Runtime.stealOwn Runtime.stealCalled Runtime.addCallee Runtime.promoteChild
  Runtime.finishSteal Runtime.setupForExecution Runtime.addChild Runtime.createClosure

theorem FiberInv.fiber_of_held (hx : FiberInv s) (hh : HoldInv s) {w : WorkerId} {c : ClosureId}
    (hheld : (s.phase w).closure = some c) : ∃ y, s.fiber c = some y := by
  rw [← Option.ne_none_iff_exists']
  exact fun h => hh.not_suspended hheld (hx.awake c (hh.live w c hheld) h).1

theorem FiberInv.stealOwn (hx : FiberInv s) (hl : LinksInv s) (hh : HoldInv s) (hf : FrameInv s)
    {victim : WorkerId} {cl : ClosureId} {f : FrameId} {above below : List FrameId}
    (hvictim : s.phase victim = .running cl) (hstack : s.stack cl = above ++ f :: below)
    (hframe : s.frame cl = some f) (w : WorkerId) :
    FiberInv (s.stealOwn w victim cl f above below) := by
  have hheld : (s.phase victim).closure = some cl := by rw [hvictim]; rfl
  have hlive := hh.live victim cl hheld
  have hne := hl.ne_fresh hlive
  have hmem : f ∈ s.stack cl := by rw [hstack]; simp
  obtain ⟨y, hy⟩ := hx.fiber_of_held hh hheld
  have hgives : GivesFiber s (s.stealOwn w victim cl f above below) cl s.numClosures y (s.sp f) := by
    constructor
    case parent => exact hlive
    case fresh => exact hl.fresh
    case held => exact hy
    case firstChild | firstOwn => simp [Runtime.firstSteal, hy, hframe, hne, List.head?_append]
    case first =>
      intro c hc hcp
      apply hf.firstSteal_congr hc (Function.update_of_ne (hl.ne_fresh hc) _ _)
      intro g hg hlt hmemg
      apply Function.update_of_ne
      rintro rfl
      exact hcp (hf.disjoint c cl g hc hlive hmemg hmem)
    case status =>
      intro c hck hcp hc
      simp [hck, hcp, hc]
    all_goals simp [hne, hy]
  exact hx.steal hl hgives (hh.callee victim cl hheld) (hx.childless hf hlive)

/-- The state after `add_callee`, with the callee on the fiber of the closure that called it. -/
theorem FiberInv.addCallee (hx : FiberInv s) (hl : LinksInv s) (hh : HoldInv s) (hf : FrameInv s)
    {victim : WorkerId} {cl : ClosureId} {f : FrameId} {above below : List FrameId}
    (hvictim : s.phase victim = .running cl) (hstack : s.stack cl = above ++ f :: below)
    (hframe : s.frame cl ≠ some f) :
    FiberInv { s.addCallee cl s.numClosures f below with
      fiber := update s.fiber s.numClosures (s.fiber cl) } := by
  have hheld : (s.phase victim).closure = some cl := by rw [hvictim]; rfl
  have hlive := hh.live victim cl hheld
  have hne := hl.ne_fresh hlive
  have hmem : f ∈ s.stack cl := by rw [hstack]; simp
  obtain ⟨y, hy⟩ := hx.fiber_of_held hh hheld
  have hsteals : s.steals f = [] := by
    apply hf.unstolen
    by_contra h
    rw [Bool.not_eq_false] at h
    exact hframe (hf.own cl f hlive hmem (.inr (.inl h)))
  apply hx.call hl hlive hl.fresh hy
  case hfirstOwn => simp [Runtime.firstSteal, hsteals]
  case hfirst =>
    intro c hc
    exact hf.firstSteal_congr hc (Function.update_of_ne (hl.ne_fresh hc) _ _) fun _ _ _ _ => rfl
  case hstatus =>
    intro c hcp hck hc
    simp [hck, hcp, hc]
  all_goals simp [hy]

theorem FiberInv.stealCalled (hx : FiberInv s) (hl : LinksInv s) (hh : HoldInv s) (hf : FrameInv s)
    {victim : WorkerId} {cl : ClosureId} {f : FrameId} {above below : List FrameId}
    (hvictim : s.phase victim = .running cl) (hstack : s.stack cl = above ++ f :: below)
    (hframe : s.frame cl ≠ some f) (w : WorkerId) :
    FiberInv (s.stealCalled w victim cl f above below) := by
  have hheld : (s.phase victim).closure = some cl := by rw [hvictim]; rfl
  have hlive := hh.live victim cl hheld
  have hne := hl.ne_fresh hlive
  have hmem : f ∈ s.stack cl := by rw [hstack]; simp
  obtain ⟨y, hy⟩ := hx.fiber_of_held hh hheld
  have hcalled := hx.addCallee hl hh hf hvictim hstack hframe
  have hlinks := hl.addCallee hlive (hh.callee victim cl hheld) f below
  have hfresh : ∀ c, s.live c → c ≠ s.numClosures ∧ c ≠ s.numClosures + 1 := fun c hc =>
    ⟨hl.ne_fresh hc, (Nat.lt_succ_of_lt (hl.bound c hc)).ne⟩
  have hsteals : s.steals f = [] := by
    apply hf.unstolen
    by_contra h
    rw [Bool.not_eq_false] at h
    exact hframe (hf.own cl f hlive hmem (.inr (.inl h)))
  have hgives : GivesFiber { s.addCallee cl s.numClosures f below with
      fiber := update s.fiber s.numClosures (s.fiber cl) } (s.stealCalled w victim cl f above below)
      s.numClosures (s.numClosures + 1) y (s.sp f) := by
    constructor
    case fresh =>
      have hdead : ¬ s.live (s.numClosures + 1) := fun h => (hfresh _ h).2 rfl
      simpa using hdead
    case fiber =>
      funext c
      by_cases hc : c = s.numClosures <;> simp [hc, hy, Function.update_apply]
    case firstChild | firstOwn => simp [Runtime.firstSteal, hy, hsteals]
    case first =>
      intro c hlivec hcp
      have hc : s.live c := by simpa [hcp] using hlivec
      have hother : ∀ g, s.frame c = some g → g ∈ s.stack c → g ≠ f := by
        rintro g hg hmemg rfl
        obtain rfl := hf.disjoint c cl g hc hlive hmemg hmem
        exact hframe hg
      calc _ = s.firstSteal c := by
            apply hf.firstSteal_congr hc
            · simp [hfresh c hc]
            · exact fun g hg _ hmemg => Function.update_of_ne (hother g hg hmemg) _ _
        _ = _ := by
            apply Eq.symm
            apply hf.firstSteal_congr hc (Function.update_of_ne (hfresh c hc).1 _ _)
            exact fun _ _ _ _ => rfl
    case status =>
      intro c hck hcp hc
      simpa [hck, hcp] using hc
    all_goals simp [hne, hy]
  apply hcalled.steal { hlinks with } hgives
  all_goals simp [Ne.symm hne]

end Steals

/-- A spawn helper becomes the frame of its closure, which had none and was never stolen. -/
theorem FiberInv.promoteHelper (hx : FiberInv s) (hh : HoldInv s) (hf : FrameInv s)
    {victim : WorkerId} {cl : ClosureId} {f : FrameId} {parents above below : List FrameId}
    (hvictim : s.phase victim = .running cl) (hdeque : s.deque victim = f :: parents)
    (hstack : s.stack cl = above ++ f :: below) (hframe : s.frame cl ≠ some f)
    (hdetached : s.detached f = true) : FiberInv (s.promoteHelper cl f) := by
  have hlive := hh.live victim cl (by rw [hvictim]; rfl)
  have hmem : f ∈ s.stack cl := by rw [hstack]; simp
  have hnone := hf.helper_none hh hvictim hdeque hstack hframe hdetached
  have hsteals : s.steals f = [] := by
    apply hf.unstolen
    by_contra h
    rw [Bool.not_eq_false] at h
    exact hframe (hf.own cl f hlive hmem (.inr (.inl h)))
  refine hx.keep rfl rfl rfl rfl rfl rfl rfl rfl rfl rfl rfl rfl ?_ fun _ _ _ h => h
  intro c hc
  by_cases hcl : c = cl
  · subst hcl
    simp [Runtime.firstSteal, Runtime.promoteHelper, hnone, hsteals]
  · exact hf.firstSteal_congr hc (Function.update_of_ne hcl _ _) fun _ _ _ _ => rfl

theorem FiberInv.setupForSync (hx : FiberInv s) (hf : FrameInv s) {p : ClosureId} {f : FrameId}
    (hp : s.live p) (hframe : s.frame p = some f) (hunsynched : s.unsynched f = true)
    (hchildren : s.children p = []) (hcallee : s.callee p = none) :
    FiberInv (s.setupForSync p) := by
  refine hx.sync hp (hx.stolen_of_frame hf hp hframe hunsynched) hchildren hcallee rfl rfl rfl rfl
    rfl rfl rfl rfl rfl rfl rfl rfl ?_ ?_ fun _ _ h => h
  · simp [Runtime.firstSteal, Runtime.setupForSync, Runtime.deallocateFiber, hframe]
  · intro c hc hcp
    refine hf.firstSteal_congr hc rfl fun g hg _ hmem => storeAt_of_ne ?_
    rw [hframe]
    rintro ⟨⟩
    exact hcp (hf.disjoint c p f hc hp hmem (hf.frame_mem hp hframe))

theorem Leaves.returnChild (w : WorkerId) (parent t : ClosureId) :
    Leaves s (s.returnChild w parent t) parent t := by
  have hsame := returnChild_same (s := s) w parent t
  have hflags := SameFlags.returnChild (s := s) w parent t
  constructor
  case first =>
    intro c _
    rw [Runtime.firstSteal, Runtime.firstSteal, hsame.2.2.2.2.1, hflags.steals]
  case status => exact fun c hc h => (Function.update_of_ne hc _ _).trans h
  case callee => exact hsame.2.2.2.1
  all_goals
    cases s
    rfl

theorem returnChild_leftHolder (w : WorkerId) (parent t : ClosureId) :
    (s.returnChild w parent t).fiberChild =
      (if s.leftSib t ≠ none ∨ s.fiberChild parent ≠ none then s.fiberChild
        else update s.fiberChild parent (s.fiber t)) ∧
    (s.returnChild w parent t).freed =
      (if s.leftSib t ≠ none ∨ s.fiberChild parent ≠ none
        then s.freed ++ (s.fiber t).toList else s.freed) := by
  cases s
  exact ⟨rfl, rfl⟩

theorem FiberInv.returnChild (hx : FiberInv s) (hl : LinksInv s) (hh : HoldInv s) (hf : FrameInv s)
    {w : WorkerId} {t parent : ClosureId} (hw : s.phase w = .returning t)
    (hparent : s.spawnParent t = some parent) : FiberInv (s.returnChild w parent t) := by
  obtain ⟨hlive, hp, hmem, hne⟩ := hl.parent hh hf hw hparent
  have hcalm := hx.calm_of_frame hf hlive fun f hframe =>
    (hf.done f (hf.returning w t f hw hframe)).2
  have hspawned := hx.stolen hf hp (List.ne_nil_of_mem hmem)
  have hleaves := Leaves.returnChild (s := s) w parent t
  have hleftmost := hx.leftmost_iff hl hp hmem hspawned
  obtain ⟨hfiberChild, hfreed⟩ := returnChild_leftHolder (s := s) w parent t
  by_cases hsame : s.home t = s.home parent
  · rw [if_neg fun h => hleftmost.mp h hsame] at hfiberChild hfreed
    exact hx.passUp hl hleaves hp hmem hspawned hcalm hsame hfiberChild hfreed
  · rw [if_pos (hleftmost.mpr hsame)] at hfiberChild hfreed
    exact hx.giveBack hl hleaves hp hmem hcalm hsame hfiberChild hfreed

/-- The fiber on which a closure was made stays out of the pool while the closure lives. By
induction: the parent that it has the fiber from is older. -/
theorem FiberInv.home_kept (hx : FiberInv s) (hl : LinksInv s) (ht : TreeInv s) (c : ClosureId)
    (x : FiberId) (hc : s.live c) (hhome : s.home c = some x) : x ∉ s.freed := by
  induction c using Nat.strong_induction_on with
  | _ c ih =>
    by_cases hinherits : s.Inherits c
    · rcases hinherits with hcall | ⟨p, hp, hsame⟩
      · obtain ⟨p, hp⟩ := Option.ne_none_iff_exists'.mp hcall
        have hlive := hl.caller c p hc hp
        have hfiber := hx.called p c hlive ((hl.called p c hlive).mpr ⟨hc, hp⟩)
        rw [hhome] at hfiber
        by_cases hcalm : s.origRsp p = none
        · exact ih p (ht.older c p hc (.inr hp)) hlive
            ((hx.calm p hlive hcalm).1.symm.trans hfiber)
        · exact hx.kept p x ⟨hlive, .inr ⟨hfiber, hcalm⟩⟩
      · exact ih p (ht.older c p hc (.inl hp)) (hl.spawner c p hc hp) (hsame.symm.trans hhome)
    · exact hx.kept c x ⟨hc, .inl ⟨hhome, hinherits⟩⟩

/-- A closure goes on from a sync as it was before its first steal, and the other fibers that were
given out since the last sync are back in the pool. -/
structure LeftHolder (s : Runtime κ V) (c : ClosureId) (f : FrameId) (x : FiberId) (sp : ℕ)
    (given : List FiberId) : Prop where
  fiber : s.fiber c = some x
  sp : s.sp f = sp
  kept : x ∉ s.freed
  returned : ∀ y ∈ given, y ≠ x → s.freed.count y = 1
  fiberChild : s.fiberChild c = none
  origRsp : s.origRsp c = none

/-- The sync of a closure whose children have all returned. -/
theorem FiberInv.leftHolder (hx : FiberInv s) (hf : FrameInv s) (hi' : SchedInv s')
    (hx' : FiberInv s') {c : ClosureId} {f : FrameId} (hc : s.live c) (hc' : s'.live c)
    (hframe : s.frame c = some f) (hunsynched : s.unsynched f = true) (hnone : s.children c = [])
    (hhome : s'.home = s.home) (hfiber : s'.fiber c = s.fiberChild c)
    (hfreed : s'.freed = s.freed ++ (s.fiber c).toList)
    (hsp : s'.sp f = (s.origRsp c).getD 0) (hfiberChild : s'.fiberChild c = none)
    (horigRsp : s'.origRsp c = none) :
    ∃ x sp rest, s.steals f = (some x, sp) :: rest ∧ LeftHolder s' c f x sp (s.given c) := by
  have hstolen := hx.stolen_of_frame hf hc hframe hunsynched
  obtain ⟨x, hx₀⟩ := Option.ne_none_iff_exists'.mp (hx.home c hc)
  obtain ⟨sp, hsp₀⟩ := Option.ne_none_iff_exists'.mp hstolen
  have hback : s.fiberChild c = s.home c := by simpa [hnone] using hx.leftmost c hc hstolen
  have hfirst := hx.first c hc
  rw [Runtime.firstSteal, hframe, hsp₀, hx₀] at hfirst
  obtain ⟨rest, hrest⟩ := List.head?_eq_some_iff.mp hfirst
  refine ⟨x, sp, rest, hrest, ?_⟩
  constructor
  case fiber => rw [hfiber, hback, hx₀]
  case sp => rw [hsp, hsp₀, Option.getD_some]
  case kept => exact hx'.home_kept hi'.links hi'.tree c x hc' (by rw [hhome, hx₀])
  case returned =>
    intro y hy hne
    apply List.count_eq_one_of_mem hx'.once
    rw [hfreed, List.mem_append, Option.mem_toList]
    rcases hx.given c y hc hy with h | h | h | ⟨k, hk, -⟩
    · rw [hx₀] at h
      exact absurd (Option.some.inj h).symm hne
    · exact .inl h
    · exact .inr h
    · rw [hnone] at hk
      cases hk
  case fiberChild => exact hfiberChild
  case origRsp => exact horigRsp

variable [DecidableEq κ] [Monoid V]

theorem FiberInv.step (hi : SchedInv s) (hx : FiberInv s) (hs : SchedStep s s') :
    FiberInv s' := by
  obtain ⟨hl, hh, hf, ht, -⟩ := hi
  have hheld : ∀ w t st, (s.phase w).closure = some t → ∀ c, s.live c → s.fiber c = none →
      s.status c = .suspended → update s.status t st c = .suspended := by
    intro w t st hw c _ _ hc
    rw [Function.update_of_ne]
    · exact hc
    · rintro rfl
      exact hh.not_suspended hw hc
  have hpush : ∀ c, s.live c → ∀ f, s.frame c = some f → f < s.numFrames → f ∈ s.stack c →
      update s.steals s.numFrames [] f = s.steals f :=
    fun c _ f _ hlt _ => Function.update_of_ne hlt.ne _ _
  cases hs with
  | @enterFrame w t f below callee rest hw hstack hcode =>
    exact hx.keep rfl rfl rfl rfl rfl rfl rfl rfl rfl rfl rfl rfl
      (fun c hc => hf.firstSteal_congr hc rfl (hpush c hc)) fun _ _ _ h => h
  | @detach w t f below child rest rsp hw hstack hcode =>
    exact hx.keep rfl rfl rfl rfl rfl rfl rfl rfl rfl rfl rfl rfl
      (fun c hc => hf.firstSteal_congr hc rfl (hpush c hc)) fun _ _ _ h => h
  | @exceptionHandler w t f below hw hstack hcode hsynched hdetached hdeque =>
    have hheldt : (s.phase w).closure = some t := by rw [hw]; rfl
    have hlive := hh.live w t hheldt
    have hspawners := hf.deque w t hheldt
    rw [hdeque, hstack] at hspawners
    obtain rfl : below = [] := eq_nil_of_spawners_nil hspawners.symm hdetached
    have hcalm : s.firstSteal t = none := by
      rw [Runtime.firstSteal]
      cases hown : s.frame t with
      | none => rfl
      | some g =>
        obtain ⟨above, habove⟩ := hf.bottom t g hlive hown
        have hmem : g ∈ s.stack t := by rw [habove]; simp
        obtain rfl : g = f := by simpa [hstack] using hmem
        simp [hf.unstolen hsynched]
    refine hx.keep rfl rfl rfl rfl rfl rfl rfl rfl rfl rfl rfl rfl ?_ (hheld w t _ hheldt)
    intro c hc
    by_cases hct : c = t
    · subst hct
      rw [hcalm]
      simp [Runtime.firstSteal, Runtime.pushFrame]
    · exact hf.firstSteal_congr hc (Function.update_of_ne hct _ _) (hpush c hc)
  | @suspendAtSync w t f below rsp hw hstack hcode hunsynched hchildren =>
    have hlive := hh.live w t (by rw [hw]; rfl)
    have hown := hf.own t f hlive (by rw [hstack]; simp) (.inr (.inl hunsynched))
    refine hx.suspend hlive (hx.stolen_of_frame hf hlive hown hunsynched)
      (hh.callee w t (by rw [hw]; rfl)) rfl rfl rfl rfl rfl rfl rfl rfl rfl rfl rfl rfl
      (fun _ _ => rfl) ?_
    intro c hc
    by_cases hct : c = t
    · rw [hct]
      exact Function.update_self _ _ _
    · exact (Function.update_of_ne hct _ _).trans (hc.resolve_left hct)
  | @passSync w t f below rsp hw hstack hcode hunsynched hchildren =>
    have hlive := hh.live w t (by rw [hw]; rfl)
    have hown := hf.own t f hlive (by rw [hstack]; simp) (.inr (.inl hunsynched))
    obtain ⟨hnone, hcallee⟩ := (hl.join_zero hlive).mp hchildren
    have hsync := hx.setupForSync hf hlive hown hunsynched hnone hcallee
    exact { hsync with }
  | @doReductionsForReturn w t f hw hframe hreduction =>
    exact hx.keep rfl rfl rfl rfl rfl rfl rfl rfl rfl rfl rfl rfl (fun _ _ => rfl)
      (hheld w t _ (by rw [hw]; rfl))
  | @stealStolen w victim cl f parents above below hw hvictim hdeque hstack hframe =>
    exact hx.stealOwn hl hh hf hvictim hstack hframe w
  | @stealHelper w victim cl f parents above below hw hvictim hdeque hstack hframe hdetached =>
    have hpromoted := hx.promoteHelper hh hf hvictim hdeque hstack hframe hdetached
    have hframes := hf.promoteHelper hh hvictim hdeque hstack hdetached
    exact hpromoted.stealOwn { hl with } { hh with } hframes hvictim hstack
      (Function.update_self _ _ _) w
  | @stealCalled w victim cl f parents above below hw hvictim hdeque hstack hframe hdetached =>
    exact hx.stealCalled hl hh hf hvictim hstack hframe w
  | @takeTables w t parent hw hparent htables =>
    exact hx.keep rfl rfl rfl rfl rfl rfl rfl rfl rfl rfl rfl rfl (fun _ _ => rfl)
      (hheld w t _ (by rw [hw]; rfl))
  | @returnChild w t parent hw hparent hleft hright hsteal =>
    exact hx.returnChild hl hh hf hw hparent
  | @resumeParent w t parent hw hparent hleft hright hsteal =>
    obtain ⟨hlive, hp, hmem, hne⟩ := hl.parent hh hf hw hparent
    obtain ⟨hlast, hnone⟩ := hl.last_child hp hmem hsteal.1
    obtain ⟨f, hown, hstack⟩ := hf.parked parent hp hsteal.2 hnone
    obtain ⟨f', hown', hunsynched⟩ := hf.synched parent hp (.inl (List.ne_nil_of_mem hmem))
    have hret := hx.returnChild hl hh hf hw hparent
    have hsame := returnChild_same (s := s) w parent t
    have hflags := SameFlags.returnChild (s := s) w parent t
    have hchildren : (s.returnChild w parent t).children parent = [] := by
      have herase : (s.children parent).erase t = [] := by rw [hlast, List.erase_cons_head]
      exact (Function.update_self _ _ _).trans herase
    have hsync := hret.setupForSync (hf.returnChild hl hh hw hparent) (p := parent) (f := f')
      ((Function.update_of_ne hne _ _).trans hp) (by rw [hsame.2.2.2.2.1, hown'])
      (by rw [hflags.unsynched, hunsynched])
      hchildren (by rw [hsame.2.2.2.1, hnone])
    refine hsync.keep rfl rfl rfl rfl rfl rfl rfl rfl rfl rfl rfl rfl (fun _ _ => rfl) ?_
    intro c hc hfiber hsuspended
    by_cases hcp : c = parent
    · subst hcp
      have hback := (hsync.calm c hc (Function.update_self _ _ _)).1
      exact absurd (hback.symm.trans hfiber) (hsync.home c hc)
    · exact (Function.update_of_ne hcp _ _).trans hsuspended
  | @setReturn w t f below parent hw hstack hcode hsynched hdetached hlast hstolen hparent =>
    have hlive := hh.live w t (by rw [hw]; rfl)
    have hp := hl.caller t parent hlive hparent
    have hd := (hl.called parent t hp).mpr ⟨hlive, hparent⟩
    refine hx.uncall hl hp hd rfl rfl rfl rfl rfl rfl rfl rfl rfl rfl rfl rfl ?_ ?_
    · intro c hct
      simp [Runtime.firstSteal, Runtime.setReturn, Runtime.destroyClosure, hct]
    · intro c hct hcp h
      exact (Function.update_of_ne hcp _ _).trans ((Function.update_of_ne hct _ _).trans h)
  | _ =>
    exact hx.keep rfl rfl rfl rfl rfl rfl rfl rfl rfl rfl rfl rfl (fun _ _ => rfl) fun _ _ _ h => h

theorem fiberInv_reachable {code : Code κ V} {table : Option (ViewMap κ V)}
    (hrun : Reaches SchedStep (initialRuntime code table) s) : SchedInv s ∧ FiberInv s :=
  hrun.preserves (fun _ _ (hi : SchedInv _ ∧ FiberInv _) hs => ⟨hi.1.step hs, hi.2.step hi.1 hs⟩)
    ⟨schedInv_initial code table, fiberInv_initial code table⟩

/-- The left-holder rule in every run: the sync of a stolen closure resumes it on the fiber and
with the stack pointer of its first steal since the sync before, and each other fiber given to it
or to a child in between is in the pool, where no fiber ever is twice. -/
theorem sync_resumesFirstSteal {code : Code κ V} {table : Option (ViewMap κ V)}
    {c : ClosureId} {f : FrameId} (hrun : Reaches SchedStep (initialRuntime code table) s)
    (hs : SchedStep s s') (hc : s.live c) (hframe : s.frame c = some f)
    (hunsynched : s.unsynched f = true) (hsynched : s'.unsynched f = false) :
    (∃ x sp rest, s.steals f = (some x, sp) :: rest ∧ LeftHolder s' c f x sp (s.given c)) ∧
      ∀ s'', Reaches SchedStep s' s'' → s''.freed.Nodup := by
  obtain ⟨hi, hx⟩ := fiberInv_reachable hrun
  obtain ⟨hi', hx'⟩ := fiberInv_reachable (hrun.tail hs)
  refine ⟨?_, fun s'' hrun' => (fiberInv_reachable ((hrun.tail hs).trans hrun')).2.once⟩
  rcases hi.sync_cases hs hc hframe hunsynched hsynched with
    ⟨w, rsp, hnone, -, rfl⟩ | ⟨w, t, hw, hparent, hjoin, -, rfl⟩
  · refine hx.leftHolder hi.frames hi' hx' hc hc hframe hunsynched hnone rfl
      (Function.update_self _ _ _) rfl ?_ (Function.update_self _ _ _) (Function.update_self _ _ _)
    simp [Runtime.passSync, Runtime.setupForSync, Runtime.deallocateFiber, hframe]
  · obtain ⟨hlive, hp, hmem, hne⟩ := hi.links.parent hi.hold hi.frames hw hparent
    have hlast := (hi.links.last_child hp hmem hjoin).1
    have hret := hx.returnChild hi.links hi.hold hi.frames hw hparent
    have hframes := hi.frames.returnChild hi.links hi.hold hw hparent
    have hsame := returnChild_same (s := s) w c t
    have hflags := SameFlags.returnChild (s := s) w c t
    have hchildren : (s.returnChild w c t).children c = [] := by
      have herase : (s.children c).erase t = [] := by rw [hlast, List.erase_cons_head]
      exact (Function.update_self _ _ _).trans herase
    have hlive' : (s.returnChild w c t).live c := (Function.update_of_ne hne _ _).trans hp
    have hholder := hret.leftHolder hframes hi' hx' (f := f) hlive' hlive'
      (by rw [hsame.2.2.2.2.1, hframe]) (by rw [hflags.unsynched, hunsynched]) hchildren rfl
      (Function.update_self _ _ _) rfl
      (by simp [Runtime.resumeParent, Runtime.setupForExecution, Runtime.setupForSync,
        Runtime.deallocateFiber, hsame.2.2.2.2.1, hframe])
      (Function.update_self _ _ _) (Function.update_self _ _ _)
    rwa [hflags.steals, (Leaves.returnChild w c t).given] at hholder

/-- The root closure is resumed by the worker of its child, on the fiber that the child had. -/
theorem sync_resumesFirstSteal_root : ∃ s s' : Runtime Unit (FreeMonoid Bool),
    Reaches SchedStep (initialRuntime sampleCode none) s ∧ SchedStep s s' ∧
      s.given 0 = [0, 1] ∧ ∃ x sp rest, s.steals 0 = (some x, sp) :: rest ∧
        LeftHolder s' 0 0 x sp (s.given 0) := by
  have hstolen := (Relation.ReflTransGen.refl (r := SchedStep)
    (a := initialRuntime sampleCode none)).tail
    (.resumeStolen (w := 0) (t := 0) (f := 0) 5 rfl rfl rfl)
    |>.tail (.detach (w := 0) (t := 0) (f := 0) 7 rfl rfl rfl)
    |>.tail (@SchedStep.stealStolen _ _ _ _ _ 1 0 0 0 _ [1] [] rfl rfl rfl rfl rfl)
    |>.tail (.resumeStolen (w := 1) (t := 0) (f := 0) 9 rfl rfl rfl)
  have hsuspended := hstolen.tail (.update (w := 1) (t := 0) (f := 0) rfl rfl rfl)
    |>.tail (.suspendAtSync (w := 1) (t := 0) (f := 0) 9 rfl rfl rfl rfl (by decide))
  have hreturned := hsuspended.tail (.update (w := 0) (t := 1) (f := 1) rfl rfl rfl)
    |>.tail (.exceptionHandler (w := 0) (t := 1) (f := 1) rfl rfl rfl rfl rfl rfl)
  refine ⟨_, _, hreturned,
    @SchedStep.resumeParent _ _ _ _ _ 0 1 0 rfl rfl rfl rfl ⟨rfl, rfl⟩, rfl, ?_⟩
  exact (sync_resumesFirstSteal hreturned
    (@SchedStep.resumeParent _ _ _ _ _ 0 1 0 rfl rfl rfl rfl ⟨rfl, rfl⟩) rfl rfl rfl rfl).1

end Cheetah
