import Cheetah.ExtensionSlots

/-! The pedigrees of every run are those of the serial execution, as long as no worker pushes a
pedigree frame at or below the one that it has. -/
namespace Cheetah
open Function (update)

variable {κ V : Type} {s s' : Runtime κ V} {x x' : Extensions}

section Frames

theorem detach_worker (x : Extensions) (table : ℕ → BitVec 64) (w : WorkerId) (f child : FrameId)
    (events : ℕ) :
    (x.detach table w f child events).workerExtension w = some (x.pushed w) ∧
      (x.detach table w f child events).extStack w = ((x.extStack w).1, (x.extStack w).2 + 1) :=
  ⟨Function.update_self w _ _, Function.update_self w _ _⟩

theorem leaveFrameHelper_worker (x : Extensions) (w : WorkerId) (f : FrameId) :
    (x.leaveFrameHelper w f).workerExtension w = (x.callParent f).bind x.extension ∧
      (x.leaveFrameHelper w f).extStack w = ((x.extStack w).1, (x.extStack w).2 - 1) :=
  ⟨Function.update_self w _ _, Function.update_self w _ _⟩

/-- The frames of the stolen closure are on the stacks of the closures that it is split into. -/
theorem Splits.keeps_frame {w victim : WorkerId} {cl k res : ClosureId} {f : FrameId}
    {parents above below : List FrameId}
    (hs : Splits s s' w victim cl k res f parents above below)
    (hstack : s.stack cl = above ++ f :: below) (hk : ¬ s.live k)
    (hres : res = cl ∧ below = [] ∨ ¬ s.live res)
    (hlive : ∀ c, s.live c ∨ c = k ∨ c = res → s'.live c) {g : FrameId} (hg : s.HasFrame g) :
    s'.HasFrame g := by
  obtain ⟨hred, c, hc, hmem⟩ := hg
  refine ⟨hs.reduction ▸ hred, ?_⟩
  have hck : c ≠ k := by
    rintro rfl
    exact hk hc
  by_cases hcc : c = cl
  · subst hcc
    rw [hstack] at hmem
    rcases List.mem_append.mp hmem with hin | hin
    · exact ⟨k, hlive k (.inr (.inl rfl)), hs.stackChild.symm ▸ hin⟩
    · rcases List.mem_cons.mp hin with rfl | hin
      · exact ⟨res, hlive res (.inr (.inr rfl)), by rw [hs.stackRes]; exact List.mem_cons_self⟩
      · rcases hres with ⟨-, rfl⟩ | hr
        · cases hin
        · have hcr : c ≠ res := by
            rintro rfl
            exact hr hc
          exact ⟨c, hlive c (.inl hc), hs.stackKept hcr ▸ hin⟩
  · have hcr : c ≠ res := by
      rintro rfl
      exact hres.elim (fun hr => hcc hr.1) fun hr => hr hc
    exact ⟨c, hlive c (.inl hc), hs.stack c hck hcr hcc ▸ hmem⟩

/-- A frame is entered on top of a live closure's stack. -/
theorem has_frame_push {t : ClosureId} (hlivet : s.live t) (hlive : s'.live = s.live)
    (hstack : s'.stack = update s.stack t (s.numFrames :: s.stack t))
    (hreduction : s'.reduction = update s.reduction s.numFrames false) (hi : SchedInv s)
    (g : FrameId) : s'.HasFrame g ↔ g = s.numFrames ∨ s.HasFrame g := by
  constructor
  · rintro ⟨hred, c, hc, hmem⟩
    by_cases hgn : g = s.numFrames
    · exact .inl hgn
    · rw [hreduction, Function.update_of_ne hgn] at hred
      rw [hlive] at hc
      rw [hstack] at hmem
      by_cases hct : c = t
      · subst hct
        rw [Function.update_self] at hmem
        exact .inr ⟨hred, c, hc, (List.mem_cons.mp hmem).resolve_left hgn⟩
      · rw [Function.update_of_ne hct] at hmem
        exact .inr ⟨hred, c, hc, hmem⟩
  · rintro (rfl | ⟨hred, c, hc, hmem⟩)
    · refine ⟨by rw [hreduction, Function.update_self], t, hlive ▸ hlivet, ?_⟩
      rw [hstack, Function.update_self]
      exact List.mem_cons_self
    · refine ⟨?_, c, hlive ▸ hc, ?_⟩
      · rwa [hreduction, Function.update_of_ne (hi.new_frame hc hmem)]
      · rw [hstack]
        by_cases hct : c = t
        · subst hct
          rw [Function.update_self]
          exact List.mem_cons_of_mem _ hmem
        · rwa [Function.update_of_ne hct]

/-- The youngest frame of a closure is left, or its only frame makes way for one of reductions. -/
theorem has_frame_leave (hi : SchedInv s) {t : ClosureId} {f : FrameId} {below : List FrameId}
    (hlivet : s.live t) (hstackt : s.stack t = f :: below)
    (hlive : ∀ c, c ≠ t → s'.live c = s.live c)
    (hstack : ∀ c, c ≠ t → s'.stack c = s.stack c)
    (hred : ∀ g, s.HasFrame g → s'.reduction g = s.reduction g)
    (hback : ∀ g, s'.HasFrame g → s.HasFrame g)
    (ht : ∀ g, s'.reduction g = false → (s'.live t ∧ g ∈ s'.stack t ↔ g ∈ below))
    (g : FrameId) : s'.HasFrame g ↔ s.HasFrame g ∧ g ≠ f := by
  have hmemf : f ∈ s.stack t := by rw [hstackt]; exact List.mem_cons_self
  constructor
  · intro hg
    refine ⟨hback g hg, ?_⟩
    rintro rfl
    obtain ⟨hredg, c, hc, hmem⟩ := hg
    by_cases hct : c = t
    · subst hct
      have hnodup := hi.frames.nodup c hlivet
      rw [hstackt] at hnodup
      exact (List.nodup_cons.mp hnodup).1 ((ht g hredg).mp ⟨hc, hmem⟩)
    · rw [hlive c hct] at hc
      rw [hstack c hct] at hmem
      exact hct (hi.frames.disjoint c t g hc hlivet hmem hmemf)
  · rintro ⟨hg, hgf⟩
    have hsame := hred g hg
    obtain ⟨hredg, c, hc, hmem⟩ := hg
    rw [← hsame] at hredg
    refine ⟨hredg, ?_⟩
    by_cases hct : c = t
    · subst hct
      rw [hstackt] at hmem
      exact ⟨c, (ht g hredg).mpr ((List.mem_cons.mp hmem).resolve_left hgf)⟩
    · exact ⟨c, (hlive c hct).symm ▸ hc, (hstack c hct).symm ▸ hmem⟩

theorem live_stealOwn {w victim : WorkerId} {cl : ClosureId} {f : FrameId}
    {above below : List FrameId} (hcl : s.live cl) (c : ClosureId)
    (hc : s.live c ∨ c = s.numClosures ∨ c = cl) :
    (s.stealOwn w victim cl f above below).live c := by
  change update s.live s.numClosures true c = true
  by_cases hcn : c = s.numClosures
  · rw [hcn, Function.update_self]
  · rw [Function.update_of_ne hcn]
    rcases hc with hc | hc | rfl
    · exact hc
    · exact absurd hc hcn
    · exact hcl

theorem live_stealCalled {w victim : WorkerId} {cl : ClosureId} {f : FrameId}
    {above below : List FrameId} (c : ClosureId)
    (hc : s.live c ∨ c = s.numClosures + 1 ∨ c = s.numClosures) :
    (s.stealCalled w victim cl f above below).live c := by
  change update (update s.live s.numClosures true) (s.numClosures + 1) true c = true
  by_cases hck : c = s.numClosures + 1
  · rw [hck, Function.update_self]
  · rw [Function.update_of_ne hck]
    by_cases hcn : c = s.numClosures
    · rw [hcn, Function.update_self]
    · rw [Function.update_of_ne hcn]
      exact hc.resolve_right fun hc => hc.elim hck hcn

/-- The only frame of a closure that is returned is that of its reductions. -/
theorem has_frame_returned (hi : SchedInv s) {w : WorkerId} {t parent : ClosureId}
    (hw : s.phase w = .returning t) (g : FrameId) :
    (s.returnChild w parent t).HasFrame g ↔ s.HasFrame g := by
  refine ⟨has_frame_returnChild, ?_⟩
  rintro ⟨hred, c, hc, hmem⟩
  have hct : c ≠ t := by
    rintro rfl
    obtain ⟨r, hown, hsingle⟩ := hi.frames.single w c (.inr (.inr hw))
    rw [hsingle] at hmem
    obtain rfl := List.mem_singleton.mp hmem
    rw [hi.frames.returning w c g hw hown] at hred
    cases hred
  refine ⟨hred, c, ?_, ?_⟩
  · exact (Function.update_of_ne hct _ _).trans hc
  · have hstack : (s.returnChild w parent t).stack c = s.stack c := Function.update_of_ne hct _ _
    rwa [hstack]

/-- The parent of a returned child goes on with the frames that it has. -/
theorem resumeParent_same (s : Runtime κ V) (w : WorkerId) (parent : ClosureId) :
    (∀ g, (s.resumeParent w parent).HasFrame g ↔ s.HasFrame g) ∧
      (s.resumeParent w parent).detached = s.detached ∧
      (s.resumeParent w parent).code = s.code := by
  cases s
  exact ⟨fun _ => Iff.rfl, rfl, rfl⟩

theorem setReturn_same (w : WorkerId) (t parent : ClosureId) :
    (s.setReturn w t parent).live = update s.live t false ∧
      (s.setReturn w t parent).stack = update s.stack t [] ∧
      (s.setReturn w t parent).reduction = s.reduction ∧
      (s.setReturn w t parent).detached = s.detached ∧
      (s.setReturn w t parent).code = s.code ∧
      (s.setReturn w t parent).numFrames = s.numFrames := by
  cases s
  exact ⟨rfl, rfl, rfl, rfl, rfl, rfl⟩

end Frames

section Steps

/-- A worker in user code has the pedigree frame of the stack frame that it runs. -/
theorem PointerInv.current_running (hp : PointerInv s x x.addr) (hi : SchedInv s) {w : WorkerId}
    {t : ClosureId} {f : FrameId} {below : List FrameId} (hw : s.phase w = .running t)
    (hstack : s.stack t = f :: below) : s.HasFrame f ∧ x.current w = x.addr f := by
  have hmem : f ∈ s.stack t := by rw [hstack]; exact List.mem_cons_self
  have hred := hi.frames.user hi.hold hw hmem
  refine ⟨⟨hred, t, hi.hold.live w t (by rw [hw]; rfl), hmem⟩, ?_⟩
  rw [Extensions.current, hp.worker w t f below (.inl hw) hstack hred]
  rfl

theorem PointerInv.current_reducing (hp : PointerInv s x x.addr) (hi : SchedInv s) {w : WorkerId}
    {t : ClosureId} {f : FrameId} (hw : s.phase w = .reducing t) (hframe : s.frame t = some f)
    (hreduction : s.reduction f = false) : s.HasFrame f ∧ x.current w = x.addr f := by
  obtain ⟨g, hown, hsingle⟩ := hi.frames.single w t (.inr (.inl hw))
  obtain rfl : g = f := Option.some.inj (hown.symm.trans hframe)
  have hmem : g ∈ s.stack t := by rw [hsingle]; exact List.mem_cons_self
  refine ⟨⟨hreduction, t, hi.hold.live w t (by rw [hw]; rfl), hmem⟩, ?_⟩
  rw [Extensions.current, hp.worker w t g [] (.inr (.inl hw)) hsingle hreduction]
  rfl

/-- A place on an extension fiber that is pushed with room above the worker's frame is free. -/
theorem SlotInv.pushed_free (h : SlotInv s x x.addr) (hi : SchedInv s) (hx : FiberInv s)
    (hp : PointerInv s x x.addr) {w : WorkerId} {t : ClosureId} {f : FrameId} {below : List FrameId}
    (hw : s.phase w = .running t) (hstack : s.stack t = f :: below) (habove : x.AboveExtension w)
    {g : FrameId} (hg : s.HasFrame g) : x.addr g ≠ x.pushed w := by
  have hheld : (s.phase w).closure = some t := by rw [hw]; rfl
  have hred := hi.frames.user hi.hold hw (f := f) (by rw [hstack]; exact List.mem_cons_self)
  obtain ⟨F, hF⟩ := hi.fiber_some hx hheld
  have hpos := h.extStack_eq hp hw hstack hred hF habove
  rw [Extensions.pushed, hpos]
  intro hslot
  exact (h.top w t f below F hheld hstack hred hF g _ hg hslot).ne rfl

variable [DecidableEq κ] [Monoid V] {table : ℕ → BitVec 64} {bumps : κ → Bool}
  {root : PedigreeFrame} {events : List PedigreeEvent}

theorem cactus_step (hok : (s.cactus x x.addr).Ok table bumps root events)
    (h : SlotInv s x x.addr) (hi : SchedInv s) (hl : CallLinks s x) (hp : PointerInv s x x.addr)
    (hx : FiberInv s) (hs : SchedStep s s')
    (hext : ExtensionStep table bumps Extensions.AboveExtension hs x x')
    (hrun : ∀ w c, s'.phase w ≠ .exited c) : (s'.cactus x' x'.addr).Ok table bumps root events := by
  have hcurrent : ∀ w t f below, s.phase w = .running t → s.stack t = f :: below →
      s.HasFrame f ∧ x.current w = x.addr f :=
    fun w t f below hw hstack => hp.current_running hi hw hstack
  have hnew : ∀ g, (s.cactus x x.addr).live g → g < s.numFrames := fun g hg => hi.has_lt hg
  have hold : ∀ {s'}, SchedStep s s' → s'.numFrames = s.numFrames →
      ∀ g, s'.HasFrame g → s.HasFrame g := by
    intro s' hs hbound g hg
    exact (hi.has_frame hs hg).resolve_right (hbound ▸ ((hi.step hs).has_lt hg).ne)
  have hkeep : (∀ g, s'.HasFrame g ↔ s.HasFrame g) → s'.detached = s.detached → s'.code = s.code →
      x'.callParent = x.callParent → x'.position = x.position → x'.addr = x.addr →
      x'.mem = x.mem → (s'.cactus x' x'.addr).Ok table bumps root events := by
    intro hhas hdetached hcode hcallParent hposition haddr hmem
    apply hok.keep hhas
    · exact fun g _ => congrFun hdetached g
    · exact fun g _ => congrArg (Code.events bumps) (congrFun hcode g)
    · exact fun g _ => congrFun hcallParent g
    · exact fun g _ => congrFun hposition g
    · exact fun g _ => congrFun haddr g
    · exact hmem
  cases hext with
  | @update w t f below reducer u rest x hw hstack hcode =>
    obtain ⟨-, hcw⟩ := hcurrent w t f below hw hstack
    by_cases hb : bumps reducer = true
    · rw [if_pos hb]
      have hevents : (s.code f).events bumps = .bump :: rest.events bumps := by
        rw [hcode, Code.events, if_pos hb]
      exact (hok.bump (hl.current hi hw hstack) hevents (by simp)).keep (fun _ => Iff.rfl)
        (fun _ _ => rfl) (fun _ _ => rfl) (fun _ _ => rfl) (fun _ _ => rfl) (fun _ _ => rfl)
        (congrArg (extendSync table x.mem) hcw)
    · rw [if_neg hb]
      refine hok.keep (fun _ => Iff.rfl) (fun _ _ => rfl) ?_ (fun _ _ => rfl) (fun _ _ => rfl)
        (fun _ _ => rfl) rfl
      intro g _
      change (update s.code f rest g).events bumps = (s.code g).events bumps
      by_cases hgf : g = f
      · subst hgf
        rw [Function.update_self, hcode, Code.events, if_neg hb]
      · rw [Function.update_of_ne hgf]
  | @enterFrame w t f below callee rest x hw hstack hcode =>
    have hlivet := hi.hold.live w t (by rw [hw]; rfl)
    exact (hok.call (hl.current hi hw hstack) hnew hcode).keep
      (has_frame_push hlivet rfl rfl rfl hi) (fun _ _ => rfl) (fun _ _ => rfl) (fun _ _ => rfl)
      (fun _ _ => rfl) (fun _ _ => rfl) rfl
  | @detach w t f below child rest rsp x hw hstack hcode hallowed =>
    obtain ⟨-, hcw⟩ := hcurrent w t f below hw hstack
    have hlivet := hi.hold.live w t (by rw [hw]; rfl)
    have hfree : ∀ g, (s.cactus x x.addr).live g → x.addr g ≠ x.pushed w :=
      fun g hg => h.pushed_free hi hx hp hw hstack hallowed hg
    exact (hok.spawn (hl.current hi hw hstack) hnew hcode hfree (by simp [Extensions.pushed])).keep
      (has_frame_push hlivet rfl rfl rfl hi) (fun _ _ => rfl) (fun _ _ => rfl) (fun _ _ => rfl)
      (fun _ _ => rfl) (fun _ _ => rfl)
      (congrArg (fun a => extendSpawn table x.mem a (x.pushed w)) hcw)
  | @leaveFrame w t f below x hw hstack hcode hsynched hdetached hlast hstolen =>
    obtain ⟨-, hcw⟩ := hcurrent w t f below hw hstack
    have hlivet := hi.hold.live w t (by rw [hw]; rfl)
    have hself : update s.stack t below t = below := Function.update_self _ _ _
    exact (hok.leave (hl.current hi hw hstack) (fun g hg => hl.top hi hw hstack hsynched hg)
      hcode).keep
      (has_frame_leave hi hlivet hstack (fun _ _ => rfl)
        (fun c hct => Function.update_of_ne hct _ _) (fun _ _ => rfl)
        (hold (.leaveFrame hw hstack hcode hsynched hdetached hlast hstolen) rfl)
        fun g _ => (and_iff_right hlivet).trans (iff_of_eq (congrArg (g ∈ ·) hself)))
      (fun _ _ => rfl) (fun _ _ => rfl) (fun _ _ => rfl)
      (fun g hg => Function.update_of_ne hg.2 _ _) (fun _ _ => rfl)
      (congrArg (extendSync table x.mem) hcw)
  | @leaveFrameHelper w t f below parents parent x hw hstack hcode hsynched hdetached hdeque =>
    obtain ⟨-, hcw⟩ := hcurrent w t f below hw hstack
    have hlivet := hi.hold.live w t (by rw [hw]; rfl)
    have hself : update s.stack t below t = below := Function.update_self _ _ _
    exact (hok.leave (hl.current hi hw hstack) (fun g hg => hl.top hi hw hstack hsynched hg)
      hcode).keep
      (has_frame_leave hi hlivet hstack (fun _ _ => rfl)
        (fun c hct => Function.update_of_ne hct _ _) (fun _ _ => rfl)
        (hold (.leaveFrameHelper hw hstack hcode hsynched hdetached hdeque) rfl)
        fun g _ => (and_iff_right hlivet).trans (iff_of_eq (congrArg (g ∈ ·) hself)))
      (fun g hg => Function.update_of_ne hg.2 _ _) (fun _ _ => rfl) (fun _ _ => rfl)
      (fun g hg => Function.update_of_ne hg.2 _ _) (fun _ _ => rfl)
      (congrArg (extendSync table x.mem) hcw)
  | @exceptionHandler w t f below x hw hstack hcode hsynched hdetached hdeque =>
    obtain ⟨-, hcw⟩ := hcurrent w t f below hw hstack
    have hheld : (s.phase w).closure = some t := by rw [hw]; rfl
    have hlivet := hi.hold.live w t hheld
    have hspawners := hi.frames.deque w t hheld
    rw [hdeque, hstack] at hspawners
    obtain rfl : below = [] := eq_nil_of_spawners_nil hspawners.symm hdetached
    have hself : update (update s.stack t []) t (s.numFrames :: update s.stack t [] t) t =
        [s.numFrames] := by
      rw [Function.update_self, Function.update_self]
    have hreduction : ∀ g, update s.reduction s.numFrames true g = false → g ≠ s.numFrames := by
      rintro g hred rfl
      rw [Function.update_self] at hred
      cases hred
    have hstep := SchedStep.exceptionHandler hw hstack hcode hsynched hdetached hdeque
    refine (hok.leave (hl.current hi hw hstack) (fun g hg => hl.top hi hw hstack hsynched hg)
      hcode).keep (has_frame_leave hi hlivet hstack (fun _ _ => rfl) ?_ ?_ ?_ ?_) ?_ ?_
      (fun _ _ => rfl) (fun g hg => Function.update_of_ne hg.2 _ _) (fun _ _ => rfl)
      (congrArg (extendSync table x.mem) hcw)
    · exact fun c hct => (Function.update_of_ne hct _ _).trans (Function.update_of_ne hct _ _)
    · exact fun g hg => Function.update_of_ne (hi.has_lt hg).ne _ _
    · exact fun g hg => (hi.has_frame hstep hg).resolve_right (hreduction g hg.1)
    · intro g hred
      refine (and_iff_right hlivet).trans ((iff_of_eq (congrArg (g ∈ ·) hself)).trans ?_)
      rw [List.mem_singleton]
      exact iff_of_false (hreduction g hred) List.not_mem_nil
    · exact fun g hg => (Function.update_of_ne (hi.has_lt hg.1).ne _ _).trans
        (Function.update_of_ne hg.2 _ _)
    · exact fun g hg => congrArg (Code.events bumps) (Function.update_of_ne (hi.has_lt hg.1).ne _ _)
  | @syncFast w t f below rest x hw hstack hcode hsynched =>
    obtain ⟨-, hcw⟩ := hcurrent w t f below hw hstack
    have hevents : (s.code f).events bumps = .sync :: rest.events bumps := by
      rw [hcode, Code.events]
    exact (hok.bump (hl.current hi hw hstack) hevents (by simp)).keep (fun _ => Iff.rfl)
      (fun _ _ => rfl) (fun _ _ => rfl) (fun _ _ => rfl) (fun _ _ => rfl) (fun _ _ => rfl)
      (congrArg (extendSync table x.mem) hcw)
  | @doReductions w t f x hw hframe hreduction =>
    obtain ⟨g, hown, hsingle⟩ := hi.frames.single w t (.inr (.inl hw))
    obtain rfl : g = f := Option.some.inj (hown.symm.trans hframe)
    obtain ⟨-, hcw⟩ := hp.current_reducing hi hw hframe hreduction
    have hstep := SchedStep.doReductions hw hframe hreduction
    have hcurrentf : (s.cactus x x.addr).Current g := by
      have hlinks : CallLinks { s.doReductions w with
          code := update s.code g (s.code g).afterSync
          phase := update s.phase w (.running t) } x :=
        ⟨hl.chain, hl.spawned, hl.called, hl.root⟩
      have hnext : (Runtime.cactus _ x x.addr).Current g :=
        hlinks.current (hi.step hstep) (Function.update_self _ _ _) hsingle
      exact hnext
    split
    · rename_i rest hcode
      have hevents : (s.code g).events bumps = .sync :: rest.events bumps := by
        rw [hcode, Code.events]
      have hafter : (s.code g).afterSync = rest := by rw [hcode, Code.afterSync]
      refine (hok.bump hcurrentf hevents (by simp)).keep (fun _ => Iff.rfl) (fun _ _ => rfl) ?_
        (fun _ _ => rfl) (fun _ _ => rfl) (fun _ _ => rfl) (congrArg (extendSync table x.mem) hcw)
      exact fun k _ => congrArg (fun rest => (update s.code g rest k).events bumps) hafter
    · rename_i hcode
      have hafter : (s.code g).afterSync = s.code g := by
        cases hcodeg : s.code g with
        | sync rest => exact absurd hcodeg (hcode rest)
        | _ => rfl
      refine hok.keep (fun _ => Iff.rfl) (fun _ _ => rfl) (fun k _ => ?_) (fun _ _ => rfl)
        (fun _ _ => rfl) (fun _ _ => rfl) rfl
      exact congrArg (Code.events bumps) (congrFun (Function.update_eq_self_iff.mpr hafter) k)
  | @stealStolen w victim cl f parents above below x hw hvictim hdeque hstack hframe =>
    have hstep := SchedStep.stealStolen hw hvictim hdeque hstack hframe
    have hlive := hi.hold.live victim cl (by rw [hvictim]; rfl)
    obtain ⟨rfl, hsplits⟩ :=
      hi.frames.splits_own hi.links hi.hold hw hvictim hdeque hstack hframe
    refine hkeep (fun g => ⟨hold hstep rfl g, fun hg => ?_⟩) rfl rfl rfl rfl rfl rfl
    exact hsplits.keeps_frame hstack hi.links.fresh (.inl ⟨rfl, rfl⟩) (live_stealOwn hlive) hg
  | @stealHelper w victim cl f parents above below x hw hvictim hdeque hstack hframe hdetached =>
    have hstep := SchedStep.stealHelper hw hvictim hdeque hstack hframe hdetached
    have hlive : (s.promoteHelper cl f).live cl := hi.hold.live victim cl (by rw [hvictim]; rfl)
    have hi' := hi.promoteHelper hvictim hdeque hstack hdetached
    obtain ⟨rfl, hsplits⟩ := hi'.frames.splits_own hi'.links hi'.hold hw hvictim hdeque hstack
      (Function.update_self _ _ _)
    refine hkeep (fun g => ⟨hold hstep rfl g, fun hg => ?_⟩) rfl rfl rfl rfl rfl rfl
    exact hsplits.keeps_frame hstack hi.links.fresh (.inl ⟨rfl, rfl⟩) (live_stealOwn hlive) hg
  | @stealCalled w victim cl f parents above below x hw hvictim hdeque hstack hframe hdetached =>
    have hstep := SchedStep.stealCalled hw hvictim hdeque hstack hframe hdetached
    have hk : ¬ s.live (s.numClosures + 1) := fun hlive =>
      Nat.not_lt_of_gt (Nat.lt_succ_self _) (hi.links.bound _ hlive)
    refine hkeep (fun g => ⟨hold hstep rfl g, fun hg => ?_⟩) rfl rfl rfl rfl rfl rfl
    exact (hi.splits_called hw hvictim hdeque above below).keeps_frame hstack hk
      (.inr hi.links.fresh) live_stealCalled hg
  | @returnChild w t parent x hw hparent hleft hright hsteal =>
    exact hkeep (has_frame_returned hi hw) rfl (returnChild_same (s := s) w parent t).1 rfl rfl
      rfl rfl
  | @resumeParent w t parent x hw hparent hleft hright hsteal =>
    obtain ⟨hhas, hdetached, hcode⟩ := resumeParent_same (s.returnChild w parent t) w parent
    have hflags := SameFlags.returnChild (s := s) w parent t
    exact hkeep (fun g => (hhas g).trans (has_frame_returned hi hw g))
      (hdetached.trans hflags.detached) (hcode.trans (returnChild_same (s := s) w parent t).1) rfl
      rfl rfl rfl
  | @setReturn w t f below parent x hw hstack hcode hsynched hdetached hlast hstolen hparent =>
    obtain ⟨-, hcw⟩ := hcurrent w t f below hw hstack
    have hlivet := hi.hold.live w t (by rw [hw]; rfl)
    have hmem : f ∈ s.stack t := by rw [hstack]; exact List.mem_cons_self
    obtain rfl := hi.only_frame hlivet hstack (hi.frames.own t f hlivet hmem (.inl hstolen))
    obtain ⟨hlive, hstack', hsame⟩ := setReturn_same (s := s) w t parent
    have hdead : ∀ g,
        ¬ ((s.setReturn w t parent).live t ∧ g ∈ (s.setReturn w t parent).stack t) := by
      intro g hg
      rw [hlive, Function.update_self] at hg
      cases hg.1
    have hhas := has_frame_leave hi hlivet hstack
      (fun c hct => by rw [hlive, Function.update_of_ne hct])
      (fun c hct => by rw [hstack', Function.update_of_ne hct])
      (fun g _ => congrFun hsame.1 g)
      (hold (.setReturn hw hstack hcode hsynched hdetached hlast hstolen hparent) hsame.2.2.2)
      fun g _ => iff_of_false (hdead g) List.not_mem_nil
    have hleave := hok.leave (hl.current hi hw hstack) (fun g hg => hl.top hi hw hstack hsynched hg)
      hcode
    exact hleave.keep hhas (fun g _ => congrFun hsame.2.1 g)
      (fun g _ => congrArg (Code.events bumps) (congrFun hsame.2.2.1 g)) (fun _ _ => rfl)
      (fun g hg => Function.update_of_ne hg.2 _ _) (fun _ _ => rfl)
      (congrArg (extendSync table x.mem) hcw)
  | @exitRoot w t f below x hw hstack hcode hsynched hlast =>
    exact absurd (Function.update_self _ _ _) (hrun w t)
  | _ => exact hkeep (fun _ => Iff.rfl) rfl rfl rfl rfl rfl rfl

end Steps

section Runs

variable [DecidableEq κ] [Monoid V] {table : ℕ → BitVec 64} {bumps : κ → Bool}
  {root : PedigreeFrame} {events : List PedigreeEvent}

/-- What holds of the scheduler and of the extension in every run. -/
structure StrandInv (table : ℕ → BitVec 64) (bumps : κ → Bool) (root : PedigreeFrame)
    (events : List PedigreeEvent) (s : Runtime κ V) (x : Extensions) : Prop where
  sched : SchedInv s
  fibers : FiberInv s
  same : SameFibers s x
  apart : FibersApart s
  links : CallLinks s x
  pointers : PointerInv s x x.addr
  slots : SlotInv s x x.addr
  cactus : (∀ w c, s.phase w ≠ .exited c) → (s.cactus x x.addr).Ok table bumps root events

omit [DecidableEq κ] [Monoid V] in
theorem strandInv_initial (table : ℕ → BitVec 64) (bumps : κ → Bool) (code : Code κ V)
    (views : Option (ViewMap κ V)) (hroot : root.pedigreeParent = none) :
    StrandInv table bumps root (code.events bumps) (initialRuntime code views)
      (initialExtensions root) where
  sched := schedInv_initial code views
  fibers := fiberInv_initial code views
  same := sameFibers_initial code views root
  apart := fibersApart_initial code views
  links := callLinks_initial code views root
  pointers := pointerInv_initial code views root
  slots := slotInv_initial code views root
  cactus := by
    intro _
    have hzero : ∀ f, (initialRuntime code views).HasFrame f → f = 0 := by
      rintro f ⟨-, c, hc, hf⟩
      have hc0 : c = 0 := of_decide_eq_true hc
      subst hc0
      exact List.mem_singleton.mp hf
    constructor
    case older => exact fun f g _ h => by cases h
    case spawned => exact fun f _ h => by cases h
    case called => exact fun f hf _ hne => absurd (hzero f hf) hne
    case bottom => exact fun _ => ⟨rfl, rfl⟩
    case rootParent => exact hroot
    case distinct => exact fun f g hf hg _ _ _ => (hzero f hf).trans (hzero g hg).symm
    case single => exact fun f g hf hg _ => (hzero f hf.1).trans (hzero g hg.1).symm
    case reads =>
      intro f _
      exact ⟨rootLabel root, [], rfl, (serialReads_init hroot).head.1⟩
    case remaining =>
      intro f _
      exact ⟨[], (List.append_nil _).symm⟩

theorem StrandInv.step (h : StrandInv table bumps root events s x) (hs : SchedStep s s')
    (hext : ExtensionStep table bumps Extensions.AboveExtension hs x x') :
    StrandInv table bumps root events s' x' := by
  have hok := h.cactus fun w c hw => h.sched.ends hw hs
  have hcalled : ∀ f g, s.HasFrame f → s.detached f = false → x.callParent f = some g →
      x.addr f = x.addr g := by
    intro f g hf hd hparent
    have hzero : f ≠ 0 := by
      rintro rfl
      rw [h.links.root] at hparent
      cases hparent
    obtain ⟨g', hparent', -, haddr, -⟩ := hok.called f hf hd hzero
    obtain rfl : g' = g := Option.some.inj (hparent'.symm.trans hparent)
    exact haddr
  constructor
  case sched => exact h.sched.step hs
  case fibers => exact FiberInv.step h.sched h.fibers hs
  case same => exact h.same.step h.sched hs hext
  case apart => exact h.apart.step h.sched h.fibers hs
  case links => exact h.links.step h.sched hs hext
  case pointers => exact h.pointers.step h.sched h.links hcalled hs hext
  case slots => exact h.slots.step h.sched h.fibers h.apart h.same h.links h.pointers hok hs hext
  case cactus =>
    exact fun hrun =>
      cactus_step hok h.slots h.sched h.links h.pointers h.fibers hs hext hrun

theorem strandInv_reachable {code : Code κ V} {views : Option (ViewMap κ V)}
    (hroot : root.pedigreeParent = none)
    (hrun : Reaches (PedigreeStep table bumps Extensions.AboveExtension)
      (initialRuntime code views, initialExtensions root) (s, x)) :
    StrandInv table bumps root (code.events bumps) s x := by
  generalize hsx : (s, x) = sx at hrun
  induction hrun generalizing s x with
  | refl =>
    obtain ⟨rfl, rfl⟩ := Prod.mk.inj hsx
    exact strandInv_initial table bumps code views hroot
  | tail hrun hstep ih =>
    subst hsx
    obtain ⟨hs, hext⟩ := hstep
    exact (ih rfl).step hs hext

omit [DecidableEq κ] [Monoid V] in
/-- While a worker runs a frame the region has not ended. -/
theorem StrandInv.running (h : StrandInv table bumps root events s x) {w : WorkerId}
    {t : ClosureId} (hw : s.phase w = .running t) :
    (s.cactus x x.addr).Ok table bumps root events := by
  apply h.cactus
  intro w' c hw'
  have hheld : (s.phase w).closure = some t := by rw [hw]; rfl
  have hheld' : (s.phase w').closure = some c := by rw [hw']; rfl
  have ht := h.sched.exited w' c hw' t (h.sched.hold.live w t hheld)
  have hc := h.sched.exited w' c hw' c (h.sched.hold.live w' c hheld')
  obtain rfl := h.sched.hold.unique w w' 0 (ht ▸ hheld) (hc ▸ hheld')
  rw [hw] at hw'
  cases hw'

/-- What reads the same draws the same random number. -/
theorem Reads.getDprand {mem mem' : PedigreeMem} {a a' : FrameAddr} {l : PedigreeLabel}
    (h : Reads mem a l) (h' : Reads mem' a' l) :
    (getDprand table mem a).2 = (getDprand table mem' a').2 := by
  simp only [Cheetah.getDprand, bumpWorkerRank, PedigreeFrame.bump, Function.update_self,
    h.dotproduct, h.depth, h'.dotproduct, h'.depth]

omit [DecidableEq κ] [Monoid V] in
/-- The serial execution gets to the place of a frame in user code, and reads the same there. -/
theorem StrandInv.reads_serial {code : Code κ V}
    (h : StrandInv table bumps root (code.events bumps) s x) (hroot : root.pedigreeParent = none)
    {w : WorkerId} {t : ClosureId} {f : FrameId} {below : List FrameId}
    (hw : s.phase w = .running t) (hstack : s.stack t = f :: below) :
    ∃ a σ l later, x.workerExtension w = some a ∧
      (code.events bumps).drop (x.position f) = (s.code f).events bumps ++ later ∧
      PedigreeState.run table { mem := fun _ => root }
        ((code.events bumps).take (x.position f)) = some σ ∧
      Reads x.mem a l ∧ Reads σ.mem σ.extension l ∧
      (getDprand table x.mem a).2 = (getDprand table σ.mem σ.extension).2 := by
  have hok := h.running hw
  have hmem : f ∈ s.stack t := by rw [hstack]; exact List.mem_cons_self
  have hlive := h.sched.hold.live w t (by rw [hw]; rfl)
  have hred := h.sched.frames.user h.sched.hold hw hmem
  obtain ⟨l, ls, hlabels, hreads⟩ := hok.reads f (h.links.current h.sched hw hstack)
  obtain ⟨later, hlater⟩ := hok.remaining f ⟨hred, t, hlive, hmem⟩
  have hrunning : PedigreeLabel.run table [rootLabel root]
      ((code.events bumps).take (x.position f)) ≠ [] := by
    have hne : l :: ls ≠ [] := List.cons_ne_nil l ls
    rwa [← hlabels] at hne
  obtain ⟨σ, hserial, hσ⟩ := (serialReads_init hroot).run hrunning
  have hread : SerialReads σ (l :: ls) := hlabels ▸ hσ
  exact ⟨_, σ, l, later, h.pointers.worker w t f below (.inl hw) hstack hred, hlater, hserial,
    hreads, hread.head.1, hreads.getDprand hread.head.1⟩

/-- Pedigrees do not depend on the schedule: a worker that runs a frame reads the pedigree of the
serial execution at the place where the frame is, with the events of the frame's code ahead. -/
theorem pedigrees_serial {code : Code κ V} {views : Option (ViewMap κ V)}
    (hroot : root.pedigreeParent = none)
    (hrun : Reaches (PedigreeStep table bumps Extensions.AboveExtension)
      (initialRuntime code views, initialExtensions root) (s, x))
    {w : WorkerId} {t : ClosureId} {f : FrameId} {below : List FrameId}
    (hw : s.phase w = .running t) (hstack : s.stack t = f :: below) :
    ∃ a σ l later, x.workerExtension w = some a ∧
      (code.events bumps).drop (x.position f) = (s.code f).events bumps ++ later ∧
      PedigreeState.run table { mem := fun _ => root }
        ((code.events bumps).take (x.position f)) = some σ ∧
      Reads x.mem a l ∧ Reads σ.mem σ.extension l ∧
      (getDprand table x.mem a).2 = (getDprand table σ.mem σ.extension).2 :=
  (strandInv_reachable hroot hrun).reads_serial hroot hw hstack

theorem pedigree_tail {allowed : Extensions → WorkerId → Prop} {sx : Runtime κ V × Extensions}
    (hrun : Reaches (PedigreeStep table bumps allowed) sx (s, x)) (hs : SchedStep s s')
    (hext : ExtensionStep table bumps allowed hs x x') :
    Reaches (PedigreeStep table bumps allowed) sx (s', x') := hrun.tail ⟨hs, hext⟩

/-- A run in which a thief continues the root, which has a child at work. -/
theorem stolenPedigrees : ∃ s x,
    Reaches (PedigreeStep (fun _ => 0) (fun _ => true) Extensions.AboveExtension)
      (initialRuntime sampleCode none, initialExtensions (rootFrame 1)) (s, x) ∧
    s.phase 1 = .running 0 ∧ s.stack 0 = [0] ∧ x.position 0 = 4 ∧
      x.accesses = [⟨1, 1⟩, ⟨0, 0⟩] := by
  have hroot : ∀ x : Extensions, x.workerExtension 0 = some .root → x.AboveExtension 0 := by
    intro x hx fiber pos h
    rw [hx] at h
    cases h
  have hstart : Reaches (PedigreeStep (fun _ => 0) (fun _ => true) Extensions.AboveExtension)
      (initialRuntime sampleCode none, initialExtensions (rootFrame 1))
      (initialRuntime sampleCode none, initialExtensions (rootFrame 1)) := .refl
  have hresumed := pedigree_tail hstart (.resumeStolen (w := 0) (t := 0) (f := 0) 5 rfl rfl rfl)
    (.resumeStolen rfl rfl rfl)
  have hspawned := pedigree_tail hresumed (.detach (w := 0) (t := 0) (f := 0) 7 rfl rfl rfl)
    (.detach rfl rfl rfl (hroot _ rfl))
  have hstolen := pedigree_tail hspawned
    (@SchedStep.stealStolen _ _ _ _ _ 1 0 0 0 _ [1] [] rfl rfl rfl rfl rfl)
    (.stealStolen rfl rfl rfl rfl rfl)
  have hcontinued := pedigree_tail hstolen
    (.resumeStolen (w := 1) (t := 0) (f := 0) 9 rfl rfl rfl) (.resumeStolen rfl rfl rfl)
  exact ⟨_, _, hcontinued, rfl, rfl, rfl, rfl⟩

theorem pedigrees_serial_stolen : ∃ (s : Runtime Unit (FreeMonoid Bool)) (x : Extensions),
    s.phase 1 = .running 0 ∧ x.position 0 = 4 ∧
    ∃ a σ l later, x.workerExtension 1 = some a ∧
      (sampleCode.events fun _ => true).drop 4 = (s.code 0).events (fun _ => true) ++ later ∧
      PedigreeState.run (fun _ => 0) { mem := fun _ => rootFrame 1 }
        ((sampleCode.events fun _ => true).take 4) = some σ ∧
      Reads x.mem a l ∧ Reads σ.mem σ.extension l ∧
      (getDprand (fun _ => 0) x.mem a).2 = (getDprand (fun _ => 0) σ.mem σ.extension).2 := by
  obtain ⟨s, x, hrun, hw, hstack, hposition, -⟩ := stolenPedigrees
  refine ⟨s, x, hw, hposition, ?_⟩
  rw [← hposition]
  exact pedigrees_serial rfl hrun hw hstack

omit [DecidableEq κ] [Monoid V] in
/-- Below a pedigree frame in use the places on its extension fiber are in use, and the pointers to
the parents lead to them. -/
theorem StrandInv.used_below (h : StrandInv table bumps root events s x)
    (hok : (s.cactus x x.addr).Ok table bumps root events) {P : FrameAddr → Prop}
    (hparents : ∀ a b, P a → (x.mem a).pedigreeParent = some b → P b) {F : FiberId} (n : ℕ)
    {f : FrameId} {i : ℕ} (hf : s.HasFrame f) (hP : P (x.addr f))
    (hslot : x.addr f = .slot F (i + n)) :
    P (.slot F i) ∧ ∃ g, s.HasFrame g ∧ x.addr g = .slot F i := by
  induction n generalizing f with
  | zero => exact ⟨hslot ▸ hP, f, hf, hslot⟩
  | succ n ih =>
    have hne : x.addr f ≠ .root := by
      rw [hslot]
      simp
    obtain ⟨b, hb, hd, hsame⟩ := hok.owner hf hne
    obtain ⟨g, hparent, hg, hpointer, -⟩ := hok.spawned b hb hd
    rw [hsame] at hpointer
    exact ih hg (hparents _ _ hP hpointer)
      (h.slots.contiguous b g F (i + n) hb hd hparent (hsame.trans hslot))

omit [DecidableEq κ] [Monoid V] in
/-- Where the extension stack does not stand above it, the worker's own frame is at least as high on
the same fiber. -/
theorem StrandInv.pushed_below (h : StrandInv table bumps root events s x) {w : WorkerId}
    {t : ClosureId} {f : FrameId} {below : List FrameId} (hw : s.phase w = .running t)
    (hstack : s.stack t = f :: below) (hnot : ¬ x.AboveExtension w) :
    ∃ F i n, x.pushed w = .slot F i ∧ x.addr f = .slot F (i + n) := by
  have hheld : (s.phase w).closure = some t := by rw [hw]; rfl
  obtain ⟨hf, -⟩ := h.pointers.current_running h.sched hw hstack
  obtain ⟨F, hF⟩ := h.sched.fiber_some h.fibers hheld
  obtain ⟨pos, hpos, hlen, -⟩ := h.slots.extStack w t f below F (.inl hw) hstack hf.1 hF
  have hworker := h.pointers.worker w t f below (.inl hw) hstack hf.1
  obtain ⟨i, hslot, hle⟩ : ∃ i : ℕ, x.addr f = .slot F i ∧ pos ≤ i := by
    by_contra hno
    apply hnot
    intro fiber i hext hsame
    rw [hpos] at hsame ⊢
    obtain rfl : F = fiber := hsame
    by_contra hlt
    exact hno ⟨i, Option.some.inj (hworker.symm.trans hext), by omega⟩
  refine ⟨F, pos.toNat, i - pos.toNat, by rw [Extensions.pushed, hpos], ?_⟩
  rw [hslot]
  congr 1
  omega

/-- A spawn pushes its pedigree frame on one that is in use if and only if the extension stack does
not stand above the frame that the worker has, as after a sync that has reset it. -/
theorem push_overwrites_iff {code : Code κ V} {views : Option (ViewMap κ V)}
    (hroot : root.pedigreeParent = none)
    (hrun : Reaches (PedigreeStep table bumps Extensions.AboveExtension)
      (initialRuntime code views, initialExtensions root) (s, x))
    {w : WorkerId} {t : ClosureId} {f : FrameId} {below : List FrameId}
    (hw : s.phase w = .running t) (hstack : s.stack t = f :: below) :
    (∃ g, s.HasFrame g ∧ x.addr g = x.pushed w) ↔ ¬ x.AboveExtension w := by
  have h := strandInv_reachable hroot hrun
  constructor
  · rintro ⟨g, hg, hslot⟩ habove
    exact h.slots.pushed_free h.sched h.fibers h.pointers hw hstack habove hg hslot
  · intro hnot
    obtain ⟨hf, -⟩ := h.pointers.current_running h.sched hw hstack
    obtain ⟨F, i, n, hpushed, hslot⟩ := h.pushed_below hw hstack hnot
    rw [hpushed]
    exact (h.used_below (P := fun _ => True) (h.running hw) (fun _ _ _ _ => trivial) n hf trivial
      hslot).2

/-- The child of the root spawns, syncs and goes on with `rest`. -/
def respawningCode (rest : Code Unit (FreeMonoid Bool)) : Code Unit (FreeMonoid Bool) :=
  .spawn (.spawn .done (.sync rest)) (.sync .done)

/-- Worker 2 runs the child after its sync, with an extension stack that starts at the pedigree frame
of the child. -/
structure Respawning (s : Runtime Unit (FreeMonoid Bool)) (x : Extensions)
    (rest : Code Unit (FreeMonoid Bool)) (depth : ℕ) : Prop where
  phase : s.phase 2 = .running 1
  stack : s.stack 1 = [1]
  code : s.code 1 = rest
  deque : s.deque 2 = []
  numFrames : 1 < s.numFrames
  worker : x.workerExtension 2 = some (.slot 0 0)
  extStack : x.extStack 2 = (0, 0)
  depth : (x.mem (.slot 0 0)).dprngDepth = depth
  nesting : x.nesting 1 = 1
  accesses : ∀ a ∈ x.accesses, a.nesting ≤ 2

theorem Respawning.pushed {s : Runtime Unit (FreeMonoid Bool)} {x : Extensions}
    {rest : Code Unit (FreeMonoid Bool)} {depth : ℕ} (h : Respawning s x rest depth) :
    x.pushed 2 = .slot 0 0 := by
  rw [Extensions.pushed, h.extStack]
  rfl

theorem Respawning.current {s : Runtime Unit (FreeMonoid Bool)} {x : Extensions}
    {rest : Code Unit (FreeMonoid Bool)} {depth : ℕ} (h : Respawning s x rest depth) :
    x.current 2 = .slot 0 0 := by
  rw [Extensions.current, h.worker]
  rfl

/-- The continuations of the root and of its child are stolen, and the child passes its sync. -/
theorem respawningRegion (table : ℕ → BitVec 64) {allowed : Extensions → WorkerId → Prop}
    (hallowed : ∀ x w, x.AboveExtension w → allowed x w) (rest : Code Unit (FreeMonoid Bool)) :
    ∃ s x, Reaches (PedigreeStep table (fun _ => true) allowed)
      (initialRuntime (respawningCode rest) none, initialExtensions (rootFrame 1)) (s, x) ∧
      Respawning s x rest 1 := by
  have hroot : ∀ x : Extensions, x.workerExtension 0 = some .root → allowed x 0 := by
    intro x hx
    apply hallowed
    intro fiber pos h
    rw [hx] at h
    cases h
  have habove : ∀ x : Extensions, x.workerExtension 0 = some (.slot 0 0) → x.extStack 0 = (0, 1) →
      allowed x 0 := by
    intro x hx hext
    apply hallowed
    intro fiber pos h _
    obtain ⟨-, rfl⟩ := FrameAddr.slot.inj (Option.some.inj (hx.symm.trans h))
    rw [hext]
    exact Int.zero_lt_one
  have hhelper : (none : Option FrameId) ≠ some 1 := by decide
  have hrunning : ClosureStatus.running ≠ .suspended := by decide
  have hstart : Reaches (PedigreeStep table (fun _ => true) allowed)
      (initialRuntime (respawningCode rest) none, initialExtensions (rootFrame 1))
      (initialRuntime (respawningCode rest) none, initialExtensions (rootFrame 1)) := .refl
  have hresumed := pedigree_tail hstart (.resumeStolen (w := 0) (t := 0) (f := 0) 5 rfl rfl rfl)
    (.resumeStolen rfl rfl rfl)
  have hspawned := pedigree_tail hresumed (.detach (w := 0) (t := 0) (f := 0) 7 rfl rfl rfl)
    (.detach rfl rfl rfl (hroot _ rfl))
  have hnested := pedigree_tail hspawned (.detach (w := 0) (t := 0) (f := 1) 8 rfl rfl rfl)
    (.detach rfl rfl rfl (habove _ rfl rfl))
  have hrootStolen := pedigree_tail hnested
    (@SchedStep.stealStolen _ _ _ _ _ 1 0 0 0 _ [2, 1] [] rfl rfl rfl rfl rfl)
    (.stealStolen rfl rfl rfl rfl rfl)
  have hstolen := pedigree_tail hrootStolen
    (@SchedStep.stealHelper _ _ _ _ _ 2 0 1 1 _ [2] [] rfl rfl rfl rfl hhelper rfl)
    (.stealHelper rfl rfl rfl rfl hhelper rfl)
  have hreturning := pedigree_tail hstolen
    (.exceptionHandler (w := 0) (t := 2) (f := 2) rfl rfl rfl rfl rfl rfl)
    (.exceptionHandler rfl rfl rfl rfl rfl rfl)
  have hreturned := pedigree_tail hreturning
    (@SchedStep.returnChild _ _ _ _ _ 0 2 1 rfl rfl rfl rfl fun h => hrunning h.2)
    (.returnChild rfl rfl rfl rfl fun h => hrunning h.2)
  have hcontinued := pedigree_tail hreturned
    (.resumeStolen (w := 2) (t := 1) (f := 1) 9 rfl rfl rfl) (.resumeStolen rfl rfl rfl)
  have hpassed := pedigree_tail hcontinued
    (.passSync (w := 2) (t := 1) (f := 1) 9 rfl rfl rfl rfl rfl) (.passSync rfl rfl rfl rfl rfl)
  have hsynched := pedigree_tail hpassed
    (.doReductions (w := 2) (t := 1) (f := 1) rfl rfl rfl) (.doReductions rfl rfl rfl)
  have hframes : 1 < 4 := by decide
  have hlow : ∀ n ∈ [1, 2, 2, 1, 1, 0], n ≤ 2 := by decide
  have haccesses : ∀ l : List TableAccess, l.map TableAccess.nesting = [1, 2, 2, 1, 1, 0] →
      ∀ a ∈ l, a.nesting ≤ 2 :=
    fun _ hl _ ha => hlow _ (hl ▸ List.mem_map_of_mem ha)
  exact ⟨_, _, hsynched, rfl, rfl, rfl, rfl, hframes, rfl, rfl, rfl, rfl, haccesses _ rfl⟩

theorem push_overwrites_respawning : ∃ (s : Runtime Unit (FreeMonoid Bool)) (x : Extensions),
    Reaches (PedigreeStep (fun _ => 0) (fun _ => true) Extensions.AboveExtension)
      (initialRuntime (respawningCode (.spawn .done (.sync .done))) none,
        initialExtensions (rootFrame 1)) (s, x) ∧
    s.phase 2 = .running 1 ∧ ∃ g, s.HasFrame g ∧ x.addr g = x.pushed 2 := by
  obtain ⟨s, x, hrun, hat⟩ := respawningRegion (fun _ => 0) (fun _ _ habove => habove)
    (.spawn .done (.sync .done))
  refine ⟨s, x, hrun, hat.phase, ?_⟩
  refine (push_overwrites_iff rfl hrun hat.phase hat.stack).mpr fun habove => ?_
  have hlt := habove 0 0 hat.worker (congrArg Prod.fst hat.extStack)
  rw [hat.extStack] at hlt
  exact lt_irrefl 0 hlt

end Runs

end Cheetah
