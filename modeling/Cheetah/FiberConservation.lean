import Cheetah.BusyLeaves

/-! No fiber is lost: one that is not in the pool is held by exactly one closure. -/
namespace Cheetah
open Function (update)

variable {κ V : Type} {s s' : Runtime κ V} {p k : ClosureId} {y : FiberId}

/-- Every fiber that was allocated is in the pool, or some closure has to pass it on. -/
def Runtime.Covered (s : Runtime κ V) : Prop :=
  ∀ F < s.numFibers, F ∈ s.freed ∨ ∃ c, s.Holds c F

theorem covered_initial (code : Code κ V) (views : Option (ViewMap κ V)) :
    (initialRuntime code views).Covered := by
  intro F hF
  obtain rfl : F = 0 := Nat.lt_one_iff.mp hF
  refine .inr ⟨0, rfl, .inl ⟨rfl, ?_⟩⟩
  rintro (h | ⟨p, h, -⟩)
  · exact h rfl
  · cases h

/-- Whatever a closure holds is held or freed after the step. -/
theorem Runtime.Covered.keep (hcov : s.Covered) (hbound : s'.numFibers = s.numFibers)
    (hfreed : ∀ F ∈ s.freed, F ∈ s'.freed)
    (hholds : ∀ c F, s.Holds c F → F ∈ s'.freed ∨ ∃ c', s'.Holds c' F) : s'.Covered := by
  intro F hF
  rw [hbound] at hF
  rcases hcov F hF with hmem | ⟨c, hc⟩
  · exact .inl (hfreed F hmem)
  · exact hholds c F hc

theorem holds_congr {c : ClosureId} {F : FiberId} (hlive : s'.live c = s.live c)
    (hhome : s'.home = s.home) (hfiber : s'.fiber c = s.fiber c)
    (horigRsp : s'.origRsp c = s.origRsp c) (hcallParent : s'.callParent c = s.callParent c)
    (hspawnParent : s'.spawnParent c = s.spawnParent c) : s'.Holds c F ↔ s.Holds c F := by
  simp only [Runtime.Holds, Runtime.Inherits, hlive, hhome, hfiber, horigRsp, hcallParent,
    hspawnParent]

/-- A new closure changes nothing for the others. -/
theorem inherits_fresh (hl : LinksInv s) (hk : ¬ s.live k)
    (hhome : ∀ c, c ≠ k → s'.home c = s.home c)
    (hcallParent : ∀ c, c ≠ k → s'.callParent c = s.callParent c)
    (hspawnParent : ∀ c, c ≠ k → s'.spawnParent c = s.spawnParent c) {c : ClosureId}
    (hc : s.live c) : s'.Inherits c ↔ s.Inherits c := by
  have hfresh : ∀ d, s.live d → d ≠ k := by
    rintro d hd rfl
    exact hk hd
  have hck := hfresh c hc
  rw [Runtime.Inherits, Runtime.Inherits, hcallParent c hck, hspawnParent c hck, hhome c hck]
  refine or_congr_right (exists_congr fun q => and_congr_right fun hq => ?_)
  rw [hhome q (hfresh q (hl.spawner c q hc hq))]

/-- A callee holds nothing yet. -/
theorem Runtime.Covered.call (hcov : s.Covered) (hl : LinksInv s) (hk : ¬ s.live k)
    (hlive : s'.live = update s.live k true) (hhome : ∀ c, c ≠ k → s'.home c = s.home c)
    (hfiber : ∀ c, c ≠ k → s'.fiber c = s.fiber c)
    (horigRsp : ∀ c, c ≠ k → s'.origRsp c = s.origRsp c)
    (hcallParent : ∀ c, c ≠ k → s'.callParent c = s.callParent c)
    (hspawnParent : ∀ c, c ≠ k → s'.spawnParent c = s.spawnParent c)
    (hfreed : s'.freed = s.freed) (hbound : s'.numFibers = s.numFibers) : s'.Covered := by
  apply hcov.keep hbound (fun F hF => hfreed ▸ hF)
  intro c F ⟨hc, hholds⟩
  have hck : c ≠ k := by
    rintro rfl
    exact hk hc
  refine .inr ⟨c, by rwa [hlive, Function.update_of_ne hck], ?_⟩
  rwa [hhome c hck, hfiber c hck, horigRsp c hck,
    inherits_fresh hl hk hhome hcallParent hspawnParent hc]

/-- The fiber of the stolen closure goes to the child, and the new one to the closure. -/
theorem Runtime.Covered.steal (hcov : s.Covered) (hx : FiberInv s) (hl : LinksInv s)
    (hp : s.live p) (hk : ¬ s.live k) (hy : s.fiber p = some y)
    (hlive : s'.live = update s.live k true) (hhome : s'.home = update s.home k (some y))
    (hfiber : s'.fiber = update (update s.fiber k (some y)) p (some s.numFibers))
    (horigRsp : ∀ c, c ≠ p → c ≠ k → s'.origRsp c = s.origRsp c) (hown : s'.origRsp p ≠ none)
    (hcallParent : s'.callParent = update s.callParent k none)
    (hspawnParent : s'.spawnParent = update s.spawnParent k (some p))
    (hfreed : s'.freed = s.freed) (hbound : s'.numFibers = s.numFibers + 1) : s'.Covered := by
  have hpk : p ≠ k := by
    rintro rfl
    exact hk hp
  have hinherits : ∀ c, s.live c → (s'.Inherits c ↔ s.Inherits c) := by
    intro c hc
    apply inherits_fresh hl hk _ _ _ hc
    · exact fun d hdk => by rw [hhome, Function.update_of_ne hdk]
    · exact fun d hdk => by rw [hcallParent, Function.update_of_ne hdk]
    · exact fun d hdk => by rw [hspawnParent, Function.update_of_ne hdk]
  intro F hF
  rw [hfreed]
  rcases Nat.lt_or_ge F s.numFibers with hold | hnew
  · rcases hcov F hold with hmem | ⟨c, hc, hholds⟩
    · exact .inl hmem
    · have hck : c ≠ k := by
        rintro rfl
        exact hk hc
      have hc' : s'.live c := by rwa [hlive, Function.update_of_ne hck]
      rcases hholds with ⟨hhomec, hinh⟩ | ⟨hfiberc, hsp⟩
      · refine .inr ⟨c, hc', .inl ⟨?_, fun h => hinh ((hinherits c hc).mp h)⟩⟩
        rwa [hhome, Function.update_of_ne hck]
      · by_cases hcp : c = p
        · subst hcp
          obtain rfl : y = F := Option.some.inj (hy.symm.trans hfiberc)
          refine .inr ⟨k, by rw [hlive, Function.update_self], .inl ⟨?_, ?_⟩⟩
          · rw [hhome, Function.update_self]
          · rintro (h | ⟨q, hq, hsame⟩)
            · rw [hcallParent, Function.update_self] at h
              exact h rfl
            · rw [hspawnParent, Function.update_self] at hq
              rw [← Option.some.inj hq, hhome, Function.update_self,
                Function.update_of_ne hpk] at hsame
              exact hx.away c hc hsp (hfiberc.trans hsame)
        · refine .inr ⟨c, hc', .inr ⟨?_, ?_⟩⟩
          · rw [hfiber, Function.update_of_ne hcp, Function.update_of_ne hck, hfiberc]
          · rwa [horigRsp c hcp hck]
  · obtain rfl : F = s.numFibers := by
      rw [hbound] at hF
      exact Nat.le_antisymm (Nat.le_of_lt_succ hF) hnew
    refine .inr ⟨p, by rwa [hlive, Function.update_of_ne hpk], .inr ⟨?_, hown⟩⟩
    rw [hfiber, Function.update_self]

/-- A closure gives its fiber back. -/
theorem Runtime.Covered.release (hcov : s.Covered) (hlive : s'.live = s.live)
    (hhome : s'.home = s.home) (hfiber : ∀ c, c ≠ p → s'.fiber c = s.fiber c)
    (horigRsp : ∀ c, c ≠ p → s'.origRsp c = s.origRsp c)
    (hcallParent : s'.callParent = s.callParent) (hspawnParent : s'.spawnParent = s.spawnParent)
    (hfreed : s'.freed = s.freed ++ (s.fiber p).toList) (hbound : s'.numFibers = s.numFibers) :
    s'.Covered := by
  apply hcov.keep hbound
  · intro F hF
    rw [hfreed]
    exact List.mem_append_left _ hF
  · intro c F hc
    by_cases hcp : c = p
    · subst hcp
      obtain ⟨hlivec, ⟨hhomec, hinherits⟩ | ⟨hfiberc, -⟩⟩ := hc
      · refine .inr ⟨c, by rwa [hlive], .inl ⟨by rwa [hhome], ?_⟩⟩
        rwa [Runtime.Inherits, hcallParent, hspawnParent, hhome]
      · rw [hfreed, hfiberc]
        exact .inl (List.mem_append_right _ (List.mem_singleton.mpr rfl))
    · refine .inr ⟨c, (holds_congr (congrFun hlive c) hhome (hfiber c hcp) (horigRsp c hcp)
        (congrFun hcallParent c) (congrFun hspawnParent c)).mpr hc⟩

/-- A closure that holds no fiber, or gives it back, is destroyed. -/
theorem Runtime.Covered.destroy (hcov : s.Covered) (hlive : s'.live = update s.live k false)
    (hhome : s'.home = s.home) (hfiber : ∀ c, c ≠ k → s'.fiber c = s.fiber c)
    (horigRsp : s'.origRsp = s.origRsp) (hcallParent : s'.callParent = s.callParent)
    (hspawnParent : s'.spawnParent = s.spawnParent) (hfreed : ∀ F ∈ s.freed, F ∈ s'.freed)
    (hbound : s'.numFibers = s.numFibers) (hholds : ∀ F, s.Holds k F → F ∈ s'.freed) :
    s'.Covered := by
  apply hcov.keep hbound hfreed
  intro c F hc
  by_cases hck : c = k
  · exact .inl (hholds F (hck ▸ hc))
  · refine .inr ⟨c, (holds_congr ?_ hhome (hfiber c hck) (congrFun horigRsp c)
      (congrFun hcallParent c) (congrFun hspawnParent c)).mpr hc⟩
    rw [hlive, Function.update_of_ne hck]

theorem Runtime.Covered.stealOwn (hcov : s.Covered) (hi : SchedInv s) (hx : FiberInv s)
    {w victim : WorkerId} {cl : ClosureId} {f : FrameId} {above below : List FrameId}
    (hvictim : s.phase victim = .running cl) : (s.stealOwn w victim cl f above below).Covered := by
  have hheld : (s.phase victim).closure = some cl := by rw [hvictim]; rfl
  have hlive := hi.hold.live victim cl hheld
  have hne := hi.links.ne_fresh hlive
  obtain ⟨y, hy⟩ := hx.fiber_of_held hi.hold hheld
  apply hcov.steal hx hi.links hlive hi.links.fresh hy
  case hown =>
    have hself : (s.stealOwn w victim cl f above below).origRsp cl =
        (update s.origRsp s.numClosures none cl).or (some (s.sp f)) := Function.update_self _ _ _
    rw [hself]
    cases update s.origRsp s.numClosures none cl <;> simp
  case horigRsp =>
    exact fun c hcp hck => (Function.update_of_ne hcp _ _).trans (Function.update_of_ne hck _ _)
  all_goals
    simp [Runtime.stealOwn, Runtime.promoteChild, Runtime.finishSteal, Runtime.setupForExecution,
      Runtime.addChild, Runtime.createClosure, hy]

/-- The callee is on the fiber of its caller until it is stolen. -/
theorem Runtime.Covered.stealCalled (hcov : s.Covered) (hi : SchedInv s) (hx : FiberInv s)
    {w victim : WorkerId} {cl : ClosureId} {f : FrameId} {above below : List FrameId}
    (hvictim : s.phase victim = .running cl) (hstack : s.stack cl = above ++ f :: below)
    (hframe : s.frame cl ≠ some f) : (s.stealCalled w victim cl f above below).Covered := by
  have hheld : (s.phase victim).closure = some cl := by rw [hvictim]; rfl
  have hlive := hi.hold.live victim cl hheld
  obtain ⟨y, hy⟩ := hx.fiber_of_held hi.hold hheld
  have hcalled := hx.addCallee hi.links hi.hold hi.frames hvictim hstack hframe
  have hlinks := hi.links.addCallee hlive (hi.hold.callee victim cl hheld) f below
  have hkr : s.numClosures ≠ s.numClosures + 1 := Nat.ne_of_lt (Nat.lt_succ_self _)
  have hdead : ¬ s.live (s.numClosures + 1) := fun h =>
    Nat.not_lt_of_gt (Nat.lt_succ_self _) (hi.links.bound _ h)
  have hcov' : Runtime.Covered { s.addCallee cl s.numClosures f below with
      fiber := update s.fiber s.numClosures (s.fiber cl) } := by
    apply hcov.call hi.links hi.links.fresh rfl
    case hfreed => rfl
    case hbound => rfl
    case hcallParent =>
      exact fun c hck => (Function.update_of_ne hck _ _).trans (Function.update_of_ne hck _ _)
    all_goals exact fun c hck => Function.update_of_ne hck _ _
  apply hcov'.steal hcalled { hlinks with } (p := s.numClosures) (k := s.numClosures + 1)
    (Function.update_self _ _ _) _ ((Function.update_self _ _ _).trans hy)
  case hown =>
    have hself : (s.stealCalled w victim cl f above below).origRsp s.numClosures =
        (update (update s.origRsp s.numClosures none) (s.numClosures + 1) none s.numClosures).or
          (some (s.sp f)) := Function.update_self _ _ _
    rw [hself]
    cases update (update s.origRsp s.numClosures none) (s.numClosures + 1) none s.numClosures <;>
      simp
  case horigRsp =>
    exact fun c hcp hck => (Function.update_of_ne hcp _ _).trans (Function.update_of_ne hck _ _)
  case hfiber =>
    funext c
    by_cases hc : c = s.numClosures <;>
      simp [Runtime.stealCalled, Runtime.addCallee, Runtime.promoteChild, Runtime.finishSteal,
        Runtime.setupForExecution, Runtime.addChild, Runtime.createClosure, hc, hy,
        Function.update_apply]
  all_goals
    simp [Runtime.stealCalled, Runtime.addCallee, Runtime.promoteChild, Runtime.finishSteal,
      Runtime.setupForExecution, Runtime.addChild, Runtime.createClosure, hy, hdead]

theorem Runtime.Covered.returnChild (hcov : s.Covered) (hi : SchedInv s) (hx : FiberInv s)
    {w : WorkerId} {t parent : ClosureId} (hw : s.phase w = .returning t)
    (hparent : s.spawnParent t = some parent) : (s.returnChild w parent t).Covered := by
  obtain ⟨hlive, hp, hmem, -⟩ := hi.links.parent hi.hold hi.frames hw hparent
  have hcalm := hx.calm_of_frame hi.frames hlive fun f hframe =>
    (hi.frames.done f (hi.frames.returning w t f hw hframe)).2
  have hspawned := hx.stolen hi.frames hp (List.ne_nil_of_mem hmem)
  have hleftmost := hx.leftmost_iff hi.links hp hmem hspawned
  have hfreed := (returnChild_leftHolder (s := s) w parent t).2
  have hleaves := Leaves.returnChild (s := s) w parent t
  refine hcov.destroy hleaves.live hleaves.home ?fiber hleaves.origRsp hleaves.callParent
    hleaves.spawnParent ?freed hleaves.bound ?holds
  case holds =>
    rintro F ⟨-, ⟨hhome, hinherits⟩ | ⟨-, hsp⟩⟩
    · have hother : s.home t ≠ s.home parent := fun h => hinherits (.inr ⟨parent, hparent, h⟩)
      rw [hfreed, if_pos (hleftmost.mpr hother), (hx.calm t hlive hcalm).1, hhome]
      exact List.mem_append_right _ (List.mem_singleton.mpr rfl)
    · exact absurd hcalm hsp
  case fiber => exact fun c hct => by rw [hleaves.fiber, Function.update_of_ne hct]
  case freed =>
    intro F hF
    rw [hfreed]
    split
    · exact List.mem_append_left _ hF
    · exact hF

variable [DecidableEq κ] [Monoid V]

theorem Runtime.Covered.step (hcov : s.Covered) (hi : SchedInv s) (hx : FiberInv s)
    (hs : SchedStep s s') : s'.Covered := by
  cases hs with
  | @suspendAtSync w t f below rsp hw hstack hcode hunsynched hchildren =>
    exact hcov.release (p := t) rfl rfl (fun c hct => Function.update_of_ne hct _ _)
      (fun _ _ => rfl) rfl rfl rfl rfl
  | @passSync w t f below rsp hw hstack hcode hunsynched hchildren =>
    exact hcov.release (p := t) rfl rfl (fun c hct => Function.update_of_ne hct _ _)
      (fun c hct => Function.update_of_ne hct _ _) rfl rfl rfl rfl
  | stealStolen hw hvictim hdeque hstack hframe => exact hcov.stealOwn hi hx hvictim
  | @stealHelper w victim cl f parents above below hw hvictim hdeque hstack hframe hdetached =>
    have hpromoted := hx.promoteHelper hi.hold hi.frames hvictim hdeque hstack hframe hdetached
    have hcov' : (s.promoteHelper cl f).Covered := hcov
    exact hcov'.stealOwn (hi.promoteHelper hvictim hdeque hstack hdetached) hpromoted hvictim
  | stealCalled hw hvictim hdeque hstack hframe hdetached =>
    exact hcov.stealCalled hi hx hvictim hstack hframe
  | returnChild hw hparent hleft hright hsteal => exact hcov.returnChild hi hx hw hparent
  | @resumeParent w t parent hw hparent hleft hright hsteal =>
    exact (hcov.returnChild hi hx hw hparent).release (p := parent) rfl rfl
      (fun c hct => Function.update_of_ne hct _ _) (fun c hct => Function.update_of_ne hct _ _)
      rfl rfl rfl rfl
  | @setReturn w t f below parent hw hstack hcode hsynched hdetached hlast hstolen hparent =>
    have hlive := hi.hold.live w t (by rw [hw]; rfl)
    have hown := hi.frames.own t f hlive (by rw [hstack]; simp) (.inl hstolen)
    have hcalm := hx.calm_of_frame hi.frames hlive fun g hg =>
      Option.some.inj (hown.symm.trans hg) ▸ hsynched
    refine hcov.destroy (k := t) rfl rfl (fun c hct => Function.update_of_ne hct _ _) rfl rfl rfl
      (fun _ h => h) rfl ?_
    rintro F ⟨-, ⟨-, hinherits⟩ | ⟨-, hsp⟩⟩
    · exact absurd (.inl (by rw [hparent]; exact Option.some_ne_none _)) hinherits
    · exact absurd hcalm hsp
  | _ => exact hcov

/-- A worker leaves the region in a step that changes no fiber, after the sync of the root frame. -/
theorem SchedInv.exit_calm (hi : SchedInv s) (hx : FiberInv s) (hs : SchedStep s s')
    {w : WorkerId} {c : ClosureId} (hw' : s'.phase w = .exited c) : s'.origRsp 0 = none := by
  obtain ⟨-, -, -, hsynched, rfl⟩ := hi.exit_cases hs hw'
  apply hx.calm_of_frame hi.frames hi.tree.root
  intro g hg
  rw [← Option.some.inj (hi.tree.rootFrame.symm.trans hg), hsynched]

/-- The invariants of the fibers hold in every run, and the root closure has no stack pointer saved
when the region has ended. -/
theorem fibers_reachable {code : Code κ V} {views : Option (ViewMap κ V)}
    (hrun : Reaches SchedStep (initialRuntime code views) s) :
    SchedInv s ∧ FiberInv s ∧ s.Covered ∧ ∀ w c, s.phase w = .exited c → s.origRsp 0 = none := by
  induction hrun with
  | refl =>
    exact ⟨schedInv_initial code views, fiberInv_initial code views, covered_initial code views,
      fun _ _ _ => rfl⟩
  | tail _ hs ih =>
    obtain ⟨hi, hx, hcov, -⟩ := ih
    exact ⟨hi.step hs, hx.step hi hs, hcov.step hi hx hs, fun w c hw => hi.exit_calm hx hs hw⟩

/-- No fiber is lost and none is shared: in every reachable state each fiber that was allocated is
in the pool, once, or it is held by exactly one closure; when a worker has ended the region, all
but the first fiber of the root closure are in the pool. The extension fibers are not counted. -/
theorem fibers_conserved {code : Code κ V} {views : Option (ViewMap κ V)}
    (hrun : Reaches SchedStep (initialRuntime code views) s) :
    s.freed.Nodup ∧ (∀ F ∈ s.freed, F < s.numFibers) ∧
    (∀ F < s.numFibers, (F ∈ s.freed ∧ ∀ c, ¬ s.Holds c F) ∨ F ∉ s.freed ∧ ∃! c, s.Holds c F) ∧
    ((∃ w c, s.phase w = .exited c) →
      ∀ F < s.numFibers, F ∈ s.freed ↔ s.fiber 0 ≠ some F) := by
  obtain ⟨hi, hx, hcov, hexit⟩ := fibers_reachable hrun
  refine ⟨hx.once, hx.boundFreed, fun F hF => ?_, fun ⟨w, c, hw⟩ F hF => ?_⟩
  · by_cases hmem : F ∈ s.freed
    · exact .inl ⟨hmem, fun c hc => hx.kept c F hc hmem⟩
    · obtain ⟨c, hc⟩ := (hcov F hF).resolve_left hmem
      exact .inr ⟨hmem, c, hc, fun c' hc' => hx.sole c' c F hc' hc⟩
  · have hcalm := hexit w c hw
    have hhome := (hx.calm 0 hi.tree.root hcalm).1
    have hinherits : ¬ s.Inherits 0 := by
      rintro (h | ⟨p, h, -⟩)
      · exact h hi.tree.rootCall
      · rw [hi.tree.rootSpawn] at h
        cases h
    constructor
    · intro hmem hfiber
      exact hx.kept 0 F ⟨hi.tree.root, .inl ⟨hhome ▸ hfiber, hinherits⟩⟩ hmem
    · intro hfiber
      rcases hcov F hF with hmem | ⟨d, hlive, hholds⟩
      · exact hmem
      · obtain rfl := hi.exited w c hw d hlive
        rcases hholds with ⟨hhomed, -⟩ | ⟨-, hsp⟩
        · exact absurd (hhome.trans hhomed) hfiber
        · exact absurd hcalm hsp

theorem fibers_conserved_exited : ∃ s, Reaches SchedStep (initialRuntime sampleCode none) s ∧
    s.phase 0 = .exited 0 ∧ ∀ F < s.numFibers, F ∈ s.freed ↔ s.fiber 0 ≠ some F := by
  obtain ⟨s, hrun, hexit, -⟩ := stolenRegion
  exact ⟨s, hrun, hexit, (fibers_conserved hrun).2.2.2 ⟨0, 0, hexit⟩⟩

omit [DecidableEq κ] [Monoid V] in
/-- The fibers in use are those that live closures were made on or run on. -/
theorem Runtime.Covered.card (hcov : s.Covered) (hi : SchedInv s) {n : ℕ}
    (hclosures : ∀ closures : Finset ClosureId, (∀ c ∈ closures, s.live c) → closures.card ≤ n) :
    s.numFibers ≤ s.freed.length + 2 * n := by
  classical
  let live := (Finset.range s.numClosures).filter fun c => s.live c
  have hcard := hclosures live fun c hc => (Finset.mem_filter.mp hc).2
  have hsub : (Finset.range s.numFibers).image some ⊆
      s.freed.toFinset.image some ∪ (live.image s.home ∪ live.image s.fiber) := by
    intro o ho
    obtain ⟨F, hF, rfl⟩ := Finset.mem_image.mp ho
    rcases hcov F (Finset.mem_range.mp hF) with hmem | ⟨c, hlive, hholds⟩
    · exact Finset.mem_union_left _ (Finset.mem_image_of_mem _ (List.mem_toFinset.mpr hmem))
    · have hc : c ∈ live :=
        Finset.mem_filter.mpr ⟨Finset.mem_range.mpr (hi.links.bound c hlive), hlive⟩
      apply Finset.mem_union_right
      rcases hholds with ⟨hhome, -⟩ | ⟨hfiber, -⟩
      · exact Finset.mem_union_left _ (hhome ▸ Finset.mem_image_of_mem _ hc)
      · exact Finset.mem_union_right _ (hfiber ▸ Finset.mem_image_of_mem _ hc)
  have hunion := (Finset.card_le_card hsub).trans
    ((Finset.card_union_le _ _).trans (Nat.add_le_add_left (Finset.card_union_le _ _) _))
  rw [Finset.card_image_of_injective _ (Option.some_injective _), Finset.card_range,
    Finset.card_image_of_injective _ (Option.some_injective _)] at hunion
  have hfreed := List.toFinset_card_le s.freed
  have hhome : (live.image s.home).card ≤ live.card := Finset.card_image_le
  have hfiber : (live.image s.fiber).card ≤ live.card := Finset.card_image_le
  omega

/-- The space of a region with `P` workers that hold closures: at most `P` times the frames of its
serial execution at its deepest, and fibers in proportion. The frames are those of the program,
without the one that `Cilk_do_reductions_for_return` pushes on a closure that is left. -/
theorem space_bounded {code : Code κ V} {views : Option (ViewMap κ V)}
    (hrun : Reaches SchedStep (initialRuntime code views) s) (workers : Finset WorkerId)
    (hworkers : ∀ w c, (s.phase w).closure = some c → w ∈ workers) :
    (∀ frames : Finset FrameId, (∀ f ∈ frames, s.HasFrame f) →
      frames.card ≤ workers.card * code.depth) ∧
    (∀ closures : Finset ClosureId, (∀ c ∈ closures, s.live c) →
      closures.card ≤ workers.card * (code.depth + 1)) ∧
    s.numFibers ≤ s.freed.length + 2 * (workers.card * (code.depth + 1)) := by
  obtain ⟨hi, he, x, hc, depth, hd⟩ := depths_reachable hrun
  have hclosures := fun closures (h : ∀ c ∈ closures, s.live c) =>
    hd.card_closures hi hc he closures h workers hworkers
  refine ⟨fun frames hframes => hd.card_frames hi hc he frames hframes workers hworkers,
    hclosures, ?_⟩
  exact (fibers_reachable hrun).2.2.1.card hi hclosures

theorem space_bounded_suspended : ∃ s, Reaches SchedStep (initialRuntime sampleCode none) s ∧
    s.numFibers = 2 ∧ (∀ frames : Finset FrameId, (∀ f ∈ frames, s.HasFrame f) →
      frames.card ≤ ({0} : Finset WorkerId).card * sampleCode.depth) := by
  obtain ⟨s, hrun, -, hfibers, h0, h1, hrest⟩ := suspendedRegion
  refine ⟨s, hrun, hfibers, (space_bounded hrun {0} fun w c hheld => ?_).1⟩
  rw [Finset.mem_singleton]
  by_contra hw
  have hstealing : s.phase w = .stealing := by
    by_cases hw1 : w = 1
    · exact hw1 ▸ h1
    · exact hrest w (Nat.two_le_iff w |>.mpr ⟨hw, hw1⟩)
  rw [hstealing] at hheld
  cases hheld

end Cheetah
