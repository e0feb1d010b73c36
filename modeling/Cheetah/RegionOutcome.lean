import Cheetah.SchedulerProgress
import Cheetah.SerialViewsRuns

/-! Every region ends, whatever the workers steal, and always with the views of the serial execution
and with nothing left behind. -/
namespace Cheetah
open Function (update)

variable {κ V : Type} {s s' : Runtime κ V}

/-- What a region leaves: the root closure without children, and no reducer table outside of
`hyper_table` of worker 0. -/
structure Runtime.Drained (s : Runtime κ V) : Prop where
  closures : ∀ c, s.live c → c = 0
  deposited : s.childHt 0 = none ∧ s.rightHt 0 = none ∧ s.userHt 0 = none
  joined : s.joinCounter 0 = 0
  exited : ∃ w, s.phase w = .exited 0 ∧ ∀ w', w' ≠ w → s.phase w' = .stealing
  merged : ∀ w, s.lht w = none ∧ s.rht w = none
  others : ∀ w, w ≠ 0 → s.hyperTable w = none

variable [DecidableEq κ] [Monoid V] {code : Code κ V} {views : Option (ViewMap κ V)}

/-- The workers that do not leave the region hold nothing. -/
theorem SchedInv.others_steal (hi : SchedInv s) (hs : SchedStep s s') {w : WorkerId}
    {c : ClosureId} (hw' : s'.phase w = .exited c) (u : WorkerId) (hu : u ≠ w) :
    s.phase u = .stealing := by
  obtain ⟨hw, -, -, -, rfl⟩ := hi.exit_cases hs hw'
  have hheld : (s.phase w).closure = some 0 := by rw [hw]; rfl
  have hclosures : ∀ d, s.live d → d = 0 := (hi.step hs).exited w 0 (Function.update_self _ _ _)
  cases hphase : s.phase u with
  | stealing => rfl
  | scheduled d | running d | reducing d | returning d | exited d =>
    have hheldu : (s.phase u).closure = some d := by rw [hphase]; rfl
    obtain rfl := hclosures d (hi.hold.live u d hheldu)
    exact absurd (hi.hold.unique u w 0 hheldu hheld) hu

theorem ViewInv.drained (hi : SchedInv s) {total : κ → V} {value : ClosureId → κ → V}
    (hv : ViewInv total s value) (hs : SchedStep s s') {w : WorkerId} {c : ClosureId}
    (hw' : s'.phase w = .exited c) : s'.Drained := by
  have hstealing := hi.others_steal hs hw'
  obtain ⟨hw, hstack, hcode, hsynched, rfl⟩ := hi.exit_cases hs hw'
  have hheld : (s.phase w).closure = some 0 := by rw [hw]; rfl
  have hclosures : ∀ d, s.live d → d = 0 := (hi.step hs).exited w 0 (Function.update_self _ _ _)
  obtain ⟨hchildren, hchildHt, -⟩ := hi.frames.childless hi.tree.root hi.tree.rootFrame hsynched
  constructor
  case closures => exact hclosures
  case deposited =>
    exact ⟨hchildHt, (hi.tree.alone 0 hi.tree.root hi.tree.rootSpawn).2.2, hi.userHt_none hheld⟩
  case joined => exact (hi.links.join_zero hi.tree.root).mpr ⟨hchildren, hi.hold.callee w 0 hheld⟩
  case exited =>
    refine ⟨w, Function.update_self _ _ _, fun u hu => ?_⟩
    exact (Function.update_of_ne hu _ _).trans (hstealing u hu)
  case merged =>
    intro u
    by_cases hu : u = w
    · rw [hu]
      exact (hv.settled w).merged_running (.inl hw)
    · have hphase := hstealing u hu
      simpa [hphase] using (hv.settled u).merged
  case others =>
    intro u hu0
    show (if w = 0 then s.hyperTable
      else update (update s.hyperTable 0 (s.hyperTable w)) w none) u = none
    by_cases hu : u = w
    · rw [if_neg (hu ▸ hu0), hu, Function.update_self]
    · have hnone := (hv.settled u).idle (hstealing u hu)
      split
      · exact hnone
      · rw [Function.update_of_ne hu, Function.update_of_ne hu0, hnone]

theorem drained_reachable (hrun : Reaches SchedStep (initialRuntime code views) s) :
    (∃ w c, s.phase w = .exited c) → s.Drained := by
  cases hrun with
  | refl =>
    rintro ⟨w, c, hw⟩
    by_cases h : w = 0 <;> simp [initialRuntime, h] at hw
  | @tail s₀ _ hrun₀ hs =>
    rintro ⟨w, c, hw⟩
    have hi := schedInv_reachable hrun₀
    rcases viewInv_reachable hrun₀ with ⟨value, hv⟩ | ⟨⟨w₀, c₀, hw₀⟩, -⟩
    · exact hv.drained hi hs hw
    · exact (hi.ends hw₀ hs).elim

theorem views_reachable (hrun : Reaches SchedStep (initialRuntime code views) s)
    (hexited : ∃ w c, s.phase w = .exited c) :
    viewOf (s.hyperTable 0) = viewOf views * code.word := by
  obtain ⟨w, c, hw⟩ := hexited
  rcases viewInv_reachable hrun with ⟨value, hv⟩ | ⟨-, hviews⟩
  · exact absurd hw ((hv.settled w).inside c)
  · exact hviews

theorem stuck_reachable (hrun : Reaches SchedStep (initialRuntime code views) s) :
    ∃ s', Reaches SchedStep s s' ∧ ∀ s'', ¬ SchedStep s' s'' := by
  have hi := schedInv_reachable hrun
  obtain ⟨s', hrest, -, hstuck⟩ := Reaches.exists_stuck Runtime.credit
    (fun _ _ h hs => SchedInv.step h hs) (fun _ _ h hs => SchedInv.credit_step h hs) hi
  exact ⟨s', hrest, hstuck⟩

/-- Where no section can run any more, the region has ended. Some worker holds a closure, and it can
only have left the region. -/
theorem exited_of_stuck (hrun : Reaches SchedStep (initialRuntime code views) s)
    (hstuck : ∀ s', ¬ SchedStep s s') : ∃ w c, s.phase w = .exited c := by
  obtain ⟨hi, he, x, hc⟩ := cactus_reachable hrun
  obtain ⟨w, c, hheld⟩ := hi.someone_holds
  refine ⟨w, c, ?_⟩
  by_contra hne
  obtain ⟨s', hs, -⟩ := hi.holder_acts he hc hheld hne
  exact hstuck s' hs

/-- The runs that have not come to an end can be continued to one, and all of them end alike: the
region is drained and worker 0 has the views of the serial execution. -/
theorem region_completes (hrun : Reaches SchedStep (initialRuntime code views) s) :
    (∃ s', Reaches SchedStep s s' ∧ ∀ s'', ¬ SchedStep s' s'') ∧
      ((∀ s', ¬ SchedStep s s') →
        s.Drained ∧ viewOf (s.hyperTable 0) = code.serial (viewOf views)) := by
  refine ⟨stuck_reachable hrun, fun hstuck => ?_⟩
  have hexited := exited_of_stuck hrun hstuck
  refine ⟨drained_reachable hrun hexited, ?_⟩
  rw [Code.serial_eq_word]
  exact views_reachable hrun hexited

/-- From the state in which the root waits at its sync, every way on ends with the views in serial
order. -/
theorem region_completes_suspended : ∃ s s', Reaches SchedStep (initialRuntime sampleCode none) s ∧
    s.status 0 = .suspended ∧ Reaches SchedStep s s' ∧ s'.Drained ∧
      viewOf (s'.hyperTable 0) () = .of true * .of false := by
  obtain ⟨s, hrun, hsuspended, -⟩ := suspendedRegion
  obtain ⟨s', hrest, hstuck⟩ := (region_completes hrun).1
  obtain ⟨hdrained, hviews⟩ := (region_completes (hrun.trans hrest)).2 hstuck
  refine ⟨s, s', hrun, hsuspended, hrest, hdrained, ?_⟩
  rw [hviews]
  rfl

end Cheetah
