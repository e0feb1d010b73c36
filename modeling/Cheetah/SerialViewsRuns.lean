import Cheetah.SerialViewsSteps

/-! The serial semantics of reducers: no section loses, duplicates or reorders a view. -/
namespace Cheetah
open Function (update)

variable {κ V : Type} [DecidableEq κ] [Monoid V]
variable {s s' : Runtime κ V} {total : κ → V} {value : ClosureId → κ → V}

/-- The last frame of a closure has no updates left when it is done. -/
theorem FrameInv.words_last (hf : FrameInv s) {t : ClosureId} {f : FrameId} {below : List FrameId}
    (hlive : s.live t) (hstack : s.stack t = f :: below) (hown : s.frame t = some f)
    (hcode : s.code f = .done) : s.words (s.stack t) = 1 := by
  obtain ⟨above, habove⟩ := hf.bottom t f hlive hown
  have hnodup := hf.nodup t hlive
  rw [hstack] at hnodup habove
  obtain ⟨-, rfl⟩ := nodup_split (show ([] ++ f :: below).Nodup from hnodup) habove
  rw [hstack, words_cons, hcode]
  exact one_mul _

/-- No section loses, duplicates or reorders a view. -/
theorem ViewInv.step (hi : SchedInv s) (hv : ViewInv total s value) (hs : SchedStep s s')
    (hstay : ∀ w c, s'.phase w ≠ .exited c) : ∃ value', ViewInv total s' value' := by
  have hh' := (hi.step hs).hold
  obtain ⟨hl, hh, hf, ht, -⟩ := hi
  cases hs with
  | @update w t f below reducer u rest hw hstack hcode =>
    have hheld : (s.phase w).closure = some t := by rw [hw]; rfl
    have hlive := hh.live w t hheld
    obtain ⟨hbelow, hnew⟩ := hf.youngest hlive hstack
    refine ⟨value, hv.user hh' hw rfl rfl rfl rfl rfl rfl rfl rfl rfl rfl rfl
      (fun w' hw' => Function.update_of_ne hw' _ _) ?_ ?_⟩
    · intro c hc hct
      apply words_eq
      exact fun g hg => Function.update_of_ne (hf.other hlive hstack hc hct hg).1 _ _
    · have hkept : ∀ g ∈ below, update s.code f rest g = s.code g := by
        intro g hg
        simp [hbelow g hg]
      simp only [Function.update_self, hstack, words_cons, viewOf_updateView, hcode, Code.word]
      rw [words_eq hkept]
      simp only [mul_assoc]
  | @enterFrame w t f below callee rest hw hstack hcode =>
    exact ⟨value, hv.enter hf hh hw hstack (by rw [hcode]; rfl) hh'⟩
  | @detach w t f below child rest rsp hw hstack hcode =>
    exact ⟨value, hv.enter hf hh hw hstack (by rw [hcode]; rfl) hh'⟩
  | @leaveFrame w t f below hw hstack hcode =>
    exact ⟨value, hv.leave hh' hw hstack hcode rfl rfl rfl rfl rfl rfl rfl rfl rfl rfl rfl rfl rfl
      rfl⟩
  | @leaveFrameHelper w t f below parents parent hw hstack hcode =>
    exact ⟨value, hv.leave hh' hw hstack hcode rfl rfl rfl rfl rfl rfl rfl rfl rfl rfl rfl rfl rfl
      rfl⟩
  | @exceptionHandler w t f below hw hstack hcode hsynched hdetached hdeque =>
    have hheld : (s.phase w).closure = some t := by rw [hw]; rfl
    have hlive := hh.live w t hheld
    refine ⟨value, hv.merge hh' (q := .returning t) hheld rfl (by simp) rfl rfl rfl rfl rfl rfl
      (fun _ _ => rfl) (fun c => suspended_of_update (by simp)) (fun w' hw' => ⟨rfl, rfl, rfl, rfl⟩)
      (.inl ((hv.settled w).merged_running (.inl hw))) ?_ hlive rfl⟩
    have hold : ∀ c, s.live c → ∀ g ∈ s.stack c,
        update s.code s.numFrames .done g = s.code g := fun c hc g hg =>
      Function.update_of_ne (hf.bound c g hc hg).ne _ _
    intro c hc
    simp only [Runtime.pushFrame]
    by_cases hct : c = t
    · subst hct
      have hbelow : ∀ g ∈ below, update s.code s.numFrames .done g = s.code g := fun g hg =>
        hold c hc g (by simp [hstack, hg])
      simp only [Function.update_self, hstack, words_cons, hcode, Code.word]
      rw [words_eq hbelow]
    · rw [Function.update_of_ne hct, Function.update_of_ne hct]
      exact words_eq (hold c hc)
  | @syncFast w t f below rest hw hstack hcode hsynched =>
    have hword : ∀ g, (update s.code f rest g).word = (s.code g).word := by
      intro g
      by_cases hgf : g = f
      · simp [hgf, hcode, Code.word]
      · simp [hgf]
    exact ⟨value, hv.user hh' hw rfl rfl rfl rfl rfl rfl rfl rfl rfl rfl rfl (fun _ _ => rfl)
      (fun _ _ _ => words_congr fun g _ => hword g)
      (congrArg (viewOf (s.hyperTable w) * ·) (words_congr fun g _ => hword g))⟩
  | @resumeStolen w t f rsp hw hframe hsteal =>
    have hheld : (s.phase w).closure = some t := by rw [hw]; rfl
    have hmerged : s.lht w = none ∧ s.rht w = none := by
      simpa [hw, hsteal] using (hv.settled w).merged
    exact ⟨value, hv.merge hh' (q := .running t) hheld rfl (by simp) rfl rfl rfl rfl rfl rfl
      (fun _ _ => rfl) (fun _ h => h) (fun _ _ => ⟨rfl, rfl, rfl, rfl⟩) (.inl hmerged)
      (fun _ _ => rfl) (hh.live w t hheld) rfl⟩
  | @resumeSync w t hw hsteal =>
    have hheld : (s.phase w).closure = some t := by rw [hw]; rfl
    exact ⟨value, hv.merge hh' (q := .reducing t) hheld rfl (by simp) rfl rfl rfl rfl rfl rfl
      (fun _ _ => rfl) (fun _ h => h) (fun _ hw' => ⟨rfl, rfl, rfl, Function.update_of_ne hw' _ _⟩)
      (.inr (.inl rfl)) (fun _ _ => rfl) (hh.live w t hheld) rfl⟩
  | @doReductions w t f hw hframe hreduction =>
    have hheld : (s.phase w).closure = some t := by rw [hw]; rfl
    have hword : ∀ g, (update s.code f (s.code f).afterSync g).word = (s.code g).word := by
      intro g
      by_cases hgf : g = f
      · rw [hgf, Function.update_self, Code.word_afterSync]
      · rw [Function.update_of_ne hgf]
    exact ⟨value, hv.merge hh' (q := .running t) hheld rfl (by simp) rfl rfl rfl rfl rfl rfl
      (fun _ _ => rfl) (fun _ h => h) (fun _ hw' => ⟨Function.update_of_ne hw' _ _,
        Function.update_of_ne hw' _ _, Function.update_of_ne hw' _ _, rfl⟩)
      (.inl ⟨Function.update_self _ _ _, Function.update_self _ _ _⟩)
      (fun _ _ => words_congr fun g _ => hword g) (hh.live w t hheld)
      (congrArg (s.before value t * ·) (tables_doReductions w))⟩
  | @doReductionsForReturn w t f hw hframe hreduction =>
    have hheld : (s.phase w).closure = some t := by rw [hw]; rfl
    exact ⟨value, hv.merge hh' (q := .returning t) hheld rfl (by simp) rfl rfl rfl rfl rfl rfl
      (fun _ _ => rfl) (fun c => suspended_of_update (by simp)) (fun _ hw' =>
        ⟨Function.update_of_ne hw' _ _, Function.update_of_ne hw' _ _,
          Function.update_of_ne hw' _ _, rfl⟩)
      (.inl ⟨Function.update_self _ _ _, Function.update_self _ _ _⟩) (fun _ _ => rfl)
      (hh.live w t hheld) (congrArg (s.before value t * ·) (tables_doReductions w))⟩
  | @passSync w t f below rsp hw hstack hcode hunsynched hchildren =>
    have hheld : (s.phase w).closure = some t := by rw [hw]; rfl
    have hlive := hh.live w t hheld
    have hnone := ((hl.join_zero hlive).mp hchildren).1
    have hmerged := (hv.settled w).merged_running (.inl hw)
    refine ⟨value, hv.merge hh' (q := .reducing t) hheld rfl (by simp) rfl rfl rfl rfl rfl rfl
      (fun _ hct => Function.update_of_ne hct _ _) (fun _ h => h) (fun _ hw' =>
        ⟨rfl, Function.update_of_ne hw' _ _, rfl, rfl⟩) (.inr (.inl rfl)) (fun _ _ => rfl) hlive ?_⟩
    simp [Runtime.before, Runtime.tables, Runtime.passSync, Runtime.setupForSync,
      Runtime.deallocateFiber, hnone, hmerged]
  | @suspendAtSync w t f below rsp hw hstack hcode hunsynched hchildren =>
    exact ⟨value, hv.park hh hh' hw rfl rfl rfl rfl rfl rfl rfl rfl rfl rfl rfl rfl rfl rfl⟩
  | @stealStolen w victim cl f parents above below hw hvictim hdeque hstack hframe =>
    obtain ⟨rfl, hsplits⟩ := hf.splits_own hl hh hw hvictim hdeque hstack hframe
    exact ⟨_, hv.stealOwn hl hh ht.root hw hvictim hstack hsplits hh'⟩
  | @stealHelper w victim cl f parents above below hw hvictim hdeque hstack hframe hdetached =>
    have hpromoted := hf.promoteHelper hh hvictim hdeque hstack hdetached
    have hlinks : LinksInv (s.promoteHelper cl f) := { hl with }
    have hholds : HoldInv (s.promoteHelper cl f) := { hh with }
    obtain ⟨rfl, hsplits⟩ := hpromoted.splits_own hlinks hholds hw hvictim hdeque hstack
      (Function.update_self _ _ _)
    exact ⟨_, (hv.promoteHelper cl f).stealOwn hlinks hholds ht.root hw hvictim hstack hsplits hh'⟩
  | @stealCalled w victim cl f parents above below hw hvictim hdeque hstack hframe hdetached =>
    have hlive := hh.live victim cl (by rw [hvictim]; rfl)
    have hlt := hl.bound cl hlive
    have hvw : victim ≠ w := by
      rintro rfl
      rw [hw] at hvictim
      cases hvictim
    exact ⟨_, hv.stealCalled hl hh ht.root hw hvictim hstack
      (Splits.called above below hlt.ne (Nat.lt_succ_of_lt hlt).ne hvw hdeque) hh'⟩
  | @takeTables w t parent hw hparent htables =>
    have hroot : t ≠ 0 := by
      rintro rfl
      rw [ht.rootSpawn] at hparent
      cases hparent
    exact ⟨_, hv.takeTables hl hh hf hw hparent hroot hh'⟩
  | @returnChild w t parent hw hparent hleft hright hsteal =>
    exact ⟨value, hv.returnChild hl hh hf hw hparent hleft hright⟩
  | @resumeParent w t parent hw hparent hleft hright hsteal =>
    obtain ⟨hlive, hp, hmem, hne⟩ := hl.parent hh hf hw hparent
    obtain ⟨hlast, hnone⟩ := hl.last_child hp hmem hsteal.1
    have hret := hv.returnChild hl hh hf hw hparent hleft hright
    have hchildren : (s.returnChild w parent t).children parent = [] := by
      have herase : (s.children parent).erase t = [] := by rw [hlast, List.erase_cons_head]
      exact (Function.update_self _ _ _).trans herase
    exact ⟨value, hret.resumeParent (Function.update_self _ _ _)
      ((Function.update_of_ne hne _ _).trans hp) ((Function.update_of_ne hne _ _).trans hsteal.2)
      ((congrFun (returnChild_same w parent t).2.2.2.1 parent).trans hnone) hchildren hh'⟩
  | @setReturn w t f below parent hw hstack hcode hsynched hdetached hlast hstolen hparent =>
    have hheld : (s.phase w).closure = some t := by rw [hw]; rfl
    have hlive := hh.live w t hheld
    have hp := hl.caller t parent hlive hparent
    have hd := (hl.called parent t hp).mpr ⟨hlive, hparent⟩
    have hown := hf.own t f hlive (by rw [hstack]; simp) (.inl hstolen)
    obtain ⟨hchildren, hchildHt, -⟩ := hf.childless hlive hown hsynched
    have hne : parent ≠ t := by
      rintro rfl
      rw [hh.callee w parent hheld] at hd
      cases hd
    have hdone := hf.words_last hlive hstack hown hcode
    refine ⟨value, hv.uncall hh hh' hw hp hd hne hchildren hchildHt hdone rfl rfl rfl rfl rfl rfl rfl
      ?_ rfl (fun c hct => Function.update_of_ne hct _ _) rfl rfl rfl rfl⟩
    exact fun c hct hcp => (Function.update_of_ne hcp _ _).trans (Function.update_of_ne hct _ _)
  | @exitRoot w t f below hw hstack hcode hsynched hlast =>
    exact absurd (Function.update_self _ _ _) (hstay w t)

/-- The worker that leaves the region has the views of the whole computation. -/
theorem ViewInv.exits (hi : SchedInv s) (hv : ViewInv total s value) (hs : SchedStep s s')
    {w : WorkerId} {c : ClosureId} (hw' : s'.phase w = .exited c) :
    viewOf (s'.hyperTable 0) = total := by
  rcases hs.exits hw' with hw | ⟨hw, -, htable, f, below, hstack, hcode, hsynched, hlast⟩
  · exact absurd hw ((hv.settled w).inside c)
  · obtain ⟨hl, hh, hf, ht, -⟩ := hi
    have hheld : (s.phase w).closure = some c := by rw [hw]; rfl
    have hlive := hh.live w c hheld
    obtain rfl := ht.last f hlast
    obtain rfl : c = 0 := hf.disjoint c 0 0 hlive ht.root (by rw [hstack]; simp)
      (hf.frame_mem ht.root ht.rootFrame)
    obtain ⟨hchildren, hchildHt, -⟩ := hf.childless hlive ht.rootFrame hsynched
    have hroot := hv.value_eq 0 _ hlive (.held hheld)
    rw [before_leaf hchildren hchildHt, hf.words_last hlive hstack ht.rootFrame hcode,
      (hv.settled w).tables_running (.inl hw), one_mul, mul_one] at hroot
    rw [htable, ← hroot, hv.root]

theorem viewInv_initial (code : Code κ V) (table : Option (ViewMap κ V)) :
    ViewInv (viewOf table * code.word) (initialRuntime code table)
      (fun _ => viewOf table * code.word) := by
  constructor
  case root => rfl
  case value_eq =>
    intro c x hc h
    obtain rfl : c = 0 := of_decide_eq_true hc
    rw [(holdInv_initial code table).active (w := 0) rfl h, before_leaf rfl rfl]
    simp [Runtime.tables, Runtime.words, initialRuntime]
  case settled =>
    intro w
    constructor
    · intro hidle
      have hw : w ≠ 0 := by
        rintro rfl
        cases hidle
      simp [initialRuntime, hw]
    · exact .inl ⟨rfl, rfl⟩
    · intro c hc
      by_cases hw : w = 0 <;> simp [initialRuntime, hw] at hc

/-- Either the region still runs and the views are in serial order, or it has ended and worker 0 has
them all. -/
theorem viewInv_reachable {code : Code κ V} {table : Option (ViewMap κ V)}
    (hrun : Reaches SchedStep (initialRuntime code table) s) :
    (∃ value, ViewInv (viewOf table * code.word) s value) ∨
      (∃ w c, s.phase w = .exited c) ∧ viewOf (s.hyperTable 0) = viewOf table * code.word := by
  induction hrun with
  | refl => exact .inl ⟨_, viewInv_initial code table⟩
  | @tail s s' hrun hs ih =>
    have hi := schedInv_reachable hrun
    rcases ih with ⟨value, hv⟩ | ⟨⟨w, c, hw⟩, -⟩
    · by_cases hexited : ∃ w c, s'.phase w = .exited c
      · obtain ⟨w, c, hw⟩ := hexited
        exact .inr ⟨⟨w, c, hw⟩, hv.exits hi hs hw⟩
      · exact .inl (hv.step hi hs fun w c hw => hexited ⟨w, c, hw⟩)
    · exact (hi.ends hw hs).elim

/-- The serial semantics of reducers: in whatever order the sections run, when the region ends
worker 0 has for each reducer the updates in serial order. -/
theorem region_serial {code : Code κ V} {table : Option (ViewMap κ V)} {w : WorkerId}
    {c : ClosureId} (hrun : Reaches SchedStep (initialRuntime code table) s)
    (hexited : s.phase w = .exited c) : viewOf (s.hyperTable 0) = code.serial (viewOf table) := by
  rw [Code.serial_eq_word]
  rcases viewInv_reachable hrun with ⟨value, hv⟩ | ⟨-, hviews⟩
  · exact absurd hexited ((hv.settled w).inside c)
  · exact hviews

/-- The root is stolen and its continuation updates the reducer first; the views come out in serial
order. -/
theorem region_serial_stolenRegion : ∃ s, Reaches SchedStep (initialRuntime sampleCode none) s ∧
    s.phase 0 = .exited 0 ∧ viewOf (s.hyperTable 0) () = .of true * .of false := by
  obtain ⟨s, hrun, hexited, -⟩ := stolenRegion
  refine ⟨s, hrun, hexited, ?_⟩
  rw [region_serial hrun hexited]
  rfl

end Cheetah
