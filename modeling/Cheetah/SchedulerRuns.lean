import Mathlib.Algebra.FreeMonoid.Basic
import Cheetah.SchedulerTree

/-! What holds in every state that the scheduler can reach: the join counters, the closure tree and
the compiled fast paths. -/
namespace Cheetah
open Function (update)

variable {κ V : Type}

/-- The invariants of the scheduler, which carry each other over a step. -/
structure SchedInv (s : Runtime κ V) : Prop where
  links : LinksInv s
  hold : HoldInv s
  frames : FrameInv s
  tree : TreeInv s
  exited : ∀ w c, s.phase w = .exited c → ∀ d, s.live d → d = 0

theorem holdInv_initial (code : Code κ V) (table : Option (ViewMap κ V)) :
    HoldInv (initialRuntime code table) := by
  have hphase : ∀ w c, ((initialRuntime code table).phase w).closure = some c → w = 0 ∧ c = 0 := by
    intro w c hc
    by_cases hw : w = 0
    · subst hw
      exact ⟨rfl, (Option.some.inj hc).symm⟩
    · simp [initialRuntime, hw, Phase.closure] at hc
  constructor
  case live | callee | status =>
    intro w c hc
    obtain ⟨rfl, rfl⟩ := hphase w c hc
    rfl
  case unique =>
    intro w w' c hc hc'
    rw [(hphase w c hc).1, (hphase w' c hc').1]
  case waiting =>
    intro c hc hfree
    have hroot : c = 0 := of_decide_eq_true hc
    exact absurd (by rw [hroot]; rfl) (hfree 0)

variable {s s' : Runtime κ V}

theorem schedInv_initial (code : Code κ V) (table : Option (ViewMap κ V)) :
    SchedInv (initialRuntime code table) where
  links := linksInv_initial code table
  hold := holdInv_initial code table
  frames := frameInv_initial code table
  tree := treeInv_initial code table
  exited := fun _ _ _ _ hd => of_decide_eq_true hd

/-- Without children or a callee, the root closure is the only one left. By induction: the parent of
a closure is older. -/
theorem TreeInv.only_root (hl : LinksInv s) (ht : TreeInv s) (hchildren : s.children 0 = [])
    (hcallee : s.callee 0 = none) (c : ClosureId) (hc : s.live c) : c = 0 := by
  induction c using Nat.strong_induction_on with
  | _ c ih =>
    by_contra hne
    obtain ⟨p, hp⟩ : ∃ p, s.spawnParent c = some p ∨ s.callParent c = some p := by
      by_contra hnone
      refine hne (ht.parent c hc ?_ ?_) <;> rw [Option.eq_none_iff_forall_ne_some]
      · exact fun p hp => hnone ⟨p, .inl hp⟩
      · exact fun p hp => hnone ⟨p, .inr hp⟩
    have hlive : s.live p := hp.elim (hl.spawner c p hc) (hl.caller c p hc)
    obtain rfl := ih p (ht.older c p hc hp) hlive
    rcases hp with hp | hp
    · have hmem := (hl.child 0 c hlive).mpr ⟨hc, hp⟩
      rw [hchildren] at hmem
      cases hmem
    · have hsome := (hl.called 0 c hlive).mpr ⟨hc, hp⟩
      rw [hcallee] at hsome
      cases hsome

variable [DecidableEq κ] [Monoid V]

/-- Some worker that has not left the region makes the step. -/
theorem SchedStep.actor (hs : SchedStep s s') :
    ∃ w c, (s.phase w).closure = some c ∧ s.phase w ≠ .exited c := by
  cases hs with
  | stealStolen hw hvictim | stealHelper hw hvictim | stealCalled hw hvictim =>
    exact ⟨_, _, by rw [hvictim]; rfl, by simp [hvictim]⟩
  | update hw | enterFrame hw | detach _ hw | leaveFrame hw | leaveFrameHelper hw
  | exceptionHandler hw | syncFast hw | suspendAtSync _ hw | passSync _ hw | doReductions hw
  | doReductionsForReturn hw | resumeStolen _ hw | resumeSync hw | takeTables hw | returnChild hw
  | resumeParent hw | setReturn hw | exitRoot hw =>
    exact ⟨_, _, by rw [hw]; rfl, by simp [hw]⟩

/-- A worker leaves the region from the last frame, which is done and has passed its sync, and
leaves its table to worker 0. -/
theorem SchedStep.exits (hs : SchedStep s s') {w : WorkerId} {c : ClosureId}
    (hw' : s'.phase w = .exited c) : s.phase w = .exited c ∨ s.phase w = .running c ∧
      s'.live = s.live ∧ s'.hyperTable 0 = s.hyperTable w ∧ ∃ f below, s.stack c = f :: below ∧
        s.code f = .done ∧ s.unsynched f = false ∧ s.last f := by
  cases hs with
  | @exitRoot w₀ t f below hw hstack hcode hsynched hlast =>
    by_cases h : w = w₀
    · subst h
      have hself : Function.update s.phase w (.exited t) w = .exited c := hw'
      rw [Function.update_self] at hself
      cases hself
      have htable : (if w = 0 then s.hyperTable
          else Function.update (Function.update s.hyperTable 0 (s.hyperTable w)) w none) 0 =
            s.hyperTable w := by
        by_cases hw0 : w = 0
        · rw [if_pos hw0, hw0]
        · rw [if_neg hw0, Function.update_of_ne (Ne.symm hw0), Function.update_self]
      exact .inr ⟨hw, rfl, htable, f, below, hstack, hcode, hsynched, hlast⟩
    · exact .inl ((Function.update_of_ne h _ _).symm.trans hw')
  | update | enterFrame | detach | leaveFrame | leaveFrameHelper | syncFast => exact .inl hw'
  | @exceptionHandler w₀ | @suspendAtSync w₀ | @passSync w₀ | @doReductions w₀
  | @doReductionsForReturn w₀ | @resumeStolen w₀ | @resumeSync w₀ | @takeTables w₀
  | @returnChild w₀ | @setReturn w₀ =>
    by_cases h : w = w₀
    · subst h
      exact absurd ((Function.update_self _ _ _).symm.trans hw') (by simp)
    · exact .inl ((Function.update_of_ne h _ _).symm.trans hw')
  | @resumeParent w₀ =>
    by_cases h : w = w₀
    · subst h
      exact absurd ((Function.update_self _ _ _).symm.trans hw') (by simp)
    · exact .inl ((Function.update_of_ne h _ _).symm.trans
        ((Function.update_of_ne h _ _).symm.trans hw'))
  | @stealStolen w₀ victim | @stealHelper w₀ victim | @stealCalled w₀ victim =>
    by_cases h : w = w₀
    · subst h
      exact absurd ((Function.update_self _ _ _).symm.trans hw') (by simp)
    · by_cases hv : w = victim
      · subst hv
        exact absurd ((Function.update_self _ _ _).symm.trans
          ((Function.update_of_ne h _ _).symm.trans hw')) (by simp)
      · exact .inl ((Function.update_of_ne hv _ _).symm.trans
          ((Function.update_of_ne h _ _).symm.trans hw'))

/-- No section runs after the region has ended. The worker that takes a step holds a closure, which
could only be the root. -/
theorem SchedInv.ends (hi : SchedInv s) {w : WorkerId} {c : ClosureId} (hw : s.phase w = .exited c)
    (hs : SchedStep s s') : False := by
  obtain ⟨-, hh, -, -, hx⟩ := hi
  obtain ⟨w', c', hheld, hnot⟩ := hs.actor
  have hheldw : (s.phase w).closure = some c := by rw [hw]; rfl
  have hc := hx w c hw c (hh.live w c hheldw)
  have hc' := hx w c hw c' (hh.live w' c' hheld)
  have hsame := hh.unique w w' c hheldw (by rw [hheld, hc, hc'])
  subst hsame
  exact hnot (by rw [hw, hc, hc'])

theorem SchedInv.step (hi : SchedInv s) (hs : SchedStep s s') : SchedInv s' := by
  have hends := fun w c (hw : s.phase w = .exited c) => hi.ends hw hs
  obtain ⟨hl, hh, hf, ht, hx⟩ := hi
  refine ⟨hl.step hh hf hs, hh.step hl hf hs, hf.step hl hh hs, ht.step hl hh hf hs, ?_⟩
  intro w c hw'
  rcases hs.exits hw' with hw | ⟨hw, hlive, -, f, below, hstack, -, hsynched, hlast⟩
  · exact absurd hw (hends w c)
  · have hheld : (s.phase w).closure = some c := by rw [hw]; rfl
    have hlivec := hh.live w c hheld
    have hf0 := ht.last f hlast
    subst hf0
    have hc : c = 0 := hf.disjoint c 0 0 hlivec ht.root (by rw [hstack]; simp)
      (hf.frame_mem ht.root ht.rootFrame)
    have hnone := hf.childless ht.root ht.rootFrame hsynched
    rw [hlive]
    exact ht.only_root hl hnone.1 (hh.callee w 0 (hc ▸ hheld))

theorem schedInv_reachable {code : Code κ V} {table : Option (ViewMap κ V)}
    (hrun : Reaches SchedStep (initialRuntime code table) s) : SchedInv s :=
  hrun.preserves (fun _ _ => SchedInv.step) (schedInv_initial code table)

/-- What the compiled code may skip: a frame that is not unsynched has nothing to wait for at a
sync, and one that is not stolen has no closure when it is left; a frame stays unsynched while one
of its continuations is stolen. -/
theorem fastPaths_sound {code : Code κ V} {table : Option (ViewMap κ V)}
    (hrun : Reaches SchedStep (initialRuntime code table) s) :
    (∀ w t f below, s.phase w = .running t → s.stack t = f :: below →
      (s.code f).atSync = true → s.unsynched f = false → ∀ c, s.live c → s.frame c = some f →
        s.rightMostChild c = none ∧ (∀ k, s.live k → s.spawnParent k ≠ some c) ∧
          s.childHt c = none) ∧
    (∀ w t f below, s.phase w = .running t → s.stack t = f :: below → s.code f = .done →
      s.stolen f = false → ∀ c, s.live c → s.frame c ≠ some f) ∧
    ∀ f, s.steals f ≠ [] → s.unsynched f = true := by
  obtain ⟨hl, hh, hf, -⟩ := schedInv_reachable hrun
  refine ⟨?_, ?_, fun f => (hf.steals f).mpr⟩
  · intro w t f below hw hstack hsync hsynched c hc hframe
    have hnone := hf.childless hc hframe hsynched
    refine ⟨by rw [hl.rightMost c hc, hnone.1]; rfl, fun k hk hparent => ?_, hnone.2.1⟩
    have hmem := (hl.child c k hc).mpr ⟨hk, hparent⟩
    rw [hnone.1] at hmem
    cases hmem
  · intro w t f below hw hstack hcode hstolen c hc hframe
    have hlive := hh.live w t (by rw [hw]; rfl)
    have hmem : f ∈ s.stack t := by rw [hstack]; simp
    obtain rfl := hf.disjoint c t f hc hlive (hf.frame_mem hc hframe) hmem
    rcases hf.full c f hc hframe with h | h | ⟨w', hw'⟩
    · rw [hstolen] at h
      cases h
    · rw [hf.user hh hw hmem] at h
      cases h
    · have hsame := hh.unique w w' c (by rw [hw]; rfl) (by rw [hw']; rfl)
      subst hsame
      rw [hw] at hw'
      cases hw'

theorem fastPaths_sound_stolenRoot : ∃ s : Runtime Unit (FreeMonoid Bool),
    Reaches SchedStep (initialRuntime (.spawn .done (.sync .done)) none) s ∧
      s.steals 0 ≠ [] ∧ s.unsynched 0 = true := by
  have hspawned := (Relation.ReflTransGen.refl (r := SchedStep)
    (a := (initialRuntime (.spawn .done (.sync .done)) none : Runtime Unit (FreeMonoid Bool)))).tail
    (.resumeStolen (w := 0) (t := 0) (f := 0) 5 rfl rfl rfl)
    |>.tail (.detach (w := 0) (t := 0) (f := 0) 7 rfl rfl rfl)
  have hstolen := hspawned.tail (@SchedStep.stealStolen _ _ _ _ _ 1 0 0 0 _ [1] []
    rfl rfl rfl rfl rfl)
  exact ⟨_, hstolen, List.cons_ne_nil _ _, (fastPaths_sound hstolen).2.2 0 (List.cons_ne_nil _ _)⟩

/-- One spawn; the child and the continuation each update the reducer. -/
def sampleCode : Code Unit (FreeMonoid Bool) :=
  .spawn (.update () (.of true) .done) (.update () (.of false) (.sync .done))

/-- A region whose root is stolen, suspended at its sync and resumed by the child's worker. -/
theorem stolenRegion : ∃ s, Reaches SchedStep (initialRuntime sampleCode none) s ∧
    s.phase 0 = .exited 0 ∧ s.numClosures = 2 := by
  have hspawned := (Relation.ReflTransGen.refl (r := SchedStep)
    (a := initialRuntime sampleCode none)).tail
    (.resumeStolen (w := 0) (t := 0) (f := 0) 5 rfl rfl rfl)
    |>.tail (.detach (w := 0) (t := 0) (f := 0) 7 rfl rfl rfl)
  have hstolen := hspawned.tail (@SchedStep.stealStolen _ _ _ _ _ 1 0 0 0 _ [1] []
    rfl rfl rfl rfl rfl)
    |>.tail (.resumeStolen (w := 1) (t := 0) (f := 0) 9 rfl rfl rfl)
  have hsuspended := hstolen.tail (.update (w := 1) (t := 0) (f := 0) rfl rfl rfl)
    |>.tail (.suspendAtSync (w := 1) (t := 0) (f := 0) 9 rfl rfl rfl rfl (by decide))
  have hreturned := hsuspended.tail (.update (w := 0) (t := 1) (f := 1) rfl rfl rfl)
    |>.tail (.exceptionHandler (w := 0) (t := 1) (f := 1) rfl rfl rfl rfl rfl rfl)
    |>.tail (@SchedStep.resumeParent _ _ _ _ _ 0 1 0 rfl rfl rfl rfl ⟨rfl, rfl⟩)
  have hdone := hreturned.tail (.resumeSync (w := 0) (t := 0) rfl rfl)
    |>.tail (.doReductions (w := 0) (t := 0) (f := 0) rfl rfl rfl)
    |>.tail (.exitRoot (w := 0) (t := 0) (f := 0) rfl rfl rfl rfl rfl)
  exact ⟨_, hdone, rfl, rfl⟩

end Cheetah
