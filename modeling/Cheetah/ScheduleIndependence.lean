import Cheetah.PedigreeRuns

/-! Pedigrees and the order of steps, over all runs: they are those of the serial execution as long
as no spawn pushes its pedigree frame over one that something still points to. -/
namespace Cheetah
open Function (update)

/-- The pedigree frames that something points to. -/
inductive Referenced {κ V : Type} (s : Runtime κ V) (x : Extensions) : FrameAddr → Prop
  -- `w->extension` in user code
  | worker {w t a} (hw : s.phase w = .running t) (hx : x.workerExtension w = some a) :
      Referenced s x a
  -- `sf->extension`
  | frame {f a} (hf : s.HasFrame f) (hx : x.extension f = some a) : Referenced s x a
  | parent {a b} (ha : Referenced s x a) (hb : (x.mem a).pedigreeParent = some b) :
      Referenced s x b

/-- What every strand reads is what the serial execution of `code` reads there, and what a strand
that spawns will push overwrites nothing that is referenced. -/
structure ScheduleIndependent {κ V : Type} (table : ℕ → BitVec 64) (bumps : κ → Bool)
    (root : PedigreeFrame) (code : Code κ V) (sx : Runtime κ V × Extensions) : Prop where
  reads : ∀ w t f below, sx.1.phase w = .running t → sx.1.stack t = f :: below →
    ∃ a σ l later, sx.2.workerExtension w = some a ∧
      (code.events bumps).drop (sx.2.position f) = (sx.1.code f).events bumps ++ later ∧
      PedigreeState.run table { mem := fun _ => root }
        ((code.events bumps).take (sx.2.position f)) = some σ ∧
      Reads sx.2.mem a l ∧ Reads σ.mem σ.extension l ∧
      (getDprand table sx.2.mem a).2 = (getDprand table σ.mem σ.extension).2
  fresh : ∀ w t f below child rest, sx.1.phase w = .running t → sx.1.stack t = f :: below →
    sx.1.code f = .spawn child rest → ¬ Referenced sx.1 sx.2 (sx.2.pushed w)

/-- Where a strand is about to spawn, the extension stack of its worker stands above the pedigree
frame that it has. -/
def SpawnsAbove {κ V : Type} (sx : Runtime κ V × Extensions) : Prop :=
  ∀ w t f below child rest, sx.1.phase w = .running t → sx.1.stack t = f :: below →
    sx.1.code f = .spawn child rest → sx.2.AboveExtension w

/-- One step of the scheduler with the extension, and all states before it. -/
def LoggedStep {κ V : Type} [DecidableEq κ] [Monoid V] (table : ℕ → BitVec 64) (bumps : κ → Bool)
    (r r' : (Runtime κ V × Extensions) × List (Runtime κ V × Extensions)) : Prop :=
  PedigreeStep table bumps (fun _ _ => True) r.1 r'.1 ∧ r'.2 = r.1 :: r.2

section References

variable {κ V : Type} {s s' : Runtime κ V} {x x' : Extensions} {table : ℕ → BitVec 64}
  {bumps : κ → Bool} {root : PedigreeFrame} {events : List PedigreeEvent}

/-- A frame that has an extension has its own pedigree frame there. -/
def SavedInv (s : Runtime κ V) (x : Extensions) : Prop :=
  ∀ f a, x.extension f = some a → f < s.numFrames ∧ a = x.addr f

theorem SavedInv.keep (h : SavedInv s x) (hnum : s.numFrames ≤ s'.numFrames)
    (hext : x'.extension = x.extension) (haddr : x'.addr = x.addr) : SavedInv s' x' := by
  intro f a hf
  rw [hext] at hf
  obtain ⟨hlt, hsame⟩ := h f a hf
  exact ⟨hlt.trans_le hnum, haddr ▸ hsame⟩

/-- A new frame gets a pedigree frame, and the frame below it may save its own. -/
theorem SavedInv.push (h : SavedInv s x) {f : FrameId} {b : FrameAddr} (hf : f < s.numFrames)
    (hnum : s'.numFrames = s.numFrames + 1)
    (hext : ∀ g a, x'.extension g = some a → x.extension g = some a ∨ g = f ∧ a = x.addr f)
    (haddr : x'.addr = update x.addr s.numFrames b) : SavedInv s' x' := by
  intro g a hg
  have hold : g < s.numFrames ∧ a = x.addr g := by
    rcases hext g a hg with hg | ⟨rfl, rfl⟩
    · exact h g a hg
    · exact ⟨hf, rfl⟩
  refine ⟨hnum ▸ hold.1.trans (Nat.lt_succ_self _), ?_⟩
  rw [haddr, Function.update_of_ne hold.1.ne]
  exact hold.2

theorem Referenced.has_frame {a : FrameAddr} (h : Referenced s x a) (hv : SavedInv s x)
    (hst : StrandInv table bumps root events s x)
    (hok : (s.cactus x x.addr).Ok table bumps root events) : ∃ g, s.HasFrame g ∧ x.addr g = a := by
  induction h with
  | @worker w t a hw hx =>
    obtain ⟨f, below, hstack⟩ := hst.sched.frames.exists_running (hst.sched.hold.live w t
      (by rw [hw]; rfl))
    obtain ⟨hf, -⟩ := hst.pointers.current_running hst.sched hw hstack
    have hworker := hst.pointers.worker w t f below (.inl hw) hstack hf.1
    exact ⟨f, hf, Option.some.inj (hworker.symm.trans hx)⟩
  | @frame f a hf hx => exact ⟨f, hf, (hv f a hx).2.symm⟩
  | @parent a b ha hb ih =>
    obtain ⟨g, hg, rfl⟩ := ih
    exact hok.closed hg hb

/-- A strand whose extension stack does not stand above its own pedigree frame would push over one
that its pedigree leads to. -/
theorem StrandInv.pushed_referenced (h : StrandInv table bumps root events s x) {w : WorkerId}
    {t : ClosureId} {f : FrameId} {below : List FrameId} (hw : s.phase w = .running t)
    (hstack : s.stack t = f :: below) (hnot : ¬ x.AboveExtension w) :
    Referenced s x (x.pushed w) := by
  obtain ⟨hf, -⟩ := h.pointers.current_running h.sched hw hstack
  obtain ⟨F, pos, n, hpushed, hslot⟩ := h.pushed_below hw hstack hnot
  have hworker := h.pointers.worker w t f below (.inl hw) hstack hf.1
  rw [hpushed]
  exact (h.used_below (h.running hw) (fun _ _ ha hb => Referenced.parent ha hb) n hf
    (.worker hw hworker) hslot).1

end References

section Runs

variable {κ V : Type} [DecidableEq κ] [Monoid V] {s s' : Runtime κ V} {x x' : Extensions}
  {table : ℕ → BitVec 64} {bumps : κ → Bool} {allowed allowed' : Extensions → WorkerId → Prop}
  {root : PedigreeFrame} {code : Code κ V} {views : Option (ViewMap κ V)}
  {sx start : Runtime κ V × Extensions} {log : List (Runtime κ V × Extensions)}

/-- The step spawns only where the other condition allows it. -/
theorem ExtensionStep.imp {hs : SchedStep s s'} (h : ExtensionStep table bumps allowed hs x x')
    (hallowed : ∀ w t f below child rest, s.phase w = .running t → s.stack t = f :: below →
      s.code f = .spawn child rest → allowed x w → allowed' x w) :
    ExtensionStep table bumps allowed' hs x x' := by
  cases h
  case detach hw hstack hcode hallow =>
    exact .detach hw hstack hcode (hallowed _ _ _ _ _ _ hw hstack hcode hallow)
  all_goals constructor <;> assumption

theorem SavedInv.step (h : SavedInv s x) (hst : StrandInv table bumps root (code.events bumps) s x)
    (hs : SchedStep s s') (hext : ExtensionStep table bumps allowed hs x x') : SavedInv s' x' := by
  cases hext with
  | @enterFrame w t f below callee rest x hw hstack hcode =>
    obtain ⟨hf, -⟩ := hst.pointers.current_running hst.sched hw hstack
    exact h.push (hst.sched.has_lt hf) rfl (fun g a hg => .inl hg) rfl
  | @detach w t f below child rest rsp x hw hstack hcode hallowed =>
    obtain ⟨hf, -⟩ := hst.pointers.current_running hst.sched hw hstack
    have hworker := hst.pointers.worker w t f below (.inl hw) hstack hf.1
    refine h.push (hst.sched.has_lt hf) rfl (fun g a hg => ?_) rfl
    have hsaved : update x.extension f (x.workerExtension w) g = some a := hg
    by_cases hgf : g = f
    · rw [hgf, Function.update_self, hworker] at hsaved
      exact .inr ⟨hgf, (Option.some.inj hsaved).symm⟩
    · rw [Function.update_of_ne hgf] at hsaved
      exact .inl hsaved
  | @exceptionHandler w t f below x hw hstack hcode hsynched hdetached hdeque =>
    exact h.keep (Nat.le_succ _) rfl rfl
  | @resumeParent w t parent x hw hparent =>
    cases s
    exact h.keep (Nat.le_refl _) rfl rfl
  | @update w t f below reducer u rest x hw hstack hcode =>
    split_ifs
    · exact h.keep (Nat.le_refl _) rfl rfl
    · exact h.keep (Nat.le_refl _) rfl rfl
  | @doReductions w t f x hw hframe hreduction =>
    split
    · exact h.keep (Nat.le_refl _) rfl rfl
    · exact h.keep (Nat.le_refl _) rfl rfl
  | leaveFrame | leaveFrameHelper | syncFast | suspendAtSync | passSync | doReductionsForReturn
  | stealStolen | stealHelper | stealCalled | resumeStolen | resumeSync | takeTables | returnChild
  | setReturn | exitRoot => exact h.keep (Nat.le_refl _) rfl rfl

theorem savedInv_reachable (hroot : root.pedigreeParent = none)
    (hrun : Reaches (PedigreeStep table bumps Extensions.AboveExtension)
      (initialRuntime code views, initialExtensions root) (s, x)) : SavedInv s x := by
  generalize hsx : (s, x) = sx at hrun
  induction hrun generalizing s x with
  | refl =>
    obtain ⟨rfl, rfl⟩ := Prod.mk.inj hsx
    intro f a hf
    change (if f = 0 then some FrameAddr.root else none) = some a at hf
    split_ifs at hf with hzero
    · exact ⟨hzero ▸ Nat.one_pos, (Option.some.inj hf).symm⟩
  | tail hrun hstep ih =>
    subst hsx
    obtain ⟨hs, hext⟩ := hstep
    exact (ih rfl).step (strandInv_reachable hroot hrun) hs hext

/-- A run whose spawns all stand above is one of the restricted system. -/
theorem above_of_logged
    (hrun : Reaches (LoggedStep table bumps) (start, []) (sx, log))
    (habove : ∀ st ∈ log, SpawnsAbove st) :
    Reaches (PedigreeStep table bumps Extensions.AboveExtension) start sx := by
  generalize hr : (sx, log) = r at hrun
  induction hrun generalizing sx log with
  | refl =>
    obtain ⟨rfl, rfl⟩ := Prod.mk.inj hr
    exact .refl
  | @tail r r' hrun hstep ih =>
    subst hr
    obtain rfl : log = r.1 :: r.2 := hstep.2
    obtain ⟨hs, hext⟩ := hstep.1
    have hbefore := ih (fun st hst => habove st (List.mem_cons_of_mem _ hst)) rfl
    refine hbefore.tail ⟨hs, hext.imp fun w t f below child rest hw hstack hcode _ => ?_⟩
    exact habove r.1 List.mem_cons_self w t f below child rest hw hstack hcode

/-- What one state has to do with the order of the steps before it. -/
theorem scheduleIndependent_iff (hroot : root.pedigreeParent = none)
    (hrun : Reaches (PedigreeStep table bumps Extensions.AboveExtension)
      (initialRuntime code views, initialExtensions root) sx) :
    ScheduleIndependent table bumps root code sx ↔ SpawnsAbove sx := by
  obtain ⟨s, x⟩ := sx
  have h := strandInv_reachable hroot hrun
  constructor
  · intro hall w t f below child rest hw hstack hcode
    by_contra hnot
    exact hall.fresh w t f below child rest hw hstack hcode (h.pushed_referenced hw hstack hnot)
  · intro habove
    refine ⟨fun w t f below hw hstack => h.reads_serial hroot hw hstack, ?_⟩
    intro w t f below child rest hw hstack hcode href
    obtain ⟨g, hg, hsame⟩ := href.has_frame (savedInv_reachable hroot hrun) h (h.running hw)
    exact h.slots.pushed_free h.sched h.fibers h.pointers hw hstack
      (habove w t f below child rest hw hstack hcode) hg hsame

/-- In every run, with any steals, returns and syncs: all strands read the pedigrees and random
numbers of the serial execution, and no spawn pushes over a pedigree frame that is referenced, if
and only if wherever a strand spawned its worker's extension stack stood above its own frame. -/
theorem pedigrees_independent_iff (hroot : root.pedigreeParent = none)
    (hrun : Reaches (LoggedStep table bumps)
      ((initialRuntime code views, initialExtensions root), []) (sx, log)) :
    (∀ st ∈ sx :: log, ScheduleIndependent table bumps root code st) ↔
      ∀ st ∈ sx :: log, SpawnsAbove st := by
  generalize hr : (sx, log) = r at hrun
  induction hrun generalizing sx log with
  | refl =>
    obtain ⟨rfl, rfl⟩ := Prod.mk.inj hr
    simp only [List.forall_mem_singleton]
    exact scheduleIndependent_iff hroot .refl
  | @tail r r' hrun hstep ih =>
    subst hr
    obtain rfl : log = r.1 :: r.2 := hstep.2
    have hbefore := ih rfl
    simp only [List.forall_mem_cons (a := sx)]
    rw [hbefore]
    refine and_congr_left fun habove => ?_
    exact scheduleIndependent_iff hroot (above_of_logged (hrun.tail hstep) habove)

/-- Every run can be logged. -/
theorem exists_log (hrun : Reaches (PedigreeStep table bumps allowed) start sx) :
    ∃ log, Reaches (LoggedStep table bumps) (start, []) (sx, log) := by
  induction hrun with
  | refl => exact ⟨[], .refl⟩
  | tail _ hstep ih =>
    obtain ⟨log, hlog⟩ := ih
    obtain ⟨hs, hext⟩ := hstep
    exact ⟨_, hlog.tail ⟨⟨hs, hext.imp fun _ _ _ _ _ _ _ _ _ _ => trivial⟩, rfl⟩⟩

end Runs

/-- A thief continues the root, which has spawned. -/
theorem pedigrees_independent_iff_stolen :
    ∃ (s : Runtime Unit (FreeMonoid Bool)) (x : Extensions) (log : List _),
      s.phase 1 = .running 0 ∧ x.position 0 = 4 ∧
      ((∀ st ∈ (s, x) :: log,
        ScheduleIndependent (fun _ => 0) (fun _ => true) (rootFrame 1) sampleCode st) ↔
        ∀ st ∈ (s, x) :: log, SpawnsAbove st) := by
  obtain ⟨s, x, hrun, hw, -, hposition, -⟩ := stolenPedigrees
  obtain ⟨log, hlog⟩ := exists_log hrun
  exact ⟨s, x, log, hw, hposition, pedigrees_independent_iff rfl hlog⟩

/-- A pedigree that leads to itself has no end. -/
theorem not_chain_of_self {mem : PedigreeMem} {a : FrameAddr}
    (hself : (mem a).pedigreeParent = some a) (ranks : List (BitVec 64)) :
    ¬ PedigreeChain mem (some a) ranks := by
  induction ranks with
  | nil => exact fun h => by cases h
  | cons r ranks ih =>
    intro h
    cases h with
    | cons h =>
      rw [hself] at h
      exact ih h

/-- The spawn after the sync gives the new strand a pedigree that leads to itself. -/
theorem respawned_dependent : ∃ (s : Runtime Unit (FreeMonoid Bool)) (x : Extensions)
    (log : List _),
    Reaches (LoggedStep (dprngTable 1 fun _ => 0) fun _ => true)
      ((initialRuntime (respawningCode (.spawn .done (.sync .done))) none,
        initialExtensions (rootFrame 1)), []) ((s, x), log) ∧
    ¬ ∀ st ∈ (s, x) :: log, ScheduleIndependent (dprngTable 1 fun _ => 0) (fun _ => true)
      (rootFrame 1) (respawningCode (.spawn .done (.sync .done))) st := by
  have hallowed : ∀ (x : Extensions) w, x.AboveExtension w → True := fun _ _ _ => trivial
  obtain ⟨s, x, hrun, hat⟩ := respawningRegion (dprngTable 1 fun _ => 0) hallowed
    (.spawn .done (.sync .done))
  have hspawned := pedigree_tail hrun (.detach 7 hat.phase hat.stack hat.code)
    (.detach hat.phase hat.stack hat.code trivial)
  obtain ⟨log, hlog⟩ := exists_log hspawned
  refine ⟨_, _, log, hlog, fun hall => ?_⟩
  have hself : (extendSpawn (dprngTable 1 fun _ => 0) x.mem (.slot 0 0) (.slot 0 0)
      (.slot 0 0)).pedigreeParent = some (.slot 0 0) := by
    rw [extendSpawn, Function.update_self, Function.update_self]
    rfl
  have hstack : update s.stack 1 (s.numFrames :: s.stack 1) 1 = s.numFrames :: s.stack 1 :=
    Function.update_self _ _ _
  obtain ⟨a, σ, l, later, hworker, -, -, hreads, -⟩ :=
    (hall _ List.mem_cons_self).reads 2 1 s.numFrames (s.stack 1) hat.phase hstack
  obtain rfl : .slot 0 0 = a := by
    have hpushed := (detach_worker x (dprngTable 1 fun _ => 0) 2 1 s.numFrames
      ((Code.done : Code Unit (FreeMonoid Bool)).events fun _ => true).length).1
    rw [hat.pushed] at hpushed
    exact Option.some.inj (hpushed.symm.trans hworker)
  have hmem : extendSpawn (dprngTable 1 fun _ => 0) x.mem (x.current 2) (x.pushed 2) =
      extendSpawn (dprngTable 1 fun _ => 0) x.mem (.slot 0 0) (.slot 0 0) := by
    rw [hat.current, hat.pushed]
  exact not_chain_of_self hself l.parents (hmem ▸ hreads.parents)

end Cheetah
