import Cheetah.SchedulerLinks

/-! Which worker holds which closure, which frames belong to it, and what the frames' flags say. -/
namespace Cheetah
open Function (update)

section Spawners

variable {d d' : FrameId → Bool} {l above below : List FrameId} {f : FrameId}

/-- The frames right below a detached frame, the oldest first: what the deque holds while the
frames `l` are on the stack. -/
def spawners (d : FrameId → Bool) : List FrameId → List FrameId
  | f :: g :: rest => spawners d (g :: rest) ++ if d f then [g] else []
  | _ => []

theorem spawners_cons {g : FrameId} (rest : List FrameId) :
    spawners d (f :: g :: rest) = spawners d (g :: rest) ++ if d f then [g] else [] := rfl

theorem spawners_congr (h : ∀ f ∈ l, d f = d' f) : spawners d l = spawners d' l := by
  induction l with
  | nil => rfl
  | cons f l ih =>
    cases l with
    | nil => rfl
    | cons g rest =>
      rw [spawners_cons, spawners_cons, h f (by simp), ih fun f hf => h f (by simp [hf])]

theorem spawners_tail_nil (h : spawners d (f :: l) = []) : spawners d l = [] := by
  cases l with
  | nil => rfl
  | cons g rest =>
    rw [spawners_cons, List.append_eq_nil_iff] at h
    exact h.1

theorem eq_nil_of_spawners_nil (h : spawners d (f :: l) = []) (hf : d f = true) : l = [] := by
  cases l with
  | nil => rfl
  | cons g rest =>
    rw [spawners_cons, hf] at h
    simp at h

/-- The oldest frame in the deque has a detached frame right above it, and no other below. -/
theorem spawners_oldest {parents : List FrameId} (h : spawners d l = f :: parents) :
    ∃ above helper below, l = above ++ helper :: f :: below ∧ d helper = true ∧
      spawners d (above ++ [helper]) = parents ∧ spawners d (f :: below) = [] := by
  induction l generalizing parents with
  | nil => cases h
  | cons g l ih =>
    cases l with
    | nil => cases h
    | cons g' rest =>
      rw [spawners_cons] at h
      cases hrest : spawners d (g' :: rest) with
      | nil =>
        rw [hrest] at h
        by_cases hg : d g
        · obtain ⟨rfl, rfl⟩ : g' = f ∧ [] = parents := by simpa [hg] using h
          exact ⟨[], g, rest, rfl, hg, rfl, hrest⟩
        · simp [hg] at h
      | cons f' parents' =>
        rw [hrest] at h
        obtain ⟨rfl, rfl⟩ : f' = f ∧ parents' ++ (if d g then [g'] else []) = parents := by
          simpa using h
        obtain ⟨above, helper, below, hl, hd, hs, hb⟩ := ih hrest
        refine ⟨g :: above, helper, below, by rw [hl]; rfl, hd, ?_, hb⟩
        cases above with
        | nil =>
          obtain ⟨rfl, -⟩ : g' = helper ∧ rest = f' :: below := by simpa using hl
          rw [← hs]
          rfl
        | cons a above =>
          obtain ⟨rfl, -⟩ : g' = a ∧ rest = above ++ helper :: f' :: below := by simpa using hl
          rw [← hs]
          rfl

theorem nodup_split {l₁ l₂ l₃ l₄ : List FrameId} (hnodup : (l₁ ++ f :: l₂).Nodup)
    (h : l₁ ++ f :: l₂ = l₃ ++ f :: l₄) : l₁ = l₃ ∧ l₂ = l₄ := by
  have hout := List.nodup_middle.mp hnodup |> List.nodup_cons.mp
  simp only [List.mem_append, not_or] at hout
  have hsame := (List.append_cons_inj_of_notMem hout.1.1 hout.1.2).mp h
  exact ⟨hsame.1, hsame.2.2⟩

end Spawners

variable {κ V : Type}

def Phase.status : Phase → ClosureStatus
  | .returning _ => .returning
  | _ => .running

/-- Every live closure is held by exactly one worker, or it is suspended with something to wait
for. -/
structure HoldInv (s : Runtime κ V) : Prop where
  live : ∀ w c, (s.phase w).closure = some c → s.live c
  callee : ∀ w c, (s.phase w).closure = some c → s.callee c = none
  unique : ∀ w w' c, (s.phase w).closure = some c → (s.phase w').closure = some c → w = w'
  status : ∀ w c, (s.phase w).closure = some c → s.status c = (s.phase w).status
  waiting : ∀ c, s.live c → (∀ w, (s.phase w).closure ≠ some c) →
    s.status c = .suspended ∧ s.joinCounter c ≠ 0

/-- The frames of the live closures. -/
structure FrameInv (s : Runtime κ V) : Prop where
  bound : ∀ c f, s.live c → f ∈ s.stack c → f < s.numFrames
  nodup : ∀ c, s.live c → (s.stack c).Nodup
  disjoint : ∀ c c' f, s.live c → s.live c' → f ∈ s.stack c → f ∈ s.stack c' → c = c'
  bottom : ∀ c f, s.live c → s.frame c = some f → ∃ above, s.stack c = above ++ [f]
  helper : ∀ c, s.live c → s.frame c = none →
    ∃ above f, s.stack c = above ++ [f] ∧ s.detached f
  own : ∀ c f, s.live c → f ∈ s.stack c → (s.stolen f ∨ s.unsynched f ∨ s.reduction f) →
    s.frame c = some f
  full : ∀ c f, s.live c → s.frame c = some f →
    s.stolen f ∨ s.reduction f ∨ ∃ w, s.phase w = .exited c
  deque : ∀ w c, (s.phase w).closure = some c → s.deque w = spawners s.detached (s.stack c)
  waiting : ∀ c, s.live c → s.status c = .suspended → spawners s.detached (s.stack c) = []
  single : ∀ w c, s.phase w = .scheduled c ∨ s.phase w = .reducing c ∨ s.phase w = .returning c →
    ∃ f, s.frame c = some f ∧ s.stack c = [f]
  parked : ∀ c, s.live c → s.status c = .suspended → s.callee c = none →
    ∃ f, s.frame c = some f ∧ s.stack c = [f]
  reducing : ∀ c f, s.live c → s.frame c = some f → s.reduction f →
    ∃ w, s.phase w = .scheduled c ∨ s.phase w = .reducing c ∨ s.phase w = .returning c
  fresh : ∀ w c f, s.phase w = .scheduled c → s.provablyGoodSteal w = false →
    s.frame c = some f → s.reduction f = false
  returning : ∀ w c f, s.phase w = .returning c → s.frame c = some f → s.reduction f
  done : ∀ f, s.reduction f → s.code f = .done ∧ s.unsynched f = false
  steals : ∀ f, s.unsynched f ↔ s.steals f ≠ []
  synched : ∀ c, s.live c → s.children c ≠ [] ∨ s.childHt c ≠ none ∨ s.promoted c ≠ [] →
    ∃ f, s.frame c = some f ∧ s.unsynched f

section Steps

variable {s s' : Runtime κ V}

theorem FrameInv.exists_running (hf : FrameInv s) {t : ClosureId} (hlive : s.live t) :
    ∃ f below, s.stack t = f :: below := by
  have hne : s.stack t ≠ [] := by
    cases hframe : s.frame t with
    | some f =>
      obtain ⟨above, hstack⟩ := hf.bottom t f hlive hframe
      simp [hstack]
    | none =>
      obtain ⟨above, f, hstack, -⟩ := hf.helper t hlive hframe
      simp [hstack]
  exact List.exists_cons_of_ne_nil hne

/-- A frame that is not unsynched belongs to no closure with children or their tables. -/
theorem FrameInv.childless (hf : FrameInv s) {c : ClosureId} {f : FrameId} (hc : s.live c)
    (hframe : s.frame c = some f) (hsynched : s.unsynched f = false) :
    s.children c = [] ∧ s.childHt c = none ∧ s.promoted c = [] := by
  have hsync := hf.synched c hc
  by_contra hne
  obtain ⟨g, hg, hunsynched⟩ := hsync (by grind)
  grind

theorem FrameInv.returning_childless (hh : HoldInv s) (hf : FrameInv s) {w : WorkerId}
    {t : ClosureId} (hw : s.phase w = .returning t) :
    s.children t = [] ∧ s.childHt t = none ∧ s.promoted t = [] := by
  have hlive := hh.live w t (by rw [hw]; rfl)
  obtain ⟨f, hframe, -⟩ := hf.single w t (.inr (.inr hw))
  exact hf.childless hlive hframe (hf.done f (hf.returning w t f hw hframe)).2

/-- A closure that is returned has a parent, which still links it and is another closure. -/
theorem LinksInv.parent (hl : LinksInv s) (hh : HoldInv s) (hf : FrameInv s) {w : WorkerId}
    {t parent : ClosureId} (hw : s.phase w = .returning t)
    (hparent : s.spawnParent t = some parent) :
    s.live t ∧ s.live parent ∧ t ∈ s.children parent ∧ parent ≠ t := by
  have hlive := hh.live w t (by rw [hw]; rfl)
  have hp := hl.spawner t parent hlive hparent
  have hmem := (hl.child parent t hp).mpr ⟨hlive, hparent⟩
  refine ⟨hlive, hp, hmem, ?_⟩
  rintro rfl
  rw [(hf.returning_childless hh hw).1] at hmem
  cases hmem

/-- The last child of a suspended closure: the closure has no callee. -/
theorem LinksInv.last_child (hl : LinksInv s) {parent t : ClosureId} (hp : s.live parent)
    (hmem : t ∈ s.children parent) (hjoin : s.joinCounter parent = 1) :
    s.children parent = [t] ∧ s.callee parent = none := by
  rw [hl.joinCounter parent hp] at hjoin
  have hpos := List.length_pos_of_mem hmem
  have hlen : (s.children parent).length = 1 := by
    split at hjoin <;> omega
  obtain ⟨k, hk⟩ := List.length_eq_one_iff.mp hlen
  rw [hk, List.mem_singleton] at hmem
  refine ⟨by rw [hk, hmem], ?_⟩
  rw [← Option.not_isSome_iff_eq_none]
  intro hsome
  simp [hsome, hlen] at hjoin

theorem LinksInv.stealOwn (hl : LinksInv s) {cl : ClosureId} (hcl : s.live cl)
    (w victim : WorkerId) (f : FrameId) (above below : List FrameId) :
    LinksInv (s.stealOwn w victim cl f above below) := by
  have hne := hl.ne_fresh hcl
  exact (hl.create none).adopt (p := cl) (k := s.numClosures)
    (by simp [Runtime.createClosure, hne, hcl]) (by simp [Runtime.createClosure]) (Ne.symm hne)
    (by simp [Runtime.createClosure]) (by simp [Runtime.createClosure])
    (by simp [Runtime.createClosure]) rfl rfl rfl rfl rfl rfl rfl rfl rfl rfl

theorem LinksInv.addCallee (hl : LinksInv s) {cl : ClosureId} (hcl : s.live cl)
    (hcallee : s.callee cl = none) (f : FrameId) (below : List FrameId) :
    LinksInv (s.addCallee cl s.numClosures f below) := by
  have hne := hl.ne_fresh hcl
  exact (hl.create (some f)).call (p := cl) (k := s.numClosures)
    (by simp [Runtime.createClosure, hne, hcl]) (by simp [Runtime.createClosure])
    (by simp [Runtime.createClosure]) (by simp [Runtime.createClosure])
    (by simp [Runtime.createClosure, hne, hcallee]) rfl rfl rfl rfl rfl rfl rfl rfl rfl rfl

theorem LinksInv.stealCalled (hl : LinksInv s) {cl : ClosureId} (hcl : s.live cl)
    (hcallee : s.callee cl = none) (w victim : WorkerId) (f : FrameId)
    (above below : List FrameId) : LinksInv (s.stealCalled w victim cl f above below) := by
  have hcalled := hl.addCallee hcl hcallee f below
  exact (hcalled.create none).adopt (p := s.numClosures) (k := s.numClosures + 1)
    (by simp [Runtime.createClosure, Runtime.addCallee])
    (by simp [Runtime.createClosure, Runtime.addCallee]) (by simp)
    (by simp [Runtime.createClosure, Runtime.addCallee])
    (by simp [Runtime.createClosure, Runtime.addCallee])
    (by simp [Runtime.createClosure, Runtime.addCallee]) rfl rfl rfl rfl rfl rfl rfl rfl rfl rfl

theorem LinksInv.returnChild (hl : LinksInv s) (hh : HoldInv s) (hf : FrameInv s) {w : WorkerId}
    {t parent : ClosureId} (hw : s.phase w = .returning t)
    (hparent : s.spawnParent t = some parent) : LinksInv (s.returnChild w parent t) := by
  obtain ⟨hlive, hp, hmem, hne⟩ := hl.parent hh hf hw hparent
  exact hl.remove hp hmem (hf.returning_childless hh hw).1 (hh.callee w t (by rw [hw]; rfl))
    rfl rfl rfl rfl rfl rfl rfl rfl rfl rfl

theorem HoldInv.keep (hh : HoldInv s) {w : WorkerId} {t : ClosureId} {q : Phase}
    (hw : (s.phase w).closure = some t) (hq : q.closure = some t)
    (hlive : s'.live = s.live) (hcallee : s'.callee = s.callee)
    (hjoin : s'.joinCounter = s.joinCounter) (hphase : s'.phase = update s.phase w q)
    (hstatus : s'.status = update s.status t q.status) : HoldInv s' := by
  obtain ⟨live, callee, unique, status, waiting⟩ := hh
  constructor
  all_goals
    simp only [hlive, hcallee, hjoin, hphase, hstatus, Function.update_apply]
    grind

theorem HoldInv.move (hh : HoldInv s) {w : WorkerId} {t : ClosureId} {p q : Phase}
    (hw : s.phase w = p) (hp : p.closure = some t) (hq : q.closure = some t)
    (hqs : q.status = p.status) (hlive : s'.live = s.live) (hcallee : s'.callee = s.callee)
    (hjoin : s'.joinCounter = s.joinCounter) (hphase : s'.phase = update s.phase w q)
    (hstatus : s'.status = s.status) : HoldInv s' := by
  obtain ⟨live, callee, unique, status, waiting⟩ := hh
  constructor
  all_goals
    simp only [hlive, hcallee, hjoin, hphase, hstatus, Function.update_apply]
    grind

/-- A worker suspends the closure it holds. -/
theorem HoldInv.park (hh : HoldInv s) {w : WorkerId} {t : ClosureId}
    (hw : (s.phase w).closure = some t) (hwait : s.joinCounter t ≠ 0)
    (hlive : s'.live = s.live) (hcallee : s'.callee = s.callee)
    (hjoin : s'.joinCounter = s.joinCounter) (hphase : s'.phase = update s.phase w .stealing)
    (hstatus : s'.status = update s.status t .suspended) : HoldInv s' := by
  obtain ⟨live, callee, unique, status, waiting⟩ := hh
  constructor
  all_goals
    simp only [hlive, hcallee, hjoin, hphase, hstatus, Function.update_apply]
    grind [Phase.closure]

/-- A worker leaves the child it returns; the parent waits for others or is not waiting. -/
theorem HoldInv.leave (hh : HoldInv s) {w : WorkerId} {t p : ClosureId}
    (hw : (s.phase w).closure = some t) (hp : s.live p) (hne : p ≠ t)
    (hwait : ¬ (s.joinCounter p = 1 ∧ s.status p = .suspended))
    (hlive : s'.live = update s.live t false) (hcallee : s'.callee = s.callee)
    (hjoin : s'.joinCounter = update s.joinCounter p (s.joinCounter p - 1))
    (hphase : s'.phase = update s.phase w .stealing)
    (hstatus : s'.status = update s.status t .postInvalid) : HoldInv s' := by
  obtain ⟨live, callee, unique, status, waiting⟩ := hh
  constructor
  all_goals
    simp only [hlive, hcallee, hjoin, hphase, hstatus, Function.update_apply]
    grind [Phase.closure]

/-- A worker leaves the closure it returns for the parent, which nobody held. -/
theorem HoldInv.resume (hh : HoldInv s) {w : WorkerId} {t p : ClosureId} {q : Phase}
    (hw : (s.phase w).closure = some t) (hp : s.live p) (hne : p ≠ t)
    (hsuspended : s.status p = .suspended) (hq : q.closure = some p) (hqs : q.status = .running)
    (hlive : s'.live = update s.live t false) (hnone : s'.callee p = none)
    (hcallee : ∀ c, c ≠ p → s'.callee c = s.callee c)
    (hjoin : ∀ c, c ≠ p → s'.joinCounter c = s.joinCounter c)
    (hphase : s'.phase = update s.phase w q)
    (hstatus : s'.status = update (update s.status t .postInvalid) p .running) : HoldInv s' := by
  have hfree : ∀ w', (s.phase w').closure ≠ some p := by
    intro w' hw'
    have hst := hh.status w' p hw'
    rw [hsuspended] at hst
    cases hph : s.phase w' <;> simp [hph, Phase.status] at hst
  obtain ⟨live, callee, unique, status, waiting⟩ := hh
  constructor
  all_goals
    simp only [hlive, hphase, hstatus, Function.update_apply]
    grind [Phase.closure]

/-- After a steal: the victim goes on with a new child, the thief has a closure of its own. -/
theorem HoldInv.stealOwn (hh : HoldInv s) (hl : LinksInv s) {w victim : WorkerId} {cl : ClosureId}
    (hw : s.phase w = .stealing) (hvictim : s.phase victim = .running cl)
    (f : FrameId) (above below : List FrameId) :
    HoldInv (s.stealOwn w victim cl f above below) := by
  have hcl := hh.live victim cl (by rw [hvictim]; rfl)
  have hne := hl.ne_fresh hcl
  have hfresh := hl.fresh
  have hpos := hl.join_nonneg hcl
  have hbound := hl.bound
  obtain ⟨live, callee, unique, status, waiting⟩ := hh
  constructor
  all_goals
    simp only [Runtime.stealOwn, Runtime.promoteChild, Runtime.finishSteal,
      Runtime.setupForExecution, Runtime.addChild, Runtime.createClosure, Function.update_apply]
    grind [Phase.closure, Phase.status]

theorem HoldInv.stealCalled (hh : HoldInv s) (hl : LinksInv s) {w victim : WorkerId}
    {cl : ClosureId}
    (hw : s.phase w = .stealing) (hvictim : s.phase victim = .running cl)
    (f : FrameId) (above below : List FrameId) :
    HoldInv (s.stealCalled w victim cl f above below) := by
  have hcl := hh.live victim cl (by rw [hvictim]; rfl)
  have hne := hl.ne_fresh hcl
  have hfresh := hl.fresh
  have hpos := hl.join_nonneg hcl
  have hbound := hl.bound
  obtain ⟨live, callee, unique, status, waiting⟩ := hh
  constructor
  all_goals
    simp only [Runtime.stealCalled, Runtime.addCallee, Runtime.promoteChild, Runtime.finishSteal,
      Runtime.setupForExecution, Runtime.addChild, Runtime.createClosure, Function.update_apply]
    grind [Phase.closure, Phase.status]

variable [DecidableEq κ] [Monoid V]

theorem LinksInv.step (hl : LinksInv s) (hh : HoldInv s) (hf : FrameInv s)
    (hs : SchedStep s s') : LinksInv s' := by
  cases hs with
  | stealStolen hw hvictim hdeque hstack hframe =>
    exact hl.stealOwn (hh.live _ _ (by rw [hvictim]; rfl)) _ _ _ _ _
  | @stealHelper w victim cl f parents above below hw hvictim hdeque hstack hframe hdetached =>
    have hpromoted : LinksInv (s.promoteHelper cl f) := { hl with }
    exact hpromoted.stealOwn (hh.live _ _ (by rw [hvictim]; rfl)) _ _ _ _ _
  | stealCalled hw hvictim hdeque hstack hframe hdetached =>
    exact hl.stealCalled (hh.live _ _ (by rw [hvictim]; rfl)) (hh.callee _ _ (by rw [hvictim]; rfl))
      _ _ _ _ _
  | returnChild hw hparent hleft hright hsteal => exact hl.returnChild hh hf hw hparent
  | resumeParent hw hparent hleft hright hsteal =>
    exact { hl.returnChild hh hf hw hparent with }
  | @setReturn w t f below parent hw hstack hcode hsynched hdetached hlast hstolen hparent =>
    have hlive := hh.live w t (by rw [hw]; rfl)
    have hp := hl.caller t parent hlive hparent
    have hown := hf.own t f hlive (by rw [hstack]; simp) (.inl hstolen)
    exact hl.uncall hp ((hl.called parent t hp).mpr ⟨hlive, hparent⟩)
      (hf.childless hlive hown hsynched).1 (hh.callee w t (by rw [hw]; rfl))
      rfl rfl rfl rfl rfl rfl rfl rfl rfl rfl
  | _ => exact { hl with }

theorem HoldInv.step (hh : HoldInv s) (hl : LinksInv s) (hf : FrameInv s)
    (hs : SchedStep s s') : HoldInv s' := by
  cases hs with
  | exceptionHandler hw hstack hcode hsynched hdetached hdeque =>
    exact hh.keep (q := .returning _) (by rw [hw]; rfl) rfl rfl rfl rfl rfl rfl
  | @suspendAtSync w t f below rsp hw hstack hcode hunsynched hchildren =>
    exact hh.park (by rw [hw]; rfl) hchildren rfl rfl rfl rfl rfl
  | passSync rsp hw hstack hcode hunsynched hchildren =>
    exact hh.move (q := .reducing _) hw rfl rfl rfl rfl rfl rfl rfl rfl
  | doReductions hw hframe hreduction =>
    exact hh.move (q := .running _) hw rfl rfl rfl rfl rfl rfl rfl rfl
  | doReductionsForReturn hw hframe hreduction =>
    exact hh.keep (q := .returning _) (by rw [hw]; rfl) rfl rfl rfl rfl rfl rfl
  | stealStolen hw hvictim hdeque hstack hframe => exact hh.stealOwn hl hw hvictim _ _ _
  | @stealHelper w victim cl f parents above below hw hvictim hdeque hstack hframe hdetached =>
    have hpromoted : HoldInv (s.promoteHelper cl f) := { hh with }
    exact hpromoted.stealOwn { hl with } hw hvictim _ _ _
  | stealCalled hw hvictim hdeque hstack hframe hdetached =>
    exact hh.stealCalled hl hw hvictim _ _ _
  | resumeStolen rsp hw hframe hsteal =>
    exact hh.move (q := .running _) hw rfl rfl rfl rfl rfl rfl rfl rfl
  | resumeSync hw hsteal => exact hh.move (q := .reducing _) hw rfl rfl rfl rfl rfl rfl rfl rfl
  | takeTables hw hparent htables =>
    exact hh.keep (q := .scheduled _) (by rw [hw]; rfl) rfl rfl rfl rfl rfl rfl
  | @returnChild w t parent hw hparent hleft hright hsteal =>
    obtain ⟨hlive, hp, hmem, hne⟩ := hl.parent hh hf hw hparent
    exact hh.leave (by rw [hw]; rfl) hp hne hsteal rfl rfl rfl rfl rfl
  | @resumeParent w t parent hw hparent hleft hright hsteal =>
    obtain ⟨hlive, hp, hmem, hne⟩ := hl.parent hh hf hw hparent
    exact hh.resume (q := .scheduled parent) (by rw [hw]; rfl) hp hne hsteal.2 rfl rfl rfl
      (hl.last_child hp hmem hsteal.1).2 (fun _ _ => rfl) (fun c hc => Function.update_of_ne hc _ _)
      (Function.update_idem _ _ _) rfl
  | @setReturn w t f below parent hw hstack hcode hsynched hdetached hlast hstolen hparent =>
    have hlive := hh.live w t (by rw [hw]; rfl)
    have hp := hl.caller t parent hlive hparent
    have hcallee := (hl.called parent t hp).mpr ⟨hlive, hparent⟩
    have hfree : ∀ w', (s.phase w').closure ≠ some parent := by
      intro w' hw'
      rw [hh.callee w' parent hw'] at hcallee
      cases hcallee
    have hne : parent ≠ t := by
      rintro rfl
      exact hfree w (by rw [hw]; rfl)
    exact hh.resume (q := .running parent) (by rw [hw]; rfl) hp hne (hh.waiting parent hp hfree).1
      rfl rfl rfl (Function.update_self _ _ _) (fun c hc => Function.update_of_ne hc _ _)
      (fun c hc => Function.update_of_ne hc _ _) rfl rfl
  | exitRoot hw hstack hcode hsynched hlast =>
    exact hh.move (q := .exited _) hw rfl rfl rfl rfl rfl rfl rfl rfl
  | _ => exact { hh with }

end Steps

end Cheetah
