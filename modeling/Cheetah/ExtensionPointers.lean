import Cheetah.ExtensionFibers

/-! Where `w->extension` and `sf->extension` point to: a worker in user code has the pedigree frame
of the stack frame that it runs, and saves it in a stack frame before another worker can run it. -/
namespace Cheetah
open Function (update)

variable {κ V : Type} {s s' : Runtime κ V} {x x' : Extensions} {addr : FrameId → FrameAddr}

/-- The worker is in the user code of the closure, or on its way there with `w->extension` set. -/
def Runtime.InUserCode (s : Runtime κ V) (w : WorkerId) (c : ClosureId) : Prop :=
  s.phase w = .running c ∨ s.phase w = .reducing c ∨
    s.phase w = .scheduled c ∧ s.provablyGoodSteal w = true

/-- The frame has spawned and may be stolen, or was stolen since its last sync, or is the root. -/
def Runtime.Saves (s : Runtime κ V) (c : ClosureId) (f : FrameId) : Prop :=
  f ∈ spawners s.detached (s.stack c) ∨ s.unsynched f = true ∨ f = 0

structure PointerInv (s : Runtime κ V) (x : Extensions) (addr : FrameId → FrameAddr) : Prop where
  worker : ∀ w c f below, s.InUserCode w c → s.stack c = f :: below → s.reduction f = false →
    x.workerExtension w = some (addr f)
  kept : ∀ c f, s.live c → f ∈ s.stack c → s.Saves c f → x.extension f = some (addr f)
  starting : ∀ w c f, s.phase w = .scheduled c → s.provablyGoodSteal w = false →
    s.frame c = some f → s.unsynched f = true ∨ f = 0
  good : ∀ w, s.provablyGoodSteal w = true → ∃ c, s.phase w = .scheduled c

theorem pointerInv_initial (code : Code κ V) (views : Option (ViewMap κ V)) (root : PedigreeFrame) :
    PointerInv (initialRuntime code views) (initialExtensions root) fun _ => .root where
  worker := by
    intro w c f below hw
    rcases hw with hw | hw | ⟨-, hw⟩
    · exact absurd hw (by simp only [initialRuntime]; split <;> simp)
    · exact absurd hw (by simp only [initialRuntime]; split <;> simp)
    · cases hw
  kept := by
    intro c f hc hf _
    have hzero : c = 0 := of_decide_eq_true hc
    subst hzero
    obtain rfl : f = 0 := List.mem_singleton.mp hf
    rfl
  starting := by
    intro w c f hw _ hf
    have hzero : c = 0 := by
      by_contra hne
      exact absurd (hf.symm.trans (if_neg hne)) (by simp)
    subst hzero
    exact .inr (Option.some.inj hf).symm
  good := fun _ h => by cases h

theorem Runtime.InUserCode.held {w : WorkerId} {c : ClosureId} (h : s.InUserCode w c) :
    (s.phase w).closure = some c := by
  rcases h with h | h | ⟨h, -⟩
  all_goals rw [h]; rfl

theorem mem_of_mem_spawners {d : FrameId → Bool} {l : List FrameId} {f : FrameId}
    (h : f ∈ spawners d l) : f ∈ l := by
  induction l with
  | nil => cases h
  | cons g l ih =>
    cases l with
    | nil => cases h
    | cons k rest =>
      rw [spawners_cons, List.mem_append] at h
      rcases h with h | h
      · exact List.mem_cons_of_mem g (ih h)
      · split at h
        · rw [List.mem_singleton.mp h]
          exact List.mem_cons_of_mem g List.mem_cons_self
        · cases h

/-- A frame that spawned goes on doing so when a frame is pushed. -/
theorem mem_spawners_cons {d : FrameId → Bool} {l : List FrameId} {f g : FrameId}
    (h : f ∈ spawners d l) : f ∈ spawners d (g :: l) := by
  cases l with
  | nil => cases h
  | cons k rest => exact List.mem_append_left _ h

section Rules

/-- A worker without `provably_good_steal` is not on its way into user code. -/
theorem PointerInv.not_good (h : PointerInv s x addr) {w : WorkerId}
    (hw : ∀ c, s.phase w ≠ .scheduled c) : s.provablyGoodSteal w = false := by
  rw [← Bool.not_eq_true]
  intro hgood
  obtain ⟨c, hc⟩ := h.good w hgood
  exact hw c hc

/-- A worker goes on with the closure that it holds, or leaves it. -/
theorem PointerInv.turn (h : PointerInv s x addr) (hf : FrameInv s)
    (hheld : ∀ w c, (s.phase w).closure = some c → s.live c) {w : WorkerId} {t : ClosureId}
    {q : Phase} {b : Bool} (hphase : s'.phase = update s.phase w q)
    (hq : ∀ c, q.closure = some c → c = t)
    (ht : ∀ w' c, w' ≠ w → (s.phase w').closure = some c → c ≠ t)
    (hgood : s'.provablyGoodSteal = update s.provablyGoodSteal w b)
    (hb : b = true ↔ q = .scheduled t) (hlive : s'.live = s.live) (hstack : s'.stack = s.stack)
    (hdetached : s'.detached = s.detached) (hreduction : s'.reduction = s.reduction)
    (hframe : s'.frame = s.frame)
    (hunsynched : s'.unsynched = s.unsynched ∨ s'.unsynched = storeAt s.unsynched (s.frame t) false)
    (hlivet : s.live t) (hextension : x'.extension = x.extension)
    (hworkers : ∀ w' c, w' ≠ w → (s.phase w').closure = some c →
      x'.workerExtension w' = x.workerExtension w')
    (hworker : q = .running t ∨ q = .reducing t ∨ q = .scheduled t →
      ∀ f below, s.stack t = f :: below → s.reduction f = false →
        x'.workerExtension w = some (addr f)) : PointerInv s' x' addr := by
  have hnow : s'.phase w = q := by rw [hphase, Function.update_self]
  have hgoodw : s'.provablyGoodSteal w = b := by rw [hgood, Function.update_self]
  have hother : ∀ w', w' ≠ w → s'.phase w' = s.phase w' ∧
      s'.provablyGoodSteal w' = s.provablyGoodSteal w' := by
    intro w' hww
    rw [hphase, hgood, Function.update_of_ne hww, Function.update_of_ne hww]
    exact ⟨rfl, rfl⟩
  constructor
  case worker =>
    intro w' c f below hw' hstackf hred
    rw [hstack] at hstackf
    rw [hreduction] at hred
    by_cases hww : w' = w
    · subst hww
      obtain rfl : c = t := hq c (hnow ▸ hw'.held)
      rw [Runtime.InUserCode, hnow] at hw'
      exact hworker (hw'.imp_right fun hw' => hw'.imp_right And.left) f below hstackf hred
    · have huser : s.InUserCode w' c := by
        simpa only [Runtime.InUserCode, hother w' hww] using hw'
      rw [hworkers w' c hww huser.held]
      exact h.worker w' c f below huser hstackf hred
  case kept =>
    intro c f hc hmem hsaves
    rw [hlive] at hc
    rw [hstack] at hmem
    rw [hextension]
    apply h.kept c f hc hmem
    rw [Runtime.Saves, hdetached, hstack] at hsaves
    refine hsaves.imp_right fun hsaves => hsaves.imp_left fun hunsync => ?_
    rcases hunsynched with hsame | hsame
    · rwa [hsame] at hunsync
    · rw [hsame] at hunsync
      cases hown : s.frame t with
      | none => rwa [hown] at hunsync
      | some g =>
        rw [hown] at hunsync
        by_cases hfg : f = g
        · subst hfg
          rw [storeAt_some] at hunsync
          cases hunsync
        · rwa [storeAt_of_ne fun h => hfg (Option.some.inj h).symm] at hunsync
  case starting =>
    intro w' c f hw' hsteal hown
    rw [hframe] at hown
    by_cases hww : w' = w
    · subst hww
      rw [hnow] at hw'
      obtain rfl := hq c (by rw [hw']; rfl)
      rw [hgoodw, hb.mpr hw'] at hsteal
      cases hsteal
    · rw [(hother w' hww).1] at hw'
      rw [(hother w' hww).2] at hsteal
      have hheldc : (s.phase w').closure = some c := by rw [hw']; rfl
      have hct := ht w' c hww hheldc
      have hstarting := h.starting w' c f hw' hsteal hown
      rcases hunsynched with hsame | hsame
      · rwa [hsame]
      · rw [hsame, storeAt_of_ne]
        · exact hstarting
        · intro hown'
          have hlivec := hheld w' c hheldc
          exact hct (hf.disjoint c t f hlivec hlivet (hf.frame_mem hlivec hown)
            (hf.frame_mem hlivet hown'))
  case good =>
    intro w' hsteal
    by_cases hww : w' = w
    · subst hww
      rw [hgoodw] at hsteal
      exact ⟨t, hnow.trans (hb.mp hsteal)⟩
    · rw [(hother w' hww).2] at hsteal
      rw [(hother w' hww).1]
      exact h.good w' hsteal

theorem PointerInv.promoteHelper (h : PointerInv s x addr) (hi : SchedInv s) {victim : WorkerId}
    {cl : ClosureId} {f : FrameId} (hvictim : s.phase victim = .running cl) :
    PointerInv (s.promoteHelper cl f) x addr where
  worker := h.worker
  kept := h.kept
  good := h.good
  starting := by
    intro w c g hw hsteal hg
    have hcl : c ≠ cl := by
      rintro rfl
      have hsame := hi.hold.unique w victim c (congrArg Phase.closure hw)
        (congrArg Phase.closure hvictim)
      rw [← hsame] at hvictim
      cases hvictim.symm.trans hw
    exact h.starting w c g hw hsteal ((Function.update_of_ne hcl _ _).symm.trans hg)

/-- What is common to calls and spawns: a frame with the pedigree frame `a` is entered. -/
theorem PointerInv.push (h : PointerInv s x addr) (hi : SchedInv s) {w : WorkerId} {t : ClosureId}
    {f : FrameId} {below : List FrameId} {d : Bool} {a : FrameAddr} (hw : s.phase w = .running t)
    (hstack : s.stack t = f :: below) (hlive : s'.live = s.live)
    (hstack' : s'.stack = update s.stack t (s.numFrames :: f :: below))
    (hdetached : s'.detached = update s.detached s.numFrames d)
    (hreduction : ∀ g, g ≠ s.numFrames → s'.reduction g = s.reduction g)
    (hunsynched : s'.unsynched = update s.unsynched s.numFrames false)
    (hphase : s'.phase = s.phase) (hgood : s'.provablyGoodSteal = s.provablyGoodSteal)
    (hframe : s'.frame = s.frame) (hextension : ∀ g, g ≠ f → x'.extension g = x.extension g)
    (hself : d = false ∧ x'.extension f = x.extension f ∨ x'.extension f = some (addr f))
    (hworker : x'.workerExtension w = some a)
    (hworkers : ∀ w', w' ≠ w → x'.workerExtension w' = x.workerExtension w') :
    PointerInv s' x' (update addr s.numFrames a) := by
  have hheld : (s.phase w).closure = some t := by rw [hw]; rfl
  have hlivet := hi.hold.live w t hheld
  have hmemf : f ∈ s.stack t := by rw [hstack]; exact List.mem_cons_self
  have hnew : ∀ c g, s.live c → g ∈ s.stack c → g ≠ s.numFrames :=
    fun c g hc hg => hi.new_frame hc hg
  have huser : ∀ w' c, s'.InUserCode w' c ↔ s.InUserCode w' c := by
    intro w' c
    simp only [Runtime.InUserCode, hphase, hgood]
  constructor
  case worker =>
    intro w' c g below' hw' hg hred
    rw [huser] at hw'
    rw [hstack'] at hg
    by_cases hct : c = t
    · subst hct
      obtain rfl := hi.hold.unique w' w c hw'.held hheld
      rw [Function.update_self] at hg
      obtain ⟨rfl, -⟩ := List.cons.inj hg
      rw [hworker, Function.update_self]
    · rw [Function.update_of_ne hct] at hg
      have hww : w' ≠ w := by
        rintro rfl
        exact hct (Option.some.inj (hw'.held.symm.trans hheld))
      have hgn := hnew c g (hi.hold.live w' c hw'.held) (by rw [hg]; exact List.mem_cons_self)
      rw [hreduction g hgn] at hred
      rw [hworkers w' hww, Function.update_of_ne hgn]
      exact h.worker w' c g below' hw' hg hred
  case kept =>
    intro c g hc hg hsaves
    rw [hlive] at hc
    rw [Runtime.Saves, hunsynched] at hsaves
    have hgn : g ≠ s.numFrames := by
      rintro rfl
      rcases hsaves with hspawner | hunsync | hzero
      · rw [hstack'] at hspawner
        by_cases hct : c = t
        · subst hct
          rw [Function.update_self, spawners_cons, List.mem_append] at hspawner
          rcases hspawner with hin | hin
          · exact hnew c _ hc (by rw [hstack]; exact mem_of_mem_spawners hin) rfl
          · split at hin
            · exact hnew c f hc hmemf (List.mem_singleton.mp hin).symm
            · cases hin
        · rw [Function.update_of_ne hct] at hspawner
          exact hnew c _ hc (mem_of_mem_spawners hspawner) rfl
      · rw [Function.update_self] at hunsync
        cases hunsync
      · exact (hi.tree.numFrames_pos hi.frames).ne' hzero
    rw [Function.update_of_ne hgn] at hsaves ⊢
    have hmem : g ∈ s.stack c := by
      rw [hstack'] at hg
      by_cases hct : c = t
      · subst hct
        rw [Function.update_self] at hg
        rw [hstack]
        exact (List.mem_cons.mp hg).resolve_left hgn
      · rwa [Function.update_of_ne hct] at hg
    by_cases hsaved : g = f ∧ x'.extension f = some (addr f)
    · rw [hsaved.1, hsaved.2]
    · have hsame : x'.extension g = x.extension g := by
        by_cases hgf : g = f
        · subst hgf
          exact (hself.resolve_right fun h => hsaved ⟨rfl, h⟩).2
        · exact hextension g hgf
      rw [hsame]
      apply h.kept c g hc hmem
      refine hsaves.imp_left fun hspawner => ?_
      have hcongr : spawners s'.detached (s.stack c) = spawners s.detached (s.stack c) := by
        apply spawners_congr
        intro k hk
        rw [hdetached, Function.update_of_ne (hnew c k hc hk)]
      rw [hstack'] at hspawner
      by_cases hct : c = t
      · subst hct
        rw [Function.update_self, spawners_cons, ← hstack, hcongr, List.mem_append] at hspawner
        refine hspawner.resolve_right fun hin => ?_
        split at hin
        · rename_i hd
          obtain rfl := List.mem_singleton.mp hin
          rw [hdetached, Function.update_self] at hd
          have hsave := hself.resolve_left fun h => by simp [h.1] at hd
          exact hsaved ⟨rfl, hsave⟩
        · cases hin
      · rwa [Function.update_of_ne hct, hcongr] at hspawner
  case starting =>
    intro w' c g hw' hsteal hg
    rw [hphase] at hw'
    rw [hgood] at hsteal
    rw [hframe] at hg
    have hc := hi.hold.live w' c (by rw [hw']; rfl)
    rw [hunsynched, Function.update_of_ne (hnew c g hc (hi.frames.frame_mem hc hg))]
    exact h.starting w' c g hw' hsteal hg
  case good =>
    intro w' hsteal
    rw [hgood] at hsteal
    rw [hphase]
    exact h.good w' hsteal

/-- The youngest frame of the closure that a worker runs is left, and the worker has the pedigree
frame of the one below. -/
theorem PointerInv.pop (h : PointerInv s x addr) (hi : SchedInv s) {w : WorkerId} {t : ClosureId}
    {f : FrameId} {below : List FrameId} (hw : s.phase w = .running t)
    (hstack : s.stack t = f :: below) (hlive : s'.live = s.live)
    (hstack' : s'.stack = update s.stack t below)
    (hdetached : ∀ g, g ≠ f → s'.detached g = s.detached g)
    (hreduction : s'.reduction = s.reduction) (hunsynched : s'.unsynched = s.unsynched)
    (hphase : s'.phase = s.phase) (hgood : s'.provablyGoodSteal = s.provablyGoodSteal)
    (hframe : s'.frame = s.frame) (hextension : x'.extension = x.extension)
    (hworker : ∀ g rest, below = g :: rest → x'.workerExtension w = some (addr g))
    (hworkers : ∀ w', w' ≠ w → x'.workerExtension w' = x.workerExtension w') :
    PointerInv s' x' addr := by
  have hheld : (s.phase w).closure = some t := by rw [hw]; rfl
  have hlivet := hi.hold.live w t hheld
  have hnodup := hi.frames.nodup t hlivet
  rw [hstack] at hnodup
  have hmemf : f ∈ s.stack t := by rw [hstack]; exact List.mem_cons_self
  have huser : ∀ w' c, s'.InUserCode w' c ↔ s.InUserCode w' c := by
    intro w' c
    simp only [Runtime.InUserCode, hphase, hgood]
  constructor
  case worker =>
    intro w' c g below' hw' hg hred
    rw [huser] at hw'
    rw [hstack'] at hg
    rw [hreduction] at hred
    by_cases hct : c = t
    · subst hct
      obtain rfl := hi.hold.unique w' w c hw'.held hheld
      rw [Function.update_self] at hg
      exact hworker g below' hg
    · rw [Function.update_of_ne hct] at hg
      have hww : w' ≠ w := by
        rintro rfl
        exact hct (Option.some.inj (hw'.held.symm.trans hheld))
      rw [hworkers w' hww]
      exact h.worker w' c g below' hw' hg hred
  case kept =>
    intro c g hc hg hsaves
    rw [hlive] at hc
    rw [hextension]
    rw [Runtime.Saves, hunsynched] at hsaves
    rw [hstack'] at hg hsaves
    by_cases hct : c = t
    · subst hct
      rw [Function.update_self] at hg hsaves
      have hcongr : spawners s'.detached below = spawners s.detached below := by
        apply spawners_congr
        intro k hk
        apply hdetached
        rintro rfl
        exact (List.nodup_cons.mp hnodup).1 hk
      rw [hcongr] at hsaves
      apply h.kept c g hc (by rw [hstack]; exact List.mem_cons_of_mem f hg)
      rw [Runtime.Saves, hstack]
      exact hsaves.imp_left mem_spawners_cons
    · rw [Function.update_of_ne hct] at hg hsaves
      have hcongr : spawners s'.detached (s.stack c) = spawners s.detached (s.stack c) := by
        apply spawners_congr
        intro k hk
        apply hdetached
        rintro rfl
        exact hct (hi.frames.disjoint c t k hc hlivet hk hmemf)
      rw [hcongr] at hsaves
      exact h.kept c g hc hg hsaves
  case starting =>
    rw [hphase, hgood, hframe, hunsynched]
    exact h.starting
  case good =>
    rw [hphase, hgood]
    exact h.good

/-- A closure ends, and its worker leaves it or goes on with the call parent. -/
theorem PointerInv.drop (h : PointerInv s x addr) (hi : SchedInv s) {w : WorkerId} {t : ClosureId}
    {q : Phase} (hheld : (s.phase w).closure = some t) (hphase : s'.phase = update s.phase w q)
    (hq : ∀ c, q ≠ .scheduled c) (hlive : s'.live = update s.live t false)
    (hstack : ∀ c, c ≠ t → s'.stack c = s.stack c) (hdetached : s'.detached = s.detached)
    (hreduction : s'.reduction = s.reduction) (hframe : ∀ c, c ≠ t → s'.frame c = s.frame c)
    (hunsynched : s'.unsynched = s.unsynched) (hgood : s'.provablyGoodSteal = s.provablyGoodSteal)
    (hsteal : s.provablyGoodSteal w = false) (hextension : x'.extension = x.extension)
    (hworkers : x'.workerExtension = x.workerExtension)
    (hworker : ∀ c f below, q = .running c ∨ q = .reducing c → s.stack c = f :: below →
      x.workerExtension w = some (addr f)) (hqt : q.closure ≠ some t) : PointerInv s' x' addr := by
  have hnow : s'.phase w = q := by rw [hphase, Function.update_self]
  have hother : ∀ w', w' ≠ w → s'.phase w' = s.phase w' := by
    intro w' hww
    rw [hphase, Function.update_of_ne hww]
  constructor
  case worker =>
    intro w' c f below hw' hf hred
    rw [hreduction] at hred
    rw [hworkers]
    by_cases hww : w' = w
    · subst hww
      have hct : c ≠ t := by
        rintro rfl
        exact hqt (hnow ▸ hw'.held)
      rw [hstack c hct] at hf
      refine hworker c f below ?_ hf
      rw [Runtime.InUserCode, hnow] at hw'
      exact hw'.imp_right fun hw' => hw'.resolve_right fun h => hq c h.1
    · have hold : s.InUserCode w' c := by
        simpa only [Runtime.InUserCode, hother w' hww, hgood] using hw'
      have hct : c ≠ t := by
        rintro rfl
        exact hww (hi.hold.unique w' w c hold.held hheld)
      rw [hstack c hct] at hf
      exact h.worker w' c f below hold hf hred
  case kept =>
    intro c f hc hf hsaves
    have hct : c ≠ t := by
      rintro rfl
      rw [hlive, Function.update_self] at hc
      cases hc
    rw [hlive, Function.update_of_ne hct] at hc
    rw [hstack c hct] at hf
    rw [hextension]
    apply h.kept c f hc hf
    rwa [Runtime.Saves, hdetached, hunsynched, hstack c hct] at hsaves
  case starting =>
    intro w' c f hw' hpgs hf
    by_cases hww : w' = w
    · subst hww
      exact absurd (hnow.symm.trans hw') (hq c)
    · rw [hother w' hww] at hw'
      have hct : c ≠ t := by
        rintro rfl
        exact hww (hi.hold.unique w' w c (by rw [hw']; rfl) hheld)
      rw [hgood] at hpgs
      rw [hframe c hct] at hf
      rw [hunsynched]
      exact h.starting w' c f hw' hpgs hf
  case good =>
    intro w' hpgs
    rw [hgood] at hpgs
    have hww : w' ≠ w := by
      rintro rfl
      rw [hsteal] at hpgs
      cases hpgs
    rw [hother w' hww]
    exact h.good w' hpgs

/-- The oldest frame of a closure makes way for the frame of the reductions. -/
theorem PointerInv.handle (h : PointerInv s x addr) (hi : SchedInv s) {w : WorkerId}
    {t : ClosureId} {f : FrameId} (hw : s.phase w = .running t) (hstack : s.stack t = [f])
    (hphase : s'.phase = update s.phase w (.returning t)) (hlive : s'.live = s.live)
    (hstack' : ∀ c, s'.stack c = if c = t then [s.numFrames] else s.stack c)
    (hdetached : ∀ g, g ≠ f → g ≠ s.numFrames → s'.detached g = s.detached g)
    (hreduction : ∀ g, g ≠ s.numFrames → s'.reduction g = s.reduction g)
    (hframe : ∀ c, c ≠ t → s'.frame c = s.frame c)
    (hunsynched : s'.unsynched = update s.unsynched s.numFrames false)
    (hgood : s'.provablyGoodSteal = s.provablyGoodSteal) (hextension : x'.extension = x.extension)
    (hworkers : ∀ w', w' ≠ w → x'.workerExtension w' = x.workerExtension w') :
    PointerInv s' x' addr := by
  have hheld : (s.phase w).closure = some t := by rw [hw]; rfl
  have hlivet := hi.hold.live w t hheld
  have hsteal := h.not_good (w := w) (by simp [hw])
  have hnow : s'.phase w = .returning t := by rw [hphase, Function.update_self]
  have hother : ∀ w', w' ≠ w → s'.phase w' = s.phase w' := by
    intro w' hww
    rw [hphase, Function.update_of_ne hww]
  have hout : ∀ w' c, w' ≠ w → (s.phase w').closure = some c → c ≠ t := by
    rintro w' c hww hc rfl
    exact hww (hi.hold.unique w' w c hc hheld)
  constructor
  case worker =>
    intro w' c g below hw' hg hred
    have hww : w' ≠ w := by
      rintro rfl
      rw [Runtime.InUserCode, hnow] at hw'
      simp at hw'
    have hold : s.InUserCode w' c := by
      simpa only [Runtime.InUserCode, hother w' hww, hgood] using hw'
    have hct := hout w' c hww hold.held
    rw [hstack', if_neg hct] at hg
    have hmem : g ∈ s.stack c := by rw [hg]; exact List.mem_cons_self
    rw [hreduction g (hi.new_frame (hi.hold.live w' c hold.held) hmem)] at hred
    rw [hworkers w' hww]
    exact h.worker w' c g below hold hg hred
  case kept =>
    intro c g hc hg hsaves
    rw [hlive] at hc
    rw [Runtime.Saves, hunsynched, hstack'] at hsaves
    rw [hstack'] at hg
    by_cases hct : c = t
    · subst hct
      rw [if_pos rfl] at hg hsaves
      obtain rfl := List.mem_singleton.mp hg
      rw [Function.update_self] at hsaves
      rcases hsaves with hspawner | hunsync | hzero
      · cases hspawner
      · cases hunsync
      · exact absurd hzero (hi.tree.numFrames_pos hi.frames).ne'
    · rw [if_neg hct] at hg hsaves
      have hne : ∀ k ∈ s.stack c, k ≠ f ∧ k ≠ s.numFrames := by
        intro k hk
        refine ⟨?_, hi.new_frame hc hk⟩
        rintro rfl
        exact hct (hi.frames.disjoint c t k hc hlivet hk (by rw [hstack]; exact List.mem_cons_self))
      have hcongr : spawners s'.detached (s.stack c) = spawners s.detached (s.stack c) :=
        spawners_congr fun k hk => hdetached k (hne k hk).1 (hne k hk).2
      rw [hcongr, Function.update_of_ne (hne g hg).2] at hsaves
      rw [hextension]
      exact h.kept c g hc hg hsaves
  case starting =>
    intro w' c g hw' hpgs hg
    have hww : w' ≠ w := by
      rintro rfl
      rw [hnow] at hw'
      cases hw'
    rw [hother w' hww] at hw'
    have hheldc : (s.phase w').closure = some c := by rw [hw']; rfl
    have hlivec := hi.hold.live w' c hheldc
    rw [hgood] at hpgs
    rw [hframe c (hout w' c hww hheldc)] at hg
    rw [hunsynched, Function.update_of_ne (hi.new_frame hlivec (hi.frames.frame_mem hlivec hg))]
    exact h.starting w' c g hw' hpgs hg
  case good =>
    intro w' hpgs
    rw [hgood] at hpgs
    have hww : w' ≠ w := by
      rintro rfl
      rw [hsteal] at hpgs
      cases hpgs
    rw [hother w' hww]
    exact h.good w' hpgs

/-- The stolen frame has saved the extension, and the victim goes on with the frame it runs. -/
theorem PointerInv.steal (h : PointerInv s x addr) (hi : SchedInv s) {w victim : WorkerId}
    {cl k res : ClosureId} {f : FrameId} {parents above below : List FrameId}
    (hs : Splits s s' w victim cl k res f parents above below)
    (hw : s.phase w = .stealing) (hvictim : s.phase victim = .running cl)
    (hdeque : s.deque victim = f :: parents) (hstack : s.stack cl = above ++ f :: below)
    (hk : ¬ s.live k) (hres : res = cl ∨ ¬ s.live res) (hextension : x'.extension = x.extension)
    (hworkers : x'.workerExtension = x.workerExtension) : PointerInv s' x' addr := by
  have hheld : (s.phase victim).closure = some cl := by rw [hvictim]; rfl
  have hcl := hi.hold.live victim cl hheld
  obtain ⟨hspawners, hbelow, -⟩ := hi.frames.victim hi.hold hvictim hdeque hstack
  have hdeque' := hi.frames.deque victim cl hheld
  rw [hdeque] at hdeque'
  have hsteal := h.not_good (w := w) (by simp [hw])
  have hrunning := h.not_good (w := victim) (by simp [hvictim])
  have hnodup := hi.frames.nodup cl hcl
  rw [hstack] at hnodup
  have hout := List.nodup_cons.mp (List.nodup_middle.mp hnodup)
  have hothers : ∀ w' c, w' ≠ w → w' ≠ victim → (s.phase w').closure = some c →
      c ≠ k ∧ c ≠ res ∧ c ≠ cl := by
    intro w' c hww hwv hc
    have hlivec := hi.hold.live w' c hc
    have hcc : c ≠ cl := by
      rintro rfl
      exact hwv (hi.hold.unique w' victim c hc hheld)
    refine ⟨?_, ?_, hcc⟩
    · rintro rfl
      exact hk hlivec
    · rintro rfl
      exact hres.elim hcc fun hr => hr hlivec
  constructor
  case worker =>
    intro w' c g rest hw' hg hred
    rw [hs.reduction] at hred
    rw [hworkers]
    rw [Runtime.InUserCode, hs.good] at hw'
    by_cases hww : w' = w
    · subst hww
      rw [hs.phaseThief, hsteal] at hw'
      simp at hw'
    · by_cases hwv : w' = victim
      · subst hwv
        rw [hs.phaseVictim] at hw'
        obtain rfl : k = c := by simpa using hw'
        rw [hs.stackChild] at hg
        apply h.worker w' cl g (rest ++ f :: below) (.inl hvictim) _ hred
        rw [hstack, hg]
        rfl
      · rw [hs.phase w' hww hwv] at hw'
        have hold : s.InUserCode w' c := hw'
        obtain ⟨hck, hcr, hcc⟩ := hothers w' c hww hwv hold.held
        rw [hs.stack c hck hcr hcc] at hg
        exact h.worker w' c g rest hold hg hred
  case kept =>
    intro c g hc hg hsaves
    rw [hextension]
    rw [Runtime.Saves, hs.detached] at hsaves
    have hold : ∀ g, g ≠ f → g ∈ above ∨ g ∈ below → (g ∈ spawners s.detached above ∨
        s'.unsynched g = true ∨ g = 0) → x.extension g = some (addr g) := by
      intro g hgf hg hsaves
      rw [hs.unsynched g hgf] at hsaves
      apply h.kept cl g hcl
      · rw [hstack]
        simp only [List.mem_append, List.mem_cons]
        exact hg.imp_right .inr
      · refine hsaves.imp_left fun hspawner => ?_
        rw [← hdeque', ← hspawners]
        exact List.mem_cons_of_mem f hspawner
    rcases hs.live c hc with rfl | rfl | ⟨hck, hcr, hlivec⟩
    · rw [hs.stackChild] at hg hsaves
      have hgf : g ≠ f := by
        rintro rfl
        exact hout.1 (List.mem_append_left _ hg)
      exact hold g hgf (.inl hg) hsaves
    · rw [hs.stackRes] at hg
      obtain rfl := List.mem_singleton.mp hg
      refine h.kept cl g hcl (by rw [hstack]; simp) (.inl ?_)
      rw [← hdeque']
      exact List.mem_cons_self
    · by_cases hcc : c = cl
      · subst hcc
        rw [hs.stackKept hcr] at hg hsaves
        have hgf : g ≠ f := by
          rintro rfl
          exact hout.1 (List.mem_append_right _ hg)
        rw [spawners_tail_nil hbelow] at hsaves
        exact hold g hgf (.inr hg) (hsaves.imp_left fun hin => by cases hin)
      · rw [hs.stack c hck hcr hcc] at hg hsaves
        have hgf : g ≠ f := by
          rintro rfl
          exact hcc (hi.frames.disjoint c cl g hlivec hcl hg (by rw [hstack]; simp))
        rw [hs.unsynched g hgf] at hsaves
        exact h.kept c g hlivec hg hsaves
  case starting =>
    intro w' c g hw' hpgs hg
    rw [hs.good] at hpgs
    by_cases hww : w' = w
    · subst hww
      rw [hs.phaseThief] at hw'
      obtain rfl : res = c := by simpa using hw'
      rw [hs.frameRes] at hg
      exact .inl (Option.some.inj hg ▸ hs.unsynchedFrame)
    · have hwv : w' ≠ victim := by
        rintro rfl
        rw [hs.phaseVictim] at hw'
        cases hw'
      rw [hs.phase w' hww hwv] at hw'
      obtain ⟨hck, hcr, -⟩ := hothers w' c hww hwv (by rw [hw']; rfl)
      rw [hs.frame c hck hcr] at hg
      by_cases hgf : g = f
      · exact .inl (hgf ▸ hs.unsynchedFrame)
      · rw [hs.unsynched g hgf]
        exact h.starting w' c g hw' hpgs hg
  case good =>
    intro w' hpgs
    rw [hs.good] at hpgs
    have hww : w' ≠ w := by
      rintro rfl
      rw [hsteal] at hpgs
      cases hpgs
    have hwv : w' ≠ victim := by
      rintro rfl
      rw [hrunning] at hpgs
      cases hpgs
    rw [hs.phase w' hww hwv]
    exact h.good w' hpgs

theorem PointerInv.stealOwn (h : PointerInv s x addr) (hi : SchedInv s) {w victim : WorkerId}
    {cl : ClosureId} {f : FrameId} {parents above below : List FrameId}
    (hw : s.phase w = .stealing) (hvictim : s.phase victim = .running cl)
    (hdeque : s.deque victim = f :: parents) (hstack : s.stack cl = above ++ f :: below)
    (hframe : s.frame cl = some f) (hextension : x'.extension = x.extension)
    (hworkers : x'.workerExtension = x.workerExtension) :
    PointerInv (s.stealOwn w victim cl f above below) x' addr := by
  obtain ⟨rfl, hsplits⟩ :=
    hi.frames.splits_own hi.links hi.hold hw hvictim hdeque hstack hframe
  exact h.steal hi hsplits hw hvictim hdeque hstack hi.links.fresh (.inl rfl) hextension hworkers

theorem PointerInv.returnChild (h : PointerInv s x addr) (hi : SchedInv s) {w : WorkerId}
    {t parent : ClosureId} (hw : s.phase w = .returning t) (hextension : x'.extension = x.extension)
    (hworkers : x'.workerExtension = x.workerExtension) :
    PointerInv (s.returnChild w parent t) x' addr := by
  have hsame := returnChild_same (s := s) w parent t
  have hflags := SameFlags.returnChild (s := s) w parent t
  exact h.drop hi (q := .stealing) (by rw [hw]; rfl) rfl (by simp) rfl
    (fun c hct => Function.update_of_ne hct _ _) hflags.detached hflags.reduction
    (fun c _ => congrFun hsame.2.2.2.2.1 c) hflags.unsynched hsame.2.1
    (h.not_good (by simp [hw])) hextension hworkers (fun c f below hq => by simp at hq)
    (by simp [Phase.closure])

end Rules

section Steps

variable [DecidableEq κ] [Monoid V] {table : ℕ → BitVec 64} {bumps : κ → Bool}
  {allowed : Extensions → WorkerId → Prop}

theorem PointerInv.step (h : PointerInv s x x.addr) (hi : SchedInv s) (hl : CallLinks s x)
    (hcalled : ∀ f g, s.HasFrame f → s.detached f = false → x.callParent f = some g →
      x.addr f = x.addr g) (hs : SchedStep s s')
    (hx : ExtensionStep table bumps allowed hs x x') : PointerInv s' x' x'.addr := by
  have ht : ∀ w t, (s.phase w).closure = some t →
      ∀ w' c, w' ≠ w → (s.phase w').closure = some c → c ≠ t := by
    rintro w t hw w' c hww hc rfl
    exact hww (hi.hold.unique w' w c hc hw)
  have hsame : ∀ t (c : ClosureId), some t = some c → c = t :=
    fun t c h => (Option.some.inj h).symm
  have hgood : ∀ w, (∀ c, s.phase w ≠ .scheduled c) →
      s.provablyGoodSteal = update s.provablyGoodSteal w false :=
    fun w hw => (Function.update_eq_self_iff.mpr (h.not_good hw).symm).symm
  cases hx with
  | @update w t f below reducer u rest x hw hstack hcode =>
    split
    all_goals exact ⟨h.worker, h.kept, h.starting, h.good⟩
  | @enterFrame w t f below callee rest x hw hstack hcode =>
    have hred := hi.frames.user hi.hold hw (f := f) (by rw [hstack]; exact List.mem_cons_self)
    refine h.push hi hw hstack rfl (congrArg (Function.update s.stack t) (congrArg _ hstack)) rfl
      (fun g hg => Function.update_of_ne hg _ _) rfl rfl rfl rfl (fun _ _ => rfl)
      (.inl ⟨rfl, rfl⟩) ?_ fun _ _ => rfl
    exact h.worker w t f below (.inl hw) hstack hred
  | @detach w t f below child rest rsp x hw hstack hcode hallowed =>
    have hred := hi.frames.user hi.hold hw (f := f) (by rw [hstack]; exact List.mem_cons_self)
    refine h.push hi hw hstack rfl (congrArg (Function.update s.stack t) (congrArg _ hstack)) rfl
      (fun g hg => Function.update_of_ne hg _ _) rfl rfl rfl rfl
      (fun g hg => Function.update_of_ne hg _ _) (.inr ?_) (Function.update_self _ _ _)
      fun w' hww => Function.update_of_ne hww _ _
    exact (Function.update_self _ _ _).trans (h.worker w t f below (.inl hw) hstack hred)
  | @leaveFrame w t f below x hw hstack hcode hsynched hdetached hlast hstolen =>
    have hlivet := hi.hold.live w t (by rw [hw]; rfl)
    have hmem : f ∈ s.stack t := by rw [hstack]; exact List.mem_cons_self
    have hred := hi.frames.user hi.hold hw hmem
    refine h.pop hi hw hstack rfl rfl (fun _ _ => rfl) rfl rfl rfl rfl rfl rfl ?_ fun _ _ => rfl
    rintro g rest rfl
    have hchain := hl.chain t hlivet
    rw [hstack] at hchain
    have hparent := (List.isChain_cons_cons.mp hchain).1
    have hsame := hcalled f g ⟨hred, t, hlivet, hmem⟩ hdetached hparent
    exact (h.worker w t f _ (.inl hw) hstack hred).trans (congrArg some hsame)
  | @leaveFrameHelper w t f below parents parent x hw hstack hcode hsynched hdetached hdeque =>
    have hlivet := hi.hold.live w t (by rw [hw]; rfl)
    refine h.pop hi hw hstack rfl rfl (fun g hg => Function.update_of_ne hg _ _) rfl rfl rfl rfl rfl
      rfl ?_ fun w' hww => Function.update_of_ne hww _ _
    rintro g rest rfl
    have hchain := hl.chain t hlivet
    rw [hstack] at hchain
    have hparent := (List.isChain_cons_cons.mp hchain).1
    have hsaved := h.kept t g hlivet (by rw [hstack]; simp)
      (.inl (by rw [hstack, spawners_cons, hdetached]; simp))
    refine (Function.update_self _ _ _).trans ?_
    change (x.callParent f).bind x.extension = some (x.addr g)
    rw [hparent]
    exact hsaved
  | @exceptionHandler w t f below x hw hstack hcode hsynched hdetached hdeque =>
    have hspawners := hi.frames.deque w t (by rw [hw]; rfl)
    rw [hdeque, hstack] at hspawners
    obtain rfl : below = [] := eq_nil_of_spawners_nil hspawners.symm hdetached
    refine h.handle hi hw hstack rfl rfl ?_ ?_ (fun g hg => Function.update_of_ne hg _ _)
      (fun c hct => Function.update_of_ne hct _ _) rfl rfl rfl
      fun w' hww => Function.update_of_ne hww _ _
    · intro c
      by_cases hct : c = t
      · subst hct
        rw [if_pos rfl]
        exact (Function.update_self _ _ _).trans
          (congrArg (s.numFrames :: ·) (Function.update_self _ _ _))
      · rw [if_neg hct]
        exact (Function.update_of_ne hct _ _).trans (Function.update_of_ne hct _ _)
    · intro g hgf hgn
      exact (Function.update_of_ne hgn _ _).trans (Function.update_of_ne hgf _ _)
  | @suspendAtSync w t f below rsp x hw hstack hcode hunsynched hchildren =>
    have hheld : (s.phase w).closure = some t := by rw [hw]; rfl
    exact h.turn hi.frames hi.hold.live (q := .stealing) rfl (fun c hc => by cases hc)
      (ht w t hheld) (hgood w (by simp [hw])) (by simp) rfl rfl rfl rfl rfl (.inl rfl)
      (hi.hold.live w t hheld) rfl
      (fun _ _ _ _ => rfl) fun hq => by simp at hq
  | @passSync w t f below rsp x hw hstack hcode hunsynched hchildren =>
    have hheld : (s.phase w).closure = some t := by rw [hw]; rfl
    have hlivet := hi.hold.live w t hheld
    have hmem : f ∈ s.stack t := by rw [hstack]; exact List.mem_cons_self
    have hown := hi.frames.own t f hlivet hmem (.inr (.inl hunsynched))
    refine h.turn hi.frames hi.hold.live (q := .reducing t) rfl (hsame _) (ht w t hheld)
      (hgood w (by simp [hw])) (by simp) rfl rfl rfl rfl rfl (.inr rfl) hlivet rfl
      (fun w' _ hww _ => Function.update_of_ne hww _ _) ?_
    rintro - g rest hg -
    obtain rfl : f = g := (List.cons.inj (hstack.symm.trans hg)).1
    refine (Function.update_self _ _ _).trans ?_
    rw [hown]
    exact h.kept t f hlivet hmem (.inr (.inl hunsynched))
  | @doReductions w t f x hw hframe hreduction =>
    have hheld : (s.phase w).closure = some t := by rw [hw]; rfl
    have hworker : ∀ g rest, s.stack t = g :: rest → s.reduction g = false →
        x.workerExtension w = some (x.addr g) := fun g rest => h.worker w t g rest (.inr (.inl hw))
    split
    all_goals
      exact h.turn hi.frames hi.hold.live (q := .running t) rfl (hsame _) (ht w t hheld)
        (hgood w (by simp [hw])) (by simp) rfl rfl rfl rfl rfl (.inl rfl) (hi.hold.live w t hheld)
        rfl (fun _ _ _ _ => rfl) fun _ => hworker
  | @doReductionsForReturn w t f x hw hframe hreduction =>
    have hheld : (s.phase w).closure = some t := by rw [hw]; rfl
    exact h.turn hi.frames hi.hold.live (q := .returning t) rfl (hsame _) (ht w t hheld)
      (hgood w (by simp [hw])) (by simp) rfl rfl rfl rfl rfl (.inl rfl) (hi.hold.live w t hheld)
      rfl (fun _ _ _ _ => rfl) fun hq => by simp at hq
  | @stealStolen w victim cl f parents above below x hw hvictim hdeque hstack hframe =>
    exact h.stealOwn hi hw hvictim hdeque hstack hframe rfl rfl
  | @stealHelper w victim cl f parents above below x hw hvictim hdeque hstack hframe hdetached =>
    have hpromoted : PointerInv (s.promoteHelper cl f) x x.addr :=
      h.promoteHelper hi hvictim
    exact hpromoted.stealOwn (hi.promoteHelper hvictim hdeque hstack hdetached) hw hvictim hdeque
      hstack (Function.update_self _ _ _) rfl rfl
  | @stealCalled w victim cl f parents above below x hw hvictim hdeque hstack hframe hdetached =>
    have hk : ¬ s.live (s.numClosures + 1) := fun hlive =>
      Nat.not_lt_of_gt (Nat.lt_succ_self _) (hi.links.bound _ hlive)
    exact h.steal hi (hi.splits_called hw hvictim hdeque above below) hw hvictim hdeque hstack hk
      (.inr hi.links.fresh) rfl rfl
  | @resumeStolen w t f rsp x hw hframe hsteal =>
    have hheld : (s.phase w).closure = some t := by rw [hw]; rfl
    have hlivet := hi.hold.live w t hheld
    refine h.turn hi.frames hi.hold.live (q := .running t) (b := false) rfl (hsame _)
      (ht w t hheld) (Function.update_eq_self_iff.mpr hsteal.symm).symm (by simp) rfl rfl rfl rfl
      rfl (.inl rfl) hlivet rfl (fun w' _ hww _ => Function.update_of_ne hww _ _) ?_
    rintro - g rest hg -
    obtain ⟨f', hown, hsingle⟩ := hi.frames.single w t (.inl hw)
    obtain rfl : f' = f := Option.some.inj (hown.symm.trans hframe)
    obtain rfl : f' = g := (List.cons.inj (hsingle.symm.trans hg)).1
    refine (Function.update_self _ _ _).trans ?_
    exact h.kept t f' hlivet (hi.frames.frame_mem hlivet hframe)
      (.inr (h.starting w t f' hw hsteal hframe))
  | @resumeSync w t x hw hsteal =>
    have hheld : (s.phase w).closure = some t := by rw [hw]; rfl
    exact h.turn hi.frames hi.hold.live (q := .reducing t) rfl (hsame _) (ht w t hheld)
      rfl (by simp) rfl rfl rfl rfl rfl (.inl rfl) (hi.hold.live w t hheld) rfl (fun _ _ _ _ => rfl)
      fun _ g rest => h.worker w t g rest (.inr (.inr ⟨hw, hsteal⟩))
  | @takeTables w t parent x hw hparent htables =>
    have hheld : (s.phase w).closure = some t := by rw [hw]; rfl
    refine h.turn hi.frames hi.hold.live (q := .scheduled t) rfl (hsame _) (ht w t hheld)
      rfl (by simp) rfl rfl rfl rfl rfl (.inl rfl) (hi.hold.live w t hheld) rfl (fun _ _ _ _ => rfl)
      ?_
    rintro - g rest hg hred
    obtain ⟨f, hown, hsingle⟩ := hi.frames.single w t (.inr (.inr hw))
    obtain rfl : f = g := (List.cons.inj (hsingle.symm.trans hg)).1
    rw [hi.frames.returning w t f hw hown] at hred
    cases hred
  | @returnChild w t parent x hw hparent hleft hright hsteal =>
    exact h.returnChild hi hw rfl rfl
  | @resumeParent w t parent x hw hparent hleft hright hsteal =>
    obtain ⟨hlivet, hp, hchild, hpt⟩ := hi.links.parent hi.hold hi.frames hw hparent
    obtain ⟨f, hown, hunsynched⟩ := hi.frames.synched parent hp (.inl (List.ne_nil_of_mem hchild))
    have hret : PointerInv (s.returnChild w parent t) (x.returnChild s parent t) x.addr :=
      h.returnChild hi hw rfl rfl
    have hframes := hi.frames.returnChild hi.links hi.hold hw hparent
    have hheldt : (s.phase w).closure = some t := by rw [hw]; rfl
    have hlive : ∀ w' c, ((s.returnChild w parent t).phase w').closure = some c →
        w' ≠ w ∧ (s.phase w').closure = some c := fun w' c hc => stealing_update hc
    refine hret.turn hframes ?_ (w := w) (q := .scheduled parent) rfl
      (hsame _) ?_ rfl (by simp) rfl rfl rfl rfl rfl (.inr rfl)
      ((Function.update_of_ne hpt _ _).trans hp) rfl
      (fun w' _ hww _ => Function.update_of_ne hww _ _) ?_
    · intro w' c hc
      obtain ⟨hww, hc'⟩ := hlive w' c hc
      exact (Function.update_of_ne (ht w t hheldt w' c hww hc') _ _).trans (hi.hold.live w' c hc')
    · rintro w' c hww hc rfl
      exact hi.hold.not_suspended (hlive w' c hc).2 hsteal.2
    · rintro - g rest hg -
      obtain rfl : f = g := by
        obtain ⟨above, hbottom⟩ := hi.frames.bottom parent f hp hown
        obtain ⟨hone, hnone⟩ := hi.links.last_child hp hchild hsteal.1
        obtain ⟨f', hown', hsingle⟩ := hi.frames.parked parent hp hsteal.2 hnone
        obtain rfl : f' = f := Option.some.inj (hown'.symm.trans hown)
        have hg' : s.stack parent = g :: rest := (Function.update_of_ne hpt _ _).symm.trans hg
        exact (List.cons.inj (hsingle.symm.trans hg')).1
      refine (Function.update_self _ _ _).trans ?_
      change (s.frame parent).bind x.extension = some (x.addr f)
      rw [hown]
      exact h.kept parent f hp (hi.frames.frame_mem hp hown) (.inr (.inl hunsynched))
  | @setReturn w t f below parent x hw hstack hcode hsynched hdetached hlast hstolen hparent =>
    have hheld : (s.phase w).closure = some t := by rw [hw]; rfl
    have hlivet := hi.hold.live w t hheld
    have hmem : f ∈ s.stack t := by rw [hstack]; exact List.mem_cons_self
    have hred := hi.frames.user hi.hold hw hmem
    have hpt : parent ≠ t := fun hpt => (hi.tree.older t parent hlivet (.inr hparent)).ne hpt
    have hown := hi.frames.own t f hlivet hmem (.inl hstolen)
    obtain ⟨above, hbottom⟩ := hi.frames.bottom t f hlivet hown
    have hlink := (hl.called t parent above f hlivet hparent hbottom).2
    refine h.drop hi hheld (q := .running parent) rfl (by simp) rfl
      (fun c hct => Function.update_of_ne hct _ _) rfl rfl
      (fun c hct => Function.update_of_ne hct _ _) rfl rfl (h.not_good (by simp [hw])) rfl rfl ?_
      (fun hq => hpt (Option.some.inj hq))
    intro c g rest hq hg
    obtain rfl : parent = c := by simpa using hq
    rw [hg] at hlink
    have hsame := hcalled f g ⟨hred, t, hlivet, hmem⟩ hdetached hlink
    exact (h.worker w t f below (.inl hw) hstack hred).trans (congrArg some hsame)
  | @exitRoot w t f below x hw hstack hcode hsynched hlast =>
    have hheld : (s.phase w).closure = some t := by rw [hw]; rfl
    have hend := (hi.step (.exitRoot hw hstack hcode hsynched hlast)).exited w t
      (Function.update_self _ _ _)
    refine h.turn hi.frames hi.hold.live (q := .exited t) rfl (hsame _)
      (ht w t hheld) (hgood w (by simp [hw])) (by simp) rfl rfl rfl rfl rfl (.inl rfl)
      (hi.hold.live w t hheld) rfl ?_ fun hq => by simp at hq
    intro w' c hww hc
    have hroot := (hend c (hi.hold.live w' c hc)).trans (hend t (hi.hold.live w t hheld)).symm
    exact absurd hroot (ht w t hheld w' c hww hc)
  | syncFast hw hstack hcode hsynched => exact ⟨h.worker, h.kept, h.starting, h.good⟩

end Steps

end Cheetah
