import Cheetah.BusyLeaves
import Cheetah.ExtensionPointers

/-! Which pedigree frames lie on which extension fiber: a worker that spawns has the highest one on
its fiber, so the place right above it is free. -/
namespace Cheetah
open Function (update)

variable {κ V : Type} {s s' : Runtime κ V} {x x' : Extensions} {addr : FrameId → FrameAddr}
  {F : FiberId} {a : FrameAddr}

/-- The place right above a pedigree frame on the fiber, or the lowest one if it is elsewhere. -/
def nextSlot (F : FiberId) : FrameAddr → ℕ
  | .root => 0
  | .slot fiber i => if fiber = F then i + 1 else 0

/-- No pedigree frame on the fiber is above this one. -/
def Runtime.Highest (s : Runtime κ V) (addr : FrameId → FrameAddr) (F : FiberId) (a : FrameAddr) :
    Prop := ∀ g i, s.HasFrame g → addr g = .slot F i → i < nextSlot F a

/-- Where the pedigree frames lie: those on a fiber are below the place where the next one goes, and
a fiber that a stolen closure got has none of the frames that are older than the steal. -/
structure SlotInv (s : Runtime κ V) (x : Extensions) (addr : FrameId → FrameAddr) : Prop where
  extStack : ∀ w c f below F, s.InUserCode w c → s.stack c = f :: below → s.reduction f = false →
    s.fiber c = some F → ∃ pos, x.extStack w = (F, pos) ∧ ((s.deque w).length : ℤ) ≤ pos ∧
      pos ≤ nextSlot F (addr f)
  top : ∀ w c f below F, (s.phase w).closure = some c → s.stack c = f :: below →
    s.reduction f = false → s.fiber c = some F → s.Highest addr F (addr f)
  returning : ∀ w c r p f F, (s.phase w).closure = some c → s.stack c = [r] →
    s.reduction r = true → s.spawnParent c = some p → s.frame p = some f → s.fiber c = some F →
    s.Highest addr F (addr f)
  passed : ∀ c f F, s.live c → s.fiberChild c = some F → s.frame c = some f →
    s.Highest addr F (addr f)
  contiguous : ∀ f g F i, s.HasFrame f → s.detached f = true → x.callParent f = some g →
    addr f = .slot F (i+1) → addr g = .slot F i
  kept : ∀ f F i, s.HasFrame f → addr f = .slot F i → F < s.numFibers ∧ F ∉ s.freed
  away : ∀ c f F, s.live c → s.origRsp c ≠ none → s.frame c = some f → s.fiber c = some F →
    nextSlot F (addr f) = 0
  awayChild : ∀ k p f F, s.live k → s.spawnParent k = some p → s.home k ≠ s.home p →
    s.frame p = some f → s.home k = some F → nextSlot F (addr f) = 0

theorem slotInv_initial (code : Code κ V) (views : Option (ViewMap κ V)) (root : PedigreeFrame) :
    SlotInv (initialRuntime code views) (initialExtensions root) fun _ => .root where
  extStack := by
    intro w c f below F hw
    rcases hw with hw | hw | ⟨-, hw⟩
    · exact absurd hw (by simp only [initialRuntime]; split <;> simp)
    · exact absurd hw (by simp only [initialRuntime]; split <;> simp)
    · cases hw
  top := fun _ _ _ _ _ _ _ _ _ _ _ _ h => by cases h
  returning := fun _ _ _ _ _ _ _ _ h => by cases h
  passed := fun _ _ _ _ h => by cases h
  contiguous := fun _ _ _ _ _ h => by cases h
  kept := fun _ _ _ _ h => by cases h
  away := fun _ _ _ _ h => absurd rfl h
  awayChild := fun _ _ _ _ _ h => by cases h

section Rules

theorem nextSlot_self {i : ℕ} : nextSlot F (.slot F i) = i + 1 := if_pos rfl

theorem nextSlot_pos (h : nextSlot F a ≠ 0) : a = .slot F (nextSlot F a - 1) := by
  cases a with
  | root => exact absurd rfl h
  | slot fiber i =>
    by_cases hF : fiber = F
    · rw [hF, nextSlot_self, Nat.add_sub_cancel]
    · exact absurd (if_neg hF) h

theorem Highest.mono (h : s.Highest addr F a) (hhas : ∀ g, s'.HasFrame g → s.HasFrame g) :
    s'.Highest addr F a := fun g i hg => h g i (hhas g hg)

/-- There is no frame on the fiber. -/
theorem Highest.none (h : s.Highest addr F a) (ha : nextSlot F a = 0) {g : FrameId} {i : ℕ}
    (hg : s.HasFrame g) : addr g ≠ .slot F i := by
  intro haddr
  have hlt := h g i hg haddr
  rw [ha] at hlt
  cases hlt

/-- Where a worker in user code was before another one, or it, went on. -/
theorem Runtime.InUserCode.before {w w' : WorkerId} {q : Phase} {c : ClosureId}
    (h : s'.InUserCode w' c) (hphase : s'.phase = update s.phase w q)
    (hgood : ∀ w', w' ≠ w → s'.provablyGoodSteal w' = s.provablyGoodSteal w') :
    w' = w ∧ (q = .running c ∨ q = .reducing c ∨ q = .scheduled c ∧ s'.provablyGoodSteal w = true) ∨
      w' ≠ w ∧ s.InUserCode w' c := by
  rw [Runtime.InUserCode, hphase] at h
  by_cases hww : w' = w
  · subst hww
    rw [Function.update_self] at h
    exact .inl ⟨rfl, h⟩
  · rw [Function.update_of_ne hww, hgood w' hww] at h
    exact .inr ⟨hww, h⟩

/-- The closures stay as they are, with their fibers. -/
structure SameClosures (s s' : Runtime κ V) : Prop where
  live : s'.live = s.live
  frame : s'.frame = s.frame
  fiber : s'.fiber = s.fiber
  fiberChild : s'.fiberChild = s.fiberChild
  home : s'.home = s.home
  origRsp : s'.origRsp = s.origRsp
  spawnParent : s'.spawnParent = s.spawnParent
  numFibers : s'.numFibers = s.numFibers
  freed : s'.freed = s.freed

/-- The frames keep their flags, and the closures the fibers that they were made on. -/
structure SameHomes (s s' : Runtime κ V) : Prop where
  detached : s'.detached = s.detached
  reduction : s'.reduction = s.reduction
  home : s'.home = s.home
  spawnParent : s'.spawnParent = s.spawnParent
  numFibers : s'.numFibers = s.numFibers

/-- A worker goes on with the closure that it holds. -/
theorem SlotInv.turn (h : SlotInv s x addr) (hsame : SameClosures s s')
    (hstack : s'.stack = s.stack) (hdetached : s'.detached = s.detached)
    (hreduction : s'.reduction = s.reduction) (hcallParent : x'.callParent = x.callParent)
    (hclosure : ∀ w c, (s'.phase w).closure = some c → (s.phase w).closure = some c)
    (hextStack : ∀ w c f below F, s'.InUserCode w c → s.stack c = f :: below →
      s.reduction f = false → s.fiber c = some F → ∃ pos, x'.extStack w = (F, pos) ∧
        ((s'.deque w).length : ℤ) ≤ pos ∧ pos ≤ nextSlot F (addr f)) : SlotInv s' x' addr := by
  obtain ⟨hlive, hframe, hfiber, hfiberChild, hhome, horigRsp, hspawnParent, hbound, hfreed⟩ :=
    hsame
  have hhas : ∀ f, s'.HasFrame f ↔ s.HasFrame f := by
    intro f
    simp only [Runtime.HasFrame, hlive, hstack, hreduction]
  have hhighest : ∀ F a, s'.Highest addr F a ↔ s.Highest addr F a := by
    intro F a
    simp only [Runtime.Highest, hhas]
  constructor
  case extStack =>
    rw [hstack, hreduction, hfiber]
    exact hextStack
  case top =>
    intro w c f below F hw
    rw [hstack, hreduction, hfiber, hhighest]
    exact h.top w c f below F (hclosure w c hw)
  case returning =>
    intro w c r p f F hw
    rw [hstack, hreduction, hfiber, hspawnParent, hframe, hhighest]
    exact h.returning w c r p f F (hclosure w c hw)
  all_goals
    simp only [hhas, hhighest, hlive, hdetached, hframe, hfiber, hfiberChild, hhome, horigRsp,
      hspawnParent, hbound, hfreed, hcallParent]
  case passed => exact h.passed
  case contiguous => exact h.contiguous
  case kept => exact h.kept
  case away => exact h.away
  case awayChild => exact h.awayChild

/-- The fiber of a closure is not in the pool. -/
theorem FiberInv.fiber_kept (hx : FiberInv s) (hi : SchedInv s) {c : ClosureId} (hc : s.live c)
    (hF : s.fiber c = some F) : F ∉ s.freed := by
  by_cases hcalm : s.origRsp c = none
  · rw [(hx.calm c hc hcalm).1] at hF
    exact hx.home_kept hi.links hi.tree c F hc hF
  · exact hx.kept c F ⟨hc, .inr ⟨hF, hcalm⟩⟩

/-- What is common to calls and spawns: the new frame has the pedigree frame of the one below, or
one right above it. -/
theorem SlotInv.push (h : SlotInv s x addr) (hi : SchedInv s) (hl : CallLinks s x)
    (ha : FibersApart s) (hx : FiberInv s) {w : WorkerId} {t : ClosureId} {f : FrameId}
    {below : List FrameId} {d : Bool} (hw : s.phase w = .running t)
    (hstack : s.stack t = f :: below) (hF : s.fiber t = some F) (hsame : SameClosures s s')
    (hstack' : s'.stack = update s.stack t (s.numFrames :: f :: below))
    (hdetached : s'.detached = update s.detached s.numFrames d)
    (hreduction : s'.reduction = update s.reduction s.numFrames false)
    (hphase : s'.phase = s.phase) (hgood : s'.provablyGoodSteal = s.provablyGoodSteal)
    (hcallParent : x'.callParent = update x.callParent s.numFrames (some f))
    (hplace : d = false ∧ a = addr f ∨ a = .slot F (nextSlot F (addr f)))
    (hdeques : ∀ w', w' ≠ w → s'.deque w' = s.deque w')
    (hextStacks : ∀ w', w' ≠ w → x'.extStack w' = x.extStack w')
    (hextStack : ∃ pos, x'.extStack w = (F, pos) ∧ ((s'.deque w).length : ℤ) ≤ pos ∧
      pos ≤ nextSlot F a) : SlotInv s' x' (update addr s.numFrames a) := by
  obtain ⟨hlive, hframe, hfiber, hfiberChild, hhome, horigRsp, hspawnParent, hbound, hfreed⟩ :=
    hsame
  have hheld : (s.phase w).closure = some t := by rw [hw]; rfl
  have hlivet := hi.hold.live w t hheld
  have hmemf : f ∈ s.stack t := by rw [hstack]; exact List.mem_cons_self
  have hredf := hi.frames.user hi.hold hw hmemf
  have hhasf : s.HasFrame f := ⟨hredf, t, hlivet, hmemf⟩
  have hnew : ∀ g, s.HasFrame g → update addr s.numFrames a g = addr g :=
    fun g hg => Function.update_of_ne (hi.has_lt hg).ne _ _
  have hframes : ∀ c g, s.live c → s.frame c = some g → update addr s.numFrames a g = addr g :=
    fun c g hc hg => Function.update_of_ne (hi.new_frame hc (hi.frames.frame_mem hc hg)) _ _
  have hhas : ∀ g, s'.HasFrame g → g = s.numFrames ∨ s.HasFrame g := by
    rintro g ⟨hred, c, hc, hg⟩
    by_cases hgn : g = s.numFrames
    · exact .inl hgn
    · rw [hreduction, Function.update_of_ne hgn] at hred
      rw [hlive] at hc
      rw [hstack'] at hg
      by_cases hct : c = t
      · subst hct
        rw [Function.update_self] at hg
        exact .inr ⟨hred, c, hc, hstack ▸ (List.mem_cons.mp hg).resolve_left hgn⟩
      · rw [Function.update_of_ne hct] at hg
        exact .inr ⟨hred, c, hc, hg⟩
  have hself : update addr s.numFrames a s.numFrames = a := Function.update_self _ _ _
  have hstackt : s'.stack t = s.numFrames :: f :: below := by rw [hstack', Function.update_self]
  have hother : ∀ F' b, F' ≠ F → s.Highest addr F' b →
      s'.Highest (update addr s.numFrames a) F' b := by
    intro F' b hne hb g i hg hslot
    rcases hhas g hg with rfl | hg
    · rw [hself] at hslot
      rcases hplace with ⟨-, hsame⟩ | hsame
      · exact hb f i hhasf (hsame ▸ hslot)
      · rw [hsame] at hslot
        exact absurd (FrameAddr.slot.inj hslot).1.symm hne
    · rw [hnew g hg] at hslot
      exact hb g i hg hslot
  have hhighest : s'.Highest (update addr s.numFrames a) F a := by
    intro g i hg hslot
    rcases hhas g hg with rfl | hg
    · rw [hself] at hslot
      rw [hslot, nextSlot_self]
      exact Nat.lt_succ_self i
    · rw [hnew g hg] at hslot
      have hlt := h.top w t f below F hheld hstack hredf hF g i hg hslot
      rcases hplace with ⟨-, hsame⟩ | hsame
      · rwa [hsame]
      · rw [hsame, nextSlot_self]
        exact Nat.lt_succ_of_lt hlt
  have hapart : ∀ w' c F', (s.phase w').closure = some c → c ≠ t → s.fiber c = some F' →
      F' ≠ F := by
    rintro w' c F' hc hct hF' rfl
    exact hct (ha.sole c t F' ⟨hi.hold.live w' c hc, .inl ⟨⟨w', hc⟩, hF'⟩⟩
      ⟨hlivet, .inl ⟨⟨w, hheld⟩, hF⟩⟩)
  constructor
  case extStack =>
    intro w' c g rest F' hw' hg hred hF'
    rw [hfiber] at hF'
    have hw'' : s.InUserCode w' c := by
      simpa only [Runtime.InUserCode, hphase, hgood] using hw'
    by_cases hct : c = t
    · subst hct
      obtain rfl := hi.hold.unique w' w c hw''.held hheld
      obtain rfl : F = F' := Option.some.inj (hF.symm.trans hF')
      obtain ⟨rfl, -⟩ := List.cons.inj (hstackt.symm.trans hg)
      rw [hself]
      exact hextStack
    · have hww : w' ≠ w := by
        rintro rfl
        exact hct (Option.some.inj (hw''.held.symm.trans hheld))
      have hc := hi.hold.live w' c hw''.held
      rw [hstack', Function.update_of_ne hct] at hg
      have hmem : g ∈ s.stack c := by rw [hg]; exact List.mem_cons_self
      have hgn := hi.new_frame hc hmem
      rw [hreduction, Function.update_of_ne hgn] at hred
      rw [hextStacks w' hww, hdeques w' hww, Function.update_of_ne hgn]
      exact h.extStack w' c g rest F' hw'' hg hred hF'
  case top =>
    intro w' c g rest F' hw' hg hred hF'
    rw [hphase] at hw'
    rw [hfiber] at hF'
    by_cases hct : c = t
    · subst hct
      obtain rfl : F = F' := Option.some.inj (hF.symm.trans hF')
      obtain ⟨rfl, -⟩ := List.cons.inj (hstackt.symm.trans hg)
      rw [hself]
      exact hhighest
    · rw [hstack', Function.update_of_ne hct] at hg
      have hmem : g ∈ s.stack c := by rw [hg]; exact List.mem_cons_self
      have hgn := hi.new_frame (hi.hold.live w' c hw') hmem
      rw [hreduction, Function.update_of_ne hgn] at hred
      rw [Function.update_of_ne hgn]
      exact hother F' _ (hapart w' c F' hw' hct hF') (h.top w' c g rest F' hw' hg hred hF')
  case returning =>
    intro w' c r p g F' hw' hr hred hparent hg hF'
    rw [hphase] at hw'
    rw [hfiber] at hF'
    rw [hspawnParent] at hparent
    rw [hframe] at hg
    have hc := hi.hold.live w' c hw'
    have hct : c ≠ t := by
      rintro rfl
      exact absurd (hstackt.symm.trans hr) (by simp)
    rw [hstack', Function.update_of_ne hct] at hr
    have hrn := hi.new_frame hc (f := r) (by rw [hr]; exact List.mem_cons_self)
    rw [hreduction, Function.update_of_ne hrn] at hred
    rw [hframes p g (hi.links.spawner c p hc hparent) hg]
    exact hother F' _ (hapart w' c F' hw' hct hF')
      (h.returning w' c r p g F' hw' hr hred hparent hg hF')
  case passed =>
    intro c g F' hc hF' hg
    rw [hlive] at hc
    rw [hfiberChild] at hF'
    rw [hframe] at hg
    rw [hframes c g hc hg]
    apply hother F' _ _ (h.passed c g F' hc hF' hg)
    rintro rfl
    obtain rfl := ha.sole c t F' ⟨hc, .inr hF'⟩ ⟨hlivet, .inl ⟨⟨w, hheld⟩, hF⟩⟩
    exact hx.fiberChild_ne hlivet hF hF'
  case contiguous =>
    intro g k F' i hg hd hparent hslot
    rw [hdetached] at hd
    rw [hcallParent] at hparent
    rcases hhas g hg with rfl | hg
    · rw [Function.update_self] at hd hparent
      rw [hself] at hslot
      obtain rfl := Option.some.inj hparent
      rw [hnew f hhasf]
      have hhigh : a = .slot F (nextSlot F (addr f)) :=
        hplace.resolve_left fun hcall => by simp [hcall.1] at hd
      rw [hhigh] at hslot
      obtain ⟨rfl, hi'⟩ := FrameAddr.slot.inj hslot
      rw [nextSlot_pos (F := F) (a := addr f) (by rw [hi']; exact Nat.succ_ne_zero i), hi']
      rfl
    · have hgn := (hi.has_lt hg).ne
      rw [Function.update_of_ne hgn] at hd hparent
      rw [hnew g hg] at hslot
      rw [Function.update_of_ne (hl.parent_lt hi hg hparent).ne]
      exact h.contiguous g k F' i hg hd hparent hslot
  case kept =>
    intro g F' i hg hslot
    rw [hbound, hfreed]
    rcases hhas g hg with rfl | hg
    · rw [hself] at hslot
      rcases hplace with ⟨-, hsame⟩ | hsame
      · exact h.kept f F' i hhasf (hsame ▸ hslot)
      · rw [hsame] at hslot
        obtain ⟨rfl, -⟩ := FrameAddr.slot.inj hslot
        exact ⟨hx.bound t F hlivet (.inr hF), hx.fiber_kept hi hlivet hF⟩
    · rw [hnew g hg] at hslot
      exact h.kept g F' i hg hslot
  case away =>
    intro c g F' hc hsp hg hF'
    rw [hlive] at hc
    rw [horigRsp] at hsp
    rw [hframe] at hg
    rw [hfiber] at hF'
    rw [hframes c g hc hg]
    exact h.away c g F' hc hsp hg hF'
  case awayChild =>
    intro k p g F' hk hparent hne hg hF'
    rw [hlive] at hk
    rw [hspawnParent] at hparent
    rw [hhome] at hne hF'
    rw [hframe] at hg
    rw [hframes p g (hi.links.spawner k p hk hparent) hg]
    exact h.awayChild k p g F' hk hparent hne hg hF'

/-- When a spawn helper is left, the pedigree frame of its spawner is the highest one. -/
theorem SlotInv.highest_below (h : SlotInv s x addr) {f g : FrameId} (hf : s.HasFrame f)
    (hd : s.detached f = true) (hparent : x.callParent f = some g)
    (halone : ∀ k, s.HasFrame k → addr k = addr f → k = f) (htop : s.Highest addr F (addr f))
    (hhas : ∀ k, s'.HasFrame k → s.HasFrame k ∧ k ≠ f) :
    s'.Highest addr F (addr g) ∧ nextSlot F (addr f) ≤ nextSlot F (addr g) + 1 := by
  have hstep : ∀ i, addr f = .slot F (i+1) → nextSlot F (addr g) = i + 1 := by
    intro i hslot
    rw [h.contiguous f g F i hf hd hparent hslot, nextSlot_self]
  by_cases hzero : nextSlot F (addr f) = 0
  · refine ⟨fun k i hk hslot => ?_, by omega⟩
    exact absurd hslot (Highest.none htop hzero (hhas k hk).1)
  · have hslotf := nextSlot_pos hzero
    cases hlast : nextSlot F (addr f) - 1 with
    | zero =>
      rw [hlast] at hslotf
      refine ⟨fun k i hk hslot => ?_, by omega⟩
      obtain ⟨hk', hkf⟩ := hhas k hk
      have hlt := htop k i hk' hslot
      obtain rfl : i = 0 := by omega
      exact absurd (halone k hk' (hslot.trans hslotf.symm)) hkf
    | succ i =>
      rw [hlast] at hslotf
      have hg := hstep i hslotf
      refine ⟨fun k j hk hslot => ?_, by omega⟩
      obtain ⟨hk', hkf⟩ := hhas k hk
      have hlt := htop k j hk' hslot
      rw [hg]
      by_contra hge
      obtain rfl : j = i + 1 := by omega
      exact hkf (halone k hk' (hslot.trans hslotf.symm))

/-- What is common to returns from calls and spawns: the youngest frame is left. -/
theorem SlotInv.pop (h : SlotInv s x addr) (hi : SchedInv s) {w : WorkerId} {t : ClosureId}
    {f : FrameId} {below : List FrameId} (hw : s.phase w = .running t)
    (hstack : s.stack t = f :: below) (hsame : SameClosures s s')
    (hstack' : s'.stack = update s.stack t below)
    (hdetached : ∀ g, g ≠ f → s'.detached g = s.detached g)
    (hreduction : s'.reduction = s.reduction) (hphase : s'.phase = s.phase)
    (hgood : s'.provablyGoodSteal = s.provablyGoodSteal)
    (hcallParent : x'.callParent = x.callParent)
    (hdeques : ∀ w', w' ≠ w → s'.deque w' = s.deque w')
    (hextStacks : ∀ w', w' ≠ w → x'.extStack w' = x.extStack w')
    (hbelow : (∀ k, s'.HasFrame k → s.HasFrame k ∧ k ≠ f) → ∀ g rest F, below = g :: rest →
      s.fiber t = some F → s'.Highest addr F (addr g) ∧ ∃ pos, x'.extStack w = (F, pos) ∧
        ((s'.deque w).length : ℤ) ≤ pos ∧ pos ≤ nextSlot F (addr g)) : SlotInv s' x' addr := by
  obtain ⟨hlive, hframe, hfiber, hfiberChild, hhome, horigRsp, hspawnParent, hbound, hfreed⟩ :=
    hsame
  have hheld : (s.phase w).closure = some t := by rw [hw]; rfl
  have hlivet := hi.hold.live w t hheld
  have hhas : ∀ g, s'.HasFrame g → s.HasFrame g ∧ g ≠ f := by
    rintro g ⟨hred, c, hc, hg⟩
    rw [hreduction] at hred
    rw [hlive] at hc
    rw [hstack'] at hg
    by_cases hct : c = t
    · subst hct
      rw [Function.update_self] at hg
      refine ⟨⟨hred, c, hc, by rw [hstack]; exact List.mem_cons_of_mem f hg⟩, ?_⟩
      rintro rfl
      have hnodup := hi.frames.nodup c hc
      rw [hstack] at hnodup
      exact (List.nodup_cons.mp hnodup).1 hg
    · rw [Function.update_of_ne hct] at hg
      refine ⟨⟨hred, c, hc, hg⟩, ?_⟩
      rintro rfl
      exact hct (hi.frames.disjoint c t g hc hlivet hg (by rw [hstack]; exact List.mem_cons_self))
  have hmono : ∀ F a, s.Highest addr F a → s'.Highest addr F a :=
    fun F a ha => Highest.mono ha fun g hg => (hhas g hg).1
  constructor
  case extStack =>
    intro w' c g rest F hw' hg hred hF
    rw [hfiber] at hF
    have hw'' : s.InUserCode w' c := by
      simpa only [Runtime.InUserCode, hphase, hgood] using hw'
    rw [hstack'] at hg
    by_cases hct : c = t
    · subst hct
      obtain rfl := hi.hold.unique w' w c hw''.held hheld
      rw [Function.update_self] at hg
      exact (hbelow hhas g rest F hg hF).2
    · have hww : w' ≠ w := by
        rintro rfl
        exact hct (Option.some.inj (hw''.held.symm.trans hheld))
      rw [Function.update_of_ne hct] at hg
      rw [hreduction] at hred
      rw [hextStacks w' hww, hdeques w' hww]
      exact h.extStack w' c g rest F hw'' hg hred hF
  case top =>
    intro w' c g rest F hw' hg hred hF
    rw [hphase] at hw'
    rw [hfiber] at hF
    rw [hstack'] at hg
    by_cases hct : c = t
    · subst hct
      rw [Function.update_self] at hg
      exact (hbelow hhas g rest F hg hF).1
    · rw [Function.update_of_ne hct] at hg
      rw [hreduction] at hred
      exact hmono F _ (h.top w' c g rest F hw' hg hred hF)
  case returning =>
    intro w' c r p g F hw' hr hred hparent hg hF
    rw [hphase] at hw'
    rw [hfiber] at hF
    rw [hspawnParent] at hparent
    rw [hframe] at hg
    rw [hreduction] at hred
    have hct : c ≠ t := by
      rintro rfl
      rw [hstack', Function.update_self] at hr
      have hmem : r ∈ s.stack c := by rw [hstack, hr]; simp
      rw [hi.frames.user hi.hold hw hmem] at hred
      cases hred
    rw [hstack', Function.update_of_ne hct] at hr
    exact hmono F _ (h.returning w' c r p g F hw' hr hred hparent hg hF)
  case passed =>
    rw [hlive, hfiberChild, hframe]
    exact fun c g F hc hF hg => hmono F _ (h.passed c g F hc hF hg)
  case contiguous =>
    intro g k F i hg hd hparent hslot
    obtain ⟨hg', hgf⟩ := hhas g hg
    rw [hdetached g hgf] at hd
    rw [hcallParent] at hparent
    exact h.contiguous g k F i hg' hd hparent hslot
  case kept =>
    rw [hbound, hfreed]
    exact fun g F i hg => h.kept g F i (hhas g hg).1
  case away =>
    rw [hlive, horigRsp, hframe, hfiber]
    exact h.away
  case awayChild =>
    rw [hlive, hspawnParent, hhome, hframe]
    exact h.awayChild

/-- The oldest frame of a closure makes way for the frame of the reductions. Nothing was stolen from
the closure since its last sync, so no parent waits with that frame. -/
theorem SlotInv.handle (h : SlotInv s x addr) (hi : SchedInv s) (hl : CallLinks s x)
    (hx : FiberInv s) {w : WorkerId} {t : ClosureId} {f : FrameId} (hw : s.phase w = .running t)
    (hstack : s.stack t = [f]) (hsynched : s.unsynched f = false)
    (halone : s.detached f = true → ∀ k, s.HasFrame k → addr k = addr f → k = f)
    (hphase : s'.phase = update s.phase w (.returning t)) (hlive : s'.live = s.live)
    (hstack' : ∀ c, s'.stack c = if c = t then [s.numFrames] else s.stack c)
    (hdetached : ∀ g, g ≠ f → g ≠ s.numFrames → s'.detached g = s.detached g)
    (hreduction : s'.reduction = update s.reduction s.numFrames true)
    (hframe : s'.frame = update s.frame t (some s.numFrames))
    (hgood : s'.provablyGoodSteal = s.provablyGoodSteal) (hfiber : s'.fiber = s.fiber)
    (hfiberChild : s'.fiberChild = s.fiberChild) (hhome : s'.home = s.home)
    (horigRsp : s'.origRsp = s.origRsp) (hspawnParent : s'.spawnParent = s.spawnParent)
    (hbound : s'.numFibers = s.numFibers) (hfreed : s'.freed = s.freed)
    (hcallParent : x'.callParent = x.callParent)
    (hdeques : ∀ w', w' ≠ w → s'.deque w' = s.deque w')
    (hextStacks : ∀ w', w' ≠ w → x'.extStack w' = x.extStack w') : SlotInv s' x' addr := by
  have hheld : (s.phase w).closure = some t := by rw [hw]; rfl
  have hlivet := hi.hold.live w t hheld
  have hmemf : f ∈ s.stack t := by rw [hstack]; exact List.mem_cons_self
  have hredf := hi.frames.user hi.hold hw hmemf
  have hhasf : s.HasFrame f := ⟨hredf, t, hlivet, hmemf⟩
  have hown : ∀ g, s.frame t = some g → s.unsynched g = false := by
    intro g hg
    have hmem := hi.frames.frame_mem hlivet hg
    rw [hstack] at hmem
    rwa [List.mem_singleton.mp hmem]
  have hcalm := hx.calm_of_frame hi.frames hlivet hown
  have hhas : ∀ g, s'.HasFrame g → s.HasFrame g ∧ g ≠ f := by
    rintro g ⟨hred, c, hc, hg⟩
    have hgn : g ≠ s.numFrames := by
      rintro rfl
      rw [hreduction, Function.update_self] at hred
      cases hred
    rw [hreduction, Function.update_of_ne hgn] at hred
    rw [hlive] at hc
    rw [hstack'] at hg
    by_cases hct : c = t
    · rw [if_pos hct] at hg
      exact absurd (List.mem_singleton.mp hg) hgn
    · rw [if_neg hct] at hg
      refine ⟨⟨hred, c, hc, hg⟩, ?_⟩
      rintro rfl
      exact hct (hi.frames.disjoint c t g hc hlivet hg hmemf)
  have hmono : ∀ F a, s.Highest addr F a → s'.Highest addr F a :=
    fun F a ha => Highest.mono ha fun g hg => (hhas g hg).1
  have hnow : s'.phase w = .returning t := by rw [hphase, Function.update_self]
  have hother : ∀ w', w' ≠ w → s'.phase w' = s.phase w' := by
    intro w' hww
    rw [hphase, Function.update_of_ne hww]
  have hout : ∀ w' c, w' ≠ w → (s.phase w').closure = some c → c ≠ t := by
    rintro w' c hww hc rfl
    exact hww (hi.hold.unique w' w c hc hheld)
  have hparents : ∀ k, s.live k → s.spawnParent k ≠ some t := by
    intro k hk hparent
    have hchild := (hi.links.child t k hlivet).mpr ⟨hk, hparent⟩
    obtain ⟨g, hg, hunsynched⟩ := hi.frames.synched t hlivet (.inl (List.ne_nil_of_mem hchild))
    rw [hown g hg] at hunsynched
    cases hunsynched
  constructor
  case extStack =>
    intro w' c g rest F hw' hg hred hF
    have hww : w' ≠ w := by
      rintro rfl
      rw [Runtime.InUserCode, hnow] at hw'
      simp at hw'
    have hold : s.InUserCode w' c := by
      simpa only [Runtime.InUserCode, hother w' hww, hgood] using hw'
    have hct := hout w' c hww hold.held
    rw [hstack', if_neg hct] at hg
    have hgn := hi.new_frame (hi.hold.live w' c hold.held) (f := g) (by rw [hg]; simp)
    rw [hreduction, Function.update_of_ne hgn] at hred
    rw [hfiber] at hF
    rw [hextStacks w' hww, hdeques w' hww]
    exact h.extStack w' c g rest F hold hg hred hF
  case top =>
    intro w' c g rest F hw' hg hred hF
    rw [hfiber] at hF
    rw [hstack'] at hg
    by_cases hct : c = t
    · rw [if_pos hct] at hg
      obtain ⟨rfl, -⟩ := List.cons.inj hg
      rw [hreduction, Function.update_self] at hred
      cases hred
    · rw [if_neg hct] at hg
      have hww : w' ≠ w := by
        rintro rfl
        rw [hnow] at hw'
        exact hct (Option.some.inj hw').symm
      rw [hother w' hww] at hw'
      have hgn := hi.new_frame (hi.hold.live w' c hw') (f := g) (by rw [hg]; simp)
      rw [hreduction, Function.update_of_ne hgn] at hred
      exact hmono F _ (h.top w' c g rest F hw' hg hred hF)
  case returning =>
    intro w' c r p g F hw' hr hred hparent hg hF
    rw [hfiber] at hF
    rw [hspawnParent] at hparent
    rw [hstack'] at hr
    by_cases hct : c = t
    · subst hct
      have hpt : p ≠ c := (hi.tree.older c p hlivet (.inl hparent)).ne
      rw [hframe, Function.update_of_ne hpt] at hg
      obtain ⟨hd, hlink⟩ := hl.spawned c p [] f hlivet hparent hstack hredf
      have htop := h.top w c f [] F hheld hstack hredf hF
      exact (h.highest_below hhasf hd (hlink.trans hg) (halone hd) htop hhas).1
    · rw [if_neg hct] at hr
      have hww : w' ≠ w := by
        rintro rfl
        rw [hnow] at hw'
        exact hct (Option.some.inj hw').symm
      rw [hother w' hww] at hw'
      have hc := hi.hold.live w' c hw'
      have hrn := hi.new_frame hc (f := r) (by rw [hr]; simp)
      rw [hreduction, Function.update_of_ne hrn] at hred
      have hpt : p ≠ t := by
        rintro rfl
        exact hparents c hc hparent
      rw [hframe, Function.update_of_ne hpt] at hg
      exact hmono F _ (h.returning w' c r p g F hw' hr hred hparent hg hF)
  case passed =>
    intro c g F hc hF hg
    rw [hlive] at hc
    rw [hfiberChild] at hF
    have hct : c ≠ t := by
      rintro rfl
      rw [(hx.calm c hlivet hcalm).2.1] at hF
      cases hF
    rw [hframe, Function.update_of_ne hct] at hg
    exact hmono F _ (h.passed c g F hc hF hg)
  case contiguous =>
    intro g k F i hg hd hparent hslot
    obtain ⟨hg', hgf⟩ := hhas g hg
    rw [hdetached g hgf (hi.has_lt hg').ne] at hd
    rw [hcallParent] at hparent
    exact h.contiguous g k F i hg' hd hparent hslot
  case kept =>
    rw [hbound, hfreed]
    exact fun g F i hg => h.kept g F i (hhas g hg).1
  case away =>
    intro c g F hc hsp hg hF
    rw [hlive] at hc
    rw [horigRsp] at hsp
    rw [hfiber] at hF
    have hct : c ≠ t := by
      rintro rfl
      exact hsp hcalm
    rw [hframe, Function.update_of_ne hct] at hg
    exact h.away c g F hc hsp hg hF
  case awayChild =>
    intro k p g F hk hparent hne hg hF
    rw [hlive] at hk
    rw [hspawnParent] at hparent
    rw [hhome] at hne hF
    have hpt : p ≠ t := by
      rintro rfl
      exact hparents k hk hparent
    rw [hframe, Function.update_of_ne hpt] at hg
    exact h.awayChild k p g F hk hparent hne hg hF

theorem SlotInv.promoteHelper (h : SlotInv s x addr) (hi : SchedInv s) (hx : FiberInv s)
    {victim : WorkerId} {cl : ClosureId} {f : FrameId} {parents above below : List FrameId}
    (hvictim : s.phase victim = .running cl) (hdeque : s.deque victim = f :: parents)
    (hstack : s.stack cl = above ++ f :: below) (hframe : s.frame cl ≠ some f)
    (hdetached : s.detached f = true) : SlotInv (s.promoteHelper cl f) x addr := by
  have hlive := hi.hold.live victim cl (by rw [hvictim]; rfl)
  have hnone := hi.frames.helper_none hi.hold hvictim hdeque hstack hframe hdetached
  have hcalm := hx.calm_of_frame hi.frames hlive fun g hg => by
    rw [hnone] at hg
    cases hg
  have hparents : ∀ k, s.live k → s.spawnParent k ≠ some cl := by
    intro k hk hparent
    have hchild := (hi.links.child cl k hlive).mpr ⟨hk, hparent⟩
    obtain ⟨g, hg, -⟩ := hi.frames.synched cl hlive (.inl (List.ne_nil_of_mem hchild))
    rw [hnone] at hg
    cases hg
  have hother : ∀ c g, c ≠ cl → (s.promoteHelper cl f).frame c = some g → s.frame c = some g :=
    fun c g hc hg => (Function.update_of_ne hc _ _).symm.trans hg
  constructor
  case extStack => exact h.extStack
  case top => exact h.top
  case returning =>
    intro w c r p g F hw hr hred hparent hg hF
    have hc := hi.hold.live w c hw
    have hpc : p ≠ cl := by
      rintro rfl
      exact hparents c hc hparent
    exact h.returning w c r p g F hw hr hred hparent (hother p g hpc hg) hF
  case passed =>
    intro c g F hc hF hg
    have hcc : c ≠ cl := by
      rintro rfl
      exact absurd ((hx.calm c hlive hcalm).2.1.symm.trans hF) (by simp)
    exact h.passed c g F hc hF (hother c g hcc hg)
  case contiguous => exact h.contiguous
  case kept => exact h.kept
  case away =>
    intro c g F hc hsp hg hF
    have hcc : c ≠ cl := by
      rintro rfl
      exact hsp hcalm
    exact h.away c g F hc hsp (hother c g hcc hg) hF
  case awayChild =>
    intro k p g F hk hparent hne hg hF
    have hpc : p ≠ cl := by
      rintro rfl
      exact hparents k hk hparent
    exact h.awayChild k p g F hk hparent hne (hother p g hpc hg) hF

/-- The child goes on with the fiber, and nothing is on that of the thief. -/
theorem SlotInv.steal (h : SlotInv s x addr) (hi : SchedInv s) (hx : FiberInv s)
    (hp : PointerInv s x addr) {w victim : WorkerId} {cl k res : ClosureId} {f : FrameId}
    {parents above below : List FrameId}
    (hs : Splits s s' w victim cl k res f parents above below) (hf : SplitsFiber s s' cl k res)
    (hw : s.phase w = .stealing) (hvictim : s.phase victim = .running cl)
    (hdeque : s.deque victim = f :: parents) (hstack : s.stack cl = above ++ f :: below)
    (hk : ¬ s.live k) (hkr : k ≠ res) (hres : res = cl ∧ s.frame cl = some f ∨ ¬ s.live res)
    (hhas : ∀ g, s'.HasFrame g → s.HasFrame g) (hcallParent : x'.callParent = x.callParent)
    (hextStacks : x'.extStack = x.extStack) : SlotInv s' x' addr := by
  have hheld : (s.phase victim).closure = some cl := by rw [hvictim]; rfl
  have hcl := hi.hold.live victim cl hheld
  have hmemf : f ∈ s.stack cl := by rw [hstack]; simp
  have hredf := hi.frames.user hi.hold hvictim hmemf
  have hhasf : s.HasFrame f := ⟨hredf, cl, hcl, hmemf⟩
  have hsteal := hp.not_good (w := w) (by simp [hw])
  have hmono : ∀ F a, s.Highest addr F a → s'.Highest addr F a :=
    fun F a ha => Highest.mono ha hhas
  have hempty : ∀ g i, s.HasFrame g → addr g ≠ .slot s.numFibers i :=
    fun g i hg hslot => (h.kept g _ i hg hslot).1.ne rfl
  have hzero : nextSlot s.numFibers (addr f) = 0 := by
    by_contra hne
    exact hempty f _ hhasf (nextSlot_pos hne)
  have hfiberk : s'.fiber k = s.fiber cl := by
    rw [hf.fiber, Function.update_of_ne hkr, Function.update_self]
  have hfiberRes : s'.fiber res = some s.numFibers := by rw [hf.fiber, Function.update_self]
  have hfiber : ∀ c, c ≠ k → c ≠ res → s'.fiber c = s.fiber c := by
    intro c hck hcr
    rw [hf.fiber, Function.update_of_ne hcr, Function.update_of_ne hck]
  have hframe : ∀ c g, s.live c → s'.frame c = some g → s.frame c = some g := by
    intro c g hc hg
    have hck : c ≠ k := by
      rintro rfl
      exact hk hc
    by_cases hcr : c = res
    · subst hcr
      obtain ⟨rfl, hown⟩ := hres.resolve_right fun hr => hr hc
      rw [hs.frameRes] at hg
      rwa [hg] at hown
    · rwa [hs.frame c hck hcr] at hg
  have hothers : ∀ w' c, w' ≠ w → w' ≠ victim → (s.phase w').closure = some c →
      c ≠ k ∧ c ≠ res ∧ c ≠ cl := by
    intro w' c hww hwv hc
    have hlivec := hi.hold.live w' c hc
    have hcc : c ≠ cl := by
      rintro rfl
      exact hwv (hi.hold.unique w' victim c hc hheld)
    refine ⟨?_, ?_, hcc⟩
    · rintro rfl
      exact hk hlivec
    · rintro rfl
      exact hres.elim (fun hr => hcc hr.1) fun hr => hr hlivec
  have hchild : ∀ g rest, s'.stack k = g :: rest → s.stack cl = g :: (rest ++ f :: below) := by
    intro g rest hg
    rw [hs.stackChild] at hg
    rw [hstack, hg]
    rfl
  constructor
  case extStack =>
    intro w' c g rest F hw' hg hred hF
    rw [hs.reduction] at hred
    rw [hextStacks]
    rw [Runtime.InUserCode, hs.good] at hw'
    by_cases hww : w' = w
    · subst hww
      rw [hs.phaseThief, hsteal] at hw'
      simp at hw'
    · by_cases hwv : w' = victim
      · subst hwv
        rw [hs.phaseVictim] at hw'
        obtain rfl : k = c := by simpa using hw'
        rw [hfiberk] at hF
        obtain ⟨pos, hpos, hlen, hle⟩ :=
          h.extStack w' cl g _ F (.inl hvictim) (hchild g rest hg) hred hF
        refine ⟨pos, hpos, ?_, hle⟩
        rw [hdeque, List.length_cons] at hlen
        rw [hs.dequeVictim]
        omega
      · rw [hs.phase w' hww hwv] at hw'
        have hold : s.InUserCode w' c := hw'
        obtain ⟨hck, hcr, hcc⟩ := hothers w' c hww hwv hold.held
        rw [hs.stack c hck hcr hcc] at hg
        rw [hfiber c hck hcr] at hF
        rw [hs.deque w' hww hwv]
        exact h.extStack w' c g rest F hold hg hred hF
  case top =>
    intro w' c g rest F hw' hg hred hF
    rw [hs.reduction] at hred
    by_cases hww : w' = w
    · subst hww
      rw [hs.phaseThief] at hw'
      obtain rfl : res = c := Option.some.inj hw'
      rw [hfiberRes] at hF
      obtain rfl := Option.some.inj hF
      exact fun k i hk hslot => absurd hslot (hempty k i (hhas k hk))
    · by_cases hwv : w' = victim
      · subst hwv
        rw [hs.phaseVictim] at hw'
        obtain rfl : k = c := Option.some.inj hw'
        rw [hfiberk] at hF
        exact hmono F _ (h.top w' cl g _ F hheld (hchild g rest hg) hred hF)
      · rw [hs.phase w' hww hwv] at hw'
        obtain ⟨hck, hcr, hcc⟩ := hothers w' c hww hwv hw'
        rw [hs.stack c hck hcr hcc] at hg
        rw [hfiber c hck hcr] at hF
        exact hmono F _ (h.top w' c g rest F hw' hg hred hF)
  case returning =>
    intro w' c r p g F hw' hr hred hparent hg hF
    rw [hs.reduction] at hred
    by_cases hww : w' = w
    · subst hww
      rw [hs.phaseThief] at hw'
      obtain rfl : res = c := Option.some.inj hw'
      rw [hs.stackRes] at hr
      obtain rfl := List.singleton_inj.mp hr
      rw [hredf] at hred
      cases hred
    · by_cases hwv : w' = victim
      · subst hwv
        rw [hs.phaseVictim] at hw'
        obtain rfl : k = c := Option.some.inj hw'
        have hmem : r ∈ s.stack cl := by rw [hchild r [] hr]; exact List.mem_cons_self
        rw [hi.frames.user hi.hold hvictim hmem] at hred
        cases hred
      · rw [hs.phase w' hww hwv] at hw'
        have hc := hi.hold.live w' c hw'
        obtain ⟨hck, hcr, hcc⟩ := hothers w' c hww hwv hw'
        rw [hs.stack c hck hcr hcc] at hr
        rw [hfiber c hck hcr] at hF
        rw [hf.spawnParent c hck hc] at hparent
        have hg' := hframe p g (hi.links.spawner c p hc hparent) hg
        exact hmono F _ (h.returning w' c r p g F hw' hr hred hparent hg' hF)
  case passed =>
    intro c g F hc hF hg
    obtain ⟨-, hlivec, hF'⟩ := hf.fiberChild c F hc hF
    exact hmono F _ (h.passed c g F hlivec hF' (hframe c g hlivec hg))
  case contiguous =>
    rw [hs.detached, hcallParent]
    exact fun g k F i hg => h.contiguous g k F i (hhas g hg)
  case kept =>
    intro g F i hg hslot
    obtain ⟨hlt, hkept⟩ := h.kept g F i (hhas g hg) hslot
    rw [hf.numFibers, hf.freed]
    exact ⟨Nat.lt_succ_of_lt hlt, hkept⟩
  case away =>
    intro c g F hc hsp hg hF
    rcases hs.live c hc with rfl | rfl | ⟨hck, hcr, hlivec⟩
    · exact absurd hf.origRspChild hsp
    · rw [hs.frameRes] at hg
      rw [hfiberRes] at hF
      rw [← Option.some.inj hg, ← Option.some.inj hF]
      exact hzero
    · rw [hf.origRsp c hck hcr] at hsp
      rw [hs.frame c hck hcr] at hg
      rw [hfiber c hck hcr] at hF
      exact h.away c g F hlivec hsp hg hF
  case awayChild =>
    intro k' p g F hk' hparent hne hg hF
    by_cases hkk : k' = k
    · subst hkk
      rw [hf.spawnParentChild] at hparent
      obtain rfl := Option.some.inj hparent
      rw [hs.frameRes] at hg
      obtain rfl := Option.some.inj hg
      rw [hf.homeChild] at hne hF
      rw [hf.homeRes] at hne
      by_cases hrc : res = cl
      · rw [if_pos hrc] at hne
        obtain ⟨-, hown⟩ := hres.resolve_right fun hr => hr (hrc ▸ hcl)
        have hsp : s.origRsp cl ≠ none := fun hcalm => hne (hx.calm cl hcl hcalm).1
        exact h.away cl f F hcl hsp hown hF
      · rw [if_neg hrc] at hne
        exact absurd rfl hne
    · have hlivek : s.live k' := by
        rcases hs.live k' hk' with rfl | rfl | ⟨-, -, hlivek⟩
        · exact absurd rfl hkk
        · rcases hres with ⟨hrc, -⟩ | hr
          · exact hrc ▸ hcl
          · have hrc : k' ≠ cl := by
              rintro rfl
              exact hr hcl
            rw [hf.spawnParentRes hrc] at hparent
            cases hparent
        · exact hlivek
      rw [hf.spawnParent k' hkk hlivek] at hparent
      have hlivep := hi.links.spawner k' p hlivek hparent
      have hpk : p ≠ k := by
        rintro rfl
        exact hk hlivep
      rw [hf.home k' hkk hlivek] at hne hF
      rw [hf.home p hpk hlivep] at hne
      exact h.awayChild k' p g F hlivek hparent hne (hframe p g hlivep hg) hF

theorem SlotInv.stealOwn (h : SlotInv s x addr) (hi : SchedInv s) (hx : FiberInv s)
    (hp : PointerInv s x addr) {w victim : WorkerId} {cl : ClosureId} {f : FrameId}
    {parents above below : List FrameId} (hw : s.phase w = .stealing)
    (hvictim : s.phase victim = .running cl) (hdeque : s.deque victim = f :: parents)
    (hstack : s.stack cl = above ++ f :: below) (hframe : s.frame cl = some f)
    (hhas : ∀ g, (s.stealOwn w victim cl f above below).HasFrame g → s.HasFrame g)
    (hcallParent : x'.callParent = x.callParent) (hextStacks : x'.extStack = x.extStack) :
    SlotInv (s.stealOwn w victim cl f above below) x' addr := by
  obtain ⟨rfl, hsplits⟩ :=
    hi.frames.splits_own hi.links hi.hold hw hvictim hdeque hstack hframe
  have hlive := hi.hold.live victim cl (by rw [hvictim]; rfl)
  exact h.steal hi hx hp hsplits (hi.splitsFiber_own hlive) hw hvictim hdeque hstack hi.links.fresh
    (hi.links.ne_fresh hlive).symm (.inl ⟨rfl, hframe⟩) hhas hcallParent hextStacks

/-- The fiber of a closure that was stolen since its last sync has no pedigree frame on it. -/
theorem SlotInv.empty (h : SlotInv s x addr) (hi : SchedInv s) (hx : FiberInv s) {w : WorkerId}
    {t : ClosureId} {f : FrameId} {below : List FrameId} (hw : s.phase w = .running t)
    (hstack : s.stack t = f :: below) (hunsynched : s.unsynched f = true)
    (hF : s.fiber t = some F) {g : FrameId} {i : ℕ} (hg : s.HasFrame g) : addr g ≠ .slot F i := by
  have hheld : (s.phase w).closure = some t := by rw [hw]; rfl
  have hlive := hi.hold.live w t hheld
  have hmem : f ∈ s.stack t := by rw [hstack]; exact List.mem_cons_self
  have hown := hi.frames.own t f hlive hmem (.inr (.inl hunsynched))
  have hsp : s.origRsp t ≠ none := by
    intro hnone
    have hfirst := hx.first t hlive
    rw [hnone, Runtime.firstSteal, hown] at hfirst
    exact (hi.frames.steals f).mp hunsynched (List.head?_eq_none_iff.mp hfirst)
  exact Highest.none (h.top w t f below F hheld hstack (hi.frames.user hi.hold hw hmem) hF)
    (h.away t f F hlive hsp hown hF) hg

/-- A closure waits for its children, and its fiber goes back to the pool. -/
theorem SlotInv.suspend (h : SlotInv s x addr) (hi : SchedInv s) {w : WorkerId} {t : ClosureId}
    (hheld : (s.phase w).closure = some t) (hphase : s'.phase = update s.phase w .stealing)
    (hlive : s'.live = s.live) (hstack : s'.stack = s.stack) (hdetached : s'.detached = s.detached)
    (hreduction : s'.reduction = s.reduction) (hframe : s'.frame = s.frame)
    (hfiber : s'.fiber = update s.fiber t none) (hfiberChild : s'.fiberChild = s.fiberChild)
    (hhome : s'.home = s.home) (horigRsp : s'.origRsp = s.origRsp)
    (hspawnParent : s'.spawnParent = s.spawnParent) (hbound : s'.numFibers = s.numFibers)
    (hfreed : s'.freed = s.freed ++ (s.fiber t).toList)
    (hgood : s'.provablyGoodSteal = s.provablyGoodSteal) (hdeque : s'.deque = s.deque)
    (hcallParent : x'.callParent = x.callParent) (hextStacks : x'.extStack = x.extStack)
    (hempty : ∀ F g i, s.fiber t = some F → s.HasFrame g → addr g ≠ .slot F i) :
    SlotInv s' x' addr := by
  have hhas : ∀ f, s'.HasFrame f ↔ s.HasFrame f := by
    intro f
    simp only [Runtime.HasFrame, hlive, hstack, hreduction]
  have hhighest : ∀ F a, s'.Highest addr F a ↔ s.Highest addr F a := by
    intro F a
    simp only [Runtime.Highest, hhas]
  have hother : ∀ w' c, (s'.phase w').closure = some c →
      s'.phase w' = s.phase w' ∧ (s.phase w').closure = some c ∧ c ≠ t := by
    intro w' c hc
    rw [hphase] at hc
    obtain ⟨hww, hc'⟩ := stealing_update hc
    refine ⟨by rw [hphase, Function.update_of_ne hww], hc', ?_⟩
    rintro rfl
    exact hww (hi.hold.unique w' w c hc' hheld)
  have hfiber' : ∀ c F, s'.fiber c = some F → s.fiber c = some F := by
    intro c F hF
    rw [hfiber] at hF
    by_cases hct : c = t
    · subst hct
      rw [Function.update_self] at hF
      cases hF
    · rwa [Function.update_of_ne hct] at hF
  constructor
  case extStack =>
    intro w' c g rest F hw' hg hred hF
    have hsame := (hother w' c hw'.held).1
    have hold : s.InUserCode w' c := by rwa [Runtime.InUserCode, hsame, hgood] at hw'
    rw [hstack] at hg
    rw [hreduction] at hred
    rw [hextStacks, hdeque]
    exact h.extStack w' c g rest F hold hg hred (hfiber' c F hF)
  case top =>
    intro w' c g rest F hw' hg hred hF
    rw [hstack] at hg
    rw [hreduction] at hred
    rw [hhighest]
    exact h.top w' c g rest F (hother w' c hw').2.1 hg hred (hfiber' c F hF)
  case returning =>
    intro w' c r p g F hw' hr hred hparent hg hF
    rw [hstack] at hr
    rw [hreduction] at hred
    rw [hspawnParent] at hparent
    rw [hframe] at hg
    rw [hhighest]
    exact h.returning w' c r p g F (hother w' c hw').2.1 hr hred hparent hg (hfiber' c F hF)
  case kept =>
    intro g F i hg hslot
    rw [hhas] at hg
    obtain ⟨hlt, hkept⟩ := h.kept g F i hg hslot
    rw [hbound, hfreed, List.mem_append]
    refine ⟨hlt, fun hin => hin.elim hkept fun hF => ?_⟩
    exact hempty F g i (Option.mem_toList.mp hF) hg hslot
  case away =>
    intro c g F hc hsp hg hF
    rw [hlive] at hc
    rw [horigRsp] at hsp
    rw [hframe] at hg
    exact h.away c g F hc hsp hg (hfiber' c F hF)
  all_goals
    simp only [hhas, hhighest, hlive, hdetached, hframe, hfiberChild, hhome, hspawnParent,
      hcallParent]
  case passed => exact h.passed
  case contiguous => exact h.contiguous
  case awayChild => exact h.awayChild

/-- A closure goes on after a sync, with the fiber that it has back and the extension stack at its
start. -/
theorem SlotInv.sync (h : SlotInv s x addr) {w : WorkerId} {t : ClosureId} {f : FrameId} {q : Phase}
    (hlivet : s.live t) (hown : s.frame t = some f) (hstackt : s.stack t = [f])
    (hredf : s.reduction f = false)
    (ht : ∀ w' c, w' ≠ w → (s.phase w').closure = some c → c ≠ t)
    (hphase : s'.phase = update s.phase w q) (hq : q.closure = some t)
    (hsame : SameHomes s s') (hlive : s'.live = s.live) (hstack : s'.stack = s.stack)
    (hframe : s'.frame = s.frame) (hfiber : s'.fiber = update s.fiber t (s.fiberChild t))
    (hfiberChild : s'.fiberChild = update s.fiberChild t none)
    (horigRsp : s'.origRsp = update s.origRsp t none)
    (hfreed : s'.freed = s.freed ++ (s.fiber t).toList)
    (hgood : ∀ w', w' ≠ w → s'.provablyGoodSteal w' = s.provablyGoodSteal w')
    (hdeque : s'.deque w = []) (hdeques : ∀ w', w' ≠ w → s'.deque w' = s.deque w')
    (hcallParent : x'.callParent = x.callParent)
    (hextStack : x'.extStack w = ((s.fiberChild t).getD 0, 0))
    (hextStacks : ∀ w', w' ≠ w → x'.extStack w' = x.extStack w')
    (hempty : ∀ F g i, s.fiber t = some F → s.HasFrame g → addr g ≠ .slot F i) :
    SlotInv s' x' addr := by
  obtain ⟨hdetached, hreduction, hhome, hspawnParent, hbound⟩ := hsame
  have hhas : ∀ f, s'.HasFrame f ↔ s.HasFrame f := by
    intro f
    simp only [Runtime.HasFrame, hlive, hstack, hreduction]
  have hhighest : ∀ F a, s'.Highest addr F a ↔ s.Highest addr F a := by
    intro F a
    simp only [Runtime.Highest, hhas]
  have hnow : s'.phase w = q := by rw [hphase, Function.update_self]
  have hother : ∀ w', w' ≠ w → s'.phase w' = s.phase w' := by
    intro w' hww
    rw [hphase, Function.update_of_ne hww]
  have hfiberOther : ∀ c, c ≠ t → s'.fiber c = s.fiber c := by
    intro c hct
    rw [hfiber, Function.update_of_ne hct]
  have hfibert : s'.fiber t = s.fiberChild t := by rw [hfiber, Function.update_self]
  have htop : ∀ g rest F, s.stack t = g :: rest → s'.fiber t = some F →
      g = f ∧ s.fiberChild t = some F ∧ s.Highest addr F (addr f) := by
    intro g rest F hg hF
    rw [hfibert] at hF
    obtain rfl : f = g := (List.cons.inj (hstackt.symm.trans hg)).1
    exact ⟨rfl, hF, h.passed t f F hlivet hF hown⟩
  have hheld : ∀ w' c, (s'.phase w').closure = some c →
      w' = w ∧ c = t ∨ w' ≠ w ∧ c ≠ t ∧ (s.phase w').closure = some c := by
    intro w' c hc
    by_cases hww : w' = w
    · subst hww
      rw [hnow, hq] at hc
      exact .inl ⟨rfl, (Option.some.inj hc).symm⟩
    · rw [hother w' hww] at hc
      exact .inr ⟨hww, ht w' c hww hc, hc⟩
  constructor
  case extStack =>
    intro w' c g rest F hw' hg hred hF
    rw [hstack] at hg
    rw [hreduction] at hred
    rcases hheld w' c hw'.held with ⟨rfl, rfl⟩ | ⟨hww, hct, hc⟩
    · obtain ⟨rfl, hpassed, -⟩ := htop g rest F hg hF
      refine ⟨0, ?_, ?_, ?_⟩
      · rw [hextStack, hpassed]
        rfl
      · rw [hdeque]
        rfl
      · exact Int.natCast_nonneg _
    · have hold : s.InUserCode w' c := by
        rwa [Runtime.InUserCode, hother w' hww, hgood w' hww] at hw'
      rw [hfiberOther c hct] at hF
      rw [hextStacks w' hww, hdeques w' hww]
      exact h.extStack w' c g rest F hold hg hred hF
  case top =>
    intro w' c g rest F hw' hg hred hF
    rw [hstack] at hg
    rw [hreduction] at hred
    rw [hhighest]
    rcases hheld w' c hw' with ⟨rfl, rfl⟩ | ⟨hww, hct, hc⟩
    · obtain ⟨rfl, -, hhigh⟩ := htop g rest F hg hF
      exact hhigh
    · rw [hfiberOther c hct] at hF
      exact h.top w' c g rest F hc hg hred hF
  case returning =>
    intro w' c r p g F hw' hr hred hparent hg hF
    rw [hstack] at hr
    rw [hreduction] at hred
    rw [hspawnParent] at hparent
    rw [hframe] at hg
    rw [hhighest]
    rcases hheld w' c hw' with ⟨rfl, rfl⟩ | ⟨hww, hct, hc⟩
    · obtain rfl := List.singleton_inj.mp (hstackt.symm.trans hr)
      rw [hredf] at hred
      cases hred
    · rw [hfiberOther c hct] at hF
      exact h.returning w' c r p g F hc hr hred hparent hg hF
  case passed =>
    intro c g F hc hF hg
    rw [hlive] at hc
    rw [hfiberChild] at hF
    rw [hframe] at hg
    have hct : c ≠ t := by
      rintro rfl
      rw [Function.update_self] at hF
      cases hF
    rw [Function.update_of_ne hct] at hF
    rw [hhighest]
    exact h.passed c g F hc hF hg
  case kept =>
    intro g F i hg hslot
    rw [hhas] at hg
    obtain ⟨hlt, hkept⟩ := h.kept g F i hg hslot
    rw [hbound, hfreed, List.mem_append]
    refine ⟨hlt, fun hin => hin.elim hkept fun hF => ?_⟩
    exact hempty F g i (Option.mem_toList.mp hF) hg hslot
  case away =>
    intro c g F hc hsp hg hF
    rw [hlive] at hc
    rw [horigRsp] at hsp
    rw [hframe] at hg
    have hct : c ≠ t := by
      rintro rfl
      rw [Function.update_self] at hsp
      exact hsp rfl
    rw [Function.update_of_ne hct] at hsp
    rw [hfiberOther c hct] at hF
    exact h.away c g F hc hsp hg hF
  all_goals
    simp only [hhas, hlive, hdetached, hframe, hhome, hspawnParent, hcallParent]
  case contiguous => exact h.contiguous
  case awayChild => exact h.awayChild

/-- A closure ends, and its worker leaves it or goes on with the call parent. -/
theorem SlotInv.drop (h : SlotInv s x addr) (hi : SchedInv s) {w : WorkerId} {t : ClosureId}
    {q : Phase} (hheld : (s.phase w).closure = some t) (hphase : s'.phase = update s.phase w q)
    (hlive : s'.live = update s.live t false) (hstack : ∀ c, c ≠ t → s'.stack c = s.stack c)
    (hsame : SameHomes s s') (hframe : ∀ c g, s'.frame c = some g → s.frame c = some g)
    (hfiber : ∀ c, c ≠ t → s'.fiber c = s.fiber c) (horigRsp : s'.origRsp = s.origRsp)
    (hgood : s'.provablyGoodSteal = s.provablyGoodSteal)
    (hdeque : s'.deque = s.deque) (hcallParent : x'.callParent = x.callParent)
    (hextStacks : x'.extStack = x.extStack)
    (hgoes : ∀ c g rest, q.closure = some c → s.stack c = g :: rest →
      c ≠ t ∧ s.reduction g = false ∧ ∀ F, s.fiber c = some F → s.Highest addr F (addr g) ∧
        ∃ pos, x.extStack w = (F, pos) ∧ ((s.deque w).length : ℤ) ≤ pos ∧ pos ≤ nextSlot F (addr g))
    (hqt : q.closure ≠ some t)
    (hpassed : ∀ c g F, s.live c → s'.fiberChild c = some F → s.frame c = some g →
      s.Highest addr F (addr g))
    (hkept : ∀ g F i, s.HasFrame g → addr g = .slot F i → F ∉ s'.freed) : SlotInv s' x' addr := by
  obtain ⟨hdetached, hreduction, hhome, hspawnParent, hbound⟩ := hsame
  have hlivet := hi.hold.live w t hheld
  have hlive' : ∀ c, s'.live c → s.live c ∧ c ≠ t := by
    intro c hc
    rw [hlive] at hc
    have hct : c ≠ t := by
      rintro rfl
      rw [Function.update_self] at hc
      cases hc
    exact ⟨by rwa [Function.update_of_ne hct] at hc, hct⟩
  have hhas : ∀ g, s'.HasFrame g → s.HasFrame g := by
    rintro g ⟨hred, c, hc, hg⟩
    obtain ⟨hc', hct⟩ := hlive' c hc
    rw [hreduction] at hred
    rw [hstack c hct] at hg
    exact ⟨hred, c, hc', hg⟩
  have hmono : ∀ F a, s.Highest addr F a → s'.Highest addr F a :=
    fun F a ha => Highest.mono ha hhas
  have hclosure : ∀ w' c, (s'.phase w').closure = some c →
      w' = w ∧ q.closure = some c ∨ w' ≠ w ∧ s'.phase w' = s.phase w' ∧
        (s.phase w').closure = some c ∧ c ≠ t := by
    intro w' c hc
    by_cases hww : w' = w
    · subst hww
      rw [hphase, Function.update_self] at hc
      exact .inl ⟨rfl, hc⟩
    · have hsame : s'.phase w' = s.phase w' := by rw [hphase, Function.update_of_ne hww]
      rw [hsame] at hc
      refine .inr ⟨hww, hsame, hc, ?_⟩
      rintro rfl
      exact hww (hi.hold.unique w' w c hc hheld)
  constructor
  case extStack =>
    intro w' c g rest F hw' hg hred hF
    rw [hextStacks, hdeque]
    rcases hclosure w' c (Runtime.InUserCode.held hw') with ⟨rfl, hq⟩ | ⟨hww, hsame, hc, hct⟩
    · have hct : c ≠ t := by
        rintro rfl
        exact hqt hq
      rw [hstack c hct] at hg
      rw [hfiber c hct] at hF
      exact ((hgoes c g rest hq hg).2.2 F hF).2
    · rw [hstack c hct] at hg
      rw [hfiber c hct] at hF
      rw [hreduction] at hred
      rw [Runtime.InUserCode, hsame, hgood] at hw'
      exact h.extStack w' c g rest F hw' hg hred hF
  case top =>
    intro w' c g rest F hw' hg hred hF
    rcases hclosure w' c hw' with ⟨rfl, hq⟩ | ⟨-, -, hc, hct⟩
    · have hct : c ≠ t := by
        rintro rfl
        exact hqt hq
      rw [hstack c hct] at hg
      rw [hfiber c hct] at hF
      exact hmono F _ ((hgoes c g rest hq hg).2.2 F hF).1
    · rw [hstack c hct] at hg
      rw [hfiber c hct] at hF
      rw [hreduction] at hred
      exact hmono F _ (h.top w' c g rest F hc hg hred hF)
  case returning =>
    intro w' c r p g F hw' hr hred hparent hg hF
    rw [hreduction] at hred
    rcases hclosure w' c hw' with ⟨rfl, hq⟩ | ⟨-, -, hc, hct⟩
    · have hct : c ≠ t := by
        rintro rfl
        exact hqt hq
      rw [hstack c hct] at hr
      rw [(hgoes c r [] hq hr).2.1] at hred
      cases hred
    · rw [hstack c hct] at hr
      rw [hfiber c hct] at hF
      rw [hspawnParent] at hparent
      exact hmono F _ (h.returning w' c r p g F hc hr hred hparent (hframe p g hg) hF)
  case passed =>
    exact fun c g F hc hF hg => hmono F _ (hpassed c g F (hlive' c hc).1 hF (hframe c g hg))
  case contiguous =>
    rw [hdetached, hcallParent]
    exact fun g k F i hg => h.contiguous g k F i (hhas g hg)
  case kept =>
    rw [hbound]
    exact fun g F i hg hslot =>
      ⟨(h.kept g F i (hhas g hg) hslot).1, hkept g F i (hhas g hg) hslot⟩
  case away =>
    intro c g F hc hsp hg hF
    obtain ⟨hc', hct⟩ := hlive' c hc
    rw [horigRsp] at hsp
    rw [hfiber c hct] at hF
    exact h.away c g F hc' hsp (hframe c g hg) hF
  case awayChild =>
    rw [hhome, hspawnParent]
    exact fun k p g F hk hparent hne hg =>
      h.awayChild k p g F (hlive' k hk).1 hparent hne (hframe p g hg)

/-- A child is returned: its fiber is passed on to the parent, or nothing is on it any more. -/
theorem SlotInv.returnChild (h : SlotInv s x addr) (hi : SchedInv s) (hx : FiberInv s)
    {w : WorkerId} {t parent : ClosureId} (hw : s.phase w = .returning t)
    (hparent : s.spawnParent t = some parent) (hcallParent : x'.callParent = x.callParent)
    (hextStacks : x'.extStack = x.extStack) : SlotInv (s.returnChild w parent t) x' addr := by
  have hheld : (s.phase w).closure = some t := by rw [hw]; rfl
  obtain ⟨hlivet, hp, hchild, hpt⟩ := hi.links.parent hi.hold hi.frames hw hparent
  have hsame := returnChild_same (s := s) w parent t
  have hflags := SameFlags.returnChild (s := s) w parent t
  obtain ⟨r, hown, hstackr⟩ := hi.frames.single w t (.inr (.inr hw))
  have hredr := hi.frames.returning w t r hw hown
  obtain ⟨f, hframef, -⟩ := hi.frames.synched parent hp (.inl (List.ne_nil_of_mem hchild))
  have hhigh : ∀ F, s.fiber t = some F → s.Highest addr F (addr f) :=
    fun F hF => h.returning w t r parent f F hheld hstackr hredr hparent hframef hF
  have hhome : s.fiber t = s.home t := by
    have hcalm := hx.calm_of_frame hi.frames hlivet fun g hg => by
      obtain rfl : r = g := Option.some.inj (hown.symm.trans hg)
      exact (hi.frames.done r hredr).2
    exact (hx.calm t hlivet hcalm).1
  have hspawned := hx.stolen hi.frames hp (List.ne_nil_of_mem hchild)
  have hleftmost := hx.leftmost_iff hi.links hp hchild hspawned
  obtain ⟨hfiberChild, hfreed⟩ := returnChild_leftHolder (s := s) w parent t
  refine h.drop hi (q := .stealing) hheld rfl rfl (fun c hct => Function.update_of_ne hct _ _)
    ⟨hflags.detached, hflags.reduction, rfl, rfl, rfl⟩ (fun c g hg => hsame.2.2.2.2.1 ▸ hg)
    (fun c hct => Function.update_of_ne hct _ _) rfl hsame.2.1 hsame.2.2.1 hcallParent hextStacks
    (fun c g rest hq => by cases hq) (fun hq => by cases hq) ?_ ?_
  · intro c g F hc hF hg
    rw [hfiberChild] at hF
    split at hF
    · exact h.passed c g F hc hF hg
    · by_cases hcp : c = parent
      · subst hcp
        rw [Function.update_self] at hF
        obtain rfl : f = g := Option.some.inj (hframef.symm.trans hg)
        exact hhigh F hF
      · rw [Function.update_of_ne hcp] at hF
        exact h.passed c g F hc hF hg
  · intro g F i hg hslot
    rw [hfreed]
    split
    · rename_i hnot
      rw [List.mem_append]
      refine fun hin => hin.elim (h.kept g F i hg hslot).2 fun hF => ?_
      have hF' := Option.mem_toList.mp hF
      have hzero := h.awayChild t parent f F hlivet hparent (hleftmost.mp hnot) hframef
        (hhome ▸ hF')
      exact Highest.none (hhigh F hF') hzero hg hslot
    · exact (h.kept g F i hg hslot).2

end Rules

section Steps

/-- A worker that may spawn has its extension stack right above its pedigree frame. -/
theorem SlotInv.extStack_eq (h : SlotInv s x addr) (hp : PointerInv s x addr) {w : WorkerId}
    {t : ClosureId} {f : FrameId} {below : List FrameId} (hw : s.phase w = .running t)
    (hstack : s.stack t = f :: below) (hred : s.reduction f = false) (hF : s.fiber t = some F)
    (habove : x.AboveExtension w) : x.extStack w = (F, (nextSlot F (addr f) : ℤ)) := by
  obtain ⟨pos, hpos, hlen, hle⟩ := h.extStack w t f below F (.inl hw) hstack hred hF
  rw [hpos]
  congr 1
  by_cases hzero : nextSlot F (addr f) = 0
  · omega
  · have hslot := nextSlot_pos hzero
    have hworker := hp.worker w t f below (.inl hw) hstack hred
    rw [hslot] at hworker
    have hlt := habove F _ hworker (by rw [hpos])
    rw [hpos] at hlt
    dsimp only at hlt
    omega

/-- A closure's frame that is the youngest one is its only one. -/
theorem SchedInv.only_frame (hi : SchedInv s) {t : ClosureId} {f : FrameId} {below : List FrameId}
    (hlivet : s.live t) (hstack : s.stack t = f :: below) (hown : s.frame t = some f) :
    below = [] := by
  obtain ⟨above, hbottom⟩ := hi.frames.bottom t f hlivet hown
  have hnodup := hi.frames.nodup t hlivet
  rw [hstack] at hnodup hbottom
  cases above with
  | nil => exact (List.cons.inj hbottom).2
  | cons g above =>
    obtain ⟨rfl, rfl⟩ := List.cons.inj hbottom
    exact absurd (List.mem_append_right above List.mem_cons_self) (List.nodup_cons.mp hnodup).1

theorem SchedInv.fiber_some (hi : SchedInv s) (hx : FiberInv s) {w : WorkerId} {t : ClosureId}
    (hheld : (s.phase w).closure = some t) : ∃ F, s.fiber t = some F := by
  apply Option.ne_none_iff_exists'.mp
  intro hnone
  exact hi.hold.not_suspended hheld (hx.awake t (hi.hold.live w t hheld) hnone).1

variable [DecidableEq κ] [Monoid V] {table : ℕ → BitVec 64} {bumps : κ → Bool}
  {root : PedigreeFrame} {events : List PedigreeEvent}

theorem SlotInv.step (h : SlotInv s x x.addr) (hi : SchedInv s) (hx : FiberInv s)
    (ha : FibersApart s) (hm : SameFibers s x) (hl : CallLinks s x) (hp : PointerInv s x x.addr)
    (hok : (s.cactus x x.addr).Ok table bumps root events) (hs : SchedStep s s')
    (hext : ExtensionStep table bumps Extensions.AboveExtension hs x x') :
    SlotInv s' x' x'.addr := by
  have hcalled : ∀ f g, s.HasFrame f → s.detached f = false → x.callParent f = some g →
      x.addr f = x.addr g := by
    intro f g hf hd hparent
    have hzero : f ≠ 0 := by
      rintro rfl
      rw [hl.root] at hparent
      cases hparent
    obtain ⟨g', hparent', -, haddr, -⟩ := hok.called f hf hd hzero
    obtain rfl : g' = g := Option.some.inj (hparent'.symm.trans hparent)
    exact haddr
  have ht : ∀ w t, (s.phase w).closure = some t →
      ∀ w' c, w' ≠ w → (s.phase w').closure = some c → c ≠ t := by
    rintro w t hw w' c hww hc rfl
    exact hww (hi.hold.unique w' w c hc hw)
  have hclosure : ∀ w t q, (s.phase w).closure = some t → q.closure = some t →
      ∀ w' c, (update s.phase w q w').closure = some c → (s.phase w').closure = some c := by
    intro w t q hw hq w' c hc
    rcases closure_update hc with ⟨rfl, hc'⟩ | ⟨-, hc'⟩
    · rw [hw, ← hq, hc']
    · exact hc'
  have hold : ∀ {s'}, SchedStep s s' → s'.numFrames = s.numFrames →
      ∀ g, s'.HasFrame g → s.HasFrame g := by
    intro s' hs hbound g hg
    exact (hi.has_frame hs hg).resolve_right (hbound ▸ ((hi.step hs).has_lt hg).ne)
  cases hext with
  | @update w t f below reducer u rest x hw hstack hcode =>
    split
    all_goals
      exact ⟨h.extStack, h.top, h.returning, h.passed, h.contiguous, h.kept, h.away, h.awayChild⟩
  | syncFast hw hstack hcode hsynched =>
    exact ⟨h.extStack, h.top, h.returning, h.passed, h.contiguous, h.kept, h.away, h.awayChild⟩
  | @enterFrame w t f below callee rest x hw hstack hcode =>
    have hheld : (s.phase w).closure = some t := by rw [hw]; rfl
    have hred := hi.frames.user hi.hold hw (f := f) (by rw [hstack]; exact List.mem_cons_self)
    obtain ⟨F, hF⟩ := hi.fiber_some hx hheld
    exact h.push hi hl ha hx hw hstack hF (by constructor <;> rfl)
      (congrArg (update s.stack t) (congrArg _ hstack)) rfl rfl rfl rfl rfl (.inl ⟨rfl, rfl⟩)
      (fun _ _ => rfl) (fun _ _ => rfl) (h.extStack w t f below F (.inl hw) hstack hred hF)
  | @detach w t f below child rest rsp x hw hstack hcode hallowed =>
    have hheld : (s.phase w).closure = some t := by rw [hw]; rfl
    have hred := hi.frames.user hi.hold hw (f := f) (by rw [hstack]; exact List.mem_cons_self)
    obtain ⟨F, hF⟩ := hi.fiber_some hx hheld
    have hpos := h.extStack_eq hp hw hstack hred hF hallowed
    obtain ⟨pos, hpos', hlen, -⟩ := h.extStack w t f below F (.inl hw) hstack hred hF
    obtain rfl : pos = nextSlot F (x.addr f) := (Prod.mk.inj (hpos'.symm.trans hpos)).2
    have hpushed : x.pushed w = .slot F (nextSlot F (x.addr f)) := by
      rw [Extensions.pushed, hpos]
      rfl
    refine h.push hi hl ha hx hw hstack hF (by constructor <;> rfl)
      (congrArg (update s.stack t) (congrArg _ hstack)) rfl rfl rfl rfl rfl (.inr hpushed)
      (fun _ hww => Function.update_of_ne hww _ _) (fun _ hww => Function.update_of_ne hww _ _)
      ⟨nextSlot F (x.addr f) + 1, ?_, ?_, ?_⟩
    · refine (Function.update_self _ _ _).trans ?_
      rw [hpos]
    · have hdeque : (update s.deque w (s.deque w ++ [f]) w).length = (s.deque w).length + 1 := by
        rw [Function.update_self, List.length_append]
        rfl
      change ((update s.deque w (s.deque w ++ [f]) w).length : ℤ) ≤ _
      rw [hdeque]
      omega
    · rw [hpushed, nextSlot_self]
      exact le_of_eq (Nat.cast_succ _).symm
  | @leaveFrame w t f below x hw hstack hcode hsynched hdetached hlast hstolen =>
    have hheld : (s.phase w).closure = some t := by rw [hw]; rfl
    have hlivet := hi.hold.live w t hheld
    have hmem : f ∈ s.stack t := by rw [hstack]; exact List.mem_cons_self
    have hred := hi.frames.user hi.hold hw hmem
    refine h.pop hi hw hstack (by constructor <;> rfl) rfl (fun _ _ => rfl) rfl rfl rfl rfl
      (fun _ _ => rfl) (fun _ _ => rfl) ?_
    rintro hhas g rest F rfl hF
    have hchain := hl.chain t hlivet
    rw [hstack] at hchain
    have hparent := (List.isChain_cons_cons.mp hchain).1
    have hsame := hcalled f g ⟨hred, t, hlivet, hmem⟩ hdetached hparent
    rw [← hsame]
    exact ⟨Highest.mono (h.top w t f _ F hheld hstack hred hF) fun k hk => (hhas k hk).1,
      h.extStack w t f _ F (.inl hw) hstack hred hF⟩
  | @leaveFrameHelper w t f below parents parent x hw hstack hcode hsynched hdetached hdeque =>
    have hheld : (s.phase w).closure = some t := by rw [hw]; rfl
    have hlivet := hi.hold.live w t hheld
    have hmem : f ∈ s.stack t := by rw [hstack]; exact List.mem_cons_self
    have hred := hi.frames.user hi.hold hw hmem
    have hhasf : s.HasFrame f := ⟨hred, t, hlivet, hmem⟩
    refine h.pop hi hw hstack (by constructor <;> rfl) rfl
      (fun g hg => Function.update_of_ne hg _ _) rfl rfl rfl rfl
      (fun _ hww => Function.update_of_ne hww _ _)
      (fun _ hww => Function.update_of_ne hww _ _) ?_
    rintro hhas g rest F rfl hF
    have hchain := hl.chain t hlivet
    rw [hstack] at hchain
    have hparent := (List.isChain_cons_cons.mp hchain).1
    have halone : ∀ k, s.HasFrame k → x.addr k = x.addr f → k = f := fun k hk hslot =>
      hok.alone hhasf hdetached (fun m hm => hl.top hi hw hstack hsynched hm) hk hslot
    obtain ⟨hhigh, hle⟩ := h.highest_below hhasf hdetached hparent halone
      (h.top w t f _ F hheld hstack hred hF) hhas
    obtain ⟨pos, hpos, hlen, hle'⟩ := h.extStack w t f _ F (.inl hw) hstack hred hF
    rw [hdeque, List.length_append, List.length_singleton] at hlen
    refine ⟨hhigh, pos - 1, ?_, ?_, by omega⟩
    · refine (Function.update_self _ _ _).trans ?_
      change ((x.extStack w).1, (x.extStack w).2 - 1) = (F, pos - 1)
      rw [hpos]
    · change ((update s.deque w parents w).length : ℤ) ≤ pos - 1
      rw [Function.update_self]
      omega
  | @exceptionHandler w t f below x hw hstack hcode hsynched hdetached hdeque =>
    have hheld : (s.phase w).closure = some t := by rw [hw]; rfl
    have hlivet := hi.hold.live w t hheld
    have hmem : f ∈ s.stack t := by rw [hstack]; exact List.mem_cons_self
    have hhasf : s.HasFrame f := ⟨hi.frames.user hi.hold hw hmem, t, hlivet, hmem⟩
    have hspawners := hi.frames.deque w t hheld
    rw [hdeque, hstack] at hspawners
    obtain rfl : below = [] := eq_nil_of_spawners_nil hspawners.symm hdetached
    refine h.handle hi hl hx hw hstack hsynched ?_ rfl rfl ?_ ?_ rfl rfl rfl rfl rfl rfl rfl rfl rfl
      rfl rfl (fun _ _ => rfl) fun _ hww => Function.update_of_ne hww _ _
    · exact fun hd k hk hslot =>
        hok.alone hhasf hd (fun m hm => hl.top hi hw hstack hsynched hm) hk hslot
    · intro c
      by_cases hct : c = t
      · subst hct
        rw [if_pos rfl]
        exact (Function.update_self _ _ _).trans
          (congrArg (s.numFrames :: ·) (Function.update_self _ _ _))
      · rw [if_neg hct]
        exact (Function.update_of_ne hct _ _).trans (Function.update_of_ne hct _ _)
    · intro g hgf hgn
      exact (Function.update_of_ne hgn _ _).trans (Function.update_of_ne hgf _ _)
  | @suspendAtSync w t f below rsp x hw hstack hcode hunsynched hchildren =>
    have hheld : (s.phase w).closure = some t := by rw [hw]; rfl
    exact h.suspend hi hheld rfl rfl rfl rfl rfl rfl rfl rfl rfl rfl rfl rfl rfl rfl rfl rfl rfl
      fun F g i hF hg => h.empty hi hx hw hstack hunsynched hF hg
  | @passSync w t f below rsp x hw hstack hcode hunsynched hchildren =>
    have hheld : (s.phase w).closure = some t := by rw [hw]; rfl
    have hlivet := hi.hold.live w t hheld
    have hmem : f ∈ s.stack t := by rw [hstack]; exact List.mem_cons_self
    have hown := hi.frames.own t f hlivet hmem (.inr (.inl hunsynched))
    have hstackt : s.stack t = [f] := by rw [hstack, hi.only_frame hlivet hstack hown]
    have hdeque : s.deque w = [] := by
      rw [hi.frames.deque w t hheld, hstackt]
      rfl
    refine h.sync (q := .reducing t) hlivet hown hstackt (hi.frames.user hi.hold hw hmem)
      (ht w t hheld) rfl rfl (by constructor <;> rfl) rfl rfl rfl rfl rfl rfl rfl (fun _ _ => rfl)
      hdeque (fun _ _ => rfl) rfl ?_ (fun _ hww => Function.update_of_ne hww _ _)
      fun F g i hF hg => h.empty hi hx hw hstack hunsynched hF hg
    refine (Function.update_self _ _ _).trans ?_
    rw [hm.extFiberChild]
  | @doReductions w t f x hw hframe hreduction =>
    have hheld : (s.phase w).closure = some t := by rw [hw]; rfl
    have huser : ∀ w' c, ({ s.doReductions w with
        code := update s.code f (s.code f).afterSync
        phase := update s.phase w (.running t) } : Runtime κ V).InUserCode w' c →
        s.InUserCode w' c := by
      intro w' c hw'
      rcases hw'.before rfl fun _ _ => rfl with ⟨rfl, hq⟩ | ⟨-, hw'⟩
      · obtain rfl : t = c := by simpa using hq
        exact .inr (.inl hw)
      · exact hw'
    split
    all_goals
      exact h.turn (by constructor <;> rfl) rfl rfl rfl rfl
        (hclosure w t (.running t) hheld rfl)
        fun w' c g rest F hw' => h.extStack w' c g rest F (huser w' c hw')
  | @doReductionsForReturn w t f x hw hframe hreduction =>
    have hheld : (s.phase w).closure = some t := by rw [hw]; rfl
    refine h.turn (by constructor <;> rfl) rfl rfl rfl rfl
      (hclosure w t (.returning t) hheld rfl) ?_
    intro w' c g rest F hw'
    rcases hw'.before (q := .returning t) rfl fun _ _ => rfl with ⟨-, hq⟩ | ⟨-, hw'⟩
    · simp at hq
    · exact h.extStack w' c g rest F hw'
  | @stealStolen w victim cl f parents above below x hw hvictim hdeque hstack hframe =>
    exact h.stealOwn hi hx hp hw hvictim hdeque hstack hframe
      (hold (.stealStolen hw hvictim hdeque hstack hframe) rfl) rfl rfl
  | @stealHelper w victim cl f parents above below x hw hvictim hdeque hstack hframe hdetached =>
    have hpromoted : SlotInv (s.promoteHelper cl f) x x.addr :=
      h.promoteHelper hi hx hvictim hdeque hstack hframe hdetached
    refine hpromoted.stealOwn (hi.promoteHelper hvictim hdeque hstack hdetached)
      (hx.promoteHelper hi.hold hi.frames hvictim hdeque hstack hframe hdetached)
      (hp.promoteHelper hi hvictim) hw hvictim hdeque hstack (Function.update_self _ _ _)
      (hold (.stealHelper hw hvictim hdeque hstack hframe hdetached) rfl) rfl rfl
  | @stealCalled w victim cl f parents above below x hw hvictim hdeque hstack hframe hdetached =>
    have hlive := hi.hold.live victim cl (by rw [hvictim]; rfl)
    have hk : ¬ s.live (s.numClosures + 1) := fun hlive =>
      Nat.not_lt_of_gt (Nat.lt_succ_self _) (hi.links.bound _ hlive)
    exact h.steal hi hx hp (hi.splits_called hw hvictim hdeque above below)
      (hi.splitsFiber_called hlive) hw hvictim hdeque hstack hk (Nat.lt_succ_self _).ne'
      (.inr hi.links.fresh) (hold (.stealCalled hw hvictim hdeque hstack hframe hdetached) rfl) rfl
      rfl
  | @resumeStolen w t f rsp x hw hframe hsteal =>
    have hheld : (s.phase w).closure = some t := by rw [hw]; rfl
    refine h.turn (by constructor <;> rfl) rfl rfl rfl rfl
      (hclosure w t (.running t) hheld rfl) ?_
    intro w' c g rest F hw' hg hred hF
    rcases hw'.before (q := .running t) rfl fun _ _ => rfl with ⟨rfl, hq⟩ | ⟨hww, hw'⟩
    · obtain rfl : t = c := by simpa using hq
      obtain ⟨f', -, hsingle⟩ := hi.frames.single w' t (.inl hw)
      refine ⟨0, ?_, ?_, Int.natCast_nonneg _⟩
      · refine (Function.update_self _ _ _).trans ?_
        rw [hm.extFiber, hF]
        rfl
      · change ((s.deque w').length : ℤ) ≤ 0
        rw [hi.frames.deque w' t hheld, hsingle]
        rfl
    · have hextStack : (x.resume w t f).extStack w' = x.extStack w' := Function.update_of_ne hww _ _
      rw [hextStack]
      exact h.extStack w' c g rest F hw' hg hred hF
  | @resumeSync w t x hw hsteal =>
    have hheld : (s.phase w).closure = some t := by rw [hw]; rfl
    refine h.turn (by constructor <;> rfl) rfl rfl rfl rfl
      (hclosure w t (.reducing t) hheld rfl) ?_
    intro w' c g rest F hw'
    rcases hw'.before (q := .reducing t) rfl (fun _ hww => Function.update_of_ne hww _ _) with
      ⟨rfl, hq⟩ | ⟨-, hw'⟩
    · obtain rfl : t = c := by simpa using hq
      exact h.extStack w' t g rest F (.inr (.inr ⟨hw, hsteal⟩))
    · exact h.extStack w' c g rest F hw'
  | @takeTables w t parent x hw hparent htables =>
    have hheld : (s.phase w).closure = some t := by rw [hw]; rfl
    refine h.turn (by constructor <;> rfl) rfl rfl rfl rfl
      (hclosure w t (.scheduled t) hheld rfl) ?_
    intro w' c g rest F hw' hg hred hF
    rcases hw'.before (q := .scheduled t) rfl (fun _ hww => Function.update_of_ne hww _ _) with
      ⟨rfl, hq⟩ | ⟨hww, hw'⟩
    · have htc : t = c := by
        simp at hq
        exact hq.1
      subst htc
      obtain ⟨r, hown, hsingle⟩ := hi.frames.single w' t (.inr (.inr hw))
      obtain rfl : r = g := (List.cons.inj (hsingle.symm.trans hg)).1
      rw [hi.frames.returning w' t r hw hown] at hred
      cases hred
    · have hdeque : (s.takeTables w parent t).deque w' = s.deque w' := Function.update_of_ne hww _ _
      rw [hdeque]
      exact h.extStack w' c g rest F hw' hg hred hF
  | @returnChild w t parent x hw hparent hleft hright hsteal =>
    exact h.returnChild hi hx hw hparent rfl rfl
  | @resumeParent w t parent x hw hparent hleft hright hsteal =>
    have hheld : (s.phase w).closure = some t := by rw [hw]; rfl
    obtain ⟨-, hp', hchild, hpt⟩ := hi.links.parent hi.hold hi.frames hw hparent
    have hcallee := (hi.links.last_child hp' hchild hsteal.1).2
    obtain ⟨f, hown, hstackp⟩ := hi.frames.parked parent hp' hsteal.2 hcallee
    have hredf : s.reduction f = false := by
      rw [← Bool.not_eq_true]
      intro hred
      obtain ⟨w', hw'⟩ := hi.frames.reducing parent f hp' hown hred
      have hheldp : (s.phase w').closure = some parent := by
        rcases hw' with hw' | hw' | hw'
        all_goals rw [hw']; rfl
      exact hi.hold.not_suspended hheldp hsteal.2
    have hnone : s.fiber parent = none := ha.parked parent hp' hsteal.2 hcallee
    have hret : SlotInv (s.returnChild w parent t) (x.returnChild s parent t) x.addr :=
      h.returnChild hi hx hw hparent rfl rfl
    have hlive : (s.returnChild w parent t).live parent :=
      (Function.update_of_ne hpt _ _).trans hp'
    have hstack' : (s.returnChild w parent t).stack parent = [f] :=
      (Function.update_of_ne hpt _ _).trans hstackp
    have hfiber : (s.returnChild w parent t).fiber parent = none :=
      (Function.update_of_ne hpt _ _).trans hnone
    have hothers : ∀ w' c, w' ≠ w → ((s.returnChild w parent t).phase w').closure = some c →
        c ≠ parent := by
      rintro w' c hww hc rfl
      exact hi.hold.not_suspended (stealing_update hc).2 hsteal.2
    have hmret := hm.returnChild (t := t) (hi.links.bound parent hp') w
    refine hret.sync (q := .scheduled parent) hlive hown hstack' hredf hothers rfl rfl
      (by constructor <;> rfl) rfl rfl rfl rfl rfl rfl rfl
      (fun _ hww => Function.update_of_ne hww _ _) (Function.update_self _ _ _) (fun _ hww => Function.update_of_ne hww _ _) rfl ?_
      (fun _ hww => Function.update_of_ne hww _ _) ?_
    · refine (Function.update_self _ _ _).trans ?_
      rw [hmret.extFiberChild]
    · intro F g i hF
      rw [hfiber] at hF
      cases hF
  | @setReturn w t f below parent x hw hstack hcode hsynched hdetached hlast hstolen hparent =>
    have hheld : (s.phase w).closure = some t := by rw [hw]; rfl
    have hlivet := hi.hold.live w t hheld
    have hmem : f ∈ s.stack t := by rw [hstack]; exact List.mem_cons_self
    have hred := hi.frames.user hi.hold hw hmem
    have hhasf : s.HasFrame f := ⟨hred, t, hlivet, hmem⟩
    have hp' := hi.links.caller t parent hlivet hparent
    have hpt : parent ≠ t := fun hpt => (hi.tree.older t parent hlivet (.inr hparent)).ne hpt
    have hown := hi.frames.own t f hlivet hmem (.inl hstolen)
    obtain ⟨above, hbottom⟩ := hi.frames.bottom t f hlivet hown
    have hlink := (hl.called t parent above f hlivet hparent hbottom).2
    have hcalm := hx.calm_of_frame hi.frames hlivet fun g hg => by
      rw [hown] at hg
      exact Option.some.inj hg ▸ hsynched
    have hfiber : s.fiber parent = s.fiber t :=
      (hx.called parent t hp' ((hi.links.called parent t hp').mpr ⟨hlivet, hparent⟩)).trans
        (hx.calm t hlivet hcalm).1.symm
    have hnext := hi.step (.setReturn hw hstack hcode hsynched hdetached hlast hstolen hparent)
    refine h.drop hi hheld (q := .running parent) rfl rfl
      (fun c hct => Function.update_of_ne hct _ _) (by constructor <;> rfl) ?_
      (fun c hct => Function.update_of_ne hct _ _) rfl rfl rfl rfl rfl ?_
      (fun hq => hpt (Option.some.inj hq)) h.passed fun g F i hg hslot => (h.kept g F i hg hslot).2
    · intro c g hg
      have hct : c ≠ t := by
        rintro rfl
        exact absurd ((Function.update_self _ _ _).symm.trans hg) (by simp)
      exact (Function.update_of_ne hct _ _).symm.trans hg
    · intro c g rest hq hg
      obtain rfl : parent = c := Option.some.inj hq
      have hstack' : (s.setReturn w t parent).stack parent = g :: rest :=
        (Function.update_of_ne hpt _ _).trans hg
      refine ⟨hpt, ?_, fun F hF => ?_⟩
      · exact hnext.frames.user hnext.hold (w := w) (Function.update_self _ _ _)
          (by rw [hstack']; exact List.mem_cons_self)
      · rw [hg] at hlink
        rw [← hcalled f g hhasf hdetached hlink]
        rw [hfiber] at hF
        exact ⟨h.top w t f below F hheld hstack hred hF,
          h.extStack w t f below F (.inl hw) hstack hred hF⟩
  | @exitRoot w t f below x hw hstack hcode hsynched hlast =>
    have hheld : (s.phase w).closure = some t := by rw [hw]; rfl
    refine h.turn (by constructor <;> rfl) rfl rfl rfl rfl
      (hclosure w t (.exited t) hheld rfl) ?_
    intro w' c g rest F hw'
    rcases hw'.before (q := .exited t) rfl fun _ _ => rfl with ⟨-, hq⟩ | ⟨-, hw'⟩
    · simp at hq
    · exact h.extStack w' c g rest F hw'

end Steps

end Cheetah
