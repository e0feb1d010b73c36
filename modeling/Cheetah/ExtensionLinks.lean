import Mathlib.Data.List.Chain
import Cheetah.CactusStack
import Cheetah.SchedulerRuns

/-! The stacks of all closures as one cactus stack, along `sf->call_parent`. -/
namespace Cheetah
open Function (update)

variable {κ V : Type}

/-- The frame is one of the program, and on the stack of a live closure. -/
def Runtime.HasFrame (s : Runtime κ V) (f : FrameId) : Prop :=
  s.reduction f = false ∧ ∃ c, s.live c ∧ f ∈ s.stack c

/-- The stacks of the closures as one, with the pedigree frames `addr`. -/
def Runtime.cactus (s : Runtime κ V) (x : Extensions) (addr : FrameId → FrameAddr) :
    Cactus κ V where
  live := s.HasFrame
  detached := s.detached
  code := s.code
  callParent := x.callParent
  position := x.position
  addr := addr
  mem := x.mem

/-- The stack of a closure hangs together, its oldest frame under that of its spawn parent or under
the youngest one of its call parent. -/
structure CallLinks (s : Runtime κ V) (x : Extensions) : Prop where
  chain : ∀ c, s.live c → (s.stack c).IsChain fun f g => x.callParent f = some g
  spawned : ∀ k p above b, s.live k → s.spawnParent k = some p → s.stack k = above ++ [b] →
    s.reduction b = false → s.detached b = true ∧ x.callParent b = s.frame p
  called : ∀ d p above b, s.live d → s.callParent d = some p → s.stack d = above ++ [b] →
    s.detached b = false ∧ x.callParent b = (s.stack p).head?
  root : x.callParent 0 = none

section Links

variable {s s' : Runtime κ V} {x x' : Extensions} {addr : FrameId → FrameAddr}

/-- Where a frame is whose parent is `f`: on the same stack, or at the bottom of another one. -/
theorem CallLinks.above (hc : CallLinks s x) (hi : SchedInv s) {f g : FrameId} (hg : s.HasFrame g)
    (hparent : x.callParent g = some f) :
    (∃ c above below, s.live c ∧ s.stack c = above ++ g :: f :: below) ∨
    (∃ k p above, s.live k ∧ s.spawnParent k = some p ∧ s.frame p = some f ∧
      s.stack k = above ++ [g] ∧ s.detached g = true) ∨
    ∃ d p above, s.live d ∧ s.callParent d = some p ∧ (s.stack p).head? = some f ∧
      s.stack d = above ++ [g] := by
  obtain ⟨hred, c, hlive, hmem⟩ := hg
  obtain ⟨above, below, hstack⟩ := List.append_of_mem hmem
  cases below with
  | cons h below =>
    have hchain := hc.chain c hlive
    rw [hstack] at hchain
    have hlink := (List.isChain_append_cons_cons.mp hchain).2.1
    obtain rfl : h = f := Option.some.inj (hlink.symm.trans hparent)
    exact .inl ⟨c, above, below, hlive, hstack⟩
  | nil =>
    cases hspawn : s.spawnParent c with
    | some p =>
      obtain ⟨hd, hbottom⟩ := hc.spawned c p above g hlive hspawn hstack hred
      exact .inr (.inl ⟨c, p, above, hlive, hspawn, hbottom ▸ hparent, hstack, hd⟩)
    | none =>
      cases hcall : s.callParent c with
      | some p =>
        have hbottom := (hc.called c p above g hlive hcall hstack).2
        exact .inr (.inr ⟨c, p, above, hlive, hcall, hbottom ▸ hparent, hstack⟩)
      | none =>
        obtain rfl := hi.tree.parent c hlive hspawn hcall
        obtain rfl := hi.tree.root_frame hi.frames hstack
        rw [hc.root] at hparent
        cases hparent

/-- A frame above the one that a worker runs belongs to a child that was spawned. -/
theorem CallLinks.above_top (hc : CallLinks s x) (hi : SchedInv s) {w : WorkerId} {t : ClosureId}
    {f g : FrameId} {below : List FrameId} (hw : s.phase w = .running t)
    (hstack : s.stack t = f :: below) (hg : s.HasFrame g) (hparent : x.callParent g = some f) :
    s.detached g = true ∧ s.frame t = some f ∧ s.children t ≠ [] := by
  have hlive := hi.hold.live w t (by rw [hw]; rfl)
  have hmem : f ∈ s.stack t := by rw [hstack]; exact List.mem_cons_self
  rcases hc.above hi hg hparent with ⟨c, above, below', hlivec, hstackc⟩ |
    ⟨k, p, above, hlivek, hspawn, hframe, -, hd⟩ | ⟨d, p, above, hlived, hcall, hhead, -⟩
  · have hmemc : f ∈ s.stack c := by
      rw [hstackc]
      simp
    obtain rfl := hi.frames.disjoint c t f hlivec hlive hmemc hmem
    have hnodup := hi.frames.nodup c hlivec
    rw [hstackc] at hnodup
    have hsame : above ++ [g] ++ f :: below' = [] ++ f :: below := by
      rw [List.append_assoc, List.nil_append, ← hstack, hstackc]
      rfl
    obtain ⟨hnil, -⟩ := nodup_split (by simpa using hnodup) hsame
    simp at hnil
  · have hp := hi.links.spawner k p hlivek hspawn
    obtain rfl := hi.frames.disjoint p t f hp hlive (hi.frames.frame_mem hp hframe) hmem
    exact ⟨hd, hframe, List.ne_nil_of_mem ((hi.links.child p k hp).mpr ⟨hlivek, hspawn⟩)⟩
  · have hp := hi.links.caller d p hlived hcall
    obtain rfl := hi.frames.disjoint p t f hp hlive (List.mem_of_head? hhead) hmem
    have hcallee := (hi.links.called p d hp).mpr ⟨hlived, hcall⟩
    rw [hi.hold.callee w p (by rw [hw]; rfl)] at hcallee
    cases hcallee

/-- The frame that a worker runs is in no call. -/
theorem CallLinks.current (hc : CallLinks s x) (hi : SchedInv s) {w : WorkerId} {t : ClosureId}
    {f : FrameId} {below : List FrameId} (hw : s.phase w = .running t)
    (hstack : s.stack t = f :: below) : (s.cactus x addr).Current f := by
  have hlive := hi.hold.live w t (by rw [hw]; rfl)
  have hmem : f ∈ s.stack t := by rw [hstack]; exact List.mem_cons_self
  refine ⟨⟨hi.frames.user hi.hold hw hmem, t, hlive, hmem⟩, fun g hg hparent => ?_⟩
  exact (hc.above_top hi hw hstack hg hparent).1

/-- Nothing is above a frame that has passed its sync. -/
theorem CallLinks.top (hc : CallLinks s x) (hi : SchedInv s) {w : WorkerId} {t : ClosureId}
    {f : FrameId} {below : List FrameId} (hw : s.phase w = .running t)
    (hstack : s.stack t = f :: below) (hsynched : s.unsynched f = false) {g : FrameId}
    (hg : s.HasFrame g) : x.callParent g ≠ some f := by
  intro hparent
  obtain ⟨-, hframe, hchildren⟩ := hc.above_top hi hw hstack hg hparent
  have hlive := hi.hold.live w t (by rw [hw]; rfl)
  exact hchildren (hi.frames.childless hlive hframe hsynched).1

/-- A frame with a number that is not in use is on no stack. -/
theorem SchedInv.new_frame (hi : SchedInv s) {c : ClosureId} (hc : s.live c) {f : FrameId}
    (hmem : f ∈ s.stack c) : f ≠ s.numFrames := (hi.frames.bound c f hc hmem).ne

theorem SchedInv.has_lt (hi : SchedInv s) {f : FrameId} (hf : s.HasFrame f) : f < s.numFrames := by
  obtain ⟨-, c, hc, hmem⟩ := hf
  exact hi.frames.bound c f hc hmem

/-- A frame is entered on top of the one that a worker runs. -/
theorem CallLinks.push (hc : CallLinks s x) (hi : SchedInv s) {w : WorkerId} {t : ClosureId}
    {f : FrameId} {below : List FrameId} (hw : s.phase w = .running t)
    (hstack : s.stack t = f :: below) (hlive : s'.live = s.live)
    (hstack' : s'.stack = update s.stack t (s.numFrames :: f :: below))
    (hspawnParent : s'.spawnParent = s.spawnParent) (hcallParent : s'.callParent = s.callParent)
    (hframe : s'.frame = s.frame) (hdetached : ∀ g, g ≠ s.numFrames → s'.detached g = s.detached g)
    (hreduction : ∀ g, g ≠ s.numFrames → s'.reduction g = s.reduction g)
    (hx : x'.callParent = update x.callParent s.numFrames (some f)) : CallLinks s' x' := by
  have hheld : (s.phase w).closure = some t := by rw [hw]; rfl
  have hlivet := hi.hold.live w t hheld
  have hold : ∀ c g, s.live c → g ∈ s.stack c → x'.callParent g = x.callParent g := by
    intro c g hlivec hg
    rw [hx, Function.update_of_ne (hi.new_frame hlivec hg)]
  have hbottom : ∀ c above b, s.live c → s'.stack c = above ++ [b] →
      ∃ above', s.stack c = above' ++ [b] := by
    intro c above b hlivec h
    rw [hstack'] at h
    by_cases hct : c = t
    · subst hct
      rw [Function.update_self] at h
      rw [hstack]
      exact suffix_of_cons (List.cons_ne_nil f below) h
    · rw [Function.update_of_ne hct] at h
      exact ⟨above, h⟩
  have hkept : ∀ c above b, s.live c → s.stack c = above ++ [b] → b ∈ s.stack c := by
    intro c above b _ h
    rw [h]
    simp
  constructor
  case chain =>
    intro c hlivec
    rw [hlive] at hlivec
    have hchain : (s.stack c).IsChain fun f g => x'.callParent f = some g := by
      apply (hc.chain c hlivec).imp_of_mem_imp
      intro g h hg _ hgh
      rw [hold c g hlivec hg, hgh]
    rw [hstack']
    by_cases hct : c = t
    · subst hct
      rw [Function.update_self]
      rw [hstack] at hchain
      apply List.isChain_cons_cons.mpr ⟨_, hchain⟩
      rw [hx, Function.update_self]
    · rw [Function.update_of_ne hct]
      exact hchain
  case spawned =>
    intro k p above b hlivek hspawn hb hred
    rw [hlive] at hlivek
    obtain ⟨above', hb'⟩ := hbottom k above b hlivek hb
    have hmem := hkept k above' b hlivek hb'
    have hne := hi.new_frame hlivek hmem
    rw [hreduction b hne] at hred
    rw [hspawnParent] at hspawn
    rw [hdetached b hne, hold k b hlivek hmem, hframe]
    exact hc.spawned k p above' b hlivek hspawn hb' hred
  case called =>
    intro d p above b hlived hcall hb
    rw [hlive] at hlived
    obtain ⟨above', hb'⟩ := hbottom d above b hlived hb
    have hmem := hkept d above' b hlived hb'
    rw [hcallParent] at hcall
    have hpt : p ≠ t := by
      rintro rfl
      have hcallee := (hi.links.called p d hlivet).mpr ⟨hlived, hcall⟩
      rw [hi.hold.callee w p hheld] at hcallee
      cases hcallee
    rw [hdetached b (hi.new_frame hlived hmem), hold d b hlived hmem, hstack',
      Function.update_of_ne hpt]
    exact hc.called d p above' b hlived hcall hb'
  case root =>
    have hroot := hi.tree.numFrames_pos hi.frames
    rw [hx, Function.update_of_ne hroot.ne]
    exact hc.root

/-- The youngest frame of the closure that a worker runs is left. -/
theorem CallLinks.pop (hc : CallLinks s x) (hi : SchedInv s) {w : WorkerId} {t : ClosureId}
    {f : FrameId} {below : List FrameId} (hw : s.phase w = .running t)
    (hstack : s.stack t = f :: below) (hlive : s'.live = s.live)
    (hstack' : s'.stack = update s.stack t below) (hspawnParent : s'.spawnParent = s.spawnParent)
    (hcallParent : s'.callParent = s.callParent) (hframe : s'.frame = s.frame)
    (hdetached : ∀ g, g ≠ f → s'.detached g = s.detached g)
    (hreduction : s'.reduction = s.reduction)
    (hx : x'.callParent = x.callParent) : CallLinks s' x' := by
  have hheld : (s.phase w).closure = some t := by rw [hw]; rfl
  have hlivet := hi.hold.live w t hheld
  have hnodup := hi.frames.nodup t hlivet
  rw [hstack, List.nodup_cons] at hnodup
  have hmemf : f ∈ s.stack t := by rw [hstack]; exact List.mem_cons_self
  have hbottom : ∀ c above b, s.live c → s'.stack c = above ++ [b] →
      ∃ above', s.stack c = above' ++ [b] := by
    intro c above b hlivec h
    rw [hstack'] at h
    by_cases hct : c = t
    · subst hct
      rw [Function.update_self] at h
      refine ⟨f :: above, ?_⟩
      rw [hstack, h]
      rfl
    · rw [Function.update_of_ne hct] at h
      exact ⟨above, h⟩
  have hkept : ∀ c above b, s.live c → s'.stack c = above ++ [b] → b ≠ f := by
    rintro c above b hlivec h rfl
    have hmem : b ∈ s'.stack c := by
      rw [h]
      simp
    rw [hstack'] at hmem
    by_cases hct : c = t
    · subst hct
      rw [Function.update_self] at hmem
      exact hnodup.1 hmem
    · rw [Function.update_of_ne hct] at hmem
      exact hct (hi.frames.disjoint c t b hlivec hlivet hmem hmemf)
  constructor
  case chain =>
    intro c hlivec
    rw [hlive] at hlivec
    have hchain := hc.chain c hlivec
    rw [hx, hstack']
    by_cases hct : c = t
    · subst hct
      rw [hstack] at hchain
      rw [Function.update_self]
      exact hchain.tail
    · rw [Function.update_of_ne hct]
      exact hchain
  case spawned =>
    intro k p above b hlivek hspawn hb hred
    rw [hlive] at hlivek
    obtain ⟨above', hb'⟩ := hbottom k above b hlivek hb
    rw [hdetached b (hkept k above b hlivek hb), hx, hframe]
    rw [hspawnParent] at hspawn
    rw [hreduction] at hred
    exact hc.spawned k p above' b hlivek hspawn hb' hred
  case called =>
    intro d p above b hlived hcall hb
    rw [hlive] at hlived
    obtain ⟨above', hb'⟩ := hbottom d above b hlived hb
    rw [hcallParent] at hcall
    have hpt : p ≠ t := by
      rintro rfl
      have hcallee := (hi.links.called p d hlivet).mpr ⟨hlived, hcall⟩
      rw [hi.hold.callee w p hheld] at hcallee
      cases hcallee
    rw [hdetached b (hkept d above b hlived hb), hx, hstack', Function.update_of_ne hpt]
    exact hc.called d p above' b hlived hcall hb'
  case root =>
    rw [hx]
    exact hc.root

/-- The spawn helper at the bottom of a closure makes way for the frame of the reductions. -/
theorem CallLinks.handle (hc : CallLinks s x) (hi : SchedInv s) {w : WorkerId} {t : ClosureId}
    {f : FrameId} (hw : s.phase w = .running t) (hstack : s.stack t = [f])
    (hsynched : s.unsynched f = false) (hlive : s'.live = s.live)
    (hstack' : ∀ c, s'.stack c = if c = t then [s.numFrames] else s.stack c)
    (hspawnParent : s'.spawnParent = s.spawnParent) (hcallParent : s'.callParent = s.callParent)
    (hspawned : s.callParent t = none) (hframe : ∀ c, c ≠ t → s'.frame c = s.frame c)
    (hdetached : ∀ g, g ≠ f → g ≠ s.numFrames → s'.detached g = s.detached g)
    (hreduction : ∀ g, s'.reduction g = if g = s.numFrames then true else s.reduction g)
    (hx : x'.callParent = x.callParent) : CallLinks s' x' := by
  have hheld : (s.phase w).closure = some t := by rw [hw]; rfl
  have hlivet := hi.hold.live w t hheld
  have hmemf : f ∈ s.stack t := by rw [hstack]; exact List.mem_cons_self
  have hchildless : s.children t = [] := by
    by_contra hne
    obtain ⟨g, hg, hunsynched⟩ := hi.frames.synched t hlivet (.inl hne)
    have hmem := hi.frames.frame_mem hlivet hg
    rw [hstack, List.mem_singleton] at hmem
    rw [hmem, hsynched] at hunsynched
    cases hunsynched
  have hother : ∀ c above b, s.live c → c ≠ t → s.stack c = above ++ [b] →
      b ≠ f ∧ b ≠ s.numFrames := by
    intro c above b hlivec hct hb
    have hmem : b ∈ s.stack c := by
      rw [hb]
      simp
    refine ⟨?_, hi.new_frame hlivec hmem⟩
    rintro rfl
    exact hct (hi.frames.disjoint c t b hlivec hlivet hmem hmemf)
  constructor
  case chain =>
    intro c hlivec
    rw [hlive] at hlivec
    rw [hx, hstack' c]
    split_ifs with hct
    · exact List.isChain_singleton _
    · exact hc.chain c hlivec
  case spawned =>
    intro k p above b hlivek hspawn hb hred
    rw [hlive] at hlivek
    rw [hspawnParent] at hspawn
    rw [hstack' k] at hb
    split_ifs at hb with hkt
    · have hmem : b ∈ [s.numFrames] := by
        rw [hb]
        simp
      rw [List.mem_singleton.mp hmem, hreduction, if_pos rfl] at hred
      cases hred
    · obtain ⟨hbf, hbn⟩ := hother k above b hlivek hkt hb
      have hp := hi.links.spawner k p hlivek hspawn
      have hpt : p ≠ t := by
        rintro rfl
        have hmem := (hi.links.child p k hp).mpr ⟨hlivek, hspawn⟩
        rw [hchildless] at hmem
        cases hmem
      rw [hreduction, if_neg hbn] at hred
      rw [hdetached b hbf hbn, hx, hframe p hpt]
      exact hc.spawned k p above b hlivek hspawn hb hred
  case called =>
    intro d p above b hlived hcall hb
    rw [hlive] at hlived
    rw [hcallParent] at hcall
    have hdt : d ≠ t := by
      rintro rfl
      rw [hspawned] at hcall
      cases hcall
    have hpt : p ≠ t := by
      rintro rfl
      have hcallee := (hi.links.called p d hlivet).mpr ⟨hlived, hcall⟩
      rw [hi.hold.callee w p hheld] at hcallee
      cases hcallee
    rw [hstack' d, if_neg hdt] at hb
    obtain ⟨hbf, hbn⟩ := hother d above b hlived hdt hb
    rw [hdetached b hbf hbn, hx, hstack' p, if_neg hpt]
    exact hc.called d p above b hlived hcall hb
  case root =>
    rw [hx]
    exact hc.root

/-- A closure without children and callees is destroyed. -/
theorem CallLinks.drop (hc : CallLinks s x) (hi : SchedInv s) {t : ClosureId} (hlivet : s.live t)
    (hchildless : s.children t = []) (hcallee : s.callee t = none)
    (hlive : s'.live = update s.live t false) (hstack : ∀ c, c ≠ t → s'.stack c = s.stack c)
    (hspawnParent : s'.spawnParent = s.spawnParent) (hcallParent : s'.callParent = s.callParent)
    (hframe : ∀ c, c ≠ t → s'.frame c = s.frame c) (hdetached : s'.detached = s.detached)
    (hreduction : s'.reduction = s.reduction) (hx : x'.callParent = x.callParent) :
    CallLinks s' x' := by
  have hlive' : ∀ c, s'.live c → c ≠ t ∧ s.live c := by
    intro c h
    rw [hlive] at h
    by_cases hct : c = t
    · rw [hct, Function.update_self] at h
      cases h
    · rw [Function.update_of_ne hct] at h
      exact ⟨hct, h⟩
  constructor
  case chain =>
    intro c h
    obtain ⟨hct, hlivec⟩ := hlive' c h
    rw [hx, hstack c hct]
    exact hc.chain c hlivec
  case spawned =>
    intro k p above b h hspawn hb hred
    obtain ⟨hkt, hlivek⟩ := hlive' k h
    rw [hspawnParent] at hspawn
    rw [hstack k hkt] at hb
    rw [hreduction] at hred
    have hpt : p ≠ t := by
      rintro rfl
      have hmem := (hi.links.child p k hlivet).mpr ⟨hlivek, hspawn⟩
      rw [hchildless] at hmem
      cases hmem
    rw [hdetached, hx, hframe p hpt]
    exact hc.spawned k p above b hlivek hspawn hb hred
  case called =>
    intro d p above b h hcall hb
    obtain ⟨hdt, hlived⟩ := hlive' d h
    rw [hcallParent] at hcall
    rw [hstack d hdt] at hb
    have hpt : p ≠ t := by
      rintro rfl
      have hmem := (hi.links.called p d hlivet).mpr ⟨hlived, hcall⟩
      rw [hcallee] at hmem
      cases hmem
    rw [hdetached, hx, hstack p hpt]
    exact hc.called d p above b hlived hcall hb
  case root =>
    rw [hx]
    exact hc.root

/-- The frames right below a bottom frame of the victim that is not its own. -/
theorem SchedInv.below_stolen (hi : SchedInv s) {cl : ClosureId} {f : FrameId}
    {above below : List FrameId} (hlive : s.live cl) (hstack : s.stack cl = above ++ f :: below)
    (hframe : s.frame cl ≠ some f) (hdetached : s.detached f = false) : below ≠ [] := by
  rintro rfl
  cases hown : s.frame cl with
  | none =>
    obtain ⟨above', g, habove, hd⟩ := hi.frames.helper cl hlive hown
    obtain ⟨-, hfg⟩ := List.append_inj' (hstack.symm.trans habove) rfl
    obtain rfl : f = g := by simpa using hfg
    rw [hd] at hdetached
    cases hdetached
  | some g =>
    obtain ⟨above', habove⟩ := hi.frames.bottom cl g hlive hown
    obtain ⟨-, hfg⟩ := List.append_inj' (hstack.symm.trans habove) rfl
    obtain rfl : f = g := by simpa using hfg
    exact hframe hown

/-- A steal splits a stack, and the frames stay above each other. -/
theorem CallLinks.steal (hc : CallLinks s x) (hi : SchedInv s) {w victim : WorkerId}
    {cl k res : ClosureId} {f : FrameId} {parents above below : List FrameId}
    (hs : Splits s s' w victim cl k res f parents above below)
    (hvictim : s.phase victim = .running cl) (hdeque : s.deque victim = f :: parents)
    (hstack : s.stack cl = above ++ f :: below) (hk : ¬ s.live k)
    (hres : res = cl ∧ s.frame cl = some f ∧ below = [] ∨
      ¬ s.live res ∧ res ≠ k ∧ s.frame cl ≠ some f ∧ s.detached f = false)
    (hchild : s'.spawnParent k = some res ∧ s'.callParent k = none)
    (hcalled : res ≠ cl → s'.spawnParent res = none ∧ s'.callParent res = some cl)
    (hspawnParent : ∀ c, c ≠ k → s.live c → s'.spawnParent c = s.spawnParent c)
    (hcallParent : ∀ c, c ≠ k → s.live c → s'.callParent c = s.callParent c)
    (hx : x'.callParent = x.callParent) : CallLinks s' x' := by
  have hheld : (s.phase victim).closure = some cl := by rw [hvictim]; rfl
  have hlive := hi.hold.live victim cl hheld
  obtain ⟨-, -, above', helper, rfl, hd⟩ := hi.frames.victim hi.hold hvictim hdeque hstack
  have hchain := hc.chain cl hlive
  rw [hstack] at hchain
  have hclk : cl ≠ k := by
    rintro rfl
    exact hk hlive
  have hnotk : ∀ c, s.live c → c ≠ k := by
    rintro c hc rfl
    exact hk hc
  have hframe : ∀ p, s.live p → s.frame p ≠ none → s'.frame p = s.frame p := by
    intro p hp hsome
    rcases hres with ⟨rfl, hown, -⟩ | ⟨hdead, -⟩
    · by_cases hpr : p = res
      · rw [hpr, hs.frameRes, hown]
      · exact hs.frame p (hnotk p hp) hpr
    · apply hs.frame p (hnotk p hp)
      rintro rfl
      exact hdead hp
  have hbottom : ∀ c a b, s.live c → c ≠ k → s'.stack c = a ++ [b] →
      ∃ a', s.stack c = a' ++ [b] := by
    intro c a b hlivec hck hb
    by_cases hcl : c = cl
    · subst hcl
      rcases hres with ⟨rfl, -, rfl⟩ | ⟨hdead, -⟩
      · obtain rfl : f = b := by
          have hmem : b ∈ [f] := by
            rw [← hs.stackRes, hb]
            simp
          exact (List.mem_singleton.mp hmem).symm
        exact ⟨_, hstack⟩
      · have hne : c ≠ res := by
          rintro rfl
          exact hdead hlivec
        rw [hs.stackKept hne] at hb
        refine ⟨above' ++ [helper] ++ f :: a, ?_⟩
        rw [hstack, hb]
        simp
    · have hcr : c ≠ res := by
        rintro rfl
        rcases hres with ⟨rfl, -⟩ | ⟨hdead, -⟩
        · exact hcl rfl
        · exact hdead hlivec
      rw [hs.stack c hck hcr hcl] at hb
      exact ⟨a, hb⟩
  constructor
  case chain =>
    intro c hlivec
    rw [hx]
    by_cases hck : c = k
    · rw [hck, hs.stackChild]
      exact hchain.left_of_append
    · by_cases hcr : c = res
      · rw [hcr, hs.stackRes]
        exact List.isChain_singleton f
      · by_cases hcl : c = cl
        · rw [hcl, hs.stackKept (hcl ▸ hcr)]
          exact hchain.right_of_append.tail
        · rw [hs.stack c hck hcr hcl]
          have hold : s.live c := by
            rcases hs.live c hlivec with h | h | ⟨-, -, h⟩
            · exact absurd h hck
            · exact absurd h hcr
            · exact h
          exact hc.chain c hold
  case spawned =>
    intro j p a b hlivej hspawn hb hred
    rw [hs.detached, hx]
    rw [hs.reduction] at hred
    by_cases hjk : j = k
    · subst hjk
      rw [hchild.1] at hspawn
      obtain rfl := Option.some.inj hspawn
      rw [hs.stackChild] at hb
      obtain ⟨-, hbh⟩ := List.append_inj' hb rfl
      obtain rfl : helper = b := by simpa using hbh
      rw [List.append_assoc, List.singleton_append] at hchain
      exact ⟨hd, (List.isChain_append_cons_cons.mp hchain).2.1.trans hs.frameRes.symm⟩
    · have hlivej' : s.live j := by
        rcases hs.live j hlivej with h | h | ⟨-, -, h⟩
        · exact absurd h hjk
        · by_cases hrc : res = cl
          · rw [h, hrc]
            exact hlive
          · rw [h, (hcalled hrc).1] at hspawn
            cases hspawn
        · exact h
      obtain ⟨a', hb'⟩ := hbottom j a b hlivej' hjk hb
      rw [hspawnParent j hjk hlivej'] at hspawn
      obtain ⟨hdb, hparent⟩ := hc.spawned j p a' b hlivej' hspawn hb' hred
      have hp := hi.links.spawner j p hlivej' hspawn
      have hsome : s.frame p ≠ none := by
        have hmem := (hi.links.child p j hp).mpr ⟨hlivej', hspawn⟩
        obtain ⟨g, hg, -⟩ := hi.frames.synched p hp (.inl (List.ne_nil_of_mem hmem))
        rw [hg]
        exact Option.some_ne_none g
      exact ⟨hdb, hparent.trans (hframe p hp hsome).symm⟩
  case called =>
    intro d p a b hlived hcall hb
    rw [hs.detached, hx]
    have hdk : d ≠ k := by
      rintro rfl
      rw [hchild.2] at hcall
      cases hcall
    by_cases hnew : d = res ∧ res ≠ cl
    · obtain ⟨rfl, hne⟩ := hnew
      rw [(hcalled hne).2] at hcall
      obtain rfl := Option.some.inj hcall
      rw [hs.stackRes] at hb
      have hmem : b ∈ [f] := by
        rw [hb]
        simp
      obtain rfl := List.mem_singleton.mp hmem
      rcases hres with ⟨rfl, -⟩ | ⟨-, -, hframe', hdf⟩
      · exact absurd rfl hne
      · obtain ⟨g, rest, rfl⟩ := List.exists_cons_of_ne_nil
          (hi.below_stolen hlive hstack hframe' hdf)
        rw [hs.stackKept hne.symm]
        exact ⟨hdf, (List.isChain_append_cons_cons.mp hchain).2.1⟩
    · have hlived' : s.live d := by
        rcases hs.live d hlived with h | h | ⟨-, -, h⟩
        · exact absurd h hdk
        · rw [h]
          by_contra hdead
          apply hnew
          refine ⟨h, ?_⟩
          rintro rfl
          exact hdead hlive
        · exact h
      obtain ⟨a', hb'⟩ := hbottom d a b hlived' hdk hb
      rw [hcallParent d hdk hlived'] at hcall
      have hp := hi.links.caller d p hlived' hcall
      have hpcl : p ≠ cl := by
        rintro rfl
        have hcallee := (hi.links.called p d hp).mpr ⟨hlived', hcall⟩
        rw [hi.hold.callee victim p hheld] at hcallee
        cases hcallee
      have hpr : p ≠ res := by
        rintro rfl
        rcases hres with ⟨rfl, -⟩ | ⟨hdead, -⟩
        · exact hpcl rfl
        · exact hdead hp
      rw [hs.stack p (hnotk p hp) hpr hpcl]
      exact hc.called d p a' b hlived' hcall hb'
  case root =>
    rw [hx]
    exact hc.root

end Links

end Cheetah
