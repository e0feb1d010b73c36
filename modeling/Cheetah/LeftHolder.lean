import Mathlib.Data.List.Count
import Cheetah.SchedulerRuns

/-! Which closure answers for which fiber between two syncs, and what each section does to the
fibers. -/
namespace Cheetah
open Function (update)

variable {κ V : Type}

/-- The fiber and the stack pointer at the first steal of a closure since its last sync. -/
def Runtime.firstSteal (s : Runtime κ V) (c : ClosureId) : Option (Option FiberId × ℕ) :=
  (s.frame c).bind fun f => (s.steals f).head?

/-- The fiber on which the closure was made is also its parent's: a call parent waits on it, and
the leftmost child since the last sync passes it up. -/
def Runtime.Inherits (s : Runtime κ V) (c : ClosureId) : Prop :=
  s.callParent c ≠ none ∨ ∃ p, s.spawnParent c = some p ∧ s.home c = s.home p

/-- The closure has to pass the fiber on, or to return it to the pool. -/
def Runtime.Holds (s : Runtime κ V) (c : ClosureId) (x : FiberId) : Prop :=
  s.live c ∧ (s.home c = some x ∧ ¬ s.Inherits c ∨ s.fiber c = some x ∧ s.origRsp c ≠ none)

/-- A closure has a saved stack pointer from its first steal to its next sync; until then the fiber
it was made on waits in `fiber_child` or with the leftmost child, and it runs on another one. -/
structure FiberInv (s : Runtime κ V) : Prop where
  home : ∀ c, s.live c → s.home c ≠ none
  first : ∀ c, s.live c → s.firstSteal c = (s.origRsp c).map fun sp => (s.home c, sp)
  calm : ∀ c, s.live c → s.origRsp c = none →
    s.fiber c = s.home c ∧ s.fiberChild c = none ∧ s.given c = []
  away : ∀ c, s.live c → s.origRsp c ≠ none → s.fiber c ≠ s.home c
  awake : ∀ c, s.live c → s.fiber c = none → s.status c = .suspended ∧ s.callee c = none
  leftmost : ∀ c, s.live c → s.origRsp c ≠ none → s.fiberChild c = s.home c ∨
    s.fiberChild c = none ∧ ∃ k, (s.children c).head? = some k ∧ s.home k = s.home c
  later : ∀ c k, s.live c → k ∈ s.children c → s.home k = s.home c →
    s.fiberChild c = none ∧ (s.children c).head? = some k
  called : ∀ c d, s.live c → s.callee c = some d → s.fiber c = s.home d
  bound : ∀ c x, s.live c → s.home c = some x ∨ s.fiber c = some x → x < s.numFibers
  boundFreed : ∀ x ∈ s.freed, x < s.numFibers
  sole : ∀ c c' x, s.Holds c x → s.Holds c' x → c = c'
  kept : ∀ c x, s.Holds c x → x ∉ s.freed
  once : s.freed.Nodup
  given : ∀ c x, s.live c → x ∈ s.given c → s.home c = some x ∨ x ∈ s.freed ∨
    s.fiber c = some x ∨ ∃ k ∈ s.children c, s.home k = some x

section Fibers

variable {s s' : Runtime κ V} {p k : ClosureId} {y : FiberId} {sp : ℕ}

theorem fiberInv_initial (code : Code κ V) (table : Option (ViewMap κ V)) :
    FiberInv (initialRuntime code table) := by
  constructor
  case first =>
    intro c hc
    obtain rfl : c = 0 := by simpa [initialRuntime] using hc
    rfl
  case sole =>
    intro c c' x hc hc'
    have h : c = 0 := by simpa [initialRuntime] using hc.1
    have h' : c' = 0 := by simpa [initialRuntime] using hc'.1
    rw [h, h']
  all_goals simp [initialRuntime]

/-- A closure with children has been stolen since its last sync. -/
theorem FiberInv.stolen (hi : FiberInv s) (hf : FrameInv s) {p : ClosureId} (hp : s.live p)
    (hchildren : s.children p ≠ []) : s.origRsp p ≠ none := by
  obtain ⟨f, hframe, hunsynched⟩ := hf.synched p hp (.inl hchildren)
  have hsteals := (hf.steals f).mp hunsynched
  have hfirst := hi.first p hp
  intro hnone
  rw [hnone, Runtime.firstSteal, hframe] at hfirst
  exact hsteals (List.head?_eq_none_iff.mp hfirst)

/-- Nothing happens to the fibers. -/
theorem FiberInv.keep (hi : FiberInv s) (hlive : s'.live = s.live) (hhome : s'.home = s.home)
    (hfiber : s'.fiber = s.fiber) (hfiberChild : s'.fiberChild = s.fiberChild)
    (horigRsp : s'.origRsp = s.origRsp) (hchildren : s'.children = s.children)
    (hcallee : s'.callee = s.callee) (hcallParent : s'.callParent = s.callParent)
    (hspawnParent : s'.spawnParent = s.spawnParent) (hgiven : s'.given = s.given)
    (hfreed : s'.freed = s.freed) (hbound : s'.numFibers = s.numFibers)
    (hfirst : ∀ c, s.live c → s'.firstSteal c = s.firstSteal c)
    (hstatus : ∀ c, s.live c → s.fiber c = none → s.status c = .suspended →
      s'.status c = .suspended) : FiberInv s' := by
  have hholds : ∀ c x, s'.Holds c x ↔ s.Holds c x := by
    intro c x
    simp only [Runtime.Holds, Runtime.Inherits, hlive, hhome, hfiber, horigRsp, hcallParent,
      hspawnParent]
  obtain ⟨home, first, calm, away, awake, leftmost, later, called, bound, boundFreed, sole, kept,
    once, given⟩ := hi
  constructor
  all_goals
    simp only [hholds, hlive, hhome, hfiber, hfiberChild, horigRsp, hchildren, hcallee, hgiven,
      hfreed, hbound]
  case first =>
    intro c hc
    rw [hfirst c hc]
    exact first c hc
  case awake =>
    intro c hc hnone
    have hawake := awake c hc hnone
    exact ⟨hstatus c hc hnone hawake.1, hawake.2⟩
  all_goals assumption

/-- A new closure is called by `p`, on the fiber of `p`. -/
theorem FiberInv.call (hi : FiberInv s) (hl : LinksInv s) {d : ClosureId}
    (hp : s.live p) (hd : ¬ s.live d) (hy : s.fiber p = some y)
    (hlive : s'.live = update s.live d true) (hhome : s'.home = update s.home d (some y))
    (hfiber : s'.fiber = update s.fiber d (some y))
    (hfiberChild : s'.fiberChild = update s.fiberChild d none)
    (horigRsp : s'.origRsp = update s.origRsp d none)
    (hchildren : s'.children = update s.children d [])
    (hcallee : s'.callee = update (update s.callee d none) p (some d))
    (hcallParent : s'.callParent = update s.callParent d (some p))
    (hspawnParent : s'.spawnParent = update s.spawnParent d none)
    (hgiven : s'.given = update s.given d [])
    (hfreed : s'.freed = s.freed) (hbound : s'.numFibers = s.numFibers)
    (hfirstOwn : s'.firstSteal d = none)
    (hfirst : ∀ c, s.live c → s'.firstSteal c = s.firstSteal c)
    (hstatus : ∀ c, c ≠ p → c ≠ d → s.status c = .suspended → s'.status c = .suspended) :
    FiberInv s' := by
  have hmem := fun c k (hc : s.live c) (hk : k ∈ s.children c) => hl.mem_live hc hk
  have hcalled := fun c k (hc : s.live c) => hl.called c k hc
  have hspawner := hl.spawner
  have hne : p ≠ d := by
    rintro rfl
    exact hd hp
  have hholds : ∀ c x, s'.Holds c x → s.Holds c x := by
    intro c x
    simp only [Runtime.Holds, Runtime.Inherits, hlive, hhome, hfiber, horigRsp, hcallParent,
      hspawnParent, Function.update_apply]
    grind
  obtain ⟨home, first, calm, away, awake, leftmost, later, called, bound, boundFreed, sole, kept,
    once, given⟩ := hi
  constructor
  case sole => exact fun c c' x h h' => sole c c' x (hholds c x h) (hholds c' x h')
  case kept => exact fun c x h => hfreed ▸ kept c x (hholds c x h)
  case first =>
    intro c hc
    rw [hhome, horigRsp]
    by_cases hcd : c = d
    · simp [hcd, hfirstOwn]
    · have hc : s.live c := by simpa [hlive, hcd] using hc
      simpa [hcd, hfirst c hc] using first c hc
  case leftmost =>
    intro c hc hsp
    rw [horigRsp] at hsp
    rw [hfiberChild, hhome, hchildren]
    by_cases hcd : c = d
    · simp [hcd] at hsp
    · have hc : s.live c := by simpa [hlive, hcd] using hc
      simp only [Function.update_of_ne hcd] at hsp ⊢
      refine (leftmost c hc hsp).imp_right fun ⟨hnone, k, hk, hhomek⟩ => ⟨hnone, k, hk, ?_⟩
      rwa [Function.update_of_ne]
      rintro rfl
      exact hd (hmem c k hc (List.mem_of_head? hk))
  case given =>
    intro c x hc hx
    rw [hgiven] at hx
    rw [hhome, hfreed, hfiber, hchildren]
    by_cases hcd : c = d
    · simp [hcd] at hx
    · have hc : s.live c := by simpa [hlive, hcd] using hc
      simp only [Function.update_of_ne hcd] at hx ⊢
      have hchild : (∃ k ∈ s.children c, s.home k = some x) →
          ∃ k ∈ s.children c, update s.home d (some y) k = some x := by
        rintro ⟨k, hk, hhomek⟩
        have hkd : k ≠ d := by
          rintro rfl
          exact hd (hmem c k hc hk)
        exact ⟨k, hk, by rwa [Function.update_of_ne hkd]⟩
      exact (given c x hc hx).imp_right (.imp_right (.imp_right hchild))
  all_goals
    simp only [hlive, hhome, hfiber, hfiberChild, horigRsp, hchildren, hcallee, hgiven, hfreed,
      hbound, Function.update_apply]
    clear hholds sole kept
    grind

/-- The closure `p` is stolen: its fiber `y` goes to a new child `k`, and it gets a new one. -/
structure GivesFiber (s s' : Runtime κ V) (p k : ClosureId) (y : FiberId) (sp : ℕ) : Prop where
  parent : s.live p
  fresh : ¬ s.live k
  held : s.fiber p = some y
  live : s'.live = update s.live k true
  home : s'.home = update s.home k (some y)
  fiber : s'.fiber = update (update s.fiber k (some y)) p (some s.numFibers)
  fiberChild : s'.fiberChild = update s.fiberChild k none
  origRsp : s'.origRsp = update (update s.origRsp k none) p ((s.origRsp p).or (some sp))
  children : s'.children = update (update s.children k []) p (s.children p ++ [k])
  callee : s'.callee = update s.callee k none
  callParent : s'.callParent = update s.callParent k none
  spawnParent : s'.spawnParent = update s.spawnParent k (some p)
  given : s'.given = update (update s.given k []) p (s.given p ++ [y, s.numFibers])
  freed : s'.freed = s.freed
  bound : s'.numFibers = s.numFibers + 1
  firstChild : s'.firstSteal k = none
  firstOwn : s'.firstSteal p = (s.firstSteal p).or (some (some y, sp))
  first : ∀ c, s.live c → c ≠ p → s'.firstSteal c = s.firstSteal c
  status : ∀ c, c ≠ k → c ≠ p → s.status c = .suspended → s'.status c = .suspended

/-- The new child is nobody's parent yet. -/
theorem GivesFiber.inherits (hs : GivesFiber s s' p k y sp) (hl : LinksInv s) {c : ClosureId}
    (hc : s.live c) : s'.Inherits c ↔ s.Inherits c := by
  have hck : c ≠ k := by
    rintro rfl
    exact hs.fresh hc
  rw [Runtime.Inherits, Runtime.Inherits, hs.callParent, hs.spawnParent, hs.home,
    Function.update_of_ne hck, Function.update_of_ne hck, Function.update_of_ne hck]
  refine or_congr_right (exists_congr fun q => and_congr_right fun hq => ?_)
  have hqk : q ≠ k := by
    rintro rfl
    exact hs.fresh (hl.spawner c q hc hq)
  rw [Function.update_of_ne hqk]

/-- The fiber of a closure that was stolen before is now the child's; otherwise the child is on the
fiber of its parent. -/
theorem FiberInv.holds_steal (hi : FiberInv s) (hl : LinksInv s) (hs : GivesFiber s s' p k y sp)
    {c : ClosureId} {x : FiberId} (h : s'.Holds c x) :
    c = p ∧ x = s.numFibers ∨ c = k ∧ x = y ∧ s.origRsp p ≠ none ∨
      s.Holds c x ∧ x ≠ s.numFibers ∧ (s.origRsp p ≠ none → c = p → x ≠ y) := by
  have hpk : p ≠ k := by
    rintro rfl
    exact hs.fresh hs.parent
  have hlt := fun c x hc h => ne_of_lt (hi.bound c x hc h)
  obtain ⟨hlive, hown⟩ := h
  rw [hs.home, hs.fiber, hs.origRsp] at hown
  by_cases hck : c = k
  · subst hck
    simp only [Function.update_self, Function.update_of_ne (Ne.symm hpk), ne_eq, not_true_eq_false,
      and_false, or_false] at hown
    obtain ⟨rfl, hinherits⟩ : y = x ∧ ¬ s'.Inherits c := by simpa using hown
    refine .inr (.inl ⟨rfl, rfl, fun hcalm => hinherits (.inr ⟨p, ?_, ?_⟩)⟩)
    · rw [hs.spawnParent, Function.update_self]
    · rw [hs.home, Function.update_self, Function.update_of_ne hpk, ← hs.held]
      exact (hi.calm p hs.parent hcalm).1
  · have hc : s.live c := by simpa [hs.live, hck] using hlive
    rw [hs.inherits hl hc] at hown
    by_cases hcp : c = p
    · subst hcp
      simp only [Function.update_self, Function.update_of_ne hpk] at hown
      rcases hown with ⟨hhome, hinherits⟩ | ⟨hnew, -⟩
      · refine .inr (.inr ⟨⟨hc, .inl ⟨hhome, hinherits⟩⟩, hlt c x hc (.inl hhome), ?_⟩)
        rintro hown - rfl
        exact hi.away c hc hown (hs.held.trans hhome.symm)
      · exact .inl ⟨rfl, (Option.some.inj hnew).symm⟩
    · simp only [Function.update_of_ne hck, Function.update_of_ne hcp] at hown
      refine .inr (.inr ⟨⟨hc, hown⟩, hlt c x hc ?_, fun _ h => absurd h hcp⟩)
      exact hown.imp And.left And.left

/-- A live closure's child is not the new one. -/
theorem GivesFiber.home_child (hs : GivesFiber s s' p k y sp)
    (hl : LinksInv s) {c j : ClosureId} (hc : s.live c) (hj : j ∈ s.children c) :
    s'.home j = s.home j := by
  rw [hs.home, Function.update_of_ne]
  rintro rfl
  exact hs.fresh (hl.mem_live hc hj)

/-- The first fiber stays with the leftmost child, which is the new one after a first steal. -/
theorem FiberInv.leftmost_steal (hi : FiberInv s) (hl : LinksInv s)
    (hs : GivesFiber s s' p k y sp) (hspawned : s.origRsp p = none → s.children p = [])
    {c : ClosureId} (hc : s'.live c) (hsp : s'.origRsp c ≠ none) : s'.fiberChild c = s'.home c ∨
      s'.fiberChild c = none ∧ ∃ j, (s'.children c).head? = some j ∧ s'.home j = s'.home c := by
  have hne : p ≠ k := by
    rintro rfl
    exact hs.fresh hs.parent
  have hchild := fun c j hc hj => hs.home_child hl (c := c) (j := j) hc hj
  by_cases hcp : c = p
  · subst hcp
    have hhome : s'.home c = s.home c := by rw [hs.home, Function.update_of_ne hne]
    rw [hs.fiberChild, Function.update_of_ne hne, hhome, hs.children, Function.update_self]
    by_cases hown : s.origRsp c = none
    · obtain ⟨hhomec, hnone, -⟩ := hi.calm c hs.parent hown
      refine .inr ⟨hnone, k, by simp [hspawned hown], ?_⟩
      rw [hs.home, Function.update_self, ← hhomec, hs.held]
    · refine (hi.leftmost c hs.parent hown).imp_right fun ⟨hnone, j, hj, hhomej⟩ => ⟨hnone, j, ?_⟩
      rw [hchild c j hs.parent (List.mem_of_head? hj)]
      exact ⟨by simp [List.head?_append, hj], hhomej⟩
  · have hck : c ≠ k := by
      rintro rfl
      simp [hs.origRsp, hcp] at hsp
    have hc : s.live c := by simpa [hs.live, hck] using hc
    have hsp : s.origRsp c ≠ none := by simpa [hs.origRsp, hcp, hck] using hsp
    rw [hs.fiberChild, Function.update_of_ne hck, hs.children, Function.update_of_ne hcp,
      Function.update_of_ne hck, hs.home, Function.update_of_ne hck, ← hs.home]
    refine (hi.leftmost c hc hsp).imp_right fun ⟨hnone, j, hj, hhomej⟩ => ⟨hnone, j, hj, ?_⟩
    rw [hchild c j hc (List.mem_of_head? hj), hhomej]

/-- The two fibers given out at a steal are in the hands of the closure and its new child. -/
theorem FiberInv.given_steal (hi : FiberInv s) (hl : LinksInv s)
    (hs : GivesFiber s s' p k y sp) {c : ClosureId} {x : FiberId} (hc : s'.live c)
    (hx : x ∈ s'.given c) : s'.home c = some x ∨ x ∈ s'.freed ∨ s'.fiber c = some x ∨
      ∃ j ∈ s'.children c, s'.home j = some x := by
  have hne : p ≠ k := by
    rintro rfl
    exact hs.fresh hs.parent
  have hchild := fun c j hc hj => hs.home_child hl (c := c) (j := j) hc hj
  by_cases hcp : c = p
  · subst hcp
    have hnew : s'.home k = some y := by rw [hs.home, Function.update_self]
    have hmem : k ∈ s'.children c := by simp [hs.children]
    have hhome : s'.home c = s.home c := by rw [hs.home, Function.update_of_ne hne]
    have hfiber : s'.fiber c = some s.numFibers := by rw [hs.fiber, Function.update_self]
    have hkept : ∀ j ∈ s.children c, j ∈ s'.children c := fun j hj => by simp [hs.children, hj]
    rw [hs.given, Function.update_self, List.mem_append] at hx
    rcases hx with hx | hx
    · rw [hhome, hs.freed]
      rcases hi.given c x hs.parent hx with h | h | h | ⟨j, hj, h⟩
      · exact .inl h
      · exact .inr (.inl h)
      · rw [hs.held] at h
        exact .inr (.inr (.inr ⟨k, hmem, hnew.trans h⟩))
      · exact .inr (.inr (.inr ⟨j, hkept j hj, (hchild c j hs.parent hj).trans h⟩))
    · rcases List.mem_pair.mp hx with rfl | rfl
      · exact .inr (.inr (.inr ⟨k, hmem, hnew⟩))
      · exact .inr (.inr (.inl hfiber))
  · have hck : c ≠ k := by
      rintro rfl
      simp [hs.given, hcp] at hx
    have hc : s.live c := by simpa [hs.live, hck] using hc
    have hx : x ∈ s.given c := by simpa [hs.given, hcp, hck] using hx
    rw [hs.home, Function.update_of_ne hck, hs.freed, hs.fiber, Function.update_of_ne hcp,
      Function.update_of_ne hck, hs.children, Function.update_of_ne hcp, Function.update_of_ne hck,
      ← hs.home]
    refine (hi.given c x hc hx).imp_right (.imp_right (.imp_right fun ⟨j, hj, h⟩ => ⟨j, hj, ?_⟩))
    rw [hchild c j hc hj, h]

theorem FiberInv.steal (hi : FiberInv s) (hl : LinksInv s)
    (hs : GivesFiber s s' p k y sp) (hnone : s.callee p = none)
    (hspawned : s.origRsp p = none → s.children p = []) : FiberInv s' := by
  have hmem := fun c j (hc : s.live c) (hj : j ∈ s.children c) => hl.mem_live hc hj
  have hcalled := fun c j (hc : s.live c) => hl.called c j hc
  have hleftmost := fun c hc hsp => hi.leftmost_steal hl hs hspawned (c := c) hc hsp
  have hgiven := fun c x hc hx => hi.given_steal hl hs (c := c) (x := x) hc hx
  have hholds := fun c x h => hi.holds_steal hl hs (c := c) (x := x) h
  have hown : s.origRsp p ≠ none → s.Holds p y := fun h => ⟨hs.parent, .inr ⟨hs.held, h⟩⟩
  obtain ⟨hp, hk, hy, hlive, hhome, hfiber, hfiberChild, horigRsp, hchildren, hcallee, -, -, hgive,
    hfreed, hbound, hfirstChild, hfirstOwn, hfirst, hstatus⟩ := hs
  have hne : p ≠ k := by
    rintro rfl
    exact hk hp
  obtain ⟨home, first, calm, away, awake, leftmost, later, called, bound, boundFreed, sole, kept,
    once, given⟩ := hi
  constructor
  case leftmost => exact hleftmost
  case given => exact hgiven
  case sole =>
    intro c c' x h h'
    have hc := hholds c x h
    have hc' := hholds c' x h'
    have hlt := bound p y hp (.inr hy)
    clear leftmost given first kept calm later home awake called away boundFreed hleftmost hgiven
    grind
  case kept =>
    intro c x h
    rw [hfreed]
    rcases hholds c x h with ⟨-, rfl⟩ | ⟨-, rfl, hspawned⟩ | ⟨hold, -⟩
    · exact fun hmem => absurd (boundFreed _ hmem) (lt_irrefl _)
    · exact kept p x (hown hspawned)
    · exact kept c x hold
  case first =>
    intro c hc
    rw [hhome, horigRsp]
    by_cases hcp : c = p
    · subst hcp
      rw [hfirstOwn, first c hp, Function.update_self, Function.update_of_ne hne]
      cases hsp : s.origRsp c with
      | none => simp [(calm c hp hsp).1, ← hy]
      | some sp' => simp
    · by_cases hck : c = k
      · simp [hck, hfirstChild, Ne.symm hne]
      · have hc : s.live c := by simpa [hlive, hck] using hc
        simpa [hcp, hck, hfirst c hc hcp] using first c hc
  all_goals
    clear hholds sole kept leftmost given hleftmost hgiven
    simp only [hlive, hhome, hfiber, hfiberChild, horigRsp, hchildren, hcallee, hgive, hfreed,
      hbound, Function.update_apply]
    grind

/-- What is common to the ways in which a child is returned: it is unlinked and gives up its
fiber. -/
structure Leaves (s s' : Runtime κ V) (p k : ClosureId) : Prop where
  live : s'.live = update s.live k false
  home : s'.home = s.home
  fiber : s'.fiber = update s.fiber k none
  origRsp : s'.origRsp = s.origRsp
  children : s'.children = update s.children p ((s.children p).erase k)
  callee : s'.callee = s.callee
  callParent : s'.callParent = s.callParent
  spawnParent : s'.spawnParent = s.spawnParent
  given : s'.given = s.given
  bound : s'.numFibers = s.numFibers
  first : ∀ c, c ≠ k → s'.firstSteal c = s.firstSteal c
  status : ∀ c, c ≠ k → s.status c = .suspended → s'.status c = .suspended

/-- The child that is returned holds nothing any more, and no other closure holds more. -/
theorem Leaves.holds (hs : Leaves s s' p k) {c : ClosureId} {x : FiberId} (h : s'.Holds c x) :
    s.Holds c x ∧ c ≠ k := by
  obtain ⟨hlive, hown⟩ := h
  rw [hs.live] at hlive
  have hck : c ≠ k := by
    rintro rfl
    simp at hlive
  rw [Function.update_of_ne hck] at hlive
  refine ⟨⟨hlive, ?_⟩, hck⟩
  simpa only [Runtime.Inherits, hs.home, hs.fiber, hs.origRsp, hs.callParent, hs.spawnParent,
    Function.update_of_ne hck] using hown

/-- The child is the leftmost one since the last sync exactly when it has its parent's fiber. -/
theorem FiberInv.leftmost_iff (hi : FiberInv s) (hl : LinksInv s) (hp : s.live p)
    (hk : k ∈ s.children p) (hspawned : s.origRsp p ≠ none) :
    s.leftSib k ≠ none ∨ s.fiberChild p ≠ none ↔ s.home k ≠ s.home p := by
  have hlater := hi.later p k hp hk
  have hleftmost := hi.leftmost p hp hspawned
  have hhome := hi.home p hp
  have hnodup := hl.nodup p hp
  have hlinked := hl.linked p hp
  obtain ⟨l₁, l₂, hsplit⟩ := List.append_of_mem hk
  rw [hsplit] at hlinked hlater hleftmost hnodup
  have hhead := hlinked.left_eq
  cases l₁ with
  | nil => grind
  | cons j l₁ =>
    have hjk : j ≠ k := by
      rintro rfl
      simp at hnodup
    grind

/-- The children that stay keep the first of them, unless it is the one that is returned. -/
theorem head_erase {l : List ClosureId} {j : ClosureId} (hj : l.head? = some j) (hjk : j ≠ k) :
    (l.erase k).head? = some j := by
  cases l with
  | nil => cases hj
  | cons i l =>
    obtain rfl : i = j := by simpa using hj
    simp [hjk]

/-- The leftmost child passes its fiber up, which was the parent's. -/
theorem FiberInv.passUp (hi : FiberInv s) (hl : LinksInv s) (hs : Leaves s s' p k) (hp : s.live p)
    (hk : k ∈ s.children p) (hspawned : s.origRsp p ≠ none) (hcalm : s.origRsp k = none)
    (hsame : s.home k = s.home p) (hfiberChild : s'.fiberChild = update s.fiberChild p (s.fiber k))
    (hfreed : s'.freed = s.freed) : FiberInv s' := by
  have hklive := hl.mem_live hp hk
  have hlater := hi.later p k hp hk hsame
  have hfiberk := (hi.calm k hklive hcalm).1
  have hdisjoint := fun q hq hkq => hl.disjoint (p := p) (q := q) (k := k) hp hq hk hkq
  have herase : ∀ j, j ∈ (s.children p).erase k ↔ j ≠ k ∧ j ∈ s.children p :=
    fun j => (hl.nodup p hp).mem_erase_iff
  have hholds := fun c x (h : s'.Holds c x) => (hs.holds h).1
  obtain ⟨hlive, hhome, hfiber, horigRsp, hchildren, hcallee, hcallParent, hspawnParent, hgiven,
    hbound, hfirst, hstatus⟩ := hs
  obtain ⟨home, first, calm, away, awake, leftmost, later, called, bound, boundFreed, sole, kept,
    once, given⟩ := hi
  constructor
  case sole => exact fun c c' x h h' => sole c c' x (hholds c x h) (hholds c' x h')
  case kept => exact fun c x h => hfreed ▸ kept c x (hholds c x h)
  all_goals
    simp only [hlive, hhome, hfiber, hfiberChild, horigRsp, hchildren, hcallee, hgiven, hfreed,
      hbound, Function.update_apply]
    clear hholds sole kept
    grind

/-- Another child returns its fiber to the pool. -/
theorem FiberInv.giveBack (hi : FiberInv s) (hl : LinksInv s) (hs : Leaves s s' p k) (hp : s.live p)
    (hk : k ∈ s.children p) (hcalm : s.origRsp k = none) (hother : s.home k ≠ s.home p)
    (hfiberChild : s'.fiberChild = s.fiberChild)
    (hfreed : s'.freed = s.freed ++ (s.fiber k).toList) : FiberInv s' := by
  have hklive := hl.mem_live hp hk
  have hspawn := ((hl.child p k hp).mp hk).2
  have hcall := hl.oneParent k hklive (by simp [hspawn])
  have hdisjoint := fun q hq hkq => hl.disjoint (p := p) (q := q) (k := k) hp hq hk hkq
  obtain ⟨y, hy⟩ := Option.ne_none_iff_exists'.mp (hi.home k hklive)
  have hfiberk : s.fiber k = some y := (hi.calm k hklive hcalm).1.trans hy
  have hown : s.Holds k y := by
    refine ⟨hklive, .inl ⟨hy, ?_⟩⟩
    rintro (h | ⟨q, hq, h⟩)
    · exact h hcall
    · rw [hspawn] at hq
      obtain rfl := Option.some.inj hq
      exact hother h
  have hnew := hi.kept k y hown
  have hholds := fun c x (h : s'.Holds c x) => hs.holds h
  have herase : ∀ j, j ∈ (s.children p).erase k ↔ j ≠ k ∧ j ∈ s.children p :=
    fun j => (hl.nodup p hp).mem_erase_iff
  have hhead := fun j => head_erase (k := k) (l := s.children p) (j := j)
  rw [hfiberk, Option.toList_some] at hfreed
  obtain ⟨hlive, hhome, hfiber, horigRsp, hchildren, hcallee, hcallParent, hspawnParent, hgiven,
    hbound, hfirst, hstatus⟩ := hs
  obtain ⟨home, first, calm, away, awake, leftmost, later, called, bound, boundFreed, sole, kept,
    once, given⟩ := hi
  constructor
  case sole => exact fun c c' x h h' => sole c c' x (hholds c x h).1 (hholds c' x h').1
  case kept =>
    intro c x h
    obtain ⟨hold, hck⟩ := hholds c x h
    rw [hfreed, List.mem_append, not_or]
    refine ⟨kept c x hold, fun hxy => ?_⟩
    obtain rfl : x = y := by simpa using hxy
    exact hck (sole c k x hold hown)
  case once =>
    rw [hfreed]
    simpa [List.nodup_append] using ⟨once, fun a ha => by rintro rfl; exact hnew ha⟩
  all_goals
    simp only [hlive, hhome, hfiber, hfiberChild, horigRsp, hchildren, hcallee, hgiven, hfreed,
      hbound, Function.update_apply]
    clear hholds sole kept
    grind

/-- What a closure holds besides its fiber stays with it when the fiber goes back to the pool. -/
theorem FiberInv.release (hi : FiberInv s) {p : ClosureId} (hp : s.live p)
    (hstolen : s.origRsp p ≠ none) (hfreed : s'.freed = s.freed ++ (s.fiber p).toList)
    (hholds : ∀ c x, s'.Holds c x → s.Holds c x ∧ (c = p → s.fiber p ≠ some x)) :
    (∀ c x, s'.Holds c x → x ∉ s'.freed) ∧ s'.freed.Nodup := by
  have hown : ∀ y, s.fiber p = some y → s.Holds p y := fun y hy => ⟨hp, .inr ⟨hy, hstolen⟩⟩
  rw [hfreed]
  constructor
  · intro c x h
    obtain ⟨hold, hne⟩ := hholds c x h
    rw [List.mem_append, not_or, Option.mem_toList]
    exact ⟨hi.kept c x hold, fun hx => hne (hi.sole c p x hold (hown x hx)) hx⟩
  · cases hy : s.fiber p with
    | none => simpa using hi.once
    | some y =>
      have hnew := hi.kept p y (hown y hy)
      simpa [List.nodup_append] using ⟨hi.once, fun a ha => by rintro rfl; exact hnew ha⟩

/-- The closure goes on from a sync, on the fiber it had before the first steal. -/
theorem FiberInv.sync (hi : FiberInv s) {p : ClosureId} (hp : s.live p)
    (hstolen : s.origRsp p ≠ none) (hnone : s.children p = []) (hcalleeNone : s.callee p = none)
    (hlive : s'.live = s.live) (hhome : s'.home = s.home)
    (hfiber : s'.fiber = update s.fiber p (s.fiberChild p))
    (hfiberChild : s'.fiberChild = update s.fiberChild p none)
    (horigRsp : s'.origRsp = update s.origRsp p none) (hchildren : s'.children = s.children)
    (hcallee : s'.callee = s.callee) (hcallParent : s'.callParent = s.callParent)
    (hspawnParent : s'.spawnParent = s.spawnParent) (hgiven : s'.given = update s.given p [])
    (hfreed : s'.freed = s.freed ++ (s.fiber p).toList) (hbound : s'.numFibers = s.numFibers)
    (hfirstOwn : s'.firstSteal p = none)
    (hfirst : ∀ c, s.live c → c ≠ p → s'.firstSteal c = s.firstSteal c)
    (hstatus : ∀ c, c ≠ p → s.status c = .suspended → s'.status c = .suspended) :
    FiberInv s' := by
  have hback : s.fiberChild p = s.home p := by simpa [hnone] using hi.leftmost p hp hstolen
  have haway := hi.away p hp hstolen
  have hholds : ∀ c x, s'.Holds c x → s.Holds c x ∧ (c = p → s.fiber p ≠ some x) := by
    intro c x
    simp only [Runtime.Holds, Runtime.Inherits, hlive, hhome, hfiber, horigRsp, hcallParent,
      hspawnParent, Function.update_apply]
    grind
  obtain ⟨hkept, honce⟩ := hi.release hp hstolen hfreed hholds
  obtain ⟨home, first, calm, away, awake, leftmost, later, called, bound, boundFreed, sole, kept,
    once, given⟩ := hi
  constructor
  case sole => exact fun c c' x h h' => sole c c' x (hholds c x h).1 (hholds c' x h').1
  case kept => exact hkept
  case once => exact honce
  case first =>
    intro c hc
    rw [hhome, horigRsp]
    by_cases hcp : c = p
    · simp [hcp, hfirstOwn]
    · rw [hlive] at hc
      simpa [hcp, hfirst c hc hcp] using first c hc
  all_goals
    simp only [hlive, hhome, hfiber, hfiberChild, horigRsp, hchildren, hcallee, hgiven, hfreed,
      hbound, Function.update_apply]
    clear hholds sole kept
    grind

/-- A failed sync gives the closure's fiber back. -/
theorem FiberInv.suspend (hi : FiberInv s) {p : ClosureId} (hp : s.live p)
    (hstolen : s.origRsp p ≠ none) (hcalleeNone : s.callee p = none)
    (hlive : s'.live = s.live) (hhome : s'.home = s.home)
    (hfiber : s'.fiber = update s.fiber p none) (hfiberChild : s'.fiberChild = s.fiberChild)
    (horigRsp : s'.origRsp = s.origRsp) (hchildren : s'.children = s.children)
    (hcallee : s'.callee = s.callee) (hcallParent : s'.callParent = s.callParent)
    (hspawnParent : s'.spawnParent = s.spawnParent) (hgiven : s'.given = s.given)
    (hfreed : s'.freed = s.freed ++ (s.fiber p).toList) (hbound : s'.numFibers = s.numFibers)
    (hfirst : ∀ c, s.live c → s'.firstSteal c = s.firstSteal c)
    (hstatus : ∀ c, c = p ∨ s.status c = .suspended → s'.status c = .suspended) :
    FiberInv s' := by
  have hholds : ∀ c x, s'.Holds c x → s.Holds c x ∧ (c = p → s.fiber p ≠ some x) := by
    have haway := hi.away p hp hstolen
    intro c x
    simp only [Runtime.Holds, Runtime.Inherits, hlive, hhome, hfiber, horigRsp, hcallParent,
      hspawnParent, Function.update_apply]
    grind
  obtain ⟨hkept, honce⟩ := hi.release hp hstolen hfreed hholds
  obtain ⟨home, first, calm, away, awake, leftmost, later, called, bound, boundFreed, sole, kept,
    once, given⟩ := hi
  constructor
  case sole => exact fun c c' x h h' => sole c c' x (hholds c x h).1 (hholds c' x h').1
  case kept => exact hkept
  case once => exact honce
  case first =>
    intro c hc
    rw [hlive] at hc
    rw [hhome, horigRsp, hfirst c hc]
    exact first c hc
  all_goals
    simp only [hlive, hhome, hfiber, hfiberChild, horigRsp, hchildren, hcallee, hgiven, hfreed,
      hbound, Function.update_apply]
    clear hholds sole kept
    grind

/-- A callee ends on the fiber of the closure that called it. -/
theorem FiberInv.uncall (hi : FiberInv s) (hl : LinksInv s) {p d : ClosureId} (hp : s.live p)
    (hd : s.callee p = some d)
    (hlive : s'.live = update s.live d false) (hhome : s'.home = s.home)
    (hfiber : s'.fiber = update s.fiber d none) (hfiberChild : s'.fiberChild = s.fiberChild)
    (horigRsp : s'.origRsp = s.origRsp) (hchildren : s'.children = s.children)
    (hcallee : s'.callee = update s.callee p none) (hcallParent : s'.callParent = s.callParent)
    (hspawnParent : s'.spawnParent = s.spawnParent) (hgiven : s'.given = s.given)
    (hfreed : s'.freed = s.freed) (hbound : s'.numFibers = s.numFibers)
    (hfirst : ∀ c, c ≠ d → s'.firstSteal c = s.firstSteal c)
    (hstatus : ∀ c, c ≠ d → c ≠ p → s.status c = .suspended → s'.status c = .suspended) :
    FiberInv s' := by
  obtain ⟨hdlive, hcall⟩ := (hl.called p d hp).mp hd
  have hspawn : s.spawnParent d = none := by
    by_contra h
    rw [hl.oneParent d hdlive h] at hcall
    cases hcall
  have hchild := fun c (hc : s.live c) => hl.child c d hc
  have hholds : ∀ c x, s'.Holds c x → s.Holds c x := by
    intro c x
    simp only [Runtime.Holds, Runtime.Inherits, hlive, hhome, hfiber, horigRsp, hcallParent,
      hspawnParent, Function.update_apply]
    grind
  obtain ⟨home, first, calm, away, awake, leftmost, later, called, bound, boundFreed, sole, kept,
    once, given⟩ := hi
  constructor
  case sole => exact fun c c' x h h' => sole c c' x (hholds c x h) (hholds c' x h')
  case kept => exact fun c x h => hfreed ▸ kept c x (hholds c x h)
  all_goals
    simp only [hlive, hhome, hfiber, hfiberChild, horigRsp, hchildren, hcallee, hgiven, hfreed,
      hbound, Function.update_apply]
    clear hholds sole kept
    grind

end Fibers

end Cheetah
