import Cheetah.SchedulerFrames

/-! What each section does to the frames. -/
namespace Cheetah
open Function (update)

section Stacks

variable {κ V : Type} {s s' : Runtime κ V}

/-- The frames that user code runs are not those of the runtime's reductions. -/
theorem FrameInv.user (hh : HoldInv s) (hf : FrameInv s) {w : WorkerId} {t : ClosureId}
    {f : FrameId} (hw : s.phase w = .running t) (hmem : f ∈ s.stack t) : s.reduction f = false := by
  have hlive := hh.live w t (by rw [hw]; rfl)
  rw [Bool.eq_false_iff]
  intro hred
  obtain ⟨w', hw'⟩ := hf.reducing t f hlive (hf.own t f hlive hmem (.inr (.inr hred))) hred
  have hsame := hh.unique w w' t (by rw [hw]; rfl) (by rcases hw' with h | h | h <;> rw [h] <;> rfl)
  subst hsame
  rw [hw] at hw'
  simp at hw'

theorem HoldInv.not_suspended (hh : HoldInv s) {w : WorkerId} {c : ClosureId}
    (hw : (s.phase w).closure = some c) : s.status c ≠ .suspended := by
  rw [hh.status w c hw]
  cases s.phase w <;> simp [Phase.status]

/-- The closure that a worker runs is not one that another worker is about to run or return. -/
theorem HoldInv.running_ne (hh : HoldInv s) {w w' : WorkerId} {c c' : ClosureId}
    (hw : s.phase w = .running c)
    (hw' : s.phase w' = .scheduled c' ∨ s.phase w' = .reducing c' ∨ s.phase w' = .returning c') :
    c' ≠ c := by
  rintro rfl
  have hsame := hh.unique w w' c' (by rw [hw]; rfl)
    (by rcases hw' with h | h | h <;> rw [h] <;> rfl)
  subst hsame
  rw [hw] at hw'
  simp at hw'

theorem FrameInv.frame_mem (hf : FrameInv s) {c : ClosureId} {f : FrameId} (hc : s.live c)
    (hframe : s.frame c = some f) : f ∈ s.stack c := by
  obtain ⟨above, habove⟩ := hf.bottom c f hc hframe
  rw [habove]
  simp

theorem suffix_of_cons {a b : FrameId} {l above : List FrameId} (hl : l ≠ [])
    (h : a :: l = above ++ [b]) : ∃ above', l = above' ++ [b] := by
  cases above with
  | nil =>
    obtain ⟨-, rfl⟩ : a = b ∧ l = [] := by simpa using h
    exact absurd rfl hl
  | cons c above =>
    obtain ⟨-, rfl⟩ : a = c ∧ l = above ++ [b] := by simpa using h
    exact ⟨above, rfl⟩

theorem FrameInv.push (hh : HoldInv s) (hf : FrameInv s) {w : WorkerId} {t : ClosureId}
    {f : FrameId} {below : List FrameId} (hw : s.phase w = .running t)
    (hstack : s.stack t = f :: below) {code : FrameId → Code κ V} {sp : FrameId → ℕ}
    {deque : WorkerId → List FrameId} (c : Code κ V) (b : Bool)
    (hcode : ∀ g, s.reduction g → code g = s.code g)
    (hdeque : deque = update s.deque w (s.deque w ++ if b then [f] else [])) :
    FrameInv ({ s with code := code, sp := sp, deque := deque }.pushFrame t c b false) := by
  have hheld : (s.phase w).closure = some t := by rw [hw]; rfl
  have hlive := hh.live w t hheld
  have hnot := hh.not_suspended hheld
  have hnew : ∀ c, s.live c → s.numFrames ∉ s.stack c :=
    fun c hc hmem => Nat.lt_irrefl _ (hf.bound c _ hc hmem)
  have hsame : ∀ c, s.live c →
      spawners (update s.detached s.numFrames b) (s.stack c) = spawners s.detached (s.stack c) := by
    intro c hc
    apply spawners_congr
    rintro g hg
    rw [Function.update_of_ne]
    rintro rfl
    exact hnew c hc hg
  have hbottom : ∀ g above, s.stack t = above ++ [g] →
      s.numFrames :: s.stack t = (s.numFrames :: above) ++ [g] := by
    intro g above h
    rw [h]
    rfl
  have hunique := hh.unique
  have hother := fun w' c' (h : s.phase w' = .scheduled c' ∨ s.phase w' = .reducing c' ∨
    s.phase w' = .returning c') => hh.running_ne hw h
  have hmem := fun c g => hf.frame_mem (c := c) (f := g)
  obtain ⟨bound, nodup, disjoint, bottom, helper, own, full, hdq, waiting, single, parked, reducing,
    fresh, returning, done, steals, synched⟩ := hf
  constructor
  all_goals simp only [Runtime.pushFrame]
  case deque =>
    intro w' c' hc'
    have hspawners := hdq w' c' hc'
    by_cases h : w' = w
    · subst h
      obtain rfl : t = c' := Option.some.inj (hheld.symm.trans hc')
      have hcons := hsame t hlive
      rw [hstack] at hcons hspawners
      rw [hdeque, Function.update_self, Function.update_self, hstack, spawners_cons, hcons,
        Function.update_self, hspawners]
    · have hct : c' ≠ t := fun hct => h (hunique w' w c' hc' (hct ▸ hheld))
      rw [hdeque, Function.update_of_ne h, Function.update_of_ne hct,
        hsame c' (hh.live w' c' hc'), hspawners]
  case waiting =>
    intro c' hc' hstatus
    have hct : c' ≠ t := by
      rintro rfl
      exact hnot hstatus
    rw [Function.update_of_ne hct, hsame c' hc']
    exact waiting c' hc' hstatus
  case bottom =>
    intro c' g hc' hframe
    obtain ⟨above, habove⟩ := bottom c' g hc' hframe
    by_cases hct : c' = t
    · subst hct
      exact ⟨_, by rw [Function.update_self]; exact hbottom g above habove⟩
    · exact ⟨above, by rw [Function.update_of_ne hct, habove]⟩
  case helper =>
    intro c' hc' hframe
    obtain ⟨above, g, habove, hdetached⟩ := helper c' hc' hframe
    have hg : g ≠ s.numFrames := by
      rintro rfl
      exact hnew c' hc' (by rw [habove]; simp)
    refine ⟨if c' = t then s.numFrames :: above else above, g, ?_, ?_⟩
    · by_cases hct : c' = t
      · subst hct
        simpa using hbottom g above habove
      · simpa [hct] using habove
    · rwa [Function.update_of_ne hg]
  case parked =>
    intro c' hc' hstatus hcallee
    have hct : c' ≠ t := by
      rintro rfl
      exact hnot hstatus
    rw [Function.update_of_ne hct]
    exact parked c' hc' hstatus hcallee
  case fresh =>
    intro w' c' g hw' hgood hframe
    have hlive' := hh.live w' c' (by rw [hw']; rfl)
    have hne : g ≠ s.numFrames := by
      rintro rfl
      exact hnew c' hlive' (hmem c' _ hlive' hframe)
    rw [Function.update_of_ne hne]
    exact fresh w' c' g hw' hgood hframe
  case returning =>
    intro w' c' g hw' hframe
    have hlive' := hh.live w' c' (by rw [hw']; rfl)
    have hne : g ≠ s.numFrames := by
      rintro rfl
      exact hnew c' hlive' (hmem c' _ hlive' hframe)
    rw [Function.update_of_ne hne]
    exact returning w' c' g hw' hframe
  all_goals
    simp only [Function.update_apply]
    grind

/-- A frame returns to the frame below it. -/
theorem FrameInv.pop (hh : HoldInv s) (hf : FrameInv s) {w : WorkerId} {t : ClosureId}
    {f : FrameId} {below : List FrameId} (hw : s.phase w = .running t)
    (hstack : s.stack t = f :: below) (hbelow : below ≠ []) {detached : FrameId → Bool}
    {deque : WorkerId → List FrameId} (hdetached : ∀ g, g ≠ f → detached g = s.detached g)
    (hdeque : deque = update s.deque w (spawners s.detached below)) :
    FrameInv { s with stack := update s.stack t below, detached := detached, deque := deque } := by
  have hheld : (s.phase w).closure = some t := by rw [hw]; rfl
  have hlive := hh.live w t hheld
  have hnot := hh.not_suspended hheld
  have hunique := hh.unique
  have hother := fun w' c' (h : s.phase w' = .scheduled c' ∨ s.phase w' = .reducing c' ∨
    s.phase w' = .returning c') => hh.running_ne hw h
  have hsub : ∀ c g, g ∈ update s.stack t below c → g ∈ s.stack c := by
    intro c g hg
    by_cases hct : c = t
    · subst hct
      rw [Function.update_self] at hg
      rw [hstack]
      exact List.mem_cons_of_mem _ hg
    · rwa [Function.update_of_ne hct] at hg
  have hnotmem : f ∉ below := by
    have hnodup := hf.nodup t hlive
    rw [hstack] at hnodup
    exact (List.nodup_cons.mp hnodup).1
  have hgone : ∀ c, s.live c → f ∉ update s.stack t below c := by
    intro c hc hmem
    by_cases hct : c = t
    · subst hct
      rw [Function.update_self] at hmem
      exact hnotmem hmem
    · rw [Function.update_of_ne hct] at hmem
      exact hct (hf.disjoint c t f hc hlive hmem (by rw [hstack]; simp))
  have hsame : ∀ c, s.live c → spawners detached (update s.stack t below c) =
      spawners s.detached (update s.stack t below c) := by
    intro c hc
    apply spawners_congr
    rintro g hg
    exact hdetached g (by rintro rfl; exact hgone c hc hg)
  have hbottom : ∀ g above, s.stack t = above ++ [g] → ∃ above', below = above' ++ [g] := by
    intro g above h
    rw [hstack] at h
    exact suffix_of_cons hbelow h
  obtain ⟨bound, nodup, disjoint, bottom, helper, own, full, hdq, waiting, single, parked, reducing,
    fresh, returning, done, steals, synched⟩ := hf
  constructor
  case bound => exact fun c g hc hg => bound c g hc (hsub c g hg)
  case disjoint => exact fun c c' g hc hc' hg hg' => disjoint c c' g hc hc' (hsub c g hg) (hsub c' g hg')
  case own => exact fun c g hc hg => own c g hc (hsub c g hg)
  case deque =>
    intro w' c' hc'
    show deque w' = spawners detached (update s.stack t below c')
    rw [hsame c' (hh.live w' c' hc'), hdeque]
    by_cases h : w' = w
    · subst h
      obtain rfl : t = c' := Option.some.inj (hheld.symm.trans hc')
      rw [Function.update_self, Function.update_self]
    · have hct : c' ≠ t := fun hct => h (hunique w' w c' hc' (hct ▸ hheld))
      rw [Function.update_of_ne h, Function.update_of_ne hct]
      exact hdq w' c' hc'
  case waiting =>
    intro c' hc' hstatus
    have hct : c' ≠ t := by
      rintro rfl
      exact hnot hstatus
    show spawners detached (update s.stack t below c') = []
    rw [hsame c' hc', Function.update_of_ne hct]
    exact waiting c' hc' hstatus
  case bottom =>
    intro c' g hc' hframe
    obtain ⟨above, habove⟩ := bottom c' g hc' hframe
    by_cases hct : c' = t
    · subst hct
      simpa using hbottom g above habove
    · exact ⟨above, by simpa [hct] using habove⟩
  case helper =>
    intro c' hc' hframe
    obtain ⟨above, g, habove, hdet⟩ := helper c' hc' hframe
    by_cases hct : c' = t
    · subst hct
      obtain ⟨above', habove'⟩ := hbottom g above habove
      refine ⟨above', g, by simpa using habove', ?_⟩
      rw [← hdet]
      exact hdetached g (by rintro rfl; exact hnotmem (by rw [habove']; simp))
    · refine ⟨above, g, by simpa [hct] using habove, ?_⟩
      rw [← hdet]
      exact hdetached g (by rintro rfl; exact hgone c' hc' (by simp [hct, habove]))
  case parked =>
    intro c' hc' hstatus hcallee
    have hct : c' ≠ t := by
      rintro rfl
      exact hnot hstatus
    simpa [hct] using parked c' hc' hstatus hcallee
  all_goals
    simp only [Function.update_apply]
    grind

/-- Two states whose frames have the same flags. -/
structure SameFlags (s s' : Runtime κ V) : Prop where
  detached : s'.detached = s.detached
  stolen : s'.stolen = s.stolen
  unsynched : s'.unsynched = s.unsynched
  reduction : s'.reduction = s.reduction
  steals : s'.steals = s.steals
  numFrames : s'.numFrames = s.numFrames

/-- Two states with the same frames and children. -/
structure SameFrames (s s' : Runtime κ V) : Prop extends SameFlags s s' where
  stack : s'.stack = s.stack
  frame : s'.frame = s.frame
  live : s'.live = s.live
  children : s'.children = s.children
  promoted : s'.promoted = s.promoted
  callee : s'.callee = s.callee

/-- A worker goes on with the closure it holds, with the same frames. -/
theorem FrameInv.move (hh : HoldInv s) (hf : FrameInv s) (hsame : SameFrames s s')
    {w : WorkerId} {t : ClosureId} {p q : Phase} (hw : s.phase w = p)
    (hp : p.closure = some t) (hexited : p ≠ .exited t)
    (hsingle : ∃ f, s.frame t = some f ∧ s.stack t = [f])
    (hq : q = .scheduled t ∨ q = .reducing t ∨ q = .returning t ∨
      q = .running t ∧ ∀ f, s.frame t = some f → s.reduction f = false)
    (hphase : s'.phase = update s.phase w q)
    (hstatus : ∀ c, s'.status c = .suspended → s.status c = .suspended)
    (hreturning : q = .returning t → ∀ f, s.frame t = some f → s.reduction f)
    (hfresh : q = .scheduled t → s'.provablyGoodSteal w = true)
    (hgood : ∀ w', w' ≠ w → s'.provablyGoodSteal w' = s.provablyGoodSteal w')
    (hcode : ∀ g, s.reduction g → s'.code g = s.code g)
    (hdeque : s'.deque = s.deque ∨ s'.deque = update s.deque w [])
    (hchildHt : ∀ c, s'.childHt c ≠ none → s.childHt c ≠ none) : FrameInv s' := by
  have hheld : (s.phase w).closure = some t := by rw [hw, hp]
  have hqt : q.closure = some t := by rcases hq with rfl | rfl | rfl | ⟨rfl, -⟩ <;> rfl
  have hunique := hh.unique
  have hlive := hh.live w t hheld
  obtain ⟨f, hframe, hstack⟩ := hsingle
  obtain ⟨bound, nodup, disjoint, bottom, helper, own, full, hdq, waiting, single, parked, reducing,
    fresh, returning, done, steals, synched⟩ := hf
  obtain ⟨⟨h1, h2, h3, h4, h5, h6⟩, h7, h8, h9, h10, h11, h12⟩ := hsame
  have hempty : s.deque w = [] := by
    rw [hdq w t hheld, hstack]
    rfl
  have hdeque' : s'.deque = s.deque := by
    rcases hdeque with h | h
    · exact h
    · rw [h, ← hempty, Function.update_eq_self]
  constructor
  all_goals simp only [h1, h2, h3, h4, h5, h6, h7, h8, h9, h10, h11, h12, hdeque', hphase]
  case full =>
    intro c g hc hg
    rcases full c g hc hg with h | h | ⟨w', hw'⟩
    · exact .inl h
    · exact .inr (.inl h)
    · have hne : w' ≠ w := by
        rintro rfl
        rw [hw] at hw'
        rw [hw'] at hp hexited
        obtain rfl : c = t := by simpa [Phase.closure] using hp
        exact hexited rfl
      exact .inr (.inr ⟨w', by rw [Function.update_of_ne hne, hw']⟩)
  case deque =>
    intro w' c hc
    by_cases h : w' = w
    · subst h
      rw [Function.update_self, hqt] at hc
      exact hdq w' c (hheld.trans hc)
    · rw [Function.update_of_ne h] at hc
      exact hdq w' c hc
  case reducing =>
    intro c g hc hg hred
    obtain ⟨w', hw'⟩ := reducing c g hc hg hred
    by_cases h : w' = w
    · subst h
      have hct : c = t := by
        have hcl : (s.phase w').closure = some c := by rcases hw' with h | h | h <;> rw [h] <;> rfl
        exact Option.some.inj (hcl.symm.trans hheld)
      subst hct
      refine ⟨w', ?_⟩
      rw [Function.update_self]
      rcases hq with h | h | h | ⟨-, h⟩
      · exact .inl h
      · exact .inr (.inl h)
      · exact .inr (.inr h)
      · rw [h g hg] at hred
        cases hred
    · exact ⟨w', by rwa [Function.update_of_ne h]⟩
  case single =>
    intro w' c hc
    by_cases h : w' = w
    · subst h
      rw [Function.update_self] at hc
      have hct : c = t := by
        have hcl : q.closure = some c := by rcases hc with h | h | h <;> rw [h] <;> rfl
        exact Option.some.inj (hcl.symm.trans hqt)
      subst hct
      exact ⟨f, hframe, hstack⟩
    · rw [Function.update_of_ne h] at hc
      exact single w' c hc
  case fresh =>
    intro w' c g hc hgs hg
    by_cases h : w' = w
    · subst h
      rw [Function.update_self] at hc
      subst hc
      obtain rfl : c = t := Option.some.inj hqt
      rw [hfresh rfl] at hgs
      cases hgs
    · rw [Function.update_of_ne h] at hc
      rw [hgood w' h] at hgs
      exact fresh w' c g hc hgs hg
  case returning =>
    intro w' c g hc hg
    by_cases h : w' = w
    · subst h
      rw [Function.update_self] at hc
      subst hc
      obtain rfl : c = t := Option.some.inj hqt
      exact hreturning rfl g hg
    · rw [Function.update_of_ne h] at hc
      exact returning w' c g hc hg
  case done =>
    intro g hg
    rw [hcode g hg]
    exact done g hg
  case synched => exact fun c hc h => synched c hc (h.imp_right (Or.imp_left (hchildHt c)))
  case waiting => exact fun c hc h => waiting c hc (hstatus c h)
  case parked => exact fun c hc h => parked c hc (hstatus c h)
  all_goals assumption

theorem FrameInv.exit (hh : HoldInv s) (hf : FrameInv s) {w : WorkerId} {t : ClosureId}
    {f : FrameId} {below : List FrameId} (hw : s.phase w = .running t)
    (hstack : s.stack t = f :: below) {last : FrameId → Bool}
    {ht : WorkerId → Option (ViewMap κ V)} :
    FrameInv { s with
      stolen := update s.stolen f false
      last := last
      hyperTable := ht
      phase := update s.phase w (.exited t) } := by
  have hheld : (s.phase w).closure = some t := by rw [hw]; rfl
  have hlive := hh.live w t hheld
  have hmem := fun c g => hf.frame_mem (c := c) (f := g)
  obtain ⟨bound, nodup, disjoint, bottom, helper, own, full, hdq, waiting, single, parked, reducing,
    fresh, returning, done, steals, synched⟩ := hf
  constructor
  case own =>
    intro c g hc hg hflags
    refine own c g hc hg (hflags.imp_left fun h => ?_)
    by_cases hgf : g = f
    · simp [hgf] at h
    · simpa [hgf] using h
  case full =>
    intro c g hc hg
    by_cases hgf : g = f
    · subst hgf
      have hct := disjoint c t g hc hlive (hmem c g hc hg) (by rw [hstack]; simp)
      exact .inr (.inr ⟨w, by rw [hct]; exact Function.update_self _ _ _⟩)
    · rcases full c g hc hg with h | h | ⟨w', hw'⟩
      · exact .inl (by simpa [hgf] using h)
      · exact .inr (.inl h)
      · have hne : w' ≠ w := by
          rintro rfl
          rw [hw] at hw'
          cases hw'
        exact .inr (.inr ⟨w', by rw [← hw']; exact Function.update_of_ne hne _ _⟩)
  case reducing =>
    intro c g hc hg hred
    obtain ⟨w', hw'⟩ := reducing c g hc hg hred
    have hne : w' ≠ w := by
      rintro rfl
      rw [hw] at hw'
      simp at hw'
    exact ⟨w', by simpa [hne] using hw'⟩
  all_goals
    simp only [Function.update_apply]
    grind [Phase.closure]

/-- The parent of a spawn helper was stolen: the helper's frame makes way for that of the
reductions. -/
theorem FrameInv.handle (hh : HoldInv s) (hf : FrameInv s) {w : WorkerId} {t : ClosureId}
    {f : FrameId} {below : List FrameId} (hw : s.phase w = .running t)
    (hstack : s.stack t = f :: below) (hsynched : s.unsynched f = false)
    (hdetached : s.detached f = true) (hdeque : s.deque w = []) :
    FrameInv ({ s with
      stack := update s.stack t below
      detached := update s.detached f false
      status := update s.status t .returning
      frame := update s.frame t (some s.numFrames)
      phase := update s.phase w (.returning t) }.pushFrame t .done false true) := by
  have hheld : (s.phase w).closure = some t := by rw [hw]; rfl
  have hlive := hh.live w t hheld
  have hspawners := hf.deque w t hheld
  rw [hdeque, hstack] at hspawners
  obtain rfl : below = [] := eq_nil_of_spawners_nil hspawners.symm hdetached
  have hchildless : s.children t = [] ∧ s.childHt t = none ∧ s.promoted t = [] := by
    by_contra hne
    obtain ⟨g, hg, hunsynched⟩ := hf.synched t hlive (by grind)
    have hmem := hf.frame_mem hlive hg
    rw [hstack, List.mem_singleton] at hmem
    rw [hmem, hsynched] at hunsynched
    cases hunsynched
  have hmem := fun c g => hf.frame_mem (c := c) (f := g)
  have hnew : ∀ c, s.live c → s.numFrames ∉ s.stack c :=
    fun c hc hmem => Nat.lt_irrefl _ (hf.bound c _ hc hmem)
  have hother : ∀ c, s.live c → c ≠ t → f ∉ s.stack c := fun c hc hct hmem =>
    hct (hf.disjoint c t f hc hlive hmem (by rw [hstack]; simp))
  have hsame : ∀ c, s.live c → c ≠ t →
      spawners (update (update s.detached f false) s.numFrames false) (s.stack c) =
        spawners s.detached (s.stack c) := by
    intro c hc hct
    apply spawners_congr
    intro g hg
    rw [Function.update_of_ne, Function.update_of_ne]
    · rintro rfl
      exact hother c hc hct hg
    · rintro rfl
      exact hnew c hc hg
  have hunique := hh.unique
  have hholdlive := hh.live
  obtain ⟨bound, nodup, disjoint, bottom, helper, own, full, hdq, waiting, single, parked, reducing,
    fresh, returning, done, steals, synched⟩ := hf
  constructor
  all_goals simp only [Runtime.pushFrame]
  case deque =>
    intro w' c hc
    by_cases h : w' = w
    · subst h
      obtain rfl : t = c := by simpa [Phase.closure] using hc
      simp [hdeque, spawners]
    · rw [Function.update_of_ne h] at hc
      have hct : c ≠ t := fun hct => h (hunique w' w c hc (hct ▸ hheld))
      simp only [Function.update_of_ne hct]
      rw [hsame c (hholdlive w' c hc) hct]
      exact hdq w' c hc
  case waiting =>
    intro c hc hstatus
    have hct : c ≠ t := by
      rintro rfl
      simp at hstatus
    simp only [Function.update_of_ne hct] at hstatus ⊢
    rw [hsame c hc hct]
    exact waiting c hc hstatus
  case bottom =>
    intro c g hc hg
    by_cases hct : c = t
    · subst hct
      exact ⟨[], by simpa using hg⟩
    · simpa [hct] using bottom c g hc (by simpa [hct] using hg)
  case helper =>
    intro c hc hg
    have hct : c ≠ t := by
      rintro rfl
      simp at hg
    obtain ⟨above, g, habove, hdet⟩ := helper c hc (by simpa [hct] using hg)
    have hgmem : g ∈ s.stack c := by rw [habove]; simp
    refine ⟨above, g, by simpa [hct] using habove, ?_⟩
    rw [Function.update_of_ne, Function.update_of_ne]
    · exact hdet
    · rintro rfl
      exact hother c hc hct hgmem
    · rintro rfl
      exact hnew c hc hgmem
  case full =>
    intro c g hc hg
    by_cases hct : c = t
    · subst hct
      obtain rfl : s.numFrames = g := by simpa using hg
      exact .inr (.inl (Function.update_self _ _ _))
    · have hg' : s.frame c = some g := by simpa [hct] using hg
      have hne : g ≠ s.numFrames := by
        rintro rfl
        exact hnew c hc (hmem c _ hc hg')
      rw [Function.update_of_ne hne, Function.update_of_ne hne]
      rcases full c g hc hg' with h | h | ⟨w', hw'⟩
      · exact .inl h
      · exact .inr (.inl h)
      · have hne : w' ≠ w := by
          rintro rfl
          rw [hw] at hw'
          cases hw'
        exact .inr (.inr ⟨w', by rw [Function.update_of_ne hne, hw']⟩)
  case single =>
    intro w' c hc
    by_cases h : w' = w
    · subst h
      rw [Function.update_self] at hc
      obtain rfl : t = c := by simpa using hc
      exact ⟨s.numFrames, by simp, by simp⟩
    · rw [Function.update_of_ne h] at hc
      have hct : c ≠ t := hh.running_ne hw hc
      simpa [hct] using single w' c hc
  case parked =>
    intro c hc hstatus hcallee
    have hct : c ≠ t := by
      rintro rfl
      simp at hstatus
    simpa [hct] using parked c hc (by simpa [hct] using hstatus) hcallee
  case reducing =>
    intro c g hc hg hred
    by_cases hct : c = t
    · subst hct
      exact ⟨w, by simp⟩
    · have hg' : s.frame c = some g := by simpa [hct] using hg
      have hne : g ≠ s.numFrames := by
        rintro rfl
        exact hnew c hc (hmem c _ hc hg')
      rw [Function.update_of_ne hne] at hred
      obtain ⟨w', hw'⟩ := reducing c g hc hg' hred
      have hne : w' ≠ w := by
        rintro rfl
        rw [hw] at hw'
        simp at hw'
      exact ⟨w', by simpa [hne] using hw'⟩
  case synched =>
    intro c hc h
    by_cases hct : c = t
    · subst hct
      rcases h with h | h | h
      · exact absurd hchildless.1 h
      · exact absurd hchildless.2.1 h
      · exact absurd hchildless.2.2 h
    · obtain ⟨g, hg, hunsynched⟩ := synched c hc h
      have hne : g ≠ s.numFrames := by
        rintro rfl
        exact hnew c hc (hmem c _ hc hg)
      exact ⟨g, by simpa [hct] using hg, by simpa [hne] using hunsynched⟩
  case fresh =>
    intro w' c g hc hgood hg
    have hne : w' ≠ w := by
      rintro rfl
      simp at hc
    rw [Function.update_of_ne hne] at hc
    have hct : c ≠ t := hh.running_ne hw (.inl hc)
    have hg' : s.frame c = some g := by simpa [hct] using hg
    have hgn : g ≠ s.numFrames := by
      rintro rfl
      exact hnew c (hholdlive w' c (by rw [hc]; rfl)) (hmem c _ (hholdlive w' c (by rw [hc]; rfl)) hg')
    rw [Function.update_of_ne hgn]
    exact fresh w' c g hc hgood hg'
  case returning =>
    intro w' c g hc hg
    by_cases h : w' = w
    · subst h
      obtain rfl : t = c := by simpa using hc
      obtain rfl : s.numFrames = g := by simpa using hg
      exact Function.update_self _ _ _
    · rw [Function.update_of_ne h] at hc
      have hct : c ≠ t := hh.running_ne hw (.inr (.inr hc))
      have hg' : s.frame c = some g := by simpa [hct] using hg
      have hgn : g ≠ s.numFrames := by
        rintro rfl
        exact hnew c (hholdlive w' c (by rw [hc]; rfl)) (hmem c _ (hholdlive w' c (by rw [hc]; rfl)) hg')
      rw [Function.update_of_ne hgn]
      exact returning w' c g hc hg'
  all_goals
    simp only [Function.update_apply]
    grind

/-- The frame of a closure that reaches a sync with the flag set: it is the only one left. -/
theorem FrameInv.at_sync (hh : HoldInv s) (hf : FrameInv s) {w : WorkerId} {t : ClosureId}
    {f : FrameId} {below : List FrameId} (hw : s.phase w = .running t)
    (hstack : s.stack t = f :: below) (hunsynched : s.unsynched f = true) :
    s.frame t = some f ∧ s.stack t = [f] ∧ s.reduction f = false := by
  have hlive := hh.live w t (by rw [hw]; rfl)
  have hown := hf.own t f hlive (by rw [hstack]; simp) (.inr (.inl hunsynched))
  refine ⟨hown, ?_, hf.user hh hw (by rw [hstack]; simp)⟩
  obtain ⟨above, habove⟩ := hf.bottom t f hlive hown
  have hnodup := hf.nodup t hlive
  cases above with
  | nil => exact habove
  | cons g above =>
    rw [hstack] at habove hnodup
    obtain ⟨rfl, rfl⟩ : f = g ∧ below = above ++ [f] := by simpa using habove
    simp at hnodup

theorem FrameInv.suspend (hh : HoldInv s) (hf : FrameInv s) {w : WorkerId} {t : ClosureId}
    {f : FrameId} {below : List FrameId} (hw : s.phase w = .running t)
    (hstack : s.stack t = f :: below) (hunsynched : s.unsynched f = true) {sp : FrameId → ℕ} :
    FrameInv ({ s with sp := sp }.suspendAtSync w t) := by
  have hheld : (s.phase w).closure = some t := by rw [hw]; rfl
  have hlive := hh.live w t hheld
  obtain ⟨hframe, hstack', hred⟩ := hf.at_sync hh hw hstack hunsynched
  obtain ⟨bound, nodup, disjoint, bottom, helper, own, full, hdq, waiting, single, parked, reducing,
    fresh, returning, done, steals, synched⟩ := hf
  constructor
  all_goals simp only [Runtime.suspendAtSync, Runtime.deallocateFiber]
  case full =>
    intro c g hc hg
    rcases full c g hc hg with h | h | ⟨w', hw'⟩
    · exact .inl h
    · exact .inr (.inl h)
    · have hne : w' ≠ w := by
        rintro rfl
        rw [hw] at hw'
        cases hw'
      exact .inr (.inr ⟨w', by rw [Function.update_of_ne hne, hw']⟩)
  case reducing =>
    intro c g hc hg hr
    obtain ⟨w', hw'⟩ := reducing c g hc hg hr
    have hne : w' ≠ w := by
      rintro rfl
      rw [hw] at hw'
      simp at hw'
    exact ⟨w', by simpa [hne] using hw'⟩
  case deque =>
    intro w' c hc
    by_cases h : w' = w
    · simp [h, Phase.closure] at hc
    · exact hdq w' c (by simpa [h] using hc)
  case waiting =>
    intro c hc hstatus
    by_cases hct : c = t
    · rw [hct, hstack']
      rfl
    · exact waiting c hc (by simpa [hct] using hstatus)
  case parked =>
    intro c hc hstatus hcallee
    by_cases hct : c = t
    · exact ⟨f, by rw [hct, hframe], by rw [hct, hstack']⟩
    · exact parked c hc (by simpa [hct] using hstatus) hcallee
  case single =>
    intro w' c hc
    by_cases h : w' = w
    · simp [h] at hc
    · exact single w' c (by simpa [h] using hc)
  case fresh | returning =>
    simp only [Function.update_apply]
    grind
  all_goals assumption

/-- A closure without children passes a sync: its frame is synched again. -/
theorem FrameInv.sync (hf : FrameInv s) {t : ClosureId} {f : FrameId} (hlive : s.live t)
    (hframe : s.frame t = some f) (hchildren : s.children t = []) :
    FrameInv { s.setupForSync t with childHt := update s.childHt t none } := by
  have hmem := fun c g => hf.frame_mem (c := c) (f := g)
  have hother : ∀ c, s.live c → c ≠ t → f ∉ s.stack c := fun c hc hct h =>
    hct (hf.disjoint c t f hc hlive h (hmem t f hlive hframe))
  obtain ⟨bound, nodup, disjoint, bottom, helper, own, full, hdq, waiting, single, parked, reducing,
    fresh, returning, done, steals, synched⟩ := hf
  constructor
  all_goals simp only [Runtime.setupForSync, Runtime.deallocateFiber, hframe, storeAt]
  case synched =>
    intro c hc h
    have hct : c ≠ t := by
      rintro rfl
      simp [hchildren] at h
    obtain ⟨g, hg, hunsynched⟩ := synched c hc (by simpa [hct] using h)
    have hgf : g ≠ f := by
      rintro rfl
      exact hother c hc hct (hmem c _ hc hg)
    exact ⟨g, hg, by simpa [hgf] using hunsynched⟩
  case own | done | steals =>
    simp only [Function.update_apply]
    grind
  all_goals assumption

/-- A worker leaves a closure that is destroyed. -/
theorem FrameInv.leave (hh : HoldInv s) (hf : FrameInv s) (hsame : SameFlags s s')
    {w : WorkerId} {t : ClosureId} (hheld : (s.phase w).closure = some t)
    (hexited : s.phase w ≠ .exited t) (hcode : s'.code = s.code)
    (hgood : s'.provablyGoodSteal = s.provablyGoodSteal)
    (hdeque : s'.deque = s.deque) (hlive : s'.live = update s.live t false)
    (hstack : s'.stack = update s.stack t [])
    (hframe : ∀ c, c ≠ t → s'.frame c = s.frame c)
    (hphase : s'.phase = update s.phase w .stealing)
    (hstatus : ∀ c, c ≠ t → s'.status c = s.status c)
    (hcallee : s'.callee = s.callee)
    (hsynched : ∀ c, c ≠ t → s'.children c ≠ [] ∨ s'.childHt c ≠ none ∨ s'.promoted c ≠ [] →
      s.children c ≠ [] ∨ s.childHt c ≠ none ∨ s.promoted c ≠ []) : FrameInv s' := by
  have hstill : ∀ w' c, w' ≠ w → (s.phase w').closure = some c → c ≠ t := by
    rintro w' c hne hc rfl
    exact hne (hh.unique w' w c hc hheld)
  obtain ⟨bound, nodup, disjoint, bottom, helper, own, full, hdq, waiting, single, parked, reducing,
    fresh, returning, done, steals, synched⟩ := hf
  obtain ⟨h1, h2, h3, h4, h5, h6⟩ := hsame
  have hold : ∀ c, s'.live c → c ≠ t ∧ s.live c := by
    intro c hc
    rw [hlive] at hc
    by_cases hct : c = t
    · simp [hct] at hc
    · exact ⟨hct, by simpa [hct] using hc⟩
  have hother : ∀ w', w' ≠ w → s'.phase w' = s.phase w' := by
    intro w' hw'
    rw [hphase, Function.update_of_ne hw']
  have hw : s'.phase w = .stealing := by rw [hphase, Function.update_self]
  have hst : ∀ c, c ≠ t → s'.stack c = s.stack c := by
    intro c hc
    rw [hstack, Function.update_of_ne hc]
  constructor
  case bound =>
    intro c f hc hfc
    obtain ⟨hct, hc⟩ := hold c hc
    rw [hst c hct] at hfc
    rw [h6]
    exact bound c f hc hfc
  case nodup =>
    intro c hc
    obtain ⟨hct, hc⟩ := hold c hc
    rw [hst c hct]
    exact nodup c hc
  case disjoint =>
    intro c c' f hc hc' hfc hfc'
    obtain ⟨hct, hc⟩ := hold c hc
    obtain ⟨hct', hc'⟩ := hold c' hc'
    rw [hst c hct] at hfc
    rw [hst c' hct'] at hfc'
    exact disjoint c c' f hc hc' hfc hfc'
  case bottom =>
    intro c f hc hfc
    obtain ⟨hct, hc⟩ := hold c hc
    rw [hframe c hct] at hfc
    rw [hst c hct]
    exact bottom c f hc hfc
  case helper =>
    intro c hc hfc
    obtain ⟨hct, hc⟩ := hold c hc
    rw [hframe c hct] at hfc
    rw [hst c hct, h1]
    exact helper c hc hfc
  case own =>
    intro c f hc hfc hflags
    obtain ⟨hct, hc⟩ := hold c hc
    rw [hst c hct] at hfc
    rw [h2, h3, h4] at hflags
    rw [hframe c hct]
    exact own c f hc hfc hflags
  case waiting =>
    intro c hc hs
    obtain ⟨hct, hc⟩ := hold c hc
    rw [hstatus c hct] at hs
    rw [hst c hct, h1]
    exact waiting c hc hs
  case parked =>
    intro c hc hs hcal
    obtain ⟨hct, hc⟩ := hold c hc
    rw [hstatus c hct] at hs
    rw [hcallee] at hcal
    rw [hst c hct, hframe c hct]
    exact parked c hc hs hcal
  case done =>
    rw [h3, h4, hcode]
    exact done
  case steals =>
    rw [h3, h5]
    exact steals
  case full =>
    intro c f hc hfc
    obtain ⟨hct, hc⟩ := hold c hc
    rw [hframe c hct] at hfc
    rw [h2, h4]
    rcases full c f hc hfc with h | h | ⟨w', hw'⟩
    · exact .inl h
    · exact .inr (.inl h)
    · have hne : w' ≠ w := by
        rintro rfl
        rw [hw'] at hheld
        exact hct (Option.some.inj hheld)
      exact .inr (.inr ⟨w', by rw [hother w' hne, hw']⟩)
  case deque =>
    intro w' c hc
    by_cases h : w' = w
    · rw [h, hw] at hc
      cases hc
    · rw [hother w' h] at hc
      rw [hdeque, h1, hst c (hstill w' c h hc)]
      exact hdq w' c hc
  case single =>
    intro w' c hc
    by_cases h : w' = w
    · rw [h, hw] at hc
      simp at hc
    · rw [hother w' h] at hc
      have hct := hstill w' c h (by rcases hc with h | h | h <;> rw [h] <;> rfl)
      rw [hst c hct, hframe c hct]
      exact single w' c hc
  case reducing =>
    intro c f hc hfc hred
    obtain ⟨hct, hc⟩ := hold c hc
    rw [hframe c hct] at hfc
    rw [h4] at hred
    obtain ⟨w', hw'⟩ := reducing c f hc hfc hred
    have hne : w' ≠ w := by
      rintro rfl
      have hheld' : (s.phase w').closure = some c := by
        rcases hw' with h | h | h <;> rw [h] <;> rfl
      exact hct (Option.some.inj (hheld'.symm.trans hheld))
    exact ⟨w', by rwa [hother w' hne]⟩
  case fresh =>
    intro w' c f hc
    by_cases h : w' = w
    · rw [h, hw] at hc
      cases hc
    · rw [hother w' h] at hc
      rw [hgood, h4, hframe c (hstill w' c h (by rw [hc]; rfl))]
      exact fresh w' c f hc
  case returning =>
    intro w' c f hc
    by_cases h : w' = w
    · rw [h, hw] at hc
      cases hc
    · rw [hother w' h] at hc
      rw [h4, hframe c (hstill w' c h (by rw [hc]; rfl))]
      exact returning w' c f hc
  case synched =>
    intro c hc h
    obtain ⟨hct, hc⟩ := hold c hc
    rw [h3, hframe c hct]
    exact synched c hc (hsynched c hct h)

/-- A worker without a closure takes a suspended one. -/
theorem FrameInv.take (hf : FrameInv s) (hsame : SameFlags s s')
    {w : WorkerId} {t : ClosureId} {q : Phase} (hw : s.phase w = .stealing)
    (hq : q = .scheduled t ∨ q = .running t) (hlivet : s.live t)
    (hfree : ∀ w', (s.phase w').closure ≠ some t) (hsuspended : s.status t = .suspended)
    (hsingle : q = .scheduled t → s.callee t = none)
    (hcode : s'.code = s.code)
    (hgoodw : q = .scheduled t → s'.provablyGoodSteal w = true)
    (hgood : ∀ w', w' ≠ w → s'.provablyGoodSteal w' = s.provablyGoodSteal w')
    (hdequew : s'.deque w = []) (hdeque : ∀ w', w' ≠ w → s'.deque w' = s.deque w')
    (hlive : s'.live = s.live) (hstack : s'.stack = s.stack) (hframe : s'.frame = s.frame)
    (hphase : s'.phase = update s.phase w q)
    (hstatus : s'.status = update s.status t .running)
    (hcallee : ∀ c, c ≠ t → s'.callee c = s.callee c) (hchildren : s'.children = s.children)
    (hpromoted : s'.promoted = s.promoted)
    (hchildHt : ∀ c, s'.childHt c ≠ none → s.childHt c ≠ none) : FrameInv s' := by
  have hqt : q.closure = some t := by rcases hq with rfl | rfl <;> rfl
  have hempty := hf.waiting t hlivet hsuspended
  have hparked := fun h => hf.parked t hlivet hsuspended (hsingle h)
  obtain ⟨bound, nodup, disjoint, bottom, helper, own, full, hdq, waiting, single, parked, reducing,
    fresh, returning, done, steals, synched⟩ := hf
  obtain ⟨h1, h2, h3, h4, h5, h6⟩ := hsame
  have huser : ∀ f, s.frame t = some f → s.reduction f = false := by
    intro f hf
    rw [Bool.eq_false_iff]
    intro hred
    obtain ⟨w', hw'⟩ := reducing t f hlivet hf hred
    exact hfree w' (by rcases hw' with h | h | h <;> rw [h] <;> rfl)
  have hother : ∀ w', w' ≠ w → s'.phase w' = s.phase w' := by
    intro w' hw'
    rw [hphase, Function.update_of_ne hw']
  have hself : s'.phase w = q := by rw [hphase, Function.update_self]
  constructor
  case bound | nodup | disjoint | bottom | helper | own | done | steals =>
    simp only [h1, h2, h3, h4, h5, h6, hcode, hlive, hstack, hframe]
    assumption
  case synched =>
    simp only [h3, hlive, hframe, hchildren, hpromoted]
    exact fun c hc h => synched c hc (h.imp_right (Or.imp_left (hchildHt c)))
  case waiting =>
    intro c hc hs
    have hct : c ≠ t := by
      rintro rfl
      simp [hstatus] at hs
    rw [hlive] at hc
    rw [hstatus, Function.update_of_ne hct] at hs
    rw [hstack, h1]
    exact waiting c hc hs
  case parked =>
    intro c hc hs hcal
    have hct : c ≠ t := by
      rintro rfl
      simp [hstatus] at hs
    rw [hlive] at hc
    rw [hstatus, Function.update_of_ne hct] at hs
    rw [hcallee c hct] at hcal
    rw [hstack, hframe]
    exact parked c hc hs hcal
  case full =>
    intro c f hc hfc
    rw [hlive] at hc
    rw [hframe] at hfc
    rw [h2, h4]
    rcases full c f hc hfc with h | h | ⟨w', hw'⟩
    · exact .inl h
    · exact .inr (.inl h)
    · have hne : w' ≠ w := by
        rintro rfl
        rw [hw'] at hw
        cases hw
      exact .inr (.inr ⟨w', by rw [hother w' hne, hw']⟩)
  case deque =>
    intro w' c hc
    by_cases h : w' = w
    · rw [h, hself, hqt] at hc
      obtain rfl := Option.some.inj hc
      rw [h, hdequew, h1, hstack, hempty]
    · rw [hother w' h] at hc
      rw [hdeque w' h, h1, hstack]
      exact hdq w' c hc
  case single =>
    intro w' c hc
    rw [hstack, hframe]
    by_cases h : w' = w
    · rw [h, hself] at hc
      rcases hq with rfl | rfl
      · obtain rfl : t = c := by simpa using hc
        exact hparked rfl
      · simp at hc
    · rw [hother w' h] at hc
      exact single w' c hc
  case reducing =>
    intro c f hc hfc hred
    rw [hlive] at hc
    rw [hframe] at hfc
    rw [h4] at hred
    obtain ⟨w', hw'⟩ := reducing c f hc hfc hred
    have hne : w' ≠ w := by
      rintro rfl
      rw [hw] at hw'
      simp at hw'
    exact ⟨w', by rwa [hother w' hne]⟩
  case fresh =>
    intro w' c f hc hg hfc
    rw [hframe] at hfc
    rw [h4]
    by_cases h : w' = w
    · rw [h, hself] at hc
      subst hc
      obtain rfl := Option.some.inj hqt
      exact huser f hfc
    · rw [hother w' h] at hc
      rw [hgood w' h] at hg
      exact fresh w' c f hc hg hfc
  case returning =>
    intro w' c f hc hfc
    rw [hframe] at hfc
    rw [h4]
    by_cases h : w' = w
    · rw [h, hself] at hc
      rcases hq with rfl | rfl <;> cases hc
    · rw [hother w' h] at hc
      exact returning w' c f hc hfc

end Stacks

end Cheetah
