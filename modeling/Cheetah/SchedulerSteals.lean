import Cheetah.SchedulerStacks

/-! What a steal does to the frames, and the invariant of the frames over all steps. -/
namespace Cheetah
open Function (update)

section Steals

variable {κ V : Type} {s s' : Runtime κ V}

/-- What a thief finds on the victim's stack. -/
theorem FrameInv.victim (hh : HoldInv s) (hf : FrameInv s) {victim : WorkerId} {cl : ClosureId}
    {f : FrameId} {parents above below : List FrameId} (hvictim : s.phase victim = .running cl)
    (hdeque : s.deque victim = f :: parents) (hstack : s.stack cl = above ++ f :: below) :
    spawners s.detached above = parents ∧ spawners s.detached (f :: below) = [] ∧
      ∃ above' helper, above = above' ++ [helper] ∧ s.detached helper := by
  have hheld : (s.phase victim).closure = some cl := by rw [hvictim]; rfl
  have hnodup := hf.nodup cl (hh.live victim cl hheld)
  have hspawners := hf.deque victim cl hheld
  rw [hdeque] at hspawners
  obtain ⟨above', helper, below', hl, hd, hs, hb⟩ := spawners_oldest hspawners.symm
  have hl' : above ++ f :: below = (above' ++ [helper]) ++ f :: below' := by
    rw [← hstack, hl]
    simp
  rw [hstack] at hnodup
  obtain ⟨rfl, rfl⟩ := nodup_split hnodup hl'
  exact ⟨hs, hb, above', helper, rfl, hd⟩

/-- What a steal does to the frames: the frames above the stolen one go to the new child `k`, the
stolen one to the closure `res` that the thief takes, those below stay. -/
structure Splits (s s' : Runtime κ V) (w victim : WorkerId) (cl k res : ClosureId) (f : FrameId)
    (parents above below : List FrameId) : Prop where
  live : ∀ c, s'.live c → c = k ∨ c = res ∨ c ≠ k ∧ c ≠ res ∧ s.live c
  stackChild : s'.stack k = above
  stackRes : s'.stack res = [f]
  stackKept : cl ≠ res → s'.stack cl = below
  stack : ∀ c, c ≠ k → c ≠ res → c ≠ cl → s'.stack c = s.stack c
  frameChild : s'.frame k = none
  frameRes : s'.frame res = some f
  frame : ∀ c, c ≠ k → c ≠ res → s'.frame c = s.frame c
  phaseVictim : s'.phase victim = .running k
  phaseThief : s'.phase w = .scheduled res
  phase : ∀ w', w' ≠ w → w' ≠ victim → s'.phase w' = s.phase w'
  dequeVictim : s'.deque victim = parents
  dequeThief : s'.deque w = []
  deque : ∀ w', w' ≠ w → w' ≠ victim → s'.deque w' = s.deque w'
  statusChild : s'.status k = .running
  statusRes : s'.status res = .running
  status : ∀ c, c ≠ k → c ≠ res → c ≠ cl → s'.status c = s.status c
  calleeKept : cl ≠ res → s'.callee cl ≠ none
  callee : ∀ c, c ≠ k → c ≠ res → c ≠ cl → s'.callee c = s.callee c
  childrenChild : s'.children k = []
  childHtChild : s'.childHt k = none
  promotedChild : s'.promoted k = []
  children : ∀ c, c ≠ k → c ≠ res → s'.children c = s.children c
  childHt : ∀ c, c ≠ k → c ≠ res → s'.childHt c = s.childHt c
  promoted : ∀ c, c ≠ k → c ≠ res → s'.promoted c = s.promoted c
  stolenFrame : s'.stolen f
  stolen : ∀ g, g ≠ f → s'.stolen g = s.stolen g
  unsynchedFrame : s'.unsynched f
  unsynched : ∀ g, g ≠ f → s'.unsynched g = s.unsynched g
  stealsFrame : s'.steals f ≠ []
  steals : ∀ g, g ≠ f → s'.steals g = s.steals g
  code : s'.code = s.code
  numFrames : s'.numFrames = s.numFrames
  detached : s'.detached = s.detached
  reduction : s'.reduction = s.reduction
  good : s'.provablyGoodSteal = s.provablyGoodSteal

theorem FrameInv.steal (hh : HoldInv s) (hf : FrameInv s)
    {w victim : WorkerId} {cl k res : ClosureId} {f : FrameId}
    {parents above below : List FrameId} (hs : Splits s s' w victim cl k res f parents above below)
    (hw : s.phase w = .stealing) (hvictim : s.phase victim = .running cl)
    (hdeque : s.deque victim = f :: parents) (hstack : s.stack cl = above ++ f :: below)
    (hk : ¬ s.live k) (hres : res = cl ∧ s.frame cl = some f ∨
      ¬ s.live res ∧ res ≠ k ∧ s.frame cl ≠ some f ∧ s.detached f = false) : FrameInv s' := by
  obtain ⟨hspawners, hbelow, above', helper', habove', hdetached⟩ :=
    hf.victim hh hvictim hdeque hstack
  have hheld : (s.phase victim).closure = some cl := by rw [hvictim]; rfl
  have hlive := hh.live victim cl hheld
  have hnodup := hf.nodup cl hlive
  have huser := hf.user hh hvictim (f := f) (by rw [hstack]; simp)
  have hclk : cl ≠ k := by
    rintro rfl
    exact hk hlive
  have hresk : res ≠ k := by
    rcases hres with ⟨rfl, -⟩ | ⟨-, h, -⟩
    · exact hclk
    · exact h
  rw [hstack] at hnodup
  have hfa : f ∉ above := fun hmem => (List.nodup_append.mp hnodup).2.2 f hmem f (by simp) rfl
  have hfb : f ∉ below := (List.nodup_cons.mp (List.nodup_append.mp hnodup).2.1).1
  have hab : ∀ g ∈ above, g ∉ below := fun g hg hg' =>
    (List.nodup_append.mp hnodup).2.2 g hg g (by simp [hg']) rfl
  have hmemcl : ∀ g, g ∈ above ∨ g = f ∨ g ∈ below → g ∈ s.stack cl := by
    intro g hg
    rw [hstack]
    simpa using hg
  have horigin : ∀ c g, s'.live c → g ∈ s'.stack c → c = k ∧ g ∈ above ∨ c = res ∧ g = f ∨
      c ≠ k ∧ c ≠ res ∧ s.live c ∧ g ∈ s.stack c ∧ g ≠ f ∧ g ∉ above := by
    intro c g hc hg
    rcases hs.live c hc with rfl | rfl | ⟨hck, hcr, hc⟩
    · exact .inl ⟨rfl, hs.stackChild ▸ hg⟩
    · rw [hs.stackRes, List.mem_singleton] at hg
      exact .inr (.inl ⟨rfl, hg⟩)
    · by_cases hcl : c = cl
      · subst hcl
        rw [hs.stackKept hcr] at hg
        refine .inr (.inr ⟨hck, hcr, hc, hmemcl g (.inr (.inr hg)), ?_, fun h => hab g h hg⟩)
        rintro rfl
        exact hfb hg
      · rw [hs.stack c hck hcr hcl] at hg
        refine .inr (.inr ⟨hck, hcr, hc, hg, ?_, fun h => ?_⟩)
        · rintro rfl
          exact hcl (hf.disjoint c cl g hc hlive hg (hmemcl g (.inr (.inl rfl))))
        · exact hcl (hf.disjoint c cl g hc hlive hg (hmemcl g (.inl h)))
  have hkept : ∀ c a g, c ≠ k → c ≠ res → s.stack c = a ++ [g] →
      (s.frame c = some g ∨ s.frame c = none ∧ s.detached g) → ∃ a', s'.stack c = a' ++ [g] := by
    intro c a g hck hcr hsplit hg
    by_cases hcl : c = cl
    · subst hcl
      rw [hs.stackKept hcr]
      have hnof : s.frame c ≠ some f ∧ s.detached f = false := by
        rcases hres with ⟨rfl, -⟩ | ⟨-, -, h⟩
        · exact absurd rfl hcr
        · exact h
      rw [hstack] at hsplit
      rcases List.eq_nil_or_concat' below with rfl | ⟨b, x, rfl⟩
      · obtain ⟨-, hgf⟩ := List.append_inj' hsplit rfl
        obtain rfl : f = g := by simpa using hgf
        rcases hg with hg | ⟨-, hg⟩
        · exact absurd hg hnof.1
        · rw [hnof.2] at hg
          cases hg
      · have hsplit' : (above ++ f :: b) ++ [x] = a ++ [g] := by rw [← hsplit]; simp
        obtain ⟨-, hgx⟩ := List.append_inj' hsplit' rfl
        obtain rfl : x = g := by simpa using hgx
        exact ⟨b, rfl⟩
    · exact ⟨a, by rw [hs.stack c hck hcr hcl, hsplit]⟩
  have hphase : ∀ w' c, w' ≠ w → w' ≠ victim → (s'.phase w').closure = some c →
      (s.phase w').closure = some c ∧ c ≠ k ∧ c ≠ res ∧ c ≠ cl := by
    intro w' c hw' hv' hc
    rw [hs.phase w' hw' hv'] at hc
    have hclne : c ≠ cl := by
      rintro rfl
      exact hv' (hh.unique w' victim c hc hheld)
    have hlc := hh.live w' c hc
    refine ⟨hc, ?_, ?_, hclne⟩
    · rintro rfl
      exact hk hlc
    · rintro rfl
      rcases hres with ⟨rfl, -⟩ | ⟨h, -⟩
      · exact hclne rfl
      · exact h hlc
  have hstill : ∀ w', (s.phase w' ≠ .stealing ∧ ∀ c, s.phase w' ≠ .running c) →
      s'.phase w' = s.phase w' := by
    intro w' hw'
    refine hs.phase w' ?_ ?_
    · rintro rfl
      exact hw'.1 hw
    · rintro rfl
      exact hw'.2 cl hvictim
  constructor
  case bound =>
    intro c g hc hg
    rw [hs.numFrames]
    rcases horigin c g hc hg with ⟨-, hg⟩ | ⟨-, rfl⟩ | ⟨-, -, hc, hg, -⟩
    · exact hf.bound cl g hlive (hmemcl g (.inl hg))
    · exact hf.bound cl g hlive (hmemcl g (.inr (.inl rfl)))
    · exact hf.bound c g hc hg
  case nodup =>
    intro c hc
    rcases hs.live c hc with rfl | rfl | ⟨hck, hcr, hc⟩
    · rw [hs.stackChild]
      exact (List.nodup_append.mp hnodup).1
    · rw [hs.stackRes]
      exact List.nodup_singleton f
    · by_cases hcl : c = cl
      · subst hcl
        rw [hs.stackKept hcr]
        exact (List.nodup_cons.mp (List.nodup_append.mp hnodup).2.1).2
      · rw [hs.stack c hck hcr hcl]
        exact hf.nodup c hc
  case disjoint =>
    intro c c' g hc hc' hg hg'
    rcases horigin c g hc hg with ⟨rfl, hg⟩ | ⟨rfl, rfl⟩ | ⟨-, -, hc, hg, hgf, hga⟩ <;>
      rcases horigin c' g hc' hg' with ⟨rfl, hg'⟩ | ⟨rfl, hgf'⟩ | ⟨-, -, hc', hg', hgf', hga'⟩
    · rfl
    · exact absurd (hgf' ▸ hg) hfa
    · exact absurd hg hga'
    · exact absurd hg' hfa
    · rfl
    · exact absurd rfl hgf'
    · exact absurd hg' hga
    · exact absurd hgf' hgf
    · exact hf.disjoint c c' g hc hc' hg hg'
  case bottom =>
    intro c g hc hg
    rcases hs.live c hc with rfl | rfl | ⟨hck, hcr, hc⟩
    · rw [hs.frameChild] at hg
      cases hg
    · rw [hs.frameRes] at hg
      exact ⟨[], by rw [hs.stackRes, Option.some.inj hg]; rfl⟩
    · rw [hs.frame c hck hcr] at hg
      obtain ⟨a, ha⟩ := hf.bottom c g hc hg
      exact hkept c a g hck hcr ha (.inl hg)
  case helper =>
    intro c hc hg
    rw [hs.detached]
    rcases hs.live c hc with rfl | rfl | ⟨hck, hcr, hc⟩
    · exact ⟨above', helper', by rw [hs.stackChild, habove'], hdetached⟩
    · rw [hs.frameRes] at hg
      cases hg
    · rw [hs.frame c hck hcr] at hg
      obtain ⟨a, x, ha, hx⟩ := hf.helper c hc hg
      obtain ⟨a', ha'⟩ := hkept c a x hck hcr ha (.inr ⟨hg, hx⟩)
      exact ⟨a', x, ha', hx⟩
  case own =>
    intro c g hc hg hflags
    rcases horigin c g hc hg with ⟨rfl, hg⟩ | ⟨rfl, rfl⟩ | ⟨hck, hcr, hc, hg, hgf, -⟩
    · have hgf : g ≠ f := by
        rintro rfl
        exact hfa hg
      rw [hs.stolen g hgf, hs.unsynched g hgf, hs.reduction] at hflags
      have hown := hf.own cl g hlive (hmemcl g (.inl hg)) hflags
      obtain ⟨a, ha⟩ := hf.bottom cl g hlive hown
      rw [hstack] at ha
      have hlast : g ∈ f :: below := by
        have hl := congrArg List.getLast? ha
        rw [List.getLast?_append_of_ne_nil _ (List.cons_ne_nil f below), List.getLast?_concat] at hl
        exact List.mem_of_getLast? hl
      rcases List.mem_cons.mp hlast with h | h
      · exact absurd h hgf
      · exact absurd h (hab g hg)
    · exact hs.frameRes
    · rw [hs.stolen g hgf, hs.unsynched g hgf, hs.reduction] at hflags
      rw [hs.frame c hck hcr]
      exact hf.own c g hc hg hflags
  case full =>
    intro c g hc hg
    rcases hs.live c hc with rfl | rfl | ⟨hck, hcr, hc⟩
    · rw [hs.frameChild] at hg
      cases hg
    · rw [hs.frameRes] at hg
      obtain rfl := Option.some.inj hg
      exact .inl hs.stolenFrame
    · rw [hs.frame c hck hcr] at hg
      rw [hs.reduction]
      rcases hf.full c g hc hg with h | h | ⟨w', hw'⟩
      · by_cases hgf : g = f
        · exact .inl (hgf ▸ hs.stolenFrame)
        · exact .inl (by rwa [hs.stolen g hgf])
      · exact .inr (.inl h)
      · exact .inr (.inr ⟨w', by rw [hstill w' (by simp [hw']), hw']⟩)
  case deque =>
    intro w' c hc
    rw [hs.detached]
    by_cases hw' : w' = w
    · subst hw'
      rw [hs.phaseThief] at hc
      obtain rfl := Option.some.inj hc
      rw [hs.dequeThief, hs.stackRes]
      rfl
    · by_cases hv' : w' = victim
      · subst hv'
        rw [hs.phaseVictim] at hc
        obtain rfl := Option.some.inj hc
        rw [hs.dequeVictim, hs.stackChild, hspawners]
      · obtain ⟨hc, hck, hcr, hcl⟩ := hphase w' c hw' hv' hc
        rw [hs.deque w' hw' hv', hs.stack c hck hcr hcl]
        exact hf.deque w' c hc
  case waiting =>
    intro c hc hstatus
    rw [hs.detached]
    rcases hs.live c hc with rfl | rfl | ⟨hck, hcr, hc⟩
    · rw [hs.statusChild] at hstatus
      cases hstatus
    · rw [hs.statusRes] at hstatus
      cases hstatus
    · by_cases hcl : c = cl
      · subst hcl
        rw [hs.stackKept hcr]
        exact spawners_tail_nil hbelow
      · rw [hs.status c hck hcr hcl] at hstatus
        rw [hs.stack c hck hcr hcl]
        exact hf.waiting c hc hstatus
  case single =>
    intro w' c hc
    have hcc : (s'.phase w').closure = some c := by rcases hc with h | h | h <;> rw [h] <;> rfl
    by_cases hw' : w' = w
    · subst hw'
      rw [hs.phaseThief] at hcc
      obtain rfl := Option.some.inj hcc
      exact ⟨f, hs.frameRes, hs.stackRes⟩
    · by_cases hv' : w' = victim
      · subst hv'
        rw [hs.phaseVictim] at hc
        simp at hc
      · obtain ⟨-, hck, hcr, hcl⟩ := hphase w' c hw' hv' hcc
        rw [hs.phase w' hw' hv'] at hc
        rw [hs.frame c hck hcr, hs.stack c hck hcr hcl]
        exact hf.single w' c hc
  case parked =>
    intro c hc hstatus hcallee
    rcases hs.live c hc with rfl | rfl | ⟨hck, hcr, hc⟩
    · rw [hs.statusChild] at hstatus
      cases hstatus
    · rw [hs.statusRes] at hstatus
      cases hstatus
    · by_cases hcl : c = cl
      · subst hcl
        exact absurd hcallee (hs.calleeKept hcr)
      · rw [hs.status c hck hcr hcl] at hstatus
        rw [hs.callee c hck hcr hcl] at hcallee
        rw [hs.frame c hck hcr, hs.stack c hck hcr hcl]
        exact hf.parked c hc hstatus hcallee
  case reducing =>
    intro c g hc hg hred
    rw [hs.reduction] at hred
    rcases hs.live c hc with rfl | rfl | ⟨hck, hcr, hc⟩
    · rw [hs.frameChild] at hg
      cases hg
    · rw [hs.frameRes] at hg
      obtain rfl := Option.some.inj hg
      rw [huser] at hred
      cases hred
    · rw [hs.frame c hck hcr] at hg
      obtain ⟨w', hw'⟩ := hf.reducing c g hc hg hred
      refine ⟨w', ?_⟩
      rwa [hstill w' (by rcases hw' with h | h | h <;> simp [h])]
  case fresh =>
    intro w' c g hc hgood hg
    rw [hs.reduction]
    by_cases hw' : w' = w
    · subst hw'
      rw [hs.phaseThief] at hc
      cases hc
      rw [hs.frameRes] at hg
      obtain rfl := Option.some.inj hg
      exact huser
    · by_cases hv' : w' = victim
      · subst hv'
        rw [hs.phaseVictim] at hc
        cases hc
      · obtain ⟨-, hck, hcr, -⟩ := hphase w' c hw' hv' (by rw [hc]; rfl)
        rw [hs.phase w' hw' hv'] at hc
        rw [hs.good] at hgood
        rw [hs.frame c hck hcr] at hg
        exact hf.fresh w' c g hc hgood hg
  case returning =>
    intro w' c g hc hg
    rw [hs.reduction]
    by_cases hw' : w' = w
    · subst hw'
      rw [hs.phaseThief] at hc
      cases hc
    · by_cases hv' : w' = victim
      · subst hv'
        rw [hs.phaseVictim] at hc
        cases hc
      · obtain ⟨-, hck, hcr, -⟩ := hphase w' c hw' hv' (by rw [hc]; rfl)
        rw [hs.phase w' hw' hv'] at hc
        rw [hs.frame c hck hcr] at hg
        exact hf.returning w' c g hc hg
  case done =>
    intro g hred
    rw [hs.reduction] at hred
    have hgf : g ≠ f := by
      rintro rfl
      rw [huser] at hred
      cases hred
    rw [hs.code, hs.unsynched g hgf]
    exact hf.done g hred
  case steals =>
    intro g
    by_cases hgf : g = f
    · subst hgf
      exact iff_of_true hs.unsynchedFrame hs.stealsFrame
    · rw [hs.unsynched g hgf, hs.steals g hgf]
      exact hf.steals g
  case synched =>
    intro c hc h
    rcases hs.live c hc with rfl | rfl | ⟨hck, hcr, hc⟩
    · rcases h with h | h | h
      · exact absurd hs.childrenChild h
      · exact absurd hs.childHtChild h
      · exact absurd hs.promotedChild h
    · exact ⟨f, hs.frameRes, hs.unsynchedFrame⟩
    · rw [hs.children c hck hcr, hs.childHt c hck hcr, hs.promoted c hck hcr] at h
      obtain ⟨g, hg, hunsynched⟩ := hf.synched c hc h
      refine ⟨g, by rw [hs.frame c hck hcr, hg], ?_⟩
      by_cases hgf : g = f
      · exact hgf ▸ hs.unsynchedFrame
      · rwa [hs.unsynched g hgf]

theorem Splits.own {w victim : WorkerId} {cl : ClosureId} {f : FrameId}
    {parents above : List FrameId} (hne : cl ≠ s.numClosures) (hvw : victim ≠ w)
    (hdeque : s.deque victim = f :: parents) (hframe : s.frame cl = some f) (hstolen : s.stolen f) :
    Splits s (s.stealOwn w victim cl f above []) w victim cl s.numClosures cl f parents above []
    where
  live := by
    intro c hc
    by_cases h : c = s.numClosures
    · exact .inl h
    · by_cases hcl : c = cl
      · exact .inr (.inl hcl)
      · refine .inr (.inr ⟨h, hcl, ?_⟩)
        rw [← hc]
        exact (Function.update_of_ne h _ _).symm
  stackChild := Function.update_self _ _ _
  stackRes := (Function.update_of_ne hne _ _).trans (Function.update_self _ _ _)
  stackKept := fun h => absurd rfl h
  stack := fun c hk hr _ => (Function.update_of_ne hk _ _).trans
    ((Function.update_of_ne hr _ _).trans (Function.update_of_ne hk _ _))
  frameChild := Function.update_self _ _ _
  frameRes := (Function.update_of_ne hne _ _).trans hframe
  frame := fun c hk _ => Function.update_of_ne hk _ _
  phaseVictim := (Function.update_of_ne hvw _ _).trans (Function.update_self _ _ _)
  phaseThief := Function.update_self _ _ _
  phase := fun w' hw hv => (Function.update_of_ne hw _ _).trans (Function.update_of_ne hv _ _)
  dequeVictim := (Function.update_of_ne hvw _ _).trans
    ((Function.update_self _ _ _).trans (by rw [hdeque]; rfl))
  dequeThief := Function.update_self _ _ _
  deque := fun w' hw hv => (Function.update_of_ne hw _ _).trans (Function.update_of_ne hv _ _)
  statusChild := (Function.update_of_ne (Ne.symm hne) _ _).trans (Function.update_self _ _ _)
  statusRes := Function.update_self _ _ _
  status := fun c hk hr _ => (Function.update_of_ne hr _ _).trans
    ((Function.update_of_ne hk _ _).trans (Function.update_of_ne hk _ _))
  calleeKept := fun h => absurd rfl h
  callee := fun c hk _ _ => Function.update_of_ne hk _ _
  childrenChild := (Function.update_of_ne (Ne.symm hne) _ _).trans (Function.update_self _ _ _)
  childHtChild := Function.update_self _ _ _
  promotedChild := (Function.update_of_ne (Ne.symm hne) _ _).trans (Function.update_self _ _ _)
  children := fun c hk hr => (Function.update_of_ne hr _ _).trans (Function.update_of_ne hk _ _)
  childHt := fun c hk _ => Function.update_of_ne hk _ _
  promoted := fun c hk hr => (Function.update_of_ne hr _ _).trans (Function.update_of_ne hk _ _)
  stolenFrame := hstolen
  stolen := fun _ _ => rfl
  unsynchedFrame := Function.update_self _ _ _
  unsynched := fun g hg => Function.update_of_ne hg _ _
  stealsFrame := by
    have hself : (s.stealOwn w victim cl f above []).steals f =
        s.steals f ++ [(s.fiber cl, s.sp f)] :=
      Function.update_self _ _ _
    simp [hself]
  steals := fun g hg => Function.update_of_ne hg _ _
  code := rfl
  numFrames := rfl
  detached := rfl
  reduction := rfl
  good := rfl

theorem Splits.called {w victim : WorkerId} {cl : ClosureId} {f : FrameId}
    {parents : List FrameId} (above below : List FrameId) (hne : cl ≠ s.numClosures)
    (hne' : cl ≠ s.numClosures + 1)
    (hvw : victim ≠ w) (hdeque : s.deque victim = f :: parents) :
    Splits s (s.stealCalled w victim cl f above below) w victim cl (s.numClosures + 1) s.numClosures
      f parents above below where
  live := by
    intro c hc
    by_cases hk : c = s.numClosures + 1
    · exact .inl hk
    · by_cases hr : c = s.numClosures
      · exact .inr (.inl hr)
      · refine .inr (.inr ⟨hk, hr, ?_⟩)
        rw [← hc]
        exact ((Function.update_of_ne hk _ _).trans (Function.update_of_ne hr _ _)).symm
  stackChild := Function.update_self _ _ _
  stackRes := (Function.update_of_ne (Nat.ne_of_lt (Nat.lt_succ_self _)) _ _).trans
    (Function.update_self _ _ _)
  stackKept := fun _ => (Function.update_of_ne hne' _ _).trans
    ((Function.update_of_ne hne _ _).trans ((Function.update_of_ne hne' _ _).trans
      (Function.update_self _ _ _)))
  stack := fun c hk hr hcl => (Function.update_of_ne hk _ _).trans
    ((Function.update_of_ne hr _ _).trans ((Function.update_of_ne hk _ _).trans
      ((Function.update_of_ne hcl _ _).trans (Function.update_of_ne hr _ _))))
  frameChild := Function.update_self _ _ _
  frameRes := (Function.update_of_ne (Nat.ne_of_lt (Nat.lt_succ_self _)) _ _).trans
    (Function.update_self _ _ _)
  frame := fun c hk hr => (Function.update_of_ne hk _ _).trans (Function.update_of_ne hr _ _)
  phaseVictim := (Function.update_of_ne hvw _ _).trans (Function.update_self _ _ _)
  phaseThief := Function.update_self _ _ _
  phase := fun w' hw hv => (Function.update_of_ne hw _ _).trans (Function.update_of_ne hv _ _)
  dequeVictim := (Function.update_of_ne hvw _ _).trans
    ((Function.update_self _ _ _).trans (by
      show (s.deque victim).tail = parents
      rw [hdeque]
      rfl))
  dequeThief := Function.update_self _ _ _
  deque := fun w' hw hv => (Function.update_of_ne hw _ _).trans (Function.update_of_ne hv _ _)
  statusChild := (Function.update_of_ne (Nat.ne_of_gt (Nat.lt_succ_self _)) _ _).trans
    (Function.update_self _ _ _)
  statusRes := Function.update_self _ _ _
  status := fun c hk hr hcl => (Function.update_of_ne hr _ _).trans
    ((Function.update_of_ne hk _ _).trans ((Function.update_of_ne hk _ _).trans
      ((Function.update_of_ne hcl _ _).trans ((Function.update_of_ne hr _ _).trans
        (Function.update_of_ne hr _ _)))))
  calleeKept := fun _ => by
    have hself : (s.stealCalled w victim cl f above below).callee cl = some s.numClosures :=
      (Function.update_of_ne hne' _ _).trans (Function.update_self _ _ _)
    simp [hself]
  callee := fun c hk hr hcl => (Function.update_of_ne hk _ _).trans
    ((Function.update_of_ne hcl _ _).trans (Function.update_of_ne hr _ _))
  childrenChild := (Function.update_of_ne (Nat.ne_of_gt (Nat.lt_succ_self _)) _ _).trans
    (Function.update_self _ _ _)
  childHtChild := Function.update_self _ _ _
  promotedChild := (Function.update_of_ne (Nat.ne_of_gt (Nat.lt_succ_self _)) _ _).trans
    (Function.update_self _ _ _)
  children := fun c hk hr => (Function.update_of_ne hr _ _).trans
    ((Function.update_of_ne hk _ _).trans (Function.update_of_ne hr _ _))
  promoted := fun c hk hr => (Function.update_of_ne hr _ _).trans
    ((Function.update_of_ne hk _ _).trans (Function.update_of_ne hr _ _))
  childHt := fun c hk hr => (Function.update_of_ne hk _ _).trans (Function.update_of_ne hr _ _)
  stolenFrame := Function.update_self _ _ _
  stolen := fun g hg => Function.update_of_ne hg _ _
  unsynchedFrame := Function.update_self _ _ _
  unsynched := fun g hg => Function.update_of_ne hg _ _
  stealsFrame := by
    have hself : (s.stealCalled w victim cl f above below).steals f =
      s.steals f ++ [(s.fiber cl, s.sp f)] := Function.update_self _ _ _
    simp [hself]
  steals := fun g hg => Function.update_of_ne hg _ _
  code := rfl
  numFrames := rfl
  detached := rfl
  reduction := rfl
  good := rfl

/-- The frame of a closure is its oldest one, so a steal of it leaves nothing below. -/
theorem FrameInv.splits_own (hl : LinksInv s) (hh : HoldInv s) (hf : FrameInv s)
    {w victim : WorkerId} {cl : ClosureId} {f : FrameId} {parents above below : List FrameId}
    (hw : s.phase w = .stealing) (hvictim : s.phase victim = .running cl)
    (hdeque : s.deque victim = f :: parents) (hstack : s.stack cl = above ++ f :: below)
    (hframe : s.frame cl = some f) : below = [] ∧
      Splits s (s.stealOwn w victim cl f above []) w victim cl s.numClosures cl f parents above []
    := by
  have hheld : (s.phase victim).closure = some cl := by rw [hvictim]; rfl
  have hlive := hh.live victim cl hheld
  have hvw : victim ≠ w := by
    rintro rfl
    rw [hw] at hvictim
    cases hvictim
  have hbelow : below = [] := by
    obtain ⟨a, ha⟩ := hf.bottom cl f hlive hframe
    have hnodup := hf.nodup cl hlive
    rw [hstack] at hnodup
    exact (nodup_split hnodup (hstack.symm.trans ha)).2
  have hstolen : s.stolen f := by
    rcases hf.full cl f hlive hframe with h | h | ⟨w', hw'⟩
    · exact h
    · rw [hf.user hh hvictim (by rw [hstack]; simp)] at h
      cases h
    · have hsame := hh.unique w' victim cl (by rw [hw']; rfl) hheld
      subst hsame
      rw [hw'] at hvictim
      cases hvictim
  exact ⟨hbelow, Splits.own (hl.ne_fresh hlive) hvw hdeque hframe hstolen⟩

theorem FrameInv.stealOwn (hl : LinksInv s) (hh : HoldInv s) (hf : FrameInv s)
    {w victim : WorkerId} {cl : ClosureId} {f : FrameId} {parents above below : List FrameId}
    (hw : s.phase w = .stealing) (hvictim : s.phase victim = .running cl)
    (hdeque : s.deque victim = f :: parents) (hstack : s.stack cl = above ++ f :: below)
    (hframe : s.frame cl = some f) : FrameInv (s.stealOwn w victim cl f above below) := by
  obtain ⟨rfl, hsplits⟩ := hf.splits_own hl hh hw hvictim hdeque hstack hframe
  exact hf.steal hh hsplits hw hvictim hdeque hstack hl.fresh (.inl ⟨rfl, hframe⟩)

/-- A stolen spawn helper becomes the frame of its closure. -/
theorem FrameInv.promoteHelper (hh : HoldInv s) (hf : FrameInv s) {victim : WorkerId}
    {cl : ClosureId} {f : FrameId} {parents above below : List FrameId}
    (hvictim : s.phase victim = .running cl) (hdeque : s.deque victim = f :: parents)
    (hstack : s.stack cl = above ++ f :: below) (hdetached : s.detached f = true) :
    FrameInv (s.promoteHelper cl f) := by
  have hheld : (s.phase victim).closure = some cl := by rw [hvictim]; rfl
  have hlive := hh.live victim cl hheld
  have huser := hf.user hh hvictim (f := f) (by rw [hstack]; simp)
  obtain rfl : below = [] :=
    eq_nil_of_spawners_nil (hf.victim hh hvictim hdeque hstack).2.1 hdetached
  have hmem : f ∈ s.stack cl := by rw [hstack]; simp
  have hother : ∀ w' c', (s.phase w' = .scheduled c' ∨ s.phase w' = .reducing c' ∨
      s.phase w' = .returning c') → c' ≠ cl := fun w' c' h => hh.running_ne hvictim h
  have hnot := hh.not_suspended hheld
  have hsame : ∀ g, s.frame cl = some g → g = f := by
    intro g hg
    obtain ⟨a, ha⟩ := hf.bottom cl g hlive hg
    obtain ⟨-, hgf⟩ := List.append_inj' (hstack.symm.trans ha) rfl
    simpa using hgf.symm
  exact { hf with
    bottom := by
      intro c g hc hg
      by_cases hcl : c = cl
      · subst hcl
        obtain rfl : f = g := by simpa [Runtime.promoteHelper] using hg
        exact ⟨above, hstack⟩
      · exact hf.bottom c g hc (by simpa [Runtime.promoteHelper, hcl] using hg)
    helper := by
      intro c hc hg
      by_cases hcl : c = cl
      · simp [Runtime.promoteHelper, hcl] at hg
      · exact hf.helper c hc (by simpa [Runtime.promoteHelper, hcl] using hg)
    own := by
      intro c g hc hg hflags
      by_cases hgf : g = f
      · subst hgf
        have hcl := hf.disjoint c cl g hc hlive hg hmem
        simp [Runtime.promoteHelper, hcl]
      · have hown := hf.own c g hc hg (by simpa [Runtime.promoteHelper, hgf] using hflags)
        have hcl : c ≠ cl := by
          rintro rfl
          exact hgf (hsame g hown)
        simpa [Runtime.promoteHelper, hcl] using hown
    full := by
      intro c g hc hg
      by_cases hcl : c = cl
      · subst hcl
        obtain rfl : f = g := by simpa [Runtime.promoteHelper] using hg
        exact .inl (by simp [Runtime.promoteHelper])
      · have hg : s.frame c = some g := by simpa [Runtime.promoteHelper, hcl] using hg
        refine (hf.full c g hc hg).imp_left fun h => ?_
        by_cases hgf : g = f
        · simp [Runtime.promoteHelper, hgf]
        · simpa [Runtime.promoteHelper, hgf] using h
    single := by
      intro w' c hc
      simpa [Runtime.promoteHelper, hother w' c hc] using hf.single w' c hc
    parked := by
      intro c hc hstatus hcallee
      have hcl : c ≠ cl := by
        rintro rfl
        exact hnot hstatus
      simpa [Runtime.promoteHelper, hcl] using hf.parked c hc hstatus hcallee
    reducing := by
      intro c g hc hg hred
      by_cases hcl : c = cl
      · subst hcl
        obtain rfl : f = g := by simpa [Runtime.promoteHelper] using hg
        have hred' : s.reduction f = true := hred
        rw [huser] at hred'
        cases hred'
      · exact hf.reducing c g hc (by simpa [Runtime.promoteHelper, hcl] using hg) hred
    fresh := by
      intro w' c g hc hgood hg
      have hcl := hother w' c (.inl hc)
      exact hf.fresh w' c g hc hgood (by simpa [Runtime.promoteHelper, hcl] using hg)
    returning := by
      intro w' c g hc hg
      have hcl := hother w' c (.inr (.inr hc))
      exact hf.returning w' c g hc (by simpa [Runtime.promoteHelper, hcl] using hg)
    synched := by
      intro c hc h
      obtain ⟨g, hg, hunsynched⟩ := hf.synched c hc h
      by_cases hcl : c = cl
      · subst hcl
        exact ⟨f, by simp [Runtime.promoteHelper], hsame g hg ▸ hunsynched⟩
      · exact ⟨g, by simpa [Runtime.promoteHelper, hcl] using hg, hunsynched⟩ }

theorem FrameInv.stealCalled (hl : LinksInv s) (hh : HoldInv s) (hf : FrameInv s)
    {w victim : WorkerId} {cl : ClosureId} {f : FrameId} {parents above below : List FrameId}
    (hw : s.phase w = .stealing) (hvictim : s.phase victim = .running cl)
    (hdeque : s.deque victim = f :: parents) (hstack : s.stack cl = above ++ f :: below)
    (hframe : s.frame cl ≠ some f) (hdetached : s.detached f = false) :
    FrameInv (s.stealCalled w victim cl f above below) := by
  have hlive := hh.live victim cl (by rw [hvictim]; rfl)
  have hlt := hl.bound cl hlive
  have hvw : victim ≠ w := by
    rintro rfl
    rw [hw] at hvictim
    cases hvictim
  have hk : ¬ s.live (s.numClosures + 1) := fun h =>
    Nat.not_lt_of_gt (Nat.lt_succ_self _) (hl.bound _ h)
  have hsplits := Splits.called above below (Nat.ne_of_lt hlt)
    (Nat.ne_of_lt (Nat.lt_succ_of_lt hlt)) hvw hdeque
  exact hf.steal hh hsplits hw hvictim hdeque hstack hk
    (.inr ⟨hl.fresh, Nat.ne_of_lt (Nat.lt_succ_self _), hframe, hdetached⟩)

theorem frameInv_initial (code : Code κ V) (table : Option (ViewMap κ V)) :
    FrameInv (initialRuntime code table) := by
  have hroot : ∀ c, (initialRuntime code table).live c → c = 0 := fun c hc => of_decide_eq_true hc
  have hphase : ∀ w c, ((initialRuntime code table).phase w).closure = some c → w = 0 ∧ c = 0 := by
    intro w c hc
    by_cases hw : w = 0
    · subst hw
      exact ⟨rfl, (Option.some.inj hc).symm⟩
    · simp [initialRuntime, hw, Phase.closure] at hc
  constructor
  case bound =>
    intro c f hc hf
    obtain rfl := hroot c hc
    obtain rfl : f = 0 := by simpa [initialRuntime] using hf
    exact Nat.one_pos
  case nodup =>
    intro c hc
    obtain rfl := hroot c hc
    exact List.nodup_singleton 0
  case disjoint =>
    intro c c' f hc hc' _ _
    rw [hroot c hc, hroot c' hc']
  case bottom =>
    intro c f hc hf
    obtain rfl := hroot c hc
    exact ⟨[], by rw [← Option.some.inj hf]; rfl⟩
  case helper =>
    intro c hc hf
    obtain rfl := hroot c hc
    cases hf
  case own =>
    intro c f hc hf _
    obtain rfl := hroot c hc
    obtain rfl : f = 0 := by simpa [initialRuntime] using hf
    rfl
  case full =>
    intro c f hc hf
    obtain rfl := hroot c hc
    obtain rfl := Option.some.inj hf
    exact .inl rfl
  case deque =>
    intro w c hc
    obtain ⟨rfl, rfl⟩ := hphase w c hc
    rfl
  case waiting | parked =>
    intro c hc hs
    obtain rfl := hroot c hc
    cases hs
  case single =>
    intro w c hc
    obtain ⟨rfl, rfl⟩ := hphase w c (by rcases hc with h | h | h <;> rw [h] <;> rfl)
    exact ⟨0, rfl, rfl⟩
  case reducing =>
    intro c f _ _ hred
    cases hred
  case done =>
    intro f hred
    cases hred
  case fresh =>
    intros
    rfl
  case returning =>
    intro w c f hc
    by_cases hw : w = 0
    · subst hw
      cases hc
    · simp [initialRuntime, hw] at hc
  case steals => exact fun f => iff_of_false Bool.false_ne_true fun h => h rfl
  case synched =>
    intro c _ h
    rcases h with h | h | h <;> exact absurd rfl h

/-- The strand of a frame goes on. -/
theorem FrameInv.strand (hh : HoldInv s) (hf : FrameInv s) {w : WorkerId} {t : ClosureId}
    {f : FrameId} {below : List FrameId} (hw : s.phase w = .running t)
    (hstack : s.stack t = f :: below) (code : Code κ V) (g : FrameId) (hg : s.reduction g) :
    update s.code f code g = s.code g := by
  have huser := hf.user hh hw (f := f) (by rw [hstack]; simp)
  apply Function.update_of_ne
  rintro rfl
  rw [huser] at hg
  cases hg

/-- A closure that passed its sync goes on to the reductions. -/
theorem FrameInv.reduce (hf : FrameInv s) (hh : HoldInv s) {w : WorkerId} {t : ClosureId}
    (hw : s.phase w = .running t) (hsingle : ∃ f, s.frame t = some f ∧ s.stack t = [f])
    (ht : WorkerId → Option (ViewMap κ V)) :
    FrameInv { s with lht := ht, phase := update s.phase w (.reducing t) } :=
  hf.move hh ⟨⟨rfl, rfl, rfl, rfl, rfl, rfl⟩, rfl, rfl, rfl, rfl, rfl, rfl⟩ hw rfl (by simp) hsingle
    (.inr (.inl rfl)) rfl (fun _ h => h) (by simp) (by simp) (fun _ _ => rfl) (fun _ _ => rfl)
    (.inl rfl) (fun _ h => h)

theorem childHt_setLeftHt {parent child c : ClosureId} (hc : c ≠ parent)
    (table : Option (ViewMap κ V)) : (s.setLeftHt parent child table).childHt c = s.childHt c := by
  simp only [Runtime.setLeftHt]
  split
  · exact Function.update_of_ne hc _ _
  · rfl

theorem childHt_clear {parent child c : ClosureId}
    (h : (s.setLeftHt parent child none).childHt c ≠ none) : s.childHt c ≠ none := by
  by_cases hc : c = parent
  · subst hc
    by_cases hleft : s.leftSib child = none
    · simp [Runtime.setLeftHt, hleft] at h
    · simpa [Runtime.setLeftHt, hleft] using h
  · rwa [childHt_setLeftHt hc] at h

theorem SameFlags.returnChild (w : WorkerId) (parent t : ClosureId) :
    SameFlags s (s.returnChild w parent t) := by
  cases s
  exact ⟨rfl, rfl, rfl, rfl, rfl, rfl⟩

theorem returnChild_same (w : WorkerId) (parent t : ClosureId) :
    (s.returnChild w parent t).code = s.code ∧
      (s.returnChild w parent t).provablyGoodSteal = s.provablyGoodSteal ∧
      (s.returnChild w parent t).deque = s.deque ∧
      (s.returnChild w parent t).callee = s.callee ∧
      (s.returnChild w parent t).frame = s.frame ∧
      (s.returnChild w parent t).promoted = s.promoted := by
  cases s
  exact ⟨rfl, rfl, rfl, rfl, rfl, rfl⟩

theorem FrameInv.returnChild (hl : LinksInv s) (hh : HoldInv s) (hf : FrameInv s) {w : WorkerId}
    {t parent : ClosureId} (hw : s.phase w = .returning t)
    (hparent : s.spawnParent t = some parent) : FrameInv (s.returnChild w parent t) := by
  obtain ⟨hlive, hp, hmem, hne⟩ := hl.parent hh hf hw hparent
  obtain ⟨hcode, hgood, hdeque, hcallee, hframe, hpromoted⟩ := returnChild_same (s := s) w parent t
  refine hf.leave hh (SameFlags.returnChild w parent t) (by rw [hw]; rfl) (by simp [hw]) hcode hgood
    hdeque rfl rfl (fun c _ => congrFun hframe c) rfl (fun c hc => Function.update_of_ne hc _ _)
    hcallee ?_
  intro c hc h
  by_cases hcp : c = parent
  · subst hcp
    exact .inl (List.ne_nil_of_mem hmem)
  · have hchildren : (s.returnChild w parent t).children c = s.children c :=
      Function.update_of_ne hcp _ _
    have hchildHt : (s.returnChild w parent t).childHt c = s.childHt c :=
      childHt_setLeftHt hcp _
    rwa [hchildren, hchildHt, hpromoted] at h

/-- The worker that returned the last child takes the parent to its sync. -/
theorem FrameInv.resumeParent (hl : LinksInv s) (hh : HoldInv s) (hf : FrameInv s) {w : WorkerId}
    {t parent : ClosureId} (hw : s.phase w = .returning t)
    (hparent : s.spawnParent t = some parent)
    (hsteal : s.joinCounter parent = 1 ∧ s.status parent = .suspended) :
    FrameInv ((s.returnChild w parent t).resumeParent w parent) := by
  obtain ⟨hlive, hp, hmem, hne⟩ := hl.parent hh hf hw hparent
  obtain ⟨hcode, hgood, hdeque, hcallee, hframe, hpromoted⟩ := returnChild_same (s := s) w parent t
  obtain ⟨hlast, hnone⟩ := hl.last_child hp hmem hsteal.1
  obtain ⟨f, hf', hstack⟩ := hf.parked parent hp hsteal.2 hnone
  have hheld : (s.phase w).closure = some t := by rw [hw]; rfl
  have hret := hf.returnChild hl hh hw hparent
  have hfree : ∀ w', (s.phase w').closure ≠ some parent := fun w' h =>
    hh.not_suspended h hsteal.2
  generalize hs' : s.returnChild w parent t = r at *
  have hlive' : r.live parent := by
    rw [← hs', ← hp]
    exact Function.update_of_ne hne _ _
  have hchildren : r.children parent = [] := by
    rw [← hs', ← List.erase_cons_head (a := t) (l := []), ← hlast]
    exact Function.update_self _ _ _
  have hphase : r.phase = update s.phase w .stealing := by
    rw [← hs']
    rfl
  have hsync := hret.sync hlive' (by rw [hframe, hf']) hchildren
  have hstatus : r.status parent = .suspended := by
    rw [← hs', ← hsteal.2]
    exact Function.update_of_ne hne _ _
  have hfree' : ∀ w', (r.phase w').closure ≠ some parent := by
    intro w' h
    rw [hphase] at h
    by_cases hw' : w' = w
    · simp [hw', Phase.closure] at h
    · exact hfree w' (by simpa [hw'] using h)
  refine hsync.take ⟨rfl, rfl, rfl, rfl, rfl, rfl⟩ (w := w) (q := .scheduled parent)
    ((congrFun hphase w).trans (Function.update_self _ _ _)) (.inl rfl) hlive' hfree' hstatus
    (fun _ => (congrFun hcallee parent).trans hnone) rfl (fun _ => Function.update_self _ _ _)
    (fun w' hw' => Function.update_of_ne hw' _ _) (Function.update_self _ _ _)
    (fun w' hw' => Function.update_of_ne hw' _ _) rfl rfl rfl rfl rfl (fun _ _ => rfl) rfl rfl
    (fun _ h => h)

variable [DecidableEq κ] [Monoid V]

theorem FrameInv.step (hl : LinksInv s) (hh : HoldInv s) (hf : FrameInv s) (hs : SchedStep s s') :
    FrameInv s' := by
  cases hs with
  | @update w t f below reducer u rest hw hstack hcode =>
    exact { hf with
      done := fun g hg => ⟨(hf.strand hh hw hstack rest g hg).trans (hf.done g hg).1,
        (hf.done g hg).2⟩ }
  | @enterFrame w t f below callee rest hw hstack hcode =>
    exact hf.push hh hw hstack callee false (hf.strand hh hw hstack rest) (by simp)
  | @detach w t f below child rest rsp hw hstack hcode =>
    exact hf.push hh hw hstack child true (hf.strand hh hw hstack rest) rfl
  | @leaveFrame w t f below hw hstack hcode hsynched hdetached hlast hstolen =>
    have hlive := hh.live w t (by rw [hw]; rfl)
    have huser := hf.user hh hw (f := f) (by rw [hstack]; simp)
    have hspawners := hf.deque w t (by rw [hw]; rfl)
    have hbelow : below ≠ [] := by
      rintro rfl
      cases hframe : s.frame t with
      | none =>
        obtain ⟨above, g, habove, hg⟩ := hf.helper t hlive hframe
        obtain ⟨-, hfg⟩ := List.append_inj' (show [] ++ _ = _ from hstack.symm.trans habove) rfl
        obtain rfl : f = g := by simpa using hfg
        rw [hdetached] at hg
        cases hg
      | some g =>
        have hmem := hf.frame_mem hlive hframe
        rw [hstack, List.mem_singleton] at hmem
        subst hmem
        rcases hf.full t g hlive hframe with h | h | ⟨w', hw'⟩
        · rw [hstolen] at h
          cases h
        · rw [huser] at h
          cases h
        · have hsame := hh.unique w w' t (by rw [hw]; rfl) (by rw [hw']; rfl)
          subst hsame
          rw [hw] at hw'
          cases hw'
    refine hf.pop hh hw hstack hbelow (fun _ _ => rfl) ?_
    obtain ⟨g, rest, rfl⟩ := List.exists_cons_of_ne_nil hbelow
    rw [hstack, spawners_cons, hdetached] at hspawners
    rw [Function.eq_update_iff]
    exact ⟨by simpa using hspawners, fun _ _ => rfl⟩
  | @leaveFrameHelper w t f below parents parent hw hstack hcode hsynched hdetached hdeque =>
    have hspawners := hf.deque w t (by rw [hw]; rfl)
    rw [hdeque, hstack] at hspawners
    cases below with
    | nil => simp [spawners] at hspawners
    | cons g rest =>
      rw [spawners_cons, hdetached] at hspawners
      obtain ⟨hparents, -⟩ := List.append_inj' hspawners rfl
      exact hf.pop hh hw hstack (List.cons_ne_nil g rest) (fun g hg => Function.update_of_ne hg _ _)
        (by rw [hparents])
  | exceptionHandler hw hstack hcode hsynched hdetached hdeque =>
    exact hf.handle hh hw hstack hsynched hdetached hdeque
  | @syncFast w t f below rest hw hstack hcode hsynched =>
    exact { hf with
      done := fun g hg => ⟨(hf.strand hh hw hstack rest g hg).trans (hf.done g hg).1,
        (hf.done g hg).2⟩ }
  | suspendAtSync rsp hw hstack hcode hunsynched hchildren =>
    exact hf.suspend hh hw hstack hunsynched
  | @passSync w t f below rsp hw hstack hcode hunsynched hchildren =>
    have hlive := hh.live w t (by rw [hw]; rfl)
    obtain ⟨hframe, hsingle, huser⟩ := hf.at_sync hh hw hstack hunsynched
    have hnone := ((hl.join_zero hlive).mp hchildren).1
    have hsp : FrameInv { s with sp := update s.sp f rsp } := { hf with }
    have hsync := hsp.sync hlive hframe hnone
    have hreduce := FrameInv.reduce hsync { hh with } hw ⟨f, hframe, hsingle⟩
      (update s.lht w ((s.childHt t).or (s.lht w)))
    exact hreduce
  | @doReductions w t f hw hframe hreduction =>
    have hsingle := hf.single w t (.inr (.inl hw))
    refine hf.move hh ⟨⟨rfl, rfl, rfl, rfl, rfl, rfl⟩, rfl, rfl, rfl, rfl, rfl, rfl⟩ hw rfl
      (by simp) hsingle
      (.inr (.inr (.inr ⟨rfl, ?_⟩))) rfl (fun _ h => h) (by simp) (by simp) (fun _ _ => rfl) ?_
      (.inl rfl) (fun _ h => h)
    · intro g hg
      rw [← Option.some.inj (hframe.symm.trans hg), hreduction]
    · intro g hg
      apply Function.update_of_ne
      rintro rfl
      rw [hreduction] at hg
      cases hg
  | @doReductionsForReturn w t f hw hframe hreduction =>
    have hsingle := hf.single w t (.inr (.inl hw))
    refine hf.move hh ⟨⟨rfl, rfl, rfl, rfl, rfl, rfl⟩, rfl, rfl, rfl, rfl, rfl, rfl⟩ hw rfl
      (by simp) hsingle
      (.inr (.inr (.inl rfl))) rfl ?_ ?_ (by simp) (fun _ _ => rfl) (fun _ _ => rfl)
      (.inl rfl) (fun _ h => h)
    · intro c hc
      by_cases hct : c = t
      · simp [hct] at hc
      · simpa [hct] using hc
    · intro _ g hg
      rw [← Option.some.inj (hframe.symm.trans hg), hreduction]
  | @stealStolen w victim cl f parents above below hw hvictim hdeque hstack hframe =>
    exact hf.stealOwn hl hh hw hvictim hdeque hstack hframe
  | @stealHelper w victim cl f parents above below hw hvictim hdeque hstack hframe hdetached =>
    have hpromoted := hf.promoteHelper hh hvictim hdeque hstack hdetached
    exact FrameInv.stealOwn (s := s.promoteHelper cl f) { hl with } { hh with } hpromoted hw hvictim
      hdeque hstack (Function.update_self _ _ _)
  | stealCalled hw hvictim hdeque hstack hframe hdetached =>
    exact hf.stealCalled hl hh hw hvictim hdeque hstack hframe hdetached
  | @resumeStolen w t f rsp hw hframe hsteal =>
    exact hf.move hh ⟨⟨rfl, rfl, rfl, rfl, rfl, rfl⟩, rfl, rfl, rfl, rfl, rfl, rfl⟩ hw rfl (by simp)
      (hf.single w t (.inl hw)) (.inr (.inr (.inr ⟨rfl, fun g hg => hf.fresh w t g hw hsteal hg⟩)))
      rfl (fun _ h => h) (by simp) (by simp) (fun _ _ => rfl) (fun _ _ => rfl) (.inl rfl)
      (fun _ h => h)
  | @resumeSync w t hw hsteal =>
    exact hf.move hh ⟨⟨rfl, rfl, rfl, rfl, rfl, rfl⟩, rfl, rfl, rfl, rfl, rfl, rfl⟩ hw rfl (by simp)
      (hf.single w t (.inl hw)) (.inr (.inl rfl))
      rfl (fun _ h => h) (by simp) (by simp) (fun w' hw' => Function.update_of_ne hw' _ _)
      (fun _ _ => rfl) (.inl rfl) (fun _ h => h)
  | @takeTables w t parent hw hparent htables =>
    refine hf.move hh ⟨⟨rfl, rfl, rfl, rfl, rfl, rfl⟩, rfl, rfl, rfl, rfl, rfl, rfl⟩ hw rfl
      (by simp)
      (hf.single w t (.inr (.inr hw))) (.inl rfl) rfl ?_ (by simp)
      (fun _ => Function.update_self _ _ _) (fun w' hw' => Function.update_of_ne hw' _ _)
      (fun _ _ => rfl) (.inr rfl) ?_
    · intro c hc
      by_cases hct : c = t
      · subst hct
        have hself : (s.takeTables w parent c).status c = .running := Function.update_self _ _ _
        rw [hself] at hc
        cases hc
      · rw [← hc]
        exact (Function.update_of_ne hct _ _).symm
    · exact fun c hc => childHt_clear hc
  | returnChild hw hparent hleft hright hsteal => exact hf.returnChild hl hh hw hparent
  | resumeParent hw hparent hleft hright hsteal => exact hf.resumeParent hl hh hw hparent hsteal
  | @setReturn w t f below parent hw hstack hcode hsynched hdetached hlast hstolen hparent =>
    have hheld : (s.phase w).closure = some t := by rw [hw]; rfl
    have hlive := hh.live w t hheld
    have hp := hl.caller t parent hlive hparent
    have hcallee := (hl.called parent t hp).mpr ⟨hlive, hparent⟩
    have hown := hf.own t f hlive (by rw [hstack]; simp) (.inl hstolen)
    have hfree : ∀ w', (s.phase w').closure ≠ some parent := by
      intro w' hw'
      rw [hh.callee w' parent hw'] at hcallee
      cases hcallee
    have hne : parent ≠ t := by
      rintro rfl
      exact hfree w hheld
    have hsuspended := (hh.waiting parent hp hfree).1
    have hleave : FrameInv { s.destroyClosure t with
        frame := update s.frame t none
        phase := update s.phase w .stealing } :=
      hf.leave hh ⟨rfl, rfl, rfl, rfl, rfl, rfl⟩ hheld (by simp [hw]) rfl rfl rfl rfl rfl
        (fun c hc => Function.update_of_ne hc _ _) rfl
        (fun c hc => Function.update_of_ne hc _ _) rfl
        (fun _ _ h => h)
    have hempty : s.deque w = [] := by
      obtain ⟨above, habove⟩ := hf.bottom t f hlive hown
      have hnodup := hf.nodup t hlive
      rw [hstack] at hnodup
      obtain ⟨-, hbelow⟩ := nodup_split hnodup (show [] ++ _ = _ from hstack.symm.trans habove)
      rw [hf.deque w t hheld, hstack, hbelow]
      rfl
    have hfree' : ∀ w', (update s.phase w .stealing w').closure ≠ some parent := by
      intro w' h
      by_cases hw' : w' = w
      · simp [hw', Phase.closure] at h
      · exact hfree w' (by simpa [hw'] using h)
    exact hleave.take ⟨rfl, rfl, rfl, rfl, rfl, rfl⟩ (w := w) (t := parent) (q := .running parent)
      (Function.update_self _ _ _) (.inr rfl) ((Function.update_of_ne hne _ _).trans hp) hfree'
      ((Function.update_of_ne hne _ _).trans hsuspended) (by simp) rfl (by simp) (fun _ _ => rfl)
      hempty (fun _ _ => rfl) rfl rfl rfl (Function.update_idem _ _ _).symm rfl
      (fun c hc => Function.update_of_ne hc _ _) rfl rfl (fun _ h => h)
  | exitRoot hw hstack hcode hsynched hlast => exact hf.exit hh hw hstack

end Steals

end Cheetah
