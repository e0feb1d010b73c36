import Mathlib.Algebra.BigOperators.Intervals
import Cheetah.CactusRuns

/-! How many sections a region can take: each step is paid for by what the closures have left. -/
namespace Cheetah
open Function (update)

/-- A sum over the allocated indices changes by what changes in a finite set of them. -/
theorem sum_range_changed {f g : ℕ → ℕ} {m n : ℕ} (S : Finset ℕ) (hmn : m ≤ n)
    (hout : ∀ c, m ≤ c → f c = 0) (hS : ∀ c ∈ S, c < n) (hsame : ∀ c, c ∉ S → g c = f c) :
    ∑ c ∈ Finset.range n, g c + ∑ c ∈ S, f c = ∑ c ∈ Finset.range m, f c + ∑ c ∈ S, g c := by
  have hsub : S ⊆ Finset.range n := fun c hc => Finset.mem_range.mpr (hS c hc)
  have hgrow : ∑ c ∈ Finset.range m, f c = ∑ c ∈ Finset.range n, f c := by
    apply Finset.sum_subset (Finset.range_subset_range.mpr hmn)
    intro c _ hc
    exact hout c (Nat.le_of_not_lt fun h => hc (Finset.mem_range.mpr h))
  have hrest : ∑ c ∈ Finset.range n \ S, g c = ∑ c ∈ Finset.range n \ S, f c := by
    apply Finset.sum_congr rfl
    intro c hc
    exact hsame c (Finset.mem_sdiff.mp hc).2
  rw [hgrow, ← Finset.sum_sdiff hsub, ← Finset.sum_sdiff hsub (f := f), hrest]
  omega

variable {κ V : Type}

/-- The updates, spawns, calls, syncs and returns of a computation. -/
def Code.size : Code κ V → ℕ
  | .done => 1
  | .update _ _ rest => rest.size + 1
  | .spawn child rest => child.size + rest.size + 1
  | .call callee rest => callee.size + rest.size + 1
  | .sync rest => rest.size + 1

theorem Code.size_pos (code : Code κ V) : 0 < code.size := by
  cases code <;> exact Nat.succ_pos _

theorem Code.size_afterSync (code : Code κ V) : code.afterSync.size ≤ code.size := by
  cases code with
  | sync rest => exact Nat.le_succ _
  | _ => exact Nat.le_refl _

/-- The sections before the closure of a worker is in user code again, or gone. -/
def Phase.credit : Phase → ℕ
  | .stealing | .exited _ => 0
  | .returning _ => 1
  | .running _ => 2
  | .reducing _ => 3
  | .scheduled _ => 4

namespace Runtime

variable (s : Runtime κ V)

def frameCredit (f : FrameId) : ℕ := 9 * (s.code f).size + if s.unsynched f then 2 else 0

/-- What the frames of a closure pay for: their code, a sync after a steal, and a steal of each
frame that has spawned. -/
def stackCredit (c : ClosureId) : ℕ :=
  ((s.stack c).map s.frameCredit).sum + 8 * (spawners s.detached (s.stack c)).length

def tableCredit (c : ClosureId) : ℕ :=
  (if (s.childHt c).isSome then 4 else 0) + if (s.rightHt c).isSome then 4 else 0

open Classical in
noncomputable def holdCredit (c : ClosureId) : ℕ :=
  if h : ∃ w, (s.phase w).closure = some c then (s.phase h.choose).credit else 0

noncomputable def closureCredit (c : ClosureId) : ℕ :=
  if s.live c then s.stackCredit c + s.tableCredit c + s.holdCredit c else 0

noncomputable def credit : ℕ := ∑ c ∈ Finset.range s.numClosures, s.closureCredit c

end Runtime

section Credit

variable {s s' : Runtime κ V}

theorem HoldInv.holdCredit_held (hh : HoldInv s) {w : WorkerId} {c : ClosureId}
    (hw : (s.phase w).closure = some c) : s.holdCredit c = (s.phase w).credit := by
  have hex : ∃ w, (s.phase w).closure = some c := ⟨w, hw⟩
  rw [Runtime.holdCredit, dif_pos hex, hh.unique _ w c hex.choose_spec hw]

theorem holdCredit_free {c : ClosureId} (hc : ∀ w, (s.phase w).closure ≠ some c) :
    s.holdCredit c = 0 := by
  rw [Runtime.holdCredit, dif_neg]
  exact fun ⟨w, hw⟩ => hc w hw

/-- The workers that have to do with a closure keep their phase. -/
theorem HoldInv.holdCredit_congr (hh : HoldInv s) (hh' : HoldInv s') {c : ClosureId}
    (h : ∀ w, (s.phase w).closure = some c ∨ (s'.phase w).closure = some c →
      s'.phase w = s.phase w) : s'.holdCredit c = s.holdCredit c := by
  by_cases hex : ∃ w, (s.phase w).closure = some c
  · obtain ⟨w, hw⟩ := hex
    have hsame := h w (.inl hw)
    rw [hh.holdCredit_held hw, hh'.holdCredit_held (hsame ▸ hw), hsame]
  · rw [holdCredit_free fun w hw => hex ⟨w, hw⟩, holdCredit_free]
    intro w hw
    have hsame := h w (.inr hw)
    exact hex ⟨w, hsame ▸ hw⟩

/-- One worker changes its phase and keeps its closure. -/
theorem HoldInv.holdCredit_keep (hh : HoldInv s) (hh' : HoldInv s') {w : WorkerId} {t c : ClosureId}
    {q : Phase} (hw : (s.phase w).closure = some t) (hphase : s'.phase = update s.phase w q)
    (hq : ∀ d, q.closure = some d → d = t) (hct : c ≠ t) : s'.holdCredit c = s.holdCredit c := by
  apply hh.holdCredit_congr hh'
  intro w' h
  have hne : w' ≠ w := by
    rintro rfl
    rcases h with h | h
    · exact hct (Option.some.inj (h.symm.trans hw))
    · rw [hphase, Function.update_self] at h
      exact hct (hq c h)
  rw [hphase, Function.update_of_ne hne]

theorem stackCredit_congr {c : ClosureId} (hstack : s'.stack c = s.stack c)
    (hcode : ∀ f ∈ s.stack c, s'.code f = s.code f)
    (hunsynched : ∀ f ∈ s.stack c, s'.unsynched f = s.unsynched f)
    (hdetached : ∀ f ∈ s.stack c, s'.detached f = s.detached f) :
    s'.stackCredit c = s.stackCredit c := by
  have hframes : (s.stack c).map s'.frameCredit = (s.stack c).map s.frameCredit := by
    apply List.map_congr_left
    intro f hf
    rw [Runtime.frameCredit, hcode f hf, hunsynched f hf]
    rfl
  rw [Runtime.stackCredit, hstack, hframes, spawners_congr hdetached]
  rfl

theorem closureCredit_congr {c : ClosureId} (hlive : s'.live c = s.live c)
    (hstack : s'.stackCredit c = s.stackCredit c) (htables : s'.tableCredit c = s.tableCredit c)
    (hhold : s'.holdCredit c = s.holdCredit c) : s'.closureCredit c = s.closureCredit c := by
  rw [Runtime.closureCredit, hlive, hstack, htables, hhold]
  rfl

theorem closureCredit_live {c : ClosureId} (hc : s.live c) :
    s.closureCredit c = s.stackCredit c + s.tableCredit c + s.holdCredit c := if_pos hc

theorem closureCredit_dead {c : ClosureId} (hc : ¬ s.live c) : s.closureCredit c = 0 := if_neg hc

/-- The credit changes by what changes in a few closures. -/
theorem SchedInv.credit_changed (hi : SchedInv s) (S : Finset ClosureId)
    (hbound : s.numClosures ≤ s'.numClosures) (hS : ∀ c ∈ S, c < s'.numClosures)
    (hsame : ∀ c, c ∉ S → s'.closureCredit c = s.closureCredit c) :
    s'.credit + ∑ c ∈ S, s.closureCredit c = s.credit + ∑ c ∈ S, s'.closureCredit c := by
  apply sum_range_changed S hbound _ hS hsame
  intro c hc
  apply closureCredit_dead
  exact fun hlive => Nat.not_lt_of_le hc (hi.links.bound c hlive)

/-- A step that concerns one closure. -/
theorem SchedInv.credit_one (hi : SchedInv s) {t : ClosureId} (hlive : s.live t)
    (hbound : s'.numClosures = s.numClosures)
    (hsame : ∀ c, c ≠ t → s'.closureCredit c = s.closureCredit c)
    (hless : s'.closureCredit t < s.closureCredit t) : s'.credit < s.credit := by
  have hsum := hi.credit_changed {t} hbound.ge
    (fun c hc => by rw [Finset.mem_singleton.mp hc, hbound]; exact hi.links.bound t hlive)
    fun c hc => hsame c fun h => hc (Finset.mem_singleton.mpr h)
  rw [Finset.sum_singleton, Finset.sum_singleton] at hsum
  omega

/-- A step that concerns two closures. -/
theorem SchedInv.credit_two (hi : SchedInv s) {t p : ClosureId} (hne : t ≠ p) (ht : s.live t)
    (hp : s.live p) (hbound : s'.numClosures = s.numClosures)
    (hsame : ∀ c, c ≠ t → c ≠ p → s'.closureCredit c = s.closureCredit c)
    (hless : s'.closureCredit t + s'.closureCredit p < s.closureCredit t + s.closureCredit p) :
    s'.credit < s.credit := by
  have hsum := hi.credit_changed {t, p} hbound.ge
    (fun c hc => by
      rw [hbound]
      rcases Finset.mem_insert.mp hc with rfl | h
      · exact hi.links.bound c ht
      · exact Finset.mem_singleton.mp h ▸ hi.links.bound p hp)
    fun c hc => hsame c (fun h => hc (by simp [h])) fun h => hc (by simp [h])
  rw [Finset.sum_pair hne, Finset.sum_pair hne] at hsum
  omega

theorem sum_frameCredit_congr {l : List FrameId} (hcode : ∀ f ∈ l, s'.code f = s.code f)
    (hunsynched : ∀ f ∈ l, s'.unsynched f = s.unsynched f) :
    (l.map s'.frameCredit).sum = (l.map s.frameCredit).sum := by
  apply congrArg
  apply List.map_congr_left
  intro f hf
  rw [Runtime.frameCredit, hcode f hf, hunsynched f hf]
  rfl

/-- A worker changes its phase and the stack of its closure. -/
theorem SchedInv.credit_strand (hi : SchedInv s) (hi' : SchedInv s') {w : WorkerId}
    {t : ClosureId} {q : Phase} (hheld : (s.phase w).closure = some t)
    (hphase : s'.phase = update s.phase w q) (hq : ∀ d, q.closure = some d → d = t)
    (hlive : s'.live = s.live) (hbound : s'.numClosures = s.numClosures)
    (hstack : ∀ c, c ≠ t → s'.stack c = s.stack c)
    (hcode : ∀ f, f ∉ s.stack t → f ≠ s.numFrames → s'.code f = s.code f)
    (hunsynched : ∀ f, f ∉ s.stack t → f ≠ s.numFrames → s'.unsynched f = s.unsynched f)
    (hdetached : ∀ f, f ∉ s.stack t → f ≠ s.numFrames → s'.detached f = s.detached f)
    (htables : ∀ c, c ≠ t → s'.tableCredit c = s.tableCredit c)
    (hless : s'.stackCredit t + s'.tableCredit t + q.credit <
      s.stackCredit t + s.tableCredit t + (s.phase w).credit) : s'.credit < s.credit := by
  have hlivet := hi.hold.live w t hheld
  apply hi.credit_one hlivet hbound
  case hsame =>
    intro c hct
    by_cases hc : s.live c
    · have hother : ∀ f ∈ s.stack c, f ∉ s.stack t ∧ f ≠ s.numFrames := by
        intro f hf
        refine ⟨fun h => hct (hi.frames.disjoint c t f hc hlivet hf h), hi.new_frame hc hf⟩
      apply closureCredit_congr (congrFun hlive c) _ (htables c hct)
      · exact hi.hold.holdCredit_keep hi'.hold hheld hphase hq hct
      · apply stackCredit_congr (hstack c hct)
        · exact fun f hf => hcode f (hother f hf).1 (hother f hf).2
        · exact fun f hf => hunsynched f (hother f hf).1 (hother f hf).2
        · exact fun f hf => hdetached f (hother f hf).1 (hother f hf).2
    · rw [closureCredit_dead hc, closureCredit_dead (by rwa [hlive])]
  case hless =>
    have hhold : s'.holdCredit t ≤ q.credit := by
      by_cases hqt : q.closure = some t
      · have hw' : (s'.phase w).closure = some t := by rw [hphase, Function.update_self, hqt]
        rw [hi'.hold.holdCredit_held hw', hphase, Function.update_self]
      · rw [holdCredit_free]
        · exact Nat.zero_le _
        · intro w' hw'
          rw [hphase] at hw'
          by_cases hww : w' = w
          · rw [hww, Function.update_self] at hw'
            exact hqt hw'
          · rw [Function.update_of_ne hww] at hw'
            exact hww (hi.hold.unique w' w t hw' hheld)
    rw [closureCredit_live hlivet, closureCredit_live (by rwa [hlive]),
      hi.hold.holdCredit_held hheld]
    omega

/-- A worker changes its phase and nothing on the stacks. -/
theorem SchedInv.credit_phase (hi : SchedInv s) (hi' : SchedInv s') {w : WorkerId}
    {t : ClosureId} {q : Phase} (hheld : (s.phase w).closure = some t)
    (hphase : s'.phase = update s.phase w q) (hq : ∀ d, q.closure = some d → d = t)
    (hlive : s'.live = s.live) (hbound : s'.numClosures = s.numClosures)
    (hstack : s'.stack = s.stack) (hcode : s'.code = s.code)
    (hunsynched : s'.unsynched = s.unsynched) (hdetached : s'.detached = s.detached)
    (htables : s'.tableCredit = s.tableCredit) (hless : q.credit < (s.phase w).credit) :
    s'.credit < s.credit := by
  apply hi.credit_strand hi' hheld hphase hq hlive hbound
  case hstack => exact fun c _ => congrFun hstack c
  case hcode => exact fun g _ _ => congrFun hcode g
  case hunsynched => exact fun g _ _ => congrFun hunsynched g
  case hdetached => exact fun g _ _ => congrFun hdetached g
  case htables => exact fun c _ => congrFun htables c
  case hless =>
    have hsame : s'.stackCredit t = s.stackCredit t :=
      stackCredit_congr (congrFun hstack t) (fun g _ => congrFun hcode g)
        (fun g _ => congrFun hunsynched g) fun g _ => congrFun hdetached g
    rw [hsame, htables]
    omega

/-- A worker runs code of its youngest frame. -/
theorem SchedInv.credit_code (hi : SchedInv s) (hi' : SchedInv s') {w : WorkerId}
    {t : ClosureId} {q : Phase} {f : FrameId} {below : List FrameId} {code : Code κ V}
    (hheld : (s.phase w).closure = some t) (hstackt : s.stack t = f :: below)
    (hphase : s'.phase = update s.phase w q) (hq : ∀ d, q.closure = some d → d = t)
    (hlive : s'.live = s.live) (hbound : s'.numClosures = s.numClosures)
    (hstack : s'.stack = s.stack) (hcode : s'.code = update s.code f code)
    (hunsynched : s'.unsynched = s.unsynched) (hdetached : s'.detached = s.detached)
    (htables : s'.tableCredit = s.tableCredit)
    (hless : 9 * code.size + q.credit < 9 * (s.code f).size + (s.phase w).credit) :
    s'.credit < s.credit := by
  have hnodup := hi.frames.nodup t (hi.hold.live w t hheld)
  rw [hstackt, List.nodup_cons] at hnodup
  have hmem : f ∈ s.stack t := by rw [hstackt]; exact List.mem_cons_self
  apply hi.credit_strand hi' hheld hphase hq hlive hbound
  case hstack => exact fun c _ => congrFun hstack c
  case hcode =>
    intro g hg _
    rw [hcode]
    apply Function.update_of_ne
    rintro rfl
    exact hg hmem
  case hunsynched => exact fun g _ _ => congrFun hunsynched g
  case hdetached => exact fun g _ _ => congrFun hdetached g
  case htables => exact fun c _ => congrFun htables c
  case hless =>
    have hbelow : (below.map s'.frameCredit).sum = (below.map s.frameCredit).sum := by
      apply sum_frameCredit_congr _ fun g _ => congrFun hunsynched g
      intro g hg
      rw [hcode]
      apply Function.update_of_ne
      rintro rfl
      exact hnodup.1 hg
    rw [Runtime.stackCredit, Runtime.stackCredit, hstack, hdetached, htables, hstackt,
      List.map_cons, List.map_cons, List.sum_cons, List.sum_cons, hbelow, Runtime.frameCredit,
      Runtime.frameCredit, hunsynched, hcode, Function.update_self]
    omega

/-- A frame is entered, with part of the code of the one below. -/
theorem SchedInv.credit_push (hi : SchedInv s) (hi' : SchedInv s') {w : WorkerId}
    {t : ClosureId} {f : FrameId} {below : List FrameId} {code callee : Code κ V} {b : Bool}
    (hw : s.phase w = .running t) (hstackt : s.stack t = f :: below)
    (hphase : s'.phase = s.phase) (hlive : s'.live = s.live)
    (hbound : s'.numClosures = s.numClosures)
    (hstack : s'.stack = update s.stack t (s.numFrames :: f :: below))
    (hcode : s'.code = update (update s.code f code) s.numFrames callee)
    (hunsynched : s'.unsynched = update s.unsynched s.numFrames false)
    (hdetached : s'.detached = update s.detached s.numFrames b)
    (htables : s'.tableCredit = s.tableCredit)
    (hless : callee.size + code.size + 1 = (s.code f).size) : s'.credit < s.credit := by
  have hheld : (s.phase w).closure = some t := by rw [hw]; rfl
  have hlivet := hi.hold.live w t hheld
  have hnodup := hi.frames.nodup t hlivet
  rw [hstackt, List.nodup_cons] at hnodup
  have hmem : f ∈ s.stack t := by rw [hstackt]; exact List.mem_cons_self
  have hnew : ∀ g ∈ f :: below, g ≠ s.numFrames := by
    intro g hg
    rw [← hstackt] at hg
    exact hi.new_frame hlivet hg
  apply hi.credit_strand hi' hheld (hphase.trans (Function.update_eq_self w _).symm)
    (fun d h => Option.some.inj (h.symm.trans hheld)) hlive hbound
  case hstack =>
    intro c hct
    rw [hstack, Function.update_of_ne hct]
  case hcode =>
    intro g hg hgn
    rw [hcode, Function.update_of_ne hgn]
    apply Function.update_of_ne
    rintro rfl
    exact hg hmem
  case hunsynched =>
    intro g _ hgn
    rw [hunsynched, Function.update_of_ne hgn]
  case hdetached =>
    intro g _ hgn
    rw [hdetached, Function.update_of_ne hgn]
  case htables => exact fun c _ => congrFun htables c
  case hless =>
    have hbelow : (below.map s'.frameCredit).sum = (below.map s.frameCredit).sum := by
      apply sum_frameCredit_congr
      · intro g hg
        rw [hcode, Function.update_of_ne (hnew g (List.mem_cons_of_mem f hg))]
        apply Function.update_of_ne
        rintro rfl
        exact hnodup.1 hg
      · intro g hg
        rw [hunsynched, Function.update_of_ne (hnew g (List.mem_cons_of_mem f hg))]
    have hspawners : spawners s'.detached (f :: below) = spawners s.detached (f :: below) := by
      apply spawners_congr
      intro g hg
      rw [hdetached, Function.update_of_ne (hnew g hg)]
    have hdeque : (spawners s'.detached (s.numFrames :: f :: below)).length ≤
        (spawners s.detached (f :: below)).length + 1 := by
      rw [spawners_cons, hspawners, List.length_append]
      split <;> simp
    have hf := hnew f List.mem_cons_self
    have hnewCredit : s'.frameCredit s.numFrames = 9 * callee.size := by
      simp [Runtime.frameCredit, hcode, hunsynched]
    have hfCredit : s'.frameCredit f + 9 * (s.code f).size = s.frameCredit f + 9 * code.size := by
      rw [Runtime.frameCredit, Runtime.frameCredit, hcode, hunsynched, Function.update_of_ne hf,
        Function.update_self, Function.update_of_ne hf]
      omega
    rw [Runtime.stackCredit, Runtime.stackCredit, hstack, Function.update_self, hstackt, htables,
      List.map_cons, List.map_cons, List.map_cons, List.sum_cons, List.sum_cons, List.sum_cons,
      hbelow, hnewCredit]
    omega

/-- The youngest frame is left. -/
theorem SchedInv.credit_pop (hi : SchedInv s) (hi' : SchedInv s') {w : WorkerId}
    {t : ClosureId} {f : FrameId} {below : List FrameId} (hw : s.phase w = .running t)
    (hstackt : s.stack t = f :: below) (hphase : s'.phase = s.phase) (hlive : s'.live = s.live)
    (hbound : s'.numClosures = s.numClosures) (hstack : s'.stack = update s.stack t below)
    (hcode : s'.code = s.code) (hunsynched : s'.unsynched = s.unsynched)
    (hdetached : ∀ g, g ≠ f → s'.detached g = s.detached g)
    (htables : s'.tableCredit = s.tableCredit) : s'.credit < s.credit := by
  have hheld : (s.phase w).closure = some t := by rw [hw]; rfl
  have hnodup := hi.frames.nodup t (hi.hold.live w t hheld)
  rw [hstackt, List.nodup_cons] at hnodup
  have hmem : f ∈ s.stack t := by rw [hstackt]; exact List.mem_cons_self
  apply hi.credit_strand hi' hheld (hphase.trans (Function.update_eq_self w _).symm)
    (fun d h => Option.some.inj (h.symm.trans hheld)) hlive hbound
  case hstack =>
    intro c hct
    rw [hstack, Function.update_of_ne hct]
  case hcode => exact fun g _ _ => congrFun hcode g
  case hunsynched => exact fun g _ _ => congrFun hunsynched g
  case hdetached =>
    intro g hg _
    apply hdetached g
    rintro rfl
    exact hg hmem
  case htables => exact fun c _ => congrFun htables c
  case hless =>
    have hbelow : (below.map s'.frameCredit).sum = (below.map s.frameCredit).sum :=
      sum_frameCredit_congr (fun g _ => congrFun hcode g) fun g _ => congrFun hunsynched g
    have hspawners : spawners s'.detached below = spawners s.detached below := by
      apply spawners_congr
      intro g hg
      apply hdetached g
      rintro rfl
      exact hnodup.1 hg
    have hdeque :
        (spawners s.detached below).length ≤ (spawners s.detached (f :: below)).length := by
      cases below with
      | nil => exact Nat.le_refl _
      | cons g rest =>
        rw [spawners_cons, List.length_append]
        exact Nat.le_add_right _ _
    have hsize := (s.code f).size_pos
    rw [Runtime.stackCredit, Runtime.stackCredit, hstack, Function.update_self, hstackt, htables,
      hbelow, hspawners, List.map_cons, List.sum_cons, Runtime.frameCredit]
    omega

/-- A closure has one frame before and after the step. -/
theorem SchedInv.credit_single (hi : SchedInv s) (hi' : SchedInv s') {w : WorkerId}
    {t : ClosureId} {q : Phase} {f g : FrameId} (hheld : (s.phase w).closure = some t)
    (hstackt : s.stack t = [f]) (hstackt' : s'.stack t = [g])
    (hphase : s'.phase = update s.phase w q) (hq : ∀ d, q.closure = some d → d = t)
    (hlive : s'.live = s.live) (hbound : s'.numClosures = s.numClosures)
    (hstack : ∀ c, c ≠ t → s'.stack c = s.stack c)
    (hcode : ∀ h, h ≠ f → h ≠ s.numFrames → s'.code h = s.code h)
    (hunsynched : ∀ h, h ≠ f → h ≠ s.numFrames → s'.unsynched h = s.unsynched h)
    (hdetached : ∀ h, h ≠ f → h ≠ s.numFrames → s'.detached h = s.detached h)
    (htables : ∀ c, c ≠ t → s'.tableCredit c = s.tableCredit c)
    (hless : s'.frameCredit g + s'.tableCredit t + q.credit <
      s.frameCredit f + s.tableCredit t + (s.phase w).credit) : s'.credit < s.credit := by
  have hmem : ∀ h, h ∉ s.stack t → h ≠ f := by
    rintro h hh rfl
    exact hh (by rw [hstackt]; exact List.mem_cons_self)
  apply hi.credit_strand hi' hheld hphase hq hlive hbound hstack
  case hcode => exact fun h hh => hcode h (hmem h hh)
  case hunsynched => exact fun h hh => hunsynched h (hmem h hh)
  case hdetached => exact fun h hh => hdetached h (hmem h hh)
  case htables => exact htables
  case hless =>
    rw [Runtime.stackCredit, Runtime.stackCredit, hstackt, hstackt']
    exact hless

/-- A closure is destroyed, which pays for what another one gets. -/
theorem SchedInv.credit_leave (hi : SchedInv s) (hi' : SchedInv s') {w : WorkerId}
    {t p : ClosureId} {q : Phase} (hheld : (s.phase w).closure = some t) (hp : s.live p)
    (hne : t ≠ p) (hphase : s'.phase = update s.phase w q) (hq : ∀ d, q.closure = some d → d = p)
    (hlive : s'.live = update s.live t false) (hbound : s'.numClosures = s.numClosures)
    (hstack : ∀ c, c ≠ t → s'.stack c = s.stack c) (hcode : s'.code = s.code)
    (hunsynched : ∀ f, s'.unsynched f = true → s.unsynched f = true)
    (hkept : ∀ f, f ∉ s.stack p → s'.unsynched f = s.unsynched f)
    (hdetached : s'.detached = s.detached)
    (htables : ∀ c, c ≠ t → c ≠ p → s'.tableCredit c = s.tableCredit c)
    (hless : s'.tableCredit p + q.credit < s.tableCredit p + s.closureCredit t) :
    s'.credit < s.credit := by
  have hlivet := hi.hold.live w t hheld
  apply hi.credit_two hne hlivet hp hbound
  case hsame =>
    intro c hct hcp
    by_cases hc : s.live c
    · apply closureCredit_congr _ _ (htables c hct hcp)
      · apply hi.hold.holdCredit_congr hi'.hold
        intro w' h
        have hww : w' ≠ w := by
          rintro rfl
          rcases h with h | h
          · exact hct (Option.some.inj (h.symm.trans hheld))
          · rw [hphase, Function.update_self] at h
            exact hcp (hq c h)
        rw [hphase, Function.update_of_ne hww]
      · rw [hlive, Function.update_of_ne hct]
      · apply stackCredit_congr (hstack c hct) (fun f _ => congrFun hcode f) _
          fun f _ => congrFun hdetached f
        intro f hf
        exact hkept f fun h => hcp (hi.frames.disjoint c p f hc hp hf h)
    · have hc' : ¬ s'.live c := by rwa [hlive, Function.update_of_ne hct]
      rw [closureCredit_dead hc, closureCredit_dead hc']
  case hless =>
    have hdead : s'.closureCredit t = 0 := by
      apply closureCredit_dead
      rw [hlive, Function.update_self]
      exact Bool.false_ne_true
    have hlivep : s'.live p := by rwa [hlive, Function.update_of_ne hne.symm]
    have hframes : ((s.stack p).map s'.frameCredit).sum ≤ ((s.stack p).map s.frameCredit).sum := by
      apply List.sum_le_sum
      intro f _
      have hflag := hunsynched f
      rw [Runtime.frameCredit, Runtime.frameCredit, hcode]
      split_ifs <;> grind
    have hhold : s'.holdCredit p ≤ s.holdCredit p + q.credit := by
      by_cases hqp : q.closure = some p
      · have hw' : (s'.phase w).closure = some p := by rw [hphase, Function.update_self, hqp]
        rw [hi'.hold.holdCredit_held hw', hphase, Function.update_self]
        omega
      · rw [hi.hold.holdCredit_keep hi'.hold hheld hphase (fun d hd => ?_) hne.symm]
        · omega
        · exact absurd (hq d hd ▸ hd) hqp
    rw [hdead, closureCredit_live hlivep, closureCredit_live hp, Runtime.stackCredit,
      Runtime.stackCredit, hstack p hne.symm, hdetached]
    omega

/-- The frame of a closure that is about to return is all of its stack, and is done. -/
theorem SchedInv.credit_returning (hi : SchedInv s) {w : WorkerId} {t : ClosureId}
    (hw : s.phase w = .returning t) : 10 ≤ s.closureCredit t := by
  have hheld : (s.phase w).closure = some t := by rw [hw]; rfl
  obtain ⟨f, -, hstack⟩ := hi.frames.single w t (.inr (.inr hw))
  have hsize := (s.code f).size_pos
  rw [closureCredit_live (hi.hold.live w t hheld), hi.hold.holdCredit_held hheld, hw,
    Runtime.stackCredit, hstack, List.map_cons, List.sum_cons, Runtime.frameCredit]
  simp only [Phase.credit]
  omega

/-- The neighbour to the left, which keeps the table to the left of a child. -/
def Runtime.leftNeighbour (s : Runtime κ V) (parent child : ClosureId) : ClosureId :=
  (s.leftSib child).getD parent

theorem SchedInv.leftNeighbour_spec (hi : SchedInv s) {w : WorkerId} {t parent : ClosureId}
    (hw : s.phase w = .returning t) (hparent : s.spawnParent t = some parent) :
    s.live (s.leftNeighbour parent t) ∧ t ≠ s.leftNeighbour parent t := by
  obtain ⟨hlive, hp, hmem, hne⟩ := hi.links.parent hi.hold hi.frames hw hparent
  rw [Runtime.leftNeighbour]
  cases hleft : s.leftSib t with
  | none => exact ⟨hp, hne.symm⟩
  | some left =>
    refine ⟨hi.links.mem_live hp ((hi.links.linked parent hp).left_mem hmem hleft), ?_⟩
    rintro rfl
    exact hi.links.leftSib_ne hp hmem hleft

theorem tableCredit_setLeftHt (parent t : ClosureId) (table : Option (ViewMap κ V)) :
    (∀ c, c ≠ s.leftNeighbour parent t →
      (s.setLeftHt parent t table).tableCredit c = s.tableCredit c) ∧
    (s.setLeftHt parent t table).tableCredit (s.leftNeighbour parent t) +
        (if (s.leftHt parent t).isSome then 4 else 0) =
      s.tableCredit (s.leftNeighbour parent t) + if table.isSome then 4 else 0 := by
  rw [Runtime.leftNeighbour]
  cases hleft : s.leftSib t with
  | none =>
    simp only [Runtime.tableCredit, Runtime.setLeftHt, Runtime.leftHt, hleft, storeAt, if_true,
      Option.getD_none, Function.update_self]
    refine ⟨fun c hc => by rw [Function.update_of_ne hc], by omega⟩
  | some left =>
    simp only [Runtime.tableCredit, Runtime.setLeftHt, Runtime.leftHt, hleft, storeAt,
      reduceCtorEq, if_false, Option.getD_some, Function.update_self]
    refine ⟨fun c hc => by rw [Function.update_of_ne hc], by omega⟩

/-- A steal costs the credit of the deque. -/
theorem SchedInv.credit_steal (hi : SchedInv s) (hi' : SchedInv s') {w victim : WorkerId}
    {cl k res : ClosureId} {f : FrameId} {parents above below : List FrameId}
    (hs : Splits s s' w victim cl k res f parents above below) (hw : s.phase w = .stealing)
    (hvictim : s.phase victim = .running cl) (hdeque : s.deque victim = f :: parents)
    (hstack : s.stack cl = above ++ f :: below) (hk : ¬ s.live k) (hkr : k ≠ res)
    (hres : res = cl ∧ below = [] ∨ ¬ s.live res) (hbound : s.numClosures ≤ s'.numClosures)
    (hbounds : k < s'.numClosures ∧ res < s'.numClosures)
    (hlive : ∀ c, s.live c → s'.live c) (hnew : s'.live k ∧ s'.live res)
    (htables : ∀ c, s.live c → s'.tableCredit c = s.tableCredit c)
    (htableChild : s'.tableCredit k = 0) (htableRes : res ≠ cl → s'.tableCredit res = 0) :
    s'.credit < s.credit := by
  have hheld : (s.phase victim).closure = some cl := by rw [hvictim]; rfl
  have hcl := hi.hold.live victim cl hheld
  have hclk : cl ≠ k := by
    rintro rfl
    exact hk hcl
  obtain ⟨habove, hbelow, -⟩ := hi.frames.victim hi.hold hvictim hdeque hstack
  have hnodup := hi.frames.nodup cl hcl
  rw [hstack] at hnodup
  have hout := List.nodup_cons.mp (List.nodup_middle.mp hnodup)
  have hsum : ∀ l : List FrameId, f ∉ l →
      (l.map s'.frameCredit).sum = (l.map s.frameCredit).sum := by
    intro l hf
    apply sum_frameCredit_congr fun g _ => congrFun hs.code g
    intro g hg
    apply hs.unsynched g
    rintro rfl
    exact hf hg
  have hstolen : s'.frameCredit f ≤ s.frameCredit f + 2 := by
    rw [Runtime.frameCredit, Runtime.frameCredit, hs.code]
    split <;> omega
  have hchild : s'.closureCredit k = (above.map s.frameCredit).sum + 8 * parents.length + 2 := by
    have hheld' : (s'.phase victim).closure = some k := by rw [hs.phaseVictim]; rfl
    rw [closureCredit_live hnew.1, hi'.hold.holdCredit_held hheld', htableChild, hs.phaseVictim,
      Runtime.stackCredit, hs.stackChild, hs.detached, habove,
      hsum above fun h => hout.1 (List.mem_append_left _ h)]
    rfl
  have hresCredit : s'.closureCredit res = s'.frameCredit f + s'.tableCredit res + 4 := by
    have hheld' : (s'.phase w).closure = some res := by rw [hs.phaseThief]; rfl
    rw [closureCredit_live hnew.2, hi'.hold.holdCredit_held hheld', hs.phaseThief,
      Runtime.stackCredit, hs.stackRes]
    rfl
  have hold : s.closureCredit cl = (above.map s.frameCredit).sum + s.frameCredit f +
      (below.map s.frameCredit).sum + 8 * (parents.length + 1) + s.tableCredit cl + 2 := by
    have hspawners := hi.frames.deque victim cl hheld
    rw [closureCredit_live hcl, hi.hold.holdCredit_held hheld, hvictim, Runtime.stackCredit,
      ← hspawners, hdeque, hstack, List.map_append, List.map_cons, List.sum_append, List.sum_cons]
    simp only [Phase.credit, List.length_cons]
    omega
  have hsame : ∀ c, c ≠ k → c ≠ res → c ≠ cl → s'.closureCredit c = s.closureCredit c := by
    intro c hck hcr hcc
    by_cases hc : s.live c
    · apply closureCredit_congr ((hlive c hc).trans hc.symm) _ (htables c hc)
      · apply hi.hold.holdCredit_congr hi'.hold
        intro w' h
        apply hs.phase w'
        · rintro rfl
          rw [hw, hs.phaseThief] at h
          exact h.elim (fun h => by cases h) fun h => hcr (Option.some.inj h).symm
        · rintro rfl
          rw [hvictim, hs.phaseVictim] at h
          exact h.elim (fun h => hcc (Option.some.inj h).symm)
            fun h => hck (Option.some.inj h).symm
      · apply stackCredit_congr (hs.stack c hck hcr hcc) (fun g _ => congrFun hs.code g) _
          fun g _ => congrFun hs.detached g
        intro g hg
        apply hs.unsynched g
        rintro rfl
        exact hcc (hi.frames.disjoint c cl g hc hcl hg (by rw [hstack]; simp))
    · have hc' : ¬ s'.live c := by
        intro h
        rcases hs.live c h with h | h | ⟨-, -, h⟩
        · exact hck h
        · exact hcr h
        · exact hc h
      rw [closureCredit_dead hc, closureCredit_dead hc']
  have hdead : s.closureCredit k = 0 := closureCredit_dead hk
  have hclbound := (hi.links.bound cl hcl).trans_le hbound
  rcases hres with ⟨rfl, rfl⟩ | hfresh
  · have hchanged := hi.credit_changed {res, k} hbound
      (fun c hc => by
        rcases Finset.mem_insert.mp hc with rfl | h
        · exact hclbound
        · exact Finset.mem_singleton.mp h ▸ hbounds.1)
      fun c hc => hsame c (fun h => hc (by simp [h])) (fun h => hc (by simp [h]))
        fun h => hc (by simp [h])
    have htable := htables res hcl
    rw [Finset.sum_pair hclk, Finset.sum_pair hclk] at hchanged
    simp only [List.map_nil, List.sum_nil] at hold
    omega
  · have hcr : cl ≠ res := by
      rintro rfl
      exact hfresh hcl
    have hdeadRes : s.closureCredit res = 0 := closureCredit_dead hfresh
    have htable := htableRes hcr.symm
    have hkept : s'.closureCredit cl = (below.map s.frameCredit).sum + s.tableCredit cl := by
      rw [closureCredit_live (hlive cl hcl), htables cl hcl, Runtime.stackCredit, hs.stackKept hcr,
        hs.detached, spawners_tail_nil hbelow,
        hsum below fun h => hout.1 (List.mem_append_right _ h),
        holdCredit_free]
      · rfl
      · intro w' h
        by_cases hww : w' = w
        · rw [hww, hs.phaseThief] at h
          exact hcr (Option.some.inj h).symm
        · by_cases hwv : w' = victim
          · rw [hwv, hs.phaseVictim] at h
            exact hclk (Option.some.inj h).symm
          · rw [hs.phase w' hww hwv] at h
            exact hwv (hi.hold.unique w' victim cl h hheld)
    have hchanged := hi.credit_changed {cl, res, k} hbound
      (fun c hc => by
        rcases Finset.mem_insert.mp hc with rfl | h
        · exact hclbound
        · rcases Finset.mem_insert.mp h with rfl | h
          · exact hbounds.2
          · exact Finset.mem_singleton.mp h ▸ hbounds.1)
      fun c hc => hsame c (fun h => hc (by simp [h])) (fun h => hc (by simp [h]))
        fun h => hc (by simp [h])
    have hnotin : cl ∉ ({res, k} : Finset ClosureId) := by
      simp [hcr, hclk]
    rw [Finset.sum_insert hnotin, Finset.sum_insert hnotin, Finset.sum_pair hkr.symm,
      Finset.sum_pair hkr.symm] at hchanged
    omega

theorem SchedInv.credit_stealOwn (hi : SchedInv s) {w victim : WorkerId} {cl : ClosureId}
    {f : FrameId} {parents above below : List FrameId}
    (hi' : SchedInv (s.stealOwn w victim cl f above below)) (hw : s.phase w = .stealing)
    (hvictim : s.phase victim = .running cl) (hdeque : s.deque victim = f :: parents)
    (hstack : s.stack cl = above ++ f :: below) (hframe : s.frame cl = some f) :
    (s.stealOwn w victim cl f above below).credit < s.credit := by
  obtain ⟨rfl, hsplits⟩ :=
    hi.frames.splits_own hi.links hi.hold hw hvictim hdeque hstack hframe
  have hlive := hi.hold.live victim cl (by rw [hvictim]; rfl)
  have hlt := hi.links.bound cl hlive
  apply hi.credit_steal hi' hsplits hw hvictim hdeque hstack hi.links.fresh hlt.ne'
    (.inl ⟨rfl, rfl⟩) (Nat.le_succ _) ⟨Nat.lt_succ_self _, Nat.lt_succ_of_lt hlt⟩
  case hlive =>
    intro c hc
    exact (Function.update_of_ne (hi.links.ne_fresh hc) _ _).trans hc
  case hnew =>
    exact ⟨Function.update_self _ _ _, (Function.update_of_ne hlt.ne _ _).trans hlive⟩
  case htables =>
    intro c hc
    have hcn := hi.links.ne_fresh hc
    show (if (update s.childHt s.numClosures none c).isSome then 4 else 0) +
      (if (update s.rightHt s.numClosures none c).isSome then 4 else 0) = _
    rw [Function.update_of_ne hcn, Function.update_of_ne hcn]
    rfl
  case htableChild =>
    show (if (update s.childHt s.numClosures none s.numClosures).isSome then 4 else 0) +
      (if (update s.rightHt s.numClosures none s.numClosures).isSome then 4 else 0) = 0
    rw [Function.update_self, Function.update_self]
    rfl
  case htableRes => exact fun h => absurd rfl h

theorem SchedInv.credit_stealCalled (hi : SchedInv s) {w victim : WorkerId} {cl : ClosureId}
    {f : FrameId} {parents above below : List FrameId}
    (hi' : SchedInv (s.stealCalled w victim cl f above below)) (hw : s.phase w = .stealing)
    (hvictim : s.phase victim = .running cl) (hdeque : s.deque victim = f :: parents)
    (hstack : s.stack cl = above ++ f :: below) :
    (s.stealCalled w victim cl f above below).credit < s.credit := by
  have hlive := hi.hold.live victim cl (by rw [hvictim]; rfl)
  have hlt := hi.links.bound cl hlive
  have hvw : victim ≠ w := by
    rintro rfl
    rw [hw] at hvictim
    cases hvictim
  have hk : ¬ s.live (s.numClosures + 1) := fun h =>
    Nat.not_lt_of_gt (Nat.lt_succ_self _) (hi.links.bound _ h)
  have hkr : s.numClosures ≠ s.numClosures + 1 := Nat.ne_of_lt (Nat.lt_succ_self _)
  have hsplits := Splits.called (s := s) above below (Nat.ne_of_lt hlt)
    (Nat.ne_of_lt (Nat.lt_succ_of_lt hlt)) hvw hdeque
  have hold : ∀ c, s.live c → c ≠ s.numClosures + 1 := by
    rintro c hc rfl
    exact hk hc
  apply hi.credit_steal hi' hsplits hw hvictim hdeque hstack hk hkr.symm (.inr hi.links.fresh)
    (Nat.le_add_right _ 2) ⟨Nat.lt_succ_self _, Nat.lt_succ_of_lt (Nat.lt_succ_self _)⟩
  case hlive =>
    intro c hc
    exact (Function.update_of_ne (hold c hc) _ _).trans
      ((Function.update_of_ne (hi.links.ne_fresh hc) _ _).trans hc)
  case hnew =>
    exact ⟨Function.update_self _ _ _,
      (Function.update_of_ne hkr _ _).trans (Function.update_self _ _ _)⟩
  case htables =>
    intro c hc
    have hcn := hi.links.ne_fresh hc
    show (if (update (update s.childHt s.numClosures none) (s.numClosures + 1) none c).isSome
        then 4 else 0) +
      (if (update (update s.rightHt s.numClosures none) (s.numClosures + 1) none c).isSome
        then 4 else 0) = _
    rw [Function.update_of_ne (hold c hc), Function.update_of_ne hcn,
      Function.update_of_ne (hold c hc), Function.update_of_ne hcn]
    rfl
  case htableChild =>
    show (if (update (update s.childHt s.numClosures none) (s.numClosures + 1) none
        (s.numClosures + 1)).isSome then 4 else 0) +
      (if (update (update s.rightHt s.numClosures none) (s.numClosures + 1) none
        (s.numClosures + 1)).isSome then 4 else 0) = 0
    rw [Function.update_self, Function.update_self]
    rfl
  case htableRes =>
    intro _
    show (if (update (update s.childHt s.numClosures none) (s.numClosures + 1) none
        s.numClosures).isSome then 4 else 0) +
      (if (update (update s.rightHt s.numClosures none) (s.numClosures + 1) none
        s.numClosures).isSome then 4 else 0) = 0
    rw [Function.update_of_ne hkr, Function.update_self, Function.update_of_ne hkr,
      Function.update_self]
    rfl

theorem tableCredit_congr {c : ClosureId} (hchildHt : s'.childHt c = s.childHt c)
    (hrightHt : s'.rightHt c = s.rightHt c) : s'.tableCredit c = s.tableCredit c := by
  rw [Runtime.tableCredit, hchildHt, hrightHt]
  rfl

theorem tableCredit_returnChild (w : WorkerId) (parent t c : ClosureId) :
    (s.returnChild w parent t).tableCredit c =
      (s.setLeftHt parent t (s.hyperTable w)).tableCredit c := by
  apply tableCredit_congr
  · cases s
    rfl
  · cases s
    rfl

/-- The tables that are taken pay for their reduction. -/
theorem SchedInv.credit_takeTables (hi : SchedInv s) {w : WorkerId} {t parent : ClosureId}
    (hi' : SchedInv (s.takeTables w parent t)) (hw : s.phase w = .returning t)
    (hparent : s.spawnParent t = some parent)
    (htables : s.leftHt parent t ≠ none ∨ s.rightHt t ≠ none) :
    (s.takeTables w parent t).credit < s.credit := by
  have hheld : (s.phase w).closure = some t := by rw [hw]; rfl
  have hlive := hi.hold.live w t hheld
  obtain ⟨hq, hne⟩ := hi.leftNeighbour_spec hw hparent
  let s₁ := { s with rightHt := update s.rightHt t none }
  obtain ⟨hsame, hleft⟩ := tableCredit_setLeftHt (s := s₁) parent t none
  have hneighbour : s₁.leftNeighbour parent t = s.leftNeighbour parent t := rfl
  have hleftHt : s₁.leftHt parent t = s.leftHt parent t := by
    rw [Runtime.leftNeighbour] at hne
    simp only [Runtime.leftHt, s₁]
    cases h : s.leftSib t with
    | none => rfl
    | some left =>
      rw [h] at hne
      exact Function.update_of_ne hne.symm _ _
  have hother : ∀ c, c ≠ t → s₁.tableCredit c = s.tableCredit c := fun c hct =>
    tableCredit_congr rfl (Function.update_of_ne hct _ _)
  have hright : s₁.tableCredit t + (if (s.rightHt t).isSome then 4 else 0) = s.tableCredit t := by
    simp [Runtime.tableCredit, s₁]
  have htake : ∀ c, (s.takeTables w parent t).tableCredit c =
      (s₁.setLeftHt parent t none).tableCredit c := by
    intro c
    apply tableCredit_congr
    · cases s
      rfl
    · cases s
      rfl
  rw [hneighbour, hleftHt] at hleft
  rw [hneighbour] at hsame
  have hstacks : ∀ c, (s.takeTables w parent t).stackCredit c = s.stackCredit c := by
    intro c
    cases s
    rfl
  have hphase : (s.takeTables w parent t).phase = update s.phase w (.scheduled t) := rfl
  have hbound : (s.takeTables w parent t).numClosures = s.numClosures := rfl
  have hliveAfter : (s.takeTables w parent t).live = s.live := rfl
  apply hi.credit_two hne hlive hq hbound
  case hsame =>
    intro c hct hcq
    refine closureCredit_congr (congrFun hliveAfter c) (hstacks c) ?_ ?_
    · rw [htake, hsame c hcq, hother c hct]
    · exact hi.hold.holdCredit_keep hi'.hold hheld hphase
        (fun d h => (Option.some.inj h).symm) hct
  case hless =>
    have hholdt : (s.takeTables w parent t).holdCredit t = 4 := by
      rw [hi'.hold.holdCredit_held (w := w) (by rw [hphase, Function.update_self]; rfl), hphase,
        Function.update_self]
      rfl
    have hholdq := hi.hold.holdCredit_keep hi'.hold hheld hphase
      (fun d h => (Option.some.inj h).symm) hne.symm
    have hholdt' : s.holdCredit t = 1 := by
      rw [hi.hold.holdCredit_held hheld, hw]
      rfl
    have htabt := htake t
    have htabq := htake (s.leftNeighbour parent t)
    rw [hsame t hne] at htabt
    rw [hother _ hne.symm] at hleft
    rw [closureCredit_live hlive, closureCredit_live hq,
      closureCredit_live (s := s.takeTables w parent t) hlive,
      closureCredit_live (s := s.takeTables w parent t) hq, hstacks, hstacks, hholdt, hholdq,
      hholdt']
    have htaken : 4 ≤ (if (s.leftHt parent t).isSome then 4 else 0) +
        if (s.rightHt t).isSome then 4 else 0 := by
      rcases htables with h | h
      · rw [if_pos (Option.isSome_iff_ne_none.mpr h)]
        exact Nat.le_add_right _ _
      · rw [if_pos (Option.isSome_iff_ne_none.mpr h)]
        exact Nat.le_add_left _ _
    simp only [Option.isSome_none, Bool.false_eq_true, if_false] at hleft
    omega

/-- The table that is left to the neighbour costs less than the closure that is destroyed. -/
theorem SchedInv.credit_returnChild (hi : SchedInv s) {w : WorkerId} {t parent : ClosureId}
    (hi' : SchedInv (s.returnChild w parent t)) (hw : s.phase w = .returning t)
    (hparent : s.spawnParent t = some parent) : (s.returnChild w parent t).credit < s.credit := by
  have hheld : (s.phase w).closure = some t := by rw [hw]; rfl
  obtain ⟨hq, hne⟩ := hi.leftNeighbour_spec hw hparent
  obtain ⟨hsame, hleftTable⟩ := tableCredit_setLeftHt (s := s) parent t (s.hyperTable w)
  have hreturning := hi.credit_returning hw
  have hflags := SameFlags.returnChild (s := s) w parent t
  have hcode := (returnChild_same (s := s) w parent t).1
  apply hi.credit_leave hi' hheld hq hne (q := .stealing) rfl (fun d h => by cases h) rfl rfl
    (fun c hct => Function.update_of_ne hct _ _) hcode
  case hunsynched => exact fun f h => hflags.unsynched ▸ h
  case hkept => exact fun f _ => congrFun hflags.unsynched f
  case hdetached => exact hflags.detached
  case htables =>
    intro c _ hcq
    rw [tableCredit_returnChild, hsame c hcq]
  case hless =>
    rw [tableCredit_returnChild]
    simp only [Phase.credit]
    split_ifs at hleftTable <;> omega

theorem SchedInv.credit_resumeParent (hi : SchedInv s) {w : WorkerId} {t parent : ClosureId}
    (hi' : SchedInv ((s.returnChild w parent t).resumeParent w parent))
    (hw : s.phase w = .returning t) (hparent : s.spawnParent t = some parent)
    (hjoin : s.joinCounter parent = 1) :
    ((s.returnChild w parent t).resumeParent w parent).credit < s.credit := by
  have hheld : (s.phase w).closure = some t := by rw [hw]; rfl
  obtain ⟨hlive, hp, hmem, hne⟩ := hi.links.parent hi.hold hi.frames hw hparent
  have hchildren := (hi.links.last_child hp hmem hjoin).1
  have hleft : s.leftSib t = none := by
    cases h : s.leftSib t with
    | none => rfl
    | some left =>
      have hin := (hi.links.linked parent hp).left_mem hmem h
      rw [hchildren, List.mem_singleton] at hin
      exact absurd (hin ▸ h) (hi.links.leftSib_ne hp hmem)
  have hneighbour : s.leftNeighbour parent t = parent := by
    rw [Runtime.leftNeighbour, hleft]
    rfl
  obtain ⟨hsame, hleftTable⟩ := tableCredit_setLeftHt (s := s) parent t (s.hyperTable w)
  rw [hneighbour] at hsame hleftTable
  have hreturning := hi.credit_returning hw
  have hflags := SameFlags.returnChild (s := s) w parent t
  obtain ⟨hcode, -, -, -, hframe, -⟩ := returnChild_same (s := s) w parent t
  obtain ⟨f, hf, -⟩ := hi.frames.synched parent hp (.inl (List.ne_nil_of_mem hmem))
  have hfmem := hi.frames.frame_mem hp hf
  have hlive₁ : (s.returnChild w parent t).live = update s.live t false := rfl
  have hbound₁ : (s.returnChild w parent t).numClosures = s.numClosures := rfl
  have hphase₁ : (s.returnChild w parent t).phase = update s.phase w .stealing := rfl
  have hstack₁ : ∀ c, c ≠ t → (s.returnChild w parent t).stack c = s.stack c := fun c hct =>
    Function.update_of_ne hct _ _
  have htables₁ := fun c => tableCredit_returnChild (s := s) w parent t c
  generalize s.returnChild w parent t = s₁ at *
  have hunsynched : (s₁.resumeParent w parent).unsynched = update s.unsynched f false := by
    have hstore : (s₁.resumeParent w parent).unsynched =
      storeAt s₁.unsynched (s₁.frame parent) false := rfl
    rw [hstore, hflags.unsynched, hframe, hf]
    rfl
  have htake : ∀ c, c ≠ parent →
      (s₁.resumeParent w parent).tableCredit c = s₁.tableCredit c := fun c hcp =>
    tableCredit_congr (Function.update_of_ne hcp _ _) rfl
  have htakep : (s₁.resumeParent w parent).tableCredit parent ≤ s₁.tableCredit parent := by
    show (if (update s₁.childHt parent none parent).isSome then 4 else 0) +
      (if (s₁.rightHt parent).isSome then 4 else 0) ≤ _
    rw [Function.update_self, Runtime.tableCredit]
    exact Nat.add_le_add_right (Nat.zero_le _) _
  have hphase : (s₁.resumeParent w parent).phase = update s.phase w (.scheduled parent) := by
    show update s₁.phase w (.scheduled parent) = _
    rw [hphase₁, Function.update_idem]
  apply hi.credit_leave hi' hheld hp hne.symm hphase (fun d h => (Option.some.inj h).symm)
    hlive₁ hbound₁ hstack₁ hcode
  case hunsynched =>
    intro g hg
    rw [hunsynched] at hg
    by_cases hgf : g = f
    · rw [hgf, Function.update_self] at hg
      cases hg
    · rwa [Function.update_of_ne hgf] at hg
  case hkept =>
    intro g hg
    rw [hunsynched]
    apply Function.update_of_ne
    rintro rfl
    exact hg hfmem
  case hdetached => exact hflags.detached
  case htables =>
    intro c _ hcp
    rw [htake c hcp, htables₁, hsame c hcp]
  case hless =>
    rw [htables₁] at htakep
    simp only [Phase.credit]
    split_ifs at hleftTable <;> omega

end Credit

section Steps

variable [DecidableEq κ] [Monoid V] {s s' : Runtime κ V}

theorem SchedInv.credit_step (hi : SchedInv s) (hs : SchedStep s s') : s'.credit < s.credit := by
  have hi' := hi.step hs
  have hrunning : ∀ w t, s.phase w = .running t → s.phase = update s.phase w (.running t) := by
    intro w t hw
    rw [← hw, Function.update_eq_self]
  cases hs with
  | @update w t f below reducer u rest hw hstack hcode =>
    have hsize : (s.code f).size = rest.size + 1 := by rw [hcode]; rfl
    refine hi.credit_code hi' (by rw [hw]; rfl) hstack (hrunning w t hw)
      (fun d h => (Option.some.inj h).symm) rfl rfl rfl rfl rfl rfl rfl ?_
    rw [hsize, hw]
    omega
  | @enterFrame w t f below callee rest hw hstack hcode =>
    have hsize : (s.code f).size = callee.size + rest.size + 1 := by rw [hcode]; rfl
    exact hi.credit_push hi' hw hstack rfl rfl rfl
      (congrArg (update s.stack t) (congrArg _ hstack)) rfl rfl rfl rfl hsize.symm
  | @detach w t f below child rest rsp hw hstack hcode =>
    have hsize : (s.code f).size = child.size + rest.size + 1 := by rw [hcode]; rfl
    exact hi.credit_push hi' hw hstack rfl rfl rfl
      (congrArg (update s.stack t) (congrArg _ hstack)) rfl rfl rfl rfl hsize.symm
  | leaveFrame hw hstack hcode hsynched hdetached hlast hstolen =>
    exact hi.credit_pop hi' hw hstack rfl rfl rfl rfl rfl rfl (fun _ _ => rfl) rfl
  | leaveFrameHelper hw hstack hcode hsynched hdetached hdeque =>
    exact hi.credit_pop hi' hw hstack rfl rfl rfl rfl rfl rfl
      (fun g hg => Function.update_of_ne hg _ _) rfl
  | @syncFast w t f below rest hw hstack hcode hsynched =>
    have hsize : (s.code f).size = rest.size + 1 := by rw [hcode]; rfl
    refine hi.credit_code hi' (by rw [hw]; rfl) hstack (hrunning w t hw)
      (fun d h => (Option.some.inj h).symm) rfl rfl rfl rfl rfl rfl rfl ?_
    rw [hsize, hw]
    omega
  | @doReductions w t f hw hframe hreduction =>
    obtain ⟨g, hg, hsingle⟩ := hi.frames.single w t (.inr (.inl hw))
    obtain rfl := Option.some.inj (hframe.symm.trans hg)
    have hsize := (s.code f).size_afterSync
    refine hi.credit_code hi' (by rw [hw]; rfl) hsingle rfl
      (fun d h => (Option.some.inj h).symm) rfl rfl rfl rfl rfl rfl rfl ?_
    rw [hw]
    exact Nat.add_lt_add_of_le_of_lt (Nat.mul_le_mul_left 9 hsize) (by decide : 2 < 3)
  | @suspendAtSync w t f below rsp hw hstack hcode hunsynched hchildren =>
    exact hi.credit_phase hi' (by rw [hw]; rfl) rfl (fun d h => by cases h) rfl rfl rfl rfl rfl rfl
      rfl (by rw [hw]; exact (by decide : 0 < 2))
  | @doReductionsForReturn w t f hw hframe hreduction =>
    exact hi.credit_phase hi' (by rw [hw]; rfl) rfl (fun d h => (Option.some.inj h).symm) rfl rfl
      rfl rfl rfl rfl rfl (by rw [hw]; exact (by decide : 1 < 3))
  | @resumeStolen w t f rsp hw hframe hsteal =>
    exact hi.credit_phase hi' (by rw [hw]; rfl) rfl (fun d h => (Option.some.inj h).symm) rfl rfl
      rfl rfl rfl rfl rfl (by rw [hw]; exact (by decide : 2 < 4))
  | @resumeSync w t hw hsteal =>
    exact hi.credit_phase hi' (by rw [hw]; rfl) rfl (fun d h => (Option.some.inj h).symm) rfl rfl
      rfl rfl rfl rfl rfl (by rw [hw]; exact (by decide : 3 < 4))
  | @exitRoot w t f below hw hstack hcode hsynched hlast =>
    exact hi.credit_phase hi' (by rw [hw]; rfl) rfl (fun d h => (Option.some.inj h).symm) rfl rfl
      rfl rfl rfl rfl rfl (by rw [hw]; exact (by decide : 0 < 2))
  | @exceptionHandler w t f below hw hstack hcode hsynched hdetached hdeque =>
    have hheld : (s.phase w).closure = some t := by rw [hw]; rfl
    have hspawners := hi.frames.deque w t hheld
    rw [hdeque, hstack] at hspawners
    obtain rfl : below = [] := eq_nil_of_spawners_nil hspawners.symm hdetached
    refine hi.credit_single hi' hheld hstack
      ((Function.update_self _ _ _).trans (congrArg _ (Function.update_self _ _ _))) rfl
      (fun d h => (Option.some.inj h).symm) rfl rfl
      (fun c hct => (Function.update_of_ne hct _ _).trans (Function.update_of_ne hct _ _))
      (fun g _ hgn => Function.update_of_ne hgn _ _) (fun g _ hgn => Function.update_of_ne hgn _ _)
      (fun g hgf hgn => (Function.update_of_ne hgn _ _).trans (Function.update_of_ne hgf _ _))
      (fun _ _ => rfl) ?_
    show 9 * (update s.code s.numFrames .done s.numFrames).size +
      (if update s.unsynched s.numFrames false s.numFrames then 2 else 0) + s.tableCredit t + 1 <
        9 * (s.code f).size + (if s.unsynched f then 2 else 0) + s.tableCredit t +
          (s.phase w).credit
    rw [Function.update_self, Function.update_self, hcode, hsynched, hw]
    exact Nat.lt_succ_self _
  | @passSync w t f below rsp hw hstack hcode hunsynched hchildren =>
    have hheld : (s.phase w).closure = some t := by rw [hw]; rfl
    obtain ⟨hframe, hsingle, -⟩ := hi.frames.at_sync hi.hold hw hstack hunsynched
    refine hi.credit_single hi' hheld hsingle hsingle rfl (fun d h => (Option.some.inj h).symm) rfl
      rfl (fun _ _ => rfl) (fun _ _ _ => rfl) (fun g hg _ => storeAt_of_ne ?_) (fun _ _ _ => rfl)
      (fun c hct => ?_) ?_
    · rw [hframe]
      exact fun h => hg (Option.some.inj h).symm
    · show (if (update s.childHt t none c).isSome then 4 else 0) + _ = _
      rw [Function.update_of_ne hct]
      rfl
    · show 9 * (s.code f).size + (if storeAt s.unsynched (s.frame t) false f then 2 else 0) +
        ((if (update s.childHt t none t).isSome then 4 else 0) +
          if (s.rightHt t).isSome then 4 else 0) + 3 <
        9 * (s.code f).size + (if s.unsynched f then 2 else 0) + s.tableCredit t +
          (s.phase w).credit
      rw [hframe, hunsynched, hw, Runtime.tableCredit, Function.update_self]
      simp only [storeAt, Function.update_self, Phase.credit, Option.isSome_none,
        Bool.false_eq_true, if_false, if_true]
      omega
  | @stealStolen w victim cl f parents above below hw hvictim hdeque hstack hframe =>
    exact hi.credit_stealOwn hi' hw hvictim hdeque hstack hframe
  | @stealHelper w victim cl f parents above below hw hvictim hdeque hstack hframe hdetached =>
    exact (hi.promoteHelper hvictim hdeque hstack hdetached).credit_stealOwn hi' hw hvictim hdeque
      hstack (Function.update_self _ _ _)
  | @stealCalled w victim cl f parents above below hw hvictim hdeque hstack hframe hdetached =>
    exact hi.credit_stealCalled hi' hw hvictim hdeque hstack
  | takeTables hw hparent htables => exact hi.credit_takeTables hi' hw hparent htables
  | returnChild hw hparent hleft hright hsteal => exact hi.credit_returnChild hi' hw hparent
  | resumeParent hw hparent hleft hright hsteal =>
    exact hi.credit_resumeParent hi' hw hparent hsteal.1
  | @setReturn w t f below parent hw hstack hcode hsynched hdetached hlast hstolen hparent =>
    have hheld : (s.phase w).closure = some t := by rw [hw]; rfl
    have hlive := hi.hold.live w t hheld
    have hp := hi.links.caller t parent hlive hparent
    have hne : t ≠ parent := fun h => (hi.tree.older t parent hlive (.inr hparent)).ne' h
    refine hi.credit_leave hi' hheld hp hne rfl (fun d h => (Option.some.inj h).symm) rfl rfl
      (fun c hct => Function.update_of_ne hct _ _) rfl (fun _ h => h) (fun _ _ => rfl) rfl
      (fun _ _ _ => rfl) ?_
    show s.tableCredit parent + 2 < _
    have hsize := (s.code f).size_pos
    rw [closureCredit_live hlive, Runtime.stackCredit, hstack, List.map_cons, List.sum_cons,
      Runtime.frameCredit]
    omega

end Steps

end Cheetah
