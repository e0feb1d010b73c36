import Mathlib.Algebra.BigOperators.Group.List.Basic
import Cheetah.SchedulerJoins

/-! Where each view of a reducer stands in the serial order: what a closure contributes until it
returns, and which closures a section leaves alone. -/
namespace Cheetah
open Function (update)

variable {κ V : Type} [DecidableEq κ] [Monoid V]

/-- The updates that the frames have left to make, the youngest frame first. -/
def Runtime.words (s : Runtime κ V) (frames : List FrameId) : κ → V :=
  (frames.map fun f => (s.code f).word).prod

/-- The views in a worker's tables, in the order in which they are merged. -/
def Runtime.tables (s : Runtime κ V) (w : WorkerId) : κ → V :=
  viewOf (s.lht w) * viewOf (s.hyperTable w) * viewOf (s.rht w)

/-- The views of a child, and those deposited to its right. -/
def Runtime.childViews (s : Runtime κ V) (value : ClosureId → κ → V) (k : ClosureId) : κ → V :=
  value k * viewOf (s.rightHt k)

/-- What the children of a closure contribute, those that have returned included. -/
def Runtime.before (s : Runtime κ V) (value : ClosureId → κ → V) (c : ClosureId) : κ → V :=
  viewOf (s.childHt c) * ((s.children c).map (s.childViews value)).prod

/-- What a closure contributes to the right of its children: the views of the worker that runs it,
of its callee or of its failed sync, and the updates that its frames have left to make. -/
inductive Runtime.Active (s : Runtime κ V) (value : ClosureId → κ → V) (c : ClosureId) :
    (κ → V) → Prop where
  | held {w : WorkerId} (hw : (s.phase w).closure = some c) :
      Active s value c (s.tables w * s.words (s.stack c))
  | called {d : ClosureId} (hd : s.callee c = some d) :
      Active s value c (value d * s.words (s.stack c))
  | parked (hsuspended : s.status c = .suspended) (hnone : s.callee c = none) :
      Active s value c (viewOf (s.userHt c) * s.words (s.stack c))

/-- The tables that a worker has between two sections, before it leaves the region. -/
structure Runtime.Settled (s : Runtime κ V) (w : WorkerId) : Prop where
  idle : s.phase w = .stealing → s.hyperTable w = none
  merged : s.lht w = none ∧ s.rht w = none ∨
    ∃ t, s.phase w = .reducing t ∨ s.phase w = .scheduled t ∧ s.provablyGoodSteal w = true
  inside : ∀ c, s.phase w ≠ .exited c

/-- The views and the remaining updates, read along the closure tree, are those of the serial
execution. -/
structure ViewInv (total : κ → V) (s : Runtime κ V) (value : ClosureId → κ → V) : Prop where
  root : value 0 = total
  value_eq : ∀ c x, s.live c → s.Active value c x → value c = s.before value c * x
  settled : ∀ w, s.Settled w

/-- A section does not touch the closure. -/
structure Far (s s' : Runtime κ V) (value value' : ClosureId → κ → V) (c : ClosureId) : Prop where
  live : s.live c
  same : value' c = value c
  before : s'.before value' c = s.before value c
  words : s'.words (s'.stack c) = s.words (s.stack c)
  holder : ∀ w, (s'.phase w).closure = some c →
    (s.phase w).closure = some c ∧ s'.tables w = s.tables w
  callee : s'.callee c = s.callee c
  called : ∀ d, s.callee c = some d → value' d = value d
  status : s'.status c = .suspended → s.status c = .suspended
  userHt : s'.userHt c = s.userHt c

section Views

variable {s s' : Runtime κ V} {total : κ → V} {value value' : ClosureId → κ → V}

@[simp] theorem words_nil : s.words [] = 1 := rfl

theorem words_cons (f : FrameId) (frames : List FrameId) :
    s.words (f :: frames) = (s.code f).word * s.words frames := by
  rw [Runtime.words, Runtime.words, List.map_cons, List.prod_cons]

theorem words_append (l₁ l₂ : List FrameId) : s.words (l₁ ++ l₂) = s.words l₁ * s.words l₂ := by
  rw [Runtime.words, Runtime.words, Runtime.words, List.map_append, List.prod_append]

theorem words_congr {l : List FrameId} (h : ∀ f ∈ l, (s'.code f).word = (s.code f).word) :
    s'.words l = s.words l := by
  rw [Runtime.words, Runtime.words, List.map_congr_left h]

theorem words_eq {l : List FrameId} (h : ∀ f ∈ l, s'.code f = s.code f) : s'.words l = s.words l :=
  words_congr fun f hf => by rw [h f hf]

omit [DecidableEq κ] in
theorem tables_congr {w : WorkerId} (hlht : s'.lht w = s.lht w)
    (htable : s'.hyperTable w = s.hyperTable w) (hrht : s'.rht w = s.rht w) :
    s'.tables w = s.tables w := by
  rw [Runtime.tables, Runtime.tables, hlht, htable, hrht]

omit [DecidableEq κ] in
/-- Merging leaves one table with the views of all three. -/
theorem tables_doReductions (w : WorkerId) : (s.doReductions w).tables w = s.tables w := by
  simp [Runtime.doReductions, viewOf_mergeTwoHts, Runtime.tables]

omit [DecidableEq κ] in
theorem before_congr {c : ClosureId} (hchildHt : s'.childHt c = s.childHt c)
    (hchildren : s'.children c = s.children c)
    (hchild : ∀ k ∈ s.children c, s'.childViews value' k = s.childViews value k) :
    s'.before value' c = s.before value c := by
  rw [Runtime.before, Runtime.before, hchildHt, hchildren, List.map_congr_left hchild]

omit [DecidableEq κ] in
/-- Nothing is to the left of a closure without children or their tables. -/
theorem before_leaf {c : ClosureId} (hchildren : s.children c = [])
    (hchildHt : s.childHt c = none) : s.before value c = 1 := by
  simp [Runtime.before, hchildren, hchildHt]

theorem Far.active {c : ClosureId} {x : κ → V} (hfar : Far s s' value value' c)
    (h : s'.Active value' c x) : s.Active value c x := by
  cases h with
  | held hw =>
    obtain ⟨hheld, htables⟩ := hfar.holder _ hw
    rw [htables, hfar.words]
    exact .held hheld
  | called hd =>
    have hd' := hfar.callee.symm.trans hd
    rw [hfar.called _ hd', hfar.words]
    exact .called hd'
  | parked hsuspended hnone =>
    rw [hfar.userHt, hfar.words]
    exact .parked (hfar.status hsuspended) (hfar.callee.symm.trans hnone)

theorem ViewInv.far (hv : ViewInv total s value) {c : ClosureId} {x : κ → V}
    (hfar : Far s s' value value' c) (h : s'.Active value' c x) :
    value' c = s'.before value' c * x := by
  rw [hfar.same, hfar.before]
  exact hv.value_eq c x hfar.live (hfar.active h)

/-- What a closure contributes that a worker holds is in the tables of this worker. -/
theorem HoldInv.active (hh : HoldInv s) {w : WorkerId} {c : ClosureId} {x : κ → V}
    (hw : (s.phase w).closure = some c) (h : s.Active value c x) :
    x = s.tables w * s.words (s.stack c) := by
  cases h with
  | held hw' => rw [hh.unique _ w c hw' hw]
  | called hd =>
    rw [hh.callee w c hw] at hd
    cases hd
  | parked hsuspended => exact absurd hsuspended (hh.not_suspended hw)

theorem HoldInv.active_called (hh : HoldInv s) {c d : ClosureId} {x : κ → V}
    (hd : s.callee c = some d) (h : s.Active value c x) : x = value d * s.words (s.stack c) := by
  cases h with
  | held hw =>
    rw [hh.callee _ c hw] at hd
    cases hd
  | called hd' =>
    rw [hd] at hd'
    rw [Option.some.inj hd']
  | parked _ hnone =>
    rw [hnone] at hd
    cases hd

theorem HoldInv.active_parked (hh : HoldInv s) {c : ClosureId} {x : κ → V}
    (hsuspended : s.status c = .suspended) (hnone : s.callee c = none) (h : s.Active value c x) :
    x = viewOf (s.userHt c) * s.words (s.stack c) := by
  cases h with
  | held hw => exact absurd hsuspended (hh.not_suspended hw)
  | called hd =>
    rw [hnone] at hd
    cases hd
  | parked => rfl

omit [DecidableEq κ] [Monoid V] in
theorem Runtime.Settled.congr {w : WorkerId} (h : s.Settled w) (hphase : s'.phase w = s.phase w)
    (htable : s'.hyperTable w = s.hyperTable w) (hlht : s'.lht w = s.lht w)
    (hrht : s'.rht w = s.rht w) (hgood : s'.provablyGoodSteal w = s.provablyGoodSteal w) :
    s'.Settled w := by
  constructor
  · rw [hphase, htable]
    exact h.idle
  · rw [hphase, hlht, hrht, hgood]
    exact h.merged
  · rw [hphase]
    exact h.inside

omit [DecidableEq κ] in
/-- The tables of a worker that is in the work-stealing loop are empty. -/
theorem Runtime.Settled.tables_stealing {w : WorkerId} (h : s.Settled w)
    (hw : s.phase w = .stealing) : s.tables w = 1 := by
  have hmerged : s.lht w = none ∧ s.rht w = none := by simpa [hw] using h.merged
  simp [Runtime.tables, h.idle hw, hmerged]

omit [DecidableEq κ] [Monoid V] in
theorem Runtime.Settled.merged_running {w : WorkerId} {t : ClosureId} (h : s.Settled w)
    (hw : s.phase w = .running t ∨ s.phase w = .returning t) : s.lht w = none ∧ s.rht w = none := by
  rcases hw with hw | hw <;> simpa [hw] using h.merged

omit [DecidableEq κ] in
theorem Runtime.Settled.tables_running {w : WorkerId} {t : ClosureId} (h : s.Settled w)
    (hw : s.phase w = .running t ∨ s.phase w = .returning t) :
    s.tables w = viewOf (s.hyperTable w) := by
  have hmerged := h.merged_running hw
  simp [Runtime.tables, hmerged]

/-- A worker changes its own tables and the frames of the closure it holds, and keeps what they
contribute. -/
theorem ViewInv.strand (hv : ViewInv total s value) (hh' : HoldInv s')
    {w : WorkerId} {t : ClosureId} {q : Phase} (hw : (s.phase w).closure = some t)
    (hq : q.closure = some t) (hqx : q ≠ .exited t) (hphase : s'.phase = update s.phase w q)
    (hlive : s'.live = s.live) (hcallee : s'.callee = s.callee)
    (hchildren : s'.children = s.children) (hrightHt : s'.rightHt = s.rightHt)
    (huserHt : s'.userHt = s.userHt) (hchildHt : ∀ c, c ≠ t → s'.childHt c = s.childHt c)
    (hstatus : ∀ c, s'.status c = .suspended → s.status c = .suspended)
    (htables : ∀ w', w' ≠ w → s'.hyperTable w' = s.hyperTable w' ∧ s'.lht w' = s.lht w' ∧
      s'.rht w' = s.rht w' ∧ s'.provablyGoodSteal w' = s.provablyGoodSteal w')
    (hmerged : s'.lht w = none ∧ s'.rht w = none ∨
      q = .reducing t ∨ q = .scheduled t ∧ s'.provablyGoodSteal w = true)
    (hwords : ∀ c, s.live c → c ≠ t → s'.words (s'.stack c) = s.words (s.stack c))
    (hsame : s'.before value t * (s'.tables w * s'.words (s'.stack t)) =
      s.before value t * (s.tables w * s.words (s.stack t))) : ViewInv total s' value := by
  have hself : s'.phase w = q := by rw [hphase, Function.update_self]
  have hstill : ∀ w', w' ≠ w → s'.phase w' = s.phase w' := fun w' hw' => by
    rw [hphase, Function.update_of_ne hw']
  have hfar : ∀ c, s.live c → c ≠ t → Far s s' value value c := by
    intro c hc hct
    constructor
    case live => exact hc
    case before =>
      apply before_congr (hchildHt c hct) (by rw [hchildren])
      intro k _
      rw [Runtime.childViews, Runtime.childViews, hrightHt]
    case words => exact hwords c hc hct
    case holder =>
      intro w' hw'
      have hne : w' ≠ w := by
        rintro rfl
        rw [hself, hq] at hw'
        exact hct (Option.some.inj hw').symm
      obtain ⟨htable, hlht, hrht, -⟩ := htables w' hne
      exact ⟨by rw [← hstill w' hne, hw'], tables_congr hlht htable hrht⟩
    case status => exact hstatus c
    all_goals simp [hcallee, huserHt]
  constructor
  case root => exact hv.root
  case value_eq =>
    intro c x hc h
    rw [hlive] at hc
    by_cases hct : c = t
    · subst hct
      rw [hh'.active (by rw [hself, hq]) h, hsame]
      exact hv.value_eq c _ hc (.held hw)
    · exact hv.far (hfar c hc hct) h
  case settled =>
    intro w'
    by_cases hw' : w' = w
    · subst hw'
      constructor
      · intro hidle
        rw [hself] at hidle
        rw [hidle] at hq
        cases hq
      · rw [hself]
        exact hmerged.imp_right fun h => ⟨t, h⟩
      · intro c
        rw [hself]
        rintro rfl
        obtain rfl : c = t := Option.some.inj hq
        exact hqx rfl
    · obtain ⟨htable, hlht, hrht, hgood⟩ := htables w' hw'
      exact (hv.settled w').congr (hstill w' hw') htable hlht hrht hgood

end Views

end Cheetah
