import Cheetah.SerialViews

/-! What each section does to the views: user code and merges, syncs, returns and steals. -/
namespace Cheetah
open Function (update)

variable {κ V : Type} [DecidableEq κ] [Monoid V]
variable {s s' : Runtime κ V} {total : κ → V} {value value' : ClosureId → κ → V}

omit [DecidableEq κ] [Monoid V] in
/-- The frames of other closures are neither the youngest one of `t` nor new. -/
theorem FrameInv.other (hf : FrameInv s) {t c : ClosureId} {f g : FrameId} {below : List FrameId}
    (ht : s.live t) (hstack : s.stack t = f :: below) (hc : s.live c) (hct : c ≠ t)
    (hg : g ∈ s.stack c) : g ≠ f ∧ g ≠ s.numFrames := by
  constructor
  · rintro rfl
    exact hct (hf.disjoint c t g hc ht hg (by rw [hstack]; simp))
  · exact (hf.bound c g hc hg).ne

omit [DecidableEq κ] [Monoid V] in
/-- The youngest frame is not below itself. -/
theorem FrameInv.youngest (hf : FrameInv s) {t : ClosureId} {f : FrameId} {below : List FrameId}
    (ht : s.live t) (hstack : s.stack t = f :: below) :
    (∀ g ∈ below, g ≠ f ∧ g ≠ s.numFrames) ∧ f ≠ s.numFrames := by
  have hnodup := hf.nodup t ht
  have hbound := fun g => hf.bound t g ht
  rw [hstack] at hnodup hbound
  refine ⟨fun g hg => ⟨?_, (hbound g (by simp [hg])).ne⟩, (hbound f (by simp)).ne⟩
  rintro rfl
  exact (List.nodup_cons.mp hnodup).1 hg

omit [DecidableEq κ] [Monoid V] in
theorem suspended_of_update {t c : ClosureId} {st : ClosureStatus} (hst : st ≠ .suspended)
    (h : update s.status t st c = .suspended) : s.status c = .suspended := by
  by_cases hct : c = t
  · rw [hct, Function.update_self] at h
    exact absurd h hst
  · rwa [Function.update_of_ne hct] at h

/-- The worker goes on in user code; its tables and frames contribute what they did. -/
theorem ViewInv.user (hv : ViewInv total s value) (hh' : HoldInv s')
    {w : WorkerId} {t : ClosureId} (hw : s.phase w = .running t) (hphase : s'.phase = s.phase)
    (hlive : s'.live = s.live) (hcallee : s'.callee = s.callee)
    (hchildren : s'.children = s.children) (hrightHt : s'.rightHt = s.rightHt)
    (huserHt : s'.userHt = s.userHt) (hchildHt : s'.childHt = s.childHt)
    (hstatus : s'.status = s.status) (hlht : s'.lht = s.lht) (hrht : s'.rht = s.rht)
    (hgood : s'.provablyGoodSteal = s.provablyGoodSteal)
    (htable : ∀ w', w' ≠ w → s'.hyperTable w' = s.hyperTable w')
    (hwords : ∀ c, s.live c → c ≠ t → s'.words (s'.stack c) = s.words (s.stack c))
    (hsame : viewOf (s'.hyperTable w) * s'.words (s'.stack t) =
      viewOf (s.hyperTable w) * s.words (s.stack t)) : ViewInv total s' value := by
  have hheld : (s.phase w).closure = some t := by rw [hw]; rfl
  have hmerged := (hv.settled w).merged_running (.inl hw)
  refine hv.strand hh' (q := .running t) hheld rfl (by simp) (by rw [hphase, ← hw]; simp) hlive
    hcallee hchildren hrightHt huserHt (fun c _ => by rw [hchildHt])
    (fun c => by rw [hstatus]; exact id)
    (fun w' hw' => ⟨htable w' hw', by rw [hlht], by rw [hrht], by rw [hgood]⟩)
    (.inl (by rw [hlht, hrht]; exact hmerged)) hwords ?_
  have hbefore : s'.before value t = s.before value t := by
    apply before_congr (by rw [hchildHt]) (by rw [hchildren])
    intro k _
    rw [Runtime.childViews, Runtime.childViews, hrightHt]
  rw [hbefore, Runtime.tables, Runtime.tables, hlht, hrht, hmerged.1, hmerged.2]
  simp [hsame]

/-- The worker moves on with the closure it holds, and its frames have left what they had. -/
theorem ViewInv.merge (hv : ViewInv total s value) (hh' : HoldInv s') {w : WorkerId}
    {t : ClosureId} {q : Phase} (hw : (s.phase w).closure = some t) (hq : q.closure = some t)
    (hqx : q ≠ .exited t) (hphase : s'.phase = update s.phase w q) (hlive : s'.live = s.live)
    (hcallee : s'.callee = s.callee) (hchildren : s'.children = s.children)
    (hrightHt : s'.rightHt = s.rightHt) (huserHt : s'.userHt = s.userHt)
    (hchildHt : ∀ c, c ≠ t → s'.childHt c = s.childHt c)
    (hstatus : ∀ c, s'.status c = .suspended → s.status c = .suspended)
    (htables : ∀ w', w' ≠ w → s'.hyperTable w' = s.hyperTable w' ∧ s'.lht w' = s.lht w' ∧
      s'.rht w' = s.rht w' ∧ s'.provablyGoodSteal w' = s.provablyGoodSteal w')
    (hmerged : s'.lht w = none ∧ s'.rht w = none ∨
      q = .reducing t ∨ q = .scheduled t ∧ s'.provablyGoodSteal w = true)
    (hwords : ∀ c, s.live c → s'.words (s'.stack c) = s.words (s.stack c)) (hlivet : s.live t)
    (hsame : s'.before value t * s'.tables w = s.before value t * s.tables w) :
    ViewInv total s' value := by
  refine hv.strand hh' hw hq hqx hphase hlive hcallee hchildren hrightHt huserHt hchildHt hstatus
    htables hmerged (fun c hc _ => hwords c hc) ?_
  rw [hwords t hlivet, ← mul_assoc, hsame, mul_assoc]

theorem ViewInv.enter (hv : ViewInv total s value) (hf : FrameInv s) (hh : HoldInv s) {w : WorkerId}
    {t : ClosureId} {f : FrameId} {below : List FrameId} (hw : s.phase w = .running t)
    (hstack : s.stack t = f :: below) {callee rest : Code κ V}
    (hword : (s.code f).word = callee.word * rest.word) {detached : Bool} {sp : FrameId → ℕ}
    {deque : WorkerId → List FrameId}
    (hh' : HoldInv ({ s with
      code := update s.code f rest
      sp := sp
      deque := deque }.pushFrame t callee detached false)) :
    ViewInv total ({ s with
      code := update s.code f rest
      sp := sp
      deque := deque }.pushFrame t callee detached false) value := by
  have hlive := hh.live w t (by rw [hw]; rfl)
  obtain ⟨hbelow, hnew⟩ := hf.youngest hlive hstack
  refine hv.user hh' hw rfl rfl rfl rfl rfl rfl rfl rfl rfl rfl rfl (fun _ _ => rfl) ?_ ?_
  · intro c hc hct
    simp only [Runtime.pushFrame, Function.update_of_ne hct]
    apply words_eq
    intro g hg
    obtain ⟨hgf, hgn⟩ := hf.other hlive hstack hc hct hg
    simp [hgf, hgn]
  · have hkept : ∀ g ∈ below, update (update s.code f rest) s.numFrames callee g = s.code g := by
      intro g hg
      simp [hbelow g hg]
    simp only [Runtime.pushFrame, Function.update_self, hstack, words_cons,
      Function.update_of_ne hnew, hword]
    rw [words_eq hkept, ← mul_assoc callee.word]

/-- The worker leaves a frame that has nothing left to do. -/
theorem ViewInv.leave (hv : ViewInv total s value) (hh' : HoldInv s') {w : WorkerId}
    {t : ClosureId} {f : FrameId} {below : List FrameId} (hw : s.phase w = .running t)
    (hstack : s.stack t = f :: below) (hcode : s.code f = .done) (hphase : s'.phase = s.phase)
    (hlive : s'.live = s.live) (hcallee : s'.callee = s.callee)
    (hchildren : s'.children = s.children) (hrightHt : s'.rightHt = s.rightHt)
    (huserHt : s'.userHt = s.userHt) (hchildHt : s'.childHt = s.childHt)
    (hstatus : s'.status = s.status) (hlht : s'.lht = s.lht) (hrht : s'.rht = s.rht)
    (hgood : s'.provablyGoodSteal = s.provablyGoodSteal) (htable : s'.hyperTable = s.hyperTable)
    (hcodes : s'.code = s.code) (hstacks : s'.stack = update s.stack t below) :
    ViewInv total s' value := by
  refine hv.user hh' hw hphase hlive hcallee hchildren hrightHt huserHt hchildHt hstatus hlht hrht
    hgood (fun _ _ => by rw [htable]) ?_ ?_
  · intro c _ hct
    rw [hstacks, Function.update_of_ne hct]
    exact words_eq fun g _ => by rw [hcodes]
  · have hword : s.words (f :: below) = s.words below := by
      rw [words_cons, hcode]
      exact one_mul _
    have hkept : s'.words below = s.words below := words_eq fun g _ => by rw [hcodes]
    rw [hstacks, Function.update_self, hstack, hword, htable, hkept]

theorem words_same (hcode : s'.code = s.code) (frames : List FrameId) :
    s'.words frames = s.words frames :=
  words_eq fun f _ => by rw [hcode]

/-- A failed sync: the worker leaves its table with the closure. -/
theorem ViewInv.park (hv : ViewInv total s value) (hh : HoldInv s) (hh' : HoldInv s')
    {w : WorkerId} {t : ClosureId} (hw : s.phase w = .running t)
    (hphase : s'.phase = update s.phase w .stealing) (hlive : s'.live = s.live)
    (hcallee : s'.callee = s.callee) (hchildren : s'.children = s.children)
    (hrightHt : s'.rightHt = s.rightHt) (hchildHt : s'.childHt = s.childHt)
    (huserHt : s'.userHt = update s.userHt t (s.hyperTable w))
    (hstatus : s'.status = update s.status t .suspended) (hcode : s'.code = s.code)
    (hstack : s'.stack = s.stack) (htable : s'.hyperTable = update s.hyperTable w none)
    (hlht : s'.lht = s.lht) (hrht : s'.rht = s.rht)
    (hgood : s'.provablyGoodSteal = s.provablyGoodSteal) : ViewInv total s' value := by
  have hheld : (s.phase w).closure = some t := by rw [hw]; rfl
  have hlivet := hh.live w t hheld
  have hself : s'.phase w = .stealing := by rw [hphase, Function.update_self]
  have hstill : ∀ w', w' ≠ w → s'.phase w' = s.phase w' := fun w' hw' => by
    rw [hphase, Function.update_of_ne hw']
  have hbefore : ∀ c, s'.before value c = s.before value c := by
    intro c
    apply before_congr (by rw [hchildHt]) (by rw [hchildren])
    intro k _
    rw [Runtime.childViews, Runtime.childViews, hrightHt]
  have hwords : ∀ c, s'.words (s'.stack c) = s.words (s.stack c) := fun c => by
    rw [hstack, words_same hcode]
  have hfar : ∀ c, s.live c → c ≠ t → Far s s' value value c := by
    intro c hc hct
    constructor
    case live => exact hc
    case before => exact hbefore c
    case words => exact hwords c
    case holder =>
      intro w' hw'
      have hne : w' ≠ w := by
        rintro rfl
        rw [hself] at hw'
        cases hw'
      rw [hstill w' hne] at hw'
      have htables : s'.tables w' = s.tables w' :=
        tables_congr (by rw [hlht]) (by rw [htable, Function.update_of_ne hne]) (by rw [hrht])
      exact ⟨hw', htables⟩
    case status => simp [hstatus, hct]
    all_goals simp [hcallee, huserHt, hct]
  constructor
  case root => exact hv.root
  case value_eq =>
    intro c x hc h
    rw [hlive] at hc
    by_cases hct : c = t
    · subst hct
      have hx := hh'.active_parked (by rw [hstatus, Function.update_self])
        (by rw [hcallee, hh.callee w c hheld]) h
      have hown := hv.value_eq c _ hlivet (.held hheld)
      rw [(hv.settled w).tables_running (.inl hw)] at hown
      rw [hx, hown, hbefore, hwords, huserHt, Function.update_self]
    · exact hv.far (hfar c hc hct) h
  case settled =>
    intro w'
    by_cases hw' : w' = w
    · subst hw'
      constructor
      · simp [htable]
      · rw [hlht, hrht]
        exact .inl ((hv.settled w').merged_running (.inl hw))
      · simp [hself]
    · exact (hv.settled w').congr (hstill w' hw') (by rw [htable, Function.update_of_ne hw'])
        (by rw [hlht]) (by rw [hrht]) (by rw [hgood])

/-- A called frame is done: the worker goes on with the closure that called it. -/
theorem ViewInv.uncall (hv : ViewInv total s value) (hh : HoldInv s) (hh' : HoldInv s')
    {w : WorkerId} {t p : ClosureId} (hw : s.phase w = .running t) (hp : s.live p)
    (hd : s.callee p = some t) (hpt : p ≠ t) (hchildrenNone : s.children t = [])
    (hchildHtNone : s.childHt t = none) (hdone : s.words (s.stack t) = 1)
    (hphase : s'.phase = update s.phase w (.running p)) (hlive : s'.live = update s.live t false)
    (hcallee : s'.callee = update s.callee p none) (hchildren : s'.children = s.children)
    (hrightHt : s'.rightHt = s.rightHt) (hchildHt : s'.childHt = s.childHt)
    (huserHt : s'.userHt = s.userHt)
    (hstatus : ∀ c, c ≠ t → c ≠ p → s'.status c = s.status c) (hcode : s'.code = s.code)
    (hstack : ∀ c, c ≠ t → s'.stack c = s.stack c) (htable : s'.hyperTable = s.hyperTable)
    (hlht : s'.lht = s.lht) (hrht : s'.rht = s.rht)
    (hgood : s'.provablyGoodSteal = s.provablyGoodSteal) : ViewInv total s' value := by
  have hheld : (s.phase w).closure = some t := by rw [hw]; rfl
  have hlivet := hh.live w t hheld
  have hself : s'.phase w = .running p := by rw [hphase, Function.update_self]
  have hstill : ∀ w', w' ≠ w → s'.phase w' = s.phase w' := fun w' hw' => by
    rw [hphase, Function.update_of_ne hw']
  have htables : ∀ w', s'.tables w' = s.tables w' := fun w' =>
    tables_congr (by rw [hlht]) (by rw [htable]) (by rw [hrht])
  have hbefore : ∀ c, s'.before value c = s.before value c := by
    intro c
    apply before_congr (by rw [hchildHt]) (by rw [hchildren])
    intro k _
    rw [Runtime.childViews, Runtime.childViews, hrightHt]
  have hwords : ∀ c, c ≠ t → s'.words (s'.stack c) = s.words (s.stack c) := fun c hct => by
    rw [hstack c hct, words_same hcode]
  have hfar : ∀ c, s.live c → c ≠ t → c ≠ p → Far s s' value value c := by
    intro c hc hct hcp
    constructor
    case live => exact hc
    case before => exact hbefore c
    case words => exact hwords c hct
    case holder =>
      intro w' hw'
      have hne : w' ≠ w := by
        rintro rfl
        rw [hself] at hw'
        exact hcp (Option.some.inj hw').symm
      rw [hstill w' hne] at hw'
      exact ⟨hw', htables w'⟩
    case status => rw [hstatus c hct hcp]; exact id
    all_goals simp [hcallee, huserHt, hcp]
  constructor
  case root => exact hv.root
  case value_eq =>
    intro c x hc h
    have hct : c ≠ t := by
      rintro rfl
      simp [hlive] at hc
    have hc : s.live c := by simpa [hlive, hct] using hc
    by_cases hcp : c = p
    · subst hcp
      have hown := hv.value_eq t _ hlivet (.held hheld)
      rw [before_leaf hchildrenNone hchildHtNone, hdone, one_mul, mul_one] at hown
      rw [hh'.active (by rw [hself]; rfl) h, htables, hwords c hct, hbefore, ← hown]
      exact hv.value_eq c _ hc (.called hd)
    · exact hv.far (hfar c hc hct hcp) h
  case settled =>
    intro w'
    by_cases hw' : w' = w
    · subst hw'
      constructor
      · simp [hself]
      · rw [hlht, hrht]
        exact .inl ((hv.settled w').merged_running (.inl hw))
      · simp [hself]
    · exact (hv.settled w').congr (hstill w' hw') (by rw [htable]) (by rw [hlht]) (by rw [hrht])
        (by rw [hgood])

omit [DecidableEq κ] in
/-- The place of a child among its siblings: what is to its left, its left table, its own views and
those to its right, and the rest. -/
theorem LinksInv.before_split (hl : LinksInv s) (value : ClosureId → κ → V) {p k : ClosureId}
    (hp : s.live p) (hk : k ∈ s.children p) : ∃ left right : κ → V,
      ∀ (s' : Runtime κ V) (value' : ClosureId → κ → V), s'.children p = s.children p →
        s'.leftSib k = s.leftSib k → (∀ j ∈ s.children p, j ≠ k → value' j = value j) →
        (∀ j ∈ s.children p, j ≠ k → s.leftSib k ≠ some j → s'.rightHt j = s.rightHt j) →
        (s.leftSib k ≠ none → s'.childHt p = s.childHt p) →
        s'.before value' p = left * (viewOf (s'.leftHt p k) * s'.childViews value' k) * right := by
  have hlinked := hl.linked p hp
  have hnodup := hl.nodup p hp
  cases hleft : s.leftSib k with
  | none =>
    obtain ⟨l₂, hl₂⟩ := hlinked.first hk hleft
    rw [hl₂, List.nodup_cons] at hnodup
    refine ⟨1, (l₂.map (s.childViews value)).prod, ?_⟩
    intro s' value' hchildren hleftSib hvalue hrightHt _
    have hrest : l₂.map (s'.childViews value') = l₂.map (s.childViews value) := by
      apply List.map_congr_left
      intro j hj
      have hjk : j ≠ k := by
        rintro rfl
        exact hnodup.1 hj
      have hmem : j ∈ s.children p := by simp [hl₂, hj]
      rw [Runtime.childViews, Runtime.childViews, hvalue j hmem hjk,
        hrightHt j hmem hjk (by simp)]
    have hslot : s'.leftHt p k = s'.childHt p := by rw [Runtime.leftHt, hleftSib]
    rw [Runtime.before, hchildren, hl₂, List.map_cons, List.prod_cons, hrest, hslot, one_mul,
      mul_assoc]
  | some b =>
    obtain ⟨l₁, l₂, hl₁⟩ := hlinked.pred hk hleft
    refine ⟨viewOf (s.childHt p) * (l₁.map (s.childViews value)).prod * value b,
      (l₂.map (s.childViews value)).prod, ?_⟩
    intro s' value' hchildren hleftSib hvalue hrightHt hchildHt
    rw [hl₁] at hnodup
    simp only [List.nodup_append, List.nodup_cons, List.mem_cons, not_or] at hnodup
    obtain ⟨-, ⟨⟨hbk, hb₂⟩, hk₂, -⟩, hdisjoint⟩ := hnodup
    have hkept : ∀ l : List ClosureId, (∀ j ∈ l, j ∈ s.children p ∧ j ≠ k ∧ j ≠ b) →
        l.map (s'.childViews value') = l.map (s.childViews value) := by
      intro l hmem
      apply List.map_congr_left
      intro j hj
      obtain ⟨hjp, hjk, hjb⟩ := hmem j hj
      rw [Runtime.childViews, Runtime.childViews, hvalue j hjp hjk,
        hrightHt j hjp hjk (by simpa using Ne.symm hjb)]
    have hkept₁ := hkept l₁ fun j hj =>
      ⟨by simp [hl₁, hj], hdisjoint j hj k (by simp), hdisjoint j hj b (by simp)⟩
    have hkept₂ := hkept l₂ fun j hj =>
      ⟨by simp [hl₁, hj], fun h => hk₂ (h ▸ hj), fun h => hb₂ (h ▸ hj)⟩
    have hslot : s'.leftHt p k = s'.rightHt b := by rw [Runtime.leftHt, hleftSib]
    have hviews : s'.childViews value' b = value b * viewOf (s'.rightHt b) := by
      rw [Runtime.childViews, hvalue b (by simp [hl₁]) hbk]
    rw [Runtime.before, hchildren, hchildHt (by simp), hl₁, List.map_append, List.map_cons,
      List.map_cons, List.prod_append, List.prod_cons, List.prod_cons, hkept₁, hkept₂, hslot,
      hviews]
    simp only [mul_assoc]

omit [DecidableEq κ] in
/-- The tables around a child are not those of another closure's children. -/
theorem LinksInv.before_other (hl : LinksInv s) {p k c : ClosureId} (hp : s.live p)
    (hk : k ∈ s.children p) (hc : s.live c) (hcp : c ≠ p)
    (hchildHt : s'.childHt c = s.childHt c) (hchildren : s'.children c = s.children c)
    (hvalue : ∀ j, j ≠ k → value' j = value j)
    (hrightHt : ∀ j, j ≠ k → s.leftSib k ≠ some j → s'.rightHt j = s.rightHt j) :
    s'.before value' c = s.before value c := by
  apply before_congr hchildHt hchildren
  intro j hj
  have hjk : j ≠ k := by
    rintro rfl
    exact hcp (hl.disjoint hc hp hj hk)
  have hleft : s.leftSib k ≠ some j := fun h =>
    hcp (hl.disjoint hc hp hj ((hl.linked p hp).left_mem hk h))
  rw [Runtime.childViews, Runtime.childViews, hvalue j hjk, hrightHt j hjk hleft]

/-- A closure that is returned has nothing but the table of its worker. -/
theorem ViewInv.returning (hv : ViewInv total s value) (hh : HoldInv s) (hf : FrameInv s)
    {w : WorkerId} {t : ClosureId} (hw : s.phase w = .returning t) :
    s.words (s.stack t) = 1 ∧ value t = viewOf (s.hyperTable w) := by
  have hheld : (s.phase w).closure = some t := by rw [hw]; rfl
  obtain ⟨f, hframe, hstack⟩ := hf.single w t (.inr (.inr hw))
  obtain ⟨hchildren, hchildHt, -⟩ := hf.returning_childless hh hw
  have hwords : s.words (s.stack t) = 1 := by
    rw [hstack, words_cons, (hf.done f (hf.returning w t f hw hframe)).1]
    exact one_mul _
  refine ⟨hwords, ?_⟩
  rw [hv.value_eq t _ (hh.live w t hheld) (.held hheld), before_leaf hchildren hchildHt, hwords,
    (hv.settled w).tables_running (.inr hw), one_mul, mul_one]

omit [DecidableEq κ] in
/-- The tables that a returning child takes were next to its own. -/
theorem before_takeTables (hl : LinksInv s) {w : WorkerId} {t parent c : ClosureId}
    (hp : s.live parent) (hmem : t ∈ s.children parent) (hc : s.live c) :
    (s.takeTables w parent t).before
      (update value t (viewOf (s.leftHt parent t) * s.childViews value t)) c =
        s.before value c := by
  by_cases hcp : c = parent
  · subst hcp
    obtain ⟨left, right, hsplit⟩ := hl.before_split value hp hmem
    have hleft : (s.takeTables w c t).leftHt c t = none := by
      cases hsib : s.leftSib t <;>
        simp [Runtime.leftHt, Runtime.takeTables, Runtime.setLeftHt, Runtime.setupForExecution,
          hsib]
    have hright : (s.takeTables w c t).rightHt t = none := by
      by_cases hsib : s.leftSib t = some t
      · simp [Runtime.takeTables, Runtime.setLeftHt, Runtime.setupForExecution, hsib]
      · exact (storeAt_of_ne hsib).trans (Function.update_self _ _ _)
    rw [hsplit s value rfl rfl (fun _ _ _ => rfl) (fun _ _ _ _ => rfl) (fun _ => rfl),
      hsplit (s.takeTables w c t) _ rfl rfl (fun j _ hj => Function.update_of_ne hj _ _)]
    · rw [hleft, Runtime.childViews, Function.update_self, hright]
      simp
    · intro j _ hj hsib
      exact (storeAt_of_ne hsib).trans (Function.update_of_ne hj _ _)
    · intro hsib
      simp [Runtime.takeTables, Runtime.setLeftHt, Runtime.setupForExecution, hsib]
  · apply hl.before_other hp hmem hc hcp
    · exact childHt_setLeftHt hcp _
    · rfl
    · exact fun j hj => Function.update_of_ne hj _ _
    · exact fun j hj hsib => (storeAt_of_ne hsib).trans (Function.update_of_ne hj _ _)

/-- A returning child takes the tables on both sides. -/
theorem ViewInv.takeTables (hv : ViewInv total s value) (hl : LinksInv s) (hh : HoldInv s)
    (hf : FrameInv s) {w : WorkerId} {t parent : ClosureId} (hw : s.phase w = .returning t)
    (hparent : s.spawnParent t = some parent) (hroot : t ≠ 0)
    (hh' : HoldInv (s.takeTables w parent t)) :
    ViewInv total (s.takeTables w parent t)
      (update value t (viewOf (s.leftHt parent t) * s.childViews value t)) := by
  obtain ⟨hlive, hp, hmem, hne⟩ := hl.parent hh hf hw hparent
  have hheld : (s.phase w).closure = some t := by rw [hw]; rfl
  have hself : (s.takeTables w parent t).phase w = .scheduled t := Function.update_self _ _ _
  have hstill : ∀ w', w' ≠ w → (s.takeTables w parent t).phase w' = s.phase w' := fun w' hw' =>
    Function.update_of_ne hw' _ _
  have hfar : ∀ c, s.live c → c ≠ t → Far s (s.takeTables w parent t) value
      (update value t (viewOf (s.leftHt parent t) * s.childViews value t)) c := by
    intro c hc hct
    constructor
    case live => exact hc
    case same => exact Function.update_of_ne hct _ _
    case before => exact before_takeTables hl hp hmem hc
    case words => exact words_same rfl _
    case holder =>
      intro w' hw'
      have hne : w' ≠ w := by
        rintro rfl
        rw [hself] at hw'
        exact hct (Option.some.inj hw').symm
      rw [hstill w' hne] at hw'
      exact ⟨hw', tables_congr (Function.update_of_ne hne _ _) rfl (Function.update_of_ne hne _ _)⟩
    case called =>
      intro d hd
      apply Function.update_of_ne
      rintro rfl
      have hcall := ((hl.called c d hc).mp hd).2
      rw [hl.oneParent d hlive (by simp [hparent])] at hcall
      cases hcall
    case status => exact fun h => (Function.update_of_ne hct _ _).symm.trans h
    all_goals rfl
  constructor
  case root => exact (Function.update_of_ne (Ne.symm hroot) _ _).trans hv.root
  case value_eq =>
    intro c x hc h
    by_cases hct : c = t
    · subst hct
      obtain ⟨hwords, hvalue⟩ := hv.returning hh hf hw
      obtain ⟨hchildren, hchildHt, -⟩ := hf.returning_childless hh hw
      have htables : (s.takeTables w parent c).tables w =
          viewOf (s.leftHt parent c) * viewOf (s.hyperTable w) * viewOf (s.rightHt c) := by
        simp [Runtime.tables, Runtime.takeTables, Runtime.setupForExecution, Runtime.setLeftHt]
      have hwords' : (s.takeTables w parent c).words ((s.takeTables w parent c).stack c) = 1 :=
        (words_same rfl _).trans hwords
      rw [hh'.active (by rw [hself]; rfl) h, before_takeTables hl hp hmem hlive,
        before_leaf hchildren hchildHt, htables, hwords', Function.update_self, Runtime.childViews,
        hvalue]
      simp only [one_mul, mul_one, mul_assoc]
    · exact hv.far (hfar c hc hct) h
  case settled =>
    intro w'
    by_cases hw' : w' = w
    · subst hw'
      constructor
      · simp [hself]
      · exact .inr ⟨t, .inr ⟨hself, Function.update_self _ _ _⟩⟩
      · simp [hself]
    · exact (hv.settled w').congr (hstill w' hw') rfl (Function.update_of_ne hw' _ _)
        (Function.update_of_ne hw' _ _) (Function.update_of_ne hw' _ _)

theorem prod_map_erase_of_eq_one {α M : Type*} [DecidableEq α] [Monoid M] {f : α → M} {a : α}
    (l : List α) (h : f a = 1) : ((l.erase a).map f).prod = (l.map f).prod := by
  induction l with
  | nil => rfl
  | cons b l ih =>
    by_cases hba : b = a
    · simp [hba, h]
    · rw [List.erase_cons_tail (by simpa using hba), List.map_cons, List.map_cons, List.prod_cons,
        List.prod_cons, ih]

/-- The table of a returning child goes where the child was. -/
theorem before_returnChild (hv : ViewInv total s value) (hl : LinksInv s) (hh : HoldInv s)
    (hf : FrameInv s) {w : WorkerId} {t parent c : ClosureId} (hw : s.phase w = .returning t)
    (hparent : s.spawnParent t = some parent) (hleft : s.leftHt parent t = none)
    (hright : s.rightHt t = none) (hc : s.live c) :
    (s.returnChild w parent t).before value c = s.before value c := by
  obtain ⟨hlive, hp, hmem, hne⟩ := hl.parent hh hf hw hparent
  by_cases hcp : c = parent
  · subst hcp
    have hsib := hl.leftSib_ne hp hmem
    obtain ⟨left, right, hsplit⟩ := hl.before_split value hp hmem
    let deposited := s.setLeftHt c t (s.hyperTable w)
    have hslot : deposited.leftHt c t = s.hyperTable w := by
      cases hsib : s.leftSib t <;> simp [deposited, Runtime.leftHt, Runtime.setLeftHt, hsib]
    have hnone : deposited.rightHt t = none := (storeAt_of_ne hsib).trans hright
    have hdeposited : deposited.before (update value t 1) c = s.before value c := by
      rw [hsplit s value rfl rfl (fun _ _ _ => rfl) (fun _ _ _ _ => rfl) (fun _ => rfl),
        hsplit deposited _ rfl rfl (fun j _ hj => Function.update_of_ne hj _ _)
          (fun j _ _ hj => storeAt_of_ne hj)]
      · rw [hslot, hleft, Runtime.childViews, Runtime.childViews, Function.update_self, hnone,
          hright, (hv.returning hh hf hw).2]
        simp
      · intro hsib
        simp [deposited, Runtime.setLeftHt, hsib]
    calc (s.returnChild w c t).before value c
        = viewOf (deposited.childHt c) *
            (((s.children c).erase t).map (deposited.childViews (update value t 1))).prod := by
          have hchildren : (s.returnChild w c t).children c = (s.children c).erase t :=
            Function.update_self _ _ _
          rw [Runtime.before, hchildren]
          have hviews : ∀ j ∈ (s.children c).erase t, (s.returnChild w c t).childViews value j =
              deposited.childViews (update value t 1) j := by
            intro j hj
            have hjt : j ≠ t := by
              rintro rfl
              exact (hl.nodup c hp).not_mem_erase hj
            rw [Runtime.childViews, Runtime.childViews, Function.update_of_ne hjt]
            rfl
          rw [List.map_congr_left hviews]
          rfl
      _ = deposited.before (update value t 1) c := by
          rw [prod_map_erase_of_eq_one _ (by simp [Runtime.childViews, hnone])]
          rfl
      _ = s.before value c := hdeposited
  · apply hl.before_other hp hmem hc hcp
    · exact childHt_setLeftHt hcp _
    · exact Function.update_of_ne hcp _ _
    · exact fun _ _ => rfl
    · exact fun j _ hsib => storeAt_of_ne hsib

/-- A child that has nothing left to merge returns. -/
theorem ViewInv.returnChild (hv : ViewInv total s value) (hl : LinksInv s) (hh : HoldInv s)
    (hf : FrameInv s) {w : WorkerId} {t parent : ClosureId} (hw : s.phase w = .returning t)
    (hparent : s.spawnParent t = some parent) (hleft : s.leftHt parent t = none)
    (hright : s.rightHt t = none) : ViewInv total (s.returnChild w parent t) value := by
  obtain ⟨hlive, hp, hmem, hne⟩ := hl.parent hh hf hw hparent
  have hheld : (s.phase w).closure = some t := by rw [hw]; rfl
  have hself : (s.returnChild w parent t).phase w = .stealing := Function.update_self _ _ _
  have hstill : ∀ w', w' ≠ w → (s.returnChild w parent t).phase w' = s.phase w' := fun w' hw' =>
    Function.update_of_ne hw' _ _
  obtain ⟨hcode, hgood, -, hcallee, -, -⟩ := returnChild_same (s := s) w parent t
  have hfar : ∀ c, s.live c → c ≠ t → Far s (s.returnChild w parent t) value value c := by
    intro c hc hct
    constructor
    case live => exact hc
    case before => exact before_returnChild hv hl hh hf hw hparent hleft hright hc
    case words => 
      have hstack : (s.returnChild w parent t).stack c = s.stack c := Function.update_of_ne hct _ _
      rw [hstack, words_same hcode]
    case holder =>
      intro w' hw'
      have hne : w' ≠ w := by
        rintro rfl
        rw [hself] at hw'
        cases hw'
      rw [hstill w' hne] at hw'
      exact ⟨hw', tables_congr rfl (Function.update_of_ne hne _ _) rfl⟩
    case callee => rw [hcallee]
    case status => exact fun h => (Function.update_of_ne hct _ _).symm.trans h
    all_goals first | rfl | exact fun _ _ => rfl
  constructor
  case root => exact hv.root
  case value_eq =>
    intro c x hc h
    have hct : c ≠ t := by
      rintro rfl
      exact absurd ((Function.update_self _ _ _).symm.trans hc) (by simp)
    have hc : s.live c := (Function.update_of_ne hct _ _).symm.trans hc
    exact hv.far (hfar c hc hct) h
  case settled =>
    intro w'
    by_cases hw' : w' = w
    · subst hw'
      constructor
      · exact fun _ => Function.update_self _ _ _
      · exact .inl ((hv.settled w').merged_running (.inr hw))
      · simp [hself]
    · exact (hv.settled w').congr (hstill w' hw') (Function.update_of_ne hw' _ _) rfl rfl
        (congrFun hgood w')

/-- A worker takes a suspended closure whose children have all returned. -/
theorem ViewInv.resumeParent (hv : ViewInv total s value) {w : WorkerId} {p : ClosureId}
    (hw : s.phase w = .stealing) (hp : s.live p) (hsuspended : s.status p = .suspended)
    (hnone : s.callee p = none) (hchildren : s.children p = [])
    (hh' : HoldInv (s.resumeParent w p)) : ViewInv total (s.resumeParent w p) value := by
  have hself : (s.resumeParent w p).phase w = .scheduled p := Function.update_self _ _ _
  have hstill : ∀ w', w' ≠ w → (s.resumeParent w p).phase w' = s.phase w' := fun w' hw' =>
    Function.update_of_ne hw' _ _
  have hfar : ∀ c, s.live c → c ≠ p → Far s (s.resumeParent w p) value value c := by
    intro c hc hcp
    constructor
    case live => exact hc
    case before => exact before_congr (Function.update_of_ne hcp _ _) rfl fun _ _ => rfl
    case words => exact words_same rfl _
    case holder =>
      intro w' hw'
      have hne : w' ≠ w := by
        rintro rfl
        rw [hself] at hw'
        exact hcp (Option.some.inj hw').symm
      rw [hstill w' hne] at hw'
      exact ⟨hw', tables_congr (Function.update_of_ne hne _ _) (Function.update_of_ne hne _ _) rfl⟩
    case status => exact fun h => (Function.update_of_ne hcp _ _).symm.trans h
    case userHt => exact Function.update_of_ne hcp _ _
    all_goals first | rfl | exact fun _ _ => rfl
  constructor
  case root => exact hv.root
  case value_eq =>
    intro c x hc h
    by_cases hcp : c = p
    · subst hcp
      have hrht : s.rht w = none := by
        have hmerged := (hv.settled w).merged
        simp only [hw, reduceCtorEq, false_and, or_self, exists_false, or_false] at hmerged
        exact hmerged.2
      have htables : (s.resumeParent w c).tables w =
          viewOf (s.childHt c) * viewOf (s.userHt c) := by
        simp [Runtime.tables, Runtime.resumeParent, Runtime.setupForExecution, Runtime.setupForSync,
          Runtime.deallocateFiber, hrht]
      have hwords : (s.resumeParent w c).words ((s.resumeParent w c).stack c) =
          s.words (s.stack c) := words_same rfl _
      have hold := hv.value_eq c _ hp (.parked hsuspended hnone)
      rw [Runtime.before, hchildren] at hold
      have hleaf : (s.resumeParent w c).before value c = 1 :=
        before_leaf hchildren (Function.update_self _ _ _)
      rw [hh'.active (by rw [hself]; rfl) h, htables, hwords, hleaf, hold]
      simp only [List.map_nil, List.prod_nil, one_mul, mul_one, mul_assoc]
    · exact hv.far (hfar c hc hcp) h
  case settled =>
    intro w'
    by_cases hw' : w' = w
    · subst hw'
      constructor
      · simp [hself]
      · exact .inr ⟨p, .inr ⟨hself, Function.update_self _ _ _⟩⟩
      · simp [hself]
    · exact (hv.settled w').congr (hstill w' hw') (Function.update_of_ne hw' _ _)
        (Function.update_of_ne hw' _ _) rfl (Function.update_of_ne hw' _ _)

omit [DecidableEq κ] in
/-- The views of live children do not change with those of others. -/
theorem LinksInv.childViews_congr (hl : LinksInv s) (hvalue : ∀ c, s.live c → value' c = value c)
    (hrightHt : ∀ c, s.live c → s'.rightHt c = s.rightHt c) {c : ClosureId} (hc : s.live c) :
    (s.children c).map (s'.childViews value') = (s.children c).map (s.childViews value) := by
  apply List.map_congr_left
  intro j hj
  have hlive := hl.mem_live hc hj
  rw [Runtime.childViews, Runtime.childViews, hvalue j hlive, hrightHt j hlive]

/-- The closures that a steal leaves alone. -/
theorem Splits.far {w victim : WorkerId} {cl k res : ClosureId} {f : FrameId}
    {parents above below : List FrameId} (hs : Splits s s' w victim cl k res f parents above below)
    (hl : LinksInv s) (hvalue : ∀ c, s.live c → value' c = value c)
    (hrightHt : ∀ c, s.live c → s'.rightHt c = s.rightHt c)
    (htables : ∀ w', s'.tables w' = s.tables w')
    (huserHt : ∀ c, s.live c → s'.userHt c = s.userHt c) {c : ClosureId} (hc : s.live c)
    (hck : c ≠ k) (hcr : c ≠ res) (hcl : c ≠ cl) : Far s s' value value' c := by
  constructor
  case live => exact hc
  case same => exact hvalue c hc
  case before =>
    rw [Runtime.before, Runtime.before, hs.childHt c hck hcr, hs.children c hck hcr,
      hl.childViews_congr hvalue hrightHt hc]
  case words => rw [hs.stack c hck hcr hcl, words_same hs.code]
  case holder =>
    intro w' hw'
    have hne : w' ≠ w := by
      rintro rfl
      rw [hs.phaseThief] at hw'
      exact hcr (Option.some.inj hw').symm
    have hnev : w' ≠ victim := by
      rintro rfl
      rw [hs.phaseVictim] at hw'
      exact hck (Option.some.inj hw').symm
    rw [hs.phase w' hne hnev] at hw'
    exact ⟨hw', htables w'⟩
  case callee => exact hs.callee c hck hcr hcl
  case called => exact fun d hd => hvalue d ((hl.called c d hc).mp hd).1
  case status => rw [hs.status c hck hcr hcl]; exact id
  case userHt => exact huserHt c hc

omit [DecidableEq κ] [Monoid V] in
/-- The tables of the workers after a steal. -/
theorem Splits.settled {w victim : WorkerId} {cl k res : ClosureId} {f : FrameId}
    {parents above below : List FrameId} (hs : Splits s s' w victim cl k res f parents above below)
    (hw : s.phase w = .stealing) (hvictim : s.phase victim = .running cl)
    (htable : s'.hyperTable = s.hyperTable) (hlht : s'.lht = s.lht) (hrht : s'.rht = s.rht)
    (hsettled : ∀ w', s.Settled w') (w' : WorkerId) : s'.Settled w' := by
  by_cases hw' : w' = w
  · subst hw'
    constructor
    · simp [hs.phaseThief]
    · left
      simpa [hlht, hrht, hw] using (hsettled w').merged
    · simp [hs.phaseThief]
  · by_cases hv' : w' = victim
    · subst hv'
      constructor
      · simp [hs.phaseVictim]
      · rw [hlht, hrht]
        exact .inl ((hsettled w').merged_running (.inl hvictim))
      · simp [hs.phaseVictim]
    · exact (hsettled w').congr (hs.phase w' hw' hv') (by rw [htable]) (by rw [hlht]) (by rw [hrht])
        (by rw [hs.good])

section Steals

attribute [local simp] Runtime.stealOwn Runtime.stealCalled Runtime.addCallee Runtime.promoteChild
  Runtime.finishSteal Runtime.setupForExecution Runtime.addChild Runtime.createClosure

/-- The thief goes on with the closure from an empty table, to the right of the new child. -/
theorem ViewInv.stealOwn (hv : ViewInv total s value) (hl : LinksInv s) (hh : HoldInv s)
    (hroot : s.live 0) {w victim : WorkerId} {cl : ClosureId} {f : FrameId}
    {parents above : List FrameId} (hw : s.phase w = .stealing)
    (hvictim : s.phase victim = .running cl) (hstack : s.stack cl = above ++ [f])
    (hs : Splits s (s.stealOwn w victim cl f above []) w victim cl s.numClosures cl f parents above
      [])
    (hh' : HoldInv (s.stealOwn w victim cl f above [])) :
    ViewInv total (s.stealOwn w victim cl f above [])
      (update value s.numClosures (s.tables victim * s.words above)) := by
  have hheld : (s.phase victim).closure = some cl := by rw [hvictim]; rfl
  have hlive := hh.live victim cl hheld
  have hne := hl.ne_fresh hlive
  have hvalue : ∀ c, s.live c →
      update value s.numClosures (s.tables victim * s.words above) c = value c := fun c hc =>
    Function.update_of_ne (hl.ne_fresh hc) _ _
  have hrightHt : ∀ c, s.live c → (s.stealOwn w victim cl f above []).rightHt c = s.rightHt c :=
    fun c hc => Function.update_of_ne (hl.ne_fresh hc) _ _
  have htables : ∀ w', (s.stealOwn w victim cl f above []).tables w' = s.tables w' := fun _ =>
    tables_congr rfl rfl rfl
  constructor
  case root => rw [hvalue 0 hroot, hv.root]
  case value_eq =>
    intro c x hc h
    by_cases hck : c = s.numClosures
    · subst hck
      rw [hh'.active (by rw [hs.phaseVictim]; rfl) h, htables, hs.stackChild, words_same hs.code,
        before_leaf hs.childrenChild hs.childHtChild, Function.update_self, one_mul]
    · by_cases hcl : c = cl
      · subst hcl
        have hbefore : (s.stealOwn w victim c f above []).before
            (update value s.numClosures (s.tables victim * s.words above)) c =
            s.before value c * (s.tables victim * s.words above) := by
          have hold := hl.childViews_congr hvalue hrightHt hlive
          have hchildren : (s.stealOwn w victim c f above []).children c =
              s.children c ++ [s.numClosures] := by simp [hne]
          have hchildHt : (s.stealOwn w victim c f above []).childHt c = s.childHt c := by
            simp [hne]
          rw [Runtime.before, Runtime.before, hchildren, hchildHt, List.map_append, hold,
            List.prod_append, List.map_singleton, List.prod_singleton, Runtime.childViews,
            Function.update_self]
          simp [mul_assoc]
        have hown := hv.value_eq c _ hlive (.held hheld)
        rw [hh'.active (by rw [hs.phaseThief]; rfl) h, htables, (hv.settled w).tables_stealing hw,
          hs.stackRes, words_same hs.code, hbefore, hvalue c hlive, hown, hstack, words_append]
        simp only [one_mul, mul_assoc]
      · have hc : s.live c := by
          rcases hs.live c hc with h | h | ⟨-, -, h⟩
          · exact absurd h hck
          · exact absurd h hcl
          · exact h
        exact hv.far (hs.far hl hvalue hrightHt htables
          (fun c hc => Function.update_of_ne (hl.ne_fresh hc) _ _) hc hck hcl hcl) h
  case settled => exact hs.settled hw hvictim rfl rfl rfl hv.settled

/-- The closure of a called frame that is stolen stands between its caller and the new child. -/
theorem ViewInv.stealCalled (hv : ViewInv total s value) (hl : LinksInv s) (hh : HoldInv s)
    (hroot : s.live 0) {w victim : WorkerId} {cl : ClosureId} {f : FrameId}
    {parents above below : List FrameId} (hw : s.phase w = .stealing)
    (hvictim : s.phase victim = .running cl) (hstack : s.stack cl = above ++ f :: below)
    (hs : Splits s (s.stealCalled w victim cl f above below) w victim cl (s.numClosures + 1)
      s.numClosures f parents above below)
    (hh' : HoldInv (s.stealCalled w victim cl f above below)) :
    ViewInv total (s.stealCalled w victim cl f above below)
      (update (update value (s.numClosures + 1) (s.tables victim * s.words above)) s.numClosures
        (s.tables victim * s.words above * (s.code f).word)) := by
  have hheld : (s.phase victim).closure = some cl := by rw [hvictim]; rfl
  have hlive := hh.live victim cl hheld
  have hne := hl.ne_fresh hlive
  have hfresh : ∀ c, s.live c → c ≠ s.numClosures ∧ c ≠ s.numClosures + 1 := fun c hc =>
    ⟨hl.ne_fresh hc, (Nat.lt_succ_of_lt (hl.bound c hc)).ne⟩
  have hvalue : ∀ c, s.live c →
      update (update value (s.numClosures + 1) (s.tables victim * s.words above)) s.numClosures
        (s.tables victim * s.words above * (s.code f).word) c = value c := fun c hc => by
    rw [Function.update_of_ne (hfresh c hc).1, Function.update_of_ne (hfresh c hc).2]
  have hrightHt : ∀ c, s.live c →
      (s.stealCalled w victim cl f above below).rightHt c = s.rightHt c := fun c hc =>
    (Function.update_of_ne (hfresh c hc).2 _ _).trans
      (Function.update_of_ne (hfresh c hc).1 _ _)
  have htables : ∀ w', (s.stealCalled w victim cl f above below).tables w' = s.tables w' := fun _ =>
    tables_congr rfl rfl rfl
  constructor
  case root => rw [hvalue 0 hroot, hv.root]
  case value_eq =>
    intro c x hc h
    by_cases hck : c = s.numClosures + 1
    · subst hck
      rw [hh'.active (by rw [hs.phaseVictim]; rfl) h, htables, hs.stackChild, words_same hs.code,
        before_leaf hs.childrenChild hs.childHtChild, one_mul, Function.update_of_ne (by simp),
        Function.update_self]
    · by_cases hcr : c = s.numClosures
      · subst hcr
        have hbefore : (s.stealCalled w victim cl f above below).before
            (update (update value (s.numClosures + 1) (s.tables victim * s.words above))
              s.numClosures (s.tables victim * s.words above * (s.code f).word)) s.numClosures =
            s.tables victim * s.words above := by
          simp [Runtime.before, Runtime.childViews]
        rw [hh'.active (by rw [hs.phaseThief]; rfl) h, htables, (hv.settled w).tables_stealing hw,
          hs.stackRes, words_same hs.code, hbefore, Function.update_self, words_cons]
        simp only [words_nil, one_mul, mul_one]
      · have hc : s.live c := by
          rcases hs.live c hc with h | h | ⟨-, -, h⟩
          · exact absurd h hck
          · exact absurd h hcr
          · exact h
        by_cases hcl : c = cl
        · subst hcl
          have hcallee : (s.stealCalled w victim c f above below).callee c =
              some s.numClosures := by
            simp [(hfresh c hlive).1, (hfresh c hlive).2]
          have hown := hv.value_eq c _ hlive (.held hheld)
          rw [Runtime.before] at hown
          rw [hh'.active_called hcallee h, hs.stackKept hcr, words_same hs.code, Runtime.before,
            hs.childHt c hck hcr, hs.children c hck hcr, hl.childViews_congr hvalue hrightHt hlive,
            hvalue c hlive, hown, hstack, words_append, words_cons, Function.update_self]
          simp only [mul_assoc]
        · exact hv.far (hs.far hl hvalue hrightHt htables
            (fun c hc => (Function.update_of_ne (hfresh c hc).2 _ _).trans
              (Function.update_of_ne (hfresh c hc).1 _ _)) hc hck hcr hcl) h
  case settled => exact hs.settled hw hvictim rfl rfl rfl hv.settled

end Steals

/-- The views do not depend on the frame that a closure is given. -/
theorem ViewInv.promoteHelper (hv : ViewInv total s value) (cl : ClosureId) (f : FrameId) :
    ViewInv total (s.promoteHelper cl f) value := by
  constructor
  case root => exact hv.root
  case value_eq =>
    intro c x hc h
    have hfar : Far s (s.promoteHelper cl f) value value c :=
      ⟨hc, rfl, rfl, rfl, fun _ hw => ⟨hw, rfl⟩, rfl, fun _ _ => rfl, id, rfl⟩
    exact hv.far hfar h
  case settled => exact fun w => (hv.settled w).congr rfl rfl rfl rfl rfl

end Cheetah
