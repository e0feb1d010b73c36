import Mathlib.Data.Finset.Prod
import Mathlib.Data.Finset.Card
import Cheetah.SchedulerProgress

/-! Busy leaves: every frame is below the youngest one of a closure that a worker holds, so that a
region with `P` workers keeps at most `P` times the frames of the serial execution. -/
namespace Cheetah
open Function (update)

/-- The nodes on `P` paths of length `D` are at most `P * D`. -/
theorem card_le_paths {α β : Type*} (nodes : Finset α) (leaves : Finset β) (D : ℕ)
    (path : β → ℕ → Option α) (h : ∀ a ∈ nodes, ∃ l ∈ leaves, ∃ n < D, path l n = some a) :
    nodes.card ≤ leaves.card * D := by
  classical
  have hsub : nodes.image some ⊆ (leaves ×ˢ Finset.range D).image fun p => path p.1 p.2 := by
    intro b hb
    obtain ⟨a, ha, rfl⟩ := Finset.mem_image.mp hb
    obtain ⟨l, hl, n, hn, hpath⟩ := h a ha
    exact Finset.mem_image.mpr
      ⟨(l, n), Finset.mem_product.mpr ⟨hl, Finset.mem_range.mpr hn⟩, hpath⟩
  calc nodes.card
      = (nodes.image some).card := (Finset.card_image_of_injective _ (Option.some_injective _)).symm
    _ ≤ ((leaves ×ˢ Finset.range D).image fun p => path p.1 p.2).card := Finset.card_le_card hsub
    _ ≤ (leaves ×ˢ Finset.range D).card := Finset.card_image_le
    _ = leaves.card * D := by rw [Finset.card_product, Finset.card_range]

variable {κ V : Type} {s s' : Runtime κ V} {x x' : Extensions}

/-- The most frames that are on the stack at once when a frame with this code runs serially. -/
def Code.depth : Code κ V → ℕ
  | .done => 1
  | .update _ _ rest => rest.depth
  | .spawn child rest => max (child.depth + 1) rest.depth
  | .call callee rest => max (callee.depth + 1) rest.depth
  | .sync rest => rest.depth

theorem Code.depth_pos (code : Code κ V) : 0 < code.depth := by
  induction code with
  | done => exact Nat.one_pos
  | update reducer u rest ih => exact ih
  | spawn child rest ihc ihr => exact ihr.trans_le (Nat.le_max_right _ _)
  | call callee rest ihc ihr => exact ihr.trans_le (Nat.le_max_right _ _)
  | sync rest ih => exact ih

theorem Code.depth_afterSync (code : Code κ V) : code.afterSync.depth = code.depth := by
  cases code <;> rfl

/-- How many frames are below a frame, along `sf->call_parent`. -/
structure FrameDepths (s : Runtime κ V) (x : Extensions) (D : ℕ) (depth : FrameId → ℕ) : Prop where
  fits : ∀ f, s.HasFrame f → depth f + (s.code f).depth ≤ D
  above : ∀ f g, s.HasFrame f → x.callParent f = some g → depth f = depth g + 1

section Depths

variable {D : ℕ} {depth : FrameId → ℕ}

theorem frameDepths_initial (code : Code κ V) (views : Option (ViewMap κ V))
    (root : PedigreeFrame) :
    FrameDepths (initialRuntime code views) (initialExtensions root) code.depth fun _ => 0 where
  fits := fun _ _ => (Nat.zero_add _).le
  above := fun _ _ _ h => by cases h

/-- No frame is entered. -/
theorem FrameDepths.keep (hd : FrameDepths s x D depth)
    (hhas : ∀ f, s'.HasFrame f → s.HasFrame f)
    (hcode : ∀ f, (s'.code f).depth ≤ (s.code f).depth)
    (hx : x'.callParent = x.callParent) : FrameDepths s' x' D depth := by
  refine ⟨fun f hf => ?_, fun f g hf hg => ?_⟩
  · have hfits := hd.fits f (hhas f hf)
    have hle := hcode f
    omega
  · rw [hx] at hg
    exact hd.above f g (hhas f hf) hg

/-- A frame is entered on top of `f`, whose code was deep enough for it. -/
theorem FrameDepths.push (hd : FrameDepths s x D depth) (hi : SchedInv s) {f : FrameId}
    {code callee : Code κ V} (hf : s.HasFrame f)
    (hhas : ∀ g, s'.HasFrame g → g = s.numFrames ∨ s.HasFrame g)
    (hcode : s'.code = update (update s.code f code) s.numFrames callee)
    (hdeep : max (callee.depth + 1) code.depth ≤ (s.code f).depth)
    (hbelow : ∀ g h, s.HasFrame g → x.callParent g = some h → h < s.numFrames)
    (hx : x'.callParent = update x.callParent s.numFrames (some f)) :
    FrameDepths s' x' D (update depth s.numFrames (depth f + 1)) := by
  have hfits := hd.fits f hf
  have hfn := (hi.has_lt hf).ne
  refine ⟨fun g hg => ?_, fun g h hg hgh => ?_⟩
  · rw [hcode]
    rcases hhas g hg with rfl | hg
    · rw [Function.update_self, Function.update_self]
      omega
    · have hgn := (hi.has_lt hg).ne
      rw [Function.update_of_ne hgn, Function.update_of_ne hgn]
      by_cases hgf : g = f
      · rw [hgf, Function.update_self]
        omega
      · rw [Function.update_of_ne hgf]
        exact hd.fits g hg
  · rw [hx] at hgh
    rcases hhas g hg with rfl | hg
    · rw [Function.update_self] at hgh
      rw [Function.update_self, ← Option.some.inj hgh, Function.update_of_ne hfn]
    · rw [Function.update_of_ne (hi.has_lt hg).ne] at hgh
      rw [Function.update_of_ne (hi.has_lt hg).ne,
        Function.update_of_ne (hbelow g h hg hgh).ne]
      exact hd.above g h hg hgh

/-- The parent of a frame is on a stack, too. -/
theorem CallLinks.parent_lt (hc : CallLinks s x) (hi : SchedInv s) {f g : FrameId}
    (hg : s.HasFrame g) (hparent : x.callParent g = some f) : f < s.numFrames := by
  rcases hc.above hi hg hparent with ⟨c, _, below, hlive, hstack⟩ |
    ⟨k, p, above, hlive, hspawn, hframe, -⟩ | ⟨d, p, above, hlive, hcall, hhead, -⟩
  · exact hi.frames.bound c f hlive (by rw [hstack]; simp)
  · have hp := hi.links.spawner k p hlive hspawn
    exact hi.frames.bound p f hp (hi.frames.frame_mem hp hframe)
  · have hp := hi.links.caller d p hlive hcall
    exact hi.frames.bound p f hp (List.mem_of_head? hhead)

/-- The frames after a steal were there before. -/
theorem Splits.has_frame {w victim : WorkerId} {cl k res : ClosureId} {f g : FrameId}
    {parents above below : List FrameId} (hs : Splits s s' w victim cl k res f parents above below)
    (hlive : s.live cl) (hstack : s.stack cl = above ++ f :: below) (hg : s'.HasFrame g) :
    s.HasFrame g := by
  obtain ⟨hred, c, hc, hmem⟩ := hg
  rw [hs.reduction] at hred
  have hin : g ∈ above ++ f :: below → s.HasFrame g := fun h =>
    ⟨hred, cl, hlive, hstack ▸ h⟩
  by_cases hck : c = k
  · rw [hck, hs.stackChild] at hmem
    exact hin (List.mem_append_left _ hmem)
  · by_cases hcr : c = res
    · rw [hcr, hs.stackRes, List.mem_singleton] at hmem
      exact hin (by simp [hmem])
    · by_cases hcl : c = cl
      · rw [hcl, hs.stackKept (hcl ▸ hcr)] at hmem
        exact hin (List.mem_append_right _ (List.mem_cons_of_mem _ hmem))
      · rw [hs.stack c hck hcr hcl] at hmem
        rcases hs.live c hc with h | h | ⟨-, -, h⟩
        · exact absurd h hck
        · exact absurd h hcr
        · exact ⟨hred, c, h, hmem⟩

/-- No frame appears when a closure is destroyed. -/
theorem has_frame_of_destroyed {t : ClosureId} {g : FrameId} (hg : s'.HasFrame g)
    (hreduction : s'.reduction = s.reduction) (hlive : s'.live = update s.live t false)
    (hstack : ∀ c, c ≠ t → s'.stack c = s.stack c) : s.HasFrame g := by
  obtain ⟨hred, c, hc, hmem⟩ := hg
  have hct : c ≠ t := by
    rintro rfl
    rw [hlive, Function.update_self] at hc
    cases hc
  rw [hreduction] at hred
  rw [hlive, Function.update_of_ne hct] at hc
  exact ⟨hred, c, hc, hstack c hct ▸ hmem⟩

theorem has_frame_returnChild {w : WorkerId} {t parent : ClosureId} {g : FrameId}
    (hg : (s.returnChild w parent t).HasFrame g) : s.HasFrame g :=
  has_frame_of_destroyed hg (SameFlags.returnChild w parent t).reduction rfl
    fun _ hct => Function.update_of_ne hct _ _

variable [DecidableEq κ] [Monoid V] {table : ℕ → BitVec 64} {bumps : κ → Bool}
  {allowed : Extensions → WorkerId → Prop}

/-- Frames are entered by calls and spawns only. -/
theorem SchedInv.has_frame (hi : SchedInv s) (hs : SchedStep s s') {g : FrameId}
    (hg : s'.HasFrame g) : s.HasFrame g ∨ g = s.numFrames := by
  have hsame : s'.reduction = s.reduction → s'.live = s.live → s'.stack = s.stack →
      s.HasFrame g := by
    intro hreduction hlive hstack
    rwa [Runtime.HasFrame, hreduction, hlive, hstack] at hg
  have hpushed : ∀ t f below, s'.reduction = update s.reduction s.numFrames false →
      s'.live = s.live → s.stack t = f :: below →
      s'.stack = update s.stack t (s.numFrames :: f :: below) →
      s.HasFrame g ∨ g = s.numFrames := by
    intro t f below hreduction hlive hstackt hstack
    by_cases hgn : g = s.numFrames
    · exact .inr hgn
    · obtain ⟨hred, c, hc, hmem⟩ := hg
      rw [hreduction, Function.update_of_ne hgn] at hred
      rw [hlive] at hc
      rw [hstack] at hmem
      by_cases hct : c = t
      · rw [hct, Function.update_self, ← hstackt] at hmem
        exact .inl ⟨hred, t, hct ▸ hc, (List.mem_cons.mp hmem).resolve_left hgn⟩
      · rw [Function.update_of_ne hct] at hmem
        exact .inl ⟨hred, c, hc, hmem⟩
  have hpopped : ∀ t f below, s'.reduction = s.reduction → s'.live = s.live →
      s.stack t = f :: below → s'.stack = update s.stack t below → s.HasFrame g := by
    intro t f below hreduction hlive hstackt hstack
    obtain ⟨hred, c, hc, hmem⟩ := hg
    rw [hreduction] at hred
    rw [hlive] at hc
    rw [hstack] at hmem
    by_cases hct : c = t
    · rw [hct, Function.update_self] at hmem
      exact ⟨hred, t, hct ▸ hc, by rw [hstackt]; exact List.mem_cons_of_mem f hmem⟩
    · rw [Function.update_of_ne hct] at hmem
      exact ⟨hred, c, hc, hmem⟩
  cases hs with
  | @enterFrame w t f below callee rest hw hstack hcode =>
    exact hpushed t f below rfl rfl hstack (congrArg (update s.stack t) (congrArg _ hstack))
  | @detach w t f below child rest rsp hw hstack hcode =>
    exact hpushed t f below rfl rfl hstack (congrArg (update s.stack t) (congrArg _ hstack))
  | @leaveFrame w t f below hw hstack hcode hsynched hdetached hlast hstolen =>
    exact .inl (hpopped t f below rfl rfl hstack rfl)
  | @leaveFrameHelper w t f below parents parent hw hstack hcode hsynched hdetached hdeque =>
    exact .inl (hpopped t f below rfl rfl hstack rfl)
  | @exceptionHandler w t f below hw hstack hcode hsynched hdetached hdeque =>
    obtain ⟨hred, c, hc, hmem⟩ := hg
    by_cases hgn : g = s.numFrames
    · exact .inr hgn
    · have hred' : s.reduction g = false := (Function.update_of_ne hgn _ _).symm.trans hred
      by_cases hct : c = t
      · subst hct
        have hmem' : g ∈ s.numFrames :: below := by
          have hstack' : update (update s.stack c below) c
            (s.numFrames :: update s.stack c below c) c = s.numFrames :: below := by
              rw [Function.update_self, Function.update_self]
          exact hstack' ▸ hmem
        exact .inl ⟨hred', c, hc,
          by rw [hstack]; exact List.mem_cons_of_mem f ((List.mem_cons.mp hmem').resolve_left hgn)⟩
      · have hstack' : update (update s.stack t below) t
            (s.numFrames :: update s.stack t below t) c = s.stack c := by
          rw [Function.update_of_ne hct, Function.update_of_ne hct]
        exact .inl ⟨hred', c, hc, hstack' ▸ hmem⟩
  | @stealStolen w victim cl f parents above below hw hvictim hdeque hstack hframe =>
    obtain ⟨rfl, hsplits⟩ :=
      hi.frames.splits_own hi.links hi.hold hw hvictim hdeque hstack hframe
    exact .inl (hsplits.has_frame (hi.hold.live victim cl (by rw [hvictim]; rfl)) hstack hg)
  | @stealHelper w victim cl f parents above below hw hvictim hdeque hstack hframe hdetached =>
    have hi' := hi.promoteHelper hvictim hdeque hstack hdetached
    obtain ⟨rfl, hsplits⟩ := hi'.frames.splits_own hi'.links hi'.hold hw hvictim hdeque hstack
      (Function.update_self _ _ _)
    exact .inl (hsplits.has_frame (hi.hold.live victim cl (by rw [hvictim]; rfl)) hstack hg)
  | @stealCalled w victim cl f parents above below hw hvictim hdeque hstack hframe hdetached =>
    have hlive := hi.hold.live victim cl (by rw [hvictim]; rfl)
    have hlt := hi.links.bound cl hlive
    have hvw : victim ≠ w := by
      rintro rfl
      rw [hw] at hvictim
      cases hvictim
    have hsplits := Splits.called (s := s) above below (Nat.ne_of_lt hlt)
      (Nat.ne_of_lt (Nat.lt_succ_of_lt hlt)) hvw hdeque
    exact .inl (hsplits.has_frame hlive hstack hg)
  | returnChild hw hparent hleft hright hsteal => exact .inl (has_frame_returnChild hg)
  | @resumeParent w t parent hw hparent hleft hright hsteal =>
    have hreturned : (s.returnChild w parent t).HasFrame g := hg
    exact .inl (has_frame_returnChild hreturned)
  | @setReturn w t f below parent hw hstack hcode hsynched hdetached hlast hstolen hparent =>
    exact .inl (has_frame_of_destroyed (t := t) hg rfl rfl
      fun c hct => Function.update_of_ne hct _ _)
  | _ => exact .inl (hsame rfl rfl rfl)

theorem FrameDepths.step (hd : FrameDepths s x D depth) (hi : SchedInv s) (hc : CallLinks s x)
    (hs : SchedStep s s') (hx : ExtensionStep table bumps allowed hs x x') :
    ∃ depth', FrameDepths s' x' D depth' := by
  have hhas := fun g (hg : s'.HasFrame g) => hi.has_frame hs hg
  have hbelow := fun g h (hg : s.HasFrame g) => hc.parent_lt hi (f := h) hg
  have hrunning : ∀ w t f below, s.phase w = .running t → s.stack t = f :: below →
      s.HasFrame f := by
    intro w t f below hw hstack
    have hcurrent : (s.cactus x fun _ => .root).Current f := hc.current hi hw hstack
    exact hcurrent.1
  have hkeep : s'.numFrames = s.numFrames → (∀ f, (s'.code f).depth ≤ (s.code f).depth) →
      x'.callParent = x.callParent → ∃ depth', FrameDepths s' x' D depth' := by
    intro hnumFrames hcode hx
    refine ⟨depth, hd.keep (fun g hg => (hhas g hg).resolve_right fun hgn => ?_) hcode hx⟩
    have hlt := (hi.step hs).has_lt hg
    rw [hnumFrames, hgn] at hlt
    exact Nat.lt_irrefl _ hlt
  have hcode : ∀ f code, code.depth ≤ (s.code f).depth →
      ∀ g, (update s.code f code g).depth ≤ (s.code g).depth := by
    intro f code hle g
    by_cases hgf : g = f
    · rwa [hgf, Function.update_self]
    · rw [Function.update_of_ne hgf]
  cases hx with
  | @update w t f below reducer u rest x hw hstack hcodef =>
    apply hkeep rfl (hcode f rest (by rw [hcodef]; exact Nat.le_refl _))
    split <;> rfl
  | @enterFrame w t f below callee rest x hw hstack hcodef =>
    refine ⟨_, hd.push hi (hrunning w t f below hw hstack) (fun g hg => (hhas g hg).symm) rfl ?_
      hbelow rfl⟩
    rw [hcodef]
    exact Nat.le_refl _
  | @detach w t f below child rest rsp x hw hstack hcodef hallowed =>
    refine ⟨_, hd.push hi (hrunning w t f below hw hstack) (fun g hg => (hhas g hg).symm) rfl ?_
      hbelow rfl⟩
    rw [hcodef]
    exact Nat.le_refl _
  | @exceptionHandler w t f below x hw hstack hcodef hsynched hdetached hdeque =>
    refine ⟨depth, hd.keep (fun g hg => (hhas g hg).resolve_right fun hgn => ?_) ?_ rfl⟩
    · obtain ⟨hred, -⟩ := hg
      rw [hgn] at hred
      have hself : update s.reduction s.numFrames true s.numFrames = false := hred
      rw [Function.update_self] at hself
      cases hself
    · exact hcode s.numFrames .done (s.code s.numFrames).depth_pos
  | @syncFast w t f below rest x hw hstack hcodef hsynched =>
    exact hkeep rfl (hcode f rest (by rw [hcodef]; exact Nat.le_refl _)) rfl
  | @doReductions w t f x hw hframe hreduction =>
    apply hkeep rfl (hcode f _ (s.code f).depth_afterSync.le)
    split <;> rfl
  | @returnChild w t parent x hw hparent hleft hright hsteal =>
    obtain ⟨hcodes, -⟩ := returnChild_same (s := s) w parent t
    exact hkeep (SameFlags.returnChild w parent t).numFrames (fun f => by rw [hcodes]) rfl
  | @resumeParent w t parent x hw hparent hleft hright hsteal =>
    obtain ⟨hcodes, -⟩ := returnChild_same (s := s) w parent t
    refine hkeep (SameFlags.returnChild w parent t).numFrames (fun f => ?_) rfl
    exact (congrArg Code.depth (congrFun hcodes f)).le
  | _ => exact hkeep rfl (fun _ => Nat.le_refl _) rfl

end Depths

section Leaves

/-- The frame `n` steps up along `parent`. -/
def ancestor (parent : FrameId → Option FrameId) : ℕ → FrameId → Option FrameId
  | 0, f => some f
  | n + 1, f => (ancestor parent n f).bind parent

/-- The youngest frame of a closure; while the closure only has the frame of its reductions, the
one that has spawned it. -/
def Runtime.tip (s : Runtime κ V) (c : ClosureId) : Option FrameId :=
  match s.stack c with
  | [] => none
  | f :: _ => if s.reduction f then (s.spawnParent c).bind s.frame else some f

/-- The frame is on the way from the tip of a closure that a worker holds to the root. -/
def Runtime.BelowLeaf (s : Runtime κ V) (x : Extensions) (f : FrameId) : Prop :=
  ∃ w g n, (s.phase w).closure.bind s.tip = some g ∧ s.HasFrame g ∧
    ancestor x.callParent n g = some f

theorem BelowLeaf.parent {f g : FrameId} (h : s.BelowLeaf x f)
    (hparent : x.callParent f = some g) : s.BelowLeaf x g := by
  obtain ⟨w, tip, n, htip, hhas, hpath⟩ := h
  refine ⟨w, tip, n+1, htip, hhas, ?_⟩
  rw [ancestor, hpath]
  exact hparent

/-- The frames below one on the same stack are its ancestors. -/
theorem BelowLeaf.chain {f : FrameId} {l : List FrameId} (h : s.BelowLeaf x f)
    (hchain : (f :: l).IsChain fun f g => x.callParent f = some g) :
    ∀ g ∈ f :: l, s.BelowLeaf x g := by
  induction l generalizing f with
  | nil =>
    intro g hg
    rwa [List.mem_singleton.mp hg]
  | cons f' l ih =>
    intro g hg
    obtain ⟨hlink, hrest⟩ := List.isChain_cons_cons.mp hchain
    rcases List.mem_cons.mp hg with rfl | hg
    · exact h
    · exact ih (BelowLeaf.parent h hlink) hrest g hg

/-- The frame of reductions is all that its closure has, and a worker holds the closure. -/
theorem SchedInv.reduction_alone (hi : SchedInv s) {c : ClosureId} {f : FrameId} (hc : s.live c)
    (hmem : f ∈ s.stack c) (hred : s.reduction f = true) :
    s.stack c = [f] ∧ ∃ w, (s.phase w).closure = some c := by
  have hown := hi.frames.own c f hc hmem (.inr (.inr hred))
  obtain ⟨w, hw⟩ := hi.frames.reducing c f hc hown hred
  obtain ⟨g, hg, hstack⟩ := hi.frames.single w c hw
  obtain rfl := Option.some.inj (hown.symm.trans hg)
  refine ⟨hstack, w, ?_⟩
  rcases hw with h | h | h <;> rw [h] <;> rfl

theorem SchedInv.stack_ne_nil (hi : SchedInv s) {c : ClosureId} (hc : s.live c) :
    ∃ above b, s.stack c = above ++ [b] := by
  cases hframe : s.frame c with
  | none =>
    obtain ⟨above, f, h, -⟩ := hi.frames.helper c hc hframe
    exact ⟨above, f, h⟩
  | some f =>
    obtain ⟨above, h⟩ := hi.frames.bottom c f hc hframe
    exact ⟨above, f, h⟩

/-- A worker is busy above every frame. By induction from the youngest closure on. -/
theorem CallLinks.busyLeaves (hc : CallLinks s x) (hi : SchedInv s) (he : EndInv s) (n : ℕ) :
    ∀ c, s.live c → s.numClosures ≤ c + n → ∀ f ∈ s.stack c, s.reduction f = false →
      s.BelowLeaf x f := by
  induction n with
  | zero =>
    intro c hlive hbound
    exact absurd (hi.links.bound c hlive) (Nat.not_lt_of_le hbound)
  | succ n ih =>
    intro c hlive hbound f hmem hred
    have hyounger : ∀ k, c < k → s.numClosures ≤ k + n := fun k hk =>
      hbound.trans (Nat.succ_add_eq_add_succ c n ▸ Nat.add_le_add_right hk n)
    have hall : ∀ g below, s.stack c = g :: below → s.BelowLeaf x g → s.BelowLeaf x f := by
      intro g below hstack hg
      have hchain := hc.chain c hlive
      rw [hstack] at hchain hmem
      exact BelowLeaf.chain hg hchain f hmem
    cases hstack : s.stack c with
    | nil =>
      rw [hstack] at hmem
      cases hmem
    | cons g below =>
      have hgmem : g ∈ s.stack c := by rw [hstack]; exact List.mem_cons_self
      apply hall g below hstack
      have hgred : s.reduction g = false := by
        by_contra h
        rw [Bool.not_eq_false] at h
        rw [(hi.reduction_alone hlive hgmem h).1, List.mem_singleton] at hmem
        rw [hmem, h] at hred
        cases hred
      have hhas : s.HasFrame g := ⟨hgred, c, hlive, hgmem⟩
      by_cases hheld : ∃ w, (s.phase w).closure = some c
      · obtain ⟨w, hw⟩ := hheld
        refine ⟨w, g, 0, ?_, hhas, rfl⟩
        rw [hw, Option.bind_some, Runtime.tip, hstack]
        simp only [hgred, Bool.false_eq_true, if_false]
      · have hfree : ∀ w, (s.phase w).closure ≠ some c := fun w hw => hheld ⟨w, hw⟩
        obtain ⟨hsuspended, hjoin⟩ := hi.hold.waiting c hlive hfree
        cases hcallee : s.callee c with
        | some d =>
          obtain ⟨hlived, hcall⟩ := (hi.links.called c d hlive).mp hcallee
          obtain ⟨above, b, hb⟩ := hi.stack_ne_nil hlived
          have hbmem : b ∈ s.stack d := by rw [hb]; simp
          have hbred : s.reduction b = false := by
            by_contra h
            rw [Bool.not_eq_false] at h
            have hown := hi.frames.own d b hlived hbmem (.inr (.inr h))
            have hspawned := hi.links.oneParent d hlived (he.spawned d b hlived hown h)
            rw [hcall] at hspawned
            cases hspawned
          have hparent := (hc.called d c above b hlived hcall hb).2
          rw [hstack] at hparent
          exact BelowLeaf.parent
            (ih d hlived (hyounger d (hi.tree.older d c hlived (.inr hcall))) b hbmem hbred) hparent
        | none =>
          obtain ⟨h, hframe, hsingle⟩ := hi.frames.parked c hlive hsuspended hcallee
          obtain ⟨rfl, -⟩ : g = h ∧ below = [] := by simpa using hstack.symm.trans hsingle
          have hchildren : s.children c ≠ [] := fun hnil =>
            hjoin ((hi.links.join_zero hlive).mpr ⟨hnil, hcallee⟩)
          obtain ⟨k, hk⟩ := List.exists_mem_of_ne_nil _ hchildren
          obtain ⟨hlivek, hspawn⟩ := (hi.links.child c k hlive).mp hk
          obtain ⟨above, b, hb⟩ := hi.stack_ne_nil hlivek
          have hbmem : b ∈ s.stack k := by rw [hb]; simp
          cases hbred : s.reduction b with
          | true =>
            obtain ⟨hstackk, w, hw⟩ := hi.reduction_alone hlivek hbmem hbred
            refine ⟨w, g, 0, ?_, hhas, rfl⟩
            rw [hw, Option.bind_some, Runtime.tip, hstackk]
            simp only [hbred, if_true, hspawn, Option.bind_some, hframe]
          | false =>
            have hparent := (hc.spawned k c above b hlivek hspawn hb hbred).2
            rw [hframe] at hparent
            exact BelowLeaf.parent
              (ih k hlivek (hyounger k (hi.tree.older k c hlivek (.inl hspawn))) b hbmem hbred)
              hparent

/-- The parent of a frame of the program is one, too. -/
theorem CallLinks.has_parent (hc : CallLinks s x) (hi : SchedInv s) {f g : FrameId}
    (hg : s.HasFrame g) (hparent : x.callParent g = some f) : s.HasFrame f := by
  rcases hc.above hi hg hparent with ⟨c, above, below, hlive, hstack⟩ |
    ⟨k, p, above, hlive, hspawn, hframe, -⟩ | ⟨d, p, above, hlive, hcall, hhead, -⟩
  · have hmem : f ∈ s.stack c := by rw [hstack]; simp
    refine ⟨?_, c, hlive, hmem⟩
    by_contra hred
    rw [Bool.not_eq_false] at hred
    have hlength := congrArg List.length (hi.reduction_alone hlive hmem hred).1
    rw [hstack] at hlength
    simp at hlength
    omega
  · have hp := hi.links.spawner k p hlive hspawn
    refine ⟨?_, p, hp, hi.frames.frame_mem hp hframe⟩
    by_contra hred
    rw [Bool.not_eq_false] at hred
    have hnone := (hi.frames.childless hp hframe (hi.frames.done f hred).2).1
    have hmem := (hi.links.child p k hp).mpr ⟨hlive, hspawn⟩
    rw [hnone] at hmem
    cases hmem
  · have hp := hi.links.caller d p hlive hcall
    have hmem := List.mem_of_head? hhead
    refine ⟨?_, p, hp, hmem⟩
    by_contra hred
    rw [Bool.not_eq_false] at hred
    obtain ⟨-, w, hw⟩ := hi.reduction_alone hp hmem hred
    have hcallee := (hi.links.called p d hp).mpr ⟨hlive, hcall⟩
    rw [hi.hold.callee w p hw] at hcallee
    cases hcallee

/-- The way from a leaf to a frame is as long as their depths say. -/
theorem FrameDepths.ancestor {D : ℕ} {depth : FrameId → ℕ} (hd : FrameDepths s x D depth)
    (hi : SchedInv s) (hc : CallLinks s x) {g f : FrameId} {n : ℕ} (hg : s.HasFrame g)
    (hpath : ancestor x.callParent n g = some f) : s.HasFrame f ∧ depth g = depth f + n := by
  induction n generalizing f with
  | zero =>
    obtain rfl : g = f := Option.some.inj hpath
    exact ⟨hg, rfl⟩
  | succ n ih =>
    obtain ⟨h, hh, hparent⟩ := Option.bind_eq_some_iff.mp hpath
    obtain ⟨hhas, hdepth⟩ := ih hh
    have habove := hd.above h f hhas hparent
    refine ⟨hc.has_parent hi hhas hparent, ?_⟩
    omega

/-- All the frames are on as many paths as there are workers with a closure. -/
theorem FrameDepths.card_frames {D : ℕ} {depth : FrameId → ℕ} (hd : FrameDepths s x D depth)
    (hi : SchedInv s) (hc : CallLinks s x) (he : EndInv s) (frames : Finset FrameId)
    (hframes : ∀ f ∈ frames, s.HasFrame f) (workers : Finset WorkerId)
    (hworkers : ∀ w c, (s.phase w).closure = some c → w ∈ workers) :
    frames.card ≤ workers.card * D := by
  apply card_le_paths frames workers D
    fun w n => ((s.phase w).closure.bind s.tip).bind (Cheetah.ancestor x.callParent n)
  intro f hf
  obtain ⟨hred, c, hlive, hmem⟩ := hframes f hf
  obtain ⟨w, g, n, htip, hhas, hpath⟩ :=
    hc.busyLeaves hi he s.numClosures c hlive (Nat.le_add_left _ _) f hmem hred
  obtain ⟨t, ht, -⟩ := Option.bind_eq_some_iff.mp htip
  have hfits := hd.fits g hhas
  have hpos := (s.code g).depth_pos
  have hdepth := (hd.ancestor hi hc hhas hpath).2
  refine ⟨w, hworkers w t ht, n, by omega, ?_⟩
  show ((s.phase w).closure.bind s.tip).bind (Cheetah.ancestor x.callParent n) = some f
  rw [htip]
  exact hpath

/-- A closure has a frame of the program, or a worker that returns it. -/
theorem FrameDepths.card_closures {D : ℕ} {depth : FrameId → ℕ} (hd : FrameDepths s x D depth)
    (hi : SchedInv s) (hc : CallLinks s x) (he : EndInv s) (closures : Finset ClosureId)
    (hclosures : ∀ c ∈ closures, s.live c) (workers : Finset WorkerId)
    (hworkers : ∀ w c, (s.phase w).closure = some c → w ∈ workers) :
    closures.card ≤ workers.card * (D+1) := by
  classical
  let bottom (c : ClosureId) : FrameId := (s.stack c).getLastD 0
  have hbottom : ∀ c, s.live c → bottom c ∈ s.stack c := by
    intro c hlive
    obtain ⟨above, b, hb⟩ := hi.stack_ne_nil hlive
    simp [bottom, hb]
  let user := closures.filter fun c => s.reduction (bottom c) = false
  have huser : user.card ≤ workers.card * D := by
    have himage := hd.card_frames hi hc he (user.image bottom) (fun f hf => by
      obtain ⟨c, hcu, rfl⟩ := Finset.mem_image.mp hf
      obtain ⟨hmem, hred⟩ := Finset.mem_filter.mp hcu
      exact ⟨hred, c, hclosures c hmem, hbottom c (hclosures c hmem)⟩) workers hworkers
    rwa [Finset.card_image_of_injOn] at himage
    intro c hcu c' hcu' hsame
    have hlive := hclosures c (Finset.mem_filter.mp hcu).1
    have hlive' := hclosures c' (Finset.mem_filter.mp hcu').1
    exact hi.frames.disjoint c c' (bottom c) hlive hlive' (hbottom c hlive)
      (hsame ▸ hbottom c' hlive')
  let returned := closures.filter fun c => ¬ s.reduction (bottom c) = false
  have hreturned : returned.card ≤ workers.card := by
    have hheld : ∀ c ∈ returned, ∃ w, (s.phase w).closure = some c := by
      intro c hcr
      obtain ⟨hmem, hred⟩ := Finset.mem_filter.mp hcr
      have hlive := hclosures c hmem
      exact (hi.reduction_alone hlive (hbottom c hlive) (Bool.not_eq_false _ ▸ hred)).2
    have hsub : returned.image some ⊆ workers.image fun w => (s.phase w).closure := by
      intro o ho
      obtain ⟨c, hcr, rfl⟩ := Finset.mem_image.mp ho
      obtain ⟨w, hw⟩ := hheld c hcr
      exact Finset.mem_image.mpr ⟨w, hworkers w c hw, hw⟩
    calc returned.card
        = (returned.image some).card :=
          (Finset.card_image_of_injective _ (Option.some_injective _)).symm
      _ ≤ (workers.image fun w => (s.phase w).closure).card := Finset.card_le_card hsub
      _ ≤ workers.card := Finset.card_image_le
  have hsplit : user.card + returned.card = closures.card :=
    Finset.card_filter_add_card_filter_not _
  rw [Nat.mul_succ]
  omega

end Leaves

variable [DecidableEq κ] [Monoid V]

theorem depths_reachable {code : Code κ V} {views : Option (ViewMap κ V)}
    (hrun : Reaches SchedStep (initialRuntime code views) s) : SchedInv s ∧ EndInv s ∧
      ∃ x, CallLinks s x ∧ ∃ depth, FrameDepths s x code.depth depth := by
  induction hrun with
  | refl =>
    exact ⟨schedInv_initial code views, endInv_initial code views, _,
      callLinks_initial code views ⟨0, none, 0, 0, 0⟩, _, frameDepths_initial code views _⟩
  | tail _ hs ih =>
    obtain ⟨hi, he, x, hc, depth, hd⟩ := ih
    obtain ⟨x', hx⟩ := ExtensionStep.total (fun _ => 0) (fun _ => false) hs x
    exact ⟨hi.step hs, he.step hc hi hs, x', hc.step hi hs hx, hd.step hi hc hs hx⟩

end Cheetah
