import Cheetah.SchedulerSteals

/-! The tree of the closures, the order of the siblings, and what is destroyed of it. -/
namespace Cheetah
open Function (update)
variable {κ V : Type}

/-- Every closure but the root hangs under an older one, and the destroyed closures are those that
are no longer live. -/
structure TreeInv (s : Runtime κ V) : Prop where
  root : s.live 0
  rootSpawn : s.spawnParent 0 = none
  rootCall : s.callParent 0 = none
  rootFrame : s.frame 0 = some 0
  rootDetached : s.detached 0 = false
  last : ∀ f, s.last f → f = 0
  older : ∀ c p, s.live c → s.spawnParent c = some p ∨ s.callParent c = some p → p < c
  parent : ∀ c, s.live c → s.spawnParent c = none → s.callParent c = none → c = 0
  alone : ∀ c, s.live c → s.spawnParent c = none →
    s.leftSib c = none ∧ s.rightSib c = none ∧ s.rightHt c = none
  sorted : ∀ c, s.live c → (s.children c).Pairwise (· < ·)
  user : ∀ c, s.live c → s.userHt c ≠ none → s.status c = .suspended ∧ s.callee c = none
  promoted : ∀ c k, s.live c → k ∈ s.promoted c → k ∈ s.children c ∨ k ∈ s.destroyed
  destroyed : ∀ c, c ∈ s.destroyed ↔ c < s.numClosures ∧ s.live c = false
  once : s.destroyed.Nodup

variable {s s' : Runtime κ V}

theorem treeInv_initial (code : Code κ V) (table : Option (ViewMap κ V)) :
    TreeInv (initialRuntime code table) := by
  constructor <;> simp [initialRuntime]

theorem TreeInv.stealOwn (hl : LinksInv s) (hh : HoldInv s) (ht : TreeInv s)
    {w victim : WorkerId} {cl : ClosureId} (hvictim : s.phase victim = .running cl) (f : FrameId)
    (above below : List FrameId) :
    TreeInv (s.stealOwn w victim cl f above below) := by
  have hcl := hh.live victim cl (by rw [hvictim]; rfl)
  have hne := hl.ne_fresh hcl
  have hfresh := hl.fresh
  have hbound := hl.bound
  have hst := hh.status victim cl (by rw [hvictim]; rfl)
  have hmem := fun k hk => hl.mem_live (k := k) hcl hk
  have hright := hl.rightMost cl hcl
  have hchild := fun k => hl.child cl k hcl
  obtain ⟨root, rootSpawn, rootCall, rootFrame, rootDetached, last, older, parent, alone, sorted,
    user, promoted, destroyed, once⟩ := ht
  constructor
  all_goals
    simp only [Runtime.stealOwn, Runtime.promoteChild, Runtime.finishSteal,
      Runtime.setupForExecution, Runtime.addChild, Runtime.createClosure, Function.update_apply]
  case sorted =>
    intro c hc
    by_cases hk : c = s.numClosures
    · simp [hk, Ne.symm hne]
    · by_cases hcc : c = cl
      · subst hcc
        simp only [hne, if_true, if_false, List.pairwise_append]
        refine ⟨sorted c hcl, List.pairwise_singleton _ _, fun a ha b hb => ?_⟩
        rw [List.mem_singleton.mp hb]
        exact hbound a (hmem a ha)
      · simpa [hk, hcc] using sorted c (by simpa [hk] using hc)
  case alone =>
    intro c hc hspawn
    have hk : c ≠ s.numClosures := by
      rintro rfl
      simp at hspawn
    have hspawn' : s.spawnParent c = none := by simpa [hk] using hspawn
    have hc' : s.live c := by simpa [hk] using hc
    have hnot : s.rightMostChild cl ≠ some c := by
      rw [hright]
      intro hlast
      have hparent := ((hchild c).mp (List.mem_of_getLast? hlast)).2
      rw [hspawn'] at hparent
      cases hparent
    simp only [hk, hne, if_false]
    rw [storeAt_of_ne hnot, Function.update_of_ne hk]
    exact alone c hc' hspawn'
  all_goals
    grind [Phase.closure, Phase.status]

theorem TreeInv.stealCalled (hl : LinksInv s) (hh : HoldInv s) (ht : TreeInv s)
    {w victim : WorkerId} {cl : ClosureId} (hvictim : s.phase victim = .running cl) (f : FrameId)
    (above below : List FrameId) :
    TreeInv (s.stealCalled w victim cl f above below) := by
  have hcl := hh.live victim cl (by rw [hvictim]; rfl)
  have hne := hl.ne_fresh hcl
  have hfresh := hl.fresh
  have hbound := hl.bound
  have hst := hh.status victim cl (by rw [hvictim]; rfl)
  have hmem := fun k hk => hl.mem_live (k := k) hcl hk
  have hright := hl.rightMost cl hcl
  have hchild := fun k => hl.child cl k hcl
  obtain ⟨root, rootSpawn, rootCall, rootFrame, rootDetached, last, older, parent, alone, sorted,
    user, promoted, destroyed, once⟩ := ht
  constructor
  all_goals
    simp only [Runtime.stealCalled, Runtime.addCallee, Runtime.promoteChild, Runtime.finishSteal,
      Runtime.setupForExecution, Runtime.addChild, Runtime.createClosure, Function.update_apply]
  case sorted =>
    intro c hc
    by_cases hk : c = s.numClosures + 1
    · simp [hk]
    · by_cases hr : c = s.numClosures
      · simp [hr]
      · simpa [hk, hr] using sorted c (by simpa [hk, hr] using hc)
  case alone =>
    intro c hc hspawn
    have hk : c ≠ s.numClosures + 1 := by
      rintro rfl
      simp at hspawn
    by_cases hr : c = s.numClosures
    · subst hr
      simp [storeAt]
    · simpa [hk, hr, storeAt] using
        alone c (by simpa [hk, hr] using hc) (by simpa [hk, hr] using hspawn)
  all_goals
    grind [Phase.closure, Phase.status]

/-- The frames of the root closure end with the first frame, which is its own. -/
theorem TreeInv.root_frame (hf : FrameInv s) (ht : TreeInv s) {above : List FrameId} {f : FrameId}
    (hstack : s.stack 0 = above ++ [f]) : f = 0 := by
  obtain ⟨above', habove'⟩ := hf.bottom 0 0 ht.root ht.rootFrame
  obtain ⟨-, hlast⟩ := List.append_inj' (hstack.symm.trans habove') rfl
  simpa using hlast

theorem TreeInv.numFrames_pos (hf : FrameInv s) (ht : TreeInv s) : 0 < s.numFrames :=
  hf.bound 0 0 ht.root (hf.frame_mem ht.root ht.rootFrame)

theorem TreeInv.returnChild (hl : LinksInv s) (hh : HoldInv s) (hf : FrameInv s) (ht : TreeInv s)
    {w : WorkerId} {t parent : ClosureId} (hw : s.phase w = .returning t)
    (hparent : s.spawnParent t = some parent) : TreeInv (s.returnChild w parent t) := by
  obtain ⟨hlive, hp, hmem, hne⟩ := hl.parent hh hf hw hparent
  have hlinked := hl.linked parent hp
  have hchild := fun k => hl.child parent k hp
  have hdisjoint := fun q hq j hjp hjq => hl.disjoint (p := parent) (q := q) (k := j) hp hq hjp hjq
  have hbound := hl.bound t hlive
  have hroot : t ≠ 0 := by
    rintro rfl
    rw [ht.rootSpawn] at hparent
    cases hparent
  obtain ⟨root, rootSpawn, rootCall, rootFrame, rootDetached, last, older, parent', alone, sorted,
    user, promoted, destroyed, once⟩ := ht
  have hold : ∀ c, (s.returnChild w parent t).live c → c ≠ t ∧ s.live c := by
    intro c hc
    have hc' : update s.live t false c := hc
    by_cases hct : c = t
    · simp [hct] at hc'
    · exact ⟨hct, by simpa [hct] using hc'⟩
  have hsame := returnChild_same (s := s) w parent t
  have hflags := SameFlags.returnChild (s := s) w parent t
  have hdestroyed : (s.returnChild w parent t).destroyed = s.destroyed ++ [t] := rfl
  have hchildren : (s.returnChild w parent t).children =
    update s.children parent ((s.children parent).erase t) := rfl
  constructor
  case root => exact (Function.update_of_ne (Ne.symm hroot) _ _).trans root
  case rootFrame => rw [hsame.2.2.2.2.1, rootFrame]
  case rootDetached => rw [hflags.detached, rootDetached]
  case older => exact fun c p hc => older c p (hold c hc).2
  case parent => exact fun c hc => parent' c (hold c hc).2
  case alone =>
    intro c hc hspawn
    obtain ⟨hct, hc⟩ := hold c hc
    have hright : s.rightSib t ≠ some c := by
      intro h
      have hcp := ((hchild c).mp (hlinked.right_mem hmem h)).2
      rw [show s.spawnParent c = none from hspawn] at hcp
      cases hcp
    have hleft : s.leftSib t ≠ some c := by
      intro h
      have hcp := ((hchild c).mp (hlinked.left_mem hmem h)).2
      rw [show s.spawnParent c = none from hspawn] at hcp
      cases hcp
    obtain ⟨h1, h2, h3⟩ := alone c hc hspawn
    refine ⟨?_, ?_, ?_⟩
    · exact (Function.update_of_ne hct _ _).trans ((storeAt_of_ne hright).trans h1)
    · exact (Function.update_of_ne hct _ _).trans ((storeAt_of_ne hleft).trans h2)
    · exact (storeAt_of_ne hleft).trans h3
  case sorted =>
    intro c hc
    have hsorted := sorted c (hold c hc).2
    rw [hchildren]
    by_cases hcp : c = parent
    · subst hcp
      rw [Function.update_self]
      exact hsorted.sublist List.erase_sublist
    · rwa [Function.update_of_ne hcp]
  case user =>
    intro c hc h
    obtain ⟨hct, hc⟩ := hold c hc
    rw [hsame.2.2.2.1]
    exact ⟨(Function.update_of_ne hct _ _).trans (user c hc h).1, (user c hc h).2⟩
  case promoted =>
    intro c k hc hk
    obtain ⟨hct, hc⟩ := hold c hc
    rw [hsame.2.2.2.2.2] at hk
    rw [hchildren, hdestroyed]
    rcases promoted c k hc hk with h | h
    · by_cases hcp : c = parent
      · subst hcp
        rw [Function.update_self]
        by_cases hkt : k = t
        · exact .inr (by simp [hkt])
        · exact .inl ((List.mem_erase_of_ne hkt).mpr h)
      · rw [Function.update_of_ne hcp]
        exact .inl h
    · exact .inr (by simp [h])
  case destroyed =>
    intro c
    rw [hdestroyed, List.mem_append, List.mem_singleton, destroyed c]
    show _ ↔ c < s.numClosures ∧ update s.live t false c = false
    by_cases hct : c = t
    · simp [hct, hbound]
    · simp [hct]
  case once =>
    rw [hdestroyed, List.nodup_append]
    refine ⟨once, List.nodup_singleton t, ?_⟩
    rintro a ha b hb rfl
    rw [List.mem_singleton.mp hb, destroyed, hlive] at ha
    cases ha.2
  all_goals assumption

/-- A new frame is neither the first one nor the last. -/
theorem TreeInv.pushed (hf : FrameInv s) (ht : TreeInv s) (b : Bool) :
    update s.detached s.numFrames b 0 = false ∧
      ∀ g, update s.last s.numFrames false g = true → g = 0 := by
  refine ⟨(Function.update_of_ne (ht.numFrames_pos hf).ne _ _).trans ht.rootDetached, fun g hg => ?_⟩
  by_cases hgn : g = s.numFrames
  · simp [hgn] at hg
  · exact ht.last g (by simpa [hgn] using hg)

/-- A closure whose oldest frame is a spawn helper is not the root. -/
theorem TreeInv.not_root (hf : FrameInv s) (ht : TreeInv s) {t : ClosureId} {above : List FrameId}
    {f : FrameId} (hstack : s.stack t = above ++ [f]) (hdetached : s.detached f = true) : t ≠ 0 := by
  rintro rfl
  rw [ht.root_frame hf hstack, ht.rootDetached] at hdetached
  cases hdetached

theorem TreeInv.promoteHelper (hh : HoldInv s) (hf : FrameInv s) (ht : TreeInv s)
    {victim : WorkerId} {cl : ClosureId} {f : FrameId} {parents above below : List FrameId}
    (hvictim : s.phase victim = .running cl) (hdeque : s.deque victim = f :: parents)
    (hstack : s.stack cl = above ++ f :: below) (hdetached : s.detached f = true) :
    TreeInv (s.promoteHelper cl f) := by
  obtain rfl : below = [] :=
    eq_nil_of_spawners_nil (hf.victim hh hvictim hdeque hstack).2.1 hdetached
  have hroot := ht.not_root hf hstack hdetached
  exact { ht with
    rootFrame := (Function.update_of_ne (Ne.symm hroot) _ _).trans ht.rootFrame }

/-- A worker changes the status of the closure it holds, which has no table of its own. -/
theorem TreeInv.hold (hh : HoldInv s) (ht : TreeInv s) {w : WorkerId} {t c : ClosureId}
    (hheld : (s.phase w).closure = some t) (hc : s.live c) (st : ClosureStatus)
    (h : s.userHt c ≠ none) : update s.status t st c = .suspended ∧ s.callee c = none := by
  have hct : c ≠ t := by
    rintro rfl
    exact hh.not_suspended hheld (ht.user c hc h).1
  exact ⟨(Function.update_of_ne hct _ _).trans (ht.user c hc h).1, (ht.user c hc h).2⟩

variable [DecidableEq κ] [Monoid V]

theorem TreeInv.step (hl : LinksInv s) (hh : HoldInv s) (hf : FrameInv s) (ht : TreeInv s)
    (hs : SchedStep s s') : TreeInv s' := by
  cases hs with
  | @enterFrame w t f below callee rest hw hstack hcode =>
    exact { ht with
      rootDetached := (ht.pushed hf false).1
      last := (ht.pushed hf false).2 }
  | @detach w t f below child rest rsp hw hstack hcode =>
    exact { ht with
      rootDetached := (ht.pushed hf true).1
      last := (ht.pushed hf true).2 }
  | @leaveFrameHelper w t f below parents parent hw hstack hcode hsynched hdetached hdeque =>
    have hne : 0 ≠ f := by
      rintro rfl
      rw [ht.rootDetached] at hdetached
      cases hdetached
    exact { ht with
      rootDetached := (Function.update_of_ne hne _ _).trans ht.rootDetached }
  | @exceptionHandler w t f below hw hstack hcode hsynched hdetached hdeque =>
    have hheld : (s.phase w).closure = some t := by rw [hw]; rfl
    have hspawners := hf.deque w t hheld
    rw [hdeque, hstack] at hspawners
    obtain rfl : below = [] := eq_nil_of_spawners_nil hspawners.symm hdetached
    have hroot := ht.not_root hf (show s.stack t = [] ++ [f] from hstack) hdetached
    have hne : 0 ≠ f := by
      rintro rfl
      rw [ht.rootDetached] at hdetached
      cases hdetached
    exact { ht with
      rootFrame := (Function.update_of_ne (Ne.symm hroot) _ _).trans ht.rootFrame
      rootDetached := (Function.update_of_ne (ht.numFrames_pos hf).ne _ _).trans
        ((Function.update_of_ne hne _ _).trans ht.rootDetached)
      last := (ht.pushed hf false).2
      user := fun c hc h => ht.hold hh hheld hc .returning h }
  | @suspendAtSync w t f below rsp hw hstack hcode hunsynched hchildren =>
    have hheld : (s.phase w).closure = some t := by rw [hw]; rfl
    exact { ht with
      user := by
        intro c hc h
        by_cases hct : c = t
        · subst hct
          exact ⟨Function.update_self _ _ _, hh.callee w c hheld⟩
        · have h' : s.userHt c ≠ none := by
            rwa [← show (Runtime.suspendAtSync { s with sp := update s.sp f rsp } w t).userHt c =
              s.userHt c from Function.update_of_ne hct _ _]
          exact ⟨(Function.update_of_ne hct _ _).trans (ht.user c hc h').1, (ht.user c hc h').2⟩ }
  | @passSync w t f below rsp hw hstack hcode hunsynched hchildren =>
    exact { ht with
      promoted := by
        intro c k hc hk
        by_cases hct : c = t
        · subst hct
          have hnone : k ∈ update s.promoted c [] c := hk
          simp at hnone
        · have hk' : k ∈ update s.promoted t [] c := hk
          rw [Function.update_of_ne hct] at hk'
          exact ht.promoted c k hc hk' }
  | @doReductionsForReturn w t f hw hframe hreduction =>
    have hheld : (s.phase w).closure = some t := by rw [hw]; rfl
    exact { ht with
      user := fun c hc h => ht.hold hh hheld hc .returning h }
  | stealStolen hw hvictim hdeque hstack hframe => exact ht.stealOwn hl hh hvictim _ _ _
  | @stealHelper w victim cl f parents above below hw hvictim hdeque hstack hframe hdetached =>
    have hpromoted := ht.promoteHelper hh hf hvictim hdeque hstack hdetached
    exact TreeInv.stealOwn (s := s.promoteHelper cl f) { hl with } { hh with } hpromoted hvictim _ _ _
  | stealCalled hw hvictim hdeque hstack hframe hdetached => exact ht.stealCalled hl hh hvictim _ _ _
  | @takeTables w t parent hw hparent htables =>
    have hheld : (s.phase w).closure = some t := by rw [hw]; rfl
    exact { ht with
      alone := by
        intro c hc hspawn
        obtain ⟨h1, h2, h3⟩ := ht.alone c hc hspawn
        refine ⟨h1, h2, ?_⟩
        have hct : update s.rightHt t none c = none := by
          by_cases hct : c = t
          · exact hct ▸ Function.update_self _ _ _
          · exact (Function.update_of_ne hct _ _).trans h3
        by_cases hleft : s.leftSib t = some c
        · simp [Runtime.takeTables, Runtime.setLeftHt, Runtime.setupForExecution, hleft]
        · exact (storeAt_of_ne hleft).trans hct
      user := fun c hc h => ht.hold hh hheld hc .running h }
  | returnChild hw hparent hleft hright hsteal => exact ht.returnChild hl hh hf hw hparent
  | @resumeParent w t parent hw hparent hleft hright hsteal =>
    have hret := ht.returnChild hl hh hf hw hparent
    exact { hret with
      user := by
        intro c hc h
        by_cases hcp : c = parent
        · subst hcp
          exact absurd (Function.update_self _ _ _) h
        · have hu := hret.user c hc fun hnone => h ((Function.update_of_ne hcp _ _).trans hnone)
          exact ⟨(Function.update_of_ne hcp _ _).trans hu.1, hu.2⟩
      promoted := by
        intro c k hc hk
        by_cases hcp : c = parent
        · subst hcp
          have hnone : k ∈ update (s.returnChild w c t).promoted c [] c := hk
          simp at hnone
        · have hk' : k ∈ update (s.returnChild w parent t).promoted parent [] c := hk
          rw [Function.update_of_ne hcp] at hk'
          exact hret.promoted c k hc hk' }
  | @setReturn w t f below parent hw hstack hcode hsynched hdetached hlast hstolen hparent =>
    have hheld : (s.phase w).closure = some t := by rw [hw]; rfl
    have hlive := hh.live w t hheld
    have hp := hl.caller t parent hlive hparent
    have hcallee := (hl.called parent t hp).mpr ⟨hlive, hparent⟩
    have hroot : t ≠ 0 := by
      rintro rfl
      rw [ht.rootCall] at hparent
      cases hparent
    have hold : ∀ c, (s.setReturn w t parent).live c → c ≠ t ∧ s.live c := by
      intro c hc
      have hc' : update s.live t false c := hc
      by_cases hct : c = t
      · simp [hct] at hc'
      · exact ⟨hct, by simpa [hct] using hc'⟩
    exact { ht with
      root := (Function.update_of_ne (Ne.symm hroot) _ _).trans ht.root
      rootFrame := (Function.update_of_ne (Ne.symm hroot) _ _).trans ht.rootFrame
      older := fun c p hc => ht.older c p (hold c hc).2
      parent := fun c hc => ht.parent c (hold c hc).2
      alone := fun c hc => ht.alone c (hold c hc).2
      sorted := fun c hc => ht.sorted c (hold c hc).2
      user := by
        intro c hc h
        obtain ⟨hct, hc⟩ := hold c hc
        have hu := ht.user c hc h
        have hcp : c ≠ parent := by
          rintro rfl
          rw [hu.2] at hcallee
          cases hcallee
        exact ⟨(Function.update_of_ne hcp _ _).trans ((Function.update_of_ne hct _ _).trans hu.1),
          (Function.update_of_ne hcp _ _).trans hu.2⟩
      promoted := fun c k hc hk =>
        (ht.promoted c k (hold c hc).2 hk).imp_right fun h => List.mem_append_left _ h
      destroyed := by
        intro c
        show c ∈ s.destroyed ++ [t] ↔ c < s.numClosures ∧ update s.live t false c = false
        rw [List.mem_append, List.mem_singleton, ht.destroyed c]
        by_cases hct : c = t
        · simp [hct, hl.bound t hlive]
        · simp [hct]
      once := by
        show (s.destroyed ++ [t]).Nodup
        rw [List.nodup_append]
        refine ⟨ht.once, List.nodup_singleton t, ?_⟩
        rintro a ha b hb rfl
        rw [List.mem_singleton.mp hb, ht.destroyed, hlive] at ha
        cases ha.2 }
  | @exitRoot w t f below hw hstack hcode hsynched hlast =>
    exact { ht with
      last := by
        intro g hg
        by_cases hgf : g = f
        · simp [hgf] at hg
        · exact ht.last g (by simpa [hgf] using hg) }
  | _ => exact { ht with }

end Cheetah
