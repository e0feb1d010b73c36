import Mathlib.Data.List.Nodup
import Cheetah.Scheduler

/-! The links of the closure tree: children, callees and join counters. -/
namespace Cheetah
open Function (update)

variable {κ V : Type}

/-- The pointers between the live closures, and the counters, agree with each other. -/
structure LinksInv (s : Runtime κ V) : Prop where
  bound : ∀ c, s.live c → c < s.numClosures
  child : ∀ p k, s.live p → (k ∈ s.children p ↔ s.live k ∧ s.spawnParent k = some p)
  spawner : ∀ k p, s.live k → s.spawnParent k = some p → s.live p
  nodup : ∀ p, s.live p → (s.children p).Nodup
  linked : ∀ p, s.live p → Linked s.leftSib s.rightSib (s.children p)
  rightMost : ∀ p, s.live p → s.rightMostChild p = (s.children p).getLast?
  called : ∀ p k, s.live p → (s.callee p = some k ↔ s.live k ∧ s.callParent k = some p)
  caller : ∀ k p, s.live k → s.callParent k = some p → s.live p
  oneParent : ∀ k, s.live k → s.spawnParent k ≠ none → s.callParent k = none
  joinCounter : ∀ p, s.live p →
    s.joinCounter p = (s.children p).length + (if (s.callee p).isSome then 1 else 0)

section Links

variable {s s' : Runtime κ V} {p k : ClosureId}

theorem linksInv_initial (code : Code κ V) (table : Option (ViewMap κ V)) :
    LinksInv (initialRuntime code table) where
  bound := by simp [initialRuntime]
  child := by simp [initialRuntime]
  spawner := by simp [initialRuntime]
  nodup := by simp [initialRuntime]
  linked := fun _ _ => linked_nil
  rightMost := by simp [initialRuntime]
  called := by simp [initialRuntime]
  caller := by simp [initialRuntime]
  oneParent := by simp [initialRuntime]
  joinCounter := by simp [initialRuntime]

theorem LinksInv.join_nonneg (hi : LinksInv s) (hp : s.live p) : 0 ≤ s.joinCounter p := by
  rw [hi.joinCounter p hp]
  split <;> omega

/-- A closure with a zero counter has neither children nor a callee. -/
theorem LinksInv.join_zero (hi : LinksInv s) (hp : s.live p) :
    s.joinCounter p = 0 ↔ s.children p = [] ∧ s.callee p = none := by
  rw [hi.joinCounter p hp, ← List.length_eq_zero_iff, ← Option.not_isSome_iff_eq_none]
  split <;> simp_all
  omega

/-- A new closure is in nobody's list. -/
theorem LinksInv.fresh (hi : LinksInv s) : ¬ s.live s.numClosures := fun hlive =>
  Nat.lt_irrefl _ (hi.bound _ hlive)

theorem LinksInv.ne_fresh (hi : LinksInv s) (hp : s.live p) : p ≠ s.numClosures :=
  Nat.ne_of_lt (hi.bound p hp)

theorem LinksInv.mem_live (hi : LinksInv s) (hp : s.live p) (hk : k ∈ s.children p) : s.live k :=
  ((hi.child p k hp).mp hk).1

/-- The child of another closure is not the child of this one. -/
theorem LinksInv.disjoint (hi : LinksInv s) {q : ClosureId} (hp : s.live p) (hq : s.live q)
    (hkp : k ∈ s.children p) (hkq : k ∈ s.children q) : p = q := by
  have hp' := ((hi.child p k hp).mp hkp).2
  rw [((hi.child q k hq).mp hkq).2] at hp'
  exact (Option.some.inj hp').symm

/-- A child is not its own sibling. -/
theorem LinksInv.leftSib_ne (hi : LinksInv s) (hp : s.live p) (hk : k ∈ s.children p) :
    s.leftSib k ≠ some k := by
  intro h
  obtain ⟨l₁, l₂, hl⟩ := (hi.linked p hp).pred hk h
  have hnodup := hi.nodup p hp
  rw [hl] at hnodup
  simp [List.nodup_append] at hnodup

theorem LinksInv.create (hi : LinksInv s) (f : Option FrameId) :
    LinksInv (s.createClosure s.numClosures f) := by
  have hfresh := hi.fresh
  have hout : ∀ p, s.live p → s.numClosures ∉ s.children p :=
    fun p hp hmem => hfresh (hi.mem_live hp hmem)
  obtain ⟨bound, child, spawner, nodup, linked, rightMost, called, caller, oneParent, join⟩ := hi
  constructor
  case linked =>
    intro p hp
    by_cases hnew : p = s.numClosures
    · subst hnew
      simpa [Runtime.createClosure] using linked_nil
    · have hold : s.live p := by simpa [Runtime.createClosure, hnew] using hp
      have hne : ∀ k ∈ s.children p, k ≠ s.numClosures := by
        rintro k hk rfl
        exact hout p hold hk
      simp only [Runtime.createClosure, Function.update_of_ne hnew]
      exact (linked p hold).congr (fun k hk => Function.update_of_ne (hne k hk) _ _)
        (fun k hk => Function.update_of_ne (hne k hk) _ _)
  all_goals
    simp only [Runtime.createClosure, Function.update_apply]
    grind

/-- The links after `add_child` on a closure that has no parent and no siblings. -/
theorem LinksInv.adopt (hi : LinksInv s) (hp : s.live p) (hk : s.live k) (hne : k ≠ p)
    (hspawn : s.spawnParent k = none) (hcall : s.callParent k = none)
    (hright : s.rightSib k = none)
    (hbound : s'.numClosures = s.numClosures) (hlive : s'.live = s.live)
    (hcallee : s'.callee = s.callee) (hcallParent : s'.callParent = s.callParent)
    (hspawnParent : s'.spawnParent = update s.spawnParent k (some p))
    (hjoin : s'.joinCounter = update s.joinCounter p (s.joinCounter p + 1))
    (hchildren : s'.children = update s.children p (s.children p ++ [k]))
    (hleftSib : s'.leftSib = update s.leftSib k (s.rightMostChild p))
    (hrightSib : s'.rightSib = storeAt s.rightSib (s.rightMostChild p) (some k))
    (hrightMost : s'.rightMostChild = update s.rightMostChild p (some k)) : LinksInv s' := by
  have hout : ∀ q, s.live q → k ∉ s.children q := by
    intro q hq hmem
    rw [hi.child q k hq, hspawn] at hmem
    cases hmem.2
  have hdisjoint := fun q hq j hjp hjq => hi.disjoint (p := p) (q := q) (k := j) hp hq hjp hjq
  obtain ⟨bound, child, spawner, nodup, linked, rightMost, called, caller, oneParent, join⟩ := hi
  constructor
  case linked =>
    intro q hq
    rw [hlive] at hq
    rw [hchildren, hleftSib, hrightSib]
    by_cases hqp : q = p
    · subst hqp
      simpa [rightMost q hq] using
        (linked q hq).link (nodup q hq) (hout q hq) hright
    · simp only [Function.update_of_ne hqp]
      refine (linked q hq).congr (fun j hj => Function.update_of_ne ?_ _ _)
        (fun j hj => storeAt_of_ne ?_)
      · rintro rfl
        exact hout q hq hj
      · intro hlast
        rw [rightMost p hp] at hlast
        exact hqp (hdisjoint q hq j (List.mem_of_getLast? hlast) hj).symm
  all_goals
    simp only [hbound, hlive, hcallee, hcallParent, hspawnParent, hjoin, hchildren, hrightMost,
      Function.update_apply]
    grind

/-- Nothing points up at a closure without children and callee. -/
theorem LinksInv.leaf (hi : LinksInv s) (hk : s.live k) (hnone : s.children k = [])
    (hcallee : s.callee k = none) {j : ClosureId} (hj : s.live j) :
    s.spawnParent j ≠ some k ∧ s.callParent j ≠ some k := by
  constructor
  · intro hspawn
    have hmem := (hi.child k j hk).mpr ⟨hj, hspawn⟩
    rw [hnone] at hmem
    cases hmem
  · intro hcall
    have hsome := (hi.called k j hk).mpr ⟨hj, hcall⟩
    rw [hcallee] at hsome
    cases hsome

/-- The links after a closure without children is unlinked and destroyed. -/
theorem LinksInv.remove (hi : LinksInv s) (hp : s.live p) (hk : k ∈ s.children p)
    (hnone : s.children k = []) (hcalleeNone : s.callee k = none)
    (hbound : s'.numClosures = s.numClosures) (hlive : s'.live = update s.live k false)
    (hcallee : s'.callee = s.callee) (hcallParent : s'.callParent = s.callParent)
    (hspawnParent : s'.spawnParent = s.spawnParent)
    (hjoin : s'.joinCounter = update s.joinCounter p (s.joinCounter p - 1))
    (hchildren : s'.children = update s.children p ((s.children p).erase k))
    (hleftSib : s'.leftSib = update (bypassLeft s.leftSib s.rightSib k) k none)
    (hrightSib : s'.rightSib = update (bypassRight s.leftSib s.rightSib k) k none)
    (hrightMost : s'.rightMostChild = if s.rightMostChild p = some k
      then update s.rightMostChild p (s.leftSib k) else s.rightMostChild) : LinksInv s' := by
  have hklive := hi.mem_live hp hk
  have hdisjoint := fun q hq j hjp hjq => hi.disjoint (p := p) (q := q) (k := j) hp hq hjp hjq
  have hleaf := fun j hj => hi.leaf (j := j) hklive hnone hcalleeNone hj
  obtain ⟨bound, child, spawner, nodup, linked, rightMost, called, caller, oneParent, join⟩ := hi
  have hkp := ((child p k hp).mp hk).2
  have hcall := oneParent k hklive (by simp [hkp])
  have hlen := List.length_erase_of_mem hk
  have hpos := List.length_pos_of_mem hk
  have hpne : p ≠ k := by
    rintro rfl
    simp [hnone] at hk
  obtain ⟨l₁, l₂, hsplit⟩ := List.append_of_mem hk
  have hnd := nodup p hp
  have hk₁ : k ∉ l₁ := by
    rw [hsplit] at hnd
    intro hmem
    exact (List.nodup_append.mp hnd).2.2 k hmem k (by simp) rfl
  have herase : (s.children p).erase k = l₁ ++ l₂ := by
    rw [hsplit, List.erase_append_right _ hk₁, List.erase_cons_head]
  have hlinks := linked p hp
  rw [hsplit] at hlinks hnd
  constructor
  case linked =>
    intro q hq
    have hqlive : s.live q := by
      simp only [hlive, Function.update_apply] at hq
      grind
    rw [hchildren, hleftSib, hrightSib]
    by_cases hqp : q = p
    · subst hqp
      simpa [herase] using hlinks.unlink hnd
    · have hmem := linked p hp
      simp only [Function.update_of_ne hqp]
      have hjk : ∀ j ∈ s.children q, j ≠ k := by
        rintro j hj rfl
        exact hqp (hdisjoint q hqlive j hk hj).symm
      refine (linked q hqlive).congr (fun j hj => ?_) (fun j hj => ?_)
      · rw [Function.update_of_ne (hjk j hj), bypassLeft, storeAt_of_ne]
        intro hright
        exact hqp (hdisjoint q hqlive j (hmem.right_mem hk hright) hj).symm
      · rw [Function.update_of_ne (hjk j hj), bypassRight, storeAt_of_ne]
        intro hleft
        exact hqp (hdisjoint q hqlive j (hmem.left_mem hk hleft) hj).symm
  case rightMost =>
    intro q hq
    have hqlive : s.live q := by
      simp only [hlive, Function.update_apply] at hq
      grind
    rw [hchildren, hrightMost]
    by_cases hqp : q = p
    · subst hqp
      rw [Function.update_self, herase, hlinks.left_eq, rightMost q hp, hsplit]
      rcases List.eq_nil_or_concat' l₂ with rfl | ⟨l₃, c, rfl⟩
      · simp
      · have hck : c ≠ k := by
          rintro rfl
          have hn := (List.nodup_append.mp hnd).2.1
          simp at hn
        rw [getLast?_middle, if_neg (by simpa using hck), rightMost q hp, hsplit, getLast?_middle,
          ← List.append_assoc, List.getLast?_concat]
    · split <;> simp [hqp, rightMost q hqlive]
  case nodup =>
    intro q hq
    have hqlive : s.live q := by
      simp only [hlive, Function.update_apply] at hq
      grind
    have hq' := nodup q hqlive
    rw [hchildren]
    by_cases hqp : q = p
    · subst hqp
      simpa using hq'.erase k
    · simpa [hqp] using hq'
  case child =>
    intro q j hq
    have hqlive : s.live q := by
      simp only [hlive, Function.update_apply] at hq
      grind
    have hq' := nodup q hqlive
    have hmem := hq'.mem_erase_iff (a := j) (b := k)
    have hq'' := child q j hqlive
    rw [hchildren, hlive, hspawnParent]
    by_cases hqp : q = p
    · subst hqp
      rw [Function.update_self, hmem, hq'', Function.update_apply]
      split <;> simp_all
    · rw [Function.update_of_ne hqp, hq'', Function.update_apply]
      rcases eq_or_ne j k with rfl | hjk
      · simp [hkp, Ne.symm hqp]
      · simp [hjk]
  case joinCounter =>
    intro q hq
    have hqlive : s.live q := by
      simp only [hlive, Function.update_apply] at hq
      grind
    have hq' := join q hqlive
    rw [hjoin, hchildren, hcallee]
    by_cases hqp : q = p
    · subst hqp
      rw [Function.update_self, Function.update_self, hq', hlen]
      omega
    · rwa [Function.update_of_ne hqp, Function.update_of_ne hqp]
  all_goals
    clear linked nodup rightMost join
    simp only [hbound, hlive, hcallee, hcallParent, hspawnParent, Function.update_apply]
    grind

/-- The links after `add_callee`. -/
theorem LinksInv.call (hi : LinksInv s) (hp : s.live p) (hk : s.live k)
    (hspawn : s.spawnParent k = none) (hcall : s.callParent k = none)
    (hnone : s.callee p = none)
    (hbound : s'.numClosures = s.numClosures) (hlive : s'.live = s.live)
    (hcallee : s'.callee = update s.callee p (some k))
    (hcallParent : s'.callParent = update s.callParent k (some p))
    (hspawnParent : s'.spawnParent = s.spawnParent)
    (hjoin : s'.joinCounter = update s.joinCounter p (s.joinCounter p + 1))
    (hchildren : s'.children = s.children)
    (hleftSib : s'.leftSib = s.leftSib) (hrightSib : s'.rightSib = s.rightSib)
    (hrightMost : s'.rightMostChild = s.rightMostChild) : LinksInv s' := by
  obtain ⟨bound, child, spawner, nodup, linked, rightMost, called, caller, oneParent, join⟩ := hi
  constructor
  all_goals
    simp only [hbound, hlive, hcallee, hcallParent, hspawnParent, hjoin, hchildren, hrightMost,
      Function.update_apply]
    grind

/-- The links after `remove_callee`, when the callee is destroyed. -/
theorem LinksInv.uncall (hi : LinksInv s) (hp : s.live p) (hk : s.callee p = some k)
    (hnone : s.children k = []) (hcalleeNone : s.callee k = none)
    (hbound : s'.numClosures = s.numClosures) (hlive : s'.live = update s.live k false)
    (hcallee : s'.callee = update s.callee p none)
    (hcallParent : s'.callParent = s.callParent) (hspawnParent : s'.spawnParent = s.spawnParent)
    (hjoin : s'.joinCounter = update s.joinCounter p (s.joinCounter p - 1))
    (hchildren : s'.children = s.children)
    (hleftSib : s'.leftSib = s.leftSib) (hrightSib : s'.rightSib = s.rightSib)
    (hrightMost : s'.rightMostChild = s.rightMostChild) : LinksInv s' := by
  have hcp := (hi.called p k hp).mp hk
  have hleaf := fun j hj => hi.leaf (j := j) hcp.1 hnone hcalleeNone hj
  obtain ⟨bound, child, spawner, nodup, linked, rightMost, called, caller, oneParent, join⟩ := hi
  constructor
  case joinCounter =>
    intro q hq
    have hqlive : s.live q := by
      simp only [hlive, Function.update_apply] at hq
      grind
    have hq' := join q hqlive
    rw [hjoin, hchildren, hcallee]
    by_cases hqp : q = p
    · subst hqp
      simp [hq', hk]
    · rwa [Function.update_of_ne hqp, Function.update_of_ne hqp]
  all_goals
    clear join
    simp only [hbound, hlive, hcallee, hcallParent, hspawnParent, hchildren, hrightMost,
      Function.update_apply]
    grind

end Links

end Cheetah
