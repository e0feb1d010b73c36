import Mathlib.Logic.Relation
import Mathlib.Order.Basic

/-! Locks that are only waited for in the order of a rank cannot deadlock. -/
namespace Cheetah

section LockOrder

variable {π ι α : Type*} [Preorder α] {holds waits : π → ι → Prop} {rank : ι → α} {w u : π}

/-- `w` waits for a lock that `u` holds. -/
def WaitsFor (holds waits : π → ι → Prop) (w u : π) : Prop := ∃ l, waits w l ∧ holds u l

/-- A party that waits holds only locks of a lower rank. -/
def RankedLocks (holds waits : π → ι → Prop) (rank : ι → α) : Prop :=
  ∀ w l l', waits w l → holds w l' → rank l' < rank l

/-- Along a chain of waiting parties the ranks go up. -/
theorem RankedLocks.chain (hr : RankedLocks holds waits rank)
    (hchain : Relation.TransGen (WaitsFor holds waits) w u) :
    ∃ l l', waits w l ∧ holds u l' ∧ rank l ≤ rank l' := by
  induction hchain with
  | single hwait =>
    obtain ⟨l, hl, hu⟩ := hwait
    exact ⟨l, l, hl, hu, le_refl _⟩
  | tail _ hwait ih =>
    obtain ⟨l, l', hl, hu, hle⟩ := ih
    obtain ⟨m, hm, hv⟩ := hwait
    exact ⟨l, m, hl, hv, hle.trans (hr _ m l' hm hu).le⟩

theorem RankedLocks.acyclic (hr : RankedLocks holds waits rank) (w : π) :
    ¬ Relation.TransGen (WaitsFor holds waits) w w := by
  intro hcycle
  obtain ⟨l, l', hl, hw, hle⟩ := hr.chain hcycle
  exact lt_irrefl _ (hle.trans_lt (hr w l l' hl hw))

end LockOrder

end Cheetah
