import Mathlib.Data.List.Perm.Basic
import Mathlib.Tactic.Common

/-! Binary operations with effects, applied over a sequence in any shape. -/
namespace Cheetah

universe u

variable {α : Type u} {β γ ε : Type*}

inductive Bracketing (α : Type u) where
  | leaf (x : α)
  | node (left right : Bracketing α)
deriving DecidableEq

namespace Bracketing

def leaves : Bracketing α → List α
  | leaf x => [x]
  | node left right => left.leaves ++ right.leaves

theorem leaves_ne_nil : ∀ b : Bracketing α, b.leaves ≠ []
  | leaf _ => List.cons_ne_nil _ _
  | node left _ => List.append_ne_nil_of_left_ne_nil left.leaves_ne_nil _

/-- The value of a bracketing, and the effects of all the operations in it. -/
def combine (op : α → α → α × List ε) : Bracketing α → α × List ε
  | leaf x => (x, [])
  | node left right =>
    let (x, xs) := left.combine op
    let (y, ys) := right.combine op
    let (z, zs) := op x y
    (z, xs ++ ys ++ zs)

variable {op : α → α → α × List ε}

/-- An observation that the operation turns into a function of the sequence. -/
theorem combine_observe (f : α → γ) (φ : List α → γ) (hleaf : ∀ x, f x = φ [x])
    (hop : ∀ x y xs ys, ys ≠ [] → f x = φ xs → f y = φ ys → f (op x y).1 = φ (xs ++ ys)) :
    ∀ b : Bracketing α, f (b.combine op).1 = φ b.leaves
  | leaf x => hleaf x
  | node left right => hop _ _ _ _ right.leaves_ne_nil (combine_observe f φ hleaf hop left)
      (combine_observe f φ hleaf hop right)

/-- If one operation loses nothing of what its arguments hold, and makes nothing up, then neither
does a bracketing of operations: each thing is held by the value or released once. -/
theorem combine_conserves (held : α → List β) (released : ε → Option β)
    (hop : ∀ x y, (held (op x y).1 ++ (op x y).2.filterMap released).Perm (held x ++ held y)) :
    ∀ b : Bracketing α, (held (b.combine op).1 ++ (b.combine op).2.filterMap released).Perm
      (b.leaves.flatMap held)
  | leaf x => by simp [combine, leaves]
  | node left right => by
    have hl := combine_conserves held released hop left
    have hr := combine_conserves held released hop right
    have hstep := hop (left.combine op).1 (right.combine op).1
    simp only [combine, leaves, List.flatMap_append, List.filterMap_append]
    classical
    rw [List.perm_iff_count] at hl hr hstep ⊢
    intro a
    have hla := hl a
    have hra := hr a
    have hsa := hstep a
    simp only [List.count_append] at hla hra hsa ⊢
    omega

end Bracketing

end Cheetah
