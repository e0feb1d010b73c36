import Mathlib.Logic.ExistsUnique
import Mathlib.Tactic.Common

/-! Things that are moved from place to place. -/
namespace Cheetah

section Placement

variable {ι π : Type*} {At At' : ι → π → Prop} {live : ι → Prop}

/-- Each thing that lives is in exactly one place, and nothing else is anywhere. -/
structure Placed (At : ι → π → Prop) (live : ι → Prop) : Prop where
  one : ∀ x, live x → ∃! p, At x p
  live : ∀ x p, At x p → live x

theorem Placed.unique (h : Placed At live) {x : ι} {p q : π} (hp : At x p) (hq : At x q) : p = q :=
  (h.one x (h.live x p hp)).unique hp hq

theorem Placed.congr (h : Placed At live) (hsame : ∀ x p, At' x p ↔ At x p) : Placed At' live := by
  have heq : At' = At := by
    funext x p
    exact propext (hsame x p)
  rwa [heq]

/-- One thing is moved to another place. -/
theorem Placed.move (h : Placed At live) (x₀ : ι) (p₀ p₁ : π) (hat : At x₀ p₀)
    (hfrom : ∀ x, At' x p₀ ↔ x ≠ x₀ ∧ At x p₀) (hto : ∀ x, At' x p₁ ↔ x = x₀ ∨ At x p₁)
    (hrest : ∀ x p, p ≠ p₀ → p ≠ p₁ → (At' x p ↔ At x p)) : Placed At' live := by
  have hother : ∀ x p, x ≠ x₀ → (At' x p ↔ At x p) := by
    intro x p hx
    by_cases hp₀ : p = p₀
    · rw [hp₀, hfrom]
      exact and_iff_right hx
    · by_cases hp₁ : p = p₁
      · rw [hp₁, hto]
        exact or_iff_right hx
      · exact hrest x p hp₀ hp₁
  have hself : ∀ p, At' x₀ p ↔ p = p₁ := by
    intro p
    by_cases hp₁ : p = p₁
    · rw [hp₁, hto]
      exact iff_of_true (Or.inl rfl) rfl
    · refine iff_of_false (fun hp => ?_) hp₁
      by_cases hp₀ : p = p₀
      · rw [hp₀, hfrom] at hp
        exact hp.1 rfl
      · exact hp₀ (h.unique ((hrest x₀ p hp₀ hp₁).mp hp) hat)
  constructor
  · intro x hx
    by_cases hxx : x = x₀
    · rw [hxx]
      exact ⟨p₁, (hself p₁).mpr rfl, fun p hp => (hself p).mp hp⟩
    · obtain ⟨p, hp, huniq⟩ := h.one x hx
      exact ⟨p, (hother x p hxx).mpr hp, fun q hq => huniq q ((hother x q hxx).mp hq)⟩
  · intro x p hp
    by_cases hxx : x = x₀
    · rw [hxx]
      exact h.live x₀ p₀ hat
    · exact h.live x p ((hother x p hxx).mp hp)

/-- A new thing is put in a place. -/
theorem Placed.create (h : Placed At live) (x₀ : ι) (p₁ : π) (hnew : ¬ live x₀)
    (hto : ∀ x, At' x p₁ ↔ x = x₀ ∨ At x p₁) (hrest : ∀ x p, p ≠ p₁ → (At' x p ↔ At x p)) :
    Placed At' fun x => x = x₀ ∨ live x := by
  have hother : ∀ x p, x ≠ x₀ → (At' x p ↔ At x p) := by
    intro x p hx
    by_cases hp₁ : p = p₁
    · rw [hp₁, hto]
      exact or_iff_right hx
    · exact hrest x p hp₁
  constructor
  · intro x hx
    by_cases hxx : x = x₀
    · rw [hxx]
      refine ⟨p₁, (hto x₀).mpr (Or.inl rfl), fun p hp => ?_⟩
      by_contra hp₁
      exact hnew (h.live x₀ p ((hrest x₀ p hp₁).mp hp))
    · obtain ⟨p, hp, huniq⟩ := h.one x (hx.resolve_left hxx)
      exact ⟨p, (hother x p hxx).mpr hp, fun q hq => huniq q ((hother x q hxx).mp hq)⟩
  · intro x p hp
    by_cases hxx : x = x₀
    · exact Or.inl hxx
    · exact Or.inr (h.live x p ((hother x p hxx).mp hp))

end Placement

end Cheetah
