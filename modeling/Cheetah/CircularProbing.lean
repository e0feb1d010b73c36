import Mathlib.Order.Basic
import Mathlib.Logic.Function.Basic
import Mathlib.Tactic.Common

/-! Ordered linear probing on a circular buffer of `n` slots, without keys or data.
A slot is occupied by an element with a home index, empty, or a tombstone. A probe
walks from its home index and stops early at an element that is nearer to its own
home than the probe is. -/
namespace Cheetah

/-- The index reached from `a` by `s` steps round a buffer of `n` slots, for `s ≤ n`. -/
def advance (n a s : ℕ) : ℕ := if a + s < n then a + s else a + s - n

/-- The number of steps from `a` to `b` round a buffer of `n` slots. -/
def circDist (n a b : ℕ) : ℕ := if a ≤ b then b - a else b + n - a

section Arithmetic

variable {n a b s r : ℕ}

theorem advance_lt (ha : a < n) (hs : s ≤ n) : advance n a s < n := by
  unfold advance
  split_ifs <;> omega

theorem advance_zero (ha : a < n) : advance n a 0 = a := by
  simp [advance, ha]

theorem advance_full : advance n a n = a := by
  unfold advance
  split_ifs <;> omega

theorem advance_succ (ha : a < n) (hs : s < n) :
    advance n a (s+1) = if advance n a s + 1 = n then 0 else advance n a s + 1 := by
  unfold advance
  split_ifs <;> omega

theorem circDist_lt (ha : a < n) (hb : b < n) : circDist n a b < n := by
  unfold circDist
  split_ifs <;> omega

theorem circDist_advance (ha : a < n) (hs : s < n) : circDist n a (advance n a s) = s := by
  unfold circDist advance
  split_ifs <;> omega

theorem advance_circDist (ha : a < n) (hb : b < n) : advance n a (circDist n a b) = b := by
  unfold circDist advance
  split_ifs <;> omega

theorem circDist_self (n a : ℕ) : circDist n a a = 0 := by
  simp [circDist]

theorem advance_ne_self (hs : 0 < s) (hsn : s < n) : advance n a s ≠ a := by
  unfold advance
  split_ifs <;> omega

theorem advance_injective (ha : a < n) (hs : s < n) (hr : r < n)
    (h : advance n a s = advance n a r) : s = r := by
  have he := congrArg (circDist n a) h
  rwa [circDist_advance ha hs, circDist_advance ha hr] at he

theorem circDist_injective_left {h : ℕ} (ha : a < n) (hh : h < n)
    (he : circDist n a b = circDist n h b) : a = h := by
  unfold circDist at he
  split_ifs at he <;> omega

/-- The path from `h` to `b` crosses every index that is nearer to `b`. -/
theorem advance_circDist_sub {h : ℕ} (ha : a < n) (hh : h < n) (hb : b < n)
    (hle : circDist n a b ≤ circDist n h b) :
    advance n h (circDist n h b - circDist n a b) = a := by
  unfold advance circDist at *
  split_ifs at * <;> omega

/-- An element that is `n - 1` steps from its home is one step in front of it. -/
theorem advance_circDist_succ {h : ℕ} (ha : a < n) (hh : h < n) (hb : b < n)
    (hfull : n ≤ circDist n h b + 1) : advance n a (circDist n a b + 1) = h := by
  unfold advance circDist at *
  split_ifs at * <;> omega

end Arithmetic

inductive Slot where
  | empty
  | tombstone
  | home (h : ℕ)
deriving DecidableEq

/-- A probe for home index `t` goes on past the slot at distance `r` from `t`. -/
def GoesOn (n : ℕ) (slot : ℕ → Slot) (t r : ℕ) : Prop :=
  match slot (advance n t r) with
  | .empty => False
  | .tombstone => True
  | .home h => r ≤ circDist n h (advance n t r)

/-- A probe for home index `t` goes on past its first `s` slots. -/
def Passes (n : ℕ) (slot : ℕ → Slot) (t s : ℕ) : Prop := ∀ r < s, GoesOn n slot t r

/-- Every occupied slot is reached by the probe for its own home index. -/
def Ordered (n : ℕ) (slot : ℕ → Slot) : Prop :=
  ∀ j < n, ∀ h, slot j = .home h → h < n ∧ Passes n slot h (circDist n h j)

/-- A tombstone at distance `s` from `t` may take an element with home `t`: after the
tombstones that follow it, at distance `m`, the probe would end. -/
structure Ends (n : ℕ) (slot : ℕ → Slot) (t s m : ℕ) : Prop where
  lt : s < m
  le : m ≤ n
  tombs : ∀ r, s < r → r < m → slot (advance n t r) = .tombstone
  stop : m = n ∨ ¬ GoesOn n slot t m

section Probing

variable {n t s m p : ℕ} {slot : ℕ → Slot}

theorem goesOn_home {r h : ℕ} (he : slot (advance n t r) = .home h) :
    GoesOn n slot t r ↔ r ≤ circDist n h (advance n t r) := by
  simp only [GoesOn, he]

theorem goesOn_tombstone {r : ℕ} (he : slot (advance n t r) = .tombstone) :
    GoesOn n slot t r := by
  simp only [GoesOn, he]

theorem GoesOn.ne_empty {r : ℕ} (hg : GoesOn n slot t r) :
    slot (advance n t r) ≠ .empty := by
  intro he
  simp only [GoesOn, he] at hg

theorem goesOn_congr {slot' : ℕ → Slot} {r : ℕ}
    (he : slot' (advance n t r) = slot (advance n t r)) :
    GoesOn n slot' t r ↔ GoesOn n slot t r := by
  simp only [GoesOn, he]

/-- An element whose probe crosses a slot at distance `r` of its path. -/
theorem Ordered.goesOn {h j r : ℕ} (ho : Ordered n slot) (hj : j < n)
    (he : slot j = .home h) (hr : r < circDist n h j) : GoesOn n slot h r :=
  (ho j hj h he).2 r hr

theorem GoesOn.congr {slot' : ℕ → Slot} {r : ℕ} (hc : ∀ j < n, slot j = slot' j) (ht : t < n)
    (hr : r ≤ n) : GoesOn n slot t r ↔ GoesOn n slot' t r :=
  goesOn_congr (hc _ (advance_lt ht hr))

theorem Ordered.congr {slot' : ℕ → Slot} (ho : Ordered n slot)
    (hc : ∀ j < n, slot j = slot' j) : Ordered n slot' := by
  intro j hj h he
  rw [← hc j hj] at he
  obtain ⟨hh, hp⟩ := ho j hj h he
  have hd := circDist_lt hh hj
  exact ⟨hh, fun r hr => (GoesOn.congr hc hh (by omega)).mp (hp r hr)⟩

theorem ordered_of_no_home (hs : ∀ j < n, ∀ h, slot j ≠ .home h) : Ordered n slot :=
  fun j hj h he => absurd he (hs j hj h)

/-- Turning an element into a tombstone keeps the order. -/
theorem Ordered.remove (ho : Ordered n slot) (i : ℕ) :
    Ordered n (Function.update slot i .tombstone) := by
  intro j hj h he
  have hji : j ≠ i := by
    rintro rfl
    simp at he
  rw [Function.update_of_ne hji] at he
  refine ⟨(ho j hj h he).1, fun r hr => ?_⟩
  by_cases hc : advance n h r = i
  · exact goesOn_tombstone (by rw [hc, Function.update_self])
  · exact (goesOn_congr (Function.update_of_ne hc _ _)).mpr (ho.goesOn hj he hr)

/-- An element whose path crosses the tombstone at distance `s` from `t`, where a probe
for `t` ends behind that tombstone, has its home at or after `t`. -/
theorem Ordered.dist_le_of_ends {h j r : ℕ} (ho : Ordered n slot) (ht : t < n)
    (hend : Ends n slot t s m) (hj : j < n) (he : slot j = .home h)
    (hr : r < circDist n h j) (hc : advance n h r = advance n t s) : r ≤ s := by
  have hh := (ho j hj h he).1
  have hd := circDist_lt hh hj
  obtain ⟨d, hd'⟩ : ∃ d, circDist n h j = r + d := ⟨circDist n h j - r, by omega⟩
  by_contra hlt
  have hpos (k : ℕ) (hk : k ≤ d) (hks : s + k ≤ n) :
      advance n h (r + k) = advance n t (s + k) := by
    unfold advance at hc ⊢
    split_ifs at hc ⊢ <;> omega
  have hjd : advance n h (r + d) = j := by
    rw [← hd']
    exact advance_circDist hh hj
  have hdm : s + d ≥ m := by
    by_contra hdm
    have hn := hend.le
    have hp := hpos d (Nat.le_refl d) (by omega)
    have htomb := hend.tombs (s + d) (by omega) (by omega)
    rw [← hp, hjd, he] at htomb
    exact Slot.noConfusion htomb
  have hsm := hend.lt
  have hmn := hend.le
  have hp := hpos (m - s) (by omega) (by omega)
  rw [show s + (m - s) = m by omega] at hp
  rcases hend.stop with hn | hstop
  · omega
  · apply hstop
    rcases Nat.lt_or_ge (r + (m - s)) (circDist n h j) with hlt' | hge
    · have hg := ho.goesOn hj he hlt'
      unfold GoesOn at hg ⊢
      rw [← hp]
      revert hg
      cases slot (advance n h (r + (m - s))) with
      | empty => exact id
      | tombstone => exact id
      | home g => intro hg; dsimp only at hg ⊢; omega
    · have hjm : advance n t m = j := by
        rw [← hp, ← hjd]
        congr 1
        omega
      rw [goesOn_home (by rw [hjm]; exact he), hjm]
      omega

/-- An element may be put into an empty slot that its probe reaches, or into a tombstone
behind which its probe would end. -/
theorem Ordered.place (ho : Ordered n slot) (ht : t < n) (hs : s < n)
    (hp : Passes n slot t s)
    (hfree : slot (advance n t s) = .empty ∨
      slot (advance n t s) = .tombstone ∧ ∃ m, Ends n slot t s m) :
    Ordered n (Function.update slot (advance n t s) (.home t)) := by
  intro j hj h he
  by_cases hji : j = advance n t s
  · subst hji
    rw [Function.update_self] at he
    cases he
    refine ⟨ht, fun r hr => ?_⟩
    rw [circDist_advance ht hs] at hr
    have hc : advance n t r ≠ advance n t s := fun hc =>
      absurd (advance_injective ht (by omega) hs hc) (by omega)
    exact (goesOn_congr (Function.update_of_ne hc _ _)).mpr (hp r hr)
  · rw [Function.update_of_ne hji] at he
    refine ⟨(ho j hj h he).1, fun r hr => ?_⟩
    have hg := ho.goesOn hj he hr
    by_cases hc : advance n h r = advance n t s
    · rw [goesOn_home (by rw [hc, Function.update_self]), hc, circDist_advance ht hs]
      rcases hfree with hempty | ⟨-, m, hend⟩
      · exact absurd (hc ▸ hempty) hg.ne_empty
      · exact ho.dist_le_of_ends ht hend hj he hr hc
    · exact (goesOn_congr (Function.update_of_ne hc _ _)).mpr hg

end Probing

end Cheetah
