import Cheetah.CircularProbing

/-! Insertion into an ordered circular buffer by shifting a run of occupied slots, and the
two ways in which it can cut the path of an element. -/
namespace Cheetah

/-- The slots after an element with home `t` is put at `p` and the occupied slots from
`p` up to distance `m` each move on by one. -/
def shifted (n : ℕ) (slot : ℕ → Slot) (t p m : ℕ) : ℕ → Slot := fun j =>
  if circDist n p j = 0 then .home t
  else if circDist n p j ≤ m then slot (advance n p (circDist n p j - 1))
  else slot j

/-- The probe for `t` ends at the occupied slot `p`, at distance `s`, and the occupied run
from `p` ends at distance `m`. -/
structure Displaces (n : ℕ) (slot : ℕ → Slot) (t s p m : ℕ) : Prop where
  at_p : p = advance n t s
  passes : Passes n slot t s
  stops : ¬ GoesOn n slot t s
  run : ∀ k < m, ∃ h, slot (advance n p k) = .home h
  pos : 0 < m
  lt : m < n
  free : ∀ h, slot (advance n p m) ≠ .home h

/-- No element of the shifted run has already gone all the way round. -/
def RunHasRoom (n : ℕ) (slot : ℕ → Slot) (p m : ℕ) : Prop :=
  ∀ k < m, ∀ h, slot (advance n p k) = .home h → circDist n h (advance n p k) + 1 < n

section Shift

variable {n t s m p : ℕ} {slot : ℕ → Slot}

theorem shifted_at : shifted n slot t p m p = .home t := by
  simp [shifted, circDist_self]

theorem shifted_run {k : ℕ} (hp : p < n) (hk : k < m) (hm : m < n) :
    shifted n slot t p m (advance n p (k+1)) = slot (advance n p k) := by
  unfold shifted
  rw [circDist_advance hp (by omega), if_neg (by omega), if_pos (by omega), Nat.add_sub_cancel]

theorem shifted_rest {j : ℕ} (hm : m < circDist n p j) :
    shifted n slot t p m j = slot j := by
  unfold shifted
  rw [if_neg (by omega), if_neg (by omega)]

/-- Each slot of a shifted buffer is the new one, a moved one, or an old one. -/
theorem shifted_cases {j : ℕ} (hp : p < n) (hj : j < n) :
    j = p ∨ (∃ k < m, j = advance n p (k+1)) ∨ m < circDist n p j := by
  have hd := advance_circDist hp hj
  rcases Nat.lt_or_ge m (circDist n p j) with hlt | hge
  · exact Or.inr (Or.inr hlt)
  · cases hc : circDist n p j with
    | zero => left; rw [← hd, hc, advance_zero hp]
    | succ k => right; left; exact ⟨k, by omega, by rw [← hc, hd]⟩

theorem circDist_succ {h j : ℕ} (hp : p < n) (hh : h < n) (hj : j < n)
    (hroom : circDist n h (advance n p j) + 1 < n) :
    circDist n h (advance n p (j+1)) = circDist n h (advance n p j) + 1 := by
  unfold circDist advance at *
  split_ifs at * <;> omega

theorem advance_pred {h r k : ℕ} (hp : p < n) (hh : h < n) (hr : r + 1 < n) (hk : k + 1 < n)
    (hc : advance n h (r+1) = advance n p (k+1)) : advance n h r = advance n p k := by
  unfold advance at *
  split_ifs at * <;> omega

/-- A probe that crossed the old slots, and the displaced slot only within distance `s`,
still crosses the shifted ones. -/
theorem goesOn_shifted (ho : Ordered n slot) (ht : t < n) (hs : s < n)
    (hdis : Displaces n slot t s p m) (hroom : RunHasRoom n slot p m) {h r : ℕ} (hh : h < n)
    (hr : r < n) (hold : ∀ q < r, GoesOn n slot h q)
    (hlast : GoesOn n slot h r ∨ ∃ k < m, advance n h r = advance n p k)
    (hnew : advance n h r = p → r ≤ s) : GoesOn n (shifted n slot t p m) h r := by
  have hpn : p < n := hdis.at_p ▸ advance_lt ht (by omega)
  have hm := hdis.lt
  have hc := advance_lt hh (show r ≤ n by omega)
  rcases shifted_cases (m := m) hpn hc with he | ⟨k, hk, he⟩ | hlt
  · rw [goesOn_home (by rw [he]; exact shifted_at), he]
    rw [hdis.at_p, circDist_advance ht hs]
    exact hnew he
  · obtain ⟨g, hg⟩ := hdis.run k hk
    have hgn := (ho _ (advance_lt hpn (by omega)) g hg).1
    have hsl : shifted n slot t p m (advance n h r) = .home g := by
      rw [he, shifted_run hpn hk hm, hg]
    rw [goesOn_home hsl, he, circDist_succ hpn hgn (by omega) (hroom k hk g hg)]
    cases r with
    | zero => omega
    | succ r =>
      have hpred := advance_pred hpn hh (by omega) (by omega) he
      have ho' := (goesOn_home (by rw [hpred]; exact hg)).mp (hold r (by omega))
      rw [hpred] at ho'
      omega
  · rw [goesOn_congr (shifted_rest hlt)]
    rcases hlast with hg | ⟨k, hk, he⟩
    · exact hg
    · rw [he, circDist_advance hpn (by omega)] at hlt
      omega

theorem Displaces.lt_of_at (hdis : Displaces n slot t s p m) {h : ℕ}
    (hg : slot p = .home h) : circDist n h p < s := by
  have hst := hdis.stops
  rw [goesOn_home (by rw [← hdis.at_p]; exact hg), ← hdis.at_p] at hst
  omega

/-- Inserting at an occupied slot and shifting its run keeps the order, as long as no element of the
run has already gone all the way round. A path that crossed the displaced slot did so within the
distance of the new element. -/
theorem Ordered.shift (ho : Ordered n slot) (ht : t < n) (hs : s < n)
    (hdis : Displaces n slot t s p m) (hroom : RunHasRoom n slot p m) :
    Ordered n (shifted n slot t p m) := by
  have hpn : p < n := hdis.at_p ▸ advance_lt ht (by omega)
  have hm := hdis.lt
  obtain ⟨hp0, hhp⟩ := hdis.run 0 hdis.pos
  rw [advance_zero hpn] at hhp
  have hlt := hdis.lt_of_at hhp
  have hwithin {h j r : ℕ} (hj : j < n) (he : slot j = .home h) (hr : r ≤ circDist n h j)
      (hc : advance n h r = p) : r ≤ s := by
    have hh := (ho j hj h he).1
    rcases Nat.lt_or_ge r (circDist n h j) with hlt' | hge
    · have hg := (goesOn_home (by rw [hc]; exact hhp)).mp (ho.goesOn hj he hlt')
      rw [hc] at hg
      omega
    · have hjp : j = p := by
        rw [← hc, show r = circDist n h j by omega, advance_circDist hh hj]
      rw [hjp, hhp] at he
      cases he
      rw [hjp] at hr
      omega
  intro j hj h he
  rcases shifted_cases (m := m) hpn hj with hjp | ⟨k, hk, hjk⟩ | hrest
  · rw [hjp, shifted_at] at he
    cases he
    refine ⟨ht, fun r hr => ?_⟩
    rw [hjp, hdis.at_p, circDist_advance ht hs] at hr
    exact goesOn_shifted ho ht hs hdis hroom ht (by omega)
      (fun q hq => hdis.passes q (by omega)) (Or.inl (hdis.passes r hr)) (fun _ => by omega)
  · rw [hjk, shifted_run hpn hk hm] at he
    have hkn : advance n p k < n := advance_lt hpn (by omega)
    have hh := (ho _ hkn h he).1
    have hd := circDist_succ hpn hh (by omega) (hroom k hk h he)
    have hdn := hroom k hk h he
    refine ⟨hh, fun r hr => ?_⟩
    rw [hjk, hd] at hr
    refine goesOn_shifted ho ht hs hdis hroom hh (by omega)
      (fun q hq => ho.goesOn hkn he (by omega)) ?_ (hwithin hkn he (by omega))
    rcases Nat.lt_or_ge r (circDist n h (advance n p k)) with hlt' | hge
    · exact Or.inl (ho.goesOn hkn he hlt')
    · exact Or.inr ⟨k, hk, by
        rw [show r = circDist n h (advance n p k) by omega, advance_circDist hh hkn]⟩
  · rw [shifted_rest hrest] at he
    have hh := (ho j hj h he).1
    have hdn := circDist_lt hh hj
    exact ⟨hh, fun r hr => goesOn_shifted ho ht hs hdis hroom hh (by omega)
      (fun q hq => ho.goesOn hj he (by omega)) (Or.inl (ho.goesOn hj he hr))
      (hwithin hj he (by omega))⟩

/-- If some element of the shifted run has already gone all the way round, the shift puts
it on its home index and the probe for the new element ends there. -/
theorem shifted_not_passes (ho : Ordered n slot) (ht : t < n) (hs : s < n)
    (hdis : Displaces n slot t s p m) (hroom : ¬ RunHasRoom n slot p m) :
    ∃ r < s, ¬ GoesOn n (shifted n slot t p m) t r := by
  have hpn : p < n := hdis.at_p ▸ advance_lt ht (by omega)
  have hm := hdis.lt
  unfold RunHasRoom at hroom
  push Not at hroom
  obtain ⟨k, hk, h, he, hfull⟩ := hroom
  have hkn : advance n p k < n := advance_lt hpn (by omega)
  have hh := (ho _ hkn h he).1
  have hd : circDist n h (advance n p k) = n - 1 := by
    have := circDist_lt hh hkn
    omega
  obtain ⟨g, hg⟩ := hdis.run 0 hdis.pos
  rw [advance_zero hpn] at hg
  have hlt := hdis.lt_of_at hg
  have hwrap : n ≤ s + k := by
    have hgn := (ho p hpn g hg).1
    by_contra hnk
    have hk0 : k ≠ 0 := by
      rintro rfl
      rw [advance_zero hpn, hg] at he
      cases he
      rw [advance_zero hpn] at hd
      omega
    have hpk := circDist_advance hpn (show k < n by omega)
    have hc : advance n h (n - 1 - k) = p := by
      have hsub := advance_circDist_sub hpn hh hkn (by omega)
      rwa [hpk, hd] at hsub
    have hcross := ho.goesOn hkn he (show n - 1 - k < circDist n h (advance n p k) by omega)
    rw [goesOn_home (by rw [hc]; exact hg), hc] at hcross
    omega
  refine ⟨s + k + 1 - n, by omega, ?_⟩
  have hc : advance n t (s + k + 1 - n) = advance n p (k+1) := by
    rw [hdis.at_p]
    unfold advance
    split_ifs <;> omega
  have hhome : advance n p (k+1) = h := by
    have hsucc := advance_circDist_succ hpn hh hkn (by omega)
    rwa [circDist_advance hpn (by omega)] at hsucc
  rw [goesOn_home (by rw [hc, shifted_run hpn hk hm, he]), hc, hhome, circDist_self]
  omega

/-- When the probe for `t` goes all the way round and every element has home `t`, putting
the new element on its home index and shifting keeps the order. -/
theorem ordered_shift_round (ht : t < n) (hm : m < n)
    (hrun : ∀ k < m, ∃ h, slot (advance n t k) = .home h)
    (hpass : Passes n slot t n) (hall : ∀ j < n, ∀ h, slot j = .home h → h = t) :
    Ordered n (shifted n slot t t m) := by
  have hhome {j h : ℕ} (hj : j < n) (he : shifted n slot t t m j = .home h) : h = t := by
    rcases shifted_cases (m := m) ht hj with hjt | ⟨k, hk, hjk⟩ | hrest
    · rw [hjt, shifted_at] at he
      cases he
      rfl
    · rw [hjk, shifted_run ht hk hm] at he
      exact hall _ (advance_lt ht (by omega)) h he
    · rw [shifted_rest hrest] at he
      exact hall j hj h he
  intro j hj h he
  rw [hhome hj he]
  refine ⟨ht, fun r hr => ?_⟩
  have hd := circDist_lt ht hj
  have hc := advance_lt ht (show r ≤ n by omega)
  rcases shifted_cases (m := m) ht hc with hrt | ⟨k, hk, hrk⟩ | hrest
  · rw [goesOn_home (by rw [hrt]; exact shifted_at), hrt, circDist_self]
    have hr0 : r = 0 := advance_injective ht (by omega) (by omega) (hrt.trans (advance_zero ht).symm)
    omega
  · obtain ⟨g, hg⟩ := hrun k hk
    have hsl : shifted n slot t t m (advance n t r) = .home g := by
      rw [hrk, shifted_run ht hk hm, hg]
    have hcd := circDist_advance ht (show r < n by omega)
    rw [goesOn_home hsl, hhome hc hsl]
    omega
  · rw [goesOn_congr (shifted_rest hrest)]
    exact hpass r (by omega)

/-- When the probe for `t` goes all the way round and some element has another home, putting
the new element on its home index cuts the path of an element. -/
theorem shifted_round_not_ordered (ho : Ordered n slot) (ht : t < n) (hm : m < n)
    (hrun : ∀ k < m, ∃ h, slot (advance n t k) = .home h)
    (hfree : ∀ h, slot (advance n t m) ≠ .home h) (hpass : Passes n slot t n)
    (hlast : ∃ h, slot (advance n t (n-1)) = .home h)
    (hother : ∃ j < n, ∃ h, slot j = .home h ∧ h ≠ t) : ¬ Ordered n (shifted n slot t t m) := by
  intro hnew
  obtain ⟨j, hj, h, he, hne⟩ := hother
  have hh := (ho j hj h he).1
  have hr := circDist_lt ht hj
  have hdh := circDist_lt hh hj
  obtain ⟨z, hz⟩ := hlast
  have hmz : m < n - 1 := by
    rcases Nat.lt_trichotomy m (n-1) with hlt | heq | hgt
    · exact hlt
    · exact absurd hz (heq ▸ hfree z)
    · omega
  have hgo : circDist n t j ≤ circDist n h j := by
    have hg := hpass (circDist n t j) hr
    rwa [goesOn_home (by rw [advance_circDist ht hj]; exact he), advance_circDist ht hj] at hg
  have hlt : circDist n t j < circDist n h j := by
    rcases Nat.lt_or_ge (circDist n t j) (circDist n h j) with hlt | hge
    · exact hlt
    · exact absurd (circDist_injective_left (b := j) hh ht (by omega)) hne
  have hcut {i g q : ℕ} (hi : i < n) (hg : shifted n slot t t m i = .home g) (hq : 0 < q)
      (hqi : q < circDist n g i) (hc : advance n g q = t) : False := by
    have hgo' := hnew.goesOn hi hg hqi
    rw [goesOn_home (by rw [hc]; exact shifted_at), hc, circDist_self] at hgo'
    omega
  rcases Nat.lt_or_ge (circDist n t j) m with hin | hout
  · have hj' := advance_lt ht (show circDist n t j + 1 ≤ n by omega)
    have hsl : shifted n slot t t m (advance n t (circDist n t j + 1)) = .home h := by
      rw [shifted_run ht hin hm, advance_circDist ht hj, he]
    rcases Nat.lt_or_ge (circDist n h j + 1) n with hroom | hfull
    · have hd : circDist n h (advance n t (circDist n t j + 1)) = circDist n h j + 1 := by
        have hstep := circDist_succ (j := circDist n t j) ht hh hr
          (by rwa [advance_circDist ht hj])
        rwa [advance_circDist ht hj] at hstep
      exact hcut hj' hsl (q := circDist n h j - circDist n t j) (by omega) (by omega)
        (advance_circDist_sub ht hh hj hgo)
    · have hzn := advance_lt ht (show n - 1 ≤ n by omega)
      have hzt : z = t := by
        have hg := hpass (n-1) (by omega)
        rw [goesOn_home hz] at hg
        have hzh := (ho _ hzn z hz).1
        have hzd := circDist_lt hzh hzn
        have htd := circDist_advance ht (show n - 1 < n by omega)
        exact circDist_injective_left (b := advance n t (n - 1)) hzh ht (by omega)
      have hzs : shifted n slot t t m (advance n t (n-1)) = .home t := by
        rw [shifted_rest (by rw [circDist_advance ht (by omega)]; exact hmz), hz, hzt]
      have hgo' := hnew.goesOn (r := circDist n t j + 1) hzn hzs
        (by rw [circDist_advance ht (by omega)]; omega)
      rw [goesOn_home hsl] at hgo'
      rw [advance_circDist_succ ht hh hj hfull, circDist_self] at hgo'
      omega
  · have hsl : shifted n slot t t m j = .home h := by
      have hjt : j ≠ t := by
        rintro rfl
        rw [circDist_self] at hout
        obtain rfl : m = 0 := by omega
        rw [advance_zero hj] at hfree
        exact hfree h he
      have hjm : circDist n t j ≠ m := by
        rintro rfl
        rw [advance_circDist ht hj] at hfree
        exact hfree h he
      rw [shifted_rest (by omega), he]
    have hpos : 0 < circDist n t j := by
      rcases Nat.eq_zero_or_pos (circDist n t j) with h0 | hpos
      · have hjt := advance_circDist ht hj
        rw [h0, advance_zero ht] at hjt
        rw [← hjt, shifted_at] at hsl
        cases hsl
        exact absurd rfl hne
      · exact hpos
    exact hcut hj hsl (q := circDist n h j - circDist n t j) (by omega) (by omega)
      (advance_circDist_sub ht hh hj hgo)

/-- An insertion with home `t` that has to shift a run keeps the order: no element of the
run has already gone all the way round, and if the probe itself goes all the way round then
every element has home `t`. -/
structure ShiftsSafely (n : ℕ) (slot : ℕ → Slot) (t : ℕ) : Prop where
  room : ∀ s < n, ∀ p m, Displaces n slot t s p m →
    (0 < s → slot (advance n t (s-1)) ≠ .tombstone) → RunHasRoom n slot p m
  round : Passes n slot t n → slot (advance n t (n-1)) ≠ .tombstone →
    ∀ j < n, ∀ h, slot j = .home h → h = t

/-- With an empty slot no element and no probe goes all the way round. -/
theorem shiftsSafely_of_empty (ho : Ordered n slot) (ht : t < n)
    (hempty : ∃ j < n, slot j = .empty) : ShiftsSafely n slot t := by
  obtain ⟨i, hi, hei⟩ := hempty
  refine ⟨fun s hs p m hdis _ k hk h he => ?_, fun hpass _ => ?_⟩
  · have hpn : p < n := hdis.at_p ▸ advance_lt ht (by omega)
    have hm := hdis.lt
    have hkn := advance_lt hpn (show k ≤ n by omega)
    have hh := (ho _ hkn h he).1
    have hd := circDist_lt hh hkn
    by_contra hfull
    have hdi := circDist_lt hh hi
    have hne : circDist n h i ≠ circDist n h (advance n p k) := by
      intro heq
      have hik := advance_circDist hh hi
      rw [heq, advance_circDist hh hkn] at hik
      rw [hik, hei] at he
      exact Slot.noConfusion he
    have hg := ho.goesOn hkn he (show circDist n h i < circDist n h (advance n p k) by omega)
    exact hg.ne_empty (by rw [advance_circDist hh hi, hei])
  · have hg := hpass _ (circDist_lt ht hi)
    exact absurd (by rw [advance_circDist ht hi, hei]) hg.ne_empty

end Shift

end Cheetah
