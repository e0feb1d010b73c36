import Mathlib.Order.Basic
import Cheetah.HyperTable
import Cheetah.CircularProbing

/-! The two probes of the table as walks over ordered slots. -/
namespace Cheetah

variable {δ : Type*}

def Bucket.slot (b : Bucket δ) : Slot :=
  if isEmpty b.key then .empty else if isTombstone b.key then .tombstone else .home b.hash

theorem isValid_iff (key : Key) : isValid key = true ↔ key ≠ keyEmpty ∧ key ≠ keyDeleted := by
  simp [isValid, isEmpty, isTombstone]

theorem isTombstone_ne_isEmpty {key : Key} (h : isTombstone key = true) : isEmpty key = false := by
  have hk : key = keyDeleted := by simpa [isTombstone] using h
  rw [hk]
  decide

theorem Bucket.slot_home {b : Bucket δ} (h : isValid b.key = true) : b.slot = .home b.hash := by
  simp only [isValid, Bool.and_eq_true, Bool.not_eq_true'] at h
  simp [Bucket.slot, h.1, h.2]

theorem Bucket.slot_home_iff {b : Bucket δ} {h : ℕ} :
    b.slot = .home h ↔ isValid b.key = true ∧ b.hash = h := by
  unfold Bucket.slot isValid
  cases isEmpty b.key <;> cases isTombstone b.key <;> simp

theorem Bucket.slot_empty_iff {b : Bucket δ} : b.slot = .empty ↔ isEmpty b.key = true := by
  unfold Bucket.slot
  cases isEmpty b.key <;> cases isTombstone b.key <;> simp

theorem Bucket.slot_tombstone_iff {b : Bucket δ} :
    b.slot = .tombstone ↔ isTombstone b.key = true := by
  unfold Bucket.slot
  cases he : isTombstone b.key with
  | false => cases isEmpty b.key <;> simp
  | true => simp [isTombstone_ne_isEmpty he]

variable [Inhabited δ]

def slotOf (bs : List (Bucket δ)) (j : ℕ) : Slot := (bucketAt bs j).slot

theorem bucketAt_set {bs : List (Bucket δ)} {i : ℕ} (hi : i < bs.length) (b : Bucket δ) :
    bucketAt (bs.set i b) = Function.update (bucketAt bs) i b := by
  funext j
  by_cases hj : j = i
  · subst hj
    simp [bucketAt, hi]
  · rw [Function.update_of_ne hj]
    simp [bucketAt, List.getElem?_set_ne (Ne.symm hj)]

theorem slotOf_set {bs : List (Bucket δ)} {i : ℕ} (hi : i < bs.length) (b : Bucket δ) :
    slotOf (bs.set i b) = Function.update (slotOf bs) i b.slot := by
  funext j
  unfold slotOf
  rw [bucketAt_set hi]
  by_cases hj : j = i
  · subst hj
    simp
  · simp [Function.update_of_ne hj]

theorem incIndex_eq {n i : ℕ} (hi : i < n) : incIndex i n = advance n i 1 := by
  unfold incIndex advance
  split_ifs <;> omega

theorem incIndex_advance {n a s : ℕ} (ha : a < n) (hs : s < n) :
    incIndex (advance n a s) n = advance n a (s+1) := by
  rw [advance_succ ha hs, incIndex]

theorem getTableEntry_lt (cfg : HashConfig) {n : ℕ} (hn : 0 < n) (key : Key) :
    getTableEntry cfg n key < n := by
  have h : getTableEntry cfg n key ≤ n - 1 := Nat.and_le_right
  omega

/-- The wrapping comparison of `continue_probe` compares distances round the buffer. -/
theorem continueProbe_iff {n tgt hash idx : ℕ} (hn : n ≤ 2^31) (ht : tgt < n) (hh : hash < n)
    (hi : idx < n) :
    continueProbe tgt hash idx = true ↔ circDist n tgt idx ≤ circDist n hash idx := by
  have hsub {a : ℕ} (ha : a < n) :
      subIndex idx a = if a ≤ idx then idx - a else idx + 2^32 - a := by
    unfold subIndex
    split_ifs <;> omega
  simp only [continueProbe, decide_eq_true_eq, hsub ht, hsub hh, circDist]
  split_ifs <;> omega

section Probes

variable {bs : List (Bucket δ)} {n t : ℕ} {key : Key}

/-- Homes of occupied slots are indices of the buffer. -/
def HomesLt (n : ℕ) (slot : ℕ → Slot) : Prop := ∀ j < n, ∀ h, slot j = .home h → h < n

theorem Ordered.homesLt {slot : ℕ → Slot} (ho : Ordered n slot) : HomesLt n slot :=
  fun j hj h he => (ho j hj h he).1

theorem goesOn_iff_continueProbe (hn : n ≤ 2^31) (hl : HomesLt n (slotOf bs)) (ht : t < n)
    {s : ℕ} (hs : s < n) (hv : isValid (bucketAt bs (advance n t s)).key = true) :
    GoesOn n (slotOf bs) t s ↔
      continueProbe t (bucketAt bs (advance n t s)).hash (advance n t s) = true := by
  have hsl : slotOf bs (advance n t s) = .home (bucketAt bs (advance n t s)).hash :=
    Bucket.slot_home hv
  have hi := advance_lt ht (show s ≤ n by omega)
  rw [goesOn_home hsl, continueProbe_iff hn ht (hl _ hi _ hsl) hi, circDist_advance ht hs]

/-- One step of the find probe past a bucket that is not the key's. -/
theorem findProbe_step (hn : n ≤ 2^31) (hl : HomesLt n (slotOf bs)) (ht : t < n)
    {s f : ℕ} (hs : s < n) (hk : key ≠ (bucketAt bs (advance n t s)).key) :
    (GoesOn n (slotOf bs) t s → s + 1 < n →
      findProbe bs n t key (f+1) (advance n t s) = findProbe bs n t key f (advance n t (s+1))) ∧
    (¬ GoesOn n (slotOf bs) t s → findProbe bs n t key (f+1) (advance n t s) = none) := by
  have hne (hs' : s + 1 < n) : advance n t (s+1) ≠ t := advance_ne_self (by omega) hs'
  by_cases hempty : isEmpty (bucketAt bs (advance n t s)).key = true
  · have hsl : slotOf bs (advance n t s) = .empty := Bucket.slot_empty_iff.mpr hempty
    refine ⟨fun hg => absurd hsl hg.ne_empty, fun _ => ?_⟩
    simp [findProbe, hk, hempty]
  · by_cases htomb : isTombstone (bucketAt bs (advance n t s)).key = true
    · have hg : GoesOn n (slotOf bs) t s :=
        goesOn_tombstone (Bucket.slot_tombstone_iff.mpr htomb)
      refine ⟨fun _ hs' => ?_, fun hng => absurd hg hng⟩
      simp [findProbe, hk, hempty, htomb, incIndex_advance ht hs, hne hs']
    · have hv : isValid (bucketAt bs (advance n t s)).key = true := by
        simp [isValid, hempty, htomb]
      rw [goesOn_iff_continueProbe hn hl ht hs hv]
      refine ⟨fun hg hs' => ?_, fun hng => ?_⟩
      · simp [findProbe, hk, hempty, htomb, hg, incIndex_advance ht hs, hne hs']
      · simp [findProbe, hk, hempty, htomb, hng]

/-- The probe finds a key at the end of a path that goes on up to it. -/
theorem findProbe_found (hn : n ≤ 2^31) (hl : HomesLt n (slotOf bs)) (ht : t < n) {s d : ℕ}
    (hd : d < n) (hs : s ≤ d) (hkey : (bucketAt bs (advance n t d)).key = key)
    (hbefore : ∀ r < d, (bucketAt bs (advance n t r)).key ≠ key)
    (hpass : Passes n (slotOf bs) t d) :
    findProbe bs n t key (n - s) (advance n t s) = some (advance n t d) := by
  induction h : d - s generalizing s with
  | zero =>
    obtain rfl : s = d := by omega
    obtain ⟨f, hf⟩ : ∃ f, n - s = f + 1 := ⟨n - s - 1, by omega⟩
    simp [hf, findProbe, hkey]
  | succ k ih =>
    obtain ⟨f, hf⟩ : ∃ f, n - s = f + 1 := ⟨n - s - 1, by omega⟩
    have hstep := findProbe_step (f := f) hn hl ht (show s < n by omega)
      (Ne.symm (hbefore s (by omega)))
    rw [hf, hstep.1 (hpass s (by omega)) (by omega)]
    have hih := ih (s := s+1) (by omega) (by omega)
    rwa [show n - (s+1) = f by omega] at hih

/-- The probe fails when it ends before it meets the key. -/
theorem findProbe_ended (hn : n ≤ 2^31) (hl : HomesLt n (slotOf bs)) (ht : t < n) {s d : ℕ}
    (hd : d < n) (hs : s ≤ d) (hbefore : ∀ r ≤ d, (bucketAt bs (advance n t r)).key ≠ key)
    (hstop : ¬ GoesOn n (slotOf bs) t d) :
    findProbe bs n t key (n - s) (advance n t s) = none := by
  induction h : d - s generalizing s with
  | zero =>
    obtain rfl : s = d := by omega
    obtain ⟨f, hf⟩ : ∃ f, n - s = f + 1 := ⟨n - s - 1, by omega⟩
    rw [hf]
    exact (findProbe_step hn hl ht hd (Ne.symm (hbefore s (Nat.le_refl _)))).2 hstop
  | succ k ih =>
    obtain ⟨f, hf⟩ : ∃ f, n - s = f + 1 := ⟨n - s - 1, by omega⟩
    have hstep := findProbe_step (f := f) hn hl ht (show s < n by omega)
      (Ne.symm (hbefore s (by omega)))
    rw [hf]
    by_cases hg : GoesOn n (slotOf bs) t s
    · rw [hstep.1 hg (by omega)]
      have hih := ih (s := s+1) (by omega) (by omega)
      rwa [show n - (s+1) = f by omega] at hih
    · exact hstep.2 hg

/-- The probe fails when no bucket has the key. -/
theorem findProbe_absent (habs : ∀ j < n, (bucketAt bs j).key ≠ key) :
    ∀ f i, i < n → findProbe bs n t key f i = none := by
  intro f
  induction f with
  | zero => intro i _; rfl
  | succ f ih =>
    intro i hi
    have hnext : incIndex i n < n := by
      rw [incIndex_eq hi]
      exact advance_lt hi (by omega)
    simp only [findProbe, if_neg (Ne.symm (habs i hi)), ih _ hnext, ite_self]

theorem tombEnd_spec (ht : t < n) : ∀ f s, 0 < s → s ≤ n → n ≤ s + f →
    ∃ m, s ≤ m ∧ m ≤ n ∧ tombEnd bs n t f (advance n t s) = advance n t m ∧
      (∀ r, s ≤ r → r < m → slotOf bs (advance n t r) = .tombstone) ∧
      (m < n → slotOf bs (advance n t m) ≠ .tombstone) := by
  intro f
  induction f with
  | zero =>
    intro s hs hsn hf
    exact ⟨s, (Nat.le_refl _), hsn, rfl, fun r _ _ => by omega, fun _ => by omega⟩
  | succ f ih =>
    intro s hs hsn hf
    rcases Nat.lt_or_ge s n with hlt | hge
    · have hne : advance n t s ≠ t := advance_ne_self hs hlt
      by_cases htomb : isTombstone (bucketAt bs (advance n t s)).key = true
      · obtain ⟨m, hm, hmn, he, htombs, hend⟩ := ih (s+1) (by omega) (by omega) (by omega)
        refine ⟨m, by omega, hmn, ?_, fun r hr hrm => ?_, hend⟩
        · simp [tombEnd, hne, htomb, incIndex_advance ht hlt, he]
        · rcases Nat.lt_or_ge s r with hsr | hrs
          · exact htombs r (by omega) hrm
          · rw [show r = s by omega]
            exact Bucket.slot_tombstone_iff.mpr htomb
      · refine ⟨s, (Nat.le_refl _), hsn, by simp [tombEnd, htomb], fun r _ _ => by omega, fun _ => ?_⟩
        exact fun h => htomb (Bucket.slot_tombstone_iff.mp h)
    · obtain rfl : s = n := by omega
      exact ⟨s, (Nat.le_refl _), (Nat.le_refl _), by simp [tombEnd, advance_full], fun r _ _ => by omega,
        fun _ => by omega⟩

end Probes

end Cheetah
