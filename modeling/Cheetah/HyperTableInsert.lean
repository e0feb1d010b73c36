import Mathlib.Data.List.Count
import Cheetah.CircularShift
import Cheetah.HyperTableProbe

/-! What one insertion into the hash mode does, before and after the order of the
slots is used. -/
namespace Cheetah

variable {δ : Type*} [Inhabited δ]

/-- How the insertion probe for home index `t` ends at distance `s`. -/
inductive ProbeEnd (bs : List (Bucket δ)) (n t : ℕ) (key : Key) : InsertPoint → Prop
  | found (i : ℕ) (hi : i < n) (hkey : (bucketAt bs i).key = key) : ProbeEnd bs n t key (.found i)
  | vacant (s : ℕ) (hs : s < n) (hpass : Passes n (slotOf bs) t s)
      (hfree : slotOf bs (advance n t s) = .empty ∨
        slotOf bs (advance n t s) = .tombstone ∧ ∃ m, Ends n (slotOf bs) t s m) :
      ProbeEnd bs n t key (.vacant (advance n t s))
  | stopped (s : ℕ) (hs : s < n) (hpass : Passes n (slotOf bs) t s)
      (hstop : ¬ GoesOn n (slotOf bs) t s) (hocc : isValid (bucketAt bs (advance n t s)).key = true)
      (hprev : 0 < s → slotOf bs (advance n t (s-1)) ≠ .tombstone) :
      ProbeEnd bs n t key (.shift (advance n t s))
  | round (hpass : Passes n (slotOf bs) t n)
      (hocc : isValid (bucketAt bs (advance n t (n-1))).key = true) :
      ProbeEnd bs n t key (.shift t)

section Probe

variable {bs : List (Bucket δ)} {n t : ℕ} {key : Key}

theorem passes_succ {slot : ℕ → Slot} {s : ℕ} (hp : Passes n slot t s) (hg : GoesOn n slot t s) :
    Passes n slot t (s+1) := by
  intro r hr
  rcases Nat.lt_or_ge r s with hlt | hge
  · exact hp r hlt
  · rwa [show r = s by omega]

theorem insertProbe_end (hn : n ≤ 2^31) (hl : HomesLt n (slotOf bs)) (ht : t < n) :
    ∀ f s, s < n → n ≤ s + f → Passes n (slotOf bs) t s →
      (0 < s → slotOf bs (advance n t (s-1)) = .tombstone → GoesOn n (slotOf bs) t s) →
      ProbeEnd bs n t key (insertProbe bs n t key f (advance n t s)) := by
  intro f
  induction f with
  | zero => intro s hs hf; omega
  | succ f ih =>
    intro s hs hf hpass hprev
    have hi := advance_lt ht (show s ≤ n by omega)
    unfold insertProbe
    dsimp only
    by_cases hk : key = (bucketAt bs (advance n t s)).key
    · rw [if_pos hk]
      exact .found _ hi hk.symm
    rw [if_neg hk]
    by_cases hempty : isEmpty (bucketAt bs (advance n t s)).key = true
    · rw [if_pos hempty]
      exact .vacant s hs hpass (Or.inl (Bucket.slot_empty_iff.mpr hempty))
    rw [if_neg hempty]
    by_cases htomb : isTombstone (bucketAt bs (advance n t s)).key = true
    · rw [if_pos htomb]
      have hsl : slotOf bs (advance n t s) = .tombstone := Bucket.slot_tombstone_iff.mpr htomb
      obtain ⟨m, hm, hmn, he, htombs, hend⟩ :=
        @tombEnd_spec δ _ bs n t ht n (s+1) (by omega) (by omega) (by omega)
      rw [incIndex_advance ht hs, he]
      have htombs' : ∀ r, s < r → r < m → slotOf bs (advance n t r) = .tombstone :=
        fun r hr hrm => htombs r (by omega) hrm
      have hends (hstop : m = n ∨ ¬ GoesOn n (slotOf bs) t m) :
          ∃ m, Ends n (slotOf bs) t s m := ⟨m, by omega, hmn, htombs', hstop⟩
      by_cases hempty' : isEmpty (bucketAt bs (advance n t m)).key = true
      · rw [if_pos hempty']
        refine .vacant s hs hpass (Or.inr ⟨hsl, hends (Or.inr fun hg => ?_)⟩)
        exact hg.ne_empty (Bucket.slot_empty_iff.mpr hempty')
      rw [if_neg hempty']
      rcases Nat.lt_or_ge m n with hlt | hge
      · have hne : advance n t m ≠ t := advance_ne_self (by omega) hlt
        have hv : isValid (bucketAt bs (advance n t m)).key = true := by
          have hnt : isTombstone (bucketAt bs (advance n t m)).key ≠ true :=
            fun h => hend hlt (Bucket.slot_tombstone_iff.mpr h)
          simp [isValid, hempty', hnt]
        have hiff := goesOn_iff_continueProbe hn hl ht hlt hv
        by_cases hg : GoesOn n (slotOf bs) t m
        · rw [if_neg (by simp [hne, hiff.mp hg])]
          refine ih m hlt (by omega) (fun r hr => ?_) (fun _ _ => hg)
          rcases Nat.lt_trichotomy r s with hrs | hrs | hrs
          · exact hpass r hrs
          · exact hrs ▸ goesOn_tombstone hsl
          · exact goesOn_tombstone (htombs' r hrs hr)
        · rw [if_pos (Or.inr (by simpa using fun h => hg (hiff.mpr h)))]
          exact .vacant s hs hpass (Or.inr ⟨hsl, hends (Or.inr hg)⟩)
      · obtain rfl : m = n := by omega
        rw [if_pos (Or.inl advance_full)]
        exact .vacant s hs hpass (Or.inr ⟨hsl, hends (Or.inl rfl)⟩)
    rw [if_neg htomb]
    have hv : isValid (bucketAt bs (advance n t s)).key = true := by simp [isValid, hempty, htomb]
    have hiff := goesOn_iff_continueProbe hn hl ht hs hv
    by_cases hg : GoesOn n (slotOf bs) t s
    · rw [if_pos (hiff.mp hg), incIndex_advance ht hs]
      have hpass' := passes_succ hpass hg
      rcases Nat.lt_or_ge (s+1) n with hlt | hge
      · rw [if_pos (advance_ne_self (by omega) hlt)]
        refine ih (s+1) hlt (by omega) hpass' (fun _ htomb' => ?_)
        rw [Nat.add_sub_cancel] at htomb'
        exact absurd (Bucket.slot_tombstone_iff.mp htomb') htomb
      · have hsn : s + 1 = n := by omega
        rw [hsn, advance_full, if_neg (by simp)]
        refine .round (hsn ▸ hpass') ?_
        rwa [show n - 1 = s by omega]
    · rw [if_neg (fun h => hg (hiff.mpr h))]
      exact .stopped s hs hpass hg hv (fun hs' htomb' => hg (hprev hs' htomb'))

/-- The insertion probe meets a key that its own path leads to. -/
theorem insertProbe_found (hn : n ≤ 2^31) (hl : HomesLt n (slotOf bs)) (ht : t < n) {d : ℕ}
    (hd : d < n) (hkey : (bucketAt bs (advance n t d)).key = key) (hvalid : isValid key = true)
    (hbefore : ∀ r < d, (bucketAt bs (advance n t r)).key ≠ key)
    (hhome : GoesOn n (slotOf bs) t d) (hpass : Passes n (slotOf bs) t d) :
    ∀ f s, s ≤ d → n ≤ s + f →
      insertProbe bs n t key f (advance n t s) = .found (advance n t d) := by
  intro f
  induction f with
  | zero => intro s hs hf; omega
  | succ f ih =>
    intro s hs hf
    have hsn : s < n := by omega
    unfold insertProbe
    dsimp only
    rcases Nat.lt_or_ge s d with hlt | hge
    · rw [if_neg (Ne.symm (hbefore s hlt))]
      have hg := hpass s hlt
      have hempty : ¬ isEmpty (bucketAt bs (advance n t s)).key = true :=
        fun h => hg.ne_empty (Bucket.slot_empty_iff.mpr h)
      rw [if_neg hempty]
      by_cases htomb : isTombstone (bucketAt bs (advance n t s)).key = true
      · obtain ⟨m, hm, hmn, he, htombs, hend⟩ :=
          @tombEnd_spec δ _ bs n t ht n (s+1) (by omega) (by omega) (by omega)
        rw [if_pos htomb, incIndex_advance ht hsn, he]
        have hmd : m ≤ d := by
          by_contra hmd
          have hdt := Bucket.slot_tombstone_iff.mp (htombs d (by omega) (by omega))
          rw [hkey] at hdt
          simp [isValid, hdt] at hvalid
        have hgm : GoesOn n (slotOf bs) t m := by
          rcases Nat.lt_or_ge m d with hlt' | hge'
          · exact hpass m hlt'
          · rwa [show m = d by omega]
        have hv : isValid (bucketAt bs (advance n t m)).key = true := by
          have hnt : isTombstone (bucketAt bs (advance n t m)).key ≠ true :=
            fun h => hend (by omega) (Bucket.slot_tombstone_iff.mpr h)
          have hne : isEmpty (bucketAt bs (advance n t m)).key ≠ true :=
            fun h => hgm.ne_empty (Bucket.slot_empty_iff.mpr h)
          simp [isValid, hnt, hne]
        have hc := (goesOn_iff_continueProbe hn hl ht (by omega) hv).mp hgm
        have hne : advance n t m ≠ t := advance_ne_self (by omega) (by omega)
        rw [if_neg (fun h => hgm.ne_empty (Bucket.slot_empty_iff.mpr h)),
          if_neg (by simp [hne, hc])]
        exact ih m hmd (by omega)
      · rw [if_neg htomb]
        have hv : isValid (bucketAt bs (advance n t s)).key = true := by
          simp [isValid, hempty, htomb]
        rw [if_pos ((goesOn_iff_continueProbe hn hl ht hsn hv).mp hg), incIndex_advance ht hsn,
          if_pos (advance_ne_self (by omega) (by omega))]
        exact ih (s+1) (by omega) (by omega)
    · obtain rfl : s = d := by omega
      rw [if_pos hkey.symm]

end Probe

abbrev Bucket.live (b : Bucket δ) : Bool := isValid b.key

abbrev Bucket.filled (b : Bucket δ) : Bool := !isEmpty b.key

/-- The buckets after an insertion: `c` at position `i₀`, and at every other position the
old bucket from position `src`. -/
structure Inserted (bs bs' : List (Bucket δ)) (n : ℕ) (c : Bucket δ) (i₀ : ℕ)
    (src : ℕ → ℕ) : Prop where
  length : bs'.length = n
  lt : i₀ < n
  at_new : bucketAt bs' i₀ = c
  moved : ∀ j < n, j ≠ i₀ → src j < n ∧ bucketAt bs' j = bucketAt bs (src j)
  injective : ∀ i < n, i ≠ i₀ → ∀ j < n, j ≠ i₀ → src i = src j → i = j
  kept : ∀ j < n, (bucketAt bs j).live = true → ∃ i < n, i ≠ i₀ ∧ src i = j
  count : bs'.countP Bucket.live = bs.countP Bucket.live + 1
  filled : bs'.countP Bucket.filled ≤ bs.countP Bucket.filled + 1

section Buckets

variable {bs : List (Bucket δ)} {n : ℕ}

theorem bucketAt_getElem {j : ℕ} (hj : j < bs.length) : bucketAt bs j = bs[j] := by
  simp [bucketAt, hj]

theorem countP_set_of_not {i : ℕ} (hi : i < bs.length) {c : Bucket δ}
    (hold : ¬ (bucketAt bs i).live = true) (hc : c.live = true) :
    (bs.set i c).countP Bucket.live = bs.countP Bucket.live + 1 := by
  rw [bucketAt_getElem hi] at hold
  rw [List.countP_set hi, if_neg hold, if_pos hc]
  omega

theorem countP_set_of_live {i : ℕ} (hi : i < bs.length) {c : Bucket δ}
    (hold : (bucketAt bs i).live = true) (hc : c.live = true) :
    (bs.set i c).countP Bucket.live = bs.countP Bucket.live := by
  rw [bucketAt_getElem hi] at hold
  have hpos : 0 < bs.countP Bucket.live := List.countP_pos_iff.mpr ⟨_, List.getElem_mem hi, hold⟩
  rw [List.countP_set hi, if_pos hold, if_pos hc]
  omega

omit [Inhabited δ] in
theorem filled_of_live {b : Bucket δ} (h : b.live = true) : b.filled = true := by
  simp only [Bucket.live, isValid, Bool.and_eq_true] at h
  exact h.1

omit [Inhabited δ] in
theorem countP_filled_set_le {i : ℕ} (hi : i < bs.length) (c : Bucket δ) :
    (bs.set i c).countP Bucket.filled ≤ bs.countP Bucket.filled + 1 := by
  rw [List.countP_set hi]
  split_ifs <;> omega

theorem countP_filled_set_of_live {i : ℕ} (hi : i < bs.length) {c : Bucket δ}
    (hold : (bucketAt bs i).live = true) (hc : c.live = true) :
    (bs.set i c).countP Bucket.filled = bs.countP Bucket.filled := by
  have hfill := filled_of_live hold
  rw [bucketAt_getElem hi] at hfill
  have hpos : 0 < bs.countP Bucket.filled :=
    List.countP_pos_iff.mpr ⟨_, List.getElem_mem hi, hfill⟩
  rw [List.countP_set hi, if_pos hfill, if_pos (filled_of_live hc)]
  omega

theorem exists_empty (hcount : bs.countP Bucket.filled < bs.length) :
    ∃ j < bs.length, slotOf bs j = .empty := by
  by_contra hall
  push Not at hall
  have heq : bs.countP Bucket.filled = bs.length := by
    rw [List.countP_eq_length]
    intro b hb
    obtain ⟨j, hj, rfl⟩ := List.getElem_of_mem hb
    rw [← bucketAt_getElem hj]
    by_contra hf
    exact hall j hj (Bucket.slot_empty_iff.mpr (by simpa [Bucket.filled] using hf))
  omega

theorem exists_not_live (hcount : bs.countP Bucket.live < bs.length) :
    ∃ j < bs.length, ¬ (bucketAt bs j).live = true := by
  by_contra hall
  push Not at hall
  have heq : bs.countP Bucket.live = bs.length := by
    rw [List.countP_eq_length]
    intro b hb
    obtain ⟨j, hj, rfl⟩ := List.getElem_of_mem hb
    rw [← bucketAt_getElem hj]
    exact hall j hj
  omega

theorem inserted_set {i : ℕ} (hlen : bs.length = n) (hi : i < n) {c : Bucket δ}
    (hold : ¬ (bucketAt bs i).live = true) (hc : c.live = true) :
    Inserted bs (bs.set i c) n c i id where
  length := by rw [List.length_set, hlen]
  lt := hi
  at_new := by rw [bucketAt_set (by omega), Function.update_self]
  moved := fun j hj hji => ⟨hj, by rw [bucketAt_set (by omega), Function.update_of_ne hji, id]⟩
  injective := fun i _ _ j _ _ h => h
  kept := fun j hj hv => ⟨j, hj, fun h => hold (h ▸ hv), rfl⟩
  count := countP_set_of_not (by omega) hold hc
  filled := countP_filled_set_le (by omega) c

/-- The loop that shifts a run of live buckets, from distance `k` of its start `p` on, with
the bucket `c` in hand. -/
theorem shiftInsert_run {p m : ℕ} (hp : p < n) (hm : m < n) :
    ∀ d k, d + k = m → ∀ (bs : List (Bucket δ)) (c : Bucket δ), bs.length = n →
      c.live = true → (∀ i, k ≤ i → i < m → (bucketAt bs (advance n p i)).live = true) →
      ¬ (bucketAt bs (advance n p m)).live = true →
      ∃ bs', shiftInsert n p (n - k) (advance n p k) c bs = (bs', true) ∧ bs'.length = n ∧
        bs'.countP Bucket.live = bs.countP Bucket.live + 1 ∧
        bs'.countP Bucket.filled ≤ bs.countP Bucket.filled + 1 ∧
        bucketAt bs' (advance n p k) = c ∧
        (∀ i, k ≤ i → i < m →
          bucketAt bs' (advance n p (i+1)) = bucketAt bs (advance n p i)) ∧
        (∀ i < n, i < k ∨ m < i →
          bucketAt bs' (advance n p i) = bucketAt bs (advance n p i)) := by
  intro d
  induction d with
  | zero =>
    intro k hk bs c hlen hc hrun hfree
    obtain rfl : k = m := by omega
    obtain ⟨f, hf⟩ : ∃ f, n - k = f + 1 := ⟨n - k - 1, by omega⟩
    have hi := advance_lt hp (show k ≤ n by omega)
    refine ⟨bs.set (advance n p k) c, ?_, by rw [List.length_set, hlen], ?_, ?_, ?_, ?_, ?_⟩
    · rw [hf]
      unfold shiftInsert
      rw [if_neg hfree]
    · exact countP_set_of_not (by omega) hfree hc
    · exact countP_filled_set_le (by omega) c
    · rw [bucketAt_set (by omega), Function.update_self]
    · intro i hi him
      omega
    · intro i hin hik
      rw [bucketAt_set (by omega), Function.update_of_ne]
      intro he
      have := advance_injective hp hin (by omega) he
      omega
  | succ d ih =>
    intro k hk bs c hlen hc hrun hfree
    obtain ⟨f, hf⟩ : ∃ f, n - k = f + 1 := ⟨n - k - 1, by omega⟩
    have hi := advance_lt hp (show k ≤ n by omega)
    have hlive := hrun k (Nat.le_refl k) (by omega)
    have hne {i : ℕ} (hin : i < n) (hki : i ≠ k) :
        bucketAt (bs.set (advance n p k) c) (advance n p i) = bucketAt bs (advance n p i) := by
      rw [bucketAt_set (by omega), Function.update_of_ne]
      exact fun he => hki (advance_injective hp hin (by omega) he)
    obtain ⟨bs', hrec, hlen', hcount, hfill, hat, hmoved, hrest⟩ :=
      ih (k+1) (by omega) (bs.set (advance n p k) c) (bucketAt bs (advance n p k))
        (by rw [List.length_set, hlen]) hlive
        (fun i hki him => by rw [hne (by omega) (by omega)]; exact hrun i (by omega) him)
        (by rw [hne hm (by omega)]; exact hfree)
    refine ⟨bs', ?_, hlen', ?_, ?_, ?_, ?_, ?_⟩
    · rw [hf]
      unfold shiftInsert
      rw [if_pos hlive, incIndex_advance hp (by omega)]
      rw [if_pos (advance_ne_self (by omega) (by omega)), ← hrec]
      congr 1
      omega
    · rw [hcount, countP_set_of_live (by omega) hlive hc]
    · rwa [countP_filled_set_of_live (by omega) hlive hc] at hfill
    · rw [hrest k (by omega) (Or.inl (by omega)), bucketAt_set (by omega), Function.update_self]
    · intro i hki him
      rcases Nat.lt_or_ge k i with hlt | hge
      · rw [hmoved i (by omega) him, hne (by omega) (by omega)]
      · rw [show i = k by omega]
        exact hat
    · intro i hin hik
      rw [hrest i hin (by omega), hne hin (by omega)]

/-- The shift inserts `c` at the start of its run and moves the run on by one. -/
theorem shiftInsert_inserted {p m : ℕ} (hlen : bs.length = n) (hp : p < n) (hm : m < n)
    {c : Bucket δ} (hc : c.live = true)
    (hrun : ∀ i < m, (bucketAt bs (advance n p i)).live = true)
    (hfree : ¬ (bucketAt bs (advance n p m)).live = true) :
    ∃ bs' src, shiftInsert n p n p c bs = (bs', true) ∧ Inserted bs bs' n c p src ∧
      ∀ j < n, slotOf bs' j = if j = p then c.slot else
        if circDist n p j ≤ m then slotOf bs (advance n p (circDist n p j - 1))
        else slotOf bs j := by
  obtain ⟨bs', hrec, hlen', hcount, hfill, hat, hmoved, hrest⟩ :=
    shiftInsert_run hp hm m 0 rfl bs c hlen hc (fun i _ him => hrun i him) hfree
  rw [Nat.sub_zero, advance_zero hp] at hrec
  rw [advance_zero hp] at hat
  let src : ℕ → ℕ := fun j =>
    if circDist n p j ≤ m then advance n p (circDist n p j - 1) else j
  have hdist {j : ℕ} (hj : j < n) (hjp : j ≠ p) : 0 < circDist n p j := by
    rcases Nat.eq_zero_or_pos (circDist n p j) with h0 | hpos
    · have he := advance_circDist hp hj
      rw [h0, advance_zero hp] at he
      exact absurd he.symm hjp
    · exact hpos
  have hbucket {j : ℕ} (hj : j < n) (hjp : j ≠ p) : bucketAt bs' j = bucketAt bs (src j) := by
    have hd := circDist_lt hp hj
    have hpos := hdist hj hjp
    dsimp only [src]
    split_ifs with hle
    · have he := hmoved (circDist n p j - 1) (by omega) (by omega)
      rwa [Nat.sub_add_cancel hpos, advance_circDist hp hj] at he
    · have he := hrest (circDist n p j) hd (by omega)
      rwa [advance_circDist hp hj] at he
  have hsrc_dist {j : ℕ} (hj : j < n) (hjp : j ≠ p) : circDist n p (src j) =
      if circDist n p j ≤ m then circDist n p j - 1 else circDist n p j := by
    have hd := circDist_lt hp hj
    dsimp only [src]
    split_ifs with hle
    · exact circDist_advance hp (by omega)
    · rfl
  refine ⟨bs', src, hrec, ⟨hlen', hp, hat, ?_, ?_, ?_, hcount, hfill⟩, ?_⟩
  · intro j hj hjp
    refine ⟨?_, hbucket hj hjp⟩
    have hd := circDist_lt hp hj
    dsimp only [src]
    split_ifs with hle
    · exact advance_lt hp (by omega)
    · exact hj
  · intro i hi hip j hj hjp he
    have hdi := hsrc_dist hi hip
    have hdj := hsrc_dist hj hjp
    have hpi := hdist hi hip
    have hpj := hdist hj hjp
    rw [he] at hdi
    have hd : circDist n p i = circDist n p j := by
      rw [hdj] at hdi
      split_ifs at hdi <;> omega
    rw [← advance_circDist hp hi, hd, advance_circDist hp hj]
  · intro j hj hv
    have hd := circDist_lt hp hj
    rcases Nat.lt_trichotomy (circDist n p j) m with hlt | heq | hgt
    · have hne : advance n p (circDist n p j + 1) ≠ p :=
        advance_ne_self (by omega) (by omega)
      refine ⟨advance n p (circDist n p j + 1), advance_lt hp (by omega), hne, ?_⟩
      dsimp only [src]
      rw [circDist_advance hp (by omega), if_pos (by omega), Nat.add_sub_cancel,
        advance_circDist hp hj]
    · rw [← heq, advance_circDist hp hj] at hfree
      exact absurd hv hfree
    · have hne : j ≠ p := by
        rintro rfl
        rw [circDist_self] at hgt
        omega
      exact ⟨j, hj, hne, if_neg (by omega)⟩
  · intro j hj
    by_cases hjp : j = p
    · rw [if_pos hjp, hjp]
      unfold slotOf
      rw [hat]
    · rw [if_neg hjp]
      unfold slotOf
      rw [hbucket hj hjp]
      dsimp only [src]
      split_ifs <;> rfl

end Buckets

end Cheetah
