import Cheetah.HyperTableHash

/-! `rebuild` moves the live buckets into a fresh array without a rebuild of its own. -/
namespace Cheetah

variable {δ : Type*} [Inhabited δ]

/-- The buckets below this position are the ones in use. -/
def Table.bound (cfg : HashConfig) (t : Table δ) : ℕ :=
  if t.capacity < cfg.minHtCapacity then t.occupancy else t.capacity

/-- A live bucket of the table has this key and this data. -/
def Binds (cfg : HashConfig) (t : Table δ) (key : Key) (d : δ) : Prop :=
  ∃ j < t.bound cfg, (bucketAt t.buckets j).key = key ∧ (bucketAt t.buckets j).data = d

/-- A table in array mode. -/
structure LinearInv (cfg : HashConfig) (t : Table δ) : Prop where
  length : t.buckets.length = t.capacity
  pos : 0 < t.capacity
  occupancy_le : t.occupancy ≤ t.capacity
  live : ∀ j < t.occupancy, (bucketAt t.buckets j).live = true
  distinct : ∀ i < t.occupancy, ∀ j < t.occupancy,
    (bucketAt t.buckets i).key = (bucketAt t.buckets j).key → i = j

/-- Occupancy that the insertions leave behind in hash mode. -/
def loadBound (capacity : ℕ) : ℕ := 15 * capacity / 16 + 1

/-- The bindings of `u` are those of `t` with the one of `b` put in. -/
def Extends (cfg : HashConfig) (t u : Table δ) (b : Bucket δ) : Prop :=
  ∀ key, isValid key = true → ∀ d, Binds cfg u key d ↔
    key = b.key ∧ d = b.data ∨ key ≠ b.key ∧ Binds cfg t key d

theorem isOverloaded_iff {occupancy capacity : ℕ} :
    isOverloaded occupancy capacity = true ↔ loadBound capacity ≤ occupancy := by
  unfold isOverloaded loadBound loadFactorConstant
  rw [decide_eq_true_iff]
  omega

theorem timeToRebuild_of_small {insRmCount : ℤ} {capacity : ℕ} (h : insRmCount ≤ 8) :
    timeToRebuild insRmCount capacity = false := by
  have hle : ¬ insRmCount > minRebuildOpCount := by
    unfold minRebuildOpCount
    omega
  unfold timeToRebuild
  rw [decide_eq_false hle, Bool.false_and]

section Added

variable {cfg : HashConfig} {t : Table δ} {b : Bucket δ} {bs : List (Bucket δ)} {i₀ : ℕ}
  {src : ℕ → ℕ}

theorem hashShape_added (hs : HashShape cfg t)
    (habs : ∀ j < t.capacity, (bucketAt t.buckets j).key ≠ b.key)
    (hins : Inserted t.buckets bs t.capacity (b.hashed cfg t.capacity) i₀ src) :
    HashShape cfg (t.added bs) where
  length := hins.length
  pos := hs.pos
  le := hs.le
  home := by
    intro j hj hl
    change (bucketAt bs j).live = true at hl
    change (bucketAt bs j).hash = getTableEntry cfg t.capacity (bucketAt bs j).key
    by_cases hji : j = i₀
    · rw [hji, hins.at_new]
      rfl
    · obtain ⟨hsrc, he⟩ := hins.moved j hj hji
      rw [he] at hl ⊢
      exact hs.home _ hsrc hl
  distinct := by
    intro i hi j hj hl hk
    change (bucketAt bs i).live = true at hl
    change (bucketAt bs i).key = (bucketAt bs j).key at hk
    by_cases hii : i = i₀
    · by_cases hji : j = i₀
      · rw [hii, hji]
      · obtain ⟨hsrc, he⟩ := hins.moved j hj hji
        rw [hii, hins.at_new, he] at hk
        exact absurd hk.symm (habs _ hsrc)
    · obtain ⟨hsi, hei⟩ := hins.moved i hi hii
      rw [hei] at hl hk
      by_cases hji : j = i₀
      · rw [hji, hins.at_new] at hk
        exact absurd hk (habs _ hsi)
      · obtain ⟨hsj, hej⟩ := hins.moved j hj hji
        rw [hej] at hk
        exact hins.injective i hi hii j hj hji (hs.distinct _ hsi _ hsj hl hk)
  count := by
    change t.occupancy + 1 = bs.countP Bucket.live
    rw [hins.count, hs.count]

theorem extends_added (hmode : ¬ t.capacity < cfg.minHtCapacity)
    (habs : ∀ j < t.capacity, (bucketAt t.buckets j).key ≠ b.key)
    (hins : Inserted t.buckets bs t.capacity (b.hashed cfg t.capacity) i₀ src) :
    Extends cfg t (t.added bs) b := by
  intro key hkey d
  have hbt : t.bound cfg = t.capacity := if_neg hmode
  have hbu : (t.added bs).bound cfg = t.capacity := if_neg hmode
  unfold Binds
  rw [hbt, hbu]
  change (∃ j < t.capacity, (bucketAt bs j).key = key ∧ (bucketAt bs j).data = d) ↔ _
  constructor
  · rintro ⟨j, hj, hk, hd⟩
    by_cases hji : j = i₀
    · rw [hji, hins.at_new] at hk hd
      exact Or.inl ⟨hk.symm, hd.symm⟩
    · obtain ⟨hsrc, he⟩ := hins.moved j hj hji
      rw [he] at hk hd
      exact Or.inr ⟨fun h => habs _ hsrc (hk.trans h), _, hsrc, hk, hd⟩
  · rintro (⟨rfl, rfl⟩ | ⟨hne, j, hj, hk, hd⟩)
    · exact ⟨i₀, hins.lt, by rw [hins.at_new]; rfl, by rw [hins.at_new]; rfl⟩
    · obtain ⟨i, hi, hii, hsi⟩ := hins.kept j hj (by rw [Bucket.live, hk]; exact hkey)
      obtain ⟨-, he⟩ := hins.moved i hi hii
      rw [hsi] at he
      exact ⟨i, hi, by rw [he, hk], by rw [he, hd]⟩

end Added

section Graveyard

theorem graveyard_length : ∀ n k, (graveyard n k : List (Bucket δ)).length = n := by
  intro n
  induction n with
  | zero => intro k; rfl
  | succ n ih =>
    intro k
    unfold graveyard
    split_ifs <;> simp [ih]

theorem graveyard_not_live : ∀ n k, ∀ b ∈ (graveyard n k : List (Bucket δ)),
    b.live = false := by
  intro n
  induction n with
  | zero => intro k b hb; simp [graveyard] at hb
  | succ n ih =>
    intro k b hb
    unfold graveyard at hb
    split_ifs at hb with hk
    · rcases List.mem_cons.mp hb with rfl | hb
      · rfl
      · exact ih _ b hb
    · rcases List.mem_cons.mp hb with rfl | hb
      · rfl
      · exact ih _ b hb

/-- One bucket in 33 of a fresh array is a tombstone. -/
theorem graveyard_filled : ∀ n k, k ≤ 32 →
    (graveyard n k : List (Bucket δ)).countP Bucket.filled = (n + k) / 33 := by
  intro n
  induction n with
  | zero => intro k hk; simp [graveyard]; omega
  | succ n ih =>
    intro k hk
    have hfresh : ¬ (freshBucket : Bucket δ).filled = true := Bool.false_ne_true
    unfold graveyard loadFactorConstant
    split_ifs with h
    · rw [List.countP_cons_of_pos rfl, ih _ (by omega)]
      omega
    · rw [List.countP_cons_of_neg hfresh, ih _ (by omega)]
      omega

theorem bucketArrayCreate_length (cfg : HashConfig) (n : ℕ) :
    (bucketArrayCreate cfg n : List (Bucket δ)).length = n := by
  unfold bucketArrayCreate
  split_ifs
  · exact List.length_replicate
  · exact graveyard_length n 0

theorem bucketArrayCreate_not_live (cfg : HashConfig) (n : ℕ) :
    ∀ b ∈ (bucketArrayCreate cfg n : List (Bucket δ)), b.live = false := by
  intro b hb
  unfold bucketArrayCreate at hb
  split_ifs at hb
  · rw [List.eq_of_mem_replicate hb]
    rfl
  · exact graveyard_not_live n 0 b hb

end Graveyard

section Linear

variable {cfg : HashConfig} {t : Table δ} {b : Bucket δ}

theorem scanForward_some {bs : List (Bucket δ)} {key : Key} {n i : ℕ}
    (h : scanForward bs key n = some i) : i < n ∧ (bucketAt bs i).key = key := by
  have hmem := List.mem_of_find?_eq_some h
  have hp := List.find?_some h
  exact ⟨List.mem_range.mp hmem, by simpa using hp⟩

theorem scanForward_none {bs : List (Bucket δ)} {key : Key} {n : ℕ}
    (h : scanForward bs key n = none) : ∀ j < n, (bucketAt bs j).key ≠ key := by
  intro j hj
  have hp := List.find?_eq_none.mp h j (List.mem_range.mpr hj)
  simpa using hp

/-- Insertion into an array that is not full overwrites its key or appends its bucket. -/
theorem insertWith_linear (rebuild : Table δ → ℕ → Option (Table δ)) (hi : LinearInv cfg t)
    (hmode : t.capacity < cfg.minHtCapacity) (hroom : t.occupancy < t.capacity)
    (hv : isValid b.key = true) :
    ∃ u, insertWith cfg rebuild t b = some (u, true) ∧ LinearInv cfg u ∧
      u.capacity = t.capacity ∧ u.insRmCount = t.insRmCount ∧ Extends cfg t u b ∧
      ((∀ j < t.occupancy, (bucketAt t.buckets j).key ≠ b.key) →
        u.occupancy = t.occupancy + 1) := by
  have hlen := hi.length
  unfold insertWith
  rw [if_pos hmode, if_pos hroom]
  cases hscan : scanForward t.buckets b.key t.occupancy with
  | some i =>
    obtain ⟨hin, hk⟩ := scanForward_some hscan
    have hset := bucketAt_set (show i < t.buckets.length by omega) b
    refine ⟨_, rfl, ⟨?_, hi.pos, hi.occupancy_le, ?_, ?_⟩, rfl, rfl, ?_,
      fun habs => absurd hk (habs i hin)⟩
    · exact (List.length_set).trans hlen
    · intro j hj
      dsimp only at hj ⊢
      rw [hset]
      by_cases hji : j = i
      · rw [hji, Function.update_self]
        exact hv
      · rw [Function.update_of_ne hji]
        exact hi.live j hj
    · intro j hj k hk'
      dsimp only at hj hk' ⊢
      rw [hset]
      by_cases hji : j = i
      · by_cases hki : k = i
        · intro _
          rw [hji, hki]
        · rw [hji, Function.update_self, Function.update_of_ne hki, ← hk]
          exact hi.distinct i hin k hk'
      · by_cases hki : k = i
        · rw [hki, Function.update_self, Function.update_of_ne hji, ← hk]
          exact hi.distinct j hj i hin
        · rw [Function.update_of_ne hji, Function.update_of_ne hki]
          exact hi.distinct j hj k hk'
    · intro key hkey d
      simp only [Binds, Table.bound, if_pos hmode, hset]
      constructor
      · rintro ⟨j, hj, hkj, hd⟩
        by_cases hji : j = i
        · rw [hji, Function.update_self] at hkj hd
          exact Or.inl ⟨hkj.symm, hd.symm⟩
        · rw [Function.update_of_ne hji] at hkj hd
          refine Or.inr ⟨fun h => hji (hi.distinct j hj i hin ?_), j, hj, hkj, hd⟩
          rw [hkj, h, hk]
      · rintro (⟨rfl, rfl⟩ | ⟨hne, j, hj, hkj, hd⟩)
        · exact ⟨i, hin, by rw [Function.update_self], by rw [Function.update_self]⟩
        · have hji : j ≠ i := by
            rintro rfl
            exact hne (hkj.symm.trans hk)
          exact ⟨j, hj, by rw [Function.update_of_ne hji, hkj],
            by rw [Function.update_of_ne hji, hd]⟩
  | none =>
    have habs := scanForward_none hscan
    have hset := bucketAt_set (show t.occupancy < t.buckets.length by omega) b
    refine ⟨_, rfl, ⟨?_, hi.pos, ?_, ?_, ?_⟩, rfl, rfl, ?_, fun _ => rfl⟩
    · exact (List.length_set).trans hlen
    · dsimp only
      omega
    · intro j hj
      dsimp only at hj ⊢
      rw [hset]
      by_cases hji : j = t.occupancy
      · rw [hji, Function.update_self]
        exact hv
      · rw [Function.update_of_ne hji]
        exact hi.live j (by omega)
    · intro j hj k hk'
      dsimp only at hj hk' ⊢
      rw [hset]
      by_cases hji : j = t.occupancy
      · by_cases hki : k = t.occupancy
        · intro _
          rw [hji, hki]
        · rw [hji, Function.update_self, Function.update_of_ne hki]
          exact fun h => absurd h.symm (habs k (by omega))
      · by_cases hki : k = t.occupancy
        · rw [hki, Function.update_self, Function.update_of_ne hji]
          exact fun h => absurd h (habs j (by omega))
        · rw [Function.update_of_ne hji, Function.update_of_ne hki]
          exact hi.distinct j (by omega) k (by omega)
    · intro key hkey d
      simp only [Binds, Table.bound, if_pos hmode, hset]
      constructor
      · rintro ⟨j, hj, hkj, hd⟩
        by_cases hji : j = t.occupancy
        · rw [hji, Function.update_self] at hkj hd
          exact Or.inl ⟨hkj.symm, hd.symm⟩
        · rw [Function.update_of_ne hji] at hkj hd
          exact Or.inr ⟨fun h => habs j (by omega) (hkj.trans h), j, by omega, hkj, hd⟩
      · rintro (⟨rfl, rfl⟩ | ⟨hne, j, hj, hkj, hd⟩)
        · exact ⟨t.occupancy, by omega, by rw [Function.update_self], by rw [Function.update_self]⟩
        · have hji : j ≠ t.occupancy := by omega
          exact ⟨j, by omega, by rw [Function.update_of_ne hji, hkj],
            by rw [Function.update_of_ne hji, hd]⟩

end Linear

section Rebuild

variable {cfg : HashConfig} {t u : Table δ} {newCapacity : ℕ}

/-- What a rebuild asks of the table it reads and of the new capacity. -/
structure RebuildOk (cfg : HashConfig) (t : Table δ) (newCapacity : ℕ) : Prop where
  length : t.buckets.length = t.capacity
  distinct : ∀ i < t.capacity, ∀ j < t.capacity, (bucketAt t.buckets i).live = true →
    (bucketAt t.buckets i).key = (bucketAt t.buckets j).key → i = j
  count : t.occupancy = t.buckets.countP Bucket.live
  pos : 0 < newCapacity
  le : newCapacity ≤ maxCapacity
  linear : newCapacity < cfg.minHtCapacity → t.occupancy ≤ newCapacity
  hash : ¬ newCapacity < cfg.minHtCapacity → t.occupancy < loadBound newCapacity

/-- The table under construction after the buckets `l` have been moved. -/
structure Rebuilding (cfg : HashConfig) (occ newCapacity : ℕ) (l : List (Bucket δ))
    (u : Table δ) : Prop where
  capacity : u.capacity = newCapacity
  occupancy : u.occupancy = l.countP Bucket.live
  count : u.insRmCount ≤ -occ + u.occupancy
  linear : newCapacity < cfg.minHtCapacity → LinearInv cfg u
  hash : ¬ newCapacity < cfg.minHtCapacity → HashInv cfg u ∧
    u.buckets.countP Bucket.filled ≤ u.occupancy + newCapacity / 33
  binds : ∀ key, isValid key = true → ∀ d, Binds cfg u key d ↔
    ∃ b ∈ l, b.key = key ∧ b.data = d

theorem bucketArrayCreate_at_not_live (n : ℕ) {j : ℕ} (hj : j < n) :
    ¬ (bucketAt (bucketArrayCreate cfg n : List (Bucket δ)) j).live = true := by
  have hlen := @bucketArrayCreate_length δ _ cfg n
  rw [bucketAt_getElem (by omega), bucketArrayCreate_not_live cfg n _ (List.getElem_mem _)]
  exact Bool.false_ne_true

theorem rebuilding_start (hpos : 0 < newCapacity) (hle : newCapacity ≤ maxCapacity) (occ : ℕ) :
    Rebuilding cfg occ newCapacity []
      (⟨newCapacity, 0, -occ, bucketArrayCreate cfg newCapacity⟩ : Table δ) where
  capacity := rfl
  occupancy := rfl
  count := by simp
  linear := fun _ => ⟨bucketArrayCreate_length cfg newCapacity, hpos, Nat.zero_le _,
    fun j hj => absurd hj (Nat.not_lt_zero j), fun j hj => absurd hj (Nat.not_lt_zero j)⟩
  hash := by
    intro hmode
    refine ⟨⟨⟨bucketArrayCreate_length cfg newCapacity, hpos, hle, ?_, ?_, ?_⟩, ?_⟩, ?_⟩
    · exact fun j hj hl => absurd hl (bucketArrayCreate_at_not_live _ hj)
    · exact fun i hi j _ hl => absurd hl (bucketArrayCreate_at_not_live _ hi)
    · symm
      rw [List.countP_eq_zero]
      intro b hb
      rw [bucketArrayCreate_not_live cfg _ b hb]
      exact Bool.false_ne_true
    · exact ordered_of_no_home fun j hj h =>
        slotOf_ne_home_of_not_live (bucketArrayCreate_at_not_live _ hj) h
    · simp only [bucketArrayCreate, if_neg hmode]
      rw [graveyard_filled _ _ (Nat.zero_le _)]
      omega
  binds := by
    intro key hkey d
    constructor
    · rintro ⟨j, hj, hk, -⟩
      unfold Table.bound at hj
      dsimp only at hj hk
      split_ifs at hj with hmode
      · exact absurd hj (Nat.not_lt_zero j)
      · exact absurd (by rw [Bucket.live, hk]; exact hkey) (bucketArrayCreate_at_not_live _ hj)
    · rintro ⟨b, hb, -⟩
      exact absurd hb List.not_mem_nil

/-- A table under construction has an empty slot. -/
theorem Rebuilding.has_empty {occ : ℕ} {l : List (Bucket δ)}
    (hr : Rebuilding cfg occ newCapacity l u) (hmode : ¬ newCapacity < cfg.minHtCapacity)
    (hpos : 0 < newCapacity) (hocc : u.occupancy < loadBound newCapacity) :
    ∃ j < u.capacity, slotOf u.buckets j = .empty := by
  obtain ⟨hinv, hfill⟩ := hr.hash hmode
  have hcap := hr.capacity
  have hlen := hinv.length
  rw [← hlen]
  apply exists_empty
  unfold loadBound at hocc
  omega

/-- One live bucket is moved by an insertion that rebuilds nothing. -/
theorem Rebuilding.move {occ n : ℕ} {l : List (Bucket δ)} {b : Bucket δ}
    (hr : Rebuilding cfg occ newCapacity l u) (hpos : 0 < newCapacity)
    (hocc : u.occupancy < occ) (hlin : newCapacity < cfg.minHtCapacity → occ ≤ newCapacity)
    (hhash : ¬ newCapacity < cfg.minHtCapacity → occ < loadBound newCapacity)
    (hv : isValid b.key = true) (hnew : ∀ b' ∈ l, b'.key ≠ b.key) :
    ∃ u', insertNested cfg n u b = some (u', true) ∧
      Rebuilding cfg occ newCapacity (l ++ [b]) u' := by
  have hcap := hr.capacity
  have habs : ∀ j < u.bound cfg, (bucketAt u.buckets j).key ≠ b.key := by
    intro j hj hk
    obtain ⟨b', hb', hk', -⟩ := (hr.binds _ (by rw [hk]; exact hv) _).mp ⟨j, hj, rfl, rfl⟩
    exact hnew b' hb' (hk'.trans hk)
  have hbinds {u' : Table δ} (hext : Extends cfg u u' b) : ∀ key, isValid key = true → ∀ d,
      Binds cfg u' key d ↔ ∃ b' ∈ l ++ [b], b'.key = key ∧ b'.data = d := by
    intro key hkey d
    rw [hext key hkey d, hr.binds key hkey d]
    constructor
    · rintro (⟨rfl, rfl⟩ | ⟨-, b', hb', hk, hd⟩)
      · exact ⟨b, List.mem_append_right l (List.mem_singleton_self b), rfl, rfl⟩
      · exact ⟨b', List.mem_append_left _ hb', hk, hd⟩
    · rintro ⟨b', hb', hk, hd⟩
      rcases List.mem_append.mp hb' with hb' | hb'
      · exact Or.inr ⟨fun h => hnew b' hb' (hk.trans h), b', hb', hk, hd⟩
      · obtain rfl := List.mem_singleton.mp hb'
        exact Or.inl ⟨hk.symm, hd.symm⟩
  have hcountP : (l ++ [b]).countP Bucket.live = u.occupancy + 1 := by
    rw [List.countP_append, List.countP_singleton, if_pos hv, hr.occupancy]
  have hcount := hr.count
  have hunfold : ∃ rebuild, insertNested cfg n u b = insertWith cfg rebuild u b := by
    cases n with
    | zero => exact ⟨_, rfl⟩
    | succ n => exact ⟨_, rfl⟩
  obtain ⟨rebuild, hins⟩ := hunfold
  rw [hins]
  by_cases hmode : newCapacity < cfg.minHtCapacity
  · have hle := hlin hmode
    rw [← hcap] at hmode
    rw [Table.bound, if_pos hmode] at habs
    obtain ⟨u', he, hinv, hcap', hrm, hext, hocc'⟩ :=
      insertWith_linear rebuild (hr.linear (hcap ▸ hmode)) hmode (by omega) hv
    have hocc'' := hocc' habs
    refine ⟨u', he, hcap'.trans hcap, by omega, by omega, fun _ => hinv, fun h => ?_, hbinds hext⟩
    exact absurd (hcap ▸ hmode) h
  · obtain ⟨hinv, hfill⟩ := hr.hash hmode
    have hload := hhash hmode
    have hempty := hr.has_empty hmode hpos (by omega)
    have hmode' : ¬ u.capacity < cfg.minHtCapacity := by rwa [hcap]
    rw [Table.bound, if_neg hmode'] at habs
    obtain ⟨bs, i₀, src, he, hinserted, hord⟩ := insertHash_absent hinv hv habs
      (by unfold loadBound at hload; omega)
    have hsafe := shiftsSafely_of_empty hinv.ordered (getTableEntry_lt cfg hinv.pos b.key) hempty
    have hover : ¬ isOverloaded u.occupancy u.capacity = true := by
      rw [isOverloaded_iff, hcap]
      omega
    have htime : ¬ timeToRebuild u.insRmCount u.capacity = true := by
      rw [timeToRebuild_of_small (by omega)]
      exact Bool.false_ne_true
    refine ⟨u.added bs, ?_, ?_⟩
    · unfold insertWith insertRebuilding
      rw [if_neg hmode', if_neg hover, if_neg htime, he]
    · refine ⟨hcap, ?_, ?_, fun h => absurd h hmode, fun _ => ⟨⟨hashShape_added
        hinv.toHashShape habs hinserted, hord.mpr hsafe⟩, ?_⟩,
        hbinds (extends_added hmode' habs hinserted)⟩
      · rw [hcountP]
        rfl
      · change u.insRmCount + 1 ≤ -occ + ((u.occupancy + 1 : ℕ) : ℤ)
        omega
      · have hf := hinserted.filled
        change bs.countP Bucket.filled ≤ u.occupancy + 1 + newCapacity / 33
        omega

theorem pairwise_of_distinct {bs : List (Bucket δ)}
    (hd : ∀ i < bs.length, ∀ j < bs.length, (bucketAt bs i).live = true →
      (bucketAt bs i).key = (bucketAt bs j).key → i = j) :
    bs.Pairwise (fun a b => a.live = true → a.key ≠ b.key) := by
  rw [List.pairwise_iff_getElem]
  intro i j hi hj hij hl hk
  rw [← bucketAt_getElem hi] at hl hk
  rw [← bucketAt_getElem hj] at hk
  have := hd i hi j hj hl hk
  omega

/-- `rebuild` succeeds and keeps the bindings, however deep it is nested. By induction on the
buckets still to be moved. -/
theorem rebuild_spec (n : ℕ) (hok : RebuildOk cfg t newCapacity) :
    ∃ u, rebuildWith cfg (insertNested cfg n) t newCapacity = some u ∧
      Rebuilding cfg t.occupancy newCapacity t.buckets u ∧ u.occupancy = t.occupancy := by
  have hpair := pairwise_of_distinct (hok.length.symm ▸ hok.distinct)
  have hfold : ∀ l₂ l₁ (u : Table δ), l₁ ++ l₂ = t.buckets →
      Rebuilding cfg t.occupancy newCapacity l₁ u →
      ∃ u', l₂.foldlM (moveBucket (insertNested cfg n)) u = some u' ∧
        Rebuilding cfg t.occupancy newCapacity t.buckets u' := by
    intro l₂
    induction l₂ with
    | nil =>
      intro l₁ u hl hr
      rw [List.append_nil] at hl
      exact ⟨u, rfl, hl ▸ hr⟩
    | cons b l₂ ih =>
      intro l₁ u hl hr
      have hl' : (l₁ ++ [b]) ++ l₂ = t.buckets := by rw [List.append_assoc, List.singleton_append, hl]
      rw [List.foldlM_cons, moveBucket]
      by_cases hv : isValid b.key = true
      · have hnew : ∀ b' ∈ l₁, b'.key ≠ b.key := by
          intro b' hb' hk
          rw [← hl, List.pairwise_append] at hpair
          exact hpair.2.2 b' hb' b List.mem_cons_self (by rw [Bucket.live, hk]; exact hv) hk
        have hocc : u.occupancy < t.occupancy := by
          have hcount := hok.count
          rw [← hl', List.countP_append, List.countP_append, List.countP_singleton, if_pos hv] at hcount
          have := hr.occupancy
          omega
        obtain ⟨u', he, hr'⟩ := hr.move (n := n) hok.pos hocc hok.linear hok.hash hv hnew
        rw [if_pos hv, he]
        exact ih _ u' hl' hr'
      · rw [if_neg hv]
        refine ih _ u hl' ⟨hr.capacity, ?_, hr.count, hr.linear, hr.hash, fun key hkey d => ?_⟩
        · rw [List.countP_append, List.countP_singleton, if_neg hv, hr.occupancy]
          rfl
        · rw [hr.binds key hkey d]
          constructor
          · rintro ⟨b', hb', hkd⟩
            exact ⟨b', List.mem_append_left _ hb', hkd⟩
          · rintro ⟨b', hb', hk, hd⟩
            rcases List.mem_append.mp hb' with hb' | hb'
            · exact ⟨b', hb', hk, hd⟩
            · obtain rfl := List.mem_singleton.mp hb'
              rw [hk] at hv
              exact absurd hkey hv
  obtain ⟨u, he, hr⟩ := hfold t.buckets [] _ rfl (rebuilding_start hok.pos hok.le t.occupancy)
  have hocc : u.occupancy = t.occupancy := by rw [hr.occupancy, hok.count]
  refine ⟨u, ?_, hr, hocc⟩
  unfold rebuildWith
  rw [if_neg (by have := hok.le; omega)]
  dsimp only
  rw [he]
  dsimp only
  rw [if_pos hocc]

end Rebuild

end Cheetah
