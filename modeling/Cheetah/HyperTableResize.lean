import Cheetah.HyperTableMap

/-! The calls of `rebuild`: each keeps the bindings, and starts no other. -/
namespace Cheetah

variable {δ : Type*} [Inhabited δ] {cfg : HashConfig} {t u : Table δ} {newCapacity before : ℕ}

section Nesting

variable {b : Bucket δ} {r : Table δ → ℕ → Option (Table δ)}

/-- An insertion that succeeds where no rebuild is possible is the same where one is. -/
theorem insertWith_of_none {res : Table δ × Bool}
    (h : insertWith cfg (fun _ _ => none) t b = some res) : insertWith cfg r t b = some res := by
  have hreb : ∀ u : Table δ, insertRebuilding cfg (fun _ _ => none) u b = some res →
      insertRebuilding cfg r u b = some res := by
    intro u hu
    unfold insertRebuilding at hu ⊢
    split_ifs at hu ⊢
    · cases hu
    · cases hu
    · exact hu
  by_cases hmode : t.capacity < cfg.minHtCapacity
  · by_cases hroom : t.occupancy < t.capacity
    · rw [insertWith, if_pos hmode, if_pos hroom] at h ⊢
      exact h
    · simp [insertWith, hmode, hroom] at h
  · rw [insertWith, if_neg hmode] at h ⊢
    exact hreb t h

/-- A rebuild that needs no other rebuild succeeds with any. By induction on the buckets still to be
moved. -/
theorem rebuildWith_of_none
    (h : rebuildWith cfg (insertWith cfg fun _ _ => none) t newCapacity = some u) :
    rebuildWith cfg (insertWith cfg r) t newCapacity = some u := by
  have hmove : ∀ (v : Table δ) (b : Bucket δ) (v' : Table δ),
      moveBucket (insertWith cfg fun _ _ => none) v b = some v' →
        moveBucket (insertWith cfg r) v b = some v' := by
    intro v b v' hv
    unfold moveBucket at hv ⊢
    split_ifs at hv ⊢ with hvalid
    · cases hins : insertWith cfg (fun _ _ => none) v b with
      | none =>
        rw [hins] at hv
        cases hv
      | some res =>
        rw [insertWith_of_none hins]
        rwa [hins] at hv
    · exact hv
  have hfold : ∀ (l : List (Bucket δ)) (v v' : Table δ),
      l.foldlM (moveBucket (insertWith cfg fun _ _ => none)) v = some v' →
        l.foldlM (moveBucket (insertWith cfg r)) v = some v' := by
    intro l
    induction l with
    | nil => exact fun _ _ h => h
    | cons b l ih =>
      intro v v' hv
      rw [List.foldlM_cons] at hv ⊢
      obtain ⟨v₁, h₁, h₂⟩ := Option.bind_eq_some_iff.mp hv
      exact Option.bind_eq_some_iff.mpr ⟨v₁, hmove v b v₁ h₁, ih v₁ v' h₂⟩
  unfold rebuildWith at h ⊢
  split_ifs at h ⊢ with hmax
  dsimp only at h ⊢
  cases hold : t.buckets.foldlM (moveBucket (insertWith cfg fun _ _ => none))
      (⟨newCapacity, 0, -t.occupancy, bucketArrayCreate cfg newCapacity⟩ : Table δ) with
  | none =>
    rw [hold] at h
    cases h
  | some v =>
    rw [hfold _ _ _ hold]
    rwa [hold] at h

end Nesting

/-- A table whose keys are distinct and counted by the occupancy. -/
structure CountedTable (cfg : HashConfig) (t : Table δ) : Prop where
  length : t.buckets.length = t.capacity
  power : ∃ k, t.capacity = 2^k
  distinct : ∀ i < t.bound cfg, ∀ j < t.bound cfg, (bucketAt t.buckets i).live = true →
    (bucketAt t.buckets i).key = (bucketAt t.buckets j).key → i = j
  count : t.occupancy = (t.used cfg).countP Bucket.live

/-- The calls of `rebuild`, with the occupancy before the insertion or removal that makes them. -/
inductive RebuildCall (cfg : HashConfig) (t : Table δ) : ℕ → ℕ → Prop
  | insertFull (hmode : t.capacity < cfg.minHtCapacity) (hfull : ¬ t.occupancy < t.capacity) :
      RebuildCall cfg t t.occupancy (t.capacity * 2)
  | insertOverloaded (hmode : ¬ t.capacity < cfg.minHtCapacity)
      (hover : isOverloaded t.occupancy t.capacity = true) :
      RebuildCall cfg t t.occupancy (t.capacity * 2)
  | insertInTime (hmode : ¬ t.capacity < cfg.minHtCapacity)
      (hover : isOverloaded t.occupancy t.capacity = false)
      (htime : timeToRebuild t.insRmCount t.capacity = true) :
      RebuildCall cfg t t.occupancy t.capacity
  | removeUnderloaded (hmode : ¬ t.capacity < cfg.minHtCapacity)
      (hunder : isUnderloaded cfg t.occupancy t.capacity = true) :
      RebuildCall cfg t (t.occupancy + 1) (t.capacity / 2)
  | removeInTime (hmode : ¬ t.capacity < cfg.minHtCapacity)
      (hunder : isUnderloaded cfg t.occupancy t.capacity = false)
      (htime : timeToRebuild t.insRmCount t.capacity = true) :
      RebuildCall cfg t (t.occupancy + 1) t.capacity

section Calls

theorem CountedTable.pos (hi : CountedTable cfg t) : 0 < t.capacity := by
  obtain ⟨k, hk⟩ := hi.power
  rw [hk]
  exact Nat.two_pow_pos k

theorem CountedTable.bound_le (hi : CountedTable cfg t) : t.bound cfg ≤ t.capacity := by
  by_cases hmode : t.capacity < cfg.minHtCapacity
  · have hb : t.bound cfg = t.occupancy := if_pos hmode
    have hle := hi.count ▸ List.countP_le_length (p := Bucket.live) (l := t.used cfg)
    rw [Table.used, List.length_take, hi.length, hb] at hle
    omega
  · exact (if_neg hmode : t.bound cfg = t.capacity).le

/-- A rebuild is called when all buckets are in use. -/
theorem RebuildCall.bound_eq (hi : CountedTable cfg t) (hcall : RebuildCall cfg t before newCapacity) :
    t.bound cfg = t.capacity := by
  cases hcall with
  | insertFull hmode hfull =>
    have hle := hi.bound_le
    rw [Table.bound, if_pos hmode] at hle ⊢
    omega
  | insertOverloaded hmode | insertInTime hmode | removeUnderloaded hmode | removeInTime hmode =>
    exact if_neg hmode

theorem isUnderloaded_iff {occupancy capacity : ℕ} : isUnderloaded cfg occupancy capacity = true ↔
    cfg.minCapacity < capacity ∧ occupancy ≤ 7 * capacity / 16 := by
  unfold isUnderloaded loadFactorConstant
  rw [Bool.and_eq_true, decide_eq_true_iff, decide_eq_true_iff]

/-- The elements fit into the new capacity, below the load at which an insertion rebuilds. -/
theorem RebuildCall.fits (hi : CountedTable cfg t) (hcall : RebuildCall cfg t before newCapacity)
    (hload : before ≤ loadBound t.capacity) :
    0 < newCapacity ∧ (newCapacity < cfg.minHtCapacity → t.occupancy ≤ newCapacity) ∧
      (¬ newCapacity < cfg.minHtCapacity → t.occupancy < loadBound newCapacity) := by
  have hpos := hi.pos
  have hbound := hcall.bound_eq hi
  obtain ⟨k, hk⟩ := hi.power
  cases hcall with
  | insertFull hmode hfull =>
    rw [Table.bound, if_pos hmode] at hbound
    unfold loadBound
    omega
  | insertOverloaded hmode hover =>
    unfold loadBound at hload ⊢
    omega
  | insertInTime hmode hover htime =>
    have hno : ¬ loadBound t.capacity ≤ t.occupancy := by
      rw [← isOverloaded_iff, hover]
      exact Bool.false_ne_true
    omega
  | removeUnderloaded hmode hunder =>
    obtain ⟨hgt, hle⟩ := isUnderloaded_iff.mp hunder
    have hmin := minCapacity_pos cfg
    have heven : t.capacity % 2 = 0 := by
      cases k with
      | zero =>
        rw [Nat.pow_zero] at hk
        omega
      | succ k =>
        rw [hk, Nat.pow_succ]
        omega
    unfold loadBound
    omega
  | removeInTime hmode hunder htime =>
    omega

theorem RebuildCall.rebuildOk (hi : CountedTable cfg t) (hcall : RebuildCall cfg t before newCapacity)
    (hload : before ≤ loadBound t.capacity) (hle : newCapacity ≤ maxCapacity) :
    RebuildOk cfg t newCapacity := by
  have hbound := hcall.bound_eq hi
  obtain ⟨hpos, hlinear, hhash⟩ := hcall.fits hi hload
  refine ⟨hi.length, ?_, ?_, hpos, hle, hlinear, hhash⟩
  · have hdistinct := hi.distinct
    rwa [hbound] at hdistinct
  · rw [hi.count, Table.used, hbound, ← hi.length, List.take_length]

/-- What find returns names the data that the table binds to the key. -/
theorem Finds.data_iff {key : Key} {o : Option ℕ} (hfinds : Finds cfg t key o)
    (hdistinct : ∀ i < t.bound cfg, ∀ j < t.bound cfg, (bucketAt t.buckets i).live = true →
      (bucketAt t.buckets i).key = (bucketAt t.buckets j).key → i = j)
    (hv : isValid key = true) (d : δ) :
    o.map (fun j => (bucketAt t.buckets j).data) = some d ↔ Binds cfg t key d := by
  cases hfinds with
  | hit j hj hk =>
    constructor
    · intro h
      exact ⟨j, hj, hk, Option.some.inj h⟩
    · rintro ⟨i, hi, hki, hdi⟩
      have hij : i = j := hdistinct i hi j hj (by rw [Bucket.live, hki]; exact hv) (hki.trans hk.symm)
      rw [← hdi, hij]
      rfl
  | miss habs =>
    refine iff_of_false (by simp) ?_
    rintro ⟨i, hi, hki, -⟩
    exact habs i hi hki

end Calls

/-- Every call of `rebuild` up to `MAX_CAPACITY` succeeds, whatever a rebuild inside it would do:
the new table has the bindings of the old one, and a bucket of the hash mode is empty. -/
theorem rebuild_keepsBindings (hi : CountedTable cfg t)
    (hcall : RebuildCall cfg t before newCapacity) (hload : before ≤ 15 * t.capacity / 16 + 1)
    (hle : newCapacity ≤ maxCapacity) :
    ∃ u, (∀ r, rebuildWith cfg (insertWith cfg r) t newCapacity = some u) ∧
      u.capacity = newCapacity ∧ u.occupancy = t.occupancy ∧
      (¬ newCapacity < cfg.minHtCapacity → ∃ b ∈ u.buckets, isEmpty b.key = true) ∧
      ∀ key, isValid key = true → ∀ d,
        (findHyperobject cfg u key).map (fun j => (bucketAt u.buckets j).data) = some d ↔
          Binds cfg t key d := by
  have hok := hcall.rebuildOk hi hload hle
  obtain ⟨u, he, hr, hocc⟩ := rebuild_spec 0 hok
  have hcap := hr.capacity
  have hinv : ¬ u.capacity < cfg.minHtCapacity → HashInv cfg u := fun h => (hr.hash (hcap ▸ h)).1
  refine ⟨u, fun r => rebuildWith_of_none he, hcap, hocc, ?_, ?_⟩
  · intro hmode
    obtain ⟨j, hj, hempty⟩ := hr.has_empty hmode hok.pos (by rw [hocc]; exact hok.hash hmode)
    have hlen : j < u.buckets.length := by rwa [(hinv (hcap ▸ hmode)).length]
    refine ⟨_, List.getElem_mem hlen, ?_⟩
    rw [← bucketAt_getElem hlen]
    exact Bucket.slot_empty_iff.mp hempty
  · intro key hv d
    have hdistinct : ∀ i < u.bound cfg, ∀ j < u.bound cfg, (bucketAt u.buckets i).live = true →
        (bucketAt u.buckets i).key = (bucketAt u.buckets j).key → i = j := by
      intro i hi' j hj hl hk
      unfold Table.bound at hi' hj
      split_ifs at hi' hj with hmode
      · exact (hr.linear (hcap ▸ hmode)).distinct i hi' j hj hk
      · exact (hinv hmode).distinct i hi' j hj hl hk
    rw [(finds_of_hashInv hinv hv).data_iff hdistinct hv d, hr.binds key hv d,
      binds_iff_mem hok.length (hcall.bound_eq hi)]

/-- An array with all four buckets in use moves to the hash mode. -/
theorem rebuild_keepsBindings_fullArray :
    ∃ u, (∀ r, rebuildWith headerConfig (insertWith headerConfig r)
        (⟨4, 4, 0, [⟨8#64, 0, 1⟩, ⟨16#64, 0, 2⟩, ⟨24#64, 0, 3⟩, ⟨32#64, 0, 4⟩]⟩ : Table ℕ) 8 =
          some u) ∧ u.capacity = 8 ∧ u.occupancy = 4 := by
  have hi : CountedTable headerConfig
      (⟨4, 4, 0, [⟨8#64, 0, 1⟩, ⟨16#64, 0, 2⟩, ⟨24#64, 0, 3⟩, ⟨32#64, 0, 4⟩]⟩ : Table ℕ) :=
    ⟨rfl, ⟨2, rfl⟩, by decide, by decide⟩
  obtain ⟨u, he, hcap, hocc, -⟩ := rebuild_keepsBindings hi
    (.insertFull (by decide) (by decide)) (by decide) (by decide)
  exact ⟨u, he, hcap, hocc⟩

section Huge

/-- A table of the given capacity with the keys 1 to `n` in its first buckets. -/
def filledTable (capacity n : ℕ) : Table ℕ where
  capacity := capacity
  occupancy := n
  insRmCount := 0
  buckets := (List.range n).map (fun i => ⟨BitVec.ofNat 64 (i + 1), 0, 0⟩) ++
    List.replicate (capacity - n) freshBucket

theorem filledTable_at {capacity n i : ℕ} (hi : i < n) :
    bucketAt (filledTable capacity n).buckets i = ⟨BitVec.ofNat 64 (i + 1), 0, 0⟩ := by
  simp [bucketAt, filledTable, List.getElem?_append_left, hi]

theorem isValid_ofNat {i : ℕ} (h : i + 1 < 2^63) : isValid (BitVec.ofNat 64 (i + 1)) = true := by
  rw [isValid_iff]
  constructor
  · intro h0
    have := congrArg BitVec.toNat h0
    simp [keyEmpty] at this
    omega
  · intro h1
    have := congrArg BitVec.toNat h1
    simp [keyDeleted] at this
    omega

theorem filledTable_at_fresh {capacity n i : ℕ} (hi : n ≤ i) :
    bucketAt (filledTable capacity n).buckets i = freshBucket := by
  by_cases hlt : i - n < capacity - n <;>
    simp [bucketAt, filledTable, List.getElem?_append_right, hi, hlt]

theorem filledTable_length {capacity n : ℕ} (hn : n ≤ capacity) :
    (filledTable capacity n).buckets.length = capacity := by
  simp only [filledTable, List.length_append, List.length_map, List.length_range,
    List.length_replicate]
  omega

theorem filledTable_input {capacity n : ℕ} (hn : n ≤ capacity) (hcap : capacity < 2^63)
    (hmode : ¬ capacity < headerConfig.minHtCapacity) (hpow : ∃ k, capacity = 2^k) :
    CountedTable headerConfig (filledTable capacity n) where
  length := filledTable_length hn
  power := hpow
  distinct := by
    have hlt : ∀ i, (bucketAt (filledTable capacity n).buckets i).live = true → i < n := by
      intro i hl
      by_contra hge
      rw [filledTable_at_fresh (Nat.le_of_not_lt hge)] at hl
      cases hl
    intro i _ j _ hl hk
    have hi := hlt i hl
    have hj := hlt j (by rwa [Bucket.live, ← hk])
    rw [filledTable_at hi, filledTable_at hj] at hk
    have hnat := congrArg BitVec.toNat hk
    simp only [BitVec.toNat_ofNat] at hnat
    omega
  count := by
    have hbound : (filledTable capacity n).bound headerConfig = capacity := if_neg hmode
    rw [Table.used, hbound, List.take_of_length_le (filledTable_length hn).le]
    show n = List.countP Bucket.live (_ ++ _)
    have hlive : ((List.range n).map fun i =>
        (⟨BitVec.ofNat 64 (i + 1), 0, 0⟩ : Bucket ℕ)).countP Bucket.live = n := by
      rw [List.countP_eq_length.mpr, List.length_map, List.length_range]
      intro b hb
      obtain ⟨i, hi, rfl⟩ := List.mem_map.mp hb
      exact isValid_ofNat (by have := List.mem_range.mp hi; omega)
    have hfresh : (List.replicate (capacity - n) (freshBucket : Bucket ℕ)).countP Bucket.live = 0 := by
      rw [List.countP_eq_zero]
      intro b hb
      rw [List.eq_of_mem_replicate hb]
      exact Bool.false_ne_true
    rw [List.countP_append, hlive, hfresh, Nat.add_zero]

/-- The doubling of an overloaded table of `2^27` buckets fails the first assertion of `rebuild`. -/
theorem rebuild_pastMaxCapacity :
    CountedTable headerConfig (filledTable (2^27) 125829121) ∧
      RebuildCall headerConfig (filledTable (2^27) 125829121) 125829121 (2^27 * 2) ∧
      125829121 ≤ 15 * 2^27 / 16 + 1 ∧
      rebuild headerConfig (filledTable (2^27) 125829121) (2^27 * 2) = none :=
  ⟨filledTable_input (by decide) (by decide) (by decide) ⟨27, rfl⟩,
    .insertOverloaded (t := filledTable (2^27) 125829121)
      (show ¬ 2^27 < headerConfig.minHtCapacity by decide)
      (show isOverloaded 125829121 (2^27) = true by decide),
    by decide, by
      unfold rebuild rebuildWith
      exact if_pos (by decide)⟩

end Huge

end Cheetah
