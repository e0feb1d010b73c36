import Cheetah.HyperTableRebuild

/-! Insert, find and remove on a table that keeps its invariant, with the rebuilds that
they start. -/
namespace Cheetah

variable {δ : Type*} [Inhabited δ] {cfg : HashConfig} {t : Table δ} {key : Key}

/-- A table that every operation leaves behind, apart from the order of its slots. -/
structure TableShape (cfg : HashConfig) (t : Table δ) : Prop where
  power : ∃ k, t.capacity = cfg.minCapacity * 2^k
  linear : t.capacity < cfg.minHtCapacity → LinearInv cfg t
  hash : ¬ t.capacity < cfg.minHtCapacity → HashShape cfg t
  load : ¬ t.capacity < cfg.minHtCapacity → t.occupancy ≤ loadBound t.capacity

structure TableInv (cfg : HashConfig) (t : Table δ) : Prop extends TableShape cfg t where
  ordered : ¬ t.capacity < cfg.minHtCapacity → Ordered t.capacity (slotOf t.buckets)

/-- The bindings of `u` are those of `t` without the one of `key`. -/
def Erases (cfg : HashConfig) (t u : Table δ) (key : Key) : Prop :=
  ∀ k, isValid k = true → ∀ d, Binds cfg u k d ↔ k ≠ key ∧ Binds cfg t k d

theorem TableInv.hashInv (hi : TableInv cfg t) (hmode : ¬ t.capacity < cfg.minHtCapacity) :
    HashInv cfg t := ⟨hi.hash hmode, hi.ordered hmode⟩

theorem minCapacity_pos (cfg : HashConfig) : 0 < cfg.minCapacity := by
  rcases cfg.constants with ⟨h, -⟩ | ⟨h, -⟩ <;> omega

theorem minHtCapacity_le (cfg : HashConfig) :
    cfg.minHtCapacity ≤ 2 * cfg.minCapacity ∧ cfg.minHtCapacity ≤ 8 := by
  rcases cfg.constants with ⟨h, h'⟩ | ⟨h, h'⟩ <;> omega

theorem TableShape.minCapacity_le (hs : TableShape cfg t) : cfg.minCapacity ≤ t.capacity := by
  obtain ⟨k, hk⟩ := hs.power
  rw [hk]
  exact Nat.le_mul_of_pos_right _ (Nat.two_pow_pos k)

theorem TableShape.halves (hs : TableShape cfg t) (hgt : cfg.minCapacity < t.capacity) :
    ∃ half, (∃ k, half = cfg.minCapacity * 2^k) ∧ t.capacity = 2 * half := by
  obtain ⟨k, hk⟩ := hs.power
  cases k with
  | zero => omega
  | succ k => exact ⟨_, ⟨k, rfl⟩, by rw [hk, Nat.pow_succ, ← Nat.mul_assoc, Nat.mul_comm]⟩

theorem TableShape.pos (hs : TableShape cfg t) : 0 < t.capacity :=
  Nat.lt_of_lt_of_le (minCapacity_pos cfg) hs.minCapacity_le

/-- Twice the capacity of any table is a capacity of the hash mode. -/
theorem TableShape.double_mode (hs : TableShape cfg t) :
    ¬ t.capacity * 2 < cfg.minHtCapacity := by
  have hle := hs.minCapacity_le
  have := (minHtCapacity_le cfg).1
  omega

theorem TableShape.length (hs : TableShape cfg t) : t.buckets.length = t.capacity := by
  by_cases hmode : t.capacity < cfg.minHtCapacity
  · exact (hs.linear hmode).length
  · exact (hs.hash hmode).length

theorem TableShape.bound_le (hs : TableShape cfg t) : t.bound cfg ≤ t.capacity := by
  unfold Table.bound
  split_ifs with hmode
  · exact (hs.linear hmode).occupancy_le
  · exact Nat.le_refl _

/-- No key sits in two live buckets. -/
theorem TableShape.distinct (hs : TableShape cfg t) : ∀ i < t.bound cfg, ∀ j < t.bound cfg,
    (bucketAt t.buckets i).live = true →
      (bucketAt t.buckets i).key = (bucketAt t.buckets j).key → i = j := by
  intro i hi j hj hl hk
  unfold Table.bound at hi hj
  split_ifs at hi hj with hmode
  · exact (hs.linear hmode).distinct i hi j hj hk
  · exact (hs.hash hmode).distinct i hi j hj hl hk

section Find

theorem findLinear_some {bs : List (Bucket δ)} {n i : ℕ} (h : findLinear bs key n = some i) :
    i < n ∧ (bucketAt bs i).key = key := by
  induction n with
  | zero => cases h
  | succ n ih =>
    unfold findLinear at h
    split_ifs at h with hk
    · obtain rfl := Option.some.inj h
      exact ⟨Nat.lt_succ_self n, hk⟩
    · obtain ⟨hlt, hki⟩ := ih h
      exact ⟨by omega, hki⟩

theorem findLinear_none {bs : List (Bucket δ)} {n : ℕ} (h : findLinear bs key n = none) :
    ∀ j < n, (bucketAt bs j).key ≠ key := by
  induction n with
  | zero => exact fun j hj => absurd hj (Nat.not_lt_zero j)
  | succ n ih =>
    intro j hj
    unfold findLinear at h
    split_ifs at h with hk
    rcases Nat.lt_or_ge j n with hlt | hge
    · exact ih h j hlt
    · rwa [show j = n by omega]

/-- What find returns: the position of the key, or null when the key is not there. -/
inductive Finds (cfg : HashConfig) (t : Table δ) (key : Key) : Option ℕ → Prop
  | hit (j : ℕ) (hj : j < t.bound cfg) (hk : (bucketAt t.buckets j).key = key) :
      Finds cfg t key (some j)
  | miss (habs : ∀ j < t.bound cfg, (bucketAt t.buckets j).key ≠ key) : Finds cfg t key none

theorem finds_of_hashInv (hinv : ¬ t.capacity < cfg.minHtCapacity → HashInv cfg t)
    (hv : isValid key = true) : Finds cfg t key (findHyperobject cfg t key) := by
  by_cases hmode : t.capacity < cfg.minHtCapacity
  · rw [findHyperobject, if_pos hmode]
    cases hf : findLinear t.buckets key t.occupancy with
    | none => exact .miss (by rw [Table.bound, if_pos hmode]; exact findLinear_none hf)
    | some i =>
      obtain ⟨hin, hk⟩ := findLinear_some hf
      exact .hit i (by rwa [Table.bound, if_pos hmode]) hk
  · by_cases hex : ∃ j < t.capacity, (bucketAt t.buckets j).key = key
    · obtain ⟨j, hj, hk⟩ := hex
      rw [(hinv hmode).find_present hmode hj hk hv]
      exact .hit j (by rwa [Table.bound, if_neg hmode]) hk
    · push Not at hex
      rw [(hinv hmode).find_absent hmode hex]
      exact .miss (by rwa [Table.bound, if_neg hmode])

theorem TableInv.finds (hi : TableInv cfg t) (hv : isValid key = true) :
    Finds cfg t key (findHyperobject cfg t key) :=
  finds_of_hashInv hi.hashInv hv

end Find

section Rebuild

variable {u : Table δ} {newCapacity : ℕ}

/-- A table that a rebuild of `t` made. -/
structure Rebuilt (cfg : HashConfig) (t : Table δ) (newCapacity : ℕ) (u : Table δ) : Prop
    extends TableInv cfg u where
  capacity : u.capacity = newCapacity
  occupancy : u.occupancy = t.occupancy
  calm : u.insRmCount ≤ 0
  empty : ¬ newCapacity < cfg.minHtCapacity → t.occupancy < loadBound newCapacity →
    ∃ j < u.capacity, slotOf u.buckets j = .empty
  binds : t.bound cfg = t.capacity →
    ∀ k, isValid k = true → ∀ d, Binds cfg u k d ↔ Binds cfg t k d

theorem binds_iff_mem (hlen : t.buckets.length = t.capacity) (hb : t.bound cfg = t.capacity)
    (d : δ) : Binds cfg t key d ↔ ∃ b ∈ t.buckets, b.key = key ∧ b.data = d := by
  unfold Binds
  rw [hb, ← hlen]
  constructor
  · rintro ⟨j, hj, hkd⟩
    rw [bucketAt_getElem hj] at hkd
    exact ⟨_, List.getElem_mem hj, hkd⟩
  · rintro ⟨b, hb, hkd⟩
    obtain ⟨j, hj, rfl⟩ := List.getElem_of_mem hb
    exact ⟨j, hj, by rwa [bucketAt_getElem hj]⟩

theorem rebuild_inv (n : ℕ) (hok : RebuildOk cfg t newCapacity)
    (hpow : ∃ k, newCapacity = cfg.minCapacity * 2^k) :
    ∃ u, rebuildWith cfg (insertNested cfg n) t newCapacity = some u ∧
      Rebuilt cfg t newCapacity u := by
  obtain ⟨u, he, hr, hocc⟩ := rebuild_spec n hok
  have hcap := hr.capacity
  have hcount := hr.count
  refine ⟨u, he, ⟨⟨⟨by rwa [hcap], fun h => hr.linear (hcap ▸ h),
    fun h => (hr.hash (hcap ▸ h)).1.toHashShape, fun h => ?_⟩,
    fun h => (hr.hash (hcap ▸ h)).1.ordered⟩, hcap, hocc, by omega, fun h hlt => ?_,
    fun hb k hk d => ?_⟩⟩
  · have hlt := hok.hash (hcap ▸ h)
    rw [hocc, hcap]
    omega
  · exact hr.has_empty h hok.pos (by rwa [hocc])
  · rw [hr.binds k hk d, binds_iff_mem hok.length hb]

/-- A hash mode table may be rebuilt at any capacity that its elements fit into. -/
theorem HashShape.rebuildOk (hs : HashShape cfg t) (hpos : 0 < newCapacity)
    (hle : newCapacity ≤ maxCapacity) (hlt : t.occupancy < loadBound newCapacity) :
    RebuildOk cfg t newCapacity where
  length := hs.length
  distinct := hs.distinct
  count := hs.count
  pos := hpos
  le := hle
  linear := by
    unfold loadBound at hlt
    omega
  hash := fun _ => hlt

/-- A full array may be rebuilt at twice its capacity. -/
theorem LinearInv.rebuildOk (hi : LinearInv cfg t) (hfull : t.occupancy = t.capacity)
    (hle : t.capacity * 2 ≤ maxCapacity) : RebuildOk cfg t (t.capacity * 2) where
  length := hi.length
  distinct := fun i hi' j hj _ hk => hi.distinct i (by omega) j (by omega) hk
  count := by
    rw [hfull, ← hi.length, eq_comm, List.countP_eq_length]
    intro b hb
    obtain ⟨j, hj, rfl⟩ := List.getElem_of_mem hb
    rw [← bucketAt_getElem hj]
    exact hi.live j (by rw [hfull, ← hi.length]; exact hj)
  pos := Nat.mul_pos hi.pos Nat.two_pos
  le := hle
  linear := by omega
  hash := by
    have := hi.pos
    unfold loadBound
    omega

end Rebuild

section Insert

variable {b : Bucket δ}

/-- The bucket is put into the hash mode table as it stands, with no rebuild before. -/
def InPlace (cfg : HashConfig) (t : Table δ) : Prop :=
  ¬ t.capacity < cfg.minHtCapacity ∧ isOverloaded t.occupancy t.capacity = false ∧
    timeToRebuild t.insRmCount t.capacity = false

/-- The table that insertion of `key` starts from lets it go right: a doubling stays
below `MAX_CAPACITY`, and a new key that is put in without a rebuild shifts safely. -/
structure InsertOk (cfg : HashConfig) (t : Table δ) (key : Key) : Prop where
  doubles : ¬ t.capacity < cfg.minHtCapacity →
    isOverloaded t.occupancy t.capacity = true → t.capacity * 2 ≤ maxCapacity
  shifts : InPlace cfg t → (∀ j < t.capacity, (bucketAt t.buckets j).key ≠ key) →
    ShiftsSafely t.capacity (slotOf t.buckets) (getTableEntry cfg t.capacity key)

/-- What insertion into a hash mode table with a free bucket does. -/
structure Puts (cfg : HashConfig) (t : Table δ) (b : Bucket δ) (u : Table δ) : Prop where
  capacity : u.capacity = t.capacity
  shape : HashShape cfg u
  occupancy : u.occupancy ≤ t.occupancy + 1
  binds : Extends cfg t u b
  ordered : Ordered u.capacity (slotOf u.buckets) ↔
    ((∀ j < t.capacity, (bucketAt t.buckets j).key ≠ b.key) →
      ShiftsSafely t.capacity (slotOf t.buckets) (getTableEntry cfg t.capacity b.key))

theorem puts_overwritten (hi : HashInv cfg t) (hmode : ¬ t.capacity < cfg.minHtCapacity)
    {j : ℕ} (hj : j < t.capacity) (hk : (bucketAt t.buckets j).key = b.key)
    (hv : isValid b.key = true) : Puts cfg t b (t.overwritten j b.data) := by
  have hjl : j < t.buckets.length := by rw [hi.length]; exact hj
  have hset := bucketAt_set hjl { bucketAt t.buckets j with data := b.data }
  have hkey (i : ℕ) : (bucketAt (t.overwritten j b.data).buckets i).key =
      (bucketAt t.buckets i).key := by
    change (bucketAt (t.buckets.set j _) i).key = _
    rw [hset]
    by_cases hij : i = j
    · rw [hij, Function.update_self]
    · rw [Function.update_of_ne hij]
  have hhash (i : ℕ) : (bucketAt (t.overwritten j b.data).buckets i).hash =
      (bucketAt t.buckets i).hash := by
    change (bucketAt (t.buckets.set j _) i).hash = _
    rw [hset]
    by_cases hij : i = j
    · rw [hij, Function.update_self]
    · rw [Function.update_of_ne hij]
  have hlive (i : ℕ) : (bucketAt (t.overwritten j b.data).buckets i).live =
      (bucketAt t.buckets i).live := congrArg isValid (hkey i)
  have hslot : slotOf (t.overwritten j b.data).buckets = slotOf t.buckets := by
    funext i
    unfold slotOf Bucket.slot
    rw [hkey, hhash]
  refine ⟨rfl, ⟨(List.length_set).trans hi.length, hi.pos, hi.le, fun i hin hl => ?_,
    fun i hin i' hin' hl hkk => ?_, ?_⟩, Nat.le_succ _, fun key hkv d => ?_,
    iff_of_true (hslot ▸ hi.ordered) fun habs => absurd hk (habs j hj)⟩
  · rw [hkey, hhash]
    exact hi.home i hin (hlive i ▸ hl)
  · rw [hkey, hkey] at hkk
    exact hi.distinct i hin i' hin' (hlive i ▸ hl) hkk
  · have hold : (bucketAt t.buckets j).live = true := by rw [Bucket.live, hk]; exact hv
    have hnew : Bucket.live { bucketAt t.buckets j with data := b.data } = true := hold
    exact hi.count.trans (countP_set_of_live hjl hold hnew).symm
  · have hbt : t.bound cfg = t.capacity := if_neg hmode
    have hbu : (t.overwritten j b.data).bound cfg = t.capacity := if_neg hmode
    unfold Binds
    rw [hbt, hbu]
    change (∃ i < t.capacity, (bucketAt (t.buckets.set j _) i).key = key ∧
      (bucketAt (t.buckets.set j _) i).data = d) ↔ _
    rw [hset]
    constructor
    · rintro ⟨i, hin, hki, hd⟩
      by_cases hij : i = j
      · rw [hij, Function.update_self] at hki hd
        exact Or.inl ⟨hki.symm.trans hk, hd.symm⟩
      · rw [Function.update_of_ne hij] at hki hd
        refine Or.inr ⟨fun h => hij ?_, i, hin, hki, hd⟩
        exact hi.distinct i hin j hj (by rw [Bucket.live, hki]; exact hkv) (by rw [hki, h, hk])
    · rintro (⟨rfl, rfl⟩ | ⟨hne, i, hin, hki, hd⟩)
      · exact ⟨j, hj, by rw [Function.update_self]; exact hk, by rw [Function.update_self]⟩
      · have hij : i ≠ j := by
          rintro rfl
          exact hne (hki.symm.trans hk)
        exact ⟨i, hin, by rw [Function.update_of_ne hij, hki],
          by rw [Function.update_of_ne hij, hd]⟩

theorem insertHash_puts (hi : HashInv cfg t) (hmode : ¬ t.capacity < cfg.minHtCapacity)
    (hroom : t.occupancy < loadBound t.capacity) (hv : isValid b.key = true) :
    ∃ u, insertHash cfg t b = (u, true) ∧ Puts cfg t b u := by
  by_cases hex : ∃ j < t.capacity, (bucketAt t.buckets j).key = b.key
  · obtain ⟨j, hj, hk⟩ := hex
    exact ⟨_, insertHash_present hi hj hk hv, puts_overwritten hi hmode hj hk hv⟩
  · push Not at hex
    have hpos := hi.pos
    obtain ⟨bs, i₀, src, he, hins, hord⟩ := insertHash_absent hi hv hex
      (by unfold loadBound at hroom; omega)
    refine ⟨t.added bs, he, rfl, hashShape_added hi.toHashShape hex hins, Nat.le_refl _,
      extends_added hmode hex hins, ?_⟩
    exact ⟨fun ho _ => hord.mp ho, fun hsafe => hord.mpr (hsafe hex)⟩

/-- What insertion does to a table: the bindings are extended in any case, the invariant
is kept when the table allows it. -/
structure Inserts (cfg : HashConfig) (t : Table δ) (b : Bucket δ) (u : Table δ) : Prop where
  shape : TableShape cfg u
  binds : Extends cfg t u b
  inv : InsertOk cfg t b.key → TableInv cfg u
  lost : ¬ InsertOk cfg t b.key →
    ¬ u.capacity < cfg.minHtCapacity ∧ ¬ Ordered u.capacity (slotOf u.buckets)

/-- Insertion after a rebuild finds an empty bucket, and so shifts safely. -/
theorem Rebuilt.inserts {u : Table δ} {newCapacity : ℕ} (hr : Rebuilt cfg t newCapacity u)
    (hmode : ¬ newCapacity < cfg.minHtCapacity) (hb : t.bound cfg = t.capacity)
    (hlt : t.occupancy < loadBound newCapacity) (hv : isValid b.key = true)
    (hok : InsertOk cfg t b.key) :
    ∃ u', insertHash cfg u b = (u', true) ∧ Inserts cfg t b u' := by
  have hcap := hr.capacity
  have hmode' : ¬ u.capacity < cfg.minHtCapacity := by rwa [hcap]
  obtain ⟨u', he, hp⟩ := insertHash_puts (hr.hashInv hmode') hmode'
    (by rwa [hr.occupancy, hcap]) hv
  have hord := hp.ordered.mpr fun _ => shiftsSafely_of_empty (hr.ordered hmode')
    (getTableEntry_lt cfg hr.pos b.key) (hr.empty hmode hlt)
  have hle := hp.occupancy
  rw [hr.occupancy] at hle
  have hshape : TableShape cfg u' := by
    refine ⟨by rw [hp.capacity]; exact hr.power, fun h => absurd (hp.capacity ▸ h) hmode',
      fun _ => hp.shape, fun _ => ?_⟩
    rw [hp.capacity, hcap]
    omega
  refine ⟨u', he, hshape, fun k hk d => ?_, fun _ => ⟨hshape, fun _ => hord⟩,
    fun h => absurd hok h⟩
  rw [hp.binds k hk d, hr.binds hb k hk d]

theorem insertHyperobject_inserts (hi : TableInv cfg t) (hv : isValid b.key = true)
    (hdouble : ¬ t.capacity < cfg.minHtCapacity →
      isOverloaded t.occupancy t.capacity = true → t.capacity * 2 ≤ maxCapacity) :
    ∃ u, insertHyperobject cfg t b = some (u, true) ∧ Inserts cfg t b u := by
  have hpos := hi.pos
  obtain ⟨k, hk⟩ := hi.power
  have hpow2 : ∃ k, t.capacity * 2 = cfg.minCapacity * 2^k :=
    ⟨k+1, by rw [hk, Nat.pow_succ, Nat.mul_assoc]⟩
  by_cases hmode : t.capacity < cfg.minHtCapacity
  · have hlin := hi.linear hmode
    have hok : InsertOk cfg t b.key := ⟨fun h => absurd hmode h, fun h => absurd hmode h.1⟩
    by_cases hroom : t.occupancy < t.capacity
    · obtain ⟨u, he, hinv, hcap, -, hext, -⟩ :=
        insertWith_linear (rebuildWith cfg (insertNested cfg 0)) hlin hmode hroom hv
      have hmode' : u.capacity < cfg.minHtCapacity := by rwa [hcap]
      have hshape : TableShape cfg u := ⟨by rw [hcap]; exact hi.power, fun _ => hinv,
        fun h => absurd hmode' h, fun h => absurd hmode' h⟩
      exact ⟨u, he, hshape, hext, fun _ => ⟨hshape, fun h => absurd hmode' h⟩,
        fun h => absurd hok h⟩
    · have hfull : t.occupancy = t.capacity := Nat.le_antisymm hlin.occupancy_le (by omega)
      have hsmall := (minHtCapacity_le cfg).2
      have hle : t.capacity * 2 ≤ maxCapacity := Nat.le_trans (show _ ≤ 16 by omega) (by decide)
      have hrok := hlin.rebuildOk hfull hle
      obtain ⟨u, he, hr⟩ := rebuild_inv 0 hrok hpow2
      have hcap := hr.capacity
      have hlt := hrok.hash hi.double_mode
      obtain ⟨u', he', hins⟩ := hr.inserts hi.double_mode
        (by rw [Table.bound, if_pos hmode, hfull]) hlt hv hok
      have hover : ¬ isOverloaded u.occupancy u.capacity = true := by
        rw [isOverloaded_iff, hr.occupancy, hcap]
        omega
      have htime : ¬ timeToRebuild u.insRmCount u.capacity = true := by
        rw [timeToRebuild_of_small (by have := hr.calm; omega)]
        exact Bool.false_ne_true
      refine ⟨u', ?_, hins⟩
      unfold insertHyperobject insertNested insertWith insertRebuilding
      rw [if_pos hmode, if_neg hroom, he]
      dsimp only
      rw [if_neg hover, if_neg htime, he']
  · have hinv := hi.hashInv hmode
    have hbound : t.bound cfg = t.capacity := if_neg hmode
    have hload := hi.load hmode
    unfold insertHyperobject insertNested insertWith insertRebuilding
    rw [if_neg hmode]
    by_cases hover : isOverloaded t.occupancy t.capacity = true
    · have hlt : t.occupancy < loadBound (t.capacity * 2) := by
        unfold loadBound at hload ⊢
        omega
      obtain ⟨u, he, hr⟩ := rebuild_inv 0 (hinv.rebuildOk (Nat.mul_pos hpos Nat.two_pos)
        (hdouble hmode hover) hlt) hpow2
      have hok : InsertOk cfg t b.key :=
        ⟨hdouble, fun h => absurd hover (by rw [h.2.1]; exact Bool.false_ne_true)⟩
      obtain ⟨u', he', hins⟩ := hr.inserts hi.double_mode hbound hlt hv hok
      refine ⟨u', ?_, hins⟩
      rw [if_pos hover, he, Option.map_some, he']
    · rw [if_neg hover]
      have hlt : t.occupancy < loadBound t.capacity := by
        rw [isOverloaded_iff] at hover
        omega
      by_cases htime : timeToRebuild t.insRmCount t.capacity = true
      · obtain ⟨u, he, hr⟩ := rebuild_inv 0 (hinv.rebuildOk hpos hinv.le hlt) hi.power
        have hok : InsertOk cfg t b.key :=
          ⟨hdouble, fun h => absurd htime (by rw [h.2.2]; exact Bool.false_ne_true)⟩
        obtain ⟨u', he', hins⟩ := hr.inserts hmode hbound hlt hv hok
        refine ⟨u', ?_, hins⟩
        rw [if_pos htime, he, Option.map_some, he']
      · obtain ⟨u, he, hp⟩ := insertHash_puts hinv hmode hlt hv
        have hplace : InPlace cfg t :=
          ⟨hmode, by simpa using hover, by simpa using htime⟩
        have hmode' : ¬ u.capacity < cfg.minHtCapacity := by rwa [hp.capacity]
        have hocc := hp.occupancy
        have hshape : TableShape cfg u := by
          refine ⟨by rw [hp.capacity]; exact hi.power, fun h => absurd h hmode',
            fun _ => hp.shape, fun _ => ?_⟩
          rw [hp.capacity]
          omega
        refine ⟨u, by rw [if_neg htime, he], hshape, hp.binds,
          fun hok => ⟨hshape, fun _ => hp.ordered.mpr (hok.shifts hplace)⟩,
          fun hnot => ⟨hmode', fun hord => hnot ⟨hdouble, fun _ => hp.ordered.mp hord⟩⟩⟩

/-- A doubling beyond `MAX_CAPACITY` is refused by an assertion. -/
theorem insertHyperobject_refused (hmode : ¬ t.capacity < cfg.minHtCapacity)
    (hover : isOverloaded t.occupancy t.capacity = true) (hgt : maxCapacity < t.capacity * 2) :
    insertHyperobject cfg t b = none := by
  unfold insertHyperobject insertNested insertWith insertRebuilding
  rw [if_neg hmode, if_pos hover, rebuildWith, if_pos hgt]
  rfl

end Insert

section Remove

/-- What removal does to a table, and when it returns true. -/
structure Removes (cfg : HashConfig) (t : Table δ) (key : Key) (u : Table δ) (ok : Bool) :
    Prop where
  inv : TableInv cfg u
  binds : Erases cfg t u key
  ok_iff : ok = true ↔ ∃ j < t.bound cfg, (bucketAt t.buckets j).key = key

theorem removes_absent (hi : TableInv cfg t)
    (habs : ∀ j < t.bound cfg, (bucketAt t.buckets j).key ≠ key) :
    Removes cfg t key t false := by
  refine ⟨hi, fun k hk d => ?_, iff_of_false Bool.false_ne_true ?_⟩
  · constructor
    · rintro ⟨j, hj, hkj, hd⟩
      refine ⟨fun h => habs j hj (hkj.trans h), j, hj, hkj, hd⟩
    · exact fun h => h.2
  · rintro ⟨j, hj, hkj⟩
    exact habs j hj hkj

/-- In the array the last bucket takes the place of the removed one. -/
theorem removeLinear_removes (hi : TableInv cfg t) (hmode : t.capacity < cfg.minHtCapacity) :
    ∃ u ok, removeLinear t key = (u, ok) ∧ Removes cfg t key u ok := by
  have hlin := hi.linear hmode
  have hb : t.bound cfg = t.occupancy := if_pos hmode
  unfold removeLinear
  cases hscan : scanForward t.buckets key t.occupancy with
  | none =>
    refine ⟨t, false, rfl, removes_absent hi ?_⟩
    rw [hb]
    exact scanForward_none hscan
  | some i =>
    obtain ⟨hin, hk⟩ := scanForward_some hscan
    have hle := hlin.occupancy_le
    have hil : i < t.buckets.length := by rw [hlin.length]; omega
    obtain ⟨bs, src, hbs, hlen, hat, hsrc, hinj, hsurj⟩ : ∃ (bs : List (Bucket δ)) (src : ℕ → ℕ),
        (if i + 1 = t.occupancy then
          t.buckets.set i { bucketAt t.buckets i with key := keyEmpty }
        else t.buckets.set i (bucketAt t.buckets (t.occupancy - 1))) = bs ∧
        bs.length = t.capacity ∧
        (∀ j < t.occupancy - 1, bucketAt bs j = bucketAt t.buckets (src j)) ∧
        (∀ j < t.occupancy - 1, src j < t.occupancy ∧ src j ≠ i) ∧
        (∀ j < t.occupancy - 1, ∀ j' < t.occupancy - 1, src j = src j' → j = j') ∧
        ∀ j < t.occupancy, j ≠ i → ∃ j' < t.occupancy - 1, src j' = j := by
      by_cases hlast : i + 1 = t.occupancy
      · refine ⟨_, id, if_pos hlast, (List.length_set).trans hlin.length, fun j hj => ?_,
          fun j hj => ⟨show j < _ by omega, show j ≠ i by omega⟩, fun j _ j' _ h => h,
          fun j hj hji => ⟨j, by omega, rfl⟩⟩
        rw [bucketAt_set hil, Function.update_of_ne (by omega)]
        rfl
      · refine ⟨_, Function.update id i (t.occupancy - 1), if_neg hlast,
          (List.length_set).trans hlin.length, fun j hj => ?_, fun j hj => ?_,
          fun j hj j' hj' h => ?_, fun j hj hji => ?_⟩
        · rw [bucketAt_set hil]
          by_cases hji : j = i
          · rw [hji, Function.update_self, Function.update_self]
          · rw [Function.update_of_ne hji, Function.update_of_ne hji]
            rfl
        · by_cases hji : j = i
          · rw [hji, Function.update_self]
            omega
          · rw [Function.update_of_ne hji]
            exact ⟨show j < _ by omega, hji⟩
        · by_cases hji : j = i
          · by_cases hji' : j' = i
            · rw [hji, hji']
            · rw [hji, Function.update_self, Function.update_of_ne hji', id] at h
              omega
          · by_cases hji' : j' = i
            · rw [hji', Function.update_self, Function.update_of_ne hji, id] at h
              omega
            · rwa [Function.update_of_ne hji, Function.update_of_ne hji'] at h
        · rcases Nat.lt_or_ge j (t.occupancy - 1) with hlt | hge
          · exact ⟨j, hlt, by rw [Function.update_of_ne hji]; rfl⟩
          · exact ⟨i, by omega, by rw [Function.update_self]; omega⟩
    dsimp only
    rw [hbs]
    refine ⟨_, true, rfl, ⟨⟨hi.power, fun _ => ⟨hlen, hlin.pos, ?_, ?_, ?_⟩,
      fun h => absurd hmode h, fun h => absurd hmode h⟩, fun h => absurd hmode h⟩, ?_,
      iff_of_true rfl ⟨i, by rwa [hb], hk⟩⟩
    · dsimp only
      omega
    · intro j hj
      dsimp only at hj ⊢
      rw [hat j hj]
      exact hlin.live _ (hsrc j hj).1
    · intro j hj j' hj' hkk
      dsimp only at hj hj' hkk
      rw [hat j hj, hat j' hj'] at hkk
      exact hinj j hj j' hj' (hlin.distinct _ (hsrc j hj).1 _ (hsrc j' hj').1 hkk)
    · intro k hkv d
      simp only [Binds, Table.bound, if_pos hmode]
      constructor
      · rintro ⟨j, hj, hkj, hd⟩
        rw [hat j hj] at hkj hd
        refine ⟨fun h => (hsrc j hj).2 ?_, src j, (hsrc j hj).1, hkj, hd⟩
        exact hlin.distinct _ (hsrc j hj).1 i hin (by rw [hkj, h, hk])
      · rintro ⟨hne, j, hj, hkj, hd⟩
        have hji : j ≠ i := by
          rintro rfl
          exact hne (hkj.symm.trans hk)
        obtain ⟨j', hj', rfl⟩ := hsurj j hj hji
        exact ⟨j', hj', by rw [hat j' hj', hkj], by rw [hat j' hj', hd]⟩

/-- The table with the bucket at `j` made a tombstone. -/
def Table.buried (t : Table δ) (j : ℕ) : Table δ :=
  { t with buckets := t.buckets.set j { bucketAt t.buckets j with key := keyDeleted },
           occupancy := t.occupancy - 1, insRmCount := t.insRmCount + 1 }

theorem countP_set_dead {bs : List (Bucket δ)} {i : ℕ} (hi : i < bs.length) {c : Bucket δ}
    (hold : (bucketAt bs i).live = true) (hc : ¬ c.live = true) :
    (bs.set i c).countP Bucket.live = bs.countP Bucket.live - 1 := by
  rw [bucketAt_getElem hi] at hold
  rw [List.countP_set hi, if_pos hold, if_neg hc, Nat.add_zero]

/-- A tombstone in the place of a bucket unbinds its key and keeps the invariant. -/
theorem buried_removes (hi : TableInv cfg t) (hmode : ¬ t.capacity < cfg.minHtCapacity)
    {j : ℕ} (hj : j < t.capacity) (hk : (bucketAt t.buckets j).key = key)
    (hv : isValid key = true) : Removes cfg t key (t.buried j) true := by
  have hs := hi.hash hmode
  have hjl : j < t.buckets.length := by rw [hs.length]; exact hj
  have hset := bucketAt_set hjl { bucketAt t.buckets j with key := keyDeleted }
  have hdead : ¬ Bucket.live { bucketAt t.buckets j with key := keyDeleted } = true :=
    Bool.false_ne_true
  have hat {i : ℕ} (hl : (bucketAt (t.buried j).buckets i).live = true) :
      i ≠ j ∧ bucketAt (t.buried j).buckets i = bucketAt t.buckets i := by
    change (bucketAt (t.buckets.set j _) i).live = true at hl
    change i ≠ j ∧ bucketAt (t.buckets.set j _) i = _
    rw [hset] at hl ⊢
    by_cases hij : i = j
    · rw [hij, Function.update_self] at hl
      exact absurd hl hdead
    · exact ⟨hij, by rw [Function.update_of_ne hij]⟩
  have hslot : slotOf (t.buried j).buckets = Function.update (slotOf t.buckets) j .tombstone :=
    slotOf_set hjl _
  have hb : t.bound cfg = t.capacity := if_neg hmode
  have hb' : (t.buried j).bound cfg = t.capacity := if_neg hmode
  refine ⟨⟨⟨hi.power, fun h => absurd h hmode, fun _ => ⟨(List.length_set).trans hs.length,
    hs.pos, hs.le, fun i hin hl => ?_, fun i hin i' hin' hl hkk => ?_, ?_⟩, fun _ => ?_⟩,
    fun _ => hslot ▸ (hi.ordered hmode).remove j⟩, fun k hkv d => ?_,
    iff_of_true rfl ⟨j, by rwa [hb], hk⟩⟩
  · obtain ⟨-, he⟩ := hat hl
    rw [he] at hl ⊢
    exact hs.home i hin hl
  · have hl' : (bucketAt (t.buried j).buckets i').live = true := by
      rw [Bucket.live, ← hkk]
      exact hl
    obtain ⟨-, he⟩ := hat hl
    obtain ⟨-, he'⟩ := hat hl'
    rw [he] at hl hkk
    rw [he'] at hkk
    exact hs.distinct i hin i' hin' hl hkk
  · have hold : (bucketAt t.buckets j).live = true := by rw [Bucket.live, hk]; exact hv
    change t.occupancy - 1 = (t.buckets.set j _).countP Bucket.live
    rw [countP_set_dead hjl hold hdead, hs.count]
  · have := hi.load hmode
    change t.occupancy - 1 ≤ loadBound t.capacity
    omega
  · unfold Binds
    rw [hb, hb']
    constructor
    · rintro ⟨i, hin, hki, hd⟩
      obtain ⟨hij, he⟩ := hat (by rw [Bucket.live, hki]; exact hkv)
      rw [he] at hki hd
      refine ⟨fun h => hij ?_, i, hin, hki, hd⟩
      exact hs.distinct i hin j hj (by rw [Bucket.live, hki]; exact hkv) (by rw [hki, h, hk])
    · rintro ⟨hne, i, hin, hki, hd⟩
      have hij : i ≠ j := by
        rintro rfl
        exact hne (hki.symm.trans hk)
      have he : bucketAt (t.buried j).buckets i = bucketAt t.buckets i := by
        change bucketAt (t.buckets.set j _) i = _
        rw [hset, Function.update_of_ne hij]
      exact ⟨i, hin, by rw [he, hki], by rw [he, hd]⟩

/-- A rebuild after the removal changes no binding. -/
theorem Removes.rebuilt {u u' : Table δ} {ok : Bool} {newCapacity : ℕ}
    (hr : Removes cfg t key u ok) (hmode : ¬ u.capacity < cfg.minHtCapacity)
    (hr' : Rebuilt cfg u newCapacity u') : Removes cfg t key u' ok := by
  refine ⟨hr'.toTableInv, fun k hk d => ?_, hr.ok_iff⟩
  rw [hr'.binds (if_neg hmode) k hk d, hr.binds k hk d]

theorem removeHyperobject_removes (hi : TableInv cfg t) (hv : isValid key = true) :
    ∃ u ok, removeHyperobject cfg t key = some (u, ok) ∧ Removes cfg t key u ok := by
  unfold removeHyperobject
  by_cases hmode : t.capacity < cfg.minHtCapacity
  · rw [if_pos hmode]
    obtain ⟨u, ok, he, hr⟩ := removeLinear_removes hi hmode
    exact ⟨u, ok, by rw [he], hr⟩
  rw [if_neg hmode]
  have hfinds := hi.finds hv
  generalize findHyperobject cfg t key = res at hfinds
  cases hfinds with
  | miss habs => exact ⟨t, false, rfl, removes_absent hi habs⟩
  | hit j hj hk =>
    rw [Table.bound, if_neg hmode] at hj
    have hr := buried_removes hi hmode hj hk hv
    have hs := hr.inv.hash hmode
    have hload := hi.load hmode
    have hoccpos : 0 < t.occupancy := by
      rw [(hi.hash hmode).count]
      have hjl : j < t.buckets.length := by rwa [hi.length]
      refine List.countP_pos_iff.mpr ⟨_, List.getElem_mem hjl, ?_⟩
      rw [← bucketAt_getElem hjl, Bucket.live, hk]
      exact hv
    dsimp only
    change ∃ u ok, (if isUnderloaded cfg (t.buried j).occupancy (t.buried j).capacity then
      (rebuild cfg (t.buried j) (t.capacity / 2)).map (·, true) else
      if timeToRebuild (t.buried j).insRmCount (t.buried j).capacity then
      (rebuild cfg (t.buried j) t.capacity).map (·, true) else some (t.buried j, true)) =
        some (u, ok) ∧ _
    by_cases hunder : isUnderloaded cfg (t.buried j).occupancy (t.buried j).capacity = true
    · rw [if_pos hunder]
      have hu := hunder
      unfold isUnderloaded loadFactorConstant at hu
      rw [Bool.and_eq_true, decide_eq_true_iff, decide_eq_true_iff] at hu
      change t.capacity > cfg.minCapacity ∧ t.occupancy - 1 ≤ 7 * t.capacity / 16 at hu
      obtain ⟨hgt, hocc⟩ := hu
      obtain ⟨half, hhalf, hcap⟩ := hi.halves hgt
      have hpos : 0 < half := by omega
      have hle : t.capacity ≤ maxCapacity := hs.le
      obtain ⟨u, he, hr'⟩ := rebuild_inv 0 (hs.rebuildOk hpos (by omega)
        (by change t.occupancy - 1 < _; unfold loadBound; omega)) hhalf
      refine ⟨u, true, ?_, hr.rebuilt hmode hr'⟩
      rw [rebuild, show t.capacity / 2 = half by omega, he]
      rfl
    · rw [if_neg hunder]
      by_cases htime : timeToRebuild (t.buried j).insRmCount (t.buried j).capacity = true
      · rw [if_pos htime]
        have hlt : (t.buried j).occupancy < loadBound t.capacity := by
          change t.occupancy - 1 < loadBound t.capacity
          omega
        obtain ⟨u, he, hr'⟩ := rebuild_inv 0 (hs.rebuildOk hs.pos hs.le hlt) hr.inv.power
        refine ⟨u, true, ?_, hr.rebuilt hmode hr'⟩
        exact congrArg (Option.map (·, true)) he
      · rw [if_neg htime]
        exact ⟨_, true, rfl, hr⟩

end Remove

end Cheetah
