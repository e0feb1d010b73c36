import Cheetah.HyperTableMerge

/-! Tables from which nothing is removed: they keep an empty bucket for every probe, so that they
behave as finite maps. -/
namespace Cheetah

variable {δ : Type*} [Inhabited δ] {cfg : HashConfig} {t u v : Table δ} {m : Bindings δ}
  {b : Bucket δ}

/-- The only tombstones are those that `bucket_array_create` makes. -/
def FewTombstones (cfg : HashConfig) (t : Table δ) : Prop :=
  ¬ t.capacity < cfg.minHtCapacity →
    t.buckets.countP Bucket.filled ≤ t.occupancy + t.capacity / 33

theorem FewTombstones.empty (hfew : FewTombstones cfg t) (hi : HashInv cfg t)
    (hmode : ¬ t.capacity < cfg.minHtCapacity) (hroom : t.occupancy < loadBound t.capacity) :
    ∃ j < t.capacity, slotOf t.buckets j = .empty := by
  have hfilled := hfew hmode
  have hpos := hi.pos
  rw [← hi.length]
  apply exists_empty
  rw [hi.length]
  unfold loadBound at hroom
  omega

/-- The hash mode of insert, after the rebuilds it starts with. -/
theorem FewTombstones.insertHash (hfew : FewTombstones cfg v) (hi : HashInv cfg v)
    (hmode : ¬ v.capacity < cfg.minHtCapacity) (hroom : v.occupancy < loadBound v.capacity)
    (hv : isValid b.key = true) :
    ∃ u, insertHash cfg v b = (u, true) ∧ HashInv cfg u ∧ u.capacity = v.capacity ∧
      FewTombstones cfg u ∧ Extends cfg v u b ∧ u.occupancy ≤ v.occupancy + 1 := by
  by_cases hex : ∃ j < v.capacity, (bucketAt v.buckets j).key = b.key
  · obtain ⟨j, hj, hk⟩ := hex
    have hp := puts_overwritten hi hmode hj hk hv
    have hord := hp.ordered.mpr fun habs => absurd hk (habs j hj)
    refine ⟨_, insertHash_present hi hj hk hv, ⟨hp.shape, hord⟩, hp.capacity, fun _ => ?_,
      hp.binds, Nat.le_succ _⟩
    have hjl : j < v.buckets.length := hi.length ▸ hj
    have hlive : (bucketAt v.buckets j).live = true := by rw [Bucket.live, hk]; exact hv
    have hsame := countP_filled_set_of_live hjl
      (c := { bucketAt v.buckets j with data := b.data }) hlive hlive
    exact hsame.le.trans (hfew hmode)
  · push Not at hex
    have hempty := hfew.empty hi hmode hroom
    have hsafe := shiftsSafely_of_empty hi.ordered (getTableEntry_lt cfg hi.pos b.key) hempty
    have hpos := hi.pos
    obtain ⟨bs, i₀, src, he, hins, hord⟩ := insertHash_absent hi hv hex
      (by unfold loadBound at hroom; omega)
    refine ⟨v.added bs, he, ⟨hashShape_added hi.toHashShape hex hins, hord.mpr hsafe⟩, rfl,
      fun _ => ?_, extends_added hmode hex hins, Nat.le_refl _⟩
    have hfilled := hins.filled
    have hbefore := hfew hmode
    show bs.countP Bucket.filled ≤ v.occupancy + 1 + v.capacity / 33
    omega

/-- The table into which the hash mode of insert puts its bucket. -/
structure StartsFrom (cfg : HashConfig) (t v : Table δ) : Prop where
  inv : HashInv cfg v
  power : ∃ k, v.capacity = cfg.minCapacity * 2^k
  mode : ¬ v.capacity < cfg.minHtCapacity
  occupancy : v.occupancy = t.occupancy
  room : v.occupancy < loadBound v.capacity
  few : FewTombstones cfg t → FewTombstones cfg v
  binds : ∀ key, isValid key = true → ∀ d, Binds cfg v key d ↔ Binds cfg t key d

/-- A rebuild brings the tombstones back to those of a new array. -/
theorem startsFrom_rebuilt {newCapacity : ℕ} (hok : RebuildOk cfg t newCapacity)
    (hbound : t.bound cfg = t.capacity) (hpow : ∃ k, newCapacity = cfg.minCapacity * 2^k)
    (hmode : ¬ newCapacity < cfg.minHtCapacity) :
    ∃ v, rebuildWith cfg (insertNested cfg 0) t newCapacity = some v ∧ StartsFrom cfg t v ∧
      v.capacity = newCapacity ∧ v.insRmCount ≤ 0 := by
  obtain ⟨v, he, hr, hocc⟩ := rebuild_spec 0 hok
  obtain ⟨hinv, hfilled⟩ := hr.hash hmode
  have hcap := hr.capacity
  have hcount := hr.count
  refine ⟨v, he, ⟨hinv, hcap ▸ hpow, hcap ▸ hmode, hocc, ?_, fun _ _ => ?_, fun key hkey d => ?_⟩,
    hcap, by omega⟩
  · rw [hocc, hcap]
    exact hok.hash hmode
  · rw [hcap]
    exact hfilled
  · rw [hr.binds key hkey d, binds_iff_mem hok.length hbound]

/-- An insertion appends to an array, or it goes to a table in hash mode. -/
theorem insertHyperobject_starts (hi : TableInv cfg t) (b : Bucket δ)
    (hdouble : ¬ t.capacity < cfg.minHtCapacity →
      isOverloaded t.occupancy t.capacity = true → t.capacity * 2 ≤ maxCapacity) :
    (t.capacity < cfg.minHtCapacity ∧ t.occupancy < t.capacity) ∨
      ∃ v, insertHyperobject cfg t b = some (insertHash cfg v b) ∧ StartsFrom cfg t v := by
  obtain ⟨k, hk⟩ := hi.power
  have hpow2 : ∃ k, t.capacity * 2 = cfg.minCapacity * 2^k :=
    ⟨k + 1, by rw [hk, Nat.pow_succ, Nat.mul_assoc]⟩
  by_cases hmode : t.capacity < cfg.minHtCapacity
  · by_cases hroom : t.occupancy < t.capacity
    · exact .inl ⟨hmode, hroom⟩
    · have hlin := hi.linear hmode
      have hfull : t.occupancy = t.capacity := Nat.le_antisymm hlin.occupancy_le (by omega)
      have hsmall := (minHtCapacity_le cfg).2
      have hle : t.capacity * 2 ≤ maxCapacity := Nat.le_trans (show _ ≤ 16 by omega) (by decide)
      obtain ⟨v, he, hstart, hcap, hcalm⟩ := startsFrom_rebuilt (hlin.rebuildOk hfull hle)
        (by rw [Table.bound, if_pos hmode, hfull]) hpow2 hi.double_mode
      have hover : ¬ isOverloaded v.occupancy v.capacity = true := by
        rw [isOverloaded_iff]
        exact Nat.not_le_of_lt hstart.room
      have htime : ¬ timeToRebuild v.insRmCount v.capacity = true := by
        rw [timeToRebuild_of_small (by omega)]
        exact Bool.false_ne_true
      refine .inr ⟨v, ?_, hstart⟩
      unfold insertHyperobject insertNested insertWith insertRebuilding
      rw [if_pos hmode, if_neg hroom, he]
      dsimp only
      rw [if_neg hover, if_neg htime]
  · have hinv := hi.hashInv hmode
    have hbound : t.bound cfg = t.capacity := if_neg hmode
    have hload := hi.load hmode
    have hpos := hi.pos
    right
    unfold insertHyperobject insertNested insertWith insertRebuilding
    rw [if_neg hmode]
    by_cases hover : isOverloaded t.occupancy t.capacity = true
    · have hlt : t.occupancy < loadBound (t.capacity * 2) := by
        unfold loadBound at hload ⊢
        omega
      obtain ⟨v, he, hstart, -⟩ := startsFrom_rebuilt
        (hinv.rebuildOk (Nat.mul_pos hpos Nat.two_pos) (hdouble hmode hover) hlt) hbound hpow2
        hi.double_mode
      exact ⟨v, by rw [if_pos hover, he, Option.map_some], hstart⟩
    · rw [if_neg hover]
      have hlt : t.occupancy < loadBound t.capacity := by
        rw [isOverloaded_iff] at hover
        omega
      by_cases htime : timeToRebuild t.insRmCount t.capacity = true
      · obtain ⟨v, he, hstart, -⟩ := startsFrom_rebuilt (hinv.rebuildOk hpos hinv.le hlt) hbound
          hi.power hmode
        exact ⟨v, by rw [if_pos htime, he, Option.map_some], hstart⟩
      · refine ⟨t, by rw [if_neg htime], hinv, hi.power, hmode, rfl, hlt, fun h => h, ?_⟩
        exact fun _ _ _ => Iff.rfl

/-- A table that stands for a finite map and has not lost a binding since its last rebuild. -/
structure InsertOnly (cfg : HashConfig) (t : Table δ) (m : Bindings δ) : Prop
    extends TableInv cfg t where
  represents : Represents cfg t m
  few : FewTombstones cfg t

theorem insertOnly_alloc (cfg : HashConfig) :
    InsertOnly cfg (localHyperTableAlloc cfg : Table δ) fun _ => none where
  toTableInv := (alloc_inv cfg).1
  represents := (alloc_inv cfg).2
  few := by
    intro hmode
    have hmode' : ¬ cfg.minCapacity < cfg.minHtCapacity := hmode
    show (bucketArrayCreate cfg cfg.minCapacity).countP Bucket.filled ≤ 0 + cfg.minCapacity / 33
    rw [bucketArrayCreate, if_neg hmode', graveyard_filled _ _ (Nat.zero_le _)]
    omega

/-- A table doubles up to `2^27` buckets. -/
theorem TableInv.doubles (hi : TableInv cfg t) (hfits : t.occupancy < loadBound (2^27))
    (hover : isOverloaded t.occupancy t.capacity = true) : t.capacity * 2 ≤ maxCapacity := by
  obtain ⟨k, hk⟩ := hi.power
  have hmin : ∃ i, cfg.minCapacity = 2^i := by
    rcases cfg.constants with ⟨h, -⟩ | ⟨h, -⟩
    · exact ⟨2, h⟩
    · exact ⟨0, h⟩
  obtain ⟨i, hi'⟩ := hmin
  have hpow : t.capacity = 2^(i + k) := by rw [hk, hi', Nat.pow_add]
  rw [isOverloaded_iff] at hover
  have hsmall : i + k < 27 := by
    by_contra hlarge
    have hle : 2^27 ≤ 2^(i + k) := Nat.pow_le_pow_right Nat.two_pos (Nat.le_of_not_lt hlarge)
    rw [hpow] at hover
    unfold loadBound at hfits hover
    omega
  have hle : 2^(i + k) ≤ 2^26 := Nat.pow_le_pow_right Nat.two_pos (Nat.le_of_lt_succ hsmall)
  rw [hpow]
  exact (Nat.mul_le_mul_right 2 hle).trans (by decide)

theorem InsertOnly.insert (h : InsertOnly cfg t m) (hv : isValid b.key = true)
    (hfits : t.occupancy < loadBound (2^27)) :
    ∃ u, insertHyperobject cfg t b = some (u, true) ∧
      InsertOnly cfg u (Function.update m b.key (some b.data)) := by
  rcases insertHyperobject_starts h.toTableInv b (fun _ => h.toTableInv.doubles hfits) with
    ⟨hmode, hroom⟩ | ⟨v, he, hstart⟩
  · obtain ⟨u, he, hlin, hcap, -, hext, -⟩ := insertWith_linear
      (rebuildWith cfg (insertNested cfg 0)) (h.linear hmode) hmode hroom hv
    have hmode' : u.capacity < cfg.minHtCapacity := by rwa [hcap]
    exact ⟨u, he, ⟨⟨by rw [hcap]; exact h.power, fun _ => hlin, fun hn => absurd hmode' hn,
      fun hn => absurd hmode' hn⟩, fun hn => absurd hmode' hn⟩, h.represents.extends hv hext,
      fun hn => absurd hmode' hn⟩
  · obtain ⟨u, hput, hinv, hcap, hfew, hext, hocc⟩ :=
      (hstart.few h.few).insertHash hstart.inv hstart.mode hstart.room hv
    have hmode : ¬ u.capacity < cfg.minHtCapacity := by rw [hcap]; exact hstart.mode
    have hext' : Extends cfg t u b := by
      intro key hkey d
      rw [hext key hkey d, hstart.binds key hkey d]
    have hload : u.occupancy ≤ loadBound u.capacity := by
      rw [hcap]
      exact hocc.trans hstart.room
    exact ⟨u, by rw [he, hput], ⟨⟨by rw [hcap]; exact hstart.power, fun hn => absurd hn hmode,
      fun _ => hinv.toHashShape, fun _ => hload⟩, fun _ => hinv.ordered⟩,
      h.represents.extends hv hext', hfew⟩

/-- The data of a bucket of an array is replaced. -/
theorem LinearInv.overwritten (hi : LinearInv cfg t) (hmode : t.capacity < cfg.minHtCapacity)
    {j : ℕ} (hj : j < t.occupancy) (hk : (bucketAt t.buckets j).key = b.key) :
    LinearInv cfg (t.overwritten j b.data) ∧ Extends cfg t (t.overwritten j b.data) b := by
  have hjl : j < t.buckets.length := hi.length.symm ▸ hj.trans_le hi.occupancy_le
  have hset := bucketAt_set hjl { bucketAt t.buckets j with data := b.data }
  have hkey : ∀ i, (bucketAt (t.overwritten j b.data).buckets i).key =
      (bucketAt t.buckets i).key := by
    intro i
    change (bucketAt (t.buckets.set j _) i).key = _
    rw [hset]
    by_cases hij : i = j
    · rw [hij, Function.update_self]
    · rw [Function.update_of_ne hij]
  constructor
  · constructor
    case length => exact List.length_set.trans hi.length
    case pos => exact hi.pos
    case occupancy_le => exact hi.occupancy_le
    case live =>
      intro i hin
      rw [Bucket.live, hkey]
      exact hi.live i hin
    case distinct =>
      intro i hin i' hin'
      rw [hkey, hkey]
      exact hi.distinct i hin i' hin'
  · intro key _ d
    have hbt : t.bound cfg = t.occupancy := if_pos hmode
    have hbu : (t.overwritten j b.data).bound cfg = t.occupancy := if_pos hmode
    unfold Binds
    rw [hbt, hbu]
    change (∃ i < t.occupancy, (bucketAt (t.buckets.set j _) i).key = key ∧
      (bucketAt (t.buckets.set j _) i).data = d) ↔ _
    rw [hset]
    constructor
    · rintro ⟨i, hin, hki, hd⟩
      by_cases hij : i = j
      · rw [hij, Function.update_self] at hki hd
        exact .inl ⟨hki.symm.trans hk, hd.symm⟩
      · rw [Function.update_of_ne hij] at hki hd
        exact .inr ⟨fun h => hij (hi.distinct i hin j hj (by rw [hki, h, hk])), i, hin, hki, hd⟩
    · rintro (⟨rfl, rfl⟩ | ⟨hne, i, hin, hki, hd⟩)
      · exact ⟨j, hj, by rw [Function.update_self]; exact hk, by rw [Function.update_self]⟩
      · have hij : i ≠ j := by
          rintro rfl
          exact hne (hki.symm.trans hk)
        exact ⟨i, hin, by rw [Function.update_of_ne hij, hki], by rw [Function.update_of_ne hij, hd]⟩

/-- The store to a bucket that was found. -/
theorem InsertOnly.store (h : InsertOnly cfg t m) {key : Key} {i : ℕ} (d : δ)
    (hv : isValid key = true) (hf : findHyperobject cfg t key = some i) :
    InsertOnly cfg (t.overwritten i d) (Function.update m key (some d)) := by
  have hfinds := h.toTableInv.finds hv
  rw [hf] at hfinds
  cases hfinds with
  | hit _ hi hk =>
  by_cases hmode : t.capacity < cfg.minHtCapacity
  · rw [Table.bound, if_pos hmode] at hi
    obtain ⟨hlin, hext⟩ := (h.linear hmode).overwritten (b := ⟨key, 0, d⟩) hmode hi hk
    exact ⟨⟨⟨h.power, fun _ => hlin, fun hn => absurd hmode hn, fun hn => absurd hmode hn⟩,
      fun hn => absurd hmode hn⟩, h.represents.extends (b := ⟨key, 0, d⟩) hv hext,
      fun hn => absurd hmode hn⟩
  · rw [Table.bound, if_neg hmode] at hi
    have hinv := h.toTableInv.hashInv hmode
    have hp := puts_overwritten (b := ⟨key, 0, d⟩) hinv hmode hi hk hv
    have hord := hp.ordered.mpr fun habs => absurd hk (habs i hi)
    refine ⟨⟨⟨h.power, fun hn => absurd hn hmode, fun _ => hp.shape, h.load⟩, fun _ => hord⟩,
      h.represents.extends (b := ⟨key, 0, d⟩) hv hp.binds, fun _ => ?_⟩
    have hil : i < t.buckets.length := hinv.length ▸ hi
    have hlive : (bucketAt t.buckets i).live = true := by rw [Bucket.live, hk]; exact hv
    have hsame := countP_filled_set_of_live hil (c := { bucketAt t.buckets i with data := d }) hlive
      hlive
    exact hsame.le.trans (h.few hmode)

theorem InsertOnly.occupancy_le (h : InsertOnly cfg t m) {keys : Finset Key}
    (hkeys : ∀ key, m key ≠ none → key ∈ keys) : t.occupancy ≤ keys.card := by
  rw [h.represents.ncard h.toTableShape, ← Set.ncard_coe_finset]
  exact Set.ncard_le_ncard hkeys keys.finite_toSet

/-- Find answers with the data of the map. -/
theorem InsertOnly.find (h : InsertOnly cfg t m) {key : Key} (hv : isValid key = true) :
    (findHyperobject cfg t key).map (fun i => (bucketAt t.buckets i).data) = m key := by
  ext d
  rw [(h.toTableInv.finds hv).data_iff (fun i hi j hj => h.distinct i hi j hj) hv d,
    h.represents key d]
  exact ⟨fun hd => ⟨hv, hd⟩, fun hd => hd.2⟩

theorem InsertOnly.counted (h : InsertOnly cfg t m) : CountedTable cfg t where
  length := h.toTableShape.length
  power := by
    obtain ⟨k, hk⟩ := h.power
    rcases cfg.constants with ⟨hmin, -⟩ | ⟨hmin, -⟩
    · exact ⟨2 + k, by rw [hk, hmin, Nat.pow_add]⟩
    · exact ⟨k, by rw [hk, hmin, Nat.one_mul]⟩
  distinct := h.distinct
  count := h.toTableShape.used_count.symm

section Runs

variable {keys : Finset Key} {ops : List (TableOp δ)}

theorem runsAsMap_of_insertOnly (h : InsertOnly cfg t m) (hm : ∀ key, m key ≠ none → key ∈ keys)
    (hcard : keys.card < loadBound (2^27))
    (hops : ∀ op ∈ ops, isValid op.key = true ∧ op.key ∈ keys ∧ ∀ key, op ≠ .remove key) :
    RunsAsMap cfg t m ops := by
  induction ops generalizing t m with
  | nil => exact h.toTableInv.behavesAs h.represents
  | cons op ops ih =>
    obtain ⟨hv, hmem, hkeep⟩ := hops op List.mem_cons_self
    have hrest : ∀ op ∈ ops, isValid op.key = true ∧ op.key ∈ keys ∧ ∀ key, op ≠ .remove key :=
      fun o ho => hops o (List.mem_cons_of_mem op ho)
    refine ⟨h.toTableInv.behavesAs h.represents, ?_⟩
    cases op with
    | insert b =>
      have hfits := (h.occupancy_le hm).trans_lt hcard
      obtain ⟨u, he, hu⟩ := h.insert hv hfits
      refine ⟨u, by rw [applyOp, he]; rfl, ih hu (fun key hkey => ?_) hrest⟩
      by_cases hkb : key = b.key
      · rw [hkb]
        exact hmem
      · have hkey' : Function.update m b.key (some b.data) key ≠ none := hkey
        rw [Function.update_of_ne hkb] at hkey'
        exact hm key hkey'
    | remove key => exact absurd rfl (hkeep key)
    | find key => exact ⟨t, (h.toTableInv.behavesAs h.represents).find key hv, ih h hm hrest⟩

/-- Where no binding is removed the table is a finite map after every call, for up to `15 * 2^23`
keys, whatever the hash function does to them. -/
theorem insertOnly_runsAsMap (cfg : HashConfig) (keys : Finset Key) (hcard : keys.card ≤ 15 * 2^23)
    (hops : ∀ op ∈ ops, isValid op.key = true ∧ op.key ∈ keys ∧ ∀ key, op ≠ .remove key) :
    RunsAsMap cfg (localHyperTableAlloc cfg) (fun _ => none) ops := by
  have hfits : keys.card < loadBound (2^27) := hcard.trans_lt (by decide)
  exact runsAsMap_of_insertOnly (insertOnly_alloc cfg) (fun _ h => absurd rfl h) hfits hops

/-- Nine keys in a table that has eight buckets when the last one comes. -/
theorem insertOnly_runsAsMap_nine :
    let ops : List (TableOp ℕ) := [.insert ⟨15#64, 0, 0⟩, .insert ⟨35#64, 0, 0⟩,
      .insert ⟨36#64, 0, 1⟩, .insert ⟨5#64, 0, 0⟩, .insert ⟨10#64, 0, 0⟩, .insert ⟨17#64, 0, 0⟩,
      .insert ⟨22#64, 0, 0⟩, .insert ⟨28#64, 0, 0⟩, .insert ⟨31#64, 0, 0⟩, .find 36#64]
    RunsAsMap headerConfig (localHyperTableAlloc headerConfig) (fun _ => none) ops := by
  intro ops
  apply insertOnly_runsAsMap headerConfig (ops.map TableOp.key).toFinset
  · exact (List.toFinset_card_le _).trans (by decide)
  · intro op hop
    refine ⟨?_, List.mem_toFinset.mpr (List.mem_map_of_mem hop), ?_⟩
    · have hvalid : ∀ op ∈ ops, isValid op.key = true := by
        simp [ops, TableOp.key, isValid, isEmpty, isTombstone, keyEmpty, keyDeleted]
      exact hvalid op hop
    · rintro key rfl
      simp [ops] at hop

end Runs

section Merges

variable {t : Table ReducerData} {m : Bindings ReducerData}

/-- A table with room for `n` keys more. -/
structure InsertOnlyHolds (cfg : HashConfig) (n : ℕ) (t : Table ReducerData)
    (m : Bindings ReducerData) : Prop extends InsertOnly cfg t m where
  room : ∃ keys : Finset Key, (∀ key, m key ≠ none → key ∈ keys) ∧
    keys.card + n < loadBound (2^27)

theorem insertOnly_finiteMapOps : FiniteMapOps cfg (InsertOnlyHolds cfg) where
  represents := fun h => h.represents
  find := fun h key hv => h.find hv
  insert := by
    intro n t m h b hv hnone
    obtain ⟨keys, hkeys, hcard⟩ := h.room
    have hfits := (h.occupancy_le hkeys).trans_lt (Nat.lt_of_le_of_lt (Nat.le_add_right _ _) hcard)
    obtain ⟨u, he, hu⟩ := h.insert hv hfits
    refine ⟨u, he, hu, insert b.key keys, fun key hkey => ?_, ?_⟩
    · by_cases hkb : key = b.key
      · rw [hkb]
        exact Finset.mem_insert_self _ _
      · rw [Function.update_of_ne hkb] at hkey
        exact Finset.mem_insert_of_mem (hkeys key hkey)
    · have hinsert := Finset.card_insert_le b.key keys
      omega
  store := by
    intro n t m h key i d hv hf
    obtain ⟨keys, hkeys, hcard⟩ := h.room
    refine ⟨h.store d hv hf, insert key keys, fun key' hkey => ?_, ?_⟩
    · by_cases hkk : key' = key
      · rw [hkk]
        exact Finset.mem_insert_self _ _
      · rw [Function.update_of_ne hkk] at hkey
        exact Finset.mem_insert_of_mem (hkeys key' hkey)
    · have hinsert := Finset.card_insert_le key keys
      omega
  less := by
    intro n t m h
    obtain ⟨keys, hkeys, hcard⟩ := h.room
    exact ⟨h.toInsertOnly, keys, hkeys, by omega⟩

end Merges

end Cheetah
