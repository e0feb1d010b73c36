import Mathlib.Data.Set.Card
import Cheetah.HyperTableOps

/-! Runs of the local hyperobject table, compared with a finite map. -/
namespace Cheetah

inductive TableOp (δ : Type*) where
  | insert (b : Bucket δ)
  | remove (key : Key)
  | find (key : Key)

def TableOp.key {δ : Type*} : TableOp δ → Key
  | .insert b => b.key
  | .remove key => key
  | .find key => key

/-- What a call returns; for find the key and the data of the bucket it points to. -/
inductive Outcome (δ : Type*) where
  | inserted (ok : Bool)
  | removed (ok : Bool)
  | found (binding : Option (Key × δ))
deriving DecidableEq

variable {δ : Type*} [Inhabited δ]

def applyOp (cfg : HashConfig) (t : Table δ) : TableOp δ → Option (Table δ × Outcome δ)
  | .insert b => (insertHyperobject cfg t b).map fun r => (r.1, .inserted r.2)
  | .remove key => (removeHyperobject cfg t key).map fun r => (r.1, .removed r.2)
  | .find key => some (t, .found ((findHyperobject cfg t key).map fun i =>
      ((bucketAt t.buckets i).key, (bucketAt t.buckets i).data)))

def runOps (cfg : HashConfig) : Table δ → List (TableOp δ) → Option (List (Outcome δ))
  | _, [] => some []
  | t, op :: ops =>
    match applyOp cfg t op with
    | some (t', o) => (runOps cfg t' ops).map (o :: ·)
    | none => none

/-- The finite map that the table stands for. -/
abbrev Bindings (δ : Type*) := Key → Option δ

def Bindings.next (m : Bindings δ) : TableOp δ → Bindings δ
  | .insert b => Function.update m b.key (some b.data)
  | .remove key => Function.update m key none
  | .find _ => m

def Bindings.outcome (m : Bindings δ) : TableOp δ → Outcome δ
  | .insert _ => .inserted true
  | .remove key => .removed (m key).isSome
  | .find key => .found ((m key).map (key, ·))

def Bindings.outcomes : Bindings δ → List (TableOp δ) → List (Outcome δ)
  | _, [] => []
  | m, op :: ops => m.outcome op :: (m.next op).outcomes ops

/-- Every find on the table answers as the map, no key sits in two live buckets, and the
occupancy is the number of bound keys. -/
structure BehavesAs (cfg : HashConfig) (t : Table δ) (m : Bindings δ) : Prop where
  find : ∀ key, isValid key = true →
    applyOp cfg t (.find key) = some (t, m.outcome (.find key))
  distinct : ∀ i < t.bound cfg, ∀ j < t.bound cfg, (bucketAt t.buckets i).live = true →
    (bucketAt t.buckets i).key = (bucketAt t.buckets j).key → i = j
  occupancy : t.occupancy = {key | m key ≠ none}.ncard

/-- From table `t` and map `m` on, every call returns what the map says and leaves a table
that behaves as the map after the call. -/
def RunsAsMap (cfg : HashConfig) : Table δ → Bindings δ → List (TableOp δ) → Prop
  | t, m, [] => BehavesAs cfg t m
  | t, m, op :: ops => BehavesAs cfg t m ∧
      ∃ t', applyOp cfg t op = some (t', m.outcome op) ∧ RunsAsMap cfg t' (m.next op) ops

def OpOk (cfg : HashConfig) (t : Table δ) : TableOp δ → Prop
  | .insert b => InsertOk cfg t b.key
  | _ => True

/-- Every call of the run is made on a table that lets it go right. -/
def StepsOk (cfg : HashConfig) : Table δ → List (TableOp δ) → Prop
  | _, [] => True
  | t, op :: ops => OpOk cfg t op ∧ ∀ t' o, applyOp cfg t op = some (t', o) → StepsOk cfg t' ops

section Represents

variable {cfg : HashConfig} {t u : Table δ} {m : Bindings δ}

/-- The map binds a key to the data in its live bucket. -/
def Represents (cfg : HashConfig) (t : Table δ) (m : Bindings δ) : Prop :=
  ∀ key d, m key = some d ↔ isValid key = true ∧ Binds cfg t key d

theorem Represents.none_iff (hr : Represents cfg t m) {key : Key} (hv : isValid key = true) :
    m key = none ↔ ∀ j < t.bound cfg, (bucketAt t.buckets j).key ≠ key := by
  constructor
  · intro hnone j hj hk
    have hsome := (hr key (bucketAt t.buckets j).data).mpr ⟨hv, j, hj, hk, rfl⟩
    rw [hnone] at hsome
    cases hsome
  · intro habs
    cases hm : m key with
    | none => rfl
    | some d =>
      obtain ⟨-, j, hj, hk, -⟩ := (hr key d).mp hm
      exact absurd hk (habs j hj)

theorem Represents.extends {b : Bucket δ} (hr : Represents cfg t m) (hv : isValid b.key = true)
    (hext : Extends cfg t u b) : Represents cfg u (m.next (.insert b)) := by
  intro key d
  change Function.update m b.key (some b.data) key = some d ↔ _
  by_cases hk : key = b.key
  · rw [hk, Function.update_self, hext _ hv, Option.some.injEq]
    constructor
    · exact fun h => ⟨hv, Or.inl ⟨rfl, h.symm⟩⟩
    · rintro ⟨-, ⟨-, h⟩ | ⟨h, -⟩⟩
      · exact h.symm
      · exact absurd rfl h
  · rw [Function.update_of_ne hk, hr key d]
    constructor
    · exact fun h => ⟨h.1, (hext key h.1 d).mpr (Or.inr ⟨hk, h.2⟩)⟩
    · rintro ⟨hkv, hb⟩
      rcases (hext key hkv d).mp hb with ⟨h, -⟩ | ⟨-, h⟩
      · exact absurd h hk
      · exact ⟨hkv, h⟩

theorem Represents.erases {key₀ : Key} (hr : Represents cfg t m)
    (her : Erases cfg t u key₀) : Represents cfg u (m.next (.remove key₀)) := by
  intro key d
  change Function.update m key₀ none key = some d ↔ _
  by_cases hk : key = key₀
  · rw [hk, Function.update_self]
    refine iff_of_false (fun h => by cases h) ?_
    rintro ⟨hkv, hb⟩
    exact ((her _ hkv d).mp hb).1 rfl
  · rw [Function.update_of_ne hk, hr key d]
    constructor
    · exact fun h => ⟨h.1, (her key h.1 d).mpr ⟨hk, h.2⟩⟩
    · exact fun h => ⟨h.1, ((her key h.1 d).mp h.2).2⟩

/-- The buckets in use. -/
def Table.used (cfg : HashConfig) (t : Table δ) : List (Bucket δ) :=
  t.buckets.take (t.bound cfg)

theorem used_at {j : ℕ} (hj : j < t.bound cfg) :
    bucketAt (t.used cfg) j = bucketAt t.buckets j := by
  simp [bucketAt, Table.used, hj]

theorem TableShape.used_length (hs : TableShape cfg t) :
    (t.used cfg).length = t.bound cfg := by
  rw [Table.used, List.length_take, hs.length]
  exact Nat.min_eq_left hs.bound_le

theorem TableShape.used_count (hs : TableShape cfg t) :
    (t.used cfg).countP Bucket.live = t.occupancy := by
  by_cases hmode : t.capacity < cfg.minHtCapacity
  · have hb : t.bound cfg = t.occupancy := if_pos hmode
    rw [← hb, ← hs.used_length, List.countP_eq_length]
    intro b hmem
    obtain ⟨j, hj, rfl⟩ := List.getElem_of_mem hmem
    have hjb : j < t.bound cfg := hs.used_length ▸ hj
    rw [← bucketAt_getElem hj, used_at hjb]
    exact (hs.linear hmode).live j (hb ▸ hjb)
  · have hb : t.bound cfg = t.buckets.length := by rw [Table.bound, if_neg hmode, hs.length]
    rw [Table.used, hb, List.take_length, (hs.hash hmode).count]

/-- The keys of the live buckets, each of them once. -/
theorem TableShape.keys (hs : TableShape cfg t) : ∃ keys : List Key, keys.Nodup ∧
    keys.length = t.occupancy ∧
    ∀ key, key ∈ keys ↔ isValid key = true ∧ ∃ d, Binds cfg t key d := by
  refine ⟨((t.used cfg).filter Bucket.live).map Bucket.key, ?_, ?_, fun key => ?_⟩
  · have hpair : (t.used cfg).Pairwise (fun a b => a.live = true → a.key ≠ b.key) := by
      apply pairwise_of_distinct
      rw [hs.used_length]
      intro i hi j hj hl hk
      rw [used_at hi] at hl hk
      rw [used_at hj] at hk
      exact hs.distinct i hi j hj hl hk
    rw [List.Nodup, List.pairwise_map, List.pairwise_filter]
    exact hpair.imp fun h hl _ => h hl
  · rw [List.length_map, ← List.countP_eq_length_filter, hs.used_count]
  · simp only [List.mem_map, List.mem_filter]
    constructor
    · rintro ⟨b, ⟨hmem, hl⟩, rfl⟩
      obtain ⟨j, hj, rfl⟩ := List.getElem_of_mem hmem
      have hjb : j < t.bound cfg := hs.used_length ▸ hj
      rw [← bucketAt_getElem hj, used_at hjb] at hl ⊢
      exact ⟨hl, _, j, hjb, rfl, rfl⟩
    · rintro ⟨hv, d, j, hj, rfl, -⟩
      have hjl : j < (t.used cfg).length := hs.used_length.symm ▸ hj
      refine ⟨bucketAt t.buckets j, ⟨?_, hv⟩, rfl⟩
      rw [← used_at hj, bucketAt_getElem hjl]
      exact List.getElem_mem hjl

theorem Represents.ncard (hr : Represents cfg t m) (hs : TableShape cfg t) :
    t.occupancy = {key | m key ≠ none}.ncard := by
  obtain ⟨keys, hnd, hlen, hmem⟩ := hs.keys
  have hset : {key | m key ≠ none} = (keys.toFinset : Set Key) := by
    ext key
    rw [Set.mem_ofPred_eq, List.coe_toFinset, Set.mem_ofPred_eq, hmem, Option.ne_none_iff_exists']
    constructor
    · rintro ⟨d, hd⟩
      obtain ⟨hv, hb⟩ := (hr key d).mp hd
      exact ⟨hv, d, hb⟩
    · rintro ⟨hv, d, hb⟩
      exact ⟨d, (hr key d).mpr ⟨hv, hb⟩⟩
  rw [hset, Set.ncard_coe_finset, List.toFinset_card_of_nodup hnd, hlen]

theorem TableInv.behavesAs (hi : TableInv cfg t) (hr : Represents cfg t m) :
    BehavesAs cfg t m where
  find := by
    intro key hv
    have hfinds := hi.finds hv
    unfold applyOp Bindings.outcome
    dsimp only
    generalize findHyperobject cfg t key = res at hfinds
    cases hfinds with
    | hit j hj hk =>
      rw [(hr key (bucketAt t.buckets j).data).mpr ⟨hv, j, hj, hk, rfl⟩, ← hk]
      rfl
    | miss habs =>
      rw [(hr.none_iff hv).mpr habs]
      rfl
  distinct := hi.distinct
  occupancy := hr.ncard hi.toTableShape

/-- A table with its slots out of order does not behave as the map it represents. -/
theorem TableShape.not_behavesAs (hs : TableShape cfg t) (hr : Represents cfg t m)
    (hmode : ¬ t.capacity < cfg.minHtCapacity)
    (hno : ¬ Ordered t.capacity (slotOf t.buckets)) : ¬ BehavesAs cfg t m := by
  intro hb
  obtain ⟨j, hj, hl, hlost⟩ := (hs.hash hmode).find_lost hmode hno
  have hbound : j < t.bound cfg := by rwa [Table.bound, if_neg hmode]
  have hfind := hb.find _ hl
  have hm := (hr _ (bucketAt t.buckets j).data).mpr ⟨hl, j, hbound, rfl, rfl⟩
  simp [applyOp, Bindings.outcome, hlost, hm] at hfind

end Represents

section Runs

variable {cfg : HashConfig} {t : Table δ} {m : Bindings δ}

theorem RunsAsMap.behavesAs {ops : List (TableOp δ)} (h : RunsAsMap cfg t m ops) :
    BehavesAs cfg t m := by
  cases ops with
  | nil => exact h
  | cons op ops => exact h.1

theorem RunsAsMap.runOps {ops : List (TableOp δ)} (h : RunsAsMap cfg t m ops) :
    runOps cfg t ops = some (m.outcomes ops) := by
  induction ops generalizing t m with
  | nil => rfl
  | cons op ops ih =>
    obtain ⟨-, t', he, hrun⟩ := h
    simp only [Cheetah.runOps, he, ih hrun, Option.map_some, Bindings.outcomes]

/-- A call that is made on a table that allows it returns what the map says. -/
theorem applyOp_ok {op : TableOp δ} (hi : TableInv cfg t) (hr : Represents cfg t m)
    (hv : isValid op.key = true) (hok : OpOk cfg t op) :
    ∃ t', applyOp cfg t op = some (t', m.outcome op) ∧ TableInv cfg t' ∧
      Represents cfg t' (m.next op) := by
  cases op with
  | insert b =>
    obtain ⟨u, he, hins⟩ := insertHyperobject_inserts hi hv hok.doubles
    exact ⟨u, by rw [applyOp, he]; rfl, hins.inv hok, hr.extends hv hins.binds⟩
  | remove key =>
    change isValid key = true at hv
    obtain ⟨u, ok, he, hrem⟩ := removeHyperobject_removes hi hv
    have hout : ok = (m key).isSome := by
      rw [Bool.eq_iff_iff, hrem.ok_iff, Option.isSome_iff_ne_none, Ne, hr.none_iff hv]
      push Not
      rfl
    exact ⟨u, by rw [applyOp, he, Bindings.outcome, ← hout]; rfl, hrem.inv, hr.erases hrem.binds⟩
  | find key =>
    exact ⟨t, (hi.behavesAs hr).find key hv, hi, hr⟩

/-- After a call that is made on a table that does not allow it the map is lost. -/
theorem applyOp_not_ok {op : TableOp δ} (hi : TableInv cfg t) (hr : Represents cfg t m)
    (hv : isValid op.key = true) (hnot : ¬ OpOk cfg t op) :
    applyOp cfg t op = none ∨
      ∃ t' o, applyOp cfg t op = some (t', o) ∧ ¬ BehavesAs cfg t' (m.next op) := by
  cases op with
  | insert b =>
    by_cases hdouble : ¬ t.capacity < cfg.minHtCapacity →
        isOverloaded t.occupancy t.capacity = true → t.capacity * 2 ≤ maxCapacity
    · obtain ⟨u, he, hins⟩ := insertHyperobject_inserts hi hv hdouble
      obtain ⟨hmode, hno⟩ := hins.lost hnot
      refine Or.inr ⟨u, .inserted true, by rw [applyOp, he]; rfl, ?_⟩
      exact hins.shape.not_behavesAs (hr.extends hv hins.binds) hmode hno
    · push Not at hdouble
      obtain ⟨hmode, hover, hgt⟩ := hdouble
      refine Or.inl ?_
      rw [applyOp, insertHyperobject_refused (by omega) hover hgt]
      rfl
  | remove key => exact absurd trivial hnot
  | find key => exact absurd trivial hnot

theorem runsAsMap_of_inv {ops : List (TableOp δ)} (hi : TableInv cfg t)
    (hr : Represents cfg t m) (hv : ∀ op ∈ ops, isValid op.key = true) :
    RunsAsMap cfg t m ops ↔ StepsOk cfg t ops := by
  induction ops generalizing t m with
  | nil => exact iff_of_true (hi.behavesAs hr) trivial
  | cons op ops ih =>
    have hvop := hv op List.mem_cons_self
    have hvops : ∀ op ∈ ops, isValid op.key = true := fun o ho => hv o (List.mem_cons_of_mem op ho)
    by_cases hok : OpOk cfg t op
    · obtain ⟨t', he, hi', hr'⟩ := applyOp_ok hi hr hvop hok
      constructor
      · rintro ⟨-, t₁, he₁, hrun⟩
        refine ⟨hok, fun t₂ o he₂ => ?_⟩
        rw [he₁] at he₂
        obtain ⟨rfl, -⟩ := Prod.mk.inj (Option.some.inj he₂)
        rw [he] at he₁
        obtain ⟨rfl, -⟩ := Prod.mk.inj (Option.some.inj he₁)
        exact (ih hi' hr' hvops).mp hrun
      · rintro ⟨-, hsteps⟩
        exact ⟨hi.behavesAs hr, t', he, (ih hi' hr' hvops).mpr (hsteps t' _ he)⟩
    · refine iff_of_false ?_ fun h => hok h.1
      rintro ⟨-, t', he, hrun⟩
      rcases applyOp_not_ok hi hr hvop hok with hnone | ⟨t₁, o, he₁, hno⟩
      · rw [he] at hnone
        cases hnone
      · rw [he] at he₁
        obtain ⟨rfl, -⟩ := Prod.mk.inj (Option.some.inj he₁)
        exact hno hrun.behavesAs

theorem alloc_inv (cfg : HashConfig) : TableInv cfg (localHyperTableAlloc cfg : Table δ) ∧
    Represents cfg (localHyperTableAlloc cfg : Table δ) fun _ => none := by
  have hpos := minCapacity_pos cfg
  have hle : cfg.minCapacity ≤ maxCapacity := by
    rcases cfg.constants with ⟨h, -⟩ | ⟨h, -⟩ <;> rw [h] <;> decide
  have hr := @rebuilding_start δ _ cfg _ hpos hle 0
  refine ⟨⟨⟨⟨0, (Nat.mul_one _).symm⟩, hr.linear, fun h => (hr.hash h).1.toHashShape,
    fun _ => Nat.zero_le _⟩, fun h => (hr.hash h).1.ordered⟩, fun key d => ?_⟩
  refine iff_of_false (fun h => by cases h) ?_
  rintro ⟨hv, hb⟩
  obtain ⟨b, hmem, -⟩ := (hr.binds key hv d).mp hb
  exact absurd hmem List.not_mem_nil

/-- From the table that alloc makes, a run behaves as a finite map after every call exactly
when each of its insertions is made on a table that lets it go right. -/
theorem runsAsMap_iff_stepsOk (cfg : HashConfig) (ops : List (TableOp δ))
    (hv : ∀ op ∈ ops, isValid op.key = true) :
    RunsAsMap cfg (localHyperTableAlloc cfg) (fun _ => none) ops ↔
      StepsOk cfg (localHyperTableAlloc cfg : Table δ) ops :=
  runsAsMap_of_inv (alloc_inv cfg).1 (alloc_inv cfg).2 hv

theorem runsAsMap_iff_stepsOk_small :
    (∀ op ∈ [TableOp.insert ⟨15#64, 0, 1⟩, .remove 15#64, .find 15#64], isValid op.key = true) ∧
      (RunsAsMap headerConfig (localHyperTableAlloc headerConfig) (fun _ => none)
          [.insert ⟨15#64, 0, 1⟩, .remove 15#64, .find 15#64] ↔
        StepsOk headerConfig (localHyperTableAlloc headerConfig : Table ℕ)
          [.insert ⟨15#64, 0, 1⟩, .remove 15#64, .find 15#64]) := by
  have hv : ∀ op ∈ [TableOp.insert ⟨15#64, 0, 1⟩, .remove 15#64, .find 15#64],
      isValid op.key = true := by
    simp [TableOp.key, isValid, isEmpty, isTombstone, keyEmpty, keyDeleted]
  exact ⟨hv, runsAsMap_iff_stepsOk headerConfig _ hv⟩

/-- Twelve calls that fill the eight buckets and shift an element past its own home. -/
def fullTableOps : List (TableOp ℕ) :=
  [.insert ⟨15#64, 0, 0⟩, .insert ⟨35#64, 0, 0⟩, .insert ⟨36#64, 0, 1⟩, .insert ⟨5#64, 0, 0⟩,
    .insert ⟨10#64, 0, 0⟩, .insert ⟨17#64, 0, 0⟩, .insert ⟨22#64, 0, 0⟩, .insert ⟨28#64, 0, 0⟩,
    .remove 15#64, .insert ⟨31#64, 0, 0⟩, .remove 35#64, .insert ⟨15#64, 0, 0⟩]

/-- With the hash of the header, key 36 is lost by the last insertion. -/
theorem fullTableOps_not_runsAsMap :
    (∀ op ∈ fullTableOps ++ [.find 36#64], isValid op.key = true) ∧
      ¬ RunsAsMap headerConfig (localHyperTableAlloc headerConfig) (fun _ => none)
        (fullTableOps ++ [.find 36#64]) := by
  refine ⟨by decide +kernel, fun hrun => ?_⟩
  have hout := hrun.runOps
  have hlost : runOps headerConfig (localHyperTableAlloc headerConfig)
      (fullTableOps ++ [.find 36#64]) ≠ some (Bindings.outcomes (fun _ => none)
        (fullTableOps ++ [.find 36#64])) := by
    decide +kernel
  exact hlost hout

end Runs

end Cheetah
