import Cheetah.HyperTableMerge
import Cheetah.Scheduler
import Mathlib.Data.List.ReduceOption

/-! `__cilkrts_do_reductions`, where the reduce operations may run parallel code and create views. -/
namespace Cheetah

/-- The slots of the workers as the reduce operations of one merge leave them, and the worker that
the strand is on then. A strand that has passed its syncs has no table left to merge. -/
structure MergeEffect where
  worker : WorkerId
  hyperTable : WorkerId → Option (Table ReducerData)
  lht : WorkerId → Option (Table ReducerData)
  rht : WorkerId → Option (Table ReducerData)
  lht_worker : lht worker = none
  rht_worker : rht worker = none

structure ReductionState where
  worker : WorkerId
  hyperTable : WorkerId → Option (Table ReducerData)
  lht : WorkerId → Option (Table ReducerData)
  rht : WorkerId → Option (Table ReducerData)
  /-- The effects of the merges to come; after these a merge creates no views. -/
  effects : List MergeEffect
  /-- The calls of `merge_two_hts` so far. -/
  merges : List (Option (Table ReducerData) × Option (Table ReducerData))

namespace ReductionState

def slot (s : ReductionState) : Option (Table ReducerData) := s.hyperTable s.worker

def setSlot (s : ReductionState) (ht : Option (Table ReducerData)) : ReductionState :=
  { s with hyperTable := Function.update s.hyperTable s.worker ht }

def clearHts (s : ReductionState) : ReductionState :=
  { s with lht := Function.update s.lht s.worker none, rht := Function.update s.rht s.worker none }

/-- The state after the reduce operations of the next merge. -/
def afterMerge (s : ReductionState) : ReductionState :=
  match s.effects with
  | [] => s
  | e :: es => { s with worker := e.worker, hyperTable := e.hyperTable, lht := e.lht,
                        rht := e.rht, effects := es }

def merge (cfg : HashConfig) (s : ReductionState) (left right : Option (Table ReducerData)) :
    Option (Option (Table ReducerData) × ReductionState) :=
  (Table.mergeTwoHts cfg left right).map fun res =>
    (res.1, { s.afterMerge with merges := s.merges ++ [(left, right)] })

/-- The loop after a merge, with at most `fuel` evaluations of its condition. -/
def drain (cfg : HashConfig) : ℕ → Option (Table ReducerData) → ReductionState →
    Option (Option (Table ReducerData) × ReductionState)
  | 0, _, _ => none
  | _ + 1, none, s => some (none, s)
  | fuel + 1, some ht, s =>
    match s.slot with
    | none => some (some ht, s)
    | some newHt => do
      let res ← (s.setSlot none).merge cfg (some ht) (some newHt)
      drain cfg fuel res.1 res.2

/-- A merge and the loop after it. -/
def mergeAndDrain (cfg : HashConfig) (fuel : ℕ) (s : ReductionState)
    (left right : Option (Table ReducerData)) :
    Option (Option (Table ReducerData) × ReductionState) := do
  let res ← s.merge cfg left right
  drain cfg fuel res.1 res.2

/-- `__cilkrts_do_reductions` up to its last store: the table to store, and the state then. -/
def reduceAll (cfg : HashConfig) (fuel : ℕ) (s : ReductionState) :
    Option (Option (Table ReducerData) × ReductionState) :=
  let lht := s.lht s.worker
  let rht := s.rht s.worker
  let ht := s.slot
  let s := s.clearHts.setSlot none
  (if lht.isSome then s.mergeAndDrain cfg fuel lht ht else some (ht, s)).bind fun res =>
    if rht.isSome then res.2.mergeAndDrain cfg fuel res.1 rht else some res

/-- `__cilkrts_do_reductions`. -/
def doReductions (cfg : HashConfig) (fuel : ℕ) (s : ReductionState) : Option ReductionState :=
  if (s.lht s.worker).isNone && (s.rht s.worker).isNone then some s
  else (s.reduceAll cfg fuel).map fun res => res.2.setSlot res.1

end ReductionState

/-- The left-to-right merge of tables, with the calls of `merge_two_hts` that it takes. -/
def mergeAll (cfg : HashConfig) : Option (Table ReducerData) → List (Option (Table ReducerData)) →
    Option (Option (Table ReducerData) ×
      List (Option (Table ReducerData) × Option (Table ReducerData)))
  | ht, [] => some (ht, [])
  | ht, next :: rest =>
    (Table.mergeTwoHts cfg ht next).bind fun res =>
      (mergeAll cfg res.1 rest).map fun all => (all.1, (ht, next) :: all.2)

/-- The table that a merge leaves in the slot of the strand's worker. -/
def MergeEffect.created (e : MergeEffect) : Option (Table ReducerData) := e.hyperTable e.worker

/-- The tables that a loop finds in the slot: the ones created until a merge creates none. -/
def createdBy : List MergeEffect → List (Option (Table ReducerData))
  | [] => []
  | e :: es =>
    match e.created with
    | none => []
    | some ht => some ht :: createdBy es

/-- The merges that are left to do after a loop. -/
def afterLoop : List MergeEffect → List MergeEffect
  | [] => []
  | e :: es =>
    match e.created with
    | none => es
    | some _ => afterLoop es

namespace ReductionState

/-- The state after a merge with effect `e`. -/
def take (s : ReductionState) (e : MergeEffect) (es : List MergeEffect) : ReductionState :=
  { s with worker := e.worker, hyperTable := e.hyperTable, lht := e.lht, rht := e.rht,
           effects := es }

/-- The state at the end of a loop, up to the calls that it made. -/
def settle : List MergeEffect → ReductionState → ReductionState
  | [], s => s
  | e :: es, s =>
    match e.created with
    | none => s.take e es
    | some _ => settle es ((s.take e es).setSlot none)

/-- The first table that is handed to a merge. -/
def firstTable (s : ReductionState) : Option (Table ReducerData) :=
  if (s.lht s.worker).isSome then s.lht s.worker else s.slot

/-- The merges left for the right table. -/
def rightEffects (s : ReductionState) : List MergeEffect :=
  if (s.lht s.worker).isSome then afterLoop s.effects else s.effects

/-- The tables created during the merges on the left, and on the right. -/
def leftCreated (s : ReductionState) : List (Option (Table ReducerData)) :=
  if (s.lht s.worker).isSome then createdBy s.effects else []

def rightCreated (s : ReductionState) : List (Option (Table ReducerData)) :=
  if (s.rht s.worker).isSome then createdBy s.rightEffects else []

/-- The tables that are handed to a merge as its right argument. -/
def laterTables (s : ReductionState) : List (Option (Table ReducerData)) :=
  (if (s.lht s.worker).isSome then s.slot :: s.leftCreated else []) ++
    if (s.rht s.worker).isSome then s.rht s.worker :: s.rightCreated else []

/-- All the tables in serial order. -/
def allTables (s : ReductionState) : List (Option (Table ReducerData)) :=
  s.lht s.worker :: s.slot :: s.leftCreated ++ s.rht s.worker :: s.rightCreated

end ReductionState

section Loops

variable {cfg : HashConfig} {s : ReductionState} {left right : Option (Table ReducerData)}

theorem mergeTwoHts_ne_none {res : Option (Table ReducerData) × List ViewEvent}
    (h : Table.mergeTwoHts cfg left right = some res) (hne : left.isSome ∨ right.isSome) :
    ∃ ht, res.1 = some ht := by
  cases left with
  | none =>
    cases h
    simpa [Option.isSome_iff_exists] using hne
  | some l =>
    cases right with
    | none =>
      cases h
      exact ⟨l, rfl⟩
    | some r =>
      simp only [Table.mergeTwoHts] at h
      split_ifs at h
      · cases h
        exact ⟨r, rfl⟩
      · cases h
        exact ⟨l, rfl⟩
      · obtain ⟨u, -, rfl⟩ := Option.map_eq_some_iff.mp h
        exact ⟨u.1, rfl⟩
      · obtain ⟨u, -, rfl⟩ := Option.map_eq_some_iff.mp h
        exact ⟨u.1, rfl⟩

theorem mergeAll_cons (ht next : Option (Table ReducerData))
    (rest : List (Option (Table ReducerData))) :
    mergeAll cfg ht (next :: rest) = (Table.mergeTwoHts cfg ht next).bind fun res =>
      (mergeAll cfg res.1 rest).map fun all => (all.1, (ht, next) :: all.2) := rfl

theorem mergeAll_append (ht : Option (Table ReducerData))
    (l₁ l₂ : List (Option (Table ReducerData))) :
    mergeAll cfg ht (l₁ ++ l₂) = (mergeAll cfg ht l₁).bind fun r =>
      (mergeAll cfg r.1 l₂).map fun r' => (r'.1, r.2 ++ r'.2) := by
  induction l₁ generalizing ht with
  | nil => cases mergeAll cfg ht l₂ <;> simp [mergeAll]
  | cons next rest ih =>
    rw [List.cons_append, mergeAll_cons, mergeAll_cons]
    cases Table.mergeTwoHts cfg ht next with
    | none => rfl
    | some res =>
      rw [Option.bind_some, Option.bind_some, ih]
      cases mergeAll cfg res.1 rest with
      | none => rfl
      | some r => cases h : mergeAll cfg r.1 l₂ <;> simp [h]

/-- Each table is the right argument of one merge. -/
theorem mergeAll_calls {ht : Option (Table ReducerData)}
    {tables : List (Option (Table ReducerData))} {res}
    (h : mergeAll cfg ht tables = some res) : res.2.map Prod.snd = tables := by
  induction tables generalizing ht res with
  | nil =>
    cases h
    rfl
  | cons next rest ih =>
    rw [mergeAll_cons, Option.bind_eq_some_iff] at h
    obtain ⟨m, -, h⟩ := h
    obtain ⟨all, hall, rfl⟩ := Option.map_eq_some_iff.mp h
    rw [List.map_cons, ih hall]

/-- A null pointer changes nothing. -/
theorem mergeAll_none_cons (ht : Option (Table ReducerData))
    (rest : List (Option (Table ReducerData))) :
    (mergeAll cfg ht (none :: rest)).map Prod.fst = (mergeAll cfg ht rest).map Prod.fst := by
  have hmerge : Table.mergeTwoHts cfg ht none = some (ht, []) := by
    cases ht <;> rfl
  rw [mergeAll_cons, hmerge, Option.bind_some, Option.map_map]
  rfl

theorem mergeAll_present (ht : Option (Table ReducerData))
    (tables : List (Option (Table ReducerData))) :
    (mergeAll cfg ht tables).map Prod.fst =
      (mergeAll cfg ht (tables.reduceOption.map some)).map Prod.fst := by
  induction tables generalizing ht with
  | nil => rfl
  | cons next rest ih =>
    cases next with
    | none => rw [mergeAll_none_cons, ih, List.reduceOption_cons_of_none]
    | some t =>
      rw [List.reduceOption_cons_of_some, List.map_cons, mergeAll_cons, mergeAll_cons]
      cases Table.mergeTwoHts cfg ht (some t) with
      | none => rfl
      | some res =>
        rw [Option.bind_some, Option.bind_some, Option.map_map, Option.map_map]
        exact ih res.1

theorem mergeAll_none_left (ht : Option (Table ReducerData))
    (rest : List (Option (Table ReducerData))) :
    (mergeAll cfg none (ht :: rest)).map Prod.fst = (mergeAll cfg ht rest).map Prod.fst := by
  have hmerge : Table.mergeTwoHts cfg none ht = some (ht, []) := by
    cases ht <;> rfl
  rw [mergeAll_cons, hmerge, Option.bind_some, Option.map_map]
  rfl

namespace ReductionState

@[simp] theorem setSlot_slot (s : ReductionState) (ht : Option (Table ReducerData)) :
    (s.setSlot ht).slot = ht := Function.update_self ..

theorem settle_merges (es : List MergeEffect) (s : ReductionState)
    (m : List (Option (Table ReducerData) × Option (Table ReducerData))) :
    settle es { s with merges := m } = { settle es s with merges := m } := by
  induction es generalizing s with
  | nil => rfl
  | cons e es ih =>
    unfold settle
    cases e.created with
    | none => rfl
    | some ht => exact ih ((s.take e es).setSlot none)

theorem settle_effects (es : List MergeEffect) (s : ReductionState) (hs : s.effects = es) :
    (settle es s).effects = afterLoop es := by
  induction es generalizing s with
  | nil => exact hs
  | cons e es ih =>
    unfold settle afterLoop
    cases e.created with
    | none => rfl
    | some ht => exact ih _ rfl

/-- The loop ends with an empty slot on a worker that has no table to merge. -/
theorem settle_quiet (es : List MergeEffect) (s : ReductionState) (hslot : s.slot = none)
    (hl : s.lht s.worker = none) (hr : s.rht s.worker = none) :
    (settle es s).slot = none ∧ (settle es s).lht (settle es s).worker = none ∧
      (settle es s).rht (settle es s).worker = none := by
  induction es generalizing s with
  | nil => exact ⟨hslot, hl, hr⟩
  | cons e es ih =>
    unfold settle
    cases he : e.created with
    | none => exact ⟨he, e.lht_worker, e.rht_worker⟩
    | some ht => exact ih _ (setSlot_slot _ _) e.lht_worker e.rht_worker

theorem drain_stop (cfg : HashConfig) (n : ℕ) (ht : Option (Table ReducerData)) (hslot : s.slot = none) :
    drain cfg (n + 1) ht s = some (ht, s) := by
  cases ht with
  | none => rfl
  | some ht => simp only [drain, hslot]

theorem drain_next (cfg : HashConfig) (n : ℕ) (ht : Table ReducerData) {newHt : Table ReducerData}
    (hslot : s.slot = some newHt) : drain cfg (n + 1) (some ht) s =
      (s.setSlot none).mergeAndDrain cfg n (some ht) (some newHt) := by
  simp only [drain, hslot]
  rfl

theorem afterMerge_cons {e : MergeEffect} {es : List MergeEffect} (hes : s.effects = e :: es) :
    s.afterMerge = s.take e es := by
  unfold afterMerge
  rw [hes]
  rfl

/-- A merge and its loop: the tables that appear in the slot are merged on the right. -/
theorem mergeAndDrain_eq (cfg : HashConfig) (left right : Option (Table ReducerData))
    {es : List MergeEffect} (hes : s.effects = es) {fuel : ℕ}
    (hfuel : es.length < fuel) (hslot : s.slot = none) (hne : left.isSome ∨ right.isSome) :
    s.mergeAndDrain cfg fuel left right = (mergeAll cfg left (right :: createdBy es)).map
      fun r => (r.1, { settle es s with merges := s.merges ++ r.2 }) := by
  induction es generalizing s fuel left right with
  | nil =>
    obtain ⟨n, rfl⟩ : ∃ n, fuel = n + 1 := ⟨fuel - 1, by simp at hfuel; omega⟩
    have hsame : s.afterMerge = s := by
      unfold afterMerge
      rw [hes]
    rw [mergeAll_cons]
    unfold mergeAndDrain merge
    rw [hsame]
    cases hm : Table.mergeTwoHts cfg left right with
    | none => rfl
    | some res => exact drain_stop cfg n res.1 hslot
  | cons e es ih =>
    rw [List.length_cons] at hfuel
    obtain ⟨n, rfl⟩ : ∃ n, fuel = n + 2 := ⟨fuel - 2, by omega⟩
    rw [mergeAll_cons]
    unfold mergeAndDrain merge
    rw [afterMerge_cons hes]
    cases hm : Table.mergeTwoHts cfg left right with
    | none => rfl
    | some res =>
      obtain ⟨ht, hht⟩ := mergeTwoHts_ne_none hm hne
      simp only [Option.map_some, Option.bind_eq_bind, Option.bind_some]
      cases hc : e.created with
      | none =>
        have hstop := drain_stop (s := { s.take e es with
          merges := s.merges ++ [(left, right)] }) cfg (n + 1) res.1 hc
        rw [hstop]
        simp [createdBy, settle, hc, mergeAll]
      | some newHt =>
        have hnext := drain_next (s := { s.take e es with
          merges := s.merges ++ [(left, right)] }) cfg (n + 1) ht hc
        have hrest := ih (s := { (s.take e es).setSlot none with
          merges := s.merges ++ [(left, right)] }) (some ht) (some newHt) rfl
          (show es.length < n + 1 by omega) (setSlot_slot (s.take e es) none) (Or.inl rfl)
        have hcreated : createdBy (e :: es) = some newHt :: createdBy es := by simp [createdBy, hc]
        have hsettle : settle (e :: es) s = settle es ((s.take e es).setSlot none) := by
          simp [settle, hc]
        rw [settle_merges] at hrest
        rw [hht, hnext, hcreated, hsettle]
        refine Eq.trans hrest ?_
        cases mergeAll cfg (some ht) (some newHt :: createdBy es) with
        | none => rfl
        | some r => simp

theorem afterLoop_length (es : List MergeEffect) : (afterLoop es).length ≤ es.length := by
  induction es with
  | nil => exact Nat.le_refl _
  | cons e es ih =>
    unfold afterLoop
    cases e.created with
    | none => exact Nat.le_succ _
    | some ht => exact Nat.le_succ_of_le ih

/-- The state after `lht`, `rht` and the slot were read. -/
def taken (s : ReductionState) : ReductionState := s.clearHts.setSlot none

theorem reduceAll_eq (cfg : HashConfig) {fuel : ℕ} (hfuel : s.effects.length < fuel)
    (hne : (s.lht s.worker).isSome ∨ (s.rht s.worker).isSome) :
    ∃ u : ReductionState, u.slot = none ∧ u.lht u.worker = none ∧ u.rht u.worker = none ∧
      s.reduceAll cfg fuel = (mergeAll cfg s.firstTable s.laterTables).map
        fun r => (r.1, { u with merges := s.merges ++ r.2 }) := by
  have hes : s.taken.effects = s.effects := rfl
  have hslot : s.taken.slot = none := setSlot_slot _ _
  have hl : s.taken.lht s.taken.worker = none := Function.update_self ..
  have hr : s.taken.rht s.taken.worker = none := Function.update_self ..
  have hquiet := settle_quiet s.effects s.taken hslot hl hr
  have heq : s.reduceAll cfg fuel = (if (s.lht s.worker).isSome then
      s.taken.mergeAndDrain cfg fuel (s.lht s.worker) s.slot else some (s.slot, s.taken)).bind
        fun res => if (s.rht s.worker).isSome then
          res.2.mergeAndDrain cfg fuel res.1 (s.rht s.worker) else some res := rfl
  rw [heq]
  by_cases hls : (s.lht s.worker).isSome = true
  · have hleft := mergeAndDrain_eq cfg (s.lht s.worker) s.slot hes hfuel hslot (Or.inl hls)
    by_cases hrs : (s.rht s.worker).isSome = true
    · refine ⟨settle (afterLoop s.effects) (settle s.effects s.taken), ?_⟩
      have hquiet' := settle_quiet (afterLoop s.effects) _ hquiet.1 hquiet.2.1 hquiet.2.2
      refine ⟨hquiet'.1, hquiet'.2.1, hquiet'.2.2, ?_⟩
      simp only [if_pos hls, if_pos hrs, hleft, firstTable, laterTables, leftCreated, rightCreated,
        rightEffects, mergeAll_append]
      cases mergeAll cfg (s.lht s.worker) (s.slot :: createdBy s.effects) with
      | none => rfl
      | some r =>
        have hright := mergeAndDrain_eq
          (s := { settle s.effects s.taken with merges := s.merges ++ r.2 }) cfg r.1
          (s.rht s.worker) (settle_effects _ _ rfl) ((afterLoop_length _).trans_lt hfuel) hquiet.1
          (Or.inr hrs)
        refine Eq.trans hright ?_
        rw [settle_merges, Option.bind_some, Option.map_map]
        apply congrArg₂ _ _ rfl
        funext r'
        simp
    · refine ⟨settle s.effects s.taken, hquiet.1, hquiet.2.1, hquiet.2.2, ?_⟩
      simp only [if_pos hls, if_neg hrs, hleft, firstTable, laterTables, leftCreated,
        List.append_nil]
      cases mergeAll cfg (s.lht s.worker) (s.slot :: createdBy s.effects) <;> rfl
  · have hrs := hne.resolve_left hls
    refine ⟨settle s.effects s.taken, hquiet.1, hquiet.2.1, hquiet.2.2, ?_⟩
    have hright := mergeAndDrain_eq cfg s.slot (s.rht s.worker) hes hfuel hslot (Or.inr hrs)
    simp only [if_neg hls, if_pos hrs, firstTable, laterTables, rightCreated, rightEffects,
      List.nil_append, Option.bind_some, hright]
    rfl

/-- The tables that are handed to merges are those of the serial order that are not null. -/
theorem tables_present (s : ReductionState) :
    (s.firstTable :: s.laterTables).reduceOption = s.allTables.reduceOption := by
  unfold firstTable laterTables allTables leftCreated rightCreated
  cases hl : s.lht s.worker with
  | none =>
    cases hr : s.rht s.worker with
    | none => cases s.slot <;> rfl
    | some rht => cases s.slot <;> rfl
  | some lht =>
    cases hr : s.rht s.worker with
    | none =>
      have hlast := List.reduceOption_append (s.slot :: createdBy s.effects) [none]
      rw [List.reduceOption_cons_of_none, List.reduceOption_nil, List.append_nil] at hlast
      simpa using hlast.symm
    | some rht => cases s.slot <;> simp

theorem tables_product (s : ReductionState) :
    (mergeAll cfg s.firstTable s.laterTables).map Prod.fst =
      (mergeAll cfg none s.allTables).map Prod.fst := by
  rw [← mergeAll_none_left, mergeAll_present, tables_present, ← mergeAll_present]

end ReductionState

end Loops

/-- `__cilkrts_do_reductions` installs the left-to-right merge of all the tables that are there or
are created on the way. Each of them is merged once, the pointers end null, and the last store
finds an empty slot. -/
theorem doReductions_losesNothing (cfg : HashConfig) (s : ReductionState) (fuel : ℕ)
    (hfuel : s.effects.length < fuel) :
    (s.lht s.worker = none → s.rht s.worker = none → s.doReductions cfg fuel = some s) ∧
    ((s.lht s.worker).isSome ∨ (s.rht s.worker).isSome → ∃ u : ReductionState,
      u.slot = none ∧ u.lht u.worker = none ∧ u.rht u.worker = none ∧
      s.reduceAll cfg fuel = (mergeAll cfg s.firstTable s.laterTables).map
        (fun r => (r.1, { u with merges := s.merges ++ r.2 })) ∧
      s.doReductions cfg fuel = (mergeAll cfg s.firstTable s.laterTables).map
        (fun r => { u.setSlot r.1 with merges := s.merges ++ r.2 })) ∧
    (mergeAll cfg s.firstTable s.laterTables).map Prod.fst =
      (mergeAll cfg none s.allTables).map Prod.fst ∧
    (s.firstTable :: s.laterTables).reduceOption = s.allTables.reduceOption ∧
    ∀ res, mergeAll cfg s.firstTable s.laterTables = some res →
      res.2.map Prod.snd = s.laterTables := by
  refine ⟨fun hl hr => ?_, fun hne => ?_, s.tables_product, s.tables_present,
    fun res => mergeAll_calls⟩
  · unfold ReductionState.doReductions
    rw [hl, hr]
    rfl
  · obtain ⟨u, hslot, hl, hr, hall⟩ := ReductionState.reduceAll_eq cfg hfuel hne
    refine ⟨u, hslot, hl, hr, hall, ?_⟩
    have hgo : ¬ ((s.lht s.worker).isNone && (s.rht s.worker).isNone) = true := by
      rcases hne with h | h <;> simp [Option.isNone_iff_eq_none, Option.isSome_iff_ne_none.mp h]
    unfold ReductionState.doReductions
    rw [if_neg hgo, hall, Option.map_map]
    rfl

/-- The merge with `lht` moves the strand to worker 1 and leaves a table in the slot there. -/
theorem doReductions_losesNothing_moved :
    let ht : Table ReducerData := localHyperTableAlloc headerConfig
    let slots : WorkerId → Option (Table ReducerData) := Function.update (fun _ => none) 1 (some ht)
    let s : ReductionState := ⟨0, fun _ => none, fun _ => some ht, fun _ => none,
      [⟨1, slots, fun _ => none, fun _ => none, rfl, rfl⟩], []⟩
    ∃ u : ReductionState, u.slot = none ∧ s.doReductions headerConfig 2 =
      (mergeAll headerConfig (some ht) [none, some ht]).map
        fun r => { u.setSlot r.1 with merges := r.2 } := by
  intro ht slots s
  obtain ⟨u, hslot, -, -, -, hdo⟩ :=
    (doReductions_losesNothing headerConfig s 2 (by decide)).2.1 (Or.inl rfl)
  exact ⟨u, hslot, hdo⟩

end Cheetah
