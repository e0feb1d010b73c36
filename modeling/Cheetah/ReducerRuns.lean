import Cheetah.ReducerWords

/-! A region with its tables in memory: the objects of the user get the values of the serial
execution. -/
namespace Cheetah
open Function (update)

section Region

variable {κ W : Type} [DecidableEq κ] [Monoid W] {s s' : Runtime κ W} {total : κ → W}
  {value : ClosureId → κ → W}

theorem HoldInv.exists_active (hh : HoldInv s) (value : ClosureId → κ → W) {c : ClosureId}
    (hc : s.live c) : ∃ x, s.Active value c x := by
  by_cases hheld : ∃ w, (s.phase w).closure = some c
  · obtain ⟨w, hw⟩ := hheld
    exact ⟨_, .held hw⟩
  · cases hd : s.callee c with
    | some d => exact ⟨_, .called hd⟩
    | none => exact ⟨_, .parked (hh.waiting c hc fun w hw => hheld ⟨w, hw⟩).1 hd⟩

/-- What a closure contributes stands in one piece in the serial order. By induction: the parent is
older, and its value has that of the child in it. -/
theorem ViewInv.factor (hi : SchedInv s) (hv : ViewInv total s value) (c : ClosureId)
    (hc : s.live c) : ∃ a b, total = a * value c * b := by
  induction c using Nat.strong_induction_on with
  | _ c ih =>
    by_cases hroot : c = 0
    · rw [hroot, hv.root]
      exact ⟨1, 1, by rw [one_mul, mul_one]⟩
    have hparent : ∃ p, s.live p ∧ p < c ∧ ∃ a b, value p = a * value c * b := by
      cases hspawn : s.spawnParent c with
      | some p =>
        have hp := hi.links.spawner c p hc hspawn
        obtain ⟨x, hx⟩ := hi.hold.exists_active value hp
        have hmem := (hi.links.child p c hp).mpr ⟨hc, hspawn⟩
        obtain ⟨left, right, hchildren⟩ := List.append_of_mem hmem
        refine ⟨p, hp, hi.tree.older c p hc (.inl hspawn),
          viewOf (s.childHt p) * (left.map (s.childViews value)).prod,
          viewOf (s.rightHt c) * (right.map (s.childViews value)).prod * x, ?_⟩
        rw [hv.value_eq p x hp hx, Runtime.before, hchildren, List.map_append, List.map_cons,
          List.prod_append, List.prod_cons, Runtime.childViews]
        simp only [mul_assoc]
      | none =>
        cases hcall : s.callParent c with
        | none => exact absurd (hi.tree.parent c hc hspawn hcall) hroot
        | some p =>
          have hp := hi.links.caller c p hc hcall
          have hd := (hi.links.called p c hp).mpr ⟨hc, hcall⟩
          refine ⟨p, hp, hi.tree.older c p hc (.inr hcall), s.before value p,
            s.words (s.stack p), ?_⟩
          rw [hv.value_eq p _ hp (.called hd), mul_assoc]
    obtain ⟨p, hp, hlt, a, b, hab⟩ := hparent
    obtain ⟨a', b', htotal⟩ := ih p hlt hp
    refine ⟨a' * a, b * b', ?_⟩
    rw [htotal, hab]
    simp only [mul_assoc]

theorem ViewInv.factor_tables (hi : SchedInv s) (hv : ViewInv total s value) {w : WorkerId}
    {c : ClosureId} (hheld : (s.phase w).closure = some c) :
    ∃ a b, total = a * s.tables w * b := by
  have hlive := hi.hold.live w c hheld
  obtain ⟨a, b, hab⟩ := hv.factor hi c hlive
  refine ⟨a * s.before value c, s.words (s.stack c) * b, ?_⟩
  rw [hab, hv.value_eq c _ hlive (.held hheld)]
  simp only [mul_assoc]

omit [DecidableEq κ] [Monoid W] in
theorem updates_put {P : κ → W → Prop} {code : FrameId → Code κ W} {c : Code κ W} {f : FrameId}
    (h : ∀ g, (code g).Updates P) (hc : c.Updates P) (g : FrameId) :
    (update code f c g).Updates P := by
  by_cases hg : g = f
  · rw [hg, Function.update_self]
    exact hc
  · rw [Function.update_of_ne hg]
    exact h g

/-- The strands run pieces of the computation. -/
theorem SchedStep.updates {P : κ → W → Prop} (hs : SchedStep s s')
    (h : ∀ f, (s.code f).Updates P) : ∀ f, (s'.code f).Updates P := by
  cases hs with
  | @update w t f below reducer u rest hw hstack hcode =>
    have hf := h f
    rw [hcode] at hf
    exact updates_put h hf.2
  | @enterFrame w t f below callee rest hw hstack hcode =>
    have hf := h f
    rw [hcode] at hf
    exact updates_put (updates_put h hf.2) hf.1
  | @detach w t f below child rest rsp hw hstack hcode =>
    have hf := h f
    rw [hcode] at hf
    exact updates_put (updates_put h hf.2) hf.1
  | exceptionHandler => exact updates_put h trivial
  | @syncFast w t f below rest hw hstack hcode =>
    have hf := h f
    rw [hcode] at hf
    exact updates_put h hf
  | @doReductions w t f =>
    apply updates_put h
    have hf := h f
    cases hcode : s.code f <;> rw [hcode] at hf <;> exact hf
  | @returnChild w t parent | @resumeParent w t parent =>
    intro f
    exact (congrArg (fun code => (code f).Updates P) (returnChild_same w parent t).1).mpr (h f)
  | _ => exact h

end Region

section Heap

variable {V : Type} [Monoid V] {cfg : HashConfig} {R : Reducers} {keys : List Key}
  {initial : Key → V} {code : Code Key V} {x y : ReducerTables V}
  {s s' : Runtime Key (UpdateWord V)} {total : Key → UpdateWord V}
  {value : ClosureId → Key → UpdateWord V}

omit [Monoid V] in
theorem viewOf_of_viewIn {T : TableSlot → Option (ViewMap Key (UpdateWord V))} {slot : TableSlot}
    {key : Key} {word : UpdateWord V} (h : viewIn T slot key = some word) :
    viewOf (T slot) key = word := by
  rw [viewOf_viewIn, h, Option.getD_some]

omit [Monoid V] in
/-- The view of the user is never merged into another one: nothing that was made of a view comes
before what the user put in. -/
theorem words_doReductions (hi : SchedInv s) (hv : ViewInv total s value)
    (hone : ∀ key, OneMark (total key)) {w : WorkerId} {c : ClosureId}
    (hheld : (s.phase w).closure = some c) : TableAction.WordsAll R s.tableAt
      [.merge (.lht w) (.hyperTable w), .merge (.lht w) (.rht w),
        .move (.lht w) (.hyperTable w)] := by
  obtain ⟨a, b, hab⟩ := hv.factor_tables hi hheld
  have htables : ∀ key, total key = a key * (viewOf (s.lht w) key * viewOf (s.hyperTable w) key *
      viewOf (s.rht w) key) * b key := fun key => congrFun hab key
  refine ⟨fun key l rest hl hr => ?_, fun key l rest hl hr => ?_, trivial, trivial⟩
  · have hl' : viewOf (s.lht w) key = l := viewOf_of_viewIn hl
    have hr' : viewOf (s.hyperTable w) key = .of none * rest := viewOf_of_viewIn hr
    have he : total key =
        a key * l * (.of none * (rest * (viewOf (s.rht w) key * b key))) := by
      rw [htables, hl', hr']
      simp only [mul_assoc]
    exact (hone key).one he
  · rw [TableAction.onViews, viewIn_update, if_neg (by simp), viewIn_update, if_pos rfl] at hl
    rw [TableAction.onViews, viewIn_update, if_neg (by simp), viewIn_update, if_neg (by simp)] at hr
    have hl' : viewOf (s.lht w) key * viewOf (s.hyperTable w) key = l := by
      rw [← Pi.mul_apply, ← viewOf_mergeTwoHts, viewOf]
      exact congrArg (fun view => view.getD 1) hl
    have hr' : viewOf (s.rht w) key = .of none * rest := viewOf_of_viewIn hr
    have he : total key = a key * l * (.of none * (rest * b key)) := by
      rw [htables, hl', hr']
      simp only [mul_assoc]
    exact (hone key).one he

omit [Monoid V] in
theorem TableSteps.words (hi : SchedInv s) (hv : ViewInv total s value)
    (hone : ∀ key, OneMark (total key))
    (hcodes : ∀ f, (s.code f).Updates fun key u => key ∈ R.keys ∧ ∃ v, u = .of (some v))
    {hs : SchedStep s s'} {actions : List (TableAction (UpdateWord V))}
    (h : TableSteps hs actions) : TableAction.WordsAll R s.tableAt actions := by
  cases h with
  | @update w t f below reducer u rest newView base hw hstack hcode =>
    have hf := hcodes f
    rw [hcode] at hf
    exact ⟨hf.1, trivial⟩
  | doReductions hw | doReductionsForReturn hw =>
    exact words_doReductions hi hv hone (by rw [hw]; rfl)
  | suspendAtSync | passSync | returnChild => exact ⟨trivial, trivial⟩
  | takeTables => exact ⟨trivial, trivial, trivial⟩
  | resumeParent => exact ⟨trivial, trivial, trivial, trivial⟩
  | exitRoot =>
    split_ifs
    · trivial
    · exact ⟨trivial, trivial⟩
  | _ => trivial

/-- One section of the scheduler, with its tables in memory. -/
def RegionStep (cfg : HashConfig) (R : Reducers) (initial : Key → V)
    (p q : Runtime Key (UpdateWord V) × ReducerTables V) : Prop :=
  ∃ (hs : SchedStep p.1 q.1) (actions : List (TableAction (UpdateWord V))), TableSteps hs actions ∧
    TableAction.FreshAll cfg R initial p.2 actions ∧
      p.2.actAll cfg R (actions.map (TableAction.eval initial)) = some q.2

/-- The region starts with the registered reducers in the table of worker 0. -/
def regionStart (keys : List Key) (code : Code Key V) : Runtime Key (UpdateWord V) :=
  initialRuntime code.letters (registeredTable keys fun _ => .of none)

theorem viewIn_registered {U : Type} (f : Key → U) (slot : TableSlot) (key : Key) :
    viewIn (registeredViews keys f) slot key =
      if slot = .hyperTable 0 ∧ key ∈ keys then some (f key) else none := by
  rw [registeredViews, viewIn_update, registeredTable]
  by_cases hs : slot = .hyperTable 0
  · rw [if_pos hs]
    by_cases hk : keys = []
    · simp [hk]
    · by_cases hkey : key ∈ keys <;> simp [hk, hkey, hs]
  · rw [if_neg hs, if_neg fun h => hs h.1]
    rfl

omit [Monoid V] in
theorem tableAt_start : (regionStart keys code).tableAt =
    registeredViews keys (fun _ => (.of none : UpdateWord V)) := by
  funext slot
  cases slot with
  | hyperTable w =>
    by_cases hw : w = 0
    · subst hw
      rfl
    · have hslot : TableSlot.hyperTable w ≠ .hyperTable 0 :=
        fun h => hw (TableSlot.hyperTable.inj h)
      rw [registeredViews, Function.update_of_ne hslot]
      exact if_neg hw
  | lht w | rht w => rfl
  | rightHt c | childHt c | userHt c => exact ite_self _

theorem tracks_start (hx : TablesInv cfg R (· ∈ keys) x)
    (hviews : x.views cfg = registeredViews keys initial) (hmemory : x.heap.Below (2^64)) :
    Tracks cfg R keys initial (regionStart keys code).tableAt x := by
  rw [tableAt_start]
  have hmap : registeredViews keys initial = fun slot =>
      (registeredViews keys (fun _ => (.of none : UpdateWord V)) slot).map (evalViews initial) := by
    funext slot
    by_cases hs : slot = .hyperTable 0
    · rw [registeredViews, registeredViews, hs, Function.update_self, Function.update_self,
        registeredTable, registeredTable]
      by_cases hk : keys = []
      · rw [if_pos hk, if_pos hk]
        rfl
      · rw [if_neg hk, if_neg hk, Option.map_some, Option.some.injEq]
        funext key
        by_cases hkey : key ∈ keys <;> simp [evalViews, hkey, wordValue]
    · rw [registeredViews, registeredViews, Function.update_of_ne hs, Function.update_of_ne hs]
      rfl
  refine ⟨hx, hviews.trans hmap, fun slot key word hw => ?_, fun slot key hd => ?_,
    ⟨_, hmemory⟩⟩
  · rw [viewIn_registered] at hw
    split_ifs at hw with h
    exact Option.some.inj hw ▸ FreeMonoid.of_ne_one _
  · obtain ⟨v, hv⟩ := hx.views.alive slot key _ hd
    have hbinding : bindingsOf cfg (x.table slot) key = some ((R.kind key).leftmost key) := hd
    have hview := viewIn_views cfg x slot key
    rw [hviews, viewIn_registered, ReducerTables.viewsIn, hbinding, Option.bind_some, hv] at hview
    split_ifs at hview with h
    exact ⟨1, by rw [viewIn_registered, if_pos h, mul_one]⟩

omit [Monoid V] in
theorem viewOf_registered (keys : List Key) (key : Key) :
    viewOf (registeredTable keys fun _ => (.of none : UpdateWord V)) key =
      if key ∈ keys then .of none else 1 := by
  calc
    _ = viewOf (registeredViews keys (fun _ => (.of none : UpdateWord V)) (.hyperTable 0)) key := by
      rw [registeredViews, Function.update_self]
    _ = _ := by
      rw [viewOf_viewIn, viewIn_registered]
      by_cases hkey : key ∈ keys <;> simp [hkey]

omit [Monoid V] in
/-- What the user put in comes first in the serial order. -/
theorem oneMark_total (keys : List Key) (code : Code Key V) (key : Key) :
    OneMark ((viewOf (registeredTable keys fun _ => (.of none : UpdateWord V)) * code.letters.word)
      key) := by
  have hletters := code.none_notMem_letters key
  rw [Pi.mul_apply, viewOf_registered]
  split_ifs
  · exact oneMark_mark hletters
  · rw [one_mul]
    exact oneMark_of_notMem hletters

/-- The tables follow the scheduler, whose strands run pieces of the computation. -/
structure RegionInv (cfg : HashConfig) (R : Reducers) (keys : List Key) (initial : Key → V)
    (p : Runtime Key (UpdateWord V) × ReducerTables V) : Prop where
  tracks : Tracks cfg R keys initial p.1.tableAt p.2
  codes : ∀ f, (p.1.code f).Updates fun key u => key ∈ R.keys ∧ ∃ v, u = .of (some v)

/-- No section fails. The serial order tells which views it merges. -/
theorem RegionInv.acts (hi : RegionInv cfg R keys initial (s, x))
    (hrun : Reaches SchedStep (regionStart keys code) s)
    (hregistered : ∀ key ∈ R.keys, key ∈ keys) {hs : SchedStep s s'}
    {actions : List (TableAction (UpdateWord V))} (h : TableSteps hs actions)
    (hfresh : TableAction.FreshAll cfg R initial x actions) :
    ∃ y, x.actAll cfg R (actions.map (TableAction.eval initial)) = some y ∧
      RegionInv cfg R keys initial (s', y) := by
  have hsched := schedInv_reachable hrun
  rcases viewInv_reachable hrun with ⟨value, hv⟩ | ⟨⟨w, c, hw⟩, -⟩
  · obtain ⟨htables, hclear⟩ := h.tableAt hsched hv
    have hwords := h.words hsched hv (oneMark_total keys code) hi.codes
    obtain ⟨y, hact, hy⟩ := hi.tracks.actAll hregistered hclear hwords hfresh
    exact ⟨y, hact, htables ▸ hy, hs.updates hi.codes⟩
  · exact (hsched.ends hw hs).elim

/-- The tables can follow every section of the scheduler. -/
theorem RegionInv.follows (hi : RegionInv cfg R keys initial (s, x))
    (hrun : Reaches SchedStep (regionStart keys code) s)
    (hregistered : ∀ key ∈ R.keys, key ∈ keys) (hs : SchedStep s s') :
    ∃ y, RegionStep cfg R initial (s, x) (s', y) := by
  obtain ⟨n, hn⟩ := hi.tracks.memory
  have hsteps : ∃ actions : List (TableAction (UpdateWord V)), TableSteps hs actions ∧
      TableAction.FreshAll cfg R initial x actions := by
    obtain ⟨actions, h, ⟨slot, key, u, rfl⟩ | hnone⟩ := TableSteps.total hs (n+1) (n+1)
    · exact ⟨_, h, hn.fresh (R.kind key), fun _ _ => trivial⟩
    · exact ⟨_, h, freshAll_of_not hnone x⟩
  obtain ⟨actions, h, hfresh⟩ := hsteps
  obtain ⟨y, hact, -⟩ := hi.acts hrun hregistered h hfresh
  exact ⟨y, hs, actions, h, hfresh, hact⟩

theorem regionInv_reachable (hregistered : ∀ key ∈ R.keys, key ∈ keys)
    (hcode : code.Updates fun key _ => key ∈ R.keys) (hx : TablesInv cfg R (· ∈ keys) x)
    (hviews : x.views cfg = registeredViews keys initial) (hmemory : x.heap.Below (2^64))
    {p : Runtime Key (UpdateWord V) × ReducerTables V}
    (hrun : Reaches (RegionStep cfg R initial) (regionStart keys code, x) p) :
    Reaches SchedStep (regionStart keys code) p.1 ∧ RegionInv cfg R keys initial p := by
  induction hrun with
  | refl =>
    exact ⟨Relation.ReflTransGen.refl, tracks_start hx hviews hmemory,
      fun _ => Code.updates_letters hcode⟩
  | @tail p q _ hstep ih =>
    obtain ⟨hs, actions, h, hfresh, hact⟩ := hstep
    obtain ⟨y, hact', hy⟩ := ih.2.acts ih.1 hregistered h hfresh
    obtain rfl := Option.some.inj (hact'.symm.trans hact)
    exact ⟨ih.1.tail hs, hy⟩

/-- The tables can follow the scheduler to the end of the region. -/
theorem RegionInv.follows_run (hregistered : ∀ key ∈ R.keys, key ∈ keys)
    (hrest : Reaches SchedStep s s') (hrun : Reaches SchedStep (regionStart keys code) s)
    (hi : RegionInv cfg R keys initial (s, x)) :
    ∃ y, Reaches (RegionStep cfg R initial) (s, x) (s', y) ∧
      RegionInv cfg R keys initial (s', y) := by
  induction hrest with
  | refl => exact ⟨x, Relation.ReflTransGen.refl, hi⟩
  | @tail t u hst hs ih =>
    obtain ⟨y, hy, hiy⟩ := ih
    obtain ⟨z, hs', actions, h, hfresh, hact⟩ := hiy.follows (hrun.trans hst) hregistered hs
    obtain ⟨z', hact', hiz⟩ := hiy.acts (hrun.trans hst) hregistered h hfresh
    obtain rfl := Option.some.inj (hact'.symm.trans hact)
    exact ⟨z', hy.tail ⟨hs', actions, h, hfresh, hact⟩, hiz⟩

/-- The region can be run to its end. -/
theorem RegionInv.ends (hi : RegionInv cfg R keys initial (s, x))
    (hregistered : ∀ key ∈ R.keys, key ∈ keys)
    (hrun : Reaches SchedStep (regionStart keys code) s) :
    ∃ s' y, Reaches (RegionStep cfg R initial) (s, x) (s', y) ∧
      ∃ w c, s'.phase w = .exited c := by
  obtain ⟨s', hrest, hstuck⟩ := stuck_reachable hrun
  obtain ⟨y, hy, -⟩ := hi.follows_run hregistered hrest hrun
  exact ⟨s', y, hy, exited_of_stuck (hrun.trans hrest) hstuck⟩

omit [Monoid V] in
theorem Runtime.Drained.tableAt (hd : s.Drained) {slot : TableSlot}
    (hslot : slot ≠ .hyperTable 0) : s.tableAt slot = none := by
  have hdead : ∀ c (t : Option (ViewMap Key (UpdateWord V))), (s.live c → c = 0 → t = none) →
      (if s.live c then t else none) = none := by
    intro c t h
    by_cases hc : s.live c
    · rw [if_pos hc]
      exact h hc (hd.closures c hc)
    · exact if_neg hc
  cases slot with
  | hyperTable w => exact hd.others w fun h => hslot (h ▸ rfl)
  | lht w => exact (hd.merged w).1
  | rht w => exact (hd.merged w).2
  | rightHt c => exact hdead c _ fun _ h => h ▸ hd.deposited.2.1
  | childHt c => exact hdead c _ fun _ h => h ▸ hd.deposited.1
  | userHt c => exact hdead c _ fun _ h => h ▸ hd.deposited.2.2

/-- When the region has ended, worker 0 has the only table. -/
theorem Tracks.only_root (h : Tracks cfg R keys initial s.tableAt x) (hd : s.Drained)
    {slot : TableSlot} {key : Key} {d : ReducerData} (hb : x.bindings cfg slot key = some d) :
    slot = .hyperTable 0 := by
  by_contra hslot
  obtain ⟨word, hword, -⟩ := h.bound hb
  rw [viewIn, hd.tableAt hslot] at hword
  cases hword

/-- Of the reducers only the registered ones are left, with the views of the user. -/
theorem RegionInv.remains (hi : RegionInv cfg R keys initial (s, x)) (hd : s.Drained)
    (hregistered : ∀ key ∈ R.keys, key ∈ keys) (key : Key) : x.bindings cfg (.hyperTable 0) key =
      if key ∈ keys then some ((R.kind key).leftmost key) else none := by
  have hx := hi.tracks.inv.views
  split_ifs with hkey
  · obtain ⟨slot, hslot⟩ := hx.users key hkey
    exact hi.tracks.only_root hd hslot ▸ hslot
  · by_contra hne
    exact hkey (hregistered key (hx.keys _ key hne))

/-- The object of the user has the value of the serial execution. -/
theorem RegionInv.exit (hi : RegionInv cfg R keys initial (s, x))
    (hrun : Reaches SchedStep (regionStart keys code) s)
    (hregistered : ∀ key ∈ R.keys, key ∈ keys) (hexited : ∃ w c, s.phase w = .exited c) :
    (∀ key ∈ keys, x.heap.value key.toNat = some (code.serial initial key)) ∧
      ∀ a, x.heap.block a = false := by
  have hd := drained_reachable hrun hexited
  have hserial := views_reachable hrun hexited
  constructor
  · intro key hkey
    obtain ⟨slot, hslot⟩ := hi.tracks.inv.views.users key hkey
    obtain rfl := hi.tracks.only_root hd hslot
    obtain ⟨word, hword, hvalue⟩ := hi.tracks.bound hslot
    rw [leftmost_object] at hvalue
    have htotal : word = .of none * code.letters.word key := by
      rw [← viewOf_of_viewIn hword]
      calc
        _ = _ := congrFun hserial key
        _ = _ := by rw [Pi.mul_apply, viewOf_registered, if_pos hkey]
    rw [hvalue, htotal, map_mul, Code.eval_letters, Code.serial_eq_word, Pi.mul_apply]
    simp [wordValue]
  · intro a
    by_contra ha
    have hx := hi.tracks.inv.views
    obtain ⟨slot, key, d, hb, rfl⟩ := hx.covered a (by simpa using ha)
    have hkey := hregistered key (hx.keys slot key (by rw [hb]; exact Option.some_ne_none _))
    obtain ⟨slot', hslot⟩ := hx.users key hkey
    obtain rfl := hi.tracks.only_root hd hb
    obtain rfl := hi.tracks.only_root hd hslot
    obtain rfl := Option.some.inj (hb.symm.trans hslot)
    exact ha (hx.user _ key hkey hslot)

/-- A region and its reducers, down to the views in memory: no section of the scheduler fails,
nothing is leaked, the region can always be run to its end, and when it has ended the objects of the
user have the values of the serial execution and all other views are gone. -/
theorem region_reducers (cfg : HashConfig) (R : Reducers) (keys : List Key) (initial : Key → V)
    (code : Code Key V) (hkeys : ∀ key, key ∈ keys ↔ key ∈ R.keys)
    (hcode : code.Updates fun key _ => key ∈ R.keys) :
    ∃ x₀, registerTables cfg R keys initial = some x₀ ∧
      ∀ s x, Reaches (RegionStep cfg R initial) (regionStart keys code, x₀) (s, x) →
        x.Accounted cfg R keys ∧
        (∀ s' (hs : SchedStep s s') actions, TableSteps hs actions →
          TableAction.FreshAll cfg R initial x actions →
            ∃ y, x.actAll cfg R (actions.map (TableAction.eval initial)) = some y) ∧
        (∃ s' y, Reaches (RegionStep cfg R initial) (s, x) (s', y) ∧
          ∃ w c, s'.phase w = .exited c) ∧
        ((∃ w c, s.phase w = .exited c) →
          (∀ key ∈ keys, x.heap.value key.toNat = some (code.serial initial key)) ∧
            ∀ a, x.heap.block a = false) := by
  obtain ⟨x₀, he, hx₀, hviews, hmemory⟩ :=
    registerTables_spec cfg initial fun key hk => (hkeys key).mp hk
  refine ⟨x₀, he, fun s x hrun => ?_⟩
  have hregistered : ∀ key ∈ R.keys, key ∈ keys := fun key hk => (hkeys key).mpr hk
  obtain ⟨hsched, hi⟩ := regionInv_reachable hregistered hcode hx₀ hviews hmemory hrun
  refine ⟨hi.tracks.inv.accounted, fun s' hs actions h hfresh => ?_, ?_,
    hi.exit hsched hregistered⟩
  · obtain ⟨y, hact, -⟩ := hi.acts hsched hregistered h hfresh
    exact ⟨y, hact⟩
  · exact hi.ends hregistered hsched

/-- Two strands update a reducer in parallel. -/
def twoStrands : Code Key (FreeMonoid Bool) :=
  .spawn (.update 15#64 (.of true) .done) (.update 15#64 (.of false) (.sync .done))

/-- The region comes to its end, and the object of the user has both updates in serial order. -/
theorem region_reducers_two : ∃ x₀, registerTables headerConfig sampleReducers [15#64, 35#64]
      (fun _ => (1 : FreeMonoid Bool)) = some x₀ ∧
    ∃ s x, Reaches (RegionStep headerConfig sampleReducers fun _ => 1)
        (regionStart [15#64, 35#64] twoStrands, x₀) (s, x) ∧ (∃ w c, s.phase w = .exited c) ∧
      x.heap.value 15 = some (.of true * .of false) := by
  obtain ⟨x₀, he, hrun⟩ := region_reducers headerConfig sampleReducers [15#64, 35#64]
    (fun _ => (1 : FreeMonoid Bool)) twoStrands (by simp [sampleReducers])
    (by simp [twoStrands, Code.Updates, sampleReducers])
  obtain ⟨s, x, hreach, hexited⟩ := (hrun _ _ Relation.ReflTransGen.refl).2.2.1
  exact ⟨x₀, he, s, x, hreach, hexited,
    ((hrun s x hreach).2.2.2 hexited).1 15#64 (by simp)⟩

/-- After the region the reducers can be unregistered, in any order and also more than once: no
removal fails, and the table of worker 0 has exactly the reducers that are still registered, with
the views of the user. -/
theorem reducers_unregister (cfg : HashConfig) (R : Reducers) (keys : List Key) (initial : Key → V)
    (code : Code Key V) (hkeys : ∀ key, key ∈ keys ↔ key ∈ R.keys)
    (hcode : code.Updates fun key _ => key ∈ R.keys) :
    ∃ x₀, registerTables cfg R keys initial = some x₀ ∧
      ∀ s x, Reaches (RegionStep cfg R initial) (regionStart keys code, x₀) (s, x) →
        (∃ w c, s.phase w = .exited c) → ∀ order : List Key, (∀ key ∈ order, isValid key = true) →
          ∃ t, unregisterAll cfg order (x.table (.hyperTable 0)) = some t ∧
            BehavesAs cfg (getLocalHyperTable cfg t) fun key =>
              if key ∈ order then none
              else if key ∈ keys then some ((R.kind key).leftmost key) else none := by
  obtain ⟨x₀, he, hx₀, hviews, hmemory⟩ :=
    registerTables_spec cfg initial fun key hk => (hkeys key).mp hk
  refine ⟨x₀, he, fun s x hrun hexited order hvalid => ?_⟩
  have hregistered : ∀ key ∈ R.keys, key ∈ keys := fun key hk => (hkeys key).mpr hk
  obtain ⟨hsched, hi⟩ := regionInv_reachable hregistered hcode hx₀ hviews hmemory hrun
  have hd := drained_reachable hsched hexited
  have ht := (hi.tracks.inv.sound (.hyperTable 0)).getLocal
  obtain ⟨t, ht', hb⟩ := unregisterAll_spec ht.toTableInv ht.represents hvalid
  refine ⟨t, ht', ?_⟩
  have hremains : bindingsOf cfg (x.table (.hyperTable 0)) = fun key =>
      if key ∈ keys then some ((R.kind key).leftmost key) else none :=
    funext (hi.remains hd hregistered)
  rw [hremains] at hb
  exact hb

/-- Two strands have updated one of two reducers, and this one is unregistered. -/
theorem reducers_unregister_two : ∃ x₀, registerTables headerConfig sampleReducers [15#64, 35#64]
      (fun _ => (1 : FreeMonoid Bool)) = some x₀ ∧
    ∃ s x t, Reaches (RegionStep headerConfig sampleReducers fun _ => 1)
        (regionStart [15#64, 35#64] twoStrands, x₀) (s, x) ∧
      unregisterAll headerConfig [15#64] (x.table (.hyperTable 0)) = some t ∧
      BehavesAs headerConfig (getLocalHyperTable headerConfig t) fun key =>
        if key ∈ [15#64] then none
        else if key ∈ [15#64, 35#64] then some ((sampleReducers.kind key).leftmost key)
        else none := by
  have hkeys : ∀ key, key ∈ [15#64, 35#64] ↔ key ∈ sampleReducers.keys := by
    simp [sampleReducers]
  have hcode : twoStrands.Updates fun key _ => key ∈ sampleReducers.keys := by
    simp [twoStrands, Code.Updates, sampleReducers]
  obtain ⟨x₀, he, hx₀, hviews, hmemory⟩ := registerTables_spec headerConfig
    (fun _ => (1 : FreeMonoid Bool)) fun key hk => (hkeys key).mp hk
  have hregistered : ∀ key ∈ sampleReducers.keys, key ∈ [15#64, 35#64] :=
    fun key hk => (hkeys key).mpr hk
  obtain ⟨hsched, hi⟩ :=
    regionInv_reachable hregistered hcode hx₀ hviews hmemory Relation.ReflTransGen.refl
  obtain ⟨s, x, hrun, hexited⟩ := hi.ends hregistered hsched
  obtain ⟨x₁, he', hall⟩ := reducers_unregister headerConfig sampleReducers [15#64, 35#64]
    (fun _ => (1 : FreeMonoid Bool)) twoStrands hkeys hcode
  obtain rfl := Option.some.inj (he.symm.trans he')
  obtain ⟨t, ht, hb⟩ := hall s x hrun hexited [15#64] (by simp; decide)
  exact ⟨x₀, he, s, x, t, hrun, ht, hb⟩

end Heap

end Cheetah
