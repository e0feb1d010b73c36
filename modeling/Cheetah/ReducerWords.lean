import Cheetah.ReducerSteps

/-! The tables in memory and the lists of the updates that their views are made of. The scheduler
runs on the lists; the memory follows it. -/
namespace Cheetah
open Function (update)

/-- The updates of a view in their order. `none` stands for what the user put into it before the
region. -/
abbrev UpdateWord (V : Type) := FreeMonoid (Option V)

section Words

variable {V : Type} [Monoid V]

/-- The value of a view that is made of these updates. -/
def wordValue (initial : V) : UpdateWord V →* V := FreeMonoid.lift fun u => u.getD initial

/-- The values of the views of a table. -/
def evalViews (initial : Key → V) (views : ViewMap Key (UpdateWord V)) : ViewMap Key V :=
  fun key => (views key).map (wordValue (initial key))

def TableAction.eval (initial : Key → V) : TableAction (UpdateWord V) → TableAction V
  | .update slot key newView base u => .update slot key newView base (wordValue (initial key) u)
  | .move source target => .move source target
  | .merge left right => .merge left right

/-- The computation whose updates are single letters. -/
def Code.letters {κ V : Type} : Code κ V → Code κ (UpdateWord V)
  | .done => .done
  | .update reducer u rest => .update reducer (.of (some u)) rest.letters
  | .spawn child rest => .spawn child.letters rest.letters
  | .call callee rest => .call callee.letters rest.letters
  | .sync rest => .sync rest.letters

/-- All updates of the computation satisfy `P`. -/
def Code.Updates {κ V : Type} (P : κ → V → Prop) : Code κ V → Prop
  | .done => True
  | .update reducer u rest => P reducer u ∧ rest.Updates P
  | .spawn child rest => child.Updates P ∧ rest.Updates P
  | .call callee rest => callee.Updates P ∧ rest.Updates P
  | .sync rest => rest.Updates P

/-- What the user put into the view comes first. -/
def OneMark {V : Type} (word : UpdateWord V) : Prop := ∀ a b, word = a * .of none * b → a = 1

omit [Monoid V] in
theorem Code.updates_letters {P : Key → Prop} {code : Code Key V}
    (h : code.Updates fun key _ => P key) :
    code.letters.Updates fun key u => P key ∧ ∃ v, u = .of (some v) := by
  induction code with
  | done => trivial
  | update reducer u rest ih => exact ⟨⟨h.1, u, rfl⟩, ih h.2⟩
  | spawn child rest ihc ihr | call child rest ihc ihr => exact ⟨ihc h.1, ihr h.2⟩
  | sync rest ih => exact ih h

omit [Monoid V] in
/-- The updates of the strands do not look like what the user put in. -/
theorem Code.none_notMem_letters (code : Code Key V) (key : Key) :
    none ∉ (code.letters.word key).toList := by
  induction code with
  | done => exact List.not_mem_nil
  | update reducer u rest ih =>
    have hword : (Code.update reducer u rest).letters.word key =
        (Pi.mulSingle reducer (.of (some u)) : Key → UpdateWord V) key *
          rest.letters.word key := rfl
    rw [hword, FreeMonoid.toList_mul, List.mem_append]
    rintro (h | h)
    · by_cases hk : key = reducer
      · subst hk
        rw [Pi.mulSingle_eq_same] at h
        simp at h
      · rw [Pi.mulSingle_eq_of_ne hk] at h
        cases h
    · exact ih h
  | spawn child rest ihc ihr | call child rest ihc ihr =>
    intro h
    rcases List.mem_append.mp h with h | h
    · exact ihc h
    · exact ihr h
  | sync rest ih => exact ih

theorem Code.eval_letters (code : Code Key V) (initial : V) (key : Key) :
    wordValue initial (code.letters.word key) = code.word key := by
  induction code with
  | done => exact map_one _
  | update reducer u rest ih =>
    have hword : (Code.update reducer u rest).letters.word key =
        (Pi.mulSingle reducer (.of (some u)) : Key → UpdateWord V) key *
          rest.letters.word key := rfl
    have hword' : (Code.update reducer u rest).word key =
        (Pi.mulSingle reducer u : Key → V) key * rest.word key := rfl
    rw [hword, hword', map_mul, ih]
    congr 1
    by_cases hk : key = reducer
    · subst hk
      rw [Pi.mulSingle_eq_same, Pi.mulSingle_eq_same]
      simp [wordValue]
    · rw [Pi.mulSingle_eq_of_ne hk, Pi.mulSingle_eq_of_ne hk, map_one]
  | spawn child rest ihc ihr | call child rest ihc ihr =>
    simp only [Code.letters, Code.word, Pi.mul_apply, map_mul, ihc, ihr]
  | sync rest ih => exact ih

omit [Monoid V] in
theorem oneMark_of_notMem {word : UpdateWord V} (h : none ∉ word.toList) : OneMark word := by
  rintro a b rfl
  exact absurd (by simp) h

omit [Monoid V] in
theorem oneMark_mark {word : UpdateWord V} (h : none ∉ word.toList) :
    OneMark (.of none * word) := by
  intro a b he
  by_contra hne
  have hlists := congrArg FreeMonoid.toList he
  simp only [FreeMonoid.toList_mul, FreeMonoid.toList_of] at hlists
  cases ha : a.toList with
  | nil => exact hne (FreeMonoid.toList.injective ha)
  | cons o rest =>
    rw [ha] at hlists
    simp only [List.cons_append, List.nil_append, List.cons.injEq] at hlists
    exact h (hlists.2 ▸ by simp)

omit [Monoid V] in
theorem OneMark.one {word a b c : UpdateWord V} (h : OneMark word)
    (he : word = a * b * (.of none * c)) : b = 1 := by
  have hab : a * b = 1 := h (a * b) c (by rw [he, mul_assoc (a * b)])
  have hlists := congrArg FreeMonoid.toList hab
  rw [FreeMonoid.toList_mul, FreeMonoid.toList_one] at hlists
  exact FreeMonoid.toList.injective (List.append_eq_nil_iff.mp hlists).2

end Words

section Maps

variable {V : Type} [Monoid V] {initial : Key → V}
  {T : TableSlot → Option (ViewMap Key (UpdateWord V))}

/-- The view in a slot. -/
def viewIn {W : Type} (T : TableSlot → Option (ViewMap Key W)) (slot : TableSlot) (key : Key) :
    Option W :=
  (T slot).bind fun views => views key

theorem viewOf_viewIn {W : Type} [Monoid W] (T : TableSlot → Option (ViewMap Key W))
    (slot : TableSlot) (key : Key) : viewOf (T slot) key = (viewIn T slot key).getD 1 := rfl

theorem eval_viewOf (t : Option (ViewMap Key (UpdateWord V))) (key : Key) :
    viewOf (t.map (evalViews initial)) key = wordValue (initial key) (viewOf t key) := by
  cases t with
  | none => exact (map_one _).symm
  | some views =>
    cases h : views key with
    | none => simp [viewOf, evalViews, h]
    | some word => simp [viewOf, evalViews, h]

/-- The values follow the words. -/
theorem eval_onViews (action : TableAction (UpdateWord V)) :
    (fun slot => (action.onViews T slot).map (evalViews initial)) =
      (action.eval initial).onViews fun slot => (T slot).map (evalViews initial) := by
  have hupdate : ∀ (T : TableSlot → Option (ViewMap Key (UpdateWord V))) slot t,
      (fun slot' => (update T slot t slot').map (evalViews initial)) =
        update (fun slot' => (T slot').map (evalViews initial)) slot (t.map (evalViews initial)) :=
    fun T slot t => Function.comp_update (Option.map (evalViews initial)) T slot t
  cases action with
  | update slot key newView base u =>
    rw [TableAction.eval, TableAction.onViews, TableAction.onViews, hupdate]
    congr 1
    rw [updateView, updateView, Option.map_some, eval_viewOf, ← map_mul]
    congr 1
    funext key'
    by_cases hk : key' = key
    · rw [hk, Function.update_self, evalViews, Function.update_self]
      rfl
    · rw [Function.update_of_ne hk, evalViews, Function.update_of_ne hk]
      cases T slot <;> rfl
  | move source target =>
    rw [TableAction.eval, TableAction.onViews, TableAction.onViews, hupdate, hupdate]
    rfl
  | merge left right =>
    rw [TableAction.eval, TableAction.onViews, TableAction.onViews, hupdate, hupdate]
    congr 2
    cases hl : T left with
    | none => rfl
    | some l =>
      cases hr : T right with
      | none => rfl
      | some r =>
        refine congrArg some (funext fun key => ?_)
        cases hlk : l key <;> cases hrk : r key <;> simp [evalViews, hlk, hrk]

end Maps

section Tracks

variable {V : Type} [Monoid V] {cfg : HashConfig} {R : Reducers} {keys : List Key}
  {initial : Key → V} {T : TableSlot → Option (ViewMap Key (UpdateWord V))} {x y : ReducerTables V}
  {slot left right : TableSlot} {key : Key} {d : ReducerData} {word : UpdateWord V}
  {action : TableAction (UpdateWord V)}

theorem viewIn_update {W : Type} (T : TableSlot → Option (ViewMap Key W)) (slot : TableSlot)
    (t : Option (ViewMap Key W)) (slot' : TableSlot) (key : Key) :
    viewIn (update T slot t) slot' key =
      if slot' = slot then t.bind fun views => views key else viewIn T slot' key := by
  by_cases h : slot' = slot
  · rw [if_pos h, viewIn, h, Function.update_self]
  · rw [if_neg h, viewIn, Function.update_of_ne h, viewIn]

theorem updateView_bind {W : Type} [Monoid W] (t : Option (ViewMap Key W)) (key : Key) (u : W)
    (key' : Key) : ((updateView t key u).bind fun views => views key') =
      if key' = key then some (viewOf t key * u) else t.bind fun views => views key' := by
  rw [updateView, Option.bind_some]
  by_cases hk : key' = key
  · rw [if_pos hk, hk, Function.update_self]
  · rw [if_neg hk, Function.update_of_ne hk]
    cases t <;> rfl

theorem mergeTwoHts_bind {W : Type} [Monoid W] (l r : Option (ViewMap Key W)) (key : Key) :
    ((mergeTwoHts l r).bind fun views => views key) =
      match l.bind fun views => views key, r.bind fun views => views key with
      | none, view => view
      | some view, none => some view
      | some a, some b => some (a * b) := by
  cases l with
  | none => rfl
  | some l =>
    cases r with
    | none =>
      simp only [mergeTwoHts, Option.bind_some, Option.bind_none]
      cases l key <;> rfl
    | some r => rfl

/-- The tables in memory are those of the scheduler, and the views of the user are those that begin
with what the user put in. -/
structure Tracks (cfg : HashConfig) (R : Reducers) (keys : List Key) (initial : Key → V)
    (T : TableSlot → Option (ViewMap Key (UpdateWord V))) (x : ReducerTables V) : Prop where
  inv : TablesInv cfg R (· ∈ keys) x
  views : x.views cfg = fun slot => (T slot).map (evalViews initial)
  used : ∀ slot key word, viewIn T slot key = some word → word ≠ 1
  users : ∀ slot key, x.bindings cfg slot key = some ((R.kind key).leftmost key) →
    ∃ rest, viewIn T slot key = some (.of none * rest)
  memory : ∃ n, x.heap.Below n

omit [Monoid V] in
theorem viewIn_views (cfg : HashConfig) (x : ReducerTables V) (slot : TableSlot) (key : Key) :
    viewIn (x.views cfg) slot key = ReducerTables.viewsIn cfg x.heap (x.table slot) key := by
  rw [viewIn, ReducerTables.views]
  cases x.table slot <;> rfl

theorem Tracks.viewsIn (h : Tracks cfg R keys initial T x) (slot : TableSlot) (key : Key) :
    ReducerTables.viewsIn cfg x.heap (x.table slot) key =
      (viewIn T slot key).map (wordValue (initial key)) := by
  calc
    _ = (x.views cfg slot).bind fun views => views key := (viewIn_views cfg x slot key).symm
    _ = ((T slot).map (evalViews initial)).bind fun views => views key := by rw [h.views]
    _ = _ := by
      rw [viewIn]
      cases T slot <;> rfl

/-- A bound view has the value of its updates. -/
theorem Tracks.bound (h : Tracks cfg R keys initial T x) (hd : x.bindings cfg slot key = some d) :
    ∃ word, viewIn T slot key = some word ∧
      x.heap.value d.object = some (wordValue (initial key) word) := by
  obtain ⟨v, hv⟩ := h.inv.views.alive slot key d hd
  have hin := h.viewsIn slot key
  have hbinding : bindingsOf cfg (x.table slot) key = some d := hd
  rw [ReducerTables.viewsIn, hbinding, Option.bind_some, hv] at hin
  obtain ⟨word, hword, rfl⟩ := Option.map_eq_some_iff.mp hin.symm
  exact ⟨word, hword, hv⟩

theorem Tracks.binding (h : Tracks cfg R keys initial T x) (hw : viewIn T slot key = some word) :
    ∃ d, x.bindings cfg slot key = some d := by
  have hin := h.viewsIn slot key
  rw [hw, Option.map_some] at hin
  obtain ⟨d, hd, -⟩ := Option.bind_eq_some_iff.mp hin
  exact ⟨d, hd⟩

/-- What is asked of the words: a strand makes one update at a time, and nothing has been made of
the left view if the right one is that of the user. -/
def TableAction.Words (R : Reducers) (T : TableSlot → Option (ViewMap Key (UpdateWord V))) :
    TableAction (UpdateWord V) → Prop
  | .update _ key _ _ u => key ∈ R.keys ∧ ∃ v, u = .of (some v)
  | .move _ _ => True
  | .merge left right => ∀ key l rest, viewIn T left key = some l →
      viewIn T right key = some (.of none * rest) → l = 1

/-- The memory for the view that a lookup may make is fresh. -/
def TableAction.Fresh (R : Reducers) (h : ViewHeap V) : TableAction (UpdateWord V) → Prop
  | .update _ key newView base _ => h.Fresh ((R.kind key).data newView base)
  | .move _ _ | .merge _ _ => True

theorem Tracks.legal (h : Tracks cfg R keys initial T x) (hclear : action.Clear T)
    (hwords : action.Words R T) (hfresh : action.Fresh R x.heap) :
    x.Legal cfg R (action.eval initial) := by
  cases action with
  | update slot key newView base u => exact ⟨hwords.1, hfresh⟩
  | move source target =>
    have hnull := congrFun h.views target
    rw [hclear.2] at hnull
    exact ⟨hclear.1, Option.map_eq_none_iff.mp hnull⟩
  | merge left right =>
    refine ⟨hclear, fun key l r hl hr he => ?_⟩
    obtain ⟨rest, hrest⟩ := h.users right key (he ▸ hr)
    obtain ⟨word, hword, -⟩ := h.bound hl
    exact h.used left key word hword (hwords key word rest hword hrest)

omit [Monoid V] in
theorem mul_ne_one {a b : UpdateWord V} (h : a ≠ 1 ∨ b ≠ 1) : a * b ≠ 1 := by
  intro he
  have hlists := congrArg FreeMonoid.toList he
  rw [FreeMonoid.toList_mul, FreeMonoid.toList_one] at hlists
  obtain ⟨ha, hb⟩ := List.append_eq_nil_iff.mp hlists
  exact h.elim (fun hne => hne (FreeMonoid.toList.injective ha))
    fun hne => hne (FreeMonoid.toList.injective hb)

omit [Monoid V] in
/-- Every view in a table has been used. -/
theorem used_onViews (hused : ∀ slot key word, viewIn T slot key = some word → word ≠ 1)
    (hwords : action.Words R T) (slot : TableSlot) (key : Key) (word : UpdateWord V)
    (hw : viewIn (action.onViews T) slot key = some word) : word ≠ 1 := by
  cases action with
  | update slot' key' newView base u =>
    obtain ⟨-, v, rfl⟩ := hwords
    rw [TableAction.onViews, viewIn_update, updateView_bind] at hw
    split_ifs at hw with hs hk
    · rw [← Option.some.inj hw]
      exact mul_ne_one (.inr (FreeMonoid.of_ne_one _))
    · exact hused slot' key word hw
    · exact hused slot key word hw
  | move source target =>
    rw [TableAction.onViews, viewIn_update, viewIn_update] at hw
    split_ifs at hw with hs hk
    · cases hw
    · exact hused source key word hw
    · exact hused slot key word hw
  | merge left right =>
    rw [TableAction.onViews, viewIn_update, viewIn_update, mergeTwoHts_bind] at hw
    split_ifs at hw with hs hk
    · cases hw
    · cases hl : viewIn T left key with
      | none =>
        rw [← viewIn, hl] at hw
        exact hused right key word hw
      | some l =>
        have hne := hused left key l hl
        cases hr : viewIn T right key with
        | none =>
          rw [← viewIn, ← viewIn, hl, hr] at hw
          exact Option.some.inj hw ▸ hne
        | some r =>
          rw [← viewIn, ← viewIn, hl, hr] at hw
          exact Option.some.inj hw ▸ mul_ne_one (.inl hne)
    · exact hused slot key word hw

/-- The view of the user stays where it is when the strands update theirs. -/
theorem Tracks.users_update (h : Tracks cfg R keys initial T x)
    (hy : TablesInv cfg R (· ∈ keys) y) (hregistered : ∀ key ∈ R.keys, key ∈ keys)
    (hkept : ∀ slot key d, x.bindings cfg slot key = some d → y.bindings cfg slot key = some d)
    (key' : Key) (newView base : Address) (u : UpdateWord V)
    (hd : y.bindings cfg slot key = some ((R.kind key).leftmost key)) :
    ∃ rest, viewIn ((TableAction.update left key' newView base u).onViews T) slot key =
      some (.of none * rest) := by
  have hkey := hregistered key (hy.views.keys slot key (by rw [hd]; exact Option.some_ne_none _))
  obtain ⟨slot₀, h₀⟩ := h.inv.views.users key hkey
  obtain ⟨rfl, -⟩ := hy.views.same_place hd (hkept slot₀ key _ h₀) rfl
  obtain ⟨rest, hrest⟩ := h.users slot key h₀
  rw [TableAction.onViews, viewIn_update, updateView_bind]
  split_ifs with hs hk
  · refine ⟨rest * u, ?_⟩
    rw [viewOf_viewIn, ← hs, ← hk, hrest, Option.getD_some, mul_assoc]
  · rw [← viewIn, ← hs]
    exact ⟨rest, hrest⟩
  · exact ⟨rest, hrest⟩

/-- The view of the user goes with its table. -/
theorem Tracks.users_move (h : Tracks cfg R keys initial T x)
    (hd : (⟨x.heap, update (update x.table right (x.table left)) left none⟩ :
      ReducerTables V).bindings cfg slot key = some ((R.kind key).leftmost key)) :
    ∃ rest, viewIn ((TableAction.move left right).onViews T) slot key =
      some (.of none * rest) := by
  rw [bindings_update, bindings_update] at hd
  rw [TableAction.onViews, viewIn_update, viewIn_update]
  by_cases hl : slot = left
  · rw [hl, Function.update_self] at hd
    cases hd
  · rw [Function.update_of_ne hl] at hd
    rw [if_neg hl]
    by_cases hr : slot = right
    · rw [hr, Function.update_self] at hd
      rw [if_pos hr]
      exact h.users left key hd
    · rw [Function.update_of_ne hr] at hd
      rw [if_neg hr]
      exact h.users slot key hd

/-- Other views are merged into the view of the user. -/
theorem Tracks.users_merge (h : Tracks cfg R keys initial T x)
    (hd : mergedBindings (x.bindings cfg) left right slot key =
      some ((R.kind key).leftmost key)) :
    ∃ rest, viewIn ((TableAction.merge left right).onViews T) slot key =
      some (.of none * rest) := by
  obtain ⟨hr, slot₀, h₀, hkeep, hs⟩ := mergedBindings_from hd
  obtain ⟨rest, hrest⟩ := h.users slot₀ key h₀
  rw [TableAction.onViews, viewIn_update, viewIn_update, if_neg hr, mergeTwoHts_bind, ← viewIn,
    ← viewIn]
  rcases hs with rfl | ⟨rfl, rfl⟩
  · by_cases hl : slot₀ = left
    · rw [if_pos hl, ← hl, hrest]
      cases viewIn T right key with
      | none => exact ⟨rest, rfl⟩
      | some word => exact ⟨rest * word, congrArg some (mul_assoc _ _ _)⟩
    · exact ⟨rest, by rw [if_neg hl, hrest]⟩
  · have hnone : viewIn T slot key = none := by
      by_contra hne
      obtain ⟨word, hword⟩ := Option.ne_none_iff_exists'.mp hne
      obtain ⟨l, hl⟩ := h.binding hword
      exact hkeep ⟨rfl, l, hl⟩
    rw [if_pos rfl, hnone]
    exact ⟨rest, hrest⟩

/-- The tables in memory follow those of the scheduler. -/
theorem Tracks.act (h : Tracks cfg R keys initial T x) (hregistered : ∀ key ∈ R.keys, key ∈ keys)
    (hclear : action.Clear T) (hwords : action.Words R T) (hfresh : action.Fresh R x.heap) :
    ∃ y, x.act cfg R (action.eval initial) = some y ∧
      Tracks cfg R keys initial (action.onViews T) y := by
  have hlegal := h.legal hclear hwords hfresh
  obtain ⟨y, hact, hy, hviews⟩ := h.inv.act hlegal
  refine ⟨y, hact, hy, ?_, used_onViews h.used hwords, fun slot key hd => ?_,
    h.inv.act_below hlegal hact hy h.memory⟩
  · rw [hviews, h.views, eval_onViews]
  · cases action with
    | update slot' key' newView base u =>
      obtain ⟨y', hact', -, -, hkept, -⟩ := h.inv.update slot' hlegal.1 hlegal.2
        (wordValue (initial key') u)
      obtain rfl := Option.some.inj (hact'.symm.trans hact)
      exact h.users_update hy hregistered hkept key' newView base u hd
    | move source target =>
      obtain rfl := Option.some.inj hact
      exact h.users_move hd
    | merge left right =>
      obtain ⟨y', hact', -, -, hb⟩ := h.inv.merge hlegal.1 hlegal.2
      obtain rfl := Option.some.inj (hact'.symm.trans hact)
      rw [hb] at hd
      exact h.users_merge hd

/-- One section's actions, one after another. -/
def ReducerTables.actAll (cfg : HashConfig) (R : Reducers) (x : ReducerTables V)
    (actions : List (TableAction V)) : Option (ReducerTables V) :=
  actions.foldlM (ReducerTables.act cfg R) x

def TableAction.WordsAll (R : Reducers) :
    (TableSlot → Option (ViewMap Key (UpdateWord V))) → List (TableAction (UpdateWord V)) → Prop
  | _, [] => True
  | T, action :: rest => action.Words R T ∧ WordsAll R (action.onViews T) rest

/-- Whenever memory is allocated, it is fresh. -/
def TableAction.FreshAll (cfg : HashConfig) (R : Reducers) (initial : Key → V) :
    ReducerTables V → List (TableAction (UpdateWord V)) → Prop
  | _, [] => True
  | x, action :: rest => action.Fresh R x.heap ∧
      ∀ y, x.act cfg R (action.eval initial) = some y → FreshAll cfg R initial y rest

/-- Where nothing is allocated, no memory is asked for. -/
theorem freshAll_of_not {actions : List (TableAction (UpdateWord V))}
    (h : ∀ action ∈ actions, ¬ action.Allocates) (x : ReducerTables V) :
    TableAction.FreshAll cfg R initial x actions := by
  induction actions generalizing x with
  | nil => trivial
  | cons action rest ih =>
    have hrest : ∀ action ∈ rest, ¬ action.Allocates :=
      fun a ha => h a (List.mem_cons_of_mem action ha)
    refine ⟨?_, fun y _ => ih hrest y⟩
    cases action with
    | update => exact absurd trivial (h _ List.mem_cons_self)
    | move | merge => trivial

theorem Tracks.actAll {actions : List (TableAction (UpdateWord V))}
    (h : Tracks cfg R keys initial T x) (hregistered : ∀ key ∈ R.keys, key ∈ keys)
    (hclear : TableAction.ClearAll T actions) (hwords : TableAction.WordsAll R T actions)
    (hfresh : TableAction.FreshAll cfg R initial x actions) :
    ∃ y, x.actAll cfg R (actions.map (TableAction.eval initial)) = some y ∧
      Tracks cfg R keys initial (TableAction.onAll actions T) y := by
  induction actions generalizing T x with
  | nil => exact ⟨x, rfl, h⟩
  | cons action rest ih =>
    obtain ⟨y, hact, hy⟩ := h.act hregistered hclear.1 hwords.1 hfresh.1
    obtain ⟨z, hrest, hz⟩ := ih hy hclear.2 hwords.2 (hfresh.2 y hact)
    refine ⟨z, ?_, hz⟩
    rw [ReducerTables.actAll, List.map_cons, List.foldlM_cons, hact]
    exact hrest

end Tracks

end Cheetah
