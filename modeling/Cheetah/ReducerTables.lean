import Cheetah.ReducerViewsSpec
import Cheetah.Scheduler

/-! The tables of all workers and closures over one memory: who owns a view, and what the tables
mean to the scheduler. -/
namespace Cheetah
open Function (update)

/-- The reducers of a program: each is used through one interface, and twice as many as there are fit
a table of at most `MAX_CAPACITY` buckets. -/
structure Reducers where
  keys : Finset Key
  kind : Key → ReducerKind
  valid : ∀ key ∈ keys, isValid key = true
  few : 2 * keys.card ≤ 15 * 2^23

/-- Where a pointer to a table is kept. -/
inductive TableSlot where
  | hyperTable (w : WorkerId)
  | lht (w : WorkerId)
  | rht (w : WorkerId)
  | rightHt (c : ClosureId)
  | childHt (c : ClosureId)
  | userHt (c : ClosureId)
deriving DecidableEq

structure ReducerTables (V : Type) where
  heap : ViewHeap V
  table : TableSlot → Option (Table ReducerData)

/-- What is done to the tables. -/
inductive TableAction (V : Type) where
  /-- A strand looks up its view of a reducer and appends `u` to it. -/
  | update (slot : TableSlot) (key : Key) (newView base : Address) (u : V)
  /-- A table is handed over. -/
  | move (source target : TableSlot)
  /-- `merge_two_hts` on two tables; the first slot gets the result. -/
  | merge (left right : TableSlot)

namespace ReducerTables

variable {V : Type} [Monoid V]

def bindings {V : Type} (cfg : HashConfig) (x : ReducerTables V) (slot : TableSlot) :
    Bindings ReducerData :=
  bindingsOf cfg (x.table slot)

/-- The view that a table has of a reducer. -/
def viewsIn {V : Type} (cfg : HashConfig) (h : ViewHeap V) (table : Option (Table ReducerData)) :
    ViewMap Key V :=
  fun key => (bindingsOf cfg table key).bind fun d => h.value d.object

/-- What a table means to the scheduler. -/
def views {V : Type} (cfg : HashConfig) (x : ReducerTables V) (slot : TableSlot) :
    Option (ViewMap Key V) :=
  (x.table slot).map fun _ => viewsIn cfg x.heap (x.table slot)

def act (cfg : HashConfig) (R : Reducers) (x : ReducerTables V) :
    TableAction V → Option (ReducerTables V)
  | .update slot key newView base u =>
    ((R.kind key).lookup cfg x.heap (x.table slot) key newView base).bind fun res =>
      (res.2.2.append res.1 u).map fun h => ⟨h, update x.table slot res.2.1⟩
  | .move source target =>
    some ⟨x.heap, update (update x.table target (x.table source)) source none⟩
  | .merge left right =>
    (mergeHtsOnHeap cfg x.heap (x.table left) (x.table right)).map fun res =>
      ⟨res.2, update (update x.table left res.1) right none⟩

/-- What the callers of the runtime promise: memory is fresh, no pointer to a table is overwritten,
and a view of the user is not merged into one that was made for the region. -/
def Legal (cfg : HashConfig) (R : Reducers) (x : ReducerTables V) : TableAction V → Prop
  | .update _ key newView base _ =>
    key ∈ R.keys ∧ x.heap.Fresh ((R.kind key).data newView base)
  | .move source target => source ≠ target ∧ x.table target = none
  | .merge left right => left ≠ right ∧ ∀ key l r, x.bindings cfg left key = some l →
      x.bindings cfg right key = some r → r ≠ (R.kind key).leftmost key

end ReducerTables

/-- The same action on the finite maps of the scheduler. -/
def TableAction.onViews {V : Type} [Monoid V] (views : TableSlot → Option (ViewMap Key V)) :
    TableAction V → TableSlot → Option (ViewMap Key V)
  | .update slot key _ _ u => Function.update views slot (updateView (views slot) key u)
  | .move source target => Function.update (Function.update views target (views source)) source none
  | .merge left right =>
    Function.update (Function.update views left (mergeTwoHts (views left) (views right))) right none

section Ownership

/-- The view at the address gets another value. -/
def ViewHeap.write {V : Type} (h : ViewHeap V) (a : Address) (v : V) : ViewHeap V :=
  { h with value := update h.value a (some v) }

variable {V : Type} {cfg : HashConfig} {R : Reducers} {registered : Key → Prop}
  {h h' : ViewHeap V} {b b' : TableSlot → Bindings ReducerData} {slot left right : TableSlot}
  {key : Key} {d : ReducerData}

/-- Every view that is alive is bound once, and every block belongs to a view. The views of the
user are no blocks of the runtime. -/
structure ViewsInv (R : Reducers) (registered : Key → Prop) (h : ViewHeap V)
    (b : TableSlot → Bindings ReducerData) : Prop where
  keys : ∀ slot key, b slot key ≠ none → key ∈ R.keys
  kind : ∀ slot key d, b slot key = some d → OfKind (R.kind key) d
  alive : ∀ slot key d, b slot key = some d → ∃ v, h.value d.object = some v
  owner : ∀ slot key d, b slot key = some d →
    d = (R.kind key).leftmost key ∨ h.block d.view = true ∧ d.view ≠ 0
  apart : ∀ slot key d slot' key' d', b slot key = some d → b slot' key' = some d' →
    ¬ (slot = slot' ∧ key = key') → Apart d d'
  covered : ∀ a, h.block a = true → ∃ slot key d, b slot key = some d ∧ d.view = a
  bound : ∀ a v, h.value a = some v → ∃ slot key d, b slot key = some d ∧ d.object = a
  users : ∀ key, registered key → ∃ slot, b slot key = some ((R.kind key).leftmost key)
  user : ∀ slot key, registered key → b slot key = some ((R.kind key).leftmost key) →
    h.block ((R.kind key).leftmost key).view = false
  null : h.block 0 = false

theorem leftmost_view (kind : ReducerKind) (key : Key) :
    (kind.leftmost key).view = 0 ∨ (kind.leftmost key).view = (kind.leftmost key).object := by
  cases kind with
  | base => exact .inl rfl
  | reduceFn f | reduceCFn f => exact .inr rfl

/-- Memory that nobody uses does not overlap with the view of anybody. -/
theorem ViewsInv.apart_fresh (hi : ViewsInv R registered h b) (hf : h.Fresh d) {d' : ReducerData}
    (hd' : b slot key = some d') : Apart d d' := by
  obtain ⟨v, hv⟩ := hi.alive slot key d' hd'
  have hobject : ∀ a, h.value a = none → a ≠ d'.object := by
    rintro a ha rfl
    rw [hv] at ha
    cases ha
  have hview : ∀ a, a ≠ 0 → h.value a = none → h.block a = false → a ≠ d'.view := by
    rintro a ha0 ha hb rfl
    rcases hi.owner slot key d' hd' with rfl | ⟨hblock, -⟩
    · rcases leftmost_view (R.kind key) key with h0 | h1
      · exact ha0 h0
      · rw [h1] at ha
        exact hobject _ ha rfl
    · rw [hblock] at hb
      cases hb
  constructor
  case object => exact hobject _ hf.value_object
  case objectView => exact hview _ hf.object_ne hf.value_object hf.block_object
  case viewObject => exact hobject _ hf.value_view
  case view => exact fun he => absurd he (hview _ hf.view_ne hf.value_view hf.block_view)

/-- Two places that bind the same view are one. -/
theorem ViewsInv.same_place (hi : ViewsInv R registered h b) {slot' : TableSlot} {key' : Key}
    {d' : ReducerData} (hd : b slot key = some d) (hd' : b slot' key' = some d')
    (he : d.object = d'.object) : slot = slot' ∧ key = key' := by
  by_contra hne
  exact (hi.apart slot key d slot' key' d' hd hd' hne).object he

/-- A strand writes to a view. -/
theorem ViewsInv.write (hi : ViewsInv R registered h b) (hd : b slot key = some d) (v : V) :
    ViewsInv R registered (h.write d.object v) b := by
  have hsome : ∀ a w, (h.write d.object v).value a = some w → ∃ w', h.value a = some w' := by
    intro a w ha
    by_cases hda : a = d.object
    · rw [hda]
      exact hi.alive slot key d hd
    · exact ⟨w, (Function.update_of_ne hda _ _).symm.trans ha⟩
  refine ⟨hi.keys, hi.kind, fun slot' key' d' hd' => ?_, hi.owner, hi.apart, hi.covered,
    fun a w ha => ?_, hi.users, hi.user, hi.null⟩
  · by_cases hdd : d'.object = d.object
    · exact ⟨v, hdd ▸ Function.update_self _ _ _⟩
    · obtain ⟨w, hw⟩ := hi.alive slot' key' d' hd'
      exact ⟨w, (Function.update_of_ne hdd _ _).trans hw⟩
  · obtain ⟨w', hw'⟩ := hsome a w ha
    exact hi.bound a w' hw'

/-- A new view is put into a table. -/
theorem ViewsInv.construct [Monoid V] (hi : ViewsInv R registered h b) (hnone : b slot key = none)
    (hkey : key ∈ R.keys) (hkind : OfKind (R.kind key) d) (hf : h.Fresh d) :
    ViewsInv R registered (h.construct d) (update b slot (update (b slot) key (some d))) := by
  have hcases : ∀ slot' key' d', update b slot (update (b slot) key (some d)) slot' key' = some d' →
      (slot' = slot ∧ key' = key ∧ d' = d) ∨ b slot' key' = some d' := by
    intro slot' key' d' hd'
    by_cases hslot : slot' = slot
    · subst hslot
      rw [Function.update_self] at hd'
      by_cases hk : key' = key
      · subst hk
        rw [Function.update_self] at hd'
        exact .inl ⟨rfl, rfl, (Option.some.inj hd').symm⟩
      · rw [Function.update_of_ne hk] at hd'
        exact .inr hd'
    · rw [Function.update_of_ne hslot] at hd'
      exact .inr hd'
  have hold : ∀ slot' key' d', b slot' key' = some d' →
      update b slot (update (b slot) key (some d)) slot' key' = some d' := by
    intro slot' key' d' hd'
    by_cases hslot : slot' = slot
    · subst hslot
      rw [Function.update_self]
      by_cases hk : key' = key
      · subst hk
        rw [hnone] at hd'
        cases hd'
      · rw [Function.update_of_ne hk, hd']
    · rw [Function.update_of_ne hslot, hd']
  have hnew : update b slot (update (b slot) key (some d)) slot key = some d := by
    rw [Function.update_self, Function.update_self]
  have hsame : ∀ slot' key' d', b slot' key' = some d' →
      (h.construct d).block d'.view = h.block d'.view := by
    intro slot' key' d' hd'
    apply Function.update_of_ne
    exact fun he => hf.view_ne ((hi.apart_fresh hf hd').view he.symm)
  constructor
  case keys =>
    intro slot' key' hne
    obtain ⟨d', hd'⟩ := Option.ne_none_iff_exists'.mp hne
    rcases hcases slot' key' d' hd' with ⟨-, rfl, -⟩ | hd'
    · exact hkey
    · exact hi.keys slot' key' (by rw [hd']; exact Option.some_ne_none _)
  case kind =>
    intro slot' key' d' hd'
    rcases hcases slot' key' d' hd' with ⟨-, rfl, rfl⟩ | hd'
    · exact hkind
    · exact hi.kind slot' key' d' hd'
  case alive =>
    intro slot' key' d' hd'
    rcases hcases slot' key' d' hd' with ⟨-, -, rfl⟩ | hd'
    · exact ⟨1, Function.update_self _ _ _⟩
    · obtain ⟨v, hv⟩ := hi.alive slot' key' d' hd'
      exact ⟨v, (Function.update_of_ne (hi.apart_fresh hf hd').object.symm _ _).trans hv⟩
  case owner =>
    intro slot' key' d' hd'
    rcases hcases slot' key' d' hd' with ⟨-, -, rfl⟩ | hd'
    · exact .inr ⟨Function.update_self _ _ _, hf.view_ne⟩
    · rw [hsame slot' key' d' hd']
      exact hi.owner slot' key' d' hd'
  case apart =>
    intro s₁ k₁ d₁ s₂ k₂ d₂ h₁ h₂ hne
    rcases hcases s₁ k₁ d₁ h₁ with ⟨hs₁, hk₁, rfl⟩ | hold₁
    · rcases hcases s₂ k₂ d₂ h₂ with ⟨hs₂, hk₂, -⟩ | hold₂
      · exact absurd ⟨hs₁.trans hs₂.symm, hk₁.trans hk₂.symm⟩ hne
      · exact hi.apart_fresh hf hold₂
    · rcases hcases s₂ k₂ d₂ h₂ with ⟨-, -, rfl⟩ | hold₂
      · exact (hi.apart_fresh hf hold₁).symm
      · exact hi.apart s₁ k₁ d₁ s₂ k₂ d₂ hold₁ hold₂ hne
  case covered =>
    intro a ha
    by_cases hda : a = d.view
    · exact ⟨slot, key, d, hnew, hda.symm⟩
    · obtain ⟨slot', key', d', hd', hview⟩ :=
        hi.covered a ((Function.update_of_ne hda _ _).symm.trans ha)
      exact ⟨slot', key', d', hold slot' key' d' hd', hview⟩
  case bound =>
    intro a v ha
    by_cases hda : a = d.object
    · exact ⟨slot, key, d, hnew, hda.symm⟩
    · obtain ⟨slot', key', d', hd', hobject⟩ :=
        hi.bound a v ((Function.update_of_ne hda _ _).symm.trans ha)
      exact ⟨slot', key', d', hold slot' key' d' hd', hobject⟩
  case users =>
    intro key' hk
    obtain ⟨slot', hslot'⟩ := hi.users key' hk
    exact ⟨slot', hold slot' key' _ hslot'⟩
  case user =>
    intro slot' key' hk hd'
    rcases hcases slot' key' _ hd' with ⟨-, -, he⟩ | hd'
    · obtain ⟨slot₀, h₀⟩ := hi.users key' hk
      exact absurd (congrArg ReducerData.object he.symm) (hi.apart_fresh hf h₀).object
    · rw [hsame slot' key' _ hd']
      exact hi.user slot' key' hk hd'
  case null => exact (Function.update_of_ne hf.view_ne.symm _ _).trans hi.null

/-- The slots are named anew. -/
theorem ViewsInv.relabel (hi : ViewsInv R registered h b) (f : TableSlot → TableSlot)
    (hto : ∀ slot key d, b slot key = some d → b' (f slot) key = some d)
    (hfrom : ∀ slot' key d, b' slot' key = some d → ∃ slot, b slot key = some d ∧ f slot = slot') :
    ViewsInv R registered h b' where
  keys := by
    intro slot key hne
    obtain ⟨d, hd⟩ := Option.ne_none_iff_exists'.mp hne
    obtain ⟨slot₀, hd₀, -⟩ := hfrom slot key d hd
    exact hi.keys slot₀ key (by rw [hd₀]; exact Option.some_ne_none _)
  kind := by
    intro slot key d hd
    obtain ⟨slot₀, hd₀, -⟩ := hfrom slot key d hd
    exact hi.kind slot₀ key d hd₀
  alive := by
    intro slot key d hd
    obtain ⟨slot₀, hd₀, -⟩ := hfrom slot key d hd
    exact hi.alive slot₀ key d hd₀
  owner := by
    intro slot key d hd
    obtain ⟨slot₀, hd₀, -⟩ := hfrom slot key d hd
    exact hi.owner slot₀ key d hd₀
  apart := by
    intro s₁ k₁ d₁ s₂ k₂ d₂ h₁ h₂ hne
    obtain ⟨t₁, h₁', rfl⟩ := hfrom s₁ k₁ d₁ h₁
    obtain ⟨t₂, h₂', rfl⟩ := hfrom s₂ k₂ d₂ h₂
    exact hi.apart t₁ k₁ d₁ t₂ k₂ d₂ h₁' h₂' fun he => hne ⟨congrArg f he.1, he.2⟩
  covered := by
    intro a ha
    obtain ⟨slot, key, d, hd, hview⟩ := hi.covered a ha
    exact ⟨f slot, key, d, hto slot key d hd, hview⟩
  bound := by
    intro a v ha
    obtain ⟨slot, key, d, hd, hobject⟩ := hi.bound a v ha
    exact ⟨f slot, key, d, hto slot key d hd, hobject⟩
  users := by
    intro key hk
    obtain ⟨slot, hd⟩ := hi.users key hk
    exact ⟨f slot, hto slot key _ hd⟩
  user := by
    intro slot key hk hd
    obtain ⟨slot₀, hd₀, -⟩ := hfrom slot key _ hd
    exact hi.user slot₀ key hk hd₀
  null := hi.null

/-- A table is handed over to a slot that was null. -/
theorem ViewsInv.move (hi : ViewsInv R registered h b) (hne : left ≠ right)
    (hnull : ∀ key, b right key = none) :
    ViewsInv R registered h (update (update b right (b left)) left fun _ => none) := by
  apply hi.relabel fun slot => if slot = left then right else slot
  · intro slot key d hd
    by_cases hslot : slot = left
    · rw [if_pos hslot, Function.update_of_ne hne.symm, Function.update_self, ← hslot, hd]
    · have hright : slot ≠ right := by
        rintro rfl
        rw [hnull] at hd
        cases hd
      rw [if_neg hslot, Function.update_of_ne hslot, Function.update_of_ne hright, hd]
  · intro slot key d hd
    by_cases hslot : slot = left
    · rw [hslot, Function.update_self] at hd
      cases hd
    · rw [Function.update_of_ne hslot] at hd
      by_cases hright : slot = right
      · rw [hright, Function.update_self] at hd
        exact ⟨left, hd, by rw [if_pos rfl, hright]⟩
      · rw [Function.update_of_ne hright] at hd
        exact ⟨slot, hd, if_neg hslot⟩

section Merge

variable {order : List Key}

/-- The bindings of all slots after a merge. -/
def mergedBindings (b : TableSlot → Bindings ReducerData) (left right : TableSlot) :
    TableSlot → Bindings ReducerData :=
  update (update b left fun key => (b left key).or (b right key)) right fun _ => none

/-- Both tables bind the key of this place, which is in the right one. -/
def Merges (b : TableSlot → Bindings ReducerData) (left right slot : TableSlot) (key : Key) :
    Prop :=
  slot = right ∧ ∃ l, b left key = some l

theorem mergedBindings_from {slot : TableSlot}
    (hd : mergedBindings b left right slot key = some d) :
    slot ≠ right ∧ ∃ slot₀, b slot₀ key = some d ∧ ¬ Merges b left right slot₀ key ∧
      (slot₀ = slot ∨ slot₀ = right ∧ slot = left) := by
  rw [mergedBindings] at hd
  by_cases hright : slot = right
  · rw [hright, Function.update_self] at hd
    cases hd
  · rw [Function.update_of_ne hright] at hd
    refine ⟨hright, ?_⟩
    by_cases hleft : slot = left
    · rw [hleft, Function.update_self] at hd
      cases hl : b left key with
      | some l =>
        rw [hl, Option.some_or] at hd
        exact ⟨left, by rw [hl, hd], fun hm => hright (hleft.trans hm.1), .inl hleft.symm⟩
      | none =>
        rw [hl, Option.none_or] at hd
        refine ⟨right, hd, ?_, .inr ⟨rfl, hleft⟩⟩
        rintro ⟨-, l, hl'⟩
        rw [hl] at hl'
        cases hl'
    · rw [Function.update_of_ne hleft] at hd
      exact ⟨slot, hd, fun hm => hright hm.1, .inl rfl⟩

theorem mergedBindings_to (hne : left ≠ right) {slot : TableSlot} (hd : b slot key = some d)
    (hkeep : ¬ Merges b left right slot key) :
    ∃ slot', mergedBindings b left right slot' key = some d := by
  by_cases hright : slot = right
  · have hnone : b left key = none :=
      Option.eq_none_iff_forall_ne_some.mpr fun l hl => hkeep ⟨hright, l, hl⟩
    refine ⟨left, ?_⟩
    rw [mergedBindings, Function.update_of_ne hne, Function.update_self, hnone, Option.none_or,
      ← hright, hd]
  · refine ⟨slot, ?_⟩
    rw [mergedBindings, Function.update_of_ne hright]
    by_cases hleft : slot = left
    · rw [hleft, Function.update_self, ← hleft, hd, Option.some_or]
    · rw [Function.update_of_ne hleft, hd]

/-- The right views of a merge are in blocks of the runtime, so that they can be freed. -/
theorem ViewsInv.reducible (hi : ViewsInv R registered h b) (hne : left ≠ right)
    (huser : ∀ key l r, b left key = some l → b right key = some r →
      r ≠ (R.kind key).leftmost key) : Reducible h (b left) (b right) order where
  index := by
    intro key _ l r hl hr
    exact (hi.kind left key l hl).trans (hi.kind right key r hr).symm
  left := fun key _ l r hl _ => hi.alive left key l hl
  right := by
    intro key _ l r hl hr
    obtain ⟨y, hy⟩ := hi.alive right key r hr
    obtain ⟨hblock, hview⟩ := (hi.owner right key r hr).resolve_left (huser key l r hl hr)
    exact ⟨y, hy, hblock, hview⟩
  apart := fun key _ l r hl hr => hi.apart left key l right key r hl hr fun he => hne he.1
  others := by
    intro key _ key' _ hkk l r l' r' hl hr hl' hr'
    exact ⟨hi.apart left key l left key' l' hl hl' fun he => hkk he.2,
      hi.apart left key l right key' r' hl hr' fun he => hkk he.2,
      hi.apart right key r left key' l' hr hl' fun he => hkk he.2,
      hi.apart right key r right key' r' hr hr' fun he => hkk he.2⟩

/-- A merge allocates nothing. -/
theorem ReducedHeap.block_false [Monoid V] {ml mr : Bindings ReducerData} {a : Address}
    (hred : ReducedHeap ml mr order h h') (ha : h.block a = false) : h'.block a = false := by
  by_cases hfreed : ∃ key ∈ order, ∃ l r, ml key = some l ∧ mr key = some r ∧ a = r.view
  · obtain ⟨key, hkey, l, r, hl, hr, rfl⟩ := hfreed
    exact (hred.right key hkey l r hl hr).2.2
  · rw [hred.block a fun key hkey l r hl hr he => hfreed ⟨key, hkey, l, r, hl, hr, he⟩]
    exact ha

/-- A view that is not merged keeps its value, unless another one was merged into it. -/
theorem ViewsInv.merge_keeps [Monoid V] (hi : ViewsInv R registered h b)
    (hred : ReducedHeap (b left) (b right) order h h') {slot : TableSlot}
    (hd : b slot key = some d) (hkeep : ¬ Merges b left right slot key)
    (hnot : ¬ (slot = left ∧ ∃ r, b right key = some r)) :
    h'.value d.object = h.value d.object := by
  apply hred.value
  intro key' _ l r hl hr
  have hleft := hi.apart slot key d left key' l hd hl fun he =>
    hnot ⟨he.1, r, by rw [he.2, hr]⟩
  have hright := hi.apart slot key d right key' r hd hr fun he =>
    hkeep ⟨he.1, l, by rw [he.2, hl]⟩
  exact ⟨hleft.object, hright.object, hright.objectView⟩

theorem ViewsInv.merge [Monoid V] (hi : ViewsInv R registered h b) (hne : left ≠ right)
    (huser : ∀ key l r, b left key = some l → b right key = some r →
      r ≠ (R.kind key).leftmost key)
    (hboth : ∀ key l r, b left key = some l → b right key = some r → key ∈ order)
    (hred : ReducedHeap (b left) (b right) order h h') :
    ViewsInv R registered h' (mergedBindings b left right) := by
  have hfreed : ∀ key r, b right key = some r → Merges b left right right key →
      h'.value r.object = none ∧ h'.value r.view = none ∧ h'.block r.view = false := by
    rintro key r hr ⟨-, l, hl⟩
    exact hred.right key (hboth key l r hl hr) l r hl hr
  constructor
  case keys =>
    intro slot key hsome
    obtain ⟨d, hd⟩ := Option.ne_none_iff_exists'.mp hsome
    obtain ⟨-, slot₀, hd₀, -⟩ := mergedBindings_from hd
    exact hi.keys slot₀ key (by rw [hd₀]; exact Option.some_ne_none _)
  case kind =>
    intro slot key d hd
    obtain ⟨-, slot₀, hd₀, -⟩ := mergedBindings_from hd
    exact hi.kind slot₀ key d hd₀
  case alive =>
    intro slot key d hd
    obtain ⟨-, slot₀, hd₀, hkeep, -⟩ := mergedBindings_from hd
    obtain ⟨x, hx⟩ := hi.alive slot₀ key d hd₀
    by_cases hmerged : slot₀ = left ∧ ∃ r, b right key = some r
    · obtain ⟨rfl, r, hr⟩ := hmerged
      obtain ⟨y, hy⟩ := hi.alive right key r hr
      exact ⟨x * y, hred.left key (hboth key d r hd₀ hr) d r x y hd₀ hr hx hy⟩
    · exact ⟨x, (hi.merge_keeps hred hd₀ hkeep hmerged).trans hx⟩
  case owner =>
    intro slot key d hd
    obtain ⟨-, slot₀, hd₀, hkeep, -⟩ := mergedBindings_from hd
    rcases hi.owner slot₀ key d hd₀ with hleft | ⟨hblock, hview⟩
    · exact .inl hleft
    · refine .inr ⟨?_, hview⟩
      rw [hred.block d.view fun key' _ l r hl hr he => ?_]
      · exact hblock
      · exact hview ((hi.apart slot₀ key d right key' r hd₀ hr fun hs =>
          hkeep ⟨hs.1, l, by rw [hs.2, hl]⟩).view he)
  case apart =>
    intro s₁ k₁ d₁ s₂ k₂ d₂ h₁ h₂ hplaces
    obtain ⟨hr₁, t₁, h₁', -, hs₁⟩ := mergedBindings_from h₁
    obtain ⟨hr₂, t₂, h₂', -, hs₂⟩ := mergedBindings_from h₂
    apply hi.apart t₁ k₁ d₁ t₂ k₂ d₂ h₁' h₂'
    rintro ⟨rfl, hk⟩
    refine hplaces ⟨?_, hk⟩
    rcases hs₁ with rfl | ⟨rfl, rfl⟩
    · rcases hs₂ with rfl | ⟨rfl, -⟩
      · rfl
      · exact absurd rfl hr₁
    · rcases hs₂ with rfl | ⟨-, rfl⟩
      · exact absurd rfl hr₂
      · rfl
  case covered =>
    intro a ha
    have hold : h.block a = true := by
      rw [← hred.block a fun key' hk l r hl hr he => ?_]
      · exact ha
      · rw [he, (hred.right key' hk l r hl hr).2.2] at ha
        cases ha
    obtain ⟨slot, key, d, hd, rfl⟩ := hi.covered a hold
    by_cases hm : Merges b left right slot key
    · obtain rfl := hm.1
      rw [(hfreed key d hd hm).2.2] at ha
      cases ha
    · obtain ⟨slot', hd'⟩ := mergedBindings_to hne hd hm
      exact ⟨slot', key, d, hd', rfl⟩
  case bound =>
    intro a v ha
    by_cases htouched : ∃ key l r, b left key = some l ∧ b right key = some r ∧ a = l.object
    · obtain ⟨key, l, r, hl, -, rfl⟩ := htouched
      obtain ⟨slot', hd'⟩ := mergedBindings_to hne hl fun hm => hne hm.1
      exact ⟨slot', key, l, hd', rfl⟩
    · have hold : h.value a = some v := by
        rw [← hred.value a fun key' hk l r hl hr => ?_]
        · exact ha
        · obtain ⟨h1, h2, -⟩ := hred.right key' hk l r hl hr
          refine ⟨fun he => htouched ⟨key', l, r, hl, hr, he⟩, ?_, ?_⟩
          · rintro rfl
            rw [h1] at ha
            cases ha
          · rintro rfl
            rw [h2] at ha
            cases ha
      obtain ⟨slot, key, d, hd, rfl⟩ := hi.bound a v hold
      by_cases hm : Merges b left right slot key
      · obtain rfl := hm.1
        rw [(hfreed key d hd hm).1] at ha
        cases ha
      · obtain ⟨slot', hd'⟩ := mergedBindings_to hne hd hm
        exact ⟨slot', key, d, hd', rfl⟩
  case users =>
    intro key hk
    obtain ⟨slot, hd⟩ := hi.users key hk
    refine mergedBindings_to hne hd ?_
    rintro ⟨rfl, l, hl⟩
    exact huser key l _ hl hd rfl
  case user =>
    intro slot key hk hd
    obtain ⟨-, slot₀, hd₀, -⟩ := mergedBindings_from hd
    exact hred.block_false (hi.user slot₀ key hk hd₀)
  case null => exact hred.block_false hi.null

end Merge

end Ownership

end Cheetah
