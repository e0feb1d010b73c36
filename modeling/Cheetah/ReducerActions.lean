import Mathlib.Algebra.FreeMonoid.Basic
import Cheetah.ReducerTables

/-! Lookups, hand-overs and merges of the tables in memory act as on finite maps, and never fail. -/
namespace Cheetah
open Function (update)

section Actions

variable {V : Type} {cfg : HashConfig} {R : Reducers} {registered : Key → Prop}
  {x y : ReducerTables V} {slot left right : TableSlot} {key : Key} {newView base : Address}

/-- The tables are sound, and the views belong to them. -/
structure TablesInv (cfg : HashConfig) (R : Reducers) (registered : Key → Prop)
    (x : ReducerTables V) : Prop where
  sound : ∀ slot, SoundTable cfg (x.table slot)
  views : ViewsInv R registered x.heap (x.bindings cfg)

theorem Reducers.fits (R : Reducers) : 2 * R.keys.card < loadBound (2^27) :=
  R.few.trans_lt (by decide)

theorem bindings_update (h : ViewHeap V) (table : TableSlot → Option (Table ReducerData))
    (slot : TableSlot) (t : Option (Table ReducerData)) :
    (⟨h, update table slot t⟩ : ReducerTables V).bindings cfg =
      update ((⟨h, table⟩ : ReducerTables V).bindings cfg) slot (bindingsOf cfg t) :=
  Function.comp_update (bindingsOf cfg) table slot t

theorem views_update (h : ViewHeap V) (table : TableSlot → Option (Table ReducerData))
    (slot : TableSlot) (t : Option (Table ReducerData)) :
    (⟨h, update table slot t⟩ : ReducerTables V).views cfg =
      update ((⟨h, table⟩ : ReducerTables V).views cfg) slot
        (t.map fun _ => ReducerTables.viewsIn cfg h t) :=
  Function.comp_update (fun t : Option (Table ReducerData) =>
    t.map fun _ => ReducerTables.viewsIn cfg h t) table slot t

theorem sound_update {table : TableSlot → Option (Table ReducerData)}
    (hs : ∀ slot, SoundTable cfg (table slot)) {t : Option (Table ReducerData)}
    (ht : SoundTable cfg t) (slot slot' : TableSlot) :
    SoundTable cfg (update table slot t slot') := by
  by_cases h : slot' = slot
  · rw [h, Function.update_self]
    exact ht
  · rw [Function.update_of_ne h]
    exact hs slot'

theorem TablesInv.occupancy_fits (ht : TablesInv cfg R registered x) (slot : TableSlot) :
    (getLocalHyperTable cfg (x.table slot)).occupancy < loadBound (2^27) := by
  have hle := (ht.sound slot).getLocal.occupancy_le (ht.views.keys slot)
  have hfits := R.fits
  omega

theorem views_getD : ((x.views cfg slot).getD fun _ => none) =
    ReducerTables.viewsIn cfg x.heap (x.table slot) := by
  cases ht : x.table slot with
  | none =>
    rw [ReducerTables.views, ht]
    rfl
  | some t =>
    rw [ReducerTables.views, ht]
    rfl

theorem viewOf_views [Monoid V] : viewOf (x.views cfg slot) key =
    (ReducerTables.viewsIn cfg x.heap (x.table slot) key).getD 1 := by
  rw [← views_getD]
  cases h : x.views cfg slot with
  | none => rfl
  | some views => rfl

/-- What the tables mean depends on the values of the bound views only. -/
theorem viewsIn_congr {h h' : ViewHeap V} {t t' : Option (Table ReducerData)}
    (hb : bindingsOf cfg t' key = bindingsOf cfg t key)
    (hv : ∀ d, bindingsOf cfg t key = some d → h'.value d.object = h.value d.object) :
    ReducerTables.viewsIn cfg h' t' key = ReducerTables.viewsIn cfg h t key := by
  rw [ReducerTables.viewsIn, ReducerTables.viewsIn, hb]
  cases hd : bindingsOf cfg t key with
  | none => rfl
  | some d => exact hv d hd

variable [Monoid V]

/-- The tables `y` after a lookup that returned `a` and may have made the view `made`. -/
structure LooksUp (cfg : HashConfig) (x y : ReducerTables V) (slot : TableSlot) (key : Key)
    (a : Address) (made : ReducerData) : Prop where
  found : ∃ d, y.bindings cfg slot key = some d ∧ d.object = a
  value : y.heap.value a = some (viewOf (x.views cfg slot) key)
  table : ∃ t, y.table = update x.table slot (some t)
  kept : ∀ slot' key' d, x.bindings cfg slot' key' = some d → y.bindings cfg slot' key' = some d
  new : ∀ slot' key' d, y.bindings cfg slot' key' = some d →
    x.bindings cfg slot' key' = some d ∨ d = made
  others : ∀ slot' key', ¬ (slot' = slot ∧ key' = key) →
    ReducerTables.viewsIn cfg y.heap (y.table slot') key' =
      ReducerTables.viewsIn cfg x.heap (x.table slot') key'

theorem TablesInv.looksUp_old (ht : TablesInv cfg R registered x) {t : Table ReducerData}
    {d made : ReducerData} (hd : x.bindings cfg slot key = some d)
    (hb : (⟨x.heap, update x.table slot (some t)⟩ : ReducerTables V).bindings cfg =
      x.bindings cfg) :
    LooksUp cfg x ⟨x.heap, update x.table slot (some t)⟩ slot key d.object made := by
  obtain ⟨v, hv⟩ := ht.views.alive slot key d hd
  have hplace : bindingsOf cfg (x.table slot) key = some d := hd
  constructor
  case found => exact ⟨d, by rw [hb]; exact hd, rfl⟩
  case value =>
    rw [viewOf_views, ReducerTables.viewsIn, hplace, Option.bind_some, hv, Option.getD_some]
  case table => exact ⟨t, rfl⟩
  case kept =>
    intro slot' key' d' hd'
    rw [hb]
    exact hd'
  case new =>
    intro slot' key' d' hd'
    rw [hb] at hd'
    exact .inl hd'
  case others =>
    intro slot' key' _
    exact viewsIn_congr (congrFun (congrFun hb slot') key') fun _ _ => rfl

/-- A new view is at a place of its own. -/
theorem TablesInv.looksUp_new (ht : TablesInv cfg R registered x) {t : Table ReducerData}
    {d : ReducerData} (hnone : x.bindings cfg slot key = none) (hfresh : x.heap.Fresh d)
    (hb : (⟨x.heap.construct d, update x.table slot (some t)⟩ : ReducerTables V).bindings cfg =
      update (x.bindings cfg) slot (update (x.bindings cfg slot) key (some d))) :
    LooksUp cfg x ⟨x.heap.construct d, update x.table slot (some t)⟩ slot key d.object d := by
  have hplace : bindingsOf cfg (x.table slot) key = none := hnone
  constructor
  case found =>
    refine ⟨d, ?_, rfl⟩
    rw [hb, Function.update_self, Function.update_self]
  case value =>
    rw [viewOf_views, ReducerTables.viewsIn, hplace]
    exact Function.update_self _ _ _
  case table => exact ⟨t, rfl⟩
  case kept =>
    intro slot' key' d' hd'
    rw [hb]
    by_cases hs : slot' = slot
    · have hk : key' ≠ key := by
        intro hk
        rw [hs, hk, hnone] at hd'
        cases hd'
      rw [hs, Function.update_self, Function.update_of_ne hk, ← hs, hd']
    · rw [Function.update_of_ne hs, hd']
  case new =>
    intro slot' key' d' hd'
    rw [hb] at hd'
    by_cases hs : slot' = slot
    · rw [hs, Function.update_self] at hd'
      by_cases hk : key' = key
      · rw [hk, Function.update_self] at hd'
        exact .inr (Option.some.inj hd').symm
      · rw [Function.update_of_ne hk] at hd'
        exact .inl (hs ▸ hd')
    · rw [Function.update_of_ne hs] at hd'
      exact .inl hd'
  case others =>
    intro slot' key' hne
    apply viewsIn_congr
    · have hsame := congrFun (congrFun hb slot') key'
      rw [ReducerTables.bindings] at hsame
      rw [hsame]
      by_cases hs : slot' = slot
      · rw [hs, Function.update_self, Function.update_of_ne fun hk => hne ⟨hs, hk⟩]
        rfl
      · rw [Function.update_of_ne hs]
        rfl
    · intro d' hd'
      exact Function.update_of_ne (ht.views.apart_fresh hfresh hd').object.symm _ _

/-- A lookup does not fail, and a view that it makes is the identity. -/
theorem TablesInv.lookup (ht : TablesInv cfg R registered x) (slot : TableSlot)
    (hkey : key ∈ R.keys) (hf : x.heap.Fresh ((R.kind key).data newView base)) :
    ∃ (y : ReducerTables V) (a : Address),
      (R.kind key).lookup cfg x.heap (x.table slot) key newView base =
        some (a, y.table slot, y.heap) ∧
      update x.table slot (y.table slot) = y.table ∧ TablesInv cfg R registered y ∧
      LooksUp cfg x y slot key a ((R.kind key).data newView base) := by
  obtain ⟨t, d, h', hlookup, hsound, hcases⟩ :=
    @lookup_spec cfg (x.table slot) V _ x.heap key (R.kind key) newView base (ht.sound slot)
      (R.valid key hkey) (ht.occupancy_fits slot) fun d hd => ht.views.kind slot key d hd
  have hupdate : (⟨h', update x.table slot (some t)⟩ : ReducerTables V).bindings cfg =
      update (x.bindings cfg) slot (bindingsOf cfg (some t)) := bindings_update _ _ _ _
  have hself : (⟨h', update x.table slot (some t)⟩ : ReducerTables V).table slot = some t :=
    Function.update_self _ _ _
  have htables := sound_update ht.sound hsound slot
  refine ⟨⟨h', update x.table slot (some t)⟩, d.object, by rw [hself, hlookup], by rw [hself], ?_⟩
  rcases hcases with ⟨hd, hsame, rfl⟩ | ⟨hnone, rfl, hput, rfl⟩
  · have hb : (⟨x.heap, update x.table slot (some t)⟩ : ReducerTables V).bindings cfg =
        x.bindings cfg := by
      rw [hupdate, hsame]
      exact Function.update_eq_self slot _
    exact ⟨⟨htables, hb ▸ ht.views⟩, ht.looksUp_old hd hb⟩
  · rw [hput] at hupdate
    exact ⟨⟨htables, hupdate ▸ ht.views.construct hnone hkey ofKind_data hf⟩,
      ht.looksUp_new hnone hf hupdate⟩

/-- A lookup and the update of its view act as on the map of the table. -/
theorem TablesInv.update (ht : TablesInv cfg R registered x) (slot : TableSlot)
    (hkey : key ∈ R.keys) (hf : x.heap.Fresh ((R.kind key).data newView base)) (u : V) :
    ∃ x', x.act cfg R (.update slot key newView base u) = some x' ∧
      TablesInv cfg R registered x' ∧
      x'.views cfg = Function.update (x.views cfg) slot (updateView (x.views cfg slot) key u) ∧
      (∀ slot' key' d, x.bindings cfg slot' key' = some d → x'.bindings cfg slot' key' = some d) ∧
      ∀ slot' key' d, x'.bindings cfg slot' key' = some d →
        x.bindings cfg slot' key' = some d ∨ d = (R.kind key).data newView base := by
  obtain ⟨y, a, hlookup, htable, hy, hat⟩ := ht.lookup slot hkey hf
  obtain ⟨d, hd, rfl⟩ := hat.found
  obtain ⟨t, hyt⟩ := hat.table
  have hwrite := hy.views.write hd (viewOf (x.views cfg slot) key * u)
  refine ⟨⟨y.heap.write d.object (viewOf (x.views cfg slot) key * u), y.table⟩, ?_,
    ⟨hy.sound, hwrite⟩, ?_, hat.kept, hat.new⟩
  · rw [ReducerTables.act, hlookup, Option.bind_some, ViewHeap.append, hat.value, Option.map_some,
      Option.map_some, htable]
    rfl
  · have hothers : ∀ slot' key', ¬ (slot' = slot ∧ key' = key) → ReducerTables.viewsIn cfg
        (y.heap.write d.object (viewOf (x.views cfg slot) key * u)) (y.table slot') key' =
          ReducerTables.viewsIn cfg x.heap (x.table slot') key' := by
      intro slot' key' hne
      rw [← hat.others slot' key' hne]
      apply viewsIn_congr rfl
      intro d' hd'
      exact Function.update_of_ne (fun he => hne (hy.views.same_place hd' hd he)) _ _
    funext slot'
    by_cases hs : slot' = slot
    · subst hs
      have hself : y.table slot' = some t := by rw [hyt, Function.update_self]
      rw [Function.update_self, updateView, views_getD, ReducerTables.views]
      simp only [hself, Option.map_some, Option.some.injEq]
      funext key'
      by_cases hk : key' = key
      · have hdk : bindingsOf cfg (some t) key = some d := hself ▸ hd
        rw [hk, Function.update_self, ReducerTables.viewsIn, hdk]
        exact Function.update_self _ _ _
      · rw [Function.update_of_ne hk, ← hothers slot' key' fun h => hk h.2, hself]
    · have hsame : y.table slot' = x.table slot' := by rw [hyt, Function.update_of_ne hs]
      have hviews := funext fun key' => hothers slot' key' fun h => hs h.1
      rw [Function.update_of_ne hs]
      calc
        _ = (y.table slot').map fun _ => ReducerTables.viewsIn cfg x.heap (x.table slot') :=
          congrArg (fun views => (y.table slot').map fun _ => views) hviews
        _ = x.views cfg slot' := by
          rw [hsame]
          rfl

omit [Monoid V] in
/-- A table is handed over. -/
theorem TablesInv.move (ht : TablesInv cfg R registered x) (hne : left ≠ right)
    (hnull : x.table right = none) : TablesInv cfg R registered
      ⟨x.heap, Function.update (Function.update x.table right (x.table left)) left none⟩ where
  sound := sound_update (sound_update ht.sound (ht.sound left) right) soundTable_none left
  views := by
    rw [bindings_update, bindings_update]
    exact ht.views.move hne fun key => by rw [ReducerTables.bindings, hnull]; rfl

omit [Monoid V] in
theorem views_move : (⟨x.heap, Function.update (Function.update x.table right (x.table left)) left
    none⟩ : ReducerTables V).views cfg =
      Function.update (Function.update (x.views cfg) right (x.views cfg left)) left none := by
  rw [views_update, views_update]
  rfl

/-- A merge of tables that mean `views` and `views'`. -/
theorem mergeTwoHts_map {t t' res : Option (Table ReducerData)}
    {views views' merged : ViewMap Key V}
    (hnone : res = none ↔ t = none ∧ t' = none) (hl : t = none → ∀ key, views key = none)
    (hr : t' = none → ∀ key, views' key = none)
    (hmerged : ∀ key, merged key = match views key, views' key with
      | none, view => view
      | some view, none => some view
      | some a, some b => some (a * b)) :
    res.map (fun _ => merged) = mergeTwoHts (t.map fun _ => views) (t'.map fun _ => views') := by
  cases t with
  | none =>
    cases t' with
    | none =>
      rw [hnone.mpr ⟨rfl, rfl⟩]
      rfl
    | some t' =>
      obtain ⟨u, rfl⟩ := Option.ne_none_iff_exists'.mp fun h => Option.some_ne_none _ (hnone.mp h).2
      have hsame : merged = views' := funext fun key => by rw [hmerged, hl rfl]
      rw [hsame]
      rfl
  | some t =>
    obtain ⟨u, rfl⟩ := Option.ne_none_iff_exists'.mp fun h => Option.some_ne_none _ (hnone.mp h).1
    cases t' with
    | none =>
      have hsame : merged = views := by
        funext key
        rw [hmerged, hr rfl]
        cases views key <;> rfl
      rw [hsame]
      rfl
    | some t' => exact congrArg some (funext hmerged)

/-- The views in the merged table. -/
theorem TablesInv.viewsIn_merged (ht : TablesInv cfg R registered x)
    {res : Option (Table ReducerData)} {log : List ViewEvent} {order : List Key} {h' : ViewHeap V}
    (hm : MergesTo cfg (x.table left) (x.table right) res log order) (hne : left ≠ right)
    (hred : ReducedHeap (x.bindings cfg left) (x.bindings cfg right) order x.heap h') :
    ReducerTables.viewsIn cfg h' res key =
      match ReducerTables.viewsIn cfg x.heap (x.table left) key,
        ReducerTables.viewsIn cfg x.heap (x.table right) key with
      | none, view => view
      | some view, none => some view
      | some a, some b => some (a * b) := by
  have hres := congrFun hm.bindings key
  cases hl : bindingsOf cfg (x.table left) key with
  | none =>
    have hleft : ReducerTables.viewsIn cfg x.heap (x.table left) key = none := by
      rw [ReducerTables.viewsIn, hl]
      rfl
    rw [hl, Option.none_or] at hres
    rw [hleft]
    apply viewsIn_congr hres
    intro d hd
    apply ht.views.merge_keeps hred hd
    · rintro ⟨-, l, hl'⟩
      exact Option.some_ne_none l (hl'.symm.trans hl)
    · exact fun h => hne h.1.symm
  | some l =>
    obtain ⟨a, ha⟩ := ht.views.alive left key l hl
    have hleft : ReducerTables.viewsIn cfg x.heap (x.table left) key = some a := by
      rw [ReducerTables.viewsIn, hl, Option.bind_some, ha]
    rw [hl, Option.some_or] at hres
    have hmerged : ReducerTables.viewsIn cfg h' res key = h'.value l.object := by
      rw [ReducerTables.viewsIn, hres]
      rfl
    rw [hleft, hmerged]
    cases hr : bindingsOf cfg (x.table right) key with
    | none =>
      have hright : ReducerTables.viewsIn cfg x.heap (x.table right) key = none := by
        rw [ReducerTables.viewsIn, hr]
        rfl
      rw [hright, ht.views.merge_keeps hred hl (fun h => hne h.1), ha]
      rintro ⟨-, r, hr'⟩
      exact Option.some_ne_none r (hr'.symm.trans hr)
    | some r =>
      obtain ⟨b, hb⟩ := ht.views.alive right key r hr
      have hright : ReducerTables.viewsIn cfg x.heap (x.table right) key = some b := by
        rw [ReducerTables.viewsIn, hr, Option.bind_some, hb]
      rw [hright]
      exact hred.left key (hm.both key l r hl hr) l r a b hl hr ha hb

omit [Monoid V] in
theorem viewsIn_none (h : ViewHeap V) (key : Key) : ReducerTables.viewsIn cfg h none key = none :=
  rfl

/-- A merge does not fail, and it acts as on the maps of the tables. -/
theorem TablesInv.merge (ht : TablesInv cfg R registered x) (hne : left ≠ right)
    (huser : ∀ key l r, x.bindings cfg left key = some l → x.bindings cfg right key = some r →
      r ≠ (R.kind key).leftmost key) :
    ∃ x', x.act cfg R (.merge left right) = some x' ∧ TablesInv cfg R registered x' ∧
      x'.views cfg = (TableAction.merge left right).onViews (x.views cfg) ∧
      x'.bindings cfg = mergedBindings (x.bindings cfg) left right := by
  obtain ⟨res, log, order, hm⟩ := mergeTwoHts_spec (ht.sound left) (ht.sound right)
    (ht.views.keys left) (ht.views.keys right) R.fits fun key l r hl hr =>
      (ht.views.kind left key l hl).trans (ht.views.kind right key r hr).symm
  have hreducible : Reducible x.heap (x.bindings cfg left) (x.bindings cfg right) order :=
    ht.views.reducible hne huser
  obtain ⟨h', happly, hred⟩ := hreducible.applyAll hm.nodup
  have hb : (⟨h', Function.update (Function.update x.table left res) right none⟩ :
      ReducerTables V).bindings cfg = mergedBindings (x.bindings cfg) left right := by
    rw [bindings_update, bindings_update, hm.bindings]
    rfl
  refine ⟨⟨h', Function.update (Function.update x.table left res) right none⟩, ?_, ⟨?_, ?_⟩, ?_, hb⟩
  · have hlog : x.heap.applyAll log = some h' := hm.log_eq ▸ happly
    rw [ReducerTables.act, mergeHtsOnHeap, hm.merge, Option.bind_some, hlog]
    rfl
  · exact sound_update (sound_update ht.sound hm.sound left) soundTable_none right
  · rw [hb]
    exact ht.views.merge hne huser hm.both hred
  · have hkeep : ∀ slot' key', slot' ≠ left → slot' ≠ right →
        ReducerTables.viewsIn cfg h' (x.table slot') key' =
          ReducerTables.viewsIn cfg x.heap (x.table slot') key' := by
      intro slot' key' hl hr
      apply viewsIn_congr rfl
      intro d hd
      exact ht.views.merge_keeps hred hd (fun hm => hr hm.1) fun hm => hl hm.1
    have hmerged := mergeTwoHts_map hm.none_iff
      (fun hnull key => by rw [hnull]; exact viewsIn_none x.heap key)
      (fun hnull key => by rw [hnull]; exact viewsIn_none x.heap key)
      fun key => ht.viewsIn_merged hm hne hred
    rw [views_update, views_update, TableAction.onViews, hmerged]
    funext slot'
    by_cases hr : slot' = right
    · rw [hr, Function.update_self, Function.update_self]
      rfl
    · rw [Function.update_of_ne hr, Function.update_of_ne hr]
      by_cases hl : slot' = left
      · rw [hl, Function.update_self, Function.update_self]
        rfl
      · rw [Function.update_of_ne hl, Function.update_of_ne hl]
        have hsame := funext fun key' => hkeep slot' key' hl hr
        rw [ReducerTables.views, ReducerTables.views]
        exact congrArg (fun views => (x.table slot').map fun _ => views) hsame

/-- All memory in use is below `n`. -/
def ViewHeap.Below (h : ViewHeap V) (n : Address) : Prop :=
  ∀ a, n ≤ a → h.value a = none ∧ h.block a = false

omit [Monoid V] in
theorem ViewHeap.Below.fresh {h : ViewHeap V} {n : Address} (hn : h.Below n) (kind : ReducerKind) :
    h.Fresh (kind.data (n+1) (n+1)) := by
  obtain ⟨hvalue, hblock⟩ := hn (n+1) (Nat.le_succ n)
  have hobject : (kind.data (n+1) (n+1)).object = n+1 := by cases kind <;> rfl
  refine ⟨?_, ?_, ?_, ?_, ?_, ?_⟩
  · rw [data_view]
    exact Nat.succ_ne_zero n
  · rw [hobject]
    exact Nat.succ_ne_zero n
  · rw [hobject, hvalue]
  · rw [data_view, hvalue]
  · rw [hobject, hblock]
  · rw [data_view, hblock]

omit [Monoid V] in
/-- What is in use after an action was in use before, or belongs to a new view. -/
theorem TablesInv.below (hx : TablesInv cfg R registered x) (hy : TablesInv cfg R registered y)
    {n m : Address} (hn : x.heap.Below n)
    (hfrom : ∀ slot key d, y.bindings cfg slot key = some d →
      (∃ slot', x.bindings cfg slot' key = some d) ∨ d.object < m ∧ d.view < m) :
    y.heap.Below (max n m) := by
  intro a ha
  obtain ⟨hna, hma⟩ := max_le_iff.mp ha
  constructor
  · by_contra hne
    obtain ⟨v, hv⟩ := Option.ne_none_iff_exists'.mp hne
    obtain ⟨slot, key, d, hd, rfl⟩ := hy.views.bound a v hv
    rcases hfrom slot key d hd with ⟨slot', hd'⟩ | ⟨hobject, -⟩
    · obtain ⟨w, hw⟩ := hx.views.alive slot' key d hd'
      exact Option.some_ne_none w (hw.symm.trans (hn _ hna).1)
    · exact absurd hma (Nat.not_le.mpr hobject)
  · by_contra hne
    have hblock : y.heap.block a = true := by simpa using hne
    obtain ⟨slot, key, d, hd, rfl⟩ := hy.views.covered a hblock
    rcases hfrom slot key d hd with ⟨slot', hd'⟩ | ⟨-, hview⟩
    · rcases hx.views.owner slot' key d hd' with rfl | ⟨hold, -⟩
      · rcases leftmost_view (R.kind key) key with h0 | hobject
        · exact hne (h0 ▸ hy.views.null)
        · obtain ⟨w, hw⟩ := hx.views.alive slot' key _ hd'
          rw [hobject] at hna
          exact Option.some_ne_none w (hw.symm.trans (hn _ hna).1)
      · exact Bool.noConfusion (hold.symm.trans (hn _ hna).2)
    · exact absurd hma (Nat.not_le.mpr hview)

/-- The memory in use stays bounded. -/
theorem TablesInv.act_below (hx : TablesInv cfg R registered x) {action : TableAction V}
    (hlegal : x.Legal cfg R action) (hact : x.act cfg R action = some y)
    (hy : TablesInv cfg R registered y) (hn : ∃ n, x.heap.Below n) : ∃ n, y.heap.Below n := by
  obtain ⟨n, hn⟩ := hn
  cases action with
  | update slot key newView base u =>
    obtain ⟨y', hact', -, -, -, hnew⟩ := hx.update slot hlegal.1 hlegal.2 u
    obtain rfl := Option.some.inj (hact'.symm.trans hact)
    let d := (R.kind key).data newView base
    refine ⟨_, hx.below (m := max (d.object+1) (d.view+1)) hy hn fun slot' key' d' hd' => ?_⟩
    rcases hnew slot' key' d' hd' with hold | rfl
    · exact .inl ⟨slot', hold⟩
    · exact .inr ⟨Nat.lt_of_succ_le (le_max_left _ _), Nat.lt_of_succ_le (le_max_right _ _)⟩
  | move source target =>
    obtain rfl := Option.some.inj hact
    refine ⟨_, hx.below (m := 0) hy hn fun slot key d hd => .inl ?_⟩
    rw [bindings_update, bindings_update] at hd
    by_cases hs : slot = source
    · rw [hs, Function.update_self] at hd
      cases hd
    · rw [Function.update_of_ne hs] at hd
      by_cases ht : slot = target
      · rw [ht, Function.update_self] at hd
        exact ⟨source, hd⟩
      · rw [Function.update_of_ne ht] at hd
        exact ⟨slot, hd⟩
  | merge left right =>
    obtain ⟨y', hact', -, -, hb⟩ := hx.merge hlegal.1 hlegal.2
    obtain rfl := Option.some.inj (hact'.symm.trans hact)
    refine ⟨_, hx.below (m := 0) hy hn fun slot key d hd => .inl ?_⟩
    rw [hb] at hd
    obtain ⟨-, slot', hd', -⟩ := mergedBindings_from hd
    exact ⟨slot', hd'⟩

/-- Whatever the callers may do does not fail, and it acts as on the maps of the tables. -/
theorem TablesInv.act (ht : TablesInv cfg R registered x) {action : TableAction V}
    (hlegal : x.Legal cfg R action) :
    ∃ x', x.act cfg R action = some x' ∧ TablesInv cfg R registered x' ∧
      x'.views cfg = action.onViews (x.views cfg) := by
  cases action with
  | update slot key newView base u =>
    obtain ⟨x', hact, hx', hviews, -⟩ := ht.update slot hlegal.1 hlegal.2 u
    exact ⟨x', hact, hx', hviews⟩
  | move source target => exact ⟨_, rfl, ht.move hlegal.1 hlegal.2, views_move⟩
  | merge left right =>
    obtain ⟨x', hact, hx', hviews, -⟩ := ht.merge hlegal.1 hlegal.2
    exact ⟨x', hact, hx', hviews⟩

end Actions

section Runs

variable {V : Type} {cfg : HashConfig} {R : Reducers} {keys : List Key} {initial : Key → V}
  {x y : ReducerTables V}

/-- The reducers are registered one after another. -/
def registerAll (cfg : HashConfig) (R : Reducers) (keys : List Key)
    (table : Option (Table ReducerData)) : Option (Option (Table ReducerData)) :=
  keys.foldlM (fun table key => (R.kind key).register cfg table key) table

/-- The memory before the region has the views of the user, each at its key. -/
def userViews (keys : List Key) (initial : Key → V) : ViewHeap V where
  value a := (keys.find? fun key => key.toNat = a).map initial
  block _ := false

/-- The tables when the region is entered: worker 0 has registered the reducers. -/
def registerTables (cfg : HashConfig) (R : Reducers) (keys : List Key) (initial : Key → V) :
    Option (ReducerTables V) :=
  (registerAll cfg R keys none).map fun table =>
    ⟨userViews keys initial, update (fun _ => none) (.hyperTable 0) table⟩

theorem SoundTable.register {table : Option (Table ReducerData)} {key : Key}
    (hs : SoundTable cfg table) (hb : ∀ key, bindingsOf cfg table key ≠ none → key ∈ R.keys)
    (hkey : key ∈ R.keys) : ∃ t, (R.kind key).register cfg table key = some (some t) ∧
      SoundTable cfg (some t) ∧ bindingsOf cfg (some t) =
        update (bindingsOf cfg table) key (some ((R.kind key).leftmost key)) := by
  have hle := hs.getLocal.occupancy_le hb
  have hfits := R.fits
  obtain ⟨t, he, ht⟩ := hs.getLocal.insert (b := ⟨key, 0, (R.kind key).leftmost key⟩)
    (R.valid key hkey) (by omega)
  refine ⟨t, ?_, ht.sound, ht.bindings_eq⟩
  cases hk : R.kind key with
  | base | reduceFn f | reduceCFn f =>
    rw [hk] at he
    simp only [ReducerKind.leftmost] at he
    simp only [ReducerKind.register, reducerRegister0, reducerRegister1, reducerRegister2,
      reducerRegister, he]

theorem registerAll_spec {table : Option (Table ReducerData)} (hs : SoundTable cfg table)
    (hb : ∀ key, bindingsOf cfg table key ≠ none → key ∈ R.keys)
    (hkeys : ∀ key ∈ keys, key ∈ R.keys) : ∃ t, registerAll cfg R keys table = some t ∧
      SoundTable cfg t ∧ (t = none ↔ keys = [] ∧ table = none) ∧ ∀ key, bindingsOf cfg t key =
        if key ∈ keys then some ((R.kind key).leftmost key) else bindingsOf cfg table key := by
  induction keys generalizing table with
  | nil => exact ⟨table, rfl, hs, by simp, fun key => by simp⟩
  | cons key keys ih =>
    obtain ⟨t, he, ht, hbt⟩ := hs.register hb (hkeys key List.mem_cons_self)
    have hbound : ∀ key', bindingsOf cfg (some t) key' ≠ none → key' ∈ R.keys := by
      intro key' hne
      by_cases hk : key' = key
      · exact hk ▸ hkeys key List.mem_cons_self
      · rw [hbt, Function.update_of_ne hk] at hne
        exact hb key' hne
    obtain ⟨u, he', hu, hnone, hbu⟩ :=
      ih ht hbound fun key' hk => hkeys key' (List.mem_cons_of_mem key hk)
    refine ⟨u, ?_, hu, ?_, fun key' => ?_⟩
    · rw [registerAll, List.foldlM_cons, he]
      exact he'
    · rw [hnone]
      simp
    · rw [hbu, hbt]
      by_cases hmem : key' ∈ keys
      · rw [if_pos hmem, if_pos (List.mem_cons_of_mem key hmem)]
      · rw [if_neg hmem]
        by_cases hk : key' = key
        · rw [hk, Function.update_self, if_pos List.mem_cons_self]
        · rw [Function.update_of_ne hk, if_neg fun h => (List.mem_cons.mp h).elim hk hmem]

/-- The reducers are unregistered one after another. -/
def unregisterAll (cfg : HashConfig) (order : List Key) (table : Option (Table ReducerData)) :
    Option (Option (Table ReducerData)) :=
  order.foldlM (reducerUnregister cfg) table

/-- No removal fails, and the table behaves as the map without the reducers that are gone. -/
theorem unregisterAll_spec {order : List Key} {table : Option (Table ReducerData)}
    {m : Bindings ReducerData} (ht : TableInv cfg (getLocalHyperTable cfg table))
    (hr : Represents cfg (getLocalHyperTable cfg table) m)
    (hv : ∀ key ∈ order, isValid key = true) : ∃ u, unregisterAll cfg order table = some u ∧
      BehavesAs cfg (getLocalHyperTable cfg u) fun key => if key ∈ order then none else m key := by
  induction order generalizing table m with
  | nil =>
    refine ⟨table, rfl, ?_⟩
    simpa using ht.behavesAs hr
  | cons key order ih =>
    obtain ⟨t, ok, he, hrem⟩ := removeHyperobject_removes ht (hv key List.mem_cons_self)
    have hnext : Represents cfg t (m.next (.remove key)) := hr.erases hrem.binds
    have hinv : TableInv cfg (getLocalHyperTable cfg (some t)) := hrem.inv
    obtain ⟨u, hu, hb⟩ := ih hinv hnext fun key' hk => hv key' (List.mem_cons_of_mem key hk)
    refine ⟨u, ?_, ?_⟩
    · rw [unregisterAll, List.foldlM_cons, reducerUnregister, he]
      exact hu
    · have hmap : (fun key' => if key' ∈ key :: order then none else m key') =
          fun key' => if key' ∈ order then none else m.next (.remove key) key' := by
        funext key'
        by_cases hk : key' ∈ order
        · rw [if_pos hk, if_pos (List.mem_cons_of_mem key hk)]
        · rw [if_neg hk, Bindings.next, Function.update_apply]
          simp only [List.mem_cons, hk, or_false]
      rw [hmap]
      exact hb

theorem leftmost_object (kind : ReducerKind) (key : Key) :
    (kind.leftmost key).object = key.toNat := by
  cases kind <;> rfl

theorem toNat_ne_zero {key : Key} (hv : isValid key = true) : key.toNat ≠ 0 := by
  intro h
  have hzero : key = 0#64 := BitVec.eq_of_toNat_eq h
  rw [hzero] at hv
  cases hv

theorem ne_leftmost_view {key key' : Key} (kind : ReducerKind) (hne : key ≠ key')
    (hv : isValid key = true) : key.toNat ≠ (kind.leftmost key').view := by
  rcases leftmost_view kind key' with h | h
  · rw [h]
    exact toNat_ne_zero hv
  · rw [h, leftmost_object]
    exact fun he => hne (BitVec.eq_of_toNat_eq he)

/-- The views of the user are at different places. -/
theorem apart_leftmost {key key' : Key} {kind kind' : ReducerKind} (hne : key ≠ key')
    (hv : isValid key = true) (hv' : isValid key' = true) :
    Apart (kind.leftmost key) (kind'.leftmost key') := by
  constructor
  case object =>
    rw [leftmost_object, leftmost_object]
    exact fun he => hne (BitVec.eq_of_toNat_eq he)
  case objectView =>
    rw [leftmost_object]
    exact ne_leftmost_view kind' hne hv
  case viewObject =>
    rw [leftmost_object]
    exact (ne_leftmost_view kind hne.symm hv').symm
  case view =>
    intro he
    rcases leftmost_view kind key with h | h
    · exact h
    · rw [h, leftmost_object] at he
      exact absurd he (ne_leftmost_view kind' hne hv)

theorem userViews_value {key : Key} (hkey : key ∈ keys) :
    (userViews keys initial).value key.toNat = some (initial key) := by
  have hfind : (keys.find? fun key' => key'.toNat = key.toNat) = some key := by
    cases hf : keys.find? fun key' => key'.toNat = key.toNat with
    | none =>
      have hnone := List.find?_eq_none.mp hf key hkey
      simp at hnone
    | some key' =>
      have hsome := List.find?_some hf
      exact congrArg some (BitVec.eq_of_toNat_eq (of_decide_eq_true hsome))
  exact congrArg (Option.map initial) hfind

theorem userViews_bound {a : Address} {v : V} (ha : (userViews keys initial).value a = some v) :
    ∃ key ∈ keys, key.toNat = a := by
  obtain ⟨key, hfind, -⟩ := Option.map_eq_some_iff.mp ha
  have hkey := List.find?_some hfind
  exact ⟨key, List.mem_of_find?_eq_some hfind, of_decide_eq_true hkey⟩

theorem userViews_below : (userViews keys initial).Below (2^64) := by
  intro a ha
  refine ⟨?_, rfl⟩
  by_contra hne
  obtain ⟨v, hv⟩ := Option.ne_none_iff_exists'.mp hne
  obtain ⟨key, -, rfl⟩ := userViews_bound hv
  exact absurd key.isLt (Nat.not_lt.mpr ha)

/-- The registered reducers have the views of the user, in the table of worker 0. -/
theorem viewsInv_register {b : TableSlot → Bindings ReducerData}
    (hkeys : ∀ key ∈ keys, key ∈ R.keys)
    (hb : ∀ slot key d, b slot key = some d ↔
      slot = .hyperTable 0 ∧ key ∈ keys ∧ d = (R.kind key).leftmost key) :
    ViewsInv R (· ∈ keys) (userViews keys initial) b := by
  constructor
  case keys =>
    intro slot key hne
    obtain ⟨d, hd⟩ := Option.ne_none_iff_exists'.mp hne
    exact hkeys key ((hb slot key d).mp hd).2.1
  case kind =>
    intro slot key d hd
    obtain ⟨-, -, rfl⟩ := (hb slot key d).mp hd
    exact ofKind_leftmost
  case alive =>
    intro slot key d hd
    obtain ⟨-, hkey, rfl⟩ := (hb slot key d).mp hd
    exact ⟨initial key, by rw [leftmost_object, userViews_value hkey]⟩
  case owner =>
    intro slot key d hd
    exact .inl ((hb slot key d).mp hd).2.2
  case apart =>
    intro slot key d slot' key' d' hd hd' hne
    obtain ⟨rfl, hkey, rfl⟩ := (hb slot key d).mp hd
    obtain ⟨rfl, hkey', rfl⟩ := (hb slot' key' d').mp hd'
    exact apart_leftmost (fun he => hne ⟨rfl, he⟩) (R.valid key (hkeys key hkey))
      (R.valid key' (hkeys key' hkey'))
  case covered =>
    intro a ha
    cases ha
  case bound =>
    intro a v ha
    obtain ⟨key, hkey, rfl⟩ := userViews_bound ha
    exact ⟨_, key, _, (hb _ key _).mpr ⟨rfl, hkey, rfl⟩, leftmost_object _ key⟩
  case users =>
    intro key hkey
    exact ⟨_, (hb _ key _).mpr ⟨rfl, hkey, rfl⟩⟩
  case user => exact fun _ _ _ _ => rfl
  case null => rfl

/-- What the table of worker 0 means when the region is entered. -/
def registeredTable (keys : List Key) (initial : Key → V) : Option (ViewMap Key V) :=
  if keys = [] then none else some fun key => if key ∈ keys then some (initial key) else none

/-- What the tables mean to the scheduler when the region is entered. -/
def registeredViews (keys : List Key) (initial : Key → V) : TableSlot → Option (ViewMap Key V) :=
  update (fun _ => none) (.hyperTable 0) (registeredTable keys initial)

theorem registerTables_spec (cfg : HashConfig) (initial : Key → V)
    (hkeys : ∀ key ∈ keys, key ∈ R.keys) : ∃ x, registerTables cfg R keys initial = some x ∧
      TablesInv cfg R (· ∈ keys) x ∧ x.views cfg = registeredViews keys initial ∧
        x.heap.Below (2^64) := by
  obtain ⟨t, he, ht, hnone, hb⟩ := registerAll_spec (soundTable_none : SoundTable cfg none)
    (fun key h => absurd (bindingsOf_none key) h) hkeys
  have hbindings : (⟨userViews keys initial, update (fun _ => none) (.hyperTable 0) t⟩ :
      ReducerTables V).bindings cfg = update (fun _ _ => none) (.hyperTable 0) (bindingsOf cfg t) :=
    bindings_update _ _ _ _
  refine ⟨_, by rw [registerTables, he, Option.map_some], ⟨?_, ?_⟩, ?_, userViews_below⟩
  · exact sound_update (fun _ => soundTable_none) ht _
  · apply viewsInv_register hkeys
    intro slot key d
    rw [hbindings]
    by_cases hs : slot = .hyperTable 0
    · rw [hs, Function.update_self, hb]
      by_cases hk : key ∈ keys
      · rw [if_pos hk, Option.some.injEq]
        exact ⟨fun h => ⟨rfl, hk, h.symm⟩, fun h => h.2.2.symm⟩
      · rw [if_neg hk]
        exact ⟨nofun, fun h => absurd h.2.1 hk⟩
    · rw [Function.update_of_ne hs]
      exact ⟨nofun, fun h => absurd h.1 hs⟩
  · rw [views_update, registeredViews, registeredTable]
    congr 1
    by_cases hk : keys = []
    · rw [hnone.mpr ⟨hk, rfl⟩, if_pos hk]
      rfl
    · obtain ⟨u, rfl⟩ := Option.ne_none_iff_exists'.mp fun h => hk (hnone.mp h).1
      rw [if_neg hk, Option.map_some, Option.some.injEq]
      funext key
      rw [ReducerTables.viewsIn, hb]
      by_cases hmem : key ∈ keys
      · rw [if_pos hmem, if_pos hmem, Option.bind_some, leftmost_object, userViews_value hmem]
      · rw [if_neg hmem, if_neg hmem]
        rfl

/-- A legal action that does not fail. -/
def ReducerTables.Step (cfg : HashConfig) (R : Reducers) [Monoid V] (x y : ReducerTables V) :
    Prop :=
  ∃ action, x.Legal cfg R action ∧ x.act cfg R action = some y

/-- Each view and each block in memory is bound by one table, under one key. -/
structure ReducerTables.Accounted (cfg : HashConfig) (R : Reducers) (keys : List Key)
    (x : ReducerTables V) : Prop where
  bound : ∀ slot key d, x.bindings cfg slot key = some d → ∃ v, x.heap.value d.object = some v
  view : ∀ a v, x.heap.value a = some v →
    ∃! p : TableSlot × Key, ∃ d, x.bindings cfg p.1 p.2 = some d ∧ d.object = a
  block : ∀ a, x.heap.block a = true →
    ∃! p : TableSlot × Key, ∃ d, x.bindings cfg p.1 p.2 = some d ∧ d.view = a
  users : ∀ key ∈ keys, ∃ slot, x.bindings cfg slot key = some ((R.kind key).leftmost key)

theorem TablesInv.accounted (ht : TablesInv cfg R (· ∈ keys) x) : x.Accounted cfg R keys where
  bound := ht.views.alive
  users := ht.views.users
  view := by
    intro a v ha
    obtain ⟨slot, key, d, hd, hobject⟩ := ht.views.bound a v ha
    refine ⟨(slot, key), ⟨d, hd, hobject⟩, ?_⟩
    rintro ⟨slot', key'⟩ ⟨d', hd', hobject'⟩
    obtain ⟨rfl, rfl⟩ := ht.views.same_place hd' hd (hobject'.trans hobject.symm)
    rfl
  block := by
    intro a ha
    obtain ⟨slot, key, d, hd, hview⟩ := ht.views.covered a ha
    refine ⟨(slot, key), ⟨d, hd, hview⟩, ?_⟩
    rintro ⟨slot', key'⟩ ⟨d', hd', hview'⟩
    have hnull : d.view ≠ 0 := by
      intro h0
      rw [← hview, h0, ht.views.null] at ha
      cases ha
    by_contra hne
    have hplaces : ¬ (slot = slot' ∧ key = key') := fun h => hne (Prod.ext h.1.symm h.2.symm)
    have hapart := ht.views.apart slot key d slot' key' d' hd hd' hplaces
    exact hnull (hapart.view (hview.trans hview'.symm))

variable [Monoid V]

/-- Whatever tables the workers look up, hand over and merge, and in whatever order, nothing fails:
no assertion, no access to a view that is gone, no `free` of what was not allocated. The tables act
as the maps of the scheduler, nothing is leaked and the views of the user stay where they are. -/
theorem tables_refine (cfg : HashConfig) (R : Reducers) (keys : List Key) (initial : Key → V)
    (hkeys : ∀ key ∈ keys, key ∈ R.keys) : ∃ x₀, registerTables cfg R keys initial = some x₀ ∧
      x₀.views cfg = registeredViews keys initial ∧
      ∀ x, Reaches (ReducerTables.Step cfg R) x₀ x → x.Accounted cfg R keys ∧
        ∀ action, x.Legal cfg R action → ∃ y, x.act cfg R action = some y ∧
          y.views cfg = action.onViews (x.views cfg) := by
  obtain ⟨x₀, he, ht₀, hviews, -⟩ := registerTables_spec cfg initial hkeys
  refine ⟨x₀, he, hviews, fun x hrun => ?_⟩
  have ht : TablesInv cfg R (· ∈ keys) x := by
    apply hrun.preserves _ ht₀
    rintro x y hx ⟨action, hlegal, hact⟩
    obtain ⟨y', hact', hy, -⟩ := hx.act hlegal
    obtain rfl := Option.some.inj (hact'.symm.trans hact)
    exact hy
  refine ⟨ht.accounted, fun action hlegal => ?_⟩
  obtain ⟨y, hact, -, hy⟩ := ht.act hlegal
  exact ⟨y, hact, hy⟩

/-- Two reducers, used through two of the interfaces. -/
def sampleReducers : Reducers where
  keys := {15#64, 35#64}
  kind key := if key = 15#64 then .base else .reduceFn 7
  valid := by simp [isValid, isEmpty, isTombstone, keyEmpty, keyDeleted]
  few := by decide

/-- Both reducers are registered. -/
theorem tables_refine_two : ∃ x₀, registerTables headerConfig sampleReducers [15#64, 35#64]
      (fun _ => FreeMonoid.of true) = some x₀ ∧
    x₀.views headerConfig = registeredViews [15#64, 35#64] (fun _ => FreeMonoid.of true) ∧
    ∀ x, Reaches (ReducerTables.Step headerConfig sampleReducers) x₀ x →
      x.Accounted headerConfig sampleReducers [15#64, 35#64] ∧
        ∀ action, x.Legal headerConfig sampleReducers action → ∃ y,
          x.act headerConfig sampleReducers action = some y ∧
            y.views headerConfig = action.onViews (x.views headerConfig) :=
  tables_refine headerConfig sampleReducers [15#64, 35#64] (fun _ => FreeMonoid.of true)
    (by simp [sampleReducers])

end Runs

end Cheetah
