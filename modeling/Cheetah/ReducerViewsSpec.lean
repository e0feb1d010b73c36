import Cheetah.ReducerViews

/-! What a lookup and a merge do to the bindings of the tables and to the views in memory. -/
namespace Cheetah
open Function (update)

variable {cfg : HashConfig} {table left right : Option (Table ReducerData)}

/-- What a pointer to a table binds. -/
def bindingsOf (cfg : HashConfig) (table : Option (Table ReducerData)) : Bindings ReducerData :=
  fun key => table.bind fun t => lookupIn (t.used cfg) key

@[simp] theorem bindingsOf_none (key : Key) : bindingsOf cfg none key = none := rfl

/-- A table from which nothing was removed, or no table. -/
def SoundTable (cfg : HashConfig) (table : Option (Table ReducerData)) : Prop :=
  ∀ t, table = some t → InsertOnly cfg t (bindingsOf cfg table)

theorem soundTable_none : SoundTable cfg none := fun _ h => by cases h

theorem InsertOnly.bindings_eq {t : Table ReducerData} {m : Bindings ReducerData}
    (h : InsertOnly cfg t m) : bindingsOf cfg (some t) = m :=
  funext fun key => (h.counted.lookup h.represents key).symm

theorem InsertOnly.sound {t : Table ReducerData} {m : Bindings ReducerData}
    (h : InsertOnly cfg t m) : SoundTable cfg (some t) := by
  rintro _ ⟨⟩
  rw [h.bindings_eq]
  exact h

/-- The table behind the pointer, or the one that `get_local_hyper_table` allocates. -/
theorem SoundTable.getLocal (h : SoundTable cfg table) :
    InsertOnly cfg (getLocalHyperTable cfg table) (bindingsOf cfg table) := by
  cases table with
  | none => exact insertOnly_alloc cfg
  | some t => exact h t rfl

section Lookup

variable {V : Type} [Monoid V] {h : ViewHeap V} {key : Key} {kind : ReducerKind}
  {newView base : Address}

def ReducerKind.index : ReducerKind → ℕ
  | .base => 0
  | .reduceFn _ => 1
  | .reduceCFn _ => 2

/-- The view of a reducer is accessed through the interface of the reducer. -/
def OfKind (kind : ReducerKind) (d : ReducerData) : Prop := d.extra.index = kind.index

theorem ofKind_data : OfKind kind (kind.data newView base) := by
  cases kind <;> rfl

theorem ofKind_leftmost : OfKind kind (kind.leftmost key) := by
  cases kind <;> rfl

theorem data_view : (kind.data newView base).view = newView := by
  cases kind <;> rfl

theorem insertNewView_spec {t : Table ReducerData} {m : Bindings ReducerData} {d : ReducerData}
    (ht : InsertOnly cfg t m) (hv : isValid key = true) (hfits : t.occupancy < loadBound (2^27)) :
    ∃ u, insertNewView cfg h t key d = some (d.object, u, h.construct d) ∧
      InsertOnly cfg u (update m key (some d)) := by
  obtain ⟨u, he, hu⟩ := ht.insert (b := ⟨key, 0, d⟩) hv hfits
  exact ⟨u, by rw [insertNewView, he], hu⟩

/-- A view that is found is read through the interface of its reducer. -/
theorem lookup_found {i : ℕ}
    (hf : findHyperobject cfg (getLocalHyperTable cfg table) key = some i)
    (hkind : OfKind kind (bucketAt (getLocalHyperTable cfg table).buckets i).data) :
    kind.lookup cfg h table key newView base =
      some ((bucketAt (getLocalHyperTable cfg table).buckets i).data.object,
        some (getLocalHyperTable cfg table), h) := by
  cases hextra : (bucketAt (getLocalHyperTable cfg table).buckets i).data.extra with
  | base r =>
    cases kind with
    | base =>
      simp [ReducerKind.lookup, reducerLookup0, reducerLookup, hf, ReducerData.getBase, hextra,
        ReducerData.object]
    | reduceFn f | reduceCFn f =>
      rw [OfKind, hextra] at hkind
      cases hkind
  | reduceFn f =>
    cases kind with
    | reduceFn f' =>
      simp [ReducerKind.lookup, reducerLookup1, reducerLookup, hf, hextra, ReducerData.object]
    | base | reduceCFn f' =>
      rw [OfKind, hextra] at hkind
      cases hkind
  | reduceCFn f =>
    cases kind with
    | reduceCFn f' =>
      simp [ReducerKind.lookup, reducerLookup2, reducerLookup, hf, hextra, ReducerData.object]
    | base | reduceFn f' =>
      rw [OfKind, hextra] at hkind
      cases hkind

theorem lookup_missing {res : Address × Table ReducerData × ViewHeap V}
    (hf : findHyperobject cfg (getLocalHyperTable cfg table) key = none)
    (he : insertNewView cfg h (getLocalHyperTable cfg table) key (kind.data newView base) =
      some res) :
    kind.lookup cfg h table key newView base = some (res.1, some res.2.1, res.2.2) := by
  cases kind with
  | base =>
    have he' : insertNewView0 cfg h (getLocalHyperTable cfg table) key newView base = _ := he
    simp [ReducerKind.lookup, reducerLookup0, reducerLookup, hf, he']
  | reduceFn f =>
    have he' : insertNewView1 cfg h (getLocalHyperTable cfg table) key newView f = _ := he
    simp [ReducerKind.lookup, reducerLookup1, reducerLookup, hf, he']
  | reduceCFn f =>
    have he' : insertNewView2 cfg h (getLocalHyperTable cfg table) key newView f = _ := he
    simp [ReducerKind.lookup, reducerLookup2, reducerLookup, hf, he']

/-- A lookup returns the view of the table, or it puts in a new one. -/
theorem lookup_spec (hs : SoundTable cfg table) (hv : isValid key = true)
    (hfits : (getLocalHyperTable cfg table).occupancy < loadBound (2^27))
    (hkind : ∀ d, bindingsOf cfg table key = some d → OfKind kind d) :
    ∃ t d h', kind.lookup cfg h table key newView base = some (d.object, some t, h') ∧
      SoundTable cfg (some t) ∧
      (bindingsOf cfg table key = some d ∧ bindingsOf cfg (some t) = bindingsOf cfg table ∧
          h' = h ∨
        bindingsOf cfg table key = none ∧ d = kind.data newView base ∧
          bindingsOf cfg (some t) = update (bindingsOf cfg table) key (some d) ∧
            h' = h.construct d) := by
  have ht := hs.getLocal
  have hfind := ht.find hv
  cases hf : findHyperobject cfg (getLocalHyperTable cfg table) key with
  | some i =>
    rw [hf, Option.map_some] at hfind
    exact ⟨_, _, h, lookup_found hf (hkind _ hfind.symm), ht.sound,
      .inl ⟨hfind.symm, ht.bindings_eq, rfl⟩⟩
  | none =>
    rw [hf] at hfind
    obtain ⟨u, he, hu⟩ := insertNewView_spec (h := h) (d := kind.data newView base) ht hv hfits
    exact ⟨u, _, _, lookup_missing hf he, hu.sound,
      .inr ⟨hfind.symm, rfl, hu.bindings_eq, rfl⟩⟩

end Lookup

section Logs

variable {P : ℕ → Table ReducerData → Bindings ReducerData → Prop}

theorem mem_of_lookupIn {l : List (Bucket ReducerData)} {key : Key} {d : ReducerData}
    (h : lookupIn l key = some d) : ∃ b ∈ l, b.live = true ∧ b.key = key := by
  obtain ⟨b, hb, -⟩ := Option.map_eq_some_iff.mp h
  have hkey := List.find?_some hb
  simp only [Bool.and_eq_true, decide_eq_true_eq] at hkey
  exact ⟨b, List.mem_of_find?_eq_some hb, hkey⟩

/-- Where no key sits in two live buckets, a lookup finds the data of any of them. -/
theorem lookupIn_of_mem {l : List (Bucket ReducerData)}
    (hpair : l.Pairwise fun a b => a.live = true → a.key ≠ b.key) {b : Bucket ReducerData}
    (hb : b ∈ l) (hlive : b.live = true) : lookupIn l b.key = some b.data := by
  induction l with
  | nil => cases hb
  | cons c l ih =>
    obtain ⟨hc, hrest⟩ := List.pairwise_cons.mp hpair
    rcases List.mem_cons.mp hb with rfl | hmem
    · exact lookupIn_cons_self hlive l
    · rw [lookupIn_cons_of_ne (hc b hmem)]
      exact ih hrest hmem

/-- What the scan does to the views of a bucket's key, where `m` are the bindings of the
destination. -/
def scanEvents (leftDst : Bool) (m : Bindings ReducerData) (b : Bucket ReducerData) :
    List ViewEvent :=
  mergeEvents b.key (sidesOf leftDst (m b.key) (some b.data)).1
    (sidesOf leftDst (m b.key) (some b.data)).2

/-- The scan treats the keys of the source one after another. -/
theorem mergeFold_log (hops : FiniteMapOps cfg P) (leftDst : Bool) :
    ∀ (l : List (Bucket ReducerData)) (n : ℕ) (t : Table ReducerData) (m : Bindings ReducerData)
      (log : List ViewEvent), P n t m → l.countP Bucket.live ≤ n →
      l.Pairwise (fun a b => a.live = true → a.key ≠ b.key) →
      (∀ key d d', m key = some d → lookupIn l key = some d' → d.extra.index = d'.extra.index) →
      ∃ u n' m', l.foldlM (mergeBucket cfg leftDst) (t, log) =
          some (u, log ++ (l.filter Bucket.live).flatMap (scanEvents leftDst m)) ∧
        P n' u m' ∧ ∀ key, m' key = mergeViews leftDst (m key) (lookupIn l key) := by
  intro l
  induction l with
  | nil =>
    intro n t m log hP _ _ _
    refine ⟨t, n, m, by simp, hP, fun key => ?_⟩
    cases leftDst <;> cases h : m key <;> rfl
  | cons b l ih =>
    intro n t m log hP hcount hpair hkind
    rw [List.pairwise_cons] at hpair
    by_cases hb : b.live = true
    · rw [List.countP_cons_of_pos hb] at hcount
      obtain ⟨k, rfl⟩ : ∃ k, n = k + 1 := ⟨n - 1, by omega⟩
      obtain ⟨u, events, he, hu, hevents⟩ := mergeBucket_spec hops hP hb leftDst log
        fun d hd => hkind b.key d b.data hd (lookupIn_cons_self hb l)
      have hother : ∀ c ∈ l.filter Bucket.live, c.key ≠ b.key := fun c hc =>
        (hpair.1 c (List.mem_filter.mp hc).1 hb).symm
      have hgone : lookupIn l b.key = none := by
        rw [lookupIn, Option.map_eq_none_iff, List.find?_eq_none]
        intro c hc hcb
        simp only [Bool.and_eq_true, decide_eq_true_eq] at hcb
        exact hpair.1 c hc hb hcb.2.symm
      have hne : ∀ key, key ≠ b.key → lookupIn (b :: l) key = lookupIn l key := fun key hk =>
        lookupIn_cons_of_ne (fun _ => Ne.symm hk) l
      have hkind' : ∀ key d d', update m b.key (mergeViews leftDst (m b.key) (some b.data)) key =
          some d → lookupIn l key = some d' → d.extra.index = d'.extra.index := by
        intro key d d' hd hd'
        by_cases hk : key = b.key
        · rw [hk, hgone] at hd'
          cases hd'
        · rw [Function.update_of_ne hk] at hd
          exact hkind key d d' hd (by rw [hne key hk]; exact hd')
      obtain ⟨u', n', m', he', hu', hm'⟩ := ih k u _ (log ++ events) hu (by omega) hpair.2 hkind'
      refine ⟨u', n', m', ?_, hu', fun key => ?_⟩
      · have hrest : (l.filter Bucket.live).flatMap (scanEvents leftDst
            (update m b.key (mergeViews leftDst (m b.key) (some b.data)))) =
              (l.filter Bucket.live).flatMap (scanEvents leftDst m) := by
          apply List.flatMap_congr
          intro c hc
          rw [scanEvents, scanEvents, Function.update_of_ne (hother c hc)]
        rw [List.foldlM_cons, he, List.filter_cons_of_pos hb, List.flatMap_cons, scanEvents,
          ← hevents, ← List.append_assoc, ← hrest]
        exact he'
      · rw [hm' key]
        by_cases hk : key = b.key
        · rw [hk, Function.update_self, hgone, lookupIn_cons_self hb]
          cases leftDst <;> cases m b.key <;> rfl
        · rw [Function.update_of_ne hk, hne key hk]
    · rw [List.countP_cons_of_neg hb] at hcount
      have hsame : ∀ key, lookupIn (b :: l) key = lookupIn l key := fun key =>
        lookupIn_cons_of_ne (fun h => absurd h hb) l
      obtain ⟨u', n', m', he', hu', hm'⟩ := ih n t m log hP hcount hpair.2
        fun key d d' hd hd' => hkind key d d' hd (by rw [hsame]; exact hd')
      refine ⟨u', n', m', ?_, hu', fun key => by rw [hm', hsame]⟩
      have hskip : mergeBucket cfg leftDst (t, log) b = some (t, log) := if_neg hb
      rw [List.foldlM_cons, hskip, List.filter_cons_of_neg hb]
      exact he'

/-- The result of a merge and the order in which the views of the keys are reduced. -/
structure MergesTo (cfg : HashConfig) (left right res : Option (Table ReducerData))
    (log : List ViewEvent) (keys : List Key) : Prop where
  merge : Table.mergeTwoHts cfg left right = some (res, log)
  sound : SoundTable cfg res
  bindings : bindingsOf cfg res = fun key => (bindingsOf cfg left key).or (bindingsOf cfg right key)
  none_iff : res = none ↔ left = none ∧ right = none
  nodup : keys.Nodup
  both : ∀ key l r, bindingsOf cfg left key = some l → bindingsOf cfg right key = some r →
    key ∈ keys
  log_eq : log = keys.flatMap fun key =>
    mergeEvents key (bindingsOf cfg left key) (bindingsOf cfg right key)

theorem InsertOnly.none_of_empty {t : Table ReducerData} {m : Bindings ReducerData}
    (h : InsertOnly cfg t m) (hempty : t.occupancy = 0) (key : Key) : m key = none :=
  h.counted.none_of_empty h.represents hempty key

/-- The scan of either table, for few enough keys. -/
theorem mergeInto_spec {dst src : Table ReducerData} {ml mr : Bindings ReducerData}
    {keys : Finset Key} (leftDst : Bool) (hdst : InsertOnly cfg dst ml)
    (hsrc : InsertOnly cfg src mr) (hl : ∀ key, ml key ≠ none → key ∈ keys)
    (hr : ∀ key, mr key ≠ none → key ∈ keys) (hcard : 2 * keys.card < loadBound (2^27))
    (hkind : ∀ key d d', ml key = some d → mr key = some d' → d.extra.index = d'.extra.index) :
    ∃ (u : Table ReducerData) (order : List Key),
      mergeInto cfg leftDst dst src = some (u, order.flatMap fun key =>
        mergeEvents key (sidesOf leftDst (ml key) (mr key)).1
          (sidesOf leftDst (ml key) (mr key)).2) ∧
      InsertOnly cfg u (fun key => mergeViews leftDst (ml key) (mr key)) ∧ order.Nodup ∧
      ∀ key d, mr key = some d → key ∈ order := by
  have hlookup := hsrc.counted.lookup hsrc.represents
  have hP : InsertOnlyHolds cfg src.occupancy dst ml := by
    have hsize := hsrc.occupancy_le hr
    exact ⟨hdst, keys, hl, by omega⟩
  obtain ⟨u, n', m', he, hu, hm⟩ := mergeFold_log insertOnly_finiteMapOps leftDst
    (src.used cfg) src.occupancy dst ml [] hP hsrc.counted.count.ge hsrc.counted.pairwise
    fun key d d' hd hd' => hkind key d d' hd (by rw [hlookup]; exact hd')
  have hpair := hsrc.counted.pairwise
  refine ⟨u, ((src.used cfg).filter Bucket.live).map Bucket.key, ?_, ?_, ?_, fun key d hd => ?_⟩
  · have hlog : ((src.used cfg).filter Bucket.live).flatMap (scanEvents leftDst ml) =
        (((src.used cfg).filter Bucket.live).map Bucket.key).flatMap fun key =>
          mergeEvents key (sidesOf leftDst (ml key) (mr key)).1
            (sidesOf leftDst (ml key) (mr key)).2 := by
      rw [List.flatMap_map]
      apply List.flatMap_congr
      intro b hb
      obtain ⟨hmem, hlive⟩ := List.mem_filter.mp hb
      rw [scanEvents, hlookup, lookupIn_of_mem hpair hmem hlive]
    rw [← hlog]
    exact he
  · have hm' : m' = fun key => mergeViews leftDst (ml key) (mr key) := by
      funext key
      rw [hm, ← hlookup]
    exact hm' ▸ hu.toInsertOnly
  · rw [List.Nodup, List.pairwise_map, List.pairwise_filter]
    exact hpair.imp fun h hl _ => h hl
  · rw [hlookup] at hd
    obtain ⟨b, hmem, hlive, rfl⟩ := mem_of_lookupIn hd
    exact List.mem_map_of_mem (List.mem_filter.mpr ⟨hmem, hlive⟩)

/-- A merge with a table that has no views. -/
theorem mergesTo_of_none {res : Option (Table ReducerData)}
    (hmerge : Table.mergeTwoHts cfg left right = some (res, [])) (hres : SoundTable cfg res)
    (hbindings : bindingsOf cfg res =
      fun key => (bindingsOf cfg left key).or (bindingsOf cfg right key))
    (hnone : res = none ↔ left = none ∧ right = none)
    (hempty : (∀ key, bindingsOf cfg left key = none) ∨ ∀ key, bindingsOf cfg right key = none) :
    MergesTo cfg left right res [] [] where
  merge := hmerge
  sound := hres
  bindings := hbindings
  none_iff := hnone
  nodup := List.nodup_nil
  both := by
    intro key l r hl hr
    rcases hempty with h | h
    · rw [h] at hl
      cases hl
    · rw [h] at hr
      cases hr
  log_eq := rfl

/-- A merge binds the keys of both tables and reduces the views of each common key once. -/
theorem mergeTwoHts_spec {keys : Finset Key} (hl : SoundTable cfg left) (hr : SoundTable cfg right)
    (hleft : ∀ key, bindingsOf cfg left key ≠ none → key ∈ keys)
    (hright : ∀ key, bindingsOf cfg right key ≠ none → key ∈ keys)
    (hcard : 2 * keys.card < loadBound (2^27))
    (hkind : ∀ key l r, bindingsOf cfg left key = some l → bindingsOf cfg right key = some r →
      l.extra.index = r.extra.index) :
    ∃ res log order, MergesTo cfg left right res log order := by
  cases left with
  | none =>
    refine ⟨right, [], [], mergesTo_of_none rfl hr ?_ ?_ (.inl fun _ => rfl)⟩
    · funext key
      rfl
    · simp
  | some l =>
    have hl' := hl l rfl
    cases right with
    | none =>
      refine ⟨some l, [], [], mergesTo_of_none rfl hl ?_ (by simp) (.inr fun _ => rfl)⟩
      funext key
      rw [bindingsOf_none, Option.or_none]
    | some r =>
      have hr' := hr r rfl
      by_cases hl0 : l.occupancy = 0
      · have hnone := hl'.none_of_empty hl0
        refine ⟨some r, [], [], mergesTo_of_none ?_ hr ?_ (by simp) (.inl hnone)⟩
        · rw [Table.mergeTwoHts, if_pos hl0]
        · funext key
          rw [hnone, Option.none_or]
      · by_cases hr0 : r.occupancy = 0
        · have hnone := hr'.none_of_empty hr0
          refine ⟨some l, [], [], mergesTo_of_none ?_ hl ?_ (by simp) (.inr hnone)⟩
          · rw [Table.mergeTwoHts, if_neg hl0, if_pos hr0]
          · funext key
            rw [hnone, Option.or_none]
        · by_cases hge : l.occupancy ≥ r.occupancy
          · obtain ⟨u, order, he, hu, hnodup, hmem⟩ := mergeInto_spec true hl' hr' hleft hright
              hcard hkind
            refine ⟨some u, _, order, ⟨?_, hu.sound, hu.bindings_eq, by simp, hnodup, ?_, rfl⟩⟩
            · rw [Table.mergeTwoHts, if_neg hl0, if_neg hr0, if_pos hge, he]
              rfl
            · exact fun key _ d _ hd => hmem key d hd
          · obtain ⟨u, order, he, hu, hnodup, hmem⟩ := mergeInto_spec false hr' hl' hright hleft
              hcard fun key d d' hd hd' => (hkind key d' d hd' hd).symm
            refine ⟨some u, _, order, ⟨?_, hu.sound, hu.bindings_eq, by simp, hnodup, ?_, rfl⟩⟩
            · rw [Table.mergeTwoHts, if_neg hl0, if_neg hr0, if_neg hge, he]
              rfl
            · exact fun key d _ hd _ => hmem key d hd

end Logs

/-- Two views do not share memory. -/
structure Apart (d d' : ReducerData) : Prop where
  object : d.object ≠ d'.object
  objectView : d.object ≠ d'.view
  viewObject : d.view ≠ d'.object
  view : d.view = d'.view → d.view = 0

theorem Apart.symm {d d' : ReducerData} (h : Apart d d') : Apart d' d where
  object := h.object.symm
  objectView := h.viewObject.symm
  viewObject := h.objectView.symm
  view := fun he => he.trans (h.view he.symm)

section Heaps

variable {V : Type} [Monoid V] {h h' : ViewHeap V} {l r : ReducerData} {x y : V}

/-- The view is alive in a block of its own. -/
structure ViewHeap.Owns (h : ViewHeap V) (d : ReducerData) (x : V) : Prop where
  value : h.value d.object = some x
  block : h.block d.view = true
  ne : d.view ≠ 0

/-- What is left of two views that were reduced. -/
def ViewHeap.reduced (h : ViewHeap V) (l r : ReducerData) (x : V) : ViewHeap V where
  value := update (update (update h.value l.object (some x)) r.object none) r.view none
  block := update h.block r.view false

/-- `bucket::reduce` multiplies the views, destroys the right one and frees its block. -/
theorem applyAll_mergeEvents (key : Key) (hindex : l.extra.index = r.extra.index)
    (hl : h.value l.object = some x) (hr : h.Owns r y) (hapart : Apart l r) :
    h.applyAll (mergeEvents key (some l) (some r)) = some (h.reduced l r (x * y)) := by
  have hreduce : h.reduce l.object r.object =
      some { h with value := update h.value l.object (some (x * y)) } := by
    rw [ViewHeap.reduce, hl, hr.value]
  have hright : update h.value l.object (some (x * y)) r.object = some y := by
    rw [Function.update_of_ne hapart.object.symm, hr.value]
  cases hel : l.extra with
  | base lr =>
    cases her : r.extra with
    | base rr =>
      have hlo : l.object = lr := by rw [ReducerData.object, hel]
      have hro : r.object = rr := by rw [ReducerData.object, her]
      rw [hlo, hro] at hreduce hright
      have hevents : mergeEvents key (some l) (some r) =
          [.callBase key lr rr, .destroy key rr, .free key r.view] := by
        simp [mergeEvents, reduceBuckets, hel, her]
      rw [hevents, ViewHeap.applyAll, List.foldlM_cons, ViewHeap.apply, hreduce]
      simp [ViewHeap.apply, hright, hr.ne, hr.block, ViewHeap.reduced, hlo, hro]
    | reduceFn f | reduceCFn f =>
      rw [hel, her] at hindex
      cases hindex
  | reduceFn f =>
    cases her : r.extra with
    | reduceFn f' =>
      have hlo : l.object = l.view := by rw [ReducerData.object, hel]
      have hro : r.object = r.view := by rw [ReducerData.object, her]
      rw [hlo, hro] at hreduce
      have hevents : mergeEvents key (some l) (some r) =
          [.callFn key f l.view r.view, .free key r.view] := by
        simp [mergeEvents, reduceBuckets, hel, her]
      rw [hevents, ViewHeap.applyAll, List.foldlM_cons, ViewHeap.apply, hreduce]
      simp [ViewHeap.apply, hr.ne, hr.block, ViewHeap.reduced, hlo, hro]
    | base rr | reduceCFn f' =>
      rw [hel, her] at hindex
      cases hindex
  | reduceCFn f =>
    cases her : r.extra with
    | reduceCFn f' =>
      have hlo : l.object = l.view := by rw [ReducerData.object, hel]
      have hro : r.object = r.view := by rw [ReducerData.object, her]
      rw [hlo, hro] at hreduce
      have hevents : mergeEvents key (some l) (some r) =
          [.callCFn key f l.view r.view, .free key r.view] := by
        simp [mergeEvents, reduceBuckets, hel, her]
      rw [hevents, ViewHeap.applyAll, List.foldlM_cons, ViewHeap.apply, hreduce]
      simp [ViewHeap.apply, hr.ne, hr.block, ViewHeap.reduced, hlo, hro]
    | base rr | reduceFn f' =>
      rw [hel, her] at hindex
      cases hindex

variable {ml mr : Bindings ReducerData} {order : List Key}

/-- The views of the keys in `order` can be reduced: the right ones are in blocks of their own. -/
structure Reducible (h : ViewHeap V) (ml mr : Bindings ReducerData) (order : List Key) : Prop where
  index : ∀ key ∈ order, ∀ l r, ml key = some l → mr key = some r → l.extra.index = r.extra.index
  left : ∀ key ∈ order, ∀ l r, ml key = some l → mr key = some r → ∃ x, h.value l.object = some x
  right : ∀ key ∈ order, ∀ l r, ml key = some l → mr key = some r → ∃ y, h.Owns r y
  apart : ∀ key ∈ order, ∀ l r, ml key = some l → mr key = some r → Apart l r
  others : ∀ key ∈ order, ∀ key' ∈ order, key ≠ key' → ∀ l r l' r', ml key = some l →
    mr key = some r → ml key' = some l' → mr key' = some r' →
      Apart l l' ∧ Apart l r' ∧ Apart r l' ∧ Apart r r'

/-- The views of the keys in `order` have been reduced. -/
structure ReducedHeap (ml mr : Bindings ReducerData) (order : List Key) (h h' : ViewHeap V) :
    Prop where
  left : ∀ key ∈ order, ∀ l r x y, ml key = some l → mr key = some r →
    h.value l.object = some x → h.value r.object = some y → h'.value l.object = some (x * y)
  right : ∀ key ∈ order, ∀ l r, ml key = some l → mr key = some r →
    h'.value r.object = none ∧ h'.value r.view = none ∧ h'.block r.view = false
  value : ∀ a, (∀ key ∈ order, ∀ l r, ml key = some l → mr key = some r →
    a ≠ l.object ∧ a ≠ r.object ∧ a ≠ r.view) → h'.value a = h.value a
  block : ∀ a, (∀ key ∈ order, ∀ l r, ml key = some l → mr key = some r → a ≠ r.view) →
    h'.block a = h.block a

omit [Monoid V] in
theorem ViewHeap.reduced_value {a : Address} (hl : a ≠ l.object) (hr : a ≠ r.object)
    (hv : a ≠ r.view) : (h.reduced l r x).value a = h.value a :=
  (Function.update_of_ne hv _ _).trans
    ((Function.update_of_ne hr _ _).trans (Function.update_of_ne hl _ _))

omit [Monoid V] in
theorem Reducible.tail {key : Key} (hm : Reducible h ml mr (key :: order)) :
    Reducible h ml mr order where
  index := fun k hk => hm.index k (List.mem_cons_of_mem key hk)
  left := fun k hk => hm.left k (List.mem_cons_of_mem key hk)
  right := fun k hk => hm.right k (List.mem_cons_of_mem key hk)
  apart := fun k hk => hm.apart k (List.mem_cons_of_mem key hk)
  others := fun k hk k' hk' =>
    hm.others k (List.mem_cons_of_mem key hk) k' (List.mem_cons_of_mem key hk')

omit [Monoid V] in
/-- The reduction of one key leaves the views of the others alone. -/
theorem Reducible.reduced {key : Key} (hm : Reducible h ml mr (key :: order))
    (hkey : key ∉ order) (hl : ml key = some l) (hr : mr key = some r) (x : V) :
    Reducible (h.reduced l r x) ml mr order := by
  have hothers : ∀ k ∈ order, ∀ l' r', ml k = some l' → mr k = some r' →
      Apart l l' ∧ Apart l r' ∧ Apart r l' ∧ Apart r r' := by
    intro k hk l' r' hl' hr'
    have hne : key ≠ k := fun he => hkey (he ▸ hk)
    exact hm.others key List.mem_cons_self k (List.mem_cons_of_mem key hk) hne l r l' r' hl hr
      hl' hr'
  refine ⟨hm.tail.index, fun k hk l' r' hl' hr' => ?_, fun k hk l' r' hl' hr' => ?_, hm.tail.apart,
    hm.tail.others⟩
  · obtain ⟨hll, -, hrl, -⟩ := hothers k hk l' r' hl' hr'
    rw [ViewHeap.reduced_value hll.object.symm hrl.object.symm hrl.viewObject.symm]
    exact hm.tail.left k hk l' r' hl' hr'
  · obtain ⟨-, hlr, -, hrr⟩ := hothers k hk l' r' hl' hr'
    obtain ⟨y, hy⟩ := hm.tail.right k hk l' r' hl' hr'
    obtain ⟨z, hz⟩ := hm.right key List.mem_cons_self l r hl hr
    refine ⟨y, ?_, ?_, hy.ne⟩
    · rw [ViewHeap.reduced_value hlr.object.symm hrr.object.symm hrr.viewObject.symm, hy.value]
    · have hne : r'.view ≠ r.view := fun he => hz.ne (hrr.view he.symm)
      exact (Function.update_of_ne hne _ _).trans hy.block

/-- One more key is reduced first. -/
theorem ReducedHeap.cons {key : Key} (hred : ReducedHeap ml mr order (h.reduced l r (x * y)) h')
    (hl : ml key = some l) (hr : mr key = some r) (hx : h.value l.object = some x) (hy : h.Owns r y)
    (hapart : Apart l r) (hothers : ∀ k ∈ order, ∀ l' r', ml k = some l' → mr k = some r' →
      Apart l l' ∧ Apart l r' ∧ Apart r l' ∧ Apart r r') :
    ReducedHeap ml mr (key :: order) h h' := by
  have hobject : (h.reduced l r (x * y)).value r.object = none := by
    by_cases he : r.object = r.view
    · exact he ▸ Function.update_self _ _ _
    · exact (Function.update_of_ne he _ _).trans (Function.update_self _ _ _)
  have hfirst : h'.value l.object = some (x * y) := by
    rw [hred.value l.object fun k hk l' r' hl' hr' => ?_]
    · exact (Function.update_of_ne hapart.objectView _ _).trans
        ((Function.update_of_ne hapart.object _ _).trans (Function.update_self _ _ _))
    · obtain ⟨hll, hlr, -, -⟩ := hothers k hk l' r' hl' hr'
      exact ⟨hll.object, hlr.object, hlr.objectView⟩
  have hgone : h'.value r.object = none ∧ h'.value r.view = none ∧ h'.block r.view = false := by
    refine ⟨?_, ?_, ?_⟩
    · rw [hred.value r.object fun k hk l' r' hl' hr' => ?_]
      · exact hobject
      · obtain ⟨-, -, hrl, hrr⟩ := hothers k hk l' r' hl' hr'
        exact ⟨hrl.object, hrr.object, hrr.objectView⟩
    · rw [hred.value r.view fun k hk l' r' hl' hr' => ?_]
      · exact Function.update_self _ _ _
      · obtain ⟨-, -, hrl, hrr⟩ := hothers k hk l' r' hl' hr'
        exact ⟨hrl.viewObject, hrr.viewObject, fun he => hy.ne (hrr.view he)⟩
    · rw [hred.block r.view fun k hk l' r' hl' hr' => ?_]
      · exact Function.update_self _ _ _
      · obtain ⟨-, -, -, hrr⟩ := hothers k hk l' r' hl' hr'
        exact fun he => hy.ne (hrr.view he)
  constructor
  case left =>
    intro k hk l' r' x' y' hl' hr' hx' hy'
    rcases List.mem_cons.mp hk with rfl | hk
    · obtain rfl := Option.some.inj (hl.symm.trans hl')
      obtain rfl := Option.some.inj (hr.symm.trans hr')
      rw [hfirst, Option.some.inj (hx'.symm.trans hx), Option.some.inj (hy'.symm.trans hy.value)]
    · obtain ⟨hll, hlr, hrl, hrr⟩ := hothers k hk l' r' hl' hr'
      apply hred.left k hk l' r' x' y' hl' hr'
      · rw [ViewHeap.reduced_value hll.object.symm hrl.object.symm hrl.viewObject.symm, hx']
      · rw [ViewHeap.reduced_value hlr.object.symm hrr.object.symm hrr.viewObject.symm, hy']
  case right =>
    intro k hk l' r' hl' hr'
    rcases List.mem_cons.mp hk with rfl | hk
    · obtain rfl := Option.some.inj (hr.symm.trans hr')
      exact hgone
    · exact hred.right k hk l' r' hl' hr'
  case value =>
    intro a ha
    obtain ⟨h1, h2, h3⟩ := ha key List.mem_cons_self l r hl hr
    rw [hred.value a fun k hk => ha k (List.mem_cons_of_mem key hk),
      ViewHeap.reduced_value h1 h2 h3]
  case block =>
    intro a ha
    rw [hred.block a fun k hk => ha k (List.mem_cons_of_mem key hk)]
    exact Function.update_of_ne (ha key List.mem_cons_self l r hl hr) _ _

/-- All the views of a merge are reduced, none of them twice. -/
theorem Reducible.applyAll (hm : Reducible h ml mr order) (hnodup : order.Nodup) :
    ∃ h', h.applyAll (order.flatMap fun key => mergeEvents key (ml key) (mr key)) = some h' ∧
      ReducedHeap ml mr order h h' := by
  induction order generalizing h with
  | nil =>
    refine ⟨h, rfl, ?_⟩
    constructor <;> simp
  | cons key order ih =>
    obtain ⟨hkey, hnodup'⟩ := List.nodup_cons.mp hnodup
    by_cases hboth : ∃ l r, ml key = some l ∧ mr key = some r
    · obtain ⟨l, r, hl, hr⟩ := hboth
      obtain ⟨x, hx⟩ := hm.left key List.mem_cons_self l r hl hr
      obtain ⟨y, hy⟩ := hm.right key List.mem_cons_self l r hl hr
      have hapart := hm.apart key List.mem_cons_self l r hl hr
      have hindex := hm.index key List.mem_cons_self l r hl hr
      have hfirst := applyAll_mergeEvents key hindex hx hy hapart
      obtain ⟨h', he, hred⟩ := ih (hm.reduced hkey hl hr (x * y)) hnodup'
      have hothers : ∀ k ∈ order, ∀ l' r', ml k = some l' → mr k = some r' →
          Apart l l' ∧ Apart l r' ∧ Apart r l' ∧ Apart r r' := by
        intro k hk l' r' hl' hr'
        have hne : key ≠ k := fun he => hkey (he ▸ hk)
        exact hm.others key List.mem_cons_self k (List.mem_cons_of_mem key hk) hne l r l' r' hl hr
          hl' hr'
      refine ⟨h', ?_, ?_⟩
      · rw [List.flatMap_cons, hl, hr, ViewHeap.applyAll, List.foldlM_append]
        rw [ViewHeap.applyAll] at hfirst he
        rw [hfirst]
        exact he
      · exact hred.cons hl hr hx hy hapart hothers
    · have hskip : mergeEvents key (ml key) (mr key) = [] := by
        cases hl : ml key with
        | none => rfl
        | some l =>
          cases hr : mr key with
          | none => rfl
          | some r => exact absurd ⟨l, r, hl, hr⟩ hboth
      obtain ⟨h', he, hred⟩ := ih hm.tail hnodup'
      refine ⟨h', by rw [List.flatMap_cons, hskip]; exact he, ?_⟩
      have hkeep : ∀ k ∈ key :: order, ∀ l r, ml k = some l → mr k = some r → k ∈ order := by
        intro k hk l r hl hr
        rcases List.mem_cons.mp hk with rfl | hk
        · exact absurd ⟨l, r, hl, hr⟩ hboth
        · exact hk
      exact ⟨fun k hk l r x y hl hr => hred.left k (hkeep k hk l r hl hr) l r x y hl hr,
        fun k hk l r hl hr => hred.right k (hkeep k hk l r hl hr) l r hl hr,
        fun a ha => hred.value a fun k hk => ha k (List.mem_cons_of_mem key hk),
        fun a ha => hred.block a fun k hk => ha k (List.mem_cons_of_mem key hk)⟩

end Heaps

end Cheetah
