import Cheetah.HyperTableResize

/-! `merge_two_hts`: one table is scanned, and its views are put into the other or reduced with the
views there. -/
namespace Cheetah

abbrev Address := ℕ

/-- The variant `extra` of `reducer_data`, a pointer of one of three types. -/
inductive ReducerExtra where
  | base (r : Address)
  | reduceFn (f : Address)
  | reduceCFn (f : Address)
deriving DecidableEq

def ReducerExtra.index : ReducerExtra → ℕ
  | .base _ => 0
  | .reduceFn _ => 1
  | .reduceCFn _ => 2

structure ReducerData where
  view : Address
  extra : ReducerExtra
deriving DecidableEq

instance : Inhabited ReducerData := ⟨⟨0, .base 0⟩⟩

/-- What is done to the views of a key. -/
inductive ViewEvent where
  /-- `leftmost->reduce(left_r, right_r)`, where the key is the leftmost view. -/
  | callBase (key : Key) (leftR rightR : Address)
  | callFn (key : Key) (f leftView rightView : Address)
  | callCFn (key : Key) (f leftView rightView : Address)
  | destroy (key : Key) (r : Address)
  | free (key : Key) (view : Address)
deriving DecidableEq

def ViewEvent.key : ViewEvent → Key
  | .callBase key _ _ | .callFn key _ _ _ | .callCFn key _ _ _ | .destroy key _ | .free key _ => key

/-- `bucket::reduce` on the data of two buckets of one key; its first assertion may fail. -/
def reduceBuckets (key : Key) (left right : ReducerData) : Option (List ViewEvent) :=
  match left.extra, right.extra with
  | .base leftR, .base rightR =>
    some [.callBase key leftR rightR, .destroy key rightR, .free key right.view]
  | .reduceFn f, .reduceFn _ => some [.callFn key f left.view right.view, .free key right.view]
  | .reduceCFn f, .reduceCFn _ => some [.callCFn key f left.view right.view, .free key right.view]
  | _, _ => none

/-- The body of the loop of `merge_two_hts`, on the destination and what was done so far. -/
def mergeBucket (cfg : HashConfig) (leftDst : Bool) (dst : Table ReducerData × List ViewEvent)
    (b : Bucket ReducerData) : Option (Table ReducerData × List ViewEvent) :=
  if isValid b.key then
    match findHyperobject cfg dst.1 b.key with
    | none => (insertHyperobject cfg dst.1 b).map fun res => (res.1, dst.2)
    | some i =>
      let dstBucket := bucketAt dst.1.buckets i
      if leftDst then
        (reduceBuckets b.key dstBucket.data b.data).map fun events => (dst.1, dst.2 ++ events)
      else
        (reduceBuckets b.key b.data dstBucket.data).map fun events =>
          ({ dst.1 with buckets := dst.1.buckets.set i { dstBucket with data := b.data } },
            dst.2 ++ events)
  else some dst

/-- The loop of `merge_two_hts`: an array is scanned up to its occupancy. -/
def mergeInto (cfg : HashConfig) (leftDst : Bool) (dst src : Table ReducerData) :
    Option (Table ReducerData × List ViewEvent) :=
  (src.buckets.take (if src.capacity < cfg.minHtCapacity then src.occupancy else src.capacity)).foldlM
    (mergeBucket cfg leftDst) (dst, [])

/-- `merge_two_hts`, with what it does to the views. -/
def Table.mergeTwoHts (cfg : HashConfig) : Option (Table ReducerData) →
    Option (Table ReducerData) → Option (Option (Table ReducerData) × List ViewEvent)
  | none, right => some (right, [])
  | left, none => some (left, [])
  | some left, some right =>
    if left.occupancy = 0 then some (some right, [])
    else if right.occupancy = 0 then some (some left, [])
    else if left.occupancy ≥ right.occupancy then
      (mergeInto cfg true left right).map fun res => (some res.1, res.2)
    else (mergeInto cfg false right left).map fun res => (some res.1, res.2)

section Merge

variable {cfg : HashConfig} {P : ℕ → Table ReducerData → Bindings ReducerData → Prop}
  {t dst src left right : Table ReducerData} {m : Bindings ReducerData} {n : ℕ}

/-- Find, insert and the store to a bucket that was found act as the operations of a finite map on
the tables of `P n`, for `n` insertions more. -/
structure FiniteMapOps (cfg : HashConfig)
    (P : ℕ → Table ReducerData → Bindings ReducerData → Prop) : Prop where
  represents : ∀ {n t m}, P n t m → Represents cfg t m
  find : ∀ {n t m}, P n t m → ∀ key, isValid key = true →
    (findHyperobject cfg t key).map (fun i => (bucketAt t.buckets i).data) = m key
  insert : ∀ {n t m}, P (n + 1) t m → ∀ b, isValid b.key = true → m b.key = none →
    ∃ u, insertHyperobject cfg t b = some (u, true) ∧ P n u (Function.update m b.key (some b.data))
  store : ∀ {n t m}, P (n + 1) t m → ∀ key i d, isValid key = true →
    findHyperobject cfg t key = some i →
      P n { t with buckets := t.buckets.set i { bucketAt t.buckets i with data := d } }
        (Function.update m key (some d))
  less : ∀ {n t m}, P (n + 1) t m → P n t m

/-- The views of one key from both tables. -/
def mergeViews (leftDst : Bool) (dst src : Option ReducerData) : Option ReducerData :=
  if leftDst then dst.or src else src.or dst

/-- What has to be done to the views of a key that both tables bind. -/
def mergeEvents (key : Key) : Option ReducerData → Option ReducerData → List ViewEvent
  | some l, some r => (reduceBuckets key l r).getD []
  | _, _ => []

def sidesOf (leftDst : Bool) (dst src : Option ReducerData) :
    Option ReducerData × Option ReducerData :=
  if leftDst then (dst, src) else (src, dst)

/-- The data of the first valid bucket with the key. -/
def lookupIn (l : List (Bucket ReducerData)) (key : Key) : Option ReducerData :=
  (l.find? fun b => b.live && b.key = key).map Bucket.data

theorem lookupIn_cons_self {b : Bucket ReducerData} (hb : b.live = true)
    (l : List (Bucket ReducerData)) : lookupIn (b :: l) b.key = some b.data := by
  simp [lookupIn, hb]

theorem lookupIn_cons_of_ne {b : Bucket ReducerData} {key : Key} (hb : b.live = true → b.key ≠ key)
    (l : List (Bucket ReducerData)) : lookupIn (b :: l) key = lookupIn l key := by
  have hno : (b.live && decide (b.key = key)) = false := by
    cases hl : b.live with
    | false => rfl
    | true => simpa using hb hl
  simp [lookupIn, hno]

theorem reduceBuckets_key {key : Key} {l r : ReducerData} {events : List ViewEvent}
    (h : reduceBuckets key l r = some events) : ∀ e ∈ events, e.key = key := by
  unfold reduceBuckets at h
  split at h <;> cases h <;> simp [ViewEvent.key]

theorem reduceBuckets_isSome (key : Key) {l r : ReducerData}
    (h : l.extra.index = r.extra.index) : ∃ events, reduceBuckets key l r = some events := by
  unfold reduceBuckets
  cases hl : l.extra <;> cases hr : r.extra <;> rw [hl, hr] at h <;>
    first | exact ⟨_, rfl⟩ | cases h

/-- One bucket of the source is merged into the destination. -/
theorem mergeBucket_spec (hops : FiniteMapOps cfg P) (hP : P (n + 1) t m)
    {b : Bucket ReducerData} (hb : b.live = true) (leftDst : Bool) (log : List ViewEvent)
    (hkind : ∀ d, m b.key = some d → d.extra.index = b.data.extra.index) :
    ∃ u events, mergeBucket cfg leftDst (t, log) b = some (u, log ++ events) ∧
      P n u (Function.update m b.key (mergeViews leftDst (m b.key) (some b.data))) ∧
      events = mergeEvents b.key (sidesOf leftDst (m b.key) (some b.data)).1
        (sidesOf leftDst (m b.key) (some b.data)).2 := by
  have hfind := hops.find hP b.key hb
  unfold mergeBucket
  rw [if_pos hb]
  dsimp only
  cases hf : findHyperobject cfg t b.key with
  | none =>
    rw [hf] at hfind
    have hnone : m b.key = none := hfind.symm
    obtain ⟨u, hins, hu⟩ := hops.insert hP b hb hnone
    refine ⟨u, [], by rw [hins, List.append_nil]; rfl, ?_, ?_⟩
    · rw [hnone]
      cases leftDst <;> exact hu
    · rw [hnone]
      cases leftDst <;> rfl
  | some i =>
    rw [hf] at hfind
    have hsome : m b.key = some (bucketAt t.buckets i).data := hfind.symm
    have hindex := hkind _ hsome
    cases leftDst with
    | true =>
      obtain ⟨events, hev⟩ := reduceBuckets_isSome b.key hindex
      refine ⟨t, events, by simp [hev], ?_, ?_⟩
      · have hsame : mergeViews true (m b.key) (some b.data) = m b.key := by rw [hsome]; rfl
        rw [hsame, Function.update_eq_self]
        exact hops.less hP
      · rw [hsome]
        simp [sidesOf, mergeEvents, hev]
    | false =>
      obtain ⟨events, hev⟩ := reduceBuckets_isSome b.key hindex.symm
      refine ⟨{ t with buckets := t.buckets.set i { bucketAt t.buckets i with data := b.data } },
        events, by simp [hev], ?_, ?_⟩
      · exact hops.store hP b.key i b.data hb hf
      · rw [hsome]
        simp [sidesOf, mergeEvents, hev]

theorem mergeEvents_key {key : Key} {l r : Option ReducerData} :
    ∀ e ∈ mergeEvents key l r, e.key = key := by
  intro e he
  cases l with
  | none => cases he
  | some l =>
    cases r with
    | none => cases he
    | some r =>
      cases hev : reduceBuckets key l r with
      | none => simp [mergeEvents, hev] at he
      | some events =>
        simp only [mergeEvents, hev, Option.getD_some] at he
        exact reduceBuckets_key hev e he

/-- The scan of the source: each key gets the views of both tables, with the left one first. -/
theorem mergeFold_spec (hops : FiniteMapOps cfg P) (leftDst : Bool) :
    ∀ (l : List (Bucket ReducerData)) (n : ℕ) (t : Table ReducerData) (m : Bindings ReducerData)
      (log : List ViewEvent), P n t m → l.countP Bucket.live ≤ n →
      l.Pairwise (fun a b => a.live = true → a.key ≠ b.key) →
      (∀ key d d', m key = some d → lookupIn l key = some d' → d.extra.index = d'.extra.index) →
      ∃ u log' n' m', l.foldlM (mergeBucket cfg leftDst) (t, log) = some (u, log') ∧ P n' u m' ∧
        (∀ key, m' key = mergeViews leftDst (m key) (lookupIn l key)) ∧
        ∀ key, log'.filter (fun e => e.key = key) = log.filter (fun e => e.key = key) ++
          mergeEvents key (sidesOf leftDst (m key) (lookupIn l key)).1
            (sidesOf leftDst (m key) (lookupIn l key)).2 := by
  intro l
  induction l with
  | nil =>
    intro n t m log hP _ _ _
    refine ⟨t, log, n, m, rfl, hP, fun key => ?_, fun key => ?_⟩
    · cases leftDst <;> cases h : m key <;> rfl
    · cases leftDst <;> cases h : m key <;> simp [lookupIn, sidesOf, mergeEvents]
  | cons b l ih =>
    intro n t m log hP hcount hpair hkind
    rw [List.pairwise_cons] at hpair
    by_cases hb : b.live = true
    · rw [List.countP_cons_of_pos hb] at hcount
      obtain ⟨k, rfl⟩ : ∃ k, n = k + 1 := ⟨n - 1, by omega⟩
      obtain ⟨u, events, he, hu, hevents⟩ := mergeBucket_spec hops hP hb leftDst log
        fun d hd => hkind b.key d b.data hd (lookupIn_cons_self hb l)
      have hgone : lookupIn l b.key = none := by
        rw [lookupIn, Option.map_eq_none_iff, List.find?_eq_none]
        intro c hc hcb
        simp only [Bool.and_eq_true, decide_eq_true_eq] at hcb
        exact hpair.1 c hc hb hcb.2.symm
      have hne : ∀ key, key ≠ b.key → lookupIn (b :: l) key = lookupIn l key := fun key hk =>
        lookupIn_cons_of_ne (fun _ => Ne.symm hk) l
      have hkind' : ∀ key d d', Function.update m b.key
          (mergeViews leftDst (m b.key) (some b.data)) key = some d →
          lookupIn l key = some d' → d.extra.index = d'.extra.index := by
        intro key d d' hd hd'
        by_cases hk : key = b.key
        · rw [hk, hgone] at hd'
          cases hd'
        · rw [Function.update_of_ne hk] at hd
          exact hkind key d d' hd (by rw [hne key hk]; exact hd')
      obtain ⟨u', log', n', m', he', hu', hm', hlog'⟩ := ih k u _ (log ++ events) hu (by omega)
        hpair.2 hkind'
      refine ⟨u', log', n', m', ?_, hu', fun key => ?_, fun key => ?_⟩
      · rw [List.foldlM_cons, he]
        exact he'
      · rw [hm' key]
        by_cases hk : key = b.key
        · subst hk
          rw [Function.update_self, hgone, lookupIn_cons_self hb]
          cases leftDst <;> cases m b.key <;> rfl
        · rw [Function.update_of_ne hk, hne key hk]
      · rw [hlog' key, List.filter_append, List.append_assoc]
        congr 1
        by_cases hk : key = b.key
        · subst hk
          have hall : events.filter (fun e => e.key = b.key) = events := by
            rw [List.filter_eq_self]
            intro e hmem
            rw [hevents] at hmem
            simpa using mergeEvents_key e hmem
          rw [Function.update_self, hgone, lookupIn_cons_self hb, hall, hevents]
          cases leftDst <;> cases m b.key <;> simp [sidesOf, mergeEvents, mergeViews]
        · have hnone : events.filter (fun e => e.key = key) = [] := by
            rw [List.filter_eq_nil_iff]
            intro e hmem
            rw [hevents] at hmem
            simpa [mergeEvents_key e hmem] using Ne.symm hk
          rw [Function.update_of_ne hk, hne key hk, hnone, List.nil_append]
    · rw [List.countP_cons_of_neg hb] at hcount
      have hsame : ∀ key, lookupIn (b :: l) key = lookupIn l key := fun key =>
        lookupIn_cons_of_ne (fun h => absurd h hb) l
      obtain ⟨u', log', n', m', he', hu', hm', hlog'⟩ := ih n t m log hP hcount hpair.2
        fun key d d' hd hd' => hkind key d d' hd (by rw [hsame]; exact hd')
      refine ⟨u', log', n', m', ?_, hu', fun key => ?_, fun key => ?_⟩
      · have hskip : mergeBucket cfg leftDst (t, log) b = some (t, log) := if_neg hb
        rw [List.foldlM_cons, hskip]
        exact he'
      · rw [hm', hsame]
      · rw [hlog', hsame]

/-- The bindings behind a pointer to a table, which may be null. -/
def Holds (cfg : HashConfig) : Option (Table ReducerData) → Bindings ReducerData → Prop
  | none, m => ∀ key, m key = none
  | some t, m => Represents cfg t m

theorem CountedTable.used_length (hc : CountedTable cfg t) : (t.used cfg).length = t.bound cfg := by
  rw [Table.used, List.length_take, hc.length]
  exact Nat.min_eq_left hc.bound_le

theorem CountedTable.represents (hc : CountedTable cfg t) :
    Represents cfg t (lookupIn (t.used cfg)) := by
  have hlen := hc.used_length
  intro key d
  unfold lookupIn
  cases hf : (t.used cfg).find? fun b => b.live && b.key = key with
  | none =>
    rw [List.find?_eq_none] at hf
    refine iff_of_false (by simp) ?_
    rintro ⟨hv, j, hj, hk, -⟩
    have hjl : j < (t.used cfg).length := hlen ▸ hj
    have hno := hf _ (List.getElem_mem hjl)
    rw [← bucketAt_getElem hjl, used_at hj] at hno
    simp [Bucket.live, hk, hv] at hno
  | some b =>
    obtain ⟨hb, l₁, l₂, hl, -⟩ := List.find?_eq_some_iff_append.mp hf
    simp only [Bool.and_eq_true, decide_eq_true_eq] at hb
    have hmem : b ∈ t.used cfg := by rw [hl]; simp
    obtain ⟨i, hi, hib⟩ := List.getElem_of_mem hmem
    have hi' : i < t.bound cfg := hlen ▸ hi
    have hib' : bucketAt t.buckets i = b := by rw [← used_at hi', bucketAt_getElem hi, hib]
    rw [Option.map_some, Option.some.injEq]
    constructor
    · intro hd
      exact ⟨hb.2 ▸ hb.1, i, hi', by rw [hib', hb.2], by rw [hib', hd]⟩
    · rintro ⟨-, j, hj, hk, hd⟩
      have hij := hc.distinct i hi' j hj (by rw [hib']; exact hb.1) (by rw [hib', hb.2, hk])
      rw [← hd, ← hij, hib']

theorem CountedTable.lookup (hc : CountedTable cfg t) (hr : Represents cfg t m) (key : Key) :
    m key = lookupIn (t.used cfg) key :=
  Option.ext fun d => (hr key d).trans (hc.represents key d).symm

theorem CountedTable.none_of_empty (hc : CountedTable cfg t) (hr : Represents cfg t m)
    (hempty : t.occupancy = 0) (key : Key) : m key = none := by
  rw [hc.lookup hr, lookupIn, Option.map_eq_none_iff, List.find?_eq_none]
  have hzero := hc.count
  rw [hempty, eq_comm, List.countP_eq_zero] at hzero
  intro b hb hlive
  simp only [Bool.and_eq_true] at hlive
  exact hzero b hb hlive.1

theorem CountedTable.pairwise (hc : CountedTable cfg t) :
    (t.used cfg).Pairwise fun a b => a.live = true → a.key ≠ b.key := by
  have hlen := hc.used_length
  apply pairwise_of_distinct
  intro i hi j hj
  rw [used_at (hlen ▸ hi), used_at (hlen ▸ hj)]
  exact hc.distinct i (hlen ▸ hi) j (hlen ▸ hj)

/-- What a merge of two tables amounts to: the left view of each key, reduced once with the right
one if there is one. -/
structure Merged (cfg : HashConfig) (ml mr : Bindings ReducerData)
    (res : Option (Table ReducerData)) (log : List ViewEvent) : Prop where
  holds : Holds cfg res fun key => (ml key).or (mr key)
  reduced : ∀ key l r, ml key = some l → mr key = some r → ∃ events,
    reduceBuckets key l r = some events ∧ log.filter (fun e => e.key = key) = events
  kept : ∀ key, ml key = none ∨ mr key = none → log.filter (fun e => e.key = key) = []

theorem mergeInto_merged (hops : FiniteMapOps cfg P) {ml mr : Bindings ReducerData}
    (leftDst : Bool) (hl : CountedTable cfg left) (hr : CountedTable cfg right)
    (hleft : Represents cfg left ml) (hright : Represents cfg right mr)
    (hdst : if leftDst then P right.occupancy left ml else P left.occupancy right mr)
    (hkind : ∀ key l r, ml key = some l → mr key = some r → l.extra.index = r.extra.index) :
    ∃ u log, mergeInto cfg leftDst (if leftDst then left else right)
        (if leftDst then right else left) = some (u, log) ∧ Merged cfg ml mr (some u) log := by
  have hevents : ∀ log : List ViewEvent, (∀ key, log.filter (fun e => e.key = key) =
      mergeEvents key (ml key) (mr key)) →
      (∀ key l r, ml key = some l → mr key = some r → ∃ events,
        reduceBuckets key l r = some events ∧ log.filter (fun e => e.key = key) = events) ∧
      ∀ key, ml key = none ∨ mr key = none → log.filter (fun e => e.key = key) = [] := by
    intro log hlog
    refine ⟨fun key l r h₁ h₂ => ?_, fun key h => ?_⟩
    · obtain ⟨events, hev⟩ := reduceBuckets_isSome key (hkind key l r h₁ h₂)
      exact ⟨events, hev, by rw [hlog, h₁, h₂, mergeEvents, hev]; rfl⟩
    · rw [hlog]
      rcases h with h | h
      · rw [h]
        rfl
      · rw [h]
        cases ml key <;> rfl
  cases leftDst with
  | true =>
    obtain ⟨u, log, n', m', he, hu, hm, hlog⟩ := mergeFold_spec hops true (right.used cfg)
      right.occupancy left ml [] hdst hr.count.ge hr.pairwise
      fun key d d' hd hd' => hkind key d d' hd (by rw [hr.lookup hright]; exact hd')
    have hm' : m' = fun key => (ml key).or (mr key) := by
      funext key
      rw [hm, ← hr.lookup hright]
      rfl
    have hlog' := hevents log fun key => by
      rw [hlog, ← hr.lookup hright]
      rfl
    exact ⟨u, log, he, hm' ▸ hops.represents hu, hlog'.1, hlog'.2⟩
  | false =>
    obtain ⟨u, log, n', m', he, hu, hm, hlog⟩ := mergeFold_spec hops false (left.used cfg)
      left.occupancy right mr [] hdst hl.count.ge hl.pairwise
      fun key d d' hd hd' => (hkind key d' d (by rw [hl.lookup hleft]; exact hd') hd).symm
    have hm' : m' = fun key => (ml key).or (mr key) := by
      funext key
      rw [hm, ← hl.lookup hleft]
      rfl
    have hlog' := hevents log fun key => by
      rw [hlog, ← hl.lookup hleft]
      rfl
    exact ⟨u, log, he, hm' ▸ hops.represents hu, hlog'.1, hlog'.2⟩

/-- `merge_two_hts` is the product of the two tables key by key, whichever of them it takes as
destination, where find and insert act on the destination as the operations of a finite map. -/
theorem mergeTwoHts_product (hops : FiniteMapOps cfg P) {pl pr : Option (Table ReducerData)}
    {ml mr : Bindings ReducerData} (hleft : Holds cfg pl ml) (hright : Holds cfg pr mr)
    (hcl : ∀ t, pl = some t → CountedTable cfg t) (hcr : ∀ t, pr = some t → CountedTable cfg t)
    (hdst : ∀ left right, pl = some left → pr = some right →
      P right.occupancy left ml ∧ P left.occupancy right mr)
    (hkind : ∀ key l r, ml key = some l → mr key = some r → l.extra.index = r.extra.index) :
    (∃ res log, Table.mergeTwoHts cfg pl pr = some (res, log) ∧ Merged cfg ml mr res log) ∧
    ∀ left right, pl = some left → pr = some right → ∀ leftDst : Bool, ∃ u log,
      mergeInto cfg leftDst (if leftDst then left else right) (if leftDst then right else left) =
        some (u, log) ∧ Merged cfg ml mr (some u) log := by
  have hinto : ∀ left right, pl = some left → pr = some right → ∀ leftDst : Bool, ∃ u log,
      mergeInto cfg leftDst (if leftDst then left else right) (if leftDst then right else left) =
        some (u, log) ∧ Merged cfg ml mr (some u) log := by
    rintro left right rfl rfl leftDst
    obtain ⟨hP, hP'⟩ := hdst left right rfl rfl
    refine mergeInto_merged hops leftDst (hcl left rfl) (hcr right rfl) hleft hright ?_ hkind
    cases leftDst
    · exact hP'
    · exact hP
  refine ⟨?_, hinto⟩
  have hrest : ∀ res, (∀ key, ml key = none) → Holds cfg res mr → Merged cfg ml mr res [] := by
    intro res hnone hres
    have hsame : (fun key => (ml key).or (mr key)) = mr := by
      funext key
      rw [hnone key]
      rfl
    refine ⟨by rw [hsame]; exact hres, fun key l r h => ?_, fun _ _ => rfl⟩
    rw [hnone key] at h
    cases h
  have hrest' : ∀ res, (∀ key, mr key = none) → Holds cfg res ml → Merged cfg ml mr res [] := by
    intro res hnone hres
    have hsame : (fun key => (ml key).or (mr key)) = ml := by
      funext key
      rw [hnone key, Option.or_none]
    refine ⟨by rw [hsame]; exact hres, fun key l r _ h => ?_, fun _ _ => rfl⟩
    rw [hnone key] at h
    cases h
  cases pl with
  | none => exact ⟨pr, [], rfl, hrest pr hleft hright⟩
  | some left =>
    cases pr with
    | none => exact ⟨some left, [], rfl, hrest' _ hright hleft⟩
    | some right =>
      simp only [Table.mergeTwoHts]
      split_ifs with hl0 hr0 hge
      · exact ⟨_, _, rfl, hrest _ ((hcl left rfl).none_of_empty hleft hl0) hright⟩
      · exact ⟨_, _, rfl, hrest' _ ((hcr right rfl).none_of_empty hright hr0) hleft⟩
      · obtain ⟨u, log, he, hmerged⟩ := hinto left right rfl rfl true
        simp only [if_true] at he
        exact ⟨some u, log, by rw [he]; rfl, hmerged⟩
      · obtain ⟨u, log, he, hmerged⟩ := hinto left right rfl rfl false
        simp only [Bool.false_eq_true, if_false] at he
        exact ⟨some u, log, by rw [he]; rfl, hmerged⟩

end Merge

section Arrays

variable {cfg : HashConfig} {t : Table ReducerData} {m : Bindings ReducerData} {n : ℕ}

/-- An array with room for `n` insertions. -/
structure ArrayHolds (cfg : HashConfig) (n : ℕ) (t : Table ReducerData)
    (m : Bindings ReducerData) : Prop extends LinearInv cfg t where
  mode : t.capacity < cfg.minHtCapacity
  room : t.occupancy + n ≤ t.capacity
  represents : Represents cfg t m

theorem ArrayHolds.bound (ha : ArrayHolds cfg n t m) : t.bound cfg = t.occupancy := if_pos ha.mode

theorem ArrayHolds.finds (ha : ArrayHolds cfg n t m) {key : Key} (hv : isValid key = true) :
    Finds cfg t key (findHyperobject cfg t key) :=
  finds_of_hashInv (fun h => absurd ha.mode h) hv

theorem ArrayHolds.store (ha : ArrayHolds cfg (n + 1) t m) {key : Key} {i : ℕ} (d : ReducerData)
    (hv : isValid key = true) (hf : findHyperobject cfg t key = some i) :
    ArrayHolds cfg n { t with buckets := t.buckets.set i { bucketAt t.buckets i with data := d } }
      (Function.update m key (some d)) := by
  have hfinds := ha.finds hv
  rw [hf] at hfinds
  cases hfinds with
  | hit _ hi hk =>
  have hib : i < t.occupancy := ha.bound ▸ hi
  have hilen : i < t.buckets.length := by
    rw [ha.length]
    exact hib.trans_le ha.occupancy_le
  have hset := bucketAt_set hilen { bucketAt t.buckets i with data := d }
  have hkey : ∀ j, (bucketAt (t.buckets.set i { bucketAt t.buckets i with data := d }) j).key =
      (bucketAt t.buckets j).key := by
    intro j
    rw [hset]
    by_cases hj : j = i
    · rw [hj, Function.update_self]
    · rw [Function.update_of_ne hj]
  refine ⟨⟨?_, ha.pos, ha.occupancy_le, fun j hj => ?_, fun j hj k hk' => ?_⟩, ha.mode, ?_, ?_⟩
  · exact List.length_set.trans ha.length
  · rw [Bucket.live, hkey]
    exact ha.live j hj
  · rw [hkey, hkey]
    exact ha.distinct j hj k hk'
  · have := ha.room
    dsimp only
    omega
  · intro key' d'
    have hbound : Table.bound cfg { t with
        buckets := t.buckets.set i { bucketAt t.buckets i with data := d } } = t.bound cfg := rfl
    have hother : ∀ j < t.bound cfg, (bucketAt t.buckets j).key = key → j = i := fun j hj hkj =>
      ha.distinct j (ha.bound ▸ hj) i hib (hkj.trans hk.symm)
    by_cases hkk : key' = key
    · rw [hkk, Function.update_self, Option.some.injEq]
      constructor
      · intro hd
        exact ⟨hv, i, hi, (hkey i).trans hk, by rw [hset, Function.update_self, hd]⟩
      · rintro ⟨-, j, hj, hkj, hd⟩
        rw [hother j hj ((hkey j).symm.trans hkj), hset, Function.update_self] at hd
        exact hd
    · rw [Function.update_of_ne hkk, ha.represents key' d']
      apply and_congr_right
      intro _
      apply exists_congr
      intro j
      rw [hbound, hkey j, hset]
      by_cases hji : j = i
      · have hno : (bucketAt t.buckets j).key ≠ key' := by
          rw [hji, hk]
          exact Ne.symm hkk
        simp [hno]
      · rw [Function.update_of_ne hji]

theorem arrays_finiteMapOps : FiniteMapOps cfg (ArrayHolds cfg) where
  represents := fun ha => ha.represents
  find := by
    intro n t m ha key hv
    have hbound := ha.bound
    ext d
    rw [(ha.finds hv).data_iff (by rw [hbound]; exact fun i hi j hj _ => ha.distinct i hi j hj) hv d,
      ha.represents key d]
    exact ⟨fun h => ⟨hv, h⟩, fun h => h.2⟩
  insert := by
    intro n t m ha b hv hnone
    have hroom := ha.room
    obtain ⟨u, he, hlin, hcap, -, hext, hocc⟩ := insertWith_linear (rebuildWith cfg (insertNested cfg 0))
      ha.toLinearInv ha.mode (by omega) hv
    have habs : ∀ j < t.occupancy, (bucketAt t.buckets j).key ≠ b.key := by
      have hall := (ha.represents.none_iff hv).mp hnone
      rwa [ha.bound] at hall
    have hocc' := hocc habs
    exact ⟨u, he, hlin, by rw [hcap]; exact ha.mode, by omega, ha.represents.extends hv hext⟩
  store := fun ha key i d hv hf => ha.store d hv hf
  less := fun ha => ⟨ha.toLinearInv, ha.mode, by have := ha.room; omega, ha.represents⟩

theorem lookupIn_mem {l : List (Bucket ReducerData)} {key : Key} {d : ReducerData}
    (h : lookupIn l key = some d) : ∃ b ∈ l, b.data = d := by
  obtain ⟨b, hb, hd⟩ := Option.map_eq_some_iff.mp h
  exact ⟨b, List.mem_of_find?_eq_some hb, hd⟩

/-- The right table has more views and is the destination, and the left view of 8 is kept. -/
theorem mergeTwoHts_product_arrays :
    let left : Table ReducerData := ⟨4, 1, 0, [⟨8#64, 0, ⟨100, .reduceFn 7⟩⟩, freshBucket,
      freshBucket, freshBucket]⟩
    let right : Table ReducerData := ⟨4, 2, 0, [⟨8#64, 0, ⟨200, .reduceFn 7⟩⟩,
      ⟨16#64, 0, ⟨300, .reduceFn 9⟩⟩, freshBucket, freshBucket]⟩
    ∃ res log, Table.mergeTwoHts headerConfig (some left) (some right) = some (res, log) ∧
      log.filter (fun e => e.key = 8#64) = [.callFn 8#64 7 100 200, .free 8#64 200] := by
  intro left right
  have hl : CountedTable headerConfig left := ⟨rfl, ⟨2, rfl⟩, by decide, by decide⟩
  have hr : CountedTable headerConfig right := ⟨rfl, ⟨2, rfl⟩, by decide, by decide⟩
  have hleft : ArrayHolds headerConfig 2 left (lookupIn (left.used headerConfig)) :=
    ⟨⟨rfl, by decide, by decide, by decide, by decide⟩, by decide, by decide, hl.represents⟩
  have hright : ArrayHolds headerConfig 1 right (lookupIn (right.used headerConfig)) :=
    ⟨⟨rfl, by decide, by decide, by decide, by decide⟩, by decide, by decide, hr.represents⟩
  have hfn : ∀ b ∈ left.used headerConfig ++ right.used headerConfig,
      b.data.extra.index = ReducerExtra.index (.reduceFn 0) := by decide
  have hhl : Holds headerConfig (some left) (lookupIn (left.used headerConfig)) := hl.represents
  have hhr : Holds headerConfig (some right) (lookupIn (right.used headerConfig)) := hr.represents
  obtain ⟨⟨res, log, he, hmerged⟩, -⟩ := mergeTwoHts_product arrays_finiteMapOps hhl hhr
    (fun t ht => Option.some.inj ht ▸ hl) (fun t ht => Option.some.inj ht ▸ hr)
    (fun _ _ ht ht' => Option.some.inj ht ▸ Option.some.inj ht' ▸ ⟨hleft, hright⟩)
    (by
      intro key l r h h'
      obtain ⟨b, hb, rfl⟩ := lookupIn_mem h
      obtain ⟨b', hb', rfl⟩ := lookupIn_mem h'
      rw [hfn b (List.mem_append_left _ hb), hfn b' (List.mem_append_right _ hb')])
  obtain ⟨events, hev, hlog⟩ := hmerged.reduced 8#64 ⟨100, .reduceFn 7⟩ ⟨200, .reduceFn 7⟩
    (by decide) (by decide)
  exact ⟨res, log, he, hlog.trans (Option.some.inj hev.symm)⟩

end Arrays

end Cheetah
