import Mathlib.Data.Nat.Find
import Cheetah.HyperTableInsert

/-! The invariant of the hash mode, and what find and insert do under it. -/
namespace Cheetah

variable {δ : Type*} [Inhabited δ]

/-- A table in hash mode, apart from the order of its slots. -/
structure HashShape (cfg : HashConfig) (t : Table δ) : Prop where
  length : t.buckets.length = t.capacity
  pos : 0 < t.capacity
  le : t.capacity ≤ maxCapacity
  home : ∀ j < t.capacity, (bucketAt t.buckets j).live = true →
    (bucketAt t.buckets j).hash = getTableEntry cfg t.capacity (bucketAt t.buckets j).key
  distinct : ∀ i < t.capacity, ∀ j < t.capacity, (bucketAt t.buckets i).live = true →
    (bucketAt t.buckets i).key = (bucketAt t.buckets j).key → i = j
  count : t.occupancy = t.buckets.countP Bucket.live

structure HashInv (cfg : HashConfig) (t : Table δ) : Prop extends HashShape cfg t where
  ordered : Ordered t.capacity (slotOf t.buckets)

section Find

variable {cfg : HashConfig} {t : Table δ} {key : Key}

theorem HashShape.le_two_pow (hs : HashShape cfg t) : t.capacity ≤ 2^31 :=
  hs.le.trans (by decide)

theorem HashShape.homesLt (hs : HashShape cfg t) : HomesLt t.capacity (slotOf t.buckets) := by
  intro j hj h he
  obtain ⟨hv, rfl⟩ := Bucket.slot_home_iff.mp he
  rw [hs.home j hj hv]
  exact getTableEntry_lt cfg hs.pos _

theorem findHyperobject_hash (hmode : ¬ t.capacity < cfg.minHtCapacity) (key : Key) :
    findHyperobject cfg t key = findProbe t.buckets t.capacity
      (getTableEntry cfg t.capacity key) key t.capacity (getTableEntry cfg t.capacity key) :=
  if_neg hmode

/-- Before the position of a key its probe meets no bucket with that key. -/
theorem HashShape.key_ne_before (hs : HashShape cfg t) {j a d r : ℕ} (ha : a < t.capacity)
    (hd : d < t.capacity) (hj : advance t.capacity a d = j) (hr : r < d)
    (hv : isValid (bucketAt t.buckets j).key = true) :
    (bucketAt t.buckets (advance t.capacity a r)).key ≠ (bucketAt t.buckets j).key := by
  intro hk
  have hrn := advance_lt ha (show r ≤ t.capacity by omega)
  have hjn : j < t.capacity := hj ▸ advance_lt ha (by omega)
  have he := hs.distinct j hjn _ hrn hv hk.symm
  have := advance_injective ha hd (by omega) (hj.trans he)
  omega

theorem HashShape.find_absent (hs : HashShape cfg t)
    (hmode : ¬ t.capacity < cfg.minHtCapacity)
    (habs : ∀ j < t.capacity, (bucketAt t.buckets j).key ≠ key) :
    findHyperobject cfg t key = none := by
  rw [findHyperobject_hash hmode]
  exact findProbe_absent habs _ _ (getTableEntry_lt cfg hs.pos key)

theorem HashInv.passes_home (hi : HashInv cfg t) {j : ℕ} (hj : j < t.capacity)
    (hv : isValid (bucketAt t.buckets j).key = true) :
    let a := getTableEntry cfg t.capacity (bucketAt t.buckets j).key
    let d := circDist t.capacity a j
    d < t.capacity ∧ advance t.capacity a d = j ∧
      Passes t.capacity (slotOf t.buckets) a d ∧ GoesOn t.capacity (slotOf t.buckets) a d := by
  intro a d
  have ha : a < t.capacity := getTableEntry_lt cfg hi.pos _
  have hsl : slotOf t.buckets j = .home a := by
    rw [show a = (bucketAt t.buckets j).hash from (hi.home j hj hv).symm]
    exact Bucket.slot_home hv
  have hadv : advance t.capacity a d = j := advance_circDist ha hj
  refine ⟨circDist_lt ha hj, hadv, (hi.ordered j hj a hsl).2, ?_⟩
  rw [goesOn_home (by rw [hadv]; exact hsl), hadv]

theorem HashInv.find_present (hi : HashInv cfg t) (hmode : ¬ t.capacity < cfg.minHtCapacity)
    {j : ℕ} (hj : j < t.capacity) (hk : (bucketAt t.buckets j).key = key)
    (hv : isValid key = true) : findHyperobject cfg t key = some j := by
  subst hk
  obtain ⟨hd, hadv, hpass, -⟩ := hi.passes_home hj hv
  have ha := getTableEntry_lt cfg hi.pos (bucketAt t.buckets j).key
  have hf := findProbe_found hi.le_two_pow hi.homesLt ha hd (Nat.zero_le _) (by rw [hadv])
    (fun r hr => hi.key_ne_before ha hd hadv hr hv) hpass
  rw [Nat.sub_zero, advance_zero ha, hadv] at hf
  rw [findHyperobject_hash hmode, hf]

/-- When the slots are out of order, find misses a key that is in the table. -/
theorem HashShape.find_lost (hs : HashShape cfg t) (hmode : ¬ t.capacity < cfg.minHtCapacity)
    (hno : ¬ Ordered t.capacity (slotOf t.buckets)) :
    ∃ j < t.capacity, (bucketAt t.buckets j).live = true ∧
      findHyperobject cfg t (bucketAt t.buckets j).key = none := by
  unfold Ordered at hno
  push Not at hno
  obtain ⟨j, hj, h, he, hcut⟩ := hno
  have hh := hs.homesLt j hj h he
  obtain ⟨hv, rfl⟩ := Bucket.slot_home_iff.mp he
  have hnp := hcut hh
  unfold Passes at hnp
  push Not at hnp
  obtain ⟨r, hr, hstop⟩ := hnp
  have hd := circDist_lt hh hj
  refine ⟨j, hj, hv, ?_⟩
  have hf := findProbe_ended hs.le_two_pow hs.homesLt hh (show r < t.capacity by omega)
    (Nat.zero_le r) (fun q hq => hs.key_ne_before hh hd (advance_circDist hh hj) (by omega) hv)
    hstop
  rw [Nat.sub_zero, advance_zero hh] at hf
  rw [findHyperobject_hash hmode, ← hs.home j hj hv, hf]

end Find

section Insert

variable {cfg : HashConfig} {t : Table δ} {b : Bucket δ}

/-- The table after an insertion that added a bucket. -/
def Table.added (t : Table δ) (bs : List (Bucket δ)) : Table δ :=
  { t with buckets := bs, occupancy := t.occupancy + 1, insRmCount := t.insRmCount + 1 }

/-- The table after an insertion that found its key at `j`. -/
def Table.overwritten (t : Table δ) (j : ℕ) (data : δ) : Table δ :=
  { t with buckets := t.buckets.set j { bucketAt t.buckets j with data := data } }

/-- The bucket as the hash mode stores it. -/
def Bucket.hashed (cfg : HashConfig) (capacity : ℕ) (b : Bucket δ) : Bucket δ :=
  { b with hash := getTableEntry cfg capacity b.key }

theorem insertHash_present (hi : HashInv cfg t) {j : ℕ} (hj : j < t.capacity)
    (hk : (bucketAt t.buckets j).key = b.key) (hv : isValid b.key = true) :
    insertHash cfg t b = (t.overwritten j b.data, true) := by
  rw [← hk] at hv
  obtain ⟨hd, hadv, hpass, hgo⟩ := hi.passes_home hj hv
  have ha := getTableEntry_lt cfg hi.pos (bucketAt t.buckets j).key
  have hp := insertProbe_found hi.le_two_pow hi.homesLt ha hd rfl (by rw [hadv]; exact hv)
    (fun r hr => by rw [hadv]; exact hi.key_ne_before ha hd hadv hr hv) hgo hpass
    t.capacity 0 (Nat.zero_le _) (by omega)
  rw [advance_zero ha, hadv] at hp
  have hne : ¬ isEmpty (bucketAt t.buckets
      (getTableEntry cfg t.capacity (bucketAt t.buckets j).key)).key = true := by
    intro hempty
    have hsl := Bucket.slot_empty_iff.mpr hempty
    have h0 : advance t.capacity (getTableEntry cfg t.capacity (bucketAt t.buckets j).key) 0 = _ :=
      advance_zero ha
    rcases Nat.eq_zero_or_pos (circDist t.capacity
      (getTableEntry cfg t.capacity (bucketAt t.buckets j).key) j) with hz | hpos
    · rw [hz, h0] at hadv
      rw [hadv] at hempty
      simp [isValid, hempty] at hv
    · exact (hpass 0 hpos).ne_empty (by rw [h0]; exact hsl)
  unfold insertHash
  rw [← hk]
  dsimp only
  rw [if_neg hne, hp]
  rfl

theorem not_live_of_empty {bs : List (Bucket δ)} {j : ℕ} (h : slotOf bs j = .empty) :
    ¬ (bucketAt bs j).live = true := by
  intro hv
  rw [show slotOf bs j = _ from Bucket.slot_home hv] at h
  exact Slot.noConfusion h

theorem not_live_of_tombstone {bs : List (Bucket δ)} {j : ℕ} (h : slotOf bs j = .tombstone) :
    ¬ (bucketAt bs j).live = true := by
  intro hv
  rw [show slotOf bs j = _ from Bucket.slot_home hv] at h
  exact Slot.noConfusion h

/-- The first slot at or after `p` that is not occupied. -/
theorem exists_run {bs : List (Bucket δ)} {n p : ℕ} (hlen : bs.length = n) (hp : p < n)
    (hcount : bs.countP Bucket.live < n) :
    ∃ m < n, (∀ k < m, (bucketAt bs (advance n p k)).live = true) ∧
      ¬ (bucketAt bs (advance n p m)).live = true := by
  classical
  have hex : ∃ m, m < n ∧ ¬ (bucketAt bs (advance n p m)).live = true := by
    obtain ⟨j, hj, hnl⟩ := exists_not_live (hlen.symm ▸ hcount)
    rw [hlen] at hj
    exact ⟨circDist n p j, circDist_lt hp hj, by rwa [advance_circDist hp hj]⟩
  refine ⟨Nat.find hex, (Nat.find_spec hex).1, fun k hk => ?_, (Nat.find_spec hex).2⟩
  by_contra hnl
  exact Nat.find_min hex hk ⟨by have := (Nat.find_spec hex).1; omega, hnl⟩

theorem slotOf_home_of_live {bs : List (Bucket δ)} {j : ℕ}
    (hv : (bucketAt bs j).live = true) : ∃ h, slotOf bs j = .home h :=
  ⟨_, Bucket.slot_home hv⟩

theorem slotOf_ne_home_of_not_live {bs : List (Bucket δ)} {j : ℕ}
    (hv : ¬ (bucketAt bs j).live = true) (h : ℕ) : slotOf bs j ≠ .home h :=
  fun he => hv (Bucket.slot_home_iff.mp he).1

/-- A shift from `p` leaves the slots that `shifted` describes. -/
theorem shiftInsert_spec {bs : List (Bucket δ)} {n t p : ℕ} {c : Bucket δ}
    (hlen : bs.length = n) (hp : p < n) (hcount : bs.countP Bucket.live < n)
    (hc : c.slot = .home t) :
    ∃ bs' src m, shiftInsert n p n p c bs = (bs', true) ∧ Inserted bs bs' n c p src ∧
      m < n ∧ (∀ k < m, ∃ h, slotOf bs (advance n p k) = .home h) ∧
      (∀ h, slotOf bs (advance n p m) ≠ .home h) ∧
      ∀ j < n, shifted n (slotOf bs) t p m j = slotOf bs' j := by
  obtain ⟨m, hm, hrun, hfree⟩ := exists_run hlen hp hcount
  obtain ⟨bs', src, hrec, hins, hslots⟩ :=
    shiftInsert_inserted hlen hp hm (Bucket.slot_home_iff.mp hc).1 hrun hfree
  refine ⟨bs', src, m, hrec, hins, hm, fun k hk => slotOf_home_of_live (hrun k hk),
    slotOf_ne_home_of_not_live hfree, fun j hj => ?_⟩
  rw [hslots j hj, hc, shifted]
  by_cases hjp : j = p
  · rw [hjp, circDist_self, if_pos rfl, if_pos rfl]
  · have hd : circDist n p j ≠ 0 := by
      intro h0
      have he := advance_circDist hp hj
      rw [h0, advance_zero hp] at he
      exact hjp he.symm
    rw [if_neg hd, if_neg hjp]

/-- A probe that passes its first `s` slots and one that ends at distance `r` agree. -/
theorem passes_le {n t s r : ℕ} {slot : ℕ → Slot} (hp : Passes n slot t s)
    (hstop : ¬ GoesOn n slot t r) : s ≤ r := by
  by_contra hlt
  exact hstop (hp r (by omega))

/-- After the probe found a bucket that may be overwritten, no run has to be shifted. -/
theorem shiftsSafely_of_vacant {n t s : ℕ} {slot : ℕ → Slot} (ht : t < n) (hs : s < n)
    (hpass : Passes n slot t s)
    (hfree : slot (advance n t s) = .empty ∨
      slot (advance n t s) = .tombstone ∧ ∃ m, Ends n slot t s m) :
    ShiftsSafely n slot t := by
  rcases hfree with hempty | ⟨htomb, m, hend⟩
  · have hstop : ¬ GoesOn n slot t s := fun hg => hg.ne_empty hempty
    refine ⟨fun r hr p m hdis _ => ?_, fun hall _ => absurd (hall s hs) hstop⟩
    have hle := passes_le hpass hdis.stops
    have hge := passes_le hdis.passes hstop
    obtain ⟨h, hh⟩ := hdis.run 0 hdis.pos
    have hpn : p < n := hdis.at_p ▸ advance_lt ht (by omega)
    rw [advance_zero hpn, hdis.at_p, show r = s by omega, hempty] at hh
    exact Slot.noConfusion hh
  · have hupto : Passes n slot t m := by
      intro r hr
      rcases Nat.lt_trichotomy r s with hrs | hrs | hrs
      · exact hpass r hrs
      · exact hrs ▸ goesOn_tombstone htomb
      · exact goesOn_tombstone (hend.tombs r hrs hr)
    have hlt := hend.lt
    have hle := hend.le
    have hprev : slot (advance n t (m-1)) = .tombstone := by
      rcases Nat.lt_or_ge s (m-1) with hsm | hms
      · exact hend.tombs _ hsm (by omega)
      · rwa [show m - 1 = s by omega]
    refine ⟨fun r hr p m' hdis hnt => ?_, fun hall hlast => ?_⟩
    · have hmr := passes_le hupto hdis.stops
      rcases hend.stop with hn | hstop
      · omega
      · have hrm := passes_le hdis.passes hstop
        exact absurd (show r = m by omega ▸ hprev) (hnt (by omega))
    · rcases hend.stop with hn | hstop
      · exact absurd (hn ▸ hprev) hlast
      · rcases Nat.lt_or_ge m n with hmn | hmn
        · exact absurd (hall m hmn) hstop
        · exact absurd (show m = n by omega ▸ hprev) hlast

/-- The insertion of an absent key adds its bucket, and keeps the slots in order exactly
when it does not have to shift or shifts safely. -/
theorem insertHash_absent (hi : HashInv cfg t) (hv : isValid b.key = true)
    (habs : ∀ j < t.capacity, (bucketAt t.buckets j).key ≠ b.key)
    (hroom : t.occupancy < t.capacity) :
    ∃ bs i₀ src, insertHash cfg t b = (t.added bs, true) ∧
      Inserted t.buckets bs t.capacity (b.hashed cfg t.capacity) i₀ src ∧
      (Ordered t.capacity (slotOf bs) ↔
        ShiftsSafely t.capacity (slotOf t.buckets) (getTableEntry cfg t.capacity b.key)) := by
  have ha := getTableEntry_lt cfg hi.pos b.key
  have hcount := hi.count
  have hc : (b.hashed cfg t.capacity).slot = .home (getTableEntry cfg t.capacity b.key) :=
    Bucket.slot_home hv
  have hplace {s : ℕ} (hs : s < t.capacity)
      (hpass : Passes t.capacity (slotOf t.buckets) (getTableEntry cfg t.capacity b.key) s)
      (hfree : slotOf t.buckets (advance t.capacity (getTableEntry cfg t.capacity b.key) s) = .empty ∨
        slotOf t.buckets (advance t.capacity (getTableEntry cfg t.capacity b.key) s) = .tombstone ∧
          ∃ m, Ends t.capacity (slotOf t.buckets) (getTableEntry cfg t.capacity b.key) s m) :
      Inserted t.buckets (t.buckets.set (advance t.capacity (getTableEntry cfg t.capacity b.key) s)
          (b.hashed cfg t.capacity)) t.capacity (b.hashed cfg t.capacity)
          (advance t.capacity (getTableEntry cfg t.capacity b.key) s) id ∧
        (Ordered t.capacity (slotOf (t.buckets.set
            (advance t.capacity (getTableEntry cfg t.capacity b.key) s) (b.hashed cfg t.capacity))) ↔
          ShiftsSafely t.capacity (slotOf t.buckets) (getTableEntry cfg t.capacity b.key)) := by
    have hin := advance_lt ha (show s ≤ t.capacity by omega)
    have hnl : ¬ (bucketAt t.buckets
        (advance t.capacity (getTableEntry cfg t.capacity b.key) s)).live = true := by
      rcases hfree with he | ⟨he, -⟩
      · exact not_live_of_empty he
      · exact not_live_of_tombstone he
    refine ⟨inserted_set hi.length hin hnl hv, ?_⟩
    have hord := hi.ordered.place ha hs hpass hfree
    rw [← hc, ← slotOf_set (by rw [hi.length]; exact hin)] at hord
    exact iff_of_true hord (shiftsSafely_of_vacant ha hs hpass hfree)
  unfold insertHash
  dsimp only
  by_cases hempty : isEmpty
      (bucketAt t.buckets (getTableEntry cfg t.capacity b.key)).key = true
  · rw [if_pos hempty]
    have h0 : advance t.capacity (getTableEntry cfg t.capacity b.key) 0 = _ := advance_zero ha
    have hsl := Bucket.slot_empty_iff.mpr hempty
    obtain ⟨hins, hiff⟩ := hplace hi.pos (fun r hr => absurd hr (Nat.not_lt_zero r))
      (Or.inl (by rw [h0]; exact hsl))
    rw [h0] at hins hiff
    exact ⟨_, _, _, rfl, hins, hiff⟩
  rw [if_neg hempty]
  have hend := @insertProbe_end δ _ t.buckets _ _ b.key hi.le_two_pow hi.homesLt ha t.capacity 0
    hi.pos (by omega) (fun r hr => absurd hr (Nat.not_lt_zero r)) (fun h => absurd h (Nat.lt_irrefl 0))
  rw [advance_zero ha] at hend
  generalize insertProbe t.buckets t.capacity (getTableEntry cfg t.capacity b.key) b.key
    t.capacity (getTableEntry cfg t.capacity b.key) = res at hend
  cases hend with
  | found i hin hkey => exact absurd hkey (habs i hin)
  | vacant s hs hpass hfree =>
    obtain ⟨hins, hiff⟩ := hplace hs hpass hfree
    exact ⟨_, _, _, rfl, hins, hiff⟩
  | stopped s hs hpass hstop hocc hprev =>
    have hp := advance_lt ha (show s ≤ t.capacity by omega)
    obtain ⟨bs, src, m, hrec, hins, hm, hrun, hfree, hslots⟩ :=
      shiftInsert_spec hi.length hp (by omega) hc
    refine ⟨bs, _, src, ?_, hins, ?_⟩
    · dsimp only
      rw [show (⟨b.key, getTableEntry cfg t.capacity b.key, b.data⟩ : Bucket δ) =
        b.hashed cfg t.capacity from rfl, hrec]
      rfl
    have hmpos : 0 < m := by
      rcases Nat.eq_zero_or_pos m with h0 | hpos
      · rw [h0, advance_zero hp] at hfree
        obtain ⟨h, hh⟩ := slotOf_home_of_live hocc
        exact absurd hh (hfree h)
      · exact hpos
    have hdis : Displaces t.capacity (slotOf t.buckets) (getTableEntry cfg t.capacity b.key) s
        (advance t.capacity (getTableEntry cfg t.capacity b.key) s) m :=
      ⟨rfl, hpass, hstop, hrun, hmpos, hm, hfree⟩
    constructor
    · intro hord
      refine ⟨fun s' hs' p' m' hdis' hnt => ?_, fun hall _ => absurd (hall s hs) hstop⟩
      have hss : s' = s :=
        Nat.le_antisymm (passes_le hdis'.passes hstop) (passes_le hpass hdis'.stops)
      subst hss
      obtain rfl := hdis'.at_p
      have hmm : m' = m := by
        rcases Nat.lt_trichotomy m' m with hlt | heq | hgt
        · obtain ⟨h, hh⟩ := hrun m' hlt
          exact absurd hh (hdis'.free h)
        · exact heq
        · obtain ⟨h, hh⟩ := hdis'.run m hgt
          exact absurd hh (hfree h)
      subst hmm
      by_contra hnr
      obtain ⟨r, hr, hng⟩ := shifted_not_passes hi.ordered ha hs' hdis hnr
      have hnew := (hord.congr (fun j hj => (hslots j hj).symm)).goesOn (r := r) hp shifted_at
        (by rwa [circDist_advance ha hs'])
      exact hng hnew
    · intro hsafe
      have hroom' := hsafe.room s hs _ m hdis hprev
      exact (hi.ordered.shift ha hs hdis hroom').congr hslots
  | round hpass hocc =>
    obtain ⟨bs, src, m, hrec, hins, hm, hrun, hfree, hslots⟩ :=
      shiftInsert_spec hi.length ha (by omega) hc
    refine ⟨bs, _, src, ?_, hins, ?_⟩
    · dsimp only
      rw [show (⟨b.key, getTableEntry cfg t.capacity b.key, b.data⟩ : Bucket δ) =
        b.hashed cfg t.capacity from rfl, hrec]
      rfl
    obtain ⟨z, hz⟩ := slotOf_home_of_live hocc
    constructor
    · intro hord
      refine ⟨fun s hs p m' hdis _ => absurd (hpass s hs) hdis.stops, fun _ _ j hj h he => ?_⟩
      by_contra hne
      exact shifted_round_not_ordered hi.ordered ha hm hrun hfree hpass ⟨z, hz⟩
        ⟨j, hj, h, he, hne⟩ (hord.congr (fun j hj => (hslots j hj).symm))
    · intro hsafe
      have hall := hsafe.round hpass (by rw [hz]; exact Slot.noConfusion)
      exact (ordered_shift_round ha hm hrun hpass hall).congr hslots

end Insert

end Cheetah
