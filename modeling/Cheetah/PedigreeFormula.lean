import Mathlib.Data.List.GetD
import Mathlib.Tactic.Ring
import Cheetah.Pedigree

/-! The DPRNG state of a serial execution is a function of the pedigree. -/
namespace Cheetah

section Sum

/-- The sum of two values below the modulus, in 64 bits. -/
theorem dprngSumModP_toNat {a b : BitVec 64} (ha : a.toNat < 2^64 - 59)
    (hb : b.toNat < 2^64 - 59) :
    (dprngSumModP a b).toNat = (a.toNat + b.toNat) % (2^64 - 59) := by
  have hadd : (a + b).toNat = (a.toNat + b.toNat) % 2^64 := BitVec.toNat_add a b
  have hsub : (a + b - dprngPrime).toNat = ((a + b).toNat + 59) % 2^64 := by
    rw [BitVec.toNat_sub, dprngPrime_toNat]
    congr 1
    omega
  have hmod : (a.toNat + b.toNat) % (2^64 - 59) = if a.toNat + b.toNat < 2^64 - 59
      then a.toNat + b.toNat else a.toNat + b.toNat - (2^64 - 59) := by
    split_ifs with hlt
    · exact Nat.mod_eq_of_lt hlt
    · rw [Nat.mod_eq_sub_mod (Nat.not_lt.mp hlt), Nat.mod_eq_of_lt (by omega)]
  rw [hmod]
  unfold dprngSumModP
  dsimp only
  split_ifs with hwrap hlt hlt
  all_goals
    rw [BitVec.lt_def, ge_iff_le, BitVec.le_def, dprngPrime_toNat] at hwrap
    omega

theorem dprngTable_lt {seed : BitVec 64} {beyond : ℕ → BitVec 64} {i : ℕ}
    (hi : i < dprngEntries) : (dprngTable seed beyond i).toNat < 2^64 - 59 := by
  rw [dprngTable, if_pos hi, ← dprngPrime_toNat]
  exact BitVec.lt_def.mp (dprngMixModP_lt _)

theorem dprngX_lt (seed : BitVec 64) : (dprngX seed).toNat < 2^64 - 59 := by
  rw [dprngX, ← dprngPrime_toNat]
  exact BitVec.lt_def.mp (dprngMixModP_lt _)

end Sum

section Path

variable {table : ℕ → BitVec 64} {x k : ℕ} {mem mem' : PedigreeMem}

/-- The frames of the running functions when `d` children are nested, the innermost first. -/
def pathTo : ℕ → List FrameAddr
  | 0 => [.root]
  | d+1 => .slot 0 d :: pathTo d

/-- The part of a dot product that no later event of the function at the head changes: all of it but
for its own rank. -/
def pathBase (table : ℕ → BitVec 64) (x : ℕ) (mem : PedigreeMem) : List FrameAddr → ℕ
  | [] | [_] => x
  | a :: b :: path => pathBase table x mem (b :: path) +
    (mem a).pedigreeRank.toNat * (table path.length).toNat + (table (path.length + 1)).toNat

/-- What is true of each frame on the path after at most `k` increments. -/
def PathOk (table : ℕ → BitVec 64) (x k : ℕ) (mem : PedigreeMem) : List FrameAddr → Prop
  | [] => True
  | a :: path => ((mem a).rank.toNat ≤ k ∧ (mem a).dprngDepth = path.length ∧
      (mem a).pedigreeParent = path.head? ∧
      (mem a).dprngDotproduct.toNat = (pathBase table x mem (a :: path) +
        (mem a).rank.toNat * (table path.length).toNat) % (2^64 - 59)) ∧
    PathOk table x k mem path

/-- The ranks of a path whose head has rank `r`, from the root on. -/
def pathRanks (mem : PedigreeMem) : List FrameAddr → ℕ → List ℕ
  | [], _ => []
  | [_], r => [r]
  | a :: b :: path, r => pathRanks mem (b :: path) (mem a).pedigreeRank.toNat ++ [r]

theorem pathBase_congr {path : List FrameAddr} (h : ∀ a ∈ path, mem' a = mem a) :
    pathBase table x mem' path = pathBase table x mem path := by
  match path with
  | [] | [_] => rfl
  | a :: b :: path =>
    rw [pathBase, pathBase, h a List.mem_cons_self,
      pathBase_congr fun c hc => h c (List.mem_cons_of_mem _ hc)]

theorem PathOk.congr {path : List FrameAddr} (hok : PathOk table x k mem path)
    (h : ∀ a ∈ path, mem' a = mem a) :
    PathOk table x k mem' path := by
  induction path with
  | nil => exact trivial
  | cons a path ih =>
    refine ⟨?_, ih hok.2 fun c hc => h c (List.mem_cons_of_mem _ hc)⟩
    rw [h a List.mem_cons_self, pathBase_congr h]
    exact hok.1

theorem PathOk.mono {path : List FrameAddr} {k' : ℕ} (hok : PathOk table x k mem path) (hle : k ≤ k') :
    PathOk table x k' mem path := by
  induction path with
  | nil => exact trivial
  | cons a path ih => exact ⟨⟨hok.1.1.trans hle, hok.1.2⟩, ih hok.2⟩

theorem length_pathRanks (mem : PedigreeMem) (path : List FrameAddr) (r : ℕ) : (pathRanks mem path r).length = path.length := by
  match path with
  | [] | [_] => rfl
  | a :: b :: path =>
    rw [pathRanks, List.length_append, length_pathRanks mem, List.length_singleton]
    rfl

/-- The base and the own rank together make up the sum of the pedigree. -/
theorem pathBase_eq_sum (table : ℕ → BitVec 64) (x : ℕ) (mem : PedigreeMem)
    {path : List FrameAddr} (hne : path ≠ []) (r : ℕ) :
    pathBase table x mem path + r * (table (path.length - 1)).toNat =
      pedigreeSum table x (fun i => (pathRanks mem path r).getD i 0) (path.length - 1) := by
  match path with
  | [] => exact absurd rfl hne
  | [a] =>
    rw [pathBase, pedigreeSum, pathRanks]
    rfl
  | a :: b :: path =>
    have ih := pathBase_eq_sum table x mem (List.cons_ne_nil b path) (mem a).pedigreeRank.toNat
    have hlen := length_pathRanks mem (b :: path) (mem a).pedigreeRank.toNat
    have hlow (i : ℕ) (hi : i ≤ path.length) :
        (pathRanks mem (a :: b :: path) r).getD i 0 =
          (pathRanks mem (b :: path) (mem a).pedigreeRank.toNat).getD i 0 := by
      rw [pathRanks, List.getD_append _ _ _ _ (by
        rw [hlen]
        exact Nat.lt_succ_of_le hi)]
    have htop : (pathRanks mem (a :: b :: path) r).getD (path.length + 1) 0 = r := by
      rw [pathRanks, List.getD_append_right _ _ _ _ (by
        rw [hlen]
        exact Nat.le_refl _), hlen]
      simp
    have hsum : ∑ i ∈ Finset.Icc 1 path.length,
        ((pathRanks mem (a :: b :: path) r).getD i 0 + 1) * (table i).toNat =
        ∑ i ∈ Finset.Icc 1 path.length,
          ((pathRanks mem (b :: path) (mem a).pedigreeRank.toNat).getD i 0 + 1) *
            (table i).toNat :=
      Finset.sum_congr rfl fun i hi => by rw [hlow i (Finset.mem_Icc.mp hi).2]
    simp only [List.length_cons, Nat.add_sub_cancel, pedigreeSum] at ih ⊢
    rw [Finset.sum_Icc_succ_top (by omega), htop, hsum, hlow 0 (Nat.zero_le _), ← add_assoc, ← ih,
      pathBase]
    ring

/-- The pointers from a frame on lead along the path. -/
theorem PathOk.recordedRanks {path : List FrameAddr} (hok : PathOk table x k mem path) (r : ℕ) :
    path = [] ∨ r :: PedigreeState.recordedRanks mem (path.length - 1) path.head? =
      (pathRanks mem path r).reverse := by
  match path with
  | [] => exact .inl rfl
  | [a] => exact .inr rfl
  | a :: b :: path =>
    right
    obtain ⟨⟨-, -, hparent, -⟩, hrest⟩ := hok
    have ih := (hrest.recordedRanks (mem a).pedigreeRank.toNat).resolve_left (List.cons_ne_nil _ _)
    rw [pathRanks, List.reverse_append, ← ih]
    simp only [List.length_cons, Nat.add_sub_cancel, List.head?_cons, List.reverse_singleton,
      List.singleton_append, PedigreeState.recordedRanks, hparent]

theorem length_pathTo (d : ℕ) : (pathTo d).length = d + 1 := by
  induction d with
  | zero => rfl
  | succ d ih => rw [pathTo, List.length_cons, ih]

/-- The extension stack is above every frame of the path. -/
theorem slot_not_mem_pathTo {d pos : ℕ} (h : d ≤ pos) : FrameAddr.slot 0 pos ∉ pathTo d := by
  induction d with
  | zero => exact fun hmem => by cases List.mem_singleton.mp hmem
  | succ d ih =>
    intro hmem
    rcases List.mem_cons.mp hmem with heq | hmem
    · injection heq
      omega
    · exact ih (Nat.le_of_succ_le h) hmem

theorem nodup_pathTo (d : ℕ) : (pathTo d).Nodup := by
  induction d with
  | zero => exact List.nodup_singleton _
  | succ d ih => exact List.nodup_cons.mpr ⟨slot_not_mem_pathTo (Nat.le_refl d), ih⟩

/-- Adding a coefficient to a dot product. -/
theorem sum_of_frame {dot t : BitVec 64} {b c : ℕ} (ht : t.toNat < 2^64 - 59)
    (hdot : dot.toNat = b % (2^64 - 59)) (hc : b + t.toNat = c) :
    (dprngSumModP dot t).toNat = c % (2^64 - 59) := by
  have hlt : dot.toNat < 2^64 - 59 := hdot ▸ Nat.mod_lt _ (by decide)
  rw [dprngSumModP_toNat hlt ht, hdot, ← hc, Nat.mod_add_mod]

theorem rank_succ {r : BitVec 64} (hle : r.toNat ≤ k) (hk : k < 2^63) :
    (r + 1).toNat = r.toNat + 1 := by
  rw [BitVec.toNat_add, show (1 : BitVec 64).toNat = 1 from rfl, Nat.mod_eq_of_lt (by omega)]

section Events

variable {a c : FrameAddr} {path : List FrameAddr}

/-- The rank of the innermost function goes up. -/
theorem PathOk.bump (hok : PathOk table x k mem (a :: path)) (ha : a ∉ path) (hk : k < 2^63)
    (ht : (table path.length).toNat < 2^64 - 59) (hhead : mem' a = (mem a).bump table)
    (hrest : ∀ b ∈ path, mem' b = mem b) : PathOk table x (k+1) mem' (a :: path) := by
  obtain ⟨⟨hle, hdepth, hparent, hdot⟩, hpath⟩ := hok
  have hrank := rank_succ hle hk
  have hbase : pathBase table x mem' (a :: path) = pathBase table x mem (a :: path) := by
    match path with
    | [] => rfl
    | b :: path => rw [pathBase, pathBase, hhead, pathBase_congr hrest, PedigreeFrame.bump]
  refine ⟨?_, (hpath.congr hrest).mono (Nat.le_succ k)⟩
  rw [hhead, hbase]
  refine ⟨?_, hdepth, hparent, ?_⟩
  · change ((mem a).rank + 1).toNat ≤ k + 1
    omega
  · change (dprngSumModP _ (table (mem a).dprngDepth)).toNat =
      (_ + ((mem a).rank + 1).toNat * _) % (2^64 - 59)
    rw [hdepth]
    refine sum_of_frame ht hdot ?_
    rw [hrank, Nat.add_mul, one_mul, Nat.add_assoc]

theorem extendSpawn_parent (hne : a ≠ c) : extendSpawn table mem a c a = (mem a).bump table := by
  rw [extendSpawn, Function.update_self, Function.update_of_ne hne]
  rfl

theorem extendSpawn_child (hne : a ≠ c) :
    extendSpawn table mem a c c = (mem a).child table a := by
  rw [extendSpawn, Function.update_of_ne hne.symm, Function.update_self]

theorem extendSpawn_other {b : FrameAddr} (ha : b ≠ a) (hc : b ≠ c) :
    extendSpawn table mem a c b = mem b := by
  rw [extendSpawn, Function.update_of_ne ha, Function.update_of_ne hc]

/-- A child is pushed. -/
theorem PathOk.spawn (hok : PathOk table x k mem (a :: path)) (ha : a ∉ path) (hc : c ∉ a :: path)
    (hk : k < 2^63) (ht : (table path.length).toNat < 2^64 - 59)
    (ht' : (table (path.length + 1)).toNat < 2^64 - 59) :
    PathOk table x (k+1) (extendSpawn table mem a c) (c :: a :: path) := by
  have hne : a ≠ c := fun h => hc (h ▸ List.mem_cons_self)
  have hrest : ∀ b ∈ path, extendSpawn table mem a c b = mem b := fun b hb =>
    extendSpawn_other (fun h => ha (h ▸ hb)) fun h => hc (h ▸ List.mem_cons_of_mem _ hb)
  have hparent := hok.bump ha hk ht (extendSpawn_parent hne) hrest
  refine ⟨?_, hparent⟩
  obtain ⟨⟨-, hdepth, -, hdot⟩, -⟩ := hok
  have hbase : pathBase table x (extendSpawn table mem a c) (a :: path) =
      pathBase table x mem (a :: path) := by
    match path with
    | [] => rfl
    | b :: path =>
      rw [pathBase, pathBase, extendSpawn_parent hne, pathBase_congr hrest, PedigreeFrame.bump]
  rw [extendSpawn_child hne, pathBase, hbase, extendSpawn_child hne, PedigreeFrame.child]
  refine ⟨Nat.zero_le _, by rw [hdepth, List.length_cons], rfl, ?_⟩
  dsimp only
  rw [hdepth]
  refine sum_of_frame ht' hdot ?_
  rw [show (0 : BitVec 64).toNat = 0 from rfl, Nat.zero_mul, Nat.add_zero]
  rfl

end Events

end Path

section Runs

variable {table : ℕ → BitVec 64} {x k : ℕ} {s : PedigreeState}

/-- A serial execution after at most `k` increments. -/
structure PedigreeInv (table : ℕ → BitVec 64) (x k : ℕ) (s : PedigreeState) : Prop where
  path : s.extension :: s.spawners = pathTo s.extStack
  ok : PathOk table x k s.mem (s.extension :: s.spawners)

theorem PedigreeInv.length (hi : PedigreeInv table x k s) : s.spawners.length = s.extStack := by
  have hlen := congrArg List.length hi.path
  rw [length_pathTo, List.length_cons] at hlen
  omega

theorem PedigreeInv.not_mem (hi : PedigreeInv table x k s) : s.extension ∉ s.spawners := by
  have hnodup := nodup_pathTo s.extStack
  rw [← hi.path] at hnodup
  exact (List.nodup_cons.mp hnodup).1

theorem pedigreeInit_inv (seed : BitVec 64) :
    PedigreeInv table (dprngX seed).toNat 0 (pedigreeInit seed) where
  path := rfl
  ok := by
    refine ⟨⟨Nat.le_refl 0, rfl, rfl, ?_⟩, trivial⟩
    change (dprngX seed).toNat = ((dprngX seed).toNat + 0 * _) % (2^64 - 59)
    rw [Nat.zero_mul, Nat.add_zero, Nat.mod_eq_of_lt (dprngX_lt seed)]

/-- A sync, a bump and a call of `__cilkrts_get_dprand` do the same. -/
theorem PedigreeInv.bump (hi : PedigreeInv table x k s) (hk : k < 2^63)
    (ht : (table s.extStack).toNat < 2^64 - 59) : PedigreeInv table x (k+1)
      { s with mem := Function.update s.mem s.extension (s.frame.bump table) } where
  path := hi.path
  ok := by
    refine hi.ok.bump hi.not_mem hk (hi.length ▸ ht) (Function.update_self _ _ _) fun b hb => ?_
    have hne : b ≠ s.extension := fun h => hi.not_mem (h ▸ hb)
    exact Function.update_of_ne hne _ _

theorem PedigreeInv.spawn (hi : PedigreeInv table x k s) (hk : k < 2^63)
    (ht : (table s.extStack).toNat < 2^64 - 59)
    (ht' : (table (s.extStack + 1)).toNat < 2^64 - 59) :
    ∃ s', s.step table .spawn = some s' ∧ PedigreeInv table x (k+1) s' ∧
      s'.extStack = s.extStack + 1 := by
  refine ⟨_, rfl, ⟨?_, ?_⟩, rfl⟩
  · change _ :: s.extension :: s.spawners = pathTo (s.extStack + 1)
    rw [hi.path, pathTo]
  · refine hi.ok.spawn hi.not_mem ?_ hk (hi.length ▸ ht) (hi.length ▸ ht')
    rw [hi.path]
    exact slot_not_mem_pathTo (Nat.le_refl _)

theorem PedigreeInv.ret (hi : PedigreeInv table x k s) (hpos : 0 < s.extStack) :
    ∃ s', s.step table .ret = some s' ∧ PedigreeInv table x k s' ∧
      s'.extStack = s.extStack - 1 := by
  have hlen := hi.length
  have hpath := hi.path
  have hok := hi.ok
  obtain ⟨d, hd⟩ := Nat.exists_eq_add_of_lt hpos
  unfold PedigreeState.step
  cases hspawners : s.spawners with
  | nil =>
    rw [hspawners, List.length_nil] at hlen
    omega
  | cons parent spawners =>
    rw [hspawners] at hpath hok
    refine ⟨_, rfl, ⟨?_, hok.2⟩, rfl⟩
    rw [hd, pathTo] at hpath
    change parent :: spawners = pathTo (s.extStack - 1)
    rw [hd, Nat.add_sub_cancel, (List.cons.inj hpath).2]

open PedigreeEvent in
/-- Every event of a well nested execution is defined and keeps the invariant. -/
theorem PedigreeInv.run (ht : ∀ i < dprngEntries, (table i).toNat < 2^64 - 59)
    {events : List PedigreeEvent} : ∀ {s : PedigreeState} {k : ℕ}, PedigreeInv table x k s →
    s.extStack < dprngEntries → NestedBelow s.extStack events → k + increments events < 2^63 →
    ∃ s', s.run table events = some s' ∧ PedigreeInv table x (k + increments events) s' := by
  induction events with
  | nil => exact fun hi _ _ _ => ⟨_, rfl, hi⟩
  | cons e events ih =>
    intro s k hi hcap hnest hk
    have hcount : increments (e :: events) = increments events + if e ≠ .ret then 1 else 0 := by
      unfold increments
      rw [List.countP_cons]
      simp only [decide_eq_true_eq]
    rw [hcount] at hk ⊢
    have hbump (hne : e ≠ .ret) (hsame : NestedBelow s.extStack events)
        (hstep : s.step table e =
          some { s with mem := Function.update s.mem s.extension (s.frame.bump table) }) :
        ∃ s', s.run table (e :: events) = some s' ∧
          PedigreeInv table x (k + (increments events + if e ≠ .ret then 1 else 0)) s' := by
      rw [if_pos hne] at hk ⊢
      obtain ⟨s', hrun, hinv⟩ := ih (hi.bump (by omega) (ht _ hcap)) hcap hsame (by omega)
      refine ⟨s', ?_, ?_⟩
      · rw [PedigreeState.run, hstep, Option.bind_some, hrun]
      · rwa [Nat.add_right_comm, Nat.add_assoc] at hinv
    cases e with
    | sync | bump | dprand => exact hbump (fun h => by cases h) hnest rfl
    | spawn =>
      obtain ⟨hdeep, hrest⟩ := hnest
      rw [if_pos (fun h => by cases h)] at hk ⊢
      obtain ⟨s₁, hstep, hi₁, hext⟩ := hi.spawn (by omega) (ht _ hcap) (ht _ hdeep)
      obtain ⟨s', hrun, hinv⟩ := ih hi₁ (hext ▸ hdeep) (hext ▸ hrest) (by omega)
      refine ⟨s', ?_, ?_⟩
      · rw [PedigreeState.run, hstep, Option.bind_some, hrun]
      · rwa [Nat.add_right_comm, Nat.add_assoc] at hinv
    | ret =>
      obtain ⟨hpos, hrest⟩ := hnest
      rw [if_neg (fun h => h rfl)] at hk ⊢
      obtain ⟨s₁, hstep, hi₁, hext⟩ := hi.ret hpos
      obtain ⟨s', hrun, hinv⟩ := ih hi₁ (by omega) (hext ▸ hrest) (by omega)
      exact ⟨s', by rw [PedigreeState.run, hstep, Option.bind_some, hrun], hinv⟩

theorem PedigreeState.run_append (events later : List PedigreeEvent) (s : PedigreeState) :
    s.run table (events ++ later) = (s.run table events).bind fun s => s.run table later := by
  induction events generalizing s with
  | nil => rfl
  | cons e events ih =>
    rw [List.cons_append, PedigreeState.run, PedigreeState.run, Option.bind_assoc]
    congr 1
    funext s
    exact ih s

/-- The running spawns are those that have not returned. -/
theorem PedigreeState.run_spawners {events : List PedigreeEvent} {s t : PedigreeState}
    (hrun : s.run table events = some t) :
    t.spawners.length + events.count .ret = s.spawners.length + events.count .spawn := by
  induction events generalizing s with
  | nil =>
    obtain rfl := Option.some.inj hrun
    rfl
  | cons e events ih =>
    rw [PedigreeState.run] at hrun
    obtain ⟨u, hstep, hrest⟩ := Option.bind_eq_some_iff.mp hrun
    have hlen := ih hrest
    cases e with
    | spawn =>
      obtain rfl := Option.some.inj hstep
      rw [List.length_cons] at hlen
      rw [List.count_cons_self, List.count_cons_of_ne (by decide)]
      omega
    | ret =>
      rw [PedigreeState.step] at hstep
      cases hspawners : s.spawners with
      | nil =>
        rw [hspawners] at hstep
        cases hstep
      | cons parent spawners =>
        rw [hspawners] at hstep
        obtain rfl := Option.some.inj hstep
        have hkept : t.spawners.length + events.count .ret =
            spawners.length + events.count .spawn := hlen
        rw [List.count_cons_self, List.count_cons_of_ne (by decide), List.length_cons]
        omega
    | sync | bump | dprand =>
      obtain rfl := Option.some.inj hstep
      rw [List.count_cons_of_ne (by decide), List.count_cons_of_ne (by decide)]
      exact hlen

open PedigreeEvent in
/-- A child, with all that it spawns, leaves the frames of its callers alone. -/
theorem child_keeps (table : ℕ → BitVec 64) {b : ℕ} {child : List PedigreeEvent} : ∀ {s : PedigreeState} {j : ℕ},
    s.extStack = b + 1 + j → s.extension :: s.spawners = pathTo s.extStack → Balanced j child →
    ∃ s', s.run table child = some s' ∧ s'.extStack = b + 1 ∧
      s'.extension :: s'.spawners = pathTo (b + 1) ∧
      ∀ a ∈ pathTo b, s'.mem a = s.mem a := by
  induction child with
  | nil =>
    intro s j hstack hpath hbal
    have hj : j = 0 := hbal
    rw [hj, Nat.add_zero] at hstack
    exact ⟨s, rfl, hstack, hstack ▸ hpath, fun _ _ => rfl⟩
  | cons e child ih =>
    intro s j hstack hpath hbal
    have htop : s.extension = .slot 0 (b + j) := by
      rw [hstack, Nat.add_right_comm, pathTo] at hpath
      exact (List.cons.inj hpath).1
    have hbump (hsame : Balanced j child) (hstep : s.step table e =
        some { s with mem := Function.update s.mem s.extension (s.frame.bump table) }) :
        ∃ s', s.run table (e :: child) = some s' ∧ s'.extStack = b + 1 ∧
          s'.extension :: s'.spawners = pathTo (b + 1) ∧
          ∀ a ∈ pathTo b, s'.mem a = s.mem a := by
      obtain ⟨s', hrun, hstack', hpath', hmem⟩ := ih
        (s := { s with mem := Function.update s.mem s.extension (s.frame.bump table) })
        hstack hpath hsame
      refine ⟨s', by rw [PedigreeState.run, hstep, Option.bind_some, hrun], hstack', hpath', ?_⟩
      intro a ha
      rw [hmem a ha]
      refine Function.update_of_ne (fun h => ?_) _ _
      rw [h, htop] at ha
      exact slot_not_mem_pathTo (Nat.le_add_right b j) ha
    cases e with
    | sync | bump | dprand => exact hbump hbal rfl
    | spawn =>
      obtain ⟨s₁, hstep, hs₁⟩ : ∃ s₁, s.step table .spawn = some s₁ ∧
          s₁ = { mem := extendSpawn table s.mem s.extension (.slot 0 s.extStack)
                 extension := .slot 0 s.extStack
                 extStack := s.extStack + 1
                 spawners := s.extension :: s.spawners } := ⟨_, rfl, rfl⟩
      obtain ⟨s', hrun, hstack', hpath', hmem⟩ := ih (s := s₁) (j := j + 1)
        (by
          rw [hs₁]
          change s.extStack + 1 = _
          omega) (by rw [hs₁, hpath, pathTo]) hbal
      refine ⟨s', by rw [PedigreeState.run, hstep, Option.bind_some, hrun], hstack', hpath', ?_⟩
      intro a ha
      rw [hmem a ha, hs₁]
      refine extendSpawn_other (fun h => ?_) fun h => ?_
      · rw [h, htop] at ha
        exact slot_not_mem_pathTo (Nat.le_add_right b j) ha
      · rw [h, hstack, Nat.add_assoc] at ha
        exact slot_not_mem_pathTo (Nat.le_add_right b (1 + j)) ha
    | ret =>
      obtain ⟨hpos, hbal⟩ := hbal
      obtain ⟨i, hi⟩ := Nat.exists_eq_add_of_lt hpos
      rw [Nat.zero_add] at hi
      have hspawners : s.spawners = pathTo (b + 1 + i) := by
        rw [hstack, hi, ← Nat.add_assoc, pathTo] at hpath
        exact (List.cons.inj hpath).2
      cases hlist : s.spawners with
      | nil =>
        rw [hlist] at hspawners
        have hlen := congrArg List.length hspawners
        rw [length_pathTo] at hlen
        cases hlen
      | cons parent spawners =>
        have hstep : s.step table .ret = some { s with
            extension := parent
            extStack := s.extStack - 1
            spawners := spawners } := by rw [PedigreeState.step, hlist]
        have hstack₁ : s.extStack - 1 = b + 1 + i := by omega
        obtain ⟨s', hrun, hrest⟩ := ih
          (s := { s with extension := parent, extStack := s.extStack - 1, spawners := spawners })
          (j := i) hstack₁ (by rw [← hlist, hspawners, hstack₁])
          (by rwa [hi, Nat.add_sub_cancel] at hbal)
        exact ⟨s', by rw [PedigreeState.run, hstep, Option.bind_some, hrun], hrest⟩

open PedigreeEvent in
/-- After the return of a child its parent is as after the spawn, whatever the child has done. -/
theorem PedigreeInv.child (hi : PedigreeInv table x k s) {child : List PedigreeEvent}
    (hbal : Balanced 0 child) : ∃ s', s.run table (.spawn :: child ++ [.ret]) = some s' ∧
      s'.extension = s.extension ∧ s'.spawners = s.spawners ∧ s'.frame = s.frame.bump table ∧
      ∀ addr ∈ s.spawners, s'.mem addr = s.mem addr := by
  have hslot : FrameAddr.slot 0 s.extStack ∉ s.extension :: s.spawners := by
    rw [hi.path]
    exact slot_not_mem_pathTo (Nat.le_refl _)
  have hne : s.extension ≠ .slot 0 s.extStack := fun h => hslot (h ▸ List.mem_cons_self)
  obtain ⟨s₁, hstep, hs₁⟩ : ∃ s₁, s.step table .spawn = some s₁ ∧
      s₁ = { mem := extendSpawn table s.mem s.extension (.slot 0 s.extStack)
             extension := .slot 0 s.extStack
             extStack := s.extStack + 1
             spawners := s.extension :: s.spawners } := ⟨_, rfl, rfl⟩
  obtain ⟨s₂, hrun, hstack, hpath, hmem⟩ := child_keeps table (b := s.extStack) (s := s₁) (j := 0)
    (by rw [hs₁]) (by rw [hs₁, hi.path, pathTo]) hbal
  have hspawners : s₂.spawners = s.extension :: s.spawners := by
    rw [pathTo, ← hi.path] at hpath
    exact (List.cons.inj hpath).2
  have hret : s₂.step table .ret = some { s₂ with
      extension := s.extension
      extStack := s₂.extStack - 1
      spawners := s.spawners } := by rw [PedigreeState.step, hspawners]
  refine ⟨{ s₂ with extension := s.extension, extStack := s₂.extStack - 1, spawners := s.spawners },
    ?_, rfl, rfl, ?_, fun addr haddr => ?_⟩
  · rw [List.cons_append, PedigreeState.run, hstep, Option.bind_some, PedigreeState.run_append, hrun,
      Option.bind_some, PedigreeState.run, hret, Option.bind_some, PedigreeState.run]
  · change s₂.mem s.extension = _
    rw [hmem _ (hi.path ▸ List.mem_cons_self), hs₁]
    exact extendSpawn_parent hne
  · change s₂.mem addr = _
    rw [hmem _ (hi.path ▸ List.mem_cons_of_mem _ haddr), hs₁]
    refine extendSpawn_other (fun h => hi.not_mem (h ▸ haddr)) fun h => ?_
    exact hslot (h ▸ List.mem_cons_of_mem _ haddr)

/-- The ranks that the pointers reach are those of the path. -/
theorem PedigreeInv.ranks (hi : PedigreeInv table x k s) :
    s.ranks = pathRanks s.mem (s.extension :: s.spawners) s.frame.rank.toNat := by
  have hrec := (hi.ok.recordedRanks s.frame.rank.toNat).resolve_left (List.cons_ne_nil _ _)
  have hdepth : s.frame.dprngDepth = (s.extension :: s.spawners).length - 1 := hi.ok.1.2.1
  rw [PedigreeState.ranks, hdepth, ← List.head?_cons (l := s.spawners), hrec, List.reverse_reverse]

open PedigreeEvent in
/-- In every serial execution with a nesting below the number of coefficients, the dot product of
the running function is below the modulus and congruent to the sum over its pedigree, whose length
is that of the running spawns, and a child that returns leaves the state of its parent as it was
after the spawn. -/
theorem dprng_isPedigree (seed : BitVec 64) (beyond : ℕ → BitVec 64) {events : List PedigreeEvent}
    (hnest : NestedBelow 0 events) (hincr : increments events < 2^63) :
    ∃ s, (pedigreeInit seed).run (dprngTable seed beyond) events = some s ∧
      s.frame.dprngDepth = s.spawners.length ∧
      s.spawners.length + events.count .ret = events.count .spawn ∧
      s.ranks.length = s.frame.dprngDepth + 1 ∧
      s.frame.dprngDotproduct.toNat < 2^64 - 59 ∧
      s.frame.dprngDotproduct.toNat ≡ pedigreeSum (dprngTable seed beyond) (dprngX seed).toNat
        (fun i => s.ranks.getD i 0) s.frame.dprngDepth [MOD 2^64 - 59] ∧
      ∀ child, Balanced 0 child →
        ∃ s', s.run (dprngTable seed beyond) (.spawn :: child ++ [.ret]) = some s' ∧
          s'.extension = s.extension ∧ s'.spawners = s.spawners ∧
          s'.frame = s.frame.bump (dprngTable seed beyond) ∧
          ∀ addr ∈ s.spawners, s'.mem addr = s.mem addr := by
  have htable : ∀ i < dprngEntries, (dprngTable seed beyond i).toNat < 2^64 - 59 :=
    fun i hi => dprngTable_lt hi
  have hinit : PedigreeInv (dprngTable seed beyond) (dprngX seed).toNat 0 (pedigreeInit seed) :=
    pedigreeInit_inv seed
  obtain ⟨s, hrun, hi⟩ := hinit.run htable (Nat.succ_pos _) hnest (by rwa [Nat.zero_add])
  have hdot : s.frame.dprngDotproduct.toNat = _ := hi.ok.1.2.2.2
  have hdepth : s.frame.dprngDepth = s.spawners.length := hi.ok.1.2.1
  have hsum := pathBase_eq_sum (dprngTable seed beyond) (dprngX seed).toNat s.mem
    (List.cons_ne_nil s.extension s.spawners) s.frame.rank.toNat
  rw [List.length_cons, Nat.add_sub_cancel] at hsum
  have hnesting := PedigreeState.run_spawners hrun
  refine ⟨s, hrun, hdepth, ?_, ?_, ?_, ?_, fun child hbal => hi.child hbal⟩
  · have hstart : (pedigreeInit seed).spawners.length = 0 := rfl
    omega
  · rw [hi.ranks, length_pathRanks, hdepth, List.length_cons]
  · rw [hdot]
    exact Nat.mod_lt _ (by decide)
  · rw [hdot, hdepth, hi.ranks, ← hsum]
    exact Nat.mod_modEq _ _

open PedigreeEvent in
/-- A child is spawned that syncs and draws a number. -/
theorem dprng_isPedigree_child :
    ∃ s, (pedigreeInit 0).run (dprngTable 0 fun _ => 0) [.spawn, .sync, .dprand] = some s ∧
      s.frame.dprngDotproduct.toNat < 2^64 - 59 := by
  obtain ⟨s, hrun, -, -, -, hlt, -⟩ := dprng_isPedigree 0 (fun _ => 0)
    (show NestedBelow 0 [.spawn, .sync, .dprand] from ⟨by decide, trivial⟩) (by decide)
  exact ⟨s, hrun, hlt⟩

end Runs

end Cheetah
