import Cheetah.PedigreeFormula
import Cheetah.Extensions

/-! What a strand can observe of its pedigree, and how it evolves in a serial execution. -/
namespace Cheetah

/-- The ranks that the parent pointers lead along, up to the root. -/
inductive PedigreeChain (mem : PedigreeMem) : Option FrameAddr → List (BitVec 64) → Prop
  | nil : PedigreeChain mem none []
  | cons {a : FrameAddr} {ranks : List (BitVec 64)}
      (h : PedigreeChain mem (mem a).pedigreeParent ranks) :
      PedigreeChain mem (some a) ((mem a).pedigreeRank :: ranks)

/-- A pedigree frame without addresses. -/
structure PedigreeLabel where
  rank : BitVec 64
  dprngDotproduct : BitVec 64
  dprngDepth : ℕ
  parents : List (BitVec 64)

/-- The pedigree at an address. -/
structure Reads (mem : PedigreeMem) (a : FrameAddr) (l : PedigreeLabel) : Prop where
  rank : (mem a).rank = l.rank
  dotproduct : (mem a).dprngDotproduct = l.dprngDotproduct
  depth : (mem a).dprngDepth = l.dprngDepth
  parents : PedigreeChain mem (some a) l.parents

namespace PedigreeLabel

variable (table : ℕ → BitVec 64)

def bump (l : PedigreeLabel) : PedigreeLabel :=
  { l with
    rank := l.rank + 1
    dprngDotproduct := dprngSumModP l.dprngDotproduct (table l.dprngDepth) }

def child (l : PedigreeLabel) : PedigreeLabel where
  rank := 0
  dprngDotproduct := dprngSumModP l.dprngDotproduct (table (l.dprngDepth + 1))
  dprngDepth := l.dprngDepth + 1
  parents := l.rank :: l.parents

/-- One event of a serial execution, over the pedigrees of the running functions, the innermost
first. -/
def step : List PedigreeLabel → PedigreeEvent → List PedigreeLabel
  | [], _ => []
  | l :: ls, .spawn => l.child table :: l.bump table :: ls
  | _ :: ls, .ret => ls
  | l :: ls, _ => l.bump table :: ls

def run (ls : List PedigreeLabel) (events : List PedigreeEvent) : List PedigreeLabel :=
  events.foldl (step table) ls

end PedigreeLabel

/-- The label of the root frame. -/
def rootLabel (root : PedigreeFrame) : PedigreeLabel where
  rank := root.rank
  dprngDotproduct := root.dprngDotproduct
  dprngDepth := root.dprngDepth
  parents := [root.pedigreeRank]

section Chains

variable {mem mem' : PedigreeMem} {table : ℕ → BitVec 64} {a c : FrameAddr} {l : PedigreeLabel}

/-- Chains stay as they are where the frames on them keep their pedigrees. -/
theorem PedigreeChain.congr {p : Option FrameAddr} {ranks : List (BitVec 64)}
    (h : PedigreeChain mem p ranks) (on : FrameAddr → Prop)
    (hclosed : ∀ a b, on a → (mem a).pedigreeParent = some b → on b)
    (hsame : ∀ a, on a → (mem' a).pedigreeRank = (mem a).pedigreeRank ∧
      (mem' a).pedigreeParent = (mem a).pedigreeParent) (hp : ∀ a, p = some a → on a) :
    PedigreeChain mem' p ranks := by
  induction h with
  | nil => exact .nil
  | @cons a ranks h ih =>
    obtain ⟨hrank, hparent⟩ := hsame a (hp a rfl)
    rw [← hrank]
    apply PedigreeChain.cons
    rw [hparent]
    exact ih fun b hb => hclosed a b (hp a rfl) hb

/-- The chain at an address is unique. -/
theorem PedigreeChain.unique {p : Option FrameAddr} {ranks ranks' : List (BitVec 64)}
    (h : PedigreeChain mem p ranks) (h' : PedigreeChain mem p ranks') : ranks = ranks' := by
  induction h generalizing ranks' with
  | nil =>
    cases h'
    rfl
  | cons h ih =>
    cases h' with
    | cons h' => rw [ih h']

theorem Reads.congr (h : Reads mem a l) (on : FrameAddr → Prop) (ha : on a)
    (hclosed : ∀ a b, on a → (mem a).pedigreeParent = some b → on b)
    (hsame : ∀ a, on a → (mem' a).pedigreeRank = (mem a).pedigreeRank ∧
      (mem' a).pedigreeParent = (mem a).pedigreeParent)
    (hrank : (mem' a).rank = (mem a).rank)
    (hdot : (mem' a).dprngDotproduct = (mem a).dprngDotproduct)
    (hdepth : (mem' a).dprngDepth = (mem a).dprngDepth) : Reads mem' a l where
  rank := hrank.trans h.rank
  dotproduct := hdot.trans h.dotproduct
  depth := hdepth.trans h.depth
  parents := by
    apply h.parents.congr on hclosed hsame
    rintro b hb
    rwa [← Option.some.inj hb]

theorem extendSync_self : extendSync table mem a a = (mem a).bump table :=
  Function.update_self _ _ _

theorem extendSync_of_ne (hne : c ≠ a) : extendSync table mem a c = mem c :=
  Function.update_of_ne hne _ _

/-- A rank that goes up is in no chain. -/
theorem extendSync_pedigree : (extendSync table mem a c).pedigreeRank = (mem c).pedigreeRank ∧
    (extendSync table mem a c).pedigreeParent = (mem c).pedigreeParent := by
  by_cases hca : c = a
  · subst hca
    rw [extendSync_self]
    exact ⟨rfl, rfl⟩
  · rw [extendSync_of_ne hca]
    exact ⟨rfl, rfl⟩

theorem Reads.bump (h : Reads mem a l) : Reads (extendSync table mem a) a (l.bump table) where
  rank := by rw [extendSync_self, PedigreeFrame.bump, PedigreeLabel.bump, h.rank]
  dotproduct := by
    rw [extendSync_self, PedigreeFrame.bump, PedigreeLabel.bump, h.dotproduct, h.depth]
  depth := by rw [extendSync_self, PedigreeFrame.bump, PedigreeLabel.bump, h.depth]
  parents := by
    apply h.parents.congr (fun _ => True) (fun _ _ _ _ => trivial) (fun _ _ => extendSync_pedigree)
    exact fun _ _ => trivial

/-- The rank of another function goes up. -/
theorem Reads.bump_other (h : Reads mem c l) (hne : c ≠ a) :
    Reads (extendSync table mem a) c l := by
  apply h.congr (fun _ => True) trivial (fun _ _ _ _ => trivial) fun _ _ => extendSync_pedigree
  all_goals rw [extendSync_of_ne hne]

/-- Outside of the new frame a spawn changes what a bump of the parent changes. -/
theorem extendSpawn_eq_sync {b : FrameAddr} (hac : a ≠ c) (hb : b ≠ c) :
    extendSpawn table mem a c b = extendSync table mem a b := by
  by_cases hba : b = a
  · subst hba
    rw [extendSpawn_parent hac, extendSync_self]
  · rw [extendSpawn_other hba hb, extendSync_of_ne hba]

/-- The pedigrees on a closed set of addresses survive a push outside of it. -/
theorem Reads.push (h : Reads (extendSync table mem a) c l) {on : FrameAddr → Prop} (hc : on c)
    (hclosed : ∀ a b, on a → (mem a).pedigreeParent = some b → on b) {new : FrameAddr}
    (hnew : ¬ on new) (ha : on a) : Reads (extendSpawn table mem a new) c l := by
  have hne : ∀ b, on b → b ≠ new := by
    rintro b hb rfl
    exact hnew hb
  have hsame : ∀ b, on b → extendSpawn table mem a new b = extendSync table mem a b :=
    fun b hb => extendSpawn_eq_sync (hne a ha) (hne b hb)
  apply h.congr on hc
  · intro b b' hb hparent
    rw [extendSync_pedigree.2] at hparent
    exact hclosed b b' hb hparent
  · intro b hb
    rw [hsame b hb]
    exact ⟨rfl, rfl⟩
  all_goals rw [hsame c hc]

/-- The pedigree of a child that is pushed. -/
theorem Reads.child (h : Reads mem a l) {on : FrameAddr → Prop} (ha : on a)
    (hclosed : ∀ a b, on a → (mem a).pedigreeParent = some b → on b) {new : FrameAddr}
    (hnew : ¬ on new) : Reads (extendSpawn table mem a new) new (l.child table) := by
  have hne : a ≠ new := by
    rintro rfl
    exact hnew ha
  have hparent : Reads (extendSpawn table mem a new) a (l.bump table) :=
    h.bump.push ha hclosed hnew ha
  constructor
  · rw [extendSpawn_child hne]
    rfl
  · rw [extendSpawn_child hne, PedigreeFrame.child, PedigreeLabel.child, h.dotproduct, h.depth]
  · rw [extendSpawn_child hne, PedigreeFrame.child, PedigreeLabel.child, h.depth]
  · have hself : extendSpawn table mem a new new = (mem a).child table a := extendSpawn_child hne
    have hranks : (l.child table).parents =
        (extendSpawn table mem a new new).pedigreeRank :: (l.bump table).parents := by
      rw [hself, PedigreeFrame.child, PedigreeLabel.child, h.rank]
      rfl
    rw [hranks]
    apply PedigreeChain.cons
    rw [hself]
    exact hparent.parents

end Chains

section Serial

open PedigreeLabel

variable {table : ℕ → BitVec 64} {σ : PedigreeState} {l : PedigreeLabel} {ls : List PedigreeLabel}

/-- The frames of a serial execution read as the labels, along the path of its running functions. -/
structure SerialReads (σ : PedigreeState) (ls : List PedigreeLabel) : Prop where
  path : σ.extension :: σ.spawners = pathTo σ.extStack
  reads : List.Forall₂ (Reads σ.mem) (pathTo σ.extStack) ls
  links : ∀ i < σ.extStack, (σ.mem (.slot 0 i)).pedigreeParent = (pathTo i).head?
  root : (σ.mem .root).pedigreeParent = none

theorem mem_pathTo {d : ℕ} {a : FrameAddr} : a ∈ pathTo d ↔ a = .root ∨ ∃ i < d, a = .slot 0 i := by
  induction d with
  | zero => simp [pathTo]
  | succ d ih =>
    rw [pathTo, List.mem_cons, ih]
    constructor
    · rintro (rfl | h | ⟨i, hi, rfl⟩)
      · exact .inr ⟨d, Nat.lt_succ_self d, rfl⟩
      · exact .inl h
      · exact .inr ⟨i, Nat.lt_succ_of_lt hi, rfl⟩
    · rintro (h | ⟨i, hi, rfl⟩)
      · exact .inr (.inl h)
      · rcases Nat.lt_succ_iff_lt_or_eq.mp hi with hlt | rfl
        · exact .inr (.inr ⟨i, hlt, rfl⟩)
        · exact .inl rfl

theorem SerialReads.closed (hr : SerialReads σ ls) (a b : FrameAddr) (ha : a ∈ pathTo σ.extStack)
    (hb : (σ.mem a).pedigreeParent = some b) : b ∈ pathTo σ.extStack := by
  rcases mem_pathTo.mp ha with rfl | ⟨i, hi, rfl⟩
  · rw [hr.root] at hb
    cases hb
  · rw [hr.links i hi] at hb
    rcases mem_pathTo.mp (List.mem_of_head? hb) with rfl | ⟨j, hj, rfl⟩
    · exact mem_pathTo.mpr (.inl rfl)
    · exact mem_pathTo.mpr (.inr ⟨j, hj.trans hi, rfl⟩)

theorem SerialReads.head (hr : SerialReads σ (l :: ls)) :
    Reads σ.mem σ.extension l ∧ List.Forall₂ (Reads σ.mem) σ.spawners ls := by
  have hreads := hr.reads
  rw [← hr.path] at hreads
  exact List.forall₂_cons.mp hreads

/-- Frames that read as they did do so along a path. -/
theorem reads_along {mem mem' : PedigreeMem} {path : List FrameAddr}
    (h : List.Forall₂ (Reads mem) path ls)
    (hsame : ∀ a ∈ path, ∀ l, Reads mem a l → Reads mem' a l) :
    List.Forall₂ (Reads mem') path ls := by
  induction h with
  | nil => exact .nil
  | cons hhead htail ih =>
    exact .cons (hsame _ List.mem_cons_self _ hhead)
      (ih fun a ha => hsame a (List.mem_cons_of_mem _ ha))

theorem SerialReads.not_mem (hr : SerialReads σ ls) : σ.extension ∉ σ.spawners := by
  have hnodup := nodup_pathTo σ.extStack
  rw [← hr.path] at hnodup
  exact (List.nodup_cons.mp hnodup).1

theorem SerialReads.bump (hr : SerialReads σ (l :: ls)) :
    SerialReads { σ with mem := extendSync table σ.mem σ.extension } (l.bump table :: ls) := by
  obtain ⟨hhead, htail⟩ := hr.head
  constructor
  case path => exact hr.path
  case reads =>
    rw [← hr.path]
    apply List.Forall₂.cons hhead.bump
    apply reads_along htail
    intro a ha l' hl'
    apply hl'.bump_other
    rintro rfl
    exact hr.not_mem ha
  case links =>
    intro i hi
    exact extendSync_pedigree.2.trans (hr.links i hi)
  case root => exact extendSync_pedigree.2.trans hr.root

theorem SerialReads.spawn (hr : SerialReads σ (l :: ls)) :
    ∃ σ', σ.step table .spawn = some σ' ∧
      SerialReads σ' (l.child table :: l.bump table :: ls) := by
  have hbump : List.Forall₂ (Reads (extendSync table σ.mem σ.extension))
      (pathTo σ.extStack) (l.bump table :: ls) := hr.bump.reads
  have hself : σ.extension ∈ pathTo σ.extStack := by
    rw [← hr.path]
    exact List.mem_cons_self
  have hnew : FrameAddr.slot 0 σ.extStack ∉ pathTo σ.extStack := slot_not_mem_pathTo (Nat.le_refl _)
  have hne : σ.extension ≠ .slot 0 σ.extStack := fun h => hnew (h ▸ hself)
  have hpush : ∀ a ∈ pathTo σ.extStack, extendSpawn table σ.mem σ.extension (.slot 0 σ.extStack) a =
      extendSync table σ.mem σ.extension a := by
    intro a ha
    apply extendSpawn_eq_sync hne
    rintro rfl
    exact hnew ha
  refine ⟨_, rfl, ?_⟩
  constructor
  case path =>
    change _ :: σ.extension :: σ.spawners = pathTo (σ.extStack + 1)
    rw [hr.path, pathTo]
  case reads =>
    apply List.Forall₂.cons
    · exact hr.head.1.child hself hr.closed hnew
    · apply reads_along hbump
      intro a ha l' hl'
      exact hl'.push ha hr.closed hnew hself
  case links =>
    intro i hi
    change (extendSpawn table σ.mem σ.extension (.slot 0 σ.extStack) _).pedigreeParent = _
    rcases Nat.lt_succ_iff_lt_or_eq.mp hi with hlt | rfl
    · rw [hpush _ (mem_pathTo.mpr (.inr ⟨i, hlt, rfl⟩)), extendSync_pedigree.2, hr.links i hlt]
    · rw [extendSpawn_child hne, ← hr.path]
      rfl
  case root =>
    change (extendSpawn table σ.mem σ.extension (.slot 0 σ.extStack) _).pedigreeParent = _
    rw [hpush _ (mem_pathTo.mpr (.inl rfl)), extendSync_pedigree.2, hr.root]

theorem SerialReads.ret {l' : PedigreeLabel} (hr : SerialReads σ (l :: l' :: ls)) :
    ∃ σ', σ.step table .ret = some σ' ∧ SerialReads σ' (l' :: ls) := by
  have htail := hr.head.2
  have hpath := hr.path
  obtain ⟨parent, spawners, hspawners⟩ := List.exists_cons_of_length_pos
    (Nat.lt_of_lt_of_eq (Nat.succ_pos _) htail.length_eq.symm)
  have hlen := congrArg List.length hpath
  rw [hspawners, length_pathTo, List.length_cons, List.length_cons] at hlen
  obtain ⟨d, hd⟩ : ∃ d, σ.extStack = d + 1 := ⟨spawners.length, by omega⟩
  rw [hspawners, hd, pathTo] at hpath
  have hrest : parent :: spawners = pathTo d := (List.cons.inj hpath).2
  refine ⟨{ σ with extension := parent, extStack := σ.extStack - 1, spawners := spawners }, ?_, ?_⟩
  · rw [PedigreeState.step, hspawners]
  · have hd' : σ.extStack - 1 = d := by omega
    constructor
    case path =>
      rw [hd']
      exact hrest
    case reads =>
      rw [hd', ← hrest, ← hspawners]
      exact htail
    case links =>
      intro i hi
      exact hr.links i (Nat.lt_of_lt_of_le hi (Nat.sub_le _ _))
    case root => exact hr.root

theorem SerialReads.step (hr : SerialReads σ ls) {e : PedigreeEvent}
    (hrunning : PedigreeLabel.step table ls e ≠ []) :
    ∃ σ', σ.step table e = some σ' ∧ SerialReads σ' (PedigreeLabel.step table ls e) := by
  cases ls with
  | nil => exact absurd rfl hrunning
  | cons l ls =>
    cases e with
    | spawn => exact hr.spawn
    | ret =>
      cases ls with
      | nil => exact absurd rfl hrunning
      | cons l' ls => exact hr.ret
    | sync | bump | dprand => exact ⟨_, rfl, hr.bump⟩

theorem PedigreeLabel.run_nil (events : List PedigreeEvent) : run table [] events = [] := by
  induction events with
  | nil => rfl
  | cons e events ih => exact ih

theorem PedigreeLabel.run_cons (ls : List PedigreeLabel) (e : PedigreeEvent)
    (events : List PedigreeEvent) :
    run table ls (e :: events) = run table (step table ls e) events := rfl

theorem PedigreeLabel.run_append (ls : List PedigreeLabel) (events later : List PedigreeEvent) :
    run table ls (events ++ later) = run table (run table ls events) later := List.foldl_append

/-- A serial execution reads as the labels say as long as the root function has not returned. -/
theorem SerialReads.run (hr : SerialReads σ ls) {events : List PedigreeEvent}
    (hrunning : PedigreeLabel.run table ls events ≠ []) :
    ∃ σ', σ.run table events = some σ' ∧ SerialReads σ' (PedigreeLabel.run table ls events) := by
  induction events generalizing σ ls with
  | nil => exact ⟨σ, rfl, hr⟩
  | cons e events ih =>
    have hfirst : PedigreeLabel.step table ls e ≠ [] := by
      intro hnil
      apply hrunning
      rw [run_cons, hnil, run_nil]
    obtain ⟨σ₁, hstep, hr₁⟩ := hr.step hfirst
    obtain ⟨σ', hrun, hr'⟩ := ih hr₁ hrunning
    refine ⟨σ', ?_, hr'⟩
    rw [PedigreeState.run, hstep, Option.bind_some, hrun]

theorem serialReads_init {root : PedigreeFrame} (hroot : root.pedigreeParent = none) :
    SerialReads { mem := fun _ => root } [rootLabel root] where
  path := rfl
  reads := by
    apply List.Forall₂.cons _ .nil
    constructor
    case parents =>
      have hnil : PedigreeChain (fun _ => root) root.pedigreeParent [] := by
        rw [hroot]
        exact .nil
      exact .cons hnil
    all_goals rfl
  links := fun i hi => absurd hi (Nat.not_lt_zero i)
  root := hroot

/-- A function with all that it spawns and calls leaves the functions around it as they are. -/
theorem PedigreeLabel.run_events {κ V : Type} (bumps : κ → Bool) (code : Code κ V)
    (l : PedigreeLabel) (ls : List PedigreeLabel) :
    ∃ l', run table (l :: ls) (code.events bumps) = l' :: ls := by
  induction code generalizing l ls with
  | done => exact ⟨_, rfl⟩
  | update reducer u rest ih =>
    rw [Code.events]
    split
    · exact ih (l.bump table) ls
    · exact ih l ls
  | spawn child rest ihc ihr =>
    obtain ⟨l', hchild⟩ := ihc (l.child table) (l.bump table :: ls)
    rw [Code.events, List.cons_append, run_cons, step, run_append, hchild, run_cons, step]
    exact ihr (l.bump table) ls
  | call callee rest ihc ihr =>
    obtain ⟨l', hcallee⟩ := ihc l ls
    rw [Code.events, run_append, hcallee]
    exact ihr l' ls
  | sync rest ih => exact ih (l.bump table) ls

/-- After the return of a child only the rank of its parent has gone up. -/
theorem PedigreeLabel.run_child {κ V : Type} (bumps : κ → Bool) (child : Code κ V)
    (l : PedigreeLabel) (ls : List PedigreeLabel) (later : List PedigreeEvent) :
    run table (l :: ls) (.spawn :: child.events bumps ++ .ret :: later) =
      run table (l.bump table :: ls) later := by
  obtain ⟨l', hchild⟩ : ∃ l', run table (l.child table :: l.bump table :: ls)
      (child.events bumps) = l' :: l.bump table :: ls := run_events bumps child _ _
  rw [List.cons_append, run_cons, step, run_append, hchild, run_cons, step]

end Serial

end Cheetah
