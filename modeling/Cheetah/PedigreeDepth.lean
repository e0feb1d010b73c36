import Cheetah.PedigreeRuns

/-! The indices into the coefficient table, over every program and every schedule. -/
namespace Cheetah
open Function (update)

section Depth

variable {κ V : Type} {s s' : Runtime κ V} {x x' : Extensions} {table : ℕ → BitVec 64}

/-- The depth in the pedigree frame of each stack frame is its nesting, and so was each index. -/
structure DepthInv (s : Runtime κ V) (x : Extensions) : Prop where
  depth : ∀ f, s.HasFrame f → (x.mem (x.addr f)).dprngDepth = x.nesting f
  accesses : ∀ a ∈ x.accesses, a.index = a.nesting

theorem extendSync_depth {mem : PedigreeMem} {a c : FrameAddr} :
    (extendSync table mem a c).dprngDepth = (mem c).dprngDepth := by
  by_cases hca : c = a
  · rw [hca, extendSync_self, PedigreeFrame.bump]
  · rw [extendSync_of_ne hca]

/-- Frames are left, and the extension keeps what the frames have. -/
theorem DepthInv.keep (h : DepthInv s x) (hback : ∀ g, s'.HasFrame g → s.HasFrame g)
    (hmem : x'.mem = x.mem) (haddr : x'.addr = x.addr) (hnesting : x'.nesting = x.nesting)
    (haccesses : x'.accesses = x.accesses) : DepthInv s' x' where
  depth := by
    intro f hf
    rw [hmem, haddr, hnesting]
    exact h.depth f (hback f hf)
  accesses := by
    rw [haccesses]
    exact h.accesses

/-- A worker with the pedigree frame of `f` uses the entry for the nesting of `f`. -/
theorem DepthInv.bump (h : DepthInv s x) {w : WorkerId} {f : FrameId} (hf : s.HasFrame f)
    (hcurrent : x.current w = x.addr f) : DepthInv s (x.bump table w f) where
  depth := by
    intro g hg
    exact extendSync_depth.trans (h.depth g hg)
  accesses := by
    intro a ha
    rcases List.mem_cons.mp ha with rfl | ha
    · exact (congrArg (fun c => (x.mem c).dprngDepth) hcurrent).trans (h.depth f hf)
    · exact h.accesses a ha

theorem DepthInv.call (h : DepthInv s x) {f callee : FrameId} {events : ℕ} (hf : s.HasFrame f)
    (hnew : ∀ g, s.HasFrame g → g ≠ callee)
    (hhas : ∀ g, s'.HasFrame g → s.HasFrame g ∨ g = callee) :
    DepthInv s' (x.enterFrame f callee events) where
  depth := by
    intro g hg
    have hmem : (x.enterFrame f callee events).mem = x.mem := rfl
    have haddr : (x.enterFrame f callee events).addr = update x.addr callee (x.addr f) := rfl
    have hnesting : (x.enterFrame f callee events).nesting =
      update x.nesting callee (x.nesting f) := rfl
    rw [hmem, haddr, hnesting]
    rcases hhas g hg with hg | rfl
    · rw [Function.update_of_ne (hnew g hg), Function.update_of_ne (hnew g hg)]
      exact h.depth g hg
    · rw [Function.update_self, Function.update_self]
      exact h.depth f hf
  accesses := h.accesses

/-- A spawn that overwrites no frame in use goes one level deeper. -/
theorem DepthInv.spawn (h : DepthInv s x) {w : WorkerId} {f child : FrameId} {events : ℕ}
    (hf : s.HasFrame f) (hcurrent : x.current w = x.addr f)
    (hfree : ∀ g, s.HasFrame g → x.addr g ≠ x.pushed w)
    (hnew : ∀ g, s.HasFrame g → g ≠ child)
    (hhas : ∀ g, s'.HasFrame g → s.HasFrame g ∨ g = child) :
    DepthInv s' (x.detach table w f child events) := by
  have hdepth : (x.mem (x.current w)).dprngDepth = x.nesting f := by
    rw [hcurrent]
    exact h.depth f hf
  have hne : x.current w ≠ x.pushed w := hcurrent ▸ hfree f hf
  constructor
  case depth =>
    intro g hg
    have hmem : (x.detach table w f child events).mem =
      extendSpawn table x.mem (x.current w) (x.pushed w) := rfl
    have haddr : (x.detach table w f child events).addr = update x.addr child (x.pushed w) := rfl
    have hnesting : (x.detach table w f child events).nesting =
      update x.nesting child (x.nesting f + 1) := rfl
    rw [hmem, haddr, hnesting]
    rcases hhas g hg with hg | rfl
    · rw [Function.update_of_ne (hnew g hg), Function.update_of_ne (hnew g hg),
        extendSpawn_eq_sync hne (hfree g hg), extendSync_depth]
      exact h.depth g hg
    · rw [Function.update_self, Function.update_self, extendSpawn_child hne, PedigreeFrame.child,
        hdepth]
  case accesses =>
    intro a ha
    rcases List.mem_cons.mp ha with rfl | ha
    · exact congrArg (· + 1) hdepth
    · rcases List.mem_cons.mp ha with rfl | ha
      · exact hdepth
      · exact h.accesses a ha

variable [DecidableEq κ] [Monoid V] {bumps : κ → Bool} {root : PedigreeFrame}
  {events : List PedigreeEvent}

theorem DepthInv.step (h : DepthInv s x) (hst : StrandInv table bumps root events s x)
    (hs : SchedStep s s')
    (hext : ExtensionStep table bumps Extensions.AboveExtension hs x x') : DepthInv s' x' := by
  have hi := hst.sched
  have hnew : ∀ g, s.HasFrame g → g ≠ s.numFrames := fun g hg => (hi.has_lt hg).ne
  have hold : s'.numFrames = s.numFrames → ∀ g, s'.HasFrame g → s.HasFrame g := by
    intro hbound g hg
    exact (hi.has_frame hs hg).resolve_right (hbound ▸ ((hi.step hs).has_lt hg).ne)
  have hhas : ∀ g, s'.HasFrame g → s.HasFrame g ∨ g = s.numFrames :=
    fun g hg => hi.has_frame hs hg
  cases hext with
  | @update w t f below reducer u rest x hw hstack hcode =>
    obtain ⟨hf, hcurrent⟩ := hst.pointers.current_running hi hw hstack
    split_ifs
    · exact (h.bump hf hcurrent).keep (hold rfl) rfl rfl rfl rfl
    · exact h.keep (hold rfl) rfl rfl rfl rfl
  | @enterFrame w t f below callee rest x hw hstack hcode =>
    obtain ⟨hf, -⟩ := hst.pointers.current_running hi hw hstack
    exact h.call hf hnew hhas
  | @detach w t f below child rest rsp x hw hstack hcode hallowed =>
    obtain ⟨hf, hcurrent⟩ := hst.pointers.current_running hi hw hstack
    have hfree : ∀ g, s.HasFrame g → x.addr g ≠ x.pushed w :=
      fun g hg => hst.slots.pushed_free hi hst.fibers hst.pointers hw hstack hallowed hg
    exact h.spawn hf hcurrent hfree hnew hhas
  | @leaveFrame w t f below x hw hstack hcode hsynched hdetached hlast hstolen =>
    obtain ⟨hf, hcurrent⟩ := hst.pointers.current_running hi hw hstack
    exact (h.bump hf hcurrent).keep (hold rfl) rfl rfl rfl rfl
  | @leaveFrameHelper w t f below parents parent x hw hstack hcode hsynched hdetached hdeque =>
    obtain ⟨hf, hcurrent⟩ := hst.pointers.current_running hi hw hstack
    exact (h.bump hf hcurrent).keep (hold rfl) rfl rfl rfl rfl
  | @exceptionHandler w t f below x hw hstack hcode hsynched hdetached hdeque =>
    obtain ⟨hf, hcurrent⟩ := hst.pointers.current_running hi hw hstack
    refine (h.bump hf hcurrent).keep (fun g hg => ?_) rfl rfl rfl rfl
    refine (hhas g hg).resolve_right ?_
    rintro rfl
    have hred : update s.reduction s.numFrames true s.numFrames = false := hg.1
    rw [Function.update_self] at hred
    cases hred
  | @syncFast w t f below rest x hw hstack hcode hsynched =>
    obtain ⟨hf, hcurrent⟩ := hst.pointers.current_running hi hw hstack
    exact (h.bump hf hcurrent).keep (hold rfl) rfl rfl rfl rfl
  | @doReductions w t f x hw hframe hreduction =>
    obtain ⟨hf, hcurrent⟩ := hst.pointers.current_reducing hi hw hframe hreduction
    split
    · exact (h.bump hf hcurrent).keep (hold rfl) rfl rfl rfl rfl
    · exact h.keep (hold rfl) rfl rfl rfl rfl
  | @setReturn w t f below parent x hw hstack hcode hsynched hdetached hlast hstolen hparent =>
    obtain ⟨hf, hcurrent⟩ := hst.pointers.current_running hi hw hstack
    exact (h.bump hf hcurrent).keep (hold rfl) rfl rfl rfl rfl
  | @exitRoot w t f below x hw hstack hcode hsynched hlast =>
    obtain ⟨hf, hcurrent⟩ := hst.pointers.current_running hi hw hstack
    exact (h.bump hf hcurrent).keep (hold rfl) rfl rfl rfl rfl
  | @resumeParent w t parent x hw =>
    refine h.keep (fun g hg => ?_) rfl rfl rfl rfl
    exact (has_frame_returned hi hw g).mp ((resumeParent_same _ w parent).1 g |>.mp hg)
  | suspendAtSync | passSync | doReductionsForReturn | stealStolen | stealHelper | stealCalled
  | resumeStolen | resumeSync | takeTables | returnChild =>
    exact h.keep (hold rfl) rfl rfl rfl rfl

omit [DecidableEq κ] [Monoid V] in
theorem depthInv_initial (code : Code κ V) (views : Option (ViewMap κ V))
    (hdepth : root.dprngDepth = 0) :
    DepthInv (initialRuntime code views) (initialExtensions root) where
  depth := fun _ _ => hdepth
  accesses := fun _ ha => absurd ha List.not_mem_nil

theorem depthInv_reachable {code : Code κ V} {views : Option (ViewMap κ V)}
    (hroot : root.pedigreeParent = none) (hdepth : root.dprngDepth = 0)
    (hrun : Reaches (PedigreeStep table bumps Extensions.AboveExtension)
      (initialRuntime code views, initialExtensions root) (s, x)) : DepthInv s x := by
  generalize hsx : (s, x) = sx at hrun
  induction hrun generalizing s x with
  | refl =>
    obtain ⟨rfl, rfl⟩ := Prod.mk.inj hsx
    exact depthInv_initial code views hdepth
  | tail hrun hstep ih =>
    subst hsx
    obtain ⟨hs, hext⟩ := hstep
    exact (ih rfl).step (strandInv_reachable hroot hrun) hs hext

/-- In every run whose spawns stand above the frames that their workers have, all uses of the table
so far are within its entries exactly when all have been for functions nested in fewer spawns than
it has entries. -/
theorem tableAccess_inRange_iff {code : Code κ V} {views : Option (ViewMap κ V)}
    (hroot : root.pedigreeParent = none) (hdepth : root.dprngDepth = 0)
    (hrun : Reaches (PedigreeStep table bumps Extensions.AboveExtension)
      (initialRuntime code views, initialExtensions root) (s, x)) :
    (∀ a ∈ x.accesses, a.index < dprngEntries) ↔ ∀ a ∈ x.accesses, a.nesting < dprngEntries := by
  have h := depthInv_reachable hroot hdepth hrun
  exact forall₂_congr fun a ha => by rw [h.accesses a ha]

end Depth

/-- A thief continues the root, which has spawned. -/
theorem tableAccess_inRange_iff_stolen : ∃ (s : Runtime Unit (FreeMonoid Bool)) (x : Extensions),
    Reaches (PedigreeStep (fun _ => 0) (fun _ => true) Extensions.AboveExtension)
      (initialRuntime sampleCode none, initialExtensions (rootFrame 1)) (s, x) ∧
    x.accesses = [⟨1, 1⟩, ⟨0, 0⟩] ∧ ((∀ a ∈ x.accesses, a.index < dprngEntries) ↔
      ∀ a ∈ x.accesses, a.nesting < dprngEntries) := by
  obtain ⟨s, x, hrun, -, -, -, haccesses⟩ := stolenPedigrees
  exact ⟨s, x, hrun, haccesses, tableAccess_inRange_iff rfl rfl hrun⟩

section Nested

/-- `f(n)` where `f(int n) { if (n) { cilk_spawn f(n - 1); cilk_sync; } }`. -/
def nestedSpawns : ℕ → Code Unit (FreeMonoid Bool)
  | 0 => .done
  | n + 1 => .spawn (nestedSpawns n) (.sync .done)

/-- A step that finds room in deques of `deqdepth` entries, as `__cilkrts_detach` asserts. -/
def DequeDepthStep (deqdepth : ℕ) (table : ℕ → BitVec 64)
    (sx sx' : Runtime Unit (FreeMonoid Bool) × Extensions) : Prop :=
  PedigreeStep table (fun _ => true) Extensions.AboveExtension sx sx' ∧
    ∀ w, (sx'.1.deque w).length + 1 < deqdepth

/-- Worker 0 is in the `depth`-th nested spawn, without a steal. -/
structure InNestedSpawn (n depth : ℕ) (s : Runtime Unit (FreeMonoid Bool)) (x : Extensions) :
    Prop where
  phase : s.phase 0 = .running 0
  stack : ∃ below, s.stack 0 = depth :: below
  numFrames : s.numFrames = depth + 1
  code : s.code depth = nestedSpawns n
  deque : ∀ w, (s.deque w).length ≤ depth
  extStack : x.extStack 0 = (0, (depth : ℤ))
  above : x.AboveExtension 0
  level : (x.mem (x.current 0)).dprngDepth = depth
  distinct : x.current 0 ≠ x.pushed 0

variable {n depth deqdepth : ℕ} {table : ℕ → BitVec 64} {s : Runtime Unit (FreeMonoid Bool)}
  {x : Extensions}

/-- One more spawn uses the entry of the next level. -/
theorem InNestedSpawn.spawn (h : InNestedSpawn (n + 1) depth s x) (table : ℕ → BitVec 64)
    (hroom : depth + 2 < deqdepth) :
    ∃ s' x', DequeDepthStep deqdepth table (s, x) (s', x') ∧ InNestedSpawn n (depth + 1) s' x' ∧
      ∃ a ∈ x'.accesses, a.index = depth + 1 := by
  obtain ⟨below, hstack⟩ := h.stack
  have hs := SchedStep.detach 7 h.phase hstack h.code
  have hlength : ∀ w, (update s.deque 0 (s.deque 0 ++ [depth]) w).length ≤ depth + 1 := by
    intro w
    by_cases hw : w = 0
    · subst hw
      rw [Function.update_self, List.length_append]
      exact Nat.add_le_add_right (h.deque 0) 1
    · rw [Function.update_of_ne hw]
      exact (h.deque w).trans (Nat.le_succ _)
  have hslot : x.pushed 0 = .slot 0 depth := by
    change FrameAddr.slot (x.extStack 0).1 (x.extStack 0).2.toNat = _
    rw [h.extStack]
    rfl
  set x' := x.detach table 0 depth s.numFrames ((nestedSpawns n).events fun _ => true).length
    with hx'
  have hworker : x'.workerExtension 0 = some (.slot 0 depth) :=
    hslot ▸ (detach_worker x table 0 depth _ _).1
  have hpushed : x'.extStack 0 = (0, ((depth + 1 : ℕ) : ℤ)) := by
    rw [hx', (detach_worker x table 0 depth _ _).2, h.extStack]
    rfl
  have hcurrent : x'.current 0 = .slot 0 depth := congrArg (fun e => e.getD FrameAddr.root) hworker
  refine ⟨_, x', ⟨⟨hs, .detach h.phase hstack h.code h.above⟩, fun w => ?_⟩, ?_,
    x.childAccess 0 depth, List.mem_cons_self, congrArg (· + 1) h.level⟩
  · exact (Nat.add_le_add_right (hlength w) 1).trans_lt hroom
  constructor
  case phase => exact h.phase
  case stack =>
    have htop : update s.stack 0 (s.numFrames :: s.stack 0) 0 = s.numFrames :: s.stack 0 :=
      Function.update_self 0 _ _
    exact ⟨s.stack 0, h.numFrames ▸ htop⟩
  case numFrames => exact congrArg (· + 1) h.numFrames
  case code =>
    have hnew : update (update s.code depth (.sync .done)) s.numFrames (nestedSpawns n)
        s.numFrames = nestedSpawns n := Function.update_self _ _ _
    exact h.numFrames ▸ hnew
  case deque => exact hlength
  case extStack => exact hpushed
  case above =>
    intro fiber pos hext _
    obtain ⟨-, rfl⟩ := FrameAddr.slot.inj (Option.some.inj (hworker.symm.trans hext))
    rw [hpushed]
    exact Int.ofNat_lt.mpr (Nat.lt_succ_self _)
  case level =>
    have hchild : (x'.mem (x.pushed 0)).dprngDepth = (x.mem (x.current 0)).dprngDepth + 1 :=
      congrArg PedigreeFrame.dprngDepth (extendSpawn_child h.distinct)
    rw [hcurrent, ← hslot, hchild, h.level]
  case distinct =>
    have hnext : x'.pushed 0 = .slot 0 (depth + 1) := by
      change FrameAddr.slot (x'.extStack 0).1 (x'.extStack 0).2.toNat = _
      rw [hpushed]
      rfl
    rw [hcurrent, hnext]
    intro hsame
    exact Nat.succ_ne_self depth (FrameAddr.slot.inj hsame).2.symm

/-- Worker 0 can nest as many spawns as its deque has room for. -/
theorem inNestedSpawn_reachable (table : ℕ → BitVec 64) (k : ℕ) (hroom : k + 1 < deqdepth) :
    ∀ n, ∃ s x, Reaches (DequeDepthStep deqdepth table)
      (initialRuntime (nestedSpawns (n + k)) none, initialExtensions (rootFrame 0)) (s, x) ∧
      InNestedSpawn n k s x ∧ (0 < k → ∃ a ∈ x.accesses, a.index = k) := by
  induction k with
  | zero =>
    intro n
    have hs : SchedStep (initialRuntime (nestedSpawns n) none) _ :=
      .resumeStolen (w := 0) (t := 0) (f := 0) 5 rfl rfl rfl
    have hstep : DequeDepthStep deqdepth table
        (initialRuntime (nestedSpawns n) none, initialExtensions (rootFrame 0)) (_, _) :=
      ⟨⟨hs, .resumeStolen rfl rfl rfl⟩, fun _ => hroom⟩
    refine ⟨_, _, .single hstep, ?_, fun h => absurd h (Nat.lt_irrefl 0)⟩
    constructor
    case phase => rfl
    case stack => exact ⟨[], rfl⟩
    case numFrames => rfl
    case code => rfl
    case deque => exact fun _ => Nat.le_refl 0
    case extStack => rfl
    case above => exact fun _ _ hext => by cases hext
    case level => rfl
    case distinct => exact fun hsame => by cases hsame
  | succ k ih =>
    intro n
    obtain ⟨s, x, hrun, hat, -⟩ := ih (Nat.lt_of_succ_lt hroom) (n + 1)
    obtain ⟨s', x', hstep, hat', haccess⟩ := hat.spawn table hroom
    rw [show n + 1 + k = n + (k + 1) from Nat.succ_add_eq_add_succ n k] at hrun
    exact ⟨s', x', hrun.tail hstep, hat', fun _ => haccess⟩

/-- With the largest deque depth that can be configured, 4096 nested spawns read past the end of
the table. -/
theorem nested_spawns_outOfRange : ∃ s x,
    Reaches (DequeDepthStep 99999 (dprngTable 0 fun _ => 0))
      (initialRuntime (nestedSpawns 4096) none, initialExtensions (rootFrame 0)) (s, x) ∧
    ¬ ∀ a ∈ x.accesses, a.index < dprngEntries := by
  have hroom : dprngEntries + 1 < 99999 := by decide
  obtain ⟨s, x, hrun, -, haccess⟩ :=
    inNestedSpawn_reachable (dprngTable 0 fun _ => 0) dprngEntries hroom 0
  obtain ⟨a, ha, hindex⟩ := haccess (by decide)
  rw [Nat.zero_add] at hrun
  exact ⟨s, x, hrun, fun hall => absurd (hall a ha) (by rw [hindex]; exact Nat.lt_irrefl _)⟩

end Nested

section Respawns

/-- `n` spawns in a row. -/
def respawns : ℕ → Code Unit (FreeMonoid Bool)
  | 0 => .sync .done
  | n + 1 => .spawn .done (respawns n)

variable {n depth : ℕ} {table : ℕ → BitVec 64} {s : Runtime Unit (FreeMonoid Bool)} {x : Extensions}

theorem pedigree_leave {allowed : Extensions → WorkerId → Prop} {w : WorkerId} {t : ClosureId}
    {f parent : FrameId} {below parents : List FrameId}
    {sx : Runtime Unit (FreeMonoid Bool) × Extensions}
    (hrun : Reaches (PedigreeStep table (fun _ => true) allowed) sx (s, x))
    (hw : s.phase w = .running t) (hstack : s.stack t = f :: below) (hcode : s.code f = .done)
    (hsynched : s.unsynched f = false) (hdetached : s.detached f = true)
    (hdeque : s.deque w = parents ++ [parent]) :
    Reaches (PedigreeStep table (fun _ => true) allowed) sx
      ({ s with
          stack := update s.stack t below
          detached := update s.detached f false
          deque := update s.deque w parents },
        (x.bump table w f).leaveFrameHelper w f) :=
  pedigree_tail hrun (.leaveFrameHelper hw hstack hcode hsynched hdetached hdeque)
    (.leaveFrameHelper hw hstack hcode hsynched hdetached hdeque)

/-- What is pushed over the spawner's own frame is one level deeper. -/
theorem extendSpawn_over (table : ℕ → BitVec 64) (mem : PedigreeMem) (a : FrameAddr) :
    (extendSpawn table mem a a a).dprngDepth = (mem a).dprngDepth + 1 := by
  rw [extendSpawn, Function.update_self, Function.update_self]
  rfl

/-- The child spawns over its own pedigree frame, and what it has spawned returns. -/
theorem Respawning.spawn (h : Respawning s x (respawns (n + 1)) depth) (table : ℕ → BitVec 64) :
    ∃ s' x', Reaches (PedigreeStep table (fun _ => true) fun _ _ => True) (s, x) (s', x') ∧
      Respawning s' x' (respawns n) (depth + 1) ∧ ∃ a ∈ x'.accesses, a.index = depth + 1 := by
  have hne : 1 ≠ s.numFrames := h.numFrames.ne
  have hdetach := SchedStep.detach 7 h.phase h.stack h.code
  set x₁ := x.detach table 2 1 s.numFrames
    ((Code.done : Code Unit (FreeMonoid Bool)).events fun _ => true).length with hx₁
  have hspawn : Reaches (PedigreeStep table (fun _ => true) fun _ _ => True) (s, x) (_, x₁) :=
    .single ⟨hdetach, .detach h.phase h.stack h.code trivial⟩
  have hstack : update s.stack 1 (s.numFrames :: s.stack 1) 1 = s.numFrames :: [1] := by
    rw [Function.update_self, h.stack]
  have hcode : update (update s.code 1 (respawns n)) s.numFrames .done s.numFrames = .done :=
    Function.update_self _ _ _
  have hunsynched : update s.unsynched s.numFrames false s.numFrames = false :=
    Function.update_self _ _ _
  have hdetached : update s.detached s.numFrames true s.numFrames = true :=
    Function.update_self _ _ _
  have hdeque : update s.deque 2 (s.deque 2 ++ [1]) 2 = [] ++ [1] := by
    rw [Function.update_self, h.deque]
  have hreturn := pedigree_leave hspawn h.phase hstack hcode hunsynched hdetached hdeque
  have hworker₁ : x₁.workerExtension 2 = some (.slot 0 0) :=
    h.pushed ▸ (detach_worker x table 2 1 _ _).1
  have hextStack₁ : x₁.extStack 2 = (0, 1) := by
    rw [hx₁, (detach_worker x table 2 1 _ _).2, h.extStack]
    rfl
  have hcurrent₁ : x₁.current 2 = .slot 0 0 := congrArg (fun e => e.getD FrameAddr.root) hworker₁
  have hdepth₁ : (x₁.mem (.slot 0 0)).dprngDepth = depth + 1 := by
    have hover := extendSpawn_over table x.mem (.slot 0 0)
    rw [h.depth] at hover
    have hmem : x₁.mem = extendSpawn table x.mem (x.current 2) (x.pushed 2) := rfl
    rw [hmem, h.current, h.pushed]
    exact hover
  refine ⟨_, _, hreturn, ?_, x.childAccess 2 1,
    List.mem_cons_of_mem _ List.mem_cons_self, ?_⟩
  · constructor
    case phase => exact h.phase
    case stack =>
      have hleft : update (update s.stack 1 (s.numFrames :: s.stack 1)) 1 [1] 1 = [1] :=
        Function.update_self _ _ _
      exact hleft
    case code =>
      have hrest : update (update s.code 1 (respawns n)) s.numFrames .done 1 = respawns n := by
        rw [Function.update_of_ne hne, Function.update_self]
      exact hrest
    case deque =>
      have hpopped : update (update s.deque 2 (s.deque 2 ++ [1])) 2 [] 2 = [] :=
        Function.update_self _ _ _
      exact hpopped
    case numFrames => exact h.numFrames.trans (Nat.lt_succ_self _)
    case worker =>
      have hparent : update x.callParent s.numFrames (some 1) s.numFrames = some 1 :=
        Function.update_self _ _ _
      have hext : update x.extension 1 (x.workerExtension 2) 1 = some (.slot 0 0) := by
        rw [Function.update_self, h.worker]
      rw [(leaveFrameHelper_worker _ 2 _).1]
      change (update x.callParent s.numFrames (some 1) s.numFrames).bind
        (update x.extension 1 (x.workerExtension 2)) = _
      rw [hparent]
      exact hext
    case extStack =>
      rw [(leaveFrameHelper_worker _ 2 _).2]
      change ((x₁.extStack 2).1, (x₁.extStack 2).2 - 1) = _
      rw [hextStack₁]
      rfl
    case depth => exact extendSync_depth.trans hdepth₁
    case nesting => exact (Function.update_of_ne hne _ _).trans h.nesting
    case accesses =>
      intro a ha
      have hchild : x₁.nesting s.numFrames = 2 := by
        have hnesting := congrArg (· + 1) h.nesting
        exact (Function.update_self _ _ _).trans hnesting
      rcases List.mem_cons.mp ha with rfl | ha
      · exact hchild.le
      · rcases List.mem_cons.mp ha with rfl | ha
        · exact (congrArg (· + 1) h.nesting).le
        · rcases List.mem_cons.mp ha with rfl | ha
          · exact h.nesting.le.trans (by decide)
          · exact h.accesses a ha
  · change (x.mem (x.current 2)).dprngDepth + 1 = depth + 1
    rw [h.current, h.depth]

theorem Respawning.run (table : ℕ → BitVec 64) (n : ℕ) :
    ∀ {s x depth}, Respawning s x (respawns n) depth → 0 < n →
    ∃ s' x', Reaches (PedigreeStep table (fun _ => true) fun _ _ => True) (s, x) (s', x') ∧
      (∀ a ∈ x'.accesses, a.nesting ≤ 2) ∧ ∃ a ∈ x'.accesses, a.index = depth + n := by
  induction n with
  | zero => exact fun _ hn => absurd hn (Nat.lt_irrefl 0)
  | succ n ih =>
    intro s x depth h _
    obtain ⟨s', x', hrun, h', haccess⟩ := h.spawn table
    rcases Nat.eq_zero_or_pos n with rfl | hn
    · exact ⟨s', x', hrun, h'.accesses, haccess⟩
    · obtain ⟨s'', x'', hrun', hnesting, haccess'⟩ := ih h' hn
      refine ⟨s'', x'', hrun.trans hrun', hnesting, ?_⟩
      rwa [Nat.add_right_comm depth 1 n] at haccess'

/-- Spawns after a sync that has reset the extension stack read past the end of the table, although
no function is nested in more than two spawns. -/
theorem respawns_outOfRange : ∃ s x,
    Reaches (PedigreeStep (dprngTable 1 fun _ => 0) (fun _ => true) fun _ _ => True)
      (initialRuntime (respawningCode (respawns 4095)) none, initialExtensions (rootFrame 1))
      (s, x) ∧
    (∀ a ∈ x.accesses, a.nesting ≤ 2) ∧ ¬ ∀ a ∈ x.accesses, a.index < dprngEntries := by
  have hallowed : ∀ (x : Extensions) w, x.AboveExtension w → True := fun _ _ _ => trivial
  obtain ⟨s, x, hrun, hat⟩ :=
    respawningRegion (dprngTable 1 fun _ => 0) hallowed (respawns 4095)
  obtain ⟨s', x', hrun', hnesting, a, ha, hindex⟩ :=
    Respawning.run (dprngTable 1 fun _ => 0) 4095 hat (by decide)
  refine ⟨s', x', hrun.trans hrun', hnesting, fun hall => ?_⟩
  have hlt : 1 + 4095 < dprngEntries := hindex ▸ hall a ha
  exact absurd hlt (by decide)

end Respawns

end Cheetah
