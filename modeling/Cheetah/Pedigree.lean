import Mathlib.Algebra.BigOperators.Intervals
import Mathlib.Data.Nat.ModEq
import Mathlib.Order.Interval.Finset.Nat
import Cheetah.DprngMix

/-! The pedigree extension (`pedigree_ext.cpp`, `pedigree_lib.cpp`), and the serial execution of a
program that uses it. -/
namespace Cheetah

/-- Where a `__pedigree_frame` lies: the root frame, or a place on the stack of an extension
fiber, counted from the start of the stack. -/
inductive FrameAddr where
  | root
  | slot (fiber pos : ℕ)
deriving DecidableEq

/-- A `__pedigree_frame`. Its `pedigree` is at its start, so that the parent is the frame with the
parent's pedigree. -/
structure PedigreeFrame where
  pedigreeRank : BitVec 64
  pedigreeParent : Option FrameAddr
  rank : BitVec 64
  dprngDotproduct : BitVec 64
  dprngDepth : ℕ
deriving DecidableEq

abbrev PedigreeMem := FrameAddr → PedigreeFrame

def dprngEntries : ℕ := 4096

/-- `__pedigree_dprng_m_array` as `__cilkrts_init_dprng` fills it, and what is in memory after it. -/
def dprngTable (seed : BitVec 64) (beyond : ℕ → BitVec 64) (i : ℕ) : BitVec 64 :=
  if i < dprngEntries then dprngMixModP (seed + BitVec.ofNat 64 i) else beyond i

/-- `__pedigree_dprng_m_X`. -/
def dprngX (seed : BitVec 64) : BitVec 64 := dprngMixModP (seed + 4096)

section Extension

variable (table : ℕ → BitVec 64)

/-- The frame after its rank has gone up. -/
def PedigreeFrame.bump (frame : PedigreeFrame) : PedigreeFrame :=
  { frame with
    rank := frame.rank + 1
    dprngDotproduct := dprngSumModP frame.dprngDotproduct (table frame.dprngDepth) }

/-- The frame that a spawn pushes, for a parent at the address `parent`. -/
def PedigreeFrame.child (parentFrame : PedigreeFrame) (parent : FrameAddr) : PedigreeFrame where
  pedigreeRank := parentFrame.rank
  pedigreeParent := some parent
  rank := 0
  dprngDotproduct := dprngSumModP parentFrame.dprngDotproduct (table (parentFrame.dprngDepth + 1))
  dprngDepth := parentFrame.dprngDepth + 1

/-- `__cilkrts_extend_spawn`, with the new frame at the address `child`. -/
def extendSpawn (mem : PedigreeMem) (parent child : FrameAddr) : PedigreeMem :=
  let parentFrame := mem parent
  let mem := Function.update mem child (parentFrame.child table parent)
  Function.update mem parent
    { mem parent with
      rank := (mem parent).rank + 1
      dprngDotproduct :=
        dprngSumModP parentFrame.dprngDotproduct (table (mem parent).dprngDepth) }

/-- `__cilkrts_extend_sync`. -/
def extendSync (mem : PedigreeMem) (extension : FrameAddr) : PedigreeMem :=
  Function.update mem extension ((mem extension).bump table)

/-- `bump_worker_rank`. -/
def bumpWorkerRank (mem : PedigreeMem) (extension : FrameAddr) : PedigreeMem :=
  Function.update mem extension ((mem extension).bump table)

/-- `__cilkrts_get_dprand`, and its result. -/
def getDprand (mem : PedigreeMem) (extension : FrameAddr) : PedigreeMem × BitVec 64 :=
  let mem := bumpWorkerRank table mem extension
  (mem, dprngMixModP (mem extension).dprngDotproduct)

end Extension

/-- What a serial execution does with the extension. -/
inductive PedigreeEvent where
  | spawn
  /-- A spawned child returns. -/
  | ret
  | sync
  | bump
  | dprand
deriving DecidableEq

/-- The worker of a serial execution. The extension stack holds `extStack` frames, and `spawners`
are the `extension` fields of the stack frames with a running child, the innermost first. -/
structure PedigreeState where
  mem : PedigreeMem
  extension : FrameAddr := .root
  extStack : ℕ := 0
  spawners : List FrameAddr := []

/-- The root frame as `__pedigree_init` leaves it. -/
def rootFrame (seed : BitVec 64) : PedigreeFrame where
  pedigreeRank := 0
  pedigreeParent := none
  rank := 0
  dprngDotproduct := dprngX seed
  dprngDepth := 0

def pedigreeInit (seed : BitVec 64) : PedigreeState where
  mem := fun _ => rootFrame seed

namespace PedigreeState

/-- The frame of the running function. -/
def frame (s : PedigreeState) : PedigreeFrame := s.mem s.extension

/-- One event, with `__cilkrts_detach` and `__cilkrts_leave_frame_helper` around the calls. -/
def step (table : ℕ → BitVec 64) (s : PedigreeState) : PedigreeEvent → Option PedigreeState
  | .spawn => some {
      mem := extendSpawn table s.mem s.extension (.slot 0 s.extStack)
      extension := .slot 0 s.extStack
      extStack := s.extStack + 1
      spawners := s.extension :: s.spawners }
  | .ret =>
    match s.spawners with
    | [] => none
    | parent :: spawners => some { s with
        extension := parent
        extStack := s.extStack - 1
        spawners := spawners }
  | .sync => some { s with mem := extendSync table s.mem s.extension }
  | .bump => some { s with mem := bumpWorkerRank table s.mem s.extension }
  | .dprand => some { s with mem := (getDprand table s.mem s.extension).1 }

def run (table : ℕ → BitVec 64) : PedigreeState → List PedigreeEvent → Option PedigreeState
  | s, [] => some s
  | s, e :: events => (s.step table e).bind fun s => run table s events

/-- The ranks along the chain of pedigrees from an address up, as far as `depth` of them. -/
def recordedRanks (mem : PedigreeMem) : ℕ → Option FrameAddr → List ℕ
  | 0, _ | _, none => []
  | depth+1, some addr =>
    (mem addr).pedigreeRank.toNat :: recordedRanks mem depth (mem addr).pedigreeParent

/-- The rank at each depth up to that of the running function: those that its chain has recorded,
and its own. -/
def ranks (s : PedigreeState) : List ℕ :=
  (s.frame.rank.toNat :: recordedRanks s.mem s.frame.dprngDepth (some s.extension)).reverse

end PedigreeState

/-- The dot product of a pedigree, over the integers. -/
def pedigreeSum (table : ℕ → BitVec 64) (x : ℕ) (r : ℕ → ℕ) (d : ℕ) : ℕ :=
  x + r 0 * (table 0).toNat + ∑ i ∈ Finset.Icc 1 d, (r i + 1) * (table i).toNat

namespace PedigreeEvent

/-- From nesting `d` on, children return only where there are any, and the nesting stays below the
number of coefficients. -/
def NestedBelow : ℕ → List PedigreeEvent → Prop
  | _, [] => True
  | d, .spawn :: events => d + 1 < dprngEntries ∧ NestedBelow (d+1) events
  | d, .ret :: events => 0 < d ∧ NestedBelow (d-1) events
  | d, _ :: events => NestedBelow d events

/-- A whole child, seen from `k` levels below it. -/
def Balanced : ℕ → List PedigreeEvent → Prop
  | k, [] => k = 0
  | k, .spawn :: events => Balanced (k+1) events
  | k, .ret :: events => 0 < k ∧ Balanced (k-1) events
  | k, _ :: events => Balanced k events

/-- How often a rank goes up. -/
def increments (events : List PedigreeEvent) : ℕ := events.countP fun e => e ≠ .ret

end PedigreeEvent

end Cheetah
