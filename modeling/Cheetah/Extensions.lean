import Cheetah.Pedigree
import Cheetah.Scheduler

/-! The pedigree extension in the scheduler: `sf->extension`, `w->extension`, the extension stacks
and the extension fibers, section by section. -/
namespace Cheetah
open Function (update)

/-- A use of the coefficient table, on behalf of a function that is nested in `nesting` spawns. -/
structure TableAccess where
  index : ℕ
  nesting : ℕ
deriving DecidableEq

/-- What the runtime keeps for the extension. -/
structure Extensions where
  mem : PedigreeMem
  -- `sf->extension` and `sf->call_parent`
  extension : FrameId → Option FrameAddr
  callParent : FrameId → Option FrameId
  -- `w->extension` and `w->ext_stack`: a fiber, and how many frames lie between its start and it
  workerExtension : WorkerId → Option FrameAddr
  extStack : WorkerId → FiberId × ℤ
  -- `Closure`, and the pool
  extFiber : ClosureId → Option FiberId
  extFiberChild : ClosureId → Option FiberId
  numExtFibers : ℕ
  freedExt : List FiberId
  -- ghosts: how many events of the serial execution come before the next one of a stack frame, the
  -- pedigree frame of its spawn, how many spawns it is nested in, and all uses of the table so far
  position : FrameId → ℕ
  addr : FrameId → FrameAddr
  nesting : FrameId → ℕ
  accesses : List TableAccess

/-- What a serial execution does with the extension. A strand calls `__cilkrts_bump_worker_rank` or
`__cilkrts_get_dprand` at the updates of the reducers in `bumps`. -/
def Code.events {κ V : Type} (bumps : κ → Bool) : Code κ V → List PedigreeEvent
  | .done => [.sync]
  | .update reducer _ rest =>
    if bumps reducer then .bump :: rest.events bumps else rest.events bumps
  | .spawn child rest => .spawn :: child.events bumps ++ .ret :: rest.events bumps
  | .call callee rest => callee.events bumps ++ rest.events bumps
  | .sync rest => .sync :: rest.events bumps

/-- The region starts with the root frame as `w->extension` of worker 0. -/
def initialExtensions (root : PedigreeFrame) : Extensions where
  mem := fun _ => root
  extension := fun f => if f = 0 then some .root else none
  callParent := fun _ => none
  workerExtension := fun w => if w = 0 then some .root else none
  extStack := fun _ => (0, 0)
  extFiber := fun c => if c = 0 then some 0 else none
  extFiberChild := fun _ => none
  numExtFibers := 1
  freedExt := []
  position := fun _ => 0
  addr := fun _ => .root
  nesting := fun _ => 0
  accesses := []

namespace Extensions

variable (x : Extensions) (table : ℕ → BitVec 64)

/-- The frame that `w->extension` points to; it is null only in a worker without work. -/
def current (w : WorkerId) : FrameAddr := (x.workerExtension w).getD .root

/-- Where `__cilkrts_push_ext_stack` makes room for a frame. -/
def pushed (w : WorkerId) : FrameAddr := .slot (x.extStack w).1 (x.extStack w).2.toNat

/-- The extension stack of the worker stands above the frame that `w->extension` points to. -/
def AboveExtension (w : WorkerId) : Prop :=
  ∀ fiber pos, x.workerExtension w = some (.slot fiber pos) → (x.extStack w).1 = fiber →
    (pos : ℤ) < (x.extStack w).2

/-- What `__cilkrts_extend_sync` and `bump_worker_rank` read of the table. -/
def bumpAccess (w : WorkerId) (f : FrameId) : TableAccess :=
  ⟨(x.mem (x.current w)).dprngDepth, x.nesting f⟩

/-- What `__cilkrts_extend_spawn` reads of the table for the child. -/
def childAccess (w : WorkerId) (f : FrameId) : TableAccess :=
  ⟨(x.mem (x.current w)).dprngDepth + 1, x.nesting f + 1⟩

/-- A rank goes up, in `__cilkrts_extend_sync` or in `bump_worker_rank`. -/
def bump (w : WorkerId) (f : FrameId) : Extensions :=
  { x with
    mem := extendSync table x.mem (x.current w)
    position := update x.position f (x.position f + 1)
    accesses := x.bumpAccess w f :: x.accesses }

/-- A call, with `events` of the callee. -/
def enterFrame (f callee : FrameId) (events : ℕ) : Extensions :=
  { x with
    callParent := update x.callParent callee (some f)
    position := update (update x.position callee (x.position f)) f (x.position f + events)
    addr := update x.addr callee (x.addr f)
    nesting := update x.nesting callee (x.nesting f) }

/-- `__cilkrts_extend_spawn` in `__cilkrts_detach`, with `events` of the child. -/
def detach (w : WorkerId) (f child : FrameId) (events : ℕ) : Extensions :=
  { x with
    mem := extendSpawn table x.mem (x.current w) (x.pushed w)
    extension := update x.extension f (x.workerExtension w)
    callParent := update x.callParent child (some f)
    workerExtension := update x.workerExtension w (some (x.pushed w))
    extStack := update x.extStack w ((x.extStack w).1, (x.extStack w).2 + 1)
    position :=
      update (update x.position child (x.position f + 1)) f (x.position f + 1 + events + 1)
    addr := update x.addr child (x.pushed w)
    nesting := update x.nesting child (x.nesting f + 1)
    accesses := x.childAccess w f :: x.bumpAccess w f :: x.accesses }

/-- `__cilkrts_extend_return_from_spawn`, and the extension of the spawner. -/
def leaveFrameHelper (w : WorkerId) (f : FrameId) : Extensions :=
  { x with
    extStack := update x.extStack w ((x.extStack w).1, (x.extStack w).2 - 1)
    workerExtension := update x.workerExtension w ((x.callParent f).bind x.extension) }

/-- `setup_for_sync` on a closure with the frame `frame`. -/
def setupForSync (w : WorkerId) (t : ClosureId) (frame : Option FrameId) : Extensions :=
  { x with
    freedExt := x.freedExt ++ (x.extFiber t).toList
    extFiber := update x.extFiber t (x.extFiberChild t)
    extFiberChild := update x.extFiberChild t none
    workerExtension := update x.workerExtension w (frame.bind x.extension)
    extStack := update x.extStack w ((x.extFiberChild t).getD 0, 0) }

/-- The failing branch of `Cilk_sync`. -/
def suspendAtSync (t : ClosureId) : Extensions :=
  { x with
    freedExt := x.freedExt ++ (x.extFiber t).toList
    extFiber := update x.extFiber t none }

/-- `extract_top_spawning_closure`: the child gets the extension fiber of the victim's closure. -/
def steal (cl res child : ClosureId) : Extensions :=
  { x with
    extFiber := update (update x.extFiber child (x.extFiber cl)) res (some x.numExtFibers)
    extFiberChild := update x.extFiberChild child none
    numExtFibers := x.numExtFibers + 1 }

/-- `longjmp_to_user_code` with stolen work. -/
def resume (w : WorkerId) (t : ClosureId) (f : FrameId) : Extensions :=
  { x with
    workerExtension := update x.workerExtension w (x.extension f)
    extStack := update x.extStack w ((x.extFiber t).getD 0, 0) }

/-- The left-holder logic in `Closure_return`. -/
def returnChild {κ V : Type} (s : Runtime κ V) (parent child : ClosureId) : Extensions :=
  let notLeftmost := s.leftSib child ≠ none ∨ s.fiberChild parent ≠ none
  { x with
    freedExt := if notLeftmost then x.freedExt ++ (x.extFiber child).toList else x.freedExt
    extFiberChild := if notLeftmost then x.extFiberChild
      else update x.extFiberChild parent (x.extFiber child)
    extFiber := update x.extFiber child none }

/-- `__cilkrts_set_return` -/
def setReturn (t : ClosureId) : Extensions := { x with extFiber := update x.extFiber t none }

/-- `__cilkrts_internal_exit_cilkified_root` -/
def exitRoot (w : WorkerId) : Extensions :=
  { x with
    workerExtension := if w = 0 then x.workerExtension
      else update (update x.workerExtension 0 (x.workerExtension w)) w none }

end Extensions

/-- What the strand steps and the sections do with the extension, where a worker spawns only with
`allowed`. The implicit sync of a function, with its `__cilkrts_extend_sync`, is at its return. -/
inductive ExtensionStep {κ V : Type} [DecidableEq κ] [Monoid V] (table : ℕ → BitVec 64)
    (bumps : κ → Bool) (allowed : Extensions → WorkerId → Prop) :
    {s s' : Runtime κ V} → SchedStep s s' → Extensions → Extensions → Prop
  | update {s w t f below reducer u rest x} (hw hstack hcode) :
      ExtensionStep table bumps allowed
        (@SchedStep.update κ V _ _ s w t f below reducer u rest hw hstack hcode)
        x (if bumps reducer then x.bump table w f else x)
  | enterFrame {s w t f below callee rest x} (hw hstack hcode) :
      ExtensionStep table bumps allowed
        (@SchedStep.enterFrame κ V _ _ s w t f below callee rest hw hstack hcode)
        x (x.enterFrame f s.numFrames (callee.events bumps).length)
  | detach {s w t f below child rest rsp x} (hw hstack hcode) (hallowed : allowed x w) :
      ExtensionStep table bumps allowed
        (@SchedStep.detach κ V _ _ s w t f below child rest rsp hw hstack hcode)
        x (x.detach table w f s.numFrames (child.events bumps).length)
  | leaveFrame {s w t f below x} (hw hstack hcode hsynched hdetached hlast hstolen) :
      ExtensionStep table bumps allowed
        (@SchedStep.leaveFrame κ V _ _ s w t f below hw hstack hcode hsynched hdetached hlast
          hstolen)
        x (x.bump table w f)
  | leaveFrameHelper {s w t f below parents parent x} (hw hstack hcode hsynched hdetached hdeque) :
      ExtensionStep table bumps allowed
        (@SchedStep.leaveFrameHelper κ V _ _ s w t f below parents parent hw hstack hcode hsynched
          hdetached hdeque)
        x ((x.bump table w f).leaveFrameHelper w f)
  | exceptionHandler {s w t f below x} (hw hstack hcode hsynched hdetached hdeque) :
      ExtensionStep table bumps allowed
        (@SchedStep.exceptionHandler κ V _ _ s w t f below hw hstack hcode hsynched hdetached
          hdeque)
        x ((x.bump table w f).leaveFrameHelper w f)
  | syncFast {s w t f below rest x} (hw hstack hcode hsynched) :
      ExtensionStep table bumps allowed
        (@SchedStep.syncFast κ V _ _ s w t f below rest hw hstack hcode hsynched)
        x (x.bump table w f)
  | suspendAtSync {s w t f below rsp x} (hw hstack hcode hunsynched hchildren) :
      ExtensionStep table bumps allowed
        (@SchedStep.suspendAtSync κ V _ _ s w t f below rsp hw hstack hcode hunsynched hchildren)
        x (x.suspendAtSync t)
  | passSync {s w t f below rsp x} (hw hstack hcode hunsynched hchildren) :
      ExtensionStep table bumps allowed
        (@SchedStep.passSync κ V _ _ s w t f below rsp hw hstack hcode hunsynched hchildren)
        x (x.setupForSync w t (s.frame t))
  | doReductions {s w t f x} (hw hframe hreduction) :
      ExtensionStep table bumps allowed
        (@SchedStep.doReductions κ V _ _ s w t f hw hframe hreduction)
        x (match s.code f with
          | .sync _ => x.bump table w f
          | _ => x)
  | doReductionsForReturn {s w t f x} (hw hframe hreduction) :
      ExtensionStep table bumps allowed
        (@SchedStep.doReductionsForReturn κ V _ _ s w t f hw hframe hreduction) x x
  | stealStolen {s w victim cl f parents above below x} (hw hvictim hdeque hstack hframe) :
      ExtensionStep table bumps allowed
        (@SchedStep.stealStolen κ V _ _ s w victim cl f parents above below hw hvictim hdeque
          hstack hframe)
        x (x.steal cl cl s.numClosures)
  | stealHelper {s w victim cl f parents above below x}
      (hw hvictim hdeque hstack hframe hdetached) :
      ExtensionStep table bumps allowed
        (@SchedStep.stealHelper κ V _ _ s w victim cl f parents above below hw hvictim hdeque
          hstack hframe hdetached)
        x (x.steal cl cl s.numClosures)
  | stealCalled {s w victim cl f parents above below x}
      (hw hvictim hdeque hstack hframe hdetached) :
      ExtensionStep table bumps allowed
        (@SchedStep.stealCalled κ V _ _ s w victim cl f parents above below hw hvictim hdeque
          hstack hframe hdetached)
        x (x.steal cl s.numClosures (s.numClosures + 1))
  | resumeStolen {s w t f rsp x} (hw hframe hsteal) :
      ExtensionStep table bumps allowed
        (@SchedStep.resumeStolen κ V _ _ s w t f rsp hw hframe hsteal) x (x.resume w t f)
  | resumeSync {s w t x} (hw hsteal) :
      ExtensionStep table bumps allowed (@SchedStep.resumeSync κ V _ _ s w t hw hsteal) x x
  | takeTables {s w t parent x} (hw hparent htables) :
      ExtensionStep table bumps allowed
        (@SchedStep.takeTables κ V _ _ s w t parent hw hparent htables) x x
  | returnChild {s w t parent x} (hw hparent hleft hright hsteal) :
      ExtensionStep table bumps allowed
        (@SchedStep.returnChild κ V _ _ s w t parent hw hparent hleft hright hsteal)
        x (x.returnChild s parent t)
  | resumeParent {s w t parent x} (hw hparent hleft hright hsteal) :
      ExtensionStep table bumps allowed
        (@SchedStep.resumeParent κ V _ _ s w t parent hw hparent hleft hright hsteal)
        x ((x.returnChild s parent t).setupForSync w parent (s.frame parent))
  | setReturn {s w t f below parent x} (hw hstack hcode hsynched hdetached hlast hstolen hparent) :
      ExtensionStep table bumps allowed
        (@SchedStep.setReturn κ V _ _ s w t f below parent hw hstack hcode hsynched hdetached
          hlast hstolen hparent)
        x ((x.bump table w f).setReturn t)
  | exitRoot {s w t f below x} (hw hstack hcode hsynched hlast) :
      ExtensionStep table bumps allowed
        (@SchedStep.exitRoot κ V _ _ s w t f below hw hstack hcode hsynched hlast)
        x ((x.bump table w f).exitRoot w)

/-- One step of the scheduler with the extension. -/
def PedigreeStep {κ V : Type} [DecidableEq κ] [Monoid V] (table : ℕ → BitVec 64)
    (bumps : κ → Bool) (allowed : Extensions → WorkerId → Prop)
    (sx sx' : Runtime κ V × Extensions) : Prop :=
  ∃ hs : SchedStep sx.1 sx'.1, ExtensionStep table bumps allowed hs sx.2 sx'.2

end Cheetah
