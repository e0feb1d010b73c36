import Cheetah.ForkJoin
import Cheetah.SiblingList
import Cheetah.Runs

/-! The scheduler at the granularity of its lock-protected sections: the closure tree, the stack
frames with their flags, the fibers and the reducer tables. Pointers are numbers that are not
used again; a null pointer is `none`. -/
namespace Cheetah
open Function (update)

abbrev WorkerId := ℕ
abbrev ClosureId := ℕ
abbrev FrameId := ℕ
abbrev FiberId := ℕ

inductive ClosureStatus where
  | running | suspended | returning | ready | preInvalid | postInvalid
deriving DecidableEq

/-- Where a worker stands between two sections. -/
inductive Phase where
  /-- In the work-stealing loop, with nothing to run. -/
  | stealing
  /-- In `do_what_it_says`, about to jump to the closure's frame. -/
  | scheduled (t : ClosureId)
  /-- In user code. -/
  | running (t : ClosureId)
  /-- In `__cilkrts_do_reductions`, after a jump to the closure's frame. -/
  | reducing (t : ClosureId)
  /-- In `do_what_it_says`, about to return the closure, which is in no busy slot. -/
  | returning (t : ClosureId)
  /-- Has ended the cilkified region. -/
  | exited (t : ClosureId)
deriving DecidableEq

def Phase.closure : Phase → Option ClosureId
  | .stealing => none
  | .scheduled t | .running t | .reducing t | .returning t | .exited t => some t

structure Runtime (κ V : Type) where
  -- `__cilkrts_stack_frame`: the code left to run, the flags and the saved stack pointer
  code : FrameId → Code κ V
  detached : FrameId → Bool
  stolen : FrameId → Bool
  unsynched : FrameId → Bool
  last : FrameId → Bool
  /-- The frame of `Cilk_do_reductions_for_return`. -/
  reduction : FrameId → Bool
  sp : FrameId → ℕ
  -- `Closure`
  frame : ClosureId → Option FrameId
  fiber : ClosureId → Option FiberId
  fiberChild : ClosureId → Option FiberId
  status : ClosureId → ClosureStatus
  joinCounter : ClosureId → ℤ
  origRsp : ClosureId → Option ℕ
  callParent : ClosureId → Option ClosureId
  spawnParent : ClosureId → Option ClosureId
  leftSib : ClosureId → Option ClosureId
  rightSib : ClosureId → Option ClosureId
  rightMostChild : ClosureId → Option ClosureId
  rightHt : ClosureId → Option (ViewMap κ V)
  childHt : ClosureId → Option (ViewMap κ V)
  userHt : ClosureId → Option (ViewMap κ V)
  /-- The closure's part of the cactus stack, the youngest frame first. -/
  stack : ClosureId → List FrameId
  -- `__cilkrts_worker` and `local_state`; the deque's oldest frame is at its head
  phase : WorkerId → Phase
  deque : WorkerId → List FrameId
  provablyGoodSteal : WorkerId → Bool
  hyperTable : WorkerId → Option (ViewMap κ V)
  lht : WorkerId → Option (ViewMap κ V)
  rht : WorkerId → Option (ViewMap κ V)
  -- what was allocated, and the fibers given back to the pool, each allocation with a new number
  numFrames : ℕ
  numClosures : ℕ
  numFibers : ℕ
  freed : List FiberId
  live : ClosureId → Bool
  -- ghosts: the closures destroyed so far, the linked children, the called child, the children
  -- since the last sync, the fiber on which the closure was created, the fibers given to it or its
  -- children since the last sync, and the fiber and stack pointer at each steal of a frame since
  -- its last sync
  destroyed : List ClosureId
  children : ClosureId → List ClosureId
  callee : ClosureId → Option ClosureId
  promoted : ClosureId → List ClosureId
  home : ClosureId → Option FiberId
  given : ClosureId → List FiberId
  steals : FrameId → List (Option FiberId × ℕ)

section Operations

variable {κ V : Type}

/-- Worker 0 has invoked the root closure, with a table of views from before the region. -/
def initialRuntime (code : Code κ V) (table : Option (ViewMap κ V)) : Runtime κ V where
  code := fun _ => code
  detached := fun _ => false
  stolen := fun f => f = 0
  unsynched := fun _ => false
  last := fun f => f = 0
  reduction := fun _ => false
  sp := fun _ => 0
  frame := fun c => if c = 0 then some 0 else none
  fiber := fun c => if c = 0 then some 0 else none
  fiberChild := fun _ => none
  status := fun c => if c = 0 then .running else .preInvalid
  joinCounter := fun _ => 0
  origRsp := fun _ => none
  callParent := fun _ => none
  spawnParent := fun _ => none
  leftSib := fun _ => none
  rightSib := fun _ => none
  rightMostChild := fun _ => none
  rightHt := fun _ => none
  childHt := fun _ => none
  userHt := fun _ => none
  stack := fun c => if c = 0 then [0] else []
  phase := fun w => if w = 0 then .scheduled 0 else .stealing
  deque := fun _ => []
  provablyGoodSteal := fun _ => false
  hyperTable := fun w => if w = 0 then table else none
  lht := fun _ => none
  rht := fun _ => none
  numFrames := 1
  numClosures := 1
  numFibers := 1
  freed := []
  live := fun c => c = 0
  destroyed := []
  children := fun _ => []
  callee := fun _ => none
  promoted := fun _ => []
  home := fun c => if c = 0 then some 0 else none
  given := fun _ => []
  steals := fun _ => []

variable (s : Runtime κ V)

namespace Runtime

/-- `Closure::create` -/
def createClosure (c : ClosureId) (frame : Option FrameId) : Runtime κ V :=
  { s with
    frame := update s.frame c frame
    fiber := update s.fiber c none
    fiberChild := update s.fiberChild c none
    status := update s.status c .preInvalid
    joinCounter := update s.joinCounter c 0
    origRsp := update s.origRsp c none
    callParent := update s.callParent c none
    spawnParent := update s.spawnParent c none
    leftSib := update s.leftSib c none
    rightSib := update s.rightSib c none
    rightMostChild := update s.rightMostChild c none
    rightHt := update s.rightHt c none
    childHt := update s.childHt c none
    userHt := update s.userHt c none
    stack := update s.stack c []
    live := update s.live c true
    children := update s.children c []
    callee := update s.callee c none
    promoted := update s.promoted c []
    given := update s.given c []
    numClosures := s.numClosures + 1 }

def destroyClosure (c : ClosureId) : Runtime κ V :=
  { s with
    status := update s.status c .postInvalid
    stack := update s.stack c []
    live := update s.live c false
    destroyed := s.destroyed ++ [c] }

/-- `double_link_children` with the right most child, which the new child replaces -/
def addChild (parent child : ClosureId) : Runtime κ V :=
  { s with
    leftSib := update s.leftSib child (s.rightMostChild parent)
    rightSib := storeAt s.rightSib (s.rightMostChild parent) (some child)
    rightMostChild := update s.rightMostChild parent (some child)
    children := update s.children parent (s.children parent ++ [child])
    promoted := update s.promoted parent (s.promoted parent ++ [child]) }

/-- `remove_child` and `unlink_child` -/
def removeChild (parent child : ClosureId) : Runtime κ V :=
  { s with
    rightMostChild := if s.rightMostChild parent = some child
      then update s.rightMostChild parent (s.leftSib child) else s.rightMostChild
    leftSib := update (bypassLeft s.leftSib s.rightSib child) child none
    rightSib := update (bypassRight s.leftSib s.rightSib child) child none
    children := update s.children parent ((s.children parent).erase child) }

/-- `cilk_fiber_deallocate_to_pool`, unless the pointer is null -/
def deallocateFiber (fiber : Option FiberId) : Runtime κ V :=
  { s with freed := s.freed ++ fiber.toList }

def setupForExecution (w : WorkerId) (t : ClosureId) : Runtime κ V :=
  { s with
    status := update s.status t .running
    deque := update s.deque w [] }

/-- `setup_for_sync` -/
def setupForSync (t : ClosureId) : Runtime κ V :=
  { s.deallocateFiber (s.fiber t) with
    fiber := update s.fiber t (s.fiberChild t)
    fiberChild := update s.fiberChild t none
    unsynched := storeAt s.unsynched (s.frame t) false
    sp := storeAt s.sp (s.frame t) ((s.origRsp t).getD 0)
    origRsp := update s.origRsp t none
    promoted := update s.promoted t []
    given := update s.given t []
    steals := storeAt s.steals (s.frame t) [] }

/-- `promote_child` from the test of `orig_rsp` on, in the closure of the stolen frame: the
victim goes on with a new child, which gets the fiber and the frames above the stolen one. -/
def promoteChild (victim : WorkerId) (spawnParent child : ClosureId) (stolenFrame : FrameId)
    (fiber : Option FiberId) (kept above : List FrameId) : Runtime κ V :=
  let s' := (s.createClosure child none).addChild spawnParent child
  { s' with
    origRsp := update s'.origRsp spawnParent ((s'.origRsp spawnParent).or (some (s.sp stolenFrame)))
    spawnParent := update s'.spawnParent child (some spawnParent)
    status := update s'.status child .running
    joinCounter := update s'.joinCounter spawnParent (s'.joinCounter spawnParent + 1)
    deque := update s'.deque victim (s.deque victim).tail
    phase := update s'.phase victim (.running child)
    fiber := update s'.fiber child fiber
    stack := update (update s'.stack spawnParent kept) child above
    home := update s'.home child fiber
    steals := update s'.steals stolenFrame (s'.steals stolenFrame ++ [(fiber, s.sp stolenFrame)]) }

/-- The new fiber of the stolen closure, `finish_promote` and `setup_for_execution`. -/
def finishSteal (thief : WorkerId) (res : ClosureId) (stolenFrame : FrameId)
    (fiber : Option FiberId) : Runtime κ V :=
  let s' := s.setupForExecution thief res
  { s' with
    fiber := update s'.fiber res (some s.numFibers)
    numFibers := s.numFibers + 1
    unsynched := update s'.unsynched stolenFrame true
    phase := update s'.phase thief (.scheduled res)
    given := update s'.given res (s'.given res ++ fiber.toList ++ [s.numFibers]) }

/-- `__cilkrts_set_stolen` and `set_frame` on a spawn helper that is itself stolen. -/
def promoteHelper (cl : ClosureId) (stolenFrame : FrameId) : Runtime κ V :=
  { s with
    stolen := update s.stolen stolenFrame true
    frame := update s.frame cl (some stolenFrame) }

/-- The closure of a called frame that is stolen, as a callee of the suspended `cl`. -/
def addCallee (cl callee : ClosureId) (stolenFrame : FrameId) (below : List FrameId) :
    Runtime κ V :=
  let s' := s.createClosure callee (some stolenFrame)
  { s' with
    stolen := update s'.stolen stolenFrame true
    joinCounter := update s'.joinCounter cl (s'.joinCounter cl + 1)
    callParent := update s'.callParent callee (some cl)
    status := update (update s'.status callee .running) cl .suspended
    stack := update s'.stack cl below
    callee := update s'.callee cl (some callee)
    home := update s'.home callee (s.fiber cl) }

/-- The reducer table to the left of a child: its left sibling's `right_ht` or its parent's
`child_ht`. -/
def leftHt (parent child : ClosureId) : Option (ViewMap κ V) :=
  match s.leftSib child with
  | some left => s.rightHt left
  | none => s.childHt parent

def setLeftHt (parent child : ClosureId) (table : Option (ViewMap κ V)) : Runtime κ V :=
  { s with
    rightHt := storeAt s.rightHt (s.leftSib child) table
    childHt := if s.leftSib child = none then update s.childHt parent table else s.childHt }

/-- `Closure_return` takes the tables on both sides to merge them. -/
def takeTables (w : WorkerId) (parent child : ClosureId) : Runtime κ V :=
  let s' := { s with rightHt := update s.rightHt child none }.setLeftHt parent child none
  { s'.setupForExecution w child with
    lht := update s.lht w (s.leftHt parent child)
    rht := update s.rht w (s.rightHt child)
    provablyGoodSteal := update s.provablyGoodSteal w true
    phase := update s.phase w (.scheduled child) }

/-- The left-holder logic for stacks in `Closure_return`. -/
def returnFiber (parent child : ClosureId) : Runtime κ V :=
  let notLeftmost := s.leftSib child ≠ none ∨ s.fiberChild parent ≠ none
  { s with
    freed := if notLeftmost then s.freed ++ (s.fiber child).toList else s.freed
    fiberChild := if notLeftmost then s.fiberChild
      else update s.fiberChild parent (s.fiber child)
    fiber := update s.fiber child none }

/-- `Closure_return` deposits the worker's table, unlinks and destroys the child. -/
def returnChild (w : WorkerId) (parent child : ClosureId) : Runtime κ V :=
  let s' := (((s.setLeftHt parent child (s.hyperTable w)).returnFiber parent child).removeChild
    parent child).destroyClosure child
  { s' with
    hyperTable := update s'.hyperTable w none
    joinCounter := update s'.joinCounter parent (s'.joinCounter parent - 1)
    phase := update s'.phase w .stealing }

/-- `provably_good_steal_maybe` has found the parent suspended with no children left. -/
def resumeParent (w : WorkerId) (parent : ClosureId) : Runtime κ V :=
  let s' := s.setupForSync parent
  { s'.setupForExecution w parent with
    lht := update s'.lht w (s'.childHt parent)
    hyperTable := update s'.hyperTable w (s'.userHt parent)
    childHt := update s'.childHt parent none
    userHt := update s'.userHt parent none
    provablyGoodSteal := update s'.provablyGoodSteal w true
    phase := update s'.phase w (.scheduled parent) }

/-- The failing branch of `Cilk_sync`. -/
def suspendAtSync (w : WorkerId) (t : ClosureId) : Runtime κ V :=
  { s.deallocateFiber (s.fiber t) with
    fiber := update s.fiber t none
    status := update s.status t .suspended
    userHt := update s.userHt t (s.hyperTable w)
    hyperTable := update s.hyperTable w none
    phase := update s.phase w .stealing }

/-- The succeeding branch of `Cilk_sync`. -/
def passSync (w : WorkerId) (t : ClosureId) : Runtime κ V :=
  let s' := s.setupForSync t
  { s' with
    lht := update s'.lht w ((s'.childHt t).or (s'.lht w))
    childHt := update s'.childHt t none
    phase := update s'.phase w (.reducing t) }

/-- `__cilkrts_set_return` -/
def setReturn (w : WorkerId) (t parent : ClosureId) : Runtime κ V :=
  let s' := s.destroyClosure t
  { s' with
    frame := update s'.frame t none
    fiber := update s'.fiber t none
    joinCounter := update s'.joinCounter parent (s'.joinCounter parent - 1)
    status := update s'.status parent .running
    callee := update s'.callee parent none
    phase := update s'.phase w (.running parent) }

/-- What the first part of a steal does: the stolen frame is the closure's own frame. -/
def stealOwn (w victim : WorkerId) (cl : ClosureId) (f : FrameId) (above below : List FrameId) :
    Runtime κ V :=
  (s.promoteChild victim cl s.numClosures f (s.fiber cl) (f :: below) above).finishSteal w cl f
    (s.fiber cl)

/-- The stolen frame becomes the frame of a new closure. -/
def stealCalled (w victim : WorkerId) (cl : ClosureId) (f : FrameId) (above below : List FrameId) :
    Runtime κ V :=
  ((s.addCallee cl s.numClosures f below).promoteChild victim s.numClosures (s.numClosures + 1) f
    (s.fiber cl) [f] above).finishSteal w s.numClosures f (s.fiber cl)

/-- A frame with nothing on top of it is entered: a called function or a spawn helper. -/
def pushFrame (t : ClosureId) (code : Code κ V) (detached reduction : Bool) : Runtime κ V :=
  { s with
    code := update s.code s.numFrames code
    detached := update s.detached s.numFrames detached
    stolen := update s.stolen s.numFrames false
    unsynched := update s.unsynched s.numFrames false
    last := update s.last s.numFrames false
    reduction := update s.reduction s.numFrames reduction
    steals := update s.steals s.numFrames []
    stack := update s.stack t (s.numFrames :: s.stack t)
    numFrames := s.numFrames + 1 }

variable [Monoid V]

/-- `__cilkrts_do_reductions`, whose reduce operations run no parallel code. -/
def doReductions (w : WorkerId) : Runtime κ V :=
  { s with
    hyperTable := update s.hyperTable w
      (mergeTwoHts (mergeTwoHts (s.lht w) (s.hyperTable w)) (s.rht w))
    lht := update s.lht w none
    rht := update s.rht w none }

end Runtime

end Operations

/-- One strand step of a worker in user code, or one section of the runtime. -/
inductive SchedStep {κ V : Type} [DecidableEq κ] [Monoid V] : Runtime κ V → Runtime κ V → Prop
  -- user code, with the inlined fast paths
  | update {s : Runtime κ V} {w t f below reducer u rest} (hw : s.phase w = .running t)
      (hstack : s.stack t = f :: below) (hcode : s.code f = .update reducer u rest) :
      SchedStep s { s with
        code := update s.code f rest
        hyperTable := update s.hyperTable w (updateView (s.hyperTable w) reducer u) }
  | enterFrame {s : Runtime κ V} {w t f below callee rest} (hw : s.phase w = .running t)
      (hstack : s.stack t = f :: below) (hcode : s.code f = .call callee rest) :
      SchedStep s ({ s with code := update s.code f rest }.pushFrame t callee false false)
  | detach {s : Runtime κ V} {w t f below child rest} (rsp : ℕ) (hw : s.phase w = .running t)
      (hstack : s.stack t = f :: below) (hcode : s.code f = .spawn child rest) :
      SchedStep s ({ s with
        code := update s.code f rest
        sp := update s.sp f rsp
        deque := update s.deque w (s.deque w ++ [f]) }.pushFrame t child true false)
  | leaveFrame {s : Runtime κ V} {w t f below} (hw : s.phase w = .running t)
      (hstack : s.stack t = f :: below) (hcode : s.code f = .done)
      (hsynched : s.unsynched f = false) (hdetached : s.detached f = false)
      (hlast : s.last f = false) (hstolen : s.stolen f = false) :
      SchedStep s { s with stack := update s.stack t below }
  | leaveFrameHelper {s : Runtime κ V} {w t f below parents parent} (hw : s.phase w = .running t)
      (hstack : s.stack t = f :: below) (hcode : s.code f = .done)
      (hsynched : s.unsynched f = false) (hdetached : s.detached f = true)
      (hdeque : s.deque w = parents ++ [parent]) :
      SchedStep s { s with
        stack := update s.stack t below
        detached := update s.detached f false
        deque := update s.deque w parents }
  -- `__cilkrts_exception_handler` and `Cilk_do_reductions_for_return`: the parent was stolen
  | exceptionHandler {s : Runtime κ V} {w t f below} (hw : s.phase w = .running t)
      (hstack : s.stack t = f :: below) (hcode : s.code f = .done)
      (hsynched : s.unsynched f = false) (hdetached : s.detached f = true)
      (hdeque : s.deque w = []) :
      SchedStep s ({ s with
        stack := update s.stack t below
        detached := update s.detached f false
        status := update s.status t .returning
        frame := update s.frame t (some s.numFrames)
        phase := update s.phase w (.returning t) }.pushFrame t .done false true)
  | syncFast {s : Runtime κ V} {w t f below rest} (hw : s.phase w = .running t)
      (hstack : s.stack t = f :: below) (hcode : s.code f = .sync rest)
      (hsynched : s.unsynched f = false) :
      SchedStep s { s with code := update s.code f rest }
  -- `Cilk_sync`
  | suspendAtSync {s : Runtime κ V} {w t f below} (rsp : ℕ) (hw : s.phase w = .running t)
      (hstack : s.stack t = f :: below) (hcode : (s.code f).atSync = true)
      (hunsynched : s.unsynched f = true) (hchildren : s.joinCounter t ≠ 0) :
      SchedStep s ({ s with sp := update s.sp f rsp }.suspendAtSync w t)
  | passSync {s : Runtime κ V} {w t f below} (rsp : ℕ) (hw : s.phase w = .running t)
      (hstack : s.stack t = f :: below) (hcode : (s.code f).atSync = true)
      (hunsynched : s.unsynched f = true) (hchildren : s.joinCounter t = 0) :
      SchedStep s ({ s with sp := update s.sp f rsp }.passSync w t)
  | doReductions {s : Runtime κ V} {w t f} (hw : s.phase w = .reducing t)
      (hframe : s.frame t = some f) (hreduction : s.reduction f = false) :
      SchedStep s { s.doReductions w with
        code := update s.code f (s.code f).afterSync
        phase := update s.phase w (.running t) }
  | doReductionsForReturn {s : Runtime κ V} {w t f} (hw : s.phase w = .reducing t)
      (hframe : s.frame t = some f) (hreduction : s.reduction f = true) :
      SchedStep s { s.doReductions w with
        status := update s.status t .returning
        phase := update s.phase w (.returning t) }
  -- `Closure_steal`, by the three cases of `promote_child`
  | stealStolen {s : Runtime κ V} {w victim cl f parents above below}
      (hw : s.phase w = .stealing) (hvictim : s.phase victim = .running cl)
      (hdeque : s.deque victim = f :: parents) (hstack : s.stack cl = above ++ f :: below)
      (hframe : s.frame cl = some f) :
      SchedStep s (s.stealOwn w victim cl f above below)
  | stealHelper {s : Runtime κ V} {w victim cl f parents above below}
      (hw : s.phase w = .stealing) (hvictim : s.phase victim = .running cl)
      (hdeque : s.deque victim = f :: parents) (hstack : s.stack cl = above ++ f :: below)
      (hframe : s.frame cl ≠ some f) (hdetached : s.detached f = true) :
      SchedStep s ((s.promoteHelper cl f).stealOwn w victim cl f above below)
  | stealCalled {s : Runtime κ V} {w victim cl f parents above below}
      (hw : s.phase w = .stealing) (hvictim : s.phase victim = .running cl)
      (hdeque : s.deque victim = f :: parents) (hstack : s.stack cl = above ++ f :: below)
      (hframe : s.frame cl ≠ some f) (hdetached : s.detached f = false) :
      SchedStep s (s.stealCalled w victim cl f above below)
  -- `do_what_it_says` and `longjmp_to_user_code`
  | resumeStolen {s : Runtime κ V} {w t f} (rsp : ℕ) (hw : s.phase w = .scheduled t)
      (hframe : s.frame t = some f) (hsteal : s.provablyGoodSteal w = false) :
      SchedStep s { s with
        sp := update s.sp f rsp
        phase := update s.phase w (.running t) }
  | resumeSync {s : Runtime κ V} {w t} (hw : s.phase w = .scheduled t)
      (hsteal : s.provablyGoodSteal w = true) :
      SchedStep s { s with
        provablyGoodSteal := update s.provablyGoodSteal w false
        phase := update s.phase w (.reducing t) }
  -- `Closure_return`
  | takeTables {s : Runtime κ V} {w t parent} (hw : s.phase w = .returning t)
      (hparent : s.spawnParent t = some parent)
      (htables : s.leftHt parent t ≠ none ∨ s.rightHt t ≠ none) :
      SchedStep s (s.takeTables w parent t)
  | returnChild {s : Runtime κ V} {w t parent} (hw : s.phase w = .returning t)
      (hparent : s.spawnParent t = some parent)
      (hleft : s.leftHt parent t = none) (hright : s.rightHt t = none)
      (hsteal : ¬ (s.joinCounter parent = 1 ∧ s.status parent = .suspended)) :
      SchedStep s (s.returnChild w parent t)
  | resumeParent {s : Runtime κ V} {w t parent} (hw : s.phase w = .returning t)
      (hparent : s.spawnParent t = some parent)
      (hleft : s.leftHt parent t = none) (hright : s.rightHt t = none)
      (hsteal : s.joinCounter parent = 1 ∧ s.status parent = .suspended) :
      SchedStep s ((s.returnChild w parent t).resumeParent w parent)
  | setReturn {s : Runtime κ V} {w t f below parent} (hw : s.phase w = .running t)
      (hstack : s.stack t = f :: below) (hcode : s.code f = .done)
      (hsynched : s.unsynched f = false) (hdetached : s.detached f = false)
      (hlast : s.last f = false) (hstolen : s.stolen f = true)
      (hparent : s.callParent t = some parent) :
      SchedStep s (s.setReturn w t parent)
  -- `__cilkrts_internal_exit_cilkified_root`
  | exitRoot {s : Runtime κ V} {w t f below} (hw : s.phase w = .running t)
      (hstack : s.stack t = f :: below) (hcode : s.code f = .done)
      (hsynched : s.unsynched f = false) (hlast : s.last f = true) :
      SchedStep s { s with
        stolen := update s.stolen f false
        last := update s.last f false
        hyperTable := if w = 0 then s.hyperTable
          else update (update s.hyperTable 0 (s.hyperTable w)) w none
        phase := update s.phase w (.exited t) }

end Cheetah
