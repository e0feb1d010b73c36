import Cheetah.Scheduler

/-! The scheduler at the granularity of its lock operations: each worker has the rest of a routine to
execute, one statement at a time. Frames, fibers and tables are left out but for the frames that
thieves look at; user code may call the runtime at any time. -/
namespace Cheetah
open Function (update)

/-- A frame on a deque. -/
structure DequeFrame where
  addr : FrameId
  detached : Bool
deriving DecidableEq

/-- The routines that begin with the worker's own slot and the closure in it. -/
inductive Routine where
  | cilkSync
  | setReturn
  | exceptionHandler
  | syncInPersonality
deriving DecidableEq

inductive Instr where
  -- `BusyClosure` and `Closure`
  | lockSelf
  | unlockBusy (pn : WorkerId)
  | xtract (pn : WorkerId)
  | set (pn : WorkerId) (cl : ClosureId)
  | lock (cl : ClosureId)
  | unlock (cl : ClosureId)
  | setStatus (cl : ClosureId) (status : ClosureStatus)
  | destroy (cl : ClosureId)
  | setupForExecution (cl : ClosureId)
  -- `Closure_steal`
  | trylockBusy (victim : WorkerId)
  | peekVictim (victim : WorkerId)
  | trylockClosure (victim : WorkerId) (cl : ClosureId)
  | switchStatus (victim : WorkerId) (cl : ClosureId)
  | addCallee (victim : WorkerId) (cl : ClosureId) (frame : FrameId)
  | promoteChild (victim : WorkerId) (spawnParent : ClosureId)
  -- the routines that user code calls
  | peekSelf (routine : Routine)
  | enter (routine : Routine) (t : ClosureId)
  | suspend (t : ClosureId)
  | setReturning (t : ClosureId)
  | setCallParent (t callParent : ClosureId)
  | removeCallee (t callParent : ClosureId)
  | returnAgain (t : ClosureId)
  -- `Closure_return`
  | takeTables (child parent : ClosureId)
  | decrementJoin (child parent : ClosureId)
  | provablyGoodSteal (parent : ClosureId)
  -- `__cilkrts_internal_exit_cilkified_root`
  | clearSlot
  | signalUncilkified
deriving DecidableEq

/-- Where a worker goes when its routine has ended. -/
inductive After where
  /-- Out of the cilkified region: the boss runs serial code. -/
  | outside
  /-- To the work-stealing loop. -/
  | scheduling
  | user
  /-- To `do_what_it_says`, with the closure. -/
  | doWhatItSays (t : ClosureId)
deriving DecidableEq

def rootClosure : ClosureId := 0

structure LockState where
  nworkers : ℕ
  /-- `CILK_DEBUG`. -/
  debug : Bool
  code : WorkerId → List Instr
  after : WorkerId → After
  -- the busy slots, with their locks
  busyOwner : WorkerId → Option WorkerId
  slot : WorkerId → Option ClosureId
  -- the deques; `claimed` while a thief that has passed Dekker's protocol holds the oldest frame
  deque : WorkerId → List DequeFrame
  claimed : WorkerId → Bool
  -- `Closure`
  numClosures : ℕ
  mutexOwner : ClosureId → Option WorkerId
  owner : ClosureId → Option WorkerId
  status : ClosureId → ClosureStatus
  frame : ClosureId → Option FrameId
  joinCounter : ClosureId → ℕ
  spawnParent : ClosureId → Option ClosureId
  callParent : ClosureId → Option ClosureId
  /-- `Cilk_do_reductions_for_return` has its frame on the closure. -/
  reducing : ClosureId → Bool
  cilkified : Bool

namespace LockState

/-- The worker has other code to execute. -/
def goto (s : LockState) (w : WorkerId) (code : List Instr) : LockState :=
  { s with code := update s.code w code }

def goAfter (s : LockState) (w : WorkerId) (after : After) : LockState :=
  { s with after := update s.after w after }

def setBusyOwner (s : LockState) (pn : WorkerId) (self : Option WorkerId) : LockState :=
  { s with busyOwner := update s.busyOwner pn self }

def setMutexOwner (s : LockState) (cl : ClosureId) (self : Option WorkerId) : LockState :=
  { s with mutexOwner := update s.mutexOwner cl self }

def setStatus (s : LockState) (cl : ClosureId) (status : ClosureStatus) : LockState :=
  { s with status := update s.status cl status }

def setDeque (s : LockState) (w : WorkerId) (frames : List DequeFrame) : LockState :=
  { s with deque := update s.deque w frames }

def setClaimed (s : LockState) (w : WorkerId) (claimed : Bool) : LockState :=
  { s with claimed := update s.claimed w claimed }

/-- `BusyClosure::xtract`. -/
def xtract (s : LockState) (pn : WorkerId) : LockState :=
  match s.slot pn with
  | none => s
  | some cl => { s with slot := update s.slot pn none, owner := update s.owner cl none }

/-- `BusyClosure::set`. -/
def set (s : LockState) (pn : WorkerId) (cl : ClosureId) : LockState :=
  { s with slot := update s.slot pn (some cl), owner := update s.owner cl (some pn) }

/-- `Closure::create`, with its status and parents. -/
def create (s : LockState) (frame : Option FrameId) (spawnParent callParent : Option ClosureId) :
    LockState :=
  { s with
    numClosures := s.numClosures + 1
    status := update s.status s.numClosures .running
    frame := update s.frame s.numClosures frame
    joinCounter := update s.joinCounter s.numClosures 0
    spawnParent := update s.spawnParent s.numClosures spawnParent
    callParent := update s.callParent s.numClosures callParent
    owner := update s.owner s.numClosures none
    mutexOwner := update s.mutexOwner s.numClosures none
    reducing := update s.reducing s.numClosures false }

def setJoin (s : LockState) (cl : ClosureId) (n : ℕ) : LockState :=
  { s with joinCounter := update s.joinCounter cl n }

/-- `promote_child` where the frame has no closure of its own: the closure of the frame is a callee of
`cl`, and `cl` is suspended. -/
def addCallee (s : LockState) (cl : ClosureId) (frame : FrameId) : LockState :=
  ((s.create (some frame) none (some cl)).setJoin cl (s.joinCounter cl + 1)).setStatus cl .suspended

/-- The rest of `promote_child`: the child goes to the victim's slot. -/
def promoteChild (s : LockState) (victim : WorkerId) (spawnParent : ClosureId) : LockState :=
  ((((s.create none (some spawnParent) none).setJoin spawnParent
    (s.joinCounter spawnParent + 1)).setDeque victim (s.deque victim).tail).setClaimed victim
      false).set victim s.numClosures

/-- `setup_for_execution`. -/
def setupForExecution (s : LockState) (w : WorkerId) (t : ClosureId) : LockState :=
  (s.setStatus t .running).setDeque w []

/-- `Closure::remove_callee` and `setup_call_parent_resumption`. -/
def removeCallee (s : LockState) (callParent : ClosureId) : LockState :=
  (s.setJoin callParent (s.joinCounter callParent - 1)).setStatus callParent .running

/-- The slot of a worker that leaves the region is cleared. -/
def clearSlot (s : LockState) (w : WorkerId) : LockState :=
  { s with
    slot := update s.slot w none
    owner := if s.debug then update s.owner rootClosure none else s.owner }

/-- The start of `__cilkrts_internal_invoke_cilkified_root`. -/
def invokeCilkifiedRoot (s : LockState) (frame : FrameId) : LockState :=
  { s.setStatus rootClosure .ready with
    frame := update s.frame rootClosure (some frame)
    cilkified := true }

/-- Worker 0 is outside, the others look for work, and the root closure has been created. -/
def initial (nworkers : ℕ) (debug : Bool) : LockState where
  nworkers := nworkers
  debug := debug
  code := fun _ => []
  after := fun w => if w = 0 then .outside else .scheduling
  busyOwner := fun _ => none
  slot := fun _ => none
  deque := fun _ => []
  claimed := fun _ => false
  numClosures := 1
  mutexOwner := fun _ => none
  owner := fun _ => none
  status := fun _ => .preInvalid
  frame := fun _ => none
  joinCounter := fun _ => 0
  spawnParent := fun _ => none
  callParent := fun _ => none
  reducing := fun _ => false
  cilkified := false

end LockState

/-- `give_up` in `Closure_steal`. -/
def giveUp (victim : WorkerId) (cl : ClosureId) : List Instr := [.unlock cl, .unlockBusy victim]

/-- `Closure_steal` after the child has been promoted. -/
def finishPromote (victim : WorkerId) (res : ClosureId) : List Instr :=
  [.unlockBusy victim, .setStatus res .ready, .setupForExecution res, .unlock res]

/-- The loop of `do_what_it_says` with a running closure, up to the jump to user code. -/
def execute (self : WorkerId) (t : ClosureId) : List Instr :=
  [.lockSelf, .set self t, .unlockBusy self]

/-- `Closure_return`, up to the decision whether there are tables to merge. -/
def closureReturn (child parent : ClosureId) : List Instr :=
  [.lock parent, .lock child, .takeTables child parent]

def reduceFirst (child parent : ClosureId) : List Instr :=
  [.setStatus child .running, .unlock child, .unlock parent, .setupForExecution child]

def finishReturn (child parent : ClosureId) : List Instr :=
  [.unlock child, .destroy child, .decrementJoin child parent, .provablyGoodSteal parent]

def resumeParent (parent : ClosureId) : List Instr := [.setupForExecution parent, .unlock parent]

/-- `__cilkrts_set_return`, with the closure and its call parent. -/
def setReturn (self : WorkerId) (t callParent : ClosureId) : List Instr :=
  [.xtract self, .setCallParent t callParent, .unlock t, .lock callParent,
    .removeCallee t callParent, .unlock callParent, .unlockBusy self, .destroy t]

/-- `Cilk_sync` where the closure has children. -/
def suspendAtSync (self : WorkerId) (t : ClosureId) : List Instr :=
  [.suspend t, .xtract self, .unlock t, .unlockBusy self]

/-- The end of a routine that leaves the closure in the slot. -/
def unlockBoth (self : WorkerId) (t : ClosureId) : List Instr := [.unlock t, .unlockBusy self]

/-- `__cilkrts_exception_handler` where the parent was stolen. The slot stays locked over the jump to
`do_what_it_says`. -/
def returnToRuntime (self : WorkerId) (t : ClosureId) : List Instr :=
  [.setReturning t, .unlock t, .xtract self, .unlockBusy self]

/-- `Cilk_do_reductions_for_return` after the reductions. -/
def returnAgain (self : WorkerId) (t : ClosureId) : List Instr :=
  [.lockSelf, .returnAgain t, .xtract self, .unlockBusy self]

/-- `__cilkrts_internal_exit_cilkified_root`. -/
def exitCilkifiedRoot (self : WorkerId) : List Instr :=
  [.lockSelf, .clearSlot, .unlockBusy self, .signalUncilkified]

/-- A worker executes the first statement of its code, or begins a routine. A lock is taken when it is
free; a trylock may fail. -/
inductive LockStep : LockState → LockState → Prop
  -- `do_what_it_says` and the work-stealing loop
  | execute {s : LockState} (w : WorkerId) (t : ClosureId) (hcode : s.code w = [])
      (hafter : s.after w = .doWhatItSays t) (hstatus : s.status t = .running) :
      LockStep s ((s.goto w (execute w t)).goAfter w .user)
  | returnValue {s : LockState} (w : WorkerId) (t parent : ClosureId) (hcode : s.code w = [])
      (hafter : s.after w = .doWhatItSays t) (hstatus : s.status t = .returning)
      (hparent : s.spawnParent t = some parent) :
      LockStep s ((s.goto w (closureReturn t parent)).goAfter w .scheduling)
  | steal {s : LockState} (w victim : WorkerId) (hcode : s.code w = [])
      (hafter : s.after w = .scheduling) (hne : victim ≠ w) (hvictim : victim < s.nworkers) :
      LockStep s (s.goto w [.trylockBusy victim])
  -- `BusyClosure` and `Closure`
  | lockSelf {s : LockState} (w : WorkerId) {code : List Instr}
      (hcode : s.code w = .lockSelf :: code) (hfree : s.busyOwner w = none) :
      LockStep s ((s.setBusyOwner w (some w)).goto w code)
  | unlockBusy {s : LockState} (w pn : WorkerId) {code : List Instr}
      (hcode : s.code w = .unlockBusy pn :: code) :
      LockStep s ((s.setBusyOwner pn none).goto w code)
  | xtract {s : LockState} (w pn : WorkerId) {code : List Instr}
      (hcode : s.code w = .xtract pn :: code) : LockStep s ((s.xtract pn).goto w code)
  | set {s : LockState} (w pn : WorkerId) (cl : ClosureId) {code : List Instr}
      (hcode : s.code w = .set pn cl :: code) : LockStep s ((s.set pn cl).goto w code)
  | lock {s : LockState} (w : WorkerId) (cl : ClosureId) {code : List Instr}
      (hcode : s.code w = .lock cl :: code) (hfree : s.mutexOwner cl = none) :
      LockStep s ((s.setMutexOwner cl (some w)).goto w code)
  | unlock {s : LockState} (w : WorkerId) (cl : ClosureId) {code : List Instr}
      (hcode : s.code w = .unlock cl :: code) :
      LockStep s ((s.setMutexOwner cl none).goto w code)
  | setStatus {s : LockState} (w : WorkerId) (cl : ClosureId) (status : ClosureStatus)
      {code : List Instr} (hcode : s.code w = .setStatus cl status :: code) :
      LockStep s ((s.setStatus cl status).goto w code)
  | destroy {s : LockState} (w : WorkerId) (cl : ClosureId) {code : List Instr}
      (hcode : s.code w = .destroy cl :: code) :
      LockStep s ((s.setStatus cl .postInvalid).goto w code)
  | setupForExecution {s : LockState} (w : WorkerId) (cl : ClosureId) {code : List Instr}
      (hcode : s.code w = .setupForExecution cl :: code) :
      LockStep s ((s.setupForExecution w cl).goto w code)
  -- `Closure_steal`
  | trylockBusy {s : LockState} (w victim : WorkerId) {code : List Instr}
      (hcode : s.code w = .trylockBusy victim :: code) (hfree : s.busyOwner victim = none) :
      LockStep s ((s.setBusyOwner victim (some w)).goto w [.peekVictim victim])
  | trylockBusyFails {s : LockState} (w victim : WorkerId) {code : List Instr}
      (hcode : s.code w = .trylockBusy victim :: code) : LockStep s (s.goto w [])
  | peekVictim {s : LockState} (w victim : WorkerId) {cl : ClosureId} {code : List Instr}
      (hcode : s.code w = .peekVictim victim :: code) (hslot : s.slot victim = some cl) :
      LockStep s (s.goto w [.trylockClosure victim cl])
  | peekNothing {s : LockState} (w victim : WorkerId) {code : List Instr}
      (hcode : s.code w = .peekVictim victim :: code) (hslot : s.slot victim = none) :
      LockStep s (s.goto w [.unlockBusy victim])
  | trylockClosure {s : LockState} (w victim : WorkerId) (cl : ClosureId) {code : List Instr}
      (hcode : s.code w = .trylockClosure victim cl :: code) (hfree : s.mutexOwner cl = none)
      (hpre : s.status cl ≠ .preInvalid) (hpost : s.status cl ≠ .postInvalid) :
      LockStep s ((s.setMutexOwner cl (some w)).goto w [.switchStatus victim cl])
  | trylockClosureFails {s : LockState} (w victim : WorkerId) (cl : ClosureId) {code : List Instr}
      (hcode : s.code w = .trylockClosure victim cl :: code) :
      LockStep s (s.goto w [.unlockBusy victim])
  | dekkerFails {s : LockState} (w victim : WorkerId) (cl : ClosureId) {code : List Instr}
      (hcode : s.code w = .switchStatus victim cl :: code) (hstatus : s.status cl = .running)
      (hdeque : s.deque victim = []) : LockStep s (s.goto w (giveUp victim cl))
  | leaveReturning {s : LockState} (w victim : WorkerId) (cl : ClosureId) {code : List Instr}
      (hcode : s.code w = .switchStatus victim cl :: code) (hstatus : s.status cl = .returning) :
      LockStep s (s.goto w (giveUp victim cl))
  /-- The default case of the switch, which unlocks nothing. -/
  | defaultCase {s : LockState} (w victim : WorkerId) (cl : ClosureId) {code : List Instr}
      (hcode : s.code w = .switchStatus victim cl :: code) (hrunning : s.status cl ≠ .running)
      (hreturning : s.status cl ≠ .returning) : LockStep s (s.goto w [])
  | stealOwn {s : LockState} (w victim : WorkerId) (cl : ClosureId) {f : DequeFrame}
      {rest : List DequeFrame} {code : List Instr}
      (hcode : s.code w = .switchStatus victim cl :: code) (hstatus : s.status cl = .running)
      (hdeque : s.deque victim = f :: rest) (hframe : s.frame cl = some f.addr) :
      LockStep s ((s.setClaimed victim true).goto w [.xtract victim, .promoteChild victim cl])
  | stealHelper {s : LockState} (w victim : WorkerId) (cl : ClosureId) {f : DequeFrame}
      {rest : List DequeFrame} {code : List Instr}
      (hcode : s.code w = .switchStatus victim cl :: code) (hstatus : s.status cl = .running)
      (hdeque : s.deque victim = f :: rest) (hframe : s.frame cl ≠ some f.addr)
      (hdetached : f.detached = true) :
      LockStep s (({ s.setClaimed victim true with frame := update s.frame cl (some f.addr) }).goto w
        [.xtract victim, .promoteChild victim cl])
  | stealCalled {s : LockState} (w victim : WorkerId) (cl : ClosureId) {f : DequeFrame}
      {rest : List DequeFrame} {code : List Instr}
      (hcode : s.code w = .switchStatus victim cl :: code) (hstatus : s.status cl = .running)
      (hdeque : s.deque victim = f :: rest) (hframe : s.frame cl ≠ some f.addr)
      (hdetached : f.detached = false) :
      LockStep s ((s.setClaimed victim true).goto w [.addCallee victim cl f.addr])
  | addCallee {s : LockState} (w victim : WorkerId) (cl : ClosureId) (frame : FrameId)
      {code : List Instr} (hcode : s.code w = .addCallee victim cl frame :: code) :
      LockStep s ((s.addCallee cl frame).goto w [.xtract victim, .unlock cl, .lock s.numClosures,
        .promoteChild victim s.numClosures])
  | promoteChild {s : LockState} (w victim : WorkerId) (res : ClosureId) {code : List Instr}
      (hcode : s.code w = .promoteChild victim res :: code) :
      LockStep s (((s.promoteChild victim res).goto w (finishPromote victim res)).goAfter w
        (.doWhatItSays res))
  -- user code
  | push {s : LockState} (w : WorkerId) (f : DequeFrame) (hcode : s.code w = [])
      (hafter : s.after w = .user) : LockStep s (s.setDeque w (s.deque w ++ [f]))
  | pop {s : LockState} (w : WorkerId) {f : DequeFrame} {rest : List DequeFrame}
      (hcode : s.code w = []) (hafter : s.after w = .user) (hdeque : s.deque w = rest ++ [f])
      (hclaimed : s.claimed w = true → rest ≠ []) : LockStep s (s.setDeque w rest)
  | call {s : LockState} (w : WorkerId) (routine : Routine) (hcode : s.code w = [])
      (hafter : s.after w = .user) : LockStep s (s.goto w [.lockSelf, .peekSelf routine])
  | peekSelf {s : LockState} (w : WorkerId) (routine : Routine) {t : ClosureId} {code : List Instr}
      (hcode : s.code w = .peekSelf routine :: code) (hslot : s.slot w = some t) :
      LockStep s (s.goto w [.lock t, .enter routine t])
  | syncFails {s : LockState} (w : WorkerId) (t : ClosureId) {code : List Instr}
      (hcode : s.code w = .enter .cilkSync t :: code) (hchildren : s.joinCounter t ≠ 0) :
      LockStep s ((s.goto w (suspendAtSync w t)).goAfter w .scheduling)
  | syncSucceeds {s : LockState} (w : WorkerId) (t : ClosureId) {code : List Instr}
      (hcode : s.code w = .enter .cilkSync t :: code) (hchildren : s.joinCounter t = 0) :
      LockStep s (s.goto w (unlockBoth w t))
  | setReturn {s : LockState} (w : WorkerId) (t : ClosureId) {callParent : ClosureId}
      {code : List Instr} (hcode : s.code w = .enter .setReturn t :: code)
      (hparent : s.callParent t = some callParent) :
      LockStep s (s.goto w (setReturn w t callParent))
  | handleSteal {s : LockState} (w : WorkerId) (t : ClosureId) {code : List Instr}
      (hcode : s.code w = .enter .exceptionHandler t :: code) (hdeque : s.deque w = []) :
      LockStep s ((s.goto w (returnToRuntime w t)).goAfter w (.doWhatItSays t))
  | falseAlarm {s : LockState} (w : WorkerId) (t : ClosureId) {f : DequeFrame}
      {rest : List DequeFrame} {code : List Instr}
      (hcode : s.code w = .enter .exceptionHandler t :: code) (hdeque : s.deque w = rest ++ [f]) :
      LockStep s ((s.setDeque w rest).goto w (unlockBoth w t))
  | syncInPersonality {s : LockState} (w : WorkerId) (t : ClosureId) {code : List Instr}
      (hcode : s.code w = .enter .syncInPersonality t :: code) :
      LockStep s (s.goto w (unlockBoth w t))
  | suspend {s : LockState} (w : WorkerId) (t : ClosureId) {code : List Instr}
      (hcode : s.code w = .suspend t :: code) :
      LockStep s ((s.setStatus t .suspended).goto w code)
  | setReturning {s : LockState} (w : WorkerId) (t : ClosureId) {code : List Instr}
      (hcode : s.code w = .setReturning t :: code) :
      LockStep s ((s.setStatus t .returning).goto w code)
  | setCallParent {s : LockState} (w : WorkerId) (t callParent : ClosureId) {code : List Instr}
      (hcode : s.code w = .setCallParent t callParent :: code) :
      LockStep s (({ s.set w callParent with frame := update s.frame t none }).goto w code)
  | removeCallee {s : LockState} (w : WorkerId) (t callParent : ClosureId) {code : List Instr}
      (hcode : s.code w = .removeCallee t callParent :: code) :
      LockStep s ((s.removeCallee callParent).goto w code)
  | againToRuntime {s : LockState} (w : WorkerId) (t : ClosureId) (hcode : s.code w = [])
      (hafter : s.after w = .user) (hslot : s.slot w = some t) (hreducing : s.reducing t = true)
      (hdeque : s.deque w = []) :
      LockStep s ((s.goto w (returnAgain w t)).goAfter w (.doWhatItSays t))
  | returnAgain {s : LockState} (w : WorkerId) (t : ClosureId) {code : List Instr}
      (hcode : s.code w = .returnAgain t :: code) :
      LockStep s ((s.setStatus t .returning).goto w code)
  -- `Closure_return`
  | reduceFirst {s : LockState} (w : WorkerId) (child parent : ClosureId) {code : List Instr}
      (hcode : s.code w = .takeTables child parent :: code) :
      LockStep s (({ s with reducing := update s.reducing child true }.goto w
        (reduceFirst child parent)).goAfter w (.doWhatItSays child))
  | finishReturn {s : LockState} (w : WorkerId) (child parent : ClosureId) {code : List Instr}
      (hcode : s.code w = .takeTables child parent :: code) :
      LockStep s (s.goto w (finishReturn child parent))
  | decrementJoin {s : LockState} (w : WorkerId) (child parent : ClosureId) {code : List Instr}
      (hcode : s.code w = .decrementJoin child parent :: code) :
      LockStep s ((s.setJoin parent (s.joinCounter parent - 1)).goto w code)
  | provablyGoodSteal {s : LockState} (w : WorkerId) (parent : ClosureId) {code : List Instr}
      (hcode : s.code w = .provablyGoodSteal parent :: code) (hjoin : s.joinCounter parent = 0)
      (hstatus : s.status parent = .suspended) :
      LockStep s (((s.setStatus parent .ready).goto w (resumeParent parent)).goAfter w
        (.doWhatItSays parent))
  | noSteal {s : LockState} (w : WorkerId) (parent : ClosureId) {code : List Instr}
      (hcode : s.code w = .provablyGoodSteal parent :: code)
      (hnot : ¬ (s.joinCounter parent = 0 ∧ s.status parent = .suspended)) :
      LockStep s (s.goto w [.unlock parent])
  -- the cilkified regions
  | invokeCilkifiedRoot {s : LockState} (frame : FrameId) (hcode : s.code 0 = [])
      (hafter : s.after 0 = .outside) (huncilkified : s.cilkified = false) :
      LockStep s (((s.invokeCilkifiedRoot frame).goto 0 [.setupForExecution rootClosure]).goAfter 0
        (.doWhatItSays rootClosure))
  | exitCilkifiedRoot {s : LockState} (w : WorkerId) (hcode : s.code w = [])
      (hafter : s.after w = .user) (hslot : s.slot w = some rootClosure) (hdeque : s.deque w = []) :
      LockStep s ((s.goto w (exitCilkifiedRoot w)).goAfter w
        (if w = 0 then .outside else .scheduling))
  | clearSlot {s : LockState} (w : WorkerId) {code : List Instr}
      (hcode : s.code w = .clearSlot :: code) : LockStep s ((s.clearSlot w).goto w code)
  | signalUncilkified {s : LockState} (w : WorkerId) {code : List Instr}
      (hcode : s.code w = .signalUncilkified :: code) :
      LockStep s ({ s with cilkified := false }.goto w code)
  | bossWaits {s : LockState} (hcode : s.code 0 = []) (hafter : s.after 0 = .scheduling)
      (huncilkified : s.cilkified = false) : LockStep s (s.goAfter 0 .outside)

end Cheetah
