import Cheetah.SchedulerLocks

/-! What a worker owns while it executes a routine: a busy slot, closures that it has locked, and a
closure that no other worker can reach. Each statement has a rule for what it needs and changes. -/
namespace Cheetah
open Function (update)

/-- What the owner of a busy slot knows of it. -/
inductive View where
  /-- The slot is as its worker left it. -/
  | atRest
  | empty
  | running (cl : ClosureId)
  | returning (cl : ClosureId)
  /-- The closure was suspended, and is about to leave the slot. -/
  | parked (cl : ClosureId)
  /-- The call parent of a returning callee, still suspended. -/
  | callParent (cl : ClosureId)
deriving DecidableEq

/-- A closure that only one worker can reach. It is live while its parent counts it. -/
structure Held where
  closure : ClosureId
  status : ClosureStatus
  live : Bool
deriving DecidableEq

structure Owned where
  busy : Option WorkerId
  view : View
  locks : List ClosureId
  hand : Option Held
  /-- The worker's own slot has a closure whenever no one has changed it under its lock. -/
  home : Bool
  /-- The worker has claimed a frame of its victim. -/
  claim : Bool
  /-- The worker has cleared its slot to end the region. -/
  ending : Bool
deriving DecidableEq

namespace Owned

def idle (home : Bool) : Owned := ⟨none, .atRest, [], none, home, false, false⟩

/-- A thief with the slot of its victim. -/
def thief (victim : WorkerId) (view : View) (locks : List ClosureId) (hand : Option Held)
    (claim : Bool) : Owned := ⟨some victim, view, locks, hand, false, claim, false⟩

/-- A worker in user code with its own slot. -/
def inUser (self : WorkerId) (view : View) (locks : List ClosureId) : Owned :=
  ⟨some self, view, locks, none, true, false, false⟩

/-- A worker in the runtime with no slot. -/
def inRuntime (locks : List ClosureId) (hand : Option Held) : Owned :=
  ⟨none, .atRest, locks, hand, false, false, false⟩

end Owned

/-- A slot in this view may be unlocked; only its own worker may leave it empty. -/
def View.settled (own : Bool) : View → Bool
  | .atRest | .running _ => true
  | .empty => own
  | _ => false

/-- Whether the worker's own slot has a closure after it is unlocked. -/
def View.full (home : Bool) : View → Bool
  | .atRest => home
  | .empty => false
  | _ => true

def After.Owns : After → Owned → Prop
  | .user, o => o = .idle true
  | .scheduling, o | .outside, o => o = .idle false
  | .doWhatItSays t, o => ∃ status, (status = .running ∨ status = .returning) ∧
      o = .inRuntime [] (some ⟨t, status, true⟩)

/-- The statement relies on what was in the worker's slot when the routine began. -/
def Instr.readsSlot : Instr → Bool
  | .clearSlot | .returnAgain _ => true
  | _ => false

/-- The worker may execute the code with what it owns, and ends with what the end needs. -/
def Typed (w : WorkerId) : List Instr → After → Owned → Prop
  | [], after, o => after.Owns o
  | .lockSelf :: code, after, o => o.busy = none ∧ o.locks = [] ∧ o.claim = false ∧
      Typed w code after
        { o with busy := some w, view := if o.home then .atRest else .empty }
  | .unlockBusy pn :: code, after, o => o.busy = some pn ∧ o.view.settled (pn = w) = true ∧
      o.claim = false ∧
      Typed w code after { o with
        busy := none, view := .atRest, home := if pn = w then o.view.full o.home else o.home }
  | .lock cl :: code, after, o => (o.locks = [] ∨ ∃ parent, o.locks = [parent] ∧ o.busy = none ∧
      code = [.takeTables cl parent]) ∧ Typed w code after { o with locks := cl :: o.locks }
  | .unlock cl :: code, after, o => cl ∈ o.locks ∧ o.view ≠ .parked cl ∧
      Typed w code after { o with locks := o.locks.erase cl }
  | .xtract pn :: code, after, o => o.busy = some pn ∧ (pn ≠ w → o.claim = true) ∧
      (∀ i ∈ code, i.readsSlot = false) ∧
      match o.view with
      | .running cl => o.hand = none ∧
          Typed w code after { o with view := .empty, hand := some ⟨cl, .running, true⟩ }
      | .returning cl => o.hand = none ∧
          Typed w code after { o with view := .empty, hand := some ⟨cl, .returning, true⟩ }
      | .parked _ => Typed w code after { o with view := .empty }
      | _ => False
  | .set pn cl :: code, after, o => o.busy = some pn ∧ pn = w ∧ o.view = .empty ∧
      o.hand = some ⟨cl, .running, true⟩ ∧ (∀ i ∈ code, i.readsSlot = false) ∧
      Typed w code after { o with view := .running cl, hand := none }
  | .setStatus cl status :: code, after, o => status ≠ .suspended ∧
      (∃ old, o.hand = some ⟨cl, old, true⟩) ∧
      Typed w code after { o with hand := some ⟨cl, status, true⟩ }
  | .setupForExecution cl :: code, after, o => o.home = false ∧
      (∃ old, o.hand = some ⟨cl, old, true⟩) ∧
      Typed w code after { o with hand := some ⟨cl, .running, true⟩ }
  | .destroy cl :: code, after, o => ∃ old live, o.hand = some ⟨cl, old, live⟩ ∧
      (live = false → o.busy = none) ∧
      Typed w code after { o with hand := if live then some ⟨cl, .postInvalid, true⟩ else none }
  | .suspend t :: code, after, o => o.busy = some w ∧ o.view = .running t ∧ t ∈ o.locks ∧
      Typed w code after { o with view := .parked t }
  | .setReturning t :: code, after, o => o.busy = some w ∧ o.view = .running t ∧
      Typed w code after { o with view := .returning t }
  | .returnAgain t :: code, after, o => o.busy = some w ∧ o.view = .atRest ∧ o.home = true ∧
      Typed w code after { o with view := .returning t }
  | .setCallParent t callParent :: code, after, o => o.busy = some w ∧ o.view = .empty ∧
      o.hand = some ⟨t, .running, true⟩ ∧ (∀ i ∈ code, i.readsSlot = false) ∧
      Typed w code after { o with view := .callParent callParent }
  | .removeCallee t callParent :: code, after, o => o.busy = some w ∧
      o.view = .callParent callParent ∧ o.hand = some ⟨t, .running, true⟩ ∧
      Typed w code after
        { o with view := .running callParent, hand := some ⟨t, .running, false⟩ }
  | .decrementJoin child _ :: code, after, o => o.busy = none ∧
      o.hand = some ⟨child, .postInvalid, true⟩ ∧
      Typed w code after { o with hand := none }
  | .clearSlot :: code, after, o => o.busy = some w ∧ o.view = .atRest ∧ o.home = true ∧
      o.hand = none ∧ o.ending = false ∧ (∀ i ∈ code, i.readsSlot = false) ∧
      Typed w code after { o with view := .empty, ending := true }
  | .signalUncilkified :: code, after, o => o.ending = true ∧
      Typed w code after { o with ending := false }
  | .trylockBusy victim :: code, after, o => code = [] ∧ after = .scheduling ∧ victim ≠ w ∧
      o = .idle false
  | .peekVictim victim :: code, after, o => code = [] ∧ after = .scheduling ∧ victim ≠ w ∧
      o = .thief victim .atRest [] none false
  | .trylockClosure victim cl :: code, after, o => code = [] ∧ after = .scheduling ∧ victim ≠ w ∧
      o = .thief victim (.running cl) [] none false
  | .switchStatus victim cl :: code, after, o => code = [] ∧ after = .scheduling ∧ victim ≠ w ∧
      o = .thief victim (.running cl) [cl] none false
  | .addCallee victim cl _ :: code, after, o => code = [] ∧ after = .scheduling ∧ victim ≠ w ∧
      o = .thief victim (.running cl) [cl] none true
  | .promoteChild victim res :: code, after, o => code = [] ∧ after = .scheduling ∧ victim ≠ w ∧
      o = .thief victim .empty [res] (some ⟨res, .running, true⟩) true
  | .peekSelf _ :: code, after, o => code = [] ∧ after = .user ∧ o = .inUser w .atRest []
  | .enter _ t :: code, after, o => code = [] ∧ after = .user ∧ o = .inUser w (.running t) [t]
  | .takeTables child parent :: code, after, o => code = [] ∧ after = .scheduling ∧
      o = .inRuntime [child, parent] (some ⟨child, .returning, true⟩)
  | .provablyGoodSteal parent :: code, after, o => code = [] ∧ after = .scheduling ∧
      o = .inRuntime [parent] none

section Routines

attribute [local simp] Typed Instr.readsSlot View.settled View.full After.Owns

variable {w victim : WorkerId} {t cl res child parent : ClosureId}

theorem typed_execute : Typed w (execute w t) .user (.inRuntime [] (some ⟨t, .running, true⟩)) := by
  simp [execute, Owned.inRuntime, Owned.idle]

theorem typed_giveUp (hne : victim ≠ w) : Typed w (giveUp victim cl) .scheduling
    (.thief victim (.running cl) [cl] none false) := by
  simp [giveUp, Owned.thief, Owned.idle, hne]

theorem typed_finishPromote (hne : victim ≠ w) : Typed w (finishPromote victim res)
    (.doWhatItSays res)
    (.thief victim (.running child) [res] (some ⟨res, .running, true⟩) false) := by
  simp [finishPromote, Owned.thief, Owned.inRuntime, hne]

theorem typed_stealOwn (hne : victim ≠ w) :
    Typed w [.xtract victim, .promoteChild victim cl] .scheduling
      (.thief victim (.running cl) [cl] none true) := by
  simp [Owned.thief, hne]

theorem typed_addCallee (hne : victim ≠ w) :
    Typed w [.xtract victim, .unlock cl, .lock res, .promoteChild victim res] .scheduling
      (.thief victim (.parked cl) [cl] (some ⟨res, .running, true⟩) true) := by
  simp [Owned.thief, hne]

theorem typed_suspendAtSync :
    Typed w (suspendAtSync w t) .scheduling (.inUser w (.running t) [t]) := by
  simp [suspendAtSync, Owned.inUser, Owned.idle]

theorem typed_unlockBoth : Typed w (unlockBoth w t) .user (.inUser w (.running t) [t]) := by
  simp [unlockBoth, Owned.inUser, Owned.idle]

theorem typed_setReturn :
    Typed w (setReturn w t parent) .user (.inUser w (.running t) [t]) := by
  simp [setReturn, Owned.inUser, Owned.idle]

theorem typed_returnToRuntime :
    Typed w (returnToRuntime w t) (.doWhatItSays t) (.inUser w (.running t) [t]) := by
  simp [returnToRuntime, Owned.inUser, Owned.inRuntime]

theorem typed_returnAgain : Typed w (returnAgain w t) (.doWhatItSays t) (.idle true) := by
  simp [returnAgain, Owned.idle, Owned.inRuntime]

theorem typed_closureReturn : Typed w (closureReturn child parent) .scheduling
    (.inRuntime [] (some ⟨child, .returning, true⟩)) := by
  simp [closureReturn, Owned.inRuntime]

theorem typed_reduceFirst : Typed w (reduceFirst child parent)
    (.doWhatItSays child) (.inRuntime [child, parent] (some ⟨child, .returning, true⟩)) := by
  simp [reduceFirst, Owned.inRuntime]

theorem typed_finishReturn : Typed w (finishReturn child parent)
    .scheduling (.inRuntime [child, parent] (some ⟨child, .returning, true⟩)) := by
  simp [finishReturn, Owned.inRuntime]

theorem typed_resumeParent : Typed w (resumeParent parent) (.doWhatItSays parent)
    (.inRuntime [parent] (some ⟨parent, .ready, true⟩)) := by
  simp [resumeParent, Owned.inRuntime]

theorem typed_exitCilkifiedRoot : Typed w (exitCilkifiedRoot w)
    (if w = 0 then .outside else .scheduling) (.idle true) := by
  split_ifs <;> simp [exitCilkifiedRoot, Owned.idle]

end Routines

/-- The owned things of all workers, and which closures their parents count. -/
structure Ghost where
  busy : WorkerId → Option WorkerId
  view : WorkerId → View
  locks : WorkerId → List ClosureId
  hand : WorkerId → Option Held
  home : WorkerId → Bool
  claim : WorkerId → Bool
  ending : WorkerId → Bool
  counted : ClosureId → Bool

def Ghost.owned (g : Ghost) (w : WorkerId) : Owned :=
  ⟨g.busy w, g.view w, g.locks w, g.hand w, g.home w, g.claim w, g.ending w⟩

section Consistency

/-- The parent of a closure, by a spawn or a call. -/
def ChildOf (s : LockState) (cl parent : ClosureId) : Prop :=
  s.spawnParent cl = some parent ∨ s.callParent cl = some parent

/-- A slot that its worker has left. -/
def AtRest (s : LockState) (pn : WorkerId) (home : Bool) : Prop :=
  if home then ∃ cl, s.slot pn = some cl ∧ s.status cl = .running else s.slot pn = none

/-- The slot is as worker `w`, who owns it, sees it. -/
def Sees (s : LockState) (g : Ghost) (w pn : WorkerId) : View → Prop
  | .atRest => AtRest s pn (g.home pn)
  | .empty => s.slot pn = none ∧ (pn ≠ w → g.home pn = true)
  | .running cl => s.slot pn = some cl ∧ s.status cl = .running ∧ (pn ≠ w → g.home pn = true)
  | .returning cl => s.slot pn = some cl ∧ s.status cl = .returning ∧ pn = w
  | .parked cl => s.slot pn = some cl ∧ s.status cl = .suspended ∧ cl ∈ g.locks w ∧
      (pn ≠ w → g.home pn = true) ∧
      ∀ d, g.counted d = true → s.callParent d = some cl → ∃ h, g.hand w = some h ∧ h.closure = d
  | .callParent cl => s.slot pn = some cl ∧ s.status cl = .suspended ∧ pn = w ∧
      ∃ t status, g.hand w = some ⟨t, status, true⟩ ∧ s.callParent t = some cl

/-- Whether the closure is counted in the join counter of the parent. -/
def countsFor (s : LockState) (counted : ClosureId → Bool) (parent cl : ClosureId) : Bool :=
  counted cl && (s.spawnParent cl == some parent || s.callParent cl == some parent)

/-- The root closure is nowhere between two regions. -/
def RootIdle (s : LockState) (g : Ghost) : Prop :=
  (∀ v, s.slot v ≠ some rootClosure) ∧ (∀ w h, g.hand w = some h → h.closure ≠ rootClosure) ∧
    s.status rootClosure ≠ .suspended

/-- The closure is in a slot, in the hands of a worker or suspended. -/
def Alive (slot : WorkerId → Option ClosureId) (hand : WorkerId → Option Held)
    (status : ClosureId → ClosureStatus) (cl : ClosureId) : Prop :=
  (∃ v, slot v = some cl) ∨ (∃ w status, hand w = some ⟨cl, status, true⟩) ∨
    status cl = .suspended

/-- Each thing is owned by one worker at most, and the state is what the owners know. -/
structure Consistent (s : LockState) (g : Ghost) : Prop where
  busy : ∀ v w, s.busyOwner v = some w ↔ g.busy w = some v
  locks : ∀ cl w, s.mutexOwner cl = some w ↔ cl ∈ g.locks w
  nodup : ∀ w, (g.locks w).Nodup
  free : ∀ v, s.busyOwner v = none → AtRest s v (g.home v)
  sees : ∀ v w, g.busy w = some v → Sees s g w v (g.view w)
  claims : ∀ v w, g.busy w = some v → g.claim w = true →
    s.deque v ≠ [] ∧ s.claimed v = true ∧ g.home v = true
  owner : ∀ v cl, s.slot v = some cl → s.owner cl = some v
  hand : ∀ w h, g.hand w = some h → s.status h.closure = h.status ∧ h.status ≠ .suspended ∧
    ∀ v, s.slot v ≠ some h.closure
  handUnique : ∀ w u h k, g.hand w = some h → g.hand u = some k → h.closure = k.closure → w = u
  live : ∀ cl parent, ChildOf s cl parent → Alive s.slot g.hand s.status cl →
    g.counted cl = true
  callee : ∀ cl parent, g.counted cl = true → s.callParent cl = some parent →
    s.status parent = .suspended
  calleeUnique : ∀ cl d parent, g.counted cl = true → g.counted d = true →
    s.callParent cl = some parent → s.callParent d = some parent → cl = d
  join : ∀ cl, s.joinCounter cl = tally s.numClosures (countsFor s g.counted cl) id
  pos : 0 < s.numClosures
  slotLt : ∀ v cl, s.slot v = some cl → cl < s.numClosures
  handLt : ∀ w h, g.hand w = some h → h.closure < s.numClosures
  parentLt : ∀ cl parent, ChildOf s cl parent → parent < cl ∧ cl < s.numClosures
  lockLt : ∀ w, ∀ cl ∈ g.locks w, cl < s.numClosures
  parentUnique : ∀ cl p q, ChildOf s cl p → ChildOf s cl q → p = q
  countedLt : ∀ cl, g.counted cl = true → cl < s.numClosures
  suspendedLt : ∀ cl, s.status cl = .suspended → cl < s.numClosures
  idle : (s.cilkified = false ∨ ∃ w, g.ending w = true) → RootIdle s g
  endingCilkified : ∀ w, g.ending w = true → s.cilkified = true
  endingUnique : ∀ w u, g.ending w = true → g.ending u = true → w = u

/-- What a statement relies on, and no other worker changes. -/
def Instr.Fact (s : LockState) (w : WorkerId) : Instr → Prop
  | .lock cl => cl < s.numClosures
  | .takeTables child parent | .decrementJoin child parent => s.spawnParent child = some parent
  | .setCallParent t callParent | .removeCallee t callParent => s.callParent t = some callParent
  | .clearSlot => s.deque w = [] ∧ s.slot w = some rootClosure
  | .returnAgain t => s.deque w = [] ∧ s.slot w = some t
  | _ => True

/-- Every worker may execute its code with what it owns. -/
structure Owning (s : LockState) (g : Ghost) : Prop where
  consistent : Consistent s g
  typed : ∀ w, Typed w (s.code w) (s.after w) (g.owned w)
  facts : ∀ w, ∀ i ∈ s.code w, i.Fact s w

end Consistency

end Cheetah
