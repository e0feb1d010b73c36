import Cheetah.ReducerActions
import Cheetah.RegionOutcome

/-! The sections of the scheduler as actions on the slots of the tables. -/
namespace Cheetah
open Function (update)

variable {V : Type}

/-- The tables of a closure that is not alive do not count. -/
def whileAlive (alive : Bool) (table : Option (ViewMap Key V)) : Option (ViewMap Key V) :=
  if alive then table else none

def Runtime.tableAt (s : Runtime Key V) : TableSlot → Option (ViewMap Key V)
  | .hyperTable w => s.hyperTable w
  | .lht w => s.lht w
  | .rht w => s.rht w
  | .rightHt c => whileAlive (s.live c) (s.rightHt c)
  | .childHt c => whileAlive (s.live c) (s.childHt c)
  | .userHt c => whileAlive (s.live c) (s.userHt c)

/-- What `lht_ptr` points to in `Closure_return`. -/
def Runtime.leftSlot (s : Runtime Key V) (parent child : ClosureId) : TableSlot :=
  match s.leftSib child with
  | some left => .rightHt left
  | none => .childHt parent

variable [Monoid V]

/-- What each section does to the tables, in the order of the source. -/
inductive TableSteps : {s s' : Runtime Key V} → SchedStep s s' → List (TableAction V) → Prop
  | update {s w t f below reducer u rest} (newView base : Address) (hw hstack hcode) :
      TableSteps (@SchedStep.update Key V _ _ s w t f below reducer u rest hw hstack hcode)
        [.update (.hyperTable w) reducer newView base u]
  | enterFrame {s w t f below callee rest} (hw hstack hcode) :
      TableSteps (@SchedStep.enterFrame Key V _ _ s w t f below callee rest hw hstack hcode) []
  | detach {s w t f below child rest rsp} (hw hstack hcode) :
      TableSteps (@SchedStep.detach Key V _ _ s w t f below child rest rsp hw hstack hcode) []
  | leaveFrame {s w t f below} (hw hstack hcode hsynched hdetached hlast hstolen) :
      TableSteps (@SchedStep.leaveFrame Key V _ _ s w t f below hw hstack hcode hsynched hdetached
        hlast hstolen) []
  | leaveFrameHelper {s w t f below parents parent} (hw hstack hcode hsynched hdetached hdeque) :
      TableSteps (@SchedStep.leaveFrameHelper Key V _ _ s w t f below parents parent hw hstack
        hcode hsynched hdetached hdeque) []
  | exceptionHandler {s w t f below} (hw hstack hcode hsynched hdetached hdeque) :
      TableSteps (@SchedStep.exceptionHandler Key V _ _ s w t f below hw hstack hcode hsynched
        hdetached hdeque) []
  | syncFast {s w t f below rest} (hw hstack hcode hsynched) :
      TableSteps (@SchedStep.syncFast Key V _ _ s w t f below rest hw hstack hcode hsynched) []
  | suspendAtSync {s w t f below rsp} (hw hstack hcode hunsynched hchildren) :
      TableSteps (@SchedStep.suspendAtSync Key V _ _ s w t f below rsp hw hstack hcode hunsynched
        hchildren) [.move (.hyperTable w) (.userHt t)]
  | passSync {s w t f below rsp} (hw hstack hcode hunsynched hchildren) :
      TableSteps (@SchedStep.passSync Key V _ _ s w t f below rsp hw hstack hcode hunsynched
        hchildren) [.move (.childHt t) (.lht w)]
  | doReductions {s w t f} (hw hframe hreduction) :
      TableSteps (@SchedStep.doReductions Key V _ _ s w t f hw hframe hreduction)
        [.merge (.lht w) (.hyperTable w), .merge (.lht w) (.rht w),
          .move (.lht w) (.hyperTable w)]
  | doReductionsForReturn {s w t f} (hw hframe hreduction) :
      TableSteps (@SchedStep.doReductionsForReturn Key V _ _ s w t f hw hframe hreduction)
        [.merge (.lht w) (.hyperTable w), .merge (.lht w) (.rht w),
          .move (.lht w) (.hyperTable w)]
  | stealStolen {s w victim cl f parents above below} (hw hvictim hdeque hstack hframe) :
      TableSteps (@SchedStep.stealStolen Key V _ _ s w victim cl f parents above below hw hvictim
        hdeque hstack hframe) []
  | stealHelper {s w victim cl f parents above below} (hw hvictim hdeque hstack hframe hdetached) :
      TableSteps (@SchedStep.stealHelper Key V _ _ s w victim cl f parents above below hw hvictim
        hdeque hstack hframe hdetached) []
  | stealCalled {s w victim cl f parents above below} (hw hvictim hdeque hstack hframe hdetached) :
      TableSteps (@SchedStep.stealCalled Key V _ _ s w victim cl f parents above below hw hvictim
        hdeque hstack hframe hdetached) []
  | resumeStolen {s w t f rsp} (hw hframe hsteal) :
      TableSteps (@SchedStep.resumeStolen Key V _ _ s w t f rsp hw hframe hsteal) []
  | resumeSync {s w t} (hw hsteal) :
      TableSteps (@SchedStep.resumeSync Key V _ _ s w t hw hsteal) []
  | takeTables {s w t parent} (hw hparent htables) :
      TableSteps (@SchedStep.takeTables Key V _ _ s w t parent hw hparent htables)
        [.move (.rightHt t) (.rht w), .move (s.leftSlot parent t) (.lht w)]
  | returnChild {s w t parent} (hw hparent hleft hright hsteal) :
      TableSteps (@SchedStep.returnChild Key V _ _ s w t parent hw hparent hleft hright hsteal)
        [.move (.hyperTable w) (s.leftSlot parent t)]
  | resumeParent {s w t parent} (hw hparent hleft hright hsteal) :
      TableSteps (@SchedStep.resumeParent Key V _ _ s w t parent hw hparent hleft hright hsteal)
        [.move (.hyperTable w) (s.leftSlot parent t), .move (.childHt parent) (.lht w),
          .move (.userHt parent) (.hyperTable w)]
  | setReturn {s w t f below parent}
      (hw hstack hcode hsynched hdetached hlast hstolen hparent) :
      TableSteps (@SchedStep.setReturn Key V _ _ s w t f below parent hw hstack hcode hsynched
        hdetached hlast hstolen hparent) []
  | exitRoot {s w t f below} (hw hstack hcode hsynched hlast) :
      TableSteps (@SchedStep.exitRoot Key V _ _ s w t f below hw hstack hcode hsynched hlast)
        (if w = 0 then [] else [.move (.hyperTable w) (.hyperTable 0)])

/-- A lookup may need memory. -/
def TableAction.Allocates {W : Type} : TableAction W → Prop
  | .update _ _ _ _ _ => True
  | .move _ _ | .merge _ _ => False

/-- Every section has its actions, wherever the memory for a new view is. -/
theorem TableSteps.total {s s' : Runtime Key V} (hs : SchedStep s s') (newView base : Address) :
    ∃ actions : List (TableAction V), TableSteps hs actions ∧
      ((∃ slot key u, actions = [.update slot key newView base u]) ∨
        ∀ action ∈ actions, ¬ action.Allocates) := by
  cases hs with
  | update hw hstack hcode =>
    exact ⟨_, .update newView base hw hstack hcode, .inl ⟨_, _, _, rfl⟩⟩
  | enterFrame hw hstack hcode =>
    exact ⟨_, .enterFrame hw hstack hcode, .inr (by simp [TableAction.Allocates])⟩
  | detach _ hw hstack hcode =>
    exact ⟨_, .detach hw hstack hcode, .inr (by simp [TableAction.Allocates])⟩
  | leaveFrame hw hstack hcode hsynched hdetached hlast hstolen =>
    exact ⟨_, .leaveFrame hw hstack hcode hsynched hdetached hlast hstolen,
      .inr (by simp [TableAction.Allocates])⟩
  | leaveFrameHelper hw hstack hcode hsynched hdetached hdeque =>
    exact ⟨_, .leaveFrameHelper hw hstack hcode hsynched hdetached hdeque,
      .inr (by simp [TableAction.Allocates])⟩
  | exceptionHandler hw hstack hcode hsynched hdetached hdeque =>
    exact ⟨_, .exceptionHandler hw hstack hcode hsynched hdetached hdeque,
      .inr (by simp [TableAction.Allocates])⟩
  | syncFast hw hstack hcode hsynched =>
    exact ⟨_, .syncFast hw hstack hcode hsynched, .inr (by simp [TableAction.Allocates])⟩
  | suspendAtSync _ hw hstack hcode hunsynched hchildren =>
    exact ⟨_, .suspendAtSync hw hstack hcode hunsynched hchildren,
      .inr (by simp [TableAction.Allocates])⟩
  | passSync _ hw hstack hcode hunsynched hchildren =>
    exact ⟨_, .passSync hw hstack hcode hunsynched hchildren,
      .inr (by simp [TableAction.Allocates])⟩
  | doReductions hw hframe hreduction =>
    exact ⟨_, .doReductions hw hframe hreduction, .inr (by simp [TableAction.Allocates])⟩
  | doReductionsForReturn hw hframe hreduction =>
    exact ⟨_, .doReductionsForReturn hw hframe hreduction, .inr (by simp [TableAction.Allocates])⟩
  | stealStolen hw hvictim hdeque hstack hframe =>
    exact ⟨_, .stealStolen hw hvictim hdeque hstack hframe, .inr (by simp [TableAction.Allocates])⟩
  | stealHelper hw hvictim hdeque hstack hframe hdetached =>
    exact ⟨_, .stealHelper hw hvictim hdeque hstack hframe hdetached,
      .inr (by simp [TableAction.Allocates])⟩
  | stealCalled hw hvictim hdeque hstack hframe hdetached =>
    exact ⟨_, .stealCalled hw hvictim hdeque hstack hframe hdetached,
      .inr (by simp [TableAction.Allocates])⟩
  | resumeStolen _ hw hframe hsteal =>
    exact ⟨_, .resumeStolen hw hframe hsteal, .inr (by simp [TableAction.Allocates])⟩
  | resumeSync hw hsteal =>
    exact ⟨_, .resumeSync hw hsteal, .inr (by simp [TableAction.Allocates])⟩
  | takeTables hw hparent htables =>
    exact ⟨_, .takeTables hw hparent htables, .inr (by simp [TableAction.Allocates])⟩
  | returnChild hw hparent hleft hright hsteal =>
    exact ⟨_, .returnChild hw hparent hleft hright hsteal, .inr (by simp [TableAction.Allocates])⟩
  | resumeParent hw hparent hleft hright hsteal =>
    exact ⟨_, .resumeParent hw hparent hleft hright hsteal, .inr (by simp [TableAction.Allocates])⟩
  | setReturn hw hstack hcode hsynched hdetached hlast hstolen hparent =>
    exact ⟨_, .setReturn hw hstack hcode hsynched hdetached hlast hstolen hparent,
      .inr (by simp [TableAction.Allocates])⟩
  | exitRoot hw hstack hcode hsynched hlast =>
    exact ⟨_, .exitRoot hw hstack hcode hsynched hlast,
      .inr (by split_ifs <;> simp [TableAction.Allocates])⟩

/-- The tables after a list of actions. -/
def TableAction.onAll (actions : List (TableAction V)) (T : TableSlot → Option (ViewMap Key V)) :
    TableSlot → Option (ViewMap Key V) :=
  actions.foldl (fun T action => action.onViews T) T

/-- The pointers that an action writes are null before, and it does not merge a table into
itself. -/
def TableAction.Clear (T : TableSlot → Option (ViewMap Key V)) : TableAction V → Prop
  | .update _ _ _ _ _ => True
  | .move source target => source ≠ target ∧ T target = none
  | .merge left right => left ≠ right

def TableAction.ClearAll : (TableSlot → Option (ViewMap Key V)) → List (TableAction V) → Prop
  | _, [] => True
  | T, action :: rest => action.Clear T ∧ ClearAll (action.onViews T) rest

section Slots

variable {s s' : Runtime Key V} {total : Key → V} {value : ClosureId → Key → V}

omit [Monoid V] in
@[simp] theorem whileAlive_true (table : Option (ViewMap Key V)) :
    whileAlive true table = table := rfl

omit [Monoid V] in
@[simp] theorem whileAlive_false (table : Option (ViewMap Key V)) :
    whileAlive false table = none := rfl

omit [Monoid V] in
@[simp] theorem whileAlive_none (alive : Bool) :
    whileAlive alive (none : Option (ViewMap Key V)) = none := ite_self _

omit [Monoid V] in
/-- A new closure has no tables. -/
theorem whileAlive_create {live : ClosureId → Bool}
    {table : ClosureId → Option (ViewMap Key V)} {k : ClosureId} (hk : ¬ live k) (c : ClosureId) :
    whileAlive (update live k true c) (update table k none c) = whileAlive (live c) (table c) := by
  by_cases hc : c = k
  · rw [hc, Function.update_self, Function.update_self, Bool.eq_false_of_not_eq_true hk]
    rfl
  · rw [Function.update_of_ne hc, Function.update_of_ne hc]

omit [Monoid V] in
/-- A closure that ends has no tables either. -/
theorem whileAlive_destroy {live : ClosureId → Bool}
    {table : ClosureId → Option (ViewMap Key V)} {k : ClosureId} (hk : table k = none)
    (c : ClosureId) :
    whileAlive (update live k false c) (table c) = whileAlive (live c) (table c) := by
  by_cases hc : c = k
  · rw [hc, hk, whileAlive_none, whileAlive_none]
  · rw [Function.update_of_ne hc]

omit [Monoid V] in
theorem tableAt_leftSlot {parent t : ClosureId} (hlive : s.live (s.leftNeighbour parent t)) :
    s.tableAt (s.leftSlot parent t) = s.leftHt parent t := by
  rw [Runtime.leftNeighbour] at hlive
  rw [Runtime.leftSlot, Runtime.leftHt]
  cases hleft : s.leftSib t with
  | none =>
    rw [hleft] at hlive
    exact (congrArg (whileAlive · (s.childHt parent)) hlive).trans rfl
  | some k =>
    rw [hleft] at hlive
    exact (congrArg (whileAlive · (s.rightHt k)) hlive).trans rfl

omit [Monoid V] in
theorem leftSlot_ne (w : WorkerId) (parent t : ClosureId) :
    TableSlot.hyperTable w ≠ s.leftSlot parent t := by
  rw [Runtime.leftSlot]
  cases s.leftSib t <;> simp

/-- A returned child has left its table to its neighbour. -/
theorem tableAt_returnChild (hi : SchedInv s) {w : WorkerId} {t parent : ClosureId}
    (hw : s.phase w = .returning t) (hparent : s.spawnParent t = some parent)
    (hright : s.rightHt t = none) : (s.returnChild w parent t).tableAt =
      TableAction.onAll [(.move (.hyperTable w) (s.leftSlot parent t) : TableAction V)]
        s.tableAt := by
  obtain ⟨hneighbour, htn⟩ := hi.leftNeighbour_spec hw hparent
  have hchildHt := (hi.frames.returning_childless hi.hold hw).2.1
  have huserHt := hi.userHt_none (w := w) (by rw [hw]; rfl)
  rw [Runtime.leftNeighbour] at hneighbour htn
  rw [Runtime.leftSlot]
  cases hleft : s.leftSib t with
  | none =>
    rw [hleft, Option.getD_none] at hneighbour htn
    funext slot
    cases slot <;> simp [TableAction.onAll, TableAction.onViews, Runtime.tableAt,
      Runtime.returnChild, Runtime.setLeftHt, Runtime.returnFiber, Runtime.removeChild,
      Runtime.destroyClosure, storeAt, hleft, Function.update_apply]
    all_goals grind [whileAlive]
  | some k =>
    rw [hleft, Option.getD_some] at hneighbour htn
    funext slot
    cases slot <;> simp [TableAction.onAll, TableAction.onViews, Runtime.tableAt,
      Runtime.returnChild, Runtime.setLeftHt, Runtime.returnFiber, Runtime.removeChild,
      Runtime.destroyClosure, storeAt, hleft, Function.update_apply]
    all_goals grind [whileAlive]

/-- A returning child takes the tables on both sides. -/
theorem tableAt_takeTables (hi : SchedInv s) {w : WorkerId} {t parent : ClosureId}
    (hw : s.phase w = .returning t) (hparent : s.spawnParent t = some parent) :
    (s.takeTables w parent t).tableAt = TableAction.onAll
      [.move (.rightHt t) (.rht w), (.move (s.leftSlot parent t) (.lht w) : TableAction V)]
        s.tableAt := by
  have hlive := (hi.links.parent hi.hold hi.frames hw hparent).1
  obtain ⟨hneighbour, htn⟩ := hi.leftNeighbour_spec hw hparent
  rw [Runtime.leftNeighbour] at hneighbour htn
  rw [Runtime.leftSlot]
  cases hleft : s.leftSib t with
  | none =>
    rw [hleft, Option.getD_none] at hneighbour htn
    funext slot
    cases slot <;> simp [TableAction.onAll, TableAction.onViews, Runtime.tableAt,
      Runtime.takeTables, Runtime.setLeftHt, Runtime.leftHt, Runtime.setupForExecution, storeAt,
      hleft, Function.update_apply]
    all_goals split_ifs <;> simp_all
  | some k =>
    rw [hleft, Option.getD_some] at hneighbour htn
    funext slot
    cases slot <;> simp [TableAction.onAll, TableAction.onViews, Runtime.tableAt,
      Runtime.takeTables, Runtime.setLeftHt, Runtime.leftHt, Runtime.setupForExecution, storeAt,
      hleft, Function.update_apply]
    all_goals split_ifs <;> simp_all

/-- A worker that goes on with the parent takes the tables of the children and of the failed
sync. -/
theorem tableAt_resumeParent (w : WorkerId) {parent : ClosureId} (hlive : s.live parent) :
    (s.resumeParent w parent).tableAt = TableAction.onAll
      [.move (.childHt parent) (.lht w), (.move (.userHt parent) (.hyperTable w) : TableAction V)]
        s.tableAt := by
  funext slot
  cases slot <;> simp [TableAction.onAll, TableAction.onViews, Runtime.tableAt,
    Runtime.resumeParent, Runtime.setupForSync, Runtime.setupForExecution,
    Runtime.deallocateFiber, Function.update_apply]
  all_goals split_ifs <;> simp_all

/-- Between two sections the tables are what the actions say. -/
theorem TableSteps.tableAt (hi : SchedInv s) (hv : ViewInv total s value) {hs : SchedStep s s'}
    {actions : List (TableAction V)} (h : TableSteps hs actions) :
    s'.tableAt = TableAction.onAll actions s.tableAt ∧
      TableAction.ClearAll s.tableAt actions := by
  cases h with
  | @update w t f below reducer u rest newView base hw hstack hcode =>
    refine ⟨?_, trivial, trivial⟩
    funext slot
    cases slot <;> simp [TableAction.onAll, TableAction.onViews, Runtime.tableAt,
      Function.update_apply]
  | enterFrame | detach | leaveFrame | leaveFrameHelper | exceptionHandler | syncFast
  | resumeStolen | resumeSync =>
    refine ⟨?_, trivial⟩
    funext slot
    cases slot <;> rfl
  | @suspendAtSync w t f below rsp hw hstack hcode hunsynched hchildren =>
    have hheld : (s.phase w).closure = some t := by rw [hw]; rfl
    have hlive := hi.hold.live w t hheld
    refine ⟨?_, ⟨by simp, by simp [Runtime.tableAt, hi.userHt_none hheld]⟩, trivial⟩
    funext slot
    cases slot <;> simp [TableAction.onAll, TableAction.onViews, Runtime.tableAt,
      Runtime.suspendAtSync, Runtime.deallocateFiber, Function.update_apply]
    all_goals split_ifs <;> simp_all
  | @passSync w t f below rsp hw hstack hcode hunsynched hchildren =>
    have hheld : (s.phase w).closure = some t := by rw [hw]; rfl
    have hlive := hi.hold.live w t hheld
    have hmerged := (hv.settled w).merged_running (.inl hw)
    refine ⟨?_, ⟨by simp, hmerged.1⟩, trivial⟩
    funext slot
    cases slot <;> simp [TableAction.onAll, TableAction.onViews, Runtime.tableAt, Runtime.passSync,
      Runtime.setupForSync, Runtime.deallocateFiber, Function.update_apply, hmerged, hlive]
    all_goals split_ifs <;> simp_all
  | @doReductions w t f hw hframe hreduction | @doReductionsForReturn w t f hw hframe hreduction =>
    refine ⟨?_, by simp [TableAction.Clear], by simp [TableAction.Clear], ⟨by simp, ?_⟩, trivial⟩
    · funext slot
      cases slot <;> simp [TableAction.onAll, TableAction.onViews, Runtime.tableAt,
        Runtime.doReductions, Function.update_apply]
      all_goals split_ifs <;> simp_all
    · simp [TableAction.onViews]
  | @takeTables w t parent hw hparent htables =>
    have hmerged := (hv.settled w).merged_running (.inr hw)
    refine ⟨tableAt_takeTables hi hw hparent, ⟨by simp, hmerged.2⟩, ⟨?_, ?_⟩, trivial⟩
    · rw [Runtime.leftSlot]
      cases s.leftSib t <;> simp
    · simp [TableAction.onViews, Runtime.tableAt, hmerged.1]
  | stealStolen | stealHelper =>
    refine ⟨?_, trivial⟩
    have hfresh := hi.links.fresh
    funext slot
    cases slot with
    | hyperTable | lht | rht => rfl
    | rightHt c | childHt c | userHt c => exact whileAlive_create hfresh c
  | stealCalled =>
    refine ⟨?_, trivial⟩
    have hfresh := hi.links.fresh
    have hnext : ¬ Function.update s.live s.numClosures true (s.numClosures + 1) := by
      rw [Function.update_of_ne (Nat.succ_ne_self _)]
      exact fun h => Nat.lt_asymm (hi.links.bound _ h) (Nat.lt_succ_self _)
    funext slot
    cases slot with
    | hyperTable | lht | rht => rfl
    | rightHt c | childHt c | userHt c =>
      exact (whileAlive_create hnext c).trans (whileAlive_create hfresh c)
  | @returnChild w t parent hw hparent hleft hright hsteal =>
    have hnull := tableAt_leftSlot (hi.leftNeighbour_spec hw hparent).1
    exact ⟨tableAt_returnChild hi hw hparent hright, ⟨leftSlot_ne _ _ _, hnull.trans hleft⟩,
      trivial⟩
  | @resumeParent w t parent hw hparent hleft hright hsteal =>
    obtain ⟨hlive, hp, hmem, hne⟩ := hi.links.parent hi.hold hi.frames hw hparent
    have hnull := tableAt_leftSlot (hi.leftNeighbour_spec hw hparent).1
    have hmerged := (hv.settled w).merged_running (.inr hw)
    have hret := tableAt_returnChild hi hw hparent hright
    have hstays : (s.returnChild w parent t).live parent := (Function.update_of_ne hne _ _).trans hp
    refine ⟨?_, ⟨leftSlot_ne _ _ _, hnull.trans hleft⟩, ⟨by simp, ?_⟩, ⟨by simp, ?_⟩, trivial⟩
    · rw [tableAt_resumeParent w hstays, hret]
      rfl
    · have hlht : (s.returnChild w parent t).tableAt (.lht w) = none := hmerged.1
      rw [hret] at hlht
      exact hlht
    · have htable : (s.returnChild w parent t).tableAt (.hyperTable w) = none :=
        Function.update_self _ _ _
      rw [hret] at htable
      rw [TableAction.onViews]
      simp only [ne_eq, reduceCtorEq, not_false_eq_true, Function.update_of_ne]
      exact htable
  | @setReturn w t f below parent hw hstack hcode hsynched hdetached hlast hstolen hparent =>
    have hheld : (s.phase w).closure = some t := by rw [hw]; rfl
    have hlive := hi.hold.live w t hheld
    obtain ⟨-, hnone⟩ := hi.ended (.setReturn hw hstack hcode hsynched hdetached hlast hstolen
      hparent) hlive (Function.update_self _ _ _)
    refine ⟨?_, trivial⟩
    funext slot
    cases slot with
    | hyperTable | lht | rht => rfl
    | rightHt c => exact whileAlive_destroy hnone.rightHt c
    | childHt c => exact whileAlive_destroy hnone.childHt c
    | userHt c => exact whileAlive_destroy hnone.userHt c
  | @exitRoot w t f below hw hstack hcode hsynched hlast =>
    by_cases hw0 : w = 0
    · simp only [if_pos hw0]
      refine ⟨?_, trivial⟩
      funext slot
      cases slot <;> simp [TableAction.onAll, Runtime.tableAt]
    · have hothers := hi.others_steal (.exitRoot hw hstack hcode hsynched hlast)
        (Function.update_self _ _ _) 0 (Ne.symm hw0)
      simp only [if_neg hw0]
      refine ⟨?_, ⟨by simpa using hw0, (hv.settled 0).idle hothers⟩, trivial⟩
      funext slot
      cases slot <;> simp [TableAction.onAll, TableAction.onViews, Runtime.tableAt,
        Function.update_apply]

end Slots

end Cheetah
