import Cheetah.Bracketing
import Cheetah.HyperTableMerge

/-! `closure_exception::reduce`: one exception is kept, and the place of the last strand. -/
namespace Cheetah

/-- A view of the exception reducer; a null pointer is `none`. -/
structure ClosureException where
  exn : Option Address
  reraiseCfa : Option Address
  parentRsp : Option Address
  throwingFiber : Option Address
deriving DecidableEq

inductive ExceptionEvent where
  | deleteException (exn : Address)
  | deallocateToPool (fiber : Address)
deriving DecidableEq

def ExceptionEvent.deleted : ExceptionEvent → Option Address
  | deleteException exn => some exn
  | deallocateToPool _ => none

def ExceptionEvent.returned : ExceptionEvent → Option Address
  | deleteException _ => none
  | deallocateToPool fiber => some fiber

/-- `closure_exception::reduce`: both views as it leaves them, and what it releases. -/
def ClosureException.reduce (lex rex : ClosureException) :
    ClosureException × ClosureException × List ExceptionEvent :=
  let (lex, rex) : ClosureException × ClosureException :=
    if lex.exn = none then ({ lex with exn := rex.exn }, { rex with exn := none }) else (lex, rex)
  let (rex, deletes) : ClosureException × List ExceptionEvent :=
    match rex.exn with
    | some exn => ({ rex with exn := none }, [.deleteException exn])
    | none => (rex, [])
  let lex := { lex with reraiseCfa := rex.reraiseCfa, parentRsp := rex.parentRsp }
  let returns : List ExceptionEvent :=
    match lex.throwingFiber with
    | some fiber => [.deallocateToPool fiber]
    | none => []
  ({ lex with throwingFiber := rex.throwingFiber }, rex, deletes ++ returns)

/-- `bucket::reduce` on two exception views: the right view is destroyed after the reduce. -/
def ClosureException.reduceViews (lex rex : ClosureException) :
    ClosureException × List ExceptionEvent :=
  ((lex.reduce rex).1, (lex.reduce rex).2.2)

namespace ClosureException

variable (lex rex : ClosureException)

theorem reduceViews_exn : (lex.reduceViews rex).1.exn = lex.exn.or rex.exn := by
  cases hl : lex.exn <;> cases hr : rex.exn <;> simp [reduceViews, reduce, hl, hr]

/-- The right-holder fields. -/
theorem reduceViews_holder : (lex.reduceViews rex).1.reraiseCfa = rex.reraiseCfa ∧
    (lex.reduceViews rex).1.parentRsp = rex.parentRsp ∧
    (lex.reduceViews rex).1.throwingFiber = rex.throwingFiber := by
  cases hl : lex.exn <;> cases hr : rex.exn <;> simp [reduceViews, reduce, hl, hr]

theorem reduceViews_deleted : (lex.reduceViews rex).2.filterMap ExceptionEvent.deleted =
    if lex.exn = none then [] else rex.exn.toList := by
  cases hl : lex.exn <;> cases hr : rex.exn <;> cases hf : lex.throwingFiber <;>
    simp [reduceViews, reduce, hl, hr, hf, ExceptionEvent.deleted]

theorem reduceViews_returned : (lex.reduceViews rex).2.filterMap ExceptionEvent.returned =
    lex.throwingFiber.toList := by
  cases hl : lex.exn <;> cases hr : rex.exn <;> cases hf : lex.throwingFiber <;>
    simp [reduceViews, reduce, hl, hr, hf, ExceptionEvent.returned, List.filterMap_cons]

theorem reduceViews_keepsExns :
    ((lex.reduceViews rex).1.exn.toList ++
      (lex.reduceViews rex).2.filterMap ExceptionEvent.deleted).Perm
        (lex.exn.toList ++ rex.exn.toList) := by
  rw [reduceViews_exn, reduceViews_deleted]
  cases lex.exn with
  | none => simp
  | some exn => simp

theorem reduceViews_keepsFibers :
    ((lex.reduceViews rex).1.throwingFiber.toList ++
      (lex.reduceViews rex).2.filterMap ExceptionEvent.returned).Perm
        (lex.throwingFiber.toList ++ rex.throwingFiber.toList) := by
  rw [reduceViews_returned, (reduceViews_holder lex rex).2.2]
  exact List.perm_append_comm

end ClosureException

theorem cons_tail_eq {β : Type*} (l : List β) : l.head?.toList ++ l.tail = l := by
  cases l <;> rfl

/-- What the views hold, with the part of the last one apart. -/
theorem flatMap_dropLast {α β : Type*} (f : α → Option β) {l : List α} {v : α}
    (hv : l.getLast? = some v) :
    l.flatMap (fun x => (f x).toList) = l.dropLast.filterMap f ++ (f v).toList := by
  rw [← List.dropLast_append_getLast? v hv, List.flatMap_append, List.dropLast_concat,
    List.filterMap_eq_flatMap_toList, List.flatMap_singleton]

/-- The combined view of the exception reducer is the same for every bracketing: the first exception
and the place of the last view; the other exceptions are deleted once and the other throwing fibers
go back to the pool once. -/
theorem exceptionViews_selected (views : List ClosureException)
    (b : Bracketing ClosureException) (hb : b.leaves = views) :
    let res := b.combine ClosureException.reduceViews
    res.1.exn = views.findSome? ClosureException.exn ∧
    (∀ v, views.getLast? = some v → res.1.reraiseCfa = v.reraiseCfa ∧
      res.1.parentRsp = v.parentRsp ∧ res.1.throwingFiber = v.throwingFiber) ∧
    (res.2.filterMap ExceptionEvent.deleted).Perm (views.filterMap ClosureException.exn).tail ∧
    (res.2.filterMap ExceptionEvent.returned).Perm
      (views.dropLast.filterMap ClosureException.throwingFiber) := by
  intro res
  have hexn : res.1.exn = views.findSome? ClosureException.exn := by
    rw [← hb]
    refine b.combine_observe _ (fun l => l.findSome? ClosureException.exn) (fun x => by simp)
      (fun x y xs ys _ hx hy => ?_)
    rw [ClosureException.reduceViews_exn, List.findSome?_append, hx, hy]
  have hholder : some (res.1.reraiseCfa, res.1.parentRsp, res.1.throwingFiber) =
      views.getLast?.map fun v => (v.reraiseCfa, v.parentRsp, v.throwingFiber) := by
    rw [← hb]
    refine b.combine_observe (fun v : ClosureException =>
        some (v.reraiseCfa, v.parentRsp, v.throwingFiber))
      (fun l => l.getLast?.map fun v => (v.reraiseCfa, v.parentRsp, v.throwingFiber))
      (fun _ => rfl) (fun x y xs ys hne _ hy => ?_)
    obtain ⟨hcfa, hrsp, hfiber⟩ := x.reduceViews_holder y
    rw [hcfa, hrsp, hfiber, hy, List.getLast?_append_of_ne_nil _ hne]
  have hlast : ∀ v, views.getLast? = some v → res.1.reraiseCfa = v.reraiseCfa ∧
      res.1.parentRsp = v.parentRsp ∧ res.1.throwingFiber = v.throwingFiber := by
    intro v hv
    rw [hv, Option.map_some, Option.some.injEq, Prod.mk.injEq, Prod.mk.injEq] at hholder
    exact hholder
  refine ⟨hexn, hlast, ?_, ?_⟩
  · have hall := b.combine_conserves (fun v => v.exn.toList) ExceptionEvent.deleted
      ClosureException.reduceViews_keepsExns
    rw [hb, ← List.filterMap_eq_flatMap_toList, ← cons_tail_eq (views.filterMap _),
      List.head?_filterMap, ← hexn] at hall
    exact (List.perm_append_left_iff _).mp hall
  · obtain ⟨v, hv⟩ : ∃ v, views.getLast? = some v :=
      ⟨_, List.getLast?_eq_some_getLast (hb ▸ b.leaves_ne_nil)⟩
    have hall := b.combine_conserves (fun v => v.throwingFiber.toList) ExceptionEvent.returned
      ClosureException.reduceViews_keepsFibers
    rw [hb, flatMap_dropLast _ hv, ← (hlast v hv).2.2] at hall
    exact (List.perm_append_left_iff _).mp (hall.trans List.perm_append_comm)

/-- The right two of three views are reduced first, and the exception of the second one wins. -/
theorem exceptionViews_selected_three :
    let v₁ : ClosureException := ⟨none, none, some 1, some 7⟩
    let v₂ : ClosureException := ⟨some 40, none, some 2, some 8⟩
    let v₃ : ClosureException := ⟨some 50, some 9, some 3, none⟩
    let res := (Bracketing.node (.leaf v₁) (.node (.leaf v₂) (.leaf v₃))).combine
      ClosureException.reduceViews
    res.1.exn = some 40 ∧ (res.2.filterMap ExceptionEvent.deleted).Perm [50] ∧
      (res.2.filterMap ExceptionEvent.returned).Perm [7, 8] := by
  intro v₁ v₂ v₃ res
  obtain ⟨hexn, -, hdeleted, hreturned⟩ := exceptionViews_selected [v₁, v₂, v₃]
    (.node (.leaf v₁) (.node (.leaf v₂) (.leaf v₃))) rfl
  exact ⟨hexn, hdeleted, hreturned⟩

end Cheetah
