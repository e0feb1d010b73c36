import Mathlib.Algebra.Group.Pi.Basic
import Mathlib.Tactic.Common

/-! Fork-join computations over reducers, their serial execution, and local tables as maps from
reducers to views. -/
namespace Cheetah

/-- What a frame has left to run. Every function and every spawn helper syncs before it
returns, so `done` is an implicit sync and a return. -/
inductive Code (κ V : Type) where
  | done
  /-- The strand appends an update to its view of a reducer. -/
  | update (reducer : κ) (u : V) (rest : Code κ V)
  | spawn (child rest : Code κ V)
  | call (callee rest : Code κ V)
  | sync (rest : Code κ V)

/-- A local table: the views of the reducers that have one. -/
abbrev ViewMap (κ V : Type) := κ → Option V

section Views

variable {κ V : Type}

/-- Where a frame continues after a sync. -/
def Code.afterSync : Code κ V → Code κ V
  | .sync rest => rest
  | code => code

def Code.atSync : Code κ V → Bool
  | .sync _ | .done => true
  | _ => false

variable [Monoid V]

/-- The tables are null or finite maps; the views of a reducer in both are reduced, the left
one first. -/
def mergeTwoHts : Option (ViewMap κ V) → Option (ViewMap κ V) → Option (ViewMap κ V)
  | none, right => right
  | some left, none => some left
  | some left, some right => some fun key =>
    match left key, right key with
    | none, view => view
    | some view, none => some view
    | some a, some b => some (a * b)

/-- What a table contributes to each reducer: a missing view counts as the identity. -/
def viewOf (table : Option (ViewMap κ V)) : κ → V :=
  fun key => (table.bind (· key)).getD 1

@[simp] theorem viewOf_none : viewOf (none : Option (ViewMap κ V)) = 1 := rfl

theorem viewOf_mergeTwoHts (left right : Option (ViewMap κ V)) :
    viewOf (mergeTwoHts left right) = viewOf left * viewOf right := by
  cases left with
  | none => simp [mergeTwoHts]
  | some l =>
    cases right with
    | none => simp [mergeTwoHts]
    | some r =>
      funext key
      cases hl : l key <;> cases hr : r key <;> simp [mergeTwoHts, viewOf, hl, hr]

variable [DecidableEq κ]

/-- The lookup makes an identity view if there is none; the strand then appends to it. -/
def updateView (table : Option (ViewMap κ V)) (reducer : κ) (u : V) : Option (ViewMap κ V) :=
  some (Function.update (table.getD fun _ => none) reducer (some (viewOf table reducer * u)))

theorem viewOf_updateView (table : Option (ViewMap κ V)) (reducer : κ) (u : V) :
    viewOf (updateView table reducer u) = viewOf table * Pi.mulSingle reducer u := by
  funext key
  by_cases hkey : key = reducer
  · subst hkey
    simp [updateView, viewOf]
  · cases table <;> simp [updateView, viewOf, hkey]

/-- The views after the serial execution, which ignores spawns and syncs. -/
def Code.serial : Code κ V → (κ → V) → κ → V
  | .done, views => views
  | .update reducer u rest, views =>
    rest.serial (Function.update views reducer (views reducer * u))
  | .spawn child rest, views => rest.serial (child.serial views)
  | .call callee rest, views => rest.serial (callee.serial views)
  | .sync rest, views => rest.serial views

/-- All updates of a computation, multiplied in serial order. -/
def Code.word : Code κ V → κ → V
  | .done => 1
  | .update reducer u rest => Pi.mulSingle reducer u * rest.word
  | .spawn child rest => child.word * rest.word
  | .call callee rest => callee.word * rest.word
  | .sync rest => rest.word

theorem Code.serial_eq_word (code : Code κ V) (views : κ → V) :
    code.serial views = views * code.word := by
  induction code generalizing views with
  | done => simp [serial, word]
  | update reducer u rest ih =>
    have happend : Function.update views reducer (views reducer * u) =
        views * Pi.mulSingle reducer u := by
      funext key
      by_cases hkey : key = reducer
      · subst hkey
        simp
      · simp [hkey]
    rw [serial, word, ih, happend, mul_assoc]
  | spawn child rest ihc ihr => rw [serial, word, ihr, ihc, mul_assoc]
  | call callee rest ihc ihr => rw [serial, word, ihr, ihc, mul_assoc]
  | sync rest ih => rw [serial, word, ih]

theorem Code.word_afterSync (code : Code κ V) : code.afterSync.word = code.word := by
  cases code <;> rfl

end Views

end Cheetah
