import Cheetah.ForkJoin
import Cheetah.HyperTableInsertOnly

/-! The reducer interface of `cilk2c_inlined.cpp` and `local-reducer-api.cpp` over the views in
memory. A failed assertion, an access to a view that is not alive and a `free` of anything but a
block of `cilk_aligned_alloc` are `none`. -/
namespace Cheetah
open Function (update)

/-- The address through which the strands and the reduce functions use a view. -/
def ReducerData.object (d : ReducerData) : Address :=
  match d.extra with
  | .base r => r
  | .reduceFn _ | .reduceCFn _ => d.view

/-- The views in memory; a null pointer is 0. -/
structure ViewHeap (V : Type) where
  /-- The views that are alive, by the address of the object. -/
  value : Address → Option V
  /-- The blocks of `cilk_aligned_alloc` that were not freed. -/
  block : Address → Bool

namespace ViewHeap

/-- `cilk_aligned_alloc` returns memory that nobody uses, and the view lies in it. -/
structure Fresh {V : Type} (h : ViewHeap V) (d : ReducerData) : Prop where
  view_ne : d.view ≠ 0
  object_ne : d.object ≠ 0
  value_object : h.value d.object = none
  value_view : h.value d.view = none
  block_object : h.block d.object = false
  block_view : h.block d.view = false

variable {V : Type} [Monoid V] (h : ViewHeap V)

/-- A strand's update of the view. -/
def append (a : Address) (u : V) : Option (ViewHeap V) :=
  (h.value a).map fun x => { h with value := update h.value a (some (x * u)) }

/-- A new block, and the view that the identity function makes in it. -/
def construct (d : ReducerData) : ViewHeap V where
  value := update h.value d.object (some 1)
  block := update h.block d.view true

/-- The reduce function of any of the three kinds. -/
def reduce (left right : Address) : Option (ViewHeap V) :=
  match h.value left, h.value right with
  | some x, some y => some { h with value := update h.value left (some (x * y)) }
  | _, _ => none

def apply : ViewEvent → Option (ViewHeap V)
  | .callBase _ left right | .callFn _ _ left right | .callCFn _ _ left right => h.reduce left right
  | .destroy _ r => (h.value r).map fun _ => { h with value := update h.value r none }
  | .free _ view =>
    if view = 0 then some h
    else if h.block view then
      some { value := update h.value view none, block := update h.block view false }
    else none

def applyAll (log : List ViewEvent) : Option (ViewHeap V) := log.foldlM apply h

end ViewHeap

section Lookup

variable {V : Type} [Monoid V]

/-- `get_local_hyper_table` -/
def getLocalHyperTable (cfg : HashConfig) (table : Option (Table ReducerData)) :
    Table ReducerData :=
  table.getD (localHyperTableAlloc cfg)

/-- What the `__cilkrts_insert_new_view` functions share: a new view is put into the table. -/
def insertNewView (cfg : HashConfig) (h : ViewHeap V) (t : Table ReducerData) (key : Key)
    (d : ReducerData) : Option (Address × Table ReducerData × ViewHeap V) :=
  match insertHyperobject cfg t ⟨key, 0, d⟩ with
  | some (t', true) => some (d.object, t', h.construct d)
  | _ => none

/-- `key->identity` returns the subobject `base` of the view. -/
def insertNewView0 (cfg : HashConfig) (h : ViewHeap V) (t : Table ReducerData) (key : Key)
    (newView base : Address) : Option (Address × Table ReducerData × ViewHeap V) :=
  insertNewView cfg h t key ⟨newView, .base base⟩

def insertNewView1 (cfg : HashConfig) (h : ViewHeap V) (t : Table ReducerData) (key : Key)
    (newView reduce : Address) : Option (Address × Table ReducerData × ViewHeap V) :=
  insertNewView cfg h t key ⟨newView, .reduceFn reduce⟩

def insertNewView2 (cfg : HashConfig) (h : ViewHeap V) (t : Table ReducerData) (key : Key)
    (newView reduce : Address) : Option (Address × Table ReducerData × ViewHeap V) :=
  insertNewView cfg h t key ⟨newView, .reduceCFn reduce⟩

/-- What the lookups share. Outside of a cilkified region the key is the view. -/
def reducerLookup (cfg : HashConfig) (read : ReducerData → Option Address)
    (insert : Table ReducerData → Option (Address × Table ReducerData × ViewHeap V))
    (needToCilkify : Bool) (h : ViewHeap V) (table : Option (Table ReducerData)) (key : Key) :
    Option (Address × Option (Table ReducerData) × ViewHeap V) :=
  if needToCilkify then some (key.toNat, table, h)
  else
    let t := getLocalHyperTable cfg table
    match findHyperobject cfg t key with
    | some i => (read (bucketAt t.buckets i).data).map fun view => (view, some t, h)
    | none => (insert t).map fun res => (res.1, some res.2.1, res.2.2)

/-- `std::get_if<reducer_base *>`, whose result is not tested for null. -/
def ReducerData.getBase (d : ReducerData) : Option Address :=
  match d.extra with
  | .base r => some r
  | _ => none

def reducerLookup0 (cfg : HashConfig) (needToCilkify : Bool) (h : ViewHeap V)
    (table : Option (Table ReducerData)) (key : Key) (newView base : Address) :
    Option (Address × Option (Table ReducerData) × ViewHeap V) :=
  reducerLookup cfg ReducerData.getBase (insertNewView0 cfg h · key newView base) needToCilkify h
    table key

def reducerLookup1 (cfg : HashConfig) (needToCilkify : Bool) (h : ViewHeap V)
    (table : Option (Table ReducerData)) (key : Key) (newView reduce : Address) :
    Option (Address × Option (Table ReducerData) × ViewHeap V) :=
  reducerLookup cfg (fun d => some d.view) (insertNewView1 cfg h · key newView reduce)
    needToCilkify h table key

def reducerLookup2 (cfg : HashConfig) (needToCilkify : Bool) (h : ViewHeap V)
    (table : Option (Table ReducerData)) (key : Key) (newView reduce : Address) :
    Option (Address × Option (Table ReducerData) × ViewHeap V) :=
  reducerLookup cfg (fun d => some d.view) (insertNewView2 cfg h · key newView reduce)
    needToCilkify h table key

/-- `internal_reducer_lookup`, which the runtime calls inside of a region. -/
def internalReducerLookup (cfg : HashConfig) (h : ViewHeap V) (table : Option (Table ReducerData))
    (key : Key) (newView base : Address) :
    Option (Address × Option (Table ReducerData) × ViewHeap V) :=
  reducerLookup cfg ReducerData.getBase (insertNewView0 cfg h · key newView base) false h table key

end Lookup

section Register

/-- `reducer_register` -/
def reducerRegister (cfg : HashConfig) (table : Option (Table ReducerData))
    (b : Bucket ReducerData) : Option (Option (Table ReducerData)) :=
  match insertHyperobject cfg (getLocalHyperTable cfg table) b with
  | some (t, true) => some (some t)
  | _ => none

def reducerRegister0 (cfg : HashConfig) (table : Option (Table ReducerData)) (key : Key) :
    Option (Option (Table ReducerData)) :=
  reducerRegister cfg table ⟨key, 0, ⟨0, .base key.toNat⟩⟩

def reducerRegister1 (cfg : HashConfig) (table : Option (Table ReducerData)) (key : Key)
    (reduce : Address) : Option (Option (Table ReducerData)) :=
  reducerRegister cfg table ⟨key, 0, ⟨key.toNat, .reduceFn reduce⟩⟩

def reducerRegister2 (cfg : HashConfig) (table : Option (Table ReducerData)) (key : Key)
    (reduce : Address) : Option (Option (Table ReducerData)) :=
  reducerRegister cfg table ⟨key, 0, ⟨key.toNat, .reduceCFn reduce⟩⟩

/-- `__cilkrts_reducer_unregister` and `internal_reducer_remove`, which do not look at the result
of the removal. -/
def reducerUnregister (cfg : HashConfig) (table : Option (Table ReducerData)) (key : Key) :
    Option (Option (Table ReducerData)) :=
  (removeHyperobject cfg (getLocalHyperTable cfg table) key).map fun res => some res.1

end Register

/-- Through which of the three interfaces a reducer is used, with its reduce function. -/
inductive ReducerKind where
  | base
  | reduceFn (reduce : Address)
  | reduceCFn (reduce : Address)
deriving DecidableEq

namespace ReducerKind

/-- The data of a view in a block of memory. -/
def data (newView base : Address) : ReducerKind → ReducerData
  | .base => ⟨newView, .base base⟩
  | .reduceFn f => ⟨newView, .reduceFn f⟩
  | .reduceCFn f => ⟨newView, .reduceCFn f⟩

/-- The data of the view that the user made. -/
def leftmost (key : Key) : ReducerKind → ReducerData
  | .base => ⟨0, .base key.toNat⟩
  | .reduceFn f => ⟨key.toNat, .reduceFn f⟩
  | .reduceCFn f => ⟨key.toNat, .reduceCFn f⟩

def register (cfg : HashConfig) (table : Option (Table ReducerData)) (key : Key) :
    ReducerKind → Option (Option (Table ReducerData))
  | .base => reducerRegister0 cfg table key
  | .reduceFn f => reducerRegister1 cfg table key f
  | .reduceCFn f => reducerRegister2 cfg table key f

variable {V : Type} [Monoid V]

/-- The lookup inside of a region. -/
def lookup (cfg : HashConfig) (h : ViewHeap V) (table : Option (Table ReducerData)) (key : Key)
    (newView base : Address) :
    ReducerKind → Option (Address × Option (Table ReducerData) × ViewHeap V)
  | .base => reducerLookup0 cfg false h table key newView base
  | .reduceFn f => reducerLookup1 cfg false h table key newView f
  | .reduceCFn f => reducerLookup2 cfg false h table key newView f

end ReducerKind

/-- `merge_two_hts`, with what it does to the views in memory. -/
def mergeHtsOnHeap {V : Type} [Monoid V] (cfg : HashConfig) (h : ViewHeap V)
    (left right : Option (Table ReducerData)) :
    Option (Option (Table ReducerData) × ViewHeap V) :=
  (Table.mergeTwoHts cfg left right).bind fun res => (h.applyAll res.2).map fun h' => (res.1, h')

end Cheetah
