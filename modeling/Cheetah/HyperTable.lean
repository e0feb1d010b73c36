import Mathlib.Algebra.Group.Nat.Defs
import Mathlib.Data.List.Basic
import Mathlib.Data.Int.Notation
import Mathlib.Tactic.Common

/-! The local hyperobject table of `local-hypertable.h` and `local-hypertable.cpp`:
a linear array while it is small, and ordered linear probing on a circular
buffer from `MIN_HT_CAPACITY` buckets on. A failed `assert` is `none`, but for the last
one of an insertion, which is the `false` returned after it. -/
namespace Cheetah

abbrev Key := BitVec 64

def keyEmpty : Key := 0#64

def keyDeleted : Key := BitVec.allOnes 64

def isEmpty (key : Key) : Bool := key == keyEmpty

def isTombstone (key : Key) : Bool := key == keyDeleted

def isValid (key : Key) : Bool := !isEmpty key && !isTombstone key

/-- The hash function and the two constants that `local-hypertable.h` and each
`MOCK_HASH` header define together. -/
structure HashConfig where
  hash : Key → BitVec 32
  minCapacity : ℕ
  minHtCapacity : ℕ
  constants : (minCapacity = 4 ∧ minHtCapacity = 8) ∨ (minCapacity = 1 ∧ minHtCapacity = 1)

/-- The hash of `local-hypertable.h`. -/
def headerHash (key : Key) : BitVec 32 :=
  let salt : BitVec 64 := 0x96b9af4f6a40de92#64
  let lowMask : BitVec 64 := 0xffffffff#64
  let x := key ^^^ salt
  let v := (x &&& lowMask) * (x >>> 32)
  ((v &&& lowMask) ^^^ (v >>> 32)).setWidth 32

def headerConfig : HashConfig where
  hash := headerHash
  minCapacity := 4
  minHtCapacity := 8
  constants := Or.inl ⟨rfl, rfl⟩

structure Bucket (δ : Type*) where
  key : Key
  hash : ℕ
  data : δ
deriving DecidableEq

structure Table (δ : Type*) where
  capacity : ℕ
  occupancy : ℕ
  insRmCount : ℤ
  buckets : List (Bucket δ)
deriving DecidableEq

variable {δ : Type*} [Inhabited δ]

/-- A bucket as `new bucket[n]` leaves it. -/
def freshBucket : Bucket δ := ⟨keyEmpty, 0, default⟩

def bucketAt (bs : List (Bucket δ)) (i : ℕ) : Bucket δ := bs.getD i freshBucket

def loadFactorConstant : ℕ := 16

/-- `0x7fffffff / (LOAD_FACTOR_CONSTANT - 1)`. -/
def maxCapacity : ℕ := 0x7fffffff / (loadFactorConstant - 1)

def isOverloaded (occupancy capacity : ℕ) : Bool :=
  occupancy > (loadFactorConstant - 1) * capacity / loadFactorConstant

def isUnderloaded (cfg : HashConfig) (occupancy capacity : ℕ) : Bool :=
  capacity > cfg.minCapacity &&
    occupancy ≤ (loadFactorConstant / 2 - 1) * capacity / loadFactorConstant

def minRebuildOpCount : ℤ := 8

def timeToRebuild (insRmCount : ℤ) (capacity : ℕ) : Bool :=
  insRmCount > minRebuildOpCount && insRmCount > (capacity / (4 * loadFactorConstant) : ℕ)

/-- The loop of `bucket_array_create`: `tombstoneIdx` is its running counter. -/
def graveyard : ℕ → ℕ → List (Bucket δ)
  | 0, _ => []
  | n+1, tombstoneIdx =>
    if tombstoneIdx = 2 * loadFactorConstant then
      { freshBucket with key := keyDeleted } :: graveyard n (tombstoneIdx - 2 * loadFactorConstant)
    else freshBucket :: graveyard n (tombstoneIdx + 1)

def bucketArrayCreate (cfg : HashConfig) (arraySize : ℕ) : List (Bucket δ) :=
  if arraySize < cfg.minHtCapacity then List.replicate arraySize freshBucket
  else graveyard arraySize 0

def tableCreate (cfg : HashConfig) (capacity : ℕ) : Table δ :=
  ⟨capacity, 0, 0, bucketArrayCreate cfg capacity⟩

/-- `__cilkrts_local_hyper_table_alloc`. -/
def localHyperTableAlloc (cfg : HashConfig) : Table δ := tableCreate cfg cfg.minCapacity

def getTableEntry (cfg : HashConfig) (capacity : ℕ) (key : Key) : ℕ :=
  (cfg.hash key).toNat &&& (capacity - 1)

def incIndex (i capacity : ℕ) : ℕ := if i + 1 = capacity then 0 else i + 1

/-- Subtraction of two `index_t` values, which wraps at 32 bits. -/
def subIndex (a b : ℕ) : ℕ := (a + 2^32 - b) % 2^32

def continueProbe (tgt hash idx : ℕ) : Bool := subIndex idx tgt ≤ subIndex idx hash

/-- The backwards scan of `find_hyperobject_linear`, with `n` buckets left. -/
def findLinear (bs : List (Bucket δ)) (key : Key) : ℕ → Option ℕ
  | 0 => none
  | n+1 => if (bucketAt bs n).key = key then some n else findLinear bs key n

/-- The probe of `__cilkrts_find_hyperobject_hash`. The first argument counts the
iterations left before `i` is back at `tgt`. -/
def findProbe (bs : List (Bucket δ)) (capacity tgt : ℕ) (key : Key) : ℕ → ℕ → Option ℕ
  | 0, _ => none
  | n+1, i =>
    let curr := bucketAt bs i
    let next := incIndex i capacity
    if key = curr.key then some i
    else if isEmpty curr.key then none
    else if isTombstone curr.key then
      if next ≠ tgt then findProbe bs capacity tgt key n next else none
    else if continueProbe tgt curr.hash i then
      if next ≠ tgt then findProbe bs capacity tgt key n next else none
    else none

/-- `find_hyperobject`, which returns the position of the bucket it points to. -/
def findHyperobject (cfg : HashConfig) (t : Table δ) (key : Key) : Option ℕ :=
  if t.capacity < cfg.minHtCapacity then findLinear t.buckets key t.occupancy
  else
    let tgt := getTableEntry cfg t.capacity key
    findProbe t.buckets t.capacity tgt key t.capacity tgt

/-- The forwards scan of the linear modes of insert and remove over `n` buckets. -/
def scanForward (bs : List (Bucket δ)) (key : Key) (n : ℕ) : Option ℕ :=
  (List.range n).find? (fun i => (bucketAt bs i).key = key)

/-- The scan over consecutive tombstones inside the insertion probe. -/
def tombEnd (bs : List (Bucket δ)) (capacity probeEnd : ℕ) : ℕ → ℕ → ℕ
  | 0, next => next
  | n+1, next =>
    if next ≠ probeEnd ∧ isTombstone (bucketAt bs next).key then
      tombEnd bs capacity probeEnd n (incIndex next capacity)
    else next

/-- Where the insertion probe ends: at a bucket with the key, at a bucket that may
be overwritten, or at an occupied bucket from which the run is shifted. -/
inductive InsertPoint where
  | found (i : ℕ)
  | vacant (i : ℕ)
  | shift (i : ℕ)
deriving DecidableEq

def insertProbe (bs : List (Bucket δ)) (capacity tgt : ℕ) (key : Key) : ℕ → ℕ → InsertPoint
  | 0, i => .shift i
  | n+1, i =>
    let curr := bucketAt bs i
    if key = curr.key then .found i
    else if isEmpty curr.key then .vacant i
    else if isTombstone curr.key then
      let next := tombEnd bs capacity tgt capacity (incIndex i capacity)
      if isEmpty (bucketAt bs next).key then .vacant i
      else if next = tgt ∨ continueProbe tgt (bucketAt bs next).hash next = false then .vacant i
      else insertProbe bs capacity tgt key n next
    else if continueProbe tgt curr.hash i then
      let next := incIndex i capacity
      if next ≠ tgt then insertProbe bs capacity tgt key n next else .shift next
    else .shift i

/-- The second loop of insert: put `b` at `i` and carry the displaced bucket on to
the next index, until a bucket that is not valid takes the carried one. -/
def shiftInsert (capacity insertTgt : ℕ) :
    ℕ → ℕ → Bucket δ → List (Bucket δ) → List (Bucket δ) × Bool
  | 0, _, _, bs => (bs, false)
  | n+1, i, b, bs =>
    if isValid (bucketAt bs i).key then
      let next := incIndex i capacity
      if next ≠ insertTgt then
        shiftInsert capacity insertTgt n next (bucketAt bs i) (bs.set i b)
      else (bs.set i b, false)
    else (bs.set i b, true)

/-- The hash mode of `insert_hyperobject`, after the rebuilds it starts with. -/
def insertHash (cfg : HashConfig) (t : Table δ) (b : Bucket δ) : Table δ × Bool :=
  let tgt := getTableEntry cfg t.capacity b.key
  let b := { b with hash := tgt }
  let added (bs : List (Bucket δ)) : Table δ :=
    { t with buckets := bs, occupancy := t.occupancy + 1, insRmCount := t.insRmCount + 1 }
  if isEmpty (bucketAt t.buckets tgt).key then (added (t.buckets.set tgt b), true)
  else
    match insertProbe t.buckets t.capacity tgt b.key t.capacity tgt with
    | .found i =>
      ({ t with buckets := t.buckets.set i { bucketAt t.buckets i with data := b.data } }, true)
    | .vacant i => (added (t.buckets.set i b), true)
    | .shift i =>
      match shiftInsert t.capacity i t.capacity i b t.buckets with
      | (bs, true) => (added bs, true)
      | (bs, false) => ({ t with buckets := bs }, false)

/-- The body of the loop of `rebuild`: a valid bucket has to be inserted. -/
def moveBucket (ins : Table δ → Bucket δ → Option (Table δ × Bool)) (u : Table δ)
    (b : Bucket δ) : Option (Table δ) :=
  if isValid b.key then
    match ins u b with
    | some (u', true) => some u'
    | _ => none
  else some u

/-- `hyper_table::rebuild`, over the insertion that it calls. -/
def rebuildWith (cfg : HashConfig) (ins : Table δ → Bucket δ → Option (Table δ × Bool))
    (t : Table δ) (newCapacity : ℕ) : Option (Table δ) :=
  if newCapacity > maxCapacity then none
  else
    let fresh : Table δ := ⟨newCapacity, 0, -t.occupancy, bucketArrayCreate cfg newCapacity⟩
    match t.buckets.foldlM (moveBucket ins) fresh with
    | some u => if u.occupancy = t.occupancy then some u else none
    | none => none

/-- The rebuilds that the hash mode of insert starts with. -/
def insertRebuilding (cfg : HashConfig) (rebuild : Table δ → ℕ → Option (Table δ))
    (t : Table δ) (b : Bucket δ) : Option (Table δ × Bool) :=
  if isOverloaded t.occupancy t.capacity then
    (rebuild t (t.capacity * 2)).map (insertHash cfg · b)
  else if timeToRebuild t.insRmCount t.capacity then
    (rebuild t t.capacity).map (insertHash cfg · b)
  else some (insertHash cfg t b)

/-- `insert_hyperobject`, over the rebuild that it calls. -/
def insertWith (cfg : HashConfig) (rebuild : Table δ → ℕ → Option (Table δ))
    (t : Table δ) (b : Bucket δ) : Option (Table δ × Bool) :=
  if t.capacity < cfg.minHtCapacity then
    if t.occupancy < t.capacity then
      match scanForward t.buckets b.key t.occupancy with
      | some i => some ({ t with buckets := t.buckets.set i b }, true)
      | none => some ({ t with buckets := t.buckets.set t.occupancy b,
                               occupancy := t.occupancy + 1 }, true)
    else
      match rebuild t (t.capacity * 2) with
      | some u => insertRebuilding cfg rebuild u b
      | none => none
  else insertRebuilding cfg rebuild t b

/-- `insert_hyperobject` with at most `n` rebuilds inside one another. -/
def insertNested (cfg : HashConfig) : ℕ → Table δ → Bucket δ → Option (Table δ × Bool)
  | 0 => insertWith cfg (fun _ _ => none)
  | n+1 => insertWith cfg (rebuildWith cfg (insertNested cfg n))

def insertHyperobject (cfg : HashConfig) (t : Table δ) (b : Bucket δ) :
    Option (Table δ × Bool) :=
  insertNested cfg 1 t b

def rebuild (cfg : HashConfig) (t : Table δ) (newCapacity : ℕ) : Option (Table δ) :=
  rebuildWith cfg (insertNested cfg 0) t newCapacity

def removeLinear (t : Table δ) (key : Key) : Table δ × Bool :=
  match scanForward t.buckets key t.occupancy with
  | some i =>
    let bs :=
      if i + 1 = t.occupancy then t.buckets.set i { bucketAt t.buckets i with key := keyEmpty }
      else t.buckets.set i (bucketAt t.buckets (t.occupancy - 1))
    ({ t with buckets := bs, occupancy := t.occupancy - 1 }, true)
  | none => (t, false)

def removeHyperobject (cfg : HashConfig) (t : Table δ) (key : Key) :
    Option (Table δ × Bool) :=
  if t.capacity < cfg.minHtCapacity then some (removeLinear t key)
  else
    match findHyperobject cfg t key with
    | none => some (t, false)
    | some i =>
      let t' : Table δ :=
        { t with buckets := t.buckets.set i { bucketAt t.buckets i with key := keyDeleted },
                 occupancy := t.occupancy - 1, insRmCount := t.insRmCount + 1 }
      if isUnderloaded cfg t'.occupancy t'.capacity then
        (rebuild cfg t' (t'.capacity / 2)).map (·, true)
      else if timeToRebuild t'.insRmCount t'.capacity then
        (rebuild cfg t' t'.capacity).map (·, true)
      else some (t', true)

end Cheetah
