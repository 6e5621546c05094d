import Mathlib

namespace Qotp

/-- A node of the linked map. Pointers are addresses, `none` is nil. -/
structure LmNode (K V : Type) where
  key : K
  value : V
  next : Option Nat
  prev : Option Nat

/-- The hash index and the doubly linked list, with the memory the nodes live in. Removed nodes
stay in memory. -/
structure LinkedMap (K V : Type) where
  items : K → Option Nat
  node : Nat → LmNode K V
  allocated : Nat
  head : Nat
  tail : Nat
  size : Nat

namespace LinkedMap

variable {K V σ : Type}

/-- `NewLinkedMap`: the two sentinels hold zero keys and values. -/
def new [Inhabited K] [Inhabited V] : LinkedMap K V where
  items _ := none
  node p := if p = 0 then ⟨default, default, some 1, none⟩ else ⟨default, default, none, some 0⟩
  allocated := 2
  head := 0
  tail := 1
  size := 0

def setNode (m : LinkedMap K V) (p : Nat) (n : LmNode K V) : LinkedMap K V :=
  { m with node := Function.update m.node p n }

def setNext (m : LinkedMap K V) (p : Nat) (q : Option Nat) : LinkedMap K V :=
  m.setNode p { m.node p with next := q }

def setPrev (m : LinkedMap K V) (p : Nat) (q : Option Nat) : LinkedMap K V :=
  m.setNode p { m.node p with prev := q }

def entry (m : LinkedMap K V) (p : Nat) : K × V := ((m.node p).key, (m.node p).value)

/-- The entry behind a pointer unless it is the sentinel; nil cannot be read. -/
def entryUnless (m : LinkedMap K V) (sentinel : Nat) (p : Option Nat) : Option (Option (K × V)) :=
  if p = some sentinel then some none else p.map fun p => some (m.entry p)

variable [DecidableEq K]

def put (m : LinkedMap K V) (key : K) (value : V) : Option (LinkedMap K V) :=
  match m.items key with
  | some existing => some (m.setNode existing { m.node existing with value := value })
  | none => do
    let newNode := m.allocated
    let predecessor ← (m.node m.tail).prev
    let m := { m with allocated := m.allocated + 1 }
    let m := m.setNode newNode ⟨key, value, some m.tail, some predecessor⟩
    let m := (m.setNext predecessor (some newNode)).setPrev m.tail (some newNode)
    some { m with items := Function.update m.items key (some newNode), size := m.size + 1 }

/-- The zero value stands for an absent key. -/
def get [Inhabited V] (m : LinkedMap K V) (key : K) : V := (m.items key).elim default fun p => (m.node p).value

def contains (m : LinkedMap K V) (key : K) : Bool := (m.items key).isSome

/-- `Remove` with the value it returns, `none` for false. -/
def remove (m : LinkedMap K V) (key : K) : Option (LinkedMap K V × Option V) :=
  match m.items key with
  | none => some (m, none)
  | some node => do
    let before ← (m.node node).prev
    let m := m.setNext before (m.node node).next
    let behind ← (m.node node).next
    let m := m.setPrev behind (m.node node).prev
    some ({ m with items := Function.update m.items key none, size := m.size - 1 }, some (m.node node).value)

/-- `First`, `Next` and `Previous`: the inner `none` is the result false. -/
def first (m : LinkedMap K V) : Option (Option (K × V)) := m.entryUnless m.tail (m.node m.head).next

def next (m : LinkedMap K V) (key : K) : Option (Option (K × V)) :=
  match m.items key with
  | some p => m.entryUnless m.tail (m.node p).next
  | none => some none

def previous (m : LinkedMap K V) (key : K) : Option (Option (K × V)) :=
  match m.items key with
  | some p => m.entryUnless m.head (m.node p).prev
  | none => some none

def replace (m : LinkedMap K V) (oldKey newKey : K) (value : V) : LinkedMap K V × Bool :=
  match m.items oldKey with
  | none => (m, false)
  | some oldNode =>
    if oldKey = newKey then (m.setNode oldNode { m.node oldNode with value := value }, true)
    else if (m.items newKey).isSome then (m, false)
    else
      let m := m.setNode oldNode { m.node oldNode with key := newKey, value := value }
      ({ m with items := Function.update (Function.update m.items oldKey none) newKey (some oldNode) }, true)

/-- The loop of an iterator: `yield` takes each entry, changes the state of its caller and says
whether to go on. `none` is a panic, or a list longer than the map. The result says whether
the end was reached. -/
def iterLoop (m : LinkedMap K V) (yield : σ → K → V → Option (σ × Bool)) : Nat → Option Nat → σ → Option (σ × Bool)
  | 0, _, _ => none
  | fuel + 1, node, s => do
    let p ← node
    if p = m.tail then return (s, true)
    let (s, more) ← yield s (m.node p).key (m.node p).value
    if more then m.iterLoop yield fuel (m.node p).next s else return (s, false)

def startNode (m : LinkedMap K V) (startKey : Option K) : Option Nat :=
  match startKey.bind m.items with
  | some p => if (m.node p).next = some m.tail then (m.node m.head).next else (m.node p).next
  | none => (m.node m.head).next

def iterator (m : LinkedMap K V) (startKey : Option K) (yield : σ → K → V → Option (σ × Bool)) (s : σ) :
    Option (σ × Bool) :=
  m.iterLoop yield (m.size + 1) (m.startNode startKey) s

/-- `NestedIterator`. The body of the outer loop runs the inner one, ends the whole iteration
when that was told to stop, and clears the second start key. -/
def nestedIterator {K₂ V₂ : Type} [DecidableEq K₂] (outerMap : LinkedMap K V) (getInnerMap : V → LinkedMap K₂ V₂)
    (startKey1 : Option K) (startKey2 : Option K₂) (yield : σ → V → V₂ → Option (σ × Bool)) (s : σ) :
    Option (σ × Bool) :=
  (outerMap.iterator startKey1
    (fun (s, startKey2) _ outerVal =>
      ((getInnerMap outerVal).iterator startKey2 (fun s _ innerVal => yield s outerVal innerVal) s).map
        fun r => ((r.1, none), r.2))
    (s, startKey2)).map fun r => (r.1.1, r.2)

end LinkedMap

end Qotp
