import Mathlib

namespace Qotp

def maxLevel : Nat := 32
def nodesPerLevel : Nat := 4

/-- A node of the skip list. Pointers are addresses, `none` is nil; the slice `next`
has one pointer per level of the node. -/
structure SmNode (K V : Type) where
  key : K
  value : V
  next : List (Option Nat)
  after : Option Nat
  prev : Option Nat

/-- The skip list with the memory its nodes live in. Removed nodes stay in memory. -/
structure SortedMap (K V : Type) where
  items : K → Option Nat
  node : Nat → SmNode K V
  allocated : Nat
  head : Nat
  tail : Nat
  level : Nat
  size : Nat

namespace SortedMap

variable {K V : Type}

/-- `NewSortedMap`: the two sentinels hold zero keys and values. -/
def new [Inhabited K] [Inhabited V] : SortedMap K V where
  items _ := none
  node p := if p = 0 then ⟨default, default, List.replicate maxLevel none, some 1, none⟩
    else ⟨default, default, [], none, some 0⟩
  allocated := 2
  head := 0
  tail := 1
  level := 1
  size := 0

def setNode (m : SortedMap K V) (p : Nat) (n : SmNode K V) : SortedMap K V :=
  { m with node := Function.update m.node p n }

def setAfter (m : SortedMap K V) (p : Nat) (q : Option Nat) : SortedMap K V :=
  m.setNode p { m.node p with after := q }

def setPrev (m : SortedMap K V) (p : Nat) (q : Option Nat) : SortedMap K V :=
  m.setNode p { m.node p with prev := q }

/-- `p.next[i]`; a node has no slot above its own level. -/
def nextAt (m : SortedMap K V) (p i : Nat) : Option (Option Nat) := (m.node p).next[i]?

def setNext (m : SortedMap K V) (p i : Nat) (q : Option Nat) : Option (SortedMap K V) :=
  if i < (m.node p).next.length then some (m.setNode p { m.node p with next := (m.node p).next.set i q })
  else none

def entry (m : SortedMap K V) (p : Nat) : K × V := ((m.node p).key, (m.node p).value)

/-- The entry behind a pointer unless it is the sentinel; nil cannot be read. -/
def entryUnless (m : SortedMap K V) (sentinel : Nat) (p : Option Nat) : Option (Option (K × V)) :=
  if p = some sentinel then some none else p.map fun p => some (m.entry p)

/-- The loop of `getNodeLevel`. -/
def levelLoop : Nat → Nat → Nat → Option Nat
  | 0, _, _ => none
  | fuel + 1, pos, level =>
    if pos % nodesPerLevel = 0 then levelLoop fuel (pos / nodesPerLevel) (level + 1) else some level

def getNodeLevel (m : SortedMap K V) : Option Nat :=
  (levelLoop (m.size + 1) (m.size + 1) 1).map fun level => if level > maxLevel then maxLevel else level

/-- The inner loop of a search: moves along level `i` while the next key is passed. -/
def advance (m : SortedMap K V) (pass : K → Bool) (i : Nat) : Nat → Nat → Option Nat
  | 0, _ => none
  | fuel + 1, current => do
    match ← m.nextAt current i with
    | none => some current
    | some n => if n ≠ m.tail ∧ pass (m.node n).key then m.advance pass i fuel n else some current

/-- The outer loop: where each of the lower levels is left, behind `update` of the
higher ones. No level is longer than the map. -/
def search (m : SortedMap K V) (pass : K → Bool) : Nat → Nat → List Nat → Option (Nat × List Nat)
  | 0, current, update => some (current, update)
  | i + 1, current, update => do
    let current ← m.advance pass i (m.size + 1) current
    m.search pass i current (current :: update)

/-- Puts the new node into level `i`, behind the node where the search left it. -/
def linkLevel (update : List Nat) (newNode : Nat) (m : SortedMap K V) (i : Nat) : Option (SortedMap K V) := do
  let u ← update[i]?
  let q ← m.nextAt u i
  let m ← m.setNext newNode i q
  m.setNext u i (some newNode)

def unlinkLevel (update : List Nat) (targetNode : Nat) (m : SortedMap K V) (i : Nat) :
    Option (SortedMap K V) := do
  let u ← update[i]?
  if (← m.nextAt u i) ≠ some targetNode then some m
  else
    let q ← m.nextAt targetNode i
    m.setNext u i q

/-- The end of `Remove`: empty levels are given up from the top. -/
def shrinkLevel (m : SortedMap K V) : Nat → Option Nat
  | 0 => some 0
  | 1 => some 1
  | n + 2 => do
    match ← m.nextAt m.head (n + 1) with
    | none => m.shrinkLevel (n + 1)
    | some _ => some (n + 2)

variable [LinearOrder K]

def put (m : SortedMap K V) (key : K) (value : V) : Option (SortedMap K V) :=
  match m.items key with
  | some existing => some (m.setNode existing { m.node existing with value := value })
  | none => do
    let (_, update) ← m.search (fun k => decide (k < key)) m.level m.head []
    let level ← m.getNodeLevel
    let update := update ++ List.replicate (level - m.level) m.head
    let newNode := m.allocated
    let m := { m with level := max m.level level, allocated := m.allocated + 1 }
    let m := m.setNode newNode ⟨key, value, List.replicate level none, none, none⟩
    let m ← (List.range level).foldlM (linkLevel update newNode) m
    let predecessor ← update[0]?
    let successor ← (m.node predecessor).after
    let m := (m.setAfter newNode (some successor)).setPrev newNode (some predecessor)
    let m := (m.setAfter predecessor (some newNode)).setPrev successor (some newNode)
    some { m with items := Function.update m.items key (some newNode), size := m.size + 1 }

def get (m : SortedMap K V) (key : K) : Option V := (m.items key).map fun p => (m.node p).value

def contains (m : SortedMap K V) (key : K) : Bool := (m.items key).isSome

/-- `Next`, `Prev` and `Min`: the inner `none` is the result false. -/
def next (m : SortedMap K V) (key : K) : Option (Option (K × V)) :=
  match m.items key with
  | some p => m.entryUnless m.tail (m.node p).after
  | none => do
    let (current, _) ← m.search (fun k => decide (key ≥ k)) m.level m.head []
    m.entryUnless m.tail (m.node current).after

def prev (m : SortedMap K V) (key : K) : Option (Option (K × V)) :=
  match m.items key with
  | some p => m.entryUnless m.head (m.node p).prev
  | none => do
    let (current, _) ← m.search (fun k => decide (k < key)) m.level m.head []
    m.entryUnless m.head (some current)

def min (m : SortedMap K V) : Option (Option (K × V)) := m.entryUnless m.tail (m.node m.head).after

/-- `Remove` with the value it returns, `none` for false. -/
def remove (m : SortedMap K V) (key : K) : Option (SortedMap K V × Option V) :=
  match m.items key with
  | none => some (m, none)
  | some targetNode => do
    let (current, update) ← m.search (fun k => decide (k < key)) m.level m.head []
    let first ← m.nextAt current 0
    let m ← if first = some targetNode then (List.range m.level).foldlM (unlinkLevel update targetNode) m
      else some m
    let before ← (m.node targetNode).prev
    let m := m.setAfter before (m.node targetNode).after
    let behind ← (m.node targetNode).after
    let m := m.setPrev behind (m.node targetNode).prev
    let level ← m.shrinkLevel m.level
    some ({ m with level := level, items := Function.update m.items key none, size := m.size - 1 },
      some (m.node targetNode).value)

end SortedMap

end Qotp
