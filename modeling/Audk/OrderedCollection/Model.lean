import Audk.Lib.Heap
import Audk.Lib.RedBlack

/-!
# The red-black tree of `OrderedCollectionLib`

Nodes are records on a heap that point to each other.  Where the source has a branch and its mirror
image, here is one definition with the side `d` as a parameter.

* `orderedCollectionInsert`: the search, the new node, the loop that restores property #3;
* `orderedCollectionDelete`: the node or its successor is unlinked, the loop takes the black-increment up.

`AllocatePool` is a parameter: the address of the new node, or `NULL`.  A loop has `fuel` turns.  A
failed `ASSERT` stops the run.
-/

namespace Audk.OrderedCollection

open Prog RecordHeap RedBlack

structure Node (U : Type) where
  userStruct : U
  parent : Ptr
  left : Ptr
  right : Ptr
  color : Color

/-- `RETURN_STATUS` of an insertion -/
inductive InsertStatus where
  | success
  | outOfResources
  | alreadyStarted
deriving DecidableEq

section
variable {U : Type}

def Node.child (d : Dir) (n : Node U) : Ptr :=
  match d with
  | .left => n.left
  | .right => n.right

def Node.setChild (d : Dir) (p : Ptr) (n : Node U) : Node U :=
  match d with
  | .left => { n with left := p }
  | .right => { n with right := p }

def Node.setParent (p : Ptr) (n : Node U) : Node U := { n with parent := p }

def Node.setColor (c : Color) (n : Node U) : Node U := { n with color := c }

abbrev Run (U α : Type) := Prog (Heap (Node U)) Fault α

/-! ## links -/

/-- `if (Child != NULL) { Child->Parent = Parent; }` -/
def adopt (child parent : Ptr) : Run U Unit :=
  if child = none then pure () else store child (Node.setParent parent)

/-- the node `new` takes the place of `old` below `parent`, or as `*NewRoot` -/
def replaceChild (parent old new newRoot : Ptr) : Run U Ptr :=
  if parent = none then return new
  else do
    let p ← load parent
    store parent (Node.setChild (if old = p.left then .left else .right) new)
    return newRoot

/-- the rotation to the side `d`; returns `*NewRoot` -/
def rotate (d : Dir) (pivot newRoot : Ptr) : Run U Ptr := do
  let pivotNode ← load pivot
  let parent := pivotNode.parent
  let child := pivotNode.child d.other
  let childNode ← load child
  let grandChild := childNode.child d
  store pivot (Node.setChild d.other grandChild)
  adopt grandChild pivot
  store child (Node.setParent parent)
  let newRoot ← replaceChild parent pivot child newRoot
  store child (Node.setChild d pivot)
  store pivot (Node.setParent child)
  return newRoot

def redBlackTreeRotateRight (pivot newRoot : Ptr) : Run U Ptr := rotate .right pivot newRoot

def redBlackTreeRotateLeft (pivot newRoot : Ptr) : Run U Ptr := rotate .left pivot newRoot

def nodeIsNullOrBlack (node : Ptr) : Run U Bool :=
  if node = none then return true
  else do
    let n ← load node
    return decide (n.color = .black)

/-! ## insertion -/

structure Search where
  tmp : Ptr
  parent : Ptr
  result : Int
  collision : Bool

def searchStep (userStructCompare : U → U → Int) (userStruct : U) (s : Search) : Run U Search := do
  let n ← load s.tmp
  let result := userStructCompare userStruct n.userStruct
  if result = 0 then return { s with result := result, collision := true }
  else return ⟨if result < 0 then n.left else n.right, s.tmp, result, false⟩

/-- the locals of the loop that restores property #3; `running` until the condition fails -/
structure InsertFix where
  tmp : Ptr
  parent : Ptr
  newRoot : Ptr
  running : Bool

/-- a child on the inner side is rotated to the outer side -/
def straighten (d : Dir) (grandParent : Ptr) (s : InsertFix) : Run U InsertFix := do
  let p ← load s.parent
  if s.tmp = p.child d.other then do
    let newRoot ← rotate d s.parent s.newRoot
    let t ← load s.parent
    let p ← load t.parent
    check (grandParent = p.parent)
    return ⟨s.parent, t.parent, newRoot, s.running⟩
  else return s

/-- the body of the loop for a parent on the side `d` of the grandparent -/
def insertRepair (d : Dir) (grandParent : Ptr) (s : InsertFix) : Run U InsertFix := do
  let g ← load grandParent
  let uncle := g.child d.other
  let black ← nodeIsNullOrBlack uncle
  if black = false then do
    store s.parent (Node.setColor .black)
    store uncle (Node.setColor .black)
    store grandParent (Node.setColor .red)
    let t ← load grandParent
    return ⟨grandParent, t.parent, s.newRoot, s.running⟩
  else do
    let s ← straighten d grandParent s
    store s.parent (Node.setColor .black)
    store grandParent (Node.setColor .red)
    let newRoot ← rotate d.other grandParent s.newRoot
    return { s with newRoot := newRoot }

def insertTurn (s : InsertFix) : Run U InsertFix :=
  if s.tmp = s.newRoot then return { s with running := false }
  else do
    let p ← load s.parent
    if p.color = .black then return { s with running := false }
    else do
      let g ← load p.parent
      insertRepair (if s.parent = g.left then .left else .right) p.parent s

/-- what an insertion returns: `*Node`, if it is written, and `Tree->Root` -/
structure Inserted where
  status : InsertStatus
  node : Ptr
  root : Ptr

/-- link the new node to its parent and restore property #3 -/
def insertNode (fuel : Nat) (tmp : Nat) (userStruct : U) (s : Search) (root : Ptr) : Run U Ptr := do
  if s.parent = none then do
    allocate tmp ⟨userStruct, none, none, none, .black⟩
    return some tmp
  else do
    allocate tmp ⟨userStruct, s.parent, none, none, .red⟩
    store s.parent (Node.setChild (if s.result < 0 then .left else .right) (some tmp))
    let t ← repeatWhile (fun t => t.running = true) insertTurn .stuck fuel ⟨some tmp, s.parent, root, true⟩
    store t.newRoot (Node.setColor .black)
    return t.newRoot

def orderedCollectionInsert (userStructCompare : U → U → Int) (fuel : Nat) (pool : Ptr)
    (userStruct : U) (root : Ptr) : Run U Inserted := do
  let s ← repeatWhile (fun s => s.tmp ≠ none ∧ s.collision = false)
    (searchStep userStructCompare userStruct) .stuck fuel ⟨root, none, 0, false⟩
  if s.tmp ≠ none then return ⟨.alreadyStarted, s.tmp, root⟩
  else
    match pool with
    | none => return ⟨.outOfResources, none, root⟩
    | some tmp => do
      let root ← insertNode fuel tmp userStruct s root
      return ⟨.success, some tmp, root⟩

/-! ## deletion -/

/-- the locals behind the unlinking -/
structure Unlinked where
  child : Ptr
  parent : Ptr
  newRoot : Ptr
  colorOfUnlinked : Color

/-- unlink a node with at most one child -/
def unlinkNode (node : Ptr) (n : Node U) (newRoot : Ptr) : Run U Unlinked := do
  let child := if n.left ≠ none then n.left else n.right
  adopt child n.parent
  let newRoot ← replaceChild n.parent node child newRoot
  return ⟨child, n.parent, newRoot, n.color⟩

structure Leftmost where
  node : Ptr
  left : Ptr

def leftmostStep (s : Leftmost) : Run U Leftmost := do
  let n ← load s.left
  return ⟨s.left, n.left⟩

/-- the successor of a node with two children, and where its child is now -/
structure ToRelink where
  toRelink : Ptr
  parent : Ptr
  child : Ptr

/-- unlink the successor from below `OrigRightChild` -/
def unlinkSuccessor (fuel : Nat) (origRightChild : Ptr) (r : Node U) : Run U ToRelink :=
  if r.left = none then return ⟨origRightChild, origRightChild, r.right⟩
  else do
    let s ← repeatWhile (fun s => s.left ≠ none) leftmostStep .stuck fuel ⟨origRightChild, r.left⟩
    let t ← load s.node
    store t.parent (Node.setChild .left t.right)
    adopt t.right t.parent
    store s.node (Node.setChild .right origRightChild)
    store origRightChild (Node.setParent s.node)
    return ⟨s.node, t.parent, t.right⟩

/-- unlink the successor of a node with two children and link it into the place of the node -/
def relinkSuccessor (fuel : Nat) (node : Ptr) (n : Node U) (newRoot : Ptr) : Run U Unlinked := do
  let r ← load n.right
  let s ← unlinkSuccessor fuel n.right r
  store s.toRelink (Node.setChild .left n.left)
  store n.left (Node.setParent s.toRelink)
  let t ← load s.toRelink
  let n' ← load node
  store s.toRelink (Node.setColor n'.color)
  store s.toRelink (Node.setParent n.parent)
  let newRoot ← replaceChild n.parent node s.toRelink newRoot
  return ⟨s.child, s.parent, newRoot, t.color⟩

def unlink (fuel : Nat) (node : Ptr) (n : Node U) (newRoot : Ptr) : Run U Unlinked :=
  if n.left = none ∨ n.right = none then unlinkNode node n newRoot
  else relinkSuccessor fuel node n newRoot

/-- the locals of the loop that takes the black-increment up; `running` until the condition fails -/
structure DeleteFix where
  child : Ptr
  parent : Ptr
  newRoot : Ptr
  running : Bool

/-- the locals of the body of that loop -/
structure Nephews where
  sibling : Ptr
  farNephew : Ptr
  newRoot : Ptr

/-- a red sibling is rotated above the parent; the new one is black -/
def blackSibling (d : Dir) (parent sibling newRoot : Ptr) : Run U (Ptr × Ptr) := do
  let s ← load sibling
  if s.color = .red then do
    store sibling (Node.setColor .black)
    store parent (Node.setColor .red)
    let newRoot ← rotate d parent newRoot
    let p ← load parent
    check (p.child d.other ≠ none)
    return (p.child d.other, newRoot)
  else return (sibling, newRoot)

/-- if only the nephew on the side of the child is red, it is rotated above the sibling -/
def redFarNephew (d : Dir) (parent sibling near far newRoot : Ptr) : Run U Nephews := do
  let black ← nodeIsNullOrBlack far
  if black = true then do
    store near (Node.setColor .black)
    store sibling (Node.setColor .red)
    let newRoot ← rotate d.other sibling newRoot
    let p ← load parent
    let s ← load (p.child d.other)
    return ⟨p.child d.other, s.child d.other, newRoot⟩
  else return ⟨sibling, far, newRoot⟩

/-- the body of the loop behind the choice of a nephew -/
def flushIncrement (d : Dir) (parent : Ptr) (s : Nephews) : Run U Ptr := do
  check (s.farNephew ≠ none)
  let f ← load s.farNephew
  check (f.color = .red)
  check (s.sibling ≠ none)
  let b ← load s.sibling
  check (b.color = .black)
  let p ← load parent
  store s.sibling (Node.setColor p.color)
  store parent (Node.setColor .black)
  store s.farNephew (Node.setColor .black)
  rotate d parent s.newRoot

/-- the body of the loop for a child on the side `d` of the parent -/
def deleteRepair (d : Dir) (s : DeleteFix) : Run U DeleteFix := do
  let p ← load s.parent
  check (p.child d.other ≠ none)
  let (sibling, newRoot) ← blackSibling d s.parent (p.child d.other) s.newRoot
  let b ← load sibling
  check (b.color = .black)
  let nearBlack ← nodeIsNullOrBlack (b.child d)
  let farBlack ← nodeIsNullOrBlack (b.child d.other)
  if nearBlack = true ∧ farBlack = true then do
    store sibling (Node.setColor .red)
    let p ← load s.parent
    return ⟨s.parent, p.parent, newRoot, s.running⟩
  else do
    let t ← redFarNephew d s.parent sibling (b.child d) (b.child d.other) newRoot
    let newRoot ← flushIncrement d s.parent t
    return ⟨newRoot, s.parent, newRoot, s.running⟩

def deleteTurn (s : DeleteFix) : Run U DeleteFix :=
  if s.child = s.newRoot then return { s with running := false }
  else do
    let black ← nodeIsNullOrBlack s.child
    if black = false then return { s with running := false }
    else do
      let p ← load s.parent
      deleteRepair (if s.child = p.left then .left else .right) s

/-- take the black-increment of the unlinked node up -/
def absorb (fuel : Nat) (u : Unlinked) : Run U Ptr :=
  if u.colorOfUnlinked = .black then do
    let s ← repeatWhile (fun s => s.running = true) deleteTurn .stuck fuel ⟨u.child, u.parent, u.newRoot, true⟩
    if s.child = none then return s.newRoot
    else do
      store s.child (Node.setColor .black)
      return s.newRoot
  else return u.newRoot

/-- what a deletion returns: `*UserStruct` and `Tree->Root` -/
structure Deleted (U : Type) where
  userStruct : U
  root : Ptr

def orderedCollectionDelete (fuel : Nat) (node : Ptr) (root : Ptr) : Run U (Deleted U) := do
  let n ← load node
  let u ← unlink fuel node n root
  release node
  let newRoot ← absorb fuel u
  return ⟨n.userStruct, newRoot⟩

/-! ## lookup -/

structure Lookup where
  node : Ptr
  found : Bool

def findStep {K : Type} (keyCompare : K → U → Int) (standaloneKey : K) (s : Lookup) : Run U Lookup := do
  let n ← load s.node
  let result := keyCompare standaloneKey n.userStruct
  if result = 0 then return ⟨s.node, true⟩
  else return ⟨if result < 0 then n.left else n.right, false⟩

def orderedCollectionFind {K : Type} (keyCompare : K → U → Int) (fuel : Nat) (standaloneKey : K)
    (root : Ptr) : Run U Ptr := do
  let s ← repeatWhile (fun s => s.node ≠ none ∧ s.found = false) (findStep keyCompare standaloneKey)
    .stuck fuel ⟨root, false⟩
  return s.node

end

end Audk.OrderedCollection
