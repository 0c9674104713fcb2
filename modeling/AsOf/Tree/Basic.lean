import AsOf.Json.Basic

/-!
# Nodes and trees

A document is a tree of nodes under one root, which only ever grows. In history files and in what commands
answer, nodes have a JSON form.

## Main definitions

* `NodeKind`: what a node is, with its names and values
* `Node`: a node with its place in the tree
* `Tree`: the nodes in the order of their keys
* `Tree.new`, `Tree.append`: the two ways in which trees arise
* `Tree.preorder`: the nodes in document order
* `NodeKind.ofJson?`, `NodeKind.json`: reading and writing
-/

namespace AsOf

/-! ## Nodes

The nodes of a document: elements, attributes and texts below one document root. Every node has a
key, which is a natural number; the document root has the key zero. -/

/-- The key of the document root. -/
def rootKey : Nat := 0

/-- The bound below which a node key can be read. -/
def nodeKeyBound : Nat := 1 <<< 64

/-- What a node is. -/
inductive NodeKind where
  | documentRoot
  | element (name : String)
  | attr (name value : String)
  | text (value : String)
deriving DecidableEq, Inhabited, Repr

/-- A node: its key, the key of its parent unless it is the document root, its kind, and the keys of
its children in order. -/
structure Node where
  key : Nat
  parent : Option Nat
  kind : NodeKind
  children : List Nat
deriving DecidableEq, Inhabited, Repr

/-! ## Growing trees

The nodes of one document. A tree starts with the document root and grows by one node at a time;
nodes are never removed. A new node gets the least key that is not in use. -/

/-- The nodes of a document in the order of their keys. -/
structure Tree where
  nodes : Array Node
deriving DecidableEq

namespace Tree

/-- The tree that consists of the document root. -/
def new : Tree := ⟨#[⟨rootKey, none, .documentRoot, []⟩]⟩

instance : Inhabited Tree := ⟨new⟩

/-- How many nodes there are. -/
def size (t : Tree) : Nat := t.nodes.size

/-- Whether there is no node. -/
def isEmpty (t : Tree) : Bool := t.nodes.isEmpty

/-- The node with a key. -/
def get? (t : Tree) (key : Nat) : Option Node := t.nodes[key]?

/-- Whether there is a node with a key. -/
def contains (t : Tree) (key : Nat) : Bool := key < t.nodes.size

/-- The key that the next node gets. -/
def nextKey (t : Tree) : Nat := t.nodes.size

/-- The key of a new last child of the node `parent`, and the tree with it; a node that is not
there has no children. -/
def append (t : Tree) (parent : Nat) (kind : NodeKind) : Option (Nat × Tree) :=
  if t.contains parent then
    let key := t.nextKey
    let linked := t.nodes.modify parent fun node => { node with children := node.children ++ [key] }
    some (key, ⟨linked.push ⟨key, some parent, kind, []⟩⟩)
  else none

/-- The nodes below and including the given ones, each before its children and those before the
next. The fuel bounds how many nodes are visited. -/
def visit (t : Tree) : Nat → List Nat → List Node
  | 0, _ => []
  | _, [] => []
  | fuel + 1, key :: rest =>
    match t.get? key with
    | some node => node :: t.visit fuel (node.children ++ rest)
    | none => t.visit fuel rest

/-- The nodes in document order. -/
def preorder (t : Tree) : List Node := t.visit t.size [rootKey]

@[simp]
theorem size_new : new.size = 1 := rfl

theorem contains_iff {t : Tree} {key : Nat} : t.contains key = true ↔ key < t.size := by
  simp [contains, size]

theorem size_of_append {t u : Tree} {parent key : Nat} {kind : NodeKind}
    (h : t.append parent kind = some (key, u)) : key = t.size ∧ u.size = t.size + 1 := by
  unfold append at h
  split at h
  · simp only [Option.some.injEq, Prod.mk.injEq] at h
    obtain ⟨rfl, rfl⟩ := h
    simp [size, nextKey]
  · simp at h

/-- The nodes after one was appended: the new one under the next key, its parent with one more
child, all others as before. -/
theorem get?_append {t u : Tree} {parent key : Nat} {kind : NodeKind}
    (h : t.append parent kind = some (key, u)) (k : Nat) :
    u.get? k =
      if k = t.size then some ⟨t.size, some parent, kind, []⟩
      else if k = parent then
        (t.get? k).map fun node => { node with children := node.children ++ [t.size] }
      else t.get? k := by
  unfold append at h
  split at h
  · simp only [Option.some.injEq, Prod.mk.injEq] at h
    obtain ⟨rfl, rfl⟩ := h
    simp only [get?, nextKey, size, Array.getElem?_push, Array.size_modify]
    by_cases hk : k = t.nodes.size
    · simp [hk]
    · simp only [hk, if_false, Array.getElem?_modify]
      by_cases hp : k = parent
      · simp [hp]
      · simp [hp, Ne.symm hp]
  · simp at h

/-- A node that is not there gets no children. -/
theorem append_eq_none {t : Tree} {parent : Nat} {kind : NodeKind} :
    t.append parent kind = none ↔ t.size ≤ parent := by
  simp [append, contains, size]

end Tree

/-! ## The JSON form of node kinds

An element, an attribute or a text is an object whose only member is named for the kind and holds
its names and values; the document root is a word. -/

namespace Json

/-- The one text that a record consists of. -/
def oneText? (name : String) (value : Json) : Option String := do
  let [some content] ← value.fields? [name] | none
  content.string?

/-- The two texts that a record consists of. -/
def twoTexts? (first second : String) (value : Json) : Option (String × String) := do
  let [some a, some b] ← value.fields? [first, second] | none
  return (← a.string?, ← b.string?)

end Json

namespace NodeKind

/-- The kind that a value stands for. -/
def ofJson? (value : Json) : Option NodeKind := do
  match ← value.alternative? with
  | ("document_root", rest) => if Json.isBare rest then some documentRoot else none
  | ("element", some value) => (value.oneText? "name").map element
  | ("attribute", some value) =>
    (value.twoTexts? "name" "value").map fun (name, value) => attr name value
  | ("text", some value) => (value.oneText? "value").map text
  | _ => none

/-- The value that stands for a kind. -/
def json : NodeKind → Json
  | documentRoot => .ofString "document_root"
  | element name => .record [("element", .record [("name", .ofString name)])]
  | attr name value =>
    .record [("attribute", .record [("name", .ofString name), ("value", .ofString value)])]
  | text value => .record [("text", .record [("value", .ofString value)])]

end NodeKind

end AsOf
