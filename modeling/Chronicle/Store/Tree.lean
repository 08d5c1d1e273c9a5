/-!
# The tree of attributes

Attributes have names and form a tree. Each is known by its quark: quarks count from 0 in order of
creation and are never given again, and `-1` stands for the root, which is no attribute itself. An
attribute is found by its parent and its name, and there is at most one of each name under a
parent.

The tree is kept as the list of attributes in order of creation. An attribute is created under the
root or under an attribute that is there already, so parents come before their children.
-/

namespace Chronicle

/-- The handle of an attribute. -/
abbrev Quark := Int

/-- The handle of the root. -/
def Quark.root : Quark := -1

/-- An attribute was to be created under no attribute. -/
structure UnknownParent where
  quark : Quark
deriving DecidableEq, Repr

/-- The wording of the refusal. -/
def UnknownParent.message (u : UnknownParent) : String :=
  "unknown parent quark " ++ toString u.quark

/-- The name and the parent of an attribute. -/
structure Node where
  name : String
  parent : Quark
deriving DecidableEq, Repr

/-- The attributes in order of creation. -/
structure Tree where
  nodes : Array Node := #[]
deriving DecidableEq, Repr

namespace Tree

/-- The number of attributes. -/
def size (t : Tree) : Nat :=
  t.nodes.size

/-- The quarks of the attributes, in order of creation. -/
def quarks (t : Tree) : List Quark :=
  (List.range t.size).map Int.ofNat

/-- The attribute with the given quark. -/
def node? (t : Tree) (q : Quark) : Option Node :=
  q.toNat?.bind fun i => t.nodes[i]?

/-- The quark is that of an attribute. -/
def contains (t : Tree) (q : Quark) : Bool :=
  (t.node? q).isSome

/-- The name of an attribute. -/
def name? (t : Tree) (q : Quark) : Option String :=
  (t.node? q).map Node.name

/-- The parent of an attribute. -/
def parent? (t : Tree) (q : Quark) : Option Quark :=
  (t.node? q).map Node.parent

/-- The attribute of the given name under `parent`. -/
def child? (t : Tree) (parent : Quark) (name : String) : Option Quark :=
  (t.nodes.findIdx? fun node => node.parent == parent && node.name == name).map Int.ofNat

/-- The attribute of the given name under `parent`, created if it is not there. -/
def add (t : Tree) (parent : Quark) (name : String) : Except UnknownParent (Quark × Tree) :=
  if parent = Quark.root ∨ t.contains parent then
    match t.child? parent name with
    | some q => .ok (q, t)
    | none => .ok (Int.ofNat t.size, ⟨t.nodes.push ⟨name, parent⟩⟩)
  else .error ⟨parent⟩

/-- The attribute that names lead to, from `start` on. -/
def walk? (t : Tree) (start : Quark) : List String → Option Quark
  | [] => some start
  | name :: rest => (t.child? start name).bind fun q => t.walk? q rest

/-- The attributes from `q` up to the root, `q` first, as far as `steps` reach. -/
def lineageWithin (t : Tree) : (steps : Nat) → Quark → List Quark
  | 0, _ => []
  | steps + 1, q =>
    match t.parent? q with
    | some parent => q :: t.lineageWithin steps parent
    | none => []

/-- The attributes from `q` up to the root, `q` first; none if there is no attribute `q`. No
lineage is longer than the tree is large. -/
def lineage (t : Tree) (q : Quark) : List Quark :=
  t.lineageWithin t.size q

/-- The names from the root down to an attribute. -/
def path (t : Tree) (q : Quark) : List String :=
  (t.lineage q).reverse.filterMap t.name?

/-- The names from the root down to an attribute, separated by slashes. -/
def pathText (t : Tree) (q : Quark) : String :=
  "/".intercalate (t.path q)

/-- The attributes whose lineage passes through `q`, but for `q` itself, in order of creation. -/
def descendants (t : Tree) (q : Quark) : List Quark :=
  t.quarks.filter fun d => d != q && (t.lineage d).contains q

end Tree
end Chronicle
