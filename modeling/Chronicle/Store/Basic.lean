import Chronicle.Store.Track
import Chronicle.Store.Tree

/-!
# The store

A store is a tree of attributes, a track for each, and a clock: the time of the latest mutation.
A mutation names an attribute and a time and is refused, in this order, when there is no such
attribute, when the time lies before the clock, and, for an increment, when the sum is no 32-bit
integer. A mutation that is not refused sets the clock to its time.

| mutation | what it does to the attribute |
| --- | --- |
| `set v` | holds `v`, forgets the stack |
| `increment d` | adds `d` to the integer held, `null` counting as 0 |
| `push v` | holds `v`, which goes on the stack |
| `pop` | takes the top off the stack and holds the next; nothing if the stack is empty |
| `remove` | holds nothing and forgets the stack, and so does every descendant |
-/

namespace Chronicle

/-- A change to what is recorded of an attribute. -/
inductive Mutation
  | set (v : Value)
  | increment (delta : Int32)
  | push (v : Value)
  | pop
  | remove
deriving DecidableEq, Repr

namespace Mutation

/-- What the mutation does, at time `t`, to the track of each attribute that it reaches. -/
def act (t : Int64) : Mutation → Track → Track
  | .set v, k => k.set t v
  | .increment delta, k => k.increment t delta
  | .push v, k => k.push t v
  | .pop, k => k.pop t
  | .remove, k => k.clear t

/-- The attributes that the mutation reaches. -/
def reach (tree : Tree) (q : Quark) : Mutation → List Quark
  | .remove => tree.descendants q ++ [q]
  | _ => [q]

end Mutation

/-- Attributes, what is recorded of each, and the time of the latest mutation. -/
structure Store where
  tree : Tree := {}
  tracks : Array Track := #[]
  clock : Option Int64 := none
deriving DecidableEq, Repr

namespace Store

/-- Why a mutation is refused. -/
inductive Refusal
  | unknownQuark (q : Quark)
  | late (timestamp clock : Int64)
  | notAnInt (delta : Int32) (path : String) (held : Value)
  | overflow (path : String) (held delta : Int32)
deriving DecidableEq, Repr

/-- What is wrong with the values of a mutation, for a refusal that is about values. -/
def Refusal.mismatch? : Refusal → Option String
  | .notAnInt delta path held => some ("cannot increment " ++ toString delta.toInt ++ " at " ++
      path ++ ": ongoing value " ++ held.render ++ " is not an int")
  | .overflow path held delta => some ("increment overflow at " ++ path ++ ": " ++
      toString held.toInt ++ " + " ++ toString delta.toInt)
  | _ => none

/-- The wording of a refusal. -/
def Refusal.message : Refusal → String
  | .unknownQuark q => "Invalid attribute quark: " ++ toString q
  | .late t c => "Timestamp " ++ toString t.toInt ++ " is older than the store's current time " ++
      toString c.toInt
  | e => "Type mismatch: " ++ e.mismatch?.getD ""

/-- What is recorded of an attribute; an attribute that is not there was never written. -/
def track (s : Store) (q : Quark) : Track :=
  (q.toNat?.bind fun i => s.tracks[i]?).getD {}

/-- The value an attribute holds. -/
def ongoing (s : Store) (q : Quark) : Value :=
  (s.track q).ongoing

/-- Since when an attribute holds its value. -/
def since (s : Store) (q : Quark) : Option Int64 :=
  (s.track q).since

/-- The closed intervals of an attribute, oldest first. -/
def intervals (s : Store) (q : Quark) : List Interval :=
  (s.track q).closed.toList

/-- The number of values on the stack of an attribute. -/
def depth (s : Store) (q : Quark) : Nat :=
  (s.track q).stack.length

/-- The value an attribute held at time `t`. -/
def valueAt (s : Store) (q : Quark) (t : Int64) : Value :=
  (s.track q).valueAt t

/-- The attribute of the given name under `parent`, created if it is not there. -/
def create (s : Store) (parent : Quark) (name : String) :
    Except UnknownParent (Quark × Store) :=
  (s.tree.add parent name).map fun (q, tree) =>
    (q, { s with
          tree
          tracks := s.tracks ++ Array.replicate (tree.size - s.tracks.size) {} })

/-- The store with the track of one attribute changed. -/
def modify (s : Store) (q : Quark) (f : Track → Track) : Store :=
  match q.toNat? with
  | some i => { s with tracks := s.tracks.modify i f }
  | none => s

/-- A mutation of `q` at time `t` has an attribute to change and is not late. -/
def permit (s : Store) (q : Quark) (t : Int64) : Except Refusal Unit :=
  if s.tree.contains q then
    match s.clock with
    | some c => if t < c then .error (.late t c) else .ok ()
    | none => .ok ()
  else .error (.unknownQuark q)

/-- A mutation adds up on the value held. -/
def addsUp (s : Store) (q : Quark) : Mutation → Except Refusal Unit
  | .increment delta =>
    match (s.track q).sum delta with
    | .ok _ => .ok ()
    | .error (.notAnInt v) => .error (.notAnInt delta (s.tree.pathText q) v)
    | .error (.overflow n) => .error (.overflow (s.tree.pathText q) n delta)
  | _ => .ok ()

/-- The store after a mutation of `q` at time `t` that is not refused. -/
def perform (s : Store) (q : Quark) (t : Int64) (m : Mutation) : Store :=
  (m.reach s.tree q).foldl (fun s d => s.modify d (m.act t)) { s with clock := some t }

/-- The store after a mutation of `q` at time `t`, or why it is refused. -/
def mutate (s : Store) (q : Quark) (t : Int64) (m : Mutation) : Except Refusal Store := do
  s.permit q t
  s.addsUp q m
  return s.perform q t m

/-- Mutates by adding to the integer held, and tells the sum. -/
def increment (s : Store) (q : Quark) (t : Int64) (delta : Int32) :
    Except Refusal (Value × Store) := do
  let after ← s.mutate q t (.increment delta)
  return (after.ongoing q, after)

/-- Mutates by taking the top off the stack, and tells what was on top. -/
def pop (s : Store) (q : Quark) (t : Int64) : Except Refusal (Option Value × Store) := do
  let after ← s.mutate q t .pop
  return ((s.track q).stack.head?, after)

end Store
end Chronicle
