import Chronicle.Value.Basic

/-!
# The track of an attribute

A track is what is recorded of one attribute: the value it holds and since when, the closed
intervals in which it held other values before, and a stack of values.

* Intervals are half-open: an interval holds from its start up to but without its end.
* A write closes the ongoing interval and opens a new one. A second write at the same time replaces
  the first, so no interval is empty.
* The top of a stack that is not empty is the value the attribute holds.
-/

namespace Chronicle

/-- A closed period in which an attribute held one value. -/
structure Interval where
  start : Int64
  stop : Int64
  value : Value
deriving DecidableEq, Repr

/-- The time lies in the interval. -/
def Interval.covers (i : Interval) (t : Int64) : Bool :=
  i.start ≤ t && t < i.stop

/-- What is recorded of one attribute. An attribute that was never written holds `null` since no
time. -/
structure Track where
  ongoing : Value := .null
  since : Option Int64 := none
  closed : Array Interval := #[]
  stack : List Value := []
deriving DecidableEq, Repr

/-- Why an increment does not add up. -/
inductive SumError
  | notAnInt (held : Value)
  | overflow (held : Int32)
deriving DecidableEq, Repr

namespace Track

instance : Inhabited Track := ⟨{}⟩

/-- Holds `v` from time `t` on. -/
def write (k : Track) (t : Int64) (v : Value) : Track :=
  { k with
    ongoing := v
    since := some t
    closed :=
      match k.since with
      | some s => if s < t then k.closed.push ⟨s, t, k.ongoing⟩ else k.closed
      | none => k.closed }

/-- The value held at time `t`; `null` before the first write. -/
def valueAt (k : Track) (t : Int64) : Value :=
  match k.closed.find? (·.covers t) with
  | some i => i.value
  | none =>
    match k.since with
    | some s => if s ≤ t then k.ongoing else .null
    | none => .null

/-- The ongoing integer with `delta` added, `null` counting as 0. -/
def sum (k : Track) (delta : Int32) : Except SumError Int32 :=
  match k.ongoing with
  | .null => .ok delta
  | .int n =>
    if -2147483648 ≤ n.toInt + delta.toInt ∧ n.toInt + delta.toInt ≤ 2147483647 then .ok (n + delta)
    else .error (.overflow n)
  | v => .error (.notAnInt v)

/-- Holds `v` and forgets the stack. -/
def set (k : Track) (t : Int64) (v : Value) : Track :=
  { k.write t v with stack := [] }

/-- Adds to the ongoing integer, where that adds up. -/
def increment (k : Track) (t : Int64) (delta : Int32) : Track :=
  match k.sum delta with
  | .ok n => k.write t (.int n)
  | .error _ => k

/-- Puts `v` on the stack and holds it. -/
def push (k : Track) (t : Int64) (v : Value) : Track :=
  { k.write t v with stack := v :: k.stack }

/-- Takes the top off the stack and holds what is then on top, or `null`; an empty stack changes
nothing. -/
def pop (k : Track) (t : Int64) : Track :=
  match k.stack with
  | [] => k
  | _ :: rest => { k.write t (rest.headD .null) with stack := rest }

/-- Forgets the stack and holds nothing; an attribute that holds nothing is not written. -/
def clear (k : Track) (t : Int64) : Track :=
  let k := { k with stack := [] }
  if k.ongoing.isNull then k else k.write t .null

@[simp] theorem write_ongoing (k : Track) (t : Int64) (v : Value) :
    (k.write t v).ongoing = v := rfl

@[simp] theorem write_since (k : Track) (t : Int64) (v : Value) :
    (k.write t v).since = some t := rfl

@[simp] theorem write_stack (k : Track) (t : Int64) (v : Value) :
    (k.write t v).stack = k.stack := rfl

end Track
end Chronicle
