import Chronicle.Dump.Tally
import Chronicle.Interpreter.Run

/-!
# State dumps

A dump is a record of a store and of the run that filled it. It has one record for each attribute,
in the order of their paths; attributes with the same path stay in order of creation. It has one
record for each failure, in order, and the number of failures in each category that occurs.
-/

namespace Chronicle

/-- A failure in a dump. -/
structure FailureRecord where
  event : String
  timestamp : Int64
  handler : String
  index : Nat
  kind : String
  message : String
deriving DecidableEq, Repr

/-- An attribute in a dump. -/
structure AttributeRecord where
  path : String
  ongoing : Value
  since : Option Int64
  intervals : List Interval
deriving DecidableEq, Repr

/-- A record of a store and of the run that filled it. -/
structure Dump where
  version : String
  generatedAt : String
  processed : Nat
  endTime : Option Int64
  failureCounts : Tally
  failures : List FailureRecord
  attributes : List AttributeRecord

namespace Failure

/-- The failure as it stands in a dump. -/
def toRecord (f : Failure) : FailureRecord :=
  ⟨f.event, f.timestamp, f.handler, f.index, f.error.category.name, f.error.message⟩

end Failure

namespace Store

/-- The attribute as it stands in a dump. -/
def toRecord (s : Store) (q : Quark) : AttributeRecord :=
  ⟨s.tree.pathText q, s.ongoing q, s.since q, s.intervals q⟩

end Store

namespace Dump

/-- The version of the dump format. -/
def formatVersion : String := "1.0.0"

/-- The dump of a store and of the run that filled it. -/
def capture (s : Store) (r : Report) (generatedAt : String) : Dump where
  version := formatVersion
  generatedAt := generatedAt
  processed := r.processed
  endTime := s.clock
  failureCounts := Tally.ofList (r.counts.map fun (c, n) => (c.name, n))
  failures := r.failures.map Failure.toRecord
  attributes := (s.tree.quarks.map s.toRecord).mergeSort fun a b => decide (a.path ≤ b.path)

/-- The first attribute with the given path. -/
def attribute? (d : Dump) (path : String) : Option AttributeRecord :=
  d.attributes.find? fun a => a.path == path

end Dump
end Chronicle
