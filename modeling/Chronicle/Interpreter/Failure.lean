import Chronicle.Schema.Term
import Chronicle.Store.Basic
import Chronicle.Value.Coercion

/-!
# Failures of state changes

A state change fails when its target has no name, when its value cannot be had, or when the store
refuses the mutation. Failures are sorted into three categories, in this order:

| category | cause |
| --- | --- |
| `attribute_not_found` | the target path does not resolve |
| `invalid_mutation` | a value that cannot be coerced or added, or an unknown attribute |
| `out_of_order` | a mutation that is late |
-/

namespace Chronicle

/-- Why a state change fails. -/
inductive ChangeError
  | attributeNotFound (path : List Locator)
  | uncoercible (e : CoercionError)
  | literalDelta (v : Value)
  | fieldDelta (name : String) (v : Value)
  | noDelta (source : Source)
  | refused (r : Store.Refusal)

/-- The categories of failures. -/
inductive ChangeError.Category
  | attributeNotFound
  | invalidMutation
  | outOfOrder
deriving DecidableEq, Repr

namespace ChangeError

/-- The name of a category. -/
def Category.name : Category → String
  | .attributeNotFound => "attribute_not_found"
  | .invalidMutation => "invalid_mutation"
  | .outOfOrder => "out_of_order"

/-- The categories in order. -/
def Category.all : List Category :=
  [.attributeNotFound, .invalidMutation, .outOfOrder]

/-- The category of a failure. -/
def category : ChangeError → Category
  | .attributeNotFound _ => .attributeNotFound
  | .refused (.late _ _) => .outOfOrder
  | _ => .invalidMutation

/-- What is wrong with a mutation. -/
def mutationFault : ChangeError → String
  | .uncoercible e => e.message
  | .literalDelta v => "increment literal must be an int, got " ++ v.render
  | .fieldDelta name v => "increment field '" ++ name ++ "' must be numeric, got " ++ v.render
  | .noDelta source => "increment is not supported for " ++ source.spell
  | .refused (.unknownQuark q) => "invalid quark " ++ toString q
  | .refused r => r.mismatch?.getD ""
  | .attributeNotFound _ => ""

/-- The wording of a failure. -/
def message : ChangeError → String
  | .attributeNotFound path => "Attribute not found: " ++ Locator.describePath path
  | .refused (.late t c) => "Out of order: event at " ++ toString t.toInt ++
      " is older than store time " ++ toString c.toInt
  | e => "Invalid mutation: " ++ e.mutationFault

end ChangeError
end Chronicle
