import Chronicle.Interpreter.Evaluation
import Chronicle.Schema.Handler

/-!
# Applying state changes

An assignment grows its target path from the root, asks its term what is to be done, and mutates the
target at the time of the event. It fails without a mutation when the path or the term has nothing
to give, and then what was grown stays. A choice applies the branch that its condition selects, and
does nothing if that branch is absent.

The changes of a handler are applied in order, each on the store that the one before left. A failed
change does not stop those after it.
-/

namespace Chronicle

/-- What applying state changes did: the failures, the store, what was observed, and the attributes
that mutations were tried on, refused ones included. -/
structure Effect (ε : Type) extends Observation where
  failures : ε
  store : Store
  tried : List Quark := []

namespace Store

/-- What is remarked on when a mutation of `q` is performed. -/
def remarks (s : Store) (q : Quark) : Mutation → List Remark
  | .set _ => if s.depth q = 0 then [] else [.stackForgotten (s.tree.pathText q)]
  | .pop => if s.depth q = 0 then [.stackEmpty (s.tree.pathText q)] else []
  | _ => []

end Store

namespace Change

/-- Assigns a term to the attribute at a path. -/
def assignTo (scope : Scope) (s : Store) (path : List Locator) (m : Term) :
    Effect (Except ChangeError Unit) :=
  let target := scope.grow s Quark.root path
  match target.result with
  | .error _ => ⟨target.toObservation, .error (.attributeNotFound path), target.store, []⟩
  | .ok q =>
    let asked := m.mutation? scope target.store q
    let seen := target.toObservation ++ asked.toObservation
    match asked.val with
    | .error e => ⟨seen, .error e, target.store, []⟩
    | .ok none => ⟨seen, .ok (), target.store, []⟩
    | .ok (some mutation) =>
      match target.store.mutate q scope.event.timestamp mutation with
      | .ok after => ⟨seen ++ { remarks := target.store.remarks q mutation }, .ok (), after, [q]⟩
      | .error r => ⟨seen, .error (.refused r), target.store, [q]⟩

mutual

/-- Applies a state change. -/
def apply (scope : Scope) (s : Store) : Change → Effect (Except ChangeError Unit)
  | .assign path m => assignTo scope s path m
  | .conditional c yes no =>
    let selected := c.test scope s
    let after := if selected.val then applyBranch scope s yes else applyBranch scope s no
    { after with toObservation := selected.toObservation ++ after.toObservation }

/-- Applies a branch, if there is one. -/
def applyBranch (scope : Scope) (s : Store) : Option Change → Effect (Except ChangeError Unit)
  | none => ⟨{}, .ok (), s, []⟩
  | some change => change.apply scope s

end

/-- Applies state changes in order; a failure is told with the place of its change, counted from
`index`. -/
def applyFrom (scope : Scope) (s : Store) (index : Nat) :
    List Change → Effect (List (Nat × ChangeError))
  | [] => ⟨{}, [], s, []⟩
  | change :: rest =>
    let first := change.apply scope s
    let later := applyFrom scope first.store (index + 1) rest
    let failure :=
      match first.failures with
      | .ok () => []
      | .error e => [(index, e)]
    ⟨first.toObservation ++ later.toObservation, failure ++ later.failures, later.store,
      first.tried ++ later.tried⟩

end Change

namespace Handler

/-- Applies the changes of a handler, whatever its pattern. -/
def handle (scope : Scope) (s : Store) (h : Handler) : Effect (List (Nat × ChangeError)) :=
  Change.applyFrom scope s 0 h.changes

end Handler
end Chronicle
