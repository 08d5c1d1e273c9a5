import Chronicle.Interpreter.Failure

/-!
# What is observed while reading the store

Reading the store on behalf of a schema costs lookups: one for each child that is looked for by
name. What is passed over on the way without a failure is remarked on. A result comes with both: the
lookups of a sequence of reads add up, and its remarks stand in order.
-/

namespace Chronicle

/-- Something that is passed over, or done, without a failure. -/
inductive Remark
  | fieldMissing (event : String) (field : String)
  | locationUnknown (name : String)
  | queryUnresolved (path : List Locator)
  | operandUnresolved (path : List Locator)
  | operandUncoercible (e : CoercionError)
  | expectedUncoercible (e : CoercionError)
  | removal (path : String) (t : Int64)
  | peek (path : String) (v : Value)
  | stackForgotten (path : String)
  | stackEmpty (path : String)

/-- Lookups and remarks. -/
structure Observation where
  lookups : Nat := 0
  remarks : List Remark := []

namespace Observation

/-- One observation after another. -/
instance : Append Observation where
  append a b := ⟨a.lookups + b.lookups, a.remarks ++ b.remarks⟩

@[simp] theorem lookups_append (a b : Observation) :
    (a ++ b).lookups = a.lookups + b.lookups := rfl

@[simp] theorem remarks_append (a b : Observation) :
    (a ++ b).remarks = a.remarks ++ b.remarks := rfl

@[simp] theorem empty_append (a : Observation) : ({} : Observation) ++ a = a :=
  congrArg (fun n => (⟨n, a.remarks⟩ : Observation)) (Nat.zero_add a.lookups)

@[simp] theorem append_empty (a : Observation) : a ++ ({} : Observation) = a :=
  congrArg (fun rs => (⟨a.lookups, rs⟩ : Observation)) (List.append_nil a.remarks)

theorem append_assoc (a b c : Observation) : a ++ b ++ c = a ++ (b ++ c) := by
  change Observation.mk _ _ = Observation.mk _ _
  simp only [lookups_append, remarks_append, Nat.add_assoc, List.append_assoc]

end Observation

/-- A result and what was observed on the way to it. -/
structure Observed (α : Type) extends Observation where
  val : α

namespace Observed

variable {α β : Type}

instance : Monad Observed where
  pure a := { val := a }
  bind x f :=
    let y := f x.val
    ⟨x.toObservation ++ y.toObservation, y.val⟩

instance : LawfulMonad Observed :=
  .mk' _ (fun x => by simp [Functor.map]) (fun a f => by simp [bind, pure])
    fun x f g => by simp [bind, Observation.append_assoc]

/-- A remark. -/
def remark (r : Remark) : Observed Unit :=
  { remarks := [r], val := () }

@[simp] theorem val_pure (a : α) : (pure a : Observed α).val = a := rfl

@[simp] theorem lookups_pure (a : α) : (pure a : Observed α).lookups = 0 := rfl

@[simp] theorem remarks_pure (a : α) : (pure a : Observed α).remarks = [] := rfl

@[simp] theorem val_bind (x : Observed α) (f : α → Observed β) : (x >>= f).val = (f x.val).val := rfl

@[simp] theorem lookups_bind (x : Observed α) (f : α → Observed β) :
    (x >>= f).lookups = x.lookups + (f x.val).lookups := rfl

@[simp] theorem remarks_bind (x : Observed α) (f : α → Observed β) :
    (x >>= f).remarks = x.remarks ++ (f x.val).remarks := rfl

end Observed
end Chronicle
