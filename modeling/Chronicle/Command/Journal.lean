import Chronicle.Event.Reader
import Chronicle.Interpreter.Run
import Chronicle.Log.Record

/-!
# Journals as log records

What is left out of a trace and every failed state change is a warning. What the interpreter remarks
on is a detail.
-/

namespace Chronicle

/-- What is left out of a trace, as it is logged. -/
def Omission.toRecord (o : Omission) : Log.Record :=
  Log.warning .events o.message

/-- A failed state change, as it is logged. -/
def Failure.logged (f : Failure) : Log.Record :=
  Log.warning .handlers f.note

/-- A remark, as it is logged. -/
def Remark.toRecord : Remark → Log.Record
  | .fieldMissing event field =>
    Log.debug .names ("Event '" ++ event ++ "' has no field '" ++ field ++ "'")
  | .locationUnknown name => Log.debug .names ("Unknown location '" ++ name ++ "'")
  | .queryUnresolved path =>
    Log.debug .values ("Query path " ++ Locator.describePath path ++ " not present yet")
  | .operandUnresolved path =>
    Log.debug .conditions ("Condition path " ++ Locator.describePath path ++ " not present yet")
  | .operandUncoercible e =>
    Log.debug .conditions
      ("Condition operand evaluation failed: " ++ (ChangeError.uncoercible e).message)
  | .expectedUncoercible e =>
    Log.debug .conditions
      ("Condition expected value evaluation failed: " ++ (ChangeError.uncoercible e).message)
  | .removal path t => Log.debug .changes ("Removing " ++ path ++ " at " ++ toString t.toInt)
  | .peek path v => Log.debug .changes ("Peek at " ++ path ++ ": " ++ v.render)
  | .stackForgotten path => Log.debug .store ("Set discards stack at " ++ path)
  | .stackEmpty path => Log.debug .store ("Pop on empty stack at " ++ path)

/-- An entry of a journal, as it is logged. -/
def Entry.toRecord : Entry → Log.Record
  | .remark r => r.toRecord
  | .failure f => f.logged

/-- What a run logs: its journal, and what came of it. -/
def Report.records (r : Report) : List Log.Record :=
  let failed :=
    if r.isClean then []
    else [Log.info .handlers (toString r.failures.length ++ " state changes failed over " ++
      toString r.processed ++ " events")]
  r.journal.map Entry.toRecord ++ Log.debug .handlers ("Run finished: " ++ r.summary) :: failed

end Chronicle
