import Chronicle.CommandLine.Reply
import Std.Time.DateTime

/-!
# The program

Performs the command line on the files of the machine. The log and the errors go to the standard
error.
-/

namespace Chronicle

namespace Files

/-- What a path of the machine holds: what can be opened but not read is a folder. -/
def contentsOnDisk (path : String) : IO Contents := do
  match ← (IO.FS.Handle.mk path .read).toBaseIO with
  | .error _ => return .absent
  | .ok handle =>
    match ← handle.readBinToEnd.toBaseIO with
    | .error _ => return .folder
    | .ok b => return .bytes b

/-- Tells whether an action succeeded. -/
def succeeds (action : IO Unit) : IO Bool := do
  match ← action.toBaseIO with
  | .error _ => return false
  | .ok () => return true

instance : Volume IO where
  contents := contentsOnDisk
  makeFolders path := succeeds (IO.FS.createDirAll path)
  write path text := succeeds (IO.FS.writeFile path text)

end Files

/-- A number with zeros before it, up to `width` digits. -/
def padded (width : Nat) (n : Int) : String :=
  let digits := toString n
  String.ofList (List.replicate (width - digits.length) '0') ++ digits

/-- The time of the machine, in UTC and to the nanosecond. -/
def timeOfDay : IO String := do
  let moment :=
    Std.Time.PlainDateTime.ofWallTime ((← Std.Time.Timestamp.now).toWallTime .zero)
  let date := moment.date
  let time := moment.time
  return padded 4 date.year.toInt ++ "-" ++ padded 2 date.month.val ++ "-" ++
    padded 2 date.day.val ++ "T" ++ padded 2 time.hour.val ++ ":" ++ padded 2 time.minute.val ++
    ":" ++ padded 2 time.second.val ++ "." ++ padded 9 time.nanosecond.val ++ "+00:00"

/-- Performs a command line on the files of the machine, and tells its status. -/
def CommandLine.perform (words : List String) : IO UInt32 := do
  let values ← consulted.mapM fun name => return (name, ← IO.getEnv name)
  let environment (name : String) : Option String := (Keyed.get? name values).bind id
  let reply ← respond (← timeOfDay) environment words
  IO.print reply.printed
  IO.eprint reply.complaint
  if reply.status = 2 then
    IO.eprint (Text.printLines usage)
  return UInt32.ofNat reply.status

end Chronicle

/-- Performs the command line. -/
def main (words : List String) : IO UInt32 :=
  Chronicle.CommandLine.perform words
