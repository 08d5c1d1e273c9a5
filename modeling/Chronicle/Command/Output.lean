import Chronicle.Command.Error
import Chronicle.Command.Session
import Chronicle.Dump.Json
import Chronicle.Files.Path

/-!
# Dump files

A dump is written to a path that is not empty and not that of a folder. The folder around the path
is made if nothing is there yet. A dump is read back from the file it was written to.
-/

namespace Chronicle
namespace Command

open Files

variable {m : Type → Type} [Monad m] [Volume m]

/-- A dump can be written to a path that holds what was found. -/
def checkTarget (path : String) (found : Contents) : Except OutputError Unit :=
  if path.isEmpty then .error .emptyPath
  else if found.isFolder then .error (.folder path)
  else .ok ()

/-- Asks whether a dump can be written to a path. -/
def checkOutput (path : String) : m (Except OutputError Unit) :=
  return checkTarget path (← Volume.contents path)

/-- Makes the folder around a path, if nothing is there yet. -/
def makeFolderAround (path : String) : Session OutputError m Unit := do
  match (parent? path).filter fun parent => !parent.isEmpty with
  | none => return
  | some parent =>
    if (← Session.ask (Volume.contents parent)).isPresent then return
    Session.log [Log.debug .dump ("Creating parent directories: " ++ parent)]
    if ← Session.ask (Volume.makeFolders parent) then return
    throw (.noFolder parent)

/-- Writes a dump to a path. -/
def writeDump (d : Dump) (path : String) : Session OutputError m Unit := do
  Session.log [Log.info .dump ("Writing state dump to: " ++ path)]
  Session.expect (checkOutput path)
  makeFolderAround path
  let text := d.render
  unless ← Session.ask (Volume.write path text) do
    throw .notWritten
  Session.log [Log.info .dump
    ("State dump written successfully (" ++ toString text.utf8ByteSize ++ " bytes)")]

/-- The dump that a path holds. -/
def dumpIn : Contents → Except DumpError Dump
  | .absent => .error .notOpened
  | found => (found.document?.bind Dump.read?).elim (.error .notRead) .ok

/-- Reads a dump from a path. -/
def readDump (path : String) : m (Except DumpError Dump) :=
  return dumpIn (← Volume.contents path)

end Command
end Chronicle
