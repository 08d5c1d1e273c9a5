import Chronicle.Files.Volume
import Chronicle.Log.Record

/-!
# Sessions

A command prints lines and logs what it does, until it ends or fails. A failure keeps what was
printed and logged before it.
-/

namespace Chronicle
namespace Command

/-- What a command has printed and logged. -/
structure Transcript where
  printed : String := ""
  records : List Log.Record := []
deriving DecidableEq, Repr

/-- A command that works on files by way of `m` and may fail for a cause in `ε`. -/
abbrev Session (ε : Type) (m : Type → Type) :=
  ExceptT ε (StateT Transcript m)

namespace Session

variable {ε ε' α : Type} {m : Type → Type} [Monad m]

/-- Prints lines. -/
def print (lines : List String) : Session ε m Unit :=
  modify fun t => { t with printed := t.printed ++ Text.printLines lines }

/-- Logs records. -/
def log (records : List Log.Record) : Session ε m Unit :=
  modify fun t => { t with records := t.records ++ records }

/-- The result of file access. -/
def ask (access : m α) : Session ε m α :=
  ExceptT.lift (StateT.lift access)

/-- The result of file access, where an error ends the command. -/
def expect (access : m (Except ε α)) : Session ε m α :=
  ExceptT.mk (StateT.lift access)

/-- A part of a command, whose causes of failure are told in the terms of the whole. -/
def within (wrap : ε → ε') (part : Session ε m α) : Session ε' m α :=
  ExceptT.adapt wrap part

/-- What a command came to, and what it printed and logged. -/
def transcribe (command : Session ε m α) : m (Except ε α × Transcript) :=
  command.run.run {}

end Session
end Command
end Chronicle
