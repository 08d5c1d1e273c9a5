import Chronicle.Command.About
import Chronicle.Command.Validate
import Chronicle.CommandLine.Logging

/-!
# Replies

A reply is what a command line comes to: a status, the text printed, the log, and the error if there
is one. The status is 0 for success, 1 for a command that fails, and 2 for words that make no
request. The error is written behind the log, with its cause.
-/

namespace Chronicle
namespace CommandLine

open Command

/-- What a command line comes to. -/
structure Reply where
  status : Nat
  printed : String := ""
  log : String := ""
  error : Option Error := none

/-- What the line of an error begins with. -/
def errorLabel : String := "Error: "

/-- The lines that tell of an error. -/
def errorReport (e : Error) : List String :=
  (errorLabel ++ e.headline) ::
    e.cause?.toList.flatMap fun cause => ["", "Caused by:", "    " ++ Text.indent cause]

/-- What is written beside the text printed. -/
def Reply.complaint (r : Reply) : String :=
  r.log ++ Text.printLines (r.error.toList.flatMap errorReport)

/-- How the commands are called. -/
def usage : List String :=
  ["Usage: trace-state [-v] COMMAND",
    "",
    "  run -s SCHEMA -e EVENTS [-o OUTPUT] [--no-output] [--summary] [--fail-on-error]",
    "  validate -s SCHEMA",
    "  schema [--show]",
    "  version"]

variable {m : Type → Type} [Monad m] [Files.Volume m]

/-- Does what a request asks for. -/
def Request.perform (now : String) : Request → Session Error m Unit
  | .run o => do
    o.check
    let _ ← o.execute now
  | .validate path => validateSchema path
  | .schema details => Session.print (aboutSchema details)
  | .version => Session.print aboutVersion

/-- The reply to words that end without a request. -/
def Ending.reply : Ending → Reply
  | .misuse => { status := 2 }
  | .help => { status := 0, printed := Text.printLines usage }
  | .version => { status := 0, printed := Text.printLines ["trace-state " ++ programVersion] }

/-- The reply to a command line. -/
def respond (now : String) (env : Environment) (words : List String) : m Reply := do
  match Call.ofWords env words with
  | .error e => return e.reply
  | .ok call =>
    let (result, transcript) ← Session.transcribe (call.request.perform now)
    let printed := transcript.printed
    let log := writeLog now env call.verbose transcript.records
    match result with
    | .ok () => return { status := 0, printed, log }
    | .error e => return { status := 1, printed, log, error := some e }

end CommandLine
end Chronicle
