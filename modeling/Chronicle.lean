import Chronicle.Files.Memory
import Chronicle.Main
import Chronicle.Proofs.Interpreter.Batches
import Chronicle.Proofs.Interpreter.Causes
import Chronicle.Proofs.Interpreter.Counting
import Chronicle.Proofs.Interpreter.Footprint
import Chronicle.Proofs.Interpreter.History
import Chronicle.Proofs.Interpreter.Inlining
import Chronicle.Proofs.Interpreter.Lateness
import Chronicle.Proofs.Interpreter.Present
import Chronicle.Proofs.Interpreter.Retiming
import Chronicle.Proofs.Interpreter.Stored
import Chronicle.Proofs.Interpreter.Termination
import Chronicle.Proofs.Interpreter.Testing
import Chronicle.Proofs.Interpreter.Unresolved
import Chronicle.Proofs.Schema.References
import Chronicle.Proofs.Schema.Reloading
import Chronicle.Proofs.Schema.Exact
import Chronicle.Proofs.Store.Commuting
import Chronicle.Proofs.Store.Log
import Chronicle.Proofs.Store.Nesting
import Chronicle.Proofs.Command.Inputs
import Chronicle.Proofs.Store.Descendants
import Chronicle.Proofs.Store.Removal
import Chronicle.Proofs.Store.Rendering
import Chronicle.Proofs.Dump.Captured
import Chronicle.Proofs.Json.Printed
import Chronicle.Proofs.Text.Bytes
import Chronicle.Proofs.Dump.Written
import Chronicle.Proofs.Event.Rendered
import Chronicle.Proofs.Event.Decoded
import Chronicle.Proofs.Event.Recovered
import Chronicle.Proofs.Value.Coercion
