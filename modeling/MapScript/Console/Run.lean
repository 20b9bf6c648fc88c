import MapScript.Console.Commands
import MapScript.Reader.Manifest

/-!
# Running commands

Commands as the program runs them, on manifests that are written as JSON.
-/

namespace MapScript.Console

/-- Runs a command and returns its exit status. -/
def Command.run {m : Type → Type} [Monad m] [Host m] (c : Command) : m Nat :=
  c.runWith fun text =>
    match Manifest.parse? text with
    | some found => .ok found
    | none => .error "not a manifest"

end MapScript.Console
