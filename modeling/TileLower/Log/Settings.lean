import TileLower.Flags
import TileLower.Log.Record

/-!
Settings of the log, from a configuration and from the command line.
-/
namespace TileLower.Log

structure Settings where
  level : String
  format : String
  deriving DecidableEq, Repr

namespace Settings

def formatOf (name : String) : Outcome Format :=
  if name = "" ∨ name = "text" then .ok .plain
  else if name = "json" then .ok .json
  else Outcome.fail ("invalid log format " ++ Text.quote name)

def logger (s : Settings) : Outcome Logger := do
  let level ← Level.parse s.level
  return ⟨level, ← formatOf s.format⟩

def set (flag value : String) (s : Settings) : Outcome Settings :=
  match flag with
  | "log-level" => .ok { s with level := value }
  | "log-format" => .ok { s with format := value }
  | _ => Flags.unknown flag

def override (s : Settings) (args : List String) : Outcome Settings := do
  return (← Flags.read set false s args).getD s

end Settings
end TileLower.Log
