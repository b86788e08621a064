import TileLower.Document.Writer
import TileLower.Graph.Dump
import TileLower.Graph.Printer
import TileLower.Log.Settings
import TileLower.Lowering.Catalogue
import TileLower.Program.Build
import TileLower.Program.Reader
import TileLower.Rule.Greedy
import TileLower.Tiles

/-!
The command: a program is built, passes are run over its function, and the function is printed. A
pass is a rule or a group of rules.
-/
namespace TileLower

inductive Emit where
  | plain
  | json
  deriving DecidableEq, Repr

structure Command where
  emit : Emit
  tiles : List Int64
  passes : List String
  log : Log.Settings
  deriving Repr

structure Command.Output where
  text : String
  log : String
  deriving Repr

namespace Command

def blank : Command := ⟨.plain, [], [], ⟨"", ""⟩⟩

def emitOf (name : String) : Outcome Emit :=
  match name with
  | "text" => .ok .plain
  | "json" => .ok .json
  | _ => Outcome.fail ("invalid --emit " ++ Text.quote name ++ ": want text or json")

def set (flag value : String) (c : Command) : Outcome Command :=
  match flag with
  | "emit" => do return { c with emit := ← emitOf value }
  | "tiles" => do return { c with tiles := ← Tiles.parse value }
  | "pass" => .ok { c with passes := c.passes ++ [value] }
  | _ => do return { c with log := ← c.log.set flag value }

def parse (args : List String) : Outcome (Option Command) := Flags.read set false blank args

def usage : String :=
  "usage: [--emit text|json] [--tiles n,...] [--pass name]... [--log-level level] " ++
    "[--log-format text|json]\n"

structure Passed where
  graph : Graph
  events : List Greedy.Event

def runPass (tiles : List Int64) (p : Passed) (name : String) : Outcome Passed :=
  match Catalogue.find name tiles with
  | [] => Outcome.fail ("unknown pass " ++ Text.quote name)
  | rules =>
    let patterns : List (Greedy.Pattern Unit) := rules.map .ofRule
    let r := Greedy.apply patterns ⟨Greedy.defaultMaxIterations, true⟩ p.graph ()
    match r.fault with
    | some f => .error f
    | none => .ok ⟨r.graph, p.events ++ r.events⟩

def runPasses (tiles : List Int64) : List String → Passed → Outcome Passed
  | [], p => .ok p
  | name :: rest, p => do runPasses tiles rest (← runPass tiles p name)

def recordOf (e : Greedy.Event) : Log.Record :=
  ⟨Log.Level.debug, e.message, e.fields.map fun f => (f.1, .text f.2)⟩

def render (g : Graph) : Emit → Outcome String
  | .plain => .ok g.print
  | .json => do
    match (← g.document).encode? with
    | some text => .ok (text ++ "\n")
    | none => Outcome.fail "cannot encode the function"

def run (c : Command) (program : String) : Outcome Output := do
  let logger ← c.log.logger
  match Program.decode? program with
  | none => Outcome.fail "cannot read the program"
  | some program => do
    let built ← program.build
    let passed ← runPasses c.tiles c.passes ⟨built.graph, []⟩
    return ⟨← render passed.graph c.emit, logger.write (passed.events.map recordOf)⟩

def runWith (args : List String) (program : String) : Outcome Output := do
  match ← parse args with
  | some c => c.run program
  | none => return ⟨usage, ""⟩

def faultText : Fault → String
  | .abort => "aborted"
  | .error d => d.message

end Command
end TileLower
