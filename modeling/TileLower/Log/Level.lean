import TileLower.Diagnostic
import TileLower.Text.Numeral
import TileLower.Text.Quoted

/-!
Levels of log records: numbers, four of which have names. Any level is written as a name and the
distance from it.
-/
namespace TileLower.Log

abbrev Level := Int64

namespace Level

def debug : Level := -4
def info : Level := 0
def warn : Level := 4
def error : Level := 8

def capital (c : Char) : Char :=
  if c = '\u0131' then 'I' else if c = '\u017f' then 'S' else c.toUpper

def ofName? (name : List Char) : Option Level :=
  match String.ofList (name.map capital) with
  | "DEBUG" => some debug
  | "INFO" => some info
  | "WARN" => some warn
  | "ERROR" => some error
  | _ => none

def isSign (c : Char) : Bool := c = '+' || c = '-'

def read? (cs : List Char) : Option Level := do
  let name := cs.takeWhile fun c => !isSign c
  let distance ← match cs.dropWhile fun c => !isSign c with
    | [] => some 0
    | rest => Text.int64? rest
  return (← ofName? name) + distance

def parse (name : String) : Outcome Level :=
  if name = "" then .ok info
  else match read? name.toList with
    | some l => .ok l
    | none => Outcome.fail ("invalid log level " ++ Text.quote name)

def shifted (base : String) (distance : Int64) : String :=
  if distance = 0 then base
  else if 0 < distance then base ++ "+" ++ Text.showInt distance
  else base ++ Text.showInt distance

def render (l : Level) : String :=
  if l < info then shifted "DEBUG" (l - debug)
  else if l < warn then shifted "INFO" (l - info)
  else if l < error then shifted "WARN" (l - warn)
  else shifted "ERROR" (l - error)

end Level
end TileLower.Log
