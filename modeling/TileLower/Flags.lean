import TileLower.Diagnostic
import TileLower.Text.Numeral
import TileLower.Text.Utf8

/-!
Flags of a command line. A flag has its value behind an equals sign or in the next argument, whatever
that is. Other arguments are let pass; an empty one, a dash and two dashes end the flags. Blanks around
an argument do not count.
-/
namespace TileLower.Flags

inductive Argument where
  | flag (name : String) (value : Option String)
  | other (text : String)
  | last
  deriving DecidableEq, Repr

def split (cs : List Char) : Argument :=
  let name := String.ofList (cs.takeWhile (· ≠ '='))
  match cs.dropWhile (· ≠ '=') with
  | [] => .flag name none
  | _ :: value => .flag name (some (String.ofList value))

def beginsName (c : Char) : Bool :=
  c.isAlpha || (0x80 ≤ c.toNat && (Text.bytes (String.ofList [c])).head? != some 0xd7)

def Argument.ofText (arg : String) : Argument :=
  match (Text.trim arg).toList with
  | [] | ['-'] | ['-', '-'] => .last
  | '-' :: '-' :: cs => split cs
  | '-' :: c :: cs => if beginsName c then split (c :: cs) else .other (Text.trim arg)
  | cs => .other (String.ofList cs)

def isHelp (name : String) : Bool := name == "help" || name == "h"

def switch? : String → Option Bool
  | "" | "1" | "t" | "T" | "true" | "TRUE" | "True" => some true
  | "0" | "f" | "F" | "false" | "FALSE" | "False" => some false
  | _ => none

variable {σ : Type}

def needsValue (arg : String) : Outcome σ :=
  Outcome.fail ("flag needs an argument: " ++ Text.trim arg)

def read (set : String → String → σ → Outcome σ) : Bool → σ → List String → Outcome (Option σ)
  | help, s, [] => .ok (if help then none else some s)
  | help, s, arg :: rest =>
    match Argument.ofText arg, rest with
    | .last, _ => .ok (if help then none else some s)
    | .other text, rest => if isHelp text then .ok none else read set help s rest
    | .flag name value, rest =>
      if isHelp name then
        match switch? (value.getD "") with
        | some on => read set on s rest
        | none => Outcome.fail ("invalid value for flag -" ++ name)
      else match value, rest with
        | some "", _ => needsValue arg
        | some value, rest => do read set help (← set name value s) rest
        | none, value :: rest => do read set help (← set name value s) rest
        | none, [] => needsValue arg

def unknown (name : String) : Outcome σ :=
  Outcome.fail ("flag provided but not defined: -" ++ name)

end TileLower.Flags
