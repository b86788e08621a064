import TileLower.Diagnostic
import TileLower.Text.Numeral
import TileLower.Text.Quoted

/-!
Tiles of blocking rules, as they are chosen by a user.
-/
namespace TileLower.Tiles

def parse (s : String) : Outcome (List Int64) :=
  match (Text.splitChars ',' s.toList).mapM fun piece => Text.int64? (Text.trimChars piece) with
  | some tiles => .ok tiles
  | none => Outcome.fail ("invalid tiles " ++ Text.quote s)

inductive Choice where
  | tiles (rule : String) (tiles : List Int64)
  | disable (rule : String)
  deriving DecidableEq, Repr

def Choice.rule : Choice → String
  | .tiles rule _ => rule
  | .disable rule => rule

def ruleNames (tiles : List (String × List Int64)) : List String :=
  (tiles.map Prod.fst).mergeSort fun a b => a ≤ b

end TileLower.Tiles
