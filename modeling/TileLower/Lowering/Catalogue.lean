import TileLower.Lowering.Propagation
import TileLower.Lowering.ToKernel
import TileLower.Lowering.ToPrimitive

/-!
All rules, and how they are found by name.
-/
namespace TileLower.Catalogue

def tiled (tiles : List Int64) : List Rule :=
  [Blocking.matmul tiles, Blocking.convNchwFchw tiles, Blocking.convNhwcHwcf tiles,
   Blocking.vnniMatmul tiles]

def untiled : List Rule :=
  [Blocking.degeneralizeMatmul, Propagation.throughPad, Propagation.throughElementwise,
   Propagation.foldPackOfUnpack, Propagation.foldUnpackOfPack] ++
  ToPrimitive.rules ++ ToKernel.rules

def groups : List (String × List Rule) :=
  [("totpp", ToPrimitive.rules), ("toxsmm", ToKernel.rules)]

def find (name : String) (tiles : List Int64) : List Rule :=
  match groups.lookup name with
  | some rules => rules
  | none => (tiled tiles ++ untiled).filter fun r => r.name == name

end TileLower.Catalogue
