import TileLower.Diagnostic
import TileLower.Text.Utf8

/-!
Identifiers in the path of a request. What follows a question mark is a query and does not count. A
path that is escaped as it should be is unescaped, and any other path is taken as it is.
-/
namespace TileLower.Service.Path

def isRefused (b : UInt8) : Bool := b ≤ 0x20 || b = 0x7f

def hexValue? (b : UInt8) : Option UInt8 :=
  if 0x30 ≤ b && b ≤ 0x39 then some (b - 0x30)
  else if 0x41 ≤ b && b ≤ 0x46 then some (b - 0x37)
  else if 0x61 ≤ b && b ≤ 0x66 then some (b - 0x57)
  else none

def unescape? : List UInt8 → Option (List UInt8)
  | [] => some []
  | 0x25 :: a :: b :: rest => do
    let high ← hexValue? a
    let low ← hexValue? b
    return (high * 16 + low) :: (← unescape? rest)
  | b :: rest => if b = 0x25 then none else (unescape? rest).map (b :: ·)

def isPlain (b : UInt8) : Bool :=
  (0x30 ≤ b && b ≤ 0x39) || (0x41 ≤ b && b ≤ 0x5a) || (0x61 ≤ b && b ≤ 0x7a) ||
    (Text.bytes "-_.~$&+,/:;=@").contains b

def hexDigit (n : UInt8) : UInt8 := if n < 10 then 0x30 + n else 0x37 + n

def escape (bs : List UInt8) : List UInt8 :=
  bs.flatMap fun b => if isPlain b then [b] else [0x25, hexDigit (b / 16), hexDigit (b % 16)]

def idBytes (target : String) : Outcome (List UInt8) := do
  let bs := Text.bytes target
  if bs.any isRefused then Outcome.abort
  let path := bs.takeWhile (· ≠ 0x3f)
  let plain ← Outcome.ofOption (unescape? path)
  return if escape plain = path then plain else path

end TileLower.Service.Path
