import TileLower.Json.Scan

/-!
Escapes in JSON texts: one byte after the backslash, or `u` and four hexadecimal digits. Two escapes in
a row that are the halves of a surrogate pair stand for one character; half a pair alone stands for
U+FFFD.
-/
namespace TileLower.Json

def hexDigit? (b : UInt8) : Option Nat :=
  let c := asChar b
  if '0' ≤ c ∧ c ≤ '9' then some (c.toNat - '0'.toNat)
  else if 'a' ≤ c ∧ c ≤ 'f' then some (c.toNat - 'a'.toNat + 10)
  else if 'A' ≤ c ∧ c ≤ 'F' then some (c.toNat - 'A'.toNat + 10)
  else none

def unit? (checked : Bool) (a b c d : UInt8) : Option Nat :=
  let digits := [a, b, c, d].map hexDigit?
  if checked && digits.any Option.isNone then none
  else some (digits.foldl (fun n x => n * 16 + x.getD 0) 0)

def isHigh (u : Nat) : Bool := 0xd800 ≤ u && u < 0xdc00
def isLow (u : Nat) : Bool := 0xdc00 ≤ u && u < 0xe000

def charOf (u : Nat) : Char := if isHigh u || isLow u then '\ufffd' else Char.ofNat u

def pairChar (high low : Nat) : Char :=
  Char.ofNat (0x10000 + (high - 0xd800) * 0x400 + (low - 0xdc00))

def shortEscape? (b : UInt8) : Option UInt8 :=
  match asChar b with
  | '"' => some 0x22
  | '\\' => some 0x5c
  | '/' => some 0x2f
  | 'b' => some 0x08
  | 'f' => some 0x0c
  | 'n' => some 0x0a
  | 'r' => some 0x0d
  | 't' => some 0x09
  | _ => none

def lowHalf? (src : Source) : Bytes → Option Nat
  | s :: u :: a :: b :: c :: d :: after =>
    if asChar s = '\\' && asChar u = 'u' && (src == .whole || !after.isEmpty) then
      (unit? (src == .whole) a b c d).filter isLow
    else none
  | _ => none

def textEscape? (src : Source) : Bytes → Option (Bytes × Nat)
  | [] => none
  | e :: rest =>
    if asChar e = 'u' then
      match rest with
      | a :: b :: c :: d :: after => do
        if src == .stream && after.isEmpty then none
        let u ← unit? (src == .whole) a b c d
        match (if isHigh u then lowHalf? src after else none) with
        | some low => some (String.utf8EncodeChar (pairChar u low), 11)
        | none => some (String.utf8EncodeChar (charOf u), 5)
      | _ => none
    else (shortEscape? e).map fun b => ([b], 1)

/-- An escape in the name of a field: the bytes it stands for, how many bytes after the backslash it
takes, and after how many of them the text is passed over if the name is none of those known. -/
structure KeyEscape where
  bytes : Bytes
  taken : Nat
  resume : Nat

def keyEscape? (src : Source) : Bytes → Option KeyEscape
  | [] => none
  | e :: rest =>
    if asChar e = 'u' then
      match rest with
      | a :: b :: c :: d :: after => do
        if src == .stream && after.isEmpty then none
        let u ← unit? false a b c d
        let resume := match src with
          | .whole => 1
          | .stream => if isHigh u || isLow u then 9 else 5
        some ⟨String.utf8EncodeChar (charOf u), 5, resume⟩
      | _ => none
    else match shortEscape? e, src with
      | some b, .whole => some ⟨[b], 2, 1⟩
      | some b, .stream => some ⟨[b], 2, 2⟩
      | none, .whole => some ⟨[], 2, 1⟩
      | none, .stream => none

end TileLower.Json
