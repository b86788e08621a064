/-!
Texts as bytes. Every text has its bytes in UTF-8; of bytes that are no text, each one that does not
belong to a character is read as U+FFFD.
-/
namespace TileLower.Text

def bytes (s : String) : List UInt8 := s.toList.flatMap String.utf8EncodeChar

def continuation? (b : UInt8) : Option Nat :=
  if 0x80 ≤ b && b < 0xc0 then some (b.toNat - 0x80) else none

def codePoint? (least code : Nat) : Option Char :=
  if code < least || (0xd800 ≤ code && code < 0xe000) || 0x10ffff < code then none
  else some (Char.ofNat code)

def leading? : List UInt8 → Option (Char × Nat)
  | [] => none
  | a :: rest =>
    if a < 0x80 then some (Char.ofNat a.toNat, 1)
    else if a < 0xc0 then none
    else if a < 0xe0 then
      match rest with
      | b :: _ => do
        let b ← continuation? b
        return (← codePoint? 0x80 ((a.toNat - 0xc0) * 64 + b), 2)
      | _ => none
    else if a < 0xf0 then
      match rest with
      | b :: c :: _ => do
        let b ← continuation? b
        let c ← continuation? c
        return (← codePoint? 0x800 (((a.toNat - 0xe0) * 64 + b) * 64 + c), 3)
      | _ => none
    else
      match rest with
      | b :: c :: d :: _ => do
        let b ← continuation? b
        let c ← continuation? c
        let d ← continuation? d
        return (← codePoint? 0x10000 ((((a.toNat - 0xf0) * 64 + b) * 64 + c) * 64 + d), 4)
      | _ => none

def charsFrom : Nat → List UInt8 → List Char
  | _, [] => []
  | skip + 1, _ :: rest => charsFrom skip rest
  | 0, b :: rest =>
    match leading? (b :: rest) with
    | some (c, n) => c :: charsFrom (n - 1) rest
    | none => '\ufffd' :: charsFrom 0 rest

def ofBytes (bs : List UInt8) : String := String.ofList (charsFrom 0 bs)

def ofBytes? (bs : List UInt8) : Option String :=
  let s := ofBytes bs
  if bytes s = bs then some s else none

end TileLower.Text
