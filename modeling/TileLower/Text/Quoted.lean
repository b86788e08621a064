import TileLower.Text.Printable

/-!
Quoted text. A quote and a backslash are escaped, printable characters stand for themselves and all
other characters are written by a short escape or by their code point.
-/
namespace TileLower.Text

def hex (width n : Nat) : List Char :=
  let digits := Nat.toDigits 16 n
  List.replicate (width - digits.length) '0' ++ digits

def shortEscape : Char → Option Char
  | '\x07' => some 'a'
  | '\x08' => some 'b'
  | '\x0c' => some 'f'
  | '\n' => some 'n'
  | '\r' => some 'r'
  | '\t' => some 't'
  | '\x0b' => some 'v'
  | _ => none

def quotedChar (c : Char) : List Char :=
  if c = '"' || c = '\\' then ['\\', c]
  else if isPrintable c then [c]
  else match shortEscape c with
    | some e => ['\\', e]
    | none =>
      let code := c.toNat
      if code < 0x80 then '\\' :: 'x' :: hex 2 code
      else if code < 0x10000 then '\\' :: 'u' :: hex 4 code
      else '\\' :: 'U' :: hex 8 code

def quote (s : String) : String :=
  String.ofList ('"' :: (s.toList.flatMap quotedChar ++ ['"']))

end TileLower.Text
