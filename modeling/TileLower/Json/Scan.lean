import TileLower.Text.Utf8

/-!
Passing over JSON text, which is read as bytes. A NUL byte counts as the end of the text.

What nobody asked for is checked loosely: a nested value ends with the bracket that answers its first
one, if only brackets of that kind are counted; texts are passed over, and brackets of both kinds may
not be nested too deep. A text of which all is at hand is read more strictly than one that comes in as
a stream.
-/
namespace TileLower.Json

abbrev Bytes := List UInt8

def asChar (b : UInt8) : Char := Char.ofNat b.toNat

inductive Source where
  | whole
  | stream
  deriving DecidableEq, Repr

def isBlank (b : UInt8) : Bool := b = 0x20 || b = 0x09 || b = 0x0a || b = 0x0d

def skipBlanks (bs : Bytes) : Bytes := bs.dropWhile isBlank

def isEnd : Bytes → Bool
  | [] => true
  | b :: _ => b = 0

def isDigit (b : UInt8) : Bool := 0x30 ≤ b && b ≤ 0x39

def isNumeral (b : UInt8) : Bool :=
  isDigit b || b = 0x2e || b = 0x65 || b = 0x45 || b = 0x2b || b = 0x2d

def dropWord (spare : Bool) : List Char → Bytes → Option Bytes
  | [], bs => some bs
  | w :: ws, b :: bs =>
    if asChar b = w then dropWord spare ws bs
    else if b = 0 && spare then dropWord false ws bs
    else none
  | _ :: ws, [] => if spare then dropWord false ws [] else none

def word (src : Source) (w : String) (bs : Bytes) : Option Bytes :=
  dropWord (src == .stream) w.toList bs

def skipText : Bytes → Option Bytes
  | [] => none
  | b :: rest =>
    match asChar b, rest with
    | '"', rest => some rest
    | '\x00', _ => none
    | '\\', [] => none
    | '\\', e :: more => if e = 0 then none else skipText more
    | _, rest => skipText rest

/-- What follows a nested value, from inside `depth` further pairs of its brackets. As many as `left`
brackets of any kind may still be opened inside each other; `inText` tells whether the place is inside
a text. -/
def skipNested (opening closing : Char) : Nat → Int → Bool → Bytes → Option Bytes
  | _, _, _, [] => none
  | depth, left, true, b :: rest =>
    match asChar b, rest with
    | '"', rest => skipNested opening closing depth left false rest
    | '\x00', _ => none
    | '\\', [] => none
    | '\\', e :: more => if e = 0 then none else skipNested opening closing depth left true more
    | _, rest => skipNested opening closing depth left true rest
  | depth, left, false, b :: rest =>
    let c := asChar b
    if c = '\x00' then none
    else if c = '"' then skipNested opening closing depth left true rest
    else if c = '\x7b' || c = '[' then
      if left ≤ 0 then none
      else skipNested opening closing (if c = opening then depth + 1 else depth) (left - 1) false rest
    else if c = closing then
      match depth with
      | 0 => some rest
      | depth + 1 => skipNested opening closing depth (left + 1) false rest
    else if c = '\x7d' || c = ']' then skipNested opening closing depth (left + 1) false rest
    else skipNested opening closing depth left false rest

def skipValue (src : Source) (left : Nat) : Bytes → Option Bytes
  | [] => none
  | b :: rest =>
    if isBlank b then skipValue src left rest
    else match asChar b with
      | '\x00' => none
      | '\x7b' => skipNested '\x7b' '\x7d' 0 (left - 1) false rest
      | '[' => skipNested '[' ']' 0 (left - 1) false rest
      | '"' => skipText rest
      | 't' => word src "rue" rest
      | 'f' => word src "alse" rest
      | 'n' => word src "ull" rest
      | c =>
        if c = '-' || isDigit b then some (rest.dropWhile isNumeral)
        else match src with
          | .whole => none
          | .stream => skipValue src left rest

end TileLower.Json
