import TileLower.Decimal.Nearest
import TileLower.Json.Key
import TileLower.Json.Value
import TileLower.Text.Numeral

/-!
Reading JSON text. Blanks may stand between all tokens. A number is read as the nearest 64-bit float,
and refused if it is out of range. A text may hold any byte but NUL.

A record or a list is read into an old one: fields that are not mentioned stay as they are, and the
items of a list are read into the old items in their places. So the last of two fields with one name
counts for what it mentions. `null` leaves a text and a record as they were and takes a list away.
-/
namespace TileLower.Json

abbrev Reader (α : Type) := Bytes → Option (α × Bytes)

def maxDepth : Nat := 10000

def readTextFrom (src : Source) : Nat → Bytes → Reader Bytes
  | 0, _, _ => none
  | _ + 1, _, [] => none
  | fuel + 1, acc, b :: rest =>
    match asChar b with
    | '"' => some (acc.reverse, rest)
    | '\x00' => none
    | '\\' => do
      let (bs, taken) ← textEscape? src rest
      readTextFrom src fuel (bs.reverse ++ acc) (rest.drop taken)
    | _ => readTextFrom src fuel (b :: acc) rest

def readText (src : Source) : Reader String := fun bs => do
  let (content, rest) ← readTextFrom src bs.length [] bs
  some (Text.ofBytes content, rest)

def textOr (src : Source) (old : String) : Reader String := fun bs =>
  match skipBlanks bs with
  | [] => none
  | b :: rest =>
    match asChar b with
    | '"' => readText src rest
    | 'n' => (word src "ull" rest).map fun rest => (old, rest)
    | _ => none

def exponent? : List Char → Option Int
  | [] => some 0
  | c :: rest => if c = 'e' || c = 'E' then Text.signed? rest else none

def magnitude? (cs : List Char) : Option Float := do
  let whole := cs.takeWhile Char.isDigit
  let rest := cs.dropWhile Char.isDigit
  let (fraction, rest) := match rest with
    | '.' :: more => (more.takeWhile Char.isDigit, more.dropWhile Char.isDigit)
    | _ => ([], rest)
  let digits ← Text.natural? (whole ++ fraction)
  let e ← exponent? rest
  Decimal.nearest? digits (e - fraction.length)

def number? : List Char → Option Float
  | '-' :: rest => (magnitude? rest).map fun x => -x
  | cs => magnitude? cs

def endsNumber (bs : Bytes) : Bool :=
  match bs with
  | [] => true
  | b :: _ => b = 0 || isBlank b || b = 0x2c || b = 0x3a || b = 0x7d || b = 0x5d

def readNumber : Reader Float := fun bs => do
  let digits := bs.takeWhile isNumeral
  let rest := bs.dropWhile isNumeral
  let x ← number? (digits.map asChar)
  if endsNumber rest then some (x, rest) else none

def readItems {α : Type} (item : α → Reader α) (blank : α) :
    Nat → List α → List α → Reader (List α)
  | 0, _, _, _ => none
  | fuel + 1, acc, old, bs => do
    let (x, rest) ← item (old.headD blank) bs
    match skipBlanks rest with
    | [] => none
    | b :: rest =>
      match asChar b with
      | ']' => some ((x :: acc).reverse, rest)
      | ',' => readItems item blank fuel (x :: acc) (old.drop 1) rest
      | _ => none

def readList {α : Type} (item : α → Reader α) (blank : α) (old : List α) :
    Reader (Option (List α)) := fun bs =>
  match skipBlanks bs with
  | [] => none
  | b :: rest =>
    match asChar b with
    | 'n' => (word .whole "ull" rest).map fun rest => (none, rest)
    | '[' =>
      match skipBlanks rest with
      | 0x5d :: rest => some (some [], rest)
      | rest => (readItems item blank rest.length [] old rest).map fun p => (some p.1, p.2)
    | _ => none

def readFields {α : Type} (src : Source) (left : Nat) (names : List String)
    (field : String → α → Reader α) : Nat → α → Reader α
  | 0, _, _ => none
  | fuel + 1, a, bs =>
    match skipBlanks bs with
    | 0x22 :: rest => do
      let (name, rest) ← readName src names rest
      match skipBlanks rest with
      | 0x3a :: rest =>
        let (a, rest) ← match name with
          | some name => field name a rest
          | none => (skipValue src left rest).map fun rest => (a, rest)
        match skipBlanks rest with
        | 0x7d :: rest => some (a, rest)
        | 0x2c :: rest => readFields src left names field fuel a rest
        | _ => none
      | _ => none
    | _ => none

def readRecord {α : Type} (src : Source) (left : Nat) (names : List String)
    (field : String → α → Reader α) (old : α) : Reader α := fun bs =>
  match skipBlanks bs with
  | [] => none
  | b :: rest =>
    match asChar b with
    | 'n' => (word src "ull" rest).map fun rest => (old, rest)
    | '\x7b' =>
      match skipBlanks rest with
      | 0x7d :: rest => some (old, rest)
      | rest => readFields src left names field rest.length old rest
    | _ => none

def readMembers (value : Reader Json) : Nat → List (String × Json) → Reader (List (String × Json))
  | 0, _, _ => none
  | fuel + 1, acc, bs => do
    let (name, rest) ← textOr .whole "" bs
    match skipBlanks rest with
    | 0x3a :: rest =>
      let (x, rest) ← value rest
      match skipBlanks rest with
      | 0x7d :: rest => some (((name, x) :: acc).reverse, rest)
      | 0x2c :: rest => readMembers value fuel ((name, x) :: acc) rest
      | _ => none
    | _ => none

def readAtom : Reader Json := fun bs =>
  match skipBlanks bs with
  | [] => none
  | b :: rest =>
    match asChar b with
    | '"' => (readText .whole rest).map fun p => (.text p.1, p.2)
    | 't' => (word .whole "rue" rest).map fun r => (.bool true, r)
    | 'f' => (word .whole "alse" rest).map fun r => (.bool false, r)
    | 'n' => (word .whole "ull" rest).map fun r => (.null, r)
    | c => if c = '-' || isDigit b then (readNumber (b :: rest)).map fun p => (.float p.1, p.2) else none

def readValue : Nat → Reader Json
  | 0, bs => readAtom bs
  | depth + 1, bs =>
    match skipBlanks bs with
    | 0x7b :: rest =>
      match skipBlanks rest with
      | 0x7d :: rest => some (.object [], rest)
      | rest => (readMembers (readValue depth) rest.length [] rest).map fun p => (.object p.1, p.2)
    | 0x5b :: rest =>
      (readList (fun _ => readValue depth) .null [] (0x5b :: rest)).map fun p =>
        (.list (p.1.getD []), p.2)
    | bs => readAtom bs

def decodeWith? {α : Type} (reader : Reader α) (s : String) : Option α := do
  let (a, rest) ← reader (Text.bytes s)
  if isEnd (skipBlanks rest) then some a else none

def decodeFirst? {α : Type} (reader : Reader α) (s : String) : Option α :=
  let bs := skipBlanks (Text.bytes s)
  let bs := match bs with
    | b :: rest => if b = 0x2c || b = 0x3a then rest else bs
    | [] => []
  (reader bs).map Prod.fst

def decode? (s : String) : Option Json := decodeWith? (readValue maxDepth) s

end TileLower.Json
