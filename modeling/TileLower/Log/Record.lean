import TileLower.Log.Level

/-!
Log records and the two forms in which they are written, one line each.
-/
namespace TileLower.Log

inductive Datum where
  | text (value : String)
  | int (value : Int64)
  | bool (value : Bool)
  deriving DecidableEq, Repr

structure Record where
  level : Level
  message : String
  fields : List (String × Datum)
  deriving Repr

inductive Format where
  | plain
  | json
  deriving DecidableEq, Repr

def breaksWord (c : Char) : Bool :=
  if c.toNat < 0x80 then c = ' ' || c = '=' || c = '"' || c.toNat < 0x20
  else c = '\ufffd' || Text.isBlank c || !Text.isPrintable c

def word (s : String) : String :=
  if s = "" || s.toList.any breaksWord then Text.quote s else s

def Datum.plain : Datum → String
  | .text s => word s
  | .int x => Text.showInt x
  | .bool b => if b then "true" else "false"

def jsonChar (c : Char) : List Char :=
  if c = '"' || c = '\\' then ['\\', c]
  else if c = '\n' then ['\\', 'n']
  else if c = '\r' then ['\\', 'r']
  else if c = '\t' then ['\\', 't']
  else if c.toNat < 0x20 || c = '\u2028' || c = '\u2029' then '\\' :: 'u' :: Text.hex 4 c.toNat
  else [c]

def jsonText (s : String) : String := String.ofList ('"' :: (s.toList.flatMap jsonChar ++ ['"']))

def Datum.json : Datum → String
  | .text s => jsonText s
  | d => d.plain

def Record.allFields (r : Record) : List (String × Datum) :=
  ("level", .text r.level.render) :: ("msg", .text r.message) :: r.fields

def Record.plainLine (r : Record) : String :=
  " ".intercalate (r.allFields.map fun f => word f.1 ++ "=" ++ f.2.plain) ++ "\n"

def Record.jsonLine (r : Record) : String :=
  "\x7b" ++ ",".intercalate (r.allFields.map fun f => jsonText f.1 ++ ":" ++ f.2.json) ++ "\x7d\n"

def Record.line (f : Format) (r : Record) : String :=
  match f with
  | .plain => r.plainLine
  | .json => r.jsonLine

structure Logger where
  level : Level
  format : Format
  deriving Repr

def Logger.write (l : Logger) (records : List Record) : String :=
  String.join ((records.filter fun r => l.level ≤ r.level).map (Record.line l.format))

end TileLower.Log
