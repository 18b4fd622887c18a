import SearchCompiler.Json.Basic
import SearchCompiler.Json.Decimal

/-!
The compact text of a JSON value: no blanks, entries in the order they stand,
and in strings only the quote, the backslash and the control characters below
the space are escaped.

A double always shows that it is one: by a point when its value has its
leading digit between the fifth place after the point and the sixteenth place
before it, by an exponent elsewhere, which has its sign always and no leading
zero.
-/

namespace SearchCompiler

def hexDigit (n : Nat) : Char :=
  (Nat.toDigits 16 n).headD '0'

def escapeChar (c : Char) : List Char :=
  if c = '"' then ['\\', '"']
  else if c = '\\' then ['\\', '\\']
  else if c = '\x08' then ['\\', 'b']
  else if c = '\t' then ['\\', 't']
  else if c = '\n' then ['\\', 'n']
  else if c = '\x0c' then ['\\', 'f']
  else if c = '\r' then ['\\', 'r']
  else if c.toNat < 32 then
    ['\\', 'u', '0', '0', hexDigit (c.toNat / 16), hexDigit (c.toNat % 16)]
  else [c]

def quote (s : String) : String :=
  String.ofList ('"' :: s.toList.flatMap escapeChar ++ ['"'])

namespace Decimal

/-- The decimal digits of an integer after its sign, which zero and the positive
integers have as well. -/
def signed (n : Int) : List Char :=
  (if n < 0 then '-' else '+') :: Nat.toDigits 10 n.natAbs

/-- The text of a positive double whose shortest decimal this is. -/
def text (d : Decimal) : String :=
  let digits := Nat.toDigits 10 d.digits
  let point := (digits.length : Int) + d.exponent
  let zeros (n : Int) := List.replicate n.toNat '0'
  String.ofList <|
    if 0 ≤ d.exponent ∧ point ≤ 16 then digits ++ zeros d.exponent ++ ['.', '0']
    else if 0 < point ∧ point ≤ 16 then
      digits.take point.toNat ++ '.' :: digits.drop point.toNat
    else if -5 < point ∧ point ≤ 0 then '0' :: '.' :: zeros (-point) ++ digits
    else
      let exponent := 'e' :: signed (point - 1)
      match digits with
      | [digit] => digit :: exponent
      | digit :: rest => digit :: '.' :: rest ++ exponent
      | [] => exponent

end Decimal

def Double.text (x : Double) : String :=
  (if x.negative then "-" else "") ++ (if x.isZero then "0.0" else x.shortest.text)

def Number.text : Number → String
  | .int value => toString value
  | .double value => value.text

mutual

def Json.text : Json → String
  | .null => "null"
  | .bool true => "true"
  | .bool false => "false"
  | .number n => n.text
  | .string s => quote s
  | .array [] => "[]"
  | .array (item :: rest) => "[" ++ item.text ++ textOfItems rest
  | .object [] => "\x7b\x7d"
  | .object ((key, value) :: rest) =>
      "\x7b" ++ quote key ++ ":" ++ value.text ++ textOfEntries rest

/-- The rest of an array after one of its items. -/
def textOfItems : List Json → String
  | [] => "]"
  | item :: rest => "," ++ item.text ++ textOfItems rest

/-- The rest of an object after one of its entries. -/
def textOfEntries : List (String × Json) → String
  | [] => "\x7d"
  | (key, value) :: rest => "," ++ quote key ++ ":" ++ value.text ++ textOfEntries rest

end

end SearchCompiler
