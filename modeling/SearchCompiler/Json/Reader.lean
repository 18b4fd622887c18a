import SearchCompiler.Json.Document
import SearchCompiler.Json.Numeral

/-!
The reader of JSON texts. It is strict: no byte order mark, no comments, no
commas before a closing bracket, nothing but blanks around the document. The
reading functions return the text after what they read. Each recursive call
spends one unit of fuel, and no text needs more than two units per character.
-/

namespace SearchCompiler

namespace Reader

/-- Only these four characters separate tokens. -/
def skipBlank (cs : List Char) : List Char :=
  cs.dropWhile fun c => c = ' ' || c = '\t' || c = '\n' || c = '\r'

def hexValue? (c : Char) : Option Nat :=
  if '0' ≤ c ∧ c ≤ '9' then some (c.toNat - 48)
  else if 'a' ≤ c ∧ c ≤ 'f' then some (c.toNat - 87)
  else if 'A' ≤ c ∧ c ≤ 'F' then some (c.toNat - 55)
  else none

/-- A part of a string: a character, or a code unit given by its number. -/
inductive Piece where
  | char (c : Char)
  | unit (n : Nat)

def escape? : Char → Option Char
  | '"' => some '"'
  | '\\' => some '\\'
  | '/' => some '/'
  | 'b' => some '\x08'
  | 'f' => some '\x0c'
  | 'n' => some '\n'
  | 'r' => some '\r'
  | 't' => some '\t'
  | _ => none

/-- The parts of a string up to its closing quote. Control characters have to
be escaped. -/
def readPieces : List Char → Option (List Piece × List Char)
  | [] => none
  | '"' :: rest => some ([], rest)
  | '\\' :: 'u' :: a :: b :: c :: d :: rest => do
      let unit := (← hexValue? a) * 4096 + (← hexValue? b) * 256
        + (← hexValue? c) * 16 + (← hexValue? d)
      let (pieces, rest) ← readPieces rest
      return (.unit unit :: pieces, rest)
  | '\\' :: c :: rest => do
      let escaped ← escape? c
      let (pieces, rest) ← readPieces rest
      return (.char escaped :: pieces, rest)
  | c :: rest =>
      if c.toNat < 32 then none
      else do
        let (pieces, rest) ← readPieces rest
        return (.char c :: pieces, rest)

def isHighSurrogate (n : Nat) : Bool :=
  0xD800 ≤ n && n < 0xDC00

def isLowSurrogate (n : Nat) : Bool :=
  0xDC00 ≤ n && n < 0xE000

/-- The characters of a string; nothing when half a surrogate pair stands
alone. -/
def join? : List Piece → Option (List Char)
  | [] => some []
  | .char c :: rest => (join? rest).map (c :: ·)
  | .unit high :: .unit low :: rest =>
      if isHighSurrogate high then
        if isLowSurrogate low then
          (join? rest).map (Char.ofNat (0x10000 + (high - 0xD800) * 1024 + (low - 0xDC00)) :: ·)
        else none
      else if isLowSurrogate high then none
      else (join? (.unit low :: rest)).map (Char.ofNat high :: ·)
  | .unit n :: rest =>
      if isHighSurrogate n || isLowSurrogate n then none
      else (join? rest).map (Char.ofNat n :: ·)

/-- A string after its opening quote. -/
def readString (cs : List Char) : Option (Option String × List Char) :=
  (readPieces cs).map fun (pieces, rest) => ((join? pieces).map String.ofList, rest)

def readKey (cs : List Char) : Option (Option String × List Char) :=
  match skipBlank cs with
  | '"' :: rest => do
      let (key, rest) ← readString rest
      match skipBlank rest with
      | ':' :: rest => some (key, rest)
      | _ => none
  | _ => none

mutual

def readValue : Nat → List Char → Option (Document × List Char)
  | 0, _ => none
  | fuel + 1, cs =>
      match skipBlank cs with
      | 'n' :: 'u' :: 'l' :: 'l' :: rest => some (.null, rest)
      | 't' :: 'r' :: 'u' :: 'e' :: rest => some (.bool true, rest)
      | 'f' :: 'a' :: 'l' :: 's' :: 'e' :: rest => some (.bool false, rest)
      | '"' :: rest => (readString rest).map fun (s, rest) => (.string s, rest)
      | '[' :: rest =>
          match skipBlank rest with
          | ']' :: rest => some (.array [], rest)
          | rest => (readItems fuel rest).map fun (items, rest) => (.array items, rest)
      | '\x7b' :: rest =>
          match skipBlank rest with
          | '\x7d' :: rest => some (.object [], rest)
          | rest => (readEntries fuel rest).map fun (entries, rest) => (.object entries, rest)
      | cs => (Numeral.read cs).map fun (n, rest) => (.number n.value?, rest)

/-- The items of an array from one of them to the closing bracket. -/
def readItems : Nat → List Char → Option (List Document × List Char)
  | 0, _ => none
  | fuel + 1, cs => do
      let (item, rest) ← readValue fuel cs
      match skipBlank rest with
      | ']' :: rest => some ([item], rest)
      | ',' :: rest => (readItems fuel rest).map fun (items, rest) => (item :: items, rest)
      | _ => none

/-- The entries of an object from one of them to the closing brace. -/
def readEntries : Nat → List Char → Option (List (Option String × Document) × List Char)
  | 0, _ => none
  | fuel + 1, cs => do
      let (key, rest) ← readKey cs
      let (value, rest) ← readValue fuel rest
      match skipBlank rest with
      | '\x7d' :: rest => some ([(key, value)], rest)
      | ',' :: rest =>
          (readEntries fuel rest).map fun (entries, rest) => ((key, value) :: entries, rest)
      | _ => none

end

end Reader

/-- The document a text holds, if it holds exactly one. -/
def Document.read? (text : String) : Option Document := do
  let cs := text.toList
  let (document, rest) ← Reader.readValue (2 * cs.length + 2) cs
  guard (Reader.skipBlank rest).isEmpty
  return document

/-- The value a text holds. -/
def Json.read? (text : String) : Option Json := do
  (← Document.read? text).value?

end SearchCompiler
