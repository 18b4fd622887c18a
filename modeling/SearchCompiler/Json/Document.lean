import SearchCompiler.Json.Basic

/-!
JSON documents as they are written. A document keeps the entries of an object
in the order of the text, repeated keys included, and it keeps a numeral too
large for a double or a string with half a surrogate pair as an unreadable
leaf. A decoder can thus skip what it does not ask for, and refuse a repeated
key or an unreadable leaf only where it matters.
-/

namespace SearchCompiler

inductive Document where
  | null
  | bool (value : Bool)
  | number (value : Option Number)
  | string (value : Option String)
  | array (items : List Document)
  | object (entries : List (Option String × Document))
deriving Inhabited

mutual

/-- The value of a document without unreadable leaves. Of entries with the
same key the last one counts. -/
def Document.value? : Document → Option Json
  | .null => some .null
  | .bool b => some (.bool b)
  | .number n => n.map .number
  | .string s => s.map .string
  | .array items => (valuesOfItems? items).map .array
  | .object entries =>
      (valuesOfEntries? entries).map fun found => Json.ofTable (Table.ofList found)

def valuesOfItems? : List Document → Option (List Json)
  | [] => some []
  | item :: rest => do return (← item.value?) :: (← valuesOfItems? rest)

def valuesOfEntries? : List (Option String × Document) → Option (List (String × Json))
  | [] => some []
  | (key, value) :: rest => do
      return (← key, ← value.value?) :: (← valuesOfEntries? rest)

end

mutual

/-- A value as a document of its own. -/
def Json.document : Json → Document
  | .null => .null
  | .bool b => .bool b
  | .number n => .number (some n)
  | .string s => .string (some s)
  | .array items => .array (documentsOfItems items)
  | .object entries => .object (documentsOfEntries entries)

def documentsOfItems : List Json → List Document
  | [] => []
  | item :: rest => item.document :: documentsOfItems rest

def documentsOfEntries : List (String × Json) → List (Option String × Document)
  | [] => []
  | (key, value) :: rest => (some key, value.document) :: documentsOfEntries rest

end

end SearchCompiler
