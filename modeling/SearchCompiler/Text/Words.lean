/-!
Blank characters and the words between them. A character is blank when it has
the Unicode property White_Space: twenty-five characters, among them the
no-break space, but not the zero-width space or the byte order mark.
-/

namespace SearchCompiler

def isBlank (c : Char) : Bool :=
  let n := c.toNat
  (0x09 ≤ n && n ≤ 0x0D) || n == 0x20 || n == 0x85 || n == 0xA0 || n == 0x1680
    || (0x2000 ≤ n && n ≤ 0x200A) || n == 0x2028 || n == 0x2029 || n == 0x202F
    || n == 0x205F || n == 0x3000

/-- The maximal runs of characters that are not blank, in their order. -/
def splitWords : List Char → List (List Char)
  | [] => []
  | c :: rest =>
      if isBlank c then splitWords rest
      else
        match rest, splitWords rest with
        | d :: _, word :: words =>
            if isBlank d then [c] :: word :: words else (c :: word) :: words
        | _, words => [c] :: words

def wordsOf (text : String) : List String :=
  (splitWords text.toList).map String.ofList

/-- Words side by side, one space between neighbours. -/
def joinWords (words : List String) : String :=
  " ".intercalate words

def isBlankText (text : String) : Bool :=
  text.toList.all isBlank

end SearchCompiler
