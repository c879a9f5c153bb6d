/-
  Blank characters and trimming. A character is blank when it has the Unicode property
  White_Space; a cell is blank when all its characters are. The ideographic space is blank,
  the zero-width space and the byte order mark are not.
-/

namespace VisualNovel.Text

/-- The characters with the property White_Space. -/
def isBlank (c : Char) : Bool :=
  let n := c.toNat
  (0x9 ≤ n && n ≤ 0xD) || n == 0x20 || n == 0x85 || n == 0xA0 || n == 0x1680 ||
    (0x2000 ≤ n && n ≤ 0x200A) || n == 0x2028 || n == 0x2029 || n == 0x202F || n == 0x205F ||
    n == 0x3000

/-- Drops the characters with property `p` at both ends. -/
def trimList (p : Char → Bool) (s : List Char) : List Char :=
  ((s.dropWhile p).reverse.dropWhile p).reverse

/-- Drops the characters with property `p` at both ends. -/
def trimBoth (p : Char → Bool) (s : String) : String :=
  String.ofList (trimList p s.toList)

/-- Drops the blanks at both ends. -/
def trim (s : String) : String := trimBoth isBlank s

/-- Nothing but blanks, or nothing at all. -/
def isBlankText (s : String) : Bool := s.toList.all isBlank

/-- Drops one leading `c`, if there is one. -/
def dropLeading (c : Char) (s : String) : String :=
  match s.toList with
  | d :: rest => if d = c then String.ofList rest else s
  | [] => s

/-- Whether `part` occurs in the list. -/
def occursIn (part : List Char) : List Char → Bool
  | [] => part.isEmpty
  | c :: rest => part.isPrefixOf (c :: rest) || occursIn part rest

/-- Whether `part` occurs in the text. -/
def contains (s part : String) : Bool := occursIn part.toList s.toList

/-- The text in lower case; only ASCII letters change. -/
def lowerAscii (s : String) : String := String.ofList (s.toList.map Char.toLower)

/-- Equality of texts up to the case of ASCII letters. -/
def sameIgnoringCase (a b : String) : Bool := lowerAscii a == lowerAscii b

/-- The texts one after the other, with `separator` between two of them. -/
def joinWith (separator : String) (parts : List String) : String :=
  String.ofList ((parts.map String.toList).intersperse separator.toList).flatten

/-- The pieces of a list between the characters `c`; there is always at least one. -/
def splitList (c : Char) : List Char → List (List Char)
  | [] => [[]]
  | d :: rest =>
    match splitList c rest with
    | [] => [[d]]
    | piece :: pieces => if d = c then [] :: piece :: pieces else (d :: piece) :: pieces

/-- The pieces of a text between the characters `c`; there is always at least one. -/
def splitAt (c : Char) (s : String) : List String := (splitList c s.toList).map String.ofList

/-- The number of bytes of the characters in UTF-8. -/
def utf8Length (s : List Char) : Nat := s.foldr (fun c length => c.utf8Size + length) 0

end VisualNovel.Text
