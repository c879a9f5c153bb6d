import VisualNovel.Decimal.Plain
import VisualNovel.Decimal.Reading
import VisualNovel.Json.Basic
import VisualNovel.Text.Blank

/-
  The pieces of a TOML document: gaps, keys, texts, numbers and dates. A reader takes a piece
  off the front of the characters and gives the rest, or nothing if no such piece stands there.
  Dates are kept as texts in their standard spelling.
-/

namespace VisualNovel.Toml

open Decimal

/-! ## Gaps -/

/-- A blank within a line. -/
def isGap (c : Char) : Bool := c == ' ' || c == '\t'

/-- A character that texts and comments can hold: no control character but the tab. -/
def isPlain (c : Char) : Bool := c == '\t' || (0x20 ≤ c.toNat && c.toNat != 0x7F)

/-- Drops the blanks before something on the line. -/
def skipGaps (s : List Char) : List Char := s.dropWhile isGap

/-- Takes the end of a line. -/
def newline? : List Char → Option (List Char)
  | '\n' :: rest => some rest
  | '\r' :: '\n' :: rest => some rest
  | _ => none

/-- Drops blanks and a comment. -/
def skipComment (s : List Char) : List Char :=
  match skipGaps s with
  | '#' :: rest => rest.dropWhile isPlain
  | rest => rest

/-- Takes the rest of a line that holds nothing more, or the end of the document. -/
def lineEnd? (s : List Char) : Option (List Char) :=
  match skipComment s with
  | [] => some []
  | rest => newline? rest

/-- Drops empty lines and comments, `fuel` lines at most. -/
def skipLines : Nat → List Char → List Char
  | 0, s => s
  | fuel + 1, s =>
    match newline? (skipComment s) with
    | some rest => skipLines fuel rest
    | none => skipComment s

/-- Drops all blanks, line ends and comments. -/
def skipAll (s : List Char) : List Char := skipLines s.length s

/-! ## Texts -/

/-- What an escape sequence is waiting for. -/
inductive Escape where
  | none
  | started
  /-- Digits of a code point: how many more, and the value so far. -/
  | digits (more value : Nat)
  deriving Repr, DecidableEq

/-- The value of a hexadecimal digit. -/
def hexValue? (c : Char) : Option Nat :=
  if c.isDigit then some (c.toNat - '0'.toNat)
  else if 'a' ≤ c ∧ c ≤ 'f' then some (c.toNat - 'a'.toNat + 10)
  else if 'A' ≤ c ∧ c ≤ 'F' then some (c.toNat - 'A'.toNat + 10)
  else none

/-- The character of an escape sequence of one letter. -/
def escaped? : Char → Option Char
  | '"' => some '"'
  | '\\' => some '\\'
  | 'b' => some '\x08'
  | 't' => some '\t'
  | 'n' => some '\n'
  | 'f' => some '\x0c'
  | 'r' => some '\r'
  | 'e' => some '\x1b'
  | _ => Option.none

/-- The number of digits that follow a letter. -/
def digitCount? : Char → Option Nat
  | 'x' => some 2
  | 'u' => some 4
  | 'U' => some 8
  | _ => none

/-- One step within an escape sequence: a character that is complete, or what is waited for. -/
def Escape.step? (e : Escape) (c : Char) : Option (Option Char × Escape) :=
  match e with
  | none => some (some c, none)
  | started =>
    match escaped? c, digitCount? c with
    | some d, _ => some (some d, none)
    | _, some n => some (Option.none, digits (n - 1) 0)
    | _, _ => Option.none
  | digits more value => do
    let value := value * 16 + (← hexValue? c)
    match more with
    | n + 1 => some (Option.none, digits n value)
    | 0 => if value.isValidChar then some (some (Char.ofNat value), none) else Option.none

/-- Puts a piece before a text that was read. -/
def before (piece : List Char) : Option (List Char × List Char) → Option (List Char × List Char)
  | some (text, rest) => some (piece ++ text, rest)
  | none => none

/-- Reads a text of one line up to its double quote. -/
def readQuoted? : Escape → List Char → Option (List Char × List Char)
  | _, [] => none
  | .none, c :: rest =>
    if c = '"' then some ([], rest)
    else if c = '\\' then readQuoted? .started rest
    else if isPlain c then before [c] (readQuoted? .none rest)
    else none
  | e, c :: rest =>
    match e.step? c with
    | some (done?, e) => before done?.toList (readQuoted? e rest)
    | none => none

/-- Reads a text of one line without escape sequences up to its single quote. -/
def readLiteral? (s : List Char) : Option (List Char × List Char) :=
  match s.dropWhile fun c => isPlain c && c != '\x27' with
  | '\x27' :: rest => some (s.takeWhile fun c => isPlain c && c != '\x27', rest)
  | _ => none

/-- The quotes that belong to a text that ends in a run of `n` quotes, if the run ends it, and
    the number of quotes that belong to neither. -/
def closingQuotes? (n : Nat) : Option (Nat × Nat) :=
  if n < 3 then none else some (min (n - 3) 2, n - 5)

/-- Drops the line break and the blanks after a backslash that ends a line. -/
def skipLineBreak? (s : List Char) : Option (List Char) :=
  (newline? (skipGaps s)).map fun rest =>
    rest.dropWhile fun c => isGap c || c == '\n' || c == '\r'

/-- Reads a text of several lines up to its three quotes `q`; `escapes` says whether it has
    escape sequences. -/
def readLines? (q : Char) (escapes : Bool) :
    Nat → Escape → List Char → Option (List Char × List Char)
  | 0, _, _ => none
  | _, _, [] => none
  | fuel + 1, .none, c :: rest =>
    if c = q then
      let run := (c :: rest).takeWhile (· == q)
      let after := (c :: rest).drop run.length
      match closingQuotes? run.length with
      | some (own, left) => some (List.replicate own q, List.replicate left q ++ after)
      | none => before run (readLines? q escapes fuel .none after)
    else if escapes && c == '\\' then
      match skipLineBreak? rest with
      | some rest => readLines? q escapes fuel .none rest
      | none => readLines? q escapes fuel .started rest
    else
      match newline? (c :: rest) with
      | some rest => before ['\n'] (readLines? q escapes fuel .none rest)
      | none => if isPlain c then before [c] (readLines? q escapes fuel .none rest) else none
  | fuel + 1, e, c :: rest =>
    match e.step? c with
    | some (done?, e) => before done?.toList (readLines? q escapes fuel e rest)
    | none => none

/-- Reads a text of several lines after its opening quotes; a line break right behind them is
    not part of it. -/
def readBlock? (q : Char) (escapes : Bool) (s : List Char) : Option (List Char × List Char) :=
  let s := (newline? s).getD s
  readLines? q escapes (s.length + 1) .none s

/-- Reads a text in quotes. -/
def readText? : List Char → Option (String × List Char)
  | '"' :: '"' :: '"' :: rest => done (readBlock? '"' true rest)
  | '\x27' :: '\x27' :: '\x27' :: rest => done (readBlock? '\x27' false rest)
  | '"' :: rest => done (readQuoted? .none rest)
  | '\x27' :: rest => done (readLiteral? rest)
  | _ => none
where
  /-- The characters that were read, as a text. -/
  done (r : Option (List Char × List Char)) : Option (String × List Char) :=
    r.map fun (text, rest) => (String.ofList text, rest)

/-! ## Keys -/

/-- A character of a key without quotes. -/
def isBare (c : Char) : Bool :=
  ('a' ≤ c && c ≤ 'z') || ('A' ≤ c && c ≤ 'Z') || c.isDigit || c == '_' || c == '-'

/-- Reads one key. -/
def readKey? (s : List Char) : Option (String × List Char) :=
  match s with
  | '"' :: rest => readText?.done (readQuoted? .none rest)
  | '\x27' :: rest => readText?.done (readLiteral? rest)
  | _ =>
    let key := s.takeWhile isBare
    if key.isEmpty then none else some (String.ofList key, s.drop key.length)

/-- Reads keys with dots between them, `fuel` at most. -/
def readKeys? : Nat → List Char → Option (List String × List Char)
  | 0, _ => none
  | fuel + 1, s => do
    let (key, rest) ← readKey? (skipGaps s)
    match skipGaps rest with
    | '.' :: rest =>
      let (keys, rest) ← readKeys? fuel rest
      some (key :: keys, rest)
    | rest => some ([key], rest)

/-- Reads keys with dots between them. -/
def readPath? (s : List Char) : Option (List String × List Char) := readKeys? (s.length + 1) s

/-! ## Numbers -/

/-- The digits of a number in which underscores stand between digits. -/
def withoutUnderscores? (isDigit : Char → Bool) (s : List Char) : Option (List Char) :=
  let pieces := Text.splitList '_' s
  if pieces.all fun p => !p.isEmpty && p.all isDigit then some pieces.flatten else none

/-- The value of digits in a base. -/
def inBase (base : Nat) (digits : List Char) : Nat :=
  digits.foldl (fun n c => n * base + (hexValue? c).getD 0) 0

/-- The base that a letter after a zero stands for, and its digits. -/
def baseOf? : Char → Option (Nat × (Char → Bool))
  | 'x' => some (16, fun c => (hexValue? c).isSome)
  | 'o' => some (8, fun c => '0' ≤ c && c ≤ '7')
  | 'b' => some (2, fun c => c == '0' || c == '1')
  | _ => none

/-- An integer of 64 bits. -/
def bounded? (i : Int) : Option Json := if IntRange.int64.holds i then some (.int i) else none

/-- The digits before a point or an exponent; there is no zero before others. -/
def wholeDigits? (s : List Char) : Option (List Char) :=
  (withoutUnderscores? Char.isDigit s).bind fun digits =>
    if digits.length > 1 && digits.head? == some '0' then none else some digits

/-- The number of a spelling without its sign. -/
def unsigned? (negative : Bool) (s : List Char) : Option Json :=
  let whole := s.takeWhile fun c => c.isDigit || c == '_'
  let rest := s.drop whole.length
  (wholeDigits? whole).bind fun digits =>
    if rest.isEmpty then
      let n := digitsValue digits 0
      bounded? (if negative then -(n : Int) else n)
    else do
      let (places, rest) ←
        match rest with
        | '.' :: rest =>
          let places := rest.takeWhile fun c => c.isDigit || c == '_'
          (withoutUnderscores? Char.isDigit places).map fun p =>
            ('.' :: p, rest.drop places.length)
        | _ => some ([], rest)
      let exponent ←
        match rest with
        | [] => some []
        | e :: rest =>
          if e = 'e' ∨ e = 'E' then
            let (sign, rest) :=
              match rest with
              | '+' :: rest => (['+'], rest)
              | '-' :: rest => (['-'], rest)
              | _ => ([], rest)
            (withoutUnderscores? Char.isDigit rest).map fun p => 'e' :: sign ++ p
          else none
      let x ← readFloat? ((if negative then ['-'] else []) ++ digits ++ places ++ exponent)
      if x.isFinite then some (.float x) else none

/-- The number of a spelling. -/
def number? : List Char → Option Json
  | '0' :: c :: rest =>
    match baseOf? c with
    | some (base, isDigit) =>
      (withoutUnderscores? isDigit rest).bind fun digits => bounded? (inBase base digits)
    | none => unsigned? false ('0' :: c :: rest)
  | '+' :: rest => signed? false rest
  | '-' :: rest => signed? true rest
  | s => signed? false s
where
  /-- The number of a spelling whose sign was read. -/
  signed? (negative : Bool) (s : List Char) : Option Json :=
    if s = "inf".toList then some (.float (if negative then -(1 / 0) else 1 / 0))
    else if s = "nan".toList then some (.float (0 / 0))
    else unsigned? negative s

/-! ## Dates -/

/-- A number of exactly so many digits. -/
def fixedDigits? (count : Nat) (s : List Char) : Option (Nat × List Char) :=
  let digits := s.take count
  if digits.length = count ∧ digits.all Char.isDigit then
    some (digitsValue digits 0, s.drop count)
  else none

/-- A number of exactly so many digits, within bounds. -/
def field? (count low high : Nat) (s : List Char) : Option (Nat × List Char) :=
  (fixedDigits? count s).bind fun (n, rest) => if low ≤ n ∧ n ≤ high then some (n, rest) else none

/-- A number of digits with zeros before it. -/
def padded (count n : Nat) : List Char :=
  let digits := (natText n).toList
  List.replicate (count - digits.length) '0' ++ digits

/-- The number of days of a month. -/
def daysIn (year month : Nat) : Nat :=
  if month = 2 then
    if year % 4 = 0 ∧ (year % 100 ≠ 0 ∨ year % 400 = 0) then 29 else 28
  else if month = 4 ∨ month = 6 ∨ month = 9 ∨ month = 11 then 30
  else 31

/-- Takes one character that has to stand there. -/
def exactly? (c : Char) : List Char → Option (List Char)
  | d :: rest => if d = c then some rest else none
  | [] => none

/-- Reads a date. -/
def readDate? (s : List Char) : Option (List Char × List Char) := do
  let (year, s) ← fixedDigits? 4 s
  let (month, s) ← field? 2 1 12 (← exactly? '-' s)
  let (day, s) ← field? 2 1 (daysIn year month) (← exactly? '-' s)
  some (padded 4 year ++ '-' :: padded 2 month ++ '-' :: padded 2 day, s)

/-- Reads the seconds of a time, which may be left out, with their fraction of nine digits at
    most. -/
def readSeconds? : List Char → Option (List Char × List Char)
  | ':' :: s => do
    let (second, s) ← field? 2 0 60 s
    match s with
    | '.' :: rest =>
      let places := rest.takeWhile Char.isDigit
      if places.isEmpty then none
      else
        let kept := ((places.take 9).reverse.dropWhile (· == '0')).reverse
        some (':' :: padded 2 second ++ (if kept.isEmpty then [] else '.' :: kept),
          rest.drop places.length)
    | _ => some (':' :: padded 2 second, s)
  | s => some ([], s)

/-- Reads a time of the day. -/
def readTime? (s : List Char) : Option (List Char × List Char) := do
  let (hour, s) ← field? 2 0 23 s
  let (minute, s) ← field? 2 0 59 (← exactly? ':' s)
  let (seconds, s) ← readSeconds? s
  some (padded 2 hour ++ ':' :: padded 2 minute ++ seconds, s)

/-- Reads the offset of a time zone, if there is one. -/
def readOffset? : List Char → Option (List Char × List Char)
  | [] => some ([], [])
  | c :: s =>
    if c = 'Z' ∨ c = 'z' then some (['Z'], s)
    else if c = '+' ∨ c = '-' then do
      let (hour, s) ← field? 2 0 23 s
      let (minute, s) ← field? 2 0 59 (← exactly? ':' s)
      some (c :: padded 2 hour ++ ':' :: padded 2 minute, s)
    else none

/-- The date, the time or both that a spelling stands for. -/
def moment? (s : List Char) : Option Json := do
  let (text, rest) ←
    match readDate? s with
    | none => readTime? s
    | some (date, []) => some (date, [])
    | some (date, c :: rest) =>
      if c = 'T' ∨ c = 't' ∨ c = ' ' then do
        let (time, rest) ← readTime? rest
        let (offset, rest) ← readOffset? rest
        some (date ++ 'T' :: time ++ offset, rest)
      else none
  if rest.isEmpty then some (.str (String.ofList text)) else none

/-! ## Plain values -/

/-- A character of a value without quotes. -/
def isValuePart (c : Char) : Bool := isBare c || c == '+' || c == '.' || c == ':'

/-- The value of a spelling without quotes. -/
def plainValue? (s : List Char) : Option Json :=
  if s = "true".toList then some (.bool true)
  else if s = "false".toList then some (.bool false)
  else (number? s).orElse fun _ => moment? s

/-- Reads a value without quotes. A date may go on behind one blank with its time. -/
def readPlain? (s : List Char) : Option (Json × List Char) :=
  let word := s.takeWhile isValuePart
  let rest := s.drop word.length
  let (word, rest) :=
    match rest with
    | ' ' :: a :: b :: ':' :: _ =>
      if (readDate? word).any (fun r => r.2.isEmpty) && a.isDigit && b.isDigit then
        let time := (rest.drop 1).takeWhile isValuePart
        (word ++ ' ' :: time, rest.drop (time.length + 1))
      else (word, rest)
    | _ => (word, rest)
  (plainValue? word).map fun v => (v, rest)

end VisualNovel.Toml
