import BrickMachine.Text.Parser
import BrickMachine.Toml.Value

/-!
# The grammar of TOML

This is the grammar of TOML 1.0. A document is a sequence of lines, each with a key and its
value, a header, a comment or nothing. Lines end with a line feed, which a carriage return may
precede. A byte order mark at the start is skipped.

Integers have 64 bits, and so have floats: a positive one that is too large is refused. Dates
have to exist in the calendar. Arrays and tables in braces may be nested less than `depthLimit`
deep, and a dotted key has fewer names than that.
-/

namespace BrickMachine

namespace Toml

namespace Grammar

open BrickMachine.Parser

/-! ### Blanks, lines and comments -/

def isBlank (c : Char) : Bool := c == ' ' || c == '\t'

def isNonAscii (c : Char) : Bool := 0x80 ≤ c.toNat

def isPrintable (c : Char) : Bool :=
  c == '\t' || (0x20 ≤ c.toNat && c.toNat ≤ 0x7E) || isNonAscii c

def blanks : Parser Unit := do
  let _ ← span isBlank
  pure ()

def newline : Parser Unit :=
  char '\n' <|> chars ['\r', '\n']

def comment : Parser Unit := do
  char '#'
  let _ ← span isPrintable
  pure ()

/-- What may follow a value or a header on its line, and the end of the line. -/
def lineEnd : Parser Unit := do
  blanks
  let _ ← optional comment
  newline <|> eof

/-- Blanks, comments and line ends between the items of an array. -/
def gap : Parser Unit := do
  blanks
  let _ ← many (do
    let _ ← optional comment
    newline
    blanks)
  pure ()

/-! ### Strings -/

def hexDigit? (c : Char) : Option Nat :=
  if '0' ≤ c ∧ c ≤ '9' then some (c.toNat - '0'.toNat)
  else if 'a' ≤ c ∧ c ≤ 'f' then some (c.toNat - 'a'.toNat + 10)
  else if 'A' ≤ c ∧ c ≤ 'F' then some (c.toNat - 'A'.toNat + 10)
  else none

def hexDigit : Parser Nat
  | c :: rest => (hexDigit? c).map (·, rest)
  | [] => none

def hexNumber (acc : Nat) : Nat → Parser Nat
  | 0 => pure acc
  | n + 1 => do
    let d ← hexDigit
    hexNumber (acc * 16 + d) n

/-- A character given by its code in `n` digits. The code has to be one of a character. -/
def codePoint (n : Nat) : Parser Char := do
  let code ← hexNumber 0 n
  if code.isValidChar then pure (Char.ofNat code) else failure

def escape : Parser Char := do
  char '\\'
  let c ← satisfy (fun _ => true)
  match c with
  | 'b' => pure '\x08'
  | 't' => pure '\t'
  | 'n' => pure '\n'
  | 'f' => pure '\x0c'
  | 'r' => pure '\r'
  | '"' => pure '"'
  | '\\' => pure '\\'
  | 'u' => codePoint 4
  | 'U' => codePoint 8
  | _ => failure

def isBasic (c : Char) : Bool := isPrintable c && c != '"' && c != '\\'

def isLiteral (c : Char) : Bool := isPrintable c && c != '\''

def basicString : Parser String := do
  char '"'
  let cs ← many (satisfy isBasic <|> escape)
  char '"'
  pure (String.ofList cs)

def literalString : Parser String := do
  char '\''
  let cs ← span isLiteral
  char '\''
  pure (String.ofList cs)

def lineFeed : Parser (List Char) := do
  newline
  pure ['\n']

/-- A backslash at the end of a line. It stands for nothing, together with all blanks and line
ends after it. -/
def continuation : Parser (List Char) := do
  char '\\'
  blanks
  newline
  let _ ← many (newline <|> (do
    let _ ← satisfy isBlank))
  pure []

/-- A quote that does not start three quotes in a row. -/
def loneQuote (q : Char) : Parser (List Char)
  | c :: rest =>
    if c == q && !([q, q].isPrefixOf rest) then some ([c], rest) else none
  | [] => none

/-- The three quotes that end a string, of which up to two more before them belong to it. -/
def closingQuotes (q : Char) : Parser (List Char) :=
  (do chars [q, q, q, q, q]; pure [q, q])
    <|> (do chars [q, q, q, q]; pure [q])
    <|> (do chars [q, q, q]; pure [])

def longString (q : Char) (piece : Parser (List Char)) : Parser String := do
  chars [q, q, q]
  let _ ← optional newline
  let pieces ← many (piece <|> lineFeed <|> loneQuote q)
  let last ← closingQuotes q
  pure (String.ofList (pieces.flatten ++ last))

def longBasicString : Parser String :=
  longString '"' (span1 isBasic <|> continuation <|> (escape.map ([·])))

def longLiteralString : Parser String :=
  longString '\'' (span1 isLiteral)

def string : Parser String :=
  longBasicString <|> basicString <|> longLiteralString <|> literalString

/-! ### Keys -/

def depthLimit : Nat := 80

def isBare (c : Char) : Bool := c.isAlphanum || c == '_' || c == '-'

def simpleKey : Parser String :=
  basicString <|> literalString <|> ((span1 isBare).map String.ofList)

def keyPart : Parser String := do
  blanks
  let name ← simpleKey
  blanks
  pure name

def key : Parser Key := do
  let first ← keyPart
  let more ← many (do char '.'; keyPart)
  let names := first :: more
  if names.length < depthLimit then
    pure ⟨names.dropLast, names.getLast?.getD first⟩
  else
    failure

/-! ### Numbers -/

def decimal (digits : List Char) : Nat :=
  digits.foldl (fun n c => n * 10 + (c.toNat - '0'.toNat)) 0

/-- Digits of a class, between any two of which an underscore may stand. -/
def digitGroup (isDigit : Char → Bool) : Parser (List Char) := do
  let c ← satisfy isDigit
  let cs ← many (satisfy isDigit <|> (do char '_'; satisfy isDigit))
  pure (c :: cs)

def sign : Parser Bool := do
  let s ← optional (satisfy fun c => c == '+' || c == '-')
  pure (s == some '-')

def wholeDigits : Parser (List Char) := fun s =>
  match s with
  | '0' :: rest => some (['0'], rest)
  | _ => digitGroup Char.isDigit s

def integerValue (n : Int) : Parser Value :=
  if Int64.minValue.toInt ≤ n ∧ n ≤ Int64.maxValue.toInt then pure (.integer n) else failure

def decimalInteger : Parser Value := do
  let negative ← sign
  let n := decimal (← wholeDigits)
  integerValue (if negative then -n else n)

def basedInteger (letter : Char) (base : Nat) : Parser Value := do
  chars ['0', letter]
  let digits ← digitGroup fun c => (hexDigit? c).any (· < base)
  integerValue (digits.foldl (fun n c => n * base + (hexDigit? c).getD 0) 0 : Nat)

def integer : Parser Value :=
  basedInteger 'x' 16 <|> basedInteger 'o' 8 <|> basedInteger 'b' 2 <|> decimalInteger

def exponent : Parser Int := do
  let _ ← satisfy fun c => c == 'e' || c == 'E'
  let negative ← sign
  let n : Int := decimal (← digitGroup Char.isDigit)
  pure (if negative then -n else n)

def fraction : Parser (List Char) := do
  char '.'
  digitGroup Char.isDigit

/-- The float nearest to `digits * 10 ^ exponent`. Exponents far beyond every finite float are
cut. -/
def nearestFloat (digits : Nat) (exponent : Int) : Float :=
  let order := (Nat.toDigits 10 digits).length + exponent
  if digits = 0 ∨ order < -400 then 0
  else if 400 < order then 1 / 0
  else Float.ofScientific digits (exponent < 0) exponent.natAbs

def decimalFloat : Parser Value := do
  let negative ← sign
  let whole ← wholeDigits
  let places ← optional fraction
  let power ← optional exponent
  if places.isNone && power.isNone then failure
  let behind := places.getD []
  let x := nearestFloat (decimal (whole ++ behind)) (power.getD 0 - behind.length)
  if x == 1 / 0 && !negative then failure
  pure (.float (if negative then -x else x))

def specialFloat : Parser Value := do
  let negative ← sign
  let x ← (do chars ['i', 'n', 'f']; pure (1 / 0 : Float))
    <|> (do chars ['n', 'a', 'n']; pure (0 / 0 : Float))
  pure (.float (if negative then -x else x))

/-! ### Dates and times -/

def digitsWithin (n low high : Nat) : Parser Nat := do
  let ds ← times n (satisfy Char.isDigit)
  if low ≤ decimal ds ∧ decimal ds ≤ high then pure (decimal ds) else failure

def daysOf (year month : Nat) : Nat :=
  if month = 2 then
    if year % 4 = 0 ∧ (year % 100 ≠ 0 ∨ year % 400 = 0) then 29 else 28
  else if month = 4 ∨ month = 6 ∨ month = 9 ∨ month = 11 then 30
  else 31

def date : Parser Unit := do
  let year ← digitsWithin 4 0 9999
  char '-'
  let month ← digitsWithin 2 1 12
  char '-'
  let _ ← digitsWithin 2 1 (daysOf year month)

/-- A time of the day. The last minute of a day may have a leap second. -/
def time : Parser Unit := do
  let _ ← digitsWithin 2 0 23
  char ':'
  let _ ← digitsWithin 2 0 59
  char ':'
  let _ ← digitsWithin 2 0 60
  let _ ← optional (do char '.'; span1 Char.isDigit)

def zone : Parser Unit := do
  let c ← satisfy fun c => c == 'Z' || c == 'z' || c == '+' || c == '-'
  if c == '+' || c == '-' then
    let _ ← digitsWithin 2 0 23
    char ':'
    let _ ← digitsWithin 2 0 59

def dateTime : Parser Value := do
  (do
    date
    let _ ← optional (do
      let _ ← satisfy fun c => c == 'T' || c == 't' || c == ' '
      time
      optional zone))
    <|> time
  pure .dateTime

/-! ### Values -/

def boolean : Parser Value :=
  (do chars ['t', 'r', 'u', 'e']; pure (.boolean true))
    <|> (do chars ['f', 'a', 'l', 's', 'e']; pure (.boolean false))

def scalar : Parser Value :=
  (string.map .string) <|> boolean <|> dateTime <|> decimalFloat <|> specialFloat <|> integer

/-- The items of an array, of which there are less than `n`, and its closing bracket. -/
def arrayItems (item : Parser Value) : Nat → Parser (List Value)
  | 0 => failure
  | n + 1 => do
    gap
    if (← peek) == some ']' then
      char ']'
      pure []
    else
      let v ← item
      gap
      if (← peek) == some ',' then
        char ','
        let vs ← arrayItems item n
        pure (v :: vs)
      else
        char ']'
        pure [v]

def array (item : Parser Value) : Parser Value := do
  char '['
  let items ← fun s => arrayItems item (s.length + 1) s
  pure (.array items)

def pair (item : Parser Value) : Parser (Key × Value) := do
  let k ← key
  char '='
  blanks
  let v ← item
  pure (k, v)

def bracesTable (item : Parser Value) : Parser Value := do
  char '\x7b'
  blanks
  let pairs ← (do
      let first ← pair item
      blanks
      let more ← many (do
        char ','
        let p ← pair item
        blanks
        pure p)
      pure (first :: more))
    <|> pure []
  char '\x7d'
  match Entries.ofPairs pairs [] with
  | some es => pure (.table .braces es)
  | none => failure

def value : Nat → Parser Value
  | 0 => scalar
  | depth + 1 => do
    match ← peek with
    | some '[' => array (value depth)
    | some '\x7b' => bracesTable (value depth)
    | _ => scalar

/-! ### Documents -/

/-- A header line, in two brackets for an element of an array of tables. -/
def headerLine : Parser Statement :=
  (do
    chars ['[', '[']
    let k ← key
    chars [']', ']']
    pure (.element k))
    <|> (do
      char '['
      let k ← key
      char ']'
      pure (.header k))

def line : Parser (Option Statement) := do
  blanks
  match ← peek with
  | none => failure
  | some '#' => do
    comment
    newline <|> eof
    pure none
  | some '\n' | some '\r' => do
    newline
    pure none
  | some '[' => do
    let s ← headerLine
    lineEnd
    pure (some s)
  | some _ => do
    let (k, v) ← pair (value (depthLimit - 1))
    lineEnd
    pure (some (.pair k v))

def document : Parser (List Statement) := do
  let _ ← optional (char '\uFEFF')
  let lines ← many line
  blanks
  eof
  pure (lines.filterMap id)

end Grammar

def parse? (text : String) : Option Entries := do
  let statements ← Parser.parseAll? Grammar.document text.toList
  Entries.ofStatements [] statements []

end Toml

end BrickMachine
