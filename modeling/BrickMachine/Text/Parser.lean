/-!
# Parsers

A parser takes characters off the front of a list or refuses it. Of two alternatives the second
is tried only where the first refuses, and repetition takes as much as it can.
-/

namespace BrickMachine

abbrev Parser (α : Type) := StateT (List Char) Option α

namespace Parser

def satisfy (p : Char → Bool) : Parser Char
  | c :: rest => if p c then some (c, rest) else none
  | [] => none

def char (c : Char) : Parser Unit := do
  let _ ← satisfy (· == c)
  pure ()

def chars : List Char → Parser Unit
  | [] => pure ()
  | c :: cs => do
    char c
    chars cs

def span (p : Char → Bool) : Parser (List Char) := fun s =>
  some (s.takeWhile p, s.dropWhile p)

def span1 (p : Char → Bool) : Parser (List Char) := do
  let c ← satisfy p
  let cs ← span p
  pure (c :: cs)

def peek : Parser (Option Char) := fun s => some (s.head?, s)

def eof : Parser Unit := fun s => if s.isEmpty then some ((), s) else none

def times {α : Type} (n : Nat) (p : Parser α) : Parser (List α) :=
  match n with
  | 0 => pure []
  | n + 1 => do
    let a ← p
    let as ← times n p
    pure (a :: as)

/-- What a parser gives again and again, at most once for each of some characters. -/
def along {α : Type} (p : Parser α) : List Char → Parser (List α)
  | [] => pure []
  | _ :: more => fun s =>
    match p s with
    | some (a, rest) => (along p more rest).map fun (as, rest) => (a :: as, rest)
    | none => some ([], s)

/-- What a parser gives again and again, as long as it accepts. It has to take a character each
time. -/
def many {α : Type} (p : Parser α) : Parser (List α) := fun s => along p s s

def parseAll? {α : Type} (p : Parser α) (s : List Char) : Option α :=
  match p s with
  | some (a, []) => some a
  | _ => none

end Parser

end BrickMachine
