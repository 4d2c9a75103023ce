import SignalRules.Sexp
import SignalRules.Text.Blank

/-! # Reading items

`Sexp.read` turns a text into the one item that it writes. Which kind of item starts at a place is
decided by the first character there, so nothing is ever tried twice. An item is followed by a
separator, a closing parenthesis or the end of the text.

A fault inside a list is reported where the outermost item starts, because no item could be read
there; a fault behind a complete item is reported where the rest starts.
-/

namespace SignalRules

namespace Sexp

def isSeparator (c : Char) : Bool :=
  c == ' ' || c == '\t' || c == '\r' || c == '\n'

/-- The characters of a symbol after its first, which is an ASCII letter. -/
def isSymbolChar (c : Char) : Bool :=
  c.isAlphanum || c == '.' || c == '_' || c == '-'

def skipSeparators (input : List Char) : List Char :=
  input.dropWhile isSeparator

/-- An item may end in front of these characters. -/
def isBoundary : List Char → Bool
  | [] => true
  | c :: _ => c == ')' || isSeparator c

/-! ## Atoms

Each reader takes an atom off the front of the input and returns it with the rest. -/

/-- A string: everything up to the next quote. -/
def readString : List Char → Option (Sexp × List Char)
  | '\'' :: input =>
    match input.dropWhile (· != '\'') with
    | _ :: rest => some (.string (String.ofList (input.takeWhile (· != '\''))), rest)
    | [] => none
  | _ => none

/-- The digits at the front, then a point and more digits if both are there. -/
def readDecimal (input : List Char) : Option (List Char × List Char) :=
  let whole := input.takeWhile Char.isDigit
  if whole.isEmpty then none
  else
    match input.dropWhile Char.isDigit with
    | '.' :: rest =>
      let places := rest.takeWhile Char.isDigit
      if places.isEmpty then some (whole, '.' :: rest)
      else some (whole ++ '.' :: places, rest.dropWhile Char.isDigit)
    | rest => some (whole, rest)

/-- A number: a hyphen or none, then a decimal. -/
def readNumber : List Char → Option (Sexp × List Char)
  | '-' :: input =>
    (readDecimal input).map fun (text, rest) => (.number (String.ofList ('-' :: text)), rest)
  | input => (readDecimal input).map fun (text, rest) => (.number (String.ofList text), rest)

def readSymbol : List Char → Option (Sexp × List Char)
  | c :: input =>
    if c.isAlpha then
      some (.symbol (String.ofList (c :: input.takeWhile isSymbolChar)),
        input.dropWhile isSymbolChar)
    else none
  | [] => none

def readAtom (input : List Char) : Option (Sexp × List Char) :=
  readString input <|> readNumber input <|> readSymbol input

/-! ## Items -/

mutual

/-- The item at the front and the rest behind it; on a fault, the place to report. Every call takes
one unit of fuel, and twice the length of the input is enough. -/
def readItem : Nat → List Char → Except (List Char) (Sexp × List Char)
  | 0, input => .error input
  | fuel + 1, input =>
    let found :=
      match input with
      | '(' :: inner =>
        let (items, rest) := readItems fuel inner
        match skipSeparators rest with
        | ')' :: rest => some (.list items, rest)
        | _ => none
      | _ => readAtom input
    match found with
    | none => .error input
    | some (item, rest) => if isBoundary rest then .ok (item, rest) else .error rest

def readItems : Nat → List Char → List Sexp × List Char
  | 0, input => ([], input)
  | fuel + 1, input =>
    match readItem fuel (skipSeparators input) with
    | .error _ => ([], input)
    | .ok (item, rest) =>
      let (items, rest) := readItems fuel rest
      (item :: items, rest)

end

/-! ## The nesting limit -/

/-- Scan for an opening parenthesis that `limit` open lists do not admit. Quotes switch between
text and string, and a closing parenthesis too many counts for nothing. -/
def exceedsDepth (limit : Nat) : Nat → Bool → List Char → Bool
  | _, _, [] => false
  | depth, quoted, c :: rest =>
    if c = '\'' then exceedsDepth limit depth (!quoted) rest
    else if quoted then exceedsDepth limit depth quoted rest
    else if c = '(' then decide (limit < depth + 1) || exceedsDepth limit (depth + 1) quoted rest
    else if c = ')' then exceedsDepth limit (depth - 1) quoted rest
    else exceedsDepth limit depth quoted rest

/-! ## Texts -/

/-- The report of a fault where only `rest` is left of `input`; it quotes up to sixteen
characters. -/
def fault (input rest : List Char) : ReadError :=
  let position := Text.byteLength input - Text.byteLength rest
  if rest.isEmpty then .unexpectedEnd position
  else .unexpected position (String.ofList (rest.take 16))

def readChars (input : List Char) : Except ReadError Sexp :=
  match readItem (2 * input.length + 2) (skipSeparators input) with
  | .error rest => .error (fault input rest)
  | .ok (item, rest) =>
    match skipSeparators rest with
    | [] => .ok item
    | rest => .error (fault input rest)

/-- The one item that the text writes, with at most `limit` lists open at once. -/
def read (text : String) (limit : Nat) : Except ReadError Sexp :=
  let input := text.toList
  if (Text.trim input).isEmpty then .error .blank
  else if exceedsDepth limit 0 false input then .error (.tooDeep limit)
  else readChars input

end Sexp

end SignalRules
