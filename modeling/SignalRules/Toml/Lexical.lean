import SignalRules.Toml

/-! # The words of TOML

Readers for keys, strings, numbers and dates. Each takes its word off the front of the characters
and returns what it means with the rest, or nothing if the word is not well-formed.
-/

namespace SignalRules

namespace Toml

/-! ## Space -/

def isSpace (c : Char) : Bool :=
  c == ' ' || c == '\t'

def skipSpace (input : List Char) : List Char :=
  input.dropWhile isSpace

def newline? : List Char → Option (List Char)
  | '\n' :: rest => some rest
  | '\r' :: '\n' :: rest => some rest
  | _ => none

/-- The characters of comments: all but control characters, and the tab. -/
def isCommentChar (c : Char) : Bool :=
  c == '\t' || (' ' ≤ c && c ≠ '\x7f')

/-- Skip spaces, then a comment if there is one. -/
def skipComment (input : List Char) : List Char :=
  match skipSpace input with
  | '#' :: rest => rest.dropWhile isCommentChar
  | rest => rest

/-- The end of a line or of the text, behind spaces and a comment. -/
def lineEnd? (input : List Char) : Option (List Char) :=
  match skipComment input with
  | [] => some []
  | rest => newline? rest

def skipLines (input : List Char) : List Char :=
  go (input.length + 1) input
where
  /-- Skip as many lines as there is fuel. -/
  go : Nat → List Char → List Char
    | 0, input => input
    | fuel + 1, input =>
      match newline? (skipComment input) with
      | some rest => go fuel rest
      | none => skipSpace input

/-! ## Strings -/

/-- Characters that stand for themselves in strings with escapes. -/
def isBasicChar (c : Char) : Bool :=
  isSpace c || c == '!' || ('#' ≤ c && c ≠ '\\' && c ≠ '\x7f')

/-- Characters that stand for themselves in strings without escapes. -/
def isLiteralChar (c : Char) : Bool :=
  isSpace c || (' ' ≤ c && c ≠ '\'' && c ≠ '\x7f')

def hexValue (c : Char) : Nat :=
  if c.isDigit then c.toNat - 48 else if 'a' ≤ c then c.toNat - 87 else c.toNat - 55

def isHexDigit (c : Char) : Bool :=
  c.isDigit || ('a' ≤ c && c ≤ 'f') || ('A' ≤ c && c ≤ 'F')

/-- The character with this number of hexadecimal digits as its code point. -/
def codePoint? (digits : Nat) (input : List Char) : Option (Char × List Char) :=
  let code := input.take digits
  if code.length = digits ∧ code.all isHexDigit then
    let n := code.foldl (fun n c => 16 * n + hexValue c) 0
    if n.isValidChar then some (Char.ofNat n, input.drop digits) else none
  else none

def escape? : List Char → Option (Char × List Char)
  | 'b' :: rest => some ('\x08', rest)
  | 't' :: rest => some ('\t', rest)
  | 'n' :: rest => some ('\n', rest)
  | 'f' :: rest => some ('\x0c', rest)
  | 'r' :: rest => some ('\r', rest)
  | '\"' :: rest => some ('\"', rest)
  | '\\' :: rest => some ('\\', rest)
  | 'u' :: rest => codePoint? 4 rest
  | 'U' :: rest => codePoint? 8 rest
  | _ => none

def basicBody? : Nat → List Char → Option (List Char × List Char)
  | 0, _ => none
  | fuel + 1, input =>
    match input with
    | '\"' :: rest => some ([], rest)
    | '\\' :: rest => do
      let (c, rest) ← escape? rest
      let (cs, rest) ← basicBody? fuel rest
      return (c :: cs, rest)
    | c :: rest =>
      if isBasicChar c then (basicBody? fuel rest).map fun (cs, rest) => (c :: cs, rest) else none
    | [] => none

def literalBody? (input : List Char) : Option (List Char × List Char) :=
  match input.dropWhile isLiteralChar with
  | '\'' :: rest => some (input.takeWhile isLiteralChar, rest)
  | _ => none

/-- What comes of some quotes in a row inside a string over several lines: three end it, and up to
two more in front of those belong to it. -/
inductive QuoteRun where
  | inside (rest : List Char)
  | closing (quotes : Nat) (rest : List Char)

def quoteRun (quote : Char) (input : List Char) : QuoteRun :=
  let quotes := (input.takeWhile (· == quote)).length
  if quotes < 3 then .inside (input.drop quotes)
  else
    let kept := min (quotes - 3) 2
    .closing kept (input.drop (kept + 3))

/-- Spaces and line ends behind an escaped line end. -/
def skipBreak (input : List Char) : List Char :=
  go (input.length + 1) input
where
  go : Nat → List Char → List Char
    | 0, input => input
    | fuel + 1, input =>
      match newline? (skipSpace input) with
      | some rest => go fuel rest
      | none => skipSpace input

/-- The rest of a string over several lines, with escapes unless the quote is a single one. -/
def longBody? (quote : Char) : Nat → List Char → Option (List Char × List Char)
  | 0, _ => none
  | fuel + 1, input =>
    match input with
    | [] => none
    | c :: rest =>
      if c = quote then
        match quoteRun quote input with
        | .closing kept rest => some (List.replicate kept quote, rest)
        | .inside rest' =>
          (longBody? quote fuel rest').map fun (cs, after) =>
            (List.replicate (input.length - rest'.length) quote ++ cs, after)
      else if c = '\\' ∧ quote = '\"' then
        match newline? (skipSpace rest) with
        | some rest => longBody? quote fuel (skipBreak rest)
        | none => do
          let (c, rest) ← escape? rest
          let (cs, rest) ← longBody? quote fuel rest
          return (c :: cs, rest)
      else
        match newline? input with
        | some rest => (longBody? quote fuel rest).map fun (cs, rest) => ('\n' :: cs, rest)
        | none =>
          if (if quote = '\"' then isBasicChar c else isLiteralChar c) then
            (longBody? quote fuel rest).map fun (cs, rest) => (c :: cs, rest)
          else none

/-- A string over several lines behind its opening quotes; a line end that follows them at once is
left out. -/
def longString? (quote : Char) (input : List Char) : Option (String × List Char) :=
  let input := (newline? input).getD input
  (longBody? quote (input.length + 1) input).map fun (cs, rest) => (String.ofList cs, rest)

def shortString? : List Char → Option (String × List Char)
  | '\"' :: input =>
    (basicBody? (input.length + 1) input).map fun (cs, rest) => (String.ofList cs, rest)
  | '\'' :: input => (literalBody? input).map fun (cs, rest) => (String.ofList cs, rest)
  | _ => none

def string? : List Char → Option (String × List Char)
  | '\"' :: '\"' :: '\"' :: input => longString? '\"' input
  | '\'' :: '\'' :: '\'' :: input => longString? '\'' input
  | input => shortString? input

/-! ## Keys -/

def isBareKeyChar (c : Char) : Bool :=
  c.isAlphanum || c == '-' || c == '_'

def simpleKey? (input : List Char) : Option (String × List Char) :=
  match input with
  | '\"' :: _ => shortString? input
  | '\'' :: _ => shortString? input
  | _ =>
    let name := input.takeWhile isBareKeyChar
    if name.isEmpty then none else some (String.ofList name, input.dropWhile isBareKeyChar)

/-- No more levels than this are read, of key parts and of values alike. -/
def depthLimit : Nat := 80

/-- The parts of a key from here on, with spaces around them. -/
def keyParts? : Nat → List Char → Option (List String × List Char)
  | 0, _ => none
  | fuel + 1, input => do
    let (part, rest) ← simpleKey? (skipSpace input)
    match skipSpace rest with
    | '.' :: rest =>
      let (parts, rest) ← keyParts? fuel rest
      return (part :: parts, rest)
    | rest => return ([part], rest)

/-- A key: the parts in front of its last dot, and the last part. -/
def key? (input : List Char) : Option ((List String × String) × List Char) := do
  let (parts, rest) ← keyParts? depthLimit input
  if parts.length < depthLimit then
    match parts.reverse with
    | last :: path => return ((path.reverse, last), rest)
    | [] => none
  else none

/-! ## Numbers -/

/-- Digits, with single underscores between digits. -/
def digits? (isDigit : Char → Bool) (input : List Char) : Option (List Char × List Char) :=
  match input with
  | c :: rest => if isDigit c then (more rest).map fun (cs, rest) => (c :: cs, rest) else none
  | [] => none
where
  more : List Char → Option (List Char × List Char)
    | '_' :: c :: rest =>
      if isDigit c then (more rest).map fun (cs, rest) => (c :: cs, rest) else none
    | ['_'] => none
    | c :: rest =>
      if isDigit c then (more rest).map fun (cs, rest) => (c :: cs, rest)
      else some ([], c :: rest)
    | [] => some ([], [])

/-- Decimal digits without a superfluous zero in front. -/
def wholeDigits? : List Char → Option (List Char × List Char)
  | '0' :: rest => some (['0'], rest)
  | input => digits? Char.isDigit input

/-- A sign or none, and whether it is a minus. -/
def sign : List Char → Bool × List Char
  | '+' :: rest => (false, rest)
  | '-' :: rest => (true, rest)
  | input => (false, input)

/-- An integer that fits a signed 64-bit word. -/
def fitting? (n : Int) : Option Toml :=
  if -9223372036854775808 ≤ n ∧ n ≤ 9223372036854775807 then some (.integer n) else none

def number (base : Nat) (digits : List Char) : Nat :=
  digits.foldl (fun n c => base * n + hexValue c) 0

/-- An integer without a sign, in a base other than ten. -/
def prefixed? (base : Nat) (isDigit : Char → Bool) (input : List Char) :
    Option (Toml × List Char) := do
  let (digits, rest) ← digits? isDigit input
  return (← fitting? (number base digits), rest)

def integer? (input : List Char) : Option (Toml × List Char) :=
  match input with
  | '0' :: 'x' :: rest => prefixed? 16 isHexDigit rest
  | '0' :: 'o' :: rest => prefixed? 8 (fun c => '0' ≤ c && c ≤ '7') rest
  | '0' :: 'b' :: rest => prefixed? 2 (fun c => c == '0' || c == '1') rest
  | _ => do
    let (negative, rest) := sign input
    let (digits, rest) ← wholeDigits? rest
    let n : Int := number 10 digits
    return (← fitting? (if negative then -n else n), rest)

/-- The exponent of a number: its value and the rest. -/
def exponent? (input : List Char) : Option (Int × List Char) :=
  match input with
  | c :: rest =>
    if c = 'e' ∨ c = 'E' then do
      let (negative, rest) := sign rest
      let (digits, rest) ← digits? Char.isDigit rest
      let n : Int := number 10 digits
      return (if negative then -n else n, rest)
    else none
  | [] => none

def decimals? : List Char → Option (List Char × List Char)
  | '.' :: rest => digits? Char.isDigit rest
  | _ => none

/-- Whether the digits times a power of ten round to infinity in double precision. -/
def overflows (digits : List Char) (exponent : Int) : Bool :=
  let m := number 10 digits
  let size : Int := (Nat.toDigits 10 m).length + exponent
  if m = 0 ∨ size < 300 then false
  else if 320 < size then true
  else
    let bound := Nat.pow 2 1024 - Nat.pow 2 970
    if 0 ≤ exponent then bound ≤ m * Nat.pow 10 exponent.toNat
    else bound * Nat.pow 10 (-exponent).toNat ≤ m

/-- A number with decimals or an exponent. One too large above is refused, one too large below is
not. -/
def decimal? (input : List Char) : Option (Toml × List Char) := do
  let (negative, afterSign) := sign input
  let (whole, afterWhole) ← wholeDigits? afterSign
  let (places, exponent, rest) ←
    match decimals? afterWhole with
    | some (places, rest) =>
      match exponent? rest with
      | some (exponent, rest) => some (places, exponent, rest)
      | none => some (places, 0, rest)
    | none => (exponent? afterWhole).map fun (exponent, rest) => ([], exponent, rest)
  if !negative && overflows (whole ++ places) (exponent - places.length) then none
  else return (.float (String.ofList (input.take (input.length - rest.length))), rest)

/-- Infinity or not-a-number, with a sign or none. -/
def special? (input : List Char) : Option (Toml × List Char) :=
  match (sign input).2 with
  | 'i' :: 'n' :: 'f' :: rest => some (.float "inf", rest)
  | 'n' :: 'a' :: 'n' :: rest => some (.float "nan", rest)
  | _ => none

/-! ## Dates and times -/

/-- A number of exactly so many digits, between two bounds. -/
def bounded? (digits least most : Nat) (input : List Char) : Option (Nat × List Char) :=
  let text := input.take digits
  let n := number 10 text
  if text.length = digits ∧ text.all Char.isDigit ∧ least ≤ n ∧ n ≤ most then
    some (n, input.drop digits)
  else none

def char? (c : Char) : List Char → Option (List Char)
  | d :: rest => if c = d then some rest else none
  | [] => none

def monthLength (year month : Nat) : Nat :=
  if month = 2 then
    if year % 4 = 0 ∧ (year % 100 ≠ 0 ∨ year % 400 = 0) then 29 else 28
  else if month = 4 ∨ month = 6 ∨ month = 9 ∨ month = 11 then 30
  else 31

def date? (input : List Char) : Option (List Char) := do
  let (year, rest) ← bounded? 4 0 9999 input
  let (month, rest) ← bounded? 2 1 12 (← char? '-' rest)
  let (_, rest) ← bounded? 2 1 (monthLength year month) (← char? '-' rest)
  return rest

/-- The rest behind a time of day; a leap second is allowed, and so are fractions of a second. -/
def time? (input : List Char) : Option (List Char) := do
  let (_, rest) ← bounded? 2 0 23 input
  let (_, rest) ← bounded? 2 0 59 (← char? ':' rest)
  let (_, rest) ← bounded? 2 0 60 (← char? ':' rest)
  match rest with
  | '.' :: c :: fraction =>
    if c.isDigit then return fraction.dropWhile Char.isDigit else return rest
  | _ => return rest

/-- The rest behind an offset from universal time, if there is one. -/
def skipOffset (input : List Char) : List Char :=
  let offset? (input : List Char) : Option (List Char) := do
    let (_, rest) ← bounded? 2 0 23 input
    let (_, rest) ← bounded? 2 0 59 (← char? ':' rest)
    return rest
  match input with
  | 'Z' :: rest => rest
  | 'z' :: rest => rest
  | '+' :: rest => (offset? rest).getD input
  | '-' :: rest => (offset? rest).getD input
  | _ => input

def moment? (input : List Char) : Option (Toml × List Char) := do
  let rest ←
    match date? input with
    | some rest =>
      match rest with
      | c :: afterMark =>
        if c = 'T' ∨ c = 't' ∨ c = ' ' then
          match time? afterMark with
          | some rest => some (skipOffset rest)
          | none => some rest
        else some rest
      | [] => some rest
    | none => time? input
  return (.moment (String.ofList (input.take (input.length - rest.length))), rest)

end Toml

end SignalRules
