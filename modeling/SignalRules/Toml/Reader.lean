import SignalRules.Toml.Lexical

/-! # Reading TOML documents

`Toml.read?` gives the entries of the root table of a document, or nothing if the text is no
document.
-/

namespace SignalRules

namespace Toml

def boolean? : List Char → Option (Toml × List Char)
  | 't' :: 'r' :: 'u' :: 'e' :: rest => some (.boolean true, rest)
  | 'f' :: 'a' :: 'l' :: 's' :: 'e' :: rest => some (.boolean false, rest)
  | _ => none

def scalar? (input : List Char) : Option (Toml × List Char) :=
  ((string? input).map fun (s, rest) => (Toml.string s, rest))
    <|> boolean? input <|> moment? input <|> decimal? input <|> special? input <|> integer? input

mutual

/-- A value. Every call takes one unit of fuel, `depth` counts the arrays and tables around. -/
def value? : Nat → Nat → List Char → Option (Toml × List Char)
  | 0, _, _ => none
  | fuel + 1, depth, input =>
    match input with
    | '[' :: rest =>
      if depth + 1 < depthLimit then
        match skipLines rest with
        | ']' :: rest => some (.array [], rest)
        | rest => (items? fuel (depth + 1) rest).map fun (items, rest) => (.array items, rest)
      else none
    | '\x7b' :: rest =>
      if depth + 1 < depthLimit then
        match skipSpace rest with
        | '\x7d' :: rest => some (.inline false [], rest)
        | rest => pairs? fuel (depth + 1) [] rest
      else none
    | _ => scalar? input

/-- The items of an array from here on, and its closing bracket. -/
def items? : Nat → Nat → List Char → Option (List Toml × List Char)
  | 0, _, _ => none
  | fuel + 1, depth, input => do
    let (item, rest) ← value? fuel depth (skipLines input)
    match skipLines rest with
    | ']' :: rest => return ([item], rest)
    | ',' :: rest =>
      match skipLines rest with
      | ']' :: rest => return ([item], rest)
      | rest =>
        let (items, rest) ← items? fuel depth rest
        return (item :: items, rest)
    | _ => none

/-- The pairs of a table written as a value from here on, and its closing brace. -/
def pairs? : Nat → Nat → Entries → List Char → Option (Toml × List Char)
  | 0, _, _, _ => none
  | fuel + 1, depth, entries, input => do
    let ((path, key), rest) ← key? input
    let rest ← char? '=' rest
    let (value, rest) ← value? fuel depth (skipSpace rest)
    let entries ← addInline path key value entries
    match skipSpace rest with
    | '\x7d' :: rest => return (.inline false entries, rest)
    | ',' :: rest => pairs? fuel depth entries rest
    | _ => none

end

def keyLine? (place : List String) (root : Entries) (input : List Char) :
    Option (Entries × List Char) := do
  let ((path, key), rest) ← key? input
  let rest ← char? '=' rest
  let (value, rest) ← value? (2 * input.length + 2) 0 (skipSpace rest)
  let rest ← lineEnd? rest
  return (← addKey place path key value root, rest)

/-- The line of a header, behind its first bracket. The path it names becomes the place of the
lines that follow. -/
def headerLine? (root : Entries) (input : List Char) :
    Option (List String × Entries × List Char) :=
  match input with
  | '[' :: input => do
    let ((path, key), rest) ← key? input
    let rest ← lineEnd? (← char? ']' (← char? ']' rest))
    return (path ++ [key], ← openRepeated path key root, rest)
  | _ => do
    let ((path, key), rest) ← key? input
    let rest ← lineEnd? (← char? ']' rest)
    return (path ++ [key], ← openTable path key root, rest)

/-- Read lines, each of which takes one unit of fuel. -/
def lines? : Nat → List String → Entries → List Char → Option Entries
  | 0, _, _, _ => none
  | fuel + 1, place, root, input =>
    match skipSpace input with
    | [] => some root
    | '[' :: rest => do
      let (place, root, rest) ← headerLine? root rest
      lines? fuel place root rest
    | c :: rest =>
      if c = '#' ∨ c = '\n' ∨ c = '\r' then do
        lines? fuel place root (← lineEnd? (c :: rest))
      else do
        let (root, rest) ← keyLine? place root (c :: rest)
        lines? fuel place root rest

/-- The root table of a document. A byte order mark in front is passed over. -/
def read? (text : String) : Option Entries :=
  let input :=
    match text.toList with
    | '\ufeff' :: rest => rest
    | input => input
  lines? (input.length + 1) [] [] input

end Toml

end SignalRules
