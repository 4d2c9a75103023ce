import SignalRules.RuleText

/-! # Scanning rule text

`RuleText.scan` finds the rules of a text and the first place, if any, where the text is no
sequence of rule blocks. It looks at lines and keys only and compiles nothing.

Blocks are separated by blank lines or nothing. Lines that start with `#`, `//` or `;` are
comments. A line may start with a block comment, `/* ... */` or `#| ... |#`, which may end on a
later line; what follows its end on that line counts again, and may start with one more comment.
-/

namespace SignalRules

namespace RuleText

/-! ## Lines -/

/-- The lines of a text. The last may do without its line feed, and there is none behind it. -/
def lines : List Char → List (List Char)
  | [] => []
  | c :: cs =>
    if c = '\n' then [] :: lines cs
    else
      match lines cs with
      | [] => [[c]]
      | line :: rest => (c :: line) :: rest

/-- What follows the first occurrence of a tag. -/
def after? (tag : List Char) : List Char → Option (List Char)
  | [] => if tag.isEmpty then some [] else none
  | c :: cs => if tag.isPrefixOf (c :: cs) then some ((c :: cs).drop tag.length) else after? tag cs

/-! ## Comments -/

/-- The tags that open block comments, each with the tag that closes them. -/
def blockComments : List (List Char × List Char) :=
  [(['/', '*'], ['*', '/']), (['#', '|'], ['|', '#'])]

/-- What comment lines start with. -/
def lineComments : List (List Char) :=
  [['#'], ['/', '/'], [';']]

/-- A block comment that goes on behind the end of its line. -/
structure OpenComment where
  close : List Char
  line : Nat

/-- What a line has to say once its comments are taken away. -/
inductive Content where
  /-- The line is empty; this ends a block. -/
  | blank
  | comment
  | text (line : List Char)

/-- The content of a line that starts with no block comment. -/
def content (line : List Char) : Content :=
  if line.isEmpty || lineComments.any (·.isPrefixOf line) then .comment else .text line

/-- Take away the block comment that a line starts with, if it does. -/
def stripFront (number : Nat) (line : List Char) : Option OpenComment × Content :=
  match blockComments.find? fun tags => tags.1.isPrefixOf line with
  | none => (none, content line)
  | some (opening, close) =>
    match after? close (line.drop opening.length) with
    | none => (some ⟨close, number⟩, .comment)
    | some rest => (none, content (Text.trim rest))

/-- Take away the end of a comment opened before, then the block comment that the rest starts
with. -/
def strip (opened : Option OpenComment) (number : Nat) (raw : List Char) :
    Option OpenComment × Content :=
  let line := Text.trim raw
  match opened with
  | some comment =>
    match after? comment.close line with
    | none => (some comment, .comment)
    | some rest => stripFront number (Text.trim rest)
  | none => if line.isEmpty then (none, .blank) else stripFront number line

/-! ## Entries and blocks -/

def readEntry (line : List Char) : Except ImportCause (RuleField × String) :=
  match line.dropWhile (· != ':') with
  | [] => .error (.notEntry (String.ofList line))
  | _ :: rest =>
    let key := Text.trim (line.takeWhile (· != ':'))
    let value := Text.trim rest
    if value.isEmpty then .error (.emptyValue (String.ofList key))
    else
      match RuleField.ofKey? key with
      | none => .error (.unknownKey (String.ofList key))
      | some field => .ok (field, String.ofList value)

/-- A block whose action has not come yet. Scripts keep the line that they stand on. -/
structure Draft where
  template : Option String := none
  precondition : Option (Nat × String) := none
  condition : Option (Nat × String) := none

namespace Draft

def empty : Draft := {}

def isEmpty (draft : Draft) : Bool :=
  draft.template.isNone && draft.precondition.isNone && draft.condition.isNone

end Draft

/-- A complete rule and the lines of its scripts. -/
structure Located where
  record : RuleRecord
  preconditionLine : Option Nat
  conditionLine : Nat
  actionLine : Nat

/-- Add an entry to a block; an action completes it. -/
def Draft.add (draft : Draft) (number : Nat) (field : RuleField) (value : String) :
    Except ImportCause (Draft × Option Located) :=
  match field with
  | .template =>
    if draft.isEmpty then .ok ({ draft with template := some value }, none)
    else .error (.misplaced .template)
  | .precondition =>
    if draft.precondition.isSome || draft.condition.isSome then .error (.misplaced .precondition)
    else .ok ({ draft with precondition := some (number, value) }, none)
  | .condition =>
    if draft.condition.isSome then .error (.misplaced .condition)
    else .ok ({ draft with condition := some (number, value) }, none)
  | .action =>
    match draft.condition with
    | none => .error .missingCondition
    | some (conditionLine, condition) =>
      .ok (.empty, some {
        record := {
          condition
          action := value
          template := draft.template
          precondition := draft.precondition.map Prod.snd }
        preconditionLine := draft.precondition.map Prod.fst
        conditionLine
        actionLine := number })

/-! ## Texts -/

/-- Scan lines from this number on, with a comment or a block possibly open. An open comment at the
end is reported where it started, an open block on the last line. -/
def scanLines (opened : Option OpenComment) (draft : Draft) (number : Nat) :
    List (List Char) → List Located × Option ImportError
  | [] =>
    match opened with
    | some comment => ([], some ⟨comment.line, .openComment⟩)
    | none => ([], if draft.isEmpty then none else some ⟨number - 1, .unfinished⟩)
  | raw :: rest =>
    match strip opened number raw with
    | (opened, .comment) => scanLines opened draft (number + 1) rest
    | (opened, .blank) =>
      if draft.isEmpty then scanLines opened draft (number + 1) rest
      else ([], some ⟨number, .unfinished⟩)
    | (opened, .text line) =>
      match readEntry line with
      | .error cause => ([], some ⟨number, cause⟩)
      | .ok (field, value) =>
        match draft.add number field value with
        | .error cause => ([], some ⟨number, cause⟩)
        | .ok (draft, none) => scanLines opened draft (number + 1) rest
        | .ok (draft, some rule) =>
          let (rules, fault) := scanLines opened draft (number + 1) rest
          (rule :: rules, fault)

/-- The rules in front of the first fault in the structure of a text, and the fault. -/
def scan (text : String) : List Located × Option ImportError :=
  scanLines none .empty 1 (lines text.toList)

end RuleText

end SignalRules
