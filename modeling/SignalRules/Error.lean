import SignalRules.Operator

/-! # Errors

Everything that can go wrong with a script, by cause. `ScriptError.kind` sorts the causes into
four kinds and `ScriptError.message` words them; no other module writes message text.
-/

namespace SignalRules

inductive ErrorKind where
  /-- The text is malformed, or names something its host does not know. -/
  | parsing
  /-- The host cannot support a valid script in its present state. -/
  | badState
  /-- The script failed while it was evaluated or executed. -/
  | runtime
  /-- A value lies outside its declared range. -/
  | outOfRange
  deriving DecidableEq

def ErrorKind.heading : ErrorKind → String
  | .parsing => "Parsing error: "
  | .badState => "Bad state: "
  | .runtime => "Runtime error: "
  | .outOfRange => "Value out of range: "

/-- The shapes a written item can have. -/
inductive ItemKind where
  | symbol
  | number
  | string
  | list
  deriving DecidableEq

def ItemKind.name : ItemKind → String
  | .symbol => "symbol"
  | .number => "number"
  | .string => "string"
  | .list => "list"

/-- A text is not one written item. Positions count UTF-8 bytes from the start. -/
inductive ReadError where
  | blank
  /-- More than `limit` lists are open at once. -/
  | tooDeep (limit : Nat)
  /-- The text cannot be read on from `position`, where it continues with `near`. -/
  | unexpected (position : Nat) (near : String)
  /-- The text stops at `position` where more is needed. -/
  | unexpectedEnd (position : Nat)
  deriving DecidableEq

def ReadError.message : ReadError → String
  | .blank => "Empty expression"
  | .tooDeep limit => s!"Expression is nested deeper than {limit} levels"
  | .unexpected position near => s!"Unexpected input at position {position}: '{near}'"
  | .unexpectedEnd position => s!"Unexpected end of expression at position {position}"

def Fixed.LiteralError.message : Fixed.LiteralError → String
  | .decimalPoint text =>
    s!"Number {text} must be written in fixed-point form, e.g. 150 for 1.50"
  | .malformed text => s!"Bad number: {text}"
  | .tooLarge text => s!"Number out of range: {text}"

inductive ConstantPlace where
  /-- Compared with the signal shown under this name. -/
  | signal (display : String)
  /-- The argument of an action, counted from one. -/
  | argument (number : Nat) (action : String)
  deriving DecidableEq

def ConstantPlace.text : ConstantPlace → String
  | .signal display => display
  | .argument number action => s!"argument #{number} of '{action}'"

/-- The word for a static type in messages; an expression without one is an action. -/
def ValueType.nameOrAction : Option ValueType → String
  | some type => type.name
  | none => "action"

inductive CompileError where
  | tooLong (limit : Nat)
  | bareSymbol (symbol : String)
  | emptyList
  | headNotSymbol (actual : ItemKind)
  | nestedAction
  | unknownOperator (keyword : String)
  | signalForm
  | actionForm
  | operandCount (op : Operator) (actual : Nat)
  | operandTypes (op : Operator) (left right : Option ValueType)
  | operandNotNumber (op : Operator) (actual : Option ValueType) (operand : String)
  | argumentCount (action : String) (expected actual : Nat)
  | argumentType (place : ConstantPlace) (expected actual : ValueType)
  | unknownOption (text : String) (place : ConstantPlace)
  | conditionType (actual : ValueType)
  | conditionIsAction
  | actionExpected (actual : String)
  | ruleCondition (condition : String)
  deriving DecidableEq

def CompileError.message : CompileError → String
  | .tooLong limit => s!"Script is longer than {limit} characters"
  | .bareSymbol symbol => s!"Unexpected symbol '{symbol}'; read signals with (sig {symbol})"
  | .emptyList => "Empty list"
  | .headNotSymbol actual => s!"Expected an operator name, got {actual.name}"
  | .nestedAction => "Actions are only allowed at the top level"
  | .unknownOperator keyword => s!"Unknown operator '{keyword}'"
  | .signalForm => "(sig) takes exactly one signal name"
  | .actionForm => "(act) needs an action name"
  | .operandCount op actual =>
    s!"Operator '{op.keyword}' expects {op.arity.text} operands, got {actual}"
  | .operandTypes op left right =>
    "Cannot compare " ++ ValueType.nameOrAction left ++ " with " ++ ValueType.nameOrAction right
      ++ s!" in '{op.keyword}'"
  | .operandNotNumber op actual operand =>
    s!"Operator '{op.keyword}' needs numbers, got " ++ ValueType.nameOrAction actual
      ++ s!" for {operand}"
  | .argumentCount action expected actual =>
    s!"Action '{action}' expects {expected} arguments, got {actual}"
  | .argumentType place expected actual =>
    s!"{place.text}: expected {expected.name}, got {actual.name}"
  | .unknownOption text place => s!"'{text}' is not a valid value for {place.text}"
  | .conditionType actual =>
    s!"Condition must be a boolean or number expression, got {actual.name}"
  | .conditionIsAction => "Condition cannot be an action"
  | .actionExpected actual => s!"Expected an action, got {actual}"
  | .ruleCondition condition => s!"Rule condition must be a number expression: {condition}"

inductive LookupError where
  /-- There is no dot, hence no provider. -/
  | noProvider (name : String)
  | unknownProvider (provider name : String)
  | unknownSignal (name : String)
  | unknownAction (name : String)
  /-- A full name of a global signal is misspelt. -/
  | globalSignal (name : String)
  /-- The argument of a set action is no local name of a global signal. -/
  | globalName (name : String)
  deriving DecidableEq

def LookupError.message : LookupError → String
  | .noProvider name => s!"Name '{name}' has no provider prefix"
  | .unknownProvider provider name => s!"Unknown provider '{provider}' in '{name}'"
  | .unknownSignal name => s!"Unknown signal '{name}'"
  | .unknownAction name => s!"Unknown action '{name}'"
  | .globalSignal name => s!"Invalid global signal name '{name}'"
  | .globalName name => s!"'{name}' is not a valid signal name"

inductive EvaluationError where
  | numberExpected (actual : String)
  | stringExpected (actual : Fixed)
  | incomparable (left right : ValueType)
  | numbersExpected (op : Arithmetic) (left right : ValueType)
  | overflow (op : Arithmetic)
  | divisionByZero
  | valueType (expected actual : ValueType)
  /-- An action stands where a value is needed. -/
  | noValue (action : String)
  /-- Something else stands where an action is needed. -/
  | notAction (actual : String)
  | operandCount (op : Operator) (actual : Nat)
  | globalName (name : String)
  | setArguments
  | logArguments
  deriving DecidableEq

def EvaluationError.message : EvaluationError → String
  | .numberExpected actual => s!"Expected a number, got string '{actual}'"
  | .stringExpected actual => s!"Expected a string, got number {actual.toDecimal}"
  | .incomparable left right => s!"Cannot compare {left.name} with {right.name}"
  | .numbersExpected op left right =>
    s!"Operator '{op.plainSign}' needs numbers, got {left.name} and {right.name}"
  | .overflow op => s!"Overflow in '{op.plainSign}'"
  | .divisionByZero => "Division by zero"
  | .valueType expected actual => s!"Expected {expected.name}, got {actual.name}"
  | .noValue action => s!"Action '{action}' does not produce a value"
  | .notAction actual => s!"Not an action: {actual}"
  | .operandCount op actual => s!"Operator '{op.keyword}' cannot take {actual} operands"
  | .globalName name => s!"'{name}' is not a valid signal name"
  | .setArguments => "Signals.Set expects 2 arguments"
  | .logArguments => "Debug.Log expects a message"

/-- A callback was not admitted to the pending queue. -/
inductive DispatchError where
  /-- The callback is pending already; `chain` lists the signals from the oldest pending
  callback to this one. -/
  | circular (signal : String) (chain : List String)
  | full (limit : Nat) (signal : String)
  deriving DecidableEq

def DispatchError.message : DispatchError → String
  | .circular signal chain =>
    s!"Circular execution of signal '{signal}': " ++ " -> ".intercalate chain
  | .full limit signal => s!"Signal callback queue exceeded {limit} entries at '{signal}'"

inductive ScriptError where
  | read (cause : ReadError)
  | literal (cause : Fixed.LiteralError)
  | compile (cause : CompileError)
  | lookup (cause : LookupError)
  | evaluation (cause : EvaluationError)
  | dispatch (cause : DispatchError)
  | range (actual least most : Fixed)
  /-- An error in the words of a device, a listener or a host application. -/
  | reported (kind : ErrorKind) (message : String)
  deriving DecidableEq

namespace ScriptError

def kind : ScriptError → ErrorKind
  | .read _ => .parsing
  | .literal _ => .parsing
  | .compile _ => .parsing
  | .lookup _ => .parsing
  | .evaluation _ => .runtime
  | .dispatch _ => .runtime
  | .range _ _ _ => .outOfRange
  | .reported kind _ => kind

/-- The message without its heading. -/
def message : ScriptError → String
  | .read cause => cause.message
  | .literal cause => cause.message
  | .compile cause => cause.message
  | .lookup cause => cause.message
  | .evaluation cause => cause.message
  | .dispatch cause => cause.message
  | .range actual least most =>
    s!"{actual.toDecimal} is not in range [{least.toDecimal}, {most.toDecimal}]"
  | .reported _ message => message

def display (error : ScriptError) : String :=
  error.kind.heading ++ error.message

/-- Errors of evaluation, which break the rule they occur in; a range error is one of them. -/
def isRuntime (error : ScriptError) : Bool :=
  error.kind = .runtime || error.kind = .outOfRange

def isParsing (error : ScriptError) : Bool :=
  error.kind = .parsing

/-- What the error becomes when an installed rule meets it: a bad state is then a failure at run
time. Only reported errors can be bad states. -/
def intoRuntime : ScriptError → ScriptError
  | .reported .badState message => .reported .runtime message
  | error => error

theorem kind_intoRuntime_ne_badState (error : ScriptError) :
    error.intoRuntime.kind ≠ .badState := by
  unfold intoRuntime
  split
  · simp [kind]
  · rename_i h
    cases error <;> simp_all [kind]

end ScriptError

end SignalRules
