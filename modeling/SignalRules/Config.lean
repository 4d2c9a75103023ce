import SignalRules.RuleText

/-! # Configuration

The limits of an engine, and the policy for imports that name none.
-/

namespace SignalRules

structure Config where
  /-- The longest script, in bytes of UTF-8. -/
  maxScriptLength : Nat := 4096
  /-- The most lists that may be open at once in a script. -/
  maxNestingDepth : Nat := 32
  /-- The most callbacks that may be pending at once. -/
  callbackQueueLimit : Nat := 256
  importPolicy : ImportPolicy := .strict
  deriving DecidableEq

/-- A limit of zero. -/
inductive ConfigError where
  | scriptLength
  | nestingDepth
  | queueLimit
  deriving DecidableEq

def ConfigError.message : ConfigError → String
  | .scriptLength => "max_script_length must be positive"
  | .nestingDepth => "max_nesting_depth must be positive"
  | .queueLimit => "callback_queue_limit must be positive"

/-- Refuse limits of zero; the first of several is reported. -/
def Config.validate (config : Config) : Except ConfigError Unit :=
  if config.maxScriptLength = 0 then .error .scriptLength
  else if config.maxNestingDepth = 0 then .error .nestingDepth
  else if config.callbackQueueLimit = 0 then .error .queueLimit
  else .ok ()

/-- Why an engine could not do what its host application asked for. -/
inductive EngineError where
  | script (cause : ScriptError)
  | importing (cause : ImportError)
  | config (cause : ConfigError)
  /-- A configuration text is no TOML document, or has values of the wrong type. -/
  | toml
  | file
  deriving DecidableEq

def EngineError.message? : EngineError → Option String
  | .script cause => some s!"Script error: {cause.display}"
  | .importing cause => some cause.display
  | .config cause => some s!"Invalid config: {cause.message}"
  | .toml => none
  | .file => none

end SignalRules
