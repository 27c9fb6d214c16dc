import AttemptLedger.Text.Integer

/-!
# Settings from the environment

Three settings are read from environment variables. A variable that is unset or unreadable, and a
value that makes no sense, leave the default.
-/

namespace AttemptLedger

structure Environment where
  address : Option String := none
  maxMessageBytes : Option String := none
  exportCode : Option String := none
  deriving DecidableEq, Repr, Inhabited

namespace Environment

def defaultAddress : String := "localhost:50051"

/-- The message limit used unless another one is given: two thousand mebibytes. -/
def defaultMaxMessageBytes : Nat := 1000 * 1024 * 1024 * 2

/-- The address of the engine (`engine_address`), without blanks around it; a blank one is none. -/
def engineAddress (environment : Environment) : String :=
  match environment.address with
  | some value => if Text.trim value = "" then defaultAddress else Text.trim value
  | none => defaultAddress

/-- The greatest message in bytes (`max_message_bytes`); zero is none. -/
def messageLimit (environment : Environment) : Nat :=
  match environment.maxMessageBytes.bind Text.word? with
  | some limit => if limit = 0 then defaultMaxMessageBytes else limit
  | none => defaultMaxMessageBytes

def offWords : List String := ["0", "false", "no", "off"]

/-- Whether exports include code (`export_code_columns`): unless the setting is one of the words for
off, in any case. -/
def includeCode (environment : Environment) : Bool :=
  match environment.exportCode with
  | some value => !offWords.contains (String.ofList ((Text.trimChars value.toList).map Char.toLower))
  | none => true

end Environment

end AttemptLedger
