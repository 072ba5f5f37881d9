import ProcessDisplay.Script.Fault
import ProcessDisplay.Script.Problem
import ProcessDisplay.Text.Quoted

/-!
# Failures

Every operation that can be refused says why by a cause. The wording of all
causes stands in one place below. A replacement of the bundled formula or
script language states its causes in words of its own.
-/

namespace ProcessDisplay

/-- Why a formula is refused or has no result. -/
inductive FormulaFault where
  /-- A cause in words. -/
  | stated (text : String)
  /-- A quoted reference without its end. -/
  | unterminatedReference (source : String)
  /-- A quoted reference without a name. -/
  | emptyReference (source : String)
  /-- A source that is no expression. -/
  | malformed (source : String) (problem : Script.Problem)
  /-- A parameter without a value. -/
  | missingParameter (source name : String)
  /-- A fault of the evaluation. -/
  | evaluation (source : String) (fault : Script.Fault)
  /-- A result without a value. -/
  | noValue (source : String)
  deriving DecidableEq, Repr

/-- Why a rule is refused or has no output. -/
inductive RuleFault where
  /-- A cause in words. -/
  | stated (text : String)
  /-- A reference beyond the declared inputs. -/
  | undeclaredInput (rule : String) (index count : Nat)
  /-- A condition or an output that is no expression. -/
  | malformed (rule source : String) (problem : Script.Problem)
  /-- An output without a value. -/
  | noOutput (rule : String)
  deriving DecidableEq, Repr

/-- Why a script is refused or stops. -/
inductive ScriptFault where
  /-- A cause in words. -/
  | stated (text : String)
  /-- A body that is no script. -/
  | malformed (problem : Script.Problem)
  /-- A fault of the run. -/
  | stopped (fault : Script.Fault)
  /-- A write to an input that does not exist. -/
  | noInput (index : Nat)
  deriving DecidableEq, Repr

/-- Why a setting or a document is refused. -/
inductive ConfigFault where
  /-- A cause in words. -/
  | stated (text : String)
  /-- A file that cannot be read. -/
  | unreadable (path detail : String)
  /-- A file whose content is not what it should be. -/
  | unparsable (path detail : String)
  /-- A directory that cannot be created. -/
  | noDirectory (detail : String)
  /-- A file that cannot be written. -/
  | unwritable (path detail : String)
  /-- A generator for a name that is taken. -/
  | nameTaken (name : String)
  /-- A trace whose horizontal values come from no variable. -/
  | noHorizontalName (vertical : String)
  deriving DecidableEq, Repr

/-- Why an operation is refused. -/
inductive Failure where
  /-- A name of no supported form. -/
  | unsupportedName (name : String)
  /-- A name of no existing variable. -/
  | unknownName (name : String)
  /-- A write to a variable that takes none. -/
  | notWritable (name : String)
  /-- A failure of a formula. -/
  | formula (fault : FormulaFault)
  /-- A failure of a rule. -/
  | rule (fault : RuleFault)
  /-- A property that a widget does not have. -/
  | missingProperty (widget property : String)
  /-- A failure of a script. -/
  | script (fault : ScriptFault)
  /-- A failure of a setting or a document. -/
  | config (fault : ConfigFault)
  /-- A failure of the system. -/
  | io (text : String)
  /-- Settings that cannot be written down. -/
  | serialization (text : String)
  /-- A failure within something larger. -/
  | within (context : String) (cause : Failure)
  deriving DecidableEq, Repr

/-- The text of a failure of a formula. -/
def FormulaFault.message : FormulaFault → String
  | stated text => text
  | unterminatedReference source => "Unterminated PV reference in '" ++ source ++ "'"
  | emptyReference source => "Empty PV reference in '" ++ source ++ "'"
  | malformed source problem => "'" ++ source ++ "': " ++ problem.message
  | missingParameter source name => "'" ++ source ++ "': parameter " ++ name ++ " has no value"
  | evaluation source fault => "'" ++ source ++ "': " ++ fault.message
  | noValue source => "'" ++ source ++ "' produced no value"

/-- The text of a failure of a rule. -/
def RuleFault.message : RuleFault → String
  | stated text => text
  | undeclaredInput rule index count =>
    "'" ++ rule ++ "' references input " ++ toString index ++ " but declares " ++
      toString count ++ " input(s)"
  | malformed rule source problem =>
    "'" ++ rule ++ "': cannot parse '" ++ source ++ "': " ++ problem.message
  | noOutput rule => "'" ++ rule ++ "': output expression produced no value"

/-- The text of a failure of a script. -/
def ScriptFault.message : ScriptFault → String
  | stated text => text
  | malformed problem => "Compilation error: " ++ problem.message
  | stopped fault => fault.message
  | noInput index => "no input PV at index " ++ toString index

/-- The text of a failure of a setting or a document. -/
def ConfigFault.message : ConfigFault → String
  | stated text => text
  | unreadable path detail =>
    "Failed to read " ++ Text.quotedText path ++ ": " ++ detail
  | unparsable path detail =>
    "Failed to parse " ++ Text.quotedText path ++ ": " ++ detail
  | noDirectory detail => "Failed to create config directory: " ++ detail
  | unwritable path detail =>
    "Failed to write config " ++ Text.quotedText path ++ ": " ++ detail
  | nameTaken name => "PV " ++ name ++ " already exists"
  | noHorizontalName vertical =>
    "trace of " ++ vertical ++ " takes x from a PV but names none"

/-- The text of a failure. -/
def Failure.message : Failure → String
  | unsupportedName name => "Unsupported PV: " ++ name
  | unknownName name => "Unknown PV: " ++ name
  | notWritable name => "PV is not writable: " ++ name
  | formula fault => "Formula error: " ++ fault.message
  | rule fault => "Rule error: " ++ fault.message
  | missingProperty widget property =>
    "Widget '" ++ widget ++ "' has no property '" ++ property ++ "'"
  | script fault => "Script error: " ++ fault.message
  | config fault => "Configuration error: " ++ fault.message
  | io text => "IO error: " ++ text
  | serialization text => "Serialization error: " ++ text
  | within context cause => context ++ ": " ++ cause.message

/-- A failure of one formula, rule or script during a tick. -/
structure UnitFailure where
  /-- What failed: the name of a formula variable, or a rule or script by name. -/
  unit : String
  /-- Why it failed. -/
  failure : Failure
  deriving DecidableEq, Repr

/-- The text of a failure of a unit. -/
def UnitFailure.message (f : UnitFailure) : String := f.unit ++ ": " ++ f.failure.message

end ProcessDisplay
