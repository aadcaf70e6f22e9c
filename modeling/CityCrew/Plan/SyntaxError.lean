/-!
# Errors in the text of a plan

Every error names a line and a cause. Causes hold the text they complain about; the wording is
put together in `SyntaxError.message` alone.
-/

namespace CityCrew

inductive SyntaxError.Cause where
  | emptyPlan
  | leftoverToken (token : String)
  | missingAssignment (identifier : String)
  | reservedIdentifier (word : String)
  | invalidDirection (token : String)
  | invalidInfoExpression (token : String)
  | unknownCommand (token : String)
  | unexpectedToken (expected found : String)
  | unexpectedEnd
  | invalidNumber (literal : String)
  | tooDeep (limit : Nat)
  | unexpectedCharacter (character : String)
deriving DecidableEq

structure SyntaxError where
  line : Nat
  cause : SyntaxError.Cause
deriving DecidableEq

namespace SyntaxError

def Cause.message : Cause → String
  | emptyPlan => "a plan needs at least one statement"
  | leftoverToken token => s!"unexpected trailing token `{token}`"
  | missingAssignment identifier => s!"expected `=` after `{identifier}`"
  | reservedIdentifier word => s!"`{word}` is reserved and cannot be used as an identifier"
  | invalidDirection token => s!"`{token}` is not a direction"
  | invalidInfoExpression token => s!"invalid info expression at `{token}`"
  | unknownCommand token => s!"unknown command `{token}`"
  | unexpectedToken expected found => s!"expected `{expected}`, found `{found}`"
  | unexpectedEnd => "unexpected end of plan"
  | invalidNumber literal => s!"number `{literal}` is out of range"
  | tooDeep limit => s!"nesting deeper than {limit} levels"
  | unexpectedCharacter character => s!"unexpected character `{character}`"

def message (e : SyntaxError) : String :=
  s!"line {e.line}: {e.cause.message}"

end SyntaxError

end CityCrew
