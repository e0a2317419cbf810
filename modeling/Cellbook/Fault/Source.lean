/-!
# Faults in source text

Why a text is no formula, and where: found while the text is cut into tokens, while the tokens are
read as a tree, or while the tree is read as a formula. Each cause has a code for programs and a
message for people.
-/

namespace Cellbook

/-- What makes a syntax tree no formula. -/
inductive Flaw where
  | literalWithoutValue
  | identifierWithoutName
  | unknownBinary
  | unknownUnary
  | incomplete
  | emptyParentheses
  | severalInParentheses
  | indexCount
  | memberName
  | guardOutsideKey
  | conditionWithoutBody
  | rangeOutsideArray
  | secondRange
  | notAnEntry
  | signatureName
  | computedKeyCount
  | parameterName
  | elseWithoutIf
  /-- A literal token that carries no value. -/
  | tokenWithoutValue
  | guardWithoutParameters
deriving DecidableEq, Repr

def Flaw.message : Flaw → String
  | .literalWithoutValue => "literal without value"
  | .identifierWithoutName => "identifier without name"
  | .unknownBinary => "unknown binary operator"
  | .unknownUnary => "unknown unary operator"
  | .incomplete => "incomplete expression"
  | .emptyParentheses => "empty parentheses outside a call or key"
  | .severalInParentheses => "multiple values in parentheses"
  | .indexCount => "index needs exactly one value"
  | .memberName => "member name must be an identifier"
  | .guardOutsideKey => "guard outside a map key"
  | .conditionWithoutBody => "conditional without a body"
  | .rangeOutsideArray => "range outside an array"
  | .secondRange => "more than one range in an array"
  | .notAnEntry => "expected a key: value entry"
  | .signatureName => "signature name must be an identifier"
  | .computedKeyCount => "computed key needs exactly one value"
  | .parameterName => "parameter must be an identifier"
  | .elseWithoutIf => "else without a preceding if"
  | .tokenWithoutValue => "literal token without value"
  | .guardWithoutParameters => "guard must follow a parameter list"

/-- The causes for which a text is no formula. -/
inductive SourceCause where
  | invalidFloat
  | invalidNumber
  | unterminatedString
  | unknownToken (lexeme : String)
  | invalidIndentation
  | unexpectedToken (shown : String)
  | expectedToken (expected found : String)
  | unexpectedEnd
  /-- A flaw of the tree, with the tree's text if that helps to find it. -/
  | invalidExpression (flaw : Flaw) (tree : Option String)
deriving DecidableEq, Repr

namespace SourceCause

def code : SourceCause → String
  | .invalidFloat => "INVALID_FLOAT"
  | .invalidNumber => "INVALID_NUMBER"
  | .unterminatedString => "UNTERMINATED_STRING"
  | .unknownToken _ => "UNKNOWN_TOKEN"
  | .invalidIndentation => "INVALID_INDENTATION"
  | .unexpectedToken _ => "UNEXPECTED_TOKEN"
  | .expectedToken _ _ => "EXPECTED_TOKEN"
  | .unexpectedEnd => "UNEXPECTED_END"
  | .invalidExpression _ _ => "INVALID_EXPRESSION"

def message : SourceCause → String
  | .invalidFloat => "Invalid float format"
  | .invalidNumber => "Invalid number"
  | .unterminatedString => "Unterminated string"
  | .unknownToken lexeme => s!"Unknown token '{lexeme}'"
  | .invalidIndentation => "Indentation does not match any enclosing block"
  | .unexpectedToken shown => s!"Unexpected token '{shown}'"
  | .expectedToken expected found => s!"Expected '{expected}', found '{found}'"
  | .unexpectedEnd => "Unexpected end of input"
  | .invalidExpression flaw (some tree) => s!"{flaw.message} ({tree})"
  | .invalidExpression flaw none => flaw.message

end SourceCause

/-- **A fault in source text**: its cause and the index of the character where it shows. -/
structure SourceFault where
  cause : SourceCause
  index : Nat
deriving DecidableEq, Repr

namespace SourceFault

def code (f : SourceFault) : String := f.cause.code

def message (f : SourceFault) : String := f.cause.message

end SourceFault

end Cellbook
