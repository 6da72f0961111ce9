import Overlay.Diagnostic
import Overlay.Text.Inspect

/-!
# What can be wrong with a text

* `LexicalFault` is a problem inside one lexeme, `SyntaxFault` a problem with the order of tokens.
* Both know their wording; `Located` says where a problem was met.
-/

namespace Overlay.Hcl

/-- An item with the span where it was met. -/
structure Located (α : Type) where
  item : α
  span : Span
deriving DecidableEq, Repr

/-! ## Lexical faults -/

/-- A problem inside one lexeme. -/
inductive LexicalFault where
  /-- No lexeme starts with the character. -/
  | invalidCharacter (c : Char)
  /-- A quoted string runs into the end of its line. -/
  | unterminatedString
  /-- A heredoc has no line with its marker. -/
  | unterminatedHeredoc (marker : String)
  /-- What follows `<<` is no marker at the end of its line. -/
  | invalidHeredoc
  /-- A block comment is never closed. -/
  | unterminatedComment
  /-- The character behind a backslash means nothing. -/
  | unknownEscape
  /-- An escape by code point has fewer than `digits` digits, or names no character. -/
  | invalidCodePoint (digits : Nat)
  /-- An interpolation or a directive starts. -/
  | templateSequence
deriving DecidableEq, Repr

namespace LexicalFault

/-- The kind of problem: a template sequence is well-formed but not supported. -/
def category : LexicalFault → Category
  | templateSequence => .unsupportedConstruct
  | _ => .malformed

/-- The short text. -/
def summary : LexicalFault → String
  | invalidCharacter _ => "Invalid character"
  | unterminatedString => "Unterminated template string"
  | unterminatedHeredoc _ => "Unterminated heredoc"
  | invalidHeredoc => "Invalid heredoc introducer"
  | unterminatedComment => "Unterminated block comment"
  | unknownEscape | invalidCodePoint _ => "Invalid escape sequence"
  | templateSequence => "Template sequences not allowed"

/-- The sentences. -/
def detail : LexicalFault → String
  | invalidCharacter c => s!"The character {Text.inspectLone c} is not valid here."
  | unterminatedString => "No closing marker was found for the string."
  | unterminatedHeredoc marker =>
    s!"The heredoc is never closed by a line containing only {Text.inspect marker}."
  | invalidHeredoc =>
    "A heredoc must start with \"<<\" or \"<<-\", an identifier, and a newline."
  | unterminatedComment => "There is no closing marker (\"*/\") for this comment."
  | unknownEscape =>
    "The symbol following the backslash is not a recognized escape. " ++
      "Use \"\\\\\" for a literal backslash."
  | invalidCodePoint digits =>
    s!"A \\u or \\U escape must be followed by {digits} hexadecimal " ++
      "digits naming a valid character."
  | templateSequence =>
    "Interpolation and directive sequences cannot be used in variable values. " ++
      "Escape the sequence by doubling the leading character."

end LexicalFault

/-- The diagnostic of a lexical fault in the text named `filename`. -/
def Located.lexicalDiagnostic (filename : String) (f : Located LexicalFault) : Diagnostic :=
  (Diagnostic.error f.item.category f.item.summary f.item.detail).about (f.span.within filename)

/-! ## Syntactic faults -/

/-- A problem with the order of tokens. Those that name what was found hold its description. -/
inductive SyntaxFault where
  | invalidExpression (found : String)
  | extraCharacters
  | unexpectedClosingBrace
  | definitionRequired
  | invalidDefinition
  | missingNewline
  | invalidBlock
  | unclosedBlock
  | invalidAttributeName
  | missingIndexBracket
  | missingArgumentSeparator
  | unclosedCall
  | missingItemSeparator
  | unclosedTuple
  | unclosedObject
  | missingKeyValueSeparator
  | missingAttributeSeparator
  | invalidObjectKey
  | unbalancedParentheses
  /-- The text has not the form that is asked for at all. -/
  | unexpected (found : String)
deriving DecidableEq, Repr

namespace SyntaxFault

/-- The short text. -/
def summary : SyntaxFault → String
  | invalidExpression _ => "Invalid expression"
  | extraCharacters => "Extra characters after expression"
  | unexpectedClosingBrace => "Unexpected closing brace"
  | definitionRequired => "Argument or block definition required"
  | invalidDefinition => "Invalid argument or block definition"
  | missingNewline => "Missing newline after argument"
  | invalidBlock => "Invalid block definition"
  | unclosedBlock => "Unclosed configuration block"
  | invalidAttributeName => "Invalid attribute name"
  | missingIndexBracket => "Missing close bracket on index"
  | missingArgumentSeparator => "Missing argument separator"
  | unclosedCall => "Unterminated function call"
  | missingItemSeparator => "Missing item separator"
  | unclosedTuple => "Unclosed tuple constructor"
  | unclosedObject => "Unclosed object constructor"
  | missingKeyValueSeparator => "Missing key/value separator"
  | missingAttributeSeparator => "Missing attribute separator"
  | invalidObjectKey => "Invalid object key"
  | unbalancedParentheses => "Unbalanced parentheses"
  | unexpected _ => "Invalid syntax"

/-- The sentences. -/
def detail : SyntaxFault → String
  | invalidExpression found => s!"Expected the start of an expression, but found {found}."
  | extraCharacters =>
    "An expression was successfully parsed, but extra characters were found after it."
  | unexpectedClosingBrace => "There is no matching opening brace for this closing brace."
  | definitionRequired => "An argument or block definition is required here."
  | invalidDefinition =>
    "An equals sign (\"=\") must follow an argument name, or a block label or opening brace " ++
      "must follow a block type."
  | missingNewline => "An argument definition must end with a newline."
  | invalidBlock =>
    "Either a quoted string block label or an opening brace (\"\x7b\") is expected here."
  | unclosedBlock => "There is no closing brace for this block before the end of the file."
  | invalidAttributeName => "An attribute name is required after a dot."
  | missingIndexBracket => "The index operator must end with a closing bracket (\"]\")."
  | missingArgumentSeparator =>
    "A comma is required to separate each function argument from the next."
  | unclosedCall => "There is no closing parenthesis for this function call."
  | missingItemSeparator => "Expected a comma to mark the beginning of the next item."
  | unclosedTuple => "There is no closing bracket for this tuple."
  | unclosedObject => "There is no closing brace for this object."
  | missingKeyValueSeparator =>
    "Expected an equals sign (\"=\") to mark the beginning of the attribute value."
  | missingAttributeSeparator =>
    "Expected a newline or comma to mark the beginning of the next attribute."
  | invalidObjectKey =>
    "Expected an attribute name, a quoted string, or a parenthesized expression."
  | unbalancedParentheses => "Expected a closing parenthesis to terminate the expression."
  | unexpected found => s!"Unexpected {found}."

end SyntaxFault

/-- The diagnostic of a syntactic fault in the text named `filename`. -/
def Located.syntaxDiagnostic (filename : String) (f : Located SyntaxFault) : Diagnostic :=
  (Diagnostic.error .malformed f.item.summary f.item.detail).about (f.span.within filename)

end Overlay.Hcl
