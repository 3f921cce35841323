/-!
# What can be wrong at a place of a template

* `Problem`: the causes; `Problem.message`: the one text of each.
* `Failure`: how reading or generating ends without a result.
-/

namespace Stencil

/-- Why the generated language would refuse a module, though each of its lines is well formed. -/
inductive CodeProblem where
  /-- A class pattern names one field twice. -/
  | repeatedField (field : String)
  /-- Two alternatives of a pattern bind different sets of names. -/
  | differentBindings
  /-- One pattern binds a name twice. -/
  | repeatedBinding (name : String)
  /-- Too many loops stand inside one another in one function. -/
  | tooManyLoops
  deriving DecidableEq, Repr

/-- The text of a refusal. -/
def CodeProblem.message : CodeProblem → String
  | repeatedField f => "attribute name repeated in class pattern: " ++ f
  | differentBindings => "alternative patterns bind different names"
  | repeatedBinding n => "multiple assignments to name '" ++ n ++ "' in pattern"
  | tooManyLoops => "too many statically nested blocks"

/-- **What is wrong at a place of a template.** -/
inductive Problem where
  -- expressions
  | expectedExpression
  | expectedMember
  | expectedIndexEnd
  | expectedGroupEnd
  | expectedTupleEnd
  | expectedItemEnd (closing : Char)
  | expectedName
  | expectedPathName
  | reservedName (name : String)
  | unterminatedString
  | expressionTooDeep
  | badHexEscape
  | badPointEscape
  | unknownEscape (c : Char)
  | unexpectedText
  -- patterns
  | expectedPattern
  | expectedPatternNumber
  | secondRest
  | expectedPatternItemEnd (closing : Char)
  | expectedField
  | expectedFieldEnd
  | restNotLast
  -- templates
  | expectedDeclaration
  | expectedParameter
  | reservedParameter (name : String)
  | ownParameter (start : String)
  | duplicateParameter (name : String)
  | expectedColon (name : String)
  | unbalancedType (c : Char)
  | unclosedDeclaration
  | expectedType
  | elseWithoutIf
  | expectedConstruct
  | unclosedComment
  | expectedLetValue
  | expectedIn
  | expectedMatchBlock
  | unclosedMatch
  | expectedArrow
  | expectedArguments
  | expectedArgumentEnd
  | expectedBlock
  | unclosedBlock
  | blocksTooDeep (limit : Nat)
  -- files
  | badTemplateName (name path : String)
  | badEncoding
  -- generated code
  | unknownStatic (name : String)
  | codeTooDeep
  | invalidCode (problem : CodeProblem)
  deriving DecidableEq, Repr

/-- **The text of a problem.** -/
def Problem.message : Problem → String
  | expectedExpression => "Expected expression"
  | expectedMember => "Expected field or method name after '.'"
  | expectedIndexEnd => "Expected ']' after index expression"
  | expectedGroupEnd => "Expected ')' to close the parenthesized expression"
  | expectedTupleEnd => "Expected ',' or ')' in tuple"
  | expectedItemEnd c => "Expected ',' or '" ++ c.toString ++ "'"
  | expectedName => "Expected name"
  | expectedPathName => "Expected name after '::'"
  | reservedName n => "'" ++ n ++ "' is a reserved word and cannot be used as a name"
  | unterminatedString => "Unterminated string literal"
  | expressionTooDeep => "Expression is nested too deeply"
  | badHexEscape => "Invalid '\\x' escape in string literal"
  | badPointEscape => "Invalid '\\u\x7b...\x7d' escape in string literal"
  | unknownEscape c => "Unknown escape sequence '\\" ++ c.toString ++ "' in string literal"
  | unexpectedText => "Unexpected text after expression"
  | expectedPattern => "Expected pattern"
  | expectedPatternNumber => "Expected number after '-' in pattern"
  | secondRest => "Only one '..' is allowed in a pattern"
  | expectedPatternItemEnd c => "Expected ',' or '" ++ c.toString ++ "' in pattern"
  | expectedField => "Expected field name in struct pattern"
  | expectedFieldEnd => "Expected ',' or '\x7d' in struct pattern"
  | restNotLast => "Expected '\x7d' after '..' in struct pattern"
  | expectedDeclaration => "Expected parameter declaration '@(...)'"
  | expectedParameter => "Expected parameter name or ')'"
  | reservedParameter n => "'" ++ n ++ "' is a reserved word and cannot be a parameter name"
  | ownParameter start => "Parameter names starting with '" ++ start ++ "' are reserved"
  | duplicateParameter n => "Duplicate parameter '" ++ n ++ "'"
  | expectedColon n => "Expected ':' and a type after parameter '" ++ n ++ "'"
  | unbalancedType c => "Unbalanced '" ++ c.toString ++ "' in parameter type"
  | unclosedDeclaration => "Unclosed parameter declaration"
  | expectedType => "Expected parameter type"
  | elseWithoutIf => "'@else' without a matching '@if'"
  | expectedConstruct =>
    "Expected an expression, a keyword or a comment after '@' (write '@@' for a literal '@')"
  | unclosedComment => "Unclosed comment, expected '*@'"
  | expectedLetValue => "Expected '=' after pattern in 'let' condition"
  | expectedIn => "Expected 'in' after loop pattern"
  | expectedMatchBlock => "Expected '\x7b' after match subject"
  | unclosedMatch => "Unclosed '@match' block, expected '\x7d'"
  | expectedArrow => "Expected '=>' after match pattern"
  | expectedArguments => "Expected '(' after template name"
  | expectedArgumentEnd => "Expected ',' or ')' in call arguments"
  | expectedBlock => "Expected '\x7b'"
  | unclosedBlock => "Unclosed block, expected '\x7d'"
  | blocksTooDeep limit => "Blocks are nested deeper than " ++ toString limit ++ " levels"
  | badTemplateName n p =>
    "'" ++ n ++ "' is not a valid template name (derived from '" ++ p ++ "')"
  | badEncoding => "Template source is not valid UTF-8"
  | unknownStatic n => "Unknown static file 'statics::" ++ n ++ "'"
  | codeTooDeep => "Template is nested too deeply to generate Python code"
  | invalidCode p => "Generated code is not valid Python: " ++ p.message

/-- **How reading a template or generating its code ends without a result.** -/
inductive Failure where
  /-- Something is wrong at a position of the text. -/
  | at (problem : Problem) (position : Nat)
  /-- A number has no digits, or more decimal digits than can be read or written. -/
  | unreadableNumber
  /-- The bound on the number of steps was reached; bounds are chosen so that it never is. -/
  | outOfSteps
  deriving DecidableEq, Repr

end Stencil
