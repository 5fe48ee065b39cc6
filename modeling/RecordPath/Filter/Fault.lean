import RecordPath.Filter.Predicate

namespace RecordPath

inductive FilterFault where
  | unexpectedCharacter (c : Char)
  | unknownWord (word : String)
  | unknownFunction (word : String)
  | functionArguments (word : String)
  | emptyName
  | unclosedName
  | unclosedIndex
  | invalidIndex (content : String)
  | danglingEscape
  | unclosedString
  | invalidNumber (text : String)
  | missingConnective
  | leadingConnective
  | emptyCondition
  | danglingOperator
  | unexpectedOpen
  | unexpectedQuantifier
  | quantifierPath
  | unbalancedClose
  | unexpectedNot
  | missingRight (op : Comparison)
  | bareLiteral
  | missingLeft (op : Comparison)
  | unexpectedComma
  | unclosedOpen
  deriving DecidableEq, Repr

namespace FilterFault

def message : FilterFault → String
  | .unexpectedCharacter c => s!"unexpected character '{c}' in filter"
  | .unknownWord word => s!"unknown word '{word}' in filter"
  | .unknownFunction word => s!"unknown filter function '{word}'"
  | .functionArguments word => s!"'{word}()' takes no arguments"
  | .emptyName => "empty field name after '@.'"
  | .unclosedName => "expected ']' after quoted field name"
  | .unclosedIndex => "unterminated '[' in filter path"
  | .invalidIndex content => s!"invalid index '[{content}]' in filter path"
  | .danglingEscape => "dangling escape in string literal"
  | .unclosedString => "unterminated string literal"
  | .invalidNumber text => s!"invalid number '{text}'"
  | .missingConnective => "missing '&&' or '||' between conditions"
  | .leadingConnective => "'&&' or '||' without a left-hand condition"
  | .emptyCondition => "empty condition"
  | .danglingOperator => "condition ends with a dangling operator"
  | .unexpectedOpen => "unexpected '('"
  | .unexpectedQuantifier => "unexpected quantifier"
  | .quantifierPath => "quantifier expects '@.path,' before its condition"
  | .unbalancedClose => "unbalanced ')'"
  | .unexpectedNot => "unexpected '!'"
  | .missingRight op => "'" ++ op.symbol ++ "' needs a right-hand operand"
  | .bareLiteral => "a literal needs a comparison"
  | .missingLeft op => "'" ++ op.symbol ++ "' needs a left-hand operand"
  | .unexpectedComma => "unexpected ','"
  | .unclosedOpen => "unclosed '('"

end FilterFault

end RecordPath
