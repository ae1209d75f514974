import Workbench.CSharp.Grammar.Name

/-!
# Patterns

Patterns join with `and`, `or` and `not`. A type followed by a name declares,
a type followed by a clause matches inside, and what is neither is a constant.
-/

namespace Workbench.CSharp.Grammar

open Rule

/-- Words that end a pattern and name nothing in one. -/
def patternWords : List String := ["and", "or", "when"]

def patternName : Rule := not_ (words patternWords) ++ identifier

def propertyClause (g : Rules) : Rule :=
  node .propertyPatternClause (mark "\x7b" ++
    commaList (node .subpattern (opt (sepBy1 (mark ".") identifier ++ mark ":") ++ g.pattern)) ++ mark "\x7d")

def positionalClause (g : Rules) : Rule :=
  node .positionalPatternClause (mark "(" ++
    commaSep (node .subpattern (opt (identifier ++ mark ":") ++ g.pattern)) ++ mark ")")

def designation (g : Rules) : Rule :=
  leaf .discard (isWord "_") <|> patternName <|>
    node .designation (mark "(" ++ commaSep g.designation ++ mark ")")

def isDiscard : List Token → Bool
  | t :: u :: _ => isWord "_" t && !(u.sort == .mark && [".", "(", "<", "["].contains u.text)
  | [t] => isWord "_" t
  | [] => false

/-- A pattern that joins no others; `operand` reads what can be compared with. -/
def primaryPattern (g : Rules) (operand : Rule) : Rule :=
  when_ isDiscard (leaf .discard (isWord "_")) <|>
  node .varPattern (word "var" ++ g.designation) <|>
  node .relationalPattern (marks ["<", ">", "<=", ">="] ++ operand) <|>
  node .listPattern (mark "[" ++ commaList (node .subpattern (mark ".." ++ opt g.pattern) <|> g.pattern) ++
    mark "]" ++ opt patternName) <|>
  node .declarationPattern (role .type (typeInExpression g) ++ role .name patternName) <|>
  node .recursivePattern (role .type (typeInExpression g) ++ propertyClause g ++ opt (role .name patternName)) <|>
  (node .recursivePattern (role .type (typeInExpression g) ++ positionalClause g ++ opt (propertyClause g) ++
    opt (role .name patternName)) ++ not_ (marks [".", "["])) <|>
  node .recursivePattern (propertyClause g ++ opt (role .name patternName)) <|>
  node .constantPattern (cast g) <|>
  node .parenthesizedPattern (mark "(" ++ g.pattern ++ mark ")") <|>
  node .recursivePattern (positionalClause g ++ opt (propertyClause g) ++ opt (role .name patternName)) <|>
  node .typePattern (suffixedTypeInExpression g) <|>
  node .constantPattern operand <|>
  node .typePattern (typeInExpression g)

def negation (g : Rules) (operand : Rule) : Rule :=
  node .negatedPattern (word "not" ++ g.negation) <|> primaryPattern g operand

def joined (k : Kind) (w : String) (item : Rule) : Rule :=
  grow item fun n => node k (given .left n ++ word w ++ role .right item)

def pattern (g : Rules) : Rule :=
  joined .orPattern "or" (joined .andPattern "and" g.negation)

end Workbench.CSharp.Grammar
