import Workbench.CSharp.Grammar.Name

/-!
# Attributes, modifiers and parameters

These stand before and inside declarations, and lambdas have them too.
A parameter array is no parameter node: its parts hang in the list itself.
-/

namespace Workbench.CSharp.Grammar

open Rule

/-! ## Arguments -/

/-- A type followed by a name, as in `out int x`. It is no pointer type, which would be a product. -/
def declarationExpression (g : Rules) : Rule :=
  node .declarationExpression
    (role .type (grow (baseType g) fun n => arraySuffix n <|> nullableSuffix n) ++ role .name identifier)

def endsElement : List Token → Bool
  | t :: _ => isMark "," t || isMark ")" t
  | [] => true

def declaredElement (g : Rules) : Rule := declarationExpression g ++ when_ endsElement nothing

def argument (g : Rules) : Rule :=
  node .argument (opt (role .name identifier ++ mark ":") ++
    ((words ["ref", "out", "in"] ++ (declaredElement g <|> g.expression)) <|> declaredElement g <|> g.expression))

def argumentList (g : Rules) : Rule := node .argumentList (mark "(" ++ commaSep (argument g) ++ mark ")")

def bracketedArgumentList (g : Rules) : Rule :=
  node .bracketedArgumentList (mark "[" ++ commaSep1 (argument g) ++ mark "]")

/-! ## Attributes -/

def attributeArgument (g : Rules) : Rule :=
  node .attributeArgument (opt (identifier ++ marks ["=", ":"]) ++ g.expression)

def attributeItem (g : Rules) : Rule :=
  node .attribute (role .name (name g) ++
    opt (node .attributeArgumentList (mark "(" ++ commaSep (attributeArgument g) ++ mark ")")))

def attributeTarget : Rule :=
  node .attributeTargetSpecifier
    (words ["field", "event", "method", "param", "property", "return", "type", "typevar"] ++ mark ":")

def attributeList (g : Rules) : Rule :=
  node .attributeList (mark "[" ++ opt attributeTarget ++ commaSep1 (attributeItem g) ++ opt (mark ",") ++ mark "]")

/-! ## Modifiers -/

def plainModifiers : List String :=
  ["abstract", "const", "extern", "fixed", "internal", "new", "override", "private", "protected", "public",
    "readonly", "sealed", "static", "unsafe", "virtual", "volatile"]

/-- Modifiers that are words like any other unless another word follows. -/
def wordModifiers : List String := ["async", "file", "partial", "required"]

def beforeWord : List Token → Bool
  | _ :: u :: _ => u.sort == .word || isMark "(" u
  | _ => false

def beforeStruct : List Token → Bool
  | _ :: u :: _ => isOneOfWords ["struct", "partial"] u
  | _ => false

def modifier : Rule :=
  node .modifier (words plainModifiers) <|>
  when_ beforeWord (node .modifier (words wordModifiers)) <|>
  when_ beforeStruct (node .modifier (word "ref"))

/-! ## Parameters -/

def parameterModifier : Rule :=
  node .modifier (words ["ref", "out", "in", "this", "readonly"]) <|>
  when_ beforeWord (node .modifier (words ["scoped"]))

def parameterArray (g : Rules) : Rule :=
  many (attributeList g) ++ word "params" ++ role .type g.type ++ role .name identifier

def parameter (g : Rules) : Rule :=
  node .parameter (many (attributeList g) ++ many parameterModifier ++
    ((role .type g.type ++ role .name identifier) <|> role .name identifier) ++ opt (mark "=" ++ g.expression))

def parameterList (g : Rules) : Rule :=
  node .parameterList (mark "(" ++ commaSep (parameterArray g <|> parameter g) ++ mark ")")

def bracketedParameterList (g : Rules) : Rule :=
  node .bracketedParameterList (mark "[" ++ commaSep1 (parameterArray g <|> parameter g) ++ mark "]")

def typeParameterList (g : Rules) : Rule :=
  node .typeParameterList (mark "<" ++
    commaSep1 (node .typeParameter (many (attributeList g) ++ opt (words ["in", "out"]) ++ role .name identifier)) ++
    mark ">")

end Workbench.CSharp.Grammar
