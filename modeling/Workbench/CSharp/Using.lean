import Workbench.CSharp.Source
import Workbench.Edit
import Workbench.Text.Case

/-!
# Using directives

Runs of neighbouring using directives are put in order: plain names, then
static imports, then aliases, each by label without regard to case. A run keeps
its slots, so comments and blank lines around the directives stay put.
-/

namespace Workbench.CSharp

structure Using where
  span : Span
  text : String
  isGlobal : Bool
  isStatic : Bool
  /-- The name that is declared for what is imported. -/
  shortName : Option String
  /-- The namespace or type that is imported, without blanks. -/
  name : String
deriving DecidableEq, Repr

namespace Using

/-- The text behind a word that begins it and has a blank after it. -/
def afterWord? (w : String) (cs : List Char) : Option (List Char) :=
  if w.toList.isPrefixOf cs && (cs.drop w.length).head?.any Text.isBlank then
    some (Text.trimStart (cs.drop w.length))
  else none

def dropBlanks (cs : List Char) : String := .ofList (cs.filter fun c => !Text.isBlank c)

def ofNode (f : SourceFile) (n : Node) : Using :=
  let text := Text.trim (f.text n).toList
  let rest := Text.trim (Text.dropEndWhile (· == ';') text)
  let global := afterWord? "global" rest
  let rest := global.getD rest
  let rest := (afterWord? "using" rest).getD rest
  let static := afterWord? "static" rest
  let rest := static.getD rest
  let label := rest.takeWhile (· != '=')
  { span := n.span, text := .ofList text, isGlobal := global.isSome, isStatic := static.isSome
    shortName := if rest.contains '=' then some (dropBlanks label) else none
    name := dropBlanks (if rest.contains '=' then (rest.dropWhile (· != '=')).drop 1 else rest) }

def label (u : Using) : String := u.shortName.getD u.name

def compareKey (u v : Using) : Ordering :=
  (compare (!u.isGlobal) (!v.isGlobal))
    |>.then (compare u.shortName.isSome v.shortName.isSome)
    |>.then (compare u.isStatic v.isStatic)
    |>.then (compare (Workbench.lower u.label) (Workbench.lower v.label))
    |>.then (compare u.label v.label)

def sameImport (u v : Using) : Bool :=
  u.isGlobal == v.isGlobal && u.isStatic == v.isStatic && u.shortName == v.shortName && u.name == v.name

end Using

/-! ## Runs -/

/-- Maximal runs of neighbours that satisfy `p`. -/
def runs {α} (p : α → Bool) (xs : List α) : List (List α) :=
  (xs.splitOnP fun x => !p x).filter (!·.isEmpty)

def holdsUsings (n : Node) : Bool :=
  n.kind == .compilationUnit || n.kind == .declarationList || n.kind == .fileScopedNamespaceDeclaration

/-- Code in which no using directive can stand. -/
def isCode (n : Node) : Bool :=
  match n.kind with
  | .block | .methodDeclaration | .constructorDeclaration | .propertyDeclaration => true
  | _ => false

/-- Runs of neighbouring using directives. Each namespace body has its own. -/
def usingGroups (root : Node) : List (List Node) :=
  (((root.walk (fun n => !isCode n) []).map (·.node)).filter holdsUsings).flatMap fun n =>
    runs (·.kind == .usingDirective) n.named

def sortUsings (us : List Using) : List Using := us.mergeSort fun u v => (u.compareKey v).isLE

/-- Writes the wanted directives into the slots of the current ones. -/
def slotEdits (current wanted : List Using) : List Edit :=
  ((current.zip wanted).filter fun p => p.1.text != p.2.text).map fun p => ⟨p.1.span, p.2.text⟩

def organizeEdits (f : SourceFile) : List Edit :=
  (usingGroups f.root).flatMap fun group =>
    let current := group.map (Using.ofNode f)
    slotEdits current (sortUsings current)

end Workbench.CSharp
