import Mathlib.Data.List.Forall2
import Workbench.CSharp.Model
import Workbench.Cleanup.Rule
import Workbench.Proofs.Nesting
import Workbench.Proofs.Placement

/-!
# What parsers keep

A cleanup reads each text again after each of its changes. `Node.sound` is what
the tree of a text without errors is like, and `follows` says that one tree is
another with some of its children removed, replaced or put in, wherever both
trees stand in their texts. `reshaped` is what each rule does to the children
of a node.
-/

namespace Workbench.CSharp

/-! ## What nodes say -/

namespace Node

/-- Kinds of nodes among whose children a cleanup edits. -/
def isEditable (k : Kind) : Bool :=
  Modifier.mayBeMisordered k || k == .compilationUnit || k == .declarationList || k == .namespaceDeclaration ||
    k == .fileScopedNamespaceDeclaration

mutual

/-- Whether there is nothing to edit in a node and below it, so that a cleanup does not change what it says. -/
def isPhrase : Node → Bool
  | mk k _ _ _ _ cs => !isEditable k && arePhrases cs

def arePhrases : List Node → Bool
  | [] => true
  | n :: rest => n.kind != .usingDirective && isPhrase n && arePhrases rest

end

end Node

/-- What a node says, wherever it stands and however it is laid out. -/
structure Saying where
  token : Option String
  words : Option (List (List Char))
  /-- Of a name, the parts that dots separate. -/
  parts : Option (List String)
  /-- Whether it is an increment or a decrement. -/
  steps : Bool
  /-- Whether it is an expression that says `this`. -/
  this : Bool
deriving DecidableEq

def SourceFile.saying (f : SourceFile) (n : Node) : Saying where
  token := if n.kind == .token then some n.leafText else none
  words := if n.kind != .token && n.isPhrase then some (Text.words (f.text n).toList) else none
  parts := if n.role == .name then some (namespaceParts (f.word n)) else none
  steps := (n.kind == .prefixUnaryExpression || n.kind == .postfixUnaryExpression) && ReadonlyField.steps (f.text n)
  this := n.role == .expression && f.text n == "this"

/-! ## Trees without errors -/

/-- Neither begins nor ends with a blank, and is not empty. -/
def isTight (cs : List Char) : Bool := cs.head?.any (!Text.isBlank ·) && cs.getLast?.any (!Text.isBlank ·)

/-- Is not empty and has no blank in it. -/
def isWord (cs : List Char) : Bool := !cs.isEmpty && cs.all (!Text.isBlank ·)

namespace Node

/-- A modifier is a keyword. -/
def isKeyword (f : SourceFile) (n : Node) : Bool :=
  match n.children with
  | [t] => t.kind == .token && t.children.isEmpty && t.leafText == f.text n && isWord (f.text n).toList
  | _ => false

/-- What holds of each node in the tree of a text without errors. -/
def isRegular (f : SourceFile) (n : Node) : Bool :=
  let source := (f.text n).toList
  (n.kind != .token || n.children.isEmpty) &&
  Modifier.chained (fun a b => a.stop ≤ b.start) n.children &&
  (n.kind != .identifier || (n.children.isEmpty && isWord source)) &&
  (n.kind != .modifier || (n.role == .plain && n.isKeyword f)) &&
  (n.kind != .usingDirective || (n.role == .plain && isTight source && arePhrases n.children)) &&
  (n.role != .name || (n.isNamed && isTight source && n.isPhrase)) &&
  (n.kind != .parameter || (n.child? .type).all fun t => t.isNamed && t.isPhrase) &&
  (!n.kind.isStringLiteral || isTight source) &&
  (!(n.kind.isTypeDeclaration || n.kind.isMemberDeclaration || n.kind == .variableDeclarator) ||
    n.name?.all fun m => m.kind == .identifier) &&
  (!n.kind.isTypeDeclaration || n.children.all fun c => c.stop - c.start < n.stop - n.start) &&
  (n.kind != .fieldDeclaration || (n.children.all fun c => c.descendants.all fun m => m.kind != .fieldDeclaration) &&
    n.variableDeclaration?.all fun d => n.modifiers.all fun m => m.stop ≤ d.start) &&
  (holdsUsings n || n.children.all fun c => c.kind != .usingDirective)

mutual

/-- Whether a node and all below it, tokens too, satisfy `p`. -/
def everywhere (p : Node → Bool) : Node → Bool
  | mk k r a b t cs => p (mk k r a b t cs) && everywhereIn p cs

def everywhereIn (p : Node → Bool) : List Node → Bool
  | [] => true
  | n :: rest => everywhere p n && everywhereIn p rest

end

end Node

/-- What the tree of a text without errors is like: ranges nest, and every node is regular. -/
def SourceFile.isSound (f : SourceFile) : Bool :=
  f.root.kind == .compilationUnit && f.root.fits f.chars && f.root.nests && f.root.everywhere (Node.isRegular f)

/-- The parts of `SourceFile.isSound`. -/
structure SourceFile.Sound (f : SourceFile) : Prop where
  unit : f.root.kind = .compilationUnit
  fits : f.root.fits f.chars = true
  nests : f.root.nests = true
  regular : f.root.everywhere (Node.isRegular f) = true

theorem SourceFile.sound_of_isSound {f : SourceFile} (h : f.isSound = true) : f.Sound := by
  simp only [SourceFile.isSound, Bool.and_eq_true, beq_iff_eq] at h
  exact ⟨h.1.1.1, h.1.1.2, h.1.2, h.2⟩

section
variable {f : SourceFile} {n c : Node}

namespace Node

theorem everywhere_iff {p : Node → Bool} : n.everywhere p = true ↔ p n = true ∧ ∀ c ∈ n.children, c.everywhere p = true := by
  have hall : ∀ cs : List Node, everywhereIn p cs = true ↔ ∀ c ∈ cs, c.everywhere p = true := by
    intro cs
    induction cs with
    | nil => simp [everywhereIn]
    | cons c rest ih => rw [everywhereIn, Bool.and_eq_true, ih, List.forall_mem_cons]
  cases n
  rw [everywhere, Bool.and_eq_true, hall]
  rfl

theorem everywhere_of_mem_descendants {p : Node → Bool} {m : Node} (h : n.everywhere p = true) (hm : m ∈ n.descendants) :
    m.everywhere p = true := by
  induction n using childInduction with
  | step n ih =>
    rcases mem_descendants.1 hm with rfl | ⟨c, hc, -, hm⟩
    · exact h
    · exact ih c hc ((everywhere_iff.1 h).2 c hc) hm

/-- The parts of `isRegular`. -/
structure Regular (f : SourceFile) (n : Node) : Prop where
  leaf : n.kind = .token → n.children = []
  order : Modifier.chained (fun a b => a.stop ≤ b.start) n.children = true
  identifier : n.kind = .identifier → n.children = [] ∧ isWord (f.text n).toList = true
  modifier : n.kind = .modifier → n.role = .plain ∧ n.isKeyword f = true
  directive : n.kind = .usingDirective → n.role = .plain ∧ isTight (f.text n).toList = true ∧ arePhrases n.children = true
  reference : n.role = .name → (n.isNamed = true ∧ isTight (f.text n).toList = true) ∧ n.isPhrase = true
  parameter : n.kind = .parameter → ∀ t, n.child? .type = some t → t.isNamed = true ∧ t.isPhrase = true
  literal : n.kind.isStringLiteral = true → isTight (f.text n).toList = true
  name : (n.kind.isTypeDeclaration || n.kind.isMemberDeclaration || n.kind == .variableDeclarator) = true →
    ∀ m, n.name? = some m → m.kind = .identifier
  shorter : n.kind.isTypeDeclaration = true → ∀ c ∈ n.children, c.stop - c.start < n.stop - n.start
  noField : n.kind = .fieldDeclaration → ∀ c ∈ n.children, ∀ m ∈ c.descendants, m.kind ≠ .fieldDeclaration
  ahead : n.kind = .fieldDeclaration → ∀ d, n.variableDeclaration? = some d → ∀ m ∈ n.modifiers, m.stop ≤ d.start
  holder : ∀ c ∈ n.children, c.kind = .usingDirective → holdsUsings n = true

theorem regular_of_isRegular (h : n.isRegular f = true) : Regular f n := by
  simp only [isRegular, Bool.and_eq_true, Bool.or_eq_true, bne_iff_ne, beq_iff_eq, Bool.not_eq_true',
    List.all_eq_true, decide_eq_true_eq, List.isEmpty_iff, Option.all_eq_true] at h
  obtain ⟨⟨⟨⟨⟨⟨⟨⟨⟨⟨⟨hleaf, horder⟩, hid⟩, hmod⟩, husing⟩, href⟩, hparam⟩, hlit⟩, hname⟩, hshort⟩, hfield⟩, hholder⟩ := h
  refine ⟨hleaf.neg_resolve_left, horder, ?_, ?_, ?_, ?_, ?_, ?_, ?_, ?_, ?_, ?_, ?_⟩ <;> grind

theorem regular_of_everywhere (h : n.everywhere (isRegular f) = true) : Regular f n :=
  regular_of_isRegular (everywhere_iff.1 h).1

/-- A modifier is a token that is spelled like it. -/
theorem exists_token_of_isKeyword (h : n.isKeyword f = true) : ∃ t, n.children = [t] ∧ t.kind = .token ∧
    t.children = [] ∧ t.leafText = f.text n ∧ isWord (f.text n).toList = true := by
  unfold isKeyword at h
  split at h
  · rename_i t heq
    simp only [Bool.and_eq_true, beq_iff_eq, List.isEmpty_iff] at h
    exact ⟨t, heq, h.1.1.1, h.1.1.2, h.1.2, h.2⟩
  · cases h

end Node

end

theorem slice?_text {f : SourceFile} {n : Node} (hstart : Text.isBoundary f.chars n.start = true)
    (hstop : Text.isBoundary f.chars n.stop = true) (hle : n.start ≤ n.stop) :
    Text.slice? f.chars n.start n.stop = some (f.text n).toList := by
  obtain ⟨x, mid, y, hchars, hx, hmid⟩ := Text.exists_parts hstart hstop hle
  have hslice : Text.slice? f.chars n.start n.stop = some mid := by
    have hstop : Text.size (x ++ mid) = n.stop := by rw [Text.size_append]; omega
    rw [← hx, ← hstop, hchars, Text.slice?_parts]
  rw [SourceFile.text, Node.textIn, Node.chars, hslice]
  exact congrArg some String.toList_ofList.symm

/-- Where a node stands in its text. -/
theorem exists_parts_of_fits {f : SourceFile} {n : Node} (h : n.fits f.chars = true) :
    ∃ x mid y, f.chars = x ++ (mid ++ y) ∧ Text.size x = n.start ∧ Text.size (x ++ mid) = n.stop ∧
      (f.text n).toList = mid := by
  obtain ⟨x, y, hchars, hx, hmid⟩ :=
    Text.slice?_eq_some (slice?_text (Node.fits_start h) (Node.fits_stop h) (Node.fits_range h))
  exact ⟨x, _, y, hchars, hx, hmid, rfl⟩

/-! ## Trees that follow others -/

section
variable (f g : SourceFile) (edit : Node → List Node)

mutual

/-- Whether a node of `g` is a node of `f` with the children that `edit` gives it. -/
def follows (n : Node) : Node → Bool
  | .mk k r a b t cs =>
    let m := Node.mk k r a b t cs
    n.kind == k && n.role == r && (k == .modifier || f.saying n == g.saying m) &&
      -- What stands between two modifiers still does.
      (!Modifier.chained (Modifier.onlyBlanksBetween g) m.modifiers ||
        Modifier.chained (Modifier.onlyBlanksBetween f) n.modifiers) &&
      followAll (edit n) cs

def followAll : List Node → List Node → Bool
  | [], [] => true
  | n :: ns, m :: ms => follows n m && followAll ns ms
  | _, _ => false

end

end

/-- The parts of `follows`. -/
structure Follows (f g : SourceFile) (edit : Node → List Node) (n m : Node) : Prop where
  kind : m.kind = n.kind
  role : m.role = n.role
  saying : m.kind = .modifier ∨ f.saying n = g.saying m
  gaps : Modifier.chained (Modifier.onlyBlanksBetween g) m.modifiers = true →
    Modifier.chained (Modifier.onlyBlanksBetween f) n.modifiers = true
  children : List.Forall₂ (fun n m => follows f g edit n m = true) (edit n) m.children

section
variable {f g : SourceFile} {edit : Node → List Node} {n m : Node}

theorem followAll_iff {ns ms : List Node} :
    followAll f g edit ns ms = true ↔ List.Forall₂ (fun n m => follows f g edit n m = true) ns ms := by
  induction ms generalizing ns with
  | nil => cases ns <;> simp [followAll]
  | cons m ms ih => cases ns <;> simp [followAll, ih]

theorem Follows.of_follows (h : follows f g edit n m = true) : Follows f g edit n m := by
  cases m
  simp only [follows, Bool.and_eq_true, Bool.or_eq_true, beq_iff_eq, Bool.not_eq_true', followAll_iff] at h
  obtain ⟨⟨⟨⟨hkind, hrole⟩, hsaying⟩, hgaps⟩, hchildren⟩ := h
  exact ⟨hkind.symm, hrole.symm, hsaying, fun hg => hgaps.resolve_left fun hf => Bool.false_ne_true (hf.symm.trans hg),
    hchildren⟩

end

/-! ## Pairs of nodes -/

/-- The modifier `readonly`, which stands nowhere yet. -/
def Node.readonlyKeyword : Node := .mk .modifier .plain 0 0 "" [.mk .token .plain 0 0 "readonly" []]

/-- Children that no rule puts in, takes out or exchanges. -/
def isCore (k : Kind) (c : Node) : Bool :=
  c.kind != .usingDirective && !(c.kind == .modifier && Modifier.mayBeMisordered k)

/-- An edit that exchanges no core children and puts in nothing but the modifier `readonly`. -/
structure Keeps (edit : Node → List Node) : Prop where
  core (n : Node) : (edit n).filter (isCore n.kind) = n.children.filter (isCore n.kind)
  origin (n : Node) : ∀ a ∈ edit n, a ∈ n.children ∨ a = Node.readonlyKeyword

/-- A node and the one that follows it, both in trees without errors. -/
structure Paired (f g : SourceFile) (edit : Node → List Node) (n m : Node) : Prop where
  follows : follows f g edit n m = true
  old : n.everywhere (Node.isRegular f) = true
  new : m.everywhere (Node.isRegular g) = true

theorem forall₂_and {α β : Type} {R : α → β → Prop} {P : α → Prop} {Q : β → Prop} {as : List α} {bs : List β}
    (h : List.Forall₂ R as bs) (hp : ∀ a ∈ as, P a) (hq : ∀ b ∈ bs, Q b) :
    List.Forall₂ (fun a b => R a b ∧ P a ∧ Q b) as bs := by
  induction h with
  | nil => exact .nil
  | cons hab _ ih =>
    obtain ⟨ha, hp⟩ := List.forall_mem_cons.1 hp
    obtain ⟨hb, hq⟩ := List.forall_mem_cons.1 hq
    exact .cons ⟨hab, ha, hb⟩ (ih hp hq)

theorem forall₂_join {α β γ : Type} {R : α → β → Prop} {S : α → γ → Prop} {as : List α} {bs : List β} {cs : List γ}
    (h : List.Forall₂ R as bs) (h' : List.Forall₂ S as cs) : List.Forall₂ (fun b c => ∃ a, R a b ∧ S a c) bs cs := by
  induction h generalizing cs with
  | nil =>
    cases h'
    exact .nil
  | cons hab _ ih =>
    obtain ⟨c, cs, hac, hrest, rfl⟩ := List.forall₂_cons_left_iff.1 h'
    exact .cons ⟨_, hab, hac⟩ (ih hrest)

theorem exists_of_forall₂ {α β : Type} {R : α → β → Prop} {as : List α} {bs : List β} (h : List.Forall₂ R as bs) {b : β}
    (hb : b ∈ bs) : ∃ a ∈ as, R a b := by
  induction h with
  | nil => cases hb
  | cons hab _ ih =>
    rcases List.mem_cons.1 hb with rfl | hb
    · exact ⟨_, List.mem_cons_self, hab⟩
    · obtain ⟨a, ha, hab⟩ := ih hb
      exact ⟨a, List.mem_cons_of_mem _ ha, hab⟩

theorem exists_of_forall₂_append {α β : Type} {R : α → β → Prop} {as as' : List α} {bs : List β}
    (h : List.Forall₂ R (as ++ as') bs) :
    ∃ ys zs, List.Forall₂ R as ys ∧ List.Forall₂ R as' zs ∧ bs = ys ++ zs := by
  induction as generalizing bs with
  | nil => exact ⟨[], bs, .nil, h, rfl⟩
  | cons a as ih =>
    obtain ⟨b, bs, hab, hrest, rfl⟩ := List.forall₂_cons_left_iff.1 h
    obtain ⟨ys, zs, hys, hzs, rfl⟩ := ih hrest
    exact ⟨b :: ys, zs, .cons hab hys, hzs, rfl⟩

theorem pairwise_of_forall₂ {α β : Type} {R : α → β → Prop} {P : α → α → Prop} {Q : β → β → Prop} {as : List α}
    {bs : List β} (h : List.Forall₂ R as bs) (hp : as.Pairwise P)
    (hpq : ∀ a b a' b', R a b → R a' b' → P a a' → Q b b') : bs.Pairwise Q := by
  induction h with
  | nil => exact .nil
  | cons hab hrest ih =>
    obtain ⟨hfirst, hp⟩ := List.pairwise_cons.1 hp
    refine List.pairwise_cons.2 ⟨fun b hb => ?_, ih hp⟩
    obtain ⟨a, ha, hab'⟩ := exists_of_forall₂ hrest hb
    exact hpq _ _ _ _ hab hab' (hfirst a ha)

theorem any_eq_of_forall₂ {α β : Type} {as : List α} {bs : List β} {p : α → Bool} {q : β → Bool}
    (h : List.Forall₂ (fun a b => p a = q b) as bs) : as.any p = bs.any q := by
  induction h with
  | nil => rfl
  | cons hab _ ih => rw [List.any_cons, List.any_cons, hab, ih]

theorem rel_head? {α β : Type} {R : α → β → Prop} {as : List α} {bs : List β} (h : List.Forall₂ R as bs) :
    Option.Rel R as.head? bs.head? := by
  cases h with
  | nil => exact .none
  | cons hab _ => exact .some hab

theorem Node.mem_map_walk {n m : Node} {enter : Node → Bool} {around : List Node} :
    m ∈ (n.walk enter around).map (·.node) ↔ m = n ∨ (enter n = true ∧ ∃ c ∈ n.children, c.isNamed = true ∧
      m ∈ (c.walk enter (n :: around)).map (·.node)) := by
  cases n
  rw [Node.walk, List.map_cons, List.mem_cons]
  refine or_congr_right ?_
  split
  · rename_i hin
    rw [Node.map_walkAll, List.mem_flatMap]
    simp only [hin, true_and, List.mem_filter, and_assoc]
    rfl
  · rename_i hin
    simp [hin]

theorem Node.mem_descendants_of_mem_walk {n m : Node} {enter : Node → Bool} {around : List Node}
    (h : m ∈ (n.walk enter around).map (·.node)) : m ∈ n.descendants := by
  induction n using Node.childInduction generalizing around with
  | step n ih =>
    rcases Node.mem_map_walk.1 h with rfl | ⟨-, c, hc, hnamed, hm⟩
    · exact mem_descendants_self m
    · exact mem_descendants_of_child hc hnamed (ih c hc hm)

namespace Paired

section
variable {f g : SourceFile} {edit : Node → List Node} {n m : Node}

theorem facts (h : Paired f g edit n m) : Follows f g edit n m := .of_follows h.follows

theorem kind (h : Paired f g edit n m) : m.kind = n.kind := h.facts.kind

theorem role (h : Paired f g edit n m) : m.role = n.role := h.facts.role

theorem regular (h : Paired f g edit n m) : n.Regular f := Node.regular_of_everywhere h.old

theorem regular' (h : Paired f g edit n m) : m.Regular g := Node.regular_of_everywhere h.new

theorem child (h : Paired f g edit n m) {c : Node} (hc : c ∈ n.children) : c.everywhere (Node.isRegular f) = true :=
  (Node.everywhere_iff.1 h.old).2 c hc

theorem child' (h : Paired f g edit n m) {c : Node} (hc : c ∈ m.children) : c.everywhere (Node.isRegular g) = true :=
  (Node.everywhere_iff.1 h.new).2 c hc

/-- What an edit has made of the children that satisfy `p`, when it has put in none. -/
theorem edited (h : Paired f g edit n m) {p : Node → Bool} (hp : ∀ a b : Node, b.kind = a.kind → b.role = a.role → p a = p b)
    (hold : ∀ a ∈ edit n, p a = true → a ∈ n.children) :
    List.Forall₂ (Paired f g edit) ((edit n).filter p) (m.children.filter p) := by
  have hchildren : List.Forall₂ (fun a b => CSharp.follows f g edit a b = true) ((edit n).filter p) (m.children.filter p) :=
    List.rel_filter (fun a b hab => by
      have hab := Follows.of_follows hab
      show p a = true ↔ p b = true
      rw [hp a b hab.kind hab.role]) h.facts.children
  have hregular : ∀ a ∈ (edit n).filter p, a.everywhere (Node.isRegular f) = true := fun a ha => by
    obtain ⟨ha, hpa⟩ := List.mem_filter.1 ha
    exact h.child (hold a ha hpa)
  refine (forall₂_and hchildren hregular fun b hb => h.child' (List.mem_filter.1 hb).1).imp ?_
  rintro a b ⟨hab, ha, hb⟩
  exact ⟨hab, ha, hb⟩

/-- The children that an edit has left where they were. -/
theorem kept (h : Paired f g edit n m) {p : Node → Bool} (hp : ∀ a b : Node, b.kind = a.kind → b.role = a.role → p a = p b)
    (hkeep : (edit n).filter p = n.children.filter p) :
    List.Forall₂ (Paired f g edit) (n.children.filter p) (m.children.filter p) := by
  rw [← hkeep]
  refine h.edited hp fun a ha hpa => ?_
  have hmem : a ∈ (edit n).filter p := List.mem_filter.2 ⟨ha, hpa⟩
  rw [hkeep] at hmem
  exact (List.mem_filter.1 hmem).1

/-- All children, of a node that an edit leaves alone. -/
theorem whole (h : Paired f g edit n m) (hkeep : edit n = n.children) :
    List.Forall₂ (Paired f g edit) n.children m.children := by
  have hall := h.kept (p := fun _ => true) (fun _ _ _ _ => rfl) (by rw [hkeep])
  rwa [List.filter_true, List.filter_true] at hall

/-- Apart from its core, a node has plain children that are using directives and modifiers. -/
theorem plain_of_not_core (h : n.everywhere (Node.isRegular f) = true) {c : Node} (hc : c ∈ n.children)
    (hcore : isCore n.kind c = false) : c.role = .plain ∧ (c.kind = .usingDirective ∨ c.kind = .modifier) := by
  have hreg := Node.regular_of_everywhere ((Node.everywhere_iff.1 h).2 c hc)
  rw [isCore, Bool.and_eq_false_iff, bne_eq_false_iff_eq, Bool.not_eq_false', Bool.and_eq_true, beq_iff_eq] at hcore
  rcases hcore with hk | ⟨hk, -⟩
  · exact ⟨(hreg.directive hk).1, .inl hk⟩
  · exact ⟨(hreg.modifier hk).1, .inr hk⟩

variable (hkeep : Keeps edit)
include hkeep

theorem core (h : Paired f g edit n m) :
    List.Forall₂ (Paired f g edit) (n.children.filter (isCore n.kind)) (m.children.filter (isCore m.kind)) := by
  rw [h.kind]
  exact h.kept (fun a b hk _ => by rw [isCore, isCore, hk]) (hkeep.core n)

/-- Children picked by kind and role, when that leaves using directives and modifiers out. -/
theorem filter (h : Paired f g edit n m) {p : Node → Bool} (hp : ∀ a b : Node, b.kind = a.kind → b.role = a.role → p a = p b)
    (hout : ∀ c : Node, c.role = .plain → c.kind = .usingDirective ∨ c.kind = .modifier → p c = false) :
    List.Forall₂ (Paired f g edit) (n.children.filter p) (m.children.filter p) := by
  have hcore : ∀ {t : SourceFile} {n : Node}, n.everywhere (Node.isRegular t) = true →
      (n.children.filter (isCore n.kind)).filter p = n.children.filter p := by
    intro t n h
    rw [List.filter_filter]
    refine List.filter_congr fun c hc => ?_
    cases hcore : isCore n.kind c with
    | true => simp
    | false =>
      have hplain := plain_of_not_core h hc hcore
      simp [hout c hplain.1 hplain.2]
  rw [← hcore h.old, ← hcore h.new]
  refine List.rel_filter (fun a b hab => ?_) (h.core hkeep)
  show p a = true ↔ p b = true
  rw [hp a b hab.kind hab.role]

theorem find? (h : Paired f g edit n m) {p : Node → Bool} (hp : ∀ a b : Node, b.kind = a.kind → b.role = a.role → p a = p b)
    (hout : ∀ c : Node, c.role = .plain → c.kind = .usingDirective ∨ c.kind = .modifier → p c = false) :
    Option.Rel (Paired f g edit) (n.children.find? p) (m.children.find? p) := by
  rw [← List.head?_filter, ← List.head?_filter]
  exact rel_head? (h.filter hkeep hp hout)

/-- Modifiers of a node in which their order is of no concern. -/
theorem modifiers (h : Paired f g edit n m) (hk : Modifier.mayBeMisordered n.kind = false) :
    List.Forall₂ (Paired f g edit) n.modifiers m.modifiers := by
  refine h.kept (fun a b hkind _ => by rw [hkind]) ?_
  have hall : ∀ cs : List Node, (cs.filter (isCore n.kind)).filter (·.kind == .modifier) = cs.filter (·.kind == .modifier) := by
    intro cs
    rw [List.filter_filter]
    refine List.filter_congr fun c _ => ?_
    rw [isCore, hk]
    by_cases hc : c.kind = .modifier <;> simp [hc]
  rw [← hall, ← hall n.children, hkeep.core]

theorem child? (h : Paired f g edit n m) {r : Role} (hr : r ≠ .plain) :
    Option.Rel (Paired f g edit) (n.child? r) (m.child? r) :=
  h.find? hkeep (fun a b _ hrole => by rw [hrole]) fun c hc _ => by simpa [hc] using hr.symm

theorem ofKind? (h : Paired f g edit n m) {k : Kind} (hk : k ≠ .usingDirective ∧ k ≠ .modifier) :
    Option.Rel (Paired f g edit) (n.children.find? (·.kind == k)) (m.children.find? (·.kind == k)) :=
  h.find? hkeep (fun a b hkind _ => by rw [hkind]) fun c _ hc => by
    rcases hc with hc | hc <;> simpa [hc] using fun he => by simp [← he] at hk

theorem ofKind (h : Paired f g edit n m) {k : Kind} (hk : k ≠ .usingDirective ∧ k ≠ .modifier) :
    List.Forall₂ (Paired f g edit) (n.ofKind k) (m.ofKind k) :=
  h.filter hkeep (fun a b hkind _ => by rw [hkind]) fun c _ hc => by
    rcases hc with hc | hc <;> simpa [hc] using fun he => by simp [← he] at hk

/-- What the children of a node give together, when using directives and modifiers give nothing. -/
theorem flatMap_eq {α : Type} (h : Paired f g edit n m) {F G : Node → List α}
    (hF : ∀ c ∈ n.children, c.kind = .usingDirective ∨ c.kind = .modifier → F c = [])
    (hG : ∀ c ∈ m.children, c.kind = .usingDirective ∨ c.kind = .modifier → G c = [])
    (heq : ∀ a ∈ n.children, ∀ b ∈ m.children, Paired f g edit a b → F a = G b) :
    n.children.flatMap F = m.children.flatMap G := by
  have hcore : ∀ {t : SourceFile} {n : Node} {F : Node → List α}, n.everywhere (Node.isRegular t) = true →
      (∀ c ∈ n.children, c.kind = .usingDirective ∨ c.kind = .modifier → F c = []) →
        n.children.flatMap F = (n.children.filter (isCore n.kind)).flatMap F := by
    intro t n F h hF
    have hall : ∀ c ∈ n.children, isCore n.kind c = false → F c = [] := fun c hc hcore =>
      hF c hc (plain_of_not_core h hc hcore).2
    generalize n.children = cs at hall
    induction cs with
    | nil => rfl
    | cons c rest ih =>
      obtain ⟨hc, hrest⟩ := List.forall_mem_cons.1 hall
      rw [List.flatMap_cons, List.filter_cons, ih hrest]
      cases hcase : isCore n.kind c with
      | true => simp
      | false => simp [hc hcase]
  rw [hcore h.old hF, hcore h.new hG]
  have hpairs := forall₂_and (h.core hkeep) (fun a ha => (List.mem_filter.1 ha).1) fun b hb => (List.mem_filter.1 hb).1
  generalize n.children.filter (isCore n.kind) = as, m.children.filter (isCore m.kind) = bs at hpairs
  induction hpairs with
  | nil => rfl
  | cons hab _ ih => rw [List.flatMap_cons, List.flatMap_cons, ih, heq _ hab.2.1 _ hab.2.2 hab.1]

/-- Each node that a walk through the new tree comes by follows one that it comes by in the old tree, or is a
modifier. -/
theorem exists_old_walk {enter : Node → Bool} (henter : ∀ a b : Node, b.kind = a.kind → enter b = enter a)
    (h : Paired f g edit n m) (around : List Node) {around' : List Node} {m' : Node} (hm : m' ∈ (m.walk enter around').map (·.node)) :
    (∃ n' ∈ (n.walk enter around).map (·.node), Paired f g edit n' m') ∨ m'.kind = .modifier := by
  induction m using Node.childInduction generalizing n around around' with
  | step m ih =>
    rcases Node.mem_map_walk.1 hm with rfl | ⟨hin, b, hb, hnamed, hm⟩
    · exact .inl ⟨n, Node.mem_map_walk.2 (.inl rfl), h⟩
    · obtain ⟨a, ha, hab⟩ := exists_of_forall₂ h.facts.children hb
      have hkind := (Follows.of_follows hab).kind
      rcases hkeep.origin n a ha with ha | rfl
      · rcases ih b hb ⟨hab, h.child ha, h.child' hb⟩ (n :: around) hm with ⟨n', hn', hpair⟩ | hk
        · have hnamed' : a.isNamed := by
            rw [Node.isNamed, hkind] at hnamed
            exact hnamed
          exact .inl ⟨n', Node.mem_map_walk.2 (.inr ⟨henter n m h.kind ▸ hin, a, ha, hnamed', hn'⟩), hpair⟩
        · exact .inr hk
      · -- Below a modifier there is a token only.
        obtain ⟨t, ht, htoken, -⟩ := Node.exists_token_of_isKeyword
          ((Node.regular_of_everywhere (h.child' hb)).modifier hkind).2
        rcases Node.mem_map_walk.1 hm with rfl | ⟨-, c, hc, hcnamed, -⟩
        · exact .inr hkind
        · rw [ht] at hc
          cases List.mem_singleton.1 hc
          simp [Node.isNamed, htoken] at hcnamed

theorem exists_old (h : Paired f g edit n m) {m' : Node} (hm : m' ∈ m.descendants) :
    (∃ n' ∈ n.descendants, Paired f g edit n' m') ∨ m'.kind = .modifier :=
  h.exists_old_walk hkeep (fun _ _ _ => rfl) [] hm

end

end Paired

/-! ## What the rules do to a tree -/

/-- Replaces the elements that satisfy `p` by others, one by one. -/
def refill {α : Type} (p : α → Bool) : List α → List α → List α
  | [], _ => []
  | a :: rest, bs =>
    if p a then
      match bs with
      | b :: bs => b :: refill p rest bs
      | [] => a :: rest
    else a :: refill p rest bs

namespace Node

def isUsing (n : Node) : Bool := n.kind == .usingDirective

def isModifier (n : Node) : Bool := n.kind == .modifier

def sortedUsings (f : SourceFile) (run : List Node) : List Node :=
  run.mergeSort fun a b => ((Using.ofNode f a).compareKey (Using.ofNode f b)).isLE

def sortedModifiers (f : SourceFile) (ms : List Node) : List Node :=
  ms.mergeSort fun a b => Modifier.rank (f.text a) ≤ Modifier.rank (f.text b)

/-- The children of a node once the edits of a rule are made. -/
def reshaped (f : SourceFile) (rule : CleanupRule) (es : List Edit) (n : Node) : List Node :=
  match rule with
  | .removeUnusedImports =>
    n.children.filter fun c => !(c.isUsing && es.any fun e => e.span.start ≤ c.start && c.stop ≤ e.span.stop)
  | .organizeImports =>
    if holdsUsings n then refill isUsing n.children ((runs isUsing n.named).flatMap (sortedUsings f)) else n.children
  | .fixModifierOrder =>
    if Modifier.mayBeMisordered n.kind && es.any fun e => Modifier.range? n.modifiers == some e.span then
      refill isModifier n.children (sortedModifiers f n.modifiers)
    else n.children
  | .addMissingReadonly =>
    match if n.kind == .fieldDeclaration then Modifier.readonlyPoint? f n else none with
    | some at_ =>
      if es.any fun e => e.span.start == at_ then
        n.children.takeWhile (·.start < at_) ++ readonlyKeyword :: n.children.dropWhile (·.start < at_)
      else n.children
    | none => n.children
  | .format => n.children

end Node

/-! ## Literals -/

/-- How many characters that are no blanks stand before a byte. -/
def visibleBefore (cs : List Char) (n : Nat) : Nat :=
  ((Text.splitAt? cs n).elim 0 fun p => p.1.countP (!Text.isBlank ·))

/-- The string literals of a file that are in no other. -/
def literals (f : SourceFile) : List Node :=
  ((f.root.walk (fun n => !n.kind.isStringLiteral) []).map (·.node)).filter (·.kind.isStringLiteral)

/-- Where the literals begin and end, as one sees it. -/
def literalPlaces (f : SourceFile) : List (Nat × Nat) :=
  (literals f).map fun n => (visibleBefore f.chars n.start, visibleBefore f.chars n.stop)

/-- Whether the tree of the new text is sound, and is the tree of the old one with the edits of the rule made. -/
def isFaithful (rule : CleanupRule) (es : List Edit) (f g : SourceFile) : Bool :=
  g.isSound && follows f g (Node.reshaped f rule es) f.root g.root &&
    (rule != .format || literalPlaces f == literalPlaces g)

end Workbench.CSharp
