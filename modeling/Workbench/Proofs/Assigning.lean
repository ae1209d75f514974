import Workbench.CSharp.Tree
import Workbench.Proofs.Writing

/-!
# Writes to fields that could be readonly

What a field could be readonly for is said of the tree alone: how an expression
is written to, which fields it stands for, and in which constructors `readonly`
lets it. A write that is not allowed and yet overlooked is one of six kinds.
-/

namespace Workbench.CSharp

/-! ## Operands -/

namespace Node

/-- Neither punctuation nor a comment nor a directive line. -/
def isOperand (n : Node) : Bool := n.isNamed && n.kind != .comment && n.kind != .directive

/-- What an operator or brackets are about. -/
def operand? (n : Node) : Option Node := n.named.find? isOperand

/-- What an argument passes, behind its name. -/
def passed? (n : Node) : Option Node := (n.named.filter isOperand).getLast?

end Node

namespace ReadonlyField

/-! ## Writes -/

/-- A node writes to an expression: it assigns to it, steps it, or passes it by reference. -/
inductive Writes (f : SourceFile) (n t : Node) : Prop
  | assigned (kind : n.kind = .assignmentExpression) (target : n.child? .left = some t)
  | stepped (kind : n.kind = .prefixUnaryExpression ∨ n.kind = .postfixUnaryExpression)
      (steps : steps (f.text n) = true) (target : n.operand? = some t)
  | passed (kind : n.kind = .argument) (byReference : n.hasToken "ref" = true ∨ n.hasToken "out" = true)
      (target : n.passed? = some t)

/-- What is written where an expression is: what its brackets hold, and each element of a deconstruction. -/
inductive Target : Node → Node → Prop
  | self (t : Node) : Target t t
  | brackets {t c u : Node} (kind : t.kind = .parenthesizedExpression) (held : t.operand? = some c)
      (target : Target c u) : Target t u
  | element {t a c u : Node} (kind : t.kind = .tupleExpression) (argument : a ∈ t.ofKind .argument)
      (held : a.passed? = some c) (target : Target c u) : Target t u

/-- The expression is the name of a field, or takes the field of what stands before it. -/
inductive NamesField (f : SourceFile) (name : String) (u : Node) : Prop
  | bare (kind : u.kind = .identifier) (text : f.text u = name)
  | taken {receiver member : Node} (kind : u.kind = .memberAccessExpression)
      (before : u.child? .expression = some receiver) (behind : u.name? = some member) (text : f.text member = name)

/-! ## Where `readonly` lets a field be written -/

/-- Directly in a constructor, outside of functions in it, of which the next type around is the given one. -/
structure StandsIn (type ctor : Node) (w : Focus) : Prop where
  kind : ctor.kind = .constructorDeclaration
  around : ∃ inner outer owner, w.around = inner ++ ctor :: outer ∧
    (∀ p ∈ inner, p.kind.isNestedFunction = false) ∧
    outer.find? (·.kind.isTypeDeclaration) = some owner ∧ owner.same type = true

/-- Whether an assignment stands for a member in the initializer of a new object, or of one in it. -/
def assignsMember (w : Focus) : Bool :=
  match w.around with
  | p :: q :: _ => p.kind == .initializerExpression &&
      (q.kind == .objectCreationExpression || q.kind == .implicitObjectCreationExpression ||
        q.kind == .assignmentExpression)
  | _ => false

/-- Nothing before the field but `this`. -/
def OnThis (f : SourceFile) (u : Node) : Prop :=
  u.kind = .memberAccessExpression → ∀ e ∈ u.child? .expression, f.text e = "this"

/-- Static fields may be written in static constructors of the type, and the fields of an object in the other
constructors, of the object under construction. -/
structure Permitted (f : SourceFile) (type field : Node) (w : Focus) (u : Node) : Prop where
  ctor : ∃ ctor, StandsIn type ctor w ∧ f.hasModifier ctor "static" = f.hasModifier field "static"
  object : f.hasModifier field "static" = false → OnThis f u ∧ assignsMember w = false

/-! ## What is overlooked -/

/-- What brackets hold, where no comment stands first in them. -/
inductive Plain : Node → Node → Prop
  | self (t : Node) : Plain t t
  | brackets {t c u : Node} (kind : t.kind = .parenthesizedExpression) (first : t.firstNamed? = some c)
      (target : Plain c u) : Plain t u

/-- A comment stands where the operand of a step, or what an argument passes, is looked for. -/
inductive Commented (n : Node) : Prop
  | step {c : Node} (kind : n.kind ≠ .argument) (first : n.firstNamed? = some c) (comment : c.isOperand = false)
  | argument {c : Node} (kind : n.kind = .argument) (last : n.named.getLast? = some c) (comment : c.isOperand = false)

/-- The writes that are not looked at, or not closely. -/
inductive Overlooked (f : SourceFile) (type field : Node) (w : Focus) (t u : Node) : Prop
  /-- As an element of a deconstruction, or behind a comment in brackets. -/
  | indirect (h : ¬ Plain t u)
  | commented (h : Commented w.node)
  /-- Through another receiver than `this`. -/
  | receiver {e : Node} (kind : u.kind = .memberAccessExpression) (before : u.child? .expression = some e)
      (other : f.text e ≠ "this")
  | member (h : assignsMember w = true)
  /-- In a constructor of an interface or an enumeration that is nested in the type. -/
  | nested {ctor owner : Node} {inner outer : List Node} (around : w.around = inner ++ ctor :: outer)
      (kind : ctor.kind = .constructorDeclaration) (next : outer.find? (·.kind.isTypeDeclaration) = some owner)
      (holder : owner.kind ∉ holders)
  /-- Of a static field in an instance constructor, or the other way round. -/
  | static {ctor : Node} (stands : StandsIn type ctor w)
      (h : f.hasModifier ctor "static" ≠ f.hasModifier field "static")

section
variable {f : SourceFile} {type field n t u : Node} {w : Focus} {name : String}

theorem Plain.rootName? (h : Plain t u) : ReadonlyField.rootName? f t = ReadonlyField.rootName? f u := by
  induction h with
  | self => rfl
  | brackets kind first _ ih => rw [rootName?_parenthesized kind, first, Option.bind_some, ih]

/-- A field that is named bare or taken from `this` is what the expression is about. -/
theorem rootName?_of_names (h : NamesField f name u) (hthis : OnThis f u) : rootName? f u = some name := by
  cases h with
  | bare kind text => rw [rootName?_identifier kind, text]
  | taken kind before behind text =>
    rw [rootName?_memberAccess kind, before, Option.bind_some, if_pos (by simpa using hthis kind _ before), behind,
      Option.map_some, text]

/-- A write is seen unless a comment stands in the way. -/
theorem target?_of_writes (h : Writes f n t) : target? f n = some t ∨ Commented n := by
  cases h with
  | assigned kind target =>
    refine .inl ?_
    rw [target?, kind, target]
    rfl
  | stepped kind steps target =>
    have hargument : n.kind ≠ .argument := by rcases kind with kind | kind <;> simp [kind]
    have htarget : target? f n = n.firstNamed? := by rcases kind with kind | kind <;> simp [target?, kind, steps]
    cases hnamed : n.named with
    | nil =>
      rw [Node.operand?, hnamed] at target
      cases target
    | cons c rest =>
      have hfirst : n.firstNamed? = some c := by rw [Node.firstNamed?, hnamed, List.head?_cons]
      rw [Node.operand?, hnamed, List.find?_cons] at target
      cases hc : c.isOperand with
      | true =>
        rw [hc] at target
        exact .inl (htarget.trans (hfirst.trans target))
      | false => exact .inr (.step hargument hfirst hc)
  | passed kind byReference target =>
    have htarget : target? f n = n.named.getLast? := by simp [target?, kind, byReference]
    rcases List.eq_nil_or_concat n.named with hnamed | ⟨front, c, hnamed⟩
    · rw [Node.passed?, hnamed] at target
      cases target
    · have hlast : n.named.getLast? = some c := by rw [hnamed, List.concat_eq_append, List.getLast?_concat]
      cases hc : c.isOperand with
      | true =>
        rw [Node.passed?, hnamed, List.concat_eq_append, List.filter_append, List.filter_singleton, hc, cond_true,
          List.getLast?_concat] at target
        exact .inl (htarget.trans (hlast.trans target))
      | false => exact .inr (.argument kind hlast hc)

/-- The constructor that the nodes around a node reach, and the class around it. -/
theorem exists_constructor {around : List Node} (h : inOwnConstructor type around = true) :
    ∃ inner ctor outer owner, around = inner ++ ctor :: outer ∧ ctor.kind = .constructorDeclaration ∧
      (∀ p ∈ inner, p.kind.isNestedFunction = false) ∧ outer.find? (holders.contains ·.kind) = some owner ∧
      owner.same type = true := by
  induction around with
  | nil => cases h
  | cons p rest ih =>
    rw [inOwnConstructor] at h
    split at h
    · cases h
    · rename_i hpass
      simp only [Bool.or_eq_true, not_or, Bool.not_eq_true] at hpass
      split at h
      · rename_i hctor
        obtain ⟨owner, howner, hsame⟩ := (Option.any_eq_true _ _).1 h
        exact ⟨[], p, rest, owner, rfl, beq_iff_eq.1 hctor, List.forall_mem_nil _, howner, hsame⟩
      · obtain ⟨inner, ctor, outer, owner, rfl, hkind, hinner, hfound⟩ := ih h
        exact ⟨p :: inner, ctor, outer, owner, rfl, hkind, List.forall_mem_cons.2 ⟨hpass.2, hinner⟩, hfound⟩

/-- The next type around a constructor is the class around it, unless it is an interface or an enumeration. -/
theorem find?_type {outer : List Node} {owner : Node} (h : outer.find? (holders.contains ·.kind) = some owner) :
    ∃ next, outer.find? (·.kind.isTypeDeclaration) = some next ∧ (next.kind ∈ holders → next = owner) := by
  have htype : ∀ n : Node, holders.contains n.kind = true → n.kind.isTypeDeclaration = true := by
    intro n hn
    have hcases : n.kind = .classDeclaration ∨ n.kind = .structDeclaration ∨ n.kind = .recordDeclaration := by
      simpa [holders] using hn
    rcases hcases with hk | hk | hk <;> rw [hk] <;> rfl
  induction outer with
  | nil => cases h
  | cons p rest ih =>
    rw [List.find?_cons] at h ⊢
    cases hp : p.kind.isTypeDeclaration with
    | true =>
      refine ⟨p, rfl, fun hholder => ?_⟩
      rw [List.contains_iff_mem.2 hholder] at h
      exact Option.some.inj h
    | false =>
      have hother : holders.contains p.kind = false := by
        rw [← Bool.not_eq_true]
        exact fun hholder => Bool.false_ne_true (hp.symm.trans (htype p hholder))
      rw [hother] at h
      exact ih h

/-- A write that `readonly` would not let be is overlooked, where the field is taken not to be written elsewhere. -/
theorem permitted_or_overlooked (h : isWrittenElsewhere f type name = false) (hw : w ∈ type.foci)
    (hwrites : Writes f w.node t) (hnames : NamesField f name u) :
    Permitted f type field w u ∨ Overlooked f type field w t u := by
  by_cases hplain : Plain t u
  · by_cases hthis : OnThis f u
    · rcases target?_of_writes hwrites with hseen | hcomment
      · have hroot : rootName? f t = some name := hplain.rootName?.trans (rootName?_of_names hnames hthis)
        have hforbids := List.any_eq_false.1 h w hw
        simp only [forbids, hseen, hroot, beq_self_eq_true, Bool.true_and, Bool.or_eq_true, beq_iff_eq,
          Bool.not_eq_true', not_or, Bool.not_eq_false] at hforbids
        obtain ⟨inner, ctor, outer, owner, haround, hkind, hinner, howner, hsame⟩ := exists_constructor hforbids.2
        obtain ⟨next, hnext, hheld⟩ := find?_type howner
        by_cases hholder : next.kind ∈ holders
        · have hstands : StandsIn type ctor w :=
            ⟨hkind, inner, outer, next, haround, hinner, hnext, hheld hholder ▸ hsame⟩
          by_cases hstatic : f.hasModifier ctor "static" = f.hasModifier field "static"
          · cases hmember : assignsMember w with
            | true => exact .inr (.member hmember)
            | false => exact .inl ⟨⟨ctor, hstands, hstatic⟩, fun _ => ⟨hthis, hmember⟩⟩
          · exact .inr (.static hstands hstatic)
        · exact .inr (.nested haround hkind hnext hholder)
      · exact .inr (.commented hcomment)
    · simp only [OnThis, not_forall] at hthis
      obtain ⟨hk, e, he, hother⟩ := hthis
      exact .inr (.receiver hk he hother)
  · exact .inr (.indirect hplain)

theorem exists_candidate {first : Node} (h : first ∈ all f) : ∃ type ∈ f.root.descendantsOf holders,
    ∃ field ∈ (type.body?).elim [] (·.ofKind .fieldDeclaration), candidate? f type field = some first := by
  obtain ⟨type, htype, h⟩ := List.mem_flatMap.1 h
  rw [inType] at h
  split at h
  · cases h
  · obtain ⟨field, hfield, h⟩ := List.mem_filterMap.1 h
    exact ⟨type, htype, field, hfield, h⟩

/-- Each name of a reported field is written only where `readonly` lets it be, or is overlooked. -/
theorem reported_writes {first : Node} (h : first ∈ all f) : ∃ type ∈ f.root.descendantsOf holders,
    ∃ field ∈ (type.body?).elim [] (·.ofKind .fieldDeclaration), first ∈ names field ∧ ∀ name ∈ names field,
      ∀ w ∈ type.foci, ∀ t u, Writes f w.node t → Target t u → NamesField f (f.text name) u →
        Permitted f type field w u ∨ Overlooked f type field w t u := by
  obtain ⟨type, htype, field, hfield, hcandidate⟩ := exists_candidate h
  obtain ⟨-, hunwritten, hfirst⟩ := candidate?_eq_some.1 hcandidate
  refine ⟨type, htype, field, hfield, List.mem_of_head? hfirst, fun name hname w hw t u hwrites _ hnames => ?_⟩
  exact permitted_or_overlooked (hunwritten name hname) hw hwrites hnames

end

/-- A field that its constructor sets. -/
def constructed : SourceFile :=
  .ofText parse "a.cs" "class A \x7b private int f; A() \x7b this.f = 1; \x7d \x7d"

theorem reported_writes_constructed : ∃ first ∈ all constructed,
    ∃ type ∈ constructed.root.descendantsOf holders, ∃ field, first ∈ names field ∧ ∃ w ∈ type.foci, ∃ t, Writes constructed w.node t ∧
      NamesField constructed (constructed.text first) t ∧ Permitted constructed type field w t := by
  have hreported : ∃ first ∈ all constructed, constructed.text first = "f" := by decide +kernel
  have hstatic : ∀ type ∈ constructed.root.descendantsOf holders,
      ∀ field ∈ (type.body?).elim [] (·.ofKind .fieldDeclaration),
        constructed.hasModifier field "static" = false := by
    decide +kernel
  -- The only write takes the field from `this`, with no comment and no other type in sight.
  have hwritten : ∀ type ∈ constructed.root.descendantsOf holders, ∃ w ∈ type.foci,
      (w.node.kind = .assignmentExpression ∧ assignsMember w = false ∧ w.node.named.all Node.isOperand = true) ∧
      (∃ t ∈ (w.node.child? .left).toList, t.kind = .memberAccessExpression ∧
        (∃ e ∈ (t.child? .expression).toList, constructed.text e = "this") ∧
        ∃ n ∈ (t.name?).toList, constructed.text n = "f") ∧
      ∀ p ∈ w.around, (p.kind.isTypeDeclaration = true → p.kind ∈ holders) ∧
        constructed.hasModifier p "static" = false := by
    decide +kernel
  obtain ⟨first, hfirst, htext⟩ := hreported
  obtain ⟨type, htype, field, hfield, hname, hwrites⟩ := reported_writes hfirst
  obtain ⟨w, hw, ⟨hkind, hmember, hoperands⟩, ⟨t, ht, htk, ⟨e, he, hthis⟩, n, hn, hnamed⟩, haround⟩ :=
    hwritten type htype
  rw [Option.mem_toList] at ht he hn
  have hwrite : Writes constructed w.node t := .assigned hkind ht
  have hnames : NamesField constructed (constructed.text first) t := .taken htk he hn (hnamed.trans htext.symm)
  refine ⟨first, hfirst, type, htype, field, hname, w, hw, t, hwrite, hnames, ?_⟩
  rcases hwrites first hname w hw t t hwrite (.self t) hnames with h | h
  · exact h
  · cases h with
    | indirect h => exact absurd (.self t) h
    | commented h =>
      rw [List.all_eq_true] at hoperands
      cases h with
      | step _ first comment => exact absurd (hoperands _ (List.mem_of_head? first)) (by simp [comment])
      | argument _ last comment => exact absurd (hoperands _ (List.mem_of_getLast? last)) (by simp [comment])
    | receiver _ before other =>
      cases Option.some.inj (before.symm.trans he)
      exact absurd hthis other
    | member h => exact absurd (hmember.symm.trans h) Bool.false_ne_true
    | @nested _ owner _ outer around _ next holder =>
      have howner : owner ∈ w.around := by
        rw [around]
        exact List.mem_append_right _ (List.mem_cons_of_mem _ (List.mem_of_find?_eq_some next))
      have htype : owner.kind.isTypeDeclaration = true :=
        List.find?_some (p := fun n : Node => n.kind.isTypeDeclaration) next
      exact absurd ((haround owner howner).1 htype) holder
    | static stands h =>
      obtain ⟨inner, outer, _, hsplit, -⟩ := stands.around
      exact absurd ((haround _ (hsplit ▸ by simp)).2.trans (hstatic type htype field hfield).symm) h

/-- Two fields that a method sets at once. -/
def deconstructed : SourceFile := .ofText parse "a.cs"
  "class A \x7b private int f; private int g; void M() \x7b (f, g) = (1, 2); \x7d \x7d"

/-- A field is reported that a method writes. -/
theorem reported_though_deconstructed : ∃ first ∈ all deconstructed,
    ∃ type ∈ deconstructed.root.descendantsOf holders, ∃ field ∈ (type.body?).elim [] (·.ofKind .fieldDeclaration),
      first ∈ names field ∧ ∃ w ∈ type.foci, ∃ t u, Writes deconstructed w.node t ∧ Target t u ∧
        NamesField deconstructed (deconstructed.text first) u ∧ ¬ Permitted deconstructed type field w u := by
  have hwritten : ∃ first ∈ all deconstructed, ∀ type ∈ deconstructed.root.descendantsOf holders,
      ∃ w ∈ type.foci, w.node.kind = .assignmentExpression ∧ ∃ t ∈ (w.node.child? .left).toList, t.kind = .tupleExpression ∧
        (∃ a ∈ t.ofKind .argument, ∃ u ∈ (a.passed?).toList, u.kind = .identifier ∧
          deconstructed.text u = deconstructed.text first) ∧
        ∀ p ∈ w.around, p.kind ≠ .constructorDeclaration := by
    decide +kernel
  obtain ⟨first, hfirst, hwritten⟩ := hwritten
  obtain ⟨type, htype, field, hfield, hcandidate⟩ := exists_candidate hfirst
  obtain ⟨w, hw, hkind, t, ht, htk, ⟨a, ha, u, hu, huk, htext⟩, hnone⟩ := hwritten type htype
  rw [Option.mem_toList] at ht hu
  have hname : first ∈ names field := List.mem_of_head? (candidate?_eq_some.1 hcandidate).2.2
  refine ⟨first, hfirst, type, htype, field, hfield, hname, w, hw, t, u, .assigned hkind ht, .element htk ha hu (.self u), .bare huk htext, ?_⟩
  rintro ⟨⟨ctor, ⟨hctor, inner, outer, owner, haround, -⟩, -⟩, -⟩
  exact hnone ctor (haround ▸ by simp) hctor

end ReadonlyField

end Workbench.CSharp
