import Workbench.CSharp.Rename
import Workbench.Proofs.Callers
import Workbench.Proofs.Occurrences

/-!
# What a rename touches

Each place that a rename writes to is that of one identifier, which either
declares the symbol or refers to it. What another symbol is declared or
referred to by is another identifier, unless both are told by spelling alone.
-/

namespace Workbench.CSharp

/-! ## Edits of a rename -/

section
variable {ls : List Location} {path newName : String} {span : Span} {e : DocumentEdit} {te : Edit}

theorem mem_spansIn : span ∈ spansIn path ls ↔ ∃ l ∈ ls, l.path = path ∧ l.span = span := by
  simp only [spansIn, Ordered.mem_settled, List.mem_map, List.mem_filter, beq_iff_eq, and_assoc]

/-- A rename writes the new name, at the places that it is given. -/
theorem mem_renameEdits (he : e ∈ renameEdits ls newName) (hte : te ∈ e.edits) :
    te.newText = newName ∧ ∃ l ∈ ls, l.path = e.path ∧ l.span = te.span := by
  obtain ⟨path, -, rfl⟩ := List.mem_map.1 he
  obtain ⟨span, hspan, rfl⟩ := List.mem_map.1 hte
  exact ⟨rfl, mem_spansIn.1 hspan⟩

/-- And it does so at each of them. -/
theorem exists_edit {l : Location} (hl : l ∈ ls) (newName : String) :
    ∃ e ∈ renameEdits ls newName, e.path = l.path ∧ ⟨l.span, newName⟩ ∈ e.edits := by
  refine ⟨_, List.mem_map.2 ⟨l.path, Ordered.mem_ofList.2 (List.mem_map.2 ⟨l, hl, rfl⟩), rfl⟩, rfl, ?_⟩
  exact List.mem_map.2 ⟨l.span, mem_spansIn.2 ⟨l, hl, rfl, rfl⟩, rfl⟩

theorem checkRename_ok {s : Symbol} (hname : Text.isIdentifier newName.toList) (hs : s.kind ≠ .namespace)
    (hc : s.kind ≠ .constructor) : checkRename s newName = .ok () := by
  unfold checkRename
  rw [if_neg (by simp [hname])]
  split
  · exact absurd ‹_› hs
  · exact absurd ‹_› hc
  · rfl

end

/-! ## Compilations whose names are identifiers -/

/-- A parser in whose trees for a snapshot names are identifiers. -/
def Parser.Spelled (read : Parser) (s : Snapshot) : Prop := ∀ d ∈ s.documents, (read d.text).Spelled

instance (read : Parser) (s : Snapshot) : Decidable (read.Spelled s) :=
  inferInstanceAs (Decidable (∀ d ∈ s.documents, (read d.text).Spelled))

namespace Compilation

structure Spelled (c : Compilation) : Prop where
  index : c.index = .build (c.files.flatMap declarations)
  paths : ∀ f ∈ c.files, ∀ f' ∈ c.files, f.path = f'.path → f = f'
  trees : ∀ f ∈ c.files, f.root.Spelled
  kinds : IdsTellKinds (c.files.flatMap declarations)

/-- An identifier of a file, at its place. -/
structure At (c : Compilation) (l : Location) (f : SourceFile) (x : Focus) : Prop where
  file : f ∈ c.files
  focus : x ∈ f.root.foci
  identifier : x.node.kind = .identifier
  place : l = f.location x.node

section
variable {c : Compilation} (h : c.Spelled) {s t : Symbol} {f f' : SourceFile} {x x' : Focus} {l : Location}
include h

/-- A place belongs to one identifier. -/
theorem Spelled.at_unique (hx : c.At l f x) (hx' : c.At l f' x') : f = f' ∧ x = x' := by
  have hplace := hx.place.symm.trans hx'.place
  have hpath : f.path = f'.path := congrArg Location.path hplace
  obtain rfl := h.paths f hx.file f' hx'.file hpath
  have hspan : x.node.span = x'.node.span := congrArg Location.span hplace
  exact ⟨rfl, (h.trees f hx.file).focus_ext hx.focus hx'.focus hx.identifier hx'.identifier hspan⟩

/-- A place where a symbol is declared is that of a declaration of its kind. -/
theorem Spelled.declared_of_mem (hs : s ∈ c.index.symbols) (hl : l ∈ declaredLocations s) :
    ∃ f ∈ c.files, ∃ d ∈ declarations f, d.id = s.id ∧ d.kind = s.kind ∧ d.location = l := by
  rw [h.index] at hs
  have hgathered := SymbolIndex.gathered_build hs
  obtain ⟨first, hfirst, hid, hkind, -⟩ := hgathered.named
  obtain ⟨site, hsite, rfl⟩ := List.mem_map.1 hl
  obtain ⟨d, hd, hdid, rfl⟩ := hgathered.placed site hsite
  obtain ⟨f, hf, hdf⟩ := List.mem_flatMap.1 hd
  exact ⟨f, hf, d, hdf, hdid, (h.kinds d hd first hfirst (hdid.trans hid.symm)).trans hkind, rfl⟩

end

/-! ## References -/

/-- An identifier refers to a symbol in the way in which its kind is looked for. -/
def Refers (c : Compilation) (s : Symbol) (f : SourceFile) (x : Focus) : Prop :=
  match s.kind with
  | .method | .constructor => ∃ y ∈ f.root.fociOf callKinds, ∃ callee, c.resolve f y = some (callee, x.node) ∧
      callee.id = s.id ∧ x.aroundName = y.node :: y.around
  | .field | .property => f.word x.node = Symbol.stripArity s.name ∧
      (c.resolveMember f x (Symbol.stripArity s.name)).any (·.id == s.id)
  | _ => f.word x.node = Symbol.stripArity s.name ∧ (c.index.typesNamed (Symbol.stripArity s.name)).any (·.id == s.id)

section
variable {c : Compilation} {s t : Symbol} {f : SourceFile} {x : Focus} {l : Location}

theorem refers_callable (hk : s.kind.isCallable) : c.Refers s f x ↔ ∃ y ∈ f.root.fociOf callKinds, ∃ callee,
    c.resolve f y = some (callee, x.node) ∧ callee.id = s.id ∧ x.aroundName = y.node :: y.around := by
  unfold Refers
  cases hs : s.kind <;> rw [hs] at hk <;> first | rfl | cases hk

theorem refers_value (hk : s.kind ∈ [SymbolKind.field, .property]) : c.Refers s f x ↔
    f.word x.node = Symbol.stripArity s.name ∧
      (c.resolveMember f x (Symbol.stripArity s.name)).any (·.id == s.id) := by
  unfold Refers
  cases hs : s.kind <;> rw [hs] at hk <;> first | rfl | exact absurd hk (by decide)

/-- A type is referred to by whatever is spelled like it. -/
theorem refers_type (hs : s ∈ c.index.symbols) (hk : s.kind.isType) :
    c.Refers s f x ↔ f.word x.node = Symbol.stripArity s.name := by
  have hnamed : (c.index.typesNamed (Symbol.stripArity s.name)).any (·.id == s.id) :=
    List.any_eq_true.2 ⟨s, SymbolIndex.mem_typesNamed.2 ⟨hs, hk, rfl⟩, beq_self_eq_true _⟩
  unfold Refers
  cases hkind : s.kind <;> rw [hkind] at hk <;> first | exact and_iff_left hnamed | cases hk

theorem mem_identifierReferences {refers : SourceFile → Focus → String → Bool} :
    l ∈ c.identifierReferences s refers ↔ ∃ f x, c.At l f x ∧ isDeclarationName x = false ∧
      f.word x.node = Symbol.stripArity s.name ∧ refers f x (Symbol.stripArity s.name) := by
  simp only [identifierReferences, List.mem_flatMap, List.mem_map, List.mem_filter, Node.fociOf, Bool.and_eq_true,
    beq_iff_eq, Bool.not_eq_true', List.contains_iff_mem, List.mem_singleton]
  constructor
  · rintro ⟨f, hf, x, ⟨⟨hx, hk⟩, ⟨hword, hname⟩, hrefers⟩, rfl⟩
    exact ⟨f, x, ⟨hf, hx, hk, rfl⟩, hname, hword, hrefers⟩
  · rintro ⟨f, x, ⟨hf, hx, hk, rfl⟩, hname, hword, hrefers⟩
    exact ⟨f, hf, x, ⟨⟨hx, hk⟩, ⟨hword, hname⟩, hrefers⟩, rfl⟩

theorem mem_callReferences {id : String} : l ∈ (c.calls.filter (·.callee == id)).map (·.location) ↔
    ∃ f x, c.At l f x ∧ isDeclarationName x = false ∧ ∃ y ∈ f.root.fociOf callKinds, ∃ callee,
      c.resolve f y = some (callee, x.node) ∧ callee.id = id ∧ x.aroundName = y.node :: y.around := by
  simp only [List.mem_map, List.mem_filter, beq_iff_eq, calls, List.mem_flatMap, callsIn, List.mem_filterMap,
    Option.map_eq_some_iff]
  constructor
  · rintro ⟨call, ⟨⟨f, hf, y, hy, ⟨callee, name⟩, hresolve, rfl⟩, rfl⟩, rfl⟩
    obtain ⟨x, hx, rfl, hk, haround, hname⟩ := exists_called hy hresolve
    exact ⟨f, x, ⟨hf, hx, hk, rfl⟩, hname, y, hy, callee, hresolve, rfl, haround⟩
  · rintro ⟨f, x, ⟨hf, hx, hk, rfl⟩, hname, y, hy, callee, hresolve, rfl, haround⟩
    exact ⟨_, ⟨⟨f, hf, y, hy, _, hresolve, rfl⟩, rfl⟩, rfl⟩

/-- The references of a symbol that is no namespace are identifiers that declare nothing and refer to it. -/
theorem mem_references (hs : s.kind ≠ .namespace) : l ∈ c.references c.calls s ↔
    ∃ f x, c.At l f x ∧ isDeclarationName x = false ∧ c.Refers s f x := by
  rw [references, settleLocations, Ordered.mem_settled]
  unfold Refers
  cases hk : s.kind
  case «namespace» => exact absurd hk hs
  case method | constructor => exact mem_callReferences
  case field | property | class_ | struct | interface | record | enum => exact mem_identifierReferences

end

/-! ## What a symbol is spelled -/

/-- A constructor is spelled like the types that it can be one of. -/
def SpelledAs (c : Compilation) (s : Symbol) (w : String) : Prop :=
  match s.kind with
  | .method => w = s.name
  | .constructor => ∃ u ∈ c.index.symbols, u.kind.isType ∧ s.container = some u.qualname ∧ w = Symbol.stripArity u.name
  | _ => w = Symbol.stripArity s.name

/-- Two symbols of one spelling, unless both can be called, or both are fields or properties. -/
def Mistakable (c : Compilation) (s t : Symbol) : Prop :=
  (∃ w, c.SpelledAs s w ∧ c.SpelledAs t w) ∧ ¬(s.kind.isCallable ∧ t.kind.isCallable) ∧
    ¬(s.kind ∈ [.field, .property] ∧ t.kind ∈ [.field, .property])

/-- In a creation, the name in the created type is what the type is looked up by. -/
def CreatesByName (c : Compilation) : Prop :=
  ∀ f ∈ c.files, ∀ n ∈ f.root.descendantsOf [.objectCreationExpression], ∀ written ∈ n.child? .type,
    ∀ name ∈ written.simpleName?, f.word name = Symbol.simpleTypeName (f.word written)

section
variable {c : Compilation} {s t : Symbol} {f : SourceFile} {x y : Focus} {callee : Symbol} {name : Node}

/-- A creation resolves to a type that is looked up by what is written, or to a constructor of that type. -/
theorem callee_of_creation (hr : c.resolveCreation f y = some (callee, name)) : ∃ written type,
    y.node.child? .type = some written ∧ written.simpleName? = some name ∧
      type ∈ c.index.typesNamed (Symbol.simpleTypeName (f.word written)) ∧
      (callee = type ∨ callee ∈ c.index.membersOf type.qualname ∧ callee.kind = .constructor) := by
  obtain ⟨written, hwritten, hr⟩ := Option.bind_eq_some_iff.1 hr
  obtain ⟨simple, hsimple, hr⟩ := Option.bind_eq_some_iff.1 hr
  obtain ⟨type, htype, hr⟩ := Option.bind_eq_some_iff.1 hr
  cases hr
  refine ⟨written, type, hwritten, hsimple, ?_, ?_⟩
  · have htype := List.mem_of_head? htype
    unfold typesFor at htype
    dsimp only at htype
    split at htype
    · cases htype
    · rcases List.mem_append.1 htype with htype | htype
      · exact (List.mem_filter.1 htype).1
      · exact (List.mem_filter.1 htype).1
  · cases hctor : (c.index.membersOf type.qualname).find? _ with
    | none => exact .inl rfl
    | some m =>
      have hkind := List.find?_some hctor
      exact .inr ⟨List.mem_of_find?_eq_some hctor, beq_iff_eq.1 (Bool.and_eq_true_iff.1 hkind).1⟩

/-- A creation calls no method. -/
theorem kind_of_creation (hr : c.resolveCreation f y = some (callee, name)) : callee.kind ≠ .method := by
  obtain ⟨_, type, -, -, htype, rfl | ⟨-, hctor⟩⟩ := callee_of_creation hr
  · intro hk
    have htype := (SymbolIndex.mem_typesNamed.1 htype).2.1
    rw [hk] at htype
    cases htype
  · rw [hctor]
    nofun

variable (hc : c.CreatesByName)
include hc

theorem word_of_creation (hf : f ∈ c.files) (hy : y ∈ f.root.foci) (hk : y.node.kind = .objectCreationExpression)
    (hr : c.resolveCreation f y = some (callee, name)) :
    ∃ type ∈ c.index.symbols, type.kind.isType ∧ f.word name = Symbol.stripArity type.name ∧
      (callee = type ∨ callee ∈ c.index.membersOf type.qualname ∧ callee.kind = .constructor) := by
  obtain ⟨written, type, hwritten, hsimple, htype, hwhich⟩ := callee_of_creation hr
  obtain ⟨hsymbol, hkind, hname⟩ := SymbolIndex.mem_typesNamed.1 htype
  have hnode : y.node ∈ f.root.descendantsOf [.objectCreationExpression] :=
    List.mem_filter.2 ⟨Node.node_mem_descendants hy, by simp [hk]⟩
  exact ⟨type, hsymbol, hkind, (hc f hf y.node hnode written hwritten name hsimple).trans hname.symm, hwhich⟩

/-- What refers to a symbol is spelled like it. -/
theorem Spelled.spelledAs_of_refers (h : c.Spelled) (hs : s ∈ c.index.symbols) (hne : s.kind ≠ .namespace) (hf : f ∈ c.files)
    (hr : c.Refers s f x) : c.SpelledAs s (f.word x.node) := by
  have hcall : s.kind.isCallable → ∃ callee, callee ∈ c.index.symbols ∧ callee.id = s.id ∧
      (callee.kind = .method ∧ callee.name = f.word x.node ∨ ∃ type ∈ c.index.symbols, type.kind.isType ∧
        f.word x.node = Symbol.stripArity type.name ∧ (callee = type ∨ callee ∈ c.index.membersOf type.qualname ∧ callee.kind = .constructor)) := by
    intro hk
    obtain ⟨y, hy, callee, hresolve, hid, -⟩ := (refers_callable hk).1 hr
    have hmem := (List.mem_filter.1 hy).1
    have hnests := Node.nests_of_mem_descendants (h.trees f hf).nests (Node.node_mem_descendants hmem)
    unfold resolve at hresolve
    split at hresolve
    · obtain ⟨hcallee, hmethod, hname, -⟩ := resolveInvocation_spec hnests hresolve
      exact ⟨callee, hcallee, hid, .inl ⟨hmethod, hname⟩⟩
    · rename_i hkind
      obtain ⟨type, htype, htk, hword, hwhich⟩ := word_of_creation hc hf hmem hkind hresolve
      have hcallee : callee ∈ c.index.symbols := by
        rcases hwhich with rfl | hwhich
        · exact htype
        · exact (SymbolIndex.mem_membersOf.1 hwhich.1).1
      exact ⟨callee, hcallee, hid, .inr ⟨type, htype, htk, hword, hwhich⟩⟩
    · cases hresolve
  unfold SpelledAs
  cases hk : s.kind
  case «namespace» => exact absurd hk hne
  case method =>
    obtain ⟨callee, hcallee, hid, hwhich⟩ := hcall (by rw [hk]; rfl)
    obtain rfl := SymbolIndex.eq_of_id hcallee hs hid
    rcases hwhich with ⟨-, hname⟩ | ⟨type, -, htype, -, rfl | ⟨-, hctor⟩⟩
    · exact hname.symm
    · rw [hk] at htype
      cases htype
    · rw [hk] at hctor
      cases hctor
  case constructor =>
    obtain ⟨callee, hcallee, hid, hwhich⟩ := hcall (by rw [hk]; rfl)
    obtain rfl := SymbolIndex.eq_of_id hcallee hs hid
    rcases hwhich with ⟨hmethod, -⟩ | ⟨type, hmem, htype, hword, rfl | ⟨hmember, -⟩⟩
    · rw [hk] at hmethod
      cases hmethod
    · rw [hk] at htype
      cases htype
    · exact ⟨type, hmem, htype, (SymbolIndex.mem_membersOf.1 hmember).2, hword⟩
  all_goals
    unfold Refers at hr
    rw [hk] at hr
    exact hr.1

/-- One identifier refers to one symbol, unless two can be mistaken for one another. -/
theorem Spelled.eq_of_refers (h : c.Spelled) (hs : s ∈ c.index.symbols) (ht : t ∈ c.index.symbols)
    (hsk : s.kind ≠ .namespace) (htk : t.kind ≠ .namespace) (hnot : ¬c.Mistakable s t) (hf : f ∈ c.files)
    (hrs : c.Refers s f x) (hrt : c.Refers t f x) : s = t := by
  refine Classical.byContradiction fun hne => hnot ⟨?_, ?_, ?_⟩
  · exact ⟨_, h.spelledAs_of_refers hc hs hsk hf hrs, h.spelledAs_of_refers hc ht htk hf hrt⟩
  · -- The identifier leads to one call, and that calls one of them.
    rintro ⟨hsc, htc⟩
    obtain ⟨y, -, callee, hresolve, hid, haround⟩ := (refers_callable hsc).1 hrs
    obtain ⟨y', -, callee', hresolve', hid', haround'⟩ := (refers_callable htc).1 hrt
    obtain ⟨hnode, haround⟩ := List.cons.inj (haround.symm.trans haround')
    have hy : y = y' := by
      cases y
      cases y'
      exact congr (congrArg Focus.mk hnode) haround
    obtain rfl : callee = callee' := by
      rw [hy, hresolve'] at hresolve
      exact (Prod.mk.inj (Option.some.inj hresolve)).1.symm
    exact hne (SymbolIndex.eq_of_id hs ht (hid.symm.trans hid'))
  · -- The spelling is that of both, so both are what it resolves to.
    rintro ⟨hsv, htv⟩
    obtain ⟨hword, hresolve⟩ := (refers_value hsv).1 hrs
    obtain ⟨hword', hresolve'⟩ := (refers_value htv).1 hrt
    rw [← hword, Option.any_eq_true] at hresolve
    rw [← hword', Option.any_eq_true] at hresolve'
    obtain ⟨m, hm, hid⟩ := hresolve
    obtain ⟨m', hm', hid'⟩ := hresolve'
    obtain rfl := Option.some.inj (hm.symm.trans hm')
    exact hne (SymbolIndex.eq_of_id hs ht ((beq_iff_eq.1 hid).symm.trans (beq_iff_eq.1 hid')))

end

/-! ## Places of different symbols -/

/-- The symbol is a constructor among the members of a type. -/
def IsConstructorOf (c : Compilation) (u s : Symbol) : Prop :=
  s.kind.isType ∧ u.kind = .constructor ∧ u ∈ c.index.membersOf s.qualname

/-- No namespace that is declared without a body is spelled like the symbol. -/
def NoFileSpelled (c : Compilation) (s : Symbol) : Prop :=
  ∀ f ∈ c.files, ∀ n ∈ f.root.descendants, n.kind = .fileScopedNamespaceDeclaration →
    ∀ x ∈ n.name?, ¬c.SpelledAs s (f.word x)

section
variable {c : Compilation} (h : c.Spelled) {s t u : Symbol} {f : SourceFile} {x : Focus} {l : Location}

theorem mem_nameLocations : l ∈ c.nameLocations c.calls s ↔
    l ∈ c.references c.calls s ∨ ∃ u, (u = s ∨ c.IsConstructorOf u s) ∧ l ∈ declaredLocations u := by
  unfold nameLocations IsConstructorOf
  by_cases hk : s.kind.isType
  · simp only [hk, if_true, List.mem_append, List.mem_flatMap, List.mem_filter, beq_iff_eq, true_and]
    constructor
    · rintro ((hl | hl) | ⟨u, ⟨hu, hctor⟩, hl⟩)
      · exact .inr ⟨s, .inl rfl, hl⟩
      · exact .inl hl
      · exact .inr ⟨u, .inr ⟨hctor, hu⟩, hl⟩
    · rintro (hl | ⟨u, rfl | ⟨hctor, hu⟩, hl⟩)
      · exact .inl (.inr hl)
      · exact .inl (.inl hl)
      · exact .inr ⟨u, ⟨hu, hctor⟩, hl⟩
  · simp only [hk, List.mem_append, Bool.false_eq_true, if_false, List.flatMap_nil, List.not_mem_nil, or_false,
      false_and, exists_eq_left]
    exact or_comm

include h

/-- What is declared at the place of an identifier is named by that identifier. -/
theorem Spelled.naming_at (hx : c.At l f x) (ht : t ∈ c.index.symbols) (hl : l ∈ declaredLocations t) :
    ∃ p ∈ f.sites, ∃ d ∈ p.own f, d.id = t.id ∧ d.kind = t.kind ∧ Naming f p d x := by
  obtain ⟨f', hf', d, hd, hid, hkind, hplace⟩ := h.declared_of_mem ht hl
  obtain ⟨p, hp, hown, y, hy⟩ := exists_naming (h.trees f' hf') hd
  have hlocation : f.location x.node = f'.location y.node := hx.place.symm.trans (hplace.symm.trans hy.location)
  have hpath : f.path = f'.path := congrArg Location.path hlocation
  obtain rfl := h.paths f hx.file f' hf' hpath
  have hspan : x.node.span = y.node.span := congrArg Location.span hlocation
  have htree := h.trees f hx.file
  have hyk : y.node.kind = .identifier := by
    by_cases hk : d.kind = .namespace
    · refine (hy.space hk).resolve_right fun hwide => ?_
      exact htree.span_ne hx.focus hx.identifier (Node.node_mem_descendants hy.focus) hwide hspan
    · exact hy.identifier hk
  obtain rfl := htree.focus_ext hx.focus hy.focus hx.identifier hyk hspan
  exact ⟨p, hp, d, hown, hid, hkind, hy⟩

/-- What is no namespace is declared by identifiers that are names of declarations. -/
theorem Spelled.declared_at (hs : s ∈ c.index.symbols) (hk : s.kind ≠ .namespace) (hl : l ∈ declaredLocations s) :
    ∃ f x, c.At l f x ∧ isDeclarationName x := by
  obtain ⟨f, hf, d, hd, -, hkind, hplace⟩ := h.declared_of_mem hs hl
  obtain ⟨p, -, -, x, hx⟩ := exists_naming (h.trees f hf) hd
  have hdk : d.kind ≠ .namespace := hkind ▸ hk
  exact ⟨f, x, ⟨hf, hx.focus, hx.identifier hdk, hplace.symm.trans hx.location⟩, hx.isName_of hdk⟩

/-- No two symbols are declared at one place, if one of them is no namespace. -/
theorem Spelled.eq_of_declared (hs : s ∈ c.index.symbols) (ht : t ∈ c.index.symbols) (hk : s.kind ≠ .namespace)
    (hl : l ∈ declaredLocations s) (hl' : l ∈ declaredLocations t) : s = t := by
  obtain ⟨f, x, hx, -⟩ := h.declared_at hs hk hl
  obtain ⟨p, hp, d, hd, hid, -, hname⟩ := h.naming_at hx hs hl
  obtain ⟨p', hp', d', hd', hid', -, hname'⟩ := h.naming_at hx ht hl'
  obtain ⟨-, rfl⟩ := hname.unique (h.trees f hx.file) hp hp' hd hd' hname' hx.identifier
  exact SymbolIndex.eq_of_id hs ht (hid.symm.trans hid')

/-- A directive is at no place of an identifier. -/
theorem Spelled.not_mem_namespaceReferences (hx : c.At l f x) : l ∉ c.namespaceReferences t := by
  intro hl
  obtain ⟨f', hf', hl⟩ := List.mem_flatMap.1 hl
  obtain ⟨n, hn, hplace⟩ := List.mem_map.1 hl
  obtain ⟨hmem, hk⟩ := List.mem_filter.1 (List.mem_filter.1 hn).1
  have hlocation : f.location x.node = f'.location n := hx.place.symm.trans hplace.symm
  have hpath : f.path = f'.path := congrArg Location.path hlocation
  obtain rfl := h.paths f hx.file f' hf' hpath
  have hwide : n.kind ∈ wideKinds := by
    rw [List.contains_iff_mem, List.mem_singleton] at hk
    rw [hk]
    decide
  exact (h.trees f hx.file).span_ne hx.focus hx.identifier hmem hwide (congrArg Location.span hlocation)

/-- No place of one symbol is where another is declared, but for a namespace of that spelling without a body. -/
theorem Spelled.not_declared (hc : c.CreatesByName) (hs : s ∈ c.index.symbols) (ht : t ∈ c.index.symbols)
    (hk : s.kind ≠ .namespace) (hne : t ≠ s) (hctor : ¬c.IsConstructorOf t s) (hfile : c.NoFileSpelled s)
    (hl : l ∈ c.nameLocations c.calls s) : l ∉ declaredLocations t := by
  intro hlt
  rcases mem_nameLocations.1 hl with hl | ⟨u, hu, hlu⟩
  · obtain ⟨f, x, hx, hname, hrefers⟩ := (mem_references hk).1 hl
    obtain ⟨p, hp, d, hd, -, -, hnaming⟩ := h.naming_at hx ht hlt
    by_cases hspace : p.node.kind = .fileScopedNamespaceDeclaration
    · rcases hnaming.source with hsource | hsource
      · refine hfile f hx.file p.node (mem_descendants_of_sites (h.trees f hx.file) hp) hspace x.node hsource.name ?_
        exact h.spelledAs_of_refers hc hs hk hx.file hrefers
      · exact absurd (hsource.kind.symm.trans hspace) nofun
    · exact absurd ((hnaming.isName hspace).symm.trans hname) nofun
  · rcases hu with rfl | hu
    · exact hne (h.eq_of_declared hs ht hk hlu hlt).symm
    · have hmem := (SymbolIndex.mem_membersOf.1 hu.2.2).1
      obtain rfl := h.eq_of_declared hmem ht (by rw [hu.2.1]; nofun) hlu hlt
      exact hctor hu

/-- No place of one symbol is a reference to another, unless the two can be mistaken for one another. -/
theorem Spelled.not_referred (hc : c.CreatesByName) (hs : s ∈ c.index.symbols) (ht : t ∈ c.index.symbols)
    (hk : s.kind ≠ .namespace) (hne : t ≠ s) (hnot : ¬c.Mistakable s t) (hl : l ∈ c.nameLocations c.calls s) :
    l ∉ c.references c.calls t := by
  intro hlt
  have hat : ∃ f x, c.At l f x := by
    rcases mem_nameLocations.1 hl with hl | ⟨u, rfl | hu, hlu⟩
    · obtain ⟨f, x, hx, -⟩ := (mem_references hk).1 hl
      exact ⟨f, x, hx⟩
    · obtain ⟨f, x, hx, -⟩ := h.declared_at hs hk hlu
      exact ⟨f, x, hx⟩
    · obtain ⟨f, x, hx, -⟩ := h.declared_at (SymbolIndex.mem_membersOf.1 hu.2.2).1 (by rw [hu.2.1]; nofun) hlu
      exact ⟨f, x, hx⟩
  by_cases htk : t.kind = .namespace
  · obtain ⟨f, x, hx⟩ := hat
    have hspace : l ∈ c.namespaceReferences t := by
      rw [references, settleLocations, Ordered.mem_settled, htk] at hlt
      exact hlt
    exact h.not_mem_namespaceReferences hx hspace
  · obtain ⟨f, x, hx, hname, hrefers⟩ := (mem_references htk).1 hlt
    have hdeclared : ∀ u ∈ c.index.symbols, u.kind ≠ .namespace → l ∉ declaredLocations u := by
      intro u hu huk hlu
      obtain ⟨f', x', hx', hname'⟩ := h.declared_at hu huk hlu
      obtain ⟨rfl, rfl⟩ := h.at_unique hx hx'
      exact absurd (hname'.symm.trans hname) nofun
    rcases mem_nameLocations.1 hl with hl | ⟨u, rfl | hu, hlu⟩
    · obtain ⟨f', x', hx', -, hrefers'⟩ := (mem_references hk).1 hl
      obtain ⟨rfl, rfl⟩ := h.at_unique hx hx'
      exact hne (h.eq_of_refers hc hs ht hk htk hnot hx.file hrefers' hrefers).symm
    · exact hdeclared u hs hk hlu
    · exact hdeclared u (SymbolIndex.mem_membersOf.1 hu.2.2).1 (by rw [hu.2.1]; nofun) hlu

end

/-! ## Places by path and range -/

/-- A location of something in a file. -/
def Placed (c : Compilation) (l : Location) : Prop := ∃ f ∈ c.files, ∃ n : Node, l = f.location n

section
variable {c : Compilation} (h : c.Spelled) {s : Symbol} {l l' : Location}
include h

theorem Spelled.location_ext (hl : c.Placed l) (hl' : c.Placed l') (hpath : l.path = l'.path) (hspan : l.span = l'.span) :
    l = l' := by
  obtain ⟨f, hf, n, rfl⟩ := hl
  obtain ⟨f', hf', n', rfl⟩ := hl'
  obtain rfl := h.paths f hf f' hf' hpath
  exact congrArg (Location.ofSpan f.path f.chars) hspan

theorem Spelled.placed_of_declared (hs : s ∈ c.index.symbols) (hl : l ∈ declaredLocations s) : c.Placed l := by
  obtain ⟨f, hf, d, hd, -, -, hplace⟩ := h.declared_of_mem hs hl
  obtain ⟨p, -, -, x, hx⟩ := exists_naming (h.trees f hf) hd
  exact ⟨f, hf, x.node, hplace.symm.trans hx.location⟩

omit h in
theorem placed_of_references (hl : l ∈ c.references c.calls s) : c.Placed l := by
  by_cases hk : s.kind = .namespace
  · rw [references, settleLocations, Ordered.mem_settled, hk] at hl
    obtain ⟨f, hf, hl⟩ := List.mem_flatMap.1 hl
    obtain ⟨n, -, rfl⟩ := List.mem_map.1 hl
    exact ⟨f, hf, n, rfl⟩
  · obtain ⟨f, x, hx, -⟩ := (mem_references hk).1 hl
    exact ⟨f, hx.file, x.node, hx.place⟩

theorem Spelled.placed_of_nameLocations (hs : s ∈ c.index.symbols) (hl : l ∈ c.nameLocations c.calls s) : c.Placed l := by
  rcases mem_nameLocations.1 hl with hl | ⟨u, rfl | hu, hlu⟩
  · exact placed_of_references hl
  · exact h.placed_of_declared hs hlu
  · exact h.placed_of_declared (SymbolIndex.mem_membersOf.1 hu.2.2).1 hlu

end

theorem spelled_ofSnapshot {read : Parser} {s : Snapshot} (h : read.Spelled s)
    (hk : IdsTellKinds ((ofSnapshot read s).files.flatMap declarations)) : (ofSnapshot read s).Spelled where
  index := rfl
  paths := paths_ofSnapshot read s
  trees f hf := by
    obtain ⟨d, hd, rfl⟩ := List.mem_map.1 hf
    exact h d hd
  kinds := hk

end Compilation

/-- A type and another one that uses it. -/
def usedType : Snapshot := .addDocument .empty "App" "a.cs" "class A \x7b \x7d class B \x7b A a; \x7d" none

/-- A type that is named like the one of another namespace that it derives from. -/
def twoTypes : Snapshot :=
  .addDocument .empty "App" "a.cs" "namespace N \x7b class A \x7b \x7d \x7d class A : N.A \x7b \x7d" none

end Workbench.CSharp
