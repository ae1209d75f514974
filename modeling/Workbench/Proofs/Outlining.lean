import Workbench.Proofs.Extents
import Workbench.Proofs.Indexing
import Workbench.Proofs.Wording

/-!
# Outlines

Edits that leave core children alone change where declarations stand, their
modifiers and their layout, but not what is declared: the symbols of the index
keep their ids, kinds, names and containers, in the same order.
-/

namespace Workbench

/-- What a cleanup does not change in a declaration. -/
structure Outline where
  kind : SymbolKind
  name : String
  qualname : String
  signature : Option String
  container : Option String

def Declared.outline (d : Declared) : Outline := ⟨d.kind, d.name, d.qualname, d.signature, d.container⟩

def Symbol.outline (s : Symbol) : String × Outline := (s.id, ⟨s.kind, s.name, s.qualname, s.signature, s.container⟩)

namespace Ordered

section
variable {α : Type} {key : α → String} {R : α → α → Prop} {xs ys : List α} {a b : α}

theorem rel_find? (hR : ∀ a b, R a b → key a = key b) (k : String) (h : List.Forall₂ R xs ys) :
    Option.Rel R (find? key k xs) (find? key k ys) := by
  induction h with
  | nil => exact .none
  | cons hab _ ih =>
    rw [find?_cons, find?_cons, hR _ _ hab]
    split
    · exact .some hab
    · exact ih

theorem rel_put (hR : ∀ a b, R a b → key a = key b) (hab : R a b) (h : List.Forall₂ R xs ys) :
    List.Forall₂ R (put key a xs) (put key b ys) := by
  induction h with
  | nil => exact .cons hab .nil
  | cons hcd hrest ih =>
    rw [put, put, hR _ _ hab, hR _ _ hcd]
    split
    · exact .cons hab (.cons hcd hrest)
    · split
      · exact .cons hab hrest
      · exact .cons hcd ih

end

end Ordered

namespace SymbolIndex

/-- Two indexes whose symbols have the same outlines. -/
def SameOutlines (ix ix' : SymbolIndex) : Prop := ix.symbols.map Symbol.outline = ix'.symbols.map Symbol.outline

theorem sameOutlines_build {ds ds' : List Declared} (h : ds.map Declared.outline = ds'.map Declared.outline) :
    (build ds).SameOutlines (build ds') := by
  have hkey : ∀ a b : Symbol, a.outline = b.outline → a.id = b.id := fun a b h => congrArg Prod.fst h
  have hadd : ∀ {d d' : Declared} {xs ys : List Symbol}, d.outline = d'.outline →
      List.Forall₂ (fun a b => a.outline = b.outline) xs ys →
        List.Forall₂ (fun a b => a.outline = b.outline) (addDeclared xs d) (addDeclared ys d') := by
    intro d d' xs ys hd hxs
    simp only [Declared.outline, Outline.mk.injEq] at hd
    obtain ⟨hkind, hname, hqual, hsig, hcont⟩ := hd
    have hid : d.id = d'.id := by rw [Declared.id, Declared.id, hkind, hqual, hsig]
    rw [addDeclared_eq, addDeclared_eq, hid]
    refine Ordered.rel_put hkey ?_ hxs
    have hfind := Ordered.rel_find? hkey d'.id hxs
    revert hfind
    generalize Ordered.find? Symbol.id d'.id xs = o, Ordered.find? Symbol.id d'.id ys = o'
    rintro (hab | _)
    · exact hab
    · simp only [Option.getD_none, absorb, fresh, Symbol.outline, hkind, hname, hqual, hsig, hcont]
  have hfold : ∀ {xs ys : List Symbol} {ds ds' : List Declared}, ds.map Declared.outline = ds'.map Declared.outline →
      List.Forall₂ (fun a b => a.outline = b.outline) xs ys →
        List.Forall₂ (fun a b => a.outline = b.outline) (ds.foldl addDeclared xs) (ds'.foldl addDeclared ys) := by
    intro xs ys ds ds' h
    induction ds generalizing ds' xs ys with
    | nil =>
      cases List.map_eq_nil_iff.1 h.symm
      exact id
    | cons d rest ih =>
      obtain ⟨d', rest', rfl, hd, hrest⟩ := List.map_eq_cons_iff.1 h.symm
      rw [List.foldl_cons, List.foldl_cons]
      exact fun hxs => ih hrest.symm (hadd hd.symm hxs)
  have hsettle : ∀ s, (settle s).outline = s.outline := fun _ => rfl
  have hall := hfold h (List.Forall₂.nil : List.Forall₂ (fun a b : Symbol => a.outline = b.outline) [] [])
  rw [SameOutlines, build, build, List.map_map, List.map_map]
  generalize ds.foldl addDeclared [] = xs, ds'.foldl addDeclared [] = ys at hall
  induction hall with
  | nil => rfl
  | cons hab _ ih =>
    rw [List.map_cons, List.map_cons, ih, Function.comp_apply, Function.comp_apply, hsettle, hsettle, hab]

end SymbolIndex

namespace CSharp

/-! ## Phrases declare nothing -/

namespace Node

variable (f : SourceFile) (e : Enclosure) {n : Node}

theorem arePhrases_iff {cs : List Node} :
    arePhrases cs = true ↔ ∀ c ∈ cs, c.kind ≠ .usingDirective ∧ c.isPhrase = true := by
  induction cs with
  | nil => simp [arePhrases]
  | cons c rest ih => simp [arePhrases, ih]

theorem isPhrase_iff : n.isPhrase = true ↔ isEditable n.kind = false ∧
    ∀ c ∈ n.children, c.kind ≠ .usingDirective ∧ c.isPhrase = true := by
  cases n
  rw [isPhrase, Bool.and_eq_true, arePhrases_iff, Bool.not_eq_true']
  rfl

theorem declaredAll_eq (cs : List Node) : declaredAll f e cs = cs.flatMap (declared f e) := by
  induction cs with
  | nil => rfl
  | cons c rest ih => rw [declaredAll, ih, List.flatMap_cons]

theorem declaredIn_eq (isBody : Node → Bool) (cs : List Node) : declaredIn f e isBody cs =
    (cs.find? isBody).elim [] fun b => if b.kind == .token then [] else declaredAll f e b.children := by
  induction cs with
  | nil => rfl
  | cons c rest ih =>
    cases c
    rw [declaredIn, List.find?_cons]
    cases h : isBody _ with
    | true => rfl
    | false => exact ih

theorem typeKind?_of_not_editable {k : Kind} (h : isEditable k = false) : typeKind? k = none := by
  cases k <;> first | rfl | exact absurd h (by decide)

theorem declared_of_isPhrase (h : n.isPhrase = true) : n.declared f e = [] := by
  induction n using childInduction with
  | step n ih =>
    obtain ⟨hk, hchildren⟩ := isPhrase_iff.1 h
    rcases kind_cases n.kind with hkind | hkind | hkind | hkind | hkind | hkind | hkind
    · exact declared_hidden f e hkind
    case inr.inr.inr.inr.inr.inr =>
      rw [declared_plain f e hkind, typeKind?_of_not_editable hk, Option.elim_none, declaredAll_eq, List.flatMap_eq_nil_iff]
      exact fun c hc => ih c hc (hchildren c hc).2
    all_goals
      rw [hkind] at hk
      exact absurd hk (by decide)

/-- Neither a using directive nor a modifier declares anything. -/
theorem declared_of_plain (h : n.Regular f) (hk : n.kind = .usingDirective ∨ n.kind = .modifier) : n.declared f e = [] := by
  have hphrases : ∀ c ∈ n.children, c.isPhrase = true := by
    rcases hk with hk | hk
    · exact fun c hc => (arePhrases_iff.1 (h.directive hk).2.2 c hc).2
    · obtain ⟨t, ht, hkind, hleaf, -⟩ := exists_token_of_isKeyword (h.modifier hk).2
      rw [ht]
      intro c hc
      cases List.mem_singleton.1 hc
      exact isPhrase_iff.2 ⟨by rw [hkind]; rfl, by simp [hleaf]⟩
  rw [declared_plain f e (by rcases hk with hk | hk <;> rw [hk] <;> rfl),
    typeKind?_of_not_editable (by rcases hk with hk | hk <;> rw [hk] <;> rfl), Option.elim_none, declaredAll_eq,
    List.flatMap_eq_nil_iff]
  exact fun c hc => declared_of_isPhrase f e (hphrases c hc)

end Node

/-! ## Pairs of declarations -/

theorem words_intercalate (l : List String) :
    Text.words (" ".intercalate l).toList = l.flatMap fun s => Text.words s.toList := by
  induction l with
  | nil => rfl
  | cons a rest ih =>
    cases rest with
    | nil => simp
    | cons b rest =>
      rw [String.intercalate_cons_cons, String.toList_append, String.toList_append,
        show " ".toList = [' '] from rfl, List.append_assoc, List.singleton_append,
        Text.words_append_blank (by decide), ih, List.flatMap_cons, List.flatMap_cons, List.flatMap_cons]

theorem nameOf?_cases {f g : SourceFile} {o o' : Option Node} (h : Option.Rel (fun a b => f.word a = g.word b) o o') :
    (nameOf? f o = none ∧ nameOf? g o' = none) ∨
      ∃ a b name, nameOf? f o = some (a, name) ∧ nameOf? g o' = some (b, name) := by
  cases h with
  | none => exact .inl ⟨rfl, rfl⟩
  | some hab =>
    rename_i a b
    simp only [nameOf?, Option.bind_some, hab]
    split
    · exact .inl ⟨rfl, rfl⟩
    · exact .inr ⟨a, b, _, rfl, rfl⟩

theorem outline_declareNamespace {f g : SourceFile} (e : Enclosure) (n m a b : Node) (parts : List String) :
    (declareNamespace f e n a parts).map Declared.outline = (declareNamespace g e m b parts).map Declared.outline := by
  cases h : parts.getLast? with
  | none => simp only [declareNamespace, h]
  | some last => simp only [declareNamespace, h, List.map_cons, List.map_nil, Declared.outline]

namespace Paired

section
variable {f g : SourceFile} {edit : Node → List Node} {n m : Node}

theorem word_identifier {o o' : Option Node}
    (h : Option.Rel (fun a b => a.kind = .identifier ∧ Paired f g edit a b) o o') :
    Option.Rel (fun a b => f.word a = g.word b) o o' := by
  cases h with
  | none => exact .none
  | some hab => exact .some (by rw [SourceFile.word, SourceFile.word, hab.2.text_identifier hab.1])

variable (hkeep : Keeps edit)
include hkeep

theorem arity (h : Paired f g edit n m) : arity n = arity m := by
  rw [CSharp.arity, CSharp.arity]
  have hlist := h.ofKind? hkeep (k := .typeParameterList) (by decide)
  revert hlist
  generalize n.children.find? _ = o, m.children.find? _ = o'
  rintro (hab | _)
  · exact (hab.ofKind hkeep (by decide)).length_eq
  · rfl

/-- Types, members and declarators are named by identifiers. -/
theorem identifier_name? (h : Paired f g edit n m)
    (hk : (n.kind.isTypeDeclaration || n.kind.isMemberDeclaration || n.kind == .variableDeclarator) = true) :
    Option.Rel (fun a b => a.kind = .identifier ∧ Paired f g edit a b) n.name? m.name? := by
  have hname := h.child? hkeep (r := .name) (by decide)
  have hid := h.regular.name hk
  revert hname hid
  rw [Node.name?, Node.name?]
  generalize n.child? .name = o, m.child? .name = o'
  rintro (hab | _) hid
  · exact .some ⟨hid _ rfl, hab⟩
  · exact .none

theorem words_parameterType (h : Paired f g edit n m) (hk : n.kind = .parameter) :
    Text.words (parameterType f n).toList = Text.words (parameterType g m).toList := by
  have hmods : f.modifierTexts n = g.modifierTexts m := by
    have hpairs := (List.forall₂_and_left _ _).2
      ⟨fun a (ha : a ∈ n.modifiers) => (List.mem_filter.1 ha).2, h.modifiers hkeep (by rw [hk]; rfl)⟩
    rw [SourceFile.modifierTexts, SourceFile.modifierTexts]
    generalize n.modifiers = as, m.modifiers = bs at hpairs
    induction hpairs with
    | nil => rw [List.map_nil, List.map_nil]
    | cons hab _ ih =>
      rw [List.map_cons, List.map_cons, ih, SourceFile.word, SourceFile.word,
        hab.2.text_modifier hkeep (by simpa using hab.1)]
  have htype : Text.words ((n.child? .type).elim "" f.word).toList = Text.words ((m.child? .type).elim "" g.word).toList := by
    have hchild := h.child? hkeep (r := .type) (by decide)
    have hphrase := h.regular.parameter hk
    have hrole : ∀ a ∈ n.child? .type, a.role = .type := fun a ha => by simpa using List.find?_some ha
    revert hchild hphrase hrole
    generalize n.child? .type = o, m.child? .type = o'
    rintro (@⟨a, b, hab⟩ | _) hphrase hrole
    · obtain ⟨hnamed, hphrase⟩ := hphrase a rfl
      have hmod : a.kind ≠ .modifier := fun hm => by
        have := (hab.regular.modifier hm).1
        simp [hrole a rfl] at this
      simp only [Option.elim_some, SourceFile.word, trim, String.toList_ofList, Text.words_trim,
        hab.words_phrase hmod (by simpa [Node.isNamed] using hnamed) hphrase]
    · rw [Option.elim_none, Option.elim_none]
  simp only [parameterType, words_intercalate, List.flatMap_append, hmods, List.flatMap_cons, List.flatMap_nil, htype]

theorem parameters (h : Paired f g edit n m) : List.Forall₂ (Paired f g edit) (parameters n) (parameters m) := by
  have hlist := h.child? hkeep (r := .parameters) (by decide)
  rw [CSharp.parameters, CSharp.parameters]
  revert hlist
  generalize n.child? .parameters = o, m.child? .parameters = o'
  rintro (hab | _)
  · exact hab.ofKind hkeep (by decide)
  · exact .nil

theorem signature (h : Paired f g edit n m) : signature f n = signature g m := by
  have hkind : ∀ a ∈ CSharp.parameters n, a.kind = .parameter := by
    intro a ha
    rw [CSharp.parameters] at ha
    cases hp : n.child? .parameters with
    | none => simp [hp] at ha
    | some l =>
      rw [hp] at ha
      simpa using (List.mem_filter.1 ha).2
  have hpairs := (List.forall₂_and_left _ _).2 ⟨hkind, h.parameters hkeep⟩
  rw [CSharp.signature, CSharp.signature, Symbol.normalizeSignature, Symbol.normalizeSignature, List.map_map, List.map_map]
  generalize CSharp.parameters n = as, CSharp.parameters m = bs at hpairs
  have hmap : as.map (Symbol.normalizeType ∘ parameterType f) = bs.map (Symbol.normalizeType ∘ parameterType g) := by
    induction hpairs with
    | nil => rw [List.map_nil, List.map_nil]
    | cons hab _ ih =>
      rw [List.map_cons, List.map_cons, ih, Function.comp_apply, Function.comp_apply, Symbol.normalizeType,
        Symbol.normalizeType, hab.2.words_parameterType hkeep hab.1]
  rw [hmap]

/-- What a declarator declares is an identifier. -/
theorem declaratorName? (h : Paired f g edit n m) (hk : n.kind = .variableDeclarator) :
    Option.Rel (fun a b => a.kind = .identifier ∧ Paired f g edit a b) n.declaratorName? m.declaratorName? := by
  have hname := h.identifier_name? hkeep (by rw [hk]; rfl)
  have hfirst := h.ofKind? hkeep (k := .identifier) (by decide)
  have hkind : ∀ a ∈ n.children.find? (·.kind == .identifier), a.kind = .identifier := fun a ha => by
    simpa using List.find?_some ha
  rw [Node.declaratorName?, Node.declaratorName?]
  revert hname hfirst hkind
  generalize n.name? = o, m.name? = o', n.children.find? _ = p, m.children.find? _ = p'
  rintro (hab | _) hfirst hkind
  · exact .some hab
  · revert hkind
    cases hfirst with
    | none => exact fun _ => .none
    | some hcd => exact fun hkind => .some ⟨hkind _ rfl, hcd⟩

theorem declarators (h : Paired f g edit n m) : List.Forall₂ (fun a b => a.kind = .variableDeclarator ∧ Paired f g edit a b)
    ((n.variableDeclaration?).elim [] Node.declarators) ((m.variableDeclaration?).elim [] Node.declarators) := by
  have hdecl := h.ofKind? hkeep (k := .variableDeclaration) (by decide)
  rw [Node.variableDeclaration?, Node.variableDeclaration?]
  revert hdecl
  generalize n.children.find? _ = o, m.children.find? _ = o'
  rintro (hab | _)
  · exact (List.forall₂_and_left _ _).2
      ⟨fun a ha => by simpa using (List.mem_filter.1 ha).2, hab.ofKind hkeep (by decide)⟩
  · exact .nil

/-! ## What pairs declare -/

theorem outline_member (h : Paired f g edit n m) (e : Enclosure) (kind : SymbolKind) (a b : Node) (name last : String)
    (callable : Bool) : (declareMember f e kind n a name last callable).outline =
      (declareMember g e kind m b name last callable).outline := by
  simp only [declareMember, Declared.outline, h.signature hkeep]

theorem outline_fields (h : Paired f g edit n m) (e : Enclosure) :
    (declareFields f e n).map Declared.outline = (declareFields g e m).map Declared.outline := by
  have hpairs := h.declarators hkeep
  rw [declareFields, declareFields]
  generalize (n.variableDeclaration?).elim [] Node.declarators = as, (m.variableDeclaration?).elim [] Node.declarators = bs
    at hpairs
  induction hpairs with
  | nil => simp only [List.filterMap_nil, List.map_nil]
  | cons hab _ ih =>
    rw [List.filterMap_cons, List.filterMap_cons]
    rcases nameOf?_cases (word_identifier (hab.2.declaratorName? hkeep hab.1)) with ⟨ha, hb⟩ | ⟨a, b, name, ha, hb⟩
    · rw [ha, hb]
      exact ih
    · rw [ha, hb]
      simp only [List.map_cons, ih, h.outline_member hkeep e _ a b]

/-- Two nodes whose children declare the same. -/
def Agree (f g : SourceFile) (n m : Node) : Prop := ∀ e,
  (Node.declaredAll f e n.children).map Declared.outline = (Node.declaredAll g e m.children).map Declared.outline

omit hkeep in
theorem outline_body (hchild : ∀ c ∈ n.children, ∀ b, Paired f g edit c b → Agree f g c b) {p q : Node → Bool}
    (hfind : Option.Rel (Paired f g edit) (n.children.find? p) (m.children.find? q)) (e : Enclosure) :
    (Node.declaredIn f e p n.children).map Declared.outline = (Node.declaredIn g e q m.children).map Declared.outline := by
  rw [Node.declaredIn_eq, Node.declaredIn_eq]
  have hmem : ∀ c ∈ n.children.find? p, c ∈ n.children := fun c hc => List.mem_of_find?_eq_some hc
  revert hfind hmem
  generalize n.children.find? p = o, m.children.find? q = o'
  rintro (hab | _) hmem
  · rw [Option.elim_some, Option.elim_some, hab.kind]
    split
    · rw [List.map_nil]
    · exact hchild _ (hmem _ rfl) _ hab e
  · rw [Option.elim_none, Option.elim_none]

theorem typeBody? (h : Paired f g edit n m) : Option.Rel (Paired f g edit)
    (n.children.find? (Node.isTypeBody n.children)) (m.children.find? (Node.isTypeBody m.children)) := by
  have hbody := h.child? hkeep (r := .body) (by decide)
  have hlist := h.ofKind? hkeep (k := .declarationList) (by decide)
  have hany : ∀ n : Node, n.children.any (·.role == .body) = (n.child? .body).isSome := fun n => by
    rw [Node.child?, List.isSome_find?]
  unfold Node.isTypeBody
  rw [hany n, hany m]
  cases hn : n.child? .body with
  | none =>
    rw [hn] at hbody
    cases hm : m.child? .body with
    | none => simpa using hlist
    | some b => rw [hm] at hbody; cases hbody
  | some a =>
    cases hm : m.child? .body with
    | none => rw [hn, hm] at hbody; cases hbody
    | some b => simpa [Node.child?] using hbody

/-- The name of a namespace: there is something in it, and its parts do not depend on layout. -/
theorem namespaceName (h : Paired f g edit n m) : (nameOf? f n.name? = none ∧ nameOf? g m.name? = none) ∨
    ∃ a b, nameOf? f n.name? = some (a, f.word a) ∧ nameOf? g m.name? = some (b, g.word b) ∧
      namespaceParts (f.word a) = namespaceParts (g.word b) := by
  have hname := h.child? hkeep (r := .name) (by decide)
  have hrole : ∀ a ∈ n.child? .name, a.role = .name := fun a ha => by simpa using List.find?_some ha
  revert hname hrole
  rw [Node.name?, Node.name?]
  generalize n.child? .name = o, m.child? .name = o'
  rintro (hab | _) hrole
  · rename_i a b
    have hwords := hab.reference (hrole _ rfl)
    have hparts := hab.parts (hrole _ rfl)
    have hword : ∀ {t : SourceFile} {n : Node}, n.Regular t → n.role = .name → t.word n ≠ "" := by
      intro t n hreg hr he
      have hwords := Text.words_ne_nil_of_isTight (hreg.reference hr).1.2
      rw [← Text.words_trim] at hwords
      rw [SourceFile.word, trim, ← String.toList_inj, String.toList_ofList] at he
      exact hwords (by rw [he]; rfl)
    refine .inr ⟨a, b, ?_, ?_, hparts⟩
    · rw [nameOf?, Option.bind_some, if_neg (hword hab.regular (hrole _ rfl))]
    · rw [nameOf?, Option.bind_some, if_neg (hword hab.regular' (hab.role.trans (hrole _ rfl)))]
  · exact .inl ⟨rfl, rfl⟩

theorem outline_type (h : Paired f g edit n m) {kind : SymbolKind} (htype : typeKind? n.kind = some kind)
    (hchild : ∀ c ∈ n.children, ∀ b, Paired f g edit c b → Agree f g c b) (e : Enclosure) :
    (n.declared f e).map Declared.outline = (m.declared g e).map Declared.outline := by
  have hk : n.kind.isTypeDeclaration = true ∧ Node.declaresPlainly n.kind = true := by
    cases hkind : n.kind <;> rw [hkind] at htype <;> first | exact ⟨rfl, rfl⟩ | cases htype
  rw [Node.declared_plain f e hk.2, Node.declared_plain g e (h.kind ▸ hk.2), h.kind, htype, Option.elim_some,
    Option.elim_some]
  have hname := h.identifier_name? hkeep (by rw [hk.1]; rfl)
  rcases nameOf?_cases (word_identifier hname) with ⟨ha, hb⟩ | ⟨a, b, name, ha, hb⟩
  · rw [ha, hb, Option.elim_none, Option.elim_none, List.map_nil]
  · rw [ha, hb, Option.elim_some, Option.elim_some, List.map_cons, List.map_cons, h.arity hkeep,
      outline_body hchild (h.typeBody? hkeep)]
    simp only [declareType, Declared.outline, h.arity hkeep]

theorem outline_namespace (h : Paired f g edit n m) (hk : n.kind = .namespaceDeclaration)
    (hchild : ∀ c ∈ n.children, ∀ b, Paired f g edit c b → Agree f g c b) (e : Enclosure) :
    (n.declared f e).map Declared.outline = (m.declared g e).map Declared.outline := by
  rw [Node.declared_namespace f e hk, Node.declared_namespace g e (h.kind.trans hk)]
  rcases h.namespaceName hkeep with ⟨ha, hb⟩ | ⟨a, b, ha, hb, hparts⟩
  · rw [ha, hb, Option.elim_none, Option.elim_none, List.map_nil]
  · rw [ha, hb, Option.elim_some, Option.elim_some, hparts]
    split
    · rw [List.map_nil]
    · rw [List.map_append, List.map_append, outline_declareNamespace,
        outline_body hchild (h.child? hkeep (by decide))]

/-- A node and the one that follows it declare the same. -/
theorem outline_tree (h : Paired f g edit n m) :
    (∀ e, (n.declared f e).map Declared.outline = (m.declared g e).map Declared.outline) ∧ Agree f g n m := by
  induction n using Node.childInduction generalizing m with
  | step n ih =>
    have hchild : ∀ c ∈ n.children, ∀ b, Paired f g edit c b → Agree f g c b := fun c hc b hcb => (ih c hc hcb).2
    have hall : Agree f g n m := by
      intro e
      rw [Node.declaredAll_eq, Node.declaredAll_eq, List.map_flatMap, List.map_flatMap]
      refine h.flatMap_eq hkeep (fun c hc hk => ?_) (fun c hc hk => ?_) fun a ha b _ hab => (ih a ha hab).1 e
      · rw [Node.declared_of_plain f e (Node.regular_of_everywhere (h.child hc)) hk]
        rfl
      · rw [Node.declared_of_plain g e (Node.regular_of_everywhere (h.child' hc)) hk]
        rfl
    refine ⟨fun e => ?_, hall⟩
    have hname := fun hk => word_identifier (h.identifier_name? hkeep hk)
    rcases Node.kind_cases n.kind with hk | hk | hk | hk | hk | hk | hk
    · rw [Node.declared_hidden f e hk, Node.declared_hidden g e (h.kind ▸ hk)]
    · exact h.outline_namespace hkeep hk hchild e
    · rw [Node.declared_method f e hk, Node.declared_method g e (h.kind.trans hk), declareMethod, declareMethod]
      rcases nameOf?_cases (hname (by rw [hk]; rfl)) with ⟨ha, hb⟩ | ⟨a, b, name, ha, hb⟩
      · rw [ha, hb]
      · rw [ha, hb]
        simp only [List.map_cons, List.map_nil, h.arity hkeep, h.outline_member hkeep e _ a b]
    · rw [Node.declared_constructor f e hk, Node.declared_constructor g e (h.kind.trans hk), declareConstructor,
        declareConstructor]
      have hpair := h.child? hkeep (r := .name) (by decide)
      revert hpair
      rw [← Node.name?, ← Node.name?]
      generalize n.name? = o, m.name? = o'
      rintro (hab | _)
      · rename_i a b
        cases e.types.getLast? with
        | none => rfl
        | some type => simp only [List.map_cons, List.map_nil, h.outline_member hkeep e _ a b]
      · rfl
    · rw [Node.declared_property f e hk, Node.declared_property g e (h.kind.trans hk), declareProperty, declareProperty]
      rcases nameOf?_cases (hname (by rw [hk]; rfl)) with ⟨ha, hb⟩ | ⟨a, b, name, ha, hb⟩
      · rw [ha, hb]
      · rw [ha, hb]
        simp only [List.map_cons, List.map_nil, h.outline_member hkeep e _ a b]
    · rw [Node.declared_fields f e hk, Node.declared_fields g e (h.kind.trans hk)]
      exact h.outline_fields hkeep e
    · cases htype : typeKind? n.kind with
      | some kind => exact h.outline_type hkeep htype hchild e
      | none =>
        rw [Node.declared_plain f e hk, Node.declared_plain g e (h.kind ▸ hk), h.kind, htype]
        exact hall e

end

end Paired

/-! ## Whole files -/

section
variable {f g : SourceFile} {edit : Node → List Node}

theorem declaredTop_cons (e : Enclosure) (n : Node) (rest : List Node) : declaredTop f e (n :: rest) =
    if n.kind == .fileScopedNamespaceDeclaration then
      (nameOf? f n.name?).elim (Node.declaredAll f e n.children ++ declaredTop f e rest) fun p =>
        declareNamespace f {} n p.1 (namespaceParts p.2) ++
          (Node.declaredAll f { e with namespaces := namespaceParts p.2 } n.children ++
            declaredTop f { e with namespaces := namespaceParts p.2 } rest)
    else n.declared f e ++ declaredTop f e rest := by
  rw [declaredTop]
  cases nameOf? f n.name? <;> simp only [Option.elim_none, Option.elim_some, List.append_assoc]

theorem declaredTop_core {n : Node} (h : n.everywhere (Node.isRegular f) = true) (e : Enclosure) :
    declaredTop f e n.children = declaredTop f e (n.children.filter (isCore n.kind)) := by
  have hplain : ∀ c ∈ n.children, isCore n.kind c = false →
      (∀ e, c.declared f e = []) ∧ (c.kind == .fileScopedNamespaceDeclaration) = false := by
    intro c hc hcore
    obtain ⟨-, hk⟩ := Paired.plain_of_not_core h hc hcore
    refine ⟨fun e => Node.declared_of_plain f e (Node.regular_of_everywhere ((Node.everywhere_iff.1 h).2 c hc)) hk, ?_⟩
    rcases hk with hk | hk <;> rw [hk] <;> rfl
  generalize n.children = cs at hplain
  induction cs generalizing e with
  | nil => rfl
  | cons c rest ih =>
    obtain ⟨hc, hrest⟩ := List.forall_mem_cons.1 hplain
    have hih := fun e => ih e hrest
    rw [List.filter_cons]
    cases hcore : isCore n.kind c with
    | false =>
      obtain ⟨hnone, hk⟩ := hc hcore
      simp only [declaredTop_cons, hk, hnone, hih, Bool.false_eq_true, if_false, List.nil_append]
    | true => simp only [declaredTop_cons, hih, if_true]

/-- What a file declares stays the same. -/
theorem outline_declarations (hkeep : Keeps edit) (h : Paired f g edit f.root g.root) :
    (declarations f).map Declared.outline = (declarations g).map Declared.outline := by
  rw [declarations, declarations, declaredTop_core h.old, declaredTop_core h.new]
  have hpairs := h.core hkeep
  generalize f.root.children.filter (isCore f.root.kind) = as, g.root.children.filter (isCore g.root.kind) = bs at hpairs
  generalize ({} : Enclosure) = e
  induction hpairs generalizing e with
  | nil => simp only [declaredTop, List.map_nil]
  | cons hab _ ih =>
    rw [declaredTop_cons, declaredTop_cons, hab.kind]
    obtain ⟨hdeclared, hall⟩ := hab.outline_tree hkeep
    split
    · rcases hab.namespaceName hkeep with ⟨ha, hb⟩ | ⟨a, b, ha, hb, hparts⟩
      · simp only [ha, hb, Option.elim_none, List.map_append, hall e, ih]
      · simp only [ha, hb, Option.elim_some, List.map_append, hparts, hall _, ih]
        rw [outline_declareNamespace]
    · rw [List.map_append, List.map_append, hdeclared, ih]

end

end CSharp

end Workbench
