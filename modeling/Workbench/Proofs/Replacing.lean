import Workbench.Proofs.Chains
import Workbench.Proofs.Identities
import Workbench.Proofs.Judging
import Workbench.Proofs.Registry
import Workbench.Proofs.Wording

/-!
# Renames that are made

A rename writes to identifiers that are spelled like the symbol. In the tree of
one document they do not overlap, so that all edits can be made at once.
-/

namespace Workbench

/-! ## Edits of several documents -/

namespace CodeAction

section
variable {s next : Snapshot} {ds : List DocumentEdit}

/-- What becomes of the texts, when no document is edited twice. -/
theorem applyEdits_texts (honce : (ds.map (·.path)).Nodup) (h : applyEdits s ds = .ok next) :
    (∀ d ∈ ds, d.edits ≠ [] → ∃ old new, s.text? d.path = some old ∧ Edit.applyAll old d.edits = .ok new ∧
      next.text? d.path = some new) ∧ ∀ p ∉ ds.map (·.path), next.text? p = s.text? p := by
  induction ds generalizing s with
  | nil =>
    cases h
    exact ⟨fun _ hd => (nomatch hd), fun _ _ => rfl⟩
  | cons d rest ih =>
    obtain ⟨hother, hrest⟩ := List.nodup_cons.1 honce
    rw [applyEdits] at h
    split at h
    · cases h
    · rename_i mid hmid
      obtain ⟨hedited, hkept⟩ := ih hrest h
      refine ⟨List.forall_mem_cons.2 ⟨fun hne => ?_, fun e he hne => ?_⟩, fun p hp => ?_⟩
      · obtain ⟨old, new, hold, hnew, -, htexts⟩ := Snapshot.withEdits_ok hmid hne
        refine ⟨old, new, hold, hnew, ?_⟩
        rw [hkept d.path hother, htexts, if_pos rfl]
      · obtain ⟨old, new, hold, hnew, hnext⟩ := hedited e he hne
        have hpath : e.path ≠ d.path := fun hpath => hother (List.mem_map.2 ⟨e, he, hpath⟩)
        exact ⟨old, new, (Snapshot.withEdits_text? hmid hpath).symm.trans hold, hnew, hnext⟩
      · rw [List.map_cons, List.mem_cons, not_or] at hp
        rw [hkept p hp.2, Snapshot.withEdits_text? hmid hp.1]

end

end CodeAction

/-! ## Spans in order -/

namespace Span

/-- The order of spans: by start, then by length. -/
def order : Span → Span → Ordering := compareLex (compareOn fun s => s.start) (compareOn fun s => s.length)

instance transCmp : Std.TransCmp order :=
  inferInstanceAs <| Std.TransCmp <| compareLex (compareOn fun s : Span => s.start) (compareOn fun s : Span => s.length)

theorem order_eq (a b : Span) : order a b = (compare a.start b.start).then (compare a.length b.length) := rfl

instance lawfulEqCmp : Std.LawfulEqCmp order where
  eq_of_compare {a b} h := by
    cases a
    cases b
    simpa [order_eq, Ordering.then_eq_eq] using h

theorem start_le_of_order {a b : Span} (h : order a b = .lt) : a.start ≤ b.start := by
  rw [order_eq, Ordering.then_eq_lt] at h
  rcases h with h | ⟨h, -⟩
  · exact Nat.le_of_lt (Nat.compare_eq_lt.1 h)
  · exact Nat.le_of_eq (Nat.compare_eq_eq.1 h)

theorem ne_of_order {a b : Span} (h : order a b = .lt) : a ≠ b := by
  rintro rfl
  exact absurd (h.symm.trans (Std.ReflCmp.compare_self : order a a = .eq)) nofun

end Span

namespace CSharp

theorem spansIn_strict (path : String) (ls : List Location) :
    (spansIn path ls).Pairwise fun a b => Span.order a b = .lt := Ordered.settled_strict _

/-! ## Names of types -/

namespace Enclosure

/-- A qualified name shows its last part. -/
theorem qualify_inj_right {e e' : Enclosure} {name name' : String} (hn : '.' ∉ name.toList) (hn' : '.' ∉ name'.toList)
    (h : e.qualify name = e'.qualify name') : name = name' := by
  have hlist : ∀ (e : Enclosure) (name : String), (e.qualify name).toList = name.toList ∨
      ∃ front, (e.qualify name).toList = front ++ '.' :: name.toList := by
    intro e name
    rw [qualify_eq]
    cases e.container? with
    | none => exact .inl (by simp)
    | some front => exact .inr ⟨front.toList, by simp⟩
  refine String.toList_inj.1 ?_
  rcases hlist e name with hl | ⟨front, hl⟩ <;> rcases hlist e' name' with hl' | ⟨front', hl'⟩ <;> rw [h, hl'] at hl
  · exact hl.symm
  · exact absurd (hl ▸ List.mem_append_right _ List.mem_cons_self) hn
  · exact absurd (hl ▸ List.mem_append_right _ List.mem_cons_self) hn'
  · exact (append_cons_right_cancel hn' hn hl).2.symm

/-- Where there are types around, the container is qualified by the last of them. -/
theorem exists_container {e : Enclosure} {type : String} (h : e.types.getLast? = some type) :
    ∃ e' : Enclosure, e.container? = some (e'.qualify type) := by
  obtain ⟨outer, houter⟩ := List.getLast?_eq_some_iff.1 h
  refine ⟨{ e with types := outer }, ?_⟩
  rw [← container?_append, ← houter]

end Enclosure

/-! ## Compilations whose names are words -/

/-- A character of a name: no blank, no dot, and no mark before a number of type parameters. -/
def isNameChar (c : Char) : Bool := !Text.isBlank c && c != '.' && c != '`'

/-- A parser in whose trees for a snapshot identifiers are made of such characters. -/
def Parser.Worded (read : Parser) (s : Snapshot) : Prop :=
  ∀ d ∈ s.documents, ∀ n ∈ (read d.text).descendants, n.kind = .identifier →
    (n.textIn d.text.toList).toList.all isNameChar = true

namespace Compilation

/-- Constructors are written like the type around them. -/
def SpellsConstructors (c : Compilation) : Prop :=
  ∀ f ∈ c.files, ∀ p ∈ f.sites, ∀ d ∈ p.own f, d.kind = .constructor → ∀ name ∈ p.node.name?,
    f.word name = Symbol.stripArity d.name

structure WellNamed (c : Compilation) : Prop extends c.Spelled where
  members : IdsTellMembers (c.files.flatMap declarations)
  words : ∀ f ∈ c.files, ∀ n ∈ f.root.descendants, n.kind = .identifier → (f.text n).toList.all isNameChar = true
  constructors : c.SpellsConstructors

section
variable {c : Compilation} (h : c.WellNamed) {s u : Symbol} {f : SourceFile} {x : Focus} {l : Location} {p : Site}
  {d : Declared} {n : Node}
include h

theorem WellNamed.text_eq_word (hf : f ∈ c.files) (hn : n ∈ f.root.descendants) (hk : n.kind = .identifier) :
    f.text n = f.word n := by
  have hvisible : ∀ ch ∈ (f.text n).toList, Text.isBlank ch = false := fun ch hch => by
    have := List.all_eq_true.1 (h.words f hf n hn hk) ch hch
    simp only [isNameChar, Bool.and_eq_true, Bool.not_eq_true'] at this
    exact this.1.1
  have htidy : Text.Tidy (f.text n).toList :=
    ⟨fun ch hch => hvisible ch (List.mem_of_head? hch), fun ch hch => hvisible ch (List.mem_of_getLast? hch)⟩
  rw [SourceFile.word, trim, htidy.trim_eq, String.ofList_toList]

theorem WellNamed.plain (hf : f ∈ c.files) (hn : n ∈ f.root.descendants) (hk : n.kind = .identifier) :
    '.' ∉ (f.word n).toList ∧ '`' ∉ (f.word n).toList := by
  have hall := List.all_eq_true.1 (h.words f hf n hn hk)
  rw [← h.text_eq_word hf hn hk]
  refine ⟨fun hmem => ?_, fun hmem => ?_⟩
  · exact absurd (hall _ hmem) (by decide)
  · exact absurd (hall _ hmem) (by decide)

/-- A declaration that is neither that of a namespace nor of a constructor has the name that is written. -/
theorem WellNamed.name_of_naming (hf : f ∈ c.files) (hx : Naming f p d x) (hspace : d.kind ≠ .namespace)
    (hctor : d.kind ≠ .constructor) : f.text x.node = d.name ∧ '`' ∉ d.name.toList := by
  have hmem := Node.node_mem_descendants hx.focus
  have hk := hx.identifier hspace
  have hname : d.name = f.word x.node := by
    rcases hx.source with hs | hs
    · exact (hs.word hspace hctor).1
    · rw [hs.eq]
      rfl
  rw [hname]
  exact ⟨h.text_eq_word hf hmem hk, (h.plain hf hmem hk).2⟩

/-- The name of a type at a site is a word. -/
theorem WellNamed.plain_of_typed {name : String} (hf : f ∈ c.files) (hp : p ∈ f.sites) (ht : p.typed? f = some name) :
    '.' ∉ name.toList ∧ '`' ∉ name.toList := by
  have htree := h.trees f hf
  have hmem := mem_descendants_of_sites htree hp
  obtain ⟨kind, -, hname⟩ := Option.bind_eq_some_iff.1 ht
  obtain ⟨q, hq, rfl⟩ := Option.map_eq_some_iff.1 hname
  obtain ⟨hat, hword, -⟩ := nameOf?_spec hq
  have hdeclares : p.node.kind.declares := by
    rw [Kind.declares, isTypeDeclaration_of_typed ht, Bool.true_or]
  have hk := htree.names p.node hmem (.inl hdeclares) q.1 hat
  have hnamed : q.1.isNamed := by simp [Node.isNamed, hk]
  have hbelow := Node.descendants_trans hmem
    (Node.mem_descendants_of_child (mem_of_child? hat) hnamed (Node.mem_descendants_self q.1))
  exact hword ▸ h.plain hf hbelow hk

/-- The last of the types around a site is one that is declared in the file. -/
theorem WellNamed.exists_typed {type : String} (hf : f ∈ c.files) (hp : p ∈ f.sites)
    (ht : p.around.types.getLast? = some type) :
    ∃ q ∈ f.sites, ∃ name, q.typed? f = some name ∧ type = Symbol.genericName name (arity q.node) := by
  rcases (stand_sites (h.trees f hf).nests).lineage p hp with hnone | ⟨q, hq, name, hname, -, htypes, -⟩
  · rw [hnone] at ht
    cases ht
  · rw [htypes, Site.inType, List.getLast?_concat] at ht
    exact ⟨q, hq, name, hname, (Option.some.inj ht).symm⟩

/-- Each symbol has a declaration that it is named after. -/
theorem WellNamed.exists_declared (hs : s ∈ c.index.symbols) :
    ∃ f ∈ c.files, ∃ p ∈ f.sites, ∃ d ∈ p.own f, NamedAfter d s ∧ ∃ x, Naming f p d x := by
  obtain ⟨d, hd, hafter⟩ := SymbolIndex.namedAfter_build (h.index ▸ hs)
  obtain ⟨f, hf, hdf⟩ := List.mem_flatMap.1 hd
  obtain ⟨p, hp, hown, hx⟩ := exists_naming (h.trees f hf) hdf
  exact ⟨f, hf, p, hp, d, hown, hafter, hx⟩

/-- Where a symbol is declared, an identifier names a declaration that the symbol is named after. -/
theorem WellNamed.declared_after (hs : s ∈ c.index.symbols) (hk : s.kind ≠ .namespace) (hl : l ∈ declaredLocations s) :
    ∃ f x, c.At l f x ∧ ∃ p ∈ f.sites, ∃ d ∈ p.own f, Naming f p d x ∧ NamedAfter d s := by
  obtain ⟨f, x, hx, -⟩ := h.declared_at hs hk hl
  obtain ⟨p, hp, d, hown, hid, -, hnaming⟩ := h.naming_at hx hs hl
  have hmem : d ∈ c.files.flatMap declarations :=
    List.mem_flatMap.2 ⟨f, hx.file, declarations_eq_sites f ▸ List.mem_flatMap.2 ⟨p, hp, hown⟩⟩
  exact ⟨f, x, hx, p, hp, d, hown, hnaming, SymbolIndex.namedAfter_of_id h.members (h.index ▸ hs) hmem hid⟩

theorem WellNamed.stripArity_name (hs : s ∈ c.index.symbols) (hspace : s.kind ≠ .namespace) (hctor : s.kind ≠ .constructor) :
    Symbol.stripArity s.name = s.name := by
  obtain ⟨f, hf, p, -, d, -, hafter, x, hx⟩ := h.exists_declared hs
  obtain ⟨-, hmark⟩ := h.name_of_naming hf hx (hafter.kind ▸ hspace) (hafter.kind ▸ hctor)
  have hstrip := Symbol.stripArity_genericName 0 hmark
  rw [← hafter.name]
  exact hstrip

/-- What refers to a symbol is spelled like it. -/
theorem WellNamed.text_of_refers (hs : s ∈ c.index.symbols) (hspace : s.kind ≠ .namespace) (hctor : s.kind ≠ .constructor)
    (hx : c.At l f x) (hr : c.Refers s f x) : f.text x.node = s.name := by
  rw [h.text_eq_word hx.file (Node.node_mem_descendants hx.focus) hx.identifier]
  by_cases hmethod : s.kind = .method
  · obtain ⟨y, hy, callee, hresolve, hid, -⟩ := (refers_callable (by rw [hmethod]; rfl)).1 hr
    have hnests := Node.nests_of_mem_descendants (h.trees f hx.file).nests
      (Node.node_mem_descendants (List.mem_filter.1 hy).1)
    unfold resolve at hresolve
    split at hresolve
    · obtain ⟨hcallee, -, hname, -⟩ := resolveInvocation_spec hnests hresolve
      exact (SymbolIndex.eq_of_id hcallee hs hid) ▸ hname.symm
    · obtain ⟨_, type, -, -, htype, hwhich⟩ := callee_of_creation hresolve
      have hcallee : callee ∈ c.index.symbols := by
        rcases hwhich with rfl | ⟨hmember, -⟩
        · exact (SymbolIndex.mem_typesNamed.1 htype).1
        · exact (SymbolIndex.mem_membersOf.1 hmember).1
      obtain rfl := SymbolIndex.eq_of_id hcallee hs hid
      exact absurd hmethod (kind_of_creation hresolve)
    · cases hresolve
  · rw [← h.stripArity_name hs hspace hctor]
    unfold Refers at hr
    cases hk : s.kind <;> rw [hk] at hr
    case «namespace» => exact absurd hk hspace
    case method => exact absurd hk hmethod
    case constructor => exact absurd hk hctor
    all_goals exact hr.1

/-- A constructor of a type is written like the type. -/
theorem WellNamed.text_of_constructor (hs : s ∈ c.index.symbols) (hu : c.IsConstructorOf u s)
    (hl : l ∈ declaredLocations u) : ∃ f x, c.At l f x ∧ f.text x.node = s.name := by
  obtain ⟨htype, hctor, hmember⟩ := hu
  obtain ⟨hmem, hcontainer⟩ := SymbolIndex.mem_membersOf.1 hmember
  obtain ⟨f, x, hx, p, hp, d, hown, hnaming, hafter⟩ := h.declared_after hmem (by rw [hctor]; nofun) hl
  have hdk : d.kind = .constructor := hafter.kind.trans hctor
  refine ⟨f, x, hx, ?_⟩
  rw [h.text_eq_word hx.file (Node.node_mem_descendants hx.focus) hx.identifier]
  have hname : f.word x.node = Symbol.stripArity d.name := by
    rcases hnaming.source with hsource | hsource
    · exact h.constructors f hx.file p hp d hown hdk x.node hsource.name
    · rw [hsource.eq] at hdk
      cases hdk
  -- The container of the constructor ends in the type around it, and the type in its own name.
  obtain ⟨⟨_, hmade⟩, hlast⟩ := own_member hown (by rw [hdk]; rfl)
  obtain ⟨q, hq, type, htyped, hgeneric⟩ := h.exists_typed hx.file hp (hlast hdk)
  obtain ⟨e, hcontained⟩ := Enclosure.exists_container (hlast hdk)
  have hdc : d.container = p.around.container? := by rw [hmade]; rfl
  have hqualified : s.qualname = e.qualify d.name := by
    refine Option.some.inj ?_
    rw [← hcontainer, ← hafter.container, hdc, hcontained]
  obtain ⟨f', hf', p', hp', d', hown', hafter', -⟩ := h.exists_declared hs
  obtain ⟨name, hname'⟩ := typed_of_own hown' (hafter'.kind ▸ htype)
  obtain ⟨kind, at_, -, hone⟩ := own_of_typed hname'
  obtain rfl := List.mem_singleton.1 (hone ▸ hown')
  have hplain := h.plain_of_typed hf' hp' hname'
  have hplain' := h.plain_of_typed hx.file hq htyped
  have hsame : d.name = Symbol.genericName name (arity p'.node) := by
    refine Enclosure.qualify_inj_right ?_ (Symbol.not_mem_genericName (by decide) (by decide) hplain.1)
      (hqualified.symm.trans hafter'.qualname.symm)
    rw [hgeneric]
    exact Symbol.not_mem_genericName (by decide) (by decide) hplain'.1
  rw [hname, hsame, Symbol.stripArity_genericName _ hplain.2]
  exact hafter'.name

/-- A rename of a type, method, property or field writes to identifiers that are spelled like it. -/
theorem WellNamed.spelled_at (hs : s ∈ c.index.symbols) (hspace : s.kind ≠ .namespace) (hctor : s.kind ≠ .constructor)
    (hl : l ∈ c.nameLocations c.calls s) : ∃ f x, c.At l f x ∧ f.text x.node = s.name := by
  rcases mem_nameLocations.1 hl with hl | ⟨u, rfl | hu, hlu⟩
  · obtain ⟨f, x, hx, -, hrefers⟩ := (mem_references hspace).1 hl
    exact ⟨f, x, hx, h.text_of_refers hs hspace hctor hx hrefers⟩
  · obtain ⟨f, x, hx, p, -, d, -, hnaming, hafter⟩ := h.declared_after hs hspace hlu
    refine ⟨f, x, hx, ?_⟩
    rw [← hafter.name]
    exact (h.name_of_naming hx.file hnaming (hafter.kind ▸ hspace) (hafter.kind ▸ hctor)).1
  · exact h.text_of_constructor hs hu hlu

end

end Compilation

/-! ## Edits of a rename -/

/-- A span is that of one identifier with the given text, and no other one overlaps it. -/
structure Hits (f : SourceFile) (span : Span) (name : String) (x : Focus) : Prop where
  focus : x ∈ f.root.foci
  identifier : x.node.kind = .identifier
  span : x.node.span = span
  text : f.text x.node = name
  only : ∀ y ∈ f.root.foci, y.node.kind = .identifier → ¬y.node.apart x.node → y = x

/-- An edit begins before another one, and ends before it or where it begins. -/
def Precedes (a b : Edit) : Prop := a.span.start < b.span.start ∧ a.span.stop ≤ b.span.start

/-- A file in which each edit hits the name, one behind the other. -/
structure HitBy (f : SourceFile) (name newName : String) (es : List Edit) : Prop where
  hits : ∀ te ∈ es, te.newText = newName ∧ ∃ x, Hits f te.span name x
  ordered : es.Pairwise Precedes

/-- Edits of a snapshot that write a new name over identifiers, and the snapshot with the edits made. -/
structure Replaces (c : Compilation) (s : Snapshot) (name newName : String) (edits : List DocumentEdit) (next : Snapshot) :
    Prop where
  once : (edits.map (·.path)).Nodup
  files : ∀ e ∈ edits, ∃ f ∈ c.files, f.path = e.path ∧ HitBy f name newName e.edits
  texts : ∀ e ∈ edits, ∃ old new, s.text? e.path = some old ∧ next.text? e.path = some new ∧
    Edit.Made 0 old.toList e.edits new.toList
  others : ∀ p ∉ edits.map (·.path), next.text? p = s.text? p

section
variable {f : SourceFile} {name newName : String} {es : List Edit} {te : Edit} {a b : Span} {x y : Focus}

theorem Hits.precedes (htree : f.root.Spelled) (hx : Hits f a name x) (hy : Hits f b name y) (h : a.order b = .lt) :
    a.start < b.start ∧ a.stop ≤ b.start := by
  have hne : x ≠ y := by
    rintro rfl
    exact Span.ne_of_order h (hx.span.symm.trans hy.span)
  have hapart : x.node.apart y.node := by
    by_contra hmeet
    exact hne (hy.only x hx.focus hx.identifier hmeet)
  have hxmem := Node.node_mem_descendants hx.focus
  have hxlt := (htree.leaves _ hxmem hx.identifier).2
  have hylt := (htree.leaves _ (Node.node_mem_descendants hy.focus) hy.identifier).2
  have hstart := Span.start_le_of_order h
  rw [← hx.span, ← hy.span, Node.start_span, Node.start_span] at *
  rw [Node.stop_span_of_nests (Node.nests_of_mem_descendants htree.nests hxmem)]
  simp only [Node.apart, Bool.or_eq_true, decide_eq_true_eq] at hapart
  omega

theorem HitBy.takes {s : Snapshot} {path text : String} (h : HitBy f name newName es) (hfits : f.root.fits f.chars = true)
    (htext : s.text? path = some text) (hchars : f.chars = text.toList) : s.Takes path es := by
  refine .inr ⟨text, htext, fun te hte => ?_, h.ordered.imp fun hab => .inl hab.2⟩
  obtain ⟨-, x, hx⟩ := h.hits te hte
  rw [← hx.span, ← hchars]
  exact Node.fits_span (Node.fits_of_mem_descendants hfits (Node.node_mem_descendants hx.focus))

/-- Edits that follow one another are made in the order in which they stand. -/
theorem HitBy.made {old new : String} (h : HitBy f name newName es) (hnew : Edit.applyAll old es = .ok new) :
    Edit.Made 0 old.toList es new.toList := by
  have hmade := Edit.applyChars_eq_ok_iff.1 (Edit.applyAll_eq_ok_iff.1 hnew)
  rwa [List.mergeSort_of_pairwise (h.ordered.imp fun hab => Edit.before_iff.2 (.inl hab.1))] at hmade

end

namespace Compilation

section
variable {c : Compilation} (h : c.WellNamed) {s : Symbol} {newName : String} {l : Location} {e : DocumentEdit}
include h

theorem WellNamed.exists_hit (hs : s ∈ c.index.symbols) (hspace : s.kind ≠ .namespace) (hctor : s.kind ≠ .constructor)
    (hl : l ∈ c.nameLocations c.calls s) : ∃ f ∈ c.files, f.path = l.path ∧ ∃ x, Hits f l.span s.name x := by
  obtain ⟨f, x, hx, htext⟩ := h.spelled_at hs hspace hctor hl
  have htree := h.trees f hx.file
  have hleaf : ∀ {y : Focus}, y ∈ f.root.foci → y.node.kind = .identifier → y.node.children = [] := fun hy hk =>
    (htree.leaves _ (Node.node_mem_descendants hy) hk).1
  refine ⟨f, hx.file, by rw [hx.place]; rfl, x, hx.focus, hx.identifier, by rw [hx.place]; rfl, htext, ?_⟩
  intro y hy hk hmeet
  exact Node.eq_of_leaves htree.nests hy hx.focus (hleaf hy hk) (hleaf hx.focus hx.identifier) hmeet

/-- The edits of each document hit the name of the symbol. -/
theorem WellNamed.hitBy (hs : s ∈ c.index.symbols) (hspace : s.kind ≠ .namespace) (hctor : s.kind ≠ .constructor)
    (he : e ∈ renameEdits (c.nameLocations c.calls s) newName) :
    ∃ f ∈ c.files, f.path = e.path ∧ HitBy f s.name newName e.edits := by
  obtain ⟨path, hpath, rfl⟩ := List.mem_map.1 he
  obtain ⟨l, hl, rfl⟩ := List.mem_map.1 (Ordered.mem_ofList.1 hpath)
  obtain ⟨f, hf, hfpath, -⟩ := h.exists_hit hs hspace hctor hl
  have hhit : ∀ span ∈ spansIn l.path (c.nameLocations c.calls s), ∃ x, Hits f span s.name x := by
    intro span hspan
    obtain ⟨l', hl', hpath', rfl⟩ := mem_spansIn.1 hspan
    obtain ⟨f', hf', hfpath', hx⟩ := h.exists_hit hs hspace hctor hl'
    obtain rfl := h.paths f hf f' hf' (by rw [hfpath, hfpath', hpath'])
    exact hx
  refine ⟨f, hf, hfpath, fun te hte => ?_, List.pairwise_map.2 ((spansIn_strict _ _).imp_of_mem fun ha hb hab => ?_)⟩
  · obtain ⟨span, hspan, rfl⟩ := List.mem_map.1 hte
    exact ⟨rfl, hhit span hspan⟩
  · obtain ⟨x, hx⟩ := hhit _ ha
    obtain ⟨y, hy⟩ := hhit _ hb
    exact hx.precedes (h.trees f hf) hy hab

omit h in
theorem edits_ne_nil {ls : List Location} (he : e ∈ renameEdits ls newName) : e.edits ≠ [] := by
  obtain ⟨path, hpath, rfl⟩ := List.mem_map.1 he
  obtain ⟨l, hl, rfl⟩ := List.mem_map.1 (Ordered.mem_ofList.1 hpath)
  exact List.ne_nil_of_mem (List.mem_map_of_mem (mem_spansIn.2 ⟨l, hl, rfl, rfl⟩))

omit h in
theorem nodup_paths (ls : List Location) (newName : String) : ((renameEdits ls newName).map (·.path)).Nodup := by
  rw [renameEdits, List.map_map]
  simpa [Function.comp_def] using (Ordered.ofList_ascending (ls.map (·.path))).nodup

end

theorem wellNamed_ofSnapshot {read : Parser} {s : Snapshot} (h : read.Spelled s) (hw : read.Worded s)
    (hids : IdsTellMembers ((ofSnapshot read s).files.flatMap declarations)) (hc : (ofSnapshot read s).SpellsConstructors) :
    (ofSnapshot read s).WellNamed where
  toSpelled := spelled_ofSnapshot h fun d hd d' hd' hid => (hids d hd d' hd' hid).1
  members := hids
  words f hf := by
    obtain ⟨d, hd, rfl⟩ := List.mem_map.1 hf
    exact hw d hd
  constructors := hc

/-- A file of a snapshot has the text of a document. -/
theorem exists_text {read : Parser} {s : Snapshot} {f : SourceFile} (hf : f ∈ (ofSnapshot read s).files) :
    ∃ text, s.text? f.path = some text ∧ f = .ofText read f.path text := by
  obtain ⟨d, hd, rfl⟩ := List.mem_map.1 hf
  refine ⟨d.text, ?_, rfl⟩
  have hdoc : s.document? d.path = some d := Ordered.find?_of_mem s.documents_ascending hd
  exact congrArg (Option.map (·.text)) hdoc

end Compilation

theorem exists_refusal {s : Symbol} {newName : String}
    (h : Text.isIdentifier newName.toList = false ∨ s.kind = .namespace ∨ s.kind = .constructor) :
    ∃ why, checkRename s newName = .error why := by
  unfold checkRename
  cases hname : Text.isIdentifier newName.toList with
  | false => exact ⟨_, rfl⟩
  | true =>
    rcases h with h | h | h
    · exact absurd (hname.symm.trans h) nofun
    · rw [h]
      exact ⟨_, rfl⟩
    · rw [h]
      exact ⟨_, rfl⟩

/-- A type with a constructor that creates another one. -/
def created : Snapshot := .addDocument .empty "App" "a.cs" "class A \x7b A() \x7b new A(); \x7d \x7d" none

end CSharp

end Workbench
