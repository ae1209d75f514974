import Workbench.CSharp.Tree
import Workbench.Proofs.Merging
import Workbench.Proofs.Needing
import Workbench.Proofs.Renaming

/-!
# What reported directives are not needed for

A using directive is reported when an earlier one of its container imports the
same, or when no identifier asks for what it imports. Identifiers in using
directives and in names of namespaces do not count, and a namespace is asked
for by the names of the types in it only.
-/

namespace Workbench.CSharp

variable {f : SourceFile} {base : String}

/-! ## Identifiers that count -/

namespace Node

/-- What a walk has around a node ends in what the walk started with. -/
theorem suffix_of_mem_walk {n : Node} {x : Focus} {around : List Node} (hx : x ∈ n.walk (fun _ => true) around) :
    (n :: around) <:+ (x.node :: x.around) := by
  induction n using childInduction generalizing around with
  | step n ih =>
    rcases mem_walk.1 hx with rfl | ⟨c, hc, -, hx⟩
    · exact List.suffix_rfl
    · exact (List.suffix_cons c _).trans (ih c hc hx)

end Node

/-- The namespace that the declarations around a node put it into. The nearest comes first. -/
def namespaceIn (f : SourceFile) (base : String) : List Node → String
  | [] => base
  | n :: around =>
    if n.kind = .namespaceDeclaration then n.inner f (namespaceIn f base around) else namespaceIn f base around

/-- Where a node stands; a namespace without a body holds the whole file. -/
def namespaceAt (f : SourceFile) (y : Focus) : String := namespaceIn f (fileNamespace f) y.around

/-- Where a word is spelled as an identifier. -/
def SourceFile.spelled (f : SourceFile) (word : String) : List Focus :=
  (f.root.fociOf [.identifier]).filter fun y => f.text y.node == word

theorem mem_spelled {word : String} {y : Focus} :
    y ∈ f.spelled word ↔ y ∈ f.root.foci ∧ y.node.kind = .identifier ∧ f.text y.node = word := by
  rw [SourceFile.spelled, List.mem_filter, beq_iff_eq, Node.fociOf, List.mem_filter, and_assoc]
  simp

/-- An identifier that stands in no directive and is no part of the name of a namespace. -/
structure Focus.Counts (y : Focus) : Prop where
  identifier : y.node.kind = .identifier
  around : ∀ n ∈ y.around, n.kind ≠ .usingDirective ∧ n.kind ≠ .identifier
  unnamed : ∀ m p, [m, p] <:+: y.node :: y.around →
    p.kind = .namespaceDeclaration ∨ p.kind = .fileScopedNamespaceDeclaration → m.role ≠ .name

namespace Node

/-- An identifier that counts is found below each node around it, in the namespace that it stands in. -/
theorem mem_occurrences {n : Node} {around : List Node} {y : Focus} (hy : y ∈ n.walk (fun _ => true) around)
    (h : y.Counts) : ⟨f.text y.node, namespaceIn f base y.around⟩ ∈ n.occurrences f (namespaceIn f base around) := by
  induction n using childInduction generalizing around with
  | step n ih =>
    rw [occurrences_eq]
    rcases mem_walk.1 hy with rfl | ⟨c, hc, hnamed, hy⟩
    · simp [h.identifier]
    have hsuffix := suffix_of_mem_walk hy
    have hmem : n ∈ y.around := by
      rcases List.suffix_cons_iff.1 hsuffix with he | hs
      · exact (List.cons.inj he).2 ▸ List.mem_cons_self
      · exact hs.subset (by simp)
    obtain ⟨husing, hident⟩ := h.around n hmem
    have hname : n.kind = .namespaceDeclaration ∨ n.kind = .fileScopedNamespaceDeclaration → c.role ≠ .name := by
      obtain ⟨front, hfront⟩ := hsuffix
      exact h.unnamed c n ⟨front, around, by simpa using hfront⟩
    have hbelow := ih c hc hy
    rw [namespaceIn] at hbelow
    rw [if_neg husing, if_neg hident]
    split
    · rename_i hquery
      rw [if_neg (by simp [hquery])] at hbelow
      exact List.mem_cons_of_mem _ (occurrencesIn_eq f _ _ ▸ List.mem_flatMap.2 ⟨c, hc, hbelow⟩)
    split
    · rename_i hns
      rw [if_pos hns] at hbelow
      rw [occurrencesInside_eq]
      exact List.mem_flatMap.2 ⟨c, hc, by simpa [hname (.inl hns)] using hbelow⟩
    rename_i hns
    rw [if_neg hns] at hbelow
    split
    · rename_i hfile
      rw [occurrencesInside_eq]
      exact List.mem_flatMap.2 ⟨c, hc, by simpa [hname (.inr hfile)] using hbelow⟩
    · exact occurrencesIn_eq f _ _ ▸ List.mem_flatMap.2 ⟨c, hc, hbelow⟩

end Node

theorem mem_fileOccurrences {y : Focus} (hy : y ∈ f.root.foci) (h : y.Counts) :
    ⟨f.text y.node, namespaceAt f y⟩ ∈ fileOccurrences f := by
  have hmem := @Node.mem_occurrences f (fileNamespace f) f.root [] y hy h
  rwa [namespaceIn] at hmem

/-! ## Directives that are reported -/

namespace Using

variable {c : Compilation} {occs : List Occurrence} {before ps : List Placed} {u v : Using}

theorem sameImport_iff : u.sameImport v = true ↔ u.key = v.key := by
  simp only [sameImport, key, Bool.and_eq_true, beq_iff_eq, Prod.mk.injEq, and_assoc]

/-- A directive can go when one before it imports the same or when it is not needed. -/
theorem cases_of_mem_unneededFrom (h : u ∈ unneededFrom c occs before ps) : ∃ p ∈ ps, p.directive = u ∧
    ((∃ q ∈ before, repeats q p = true) ∨ (∃ q, [q, p].Sublist ps ∧ repeats q p = true) ∨
      isNeeded c occs u = false) := by
  induction ps generalizing before with
  | nil => cases h
  | cons p rest ih =>
    rw [unneededFrom] at h
    rcases List.mem_append.1 h with h | h
    · obtain ⟨hgo, rfl⟩ : (isRepeated before p || !isNeeded c occs p.directive) = true ∧ u = p.directive := by
        simpa using h
      refine ⟨p, List.mem_cons_self, rfl, ?_⟩
      rcases Bool.or_eq_true_iff.1 hgo with hrepeated | hneeded
      · exact .inl (List.any_eq_true.1 hrepeated)
      · exact .inr (.inr (by simpa using hneeded))
    · obtain ⟨p', hp', hu, hwhy⟩ := ih h
      refine ⟨p', List.mem_cons_of_mem p hp', hu, ?_⟩
      rcases hwhy with ⟨q, hq, hrepeats⟩ | ⟨q, hq, hrepeats⟩ | hneeded
      · rcases List.mem_cons.1 hq with rfl | hq
        · exact .inr (.inl ⟨q, .cons_cons _ (List.singleton_sublist.2 hp'), hrepeats⟩)
        · exact .inl ⟨q, hq, hrepeats⟩
      · exact .inr (.inl ⟨q, .cons _ hq, hrepeats⟩)
      · exact .inr (.inr hneeded)

/-- An earlier directive of the container of `x` imports the same. -/
def Repeated (f : SourceFile) (x : Focus) : Prop := ∃ x', [x', x].Sublist (f.root.fociOf [.usingDirective]) ∧
  sameContainer x'.parent? x.parent? = true ∧ (ofNode f x'.node).key = (ofNode f x.node).key

/-- Nothing that counts is spelled like the short name, or outside the imported namespace like a type in it. -/
structure Idle (c : Compilation) (f : SourceFile) (u : Using) : Prop where
  shortName : ∀ a, u.shortName = some a → ∀ y ∈ f.spelled a, ¬y.Counts
  types : u.shortName = none → u.isStatic = false → c.declaresNamespace u.name = true →
    ∀ t ∈ c.index.symbols, t.kind.isType = true → t.container = some u.name →
      ∀ y ∈ f.spelled t.name, y.Counts → Compilation.isWithin (namespaceAt f y) u.name = true

theorem idle_of_not_needed (h : isNeeded c (fileOccurrences f) u = false) : Idle c f u where
  shortName a ha y hy hcounts := by
    obtain ⟨hfocus, -, htext⟩ := mem_spelled.1 hy
    have hmem : a ∈ (fileOccurrences f).map (·.name) := List.mem_map.2 ⟨_, mem_fileOccurrences hfocus hcounts, htext⟩
    rw [isNeeded, ha] at h
    simp [hmem] at h
  types hshort hstatic hdeclares t ht htype hcontainer y hy hcounts := by
    obtain ⟨hfocus, -, htext⟩ := mem_spelled.1 hy
    simp only [isNeeded, hshort, hstatic, hdeclares, if_true, Bool.false_eq_true, if_false] at h
    have hout := List.any_eq_false.1 h _ (mem_fileOccurrences hfocus hcounts)
    have hnamed : ((c.index.membersOf u.name).filter (·.kind.isType)).any (·.name == f.text y.node) = true :=
      List.any_eq_true.2 ⟨t, List.mem_filter.2 ⟨SymbolIndex.mem_membersOf.2 ⟨ht, hcontainer⟩, htype⟩, by simp [htext]⟩
    simpa [hnamed] using hout

/-- A directive that can go is repeated or idle. -/
theorem repeated_or_idle (h : u ∈ unneeded c f) : ∃ x ∈ f.root.fociOf [.usingDirective], u = ofNode f x.node ∧
    (Repeated f x ∨ Idle c f u) := by
  rw [unneeded_eq] at h
  obtain ⟨p, hp, rfl, hwhy⟩ := cases_of_mem_unneededFrom h
  rcases hwhy with ⟨q, hq, -⟩ | ⟨q, hq, hrepeats⟩ | hneeded
  · cases hq
  · obtain ⟨foci, hfoci, he⟩ := List.sublist_map_iff.1 (hq.trans List.filter_sublist)
    obtain ⟨x', rest, rfl, rfl, hrest⟩ := List.map_eq_cons_iff.1 he.symm
    obtain ⟨x, rest, rfl, rfl, hnil⟩ := List.map_eq_cons_iff.1 hrest
    obtain rfl := List.map_eq_nil_iff.1 hnil
    obtain ⟨hsame, himport⟩ := Bool.and_eq_true_iff.1 hrepeats
    exact ⟨x, hfoci.subset (by simp), rfl, .inl ⟨x', hfoci, hsame, sameImport_iff.1 himport⟩⟩
  · obtain ⟨x, hx, hk, rfl, -⟩ := exists_of_mem_placed hp
    exact ⟨x, List.mem_filter.2 ⟨hx, by simp [hk]⟩, rfl, .inr (idle_of_not_needed hneeded)⟩

/-- What a diagnostic about a directive reports can go. -/
theorem exists_unneeded {d : Diagnostic} (h : d ∈ diagnostics c f) (hid : d.id = unneededUsingId) :
    ∃ u ∈ unneeded c f, d = usingDiagnostic f u := by
  rw [diagnostics, List.mem_mergeSort] at h
  simp only [List.mem_append, List.mem_map] at h
  rcases h with ((⟨l, hl, rfl⟩ | ⟨u, hu, rfl⟩) | ⟨s, -, rfl⟩) | ⟨n, -, rfl⟩
  · obtain ⟨x, name, hsource⟩ := UnusedLocal.source_of_mem hl
    have hlocal : l.diagnosticId = unneededUsingId := hid
    rcases UnusedLocal.id_of_idFor? hsource.id with he | he
    · exact absurd (he.symm.trans hlocal) (by decide)
    · exact absurd (he.symm.trans hlocal) (by decide)
  · exact ⟨u, hu, rfl⟩
  · exact absurd (show modifierOrderId = unneededUsingId from hid) (by decide)
  · exact absurd (show readonlyFieldId = unneededUsingId from hid) (by decide)

/-- A reported directive repeats an earlier one of its container, or what it imports is not asked for. -/
theorem reported_repeated_or_idle {d : Diagnostic} (h : d ∈ diagnostics c f) (hid : d.id = unneededUsingId) :
    ∃ x ∈ f.root.fociOf [.usingDirective], d = usingDiagnostic f (ofNode f x.node) ∧
      (Repeated f x ∨ Idle c f (ofNode f x.node)) := by
  obtain ⟨u, hu, rfl⟩ := exists_unneeded h hid
  obtain ⟨x, hx, rfl, hwhy⟩ := repeated_or_idle hu
  exact ⟨x, hx, rfl, hwhy⟩

/-! ## Files with reported directives -/

theorem reported_of_not_needed {x : Focus} (hx : x ∈ f.root.fociOf [.usingDirective])
    (hglobal : (ofNode f x.node).isGlobal = false) (h : isNeeded c (fileOccurrences f) (ofNode f x.node) = false) :
    usingDiagnostic f (ofNode f x.node) ∈ diagnostics c f := by
  obtain ⟨hfocus, hk⟩ := List.mem_filter.1 hx
  have hplaced := mem_placed hfocus (by simpa using hk) hglobal
  have hgo : ofNode f x.node ∈ unneeded c f := mem_unneededFrom_of_not_needed hplaced h
  rw [diagnostics, List.mem_mergeSort]
  simp only [List.mem_append, List.mem_map]
  exact .inl (.inl (.inr ⟨_, hgo, rfl⟩))

theorem not_needed_of_shortName {a : String} (ha : u.shortName = some a) (h : ∀ o ∈ occs, o.name ≠ a) :
    isNeeded c occs u = false := by
  rw [isNeeded, ha, ← Bool.not_eq_true]
  intro hneeded
  obtain ⟨o, ho, hname⟩ := List.mem_map.1 (List.contains_iff_mem.1 hneeded)
  exact h o ho hname

theorem declaresNamespace_of_head {files : List SourceFile} {name : String}
    (h : ((declarations f).head?.any fun d => d.kind == .namespace && Compilation.isWithin d.qualname name) = true) :
    (Compilation.ofFiles (f :: files)).declaresNamespace name = true := by
  rw [Compilation.declaresNamespace, Compilation.ofFiles, List.flatMap_cons]
  cases hds : declarations f with
  | nil =>
    rw [hds] at h
    cases h
  | cons d ds =>
    rw [hds] at h
    obtain ⟨s, hs, hafter⟩ := SymbolIndex.exists_namedAfter_head d (ds ++ files.flatMap declarations)
    exact List.any_eq_true.2 ⟨s, hs, by rw [← hafter.kind, ← hafter.qualname]; exact h⟩

/-- A namespace is not needed where the names of its types are spelled inside it only. -/
theorem not_needed_of_declarations {files : List SourceFile} (hplain : u.shortName = none ∧ u.isStatic = false)
    (hdeclares : (Compilation.ofFiles files).declaresNamespace u.name = true)
    (hinside : ∀ o ∈ occs, ∀ d ∈ files.flatMap declarations, d.kind.isType = true → d.container = some u.name →
      d.name = o.name → Compilation.isWithin o.namespace u.name = true) :
    isNeeded (.ofFiles files) occs u = false := by
  simp only [isNeeded, hplain.1, hplain.2, hdeclares, if_true, Bool.false_eq_true, if_false]
  refine List.any_eq_false.2 fun o ho hneeds => ?_
  obtain ⟨hnamed, hout⟩ := Bool.and_eq_true_iff.1 hneeds
  obtain ⟨t, ht, hname⟩ := List.any_eq_true.1 hnamed
  obtain ⟨hmember, htype⟩ := List.mem_filter.1 ht
  obtain ⟨hsymbol, hcontainer⟩ := SymbolIndex.mem_membersOf.1 hmember
  obtain ⟨d, hd, hafter⟩ := SymbolIndex.namedAfter_build hsymbol
  have hin := hinside o ho d hd (hafter.kind ▸ htype) (hafter.container.trans hcontainer) (hafter.name.trans (beq_iff_eq.1 hname))
  simp [hin] at hout

/-- Where all directives differ in what they import, none is repeated. -/
theorem not_repeated (h : ((f.root.fociOf [.usingDirective]).map fun x => (ofNode f x.node).key).Nodup) (x : Focus) :
    ¬Repeated f x := by
  rintro ⟨x', hsub, -, hkey⟩
  exact List.pairwise_iff_forall_sublist.1 (List.pairwise_map.1 h) hsub hkey

/-- A file that imports the namespace that it is in. -/
def enclosed : SourceFile := .ofText parse "a.cs" "using Lib; namespace Lib \x7b class X \x7b X y; \x7d \x7d"

theorem reported_enclosed : ∃ d ∈ diagnostics (.ofFiles [enclosed]) enclosed, d.id = unneededUsingId ∧
    ∃ x ∈ enclosed.root.fociOf [.usingDirective], d = usingDiagnostic enclosed (ofNode enclosed x.node) ∧
      (Repeated enclosed x ∨ Idle (.ofFiles [enclosed]) enclosed (ofNode enclosed x.node)) := by
  have himports : ∃ x ∈ enclosed.root.fociOf [.usingDirective], (ofNode enclosed x.node).isGlobal = false ∧
      ((ofNode enclosed x.node).shortName = none ∧ (ofNode enclosed x.node).isStatic = false) ∧
      (ofNode enclosed x.node).name = "Lib" := by
    decide +kernel
  have hdeclares : ((declarations enclosed).head?.any fun d =>
      d.kind == .namespace && Compilation.isWithin d.qualname "Lib") = true := by
    decide +kernel
  have hinside : ∀ o ∈ fileOccurrences enclosed, ∀ d ∈ [enclosed].flatMap declarations, d.kind.isType = true →
      d.container = some "Lib" → d.name = o.name → Compilation.isWithin o.namespace "Lib" = true := by
    decide +kernel
  obtain ⟨x, hx, hglobal, hplain, hname⟩ := himports
  have hreported := reported_of_not_needed hx hglobal
    (not_needed_of_declarations hplain (hname ▸ declaresNamespace_of_head hdeclares) (hname ▸ hinside))
  exact ⟨_, hreported, rfl, reported_repeated_or_idle hreported rfl⟩

/-- A method of a type that is called on its first argument. -/
structure Extends (f : SourceFile) (t m : Declared) : Prop where
  kind : m.kind = .method
  container : m.container = some t.qualname
  declared : ∃ n ∈ f.root.descendants, n.span = m.extent ∧ f.hasModifier n "static" = true ∧
    ((parameters n).head?.any (f.hasModifier · "this")) = true

/-- A namespace with an extension method. -/
def extending : SourceFile := .ofText parse "Lib.cs"
  "namespace Lib \x7b static class Ext \x7b public static string Twice(this string s) => s + s; \x7d \x7d"

/-- A file that asks for its imports where that does not count: for `Lib` by the call of an extension method and in another
directive, for `L` in that directive too, and for `P` in the name of a namespace. -/
def importing : SourceFile := .ofText parse "Use.cs" <|
  "using Lib;\nusing L = Lib;\nusing P = Lib;\n" ++
    "namespace N.P \x7b using E = L.Ext; class A \x7b public string B = E.Twice(\"\").Twice(); \x7d \x7d"

/-- None of the three directives at the top repeats another, and all are reported. -/
theorem reported_though_asked_for :
    let c := Compilation.ofFiles [extending, importing]
    let reports := fun u => usingDiagnostic importing u ∈ diagnostics c importing
    (∀ x, ¬Repeated importing x) ∧
    (∃ x ∈ importing.root.fociOf [.usingDirective], reports (ofNode importing x.node) ∧
      ∃ a, (ofNode importing x.node).shortName = some a ∧
        ∃ y ∈ importing.spelled a, ∃ d ∈ y.around, d.kind = .usingDirective ∧ d.start ≠ x.node.start) ∧
    (∃ x ∈ importing.root.fociOf [.usingDirective], reports (ofNode importing x.node) ∧
      ∃ a, (ofNode importing x.node).shortName = some a ∧
        ∃ y ∈ importing.spelled a, ∀ d ∈ y.around, d.kind ≠ .usingDirective) ∧
    ∃ x ∈ importing.root.fociOf [.usingDirective], reports (ofNode importing x.node) ∧
      ((ofNode importing x.node).shortName = none ∧ (ofNode importing x.node).isStatic = false) ∧
      c.declaresNamespace (ofNode importing x.node).name = true ∧
      ∃ t ∈ declarations extending, t.kind.isType = true ∧ t.container = some (ofNode importing x.node).name ∧
        (∃ y ∈ importing.spelled t.name,
          Compilation.isWithin (namespaceAt importing y) (ofNode importing x.node).name = false) ∧
        ∃ m ∈ declarations extending, Extends extending t m ∧ ∃ y ∈ importing.spelled m.name,
          (∀ d ∈ y.around, d.kind ≠ .usingDirective) ∧
            Compilation.isWithin (namespaceAt importing y) (ofNode importing x.node).name = false := by
  intro c reports
  have huse : ((importing.root.fociOf [.usingDirective]).map fun x => (ofNode importing x.node).key).Nodup ∧
      (∀ o ∈ fileOccurrences importing, o.name ≠ "L" ∧ o.name ≠ "P" ∧ o.name ≠ "Ext") ∧
      (∃ x ∈ importing.root.fociOf [.usingDirective], (ofNode importing x.node).isGlobal = false ∧
        (ofNode importing x.node).shortName = some "L" ∧
        ∃ y ∈ importing.spelled "L", ∃ d ∈ y.around, d.kind = .usingDirective ∧ d.start ≠ x.node.start) ∧
      (∃ x ∈ importing.root.fociOf [.usingDirective], (ofNode importing x.node).isGlobal = false ∧
        (ofNode importing x.node).shortName = some "P" ∧
        ∃ y ∈ importing.spelled "P", ∀ d ∈ y.around, d.kind ≠ .usingDirective) ∧
      (∃ x ∈ importing.root.fociOf [.usingDirective], (ofNode importing x.node).isGlobal = false ∧
        ((ofNode importing x.node).shortName = none ∧ (ofNode importing x.node).isStatic = false) ∧
        (ofNode importing x.node).name = "Lib") ∧
      (∃ y ∈ importing.spelled "Ext", Compilation.isWithin (namespaceAt importing y) "Lib" = false) ∧
      (∃ y ∈ importing.spelled "Twice", (∀ d ∈ y.around, d.kind ≠ .usingDirective) ∧
        Compilation.isWithin (namespaceAt importing y) "Lib" = false) ∧
      ∀ d ∈ declarations importing, d.container ≠ some "Lib" := by
    decide +kernel
  have hlib : ((declarations extending).head?.any fun d =>
        d.kind == .namespace && Compilation.isWithin d.qualname "Lib") = true ∧
      (∀ d ∈ declarations extending, d.kind.isType = true → d.name = "Ext") ∧
      ∃ t ∈ declarations extending, t.kind.isType = true ∧ t.container = some "Lib" ∧ t.name = "Ext" ∧
        ∃ m ∈ declarations extending, m.kind = .method ∧ m.container = some t.qualname ∧ m.name = "Twice" ∧
          ∃ n ∈ extending.root.descendants, n.span = m.extent ∧ extending.hasModifier n "static" = true ∧
            ((parameters n).head?.any (extending.hasModifier · "this")) = true := by
    decide +kernel
  obtain ⟨hkeys, hnames, ⟨x, hx, hglobal, hl, hother⟩, ⟨w, hw, hwglobal, hp, hname⟩, ⟨z, hz, hzglobal, hplain, himport⟩,
    htype, hcall, hforeign⟩ := huse
  obtain ⟨hhead, htypes, t, ht, htk, htcontainer, htname, m, hm, hmk, hmcontainer, hmname, hdeclared⟩ := hlib
  have hreportl : reports (ofNode importing x.node) :=
    reported_of_not_needed hx hglobal (not_needed_of_shortName hl fun o ho => (hnames o ho).1)
  have hreportp : reports (ofNode importing w.node) :=
    reported_of_not_needed hw hwglobal (not_needed_of_shortName hp fun o ho => (hnames o ho).2.1)
  have hdeclares : c.declaresNamespace "Lib" = true := declaresNamespace_of_head hhead
  have hneedless : isNeeded c (fileOccurrences importing) (ofNode importing z.node) = false := by
    refine not_needed_of_declarations hplain (himport ▸ hdeclares) fun o ho d hd hk hcontainer he => ?_
    rw [himport] at hcontainer
    simp only [List.flatMap_cons, List.flatMap_nil, List.append_nil] at hd
    rcases List.mem_append.1 hd with hd | hd
    · exact absurd (he.symm.trans (htypes d hd hk)) (hnames o ho).2.2
    · exact absurd hcontainer (hforeign d hd)
  refine ⟨not_repeated hkeys, ⟨x, hx, hreportl, _, hl, hother⟩, ⟨w, hw, hreportp, _, hp, hname⟩, z, hz,
    reported_of_not_needed hz hzglobal hneedless, hplain, ?_⟩
  rw [himport]
  exact ⟨hdeclares, t, ht, htk, htcontainer, htname ▸ htype, m, hm, ⟨hmk, hmcontainer, hdeclared⟩, hmname ▸ hcall⟩

end Using

end Workbench.CSharp
