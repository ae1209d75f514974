import Mathlib.Data.List.TakeDrop
import Workbench.Action.Policy
import Workbench.CSharp.Model
import Workbench.Proofs.Placement

/-!
# What C# offers

Over a file whose tree fits its text, each diagnostic is placed between
characters, each change is one edit between characters, and removals remove
something. What a provider offers depends on the span and the id alone.
-/

namespace Workbench

theorem Span.intersects_of_contains {s t : Span} (hstart : s.start ≤ t.start) (hstop : t.stop ≤ s.stop) :
    s.intersects t = true := by
  have ht : t.stop = t.start + t.length := rfl
  unfold Span.intersects Span.isEmpty
  split
  · simp only [Bool.and_eq_true, decide_eq_true_eq]
    omega
  · rename_i h
    simp only [Bool.or_eq_true, beq_iff_eq, not_or] at h
    simp only [Bool.and_eq_true, decide_eq_true_eq]
    omega

namespace CSharp

section
variable {f : SourceFile} {n m : Node} {s : Span} {cs : List Char}

/-! ## Nodes -/

theorem text_eq_of_span (hn : n.fits cs = true) (hm : m.fits cs = true) (h : n.span = m.span) :
    f.text n = f.text m := by
  have hstart : n.start = m.start := congrArg Span.start h
  have hstop : n.stop = m.stop := by
    have := congrArg Span.stop h
    rwa [Node.stop_span hn, Node.stop_span hm] at this
  rw [SourceFile.text, SourceFile.text, Node.textIn, Node.textIn, Node.chars, Node.chars, hstart, hstop]

theorem mem_of_child? {r : Role} (h : n.child? r = some m) : m ∈ n.children := List.mem_of_find?_eq_some h

theorem mem_of_variableDeclaration? (h : n.variableDeclaration? = some m) : m ∈ n.children :=
  List.mem_of_find?_eq_some h

theorem mem_of_declarators (h : m ∈ n.declarators) : m ∈ n.children := (List.mem_filter.1 h).1

theorem mem_of_modifiers (h : m ∈ n.modifiers) : m ∈ n.children := (List.mem_filter.1 h).1

theorem mem_of_declaratorName? (h : n.declaratorName? = some m) : m ∈ n.children := by
  rcases Option.or_eq_some_iff.1 h with h | ⟨-, h⟩
  · exact List.mem_of_find?_eq_some h
  · exact List.mem_of_find?_eq_some h

theorem covering?_spec {ks : List Kind} (hn : n.fits cs = true) (h : n.covering? s ks = some m) :
    m.fits cs = true ∧ m.kind ∈ ks := by
  obtain ⟨hm, hk⟩ := List.mem_filter.1 (List.mem_of_getLast? h)
  obtain ⟨x, hx, rfl⟩ := List.mem_map.1 hm
  simp only [Bool.and_eq_true, List.contains_eq_mem, decide_eq_true_eq] at hk
  exact ⟨Node.fits_of_mem_walk n hn hx, hk.2⟩

theorem fits_of_mem_fociOf {ks : List Kind} {x : Focus} (hn : n.fits cs = true) (hx : x ∈ n.fociOf ks) :
    x.node.fits cs = true := Node.fits_of_mem_walk n hn (List.mem_filter.1 hx).1

theorem fits_of_mem_descendantsOf {ks : List Kind} (hn : n.fits cs = true) (hm : m ∈ n.descendantsOf ks) :
    m.fits cs = true := Node.fits_of_mem_descendants hn (List.mem_filter.1 hm).1

theorem Modifier.chained_append {α : Type} {r : α → α → Bool} {xs ys : List α} {a b : α}
    (h : Modifier.chained r (xs ++ a :: b :: ys) = true) : r a b = true := by
  induction xs with
  | nil => exact (Bool.and_eq_true_iff.1 h).1
  | cons x rest ih =>
    cases rest with
    | nil => exact ih (Bool.and_eq_true_iff.1 h).2
    | cons y rest' => exact ih (Bool.and_eq_true_iff.1 h).2

/-! ## Unused locals -/

namespace UnusedLocal

/-- What an unused local is made of: a declarator of a statement of the file, and a name in it. -/
structure Source (f : SourceFile) (l : UnusedLocal) (x : Focus) (name : Node) : Prop where
  statement : x ∈ f.root.fociOf [.localDeclarationStatement]
  declaration : x.node.variableDeclaration? = some l.declaration
  declarator : l.declarator ∈ l.declaration.declarators
  named : l.declarator.declaratorName? = some name
  text : f.text name ≠ ""
  id : idFor? l.declarator = some l.diagnosticId
  eq : l = ⟨x.node, l.declaration, l.declarator, f.text name, name.span, l.diagnosticId⟩

/-- A local that may be reported: its statement is not exempt, and its name is not a discard. -/
structure Eligible (f : SourceFile) (l : UnusedLocal) (x : Focus) (name : Node) : Prop extends Source f l x name where
  kept : isExempt f x.node = false
  plain : f.text name ≠ "_"

theorem mem_all {l : UnusedLocal} :
    l ∈ all f ↔ ∃ x name, l.Eligible f x name ∧ isNamed (scope f.root x) name f = false := by
  constructor
  · intro h
    obtain ⟨x, hx, hl⟩ := List.mem_flatMap.1 h
    unfold inStatement at hl
    split at hl
    · cases hl
    · rename_i hkept
      split at hl
      · cases hl
      · rename_i d hd
        obtain ⟨e, he, hl⟩ := List.mem_filterMap.1 hl
        unfold ofDeclarator? at hl
        split at hl
        · rename_i name id hname hid
          split at hl
          · cases hl
          · rename_i hskip
            cases hl
            simp only [Bool.or_eq_true, beq_iff_eq, not_or] at hskip
            obtain ⟨⟨htext, hplain⟩, hnamed⟩ := hskip
            exact ⟨x, name, ⟨⟨hx, hd, he, hname, htext, hid, rfl⟩, Bool.not_eq_true _ ▸ hkept, hplain⟩,
              Bool.not_eq_true _ ▸ hnamed⟩
        · cases hl
  · rintro ⟨x, name, h, hnamed⟩
    refine List.mem_flatMap.2 ⟨x, h.statement, ?_⟩
    rw [inStatement, h.kept, if_neg Bool.false_ne_true, h.declaration]
    refine List.mem_filterMap.2 ⟨l.declarator, h.declarator, ?_⟩
    rw [ofDeclarator?, h.named, h.id]
    dsimp only
    rw [hnamed, if_neg (by simp [h.text, h.plain])]
    exact congrArg some h.eq.symm

theorem source_of_mem {l : UnusedLocal} (h : l ∈ all f) : ∃ x name, l.Source f x name := by
  obtain ⟨x, name, heligible, -⟩ := mem_all.1 h
  exact ⟨x, name, heligible.toSource⟩

/-- Where an unused local stands, and what it is called. -/
structure Placed (f : SourceFile) (l : UnusedLocal) : Prop where
  statement : l.statement.fits f.chars = true
  declaration : l.declaration ∈ l.statement.children
  declarator : l.declarator ∈ l.declaration.declarators
  name : ∃ n ∈ l.declarator.children, l.nameSpan = n.span ∧ l.name = f.text n ∧ f.text n ≠ ""
  id : l.diagnosticId = declaredId ∨ l.diagnosticId = assignedId

theorem id_of_idFor? {e : Node} {id : String} (h : idFor? e = some id) : id = declaredId ∨ id = assignedId := by
  unfold idFor? at h
  split at h
  · exact .inl (Option.some.inj h).symm
  · obtain ⟨-, h⟩ := Option.ite_none_right_eq_some.1 h
    exact .inr (Option.some.inj h).symm

theorem placed_of_mem (hf : f.root.fits f.chars = true) {l : UnusedLocal} (h : l ∈ all f) : l.Placed f := by
  obtain ⟨x, name, hsource⟩ := source_of_mem h
  have hstatement : l.statement = x.node := congrArg statement hsource.eq
  exact ⟨hstatement ▸ fits_of_mem_fociOf hf hsource.statement,
    hstatement ▸ mem_of_variableDeclaration? hsource.declaration, hsource.declarator,
    ⟨name, mem_of_declaratorName? hsource.named, congrArg nameSpan hsource.eq, congrArg UnusedLocal.name hsource.eq,
      hsource.text⟩, id_of_idFor? hsource.id⟩

namespace Placed

variable {l : UnusedLocal} (h : l.Placed f)
include h

theorem declaration_fits : l.declaration.fits f.chars = true := (Node.fits_child h.statement h.declaration).1

theorem declarator_fits : l.declarator.fits f.chars = true :=
  (Node.fits_child h.declaration_fits (mem_of_declarators h.declarator)).1

theorem name_range : ∃ n, n.fits f.chars = true ∧ l.nameSpan = n.span ∧ l.name = f.text n ∧ n.start < n.stop ∧
    l.declarator.start ≤ n.start ∧ n.stop ≤ l.declarator.stop ∧ l.statement.start ≤ n.start ∧
    n.stop ≤ l.statement.stop := by
  obtain ⟨n, hn, hspan, hname, htext⟩ := h.name
  obtain ⟨hfits, ha, hb⟩ := Node.fits_child h.declarator_fits hn
  obtain ⟨-, ha1, hb1⟩ := Node.fits_child h.declaration_fits (mem_of_declarators h.declarator)
  obtain ⟨-, ha2, hb2⟩ := Node.fits_child h.statement h.declaration
  exact ⟨n, hfits, hspan, hname, Node.start_lt_stop_of_text htext, ha, hb, by omega, by omega⟩

end Placed

/-- From a declarator to the next one, or from the one before it: a range between characters that is not empty. -/
theorem separatedSpan_spec {ds : List Node} {d : Node} (hfits : ∀ e ∈ ds, e.fits cs = true)
    (hchain : Modifier.chained (fun d e => d.start < e.start && d.stop ≤ e.start) ds = true) (hd : d ∈ ds)
    (hne : d.start < d.stop) : (separatedSpan ds d).Fits cs ∧ 0 < (separatedSpan ds d).length := by
  have hspan := List.span_eq_takeWhile_dropWhile (p := fun x : Node => x.start != d.start) ds
  have hds : ds = ds.takeWhile (fun x : Node => x.start != d.start) ++
      ds.dropWhile (fun x : Node => x.start != d.start) :=
    List.takeWhile_append_dropWhile.symm
  have htake : d ∉ ds.takeWhile (fun x : Node => x.start != d.start) := by
    intro hmem
    have hall := List.all_eq_true.1 (List.all_takeWhile (p := fun x : Node => x.start != d.start) (l := ds)) d hmem
    simp at hall
  unfold separatedSpan
  rw [hspan]
  generalize ds.takeWhile (fun x : Node => x.start != d.start) = before at hds htake ⊢
  generalize ds.dropWhile (fun x : Node => x.start != d.start) = rest at hds ⊢
  subst hds
  cases rest with
  | nil =>
    rw [List.append_nil] at hd
    exact absurd hd htake
  | cons e rest =>
    have he := hfits e (by simp)
    cases rest with
    | cons next rest =>
      have hnext := hfits next (by simp)
      have hlt := Modifier.chained_append hchain
      simp only [Bool.and_eq_true, decide_eq_true_eq] at hlt
      exact ⟨.ofBounds (Node.fits_start he) (Node.fits_start hnext), Nat.sub_pos_of_lt hlt.1⟩
    | nil =>
      -- the last declarator, so it goes together with what stands between it and the one before
      obtain rfl : d = e := by
        rcases List.mem_append.1 hd with hd | hd
        · exact absurd hd htake
        · exact List.mem_singleton.1 hd
      change (Span.ofBounds (before.getLast?.elim d.start Node.stop) d.stop).Fits cs ∧
        0 < (Span.ofBounds (before.getLast?.elim d.start Node.stop) d.stop).length
      cases hlast : before.getLast? with
      | none => exact ⟨.ofBounds (Node.fits_start he) (Node.fits_stop he), Nat.sub_pos_of_lt hne⟩
      | some p =>
        obtain ⟨front, rfl⟩ := List.getLast?_eq_some_iff.1 hlast
        have hp := hfits p (by simp)
        rw [List.append_assoc] at hchain
        have hlink := Modifier.chained_append hchain
        simp only [Bool.and_eq_true, decide_eq_true_eq] at hlink
        exact ⟨.ofBounds (Node.fits_stop hp) (Node.fits_stop he), Nat.sub_pos_of_lt (Nat.lt_of_le_of_lt hlink.2 hne)⟩

/-- The removal of an unused local is one deletion that deletes something. -/
theorem removal_spec {l : UnusedLocal} (h : l.Placed f) :
    ∃ s : Span, removal f l = [.delete s] ∧ s.Fits f.chars ∧ 0 < s.length := by
  obtain ⟨n, -, -, -, hn, ha, hb, ha', hb'⟩ := h.name_range
  unfold removal
  dsimp only
  split
  -- A lone declarator goes with its statement, one of several with what separates it from the next.
  · obtain ⟨hfa, hfb, hla, hlb⟩ := Text.removalSpan_spec (Node.fits_start h.statement) (Node.fits_stop h.statement)
    exact ⟨_, rfl, .ofBounds hfa hfb, Nat.sub_pos_of_lt (by omega)⟩
  · have hds : ∀ e ∈ l.declaration.declarators, e.fits f.chars = true := fun e he =>
      (Node.fits_child h.declaration_fits (mem_of_declarators he)).1
    obtain ⟨hs, hpos⟩ := separatedSpan_spec hds (Node.fits_declarators h.declaration_fits) h.declarator (by omega)
    exact ⟨_, rfl, hs, hpos⟩

end UnusedLocal

/-! ## Diagnostics -/

theorem Using.mem_unneededFrom {c : Compilation} {occs : List Occurrence} {before ps : List Placed} {u : Using}
    (h : u ∈ unneededFrom c occs before ps) : ∃ p ∈ ps, p.directive = u := by
  induction ps generalizing before with
  | nil => cases h
  | cons p rest ih =>
    rw [unneededFrom] at h
    rcases List.mem_append.1 h with h | h
    · split at h
      · exact ⟨p, List.mem_cons_self, (List.mem_singleton.1 h).symm⟩
      · cases h
    · obtain ⟨q, hq, he⟩ := ih h
      exact ⟨q, List.mem_cons_of_mem p hq, he⟩

theorem Using.span_fits (hf : f.root.fits f.chars = true) {c : Compilation} {u : Using} (h : u ∈ unneeded c f) :
    u.span.Fits f.chars := by
  obtain ⟨p, hp, rfl⟩ := mem_unneededFrom h
  obtain ⟨x, hx, rfl⟩ := List.mem_map.1 (List.mem_filter.1 hp).1
  exact Node.fits_span (fits_of_mem_fociOf hf hx)

theorem Modifier.range?_fits {ms : List Node} (hm : ∀ n ∈ ms, n.fits cs = true) (h : range? ms = some s) :
    s.Fits cs := by
  unfold range? at h
  split at h
  · rename_i a b ha hb
    cases h
    exact .ofBounds (Node.fits_start (hm a (List.mem_of_head? ha))) (Node.fits_stop (hm b (List.mem_of_getLast? hb)))
  · cases h

theorem Modifier.misorderedRanges_fits (hf : f.root.fits f.chars = true) (h : s ∈ misorderedRanges f) :
    s.Fits f.chars := by
  obtain ⟨n, hn, hs⟩ := List.mem_filterMap.1 h
  have hfits := Node.fits_of_mem_descendants hf (List.mem_filter.1 hn).1
  unfold misordered? at hs
  split at hs
  · cases hs
  · obtain ⟨-, hs⟩ := Option.ite_none_right_eq_some.1 hs
    exact range?_fits (fun m hm => (Node.fits_child hfits (mem_of_modifiers hm)).1) hs

theorem ReadonlyField.fits_of_mem (hf : f.root.fits f.chars = true) (h : n ∈ all f) : n.fits f.chars = true := by
  obtain ⟨type, htype, h⟩ := List.mem_flatMap.1 h
  have htype := fits_of_mem_descendantsOf hf htype
  unfold inType at h
  split at h
  · cases h
  · obtain ⟨field, hfield, h⟩ := List.mem_filterMap.1 h
    cases hbody : type.body? with
    | none =>
      rw [hbody] at hfield
      cases hfield
    | some body =>
      rw [hbody] at hfield
      have hbody : body.fits f.chars = true := by
        rcases Option.or_eq_some_iff.1 hbody with h | ⟨-, h⟩
        · exact (Node.fits_child htype (mem_of_child? h)).1
        · exact (Node.fits_child htype (List.mem_of_find?_eq_some h)).1
      have hfield := (Node.fits_child hbody (List.mem_filter.1 hfield).1).1
      unfold candidate? at h
      split at h
      · dsimp only at h
        split at h
        · cases h
        · obtain ⟨e, he, hname⟩ := List.mem_filterMap.1 (List.mem_of_head? h)
          cases hd : field.variableDeclaration? with
          | none =>
            rw [hd] at he
            cases he
          | some d =>
            rw [hd] at he
            have hd := (Node.fits_child hfield (mem_of_variableDeclaration? hd)).1
            have he := (Node.fits_child hd (mem_of_declarators he)).1
            exact (Node.fits_child he (mem_of_declaratorName? hname)).1
      · cases h

/-- A diagnostic is placed between characters, its position is that of its span, and its id is one of five. -/
theorem mem_diagnostics (hf : f.root.fits f.chars = true) {c : Compilation} {d : Diagnostic} (h : d ∈ diagnostics c f) :
    d.location = .ofSpan f.path f.chars d.span ∧ d.span.Fits f.chars ∧
      d.id ∈ [UnusedLocal.declaredId, UnusedLocal.assignedId, unneededUsingId, modifierOrderId, readonlyFieldId] := by
  rw [diagnostics, List.mem_mergeSort] at h
  simp only [List.mem_append, List.mem_map] at h
  rcases h with ((⟨l, hl, rfl⟩ | ⟨u, hu, rfl⟩) | ⟨s, hs, rfl⟩) | ⟨n, hn, rfl⟩
  · have hp := UnusedLocal.placed_of_mem hf hl
    obtain ⟨n, hn, hspan, -⟩ := hp.name_range
    refine ⟨rfl, ?_, ?_⟩
    · change l.nameSpan.Fits f.chars
      rw [hspan]
      exact Node.fits_span hn
    · change l.diagnosticId ∈ _
      rcases hp.id with h | h
      · simp [h]
      · simp [h]
  · exact ⟨rfl, Using.span_fits hf hu, by simp [usingDiagnostic]⟩
  · exact ⟨rfl, Modifier.misorderedRanges_fits hf hs, by simp [modifierDiagnostic]⟩
  · exact ⟨rfl, Node.fits_span (ReadonlyField.fits_of_mem hf hn), by simp [readonlyDiagnostic]⟩

/-! ## Fixes -/

/-- One edit between characters of a file. -/
def OneEdit (f : SourceFile) (es : List Edit) : Prop := ∃ e, es = [e] ∧ e.span.Fits f.chars

/-- One deletion that deletes something. -/
def OneRemoval (f : SourceFile) (es : List Edit) : Prop := ∃ s : Span, es = [.delete s] ∧ s.Fits f.chars ∧ 0 < s.length

theorem OneRemoval.oneEdit {es : List Edit} (h : OneRemoval f es) : OneEdit f es := by
  obtain ⟨s, he, hs, -⟩ := h
  exact ⟨_, he, hs⟩

/-- A rule for fixes: it looks at span and id alone, makes one edit, and for an allowed diagnostic that it lists this is
a removal. -/
structure FixRule (fixable : List String) (edits? : SourceFile → Diagnostic → Option (List Edit)) : Prop where
  congr {f : SourceFile} {d d' : Diagnostic} : d.span = d'.span → d.id = d'.id → edits? f d = edits? f d'
  single {f : SourceFile} {d : Diagnostic} {es : List Edit} : f.root.fits f.chars = true → d.span.Fits f.chars →
    edits? f d = some es → OneEdit f es
  removes {f : SourceFile} {d : Diagnostic} {es : List Edit} : f.root.fits f.chars = true → d.id ∈ Policy.allowed →
    d.id ∈ fixable → edits? f d = some es → OneRemoval f es

theorem localRemoval?_removes {d : Diagnostic} {es : List Edit} (hf : f.root.fits f.chars = true)
    (h : localRemoval? f d = some es) : OneRemoval f es := by
  obtain ⟨l, hl, rfl⟩ := Option.map_eq_some_iff.1 h
  obtain ⟨s, hs⟩ := UnusedLocal.removal_spec (UnusedLocal.placed_of_mem hf (List.mem_of_find?_eq_some hl))
  exact ⟨s, hs⟩

theorem fixRule_localRemoval : FixRule [UnusedLocal.declaredId, UnusedLocal.assignedId] localRemoval? where
  congr hs hi := by rw [localRemoval?, localRemoval?, hs, hi]
  single hf _ h := (localRemoval?_removes hf h).oneEdit
  removes hf _ _ h := localRemoval?_removes hf h

theorem usingRemoval?_removes {d : Diagnostic} {es : List Edit} (hf : f.root.fits f.chars = true)
    (h : usingRemoval? f d = some es) : OneRemoval f es := by
  obtain ⟨n, hn, rfl⟩ := Option.map_eq_some_iff.1 h
  obtain ⟨hfits, hk⟩ := covering?_spec hf hn
  have hlt := Node.fits_usingDirective hfits (List.mem_singleton.1 hk)
  obtain ⟨ha, hb, hla, hlb⟩ := Text.removalSpan_spec (Node.fits_start hfits) (Node.fits_stop hfits)
  exact ⟨_, rfl, .ofBounds ha hb, Nat.sub_pos_of_lt (Nat.lt_of_le_of_lt hla (Nat.lt_of_lt_of_le hlt hlb))⟩

theorem fixRule_usingRemoval : FixRule [unneededUsingId, "IDE0005"] usingRemoval? where
  congr hs _ := by rw [usingRemoval?, usingRemoval?, hs]
  single hf _ h := (usingRemoval?_removes hf h).oneEdit
  removes hf _ _ h := usingRemoval?_removes hf h

theorem fixRule_modifierSorting : FixRule [modifierOrderId] modifierSorting? where
  congr hs _ := by rw [modifierSorting?, modifierSorting?, hs]
  single _ hd h := by
    obtain ⟨r, -, rfl⟩ := Option.map_eq_some_iff.1 h
    exact ⟨_, rfl, hd⟩
  removes _ ha hl _ := by
    rw [List.mem_singleton.1 hl] at ha
    exact absurd ha (by decide)

theorem Modifier.isBoundary_readonlyPoint {field : Node} {n : Nat} (hf : field.fits f.chars = true)
    (h : readonlyPoint? f field = some n) : Text.isBoundary f.chars n = true := by
  unfold readonlyPoint? at h
  split at h
  · rename_i m hm
    cases h
    exact Node.fits_start (Node.fits_child hf (mem_of_modifiers (List.mem_of_find?_eq_some hm))).1
  · obtain ⟨d, hd, rfl⟩ := Option.map_eq_some_iff.1 h
    exact Node.fits_start (Node.fits_child hf (mem_of_variableDeclaration? hd)).1

theorem readonlyInsertion?_eq_some {es : List Edit} (h : readonlyInsertion? f d = some es) :
    ∃ field n, f.root.covering? d.span [.fieldDeclaration] = some field ∧ Modifier.readonlyPoint? f field = some n ∧
      es = [.insert n "readonly "] := by
  unfold readonlyInsertion? at h
  split at h
  · cases h
  · rename_i field hfield
    obtain ⟨-, h⟩ := Option.ite_none_left_eq_some.1 h
    obtain ⟨n, hn, rfl⟩ := Option.map_eq_some_iff.1 h
    exact ⟨field, n, hfield, hn, rfl⟩

theorem fixRule_readonlyInsertion : FixRule [readonlyFieldId] readonlyInsertion? where
  congr hs _ := by rw [readonlyInsertion?, readonlyInsertion?, hs]
  single hf _ h := by
    obtain ⟨field, n, hfield, hn, rfl⟩ := readonlyInsertion?_eq_some h
    exact ⟨_, rfl, .point (Modifier.isBoundary_readonlyPoint (covering?_spec hf hfield).1 hn)⟩
  removes _ ha hl _ := by
    rw [List.mem_singleton.1 hl] at ha
    exact absurd ha (by decide)

/-! ## Refactorings -/

theorem mem_of_singleLocal? {statement type : Node} {value : Option Node} (hf : statement.fits cs = true)
    (h : singleLocal? statement = some (type, value)) :
    type.fits cs = true ∧ statement.start ≤ type.start ∧ type.stop ≤ statement.stop := by
  unfold singleLocal? at h
  split at h
  · cases h
  · rename_i d hd
    split at h
    · rename_i t e htype _
      cases h
      obtain ⟨hfd, ha, hb⟩ := Node.fits_child hf (mem_of_variableDeclaration? hd)
      obtain ⟨hft, ha', hb'⟩ := Node.fits_child hfd (mem_of_child? htype)
      exact ⟨hft, by omega, by omega⟩
    · cases h

theorem mem_touchedLocals (hf : f.root.fits f.chars = true) (h : n ∈ touchedLocals f s) : n.fits f.chars = true :=
  fits_of_mem_descendantsOf hf (List.mem_filter.1 h).1

theorem oneEdit_explicitType {es : List Edit} (hf : f.root.fits f.chars = true)
    (h : (touchedLocals f s).findSome? (explicitType? f) = some es) : OneEdit f es := by
  obtain ⟨statement, hmem, h⟩ := List.exists_of_findSome?_eq_some h
  unfold explicitType? at h
  split at h
  · rename_i type value hlocal
    obtain ⟨-, h⟩ := Option.ite_none_right_eq_some.1 h
    obtain ⟨t, -, rfl⟩ := Option.map_eq_some_iff.1 h
    exact ⟨_, rfl, Node.fits_span (mem_of_singleLocal? (mem_touchedLocals hf hmem) hlocal).1⟩
  · cases h

/-- An if statement that can get braces: its body is no block and stands behind a closing bracket. -/
structure Unbraced (f : SourceFile) (s : Span) (statement bracket body : Node) : Prop where
  covering : f.root.covering? ⟨s.start, 0⟩ [.ifStatement] = some statement
  consequence : statement.child? .consequence = some body
  bare : body.kind ≠ .block
  closing : closingBracket? statement body = some bracket

theorem bracing?_eq_some {es : List Edit} (h : bracing? f s = some es) : ∃ statement bracket body,
    Unbraced f s statement bracket body ∧ es = [⟨.ofBounds bracket.stop body.stop, braced f statement body⟩] := by
  unfold bracing? at h
  split at h
  · cases h
  · rename_i statement hstatement
    split at h
    · cases h
    · rename_i body hbody
      obtain ⟨hbare, h⟩ := Option.ite_none_left_eq_some.1 h
      obtain ⟨bracket, hbracket, rfl⟩ := Option.map_eq_some_iff.1 h
      exact ⟨statement, bracket, body, ⟨hstatement, hbody, by simpa using hbare, hbracket⟩, rfl⟩

theorem oneEdit_bracing {es : List Edit} (hf : f.root.fits f.chars = true) (h : bracing? f s = some es) :
    OneEdit f es := by
  obtain ⟨statement, bracket, body, hunbraced, rfl⟩ := bracing?_eq_some h
  have hfits := (covering?_spec hf hunbraced.covering).1
  have hbracket := (Node.fits_child hfits (List.mem_filter.1 (List.mem_of_getLast? hunbraced.closing)).1).1
  have hbody := (Node.fits_child hfits (mem_of_child? hunbraced.consequence)).1
  exact ⟨_, rfl, .ofBounds (Node.fits_stop hbracket) (Node.fits_stop hbody)⟩

/-! ## Actions without a provider -/

/-- What an action without a provider is about: its place, and the one edit that it makes. -/
structure BuiltinPlaced (f : SourceFile) (b : Builtin) : Prop where
  span : b.span.Fits f.chars
  edit : ∃ title key es, b.action = .single title key f.path es ∧ OneEdit f es
  removes : b.kind = .removeUnusedLocal → ∃ title key es, b.action = .single title key f.path es ∧ OneRemoval f es
  diagnosticId : b.diagnosticId ≠ some ""

theorem mem_builtins {b : Builtin} : b ∈ builtins f s ↔
    (∃ l ∈ UnusedLocal.all f, touches s l.statement = true ∧ removeLocalBuiltin f l = b) ∨
      ∃ statement ∈ touchedLocals f s, inferredType? f statement = some b := by
  rw [builtins, List.mem_append, List.mem_map, List.mem_filterMap]
  simp only [List.mem_filter, and_assoc]

theorem inferredType?_eq_some {statement : Node} {b : Builtin} (hf : statement.fits f.chars = true)
    (h : inferredType? f statement = some b) : ∃ type : Node, type.fits f.chars = true ∧ statement.start ≤ type.start ∧
      type.stop ≤ statement.stop ∧ b.kind = .useInferredType ∧ b.diagnosticId = none ∧ b.span = type.span ∧
      b.action = .single "Use 'var' instead of explicit type" BuiltinKind.useInferredType.text f.path
        [⟨type.span, "var"⟩] := by
  unfold inferredType? at h
  split at h
  · cases h
  · split at h
    · rename_i type value hlocal
      obtain ⟨-, h⟩ := Option.ite_none_right_eq_some.1 h
      cases h
      obtain ⟨hft, ha, hb⟩ := mem_of_singleLocal? hf hlocal
      exact ⟨type, hft, ha, hb, rfl, rfl, rfl, rfl⟩
    · cases h

theorem builtinPlaced (hf : f.root.fits f.chars = true) {b : Builtin} (h : b ∈ builtins f s) : BuiltinPlaced f b := by
  rcases mem_builtins.1 h with ⟨l, hl, -, rfl⟩ | ⟨statement, hst, hb⟩
  · have hp := UnusedLocal.placed_of_mem hf hl
    obtain ⟨n, hn, hspan, -⟩ := hp.name_range
    have hr : OneRemoval f (UnusedLocal.removal f l) := UnusedLocal.removal_spec hp
    refine ⟨?_, ⟨_, _, _, rfl, hr.oneEdit⟩, fun _ => ⟨_, _, _, rfl, hr⟩, ?_⟩
    · change l.nameSpan.Fits f.chars
      rw [hspan]
      exact Node.fits_span hn
    · change some l.diagnosticId ≠ some ""
      rcases hp.id with h | h
      · rw [h]
        decide
      · rw [h]
        decide
  · obtain ⟨type, htype, -, -, hkind, hid, hspan, haction⟩ := inferredType?_eq_some (mem_touchedLocals hf hst) hb
    refine ⟨?_, ⟨_, _, _, haction, _, rfl, Node.fits_span htype⟩, fun hk => ?_, ?_⟩
    · rw [hspan]
      exact Node.fits_span htype
    · rw [hkind] at hk
      cases hk
    · rw [hid]
      exact fun h => nomatch h

theorem builtin_diagnosticId (hf : f.root.fits f.chars = true) {b : Builtin} {id : String} (h : b ∈ builtins f s)
    (hid : b.diagnosticId = some id) : id = UnusedLocal.declaredId ∨ id = UnusedLocal.assignedId := by
  rcases mem_builtins.1 h with ⟨l, hl, -, rfl⟩ | ⟨statement, hst, hb⟩
  · cases hid
    exact (UnusedLocal.placed_of_mem hf hl).id
  · obtain ⟨type, -, -, -, -, hnone, -⟩ := inferredType?_eq_some (mem_touchedLocals hf hst) hb
    rw [hnone] at hid
    cases hid

theorem mem_builtins_span (hf : f.root.fits f.chars = true) {b : Builtin} (h : b ∈ builtins f s) :
    b ∈ builtins f b.span := by
  rcases mem_builtins.1 h with ⟨l, hl, -, rfl⟩ | ⟨statement, hst, hb⟩
  · have hp := UnusedLocal.placed_of_mem hf hl
    obtain ⟨n, hn, hspan, -, -, -, -, ha, hb⟩ := hp.name_range
    refine mem_builtins.2 (.inl ⟨l, hl, ?_, rfl⟩)
    change l.statement.span.intersects l.nameSpan = true
    rw [hspan]
    refine Span.intersects_of_contains ha ?_
    rwa [Node.stop_span hn, Node.stop_span hp.statement]
  · have hfits := mem_touchedLocals hf hst
    obtain ⟨type, htype, ha, hb', -, -, hspan, -⟩ := inferredType?_eq_some hfits hb
    refine mem_builtins.2 (.inr ⟨statement, List.mem_filter.2 ⟨(List.mem_filter.1 hst).1, ?_⟩, hb⟩)
    change statement.span.intersects b.span = true
    rw [hspan]
    refine Span.intersects_of_contains ha ?_
    rwa [Node.stop_span htype, Node.stop_span hfits]

theorem builtin_title_eq (hf : f.root.fits f.chars = true) {s' : Span} {b b' : Builtin} (h : b ∈ builtins f s)
    (h' : b' ∈ builtins f s') (hk : b.kind = b'.kind) (hs : b.span = b'.span) : b.action.title = b'.action.title := by
  rcases mem_builtins.1 h with ⟨l, hl, -, rfl⟩ | ⟨statement, hst, hb⟩
  · rcases mem_builtins.1 h' with ⟨l', hl', -, rfl⟩ | ⟨statement', hst', hb'⟩
    · obtain ⟨n, hn, hspan, hname, -⟩ := (UnusedLocal.placed_of_mem hf hl).name_range
      obtain ⟨n', hn', hspan', hname', -⟩ := (UnusedLocal.placed_of_mem hf hl').name_range
      have hspans : n.span = n'.span := hspan.symm.trans (hs.trans hspan')
      change "Remove unused variable '" ++ l.name ++ "'" = "Remove unused variable '" ++ l'.name ++ "'"
      rw [hname, hname', text_eq_of_span hn hn' hspans]
    · obtain ⟨type, -, -, -, hkind, -⟩ := inferredType?_eq_some (mem_touchedLocals hf hst') hb'
      rw [hkind] at hk
      cases hk
  · obtain ⟨type, -, -, -, hkind, -, -, haction⟩ := inferredType?_eq_some (mem_touchedLocals hf hst) hb
    rcases mem_builtins.1 h' with ⟨l', hl', -, rfl⟩ | ⟨statement', hst', hb'⟩
    · rw [hkind] at hk
      cases hk
    · obtain ⟨type', -, -, -, -, -, -, haction'⟩ := inferredType?_eq_some (mem_touchedLocals hf hst') hb'
      rw [haction, haction']
      rfl

end

end CSharp

end Workbench
