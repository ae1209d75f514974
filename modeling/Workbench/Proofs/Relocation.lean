import Workbench.Proofs.Candidates
import Workbench.Proofs.Preparing
import Workbench.Proofs.Registry
import Workbench.Proofs.Tokens

/-!
# Relocation

The candidates of C#, from where they are offered to where a token finds them
again. A candidate is one edit of its document. The token of its description
fits in words, and leads back to a candidate of the very same description.
-/

namespace Workbench

/-! ## Selections -/

theorem Snapshot.document?_eq_of_mem {s : Snapshot} {d : Document} (h : d ∈ s.documents) :
    s.document? d.path = some d :=
  Ordered.find?_of_mem s.documents_ascending h

theorem Snapshot.findDocument_mem {s : Snapshot} {raw : String} {d : Document} (h : s.findDocument raw = some d) :
    d ∈ s.documents := by
  rcases Option.or_eq_some_iff.1 h with h | ⟨-, h⟩
  · rcases Option.or_eq_some_iff.1 h with h | ⟨-, h⟩
    · exact (document?_path h).1
    · obtain ⟨path, -, h⟩ := Option.bind_eq_some_iff.1 h
      exact (document?_path h).1
  · exact List.mem_of_find?_eq_some h

/-- A span that begins in a text and is not longer than it. -/
structure Span.Within (cs : List Char) (s : Span) : Prop where
  start : s.start ≤ Text.size cs
  length : s.length ≤ Text.size cs

theorem Span.Fits.within {cs : List Char} {s : Span} (h : s.Fits cs) : s.Within cs := ⟨h.start_le, h.length_le⟩

theorem Catalog.selection_within {s : Snapshot} {q : ActionQuery} {path : String} {span : Span}
    (h : selection s q = .ok (path, span)) : ∃ text, s.text? path = some text ∧ span.Within text.toList := by
  unfold selection at h
  split at h
  · cases h
  · rename_i d hd
    split at h
    · cases h
    · rename_i start hstart
      split at h
      · cases h
      · rename_i stop hstop
        split at h
        · cases h
        · cases h
          refine ⟨d.text, ?_, Text.offsetOf_le hstart, ?_⟩
          · rw [Snapshot.text?, Snapshot.document?_eq_of_mem (Snapshot.findDocument_mem hd)]
            rfl
          · have hle : stop ≤ Text.size d.text.toList := by
              unfold selectionEnd at hstop
              split at hstop
              · cases hstop
                exact Text.offsetOf_le hstart
              · split at hstop
                · rename_i hoffset
                  cases hstop
                  exact Text.offsetOf_le hoffset
                · cases hstop
              · cases hstop
            exact Nat.le_trans (Nat.sub_le stop start) hle

/-- The version of a session and all positions in its documents are words. -/
structure Session.InWords (s : Session) : Prop where
  version : s.version < wordLimit
  documents : ∀ d ∈ s.snapshot.documents, Text.size d.text.toList + 1 < wordLimit

namespace CSharp

section
variable {read : Parser} {s : Snapshot} {path : String} {span : Span} {c : Candidate} {f : SourceFile}

/-! ## Places of candidates -/

theorem mem_view_diagnostics (hs : read.FitsAll s) {ds : List Diagnostic} {d : Diagnostic}
    (h : ((model read).view s).diagnostics path = .ok ds) (hd : d ∈ ds) : ∃ f, sourceFile read s path = .ok f ∧
      d.location = .ofSpan path f.chars d.span ∧ d.span.Fits f.chars ∧
      d.id ∈ [UnusedLocal.declaredId, UnusedLocal.assignedId, unneededUsingId, modifierOrderId, readonlyFieldId] := by
  rw [diagnostics_view] at h
  obtain ⟨f, hf, rfl⟩ := Result.map_eq_ok.1 h
  obtain ⟨hlocation, hrest⟩ := mem_diagnostics (fits_of_sourceFile hs hf) hd
  obtain ⟨text, -, rfl⟩ := sourceFile_eq_ok.1 hf
  exact ⟨_, hf, hlocation, hrest⟩

theorem fix_of_made (hs : read.FitsAll s) {p : FixProvider} {d : Diagnostic} {change : CodeAction}
    (h : (Candidate.fix p d change).Made (model read) s path span) : ∃ f title key edits? es,
      sourceFile read s path = .ok f ∧ d.location = .ofSpan path f.chars d.span ∧ d.span.Fits f.chars ∧
      d.id ≠ "" ∧ FixRule p.fixable edits? ∧ edits? f d = some es ∧ change = .single title key path es := by
  obtain ⟨r, ds, changes, hr, hp, hds, hd, hprovide, hmem⟩ := h
  obtain ⟨f, hf, hlocation, hspan, hid⟩ := mem_view_diagnostics hs hds hd
  obtain ⟨title, key, edits?, hrule, hp⟩ := mem_fixes hr hp
  rw [hp] at hprovide
  obtain ⟨f', es, hf', hes, -, rfl⟩ := mem_provide_fix hprovide hmem
  have hpath : d.path = path := congrArg Location.path hlocation
  subst hpath
  rw [hf] at hf'
  cases hf'
  have hid : d.id ≠ "" := fun he => by
    rw [he] at hid
    exact absurd hid (by decide)
  exact ⟨f, title, key, edits?, es, hf, hlocation, hspan, hid, hrule, hes, rfl⟩

theorem builtin_of_made {path' : String} {b : Builtin}
    (h : (Candidate.builtin path' b).Made (model read) s path span) :
    path' = path ∧ ∃ f, sourceFile read s path = .ok f ∧ b ∈ builtins f span := by
  obtain ⟨rfl, bs, hbs, hb⟩ := h
  rw [builtins_view] at hbs
  obtain ⟨f, hf, rfl⟩ := Result.map_eq_ok.1 hbs
  exact ⟨rfl, f, hf, hb⟩

theorem positionOf_eq (span : Span) (hf : sourceFile read s path = .ok f) :
    Catalog.positionOf s path span = Text.lineCol f.chars span.start := by
  obtain ⟨text, ht, rfl⟩ := sourceFile_eq_ok.1 hf
  rw [Catalog.positionOf, ht]
  rfl

theorem path_of_sourceFile (hf : sourceFile read s path = .ok f) : f.path = path := by
  obtain ⟨text, -, rfl⟩ := sourceFile_eq_ok.1 hf
  rfl

/-- Where the C# model offers a candidate: in a document whose position it tells, and as one edit of it. -/
structure CandidatePlaced (s : Snapshot) (path : String) (f : SourceFile) (c : Candidate) : Prop where
  filePath : (c.action s).filePath = path
  line : (c.action s).line = (Text.lineCol f.chars (c.action s).span.start).1
  column : (c.action s).column = (Text.lineCol f.chars (c.action s).span.start).2
  diagnosticId : (c.action s).diagnosticId ≠ some ""
  refactoringId : (c.action s).refactoringId ≠ some ""
  edit : ∃ title key es, c.change = .single title key path es ∧ OneEdit f es

theorem placed_of_made (hs : read.FitsAll s) (h : c.Made (model read) s path span) :
    ∃ f, sourceFile read s path = .ok f ∧ CandidatePlaced s path f c := by
  cases c with
  | fix p d change =>
    obtain ⟨f, title, key, edits?, es, hf, hlocation, hspan, hid, hrule, hes, rfl⟩ := fix_of_made hs h
    exact ⟨f, hf, congrArg Location.path hlocation, congrArg Location.line hlocation,
      congrArg Location.column hlocation, fun he => hid (Option.some.inj he), fun he => (nomatch he),
      title, key, es, rfl, hrule.single (fits_of_sourceFile hs hf) hspan hes⟩
  | refactoring p path' span' change =>
    obtain ⟨rfl, rfl, r, changes, hr, hp, hprovide, hmem⟩ := h
    obtain ⟨title, key, edits?, hkey, hrule, hp⟩ := mem_refactorings hr hp
    rw [hp] at hprovide
    obtain ⟨f, es, hf, hes, -, rfl⟩ := mem_provide_refactoring hprovide hmem
    have hposition := positionOf_eq span' hf
    exact ⟨f, hf, rfl, congrArg Prod.fst hposition, congrArg Prod.snd hposition, fun he => (nomatch he),
      fun he => hkey (Option.some.inj he), title, key, es, rfl, hrule _ _ es (fits_of_sourceFile hs hf) hes⟩
  | builtin path' b =>
    obtain ⟨rfl, f, hf, hb⟩ := builtin_of_made h
    have hplaced := builtinPlaced (fits_of_sourceFile hs hf) hb
    have hposition := positionOf_eq b.span hf
    have hedit := hplaced.edit
    rw [path_of_sourceFile hf] at hedit
    exact ⟨f, hf, rfl, congrArg Prod.fst hposition, congrArg Prod.snd hposition, hplaced.diagnosticId,
      fun he => (nomatch he), hedit⟩

/-- What policy allows of the candidates of a catalog is a removal. -/
theorem removal_of_allowed (hs : read.FitsAll s) (h : c.Made (model read) s path span) (hpaired : c.Paired)
    (hallowed : c.Allowed) : ∃ f title key es, sourceFile read s path = .ok f ∧
      c.change = .single title key path es ∧ OneRemoval f es := by
  cases c with
  | fix p d change =>
    obtain ⟨f, title, key, edits?, es, hf, -, -, -, hrule, hes, rfl⟩ := fix_of_made hs h
    exact ⟨f, title, key, es, hf, rfl, hrule.removes (fits_of_sourceFile hs hf) hallowed hpaired hes⟩
  | refactoring p path' span' change => exact hallowed.elim
  | builtin path' b =>
    obtain ⟨rfl, f, hf, hb⟩ := builtin_of_made h
    obtain ⟨title, key, es, hchange, hremoval⟩ := (builtinPlaced (fits_of_sourceFile hs hf) hb).removes hallowed.1
    rw [path_of_sourceFile hf] at hchange
    exact ⟨f, title, key, es, hf, hchange, hremoval⟩

theorem span_within (hs : read.FitsAll s) (h : c.Made (model read) s path span)
    (hf : sourceFile read s path = .ok f) (hspan : span.Within f.chars) : (c.action s).span.Within f.chars := by
  cases c with
  | fix p d change =>
    obtain ⟨f', -, -, -, -, hf', -, hd, -⟩ := fix_of_made hs h
    rw [hf] at hf'
    cases hf'
    exact hd.within
  | refactoring p path' span' change =>
    obtain ⟨-, rfl, -⟩ := h
    exact hspan
  | builtin path' b =>
    obtain ⟨rfl, f', hf', hb⟩ := builtin_of_made h
    rw [hf] at hf'
    cases hf'
    exact (builtinPlaced (fits_of_sourceFile hs hf) hb).span.within

/-- A token can carry what describes a candidate, where positions of the document are words. -/
theorem writable_of_made (hs : read.FitsAll s) (h : c.Made (model read) s path span)
    (hf : sourceFile read s path = .ok f) (hspan : span.Within f.chars) (hsize : Text.size f.chars + 1 < wordLimit) :
    (c.action s).Writable := by
  obtain ⟨f', hf', hp⟩ := placed_of_made hs h
  rw [hf] at hf'
  cases hf'
  obtain ⟨hstart, hlength⟩ := span_within hs h hf hspan
  obtain ⟨hline, hcolumn⟩ := Text.lineCol_le f.chars (c.action s).span.start
  rw [← hp.line] at hline
  rw [← hp.column] at hcolumn
  exact ⟨by omega, by omega, by omega, by omega, hp.diagnosticId, hp.refactoringId⟩

theorem writable_of_selected {s : Session} {q : ActionQuery} (hs : read.FitsAll s.snapshot) (hw : s.InWords)
    (hselection : Catalog.selection s.snapshot q = .ok (path, span)) (h : c.Made (model read) s.snapshot path span) :
    (c.action s.snapshot).Writable := by
  obtain ⟨text, ht, hspan⟩ := Catalog.selection_within hselection
  obtain ⟨d, hd, rfl⟩ := Option.map_eq_some_iff.1 ht
  exact writable_of_made hs h (sourceFile_eq_ok.2 ⟨d.text, ht, rfl⟩) hspan
    (hw.documents d (Snapshot.document?_path hd).1)

/-! ## Finding again -/

theorem sameAction_withoutTitle (a : Action) : Pipeline.sameAction { a with title := "" } a = true := by
  simp [Pipeline.sameAction]

theorem firstOr_of_mem {α : Type} (raw : String) {p : α → Bool} {xs : List α} {a : α} (ha : a ∈ xs) (hp : p a = true) :
    ∃ b ∈ xs, p b = true ∧ Pipeline.firstOr raw p xs = .ok b := by
  cases hfind : xs.find? p with
  | none => exact absurd hp (List.find?_eq_none.1 hfind a ha)
  | some b =>
    exact ⟨b, List.mem_of_find?_eq_some hfind, List.find?_some hfind, Pipeline.firstOr_eq_ok.2 hfind⟩

theorem known_of_some {α : Type} (raw : String) {o : Option α} {a : α} (h : o = some a) :
    Pipeline.known raw o = .ok a := Pipeline.known_eq_ok.2 h

theorem firstOr_fits (raw : String) (change : CodeAction) :
    Pipeline.firstOr raw (Pipeline.fits change.equivalenceKey change.title) [change] = .ok change := by
  refine Pipeline.firstOr_eq_ok.2 (List.find?_cons_of_pos ?_)
  simp [Pipeline.fits]

/-- Asking again at the place of a candidate finds one that stands for it. -/
theorem candidate_of_made (raw : String) (hs : read.FitsAll s) (h : c.Made (model read) s path span) {a : Action}
    (hpath : a.filePath = path) (hspan : a.span = (c.action s).span)
    (hid : a.diagnosticId = (c.action s).diagnosticId) : ∃ c', c.StandsFor (model read) s path c' ∧
      Pipeline.candidate (model read) s raw a c.key = .ok (c'.change, c.action s) := by
  subst hpath
  cases c with
  | fix p d change =>
    obtain ⟨r, ds, changes, hr, hp, hds, hd, hprovide, hmem⟩ := h
    have hspan : a.span = d.span := hspan
    obtain ⟨d', hd', hsame, hfirst⟩ := firstOr_of_mem raw
      (p := fun d' => d'.id == d.id && d'.span == a.span) hd (by simp [hspan])
    obtain ⟨hsameId, hsameSpan⟩ : d'.id = d.id ∧ d'.span = d.span := by simpa [hspan] using hsame
    obtain ⟨f, hf, hlocation, -⟩ := mem_view_diagnostics hs hds hd
    obtain ⟨f', hf', hlocation', -⟩ := mem_view_diagnostics hs hds hd'
    rw [hf] at hf'
    cases hf'
    have hplace : d'.location = d.location := by rw [hlocation, hlocation', hsameSpan]
    have hagain := hprovide
    rw [← provide_congr hr hp (congrArg Location.path hplace) hsameSpan hsameId] at hagain
    obtain ⟨title, key, edits?, -, hform⟩ := mem_fixes hr hp
    obtain ⟨-, -, -, -, rfl, -⟩ := mem_provide_fix (hform ▸ hprovide) hmem
    have haction : Catalog.ofFix p.typeName d' change = Catalog.ofFix p.typeName d change := by
      simp only [Catalog.ofFix, Diagnostic.path, Diagnostic.span, hplace, hsameId]
    -- The provider looks at place and id alone, so the diagnostic that is found first does as well.
    refine ⟨.fix p d' change, ⟨⟨r, ds, [change], hr, hp, hds, hd', hagain, hmem⟩, fun hpaired => ?_, haction,
      fun _ _ _ he => ?_⟩, ?_⟩
    · change d'.id ∈ p.fixable
      rw [hsameId]
      exact hpaired
    · cases he
      rfl
    · have hfound := known_of_some raw (fixProvider?_of_mem hr hp)
      refine Result.bind_eq_ok.2 ⟨r, hr, Result.bind_eq_ok.2 ⟨p, hfound, Result.bind_eq_ok.2 ⟨ds, hds, ?_⟩⟩⟩
      refine Result.bind_eq_ok.2 ⟨d', hfirst, Result.bind_eq_ok.2 ⟨[change], hagain, ?_⟩⟩
      refine Result.bind_eq_ok.2 ⟨change, firstOr_fits raw change, ?_⟩
      exact congrArg (fun a => Except.ok (change, a)) haction
  | refactoring p path' span' change =>
    obtain ⟨rfl, rfl, r, changes, hr, hp, hprovide, hmem⟩ := h
    have hspan : a.span = span' := hspan
    subst hspan
    obtain ⟨title, key, edits?, -, -, hform⟩ := mem_refactorings hr hp
    obtain ⟨-, -, -, -, rfl, -⟩ := mem_provide_refactoring (hform ▸ hprovide) hmem
    refine ⟨.refactoring p a.filePath a.span change, ⟨⟨rfl, rfl, r, [change], hr, hp, hprovide, hmem⟩, id, rfl,
      fun _ _ _ he => (nomatch he)⟩, ?_⟩
    have hfound := known_of_some raw (refactoringProvider?_of_mem hr hp)
    refine Result.bind_eq_ok.2 ⟨r, hr, Result.bind_eq_ok.2 ⟨p, hfound, ?_⟩⟩
    refine Result.bind_eq_ok.2 ⟨[change], hprovide, ?_⟩
    exact Result.bind_eq_ok.2 ⟨change, firstOr_fits raw change, rfl⟩
  | builtin path' b =>
    obtain ⟨rfl, f, hf, hb⟩ := builtin_of_made h
    have hspan : a.span = b.span := hspan
    have hid : a.diagnosticId = b.diagnosticId := hid
    have hfits := fits_of_sourceFile hs hf
    have hagain := mem_builtins_span hfits hb
    rw [← hspan] at hagain
    obtain ⟨b', hb', hsame, hfirst⟩ := firstOr_of_mem raw
      (p := fun b' => b'.kind == b.kind && b'.span == a.span && b'.diagnosticId == a.diagnosticId) hagain
      (by simp [hspan, hid])
    obtain ⟨⟨hkind, hsameSpan⟩, hsameId⟩ :
        (b'.kind = b.kind ∧ b'.span = b.span) ∧ b'.diagnosticId = b.diagnosticId := by
      simpa [hspan, hid] using hsame
    -- The title is no part of a token, so the first action of this kind at this span has to have the same.
    have htitle := builtin_title_eq hfits hb' hb hkind hsameSpan
    have haction : Catalog.ofBuiltin s a.filePath b' = Catalog.ofBuiltin s a.filePath b := by
      simp only [Catalog.ofBuiltin, Catalog.builtinCategory, htitle, hkind, hsameSpan, hsameId]
    have hview : ((model read).view s).builtins a.filePath a.span = .ok (builtins f a.span) := by
      rw [builtins_view, hf]
      rfl
    refine ⟨.builtin a.filePath b', ⟨⟨rfl, _, hspan ▸ hview, hb'⟩, id, haction, fun _ _ _ he => (nomatch he)⟩, ?_⟩
    refine Result.bind_eq_ok.2 ⟨_, hview, Result.bind_eq_ok.2 ⟨b', hfirst, ?_⟩⟩
    exact congrArg (fun a => Except.ok (b'.action, a)) haction

/-- The token of a candidate leads back to one that stands for it. -/
theorem relocate_of_made (raw profile : String) (version : Nat) (hs : read.FitsAll s)
    (h : c.Made (model read) s path span) : ∃ c', c.StandsFor (model read) s path c' ∧
      Pipeline.relocate (model read) s raw ⟨version, profile, { c.action s with title := "" }⟩ =
        .ok (c'.change, c.action s) := by
  obtain ⟨f, hf, hp⟩ := placed_of_made hs h
  obtain ⟨text, ht, -⟩ := sourceFile_eq_ok.1 hf
  obtain ⟨d, hd, -⟩ := Option.map_eq_some_iff.1 ht
  obtain ⟨c', hstands, hcandidate⟩ := candidate_of_made raw hs h (a := { c.action s with title := "" })
    hp.filePath rfl rfl
  refine ⟨c', hstands, Pipeline.relocate_eq_ok.2 ⟨⟨d, ?_⟩, ⟨c.key, ?_, hcandidate⟩, sameAction_withoutTitle _⟩⟩
  · rw [← hd]
    exact congrArg s.document? hp.filePath
  · change ProviderKey.decode (c.action s).providerKey = some c.key
    rw [Candidate.providerKey_action, ProviderKey.decode_encode]

/-- The token of a candidate prepares the change of one that stands for it. -/
theorem prepared_of_made {s : Session} (maxCells : Nat) (profile : String) (hs : read.FitsAll s.snapshot)
    (hw : s.InWords) (h : c.Made (model read) s.snapshot path span) (hf : sourceFile read s.snapshot path = .ok f)
    (hspan : span.Within f.chars) : ∃ c' next, c.StandsFor (model read) s.snapshot path c' ∧
      c'.change.apply s.snapshot = .ok next ∧
      Pipeline.prepared (model read) maxCells (ActionToken.encode (c.action s.snapshot) s.version profile)
        s.snapshot s.version =
          .ok ⟨c.action s.snapshot, Policy.evaluate (c.action s.snapshot) profile, s.version, next,
            .between s.snapshot next maxCells⟩ := by
  obtain ⟨text, ht, rfl⟩ := sourceFile_eq_ok.1 hf
  obtain ⟨d, hd, rfl⟩ := Option.map_eq_some_iff.1 ht
  have hwritable := writable_of_made hs h hf hspan (hw.documents d (Snapshot.document?_path hd).1)
  obtain ⟨c', hstands, hrelocate⟩ := relocate_of_made
    (ActionToken.encode (c.action s.snapshot) s.version profile) profile s.version hs h
  -- What is found again makes one edit as well, and an edit that fits can be made.
  obtain ⟨f', hf', hplaced⟩ := placed_of_made hs hstands.made
  rw [hf] at hf'
  cases hf'
  obtain ⟨title, key, es, hchange, e, rfl, he⟩ := hplaced.edit
  obtain ⟨next, new, happly, -⟩ := apply_single title key ht he
  rw [← hchange] at happly
  exact ⟨c', next, hstands, happly, Pipeline.prepared_eq_ok.2 ⟨_, ActionToken.decode_encode hw.version hwritable,
    Pipeline.prepareOn_eq_ok.2 ⟨rfl, c'.change, _, next, hrelocate, happly, rfl⟩⟩⟩

end

end CSharp

end Workbench
