import Workbench.Proofs.Confinement
import Workbench.Proofs.Judging
import Workbench.Proofs.Writing

/-!
# Fixes that are chosen

A pass chooses one fix for each diagnostic unless it overlaps an earlier
choice. The fixes of one rule of C# never get in each other's way in the tree
of a text without errors, so a single pass deals with every diagnostic.
-/

namespace Workbench

namespace Cleanup

/-! ## One diagnostic after another -/

section
variable {r : Registry} {s : Snapshot} {path title key : String} {d : Diagnostic} {e : Edit}
  {chosen : List DocumentEdit}

/-- What is chosen for a document once its diagnostic has been looked at. -/
theorem chosenFor_choose (hbest : best? r s d = some (.single title key path [e])) :
    chosenFor (choose r s chosen d) path =
      if Edit.disjoint (chosenFor chosen path) [e] then chosenFor chosen path ++ [e] else chosenFor chosen path := by
  have hfits : fitsIn chosen (.single title key path [e]) = Edit.disjoint (chosenFor chosen path) [e] := by
    rw [fitsIn, CodeAction.single, List.all_cons, List.all_nil, Bool.and_true]
  rw [choose, hbest]
  dsimp only
  rw [hfits]
  split
  · exact (chosenFor_add ⟨path, [e]⟩).trans (by rw [if_pos rfl])
  · rfl

/-- Fixes of which any two have the same span or do not overlap are all chosen, but for those that have the span of
another. -/
theorem exists_chosen {ds : List Diagnostic} {fix : Diagnostic → Edit → Prop}
    (hbest : ∀ d ∈ ds, ∃ e title key, fix d e ∧ best? r s d = some (.single title key path [e]))
    (hmeet : ∀ d ∈ ds, ∀ d' ∈ ds, ∀ e e', fix d e → fix d' e' → e.span = e'.span ∨ Edit.disjoint [e] [e'] = true)
    (hd : d ∈ ds) : ∃ e, fix d e ∧ ∃ e' ∈ chosenFor (ds.foldl (choose r s) []) path, e'.span = e.span := by
  -- What has been chosen so far stays, and all of it fixes some of the diagnostics.
  suffices h : ∀ (rest : List Diagnostic) (chosen : List DocumentEdit), (∀ d ∈ rest, d ∈ ds) →
      (∀ e ∈ chosenFor chosen path, ∃ d ∈ ds, fix d e) →
        (∀ e ∈ chosenFor chosen path, e ∈ chosenFor (rest.foldl (choose r s) chosen) path) ∧
          ∀ d ∈ rest, ∃ e, fix d e ∧ ∃ e' ∈ chosenFor (rest.foldl (choose r s) chosen) path, e'.span = e.span from
    (h ds [] (fun _ h => h) fun e he => nomatch he).2 d hd
  intro rest
  induction rest with
  | nil => exact fun _ _ _ => ⟨fun _ he => he, fun _ hd => nomatch hd⟩
  | cons d rest ih =>
    intro chosen hrest hchosen
    obtain ⟨hmem, hrest⟩ := List.forall_mem_cons.1 hrest
    obtain ⟨e, title, key, hfix, hbest⟩ := hbest d hmem
    have hstep : chosenFor (choose r s chosen d) path = _ := chosenFor_choose hbest
    have hnext : (∀ e ∈ chosenFor (choose r s chosen d) path, ∃ d ∈ ds, fix d e) ∧
        (∀ e ∈ chosenFor chosen path, e ∈ chosenFor (choose r s chosen d) path) ∧
          ∃ e' ∈ chosenFor (choose r s chosen d) path, e'.span = e.span := by
      rw [hstep]
      split
      · refine ⟨fun e' he' => ?_, fun e' he' => List.mem_append_left _ he', e, by simp, rfl⟩
        rcases List.mem_append.1 he' with he' | he'
        · exact hchosen e' he'
        · exact ⟨d, hmem, List.mem_singleton.1 he' ▸ hfix⟩
      · rename_i hoverlap
        refine ⟨hchosen, fun _ he' => he', ?_⟩
        -- The edit in the way has the same span.
        by_contra hother
        refine hoverlap (List.all_eq_true.2 fun e' he' => ?_)
        obtain ⟨d', hd', hfix'⟩ := hchosen e' he'
        rcases hmeet d' hd' d hmem e' e hfix' hfix with hsame | hdisjoint
        · exact absurd ⟨e', he', hsame⟩ hother
        · simpa [Edit.disjoint] using hdisjoint
    obtain ⟨hkeep, hall⟩ := ih (choose r s chosen d) hrest hnext.1
    refine ⟨fun e' he' => hkeep e' (hnext.2.1 e' he'), List.forall_mem_cons.2 ⟨?_, hall⟩⟩
    obtain ⟨e', he', hspan⟩ := hnext.2.2
    exact ⟨e, hfix, e', hkeep e' he', hspan⟩

end

end Cleanup

/-! ## Whole lines that go -/

namespace Text

section
variable {cs w r gap mid : List Char} {start stop : Nat}

/-- What stands before something that is dropped from the end is not shortened. -/
theorem size_le_dropEndWhile {p : Char → Bool} (h : ∀ c ∈ w.getLast?, p c = false) :
    size w ≤ size (dropEndWhile p (w ++ r)) := by
  obtain ⟨back, hsplit, hback⟩ := dropEndWhile_eq_append p (w ++ r)
  refine Nat.le_of_not_lt fun hlt => ?_
  obtain ⟨mid, hw, hmid⟩ := exists_mid_of_size_le hsplit.symm (Nat.le_of_lt hlt)
  have hne : mid ≠ [] := by
    rintro rfl
    rw [List.append_nil] at hw
    exact Nat.ne_of_lt hlt (congrArg size hw.symm)
  have hlast : w.getLast? = some (mid.getLast hne) := by
    rw [hw, List.getLast?_append, List.getLast?_eq_some_getLast hne]
    rfl
  have hdropped := hback (mid.getLast hne) (hmid ▸ List.mem_append_left _ (List.getLast_mem hne))
  rw [h _ hlast] at hdropped
  cases hdropped

/-- Widening to whole lines does not reach over what is no indentation. -/
theorem le_removalSpan (hcs : cs = (w ++ gap) ++ r) (hstart : size (w ++ gap) = start)
    (h : ∀ c ∈ w.getLast?, isIndent c = false) : size w ≤ (removalSpan cs start stop).1 := by
  subst hcs
  have hle : size w ≤ start := by
    rw [← hstart, size_append]
    exact Nat.le_add_right _ _
  rw [removalSpan, ← hstart, splitAt?_append, hstart]
  split
  · rename_i hbefore _
    cases hbefore
    dsimp only
    split
    · exact size_le_dropEndWhile h
    · exact hle
  · exact hle

/-- What is dropped from the beginning ends before what is not to be dropped. -/
theorem exists_dropWhile (p : Char → Bool) {d : Char} (hd : p d = false) (gap r : List Char) :
    ∃ front back, gap = front ++ back ∧ (gap ++ d :: r).dropWhile p = back ++ d :: r := by
  induction gap with
  | nil => exact ⟨[], [], rfl, by simp [hd]⟩
  | cons c gap ih =>
    obtain ⟨front, back, rfl, hdrop⟩ := ih
    rw [List.cons_append, List.dropWhile_cons]
    split
    · exact ⟨c :: front, back, rfl, hdrop⟩
    · exact ⟨[], c :: (front ++ back), rfl, rfl⟩

/-- Before something visible, widening to whole lines goes as far as the end of the line. -/
theorem removalSpan_stop {d : Char} (start : Nat) (hcs : cs = w ++ (gap ++ d :: r)) (hstop : size w = stop) (hd : isBlank d = false) :
    ∃ front back, gap = front ++ back ∧ (front = [] ∨ front.getLast? = some '\n') ∧
      (removalSpan cs start stop).2 = size (w ++ front) := by
  subst hcs
  have hstay : ∃ front back, gap = front ++ back ∧ (front = [] ∨ front.getLast? = some '\n') ∧ stop = size (w ++ front) :=
    ⟨[], gap, rfl, .inl rfl, by rw [List.append_nil, hstop]⟩
  rw [removalSpan, ← hstop, splitAt?_append, hstop]
  split
  · rename_i hafter
    cases hafter
    dsimp only
    split
    · rename_i hwhole
      obtain ⟨-, hright⟩ := Bool.and_eq_true_iff.1 hwhole
      have hvisible : (isIndent d || d == '\r') = false := by
        rw [Bool.eq_false_iff]
        intro h
        simp only [isIndent, Bool.or_eq_true, beq_iff_eq] at h
        rcases h with (rfl | rfl) | rfl <;> revert hd <;> decide
      obtain ⟨front, back, rfl, hdrop⟩ :=
        exists_dropWhile (fun c => isIndent c || c == '\r') hvisible gap r
      rw [hdrop] at hright ⊢
      cases back with
      | nil =>
        -- Something visible ends no line.
        cases (by simpa using hright : d = '\n')
        exact absurd hd (by decide)
      | cons c back =>
        cases (by simpa using hright : c = '\n')
        refine ⟨front ++ ['\n'], back, by simp, .inr (by simp), ?_⟩
        have hone : Char.utf8Size '\n' = 1 := by decide
        rw [List.cons_append, List.isEmpty_cons, if_neg Bool.false_ne_true]
        simp only [size_append, size_cons, size_nil, hone, hstop]
        omega
    · exact hstay
  · exact hstay

end

end Text

namespace CSharp

/-! ## The diagnostics of a rule -/

section
variable {read : Parser} {s : Snapshot} {path id typeName title key : String} {ids fixable : List String}
  {f : SourceFile} {edits? : SourceFile → Diagnostic → Option (List Edit)} {chosen : List DocumentEdit}

/-- A diagnostic is about a local, a directive, modifiers or a field, and its id tells which. -/
theorem diagnostics_cases {c : Compilation} {d : Diagnostic} (hf : f.root.fits f.chars = true) (h : d ∈ diagnostics c f) :
    (d.id = UnusedLocal.declaredId ∨ d.id = UnusedLocal.assignedId) ∨
      (∃ u ∈ Using.unneeded c f, d = usingDiagnostic f u) ∨ (∃ sp ∈ Modifier.misorderedRanges f, d = modifierDiagnostic f sp) ∨
        ∃ n ∈ ReadonlyField.all f, d = readonlyDiagnostic f n := by
  rw [diagnostics, List.mem_mergeSort] at h
  simp only [List.mem_append, List.mem_map] at h
  rcases h with ((⟨l, hl, rfl⟩ | ⟨u, hu, rfl⟩) | ⟨sp, hsp, rfl⟩) | ⟨n, hn, rfl⟩
  · exact .inl (UnusedLocal.placed_of_mem hf hl).id
  · exact .inr (.inl ⟨u, hu, rfl⟩)
  · exact .inr (.inr (.inl ⟨sp, hsp, rfl⟩))
  · exact .inr (.inr (.inr ⟨n, hn, rfl⟩))

theorem best?_of_provider {r : Registry} {d : Diagnostic} (hf : sourceFile read s d.path = .ok f)
    (hprov : r.fixProvidersFor d.id = [fixProvider read typeName fixable title key edits?]) :
    Cleanup.best? r s d = (edits? f d).map (CodeAction.single title key d.path) := by
  have hprovide : (fixProvider read typeName fixable title key edits?).provide s d =
      .ok ((edits? f d).map (CodeAction.single title key d.path)).toList := by
    simp only [fixProvider, hf, Except.map]
    cases edits? f d <;> rfl
  rw [Cleanup.best?, Cleanup.candidates, hprov, List.flatMap_singleton, hprovide]
  cases edits? f d <;> simp

/-- A pass over a document chooses among what one provider offers for the diagnostics of one id. -/
theorem exists_chosen_fix {offered : Edit → Prop} (hfile : sourceFile read s path = .ok f)
    (hfits : f.root.fits f.chars = true) (hchosen : Cleanup.chooseFixes (model read) s path ids = .ok chosen)
    (hprov : ∀ r, registry read = .ok r → r.fixProvidersFor id = [fixProvider read typeName fixable title key edits?])
    (hids : ∀ id' ∈ [UnusedLocal.declaredId, UnusedLocal.assignedId, unneededUsingId, modifierOrderId, readonlyFieldId],
      ids.contains id' = true ↔ id' = id)
    (hedit : ∀ d ∈ diagnostics (.ofSnapshot read s) f, d.id = id → ∃ e, offered e ∧ edits? f d = some [e])
    (hmeet : ∀ e e', offered e → offered e' → e.span = e'.span ∨ Edit.disjoint [e] [e'] = true)
    {d : Diagnostic} (hd : d ∈ diagnostics (.ofSnapshot read s) f) (hid : d.id = id) :
    ∃ e, edits? f d = some [e] ∧ ∃ e' ∈ Cleanup.chosenFor chosen path, e'.span = e.span := by
  obtain ⟨r, hr, hchosen⟩ := Result.bind_eq_ok.1 hchosen
  obtain ⟨ds, hds, hchosen⟩ := Result.bind_eq_ok.1 hchosen
  rw [diagnostics_view, hfile] at hds
  cases hds
  cases hchosen
  have hmem : ∀ d ∈ (diagnostics (.ofSnapshot read s) f).filter (fun d => ids.contains d.id),
      d ∈ diagnostics (.ofSnapshot read s) f ∧ d.id = id := fun d hd => by
    obtain ⟨hd, hcontains⟩ := List.mem_filter.1 hd
    exact ⟨hd, (hids d.id (mem_diagnostics hfits hd).2.2).1 hcontains⟩
  have hwanted : d ∈ (diagnostics (.ofSnapshot read s) f).filter fun d => ids.contains d.id :=
    List.mem_filter.2 ⟨hd, (hids d.id (mem_diagnostics hfits hd).2.2).2 hid⟩
  have hfix : ∀ d ∈ (diagnostics (.ofSnapshot read s) f).filter (fun d => ids.contains d.id),
      ∃ e title key, (offered e ∧ edits? f d = some [e]) ∧ Cleanup.best? r s d = some (.single title key path [e]) := by
    intro d hd
    obtain ⟨hd, hid⟩ := hmem d hd
    obtain ⟨e, hoffered, he⟩ := hedit d hd hid
    have hpath : d.path = path := by
      obtain ⟨text, -, rfl⟩ := sourceFile_eq_ok.1 hfile
      exact path_of_mem_diagnostics hd
    have hbest := best?_of_provider (d := d) (hpath ▸ hfile) (hid ▸ hprov r hr)
    rw [he, Option.map_some, hpath] at hbest
    exact ⟨e, title, key, ⟨hoffered, he⟩, hbest⟩
  obtain ⟨e, ⟨-, he⟩, hfixed⟩ :=
    Cleanup.exists_chosen hfix (fun _ _ _ _ e e' he he' => hmeet e e' he.1 he'.1) hwanted
  exact ⟨e, he, hfixed⟩

end

/-! ## Looking for a node -/

section
variable {f : SourceFile} {n m : Node} {sp : Span} {ks : List Kind} {at_ : Nat}

/-- A node that covers a span comes by on the way to it, since all nodes around it cover the span too. -/
theorem Node.mem_walk_covers (hnests : n.nests = true) (hm : m ∈ n.descendants) (hcovers : Node.covers sp m = true)
    (around : List Node) : m ∈ (n.walk (Node.covers sp) around).map (·.node) := by
  induction n using Node.childInduction generalizing around with
  | step n ih =>
    refine Node.mem_map_walk.2 ?_
    rcases Node.mem_descendants.1 hm with rfl | ⟨c, hc, hnamed, hmc⟩
    · exact .inl rfl
    · have hwithin := Node.within_of_mem_descendants hnests hm
      refine .inr ⟨?_, c, hc, hnamed, ih c hc (Node.nests_of_child hnests hc) hmc (n :: around)⟩
      simp only [Node.covers, Bool.and_eq_true, decide_eq_true_eq] at hcovers ⊢
      exact ⟨hwithin.start.trans hcovers.1, hcovers.2.trans hwithin.stop⟩

theorem of_covering? (h : n.covering? sp ks = some m) :
    m ∈ n.descendants ∧ ks.contains m.kind = true ∧ Node.covers sp m = true := by
  obtain ⟨hwalk, hboth⟩ := List.mem_filter.1 (List.mem_of_getLast? h)
  obtain ⟨hcovers, hkind⟩ := Bool.and_eq_true_iff.1 hboth
  exact ⟨Node.mem_descendants_of_mem_walk hwalk, hkind, hcovers⟩

/-- Where a node of one of the kinds covers a span, one is found. -/
theorem exists_covering (hnests : n.nests = true) (hm : m ∈ n.descendants) (hk : ks.contains m.kind = true)
    (hcovers : Node.covers sp m = true) :
    ∃ k, n.covering? sp ks = some k ∧ k ∈ n.descendants ∧ ks.contains k.kind = true ∧ Node.covers sp k = true := by
  have hmem : m ∈ ((n.walk (Node.covers sp) []).map (·.node)).filter fun k => Node.covers sp k && ks.contains k.kind :=
    List.mem_filter.2 ⟨Node.mem_walk_covers hnests hm hcovers [], by rw [hcovers, hk]; rfl⟩
  obtain ⟨k, hk⟩ : ∃ k, n.covering? sp ks = some k := ⟨_, List.getLast?_eq_some_getLast (List.ne_nil_of_mem hmem)⟩
  exact ⟨k, hk, of_covering? hk⟩

end

/-! ## Directives that nothing needs -/

section
variable {read : Parser} {s : Snapshot} {path : String} {f : SourceFile} {n m : Node} {chosen : List DocumentEdit}

/-- Of two directives one does not stand in the other. -/
theorem eq_of_directives (hf : f.Sound) (hn : n ∈ f.root.descendants) (hkn : n.kind = .usingDirective)
    (hkm : m.kind = .usingDirective) (h : m ∈ n.descendants) : m = n := by
  rcases Node.mem_descendants.1 h with rfl | ⟨c, hc, -, hmc⟩
  · rfl
  · have hregular := Node.regular_of_everywhere (Node.everywhere_of_mem_descendants hf.regular hn)
    exact absurd hkm (Using.not_below_directive hregular hkn hc hmc)

/-- The lines of a directive end before those of a later one begin. -/
theorem removal_apart (hf : f.Sound) (hn : n ∈ f.root.descendants) (hm : m ∈ f.root.descendants)
    (hkn : n.kind = .usingDirective) (hkm : m.kind = .usingDirective) (h : n.stop ≤ m.start) :
    (Text.removalSpan f.chars n.start n.stop).2 ≤ (Text.removalSpan f.chars m.start m.stop).1 := by
  have htight : ∀ {k : Node}, k ∈ f.root.descendants → k.kind = .usingDirective → isTight (f.text k).toList = true :=
    fun hk hkind =>
      ((Node.regular_of_everywhere (Node.everywhere_of_mem_descendants hf.regular hk)).directive hkind).2.1
  obtain ⟨x, mid, y, hchars, -, hstop, htext⟩ := exists_parts_of_fits (Node.fits_of_mem_descendants hf.fits hn)
  obtain ⟨x', mid', y', hchars', hstart', -, htext'⟩ := exists_parts_of_fits (Node.fits_of_mem_descendants hf.fits hm)
  have hmid := htight hn hkn
  have hmid' := htight hm hkm
  rw [htext] at hmid
  rw [htext'] at hmid'
  have hsplit : (x ++ mid) ++ y = x' ++ (mid' ++ y') := by rw [List.append_assoc, ← hchars, hchars']
  obtain ⟨gap, rfl, rfl⟩ := Text.exists_mid_of_size_le hsplit (by rw [hstop, hstart']; exact h)
  obtain ⟨⟨d, hd, hvisible⟩, last, hlast, hlastVisible⟩ :
      (∃ d, mid'.head? = some d ∧ Text.isBlank d = false) ∧ ∃ l, mid.getLast? = some l ∧ Text.isBlank l = false := by
    simp only [isTight, Bool.and_eq_true, Option.any_eq_true, Bool.not_eq_true'] at hmid hmid'
    exact ⟨hmid'.1, hmid.2⟩
  obtain ⟨rest, rfl⟩ := List.head?_eq_some_iff.1 hd
  have hcs : f.chars = (x ++ mid) ++ (gap ++ d :: (rest ++ y')) := by rw [hchars, List.append_assoc, List.cons_append]
  obtain ⟨front, back, rfl, hfront, hend⟩ := Text.removalSpan_stop n.start hcs hstop hvisible
  have hindent : ∀ c, Text.isBlank c = false → Text.isIndent c = false := by
    intro c hc
    rw [Bool.eq_false_iff]
    intro hi
    simp only [Text.isIndent, Bool.or_eq_true, beq_iff_eq] at hi
    rcases hi with rfl | rfl <;> revert hc <;> decide
  have hedge : ∀ c ∈ ((x ++ mid) ++ front).getLast?, Text.isIndent c = false := by
    intro c hc
    rw [List.getLast?_append, List.getLast?_append] at hc
    rcases hfront with rfl | hfront
    · rw [List.getLast?_nil, Option.none_or, hlast, Option.some_or] at hc
      cases hc
      exact hindent _ hlastVisible
    · rw [hfront, Option.some_or] at hc
      cases hc
      decide
  rw [hend]
  rw [← List.append_assoc] at hstart'
  refine Text.le_removalSpan (r := d :: (rest ++ y')) ?_ hstart' hedge
  rw [hcs]
  simp only [List.append_assoc]

theorem removal_span_stop (hf : f.Sound) (hn : n ∈ f.root.descendants) :
    (Span.ofBounds (Text.removalSpan f.chars n.start n.stop).1 (Text.removalSpan f.chars n.start n.stop).2).stop =
      (Text.removalSpan f.chars n.start n.stop).2 := by
  have hfits := Node.fits_of_mem_descendants hf.fits hn
  obtain ⟨-, -, hstart, hstop⟩ := Text.removalSpan_spec (Node.fits_start hfits) (Node.fits_stop hfits)
  exact Span.stop_ofBounds ((hstart.trans (Node.fits_range hfits)).trans hstop)

theorem usingRemoval?_eq {d : Diagnostic} (hf : f.Sound) (hn : n ∈ f.root.descendants) (hk : n.kind = .usingDirective)
    (hspan : d.span = n.span) : usingRemoval? f d = some [.delete
      (.ofBounds (Text.removalSpan f.chars n.start n.stop).1 (Text.removalSpan f.chars n.start n.stop).2)] := by
  have hfits := Node.fits_of_mem_descendants hf.fits hn
  have hcovers : Node.covers d.span n = true := by
    rw [hspan, Node.covers, Node.stop_span hfits]
    simp [Node.start_span]
  obtain ⟨k, hcovering, hmem, hkind, hcovers'⟩ :=
    exists_covering hf.nests hn (show [Kind.usingDirective].contains n.kind = true by simp [hk]) hcovers
  have hkind : k.kind = .usingDirective := by simpa using hkind
  have he : k = n := by
    rcases Node.below_or_apart hf.nests hmem hn with hbelow | hbelow | hapart
    · exact eq_of_directives hf hn hk hkind hbelow
    · exact (eq_of_directives hf hmem hkind hk hbelow).symm
    · have hpos := Node.fits_usingDirective hfits hk
      rw [hspan, Node.covers, Node.stop_span hfits, Node.start_span, Bool.and_eq_true, decide_eq_true_eq,
        decide_eq_true_eq] at hcovers'
      simp only [Node.apart, Bool.or_eq_true, decide_eq_true_eq] at hapart
      omega
  rw [usingRemoval?, hcovering, he]
  rfl

theorem exists_directive {c : Compilation} {u : Using} (h : u ∈ Using.unneeded c f) :
    ∃ n ∈ f.root.descendants, n.kind = .usingDirective ∧ u = .ofNode f n := by
  rw [Using.unneeded_eq] at h
  obtain ⟨p, hp, rfl⟩ := Using.mem_unneededFrom h
  obtain ⟨x, hx, hk, rfl, -⟩ := Using.exists_of_mem_placed hp
  exact ⟨x.node, List.mem_map_of_mem hx, hk, rfl⟩

/-- The edits that take a directive out with its lines. -/
def IsRemoval (f : SourceFile) (e : Edit) : Prop := ∃ n ∈ f.root.descendants, n.kind = .usingDirective ∧
  e = .delete (.ofBounds (Text.removalSpan f.chars n.start n.stop).1 (Text.removalSpan f.chars n.start n.stop).2)

theorem removals_meet (hf : f.Sound) {e e' : Edit} (h : IsRemoval f e) (h' : IsRemoval f e') :
    e.span = e'.span ∨ Edit.disjoint [e] [e'] = true := by
  obtain ⟨n, hn, hkn, rfl⟩ := h
  obtain ⟨m, hm, hkm, rfl⟩ := h'
  rcases Node.below_or_apart hf.nests hn hm with hbelow | hbelow | hapart
  · exact .inl (by rw [eq_of_directives hf hm hkm hkn hbelow])
  · exact .inl (by rw [eq_of_directives hf hn hkn hkm hbelow])
  · refine .inr ?_
    obtain ⟨hstop, hstop'⟩ := And.intro (removal_span_stop hf hn) (removal_span_stop hf hm)
    simp only [Node.apart, Bool.or_eq_true, decide_eq_true_eq] at hapart
    simp only [Edit.disjoint, Edit.delete, List.all_cons, List.all_nil, Bool.and_true, Bool.or_eq_true, decide_eq_true_eq,
      hstop, hstop']
    exact hapart.imp (removal_apart hf hn hm hkn hkm) (removal_apart hf hm hn hkm hkn)

/-- A pass takes out every directive that nothing needs. -/
theorem exists_removal (hfile : sourceFile read s path = .ok f) (hf : f.Sound)
    (hchosen : Cleanup.chooseFixes (model read) s path CleanupRule.removeUnusedImports.diagnosticIds = .ok chosen)
    {u : Using} (hu : u ∈ Using.unneeded (.ofSnapshot read s) f) : ∃ e ∈ Cleanup.chosenFor chosen path,
      e.span.start ≤ u.span.start ∧ u.span.stop ≤ e.span.stop := by
  have hremoval : ∀ d ∈ diagnostics (.ofSnapshot read s) f, d.id = unneededUsingId →
      ∃ e, IsRemoval f e ∧ usingRemoval? f d = some [e] := by
    intro d hd hid
    rcases diagnostics_cases hf.fits hd with (h | h) | ⟨u, hu, rfl⟩ | ⟨sp, -, rfl⟩ | ⟨n, -, rfl⟩
    · exact absurd (h.symm.trans hid) (by decide)
    · exact absurd (h.symm.trans hid) (by decide)
    · obtain ⟨n, hn, hk, rfl⟩ := exists_directive hu
      exact ⟨_, ⟨n, hn, hk, rfl⟩, usingRemoval?_eq hf hn hk rfl⟩
    · exact absurd (show modifierOrderId = unneededUsingId from hid) (by decide)
    · exact absurd (show readonlyFieldId = unneededUsingId from hid) (by decide)
  have hd : usingDiagnostic f u ∈ diagnostics (.ofSnapshot read s) f := by
    rw [diagnostics, List.mem_mergeSort]
    simp only [List.mem_append, List.mem_map]
    exact .inl (.inl (.inr ⟨u, hu, rfl⟩))
  have hprov : ∀ r, registry read = .ok r → r.fixProvidersFor unneededUsingId = [removeUnnecessaryImports read] := by
    intro r hr
    obtain ⟨rfl, -⟩ := Registry.ofProviders_eq_ok hr
    rfl
  obtain ⟨e, he, e', he', hspan⟩ :=
    exists_chosen_fix hfile hf.fits hchosen hprov (by decide) hremoval (fun _ _ => removals_meet hf) hd rfl
  obtain ⟨n, hn, hk, rfl⟩ := exists_directive hu
  have hfits := Node.fits_of_mem_descendants hf.fits hn
  obtain ⟨-, -, hstart, hstop⟩ := Text.removalSpan_spec (Node.fits_start hfits) (Node.fits_stop hfits)
  rw [usingRemoval?_eq hf hn hk rfl] at he
  cases he
  refine ⟨e', he', ?_, ?_⟩
  · rw [hspan]
    exact hstart
  · rw [hspan, Edit.delete, removal_span_stop hf hn]
    exact (Node.stop_span hfits).trans_le hstop

end

end CSharp

end Workbench
