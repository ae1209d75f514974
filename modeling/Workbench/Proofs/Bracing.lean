import Workbench.CSharp.Tree
import Workbench.Proofs.Registry
import Workbench.Proofs.Applying
import Workbench.Proofs.Formatting

/-!
# Bodies in braces

The body of an if statement is put into braces by one edit that begins behind
the closing bracket of the condition. The body is written again, blanks apart;
what stands between the bracket and the body is not, so the text stays the
same but for blanks and braces exactly when only blanks stand there.
-/

namespace Workbench

namespace Text

section
variable {gap front back : List Char}

theorem ink_lineIndent (cs : List Char) (n : Nat) : ink (lineIndent cs n) = [] := by
  refine ink_eq_nil_iff.2 fun c hc => ?_
  have hindent : isIndent c = true := List.mem_takeWhile_imp hc
  simp only [isIndent, Bool.or_eq_true, beq_iff_eq] at hindent
  rcases hindent with rfl | rfl
  · decide
  · decide

/-- A part can be left out when it has blanks only. -/
theorem ink_without_iff :
    ink front ++ back = ink (front ++ gap) ++ back ↔ ∀ c ∈ gap, isBlank c = true := by
  rw [← ink_eq_nil_iff, ink_append]
  simp

end

end Text

namespace CSharp

section
variable {read : Parser} {s : Snapshot} {path : String} {span : Span} {f : SourceFile} {statement bracket body : Node}

/-- A text around a bracket and a body: up to the bracket, between the two, and behind the body. -/
structure Parted (f : SourceFile) (bracket body : Node) (front gap back : List Char) : Prop where
  chars : f.chars = front ++ gap ++ ((f.text body).toList ++ back)
  atBracket : Text.size front = bracket.stop
  atBody : Text.size (front ++ gap) = body.start
  behindBody : Text.size (front ++ gap ++ (f.text body).toList) = body.stop

theorem Unbraced.exists_parted (h : Unbraced f span statement bracket body) (hf : f.root.fits f.chars = true) :
    ∃ front gap back, Parted f bracket body front gap back := by
  have hstatement := (covering?_spec hf h.covering).1
  obtain ⟨hbracket, hle⟩ := List.mem_filter.1 (List.mem_of_getLast? h.closing)
  have hle : bracket.stop ≤ body.start := by simpa using (Bool.and_eq_true_iff.1 hle).2
  have hbracket := (Node.fits_child hstatement hbracket).1
  have hbody := (Node.fits_child hstatement (mem_of_child? h.consequence)).1
  obtain ⟨before, inner, back, hchars, hstart, hstop, htext⟩ := exists_parts_of_fits hbody
  obtain ⟨front, rest, hparts, hfront⟩ := Text.isBoundary_iff.1 (Node.fits_stop hbracket)
  obtain ⟨gap, rfl, -⟩ := Text.exists_mid_of_size_le (hparts.symm.trans hchars) (by omega)
  exact ⟨front, gap, back, ⟨by rw [htext, hchars], hfront, hstart, by rw [htext, hstop]⟩⟩

theorem ink_braced (f : SourceFile) (statement body : Node) :
    Text.ink (braced f statement body).toList = '\x7b' :: (Text.ink (f.text body).toList ++ ['\x7d']) := by
  have hnewline : Text.ink (newlineOf f.chars).toList = [] := by
    unfold newlineOf
    split
    · decide
    · decide
  have htrim : Text.ink (trim (f.text body)).toList = Text.ink (f.text body).toList := by
    rw [trim, String.toList_ofList, Text.ink_trim]
  simp only [braced, String.toList_append, Text.ink_append, hnewline, htrim, String.toList_ofList,
    Text.ink_lineIndent, List.append_nil, List.nil_append]
  rfl

/-- The text with the body in braces. -/
def rewritten (f : SourceFile) (statement body : Node) (front back : List Char) : List Char :=
  front ++ ((braced f statement body).toList ++ back)

theorem applyAll_braced {front gap back : List Char} {text : String} (hpath : f.chars = text.toList)
    (h : Parted f bracket body front gap back) :
    Edit.applyAll text [⟨.ofBounds bracket.stop body.stop, braced f statement body⟩] =
      .ok (.ofList (rewritten f statement body front back)) := by
  have hmade : Edit.Made 0 (front ++ ((gap ++ (f.text body).toList) ++ back))
      [⟨.ofBounds bracket.stop body.stop, braced f statement body⟩] (rewritten f statement body front back) := by
    refine .edit ?_ ?_ (.done _ _)
    · exact h.atBracket.symm.trans (Nat.zero_add _).symm
    · have hbehind := h.behindBody
      rw [List.append_assoc, Text.size_append, h.atBracket] at hbehind
      exact Nat.sub_eq_of_eq_add' hbehind.symm
  have hchars : text.toList = front ++ ((gap ++ (f.text body).toList) ++ back) := by
    rw [← hpath, h.chars]
    simp
  rw [← hchars] at hmade
  rw [Edit.applyAll, Edit.applyChars_eq_ok_iff.2 (by rwa [List.mergeSort_singleton])]
  rfl

/-- Without blanks: a body in braces and what stands behind it. -/
def enclosed (f : SourceFile) (body : Node) (back : List Char) : List Char :=
  '\x7b' :: (Text.ink (f.text body).toList ++ '\x7d' :: Text.ink back)

theorem ink_rewritten (f : SourceFile) (statement body : Node) (front back : List Char) :
    Text.ink (rewritten f statement body front back) = Text.ink front ++ enclosed f body back := by
  simp [rewritten, ink_braced, enclosed]

/-- An action that is offered can be made. It changes one document, and there, blanks apart, it adds the braces and
drops what stands between the bracket and the body. -/
theorem braces_keep_iff {actions : List CodeAction} {a : CodeAction} (hs : read.FitsAll s)
    (h : (addBraces read).provide s path span = .ok actions) (ha : a ∈ actions) :
    ∃ f statement bracket body front gap back next new, sourceFile read s path = .ok f ∧
      Unbraced f span statement bracket body ∧ Parted f bracket body front gap back ∧ a.apply s = .ok next ∧
      (∀ p, next.text? p = if p = path then some new else s.text? p) ∧
      Text.ink new.toList = Text.ink front ++ enclosed f body back ∧
      (Text.ink new.toList = Text.ink (front ++ gap) ++ enclosed f body back ↔
        ∀ c ∈ gap, Text.isBlank c = true) := by
  obtain ⟨f, es, hf, hes, -, rfl⟩ := mem_provide_refactoring h ha
  obtain ⟨statement, bracket, body, hunbraced, rfl⟩ := bracing?_eq_some hes
  have hfits := fits_of_sourceFile hs hf
  obtain ⟨front, gap, back, hparted⟩ := hunbraced.exists_parted hfits
  obtain ⟨text, htext, hfile⟩ := sourceFile_eq_ok.1 hf
  have hchars : f.chars = text.toList := by rw [hfile]; rfl
  obtain ⟨e, he, hspan⟩ := oneEdit_bracing hfits hes
  cases he
  obtain ⟨next, new, hnext, hnew, -, htexts⟩ :=
    apply_single "Add braces to 'if' statement" "AddBraces" htext (hchars ▸ hspan)
  obtain rfl := Except.ok.inj ((applyAll_braced hchars hparted).symm.trans hnew)
  have hink : Text.ink (String.ofList (rewritten f statement body front back)).toList =
      Text.ink front ++ enclosed f body back := by
    rw [String.toList_ofList, ink_rewritten]
  refine ⟨f, statement, bracket, body, front, gap, back, next, _, hf, hunbraced, hparted, hnext, htexts, hink, ?_⟩
  rw [hink]
  exact Text.ink_without_iff

end

def guardedCall : Snapshot :=
  .addDocument .empty "App" "a.cs" "class A \x7b void M(bool ok) \x7b if (ok) Run(); \x7d \x7d" none

theorem braces_keep_call : Parser.FitsAll parse guardedCall ∧ ∃ actions a f body front gap back next new,
    (addBraces parse).provide guardedCall "a.cs" ⟨28, 0⟩ = .ok actions ∧ a ∈ actions ∧
      a.apply guardedCall = .ok next ∧ next.text? "a.cs" = some new ∧
      (Text.ink new.toList = Text.ink (front ++ gap) ++ enclosed f body back ↔
        ∀ c ∈ gap, Text.isBlank c = true) := by
  have hfits : Parser.FitsAll parse guardedCall := by
    unfold Parser.FitsAll
    decide +kernel
  have hoffered : (addBraces parse).provide guardedCall "a.cs" ⟨28, 0⟩ = .ok [.single "Add braces to 'if' statement"
      "AddBraces" "a.cs" [⟨⟨35, 7⟩, "\n\x7b\n    Run();\n\x7d"⟩]] := by
    decide +kernel
  obtain ⟨f, _, _, body, front, gap, back, next, new, -, -, -, hnext, htexts, -, hkeep⟩ :=
    braces_keep_iff hfits hoffered (List.mem_singleton_self _)
  exact ⟨hfits, _, _, f, body, front, gap, back, next, new, hoffered, List.mem_singleton_self _, hnext, htexts "a.cs", hkeep⟩

/-- An if statement with a comment before its body. -/
def remarked : Snapshot :=
  .addDocument .empty "App" "a.cs" "class A \x7b void M(bool ok) \x7b if (ok) /* c */ Run(); \x7d \x7d" none

theorem braces_drop_comment : ∃ a next new, (addBraces parse).provide remarked "a.cs" ⟨28, 0⟩ = .ok [a] ∧
    a.apply remarked = .ok next ∧ next.text? "a.cs" = some new ∧
      new = "class A \x7b void M(bool ok) \x7b if (ok)\n\x7b\n    Run();\n\x7d \x7d \x7d" ∧
      Text.ink new.toList ≠ "classA\x7bvoidM(boolok)\x7bif(ok)/*c*/\x7bRun();\x7d\x7d\x7d".toList := by
  have hoffered : (addBraces parse).provide remarked "a.cs" ⟨28, 0⟩ = .ok [.single "Add braces to 'if' statement"
      "AddBraces" "a.cs" [⟨⟨35, 15⟩, "\n\x7b\n    Run();\n\x7d"⟩]] := by
    decide +kernel
  have hspan : Span.Fits "class A \x7b void M(bool ok) \x7b if (ok) /* c */ Run(); \x7d \x7d".toList ⟨35, 15⟩ := by
    constructor
    · decide +kernel
    · decide +kernel
  have hread : remarked.text? "a.cs" = some "class A \x7b void M(bool ok) \x7b if (ok) /* c */ Run(); \x7d \x7d" := by
    decide +kernel
  obtain ⟨next, new, hnext, hnew, -, htexts⟩ := apply_single "Add braces to 'if' statement" "AddBraces"
    (e := ⟨⟨35, 15⟩, "\n\x7b\n    Run();\n\x7d"⟩) hread hspan
  have htext : new = "class A \x7b void M(bool ok) \x7b if (ok)\n\x7b\n    Run();\n\x7d \x7d \x7d" := by
    refine Except.ok.inj (hnew.symm.trans ?_)
    decide +kernel
  refine ⟨_, next, new, hoffered, hnext, htexts "a.cs", htext, ?_⟩
  rw [htext]
  decide +kernel

end CSharp

end Workbench
