import Workbench.Proofs.Formatting
import Workbench.Proofs.Mending

/-!
# What rules leave behind

A rule that has been over a text leaves nothing for itself to do, and it leaves
what the rules before it have done. So five properties of a text, one for each
rule, come to hold in the order of the rules.
-/

namespace Workbench

/-- The rules that run before a rule. -/
def CleanupRule.earlier (rule : CleanupRule) : List CleanupRule := CleanupRule.all.takeWhile (· != rule)

theorem CleanupRule.earlier_eq {done rest : List CleanupRule} {rule : CleanupRule} (h : all = done ++ rule :: rest) :
    rule.earlier = done := by
  have hnodup : all.Nodup := by decide
  rw [h] at hnodup
  have hother : ∀ rule' ∈ done, (rule' != rule) = true := fun rule' hrule' => by
    have hne := (List.nodup_append.1 hnodup).2.2 rule' hrule' rule List.mem_cons_self
    simpa using hne
  rw [earlier, h, List.takeWhile_append_of_pos hother, List.takeWhile_cons_of_neg (by simp), List.append_nil]

namespace CSharp

/-! ## Files in which a rule has nothing to do -/

/-- There is nothing left for a rule to do in a file. -/
def Finished (c : Compilation) (f : SourceFile) : CleanupRule → Prop
  | .removeUnusedImports => Using.Settled c f
  | .organizeImports => SortedUsings f
  | .fixModifierOrder => SettledModifiers f
  | .addMissingReadonly => ReadonlyField.all f = []
  | .format => Layout.formatChars f.chars (Layout.literalRanges f) = f.chars

section
variable {c c' : Compilation} {f g : SourceFile} {rule : CleanupRule} {es : List Edit}

/-- Changes of other files that leave the outlines alone leave a file finished. -/
theorem Finished.of_sameOutlines (h : Finished c f rule) (hindex : c.index.SameOutlines c'.index) : Finished c' f rule := by
  cases rule with
  | removeUnusedImports => exact Using.Settled.of_sameOutlines h hindex
  | organizeImports | fixModifierOrder | addMissingReadonly | format => exact h

/-! ## Edits of a rule -/

theorem keeps_remove : Keeps (Node.reshaped f .removeUnusedImports es) where
  core n := by
    rw [Node.reshaped, List.filter_filter]
    refine List.filter_congr fun a _ => ?_
    by_cases ha : a.kind = .usingDirective <;> simp [isCore, Node.isUsing, ha]
  origin n a ha := .inl (List.mem_filter.1 ha).1

theorem keeps_reshaped (f : SourceFile) (rule : CleanupRule) (es : List Edit) : Keeps (Node.reshaped f rule es) := by
  cases rule with
  | removeUnusedImports => exact keeps_remove
  | organizeImports => exact keeps_organize
  | fixModifierOrder => exact keeps_rank
  | addMissingReadonly => exact (inserts_readonly f es).keeps
  | format => exact inserts_children.keeps

/-- The last three rules leave the directives of each node where they are. -/
theorem filter_isUsing_reshaped (hrule : rule ∈ [CleanupRule.fixModifierOrder, .addMissingReadonly, .format]) (n : Node) :
    (Node.reshaped f rule es n).filter Node.isUsing = n.children.filter Node.isUsing := by
  simp only [List.mem_cons, List.not_mem_nil, or_false] at hrule
  rcases hrule with rfl | rfl | rfl
  · rw [Node.reshaped]
    split
    · refine filter_refill (fun a ha => ?_) fun a ha => (List.mem_filter.1 (List.mem_mergeSort.1 ha)).2
      simp only [Node.isModifier, beq_iff_eq] at ha
      simp [Node.isUsing, ha]
    · rfl
  · obtain h | ⟨-, l, r, hchildren, h⟩ := inserts_readonly f es n
    · rw [h]
    · rw [h, hchildren, List.filter_append, List.filter_cons_of_neg (by decide), ← List.filter_append]
  · rfl

/-- And they leave alone what can hold directives. -/
theorem reshaped_holdsUsings (hrule : rule ∈ [CleanupRule.fixModifierOrder, .addMissingReadonly, .format]) {n : Node}
    (hn : holdsUsings n = true) : Node.reshaped f rule es n = n.children := by
  simp only [holdsUsings, Bool.or_eq_true, beq_iff_eq] at hn
  simp only [List.mem_cons, List.not_mem_nil, or_false] at hrule
  rcases hrule with rfl | rfl | rfl
  · have hkind : Modifier.mayBeMisordered n.kind = false := by
      rcases hn with (hk | hk) | hk <;> rw [hk] <;> rfl
    rw [Node.reshaped, hkind, Bool.false_and]
    rfl
  · refine (inserts_readonly f es n).resolve_right ?_
    rintro ⟨hk, -⟩
    rw [hk] at hn
    simp at hn
  · rfl

/-- The tree of the new text follows that of the old one. -/
theorem paired_of_isFaithful (hf : f.Sound) (h : isFaithful rule es f g = true) :
    g.Sound ∧ Paired f g (Node.reshaped f rule es) f.root g.root := by
  obtain ⟨h, -⟩ := Bool.and_eq_true_iff.1 h
  obtain ⟨hsound, hfollows⟩ := Bool.and_eq_true_iff.1 h
  have hg := SourceFile.sound_of_isSound hsound
  exact ⟨hg, hfollows, hf.regular, hg.regular⟩

/-! ## Earlier rules -/

theorem Using.Settled.of_rule (h : Using.Settled c f) (hindex : c.index.SameOutlines c'.index)
    (hpair : Paired f g (Node.reshaped f rule es) f.root g.root) (hrule : rule ≠ .removeUnusedImports) :
    Using.Settled c' g := by
  refine Using.settled_of_paired (keeps_reshaped f rule es) hpair hindex fun n hn => ?_
  by_cases horganize : rule = .organizeImports
  · subst horganize
    exact (h n hn).perm (perm_organize n).symm
  · rw [filter_isUsing_reshaped]
    · exact h n hn
    · cases rule <;> simp_all

/-- What earlier rules have finished stays finished. -/
theorem Finished.of_later {rule' : CleanupRule} (h : Finished c f rule') (hrule : rule' ∈ rule.earlier) (hf : f.Sound)
    (hg : g.Sound) (hindex : c.index.SameOutlines c'.index)
    (hpair : Paired f g (Node.reshaped f rule es) f.root g.root) : Finished c' g rule' := by
  have hlater : ∀ rule rule' : CleanupRule, rule' ∈ rule.earlier → rule ≠ .removeUnusedImports ∧
      (rule' = .organizeImports → rule ∈ [CleanupRule.fixModifierOrder, .addMissingReadonly, .format]) ∧
      (rule' = .fixModifierOrder → rule = .addMissingReadonly ∨ rule = .format) ∧
      (rule' = .addMissingReadonly → rule = .format) ∧ rule' ≠ .format := by
    intro rule rule'
    cases rule <;> cases rule' <;> decide
  obtain ⟨hnot, hsorted, hranked, hwritten, hlast⟩ := hlater rule rule' hrule
  cases rule' with
  | removeUnusedImports => exact Using.Settled.of_rule h hindex hpair hnot
  | organizeImports =>
    exact SortedUsings.of_paired h (keeps_reshaped f rule es) hpair fun n hn => reshaped_holdsUsings (hsorted rfl) hn
  | fixModifierOrder =>
    rcases hranked rfl with rfl | rfl
    · exact SettledModifiers.of_readonly hf h hpair
    · exact SettledModifiers.of_paired h hpair
  | addMissingReadonly =>
    cases hwritten rfl
    exact ReadonlyField.all_eq_nil_of_children hf hg h hpair
  | format => exact absurd rfl hlast

end

/-! ## The rule itself -/

section
variable {read : Parser} {s : Snapshot} {path : String} {c' : Compilation} {f g : SourceFile} {rule : CleanupRule}
  {es : List Edit} {chosen : List DocumentEdit}

theorem Using.settled_of_removal (hf : f.Sound) {c : Compilation} (hindex : c.index.SameOutlines c'.index)
    (hpair : Paired f g (Node.reshaped f .removeUnusedImports es) f.root g.root)
    (hall : ∀ u ∈ Using.unneeded c f, ∃ e ∈ es, e.span.start ≤ u.span.start ∧ u.span.stop ≤ e.span.stop) :
    Using.Settled c' g := by
  refine Using.settled_of_paired keeps_remove hpair hindex fun n hn => ?_
  refine Using.fine_of_not_unneeded hn (List.filter_sublist.filter _) fun u hu hunneeded => ?_
  obtain ⟨hu, husing⟩ := List.mem_filter.1 hu
  obtain ⟨hchild, hkept⟩ := List.mem_filter.1 hu
  obtain ⟨e, he, hstart, hstop⟩ := hall _ hunneeded
  have hrange := Node.stop_span (Node.fits_child (Node.fits_of_mem_descendants hf.fits hn) hchild).1
  have hany : (es.any fun e => e.span.start ≤ u.start && u.stop ≤ e.span.stop) = true :=
    List.any_eq_true.2 ⟨e, he, by simpa using ⟨hstart, hrange.symm.trans_le hstop⟩⟩
  rw [husing, hany] at hkept
  exact absurd hkept (by decide)

/-- A pass of a rule that applies fixes finishes the file. -/
theorem finished_of_fixes (hfile : sourceFile read s path = .ok f) (hf : f.Sound)
    (hrule : rule ≠ .organizeImports ∧ rule ≠ .format)
    (hchosen : Cleanup.chooseFixes (model read) s path rule.diagnosticIds = .ok chosen)
    (hindex : (Compilation.ofSnapshot read s).index.SameOutlines c'.index)
    (h : isFaithful rule (Cleanup.chosenFor chosen path) f g = true) : Finished c' g rule := by
  obtain ⟨hg, hpair⟩ := paired_of_isFaithful hf h
  cases rule with
  | removeUnusedImports =>
    exact Using.settled_of_removal hf hindex hpair fun u hu => exists_removal hfile hf hchosen hu
  | fixModifierOrder =>
    refine settledModifiers_of_rank hpair fun n hn hkind => ?_
    cases hmis : Modifier.misordered? f n.modifiers with
    | none => exact .inl rfl
    | some sp =>
      have hsp : sp ∈ Modifier.misorderedRanges f :=
        List.mem_filterMap.2 ⟨n, List.mem_filter.2 ⟨hn, hkind⟩, hmis⟩
      obtain ⟨e, he, hspan⟩ := exists_sorting hfile hf hchosen hsp
      exact .inr (List.any_eq_true.2 ⟨e, he, by rw [(misordered?_eq_some hmis).2, hspan, beq_self_eq_true]⟩)
  | addMissingReadonly =>
    refine ReadonlyField.all_eq_nil_of_readonly hf hg hpair fun type htype hpartial field hfield hcandidate at_ hat => ?_
    obtain ⟨e, he, hstart⟩ := exists_insertion hfile hf hchosen htype hpartial hfield hcandidate hat
    exact List.any_eq_true.2 ⟨e, he, by rw [hstart, beq_self_eq_true]⟩
  | organizeImports => exact absurd rfl hrule.1
  | format => exact absurd rfl hrule.2

end

end CSharp

end Workbench
