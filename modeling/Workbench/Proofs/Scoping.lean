import Workbench.CSharp.Tree
import Workbench.Proofs.Needing
import Workbench.Proofs.Offers

/-!
# Where a local is looked for

A local is looked for in the node right around its statement. That is the scope
of the local for a statement in a block and for one at the top of a file. What
stands behind a label or in a section of a switch has a wider scope, of which
the rest is not searched.
-/

namespace Workbench.CSharp

namespace UnusedLocal

/-! ## The scope of a local -/

/-- The scope of what a statement declares, by the nodes around the statement: the nearest block, the body of the
switch of a section, or all of the file for a statement at its top. Labels and other statements have none. -/
def lexicalScope (root : Node) : List Node → Node
  | [] => root
  | p :: rest =>
    if p.kind = .block then p
    else if p.kind = .switchSection then rest.headD root
    else if p.kind = .globalStatement then root
    else lexicalScope root rest

/-- In a block or at the top of a file, with nothing between. -/
def StandsDirectly (x : Focus) : Prop := ∀ p ∈ x.parent?, p.kind = .block ∨ p.kind = .globalStatement

/-- An identifier in a scope that is spelled like a name and stands elsewhere. -/
structure Mentions (f : SourceFile) (scope name m : Node) : Prop where
  below : m ∈ scope.descendants
  kind : m.kind = .identifier
  elsewhere : m.start ≠ name.start
  spelled : f.text m = f.text name

section
variable {f : SourceFile} {l : UnusedLocal} {x : Focus} {name m n n' root : Node} {around : List Node}

theorem Mentions.mono (h : Mentions f n name m) (hm : m ∈ n'.descendants) : Mentions f n' name m :=
  ⟨hm, h.kind, h.elsewhere, h.spelled⟩

theorem isNamed_iff : isNamed n name f = true ↔ ∃ m, Mentions f n name m := by
  simp only [isNamed, List.any_eq_true, Bool.and_eq_true, bne_iff_ne, beq_iff_eq]
  constructor
  · rintro ⟨m, hm, helsewhere, htext⟩
    obtain ⟨hbelow, hkind⟩ := List.mem_filter.1 hm
    exact ⟨m, hbelow, List.mem_singleton.1 (List.contains_iff_mem.1 hkind), helsewhere, htext⟩
  · rintro ⟨m, h⟩
    exact ⟨m, List.mem_filter.2 ⟨h.below, by rw [h.kind]; decide⟩, h.elsewhere, h.spelled⟩

theorem lexicalScope_mem (root : Node) (around : List Node) :
    lexicalScope root around = root ∨ lexicalScope root around ∈ around := by
  induction around with
  | nil => exact .inl rfl
  | cons p rest ih =>
    rw [lexicalScope]
    split
    · exact .inr List.mem_cons_self
    · split
      · cases rest with
        | nil => exact .inl rfl
        | cons q rest => exact .inr (List.mem_cons_of_mem p List.mem_cons_self)
      · split
        · exact .inl rfl
        · exact ih.imp_right (List.mem_cons_of_mem p)

/-- The node that is searched is the scope of what a statement in a block declares. -/
theorem scope_eq_lexicalScope (h : StandsDirectly x) : scope root x = lexicalScope root x.around := by
  obtain ⟨n, around⟩ := x
  cases around with
  | nil => rfl
  | cons p rest =>
    rcases h p rfl with hk | hk
    · simp [scope, Focus.parent?, lexicalScope, hk]
    · simp [scope, Focus.parent?, lexicalScope, hk]

/-- The node that is searched is part of the scope. -/
theorem scope_mem_descendants (hx : x ∈ root.foci) :
    scope root x ∈ (lexicalScope root x.around).descendants := by
  by_cases hdirect : StandsDirectly x
  · rw [scope_eq_lexicalScope hdirect]
    exact Node.mem_descendants_self _
  · cases hparent : x.around with
    | nil =>
      refine absurd (fun p hp => ?_) hdirect
      rw [Focus.parent?, hparent] at hp
      cases hp
    | cons p rest =>
      have hscope : scope root x = p := by
        have hk : p.kind ≠ .globalStatement := fun hk => hdirect fun q hq => by
          rw [Focus.parent?, hparent] at hq
          cases hq
          exact .inr hk
        simp [scope, Focus.parent?, hparent, hk]
      rw [hscope, ← hparent]
      rcases lexicalScope_mem root x.around with he | hmem
      · rw [he]
        exact ((Node.mem_of_around hx (hparent ▸ List.mem_cons_self)).resolve_left List.not_mem_nil).1
      · exact Node.parent_mem_descendants hx hparent hmem

/-! ## What is reported -/

/-- A local is reported when all other mentions in its scope stand outside the node around its statement. In a block
and at the top of a file there are none such. -/
theorem reported_iff : l ∈ all f ↔ ∃ x name, Eligible f l x name ∧
    ∀ m, Mentions f (lexicalScope f.root x.around) name m →
      ¬ StandsDirectly x ∧ m ∉ (scope f.root x).descendants := by
  simp only [mem_all, ← Bool.not_eq_true, isNamed_iff, not_exists]
  constructor
  · rintro ⟨x, name, h, hnone⟩
    refine ⟨x, name, h, fun m hm => ⟨fun hdirect => ?_, fun hbelow => hnone m (hm.mono hbelow)⟩⟩
    rw [← scope_eq_lexicalScope hdirect] at hm
    exact hnone m hm
  · rintro ⟨x, name, h, hout⟩
    refine ⟨x, name, h, fun m hm => ?_⟩
    have hscope := scope_mem_descendants (List.mem_filter.1 h.statement).1
    exact (hout m (hm.mono (Node.descendants_trans hscope hm.below))).2 hm.below

/-- Sections of a switch that share a local. -/
def sections : SourceFile := .ofText parse "a.cs"
  "class A \x7b void M(int n) \x7b switch (n) \x7b case 1: int x; break; case 2: x = 1; Use(x); break; \x7d \x7d \x7d"

/-- A local that another section uses is reported. -/
theorem reported_in_section : ∃ l ∈ all sections, ∃ x name, Eligible sections l x name ∧
    ∃ m, Mentions sections (lexicalScope sections.root x.around) name m := by
  have hreported : (all sections).length = 1 := by decide +kernel
  have hmentioned : ∀ x ∈ sections.root.fociOf [.localDeclarationStatement], ∀ d ∈ x.node.variableDeclaration?,
      ∀ e ∈ d.declarators, ∀ name ∈ e.declaratorName?, ∃ m ∈ (lexicalScope sections.root x.around).descendants,
        m.kind = .identifier ∧ m.start ≠ name.start ∧ sections.text m = sections.text name := by
    decide +kernel
  obtain ⟨l, hl⟩ := List.length_eq_one_iff.1 hreported
  have hmem : l ∈ all sections := hl ▸ List.mem_singleton_self l
  obtain ⟨x, name, h, -⟩ := mem_all.1 hmem
  obtain ⟨m, hm, hkind, helsewhere, hspelled⟩ := hmentioned x h.statement l.declaration h.declaration l.declarator
    h.declarator name h.named
  exact ⟨l, hmem, x, name, h, m, hm, hkind, helsewhere, hspelled⟩

end

end UnusedLocal

end Workbench.CSharp
