import Workbench.Proofs.Splicing

/-!
# Edits of two lists

Two lists of edits that can each be made can be made together exactly when
they are disjoint. Which list comes first then decides nothing, unless both
insert at one position.
-/

namespace Workbench.Edit

section
variable {text out : String} {a b : List Edit} {n : Nat}

theorem disjoint_iff : disjoint a b = true ↔ ∀ x ∈ a, ∀ y ∈ b, Apart x y := by
  simp [disjoint, Apart]

theorem pairwise_apart_append : (a ++ b).Pairwise Apart ↔ a.Pairwise Apart ∧ b.Pairwise Apart ∧ disjoint a b = true := by
  rw [List.pairwise_append, disjoint_iff]

theorem applyAll_isOk_iff :
    (∃ out, applyAll text a = .ok out) ↔ (∀ e ∈ a, e.span.Fits text.toList) ∧ a.Pairwise Apart :=
  (applyAll_simultaneous text a).1

/-- Some edit of each list inserts at byte `n`. -/
def InsertBoth (a b : List Edit) (n : Nat) : Prop := (∃ x ∈ a, x.span = ⟨n, 0⟩) ∧ ∃ y ∈ b, y.span = ⟨n, 0⟩

instance (a b : List Edit) (n : Nat) : Decidable (InsertBoth a b n) := inferInstanceAs (Decidable (_ ∧ _))

/-- Where one list inserts nothing, the insertions come in the same order whichever list is first. -/
theorem insertions_append_comm (h : ¬ InsertBoth a b n) :
    (b ++ a).filter (·.span = ⟨n, 0⟩) = (a ++ b).filter (·.span = ⟨n, 0⟩) := by
  rw [List.filter_append, List.filter_append]
  by_cases ha : ∃ x ∈ a, x.span = ⟨n, 0⟩
  · have hb : b.filter (·.span = ⟨n, 0⟩) = [] := by
      rw [List.filter_eq_nil_iff]
      intro y hy hspan
      exact h ⟨ha, y, hy, by simpa using hspan⟩
    simp [hb]
  · have ha' : a.filter (·.span = ⟨n, 0⟩) = [] := by
      rw [List.filter_eq_nil_iff]
      intro x hx hspan
      exact ha ⟨x, hx, by simpa using hspan⟩
    simp [ha']

theorem reordered_append_comm (h : ∀ n, ¬ InsertBoth a b n) : Reordered (a ++ b) (b ++ a) :=
  ⟨List.perm_append_comm, fun n => insertions_append_comm (h n)⟩

theorem Reordered.applyAll_eq_ok_iff {ds es : List Edit} (h : Reordered es ds) :
    applyAll text es = .ok out ↔ applyAll text ds = .ok out := by
  have hsame := (applyAll_simultaneous text es).2.2 ds h
  cases hds : applyAll text ds <;> cases hes : applyAll text es <;> simp_all [Except.toOption]

/-- Disjoint lists are those that can be made together, in either order alike where they insert at no common position. -/
theorem disjoint_iff_append (ha : ∃ out, applyAll text a = .ok out) (hb : ∃ out, applyAll text b = .ok out) :
    (disjoint a b = true ↔ ∃ out, applyAll text (a ++ b) = .ok out) ∧
      ((∀ n, ¬ InsertBoth a b n) → ∀ out, applyAll text (a ++ b) = .ok out ↔ applyAll text (b ++ a) = .ok out) := by
  obtain ⟨hafits, haapart⟩ := applyAll_isOk_iff.1 ha
  obtain ⟨hbfits, hbapart⟩ := applyAll_isOk_iff.1 hb
  constructor
  · rw [applyAll_isOk_iff, pairwise_apart_append]
    constructor
    · intro h
      exact ⟨List.forall_mem_append.2 ⟨hafits, hbfits⟩, haapart, hbapart, h⟩
    · rintro ⟨-, -, -, h⟩
      exact h
  · intro h out
    exact (reordered_append_comm h).applyAll_eq_ok_iff

/-- An insertion before what the other list deletes, and one behind what this list deletes. -/
theorem disjoint_bordering :
    let a := [insert 1 "x", delete ⟨2, 1⟩]
    let b := [delete ⟨1, 1⟩, insert 3 "y"]
    applyAll "pqrs" a = .ok "pxqs" ∧ applyAll "pqrs" b = .ok "prys" ∧ disjoint a b = true ∧ (∀ n, ¬ InsertBoth a b n) ∧
      ∃ out, applyAll "pqrs" (a ++ b) = .ok out ∧ applyAll "pqrs" (b ++ a) = .ok out := by
  intro a b
  have ha : applyAll "pqrs" a = .ok "pxqs" := by
    rw [applyAll, applyChars, List.mergeSort_of_pairwise (by decide)]
    decide
  have hb : applyAll "pqrs" b = .ok "prys" := by
    rw [applyAll, applyChars, List.mergeSort_of_pairwise (by decide)]
    decide
  have hdisjoint : disjoint a b = true := by decide
  have hinsert : ∀ n, ¬ InsertBoth a b n := by
    intro n h
    simp [InsertBoth, a, b, insert, delete] at h
    omega
  obtain ⟨htogether, horder⟩ := disjoint_iff_append ⟨_, ha⟩ ⟨_, hb⟩
  obtain ⟨out, hout⟩ := htogether.1 hdisjoint
  exact ⟨ha, hb, hdisjoint, hinsert, out, hout, (horder hinsert out).1 hout⟩

/-- What both insert at one position comes in the order of the lists. -/
example : applyAll "p" ([insert 1 "x"] ++ [insert 1 "y"]) = .ok "pxy" ∧
    applyAll "p" ([insert 1 "y"] ++ [insert 1 "x"]) = .ok "pyx" := by
  constructor <;>
  · rw [applyAll, applyChars, List.mergeSort_of_pairwise (by decide)]
    decide

end

end Workbench.Edit
