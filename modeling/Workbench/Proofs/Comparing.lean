import Workbench.Proofs.Confinement
import Workbench.Proofs.Counting

/-!
# Comparing snapshots

The change set of two snapshots is exact: it is empty between snapshots with
the same texts alone, and it counts at least one region wherever texts differ,
whatever the limit of the count. So what an action changes shows in it, under
paths that the action names.
-/

namespace Workbench

namespace ChangeSet

section
variable {old new : Snapshot} {maxCells : Nat} {path : String} {f : FileChange}

/-- Only one of two snapshots has a document at a path, or the documents have different texts. -/
def Differs (old new : Snapshot) (path : String) : Prop :=
  (path ∈ old.paths ∧ path ∉ new.paths) ∨ (path ∉ old.paths ∧ path ∈ new.paths) ∨
    ∃ a b, old.text? path = some a ∧ new.text? path = some b ∧ a ≠ b

theorem differs_iff : Differs old new path ↔ old.text? path ≠ new.text? path := by
  rw [Differs, Snapshot.mem_paths_iff, Snapshot.mem_paths_iff]
  cases old.text? path <;> cases new.text? path <;> simp

theorem changeOf_eq_some (h : changeOf old new maxCells path = some f) : f.path = path ∧ 0 < f.edits ∧
    (f.path ∉ old.paths ∨ f.path ∉ new.paths → f.edits = 1) := by
  unfold changeOf at h
  rw [Snapshot.mem_paths_iff, Snapshot.mem_paths_iff]
  cases hold : old.text? path with
  | none =>
    cases hnew : new.text? path with
    | none => simp [hold, hnew] at h
    | some b =>
      rw [hold, hnew] at h
      cases h
      exact ⟨rfl, Nat.one_pos, fun _ => rfl⟩
  | some a =>
    cases hnew : new.text? path with
    | none =>
      rw [hold, hnew] at h
      cases h
      exact ⟨rfl, Nat.one_pos, fun _ => rfl⟩
    | some b =>
      rw [hold, hnew] at h
      by_cases hab : a = b
      · simp [hab] at h
      · simp only [hab, if_false] at h
        cases h
        -- A path of both snapshots is a change of its text.
        exact ⟨rfl, Hunk.count_pos maxCells fun h => hab (String.toList_inj.1 h), by simp [hold, hnew]⟩

theorem changeOf_of_mem (h : f ∈ (between old new maxCells).files) : changeOf old new maxCells f.path = some f := by
  obtain ⟨path, -, hchange⟩ := List.mem_filterMap.1 h
  rwa [(changeOf_eq_some hchange).1]

/-- A change set that says of two snapshots where they differ, and how. -/
structure Exact (old new : Snapshot) (c : ChangeSet) : Prop where
  ascending : c.paths.Pairwise (· < ·)
  listed (path : String) : path ∈ c.paths ↔ Differs old new path
  counted : ∀ f ∈ c.files, 1 ≤ f.edits
  single : ∀ f ∈ c.files, f.path ∉ old.paths ∨ f.path ∉ new.paths → f.edits = 1
  empty : c.isEmpty = true ↔ ∀ path, old.text? path = new.text? path

end

end ChangeSet

theorem Snapshot.withEdits_singleton {s next : Snapshot} {path : String} {e : Edit} (text new : String)
    (htext : s.text? path = some text) (hedit : Edit.applyFrom (Text.size text.toList) 0 text.toList [e] = .ok new.toList)
    (hnext : s.withText path new = .ok next) : s.withEdits path [e] = .ok next := by
  rw [Snapshot.withEdits, if_neg (by simp), htext]
  dsimp only
  rw [Edit.applyAll, Edit.applyChars, List.mergeSort_singleton, hedit]
  simpa [Except.map] using hnext

theorem CodeAction.apply_paths {a : CodeAction} {s next : Snapshot} {maxCells : Nat} (h : a.apply s = .ok next) :
    ∀ p ∈ (ChangeSet.between s next maxCells).paths, p ∈ a.paths := by
  intro p hp
  have hsame : s.SameOutside a.paths next := applyEdits_sameOutside h fun d hd => Ordered.mem_ofList.2 (List.mem_map_of_mem hd)
  exact Decidable.byContradiction fun hnot => ChangeSet.mem_paths_between.1 hp (hsame.texts hnot).symm

namespace ChangeSet

/-- Change sets are exact, and an action changes nothing but documents that it names. -/
theorem between_exact (old : Snapshot) (maxCells : Nat) :
    (∀ new, Exact old new (between old new maxCells)) ∧
    ∀ (a : CodeAction) (next : Snapshot), a.apply old = .ok next → ∀ p ∈ (between old next maxCells).paths, p ∈ a.paths := by
  refine ⟨fun new => ?_, fun a next h => CodeAction.apply_paths h⟩
  exact {
    ascending := paths_between_ascending
    listed := fun path => mem_paths_between.trans differs_iff.symm
    counted := fun f hf => (changeOf_eq_some (changeOf_of_mem hf)).2.1
    single := fun f hf => (changeOf_eq_some (changeOf_of_mem hf)).2.2
    empty := isEmpty_between_iff }

/-- A workspace of two documents. -/
def pair (a b : String) : Snapshot where
  documents := [⟨"Main.cs", "App", a, none⟩, ⟨"Tool.cs", "App", b, none⟩]
  documents_ascending := List.pairwise_pair.2 (by change "Main.cs" < "Tool.cs"; decide +kernel)

/-- Edits of both documents. That of the first changes nothing. -/
def widen : CodeAction := ⟨"Widen", "widen", [⟨"Tool.cs", [⟨⟨0, 3⟩, "long"⟩]⟩, ⟨"Main.cs", [⟨⟨0, 3⟩, "int"⟩]⟩]⟩

theorem between_exact_widen : widen.apply (pair "int a;" "int b;") = .ok (pair "int a;" "long b;") ∧
    Exact (pair "int a;" "int b;") (pair "int a;" "long b;") (between (pair "int a;" "int b;") (pair "int a;" "long b;") 0) ∧
    (between (pair "int a;" "int b;") (pair "int a;" "long b;") 0).files = [⟨"Tool.cs", 1⟩] ∧
    ∀ p ∈ (between (pair "int a;" "int b;") (pair "int a;" "long b;") 0).paths, p ∈ widen.paths := by
  have hfirst : (pair "int a;" "int b;").withEdits "Tool.cs" [⟨⟨0, 3⟩, "long"⟩] = .ok (pair "int a;" "long b;") :=
    Snapshot.withEdits_singleton "int b;" "long b;" rfl rfl rfl
  have hsecond : (pair "int a;" "long b;").withEdits "Main.cs" [⟨⟨0, 3⟩, "int"⟩] = .ok (pair "int a;" "long b;") :=
    Snapshot.withEdits_singleton "int a;" "int a;" rfl rfl rfl
  have happly : widen.apply (pair "int a;" "int b;") = .ok (pair "int a;" "long b;") := by
    simp only [CodeAction.apply, widen, CodeAction.applyEdits, hfirst, hsecond]
  obtain ⟨hexact, hpaths⟩ := between_exact (pair "int a;" "int b;") 0
  exact ⟨happly, hexact _, by decide +kernel, hpaths _ _ happly⟩

end ChangeSet

end Workbench
