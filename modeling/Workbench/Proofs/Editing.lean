import Workbench.ChangeSet
import Workbench.CodeAction

/-!
# Snapshots under edits

An edit of a snapshot changes texts alone: root, projects and everything else
about the documents stay. The change set of two snapshots names, in strictly
ascending order, exactly the paths whose text differs.
-/

namespace Workbench

/-! ## Ordered lists -/

/-- A look-up gives the only element that it can give. -/
theorem find?_of_unique {α : Type} {p : α → Bool} {xs : List α} {a : α} (ha : a ∈ xs) (hp : p a = true)
    (hone : ∀ b ∈ xs, p b = true → b = a) : xs.find? p = some a := by
  obtain ⟨b, hb⟩ := Option.isSome_iff_exists.1 (List.find?_isSome.2 ⟨a, ha, hp⟩)
  rw [hb, hone b (List.mem_of_find?_eq_some hb) (List.find?_some hb)]

/-- In a list with an order, what a look-up gives comes before whatever else it could give. -/
theorem eq_or_rel_of_find? {α : Type} {rel : α → α → Prop} {p : α → Bool} {xs : List α} {a : α} (hxs : xs.Pairwise rel)
    (h : xs.find? p = some a) : ∀ b ∈ xs, p b = true → b = a ∨ rel a b := by
  obtain ⟨-, before, after, rfl, hbefore⟩ := List.find?_eq_some_iff_append.1 h
  intro b hb hpb
  rcases List.mem_append.1 hb with hb | hb
  · have hnot := hbefore b hb
    rw [hpb] at hnot
    cases hnot
  · rcases List.mem_cons.1 hb with hb | hb
    · exact .inl hb
    · exact .inr ((List.pairwise_cons.1 (List.pairwise_append.1 hxs).2.1).1 b hb)

namespace Ordered

section
variable {α β : Type} {key : α → String} {xs : List α} {a b : α} {k : String}

theorem find?_eq_some (h : find? key k xs = some a) : a ∈ xs ∧ key a = k :=
  ⟨List.mem_of_find?_eq_some h, by simpa using List.find?_some h⟩

theorem find?_cons : find? key k (a :: xs) = if key a = k then some a else find? key k xs := by
  unfold find?
  rw [List.find?_cons]
  by_cases h : key a = k
  · rw [if_pos h, beq_iff_eq.2 h]
  · rw [if_neg h, beq_eq_false_iff_ne.2 h]

/-- Where keys differ, a key leads back to its element. -/
theorem find?_of_nodup (h : (xs.map key).Nodup) (ha : a ∈ xs) : find? key (key a) xs = some a := by
  induction xs with
  | nil => cases ha
  | cons c r ih =>
    rw [List.map_cons, List.nodup_cons] at h
    rw [find?_cons]
    rcases List.mem_cons.1 ha with rfl | ha
    · exact if_pos rfl
    · have hne : key c ≠ key a := fun he => h.1 (he ▸ List.mem_map_of_mem ha)
      rw [if_neg hne, ih h.2 ha]

theorem Ascending.nodup (h : Ascending key xs) : (xs.map key).Nodup :=
  List.pairwise_map.2 (h.imp String.ne_of_lt)

theorem find?_of_mem (h : Ascending key xs) (ha : a ∈ xs) : find? key (key a) xs = some a :=
  find?_of_nodup h.nodup ha

theorem find?_put : find? key k (put key a xs) = if key a = k then some a else find? key k xs := by
  induction xs with
  | nil => exact find?_cons
  | cons c r ih =>
    rw [put]
    by_cases hlt : key a < key c
    · rw [if_pos hlt, find?_cons]
    · rw [if_neg hlt]
      by_cases he : key a = key c
      · rw [if_pos he, find?_cons, find?_cons, ← he]
        by_cases h : key a = k
        · rw [if_pos h, if_pos h]
        · rw [if_neg h, if_neg h, if_neg h]
      · rw [if_neg he, find?_cons, find?_cons, ih]
        by_cases hc : key c = k
        · rw [if_pos hc, if_pos hc, if_neg fun e => he (e.trans hc.symm)]
        · rw [if_neg hc, if_neg hc]

theorem map_put {g : α → β} (h : Ascending key xs) (hf : find? key (key a) xs = some b) (hg : g a = g b) :
    (put key a xs).map g = xs.map g := by
  induction xs with
  | nil => simp [find?] at hf
  | cons c r ih =>
    obtain ⟨hc, hr⟩ := List.pairwise_cons.1 h
    rw [find?_cons] at hf
    -- Only the element that is found is replaced; before it all keys are smaller, so `put` walks on.
    by_cases he : key c = key a
    · rw [if_pos he] at hf
      obtain rfl : c = b := Option.some.inj hf
      rw [put, he, if_neg (String.lt_irrefl _), if_pos rfl, List.map_cons, List.map_cons, hg]
    · rw [if_neg he] at hf
      have hlt : key c < key a := by
        obtain ⟨hb, hk⟩ := find?_eq_some hf
        exact hk ▸ hc b hb
      have hnlt : ¬ key a < key c := fun h' => String.lt_irrefl _ (String.lt_trans hlt h')
      rw [put, if_neg hnlt, if_neg (Ne.symm he), List.map_cons, List.map_cons, ih hr hf]

end

theorem mem_add {s x : String} {xs : List String} : x ∈ add s xs ↔ x = s ∨ x ∈ xs := by
  induction xs with
  | nil => simp [add, put]
  | cons b r ih =>
    rw [add] at ih ⊢
    rw [put]
    by_cases hlt : (id s : String) < id b
    · rw [if_pos hlt, List.mem_cons, List.mem_cons]
    · by_cases he : (id s : String) = id b
      · have hb : s = b := he
        simp [hb]
      · rw [if_neg hlt, if_neg he, List.mem_cons, ih, List.mem_cons]
        exact or_left_comm

theorem mem_foldl_add {x : String} {acc xs : List String} :
    x ∈ xs.foldl (fun acc s => add s acc) acc ↔ x ∈ acc ∨ x ∈ xs := by
  induction xs generalizing acc with
  | nil => simp
  | cons s r ih =>
    rw [List.foldl_cons, ih, mem_add, List.mem_cons, or_assoc]
    exact or_left_comm

theorem mem_ofList {x : String} {xs : List String} : x ∈ ofList xs ↔ x ∈ xs := by
  rw [ofList, mem_foldl_add]
  simp

theorem ofList_ascending (xs : List String) : Ascending id (ofList xs) := by
  suffices h : ∀ acc, Ascending id acc → Ascending id (xs.foldl (fun acc s => add s acc) acc) from
    h [] (ascending_nil id)
  induction xs with
  | nil => exact fun _ h => h
  | cons s r ih => exact fun acc h => ih _ (h.put s)

end Ordered

/-! ## Shape -/

/-- All of a document but its text. -/
def Document.frame (d : Document) : Document := { d with text := "" }

/-- Snapshots that differ in the texts of their documents at most. -/
structure Snapshot.SameShape (a b : Snapshot) : Prop where
  root : b.root = a.root
  projects : b.projects = a.projects
  documents : b.documents.map Document.frame = a.documents.map Document.frame

namespace Snapshot

theorem SameShape.refl (s : Snapshot) : s.SameShape s := ⟨rfl, rfl, rfl⟩

theorem SameShape.trans {a b c : Snapshot} (h : a.SameShape b) (h' : b.SameShape c) : a.SameShape c :=
  ⟨h'.root.trans h.root, h'.projects.trans h.projects, h'.documents.trans h.documents⟩

theorem SameShape.paths {a b : Snapshot} (h : a.SameShape b) : b.paths = a.paths := by
  have e := congrArg (List.map Document.path) h.documents
  simpa [List.map_map, Snapshot.paths, Function.comp_def, Document.frame] using e

section
variable {s next : Snapshot} {path p text old new : String} {edits : List Edit} {d : Document}

theorem document?_path (h : s.document? path = some d) : d ∈ s.documents ∧ d.path = path := Ordered.find?_eq_some h

theorem document?_of_mem (h : d ∈ s.documents) : (s.document? d.path).isSome := by
  rw [document?, Ordered.find?, List.find?_isSome]
  exact ⟨d, h, beq_self_eq_true _⟩

theorem mem_paths_iff : p ∈ s.paths ↔ (s.text? p).isSome := by
  rw [paths, List.mem_map, text?, Option.isSome_map]
  constructor
  · rintro ⟨d, hd, rfl⟩
    exact document?_of_mem hd
  · intro h
    obtain ⟨d, hd⟩ := Option.isSome_iff_exists.1 h
    exact ⟨d, document?_path hd⟩

/-! ## One edit -/

theorem withText_ok (h : s.withText path text = .ok next) : ∃ d, s.document? path = some d ∧ s.SameShape next ∧
    ∀ p, next.text? p = if p = path then some text else s.text? p := by
  unfold withText at h
  split at h
  · cases h
  · rename_i d hd
    obtain ⟨hmem, hpath⟩ := document?_path hd
    refine ⟨d, hd, ?_⟩
    split at h
    · rename_i htext
      cases h
      refine ⟨.refl s, fun p => ?_⟩
      split
      · rename_i hp
        rw [hp, text?, hd, Option.map_some, htext]
      · rfl
    · cases h
      refine ⟨⟨rfl, rfl, ?_⟩, fun p => ?_⟩
      · exact Ordered.map_put s.documents_ascending (b := d) (by rw [← hpath] at hd; exact hd) rfl
      · rw [text?, document?, Ordered.find?_put]
        by_cases hp : p = path
        · rw [if_pos (hpath.trans hp.symm), if_pos hp]
          rfl
        · rw [if_neg (fun e => hp (e.symm.trans hpath)), if_neg hp]
          rfl

/-- A document that there is can be given any text. -/
theorem exists_withText (h : s.text? path = some old) (new : String) : ∃ next, s.withText path new = .ok next := by
  obtain ⟨d, hd, -⟩ := Option.map_eq_some_iff.1 h
  rw [withText, hd]
  dsimp only
  by_cases htext : d.text = new
  · exact ⟨s, if_pos htext⟩
  · exact ⟨_, if_neg htext⟩

theorem withText_sameShape (h : s.withText path text = .ok next) : s.SameShape next := by
  obtain ⟨d, hd, hs, ht⟩ := withText_ok h
  exact hs

/-- A set of edits that is made gives the document the edited text and leaves all others alone. -/
theorem withEdits_ok (h : s.withEdits path edits = .ok next) (he : edits ≠ []) :
    ∃ old new, s.text? path = some old ∧ Edit.applyAll old edits = .ok new ∧ s.SameShape next ∧
      ∀ p, next.text? p = if p = path then some new else s.text? p := by
  unfold withEdits at h
  rw [if_neg (by simpa using he)] at h
  split at h
  · cases h
  · rename_i old hold
    split at h
    · cases h
    · rename_i new hnew
      obtain ⟨d, hd, hs, ht⟩ := withText_ok h
      exact ⟨old, new, hold, hnew, hs, ht⟩

/-- Edits that can be made in the text of a document can be made in the document. -/
theorem exists_withEdits (h : s.text? path = some old) (hnew : Edit.applyAll old edits = .ok new) :
    ∃ next, s.withEdits path edits = .ok next := by
  unfold withEdits
  split
  · exact ⟨s, rfl⟩
  · rw [h]
    dsimp only
    rw [hnew]
    exact exists_withText h new

theorem withEdits_sameShape (h : s.withEdits path edits = .ok next) : s.SameShape next := by
  by_cases he : edits = []
  · subst he
    cases h
    exact .refl s
  · obtain ⟨old, new, hold, hnew, hs, ht⟩ := withEdits_ok h he
    exact hs

end

end Snapshot

theorem CodeAction.applyEdits_sameShape {s next : Snapshot} {ds : List DocumentEdit} (h : applyEdits s ds = .ok next) :
    s.SameShape next := by
  induction ds generalizing s with
  | nil =>
    cases h
    exact .refl _
  | cons d rest ih =>
    rw [applyEdits] at h
    split at h
    · cases h
    · rename_i mid hmid
      exact (Snapshot.withEdits_sameShape hmid).trans (ih h)

/-! ## Change sets -/

namespace ChangeSet

section
variable {old new : Snapshot} {maxCells : Nat} {path : String}

theorem changeOf_map_path : (changeOf old new maxCells path).map (·.path) =
    if old.text? path = new.text? path then none else some path := by
  unfold changeOf
  cases old.text? path with
  | none =>
    cases new.text? path with
    | none => rfl
    | some b => rfl
  | some a =>
    cases new.text? path with
    | none => rfl
    | some b =>
      by_cases h : a = b
      · simp [h]
      · simp [h]

theorem paths_between : (between old new maxCells).paths =
    (Ordered.ofList (old.paths ++ new.paths)).filter fun p => decide (old.text? p ≠ new.text? p) := by
  rw [paths, between, List.map_filterMap, ← List.filterMap_eq_filter]
  congr 1
  funext p
  rw [changeOf_map_path]
  by_cases h : old.text? p = new.text? p
  · simp [h, Option.guard]
  · simp [h, Option.guard]

/-- The change set names the paths whose text differs, and no others. -/
theorem mem_paths_between : path ∈ (between old new maxCells).paths ↔ old.text? path ≠ new.text? path := by
  rw [paths_between, List.mem_filter, Ordered.mem_ofList, List.mem_append, decide_eq_true_iff]
  refine and_iff_right_of_imp fun h => ?_
  by_cases ho : (old.text? path).isSome
  · exact .inl (Snapshot.mem_paths_iff.2 ho)
  · refine .inr (Snapshot.mem_paths_iff.2 ?_)
    rw [Option.not_isSome_iff_eq_none] at ho
    rw [ho] at h
    exact Option.isSome_iff_ne_none.2 (Ne.symm h)

theorem paths_between_ascending : (between old new maxCells).paths.Pairwise (· < ·) := by
  rw [paths_between]
  exact List.Pairwise.filter _ (Ordered.ofList_ascending _)

theorem eq_singleton_of_ascending {ps : List String} (h : ps.Pairwise (· < ·)) (hmem : ∀ p, p ∈ ps ↔ p = path) :
    ps = [path] := by
  cases ps with
  | nil => exact absurd ((hmem path).2 rfl) List.not_mem_nil
  | cons a r =>
    obtain rfl : a = path := (hmem a).1 List.mem_cons_self
    cases r with
    | nil => rfl
    | cons b r' =>
      obtain rfl : b = a := (hmem b).1 (by simp)
      exact absurd ((List.pairwise_cons.1 h).1 b List.mem_cons_self) (String.lt_irrefl _)

theorem isEmpty_eq_false_iff {c : ChangeSet} : c.isEmpty = false ↔ c.paths ≠ [] := by
  rw [isEmpty, List.isEmpty_eq_false_iff, paths, ne_eq, ne_eq, List.map_eq_nil_iff]

theorem isEmpty_between_iff : (between old new maxCells).isEmpty = true ↔ ∀ path, old.text? path = new.text? path := by
  rw [← Bool.not_eq_false, isEmpty_eq_false_iff, Decidable.not_not, List.eq_nil_iff_forall_not_mem]
  simp only [mem_paths_between, ne_eq, Decidable.not_not]

end

end ChangeSet

end Workbench
