import Workbench.Proofs.Indexing

/-!
# What becomes of a declaration

Each declaration is found again in the index: in a symbol with its id, which is
named after one of the declarations with that id, and declared at its place.
-/

namespace Workbench

namespace Ordered

/-- Dropping neighbours with one key leaves the keys that dropping equal keys leaves. -/
theorem map_dedupBy {α β : Type} [BEq β] (g : α → β) (xs : List α) :
    (dedupBy (fun a b => g a == g b) xs).map g = dedupBy (· == ·) (xs.map g) := by
  induction xs with
  | nil => rfl
  | cons a r ih =>
    rw [List.map_cons, dedupBy, dedupBy, ← ih]
    cases dedupBy (fun a b => g a == g b) r with
    | nil => rfl
    | cons b r' =>
      rw [List.map_cons]
      dsimp only
      by_cases h : (g a == g b) = true
      · rw [if_pos h, if_pos h, List.map_cons]
      · rw [if_neg h, if_neg h, List.map_cons, List.map_cons]

end Ordered

/-- A symbol is named after a declaration. -/
structure NamedAfter (d : Declared) (s : Symbol) : Prop where
  id : d.id = s.id
  kind : d.kind = s.kind
  name : d.name = s.name
  qualname : d.qualname = s.qualname
  container : d.container = s.container

/-- Ids tell declarations apart by what they are: no two that differ in it are hashed to one. -/
def IdsTellMembers (ds : List Declared) : Prop := ∀ d ∈ ds, ∀ d' ∈ ds, d.id = d'.id →
  d.kind = d'.kind ∧ d.name = d'.name ∧ d.qualname = d'.qualname ∧ d.container = d'.container

namespace SymbolIndex

section
variable {ds : List Declared} {d : Declared} {s : Symbol} {symbols : List Symbol}

theorem namedAfter_absorb (h : NamedAfter d s) (d' : Declared) : NamedAfter d (absorb s d') :=
  ⟨h.id, h.kind, h.name, h.qualname, h.container⟩

theorem namedAfter_addDeclared {known : List Declared} (h : ∀ s ∈ symbols, ∃ d ∈ known, NamedAfter d s) :
    ∀ s ∈ addDeclared symbols d, ∃ d' ∈ known ++ [d], NamedAfter d' s := by
  intro s hs
  rw [addDeclared_eq] at hs
  rcases Ordered.mem_put hs with rfl | hs
  · cases hf : Ordered.find? Symbol.id d.id symbols with
    | none => exact ⟨d, List.mem_append_right _ List.mem_cons_self, ⟨rfl, rfl, rfl, rfl, rfl⟩⟩
    | some s =>
      obtain ⟨d', hd', hs⟩ := h s (Ordered.find?_eq_some hf).1
      exact ⟨d', List.mem_append_left _ hd', namedAfter_absorb hs d⟩
  · obtain ⟨d', hd', hs⟩ := h s hs
    exact ⟨d', List.mem_append_left _ hd', hs⟩

theorem namedAfter_foldl {known : List Declared} (h : ∀ s ∈ symbols, ∃ d ∈ known, NamedAfter d s) :
    ∀ s ∈ ds.foldl addDeclared symbols, ∃ d ∈ known ++ ds, NamedAfter d s := by
  induction ds generalizing known symbols with
  | nil => simpa using h
  | cons d rest ih => simpa using ih (namedAfter_addDeclared (d := d) h)

/-- Every symbol is named after a declaration. -/
theorem namedAfter_build (h : s ∈ (build ds).symbols) : ∃ d ∈ ds, NamedAfter d s := by
  obtain ⟨raw, hraw, rfl⟩ := List.mem_map.1 h
  have hnone : ∀ s ∈ ([] : List Symbol), ∃ d ∈ ([] : List Declared), NamedAfter d s := fun _ h => nomatch h
  obtain ⟨d, hd, hs⟩ := namedAfter_foldl hnone raw hraw
  exact ⟨d, hd, ⟨hs.id, hs.kind, hs.name, hs.qualname, hs.container⟩⟩

/-- Where ids tell members apart, a symbol is named after each of its declarations. -/
theorem namedAfter_of_id (hids : IdsTellMembers ds) (hs : s ∈ (build ds).symbols) (hd : d ∈ ds) (hid : d.id = s.id) :
    NamedAfter d s := by
  obtain ⟨d', hd', h⟩ := namedAfter_build hs
  obtain ⟨hkind, hname, hqualname, hcontainer⟩ := hids d hd d' hd' (hid.trans h.id.symm)
  exact ⟨hid, hkind.trans h.kind, hname.trans h.name, hqualname.trans h.qualname, hcontainer.trans h.container⟩

/-- A symbol that takes in a declaration keeps what declarations do not change. -/
theorem find?_addDeclared (keeps : Symbol → Prop) (hkeeps : ∀ s d, keeps s → keeps (absorb s d)) {id : String} (d : Declared)
    (h : ∃ s, Ordered.find? Symbol.id id symbols = some s ∧ keeps s) :
    ∃ s, Ordered.find? Symbol.id id (addDeclared symbols d) = some s ∧ keeps s := by
  obtain ⟨s, hs, hkept⟩ := h
  rw [addDeclared_eq, Ordered.find?_put]
  by_cases he : d.id = id
  · have hid : (absorb s d).id = id := (Ordered.find?_eq_some hs).2
    rw [he, hs, Option.getD_some, if_pos hid]
    exact ⟨_, rfl, hkeeps s d hkept⟩
  · refine ⟨s, ?_, hkept⟩
    rw [if_neg, hs]
    cases hf : Ordered.find? Symbol.id d.id symbols with
    | none => exact he
    | some s' => exact fun h => he ((Ordered.find?_eq_some hf).2.symm.trans h)

/-- Among the symbols there is one with the id of a declaration and its place. -/
def Holds (symbols : List Symbol) (d : Declared) : Prop :=
  ∃ s, Ordered.find? Symbol.id d.id symbols = some s ∧ ⟨d.location, d.extent⟩ ∈ s.declarations

theorem holds_addDeclared (symbols : List Symbol) (d : Declared) : Holds (addDeclared symbols d) d := by
  rw [Holds, addDeclared_eq, Ordered.find?_put]
  refine ⟨_, if_pos ?_, List.mem_append_right _ List.mem_cons_self⟩
  cases hf : Ordered.find? Symbol.id d.id symbols with
  | none => rfl
  | some s => exact (Ordered.find?_eq_some hf).2

theorem Holds.add {d' : Declared} (h : Holds symbols d) : Holds (addDeclared symbols d') d :=
  find?_addDeclared (DeclarationSite.mk d.location d.extent ∈ ·.declarations) (fun _ _ h => List.mem_append_left _ h) d' h

theorem holds_foldl (h : Holds symbols d ∨ d ∈ ds) : Holds (ds.foldl addDeclared symbols) d := by
  induction ds generalizing symbols with
  | nil => exact h.resolve_right List.not_mem_nil
  | cons d' rest ih =>
    refine ih ?_
    rcases h with h | h
    · exact .inl h.add
    · rcases List.mem_cons.1 h with rfl | h
      · exact .inl (holds_addDeclared symbols d)
      · exact .inr h

/-- Every declaration has a symbol with its id and its place. -/
theorem symbol_of_declared (hd : d ∈ ds) :
    ∃ s ∈ (build ds).symbols, s.id = d.id ∧ ∃ site ∈ s.declarations, site.location = d.location := by
  obtain ⟨raw, hraw, hsite⟩ := holds_foldl (show Holds [] d ∨ d ∈ ds from .inr hd)
  obtain ⟨hmem, hid⟩ := Ordered.find?_eq_some hraw
  refine ⟨settle raw, List.mem_map.2 ⟨raw, hmem, rfl⟩, hid, ?_⟩
  have hplace : d.location ∈ (settle raw).declarations.map (·.location) := by
    rw [settle, Ordered.map_dedupBy, Ordered.mem_dedupBy]
    exact List.mem_map.2 ⟨_, List.mem_mergeSort.2 hsite, rfl⟩
  exact List.mem_map.1 hplace

/-- The first declaration of all names its symbol. -/
theorem exists_namedAfter_head (d : Declared) (ds : List Declared) : ∃ s ∈ (build (d :: ds)).symbols, NamedAfter d s := by
  have hfound : ∀ symbols : List Symbol, (∃ s, Ordered.find? Symbol.id d.id symbols = some s ∧ NamedAfter d s) →
      ∃ s, Ordered.find? Symbol.id d.id (ds.foldl addDeclared symbols) = some s ∧ NamedAfter d s := by
    induction ds with
    | nil => exact fun _ h => h
    | cons d' rest ih => exact fun symbols h => ih _ (find?_addDeclared (NamedAfter d) (fun _ d h => namedAfter_absorb h d) d' h)
  obtain ⟨s, hs, hafter⟩ := hfound (addDeclared [] d) <| by
    rw [addDeclared_eq, Ordered.find?_put]
    exact ⟨_, if_pos rfl, namedAfter_absorb (s := fresh d.id d) ⟨rfl, rfl, rfl, rfl, rfl⟩ d⟩
  exact ⟨settle s, List.mem_map.2 ⟨s, (Ordered.find?_eq_some hs).1, rfl⟩,
    ⟨hafter.id, hafter.kind, hafter.name, hafter.qualname, hafter.container⟩⟩

end

end SymbolIndex

end Workbench
