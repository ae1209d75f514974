import Mathlib.Algebra.Ring.Nat
import Mathlib.Data.Finset.Card
import Workbench.Proofs.Merging

/-!
# What an index gathers

A symbol is put together from the declarations with its id, in their order.
Nothing is lost and nothing is counted twice, and in what order the declarations
come shows in bases and modifiers alone.
-/

namespace Workbench

/-- Places of declaration go by location. -/
def DeclarationSite.order (a b : DeclarationSite) : Ordering := a.location.compareAll b.location

instance DeclarationSite.transCmp : Std.TransCmp order :=
  letI : Ord Location := ⟨Location.compareAll⟩
  haveI : Std.TransOrd Location := Location.transCmp
  inferInstanceAs <| Std.TransCmp <| compareOn fun s : DeclarationSite => s.location

theorem DeclarationSite.order_eq_iff {a b : DeclarationSite} : a.order b = .eq ↔ a.location = b.location := by
  rw [order, Std.LawfulEqCmp.compare_eq_iff_eq]

def Declared.site (d : Declared) : DeclarationSite := ⟨d.location, d.extent⟩

namespace SymbolIndex

/-! ## Gathering -/

section
variable {known new more : List String} {x : String}

theorem gather_append : gather known (new ++ more) = gather (gather known new) more :=
  List.foldl_append

theorem gather_cons (known new : List String) (y : String) :
    gather known (y :: new) = gather (if known.contains y then known else known ++ [y]) new :=
  rfl

theorem mem_gather : x ∈ gather known new ↔ x ∈ known ∨ x ∈ new := by
  induction new generalizing known with
  | nil => simp [gather]
  | cons y r ih =>
    rw [gather_cons, ih, List.mem_cons]
    split
    · rename_i hy
      have hy := List.contains_iff_mem.1 hy
      refine ⟨fun h => h.imp_right .inr, fun h => ?_⟩
      rcases h with h | rfl | h
      · exact .inl h
      · exact .inl hy
      · exact .inr h
    · rw [List.mem_append, List.mem_singleton, or_assoc]

theorem nodup_gather (h : known.Nodup) : (gather known new).Nodup := by
  induction new generalizing known with
  | nil => exact h
  | cons y r ih =>
    rw [gather_cons]
    refine ih ?_
    split
    · exact h
    · rename_i hy
      have hy : y ∉ known := fun hmem => hy (List.contains_iff_mem.2 hmem)
      exact List.nodup_append.2 ⟨h, List.nodup_singleton y, fun a ha b hb hab =>
        hy (List.mem_singleton.1 hb ▸ hab ▸ ha)⟩

/-- In what order texts come shows in their order alone. -/
theorem gather_perm (h : new.Perm more) : (gather [] new).Perm (gather [] more) := by
  refine (List.perm_ext_iff_of_nodup (nodup_gather .nil) (nodup_gather .nil)).2 fun x => ?_
  rw [mem_gather, mem_gather, h.mem_iff]

end

/-! ## One symbol from its declarations -/

/-- What the declarations of one id are put together to; the first names it. -/
def assemble (first : Declared) (parts : List Declared) : Symbol :=
  settle (parts.foldl absorb (fresh first.id first))

def parts (ds : List Declared) (id : String) : List Declared := ds.filter (·.id == id)

section
variable {ds ds' ps : List Declared} {d first : Declared} {s t : Symbol} {symbols : List Symbol} {id : String}

theorem mem_parts : d ∈ parts ds id ↔ d ∈ ds ∧ d.id = id := by
  rw [parts, List.mem_filter, beq_iff_eq]

theorem foldl_absorb (s : Symbol) (ps : List Declared) : ps.foldl absorb s =
    { s with
      bases := gather s.bases (ps.flatMap (·.bases))
      modifiers := gather s.modifiers (ps.flatMap (·.modifiers))
      declarations := s.declarations ++ ps.map Declared.site } := by
  induction ps generalizing s with
  | nil => simp [gather]
  | cons d r ih =>
    rw [List.foldl_cons, ih, List.flatMap_cons, List.flatMap_cons, gather_append, gather_append]
    simp [absorb, Declared.site]

theorem find?_addDeclared_eq (symbols : List Symbol) (d : Declared) (id : String) :
    Ordered.find? Symbol.id id (addDeclared symbols d) =
      if d.id = id then some (absorb ((Ordered.find? Symbol.id id symbols).getD (fresh d.id d)) d)
      else Ordered.find? Symbol.id id symbols := by
  rw [addDeclared_eq, Ordered.find?_put]
  have hid : (absorb ((Ordered.find? Symbol.id d.id symbols).getD (fresh d.id d)) d).id = d.id := by
    cases hf : Ordered.find? Symbol.id d.id symbols with
    | none => rfl
    | some known => exact (Ordered.find?_eq_some hf).2
  rw [hid]
  split
  · rename_i h
    rw [h]
  · rfl

/-- Of a list of declarations, a symbol takes those with its id. -/
theorem find?_foldl (ds : List Declared) (symbols : List Symbol) (id : String) :
    Ordered.find? Symbol.id id (ds.foldl addDeclared symbols) =
      (parts ds id).foldl (fun known d => some (absorb (known.getD (fresh d.id d)) d))
        (Ordered.find? Symbol.id id symbols) := by
  induction ds generalizing symbols with
  | nil => rfl
  | cons d r ih =>
    rw [List.foldl_cons, ih, find?_addDeclared_eq, parts, parts, List.filter_cons]
    by_cases h : d.id = id
    · simp [h]
    · simp [h]

theorem foldl_some (s : Symbol) (ps : List Declared) :
    ps.foldl (fun known d => some (absorb (known.getD (fresh d.id d)) d)) (some s) = some (ps.foldl absorb s) := by
  induction ps generalizing s with
  | nil => rfl
  | cons d r ih => exact ih (absorb s d)

/-- A symbol of an index is put together from the declarations with its id. -/
theorem eq_assemble (hs : s ∈ (build ds).symbols) :
    ∃ first ∈ parts ds s.id, s = assemble first (parts ds s.id) := by
  obtain ⟨raw, hraw, rfl⟩ := List.mem_map.1 hs
  have hascending : Ordered.Ascending Symbol.id (ds.foldl addDeclared []) := ascending_foldl (Ordered.ascending_nil _)
  have hfind := Ordered.find?_of_mem hascending hraw
  rw [find?_foldl] at hfind
  cases hparts : parts ds raw.id with
  | nil => simp [hparts, Ordered.find?] at hfind
  | cons first rest =>
    rw [hparts, List.foldl_cons] at hfind
    have hraw := Option.some.inj ((foldl_some _ rest).symm.trans hfind)
    have hparts : parts ds (settle raw).id = first :: rest := hparts
    exact ⟨first, hparts ▸ List.mem_cons_self, hparts ▸ congrArg settle hraw.symm⟩

/-! ## Places -/

/-- Places of declaration sorted, the first of each location. -/
def inOrder (sites : List DeclarationSite) : List DeclarationSite :=
  Ordered.dedupBy (fun a b => a.location == b.location)
    (sites.mergeSort fun a b => (a.location.compareAll b.location).isLE)

theorem settle_eq (s : Symbol) : settle s = { s with declarations := inOrder s.declarations } := rfl

theorem inOrder_strict (sites : List DeclarationSite) :
    (inOrder sites).Pairwise fun a b => a.location.compareAll b.location = .lt := by
  change (inOrder sites).Pairwise fun a b => a.order b = .lt
  refine Ordered.dedupBy_strict_of_same (fun a _ b _ => ?_) (Ordered.pairwise_sorted sites)
  rw [beq_iff_eq, DeclarationSite.order_eq_iff]

theorem mem_inOrder {sites : List DeclarationSite} {x : DeclarationSite}
    (hone : ∀ x ∈ sites, ∀ y ∈ sites, x.location = y.location → x = y) : x ∈ inOrder sites ↔ x ∈ sites := by
  rw [inOrder, Ordered.mem_dedupBy_of_same, List.mem_mergeSort]
  exact fun a ha b hb hab => hone a (List.mem_mergeSort.1 ha) b (List.mem_mergeSort.1 hb) (beq_iff_eq.1 hab)

/-- Where a location has one extent, the places of declaration come out alike in whatever order they come in. -/
theorem inOrder_perm {sites sites' : List DeclarationSite} (h : sites.Perm sites')
    (hone : ∀ x ∈ sites, ∀ y ∈ sites, x.location = y.location → x = y) : inOrder sites = inOrder sites' := by
  have hone' : ∀ x ∈ sites', ∀ y ∈ sites', x.location = y.location → x = y := fun x hx y hy =>
    hone x (h.mem_iff.2 hx) y (h.mem_iff.2 hy)
  have hstrict : ∀ sites, (inOrder sites).Pairwise fun a b => a.order b = .lt := inOrder_strict
  refine Ordered.eq_of_strict (hstrict sites) (hstrict sites') fun x => ?_
  rw [mem_inOrder hone, mem_inOrder hone', h.mem_iff]

theorem declarations_strict (hs : s ∈ (build ds).symbols) :
    s.declarations.Pairwise fun a b => a.location.compareAll b.location = .lt := by
  obtain ⟨raw, -, rfl⟩ := List.mem_map.1 hs
  exact inOrder_strict raw.declarations

/-- The places of all symbols, under their ids. -/
def places (ix : SymbolIndex) : List (String × Location) :=
  ix.symbols.flatMap fun s => s.declarations.map fun site => (s.id, site.location)

theorem mem_places {p : String × Location} : p ∈ (build ds).places ↔ ∃ d ∈ ds, (d.id, d.location) = p := by
  simp only [places, List.mem_flatMap, List.mem_map]
  constructor
  · rintro ⟨s, hs, site, hsite, rfl⟩
    obtain ⟨d, hd, hid, rfl⟩ := (gathered_build hs).placed site hsite
    exact ⟨d, hd, by rw [hid]⟩
  · rintro ⟨d, hd, rfl⟩
    obtain ⟨s, hs, hid, site, hsite, hlocation⟩ := symbol_of_declared hd
    exact ⟨s, hs, site, hsite, by rw [hid, hlocation]⟩

theorem nodup_places (ds : List Declared) : (build ds).places.Nodup := by
  refine List.nodup_flatMap.2 ⟨fun s hs => List.pairwise_map.2 ?_, ?_⟩
  · refine (declarations_strict hs).imp fun hlt heq => ?_
    rw [(Prod.mk.inj heq).2] at hlt
    exact nomatch hlt.symm.trans Std.ReflCmp.compare_self
  · refine (build ds).ascending.imp fun hlt p hp hq => ?_
    obtain ⟨_, -, rfl⟩ := List.mem_map.1 hp
    obtain ⟨_, -, heq⟩ := List.mem_map.1 hq
    exact String.ne_of_lt hlt (Prod.mk.inj heq).1.symm

/-- A place is counted once under each id. -/
theorem sum_declarations (ds : List Declared) :
    ((build ds).symbols.map (·.declarations.length)).sum = (ds.map fun d => (d.id, d.location)).toFinset.card := by
  have hlength : (build ds).places.length = ((build ds).symbols.map (·.declarations.length)).sum := by
    simp [places, List.length_flatMap]
  rw [← hlength, ← List.toFinset_card_of_nodup (nodup_places ds)]
  congr 1
  ext p
  rw [List.mem_toFinset, List.mem_toFinset, mem_places, List.mem_map]

/-! ## Reordering -/

end

/-- Declarations with one id agree in all that a symbol takes from one of them, and in the extent at each place. -/
def Agree (ds : List Declared) : Prop := ∀ d ∈ ds, ∀ d' ∈ ds, d.id = d'.id →
  (d.kind = d'.kind ∧ d.name = d'.name ∧ d.qualname = d'.qualname ∧ d.signature = d'.signature ∧
    d.container = d'.container ∧ d.parameterCount = d'.parameterCount) ∧
  (d.location = d'.location → d.extent = d'.extent)

/-- Two symbols differ at most in the order of bases and of modifiers. -/
structure Alike (s t : Symbol) : Prop where
  rest : t = { s with bases := t.bases, modifiers := t.modifiers }
  bases : s.bases.Perm t.bases
  modifiers : s.modifiers.Perm t.modifiers

/-- Two indices hold like symbols and have the same tables. -/
structure SameBut (ix ix' : SymbolIndex) : Prop where
  symbols : List.Forall₂ Alike ix.symbols ix'.symbols
  names : ix.names = ix'.names
  qualnames : ix.qualnames = ix'.qualnames

section
variable {ds ds' ps ps' : List Declared} {d first first' : Declared} {s t : Symbol} {id : String}

theorem assemble_alike (hagree : Agree ps) (hids : ∀ d ∈ ps, d.id = id) (h : ps.Perm ps') (hfirst : first ∈ ps)
    (hfirst' : first' ∈ ps) : Alike (assemble first ps) (assemble first' ps') := by
  have hid : first.id = first'.id := (hids first hfirst).trans (hids first' hfirst').symm
  obtain ⟨⟨hkind, hname, hqualname, hsignature, hcontainer, hcount⟩, -⟩ := hagree first hfirst first' hfirst' hid
  have hsites : ∀ x ∈ ps.map Declared.site, ∀ y ∈ ps.map Declared.site, x.location = y.location → x = y := by
    intro x hx y hy hxy
    obtain ⟨d, hd, rfl⟩ := List.mem_map.1 hx
    obtain ⟨d', hd', rfl⟩ := List.mem_map.1 hy
    have hextent := (hagree d hd d' hd' ((hids d hd).trans (hids d' hd').symm)).2 hxy
    exact congrArg₂ DeclarationSite.mk hxy hextent
  have hplaces := inOrder_perm (h.map Declared.site) hsites
  rw [assemble, assemble, settle_eq, settle_eq, foldl_absorb, foldl_absorb]
  refine ⟨?_, gather_perm (h.flatMap_right _), gather_perm (h.flatMap_right _)⟩
  simpa [fresh, hid, hkind, hname, hqualname, hsignature, hcontainer, hcount] using hplaces.symm

theorem mem_ids : id ∈ (build ds).symbols.map Symbol.id ↔ ∃ d ∈ ds, d.id = id := by
  constructor
  · intro h
    obtain ⟨s, hs, rfl⟩ := List.mem_map.1 h
    obtain ⟨d, hd, hid, -⟩ := (gathered_build hs).named
    exact ⟨d, hd, hid⟩
  · rintro ⟨d, hd, rfl⟩
    obtain ⟨s, hs, hid, -⟩ := symbol_of_declared hd
    exact hid ▸ List.mem_map_of_mem hs

theorem ids_perm (h : ds.Perm ds') : (build ds).symbols.map Symbol.id = (build ds').symbols.map Symbol.id := by
  have hlt : ∀ ds, ((build ds).symbols.map Symbol.id).Pairwise (· < ·) := fun ds =>
    List.pairwise_map.2 (build ds).ascending
  refine List.Perm.eq_of_pairwise (fun a b _ _ hab hba => absurd hba (String.lt_asymm hab)) (hlt ds) (hlt ds') ?_
  refine (List.perm_ext_iff_of_nodup ((hlt ds).imp String.ne_of_lt) ((hlt ds').imp String.ne_of_lt)).2 fun id => ?_
  simp only [mem_ids, h.mem_iff]

theorem symbols_alike (hagree : Agree ds) (h : ds.Perm ds') :
    List.Forall₂ Alike (build ds).symbols (build ds').symbols := by
  have hids : List.Forall₂ (fun s t => s.id = t.id) (build ds).symbols (build ds').symbols := by
    rw [← List.forall₂_map_right_iff, ← List.forall₂_map_left_iff, List.forall₂_eq_eq_eq]
    exact ids_perm h
  refine List.forall₂_iff_get.2 ⟨hids.length_eq, fun i hi hi' => ?_⟩
  have hid := hids.get hi hi'
  obtain ⟨first, hfirst, hs⟩ := eq_assemble (List.get_mem (build ds).symbols ⟨i, hi⟩)
  obtain ⟨first', hfirst', ht⟩ := eq_assemble (List.get_mem (build ds').symbols ⟨i, hi'⟩)
  have hparts : (parts ds ((build ds).symbols.get ⟨i, hi⟩).id).Perm (parts ds' ((build ds').symbols.get ⟨i, hi'⟩).id) :=
    hid ▸ h.filter _
  have hagree : Agree (parts ds ((build ds).symbols.get ⟨i, hi⟩).id) := fun d hd d' hd' =>
    hagree d (mem_parts.1 hd).1 d' (mem_parts.1 hd').1
  rw [hs, ht]
  exact assemble_alike hagree (fun d hd => (mem_parts.1 hd).2) hparts hfirst (hparts.mem_iff.2 hfirst')

theorem table_congr {key : Symbol → String} {ss ts : List Symbol}
    (h : List.Forall₂ (fun s t => key s = key t ∧ s.id = t.id) ss ts) (table : Table) :
    ss.foldl (fun t s => t.add (key s) s.id) table = ts.foldl (fun t s => t.add (key s) s.id) table := by
  induction h generalizing table with
  | nil => rfl
  | cons hst _ ih =>
    rw [List.foldl_cons, List.foldl_cons, hst.1, hst.2]
    exact ih _

/-- In what order declarations come shows in the order of bases and modifiers alone. -/
theorem build_perm (hagree : Agree ds) (h : ds.Perm ds') : (build ds).SameBut (build ds') := by
  have hsymbols := symbols_alike hagree h
  have htable : ∀ key : Symbol → String, (∀ s t, Alike s t → key s = key t) →
      Table.ofSymbols key (build ds).symbols = Table.ofSymbols key (build ds').symbols := fun key hkey =>
    table_congr (hsymbols.imp fun s t hst => ⟨hkey s t hst, (congrArg Symbol.id hst.rest).symm⟩) []
  exact ⟨hsymbols, htable Symbol.name fun s t hst => (congrArg Symbol.name hst.rest).symm,
    htable Symbol.qualname fun s t hst => (congrArg Symbol.qualname hst.rest).symm⟩

end

/-- An index loses no declaration and counts none twice, its tables answer as a scan of its symbols does, and where
declarations with one id agree their order shows in that of bases and modifiers alone. -/
theorem build_lossless (ds : List Declared) :
    (∀ d ∈ ds, ∃ s, (build ds).resolve d.id = some s ∧ ∃ site ∈ s.declarations, site.location = d.location) ∧
    (∀ s ∈ (build ds).symbols, s.declarations.Pairwise fun a b => a.location.compareAll b.location = .lt) ∧
    ((build ds).symbols.map (·.declarations.length)).sum = (ds.map fun d => (d.id, d.location)).toFinset.card ∧
    (∀ name, ((build ds).byName name).Pairwise (fun s t => s.order t = .lt) ∧
      ∀ s, s ∈ (build ds).byName name ↔ s ∈ (build ds).symbols ∧ s.name = name) ∧
    (∀ q, ((build ds).byQualname q).Pairwise (fun s t => s.order t = .lt) ∧
      ∀ s, s ∈ (build ds).byQualname q ↔ s ∈ (build ds).symbols ∧ s.qualname = q) ∧
    (Agree ds → ∀ ds', ds.Perm ds' → (build ds).SameBut (build ds')) := by
  refine ⟨fun d hd => ?_, fun _ => declarations_strict, sum_declarations ds, fun name => ⟨?_, fun _ => mem_byName⟩,
    fun q => ⟨?_, fun _ => mem_byQualname⟩, fun hagree _ => build_perm hagree⟩
  · obtain ⟨s, hs, hid, hsite⟩ := symbol_of_declared hd
    exact ⟨s, hid ▸ resolve_of_mem hs, hsite⟩
  · exact byName_eq .. ▸ where_strict ..
  · exact byQualname_eq .. ▸ where_strict ..

/-- A part of one class with some bases, at some place. -/
def partOf (bases : List String) (path : String) (start : Nat) : Declared :=
  ⟨.class_, "Store", "App.Store", none, some "App", none, bases, ["partial"], ⟨path, 1, start + 1, ⟨start, 5⟩⟩, ⟨0, 40⟩⟩

theorem parts_commute :
    Agree [partOf ["Base"] "a.cs" 6, partOf ["IStore"] "b.cs" 14] ∧
    (build [partOf ["Base"] "a.cs" 6, partOf ["IStore"] "b.cs" 14]).SameBut
      (build [partOf ["IStore"] "b.cs" 14, partOf ["Base"] "a.cs" 6]) :=
  have hagree : Agree [partOf ["Base"] "a.cs" 6, partOf ["IStore"] "b.cs" 14] := by
    have hall : ∀ d ∈ [partOf ["Base"] "a.cs" 6, partOf ["IStore"] "b.cs" 14],
        ∀ d' ∈ [partOf ["Base"] "a.cs" 6, partOf ["IStore"] "b.cs" 14],
        (d.kind = d'.kind ∧ d.name = d'.name ∧ d.qualname = d'.qualname ∧ d.signature = d'.signature ∧
          d.container = d'.container ∧ d.parameterCount = d'.parameterCount) ∧
        (d.location = d'.location → d.extent = d'.extent) := by decide
    exact fun d hd d' hd' _ => hall d hd d' hd'
  ⟨hagree, (build_lossless _).2.2.2.2.2 hagree _ (List.Perm.swap ..)⟩

end SymbolIndex

end Workbench
