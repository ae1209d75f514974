import Workbench.Proofs.Editing
import Workbench.Proofs.Sorting
import Workbench.Symbol.Index

/-!
# What a symbol index holds

An index has each id once, in ascending order, and every id has the form of one.
A symbol owes its kind and its places to declarations with its id.
-/

namespace Workbench

/-! ## Ids -/

namespace Digest

theorem isHexDigit_digitChar : ∀ n < 16, Symbol.isHexDigit (Nat.digitChar n) := by decide

theorem isHexDigit_of_mem_hexByte {n : Nat} {c : Char} (h : c ∈ hexByte n) : Symbol.isHexDigit c := by
  simp only [hexByte, List.mem_cons, List.not_mem_nil, or_false] at h
  rcases h with rfl | rfl
  · exact isHexDigit_digitChar _ (Nat.mod_lt _ (by decide))
  · exact isHexDigit_digitChar _ (Nat.mod_lt _ (by decide))

theorem isHexDigit_of_mem_hex {bytes : List UInt8} {c : Char} (h : c ∈ hex bytes) : Symbol.isHexDigit c := by
  obtain ⟨w, -, hw⟩ := List.mem_flatMap.1 h
  obtain ⟨shift, -, hs⟩ := List.mem_flatMap.1 hw
  exact isHexDigit_of_mem_hexByte hs

theorem length_wordHex (w : UInt32) : (wordHex w).length = 8 := rfl

theorem length_hex (bytes : List UInt8) : (hex bytes).length = 64 := by
  have hw : (hash bytes).toList.map (fun w => (wordHex w).length) = (hash bytes).toList.map fun _ => 8 :=
    List.map_congr_left fun w _ => length_wordHex w
  rw [hex, List.length_flatMap, hw, List.map_const', List.sum_replicate_nat, Vector.length_toList]

end Digest

namespace Symbol

theorem isWellFormedId_ofHex {hex : List Char} (hlen : hex.length = 16) (hall : ∀ c ∈ hex, isHexDigit c) :
    isWellFormedId (.ofList ("sym_".toList ++ hex)) := by
  simp only [isWellFormedId, String.toList_ofList, String.reduceToList, List.cons_append, List.nil_append, hlen,
    BEq.rfl, Bool.true_and]
  exact List.all_eq_true.2 hall

theorem isWellFormedId_idOf (qualname : String) (signature : Option String) (kind : SymbolKind) :
    isWellFormedId (idOf qualname signature kind) := by
  have hlen : ((Digest.hex (identityBytes qualname signature kind)).take 16).length = 16 := by
    rw [List.length_take, Digest.length_hex]
    rfl
  exact isWellFormedId_ofHex hlen fun c hc => Digest.isHexDigit_of_mem_hex (List.mem_of_mem_take hc)

end Symbol

def Declared.id (d : Declared) : String := Symbol.idOf d.qualname d.signature d.kind

namespace SymbolIndex

/-! ## Where a symbol comes from -/

/-- A symbol is named by a declaration with its id, and each of its places is that of one. -/
structure Gathered (ds : List Declared) (s : Symbol) : Prop where
  named : ∃ d ∈ ds, d.id = s.id ∧ d.kind = s.kind ∧ d.name = s.name
  placed : ∀ site ∈ s.declarations, ∃ d ∈ ds, d.id = s.id ∧ site = ⟨d.location, d.extent⟩

section
variable {ds : List Declared} {d : Declared} {s : Symbol} {symbols : List Symbol}

theorem Gathered.append (h : Gathered ds s) (more : List Declared) : Gathered (ds ++ more) s where
  named :=
    let ⟨d, hd, he⟩ := h.named
    ⟨d, List.mem_append_left more hd, he⟩
  placed site hs :=
    let ⟨d, hd, he⟩ := h.placed site hs
    ⟨d, List.mem_append_left more hd, he⟩

theorem Gathered.absorb (h : Gathered ds s) (hd : d ∈ ds) (hid : d.id = s.id) : Gathered ds (absorb s d) where
  named := h.named
  placed site hs := by
    rcases List.mem_append.1 hs with hs | hs
    · exact h.placed site hs
    · exact ⟨d, hd, hid, List.mem_singleton.1 hs⟩

theorem gathered_fresh (hd : d ∈ ds) : Gathered ds (fresh d.id d) where
  named := ⟨d, hd, rfl, rfl, rfl⟩
  placed _ hs := by cases hs

theorem Gathered.settle (h : Gathered ds s) : Gathered ds (settle s) where
  named := h.named
  placed site hs := h.placed site (List.mem_mergeSort.1 (Ordered.mem_of_mem_dedupBy hs))

theorem addDeclared_eq (symbols : List Symbol) (d : Declared) :
    addDeclared symbols d =
      Ordered.put Symbol.id (SymbolIndex.absorb ((Ordered.find? Symbol.id d.id symbols).getD (fresh d.id d)) d) symbols :=
  rfl

theorem gathered_addDeclared (h : ∀ s ∈ symbols, Gathered ds s) :
    ∀ s ∈ addDeclared symbols d, Gathered (ds ++ [d]) s := by
  intro s hs
  have hd : d ∈ ds ++ [d] := List.mem_append_right _ List.mem_cons_self
  rw [addDeclared_eq] at hs
  rcases Ordered.mem_put hs with rfl | hs
  · cases hf : Ordered.find? Symbol.id d.id symbols with
    | none => exact (gathered_fresh hd).absorb hd rfl
    | some known =>
      obtain ⟨hk, hid⟩ := Ordered.find?_eq_some hf
      exact ((h known hk).append [d]).absorb hd hid.symm
  · exact (h s hs).append [d]

theorem gathered_foldl {known : List Declared} (h : ∀ s ∈ symbols, Gathered known s) :
    ∀ s ∈ ds.foldl addDeclared symbols, Gathered (known ++ ds) s := by
  induction ds generalizing known symbols with
  | nil => simpa using h
  | cons d rest ih => simpa using ih (gathered_addDeclared (d := d) h)

/-- Every symbol of an index comes from the declarations that it is built from. -/
theorem gathered_build (h : s ∈ (build ds).symbols) : Gathered ds s := by
  obtain ⟨raw, hraw, rfl⟩ := List.mem_map.1 h
  have hnone : ∀ s ∈ ([] : List Symbol), Gathered [] s := by simp
  have hgathered : Gathered ([] ++ ds) raw := gathered_foldl hnone raw hraw
  exact hgathered.settle

/-! ## Looking up -/

namespace Table

theorem ids_cons (k : String) (known : List String) (t : Table) (key : String) :
    ids ((k, known) :: t) key = if k = key then known else t.ids key := by
  rw [ids, List.lookup_cons]
  by_cases h : key = k
  · rw [beq_iff_eq.2 h, if_pos h.symm, Option.getD_some]
  · rw [beq_eq_false_iff_ne.2 h, if_neg (Ne.symm h), ids]

theorem ids_add (t : Table) (key id k : String) :
    (t.add key id).ids k = if key = k then t.ids k ++ [id] else t.ids k := by
  induction t with
  | nil => exact ids_cons key [id] [] k
  | cons row r ih =>
    obtain ⟨k', known⟩ := row
    rw [add, ids_cons]
    by_cases hrow : k' = key
    · rw [if_pos hrow, ids_cons, hrow]
      by_cases h : key = k
      · rw [if_pos h, if_pos h, if_pos h]
      · rw [if_neg h, if_neg h, if_neg h]
    · rw [if_neg hrow, ids_cons, ih]
      by_cases hk : k' = k
      · have hne : key ≠ k := fun h => hrow (hk.trans h.symm)
        rw [if_pos hk, if_pos hk, if_neg hne]
      · rw [if_neg hk, if_neg hk]

theorem ids_foldl (key : Symbol → String) (t : Table) (k : String) :
    ids (symbols.foldl (fun t s => add (key s) s.id t) t) k =
      t.ids k ++ (symbols.filter (key · == k)).map Symbol.id := by
  induction symbols generalizing t with
  | nil => simp
  | cons s r ih =>
    rw [List.foldl_cons, ih, ids_add, List.filter_cons]
    by_cases h : key s = k
    · simp [h]
    · simp [h]

/-- A table has under a key the ids of the symbols with that key, in their order. -/
theorem ids_ofSymbols (key : Symbol → String) (k : String) :
    (ofSymbols key symbols).ids k = (symbols.filter (key · == k)).map Symbol.id :=
  ids_foldl key [] k

end Table

theorem mem_of_resolve {ix : SymbolIndex} {id : String} (h : ix.resolve id = some s) : s ∈ ix.symbols ∧ s.id = id :=
  Ordered.find?_eq_some h

theorem resolve_of_mem {ix : SymbolIndex} (h : s ∈ ix.symbols) : ix.resolve s.id = some s :=
  Ordered.find?_of_mem ix.ascending h

theorem filterMap_resolve {ix : SymbolIndex} (h : ∀ s ∈ symbols, s ∈ ix.symbols) :
    (symbols.map Symbol.id).filterMap ix.resolve = symbols := by
  induction symbols with
  | nil => rfl
  | cons s r ih =>
    rw [List.map_cons, List.filterMap_cons_some (resolve_of_mem (h s List.mem_cons_self)),
      ih fun t ht => h t (List.mem_cons_of_mem s ht)]

theorem collect_filter (ix : SymbolIndex) (p : Symbol → Bool) :
    ix.collect ((ix.symbols.filter p).map Symbol.id) = ix.where_ p := by
  rw [collect, filterMap_resolve fun s hs => (List.mem_filter.1 hs).1]
  rfl

/-- The table of names gives the symbols of a name. -/
theorem byName_eq (ix : SymbolIndex) (name : String) : ix.byName name = ix.where_ (·.name == name) := by
  rw [byName, names, Table.ids_ofSymbols, collect_filter]

theorem byQualname_eq (ix : SymbolIndex) (q : String) : ix.byQualname q = ix.where_ (·.qualname == q) := by
  rw [byQualname, qualnames, Table.ids_ofSymbols, collect_filter]

theorem mem_where {ix : SymbolIndex} {p : Symbol → Bool} : s ∈ ix.where_ p ↔ s ∈ ix.symbols ∧ p s = true := by
  rw [where_, List.mem_mergeSort, List.mem_filter]

theorem mem_byName {ix : SymbolIndex} {name : String} : s ∈ ix.byName name ↔ s ∈ ix.symbols ∧ s.name = name := by
  rw [byName_eq, mem_where, beq_iff_eq]

theorem mem_byQualname {ix : SymbolIndex} {q : String} : s ∈ ix.byQualname q ↔ s ∈ ix.symbols ∧ s.qualname = q := by
  rw [byQualname_eq, mem_where, beq_iff_eq]

theorem mem_membersOf {ix : SymbolIndex} {container : String} :
    s ∈ ix.membersOf container ↔ s ∈ ix.symbols ∧ s.container = some container := by
  rw [membersOf, mem_where, beq_iff_eq]

theorem mem_typesNamed {ix : SymbolIndex} {name : String} :
    s ∈ ix.typesNamed name ↔ s ∈ ix.symbols ∧ s.kind.isType ∧ Symbol.stripArity s.name = name := by
  rw [typesNamed, mem_where, Bool.and_eq_true, beq_iff_eq]

theorem eq_of_id {ix : SymbolIndex} {t : Symbol} (hs : s ∈ ix.symbols) (ht : t ∈ ix.symbols) (hid : s.id = t.id) :
    s = t := by
  have hsr := resolve_of_mem hs
  rw [hid, resolve_of_mem ht] at hsr
  exact (Option.some.inj hsr).symm

theorem order_eq_iff {ix : SymbolIndex} {t : Symbol} (hs : s ∈ ix.symbols) (ht : t ∈ ix.symbols) :
    s.order t = .eq ↔ s = t := by
  refine ⟨fun h => eq_of_id hs ht ?_, fun h => h ▸ Std.ReflCmp.compare_self⟩
  exact Std.LawfulEqOrd.compare_eq_iff_eq.1 (Ordering.then_eq_eq.1 h).2

/-- Look-ups answer each symbol once, in order. -/
theorem where_strict (ix : SymbolIndex) (p : Symbol → Bool) : (ix.where_ p).Pairwise fun s t => s.order t = .lt := by
  have hdistinct : (ix.where_ p).Pairwise fun s t => s.id ≠ t.id :=
    ((ix.ascending.imp String.ne_of_lt).filter p).perm (List.mergeSort_perm _ _).symm fun h => h.symm
  have hsorted : (ix.where_ p).Pairwise fun s t => (s.order t).isLE := Ordered.pairwise_sorted _
  refine (hsorted.and hdistinct).imp_of_mem fun hs ht h => Ordered.lt_of_isLE h.1 fun heq => h.2 ?_
  exact congrArg Symbol.id ((order_eq_iff (mem_where.1 hs).1 (mem_where.1 ht).1).1 heq)

theorem isWellFormedId_of_resolve {id : String} (h : (build ds).resolve id = some s) : Symbol.isWellFormedId id := by
  obtain ⟨hs, rfl⟩ := mem_of_resolve h
  obtain ⟨d, -, hid, -⟩ := (gathered_build hs).named
  exact hid ▸ Symbol.isWellFormedId_idOf d.qualname d.signature d.kind

end

end SymbolIndex

end Workbench
