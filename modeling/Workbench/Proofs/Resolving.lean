import Workbench.Proofs.Indexing
import Workbench.Proofs.Nesting
import Workbench.Proofs.Offers

/-!
# What calls resolve to

A call that resolves writes a name, the name of the method or of the type that
it calls, and so it covers at least one byte.
-/

namespace Workbench.CSharp

section
variable {c : Compilation} {f : SourceFile} {n m : Node}

theorem start_lt_stop_of_word (h : f.word n ≠ "") : n.start < n.stop := by
  refine Node.start_lt_stop_of_text (f := f) fun htext => h ?_
  rw [SourceFile.word, htext]
  rfl

theorem start_lt_stop_of_within (h : m.Within n) (hword : f.word m ≠ "") : n.start < n.stop := by
  have := start_lt_stop_of_word hword
  have := h.start
  have := h.stop
  omega

theorem mem_of_last {cs : List Node} (h : Node.simpleName?.last cs = some m) :
    ∃ c ∈ cs, c.simpleName? = some m := by
  induction cs with
  | nil => cases h
  | cons c rest ih =>
    rw [Node.simpleName?.last] at h
    by_cases hc : c.role == .name
    · rw [if_pos hc] at h
      exact ⟨c, List.mem_cons_self, h⟩
    · rw [if_neg hc] at h
      obtain ⟨c', hc', h⟩ := ih h
      exact ⟨c', List.mem_cons_of_mem c hc', h⟩

theorem within_of_simpleName? (h : n.nests) (hm : n.simpleName? = some m) : m.Within n := by
  induction n using Node.childInduction with
  | step n ih =>
    have hlast : Node.simpleName?.last n.children = some m → m.Within n := by
      intro hl
      obtain ⟨c, hc, hcm⟩ := mem_of_last hl
      exact (ih c hc (Node.nests_of_child h hc) hcm).trans (Node.within_of_child h hc)
    unfold Node.simpleName? at hm
    split at hm
    · cases hm
      exact .refl _
    · exact Node.within_of_child h (List.mem_of_find?_eq_some hm)
    · exact hlast hm
    · exact hlast hm
    · cases hm

theorem within_of_calledName? {name : Node} {target : Option Node} (h : n.nests)
    (hname : Compilation.calledName? n = some (name, target)) : name.Within n := by
  have hsimple : ∀ {k : Node}, k.nests → k.Within n →
      ∀ {t : Option Node}, (k.simpleName?.map fun m => (m, t)) = some (name, target) → name.Within n := by
    intro k hk hkn t he
    obtain ⟨m, hm, he⟩ := Option.map_eq_some_iff.1 he
    cases he
    exact (within_of_simpleName? hk hm).trans hkn
  unfold Compilation.calledName? at hname
  split at hname
  · exact hsimple h (.refl n) hname
  · exact hsimple h (.refl n) hname
  · cases hk : n.name? with
    | none => simp [hk] at hname
    | some k =>
      have hchild := mem_of_child? hk
      rw [hk] at hname
      exact hsimple (Node.nests_of_child h hchild) (Node.within_of_child h hchild) hname
  · cases hname

/-! ## What a call resolves to -/

theorem mem_of_fitting {candidates : List Symbol} {args : Nat} {s : Symbol} (h : s ∈ fitting candidates args) :
    s ∈ candidates := by
  unfold fitting at h
  split at h
  · exact h
  · exact (List.mem_filter.1 h).1

theorem mem_of_rankedByChain {candidates chain : List Symbol} {p : Nat × Symbol} (h : p ∈ rankedByChain candidates chain) :
    p.2 ∈ candidates := by
  obtain ⟨s, hs, hp⟩ := List.mem_filterMap.1 (List.mem_mergeSort.1 h)
  obtain ⟨container, -, hp⟩ := Option.bind_eq_some_iff.1 hp
  obtain ⟨i, -, rfl⟩ := Option.map_eq_some_iff.1 hp
  exact hs

theorem mem_of_pick {candidates chain : List Symbol} {args : Nat} {s : Symbol} (h : pick candidates chain args = some s) :
    s ∈ candidates := by
  obtain ⟨p, hp, rfl⟩ := List.mem_map.1 (mem_of_fitting (List.mem_of_head? h))
  exact mem_of_rankedByChain hp

/-- An invocation that resolves calls a method by its name. -/
theorem resolveInvocation_spec {x : Focus} {callee : Symbol} {name : Node} (hn : x.node.nests)
    (h : c.resolveInvocation f x = some (callee, name)) :
    callee ∈ c.index.symbols ∧ callee.kind = .method ∧ callee.name = f.word name ∧ name.Within x.node := by
  obtain ⟨function, hfunction, h⟩ := Option.bind_eq_some_iff.1 h
  obtain ⟨⟨called, target⟩, hcalled, h⟩ := Option.bind_eq_some_iff.1 h
  have hchild := mem_of_child? hfunction
  have hchosen : ∀ {o : Option Symbol}, (do let s ← o; pure (s, called)) = some (callee, name) →
      o = some callee ∧ called = name := by
    intro o ho
    obtain ⟨s, hs, he⟩ := Option.bind_eq_some_iff.1 ho
    cases he
    exact ⟨hs, rfl⟩
  have hmem : callee ∈ (c.index.byName (f.word called)).filter (·.kind == .method) ∧ called = name := by
    dsimp only at h
    split at h
    · obtain ⟨hp, he⟩ := hchosen h
      exact ⟨mem_of_pick hp, he⟩
    · obtain ⟨hp, he⟩ := hchosen h
      exact ⟨mem_of_pick hp, he⟩
    · obtain ⟨hp, -⟩ := hchosen h
      cases hp
    · split at h
      · rename_i hfits
        obtain ⟨hp, he⟩ := hchosen h
        cases hp
        exact ⟨mem_of_fitting (hfits ▸ List.mem_cons_self), he⟩
      · obtain ⟨hp, -⟩ := hchosen h
        cases hp
  obtain ⟨hmem, rfl⟩ := hmem
  obtain ⟨hbyName, hkind⟩ := List.mem_filter.1 hmem
  obtain ⟨hsymbol, hname⟩ := SymbolIndex.mem_byName.1 hbyName
  exact ⟨hsymbol, beq_iff_eq.1 hkind, hname,
    (within_of_calledName? (Node.nests_of_child hn hchild) hcalled).trans (Node.within_of_child hn hchild)⟩

/-- A creation that resolves writes the type that it creates. -/
theorem resolveCreation_spec {x : Focus} {callee : Symbol} {name : Node} (hn : x.node.nests)
    (h : c.resolveCreation f x = some (callee, name)) : ∃ written : Node, f.word written ≠ "" ∧ written.Within x.node := by
  obtain ⟨written, hwritten, h⟩ := Option.bind_eq_some_iff.1 h
  obtain ⟨simple, -, h⟩ := Option.bind_eq_some_iff.1 h
  obtain ⟨type, htype, -⟩ := Option.bind_eq_some_iff.1 h
  refine ⟨written, fun hempty => ?_, Node.within_of_child hn (mem_of_child? hwritten)⟩
  have hnone : c.typesFor "" = [] := by
    unfold Compilation.typesFor
    exact if_pos (.inl rfl)
  rw [hempty, hnone] at htype
  cases htype

end

end Workbench.CSharp
