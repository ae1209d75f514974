import Workbench.Proofs.Ordering

/-!
# Modifiers in order

Fixing the modifier order ranks the modifiers of each declaration that has
them out of order. Putting `readonly` in where it belongs keeps that order.
-/

namespace Workbench.CSharp

/-! ## Chains -/

namespace Modifier

/-- A chain of what passes on from one to the next holds of any two. -/
theorem chained_iff_pairwise {α : Type} {r : α → α → Bool}
    (htrans : ∀ a b c, r a b = true → r b c = true → r a c = true) {xs : List α} :
    chained r xs = true ↔ xs.Pairwise fun a b => r a b = true := by
  induction xs with
  | nil => simp [chained]
  | cons a rest ih =>
    cases rest with
    | nil => simp [chained]
    | cons b rest =>
      rw [chained, Bool.and_eq_true, ih]
      constructor
      · rintro ⟨hab, hrest⟩
        refine List.pairwise_cons.2 ⟨fun c hc => ?_, hrest⟩
        rcases List.mem_cons.1 hc with rfl | hc
        · exact hab
        · exact htrans a b c hab ((List.pairwise_cons.1 hrest).1 c hc)
      · intro h
        obtain ⟨ha, hrest⟩ := List.pairwise_cons.1 h
        exact ⟨ha b List.mem_cons_self, hrest⟩

theorem inOrder_iff {ms : List String} : inOrder ms = true ↔ ms.Pairwise fun a b => rank a ≤ rank b := by
  rw [inOrder, chained_iff_pairwise fun a b c hab hbc => ?_]
  · simp only [decide_eq_true_eq]
  · simp only [decide_eq_true_eq] at hab hbc ⊢
    exact hab.trans hbc

/-- What is sorted by the ranks of its keys is in order of them. -/
theorem pairwise_mergeSort {α : Type} (key : α → String) (xs : List α) :
    (xs.mergeSort fun a b => rank (key a) ≤ rank (key b)).Pairwise fun a b => rank (key a) ≤ rank (key b) := by
  have hsorted : (xs.mergeSort fun a b => rank (key a) ≤ rank (key b)).Pairwise fun a b =>
      decide (rank (key a) ≤ rank (key b)) = true :=
    List.pairwise_mergeSort (fun a b c hab hbc => by simp at *; omega) (fun a b => by simp; omega) xs
  simpa only [decide_eq_true_eq] using hsorted

theorem misordered?_eq_none_iff {f : SourceFile} {ms : List Node} : misordered? f ms = none ↔
    (chained (onlyBlanksBetween f) ms = true → (ms.map f.text).Pairwise fun a b => rank a ≤ rank b) := by
  rw [← inOrder_iff]
  cases ms with
  | nil => simp [misordered?, inOrder, chained]
  | cons m rest =>
    have hrange : range? (m :: rest) ≠ none := by
      rw [range?, List.head?_cons, List.getLast?_cons]
      exact Option.some_ne_none _
    rw [misordered?]
    split
    · rename_i horder
      exact iff_of_true rfl fun _ => horder
    · rename_i horder
      split
      · rename_i hchain
        exact iff_of_false hrange fun h => horder (h hchain)
      · rename_i hchain
        exact iff_of_true rfl fun h => absurd h hchain

end Modifier

/-! ## Positions -/

section
variable {f : SourceFile} {n m : Node} {cs : List Node} {at_ : Nat}

/-- Children stand one behind the other. -/
theorem Node.Regular.pairwise_children (h : n.Regular f) (hnests : n.nests = true) :
    n.children.Pairwise fun a b => a.stop ≤ b.start := by
  have hrange : ∀ c ∈ n.children, c.start ≤ c.stop := fun c hc =>
    (Node.nests_iff.1 (Node.nests_of_child hnests hc)).1
  have horder := h.order
  generalize n.children = cs at hrange horder
  induction cs with
  | nil => exact .nil
  | cons a rest ih =>
    cases rest with
    | nil => exact List.pairwise_singleton _ a
    | cons b rest =>
      rw [Modifier.chained, Bool.and_eq_true, decide_eq_true_eq] at horder
      obtain ⟨ha, hrange⟩ := List.forall_mem_cons.1 hrange
      have hrest := ih hrange horder.2
      have hb := hrange b List.mem_cons_self
      refine List.pairwise_cons.2 ⟨fun c hc => ?_, hrest⟩
      rcases List.mem_cons.1 hc with rfl | hc
      · exact horder.1
      · exact (horder.1.trans hb).trans ((List.pairwise_cons.1 hrest).1 c hc)

/-- Where nodes stand one behind the other, a position parts them. -/
theorem filter_start (h : cs.Pairwise fun a b => a.start ≤ b.start) (at_ : Nat) :
    cs.takeWhile (·.start < at_) = cs.filter (·.start < at_) ∧
      cs.dropWhile (·.start < at_) = cs.filter fun c => !decide (c.start < at_) := by
  induction cs with
  | nil => exact ⟨rfl, rfl⟩
  | cons c rest ih =>
    obtain ⟨hc, hrest⟩ := List.pairwise_cons.1 h
    obtain ⟨htake, hdrop⟩ := ih hrest
    by_cases hlt : c.start < at_
    · rw [List.takeWhile_cons_of_pos (by simpa using hlt), List.dropWhile_cons_of_pos (by simpa using hlt),
        List.filter_cons_of_pos (by simpa using hlt), List.filter_cons_of_neg (by simpa using hlt), htake, hdrop]
      exact ⟨rfl, rfl⟩
    · have hout : ∀ a ∈ c :: rest, ¬ a.start < at_ := fun a ha => by
        rcases List.mem_cons.1 ha with rfl | ha
        · exact hlt
        · exact fun h => hlt ((hc a ha).trans_lt h)
      rw [List.takeWhile_cons_of_neg (by simpa using hlt), List.dropWhile_cons_of_neg (by simpa using hlt),
        List.filter_eq_nil_iff.2 (by simpa using hout), List.filter_eq_self.2 (by simpa using hout)]
      exact ⟨rfl, rfl⟩

theorem Node.Regular.filter_start (h : n.Regular f) (hnests : n.nests = true) (at_ : Nat) :
    n.children.takeWhile (·.start < at_) = n.children.filter (·.start < at_) ∧
      n.children.dropWhile (·.start < at_) = n.children.filter fun c => !decide (c.start < at_) := by
  refine CSharp.filter_start ((h.pairwise_children hnests).imp_of_mem fun {a b} ha _ hab => ?_) at_
  exact (Node.nests_iff.1 (Node.nests_of_child hnests ha)).1.trans hab

theorem Node.mem_modifiers : m ∈ n.modifiers ↔ m ∈ n.children ∧ m.kind = .modifier := by
  rw [Node.modifiers, Node.ofKind, List.mem_filter, beq_iff_eq]

theorem Node.start_lt_stop_of_isKeyword (h : m.isKeyword f = true) : m.start < m.stop := by
  obtain ⟨-, -, -, -, -, hword⟩ := Node.exists_token_of_isKeyword h
  refine Node.start_lt_stop_of_text (f := f) fun he => ?_
  rw [he] at hword
  cases hword

/-- The modifiers of a node stand one behind the other, ahead of what it declares. -/
structure Node.Headed (n : Node) : Prop where
  order : n.modifiers.Pairwise fun a b => a.start < b.start
  ahead : ∀ d, n.variableDeclaration? = some d → ∀ m ∈ n.modifiers, m.start < d.start

/-- Fields are like that in texts without errors. -/
theorem Node.headed_of_everywhere (h : n.everywhere (Node.isRegular f) = true) (hnests : n.nests = true)
    (hkind : n.kind = .fieldDeclaration) : n.Headed := by
  have hreg := Node.regular_of_everywhere h
  have hwide : ∀ m ∈ n.modifiers, m.start < m.stop := fun m hm => by
    obtain ⟨hm, hk⟩ := Node.mem_modifiers.1 hm
    exact Node.start_lt_stop_of_isKeyword
      ((Node.regular_of_everywhere ((Node.everywhere_iff.1 h).2 m hm)).modifier hk).2
  have hplaces : n.modifiers.Pairwise fun a b => a.stop ≤ b.start :=
    (hreg.pairwise_children hnests).sublist List.filter_sublist
  constructor
  · exact hplaces.imp_of_mem fun ha _ hab => (hwide _ ha).trans_le hab
  · intro d hd m hm
    exact (hwide m hm).trans_le (hreg.ahead hkind d hd m hm)

/-- Where `readonly` goes, what stands before it has at most its rank and what stands behind at least its rank. -/
theorem Modifier.readonlyPoint?_spec (h : n.Headed) (hpoint : readonlyPoint? f n = some at_)
    (hsorted : (n.modifiers.map f.text).Pairwise fun a b => rank a ≤ rank b) :
    ∀ m ∈ n.modifiers, (m.start < at_ → rank (f.text m) ≤ rank "readonly") ∧
      (¬ m.start < at_ → rank "readonly" ≤ rank (f.text m)) := by
  have hranks : n.modifiers.Pairwise fun a b => rank (f.text a) ≤ rank (f.text b) := by rwa [List.pairwise_map] at hsorted
  have hplaces := h.order
  rw [readonlyPoint?] at hpoint
  split at hpoint
  · rename_i after hfind
    cases hpoint
    obtain ⟨hafter, as, bs, hms, hbefore⟩ := List.find?_eq_some_iff_append.1 hfind
    simp only [decide_eq_true_eq] at hafter hbefore
    rw [hms] at hplaces hranks ⊢
    obtain ⟨-, hplaces, hcross⟩ := List.pairwise_append.1 hplaces
    intro m hm
    rcases List.mem_append.1 hm with hm | hm
    · have hrank := hbefore m hm
      simp only [Bool.not_eq_true', decide_eq_false_iff_not, Nat.not_lt] at hrank
      exact ⟨fun _ => hrank, fun hout => absurd (hcross m hm after List.mem_cons_self) hout⟩
    · have hrank : rank (f.text after) ≤ rank (f.text m) ∧ after.start ≤ m.start := by
        rcases List.mem_cons.1 hm with rfl | hm
        · exact ⟨Nat.le_refl _, Nat.le_refl _⟩
        · exact ⟨(List.pairwise_cons.1 (List.pairwise_append.1 hranks).2.1).1 m hm,
            Nat.le_of_lt ((List.pairwise_cons.1 hplaces).1 m hm)⟩
      exact ⟨fun hin => absurd hin (Nat.not_lt.2 hrank.2), fun _ => (Nat.le_of_lt hafter).trans hrank.1⟩
  · rename_i hfind
    obtain ⟨d, hd, rfl⟩ := Option.map_eq_some_iff.1 hpoint
    intro m hm
    have hrank := List.find?_eq_none.1 hfind m hm
    simp only [decide_eq_true_eq, Nat.not_lt] at hrank
    exact ⟨fun _ => hrank, fun hout => absurd (h.ahead d hd m hm) hout⟩

/-- The modifiers of a node with `readonly` put in at a position. -/
def Modifier.withReadonly (f : SourceFile) (n : Node) (at_ : Nat) : List String :=
  (n.modifiers.filter (·.start < at_)).map f.text ++
    "readonly" :: (n.modifiers.filter fun m => !decide (m.start < at_)).map f.text

theorem Modifier.pairwise_withReadonly (h : n.Headed) (hpoint : readonlyPoint? f n = some at_)
    (hsorted : (n.modifiers.map f.text).Pairwise fun a b => rank a ≤ rank b) :
    (withReadonly f n at_).Pairwise fun a b => rank a ≤ rank b := by
  have hspec := readonlyPoint?_spec h hpoint hsorted
  have hkept : ∀ p : Node → Bool, ((n.modifiers.filter p).map f.text).Pairwise fun a b => rank a ≤ rank b :=
    fun p => hsorted.sublist (List.filter_sublist.map f.text)
  have hbefore : ∀ s ∈ (n.modifiers.filter (·.start < at_)).map f.text, rank s ≤ rank "readonly" := by
    intro s hs
    obtain ⟨m, hm, rfl⟩ := List.mem_map.1 hs
    obtain ⟨hm, hstart⟩ := List.mem_filter.1 hm
    exact (hspec m hm).1 (by simpa using hstart)
  have hbehind : ∀ s ∈ (n.modifiers.filter fun m => !decide (m.start < at_)).map f.text, rank "readonly" ≤ rank s := by
    intro s hs
    obtain ⟨m, hm, rfl⟩ := List.mem_map.1 hs
    obtain ⟨hm, hstart⟩ := List.mem_filter.1 hm
    exact (hspec m hm).2 (by simpa using hstart)
  refine List.pairwise_append.2 ⟨hkept _, List.pairwise_cons.2 ⟨hbehind, hkept _⟩, fun s hs t ht => ?_⟩
  rcases List.mem_cons.1 ht with rfl | ht
  · exact hbefore s hs
  · exact (hbefore s hs).trans (hbehind t ht)

end

/-! ## Files whose modifiers are in order -/

/-- Modifiers are in order wherever nothing but blanks stands between them. -/
def SettledModifiers (f : SourceFile) : Prop :=
  ∀ n ∈ f.root.descendants, Modifier.mayBeMisordered n.kind = true → Modifier.misordered? f n.modifiers = none

theorem misorderedRanges_eq_nil_iff {f : SourceFile} : Modifier.misorderedRanges f = [] ↔ SettledModifiers f := by
  rw [Modifier.misorderedRanges, List.filterMap_eq_nil_iff]
  simp only [List.mem_filter, and_imp, SettledModifiers]

/-- How a modifier is spelled. -/
def Node.keyword (n : Node) : String := n.children.head?.elim "" Node.leafText

section
variable {f g : SourceFile} {edit : Node → List Node} {n m : Node} {es : List Edit}

theorem keyword_eq_text (h : n.everywhere (Node.isRegular f) = true) (hm : m ∈ n.modifiers) : m.keyword = f.text m := by
  obtain ⟨hm, hk⟩ := Node.mem_modifiers.1 hm
  obtain ⟨t, ht, -, -, htext, -⟩ := Node.exists_token_of_isKeyword
    ((Node.regular_of_everywhere ((Node.everywhere_iff.1 h).2 m hm)).modifier hk).2
  rw [Node.keyword, ht, ← htext]
  rfl

theorem map_keyword (h : n.everywhere (Node.isRegular f) = true) : n.modifiers.map Node.keyword = n.modifiers.map f.text :=
  List.map_congr_left fun _ hm => keyword_eq_text h hm

/-- The modifiers of a node are spelled like those that the edit left there. -/
theorem Paired.text_modifiers (hkeep : Keeps edit) (h : Paired f g edit n m) :
    m.modifiers.map g.text = ((edit n).filter Node.isModifier).map Node.keyword := by
  have hpairs : List.Forall₂ (fun a b => CSharp.follows f g edit a b = true) ((edit n).filter Node.isModifier)
      (m.children.filter Node.isModifier) := List.rel_filter (fun a b hab => by
    show a.isModifier = true ↔ b.isModifier = true
    rw [Node.isModifier, Node.isModifier, (Follows.of_follows hab).kind]) h.facts.children
  have hkeys : ∀ a ∈ (edit n).filter Node.isModifier, a.kind = .modifier ∧ ∃ t, a.children = [t] ∧ t.kind = .token := by
    intro a ha
    obtain ⟨ha, hk⟩ := List.mem_filter.1 ha
    have hk : a.kind = .modifier := by simpa [Node.isModifier] using hk
    refine ⟨hk, ?_⟩
    rcases hkeep.origin n a ha with ha | rfl
    · obtain ⟨t, ht, htoken, -⟩ := Node.exists_token_of_isKeyword ((Node.regular_of_everywhere (h.child ha)).modifier hk).2
      exact ⟨t, ht, htoken⟩
    · exact ⟨_, rfl, rfl⟩
  have htexts : List.Forall₂ (fun a b => b.keyword = a.keyword) ((edit n).filter Node.isModifier)
      (m.children.filter Node.isModifier) := by
    refine (forall₂_and hpairs hkeys fun b hb => h.child' (List.mem_filter.1 hb).1).imp ?_
    rintro a b ⟨hab, ⟨hk, t, ht, htoken⟩, hb⟩
    have hab := Follows.of_follows hab
    obtain ⟨t', ht', htoken', -⟩ := Node.exists_token_of_isKeyword
      ((Node.regular_of_everywhere hb).modifier (hab.kind.trans hk)).2
    -- Neither token is exchanged, and a token keeps its spelling.
    have hchildren := hab.children
    rw [ht'] at hchildren
    obtain ⟨x, _, hx, hnil, hedit⟩ := List.forall₂_cons_right_iff.1 hchildren
    cases List.forall₂_nil_right_iff.1 hnil
    have hx := Follows.of_follows hx
    have hcore := hkeep.core a
    rw [hedit, ht, List.filter_cons_of_pos (by simp [isCore, ← hx.kind, htoken']),
      List.filter_cons_of_pos (by simp [isCore, htoken])] at hcore
    obtain ⟨rfl, -⟩ := List.cons.inj hcore
    have hsaying := hx.saying.resolve_left (by simp [htoken'])
    have htoken := congrArg Saying.token hsaying
    simp only [SourceFile.saying, htoken', ← hx.kind, beq_self_eq_true, if_true, Option.some.injEq] at htoken
    rw [Node.keyword, Node.keyword, ht, ht', List.head?_cons, List.head?_cons, Option.elim, Option.elim, htoken]
  have hmap : List.Forall₂ Eq ((edit n).filter Node.isModifier |>.map Node.keyword)
      ((m.children.filter Node.isModifier).map Node.keyword) :=
    List.forall₂_map_left_iff.2 (List.forall₂_map_right_iff.2 (htexts.imp fun _ _ h => h.symm))
  rw [List.forall₂_eq_eq_eq] at hmap
  rw [← map_keyword h.new, hmap]
  rfl

/-- When an edit puts the modifiers of a node in order that nothing but blanks parts, they are in order in the new text. -/
theorem Paired.misordered?_eq_none (hkeep : Keeps edit) (h : Paired f g edit n m)
    (hedit : Modifier.chained (Modifier.onlyBlanksBetween f) n.modifiers = true →
      (((edit n).filter Node.isModifier).map Node.keyword).Pairwise fun a b => Modifier.rank a ≤ Modifier.rank b) :
    Modifier.misordered? g m.modifiers = none := by
  refine Modifier.misordered?_eq_none_iff.2 fun hchain => ?_
  rw [h.text_modifiers hkeep]
  exact hedit (h.facts.gaps hchain)

/-- Modifiers are in order wherever those that they follow get in order. -/
theorem settledModifiers_of_paired (hkeep : Keeps edit) (h : Paired f g edit f.root g.root)
    (hedit : ∀ n ∈ f.root.descendants, Modifier.mayBeMisordered n.kind = true → ∀ m, Paired f g edit n m →
      Modifier.misordered? g m.modifiers = none) : SettledModifiers g := by
  intro m hm hkind
  rcases h.exists_old hkeep hm with ⟨n, hn, hnm⟩ | hk
  · exact hedit n hn (hnm.kind ▸ hkind) m hnm
  · rw [hk] at hkind
    cases hkind

/-! ## Ranking -/

theorem keeps_rank : Keeps (Node.reshaped f .fixModifierOrder es) where
  core n := by
    rw [Node.reshaped]
    split
    · rename_i hcond
      refine filter_refill (fun a ha => ?_) fun a ha => ?_
      · rw [isCore, (Bool.and_eq_true_iff.1 hcond).1]
        simp_all [Node.isModifier]
      · exact (List.mem_filter.1 (List.mem_mergeSort.1 ha)).2
    · rfl
  origin n a ha := by
    rw [Node.reshaped] at ha
    split at ha
    · rcases mem_of_mem_refill ha with ha | ha
      · exact .inl ha
      · exact .inl (List.mem_filter.1 (List.mem_mergeSort.1 ha)).1
    · exact .inl ha

theorem settledModifiers_of_rank (h : Paired f g (Node.reshaped f .fixModifierOrder es) f.root g.root)
    (hall : ∀ n ∈ f.root.descendants, Modifier.mayBeMisordered n.kind = true → Modifier.misordered? f n.modifiers = none ∨
      (es.any fun e => Modifier.range? n.modifiers == some e.span) = true) : SettledModifiers g := by
  refine settledModifiers_of_paired keeps_rank h fun n hn hkind m hnm => hnm.misordered?_eq_none keeps_rank fun hchain => ?_
  have hold := hnm.old
  rw [Node.reshaped, hkind, Bool.true_and]
  split
  · have hperm : (Node.sortedModifiers f n.modifiers).Perm n.modifiers := List.mergeSort_perm _ _
    have hmem : ∀ a ∈ Node.sortedModifiers f n.modifiers, a ∈ n.modifiers := fun a ha => hperm.mem_iff.1 ha
    have hslots := slots_refill (p := Node.isModifier) hperm.length_eq fun a ha => (List.mem_filter.1 (hmem a ha)).2
    rw [hslots,
      List.map_congr_left fun a ha => keyword_eq_text hold (hmem a ha), List.pairwise_map]
    exact Modifier.pairwise_mergeSort f.text n.modifiers
  · rename_i hno
    have hnone := (hall n hn hkind).resolve_right hno
    have htexts : (n.children.filter Node.isModifier).map Node.keyword = n.modifiers.map f.text := map_keyword hold
    rw [htexts]
    exact Modifier.misordered?_eq_none_iff.1 hnone hchain

/-! ## Later rules -/

/-- An edit that at most puts `readonly` among the children of a field declaration. -/
def Inserts (edit : Node → List Node) : Prop :=
  ∀ n, edit n = n.children ∨
    (n.kind = .fieldDeclaration ∧ ∃ l r, n.children = l ++ r ∧ edit n = l ++ Node.readonlyKeyword :: r)

theorem Inserts.keeps (h : Inserts edit) : Keeps edit where
  core n := by
    obtain he | ⟨hk, l, r, hchildren, he⟩ := h n
    · rw [he]
    · rw [he, hchildren, List.filter_append, List.filter_cons_of_neg (by rw [hk]; decide), ← List.filter_append]
  origin n a ha := by
    obtain he | ⟨-, l, r, hchildren, he⟩ := h n
    · exact .inl (he ▸ ha)
    · rw [he] at ha
      rw [hchildren]
      rcases List.mem_append.1 ha with ha | ha
      · exact .inl (List.mem_append_left r ha)
      · rcases List.mem_cons.1 ha with rfl | ha
        · exact .inr rfl
        · exact .inl (List.mem_append_right l ha)

theorem inserts_children : Inserts Node.children := fun _ => .inl rfl

theorem SettledModifiers.of_paired (hsettled : SettledModifiers f) (h : Paired f g Node.children f.root g.root) :
    SettledModifiers g := by
  refine settledModifiers_of_paired inserts_children.keeps h fun n hn hkind m hnm =>
    hnm.misordered?_eq_none inserts_children.keeps fun hchain => ?_
  have htexts : (n.children.filter Node.isModifier).map Node.keyword = n.modifiers.map f.text := map_keyword hnm.old
  rw [htexts]
  exact Modifier.misordered?_eq_none_iff.1 (hsettled n hn hkind) hchain

/-- What adding `readonly` makes of the children of a node. -/
theorem reshaped_readonly (f : SourceFile) (es : List Edit) (n : Node) :
    Node.reshaped f .addMissingReadonly es n = n.children ∨
      ∃ at_, n.kind = .fieldDeclaration ∧ Modifier.readonlyPoint? f n = some at_ ∧ Node.reshaped f .addMissingReadonly es n =
        n.children.takeWhile (·.start < at_) ++ Node.readonlyKeyword :: n.children.dropWhile (·.start < at_) := by
  rw [Node.reshaped]
  split
  · rename_i at_ hat
    split
    · split at hat
      · rename_i hk
        exact .inr ⟨at_, by simpa using hk, hat, rfl⟩
      · cases hat
    · exact .inl rfl
  · exact .inl rfl

theorem inserts_readonly (f : SourceFile) (es : List Edit) : Inserts (Node.reshaped f .addMissingReadonly es) := fun n =>
  (reshaped_readonly f es n).imp_right fun ⟨_, hk, _, he⟩ => ⟨hk, _, _, List.takeWhile_append_dropWhile.symm, he⟩

/-- The modifiers that adding `readonly` leaves a node with. -/
theorem keywords_reshaped_readonly (hold : n.everywhere (Node.isRegular f) = true) (hnests : n.nests = true) :
    ((Node.reshaped f .addMissingReadonly es n).filter Node.isModifier).map Node.keyword = n.modifiers.map f.text ∨
      ∃ at_, n.kind = .fieldDeclaration ∧ Modifier.readonlyPoint? f n = some at_ ∧
        ((Node.reshaped f .addMissingReadonly es n).filter Node.isModifier).map Node.keyword =
          Modifier.withReadonly f n at_ := by
  obtain he | ⟨at_, hk, hpoint, he⟩ := reshaped_readonly f es n
  · rw [he]
    exact .inl (map_keyword hold)
  · refine .inr ⟨at_, hk, hpoint, ?_⟩
    obtain ⟨htake, hdrop⟩ := (Node.regular_of_everywhere hold).filter_start hnests at_
    have hpart : ∀ p : Node → Bool, (n.children.filter p).filter Node.isModifier = n.modifiers.filter p := fun p => by
      rw [List.filter_filter, Node.modifiers, Node.ofKind, List.filter_filter]
      exact List.filter_congr fun c _ => Bool.and_comm _ _
    have hkeyword : ∀ p : Node → Bool, (n.modifiers.filter p).map Node.keyword = (n.modifiers.filter p).map f.text :=
      fun p => List.map_congr_left fun a ha => keyword_eq_text hold (List.mem_filter.1 ha).1
    rw [he, htake, hdrop, List.filter_append, List.filter_cons_of_pos rfl, hpart, hpart, List.map_append, List.map_cons,
      hkeyword, hkeyword]
    rfl

/-- Adding `readonly` keeps the modifiers of a node in order. -/
theorem Paired.misordered?_of_readonly (hnests : n.nests = true) (h : Paired f g (Node.reshaped f .addMissingReadonly es) n m)
    (hnone : Modifier.misordered? f n.modifiers = none) : Modifier.misordered? g m.modifiers = none := by
  refine h.misordered?_eq_none (inserts_readonly f es).keeps fun hchain => ?_
  have hsorted := Modifier.misordered?_eq_none_iff.1 hnone hchain
  rcases keywords_reshaped_readonly h.old hnests with he | ⟨at_, hk, hpoint, he⟩
  · rw [he]
    exact hsorted
  · rw [he]
    exact Modifier.pairwise_withReadonly (Node.headed_of_everywhere h.old hnests hk) hpoint hsorted

theorem SettledModifiers.of_readonly (hf : f.Sound) (hsettled : SettledModifiers f)
    (h : Paired f g (Node.reshaped f .addMissingReadonly es) f.root g.root) : SettledModifiers g :=
  settledModifiers_of_paired (inserts_readonly f es).keeps h fun n hn hkind _ hnm =>
    hnm.misordered?_of_readonly (Node.nests_of_mem_descendants hf.nests hn) (hsettled n hn hkind)

end

end Workbench.CSharp
