import Workbench.Proofs.Outlining
import Workbench.Proofs.Ranking

/-!
# Fields that are written

Which fields of a type are written elsewhere depends on its expressions alone,
and putting `readonly` in leaves those as they are. A field that has got
`readonly` is no candidate any more, and no other field becomes one.
-/

namespace Workbench.CSharp

open Text

/-! ## Pairs of children -/

section
variable {α β : Type} {R : α → β → Prop} {as : List α} {bs : List β}

theorem rel_getLast? (h : List.Forall₂ R as bs) : Option.Rel R as.getLast? bs.getLast? := by
  rw [List.getLast?_eq_head?_reverse, List.getLast?_eq_head?_reverse]
  exact rel_head? (List.forall₂_reverse_iff.2 h)

theorem rel_or {o p : Option α} {o' p' : Option β} (ho : Option.Rel R o o') (hp : Option.Rel R p p') :
    Option.Rel R (o.or p) (o'.or p') := by
  cases ho with
  | some hab => exact .some hab
  | none => exact hp

end

namespace Paired

variable {f g : SourceFile} {edit : Node → List Node} {n m : Node}

section
variable (hin : Inserts edit) (h : Paired f g edit n m)
include hin h

/-- Nothing is put into what is no field declaration. -/
theorem children_of_ne (hk : n.kind ≠ .fieldDeclaration) : List.Forall₂ (Paired f g edit) n.children m.children :=
  h.whole ((hin n).resolve_right fun hf => hk hf.1)

theorem firstNamed? (hk : n.kind ≠ .fieldDeclaration) : Option.Rel (Paired f g edit) n.firstNamed? m.firstNamed? :=
  rel_head? (List.rel_filter (fun a b hab => by
    show a.isNamed = true ↔ b.isNamed = true
    rw [Node.isNamed, Node.isNamed, hab.kind]) (h.children_of_ne hin hk))

theorem lastNamed? (hk : n.kind ≠ .fieldDeclaration) :
    Option.Rel (Paired f g edit) n.named.getLast? m.named.getLast? :=
  rel_getLast? (List.rel_filter (fun a b hab => by
    show a.isNamed = true ↔ b.isNamed = true
    rw [Node.isNamed, Node.isNamed, hab.kind]) (h.children_of_ne hin hk))

theorem hasToken (hk : n.kind ≠ .fieldDeclaration) (text : String) : n.hasToken text = m.hasToken text := by
  refine any_eq_of_forall₂ ((h.children_of_ne hin hk).imp fun a b hab => ?_)
  rw [Node.isToken, Node.isToken, hab.kind]
  cases ht : a.kind == .token
  · rfl
  · rw [hab.leafText (beq_iff_eq.1 ht)]

/-- A node has the children that it had, but for a modifier that may have been put in. -/
theorem children_split : ∃ bs,
    List.Forall₂ (fun a b => Paired f g edit a b ∧ a ∈ n.children ∧ b ∈ m.children) n.children bs ∧
      (m.children = bs ∨ ∃ l b r, bs = l ++ r ∧ m.children = l ++ b :: r ∧ b.kind = .modifier) := by
  have hpairs : ∀ {as bs : List Node}, List.Forall₂ (fun a b => CSharp.follows f g edit a b = true) as bs →
      (∀ a ∈ as, a ∈ n.children) → (∀ b ∈ bs, b ∈ m.children) →
        List.Forall₂ (fun a b => Paired f g edit a b ∧ a ∈ n.children ∧ b ∈ m.children) as bs := by
    intro as bs hab ha hb
    refine (forall₂_and hab ha hb).imp ?_
    intro a b ⟨hab, ha, hb⟩
    exact ⟨⟨hab, h.child ha, h.child' hb⟩, ha, hb⟩
  have hfollow := h.facts.children
  rcases hin n with he | ⟨-, l, r, hchildren, he⟩
  · rw [he] at hfollow
    exact ⟨m.children, hpairs hfollow (fun _ ha => ha) (fun _ hb => hb), .inl rfl⟩
  · rw [he] at hfollow
    obtain ⟨l', rest, hl, hrest, hm⟩ := exists_of_forall₂_append hfollow
    obtain ⟨b, r', hb, hr, rfl⟩ := List.forall₂_cons_left_iff.1 hrest
    refine ⟨l' ++ r', ?_, .inr ⟨l', b, r', rfl, hm, (Follows.of_follows hb).kind⟩⟩
    rw [hchildren] at hpairs ⊢
    exact List.rel_append (hpairs hl (by simp_all) (by simp_all)) (hpairs hr (by simp_all) (by simp_all))

/-- Whether some child satisfies a property that modifiers do not have. -/
theorem any_children {p q : Node → Bool} (hmod : ∀ b, b.kind = .modifier → b.everywhere (Node.isRegular g) = true → q b = false)
    (hpq : ∀ a ∈ n.children, ∀ b ∈ m.children, Paired f g edit a b → p a = q b) :
    n.children.any p = m.children.any q := by
  obtain ⟨bs, hpairs, hm⟩ := h.children_split hin
  have hany : n.children.any p = bs.any q := any_eq_of_forall₂ (hpairs.imp fun a b ⟨hab, ha, hb⟩ => hpq a ha b hb hab)
  rcases hm with hm | ⟨l, b, r, rfl, hm, hk⟩
  · rw [hany, hm]
  · rw [hany, hm, List.any_append, List.any_append, List.any_cons, hmod b hk (h.child' (by simp [hm])), Bool.false_or]

/-- What the children give one after another, when modifiers give nothing. -/
theorem rel_flatMap {α β : Type} {R : α → β → Prop} {F : Node → List α} {G : Node → List β}
    (hmod : ∀ b, b.kind = .modifier → b.everywhere (Node.isRegular g) = true → G b = [])
    (hpair : ∀ a ∈ n.children, ∀ b ∈ m.children, Paired f g edit a b → List.Forall₂ R (F a) (G b)) :
    List.Forall₂ R (n.children.flatMap F) (m.children.flatMap G) := by
  obtain ⟨bs, hpairs, hm⟩ := h.children_split hin
  have hall : List.Forall₂ R (n.children.flatMap F) (bs.flatMap G) :=
    List.rel_flatMap hpairs fun a b ⟨hab, ha, hb⟩ => hpair a ha b hb hab
  rcases hm with hm | ⟨l, b, r, rfl, hm, hk⟩
  · rwa [hm]
  · rwa [hm, List.flatMap_append, List.flatMap_cons, hmod b hk (h.child' (by simp [hm])), List.nil_append,
      ← List.flatMap_append]

end

end Paired

namespace ReadonlyField

/-! ## Names that are written -/

section
variable {f : SourceFile} {n : Node}

theorem rootNameOfReceiver?_eq (cs : List Node) :
    rootNameOfReceiver? f cs = (cs.find? (·.role == .expression)).bind (rootName? f) := by
  induction cs with
  | nil => rfl
  | cons c rest ih =>
    rw [rootNameOfReceiver?]
    by_cases hc : c.role = .expression
    · rw [if_pos (by simpa using hc), List.find?_cons_of_pos (by simpa using hc), Option.bind_some]
    · rw [if_neg (by simpa using hc), List.find?_cons_of_neg (by simpa using hc), ih]

theorem rootNameOfFirst?_eq (cs : List Node) : rootNameOfFirst? f cs = (cs.filter Node.isNamed).head?.bind (rootName? f) := by
  induction cs with
  | nil => rfl
  | cons c rest ih =>
    rw [rootNameOfFirst?, List.filter_cons]
    split
    · rfl
    · exact ih

theorem rootName?_identifier (hk : n.kind = .identifier) : rootName? f n = some (f.text n) := by
  cases n
  cases hk
  rfl

theorem rootName?_memberAccess (hk : n.kind = .memberAccessExpression) : rootName? f n =
    (n.child? .expression).bind fun e => if f.text e == "this" then n.name?.map f.text else rootName? f e := by
  cases n
  cases hk
  rw [rootName?, rootNameOfReceiver?_eq, Node.child?, Node.name?, Node.child?, Node.children]
  split
  · rename_i hnone
    rw [hnone]
    rfl
  · rename_i e hsome
    rw [hsome]
    rfl

theorem rootName?_elementAccess (hk : n.kind = .elementAccessExpression) :
    rootName? f n = (n.child? .expression).bind (rootName? f) := by
  cases n
  cases hk
  exact rootNameOfReceiver?_eq _

theorem rootName?_parenthesized (hk : n.kind = .parenthesizedExpression) :
    rootName? f n = n.firstNamed?.bind (rootName? f) := by
  cases n
  cases hk
  exact rootNameOfFirst?_eq _

theorem rootName?_other (h1 : n.kind ≠ .identifier) (h2 : n.kind ≠ .memberAccessExpression)
    (h3 : n.kind ≠ .elementAccessExpression) (h4 : n.kind ≠ .parenthesizedExpression) : rootName? f n = none := by
  cases n
  rw [rootName?]
  all_goals assumption

end

section
variable {f g : SourceFile} {edit : Node → List Node} {n m : Node} {w : List Char}

/-- Whether an assigned expression is about a name does not depend on layout. -/
theorem rootName?_eq_iff (hin : Inserts edit) (h : Paired f g edit n m) (hw : IsWord w) :
    rootName? f n = some (.ofList w) ↔ rootName? g m = some (.ofList w) := by
  induction n using Node.childInduction generalizing m with
  | step n ih =>
    have hbelow : ∀ {o o' : Option Node}, Option.Rel (Paired f g edit) o o' → (∀ a ∈ o, a ∈ n.children) →
        (o.bind (rootName? f) = some (.ofList w) ↔ o'.bind (rootName? g) = some (.ofList w)) := by
      rintro _ _ (hab | _) hmem
      · exact ih _ (hmem _ rfl) hab
      · rfl
    by_cases h1 : n.kind = .identifier
    · rw [rootName?_identifier h1, rootName?_identifier (h.kind.trans h1), h.text_identifier h1]
    by_cases h2 : n.kind = .memberAccessExpression
    · rw [rootName?_memberAccess h2, rootName?_memberAccess (h.kind.trans h2)]
      have hreceiver := h.child? hin.keeps (r := .expression) (by decide)
      have hname := h.child? hin.keeps (r := .name) (by decide)
      have hmem : ∀ a ∈ n.child? .expression, a ∈ n.children ∧ a.role = .expression := fun a ha =>
        ⟨List.mem_of_find?_eq_some ha, by simpa using List.find?_some ha⟩
      have hmem' : ∀ a ∈ n.child? .name, a.role = .name := fun a ha => by simpa using List.find?_some ha
      rw [Node.name?, Node.name?]
      revert hreceiver hname hmem hmem'
      generalize n.child? .expression = o, m.child? .expression = o', n.child? .name = p, m.child? .name = p'
      rintro (@⟨a, b, hab⟩ | _) hname hmem hmem'
      · obtain ⟨ha, hrole⟩ := hmem _ rfl
        have hk : a.kind ≠ .modifier := fun hk => by
          have := (hab.regular.modifier hk).1
          simp [this] at hrole
        have hthis := congrArg Saying.this (hab.saying hk)
        simp only [SourceFile.saying, hab.role, hrole, beq_self_eq_true, Bool.true_and] at hthis
        rw [Option.bind_some, Option.bind_some, ← hthis]
        split
        · revert hmem'
          rcases hname with (hcd | _) <;> intro hmem'
          · have hwords := (hcd.reference (hmem' _ rfl)).eq_word hw
            simpa [← String.toList_inj] using hwords
          · rfl
        · exact ih a ha hab
      · rfl
    by_cases h3 : n.kind = .elementAccessExpression
    · rw [rootName?_elementAccess h3, rootName?_elementAccess (h.kind.trans h3)]
      exact hbelow (h.child? hin.keeps (by decide)) fun a ha => List.mem_of_find?_eq_some ha
    by_cases h4 : n.kind = .parenthesizedExpression
    · rw [rootName?_parenthesized h4, rootName?_parenthesized (h.kind.trans h4)]
      exact hbelow (h.firstNamed? hin (by simp [h4])) fun a ha => (List.mem_filter.1 (List.mem_of_head? ha)).1
    · rw [rootName?_other h1 h2 h3 h4, rootName?_other] <;> simp_all [h.kind]

theorem rel_target? (hin : Inserts edit) (h : Paired f g edit n m) :
    Option.Rel (Paired f g edit) (target? f n) (target? g m) := by
  unfold target?
  rw [h.kind]
  split
  · rename_i hk
    exact rel_or (h.child? hin.keeps (by decide)) (h.firstNamed? hin (by simp [hk]))
  · rename_i hk
    have hsteps := congrArg Saying.steps (h.saying (by simp [hk]))
    simp only [SourceFile.saying, h.kind, hk, beq_self_eq_true, Bool.true_or, Bool.true_and] at hsteps
    rw [hsteps]
    split
    · exact h.firstNamed? hin (by simp [hk])
    · exact .none
  · rename_i hk
    have hsteps := congrArg Saying.steps (h.saying (by simp [hk]))
    simp only [SourceFile.saying, h.kind, hk, beq_self_eq_true, Bool.or_true, Bool.true_and] at hsteps
    rw [hsteps]
    split
    · exact h.firstNamed? hin (by simp [hk])
    · exact .none
  · rename_i hk
    rw [h.hasToken hin (by simp [hk]), h.hasToken hin (by simp [hk])]
    split
    · exact h.lastNamed? hin (by simp [hk])
    · exact .none
  · exact .none

/-! ## Writes -/

theorem inOwnConstructor_congr {type type' : Node} {ps ps' : List Node}
    (h : List.Forall₂ (fun p p' : Node => p'.kind = p.kind ∧ p.same type = p'.same type') ps ps') :
    inOwnConstructor type ps = inOwnConstructor type' ps' := by
  have hholder : ∀ {qs qs' : List Node},
      List.Forall₂ (fun p p' : Node => p'.kind = p.kind ∧ p.same type = p'.same type') qs qs' →
        ((qs.find? fun o => holders.contains o.kind).any fun o => o.same type) =
          (qs'.find? fun o => holders.contains o.kind).any fun o => o.same type' := by
    intro qs qs' h
    induction h with
    | nil => rfl
    | cons hpq _ ih =>
      rw [List.find?_cons, List.find?_cons, hpq.1]
      split
      · exact hpq.2
      · exact ih
  induction h with
  | nil => rfl
  | cons hpq hrest ih =>
    rw [inOwnConstructor, inOwnConstructor, hpq.1, hpq.2, ih, hholder hrest]

theorem forbids_congr (hin : Inserts edit) (h : Paired f g edit n m) (hw : IsWord w) {type type' : Node}
    {around around' : List Node}
    (hps : List.Forall₂ (fun p p' : Node => p'.kind = p.kind ∧ p.same type = p'.same type') around around') :
    forbids f type (.ofList w) ⟨n, around⟩ = forbids g type' (.ofList w) ⟨m, around'⟩ := by
  have htarget := rel_target? hin h
  rw [forbids, forbids]
  revert htarget
  generalize target? f n = o, target? g m = o'
  rintro (hab | _)
  · have hroot := rootName?_eq_iff hin hab hw
    have hroot' : ∀ o o' : Option String, (o = some (.ofList w) ↔ o' = some (.ofList w)) →
        (o == some (.ofList w)) = (o' == some (.ofList w)) := fun o o' h => by
      rw [Bool.eq_iff_iff, beq_iff_eq, beq_iff_eq, h]
    simp only [hroot' _ _ hroot, h.kind, inOwnConstructor_congr hps]
  · rfl

theorem any_walk (P : Focus → Bool) (around : List Node) (n : Node) : (n.walk (fun _ => true) around).any P =
    (P ⟨n, around⟩ || n.children.any fun c => c.isNamed && (c.walk (fun _ => true) (n :: around)).any P) := by
  have hall : ∀ (around : List Node) (cs : List Node), (Node.walkAll (fun _ => true) around cs).any P =
      cs.any fun c => c.isNamed && (c.walk (fun _ => true) around).any P := by
    intro around cs
    induction cs with
    | nil => rfl
    | cons c rest ih =>
      rw [Node.walkAll, List.any_append, ih, List.any_cons]
      split <;> simp_all
  cases n
  rw [Node.walk, if_pos rfl, List.any_cons, hall]
  rfl

/-- A modifier writes nothing. -/
theorem not_forbids_of_modifier (hm : m.everywhere (Node.isRegular g) = true) (hk : m.kind = .modifier) (type : Node)
    (name : String) (around : List Node) : (m.walk (fun _ => true) around).any (forbids g type name) = false := by
  obtain ⟨t, ht, htoken, -⟩ := Node.exists_token_of_isKeyword ((Node.regular_of_everywhere hm).modifier hk).2
  rw [any_walk, ht, forbids, target?, hk]
  simp [Node.isNamed, htoken]

/-- The same nodes below a type write to its fields, before and after an edit. -/
theorem any_forbids_congr (hin : Inserts edit) (hw : IsWord w) {type type' : Node} (h : Paired f g edit n m)
    (hn : n.nests = true) (hm : m.nests = true) (hsame : n.same type = m.same type')
    (hbelow : ∀ c ∈ n.children, c.stop - c.start < type.stop - type.start)
    (hbelow' : ∀ c ∈ m.children, c.stop - c.start < type'.stop - type'.start) {around around' : List Node}
    (hps : List.Forall₂ (fun p p' : Node => p'.kind = p.kind ∧ p.same type = p'.same type') around around') :
    (n.walk (fun _ => true) around).any (forbids f type (.ofList w)) =
      (m.walk (fun _ => true) around').any (forbids g type' (.ofList w)) := by
  have hshort : ∀ {a type : Node}, a.stop - a.start < type.stop - type.start → a.same type = false := by
    intro a type hlt
    rw [Node.same, Bool.and_eq_false_iff, Bool.and_eq_false_iff, beq_eq_false_iff_ne, beq_eq_false_iff_ne,
      beq_eq_false_iff_ne]
    by_cases hstart : a.start = type.start
    · exact .inr (by omega)
    · exact .inl (.inr hstart)
  have hdown : ∀ {a type : Node}, a.nests = true → a.stop - a.start < type.stop - type.start → ∀ c ∈ a.children,
      c.stop - c.start < type.stop - type.start := by
    intro a type ha hlt c hc
    have hwithin := Node.within_of_child ha hc
    have := hwithin.start
    have := hwithin.stop
    omega
  induction n using Node.childInduction generalizing m around around' with
  | step n ih =>
    have hps' := List.Forall₂.cons (R := fun p p' : Node => p'.kind = p.kind ∧ p.same type = p'.same type')
      ⟨h.kind, hsame⟩ hps
    rw [any_walk, any_walk, forbids_congr hin h hw hps]
    congr 1
    refine h.any_children hin (fun b hk hb => ?_) fun a ha b hb hab => ?_
    · rw [not_forbids_of_modifier hb hk, Bool.and_false]
    · rw [Node.isNamed, Node.isNamed, hab.kind, ih a ha hab (Node.nests_of_child hn ha) (Node.nests_of_child hm hb)
        (by rw [hshort (hbelow a ha), hshort (hbelow' b hb)]) (hdown (Node.nests_of_child hn ha) (hbelow a ha))
        (hdown (Node.nests_of_child hm hb) (hbelow' b hb)) hps']

/-- The fields of a type that are written elsewhere are the same, before and after an edit. -/
theorem isWrittenElsewhere_congr (hin : Inserts edit) (hw : IsWord w) (h : Paired f g edit n m) (hn : n.nests = true)
    (hm : m.nests = true) (hkind : n.kind.isTypeDeclaration = true) :
    isWrittenElsewhere f n (.ofList w) = isWrittenElsewhere g m (.ofList w) := by
  have hself : ∀ n : Node, n.same n = true := fun n => by simp [Node.same]
  exact any_forbids_congr hin hw h hn hm ((hself n).trans (hself m).symm) (h.regular.shorter hkind)
    (h.regular'.shorter (h.kind ▸ hkind)) .nil

/-! ## Candidates -/

theorem modifierTexts_eq (h : n.everywhere (Node.isRegular f) = true) : f.modifierTexts n = n.modifiers.map f.text := by
  refine List.map_congr_left fun m hm => ?_
  obtain ⟨hm, hk⟩ := Node.mem_modifiers.1 hm
  obtain ⟨-, -, -, -, -, hword⟩ := Node.exists_token_of_isKeyword
    ((Node.regular_of_everywhere ((Node.everywhere_iff.1 h).2 m hm)).modifier hk).2
  have htidy := (isWord_iff.1 hword).tidy
  have heq := (SameWords.eq_word ⟨tidy_trim (f.text m).toList, htidy, words_trim _⟩ (isWord_iff.1 hword)).2 rfl
  rw [SourceFile.word, trim, heq, String.ofList_toList]

/-- The modifiers of a node into which nothing is put. -/
theorem modifierTexts_congr (hin : Inserts edit) (h : Paired f g edit n m) (hedit : edit n = n.children) :
    f.modifierTexts n = g.modifierTexts m := by
  have htexts := h.text_modifiers hin.keeps
  have hold : (n.children.filter Node.isModifier).map Node.keyword = n.modifiers.map f.text := map_keyword h.old
  rw [modifierTexts_eq h.old, modifierTexts_eq h.new, htexts, hedit, hold]

/-- The names that a field declaration declares. -/
def names (field : Node) : List Node :=
  ((field.variableDeclaration?).elim [] Node.declarators).filterMap Node.declaratorName?

theorem rel_names (hin : Inserts edit) (h : Paired f g edit n m) :
    List.Forall₂ (fun a b => a.kind = .identifier ∧ Paired f g edit a b) (names n) (names m) := by
  refine List.rel_filterMap ?_ (h.declarators hin.keeps)
  rintro a b ⟨hk, hab⟩
  exact hab.declaratorName? hin.keeps hk

theorem candidate?_eq_some {f : SourceFile} {type field name : Node} : candidate? f type field = some name ↔
    isEligible f field = true ∧ (∀ n ∈ names field, isWrittenElsewhere f type (f.text n) = false) ∧
      (names field).head? = some name := by
  rw [candidate?, ← names]
  by_cases heligible : isEligible f field = true
  · rw [if_pos heligible]
    dsimp only
    by_cases hwritten : (names field).any (fun n => isWrittenElsewhere f type (f.text n)) = true
    · rw [if_pos hwritten]
      refine iff_of_false (fun h => nomatch h) fun ⟨_, hnone, _⟩ => ?_
      obtain ⟨n, hn, h⟩ := List.any_eq_true.1 hwritten
      exact Bool.false_ne_true ((hnone n hn).symm.trans h)
    · rw [if_neg hwritten]
      rw [Bool.not_eq_true, List.any_eq_false] at hwritten
      exact ⟨fun h => ⟨heligible, fun n hn => Bool.not_eq_true _ ▸ hwritten n hn, h⟩, fun h => h.2.2⟩
  · rw [if_neg heligible]
    exact iff_of_false (fun h => nomatch h) fun h => heligible h.1

theorem candidate?_isSome (f : SourceFile) (type field : Node) : (candidate? f type field).isSome =
    (isEligible f field && !(names field).any (fun n => isWrittenElsewhere f type (f.text n)) && (names field).head?.isSome) := by
  rw [Bool.eq_iff_iff, Option.isSome_iff_exists]
  simp only [candidate?_eq_some, Bool.and_eq_true, Bool.not_eq_true', List.any_eq_false, Bool.not_eq_true, and_assoc,
    exists_and_left, Option.isSome_iff_exists]

/-- A field of a type becomes no candidate, and is one no more once it has got `readonly`. -/
theorem candidate?_congr (hin : Inserts edit) {type type' field field' : Node} (htype : Paired f g edit type type')
    (hfield : Paired f g edit field field') (hn : type.nests = true) (hm : type'.nests = true)
    (hkind : type.kind.isTypeDeclaration = true) (h : (candidate? g type' field').isSome = true) :
    (candidate? f type field).isSome = true ∧ edit field = field.children := by
  rw [candidate?_isSome, Bool.and_eq_true, Bool.and_eq_true, Bool.not_eq_true'] at h
  obtain ⟨⟨heligible, hwritten⟩, hhead⟩ := h
  obtain ⟨hattributes, hmodifiers⟩ := Bool.and_eq_true_iff.1 heligible
  have hedit : edit field = field.children := by
    refine (hin field).resolve_right ?_
    rintro ⟨-, l, r, hchildren, he⟩
    have hmem : "readonly" ∈ g.modifierTexts field' := by
      rw [modifierTexts_eq hfield.new, hfield.text_modifiers hin.keeps, he]
      exact List.mem_map.2 ⟨Node.readonlyKeyword, by simp [Node.isModifier, Node.readonlyKeyword, Node.kind], rfl⟩
    rw [Bool.not_eq_true', List.any_eq_false] at hmodifiers
    exact hmodifiers _ hmem (by decide)
  refine ⟨?_, hedit⟩
  have hnames := rel_names hin hfield
  have hlists : (field.ofKind .attributeList).isEmpty = (field'.ofKind .attributeList).isEmpty := by
    have hlen := (hfield.ofKind hin.keeps (k := .attributeList) (by decide)).length_eq
    rw [Bool.eq_iff_iff, List.isEmpty_iff_length_eq_zero, List.isEmpty_iff_length_eq_zero, hlen]
  have hany : (names field).any (fun n => isWrittenElsewhere f type (f.text n)) =
      (names field').any fun n => isWrittenElsewhere g type' (g.text n) := by
    refine any_eq_of_forall₂ (hnames.imp ?_)
    rintro a b ⟨hk, hab⟩
    have hword := isWord_iff.1 (hab.regular.identifier hk).2
    have hcongr := isWrittenElsewhere_congr hin hword htype hn hm hkind
    rw [String.ofList_toList] at hcongr
    rw [← hab.text_identifier hk, hcongr]
  have hsome : (names field).head?.isSome = (names field').head?.isSome := by
    have hhead := rel_head? hnames
    revert hhead
    generalize (names field).head? = o, (names field').head? = o'
    rintro (hab | _) <;> rfl
  rw [candidate?_isSome, isEligible, hlists, modifierTexts_congr hin hfield hedit, hany, hsome, hattributes, hmodifiers,
    hwritten, hhead]
  rfl

/-! ## Files without candidates -/

/-- Types have no field that could be readonly. -/
theorem all_eq_nil_iff {f : SourceFile} : all f = [] ↔ ∀ type ∈ f.root.descendantsOf holders,
    f.hasModifier type "partial" = false → ∀ field ∈ (type.body?).elim [] (·.ofKind .fieldDeclaration),
      (candidate? f type field).isSome = false := by
  rw [all, List.flatMap_eq_nil_iff]
  refine forall₂_congr fun type _ => ?_
  rw [inType]
  split
  · rename_i h
    simp [h]
  · rename_i h
    simp [h, List.filterMap_eq_nil_iff]

theorem all_eq_nil_of_paired (hin : Inserts edit) (hf : f.Sound) (hg : g.Sound) (h : Paired f g edit f.root g.root)
    (hall : ∀ type ∈ f.root.descendantsOf holders, f.hasModifier type "partial" = false →
      ∀ field ∈ (type.body?).elim [] (·.ofKind .fieldDeclaration), (candidate? f type field).isSome = true →
        edit field ≠ field.children) : all g = [] := by
  refine all_eq_nil_iff.2 fun type' htype' hpartial' field' hfield' => ?_
  obtain ⟨hmem', hholder'⟩ := List.mem_filter.1 htype'
  have hholders : ∀ k, holders.contains k = true → k.isTypeDeclaration = true ∧ k ≠ .fieldDeclaration ∧ k ≠ .modifier := by
    intro k hk
    simp only [holders, List.contains_eq_mem, List.mem_cons, List.not_mem_nil, or_false, decide_eq_true_eq] at hk
    rcases hk with rfl | rfl | rfl <;> decide
  rcases h.exists_old hin.keeps hmem' with ⟨type, hmem, htype⟩ | hk
  · have hholder : holders.contains type.kind = true := htype.kind ▸ hholder'
    obtain ⟨hkind, hnofield, -⟩ := hholders _ hholder
    have hpartial : f.hasModifier type "partial" = false := by
      have hedit := (hin type).resolve_right fun hf => hnofield hf.1
      rw [SourceFile.hasModifier, modifierTexts_congr hin htype hedit]
      exact hpartial'
    have hbody : Option.Rel (Paired f g edit) type.body? type'.body? :=
      rel_or (htype.child? hin.keeps (by decide)) (htype.ofKind? hin.keeps (by decide))
    have hfields : List.Forall₂ (Paired f g edit) ((type.body?).elim [] (·.ofKind .fieldDeclaration))
        ((type'.body?).elim [] (·.ofKind .fieldDeclaration)) := by
      revert hbody
      generalize type.body? = o, type'.body? = o'
      rintro (hab | _)
      · exact hab.ofKind hin.keeps (by decide)
      · exact .nil
    obtain ⟨field, hfield, hpair⟩ := exists_of_forall₂ hfields hfield'
    refine Bool.not_eq_true _ ▸ fun hcandidate => ?_
    obtain ⟨hcandidate, hedit⟩ := candidate?_congr hin htype hpair (Node.nests_of_mem_descendants hf.nests hmem)
      (Node.nests_of_mem_descendants hg.nests hmem') hkind hcandidate
    exact hall type (List.mem_filter.2 ⟨hmem, hholder⟩) hpartial field hfield hcandidate hedit
  · exact absurd hk (hholders _ hholder').2.2

theorem all_eq_nil_of_children (hf : f.Sound) (hg : g.Sound) (hnil : all f = [])
    (h : Paired f g Node.children f.root g.root) : all g = [] :=
  all_eq_nil_of_paired inserts_children hf hg h fun type htype hpartial field hfield hcandidate => by
    rw [all_eq_nil_iff.1 hnil type htype hpartial field hfield] at hcandidate
    cases hcandidate

/-- Once every candidate has got `readonly`, there is none left. -/
theorem all_eq_nil_of_readonly {es : List Edit} (hf : f.Sound) (hg : g.Sound)
    (h : Paired f g (Node.reshaped f .addMissingReadonly es) f.root g.root)
    (hall : ∀ type ∈ f.root.descendantsOf holders, f.hasModifier type "partial" = false →
      ∀ field ∈ (type.body?).elim [] (·.ofKind .fieldDeclaration), (candidate? f type field).isSome = true →
        ∀ at_, Modifier.readonlyPoint? f field = some at_ → (es.any fun e => e.span.start == at_) = true) : all g = [] := by
  refine all_eq_nil_of_paired (inserts_readonly f es) hf hg h fun type htype hpartial field hfield hcandidate he => ?_
  have hkind : field.kind = .fieldDeclaration := by
    cases hbody : type.body? with
    | none => simp [hbody] at hfield
    | some body =>
      rw [hbody, Option.elim_some] at hfield
      simpa using (List.mem_filter.1 hfield).2
  obtain ⟨at_, hat⟩ : ∃ at_, Modifier.readonlyPoint? f field = some at_ := by
    rw [← Option.isSome_iff_exists, Modifier.readonlyPoint?]
    split
    · rfl
    · rw [candidate?_isSome, Bool.and_eq_true] at hcandidate
      cases hdecl : field.variableDeclaration? with
      | none => simp [names, hdecl] at hcandidate
      | some d => rfl
  have hlength := congrArg List.length he
  have hany := hall type htype hpartial field hfield hcandidate at_ hat
  simp only [Node.reshaped, hkind, hat, hany, beq_self_eq_true, if_true, List.length_append, List.length_cons] at hlength
  have hparts := congrArg List.length (List.takeWhile_append_dropWhile (p := fun c : Node => decide (c.start < at_))
    (l := field.children))
  rw [List.length_append] at hparts
  omega

end

end ReadonlyField

end Workbench.CSharp
