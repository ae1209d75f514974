import Workbench.Proofs.Needing
import Workbench.Proofs.Sorting

/-!
# Sorted directives and modifiers

Organizing sorts each run of using directives, and fixing the modifier order
sorts the modifiers of each declaration that can be sorted. Once they are, the
later rules leave them so.
-/

namespace Workbench.CSharp

/-! ## Runs -/

section
variable {α : Type} {p : α → Bool} {w r : List α} {a : α}

@[simp] theorem runs_nil (p : α → Bool) : runs p [] = [] := rfl

theorem runs_append (ha : p a = false) (xs r : List α) : runs p (xs ++ a :: r) = runs p xs ++ runs p r := by
  rw [runs, List.splitOnP_append_cons _ _ (by simp [ha]), List.filter_append, runs, runs]

theorem runs_gap (ha : p a = false) (r : List α) : runs p (a :: r) = runs p r := runs_append ha [] r

theorem runs_single (hne : w ≠ []) (hall : ∀ a ∈ w, p a = true) : runs p w = [w] := by
  rw [runs, List.splitOnP_eq_singleton fun a ha => by simp [hall a ha]]
  simpa using hne

theorem runs_next (hne : w ≠ []) (hall : ∀ a ∈ w, p a = true) (ha : p a = false) (r : List α) :
    runs p (w ++ a :: r) = w :: runs p r := by
  rw [runs_append ha, runs_single hne hall]
  rfl

theorem flatten_runs (p : α → Bool) (xs : List α) : (runs p xs).flatten = xs.filter p := by
  have hself : ∀ w : List α, (∀ a ∈ w, p a = true) → w.filter p = w := fun w hw => List.filter_eq_self.2 hw
  induction xs using runInduction (p := p) with
  | nil => rfl
  | gap a r ha ih => rw [runs_gap ha, ih, List.filter_cons_of_neg (by simp [ha])]
  | single w hne hall => rw [runs_single hne hall, List.flatten_singleton, hself w hall]
  | next w a r hne hall ha ih =>
    rw [runs_next hne hall ha, List.flatten_cons, ih, List.filter_append, hself w hall,
      List.filter_cons_of_neg (by simp [ha])]

theorem mem_of_mem_runs (hw : w ∈ runs p r) (ha : a ∈ w) : a ∈ r ∧ p a = true := by
  have : a ∈ (runs p r).flatten := List.mem_flatten_of_mem hw ha
  rw [flatten_runs] at this
  exact List.mem_filter.1 this

/-- Runs of two lists whose elements correspond. -/
theorem rel_runs {β : Type} {R : α → β → Prop} {q : β → Bool} (hpq : ∀ a b, R a b → p a = q b) {xs : List α} {ys : List β}
    (h : List.Forall₂ R xs ys) : List.Forall₂ (List.Forall₂ R) (runs p xs) (runs q ys) := by
  induction xs using runInduction (p := p) generalizing ys with
  | nil =>
    cases h
    exact .nil
  | gap a r ha ih =>
    obtain ⟨b, ys', hab, hr, rfl⟩ := List.forall₂_cons_left_iff.1 h
    rw [runs_gap ha, runs_gap (hpq a b hab ▸ ha)]
    exact ih hr
  | single w hne hall =>
    have hne' : ys ≠ [] := fun he => hne (by subst he; cases h; rfl)
    rw [runs_single hne hall, runs_single hne' fun b hb => ?_]
    · exact .cons h .nil
    · obtain ⟨a, ha, hab⟩ := exists_of_forall₂ h hb
      exact hpq a b hab ▸ hall a ha
  | next w a r hne hall ha ih =>
    obtain ⟨w', rest', hw, hrest, rfl⟩ := exists_of_forall₂_append h
    obtain ⟨b, r', hab, hr, rfl⟩ := List.forall₂_cons_left_iff.1 hrest
    have hne' : w' ≠ [] := fun he => hne (by subst he; cases hw; rfl)
    rw [runs_next hne hall ha, runs_next hne' (fun b hb => ?_) (hpq a b hab ▸ ha)]
    · exact .cons hw (ih hr)
    · obtain ⟨a, ha, hab⟩ := exists_of_forall₂ hw hb
      exact hpq a b hab ▸ hall a ha

/-! ## Filling slots again -/

theorem refill_gap (ha : p a = false) (r bs : List α) : refill p (a :: r) bs = a :: refill p r bs := by
  cases bs <;> simp [refill, ha]

theorem refill_slot (ha : p a = true) (r : List α) (b : α) (bs : List α) :
    refill p (a :: r) (b :: bs) = b :: refill p r bs := by simp [refill, ha]

theorem refill_nil (p : α → Bool) (xs : List α) : refill p xs [] = xs := by
  induction xs with
  | nil => rfl
  | cons x r ih =>
    cases hx : p x with
    | true => simp [refill, hx]
    | false => rw [refill_gap hx, ih]

theorem refill_run {w' : List α} (hall : ∀ a ∈ w, p a = true) (hlen : w'.length = w.length) (r bs : List α) :
    refill p (w ++ r) (w' ++ bs) = w' ++ refill p r bs := by
  induction w generalizing w' with
  | nil =>
    cases List.length_eq_zero_iff.1 hlen
    rfl
  | cons a w ih =>
    obtain ⟨b, w', rfl⟩ := List.exists_cons_of_length_eq_add_one hlen
    obtain ⟨ha, hall⟩ := List.forall_mem_cons.1 hall
    rw [List.cons_append, List.cons_append, refill_slot ha, ih hall (Nat.succ.inj hlen), List.cons_append]

theorem mem_of_mem_refill {b : α} {xs bs : List α} (h : b ∈ refill p xs bs) : b ∈ xs ∨ b ∈ bs := by
  induction xs generalizing bs with
  | nil => cases h
  | cons x r ih =>
    cases hx : p x with
    | false =>
      rw [refill_gap hx] at h
      rcases List.mem_cons.1 h with rfl | h
      · exact .inl List.mem_cons_self
      · exact (ih h).imp_left (List.mem_cons_of_mem x)
    | true =>
      cases bs with
      | nil => exact .inl (refill_nil p (x :: r) ▸ h)
      | cons c bs =>
        rw [refill_slot hx] at h
        rcases List.mem_cons.1 h with rfl | h
        · exact .inr List.mem_cons_self
        · exact (ih h).imp (List.mem_cons_of_mem x) (List.mem_cons_of_mem c)

/-- Elements that are in no slot stay. -/
theorem filter_refill {q : α → Bool} {xs bs : List α} (hq : ∀ a, p a = true → q a = false) (hbs : ∀ b ∈ bs, p b = true) :
    (refill p xs bs).filter q = xs.filter q := by
  induction xs generalizing bs with
  | nil => rfl
  | cons x r ih =>
    cases hx : p x with
    | false => rw [refill_gap hx, List.filter_cons, List.filter_cons, ih hbs]
    | true =>
      cases bs with
      | nil => rw [refill_nil]
      | cons c bs =>
        obtain ⟨hc, hbs⟩ := List.forall_mem_cons.1 hbs
        rw [refill_slot hx, List.filter_cons_of_neg (by simp [hq c hc]), List.filter_cons_of_neg (by simp [hq x hx]),
          ih hbs]

/-- Leaving out elements that are in no slot commutes with filling the slots. -/
theorem refill_filter {q : α → Bool} {xs bs : List α} (hq : ∀ a, p a = true → q a = true) (hbs : ∀ b ∈ bs, p b = true) :
    (refill p xs bs).filter q = refill p (xs.filter q) bs := by
  induction xs generalizing bs with
  | nil => rfl
  | cons x r ih =>
    cases hx : p x with
    | false =>
      rw [refill_gap hx, List.filter_cons, List.filter_cons, ih hbs]
      split
      · rw [refill_gap hx]
      · rfl
    | true =>
      cases bs with
      | nil => rw [refill_nil, refill_nil]
      | cons c bs =>
        obtain ⟨hc, hbs⟩ := List.forall_mem_cons.1 hbs
        rw [refill_slot hx, List.filter_cons_of_pos (hq x hx), List.filter_cons_of_pos (hq c hc), refill_slot hx, ih hbs]

/-- The slots have what they were filled with. -/
theorem slots_refill {xs bs : List α} (hlen : bs.length = (xs.filter p).length) (hbs : ∀ b ∈ bs, p b = true) :
    (refill p xs bs).filter p = bs := by
  rw [refill_filter (fun _ h => h) hbs]
  have hall : ∀ a ∈ xs.filter p, p a = true := fun a ha => (List.mem_filter.1 ha).2
  have hrun := refill_run hall hlen [] []
  rwa [List.append_nil, List.append_nil, refill, List.append_nil] at hrun

/-- Filling slots run by run changes each run by itself. -/
theorem runs_refill {σ : List α → List α} (hlen : ∀ w, (σ w).length = w.length)
    (hmem : ∀ w, (∀ a ∈ w, p a = true) → ∀ a ∈ σ w, p a = true) (xs : List α) :
    runs p (refill p xs ((runs p xs).flatMap σ)) = (runs p xs).map σ := by
  have hne : ∀ w : List α, w ≠ [] → σ w ≠ [] := fun w hw he => hw (by
    have := hlen w
    rw [he] at this
    exact List.length_eq_zero_iff.1 this.symm)
  induction xs using runInduction (p := p) with
  | nil => rfl
  | gap a r ha ih => rw [runs_gap ha, refill_gap ha, runs_gap ha, ih]
  | single w hw hall =>
    have hrun := refill_run hall (hlen w) [] []
    rw [List.append_nil, List.append_nil, refill, List.append_nil] at hrun
    rw [runs_single hw hall, List.flatMap_singleton, hrun, runs_single (hne w hw) (hmem w hall), List.map_singleton]
  | next w a r hw hall ha ih =>
    rw [runs_next hw hall ha, List.flatMap_cons, refill_run hall (hlen w), refill_gap ha,
      runs_next (hne w hw) (hmem w hall) ha, ih, List.map_cons]

end

/-! ## Runs of directives -/

namespace Using

instance transCmp : Std.TransCmp compareKey :=
  inferInstanceAs <| Std.TransCmp <|
    compareLex (compareLex (compareLex (compareLex
      (compareOn fun u : Using => !u.isGlobal) (compareOn fun u : Using => u.shortName.isSome))
      (compareOn fun u : Using => u.isStatic)) (compareOn fun u : Using => Workbench.lower u.label))
      (compareOn fun u : Using => u.label)

theorem compareKey_congr {u u' v v' : Using} (hu : u.key = u'.key) (hv : v.key = v'.key) :
    u.compareKey v = u'.compareKey v' := by
  simp only [key, Prod.mk.injEq] at hu hv
  simp only [compareKey, label, hu.1, hu.2.1, hu.2.2.1, hu.2.2.2, hv.1, hv.2.1, hv.2.2.1, hv.2.2.2]

/-- Directives are in order. -/
def InOrder (us : List Using) : Prop := us.Pairwise fun u v => (u.compareKey v).isLE = true

theorem compareKey_trans (u v w : Using) (huv : (u.compareKey v).isLE = true) (hvw : (v.compareKey w).isLE = true) :
    (u.compareKey w).isLE = true := Std.TransCmp.isLE_trans huv hvw

theorem compareKey_total (u v : Using) : ((u.compareKey v).isLE || (v.compareKey u).isLE) = true := by
  have hswap : v.compareKey u = (u.compareKey v).swap := Std.OrientedCmp.eq_swap
  rw [hswap]
  cases u.compareKey v <;> rfl

theorem inOrder_sortUsings (us : List Using) : InOrder (sortUsings us) := by
  refine List.pairwise_mergeSort (fun u v w huv hvw => ?_) (fun u v => ?_) us
  · exact compareKey_trans u v w huv hvw
  · exact compareKey_total u v

theorem inOrder_sorted (f : SourceFile) (run : List Node) : InOrder ((Node.sortedUsings f run).map (ofNode f)) := by
  refine List.pairwise_map.2 (List.pairwise_mergeSort (fun a b d hab hbd => ?_) (fun a b => ?_) run)
  · exact compareKey_trans _ _ _ hab hbd
  · exact compareKey_total _ _

theorem sortUsings_of_inOrder {us : List Using} (h : InOrder us) : sortUsings us = us := List.mergeSort_of_pairwise h

/-- What a directive imports is told by its text. -/
theorem key_of_text {f g : SourceFile} {n m : Node} (h : (ofNode f n).text = (ofNode g m).text) :
    (ofNode f n).key = (ofNode g m).key := by
  refine key_ofNode ?_
  rw [← Text.words_trim, ← Text.words_trim (g.text m).toList]
  exact congrArg _ (String.ofList_inj.1 h)

/-- Directives that are read with the texts of directives in order are in order. -/
theorem InOrder.of_texts {us vs : List Using} (h : InOrder us) (hus : ∀ u ∈ us, ∃ f n, u = ofNode f n)
    (hvs : ∀ v ∈ vs, ∃ f n, v = ofNode f n) (htexts : List.Forall₂ (fun u v => u.text = v.text) us vs) : InOrder vs := by
  refine pairwise_of_forall₂ (forall₂_and htexts hus hvs) h ?_
  rintro _ _ _ _ ⟨huv, ⟨f, n, rfl⟩, g, m, rfl⟩ ⟨huv', ⟨f', n', rfl⟩, g', m', rfl⟩ hle
  rwa [← compareKey_congr (key_of_text huv) (key_of_text huv')]

end Using

/-- Each run of directives is in order. -/
def SortedUsings (f : SourceFile) : Prop := ∀ group ∈ usingGroups f.root, Using.InOrder (group.map (Using.ofNode f))

theorem slotEdits_eq_nil_iff {us vs : List Using} (hlen : us.length = vs.length) :
    slotEdits us vs = [] ↔ us.map (·.text) = vs.map (·.text) := by
  rw [slotEdits, List.map_eq_nil_iff]
  induction us generalizing vs with
  | nil =>
    cases List.length_eq_zero_iff.1 hlen.symm
    simp
  | cons u us ih =>
    obtain ⟨v, vs, rfl⟩ := List.exists_cons_of_length_eq_add_one hlen.symm
    rw [List.zip_cons_cons, List.filter_cons, List.map_cons, List.map_cons, List.cons.injEq, ← ih (Nat.succ.inj hlen)]
    by_cases h : u.text = v.text <;> simp [h]

/-- Nothing is left to organize just when the runs are in order. -/
theorem organizeEdits_eq_nil_iff {f : SourceFile} : organizeEdits f = [] ↔ SortedUsings f := by
  rw [organizeEdits, List.flatMap_eq_nil_iff]
  refine forall₂_congr fun group _ => ?_
  have hlen : (group.map (Using.ofNode f)).length = (sortUsings (group.map (Using.ofNode f))).length :=
    (List.length_mergeSort _).symm
  dsimp only
  rw [slotEdits_eq_nil_iff hlen]
  constructor
  · intro htexts
    have hread : ∀ u ∈ group.map (Using.ofNode f), ∃ g n, u = Using.ofNode g n := fun u hu => by
      obtain ⟨n, -, rfl⟩ := List.mem_map.1 hu
      exact ⟨f, n, rfl⟩
    have hpairs : List.Forall₂ (fun u v : Using => u.text = v.text) (sortUsings (group.map (Using.ofNode f)))
        (group.map (Using.ofNode f)) := by
      have h : List.Forall₂ Eq _ _ := List.forall₂_eq_eq_eq ▸ htexts.symm
      exact List.forall₂_map_right_iff.1 (List.forall₂_map_left_iff.1 h)
    exact (Using.inOrder_sortUsings _).of_texts (fun u hu => hread u (List.mem_mergeSort.1 hu)) hread hpairs
  · intro hsorted
    rw [Using.sortUsings_of_inOrder hsorted]

section
variable {f g : SourceFile} {edit : Node → List Node}

/-- When an edit puts runs in order, they are in order in the new text. -/
theorem sortedUsings_of_paired (hkeep : Keeps edit) (h : Paired f g edit f.root g.root)
    (hold : ∀ n, holdsUsings n = true → ∀ a ∈ edit n, a ∈ n.children)
    (hruns : ∀ n ∈ (f.root.walk (fun n => !isCode n) []).map (·.node), holdsUsings n = true →
      ∀ group ∈ runs Node.isUsing ((edit n).filter Node.isNamed), Using.InOrder (group.map (Using.ofNode f))) :
    SortedUsings g := by
  have hshape : ∀ a b : Node, b.kind = a.kind → (!isCode b) = (!isCode a) ∧ holdsUsings b = holdsUsings a := by
    intro a b hk
    simp only [isCode, holdsUsings, hk, and_self]
  intro group hgroup
  obtain ⟨m, hm, hgroup⟩ := List.mem_flatMap.1 hgroup
  obtain ⟨hm, hholds⟩ := List.mem_filter.1 hm
  rcases h.exists_old_walk hkeep (fun a b hk => (hshape a b hk).1) [] hm with ⟨n, hn, hnm⟩ | hmod
  · have hholds' : holdsUsings n = true := (hshape n m hnm.kind).2 ▸ hholds
    have hpairs := rel_runs (p := Node.isUsing) (q := Node.isUsing) (fun a b (hab : Paired f g edit a b) => by
      simp only [Node.isUsing, hab.kind]) (hnm.edited (p := Node.isNamed) (fun a b hk _ => by simp only [Node.isNamed, hk])
        fun a ha _ => hold n hholds' a ha)
    obtain ⟨run, hrun, hpairs⟩ := exists_of_forall₂ hpairs hgroup
    have hsorted := List.pairwise_map.1 (hruns n hn hholds' run hrun)
    have hkeys : List.Forall₂ (fun a b => (Using.ofNode f a).key = (Using.ofNode g b).key) run group :=
      ((List.forall₂_and_left _ _).2 ⟨fun a ha => (mem_of_mem_runs hrun ha).2, hpairs⟩).imp fun a b hab =>
        Using.key_eq_of_paired hab.2 (by simpa [Node.isUsing] using hab.1)
    exact List.pairwise_map.2 (pairwise_of_forall₂ hkeys hsorted fun a b a' b' hab hab' hle =>
      Using.compareKey_congr hab hab' ▸ hle)
  · simp [holdsUsings, hmod] at hholds

theorem SortedUsings.of_paired (hsorted : SortedUsings f) (hkeep : Keeps edit) (h : Paired f g edit f.root g.root)
    (hsame : ∀ n, holdsUsings n = true → edit n = n.children) : SortedUsings g := by
  refine sortedUsings_of_paired hkeep h (fun n hn a ha => hsame n hn ▸ ha) fun n hn hholds group hgroup => ?_
  rw [hsame n hholds] at hgroup
  exact hsorted group (List.mem_flatMap.2 ⟨n, List.mem_filter.2 ⟨hn, hholds⟩, hgroup⟩)

end

/-! ## Organizing -/

section
variable {f g : SourceFile} {es : List Edit}

/-- The directives of a container as organizing leaves them. -/
def organized (f : SourceFile) (n : Node) : List Node := (runs Node.isUsing n.named).flatMap (Node.sortedUsings f)

theorem organized_perm (f : SourceFile) (n : Node) : (organized f n).Perm (n.children.filter Node.isUsing) := by
  rw [← Node.filter_named_isUsing, ← flatten_runs, organized]
  generalize runs Node.isUsing n.named = rs
  induction rs with
  | nil => exact .refl _
  | cons run rest ih => exact (List.mergeSort_perm run _).append ih

theorem isUsing_of_mem_organized {n a : Node} (h : a ∈ organized f n) : a ∈ n.children ∧ a.isUsing = true :=
  List.mem_filter.1 ((organized_perm f n).mem_iff.1 h)

theorem reshaped_organize (n : Node) : Node.reshaped f .organizeImports es n =
    if holdsUsings n then refill Node.isUsing n.children (organized f n) else n.children := rfl

theorem mem_of_mem_organize {n a : Node} (h : a ∈ Node.reshaped f .organizeImports es n) : a ∈ n.children := by
  rw [reshaped_organize] at h
  split at h
  · rcases mem_of_mem_refill h with h | h
    · exact h
    · exact (isUsing_of_mem_organized h).1
  · exact h

theorem keeps_organize : Keeps (Node.reshaped f .organizeImports es) where
  core n := by
    rw [reshaped_organize]
    split
    · exact filter_refill (fun a ha => by simp_all [Node.isUsing, isCore]) fun a ha => (isUsing_of_mem_organized ha).2
    · rfl
  origin n a ha := .inl (mem_of_mem_organize ha)

/-- Organizing keeps the directives of each container. -/
theorem perm_organize (n : Node) :
    ((Node.reshaped f .organizeImports es n).filter Node.isUsing).Perm (n.children.filter Node.isUsing) := by
  rw [reshaped_organize]
  split
  · rw [slots_refill (organized_perm f n).length_eq fun a ha => (isUsing_of_mem_organized ha).2]
    exact organized_perm f n
  · exact .refl _

theorem sortedUsings_of_organize (h : Paired f g (Node.reshaped f .organizeImports es) f.root g.root) : SortedUsings g := by
  refine sortedUsings_of_paired keeps_organize h (fun n _ a ha => mem_of_mem_organize ha) fun n _ hholds group hgroup => ?_
  have hlen : ∀ run, (Node.sortedUsings f run).length = run.length := fun run => List.length_mergeSort run
  have hmem : ∀ run, (∀ a ∈ run, a.isUsing = true) → ∀ a ∈ Node.sortedUsings f run, a.isUsing = true :=
    fun run hrun a ha => hrun a (List.mem_mergeSort.1 ha)
  rw [reshaped_organize, if_pos hholds, refill_filter (fun a => Node.isNamed_of_isUsing) fun a ha => (isUsing_of_mem_organized ha).2, organized,
    ← Node.named, runs_refill hlen hmem] at hgroup
  obtain ⟨run, -, rfl⟩ := List.mem_map.1 hgroup
  exact Using.inOrder_sorted f run

end

end Workbench.CSharp
