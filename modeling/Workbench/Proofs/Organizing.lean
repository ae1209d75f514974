import Workbench.CSharp.Tree
import Workbench.Proofs.Applying
import Workbench.Proofs.Ordering

/-!
# Organized texts

The edits that organize a file can always be made. They exchange directives
within their runs, and once the new text is read there is nothing to organize.
-/

namespace Workbench

namespace CSharp

open Text Edit

/-! ## Slots -/

/-- What the tree of every text is like: ranges nest, those of using directives lie between characters and are not empty,
and no using directive is below another. -/
structure SourceFile.Orderly (f : SourceFile) : Prop where
  nests : f.root.nests = true
  bounded : ∀ n ∈ f.root.descendants, n.isUsing = true →
    n.start < n.stop ∧ isBoundary f.chars n.start = true ∧ isBoundary f.chars n.stop = true
  single : ∀ n ∈ f.root.descendants, n.isUsing = true → ∀ c ∈ n.children, ∀ m ∈ c.descendants, m.isUsing = false

theorem SourceFile.Sound.orderly {f : SourceFile} (h : f.Sound) : f.Orderly where
  nests := h.nests
  bounded n hn husing := by
    have hfits := Node.fits_of_mem_descendants h.fits hn
    exact ⟨Node.fits_usingDirective hfits (by simpa [Node.isUsing] using husing), Node.fits_start hfits, Node.fits_stop hfits⟩
  single n hn husing c hc m hm := by
    have hregular := Node.regular_of_everywhere (Node.everywhere_of_mem_descendants h.regular hn)
    simpa [Node.isUsing] using Using.not_below_directive hregular (by simpa [Node.isUsing] using husing) hc hm

section
variable {n m c u v : Node}

theorem mem_descendants_of_using (h : u ∈ n.children.filter Node.isUsing) : u ∈ n.descendants := by
  obtain ⟨hu, husing⟩ := List.mem_filter.1 h
  exact Node.mem_descendants_of_child hu (Node.isNamed_of_isUsing husing) (Node.mem_descendants_self u)

theorem mem_descendants_of_walk {enter : Node → Bool} {around : List Node} {y : Focus} (h : y ∈ c.walk enter around)
    (hv : v ∈ y.node.children.filter Node.isUsing) : v ∈ c.descendants :=
  Node.descendants_trans (Node.mem_descendants_of_mem_walk (List.mem_map_of_mem h)) (mem_descendants_of_using hv)

/-- A directive of a node is apart from those in containers below the node. -/
theorem apart_own (hnests : n.nests = true) (hu : u ∈ n.children.filter Node.isUsing) (hc : c ∈ n.children)
    (hm : m ∈ c.descendants) (hv : v ∈ m.children.filter Node.isUsing)
    (hsingle : ∀ d ∈ u.children, ∀ e ∈ d.descendants, e.isUsing = false) : u.apart v = true := by
  by_cases he : u = c
  · -- There is no directive below this one.
    subst he
    obtain ⟨d, hd, hvd⟩ : ∃ d ∈ u.children, v ∈ d.descendants := by
      rcases Node.mem_descendants.1 hm with rfl | ⟨d, hd, -, hmd⟩
      · exact ⟨v, (List.mem_filter.1 hv).1, Node.mem_descendants_self v⟩
      · exact ⟨d, hd, Node.descendants_trans hmd (mem_descendants_of_using hv)⟩
    exact absurd (List.mem_filter.1 hv).2 (by simp [hsingle d hd v hvd])
  · have hsymm : Std.Symm fun n m : Node => (n.apart m : Prop) := ⟨fun _ _ h => Node.apart_comm ▸ h⟩
    have hapart : u.apart c = true := (Node.nests_iff.1 hnests).2.2.forall (List.mem_filter.1 hu).1 hc he
    exact Node.apart_of_within hapart (.refl u) (Node.within_of_mem_descendants (Node.nests_of_child hnests hc)
      (Node.descendants_trans hm (mem_descendants_of_using hv)))

/-- Directives of nodes that a walk comes by are apart. -/
theorem apart_walk {enter : Node → Bool} {around : List Node} (hnests : n.nests = true)
    (hsingle : ∀ m ∈ n.descendants, m.isUsing = true → ∀ c ∈ m.children, ∀ d ∈ c.descendants, d.isUsing = false) :
    (n.walk enter around).Pairwise fun x y => ∀ u ∈ x.node.children.filter Node.isUsing,
      ∀ v ∈ y.node.children.filter Node.isUsing, u.apart v = true := by
  induction n using Node.childInduction generalizing around with
  | step n ih =>
    rw [Node.walk_cons]
    split
    · refine List.pairwise_cons.2 ⟨fun y hy u hu v hv => ?_, List.pairwise_flatMap.2 ⟨fun c hc => ?_, ?_⟩⟩
      · obtain ⟨c, hc, hy⟩ := List.mem_flatMap.1 hy
        have hm := Node.mem_descendants_of_mem_walk (List.mem_map_of_mem hy)
        exact apart_own hnests hu (List.mem_filter.1 hc).1 hm hv
          (hsingle u (mem_descendants_of_using hu) (List.mem_filter.1 hu).2)
      · obtain ⟨hc, hnamed⟩ := List.mem_filter.1 hc
        exact ih c hc (Node.nests_of_child hnests hc) fun m hm => hsingle m (Node.mem_descendants_of_child hc hnamed hm)
      · refine ((Node.nests_iff.1 hnests).2.2.sublist List.filter_sublist).imp_of_mem fun {c d} hc hd hcd x hx y hy u hu v hv => ?_
        exact Node.apart_below hcd (Node.nests_of_child hnests (List.mem_filter.1 hc).1)
          (Node.nests_of_child hnests (List.mem_filter.1 hd).1) (mem_descendants_of_walk hx hu) (mem_descendants_of_walk hy hv)
    · exact List.pairwise_singleton _ _

theorem flatten_usingGroups (root : Node) : (usingGroups root).flatten =
    (((root.walk (fun n => !isCode n) []).map (·.node)).filter holdsUsings).flatMap fun n => n.children.filter Node.isUsing := by
  rw [usingGroups, ← List.flatMap_id, List.flatMap_assoc]
  refine List.flatMap_congr fun n _ => ?_
  rw [List.flatMap_id, flatten_runs, ← Node.filter_named_isUsing]
  rfl

end

section
variable {f : SourceFile} {n : Node}

theorem mem_slots (h : n ∈ (usingGroups f.root).flatten) : n ∈ f.root.descendants ∧ n.isUsing = true := by
  rw [flatten_usingGroups] at h
  obtain ⟨m, hm, hn⟩ := List.mem_flatMap.1 h
  have hdesc := Node.mem_descendants_of_mem_walk (List.mem_filter.1 hm).1
  exact ⟨Node.descendants_trans hdesc (mem_descendants_of_using hn), (List.mem_filter.1 hn).2⟩

namespace SourceFile.Orderly

/-- Directives in runs are apart. -/
theorem pairwise_slots (h : f.Orderly) : (usingGroups f.root).flatten.Pairwise fun n m => n.apart m = true := by
  rw [flatten_usingGroups]
  refine List.pairwise_flatMap.2 ⟨fun n hn => ?_, ?_⟩
  · have hdesc := Node.mem_descendants_of_mem_walk (List.mem_filter.1 hn).1
    exact (Node.nests_iff.1 (Node.nests_of_mem_descendants h.nests hdesc)).2.2.sublist List.filter_sublist
  · exact (List.pairwise_map.2 (apart_walk h.nests h.single)).sublist List.filter_sublist

theorem stop_span (h : f.Orderly) (hn : n ∈ (usingGroups f.root).flatten) : n.span.stop = n.stop :=
  Node.stop_span_of_nests (Node.nests_of_mem_descendants h.nests (mem_slots hn).1)

theorem slot_fits (h : f.Orderly) (hn : n ∈ (usingGroups f.root).flatten) :
    n.span.Fits f.chars ∧ n.span.start < n.span.stop := by
  obtain ⟨hdesc, husing⟩ := mem_slots hn
  obtain ⟨hlt, hstart, hstop⟩ := h.bounded n hdesc husing
  exact ⟨.ofBounds hstart hstop, h.stop_span hn ▸ hlt⟩

end SourceFile.Orderly

end

/-! ## Edits that fill slots -/

section
variable {f : SourceFile} {ps : List (Using × Using)} {p : Using × Using}

/-- Each directive with the one that is to stand in its slot. -/
def exchanges (f : SourceFile) : List (Using × Using) :=
  (usingGroups f.root).flatMap fun group => (group.map (Using.ofNode f)).zip (sortUsings (group.map (Using.ofNode f)))

/-- The edits that put directives into slots. -/
def fillEdits (ps : List (Using × Using)) : List Edit :=
  (ps.filter fun p => p.1.text != p.2.text).map fun p => ⟨p.1.span, p.2.text⟩

theorem organizeEdits_eq (f : SourceFile) : organizeEdits f = fillEdits (exchanges f) := by
  rw [fillEdits, exchanges, List.filter_flatMap, List.map_flatMap]
  rfl

theorem map_fst_exchanges (f : SourceFile) :
    (exchanges f).map Prod.fst = (usingGroups f.root).flatten.map (Using.ofNode f) := by
  rw [exchanges, List.map_flatMap, ← List.flatMap_id, List.map_flatMap]
  refine List.flatMap_congr fun group _ => List.map_fst_zip ?_
  exact Nat.le_of_eq (List.length_mergeSort _).symm

theorem exists_slot (hp : p ∈ exchanges f) : ∃ n ∈ (usingGroups f.root).flatten, n.span = p.1.span := by
  have hmem : p.1 ∈ (exchanges f).map Prod.fst := List.mem_map_of_mem hp
  rw [map_fst_exchanges] at hmem
  obtain ⟨n, hn, hspan⟩ := List.mem_map.1 hmem
  exact ⟨n, hn, hspan ▸ rfl⟩

/-- Slots that are apart and none of them empty. -/
structure Slotted (ps : List (Using × Using)) : Prop where
  apart : ps.Pairwise fun p q => p.1.span.stop ≤ q.1.span.start ∨ q.1.span.stop ≤ p.1.span.start
  filled : ∀ p ∈ ps, p.1.span.start < p.1.span.stop

theorem SourceFile.Orderly.slotted (h : f.Orderly) : Slotted (exchanges f) := by
  constructor
  · have hslots : ((exchanges f).map Prod.fst).Pairwise fun u v =>
        u.span.stop ≤ v.span.start ∨ v.span.stop ≤ u.span.start := by
      rw [map_fst_exchanges]
      refine List.pairwise_map.2 (h.pairwise_slots.imp_of_mem fun {n m} hn hm hapart => ?_)
      rw [Node.apart, Bool.or_eq_true, decide_eq_true_eq, decide_eq_true_eq] at hapart
      rwa [← h.stop_span hn, ← h.stop_span hm] at hapart
    exact List.pairwise_map.1 hslots
  · intro p hp
    obtain ⟨n, hn, hspan⟩ := exists_slot hp
    exact hspan ▸ (h.slot_fits hn).2

theorem mem_fillEdits {e : Edit} (he : e ∈ fillEdits ps) : ∃ p ∈ ps, e = ⟨p.1.span, p.2.text⟩ := by
  obtain ⟨p, hp, rfl⟩ := List.mem_map.1 he
  exact ⟨p, (List.mem_filter.1 hp).1, rfl⟩

namespace Slotted

theorem pairwise_apart (h : Slotted ps) : (fillEdits ps).Pairwise Edit.Apart :=
  List.pairwise_map.2 (h.apart.sublist List.filter_sublist)

/-- No edit reaches over an end of a slot. -/
theorem clear (h : Slotted ps) (hp : p ∈ ps) :
    Clear (fillEdits ps) p.1.span.start ∧ Clear (fillEdits ps) p.1.span.stop := by
  have hsymm : Std.Symm fun p q : Using × Using => p.1.span.stop ≤ q.1.span.start ∨ q.1.span.stop ≤ p.1.span.start :=
    ⟨fun _ _ => Or.symm⟩
  constructor <;> intro e he <;> obtain ⟨q, hq, rfl⟩ := mem_fillEdits he
  · by_cases heq : q = p
    · exact .inr (heq ▸ Nat.le_refl _)
    · rcases h.apart.forall hq hp heq with hle | hle
      · exact .inl hle
      · exact .inr (Nat.le_trans (Nat.le_of_lt (h.filled p hp)) hle)
  · by_cases heq : q = p
    · exact .inl (heq ▸ Nat.le_refl _)
    · rcases h.apart.forall hq hp heq with hle | hle
      · exact .inl (Nat.le_trans hle (Nat.le_of_lt (h.filled p hp)))
      · exact .inr hle

/-- In a slot there is its own edit at most. -/
theorem filter_fillEdits (h : Slotted ps) (hp : p ∈ ps) : (fillEdits ps).filter (endsBetween p.1.span.start p.1.span.stop) =
    if p.1.text = p.2.text then [] else [⟨p.1.span, p.2.text⟩] := by
  have hone : ps.filter (fun q => endsBetween p.1.span.start p.1.span.stop ⟨q.1.span, q.2.text⟩) = [p] := by
    obtain ⟨front, back, rfl⟩ := List.append_of_mem hp
    have hfilled := h.filled p hp
    obtain ⟨-, hback, hfront⟩ := List.pairwise_append.1 h.apart
    have hnone : ∀ q ∈ front ++ back, (q.1.span.stop ≤ p.1.span.start ∨ p.1.span.stop ≤ q.1.span.start) →
        endsBetween p.1.span.start p.1.span.stop ⟨q.1.span, q.2.text⟩ = false := fun q hq hapart => by
      have := h.filled q (by simpa [or_left_comm] using .inr (List.mem_append.1 hq))
      rw [endsBetween, Bool.and_eq_false_iff, decide_eq_false_iff_not, decide_eq_false_iff_not]
      dsimp only
      omega
    rw [List.filter_append, List.filter_eq_nil_iff.2 fun q hq => ?_, List.filter_cons_of_pos ?_,
      List.filter_eq_nil_iff.2 fun q hq => ?_, List.nil_append]
    · simp [hnone q (List.mem_append_right _ hq) ((List.pairwise_cons.1 hback).1 q hq).symm]
    · simpa [endsBetween] using hfilled
    · simp [hnone q (List.mem_append_left _ hq) (hfront q hq p List.mem_cons_self)]
  rw [fillEdits, List.filter_map, Function.comp_def, List.filter_comm, hone]
  by_cases heq : p.1.text = p.2.text
  · rw [if_pos heq, List.filter_cons_of_neg (by simpa using heq)]
    rfl
  · rw [if_neg heq, List.filter_cons_of_pos (by simpa using heq)]
    rfl

/-- What stands in a slot when the edits are made. -/
theorem found_slot {cs out mid : List Char} (h : Slotted ps) (hout : applyChars cs (fillEdits ps) = .ok out) (hp : p ∈ ps)
    (hmid : slice? cs p.1.span.start p.1.span.stop = some mid) : found? (fillEdits ps) out p.1.span.start p.1.span.stop =
      some (if p.1.text = p.2.text then mid else p.2.text.toList) := by
  have hfilter := h.filter_fillEdits hp
  obtain ⟨hstart, hstop⟩ := h.clear hp
  split at hfilter <;> rename_i heq
  · rw [if_pos heq, found?_kept hout hmid hstart hstop hfilter]
  · rw [if_neg heq]
    exact found?_made (e := ⟨p.1.span, p.2.text⟩) hout hmid hstart hstop hfilter

/-- What stands outside of slots. -/
theorem found_outside {cs out mid : List Char} {a b : Nat} (h : Slotted ps) (hout : applyChars cs (fillEdits ps) = .ok out)
    (hmid : slice? cs a b = some mid) (haway : ∀ p ∈ ps, p.1.span.stop ≤ a ∨ b ≤ p.1.span.start) :
    found? (fillEdits ps) out a b = some mid := by
  have hle : a ≤ b := by
    obtain ⟨x, y, -, rfl, rfl⟩ := slice?_eq_some hmid
    rw [size_append]
    exact Nat.le_add_right _ _
  refine found?_kept hout hmid (fun e he => ?_) (fun e he => ?_) (List.filter_eq_nil_iff.2 fun e he => ?_)
  all_goals
    obtain ⟨p, hp, rfl⟩ := mem_fillEdits he
    have haway := haway p hp
    have hfilled := h.filled p hp
    simp only [endsBetween, Bool.and_eq_true, decide_eq_true_eq]
    omega

end Slotted

end

/-! ## Runs in order -/

/-- The same directives in order. Those that are equal for the order stay in theirs. -/
structure StablySorted (us vs : List Using) : Prop where
  perm : vs.Perm us
  inOrder : Using.InOrder vs
  stable : ∀ u : Using, vs.filter (fun v => u.compareKey v == .eq) = us.filter (fun v => u.compareKey v == .eq)

theorem stablySorted_sortUsings (us : List Using) : StablySorted us (sortUsings us) where
  perm := List.mergeSort_perm us _
  inOrder := Using.inOrder_sortUsings us
  stable u := by
    refine Ordered.filter_mergeSort Using.compareKey_trans Using.compareKey_total (fun v w hv hw => ?_) us
    rw [Std.TransCmp.eq_trans (Std.OrientedCmp.eq_symm (beq_iff_eq.1 hv)) (beq_iff_eq.1 hw)]
    rfl

/-! ## The new text -/

/-- What stands in the slot of a directive is another directive, and nothing else when the old one has no blanks at its ends. -/
def SlotHolds (f : SourceFile) (out : List Char) (n : Node) (u : Using) : Prop :=
  ∃ held, found? (organizeEdits f) out n.start n.stop = some held ∧ String.ofList (Text.trim held) = u.text ∧
    (isTight (f.text n).toList = true → held = u.text.toList)

/-- A file's text with its directives organized. -/
structure Organized (f : SourceFile) (out : List Char) : Prop where
  /-- The new text begins and ends where the old one does. -/
  ends : shift (organizeEdits f) 0 = 0 ∧ shift (organizeEdits f) (size f.chars) = size out
  /-- Where there is no slot, the same stands. -/
  kept : ∀ a b mid, slice? f.chars a b = some mid → (∀ group ∈ usingGroups f.root, ∀ n ∈ group, n.stop ≤ a ∨ b ≤ n.start) →
    found? (organizeEdits f) out a b = some mid
  /-- The slots of each run hold its directives in order. -/
  sorted : ∀ group ∈ usingGroups f.root, ∃ wanted, StablySorted (group.map (Using.ofNode f)) wanted ∧
    List.Forall₂ (SlotHolds f out) group wanted
  /-- When the directives of a file are what stands in the slots, in the same runs, there is nothing to organize. -/
  settled : ∀ g : SourceFile, List.Forall₂ (List.Forall₂ fun n m =>
    found? (organizeEdits f) out n.start n.stop = some (g.text m).toList) (usingGroups f.root) (usingGroups g.root) →
      organizeEdits g = []

section
variable {f g : SourceFile} {n : Node} {u : Using} {group : List Node} {out : List Char}

theorem Using.text_ofNode (f : SourceFile) (n : Node) : (Using.ofNode f n).text.toList = Text.trim (f.text n).toList :=
  String.toList_ofList

theorem mem_exchanges (hgroup : group ∈ usingGroups f.root)
    (hpair : (n, u) ∈ group.zip (sortUsings (group.map (Using.ofNode f)))) : (Using.ofNode f n, u) ∈ exchanges f := by
  refine List.mem_flatMap.2 ⟨group, hgroup, ?_⟩
  rw [List.zip_map_left]
  exact List.mem_map.2 ⟨(n, u), hpair, rfl⟩

/-- Each slot of a run holds the directive that is wanted there. -/
theorem slotHolds_of_mem_zip (h : f.Orderly) (hout : applyChars f.chars (organizeEdits f) = .ok out)
    (hgroup : group ∈ usingGroups f.root) (hpair : (n, u) ∈ group.zip (sortUsings (group.map (Using.ofNode f)))) :
    SlotHolds f out n u := by
  have hn : n ∈ (usingGroups f.root).flatten := List.mem_flatten_of_mem hgroup (List.of_mem_zip hpair).1
  obtain ⟨hdesc, husing⟩ := mem_slots hn
  obtain ⟨hlt, hstart, hstop⟩ := h.bounded n hdesc husing
  have hslice := slice?_text hstart hstop (Nat.le_of_lt hlt)
  rw [organizeEdits_eq] at hout
  rw [SlotHolds, organizeEdits_eq, ← h.stop_span hn]
  rw [← h.stop_span hn] at hslice
  have hfound := h.slotted.found_slot hout (mem_exchanges hgroup hpair) hslice
  by_cases heq : (Using.ofNode f n).text = u.text
  · rw [if_pos heq] at hfound
    refine ⟨_, hfound, ?_, fun htight => ?_⟩
    · rw [← heq, ← String.toList_inj, String.toList_ofList, Using.text_ofNode]
    · rw [← heq, Using.text_ofNode, (tidy_of_isTight htight).trim_eq]
  · rw [if_neg heq] at hfound
    refine ⟨_, hfound, ?_, fun _ => rfl⟩
    -- What is wanted is the text of a directive without the blanks at its ends.
    obtain ⟨m, -, rfl⟩ := List.mem_map.1 (List.mem_mergeSort.1 (List.of_mem_zip hpair).2)
    rw [← String.toList_inj, String.toList_ofList, Using.text_ofNode, (tidy_trim _).trim_eq]

theorem forall₂_slotHolds (h : f.Orderly) (hout : applyChars f.chars (organizeEdits f) = .ok out)
    (hgroup : group ∈ usingGroups f.root) :
    List.Forall₂ (SlotHolds f out) group (sortUsings (group.map (Using.ofNode f))) := by
  refine List.forall₂_iff_zip.2 ⟨?_, slotHolds_of_mem_zip h hout hgroup⟩
  rw [sortUsings, List.length_mergeSort, List.length_map]

/-- Directives that are read from slots that hold directives in order are in order. -/
theorem inOrder_of_read {wanted : List Using} {group' : List Node} (hheld : List.Forall₂ (SlotHolds f out) group wanted)
    (hwanted : Using.InOrder wanted) (horigin : ∀ u ∈ wanted, ∃ f n, u = Using.ofNode f n)
    (hread : List.Forall₂ (fun n m => found? (organizeEdits f) out n.start n.stop = some (g.text m).toList) group group') :
    Using.InOrder (group'.map (Using.ofNode g)) := by
  refine hwanted.of_texts horigin (fun v hv => ?_) (List.forall₂_map_right_iff.2 ((forall₂_join hheld hread).imp fun u m hum => ?_))
  · obtain ⟨m, -, rfl⟩ := List.mem_map.1 hv
    exact ⟨g, m, rfl⟩
  · obtain ⟨n, ⟨held, hfound, htext, -⟩, hm⟩ := hum
    rw [← htext, Option.some.inj (hfound.symm.trans hm), ← String.toList_inj, Using.text_ofNode, String.toList_ofList]

/-- A file can be organized, whatever its tree: each run is sorted by itself and nothing else changes. -/
theorem organizeEdits_apply (h : f.Orderly) :
    ∃ out, applyChars f.chars (organizeEdits f) = .ok out ∧ Organized f out := by
  have hfits : ∀ e ∈ organizeEdits f, e.span.Fits f.chars := fun e he => by
    rw [organizeEdits_eq] at he
    obtain ⟨p, hp, rfl⟩ := mem_fillEdits he
    obtain ⟨n, hn, hspan⟩ := exists_slot hp
    exact hspan ▸ (h.slot_fits hn).1
  obtain ⟨out, hout⟩ := exists_applyChars hfits (organizeEdits_eq f ▸ h.slotted.pairwise_apart)
  refine ⟨out, hout, ⟨shift_zero fun e he => ?_, shift_size hout hfits⟩, fun a b mid hmid haway => ?_, fun group hgroup => ?_,
    fun g hg => ?_⟩
  · rw [organizeEdits_eq] at he
    obtain ⟨p, hp, rfl⟩ := mem_fillEdits he
    exact Nat.lt_of_le_of_lt (Nat.zero_le _) (h.slotted.filled p hp)
  · rw [organizeEdits_eq] at hout ⊢
    refine h.slotted.found_outside hout hmid fun p hp => ?_
    obtain ⟨n, hn, hspan⟩ := exists_slot hp
    obtain ⟨group, hgroup, hmem⟩ := List.mem_flatten.1 hn
    rw [← hspan, h.stop_span hn]
    exact haway group hgroup n hmem
  · exact ⟨_, stablySorted_sortUsings _, forall₂_slotHolds h hout hgroup⟩
  · refine organizeEdits_eq_nil_iff.2 fun group' hgroup' => ?_
    obtain ⟨group, hgroup, hread⟩ := exists_of_forall₂ hg hgroup'
    refine inOrder_of_read (forall₂_slotHolds h hout hgroup) (Using.inOrder_sortUsings _) (fun u hu => ?_) hread
    obtain ⟨n, -, rfl⟩ := List.mem_map.1 (List.mem_mergeSort.1 hu)
    exact ⟨f, n, rfl⟩

end

/-- Runs at two levels, with directives that tie. -/
def looseUsings : SourceFile := .ofText parse "a.cs" "using B;\nusing  A ;\nusing A;\nnamespace N \x7b\n using C;\n using B;\n\x7d\n"

def tightUsings : SourceFile := .ofText parse "a.cs" "using  A ;\nusing A;\nusing B;\nnamespace N \x7b\n using B;\n using C;\n\x7d\n"

theorem organizeEdits_looseUsings : organizeEdits looseUsings = [⟨⟨0, 8⟩, "using  A ;"⟩, ⟨⟨9, 10⟩, "using A;"⟩,
    ⟨⟨20, 8⟩, "using B;"⟩, ⟨⟨44, 8⟩, "using B;"⟩, ⟨⟨54, 8⟩, "using C;"⟩] := by
  have hthree : ∀ u v w : Using, (u.compareKey v).isLE = false → (u.compareKey w).isLE = false → (v.compareKey w).isLE = true →
      sortUsings [u, v, w] = [v, w, u] := fun u v w huv huw hvw => by simp [sortUsings, List.mergeSort, huv, huw, hvw]
  have htwo : ∀ u v : Using, (u.compareKey v).isLE = false → sortUsings [u, v] = [v, u] := fun u v huv => by
    simp [sortUsings, List.mergeSort, huv]
  have hgroups : (usingGroups looseUsings.root).map (·.map (Using.ofNode looseUsings)) =
      [[⟨⟨0, 8⟩, "using B;", false, false, none, "B"⟩, ⟨⟨9, 10⟩, "using  A ;", false, false, none, "A"⟩,
        ⟨⟨20, 8⟩, "using A;", false, false, none, "A"⟩],
       [⟨⟨44, 8⟩, "using C;", false, false, none, "C"⟩, ⟨⟨54, 8⟩, "using B;", false, false, none, "B"⟩]] := by
    decide +kernel
  have hedits : organizeEdits looseUsings = ((usingGroups looseUsings.root).map (·.map (Using.ofNode looseUsings))).flatMap
      fun us => slotEdits us (sortUsings us) := (List.flatMap_map _ _ _).symm
  rw [hedits, hgroups, List.flatMap_cons, List.flatMap_singleton,
    hthree _ _ _ (by decide +kernel) (by decide +kernel) (by decide +kernel), htwo _ _ (by decide +kernel)]
  decide +kernel

theorem organizeEdits_apply_looseUsings : looseUsings.Orderly ∧
    applyChars looseUsings.chars (organizeEdits looseUsings) = .ok tightUsings.chars ∧ Organized looseUsings tightUsings.chars ∧
      organizeEdits tightUsings = [] := by
  have horderly : looseUsings.Orderly := (SourceFile.sound_of_isSound (by decide +kernel)).orderly
  obtain ⟨out, hout, horganized⟩ := organizeEdits_apply horderly
  have hnew : applyChars looseUsings.chars (organizeEdits looseUsings) = .ok tightUsings.chars := by
    rw [organizeEdits_looseUsings, applyChars, List.mergeSort_of_pairwise (by decide)]
    decide +kernel
  obtain rfl := Except.ok.inj (hout.symm.trans hnew)
  exact ⟨horderly, hnew, horganized, horganized.settled tightUsings (by rw [organizeEdits_looseUsings]; decide +kernel)⟩

end CSharp

end Workbench
