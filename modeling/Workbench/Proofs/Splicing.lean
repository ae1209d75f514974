import Workbench.Proofs.Applying
import Workbench.Proofs.Sorting

/-!
# Edits one at a time

To make edits at once is to splice them in one by one, from the last to the
first. They can be made exactly when each lies in the text and any two are
apart, and the order in which they are given decides nothing but how
insertions at one position follow one another.
-/

namespace Workbench.Edit

open Text

/-! ## One edit -/

/-- The text with what the span covers replaced. -/
def splice (e : Edit) (cs : List Char) : Option (List Char) :=
  match splitAt? cs e.span.start with
  | none => none
  | some (kept, tail) => (splitAt? tail e.span.length).map fun p => kept ++ (e.newText.toList ++ p.2)

section
variable {cursor n : Nat} {cs front kept gone rest out : List Char} {d e : Edit} {ds es : List Edit}

theorem splice_parts (hstart : size kept = e.span.start) (hlength : size gone = e.span.length) (after : List Char) :
    splice e (kept ++ (gone ++ after)) = some (kept ++ (e.newText.toList ++ after)) := by
  simp only [splice, ← hstart, ← hlength, splitAt?_append, Option.map_some]

/-- Edits in order are made by splicing in the last one first. -/
theorem Made.spliced (h : Made cursor rest es out) (hfront : size front = cursor) :
    es.foldrM splice (front ++ rest) = some (front ++ out) := by
  induction h generalizing front with
  | done => rfl
  | @edit cursor kept gone after out e es hstart hlength _ ih =>
    have hsize : size (front ++ kept) = e.span.start := by rw [size_append]; omega
    have hlater : es.foldrM splice ((front ++ kept) ++ (gone ++ after)) = some ((front ++ kept) ++ (gone ++ out)) := by
      have hstop : size (front ++ kept ++ gone) = e.span.stop := by rw [size_append, hsize, Span.stop, hlength]
      simpa using ih hstop
    rw [← List.append_assoc, List.foldrM_cons, hlater]
    simpa using splice_parts hsize hlength.symm out

/-! ## Which edits can be made -/

theorem Made.fits (h : Made cursor rest es out) (hfront : size front = cursor) : ∀ e ∈ es, e.span.Fits (front ++ rest) := by
  induction h generalizing front with
  | done => simp
  | @edit cursor kept gone after out e es hstart hlength _ ih =>
    have hsize : size (front ++ kept) = e.span.start := by rw [size_append]; omega
    have hstop : size (front ++ kept ++ gone) = e.span.stop := by rw [size_append, hsize, Span.stop, hlength]
    have hparts : front ++ (kept ++ (gone ++ after)) = front ++ kept ++ gone ++ after := by simp
    rw [hparts]
    refine List.forall_mem_cons.2 ⟨⟨?_, ?_⟩, ih hstop⟩
    · rw [← hsize, List.append_assoc]
      exact isBoundary_append _ _
    · rw [← hstop]
      exact isBoundary_append _ _

theorem Made.pairwise (h : Made cursor rest es out) : es.Pairwise fun d e => d.span.stop ≤ e.span.start := by
  induction h with
  | done => exact .nil
  | edit _ _ hrest ih => exact .cons hrest.le_start ih

theorem applyChars_isOk_iff :
    (∃ out, applyChars cs es = .ok out) ↔ (∀ e ∈ es, e.span.Fits cs) ∧ es.Pairwise Apart := by
  constructor
  · rintro ⟨out, h⟩
    have hmade := applyChars_eq_ok_iff.1 h
    refine ⟨fun e he => hmade.fits size_nil e (List.mem_mergeSort.2 he), ?_⟩
    exact (hmade.pairwise.imp Or.inl).perm (List.mergeSort_perm es before) (symm_apart.symm _ _)
  · rintro ⟨hfits, hapart⟩
    exact exists_applyChars hfits hapart

/-! ## Edits in another order -/

/-- The same edits. Insertions at one position are in the same order. -/
structure Reordered (es ds : List Edit) : Prop where
  perm : ds.Perm es
  insertions : ∀ n, ds.filter (·.span = ⟨n, 0⟩) = es.filter (·.span = ⟨n, 0⟩)

theorem span_eq_of_before (h : d.before e = true) (h' : e.before d = true) : d.span = e.span := by
  rw [before_iff] at h h'
  obtain ⟨⟨a, m⟩, x⟩ := d
  obtain ⟨⟨b, n⟩, y⟩ := e
  simp only [Span.stop] at h h'
  simp only [Span.mk.injEq]
  omega

/-- What covers the same keeps its order when edits are sorted. -/
theorem filter_mergeSort (es : List Edit) (s : Span) : (es.mergeSort before).filter (·.span = s) = es.filter (·.span = s) :=
  Ordered.filter_mergeSort before_trans before_total (fun d e hd he => by simp_all [before_iff]) es

theorem reordered_mergeSort (es : List Edit) : Reordered es (es.mergeSort before) :=
  ⟨List.mergeSort_perm es before, fun n => filter_mergeSort es ⟨n, 0⟩⟩

/-- Sorted edits are known by what they are for each span. -/
theorem eq_of_sorted (hds : ds.Pairwise fun d e => d.before e = true) (hes : es.Pairwise fun d e => d.before e = true)
    (h : ∀ s, ds.filter (·.span = s) = es.filter (·.span = s)) : ds = es := by
  induction ds generalizing es with
  | nil =>
    cases es with
    | nil => rfl
    | cons e es => simpa using h e.span
  | cons d ds ih =>
    cases es with
    | nil => simpa using h d.span
    | cons e es =>
      obtain ⟨hd, hds'⟩ := List.pairwise_cons.1 hds
      obtain ⟨he, hes'⟩ := List.pairwise_cons.1 hes
      have hmem : ∀ x s, x.span = s → (x ∈ d :: ds ↔ x ∈ e :: es) := fun x s hx => by
        have := congrArg (x ∈ ·) (h s)
        simpa [List.mem_filter, hx] using this
      -- Both begin with an edit that comes before all others, so these cover the same.
      have hspan : d.span = e.span := by
        rcases List.mem_cons.1 ((hmem d d.span rfl).1 List.mem_cons_self) with rfl | hd'
        · rfl
        · rcases List.mem_cons.1 ((hmem e e.span rfl).2 List.mem_cons_self) with rfl | he'
          · rfl
          · exact span_eq_of_before (hd e he') (he d hd')
      obtain rfl : d = e := by
        have := h d.span
        rw [List.filter_cons_of_pos (by simp), List.filter_cons_of_pos (by simp [hspan])] at this
        exact (List.cons.inj this).1
      congr 1
      refine ih hds' hes' fun s => ?_
      have := h s
      by_cases hs : d.span = s
      · rw [List.filter_cons_of_pos (by simpa using hs), List.filter_cons_of_pos (by simpa using hs)] at this
        exact (List.cons.inj this).2
      · rwa [List.filter_cons_of_neg (by simpa using hs), List.filter_cons_of_neg (by simpa using hs)] at this

/-- Among edits that are apart, one that covers something is the only one that covers it. -/
theorem length_filter_le (h : es.Pairwise Apart) {s : Span} (hs : 0 < s.length) : (es.filter (·.span = s)).length ≤ 1 := by
  have hsame : ∀ e ∈ es.filter (·.span = s), e.span = s := fun e he => by simpa using (List.mem_filter.1 he).2
  have hapart := h.filter (·.span = s)
  generalize es.filter (·.span = s) = ls at hsame hapart
  match ls, hsame, hapart with
  | [], _, _ | [_], _, _ => simp
  | d :: e :: rest, hsame, hapart =>
    have := (List.pairwise_cons.1 hapart).1 e List.mem_cons_self
    rw [Apart, hsame d (by simp), hsame e (by simp), Span.stop] at this
    omega

theorem Reordered.filter_eq (h : Reordered es ds) (hapart : es.Pairwise Apart) (s : Span) :
    ds.filter (·.span = s) = es.filter (·.span = s) := by
  rcases Nat.eq_zero_or_pos s.length with hs | hs
  · have hs' : s = ⟨s.start, 0⟩ := by rw [← hs]
    rw [hs']
    exact h.insertions s.start
  · have hone := length_filter_le hapart hs
    have hperm := h.perm.filter (·.span = s)
    generalize es.filter (·.span = s) = ls at hone hperm
    match ls, hone, hperm with
    | [], _, hperm => exact hperm.eq_nil
    | [_], _, hperm => exact List.perm_singleton.1 hperm

/-- Edits that are apart are the same once they are sorted. -/
theorem Reordered.mergeSort_eq (h : Reordered es ds) (hapart : es.Pairwise Apart) : ds.mergeSort before = es.mergeSort before := by
  refine eq_of_sorted (List.pairwise_mergeSort before_trans before_total ds)
    (List.pairwise_mergeSort before_trans before_total es) fun s => ?_
  rw [filter_mergeSort, filter_mergeSort, h.filter_eq hapart s]

theorem Reordered.isOk_iff (h : Reordered es ds) :
    (∃ out, applyChars cs ds = .ok out) ↔ ∃ out, applyChars cs es = .ok out := by
  rw [applyChars_isOk_iff, applyChars_isOk_iff, h.perm.pairwise_iff (symm_apart.symm _ _)]
  simp only [h.perm.mem_iff]

theorem Reordered.applyChars_eq (h : Reordered es ds) : (applyChars cs ds).toOption = (applyChars cs es).toOption := by
  cases hes : applyChars cs es with
  | ok out =>
    have hapart := (applyChars_isOk_iff.1 ⟨out, hes⟩).2
    rw [← hes, applyChars, applyChars, h.mergeSort_eq hapart]
  | error why =>
    cases hds : applyChars cs ds with
    | error why' => rfl
    | ok out =>
      obtain ⟨out', hout⟩ := h.isOk_iff.1 ⟨out, hds⟩
      rw [hes] at hout
      cases hout

end

/-! ## Whole texts -/

theorem applyAll_eq_ok_iff {text out : String} {es : List Edit} :
    applyAll text es = .ok out ↔ applyChars text.toList es = .ok out.toList := by
  rw [applyAll]
  cases applyChars text.toList es with
  | error why => simp [Except.map]
  | ok cs => simp [Except.map, ← String.toList_inj]

/-- To make edits at once is to make them one by one, and their order matters for insertions at one position alone. -/
theorem applyAll_simultaneous (text : String) (es : List Edit) :
    ((∃ out, applyAll text es = .ok out) ↔ (∀ e ∈ es, e.span.Fits text.toList) ∧ es.Pairwise Apart) ∧
    (∀ out, applyAll text es = .ok out → ∀ ds, Reordered es ds → ds.Pairwise (fun d e => d.before e = true) →
      ds.foldrM splice text.toList = some out.toList) ∧
    ∀ ds, Reordered es ds → (applyAll text ds).toOption = (applyAll text es).toOption := by
  refine ⟨?_, fun out hout ds hds hsorted => ?_, fun ds hds => ?_⟩
  · rw [← applyChars_isOk_iff]
    constructor
    · rintro ⟨out, h⟩
      exact ⟨out.toList, applyAll_eq_ok_iff.1 h⟩
    · rintro ⟨out, h⟩
      exact ⟨.ofList out, applyAll_eq_ok_iff.2 (by rw [h, String.toList_ofList])⟩
  · have hout := applyAll_eq_ok_iff.1 hout
    have hapart := (applyChars_isOk_iff.1 ⟨_, hout⟩).2
    have hmade := applyChars_eq_ok_iff.1 hout
    rw [← hds.mergeSort_eq hapart, List.mergeSort_of_pairwise hsorted] at hmade
    exact hmade.spliced size_nil
  · have : (applyChars text.toList ds).toOption = (applyChars text.toList es).toOption := hds.applyChars_eq
    rw [applyAll, applyAll]
    cases hd : applyChars text.toList ds <;> cases he : applyChars text.toList es <;> simp_all [Except.map, Except.toOption]

/-- Two insertions where a replacement begins, and one that comes behind them. -/
def crowded : List Edit := [⟨⟨3, 1⟩, "c"⟩, ⟨⟨1, 0⟩, "x"⟩, ⟨⟨1, 2⟩, "e"⟩, ⟨⟨1, 0⟩, "y"⟩]

theorem applyAll_crowded : ∃ ds, Reordered crowded ds ∧ ds.Pairwise (fun d e => d.before e = true) ∧
    applyAll "aéz" crowded = .ok "axyec" ∧ ds.foldrM splice "aéz".toList = some "axyec".toList ∧
      (applyAll "aéz" ds).toOption = some "axyec" := by
  obtain ⟨hok, hspliced, hreordered⟩ := applyAll_simultaneous "aéz" crowded
  have hsort : crowded.mergeSort before = [⟨⟨1, 0⟩, "x"⟩, ⟨⟨1, 0⟩, "y"⟩, ⟨⟨1, 2⟩, "e"⟩, ⟨⟨3, 1⟩, "c"⟩] := by
    simp [crowded, List.mergeSort, before, Span.stop]
  have hsorted := List.pairwise_mergeSort before_trans before_total crowded
  have hfits : ∀ e ∈ crowded, e.span.Fits "aéz".toList := by
    intro e he
    simp only [crowded, List.mem_cons, List.not_mem_nil, or_false] at he
    rcases he with rfl | rfl | rfl | rfl <;> exact ⟨by decide, by decide⟩
  obtain ⟨out, hout⟩ := hok.2 ⟨hfits, by simp [crowded, Apart, Span.stop]⟩
  have hsplice := hspliced out hout _ (reordered_mergeSort crowded) hsorted
  have hdone : (crowded.mergeSort before).foldrM splice "aéz".toList = some "axyec".toList := by
    rw [hsort]
    decide
  obtain rfl : out = "axyec" := String.toList_inj.1 (Option.some.inj (hsplice.symm.trans hdone))
  refine ⟨_, reordered_mergeSort crowded, hsorted, hout, hdone, ?_⟩
  rw [hreordered _ (reordered_mergeSort crowded), hout]
  rfl

end Workbench.Edit
