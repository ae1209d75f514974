import Mathlib.Algebra.Ring.Nat
import Workbench.Proofs.Placement

/-!
# Edits made at once

Edits that are apart can all be made, in whatever order they are given. `Made`
says what a text and the text with edits made have in common, and `shift` where
a byte of the one is in the other.
-/

namespace Workbench.Edit

open Text

/-! ## Edits in order -/

/-- A text from byte `cursor` on, edits in order, and the text with the edits made. -/
inductive Made : Nat → List Char → List Edit → List Char → Prop
  | done (cursor : Nat) (rest : List Char) : Made cursor rest [] rest
  | edit {cursor : Nat} {kept gone after out : List Char} {e : Edit} {es : List Edit}
      (start : e.span.start = cursor + size kept) (length : e.span.length = size gone) (rest : Made e.span.stop after es out) :
      Made cursor (kept ++ (gone ++ after)) (e :: es) (kept ++ (e.newText.toList ++ out))

section
variable {total cursor p q : Nat} {cs rest out a b x mid mid' y : List Char} {d e : Edit} {es ds : List Edit}

theorem applyFrom_eq_ok_iff : applyFrom total cursor rest es = .ok out ↔ Made cursor rest es out := by
  constructor
  · intro h
    induction es generalizing cursor rest out with
    | nil =>
      cases h
      exact .done cursor rest
    | cons e es ih =>
      rw [applyFrom] at h
      split at h
      · cases h
      · rename_i hle
        split at h
        · cases h
        · rename_i kept tail hkept
          split at h
          · cases h
          · rename_i gone after hgone
            obtain ⟨rfl, hstart⟩ := splitAt?_eq_some_iff.1 hkept
            obtain ⟨rfl, hlength⟩ := splitAt?_eq_some_iff.1 hgone
            cases hout : applyFrom total e.span.stop after es with
            | error fault => rw [hout] at h; cases h
            | ok out' =>
              rw [hout] at h
              obtain rfl : kept ++ e.newText.toList ++ out' = out := Except.ok.inj h
              rw [List.append_assoc kept e.newText.toList]
              exact .edit (by omega) hlength.symm (ih hout)
  · intro h
    induction h with
    | done => rfl
    | edit hstart hlength _ ih =>
      rw [applyFrom, if_neg (by omega), hstart, Nat.add_sub_cancel_left, splitAt?_append]
      dsimp only
      rw [hlength, splitAt?_append]
      dsimp only
      rw [ih, Except.map, List.append_assoc]

theorem Made.le_start (h : Made cursor rest es out) : ∀ e ∈ es, cursor ≤ e.span.start := by
  induction h with
  | done => exact fun _ h => nomatch h
  | edit hstart _ _ ih =>
    refine List.forall_mem_cons.2 ⟨by omega, fun d hd => ?_⟩
    have := ih d hd
    simp only [Span.stop] at this
    omega

/-- Edits that follow one another can be made. -/
theorem exists_made (hcs : cs = a ++ rest) (hcursor : size a = cursor) (hfits : ∀ e ∈ es, e.span.Fits cs)
    (hstart : ∀ e ∈ es, cursor ≤ e.span.start) (hnext : es.Pairwise fun d e => d.span.stop ≤ e.span.start) :
    ∃ out, Made cursor rest es out := by
  induction es generalizing a rest cursor with
  | nil => exact ⟨rest, .done cursor rest⟩
  | cons e es ih =>
    obtain ⟨hfit, hfits⟩ := List.forall_mem_cons.1 hfits
    obtain ⟨hle, -⟩ := List.forall_mem_cons.1 hstart
    obtain ⟨hfirst, hnext⟩ := List.pairwise_cons.1 hnext
    obtain ⟨before, gone, after, hparts, hbefore, hgone⟩ := exists_parts hfit.start hfit.stop (Nat.le_add_right _ _)
    obtain ⟨kept, rfl, rfl⟩ := exists_mid_of_size_le (hcs.symm.trans hparts) (by omega)
    have hlength : size gone = e.span.length := by rw [hgone, Span.stop, Nat.add_sub_cancel_left]
    rw [size_append] at hbefore
    have hcs' : cs = (a ++ (kept ++ gone)) ++ after := by rw [hparts]; simp
    have hcursor' : size (a ++ (kept ++ gone)) = e.span.stop := by rw [size_append, size_append, Span.stop]; omega
    obtain ⟨out, hout⟩ := ih hcs' hcursor' hfits hfirst hnext
    exact ⟨_, .edit (by omega) hlength.symm hout⟩

/-- The sizes of the texts and of what the edits take and give. -/
theorem Made.size_eq (h : Made cursor rest es out) :
    size out + (es.map (·.span.length)).sum = size rest + (es.map fun e => size e.newText.toList).sum := by
  induction h with
  | done => rfl
  | edit _ hlength _ ih =>
    simp only [List.map_cons, List.sum_cons, size_append]
    omega

theorem Made.eq_of_nil (h : Made cursor rest [] out) : out = rest := by
  cases h
  rfl

/-- An edit of all of a text. -/
theorem Made.eq_of_singleton (h : Made cursor rest [e] out) (hstart : e.span.start = cursor) (hlength : e.span.length = size rest) :
    out = e.newText.toList := by
  cases h with
  | @edit _ kept gone after out _ _ hstart' hlength' hrest =>
    obtain rfl := hrest.eq_of_nil
    rw [size_append, size_append] at hlength
    rw [size_eq_zero (w := kept) (by omega), size_eq_zero (w := out) (by omega), List.append_nil, List.nil_append]

/-- No edit reaches over a byte. -/
def Clear (es : List Edit) (n : Nat) : Prop := ∀ e ∈ es, e.span.stop ≤ n ∨ n ≤ e.span.start

/-- Where no edit reaches over, what is before is edited by itself, and so is what is behind. -/
theorem Made.cut (h : Made cursor (a ++ b) es out) (hp : cursor + size a = p) (hclear : Clear es p) :
    ∃ a' b', out = a' ++ b' ∧ Made cursor a (es.filter (·.span.stop ≤ p)) a' ∧
      Made p b (es.filter fun e => !decide (e.span.stop ≤ p)) b' := by
  generalize hcs : a ++ b = cs at h
  induction h generalizing a with
  | done cursor =>
    subst hcs
    exact ⟨a, b, rfl, .done cursor a, .done p b⟩
  | @edit cursor kept gone after out e es hstart hlength hrest ih =>
    obtain ⟨hfirst, hclear⟩ := List.forall_mem_cons.1 hclear
    by_cases hstop : e.span.stop ≤ p
    · have hstop' : cursor + size kept + size gone ≤ p := by rw [← hstart, ← hlength]; exact hstop
      obtain ⟨a, rfl, rfl⟩ := exists_mid_of_size_le ((List.append_assoc kept gone after).trans hcs.symm)
        (by rw [size_append]; omega)
      obtain ⟨a', b', rfl, ha, hb⟩ := ih (a := a) (by
        rw [size_append, size_append] at hp
        rw [Span.stop]
        omega) hclear rfl
      refine ⟨kept ++ (e.newText.toList ++ a'), b', by simp, ?_, ?_⟩
      · rw [List.filter_cons_of_pos (by simpa using hstop), List.append_assoc]
        exact .edit hstart hlength ha
      · rw [List.filter_cons_of_neg (by simpa using hstop)]
        exact hb
    · have hle : p ≤ e.span.start := hfirst.resolve_left hstop
      obtain ⟨kept, rfl, rfl⟩ := exists_mid_of_size_le hcs (by omega)
      have hlater : ∀ d ∈ es, p < d.span.stop := fun d hd => by
        have := hrest.le_start d hd
        rw [Span.stop] at this hstop ⊢
        omega
      rw [size_append] at hstart
      refine ⟨a, kept ++ (e.newText.toList ++ out), by simp, ?_, ?_⟩
      · rw [List.filter_cons_of_neg (by simpa using hstop),
          List.filter_eq_nil_iff.2 fun d hd => by simpa using hlater d hd]
        exact .done cursor a
      · rw [List.filter_cons_of_pos (by simpa using hstop),
          List.filter_eq_self.2 fun d hd => by simpa using hlater d hd]
        exact .edit (by omega) hlength hrest

/-! ## Edits in any order -/

/-- Of two edits, one ends where the other begins or before. -/
def Apart (d e : Edit) : Prop := d.span.stop ≤ e.span.start ∨ e.span.stop ≤ d.span.start

instance symm_apart : Std.Symm Apart := ⟨fun _ _ => Or.symm⟩

theorem before_iff : d.before e = true ↔ d.span.start < e.span.start ∨ d.span.start = e.span.start ∧ d.span.stop ≤ e.span.stop := by
  simp [before]

theorem before_trans (c d e : Edit) (h : c.before d = true) (h' : d.before e = true) : c.before e = true := by
  rw [before_iff] at *
  omega

theorem before_total (d e : Edit) : (d.before e || e.before d) = true := by
  rw [Bool.or_eq_true, before_iff, before_iff]
  omega

/-- Edits that are apart follow one another once they are put in order. -/
theorem pairwise_sorted (h : es.Pairwise Apart) : (es.mergeSort before).Pairwise fun d e => d.span.stop ≤ e.span.start := by
  have hbefore := List.pairwise_mergeSort before_trans before_total es
  have hapart : (es.mergeSort before).Pairwise Apart := h.perm (List.mergeSort_perm es before).symm (symm_apart.symm _ _)
  refine (hbefore.and hapart).imp fun {d e} hde => ?_
  -- Edits with the same start are in order of their ends, so that the first of two that touch is empty.
  obtain ⟨hle, hapart⟩ := hde
  rw [before_iff] at hle
  simp only [Apart, Span.stop] at hapart hle ⊢
  omega

theorem applyChars_eq_ok_iff : applyChars cs es = .ok out ↔ Made 0 cs (es.mergeSort before) out := applyFrom_eq_ok_iff

/-- Edits that are apart can be made. -/
theorem exists_applyChars (hfits : ∀ e ∈ es, e.span.Fits cs) (h : es.Pairwise Apart) : ∃ out, applyChars cs es = .ok out := by
  obtain ⟨out, hout⟩ := exists_made (List.nil_append cs).symm size_nil (fun e he => hfits e (List.mem_mergeSort.1 he))
    (fun _ _ => Nat.zero_le _) (pairwise_sorted h)
  exact ⟨out, applyChars_eq_ok_iff.2 hout⟩

/-- Where a byte that no edit reaches over is in the new text. -/
def shift (es : List Edit) (n : Nat) : Nat :=
  let done := es.filter (·.span.stop ≤ n)
  n + (done.map fun e => size e.newText.toList).sum - (done.map (·.span.length)).sum

/-- What stands in a text with edits made between two bytes of the old text. -/
def found? (es : List Edit) (out : List Char) (p q : Nat) : Option (List Char) := slice? out (shift es p) (shift es q)

theorem size_of_made (h : Made 0 a (ds.filter (·.span.stop ≤ p)) out) (hds : ds.Perm es) (hp : size a = p) :
    size out = shift es p := by
  have hsize := h.size_eq
  have hdone := hds.filter (·.span.stop ≤ p)
  rw [(hdone.map (·.span.length)).sum_nat, (hdone.map fun e => size e.newText.toList).sum_nat] at hsize
  rw [shift]
  omega

/-- Whether an edit ends behind one byte, and not behind the other. -/
def endsBetween (p q : Nat) (e : Edit) : Bool := p < e.span.stop && e.span.stop ≤ q

/-- Between two bytes that no edit reaches over, only the edits that end there are made. -/
theorem exists_window (h : applyChars (x ++ (mid ++ y)) es = .ok out) (hx : Clear es (size x)) (hmid : Clear es (size (x ++ mid))) :
    ∃ mid' ds, found? es out (size x) (size (x ++ mid)) = some mid' ∧ ds.Perm (es.filter (endsBetween (size x) (size (x ++ mid)))) ∧
      Made (size x) mid ds mid' := by
  have hperm := List.mergeSort_perm es before
  have hclear : ∀ {n}, Clear es n → Clear (es.mergeSort before) n := fun hn e he => hn e (List.mem_mergeSort.1 he)
  have hmade := applyChars_eq_ok_iff.1 h
  rw [← List.append_assoc] at hmade
  obtain ⟨front, y', rfl, hfront, -⟩ := hmade.cut (Nat.zero_add _) (hclear hmid)
  have hstop := size_of_made hfront hperm rfl
  obtain ⟨x', mid', rfl, hx', hmid'⟩ := hfront.cut (Nat.zero_add _) fun e he => hclear hx e (List.mem_filter.1 he).1
  have hle : size x ≤ size (x ++ mid) := by
    rw [size_append]
    exact Nat.le_add_right _ _
  have hbefore : ∀ es : List Edit, (es.filter (·.span.stop ≤ size (x ++ mid))).filter (·.span.stop ≤ size x) =
      es.filter (·.span.stop ≤ size x) := fun es => by
    rw [List.filter_filter]
    refine List.filter_congr fun e _ => ?_
    rw [Bool.and_eq_left_iff_imp, decide_eq_true_eq, decide_eq_true_eq]
    exact fun hstop => Nat.le_trans hstop hle
  have hbetween : ∀ es : List Edit, (es.filter (·.span.stop ≤ size (x ++ mid))).filter (fun e => !decide (e.span.stop ≤ size x)) =
      es.filter (endsBetween (size x) (size (x ++ mid))) := fun es => by
    rw [List.filter_filter]
    refine List.filter_congr fun e _ => ?_
    rw [endsBetween, ← decide_not, decide_eq_decide.2 Nat.not_le]
  rw [hbefore] at hx'
  rw [hbetween] at hmid'
  refine ⟨mid', _, ?_, hperm.filter _, hmid'⟩
  rw [found?, ← hstop, ← size_of_made hx' hperm rfl, List.append_assoc, slice?_parts]

/-- Where no edit ends, the same stands. -/
theorem found?_kept (h : applyChars cs es = .ok out) (hmid : slice? cs p q = some mid) (hp : Clear es p) (hq : Clear es q)
    (hnone : es.filter (endsBetween p q) = []) : found? es out p q = some mid := by
  obtain ⟨x, y, rfl, rfl, rfl⟩ := slice?_eq_some hmid
  obtain ⟨mid', ds, hfound, hds, hmade⟩ := exists_window h hp hq
  rw [hnone, List.perm_nil] at hds
  subst hds
  rw [hfound, hmade.eq_of_nil]

/-- Where an edit is made, its text stands. -/
theorem found?_made (h : applyChars cs es = .ok out) (hmid : slice? cs e.span.start e.span.stop = some mid)
    (hstart : Clear es e.span.start) (hstop : Clear es e.span.stop)
    (hone : es.filter (endsBetween e.span.start e.span.stop) = [e]) :
    found? es out e.span.start e.span.stop = some e.newText.toList := by
  obtain ⟨x, y, rfl, hx, hx'⟩ := slice?_eq_some hmid
  rw [← hx] at hstart
  rw [← hx'] at hstop
  obtain ⟨mid', ds, hfound, hds, hmade⟩ := exists_window h hstart hstop
  rw [hx, hx'] at hfound hds
  rw [hone, List.perm_singleton] at hds
  subst hds
  rw [hfound, hmade.eq_of_singleton hx.symm (by rw [size_append, hx, Span.stop] at hx'; omega)]

theorem shift_zero (h : ∀ e ∈ es, 0 < e.span.stop) : shift es 0 = 0 := by
  rw [shift, List.filter_eq_nil_iff.2 fun e he => by simpa using Nat.ne_of_gt (h e he)]
  rfl

theorem shift_size (h : applyChars cs es = .ok out) (hfits : ∀ e ∈ es, e.span.Fits cs) : shift es (size cs) = size out := by
  have hmade := applyChars_eq_ok_iff.1 h
  have hall : (es.mergeSort before).filter (·.span.stop ≤ size cs) = es.mergeSort before :=
    List.filter_eq_self.2 fun e he => by simpa using le_size_of_isBoundary (hfits e (List.mem_mergeSort.1 he)).stop
  rw [← hall] at hmade
  exact (size_of_made hmade (List.mergeSort_perm es before) rfl).symm

end

end Workbench.Edit
