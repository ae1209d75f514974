import Mathlib.Data.List.Induction
import Workbench.CSharp.Tree
import Workbench.CSharp.Model
import Workbench.Cleanup.Rule
import Workbench.Proofs.Editing
import Workbench.Proofs.Sorting
import Workbench.Proofs.Splicing

/-!
# Fixes that apply together

A pass takes the least fix that is offered for a diagnostic, all of it, unless
it overlaps a fix taken for an earlier one. Fixes that can be made one at a
time can then be made together, so that no pass fails over a conflict.
-/

namespace Workbench

/-! ## Edits that a document takes -/

namespace Snapshot

/-- No edits, or edits of a document that there is, each in its text and any two apart. -/
def Takes (s : Snapshot) (path : String) (es : List Edit) : Prop :=
  es = [] ∨ ∃ text, s.text? path = some text ∧ (∀ e ∈ es, e.span.Fits text.toList) ∧ es.Pairwise Edit.Apart

section
variable {s next : Snapshot} {path : String} {es ds : List Edit}

theorem withEdits_isOk_iff : (∃ next, s.withEdits path es = .ok next) ↔ s.Takes path es := by
  constructor
  · rintro ⟨next, h⟩
    by_cases hes : es = []
    · exact .inl hes
    · obtain ⟨old, new, hold, hnew, -⟩ := withEdits_ok h hes
      exact .inr ⟨old, hold, Edit.applyChars_isOk_iff.1 ⟨_, Edit.applyAll_eq_ok_iff.1 hnew⟩⟩
  · rintro (rfl | ⟨text, htext, hes⟩)
    · exact ⟨s, rfl⟩
    · obtain ⟨out, hout⟩ := Edit.applyChars_isOk_iff.2 hes
      have hall : Edit.applyAll text es = .ok (.ofList out) :=
        Edit.applyAll_eq_ok_iff.2 (by rw [hout, String.toList_ofList])
      exact exists_withEdits htext hall

theorem withEdits_text? {p : String} (h : s.withEdits path es = .ok next) (hp : p ≠ path) :
    next.text? p = s.text? p := by
  by_cases hes : es = []
  · subst hes
    cases h
    rfl
  · obtain ⟨old, new, -, -, -, htexts⟩ := withEdits_ok h hes
    rw [htexts, if_neg hp]

theorem Takes.congr (h : next.text? path = s.text? path) : next.Takes path es ↔ s.Takes path es := by
  rw [Takes, Takes, h]

/-- Edits that are apart from those taken can be taken with them. -/
theorem Takes.append (h : s.Takes path es) (h' : s.Takes path ds)
    (hapart : ∀ e ∈ es, ∀ d ∈ ds, Edit.Apart e d) : s.Takes path (es ++ ds) := by
  rcases h with rfl | ⟨text, htext, hfits, hes⟩
  · exact h'
  · rcases h' with rfl | ⟨text', htext', hfits', hds⟩
    · rw [List.append_nil]
      exact .inr ⟨text, htext, hfits, hes⟩
    · obtain rfl : text = text' := Option.some.inj (htext.symm.trans htext')
      exact .inr ⟨text, htext, List.forall_mem_append.2 ⟨hfits, hfits'⟩, List.pairwise_append.2 ⟨hes, hds, hapart⟩⟩

end

end Snapshot

namespace CodeAction

section
variable {s : Snapshot} {ds : List DocumentEdit} {a b : CodeAction} {path : String} {e : Edit}

/-- Edits of different documents do not get in each other's way. -/
theorem applyEdits_isOk_iff (h : (ds.map (·.path)).Nodup) :
    (∃ next, applyEdits s ds = .ok next) ↔ ∀ d ∈ ds, s.Takes d.path d.edits := by
  induction ds generalizing s with
  | nil => exact iff_of_true ⟨s, rfl⟩ (List.forall_mem_nil _)
  | cons d rest ih =>
    obtain ⟨hother, hrest⟩ := List.nodup_cons.1 h
    rw [List.forall_mem_cons, ← Snapshot.withEdits_isOk_iff]
    have hlater : ∀ mid, s.withEdits d.path d.edits = .ok mid →
        ((∃ next, applyEdits mid rest = .ok next) ↔ ∀ d ∈ rest, s.Takes d.path d.edits) := by
      intro mid hmid
      rw [ih hrest]
      refine forall₂_congr fun d' hd' => Snapshot.Takes.congr (Snapshot.withEdits_text? hmid fun he => hother ?_)
      exact List.mem_map.2 ⟨d', hd', he⟩
    cases hmid : s.withEdits d.path d.edits with
    | error why => simp [applyEdits, hmid]
    | ok mid => simpa [applyEdits, hmid] using hlater mid hmid

/-- What the action does to a document. -/
def editsAt (a : CodeAction) (path : String) : List Edit := (a.edits.filter (·.path = path)).flatMap (·.edits)

theorem mem_editsAt : e ∈ a.editsAt path ↔ ∃ d ∈ a.edits, d.path = path ∧ e ∈ d.edits := by
  simp [editsAt, and_assoc]

/-- The action can be made, and names no document twice. -/
structure Applies (a : CodeAction) (s : Snapshot) : Prop where
  once : (a.edits.map (·.path)).Nodup
  made : ∃ next, a.apply s = .ok next

theorem Applies.takes (h : a.Applies s) (path : String) : s.Takes path (a.editsAt path) := by
  have hall := (applyEdits_isOk_iff h.once).1 h.made
  have honce := h.once
  rw [editsAt]
  generalize a.edits = ds at hall honce
  induction ds with
  | nil => exact .inl rfl
  | cons d rest ih =>
    obtain ⟨hother, honce⟩ := List.nodup_cons.1 honce
    obtain ⟨hd, hall⟩ := List.forall_mem_cons.1 hall
    by_cases hp : d.path = path
    · have hnone : rest.filter (·.path = path) = [] := by
        refine List.filter_eq_nil_iff.2 fun d' hd' he => hother (List.mem_map.2 ⟨d', hd', ?_⟩)
        exact (of_decide_eq_true he).trans hp.symm
      rw [List.filter_cons_of_pos (by simpa using hp), hnone, List.flatMap_singleton, ← hp]
      exact hd
    · rw [List.filter_cons_of_neg (by simpa using hp)]
      exact ih hall honce

/-- Two actions have edits of one document that are not apart. -/
def Overlaps (a b : CodeAction) : Prop := ∃ path, ∃ d ∈ a.editsAt path, ∃ e ∈ b.editsAt path, ¬ Edit.Apart d e

end

end CodeAction

namespace Cleanup

/-! ## The least candidate -/

/-- The order of candidates. -/
def candidateOrder : String × CodeAction → String × CodeAction → Ordering :=
  compareLex (compareLex (compareOn fun c => c.1) (compareOn fun c => c.2.title)) (compareOn fun c => c.2.equivalenceKey)

instance transCmp_candidateOrder : Std.TransCmp candidateOrder :=
  inferInstanceAs <| Std.TransCmp <| compareLex (compareLex (compareOn fun c : String × CodeAction => c.1)
    (compareOn fun c => c.2.title)) (compareOn fun c => c.2.equivalenceKey)

theorem preferred_eq : preferred = fun a b => (candidateOrder a b).isLE := rfl

theorem preferred_total (a b : String × CodeAction) : (preferred a b || preferred b a) = true := by
  rw [preferred_eq]
  exact Ordered.total_isLE a b

theorem preferred_trans (a b c : String × CodeAction) (hab : preferred a b = true) (hbc : preferred b c = true) :
    preferred a c = true := by
  rw [preferred_eq] at hab hbc ⊢
  exact Std.TransCmp.isLE_trans hab hbc

/-- The fix of the first candidate that no other comes before. -/
def IsLeast (cs : List (String × CodeAction)) (fix : CodeAction) : Prop :=
  ∃ provider earlier later, cs = earlier ++ (provider, fix) :: later ∧
    (∀ c ∈ earlier, preferred c (provider, fix) = false) ∧ ∀ c ∈ later, preferred (provider, fix) c = true

theorem exists_least {c : String × CodeAction} {cs : List (String × CodeAction)}
    (h : (cs.mergeSort preferred).head? = some c) : ∃ earlier later, cs = earlier ++ c :: later ∧ (∀ b ∈ earlier, preferred b c = false) ∧
      ∀ b ∈ later, preferred c b = true := by
  induction cs generalizing c with
  | nil => simp at h
  | cons a rest ih =>
    -- The first of the candidates is put in behind those that come before it.
    obtain ⟨front, back, hsorted, hrest, hfront⟩ := List.mergeSort_cons preferred_trans preferred_total a rest
    rw [hsorted] at h
    cases front with
    | nil =>
      obtain rfl : a = c := Option.some.inj h
      refine ⟨[], rest, rfl, List.forall_mem_nil _, fun b hb => ?_⟩
      have hpairs := List.pairwise_mergeSort preferred_trans preferred_total (a :: rest)
      rw [hsorted, List.nil_append, List.pairwise_cons] at hpairs
      refine hpairs.1 b ?_
      rw [← List.nil_append back, ← hrest]
      exact List.mem_mergeSort.2 hb
    | cons b front =>
      obtain rfl : b = c := Option.some.inj h
      obtain ⟨earlier, later, rfl, hearlier, hlater⟩ := ih (by rw [hrest]; rfl)
      refine ⟨a :: earlier, later, rfl, List.forall_mem_cons.2 ⟨?_, hearlier⟩, hlater⟩
      simpa using hfront b List.mem_cons_self

section
variable {r : Registry} {s : Snapshot} {d : Diagnostic} {fix : CodeAction}

theorem isLeast_of_best? (h : best? r s d = some fix) : IsLeast (candidates r s d) fix := by
  obtain ⟨⟨provider, fix'⟩, hhead, rfl⟩ := Option.map_eq_some_iff.1 h
  exact ⟨provider, exists_least hhead⟩

theorem IsLeast.mem {cs : List (String × CodeAction)} (h : IsLeast cs fix) : ∃ c ∈ cs, c.2 = fix := by
  obtain ⟨provider, earlier, later, rfl, -⟩ := h
  exact ⟨(provider, fix), by simp, rfl⟩

theorem best?_eq_none (h : best? r s d = none) : candidates r s d = [] := by
  rw [best?, Option.map_eq_none_iff, List.head?_eq_none_iff] at h
  have hlength : ((candidates r s d).mergeSort preferred).length = (candidates r s d).length := List.length_mergeSort _
  rw [← List.length_eq_zero_iff, ← hlength, h, List.length_nil]

end

/-! ## Verdicts -/

/-- What becomes of a diagnostic for which there is a candidate. -/
structure Verdict where
  diagnostic : Diagnostic
  fix : CodeAction
  isTaken : Bool

/-- All that the fixes taken do to a document, in their order. -/
def takenAt (vs : List Verdict) (path : String) : List Edit := (vs.filter (·.isTaken)).flatMap (·.fix.editsAt path)

/-- Diagnostics and what becomes of them: the least candidate is taken unless it overlaps one taken before. -/
inductive Judged (r : Registry) (s : Snapshot) : List Diagnostic → List Verdict → Prop
  | none : Judged r s [] []
  | passed {ds : List Diagnostic} {vs : List Verdict} {d : Diagnostic} (before : Judged r s ds vs)
      (candidates : candidates r s d = []) : Judged r s (ds ++ [d]) vs
  | judged {ds : List Diagnostic} {vs : List Verdict} {d : Diagnostic} {fix : CodeAction} {isTaken : Bool}
      (before : Judged r s ds vs) (least : IsLeast (Cleanup.candidates r s d) fix)
      (taken : isTaken = true ↔ ∀ v ∈ vs, v.isTaken = true → ¬ v.fix.Overlaps fix) :
      Judged r s (ds ++ [d]) (vs ++ [⟨d, fix, isTaken⟩])

section
variable {r : Registry} {s : Snapshot} {d : Diagnostic} {fix : CodeAction} {isTaken : Bool} {ds : List Diagnostic}
  {vs : List Verdict} {chosen : List DocumentEdit} {path : String} {es : List DocumentEdit}

theorem takenAt_append : takenAt (vs ++ [⟨d, fix, isTaken⟩]) path =
    takenAt vs path ++ if isTaken then fix.editsAt path else [] := by
  cases isTaken <;> simp [takenAt]

theorem mem_takenAt {e : Edit} : e ∈ takenAt vs path ↔ ∃ v ∈ vs, v.isTaken = true ∧ e ∈ v.fix.editsAt path := by
  simp [takenAt, and_assoc]

theorem chosenFor_add (d : DocumentEdit) : chosenFor (add chosen d) path =
    chosenFor chosen path ++ if d.path = path then d.edits else [] := by
  rw [chosenFor, add, Ordered.find?_put]
  by_cases hp : d.path = path
  · rw [if_pos hp, if_pos hp, ← hp]
    rfl
  · rw [if_neg hp, if_neg hp, List.append_nil]
    rfl

theorem chosenFor_foldl_add : chosenFor (es.foldl add chosen) path =
    chosenFor chosen path ++ (es.filter (·.path = path)).flatMap (·.edits) := by
  induction es generalizing chosen with
  | nil => simp
  | cons d rest ih =>
    rw [List.foldl_cons, ih, chosenFor_add, List.filter_cons, List.append_assoc]
    by_cases hp : d.path = path <;> simp [hp]

theorem mem_paths_add {d : DocumentEdit} :
    path ∈ (add chosen d).map (·.path) ↔ path ∈ chosen.map (·.path) ∨ path = d.path := by
  have hfound : ∀ xs : List DocumentEdit,
      path ∈ xs.map (·.path) ↔ (Ordered.find? DocumentEdit.path path xs).isSome := by
    intro xs
    rw [Ordered.find?, List.find?_isSome, List.mem_map]
    simp only [beq_iff_eq]
  rw [hfound, hfound, add, Ordered.find?_put]
  by_cases hp : d.path = path
  · rw [if_pos hp]
    exact iff_of_true rfl (.inr hp.symm)
  · rw [if_neg hp]
    exact ⟨.inl, fun h => h.resolve_right fun he => hp he.symm⟩

theorem mem_paths_foldl_add : path ∈ (es.foldl add chosen).map (·.path) ↔
    path ∈ chosen.map (·.path) ∨ path ∈ es.map (·.path) := by
  induction es generalizing chosen with
  | nil => simp
  | cons d rest ih => rw [List.foldl_cons, ih, mem_paths_add, List.map_cons, List.mem_cons, or_assoc]

theorem ascending_foldl_add (h : Ordered.Ascending DocumentEdit.path chosen) :
    Ordered.Ascending DocumentEdit.path (es.foldl add chosen) := by
  induction es generalizing chosen with
  | nil => exact h
  | cons d rest ih => exact ih (h.put _)

/-- The edits chosen by document are those of the fixes taken. -/
structure Tracks (chosen : List DocumentEdit) (vs : List Verdict) : Prop where
  ascending : Ordered.Ascending DocumentEdit.path chosen
  edits : ∀ path, chosenFor chosen path = takenAt vs path
  paths : ∀ path, path ∈ chosen.map (·.path) ↔ ∃ v ∈ vs, v.isTaken = true ∧ path ∈ v.fix.edits.map (·.path)

theorem Tracks.edits_of_mem (h : Tracks chosen vs) {c : DocumentEdit} (hc : c ∈ chosen) :
    c.edits = takenAt vs c.path := by
  rw [← h.edits, chosenFor, Ordered.find?_of_mem h.ascending hc]
  rfl

theorem fitsIn_iff (h : Tracks chosen vs) :
    fitsIn chosen fix = true ↔ ∀ v ∈ vs, v.isTaken = true → ¬ v.fix.Overlaps fix := by
  have hfits : fitsIn chosen fix = true ↔
      ∀ d ∈ fix.edits, ∀ x ∈ takenAt vs d.path, ∀ y ∈ d.edits, Edit.Apart x y := by
    simp only [fitsIn, Edit.disjoint, List.all_eq_true, h.edits, Bool.or_eq_true, decide_eq_true_eq, Edit.Apart]
  rw [hfits]
  constructor
  · rintro h v hv htaken ⟨path, x, hx, y, hy, hoverlap⟩
    obtain ⟨d, hd, rfl, hyd⟩ := CodeAction.mem_editsAt.1 hy
    exact hoverlap (h d hd x (mem_takenAt.2 ⟨v, hv, htaken, hx⟩) y hyd)
  · intro h d hd x hx y hy
    obtain ⟨v, hv, htaken, hx⟩ := mem_takenAt.1 hx
    by_contra hoverlap
    exact h v hv htaken ⟨d.path, x, hx, y, CodeAction.mem_editsAt.2 ⟨d, hd, rfl, hy⟩, hoverlap⟩

/-- One more diagnostic. -/
theorem Tracks.choose (h : Tracks chosen vs) (hjudged : Judged r s ds vs) :
    ∃ vs', Judged r s (ds ++ [d]) vs' ∧ Tracks (choose r s chosen d) vs' := by
  unfold Cleanup.choose
  cases hbest : best? r s d with
  | none => exact ⟨vs, .passed hjudged (best?_eq_none hbest), h⟩
  | some fix =>
    refine ⟨vs ++ [⟨d, fix, fitsIn chosen fix⟩], .judged hjudged (isLeast_of_best? hbest) (fitsIn_iff h), ?_⟩
    dsimp only
    cases fitsIn chosen fix with
    | false =>
      refine ⟨h.ascending, fun path => ?_, fun path => ?_⟩
      · rw [takenAt_append]
        simpa using h.edits path
      · simpa using h.paths path
    | true =>
      refine ⟨ascending_foldl_add h.ascending, fun path => ?_, fun path => ?_⟩
      · rw [if_pos rfl, chosenFor_foldl_add, takenAt_append, h.edits]
        rfl
      · rw [if_pos rfl, mem_paths_foldl_add, h.paths]
        simp [or_and_right, exists_or]

/-- All diagnostics, one after another. -/
theorem exists_judged (ds : List Diagnostic) : ∃ vs, Judged r s ds vs ∧ Tracks (ds.foldl (choose r s) []) vs := by
  induction ds using List.reverseRecOn with
  | nil => exact ⟨[], .none, Ordered.ascending_nil _, fun _ => rfl, by simp⟩
  | append_singleton ds d ih =>
    obtain ⟨vs, hjudged, htracks⟩ := ih
    rw [List.foldl_append]
    exact htracks.choose hjudged

/-- Fixes that apply, each apart from those taken before, apply together. -/
theorem Judged.takes (h : Judged r s ds vs) (hfixes : ∀ d ∈ ds, ∀ c ∈ candidates r s d, c.2.Applies s)
    (path : String) : s.Takes path (takenAt vs path) := by
  induction h with
  | none => exact .inl rfl
  | passed _ _ ih => exact ih fun d hd => hfixes d (List.mem_append_left _ hd)
  | @judged ds vs d fix isTaken _ hleast htaken ih =>
    have hbefore := ih fun d hd => hfixes d (List.mem_append_left _ hd)
    rw [takenAt_append]
    cases isTaken with
    | false => simpa using hbefore
    | true =>
      obtain ⟨c, hc, rfl⟩ := hleast.mem
      refine hbefore.append ((hfixes d (by simp) c hc).takes path) fun x hx y hy => ?_
      obtain ⟨v, hv, hvtaken, hx⟩ := mem_takenAt.1 hx
      by_contra hoverlap
      exact htaken.1 rfl v hv hvtaken ⟨path, x, hx, y, hy, hoverlap⟩

end

/-! ## A pass -/

/-- A pass takes fixes whole or not at all, and those it takes can be made together. -/
theorem pass_whole {m : CodeModel} {s : Snapshot} {path : String} {ids : List String} {r : Registry} {ds : List Diagnostic}
    (hr : m.registry = .ok r) (hds : (m.view s).diagnostics path = .ok ds)
    (hfixes : ∀ d ∈ ds, d.id ∈ ids → ∀ c ∈ candidates r s d, c.2.Applies s) :
    ∃ chosen vs, chooseFixes m s path ids = .ok chosen ∧ Judged r s (ds.filter fun d => ids.contains d.id) vs ∧
      (∀ c ∈ chosen, c.edits = takenAt vs c.path ∧ ∃ next, s.withEdits c.path c.edits = .ok next) ∧
      (∀ p, p ∈ chosen.map (·.path) ↔ ∃ v ∈ vs, v.isTaken = true ∧ p ∈ v.fix.edits.map (·.path)) ∧
      ∃ next, pass m s path ids = .ok next := by
  obtain ⟨vs, hjudged, htracks⟩ := exists_judged (r := r) (s := s) (ds.filter fun d => ids.contains d.id)
  have hchosen : chooseFixes m s path ids = .ok ((ds.filter fun d => ids.contains d.id).foldl (choose r s) []) := by
    unfold chooseFixes
    rw [hr, hds]
    rfl
  generalize (ds.filter fun d => ids.contains d.id).foldl (choose r s) [] = chosen at htracks hchosen
  have htakes : ∀ c ∈ chosen, s.Takes c.path c.edits := by
    intro c hc
    rw [htracks.edits_of_mem hc]
    refine hjudged.takes (fun d hd => ?_) c.path
    obtain ⟨hd, hid⟩ := List.mem_filter.1 hd
    exact hfixes d hd (by simpa using hid)
  obtain ⟨next, hnext⟩ := (CodeAction.applyEdits_isOk_iff htracks.ascending.nodup).2 htakes
  have hedits : ∀ c ∈ chosen, c.edits = takenAt vs c.path ∧ ∃ next, s.withEdits c.path c.edits = .ok next :=
    fun c hc => ⟨htracks.edits_of_mem hc, Snapshot.withEdits_isOk_iff.2 (htakes c hc)⟩
  refine ⟨chosen, vs, hchosen, hjudged, hedits, htracks.paths, ?_⟩
  unfold pass
  rw [hchosen]
  cases hempty : chosen.isEmpty with
  | true => exact ⟨none, by simp [hempty, bind, Except.bind, pure, Except.pure]⟩
  | false => simp [hempty, hnext, bind, Except.bind, pure, Except.pure]

/-- Takes the span of a diagnostic out of one document and leaves a mark in another. -/
def marking : FixProvider where
  typeName := "Marking"
  fixable := ["X1"]
  provide _ d := .ok [⟨"Mark", "mark", [⟨"b.cs", [.insert d.span.start "-"]⟩, ⟨"a.cs", [.delete d.span]⟩]⟩]

/-- Of three diagnostics the second overlaps the first, and the third touches it. -/
def crowding : List Diagnostic :=
  [⟨0, 2⟩, ⟨1, 2⟩, ⟨2, 0⟩].map fun span => ⟨"X1", "crowded", .info, .ofSpan "a.cs" "abcdef".toList span⟩

def crowdedModel : CodeModel where
  view s := { CSharp.view CSharp.parse s with diagnostics := fun _ => .ok crowding }
  registry := .ok ⟨[marking], []⟩

def crowded : Snapshot := (Snapshot.empty.addDocument "App" "a.cs" "abcdef" none).addDocument "App" "b.cs" "xyz" none

theorem pass_whole_crowded : (∀ d ∈ crowding, d.id ∈ ["X1"] → ∀ c ∈ candidates ⟨[marking], []⟩ crowded d, c.2.Applies crowded) ∧
    ∃ vs, Judged ⟨[marking], []⟩ crowded crowding vs ∧
      chooseFixes crowdedModel crowded "a.cs" ["X1"] = .ok [⟨"a.cs", takenAt vs "a.cs"⟩, ⟨"b.cs", takenAt vs "b.cs"⟩] ∧
      takenAt vs "a.cs" = [.delete ⟨0, 2⟩, .delete ⟨2, 0⟩] ∧ takenAt vs "b.cs" = [.insert 0 "-", .insert 2 "-"] ∧
      ∃ next, pass crowdedModel crowded "a.cs" ["X1"] = .ok next := by
  have hfixes : ∀ d ∈ crowding, d.id ∈ ["X1"] → ∀ c ∈ candidates ⟨[marking], []⟩ crowded d, c.2.Applies crowded := by
    have hall : ∀ d ∈ crowding, ∀ c ∈ candidates ⟨[marking], []⟩ crowded d,
        (c.2.edits.map (·.path)).Nodup ∧ (c.2.apply crowded).toOption.isSome := by
      decide +kernel
    intro d hd _ c hc
    obtain ⟨honce, hmade⟩ := hall d hd c hc
    refine ⟨honce, ?_⟩
    cases h : c.2.apply crowded with
    | ok next => exact ⟨next, rfl⟩
    | error why => simp [h, Except.toOption] at hmade
  refine ⟨hfixes, ?_⟩
  have hregistry : crowdedModel.registry = .ok ⟨[marking], []⟩ := rfl
  have hdiagnostics : (crowdedModel.view crowded).diagnostics "a.cs" = .ok crowding := rfl
  obtain ⟨chosen, vs, hchosen, hjudged, hedits, -, hpass⟩ := pass_whole hregistry hdiagnostics hfixes
  have heval : chooseFixes crowdedModel crowded "a.cs" ["X1"] =
      .ok [⟨"a.cs", [.delete ⟨0, 2⟩, .delete ⟨2, 0⟩]⟩, ⟨"b.cs", [.insert 0 "-", .insert 2 "-"]⟩] := by
    have hsome : (chooseFixes crowdedModel crowded "a.cs" ["X1"]).toOption =
        some [⟨"a.cs", [.delete ⟨0, 2⟩, .delete ⟨2, 0⟩]⟩, ⟨"b.cs", [.insert 0 "-", .insert 2 "-"]⟩] := by
      decide +kernel
    generalize chooseFixes crowdedModel crowded "a.cs" ["X1"] = result at hsome
    cases result with
    | error why => cases hsome
    | ok chosen => exact congrArg Except.ok (Option.some.inj hsome)
  cases heval.symm.trans hchosen
  have ha := (hedits _ List.mem_cons_self).1
  have hb := (hedits ⟨"b.cs", [.insert 0 "-", .insert 2 "-"]⟩ (by simp)).1
  refine ⟨vs, hjudged, ?_, ha.symm, hb.symm, hpass⟩
  rw [heval, ← ha, ← hb]

end Cleanup

end Workbench
