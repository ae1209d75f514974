import Workbench.Proofs.Preparing
import Workbench.Proofs.Registry
import Workbench.Service.Run

/-!
# Ends that are taken

The end of a span is a sum, and a word may be too small for it. A traced
computation gives its value and the spans whose ends it has taken on the way.
The calls that take a token are traced here, each step where the end of a span
is asked for; what they give is what they give without a trace.
-/

namespace Workbench

structure Traced (α : Type) where
  value : α
  ends : List Span

section
variable {α β : Type} {p : Span → Prop}

namespace Traced

instance : Monad Traced where
  pure a := ⟨a, []⟩
  bind x f := ⟨(f x.value).value, x.ends ++ (f x.value).ends⟩

def stopOf (s : Span) : Traced Nat := ⟨s.stop, [s]⟩

/-- All spans whose ends are taken satisfy `p`. -/
def Within (p : Span → Prop) (x : Traced α) : Prop := ∀ s ∈ x.ends, p s

@[simp] theorem value_pure (a : α) : (pure a : Traced α).value = a := rfl

@[simp] theorem value_bind (x : Traced α) (f : α → Traced β) : (x >>= f).value = (f x.value).value := rfl

@[simp] theorem value_stopOf (s : Span) : (stopOf s).value = s.stop := rfl

@[simp] theorem within_pure (a : α) : (pure a : Traced α).Within p := by simp [Within, pure]

@[simp] theorem within_bind (x : Traced α) (f : α → Traced β) :
    (x >>= f).Within p ↔ x.Within p ∧ (f x.value).Within p := by
  simp only [Within, bind, List.forall_mem_append]

@[simp] theorem within_stopOf (s : Span) : (stopOf s).Within p ↔ p s := by simp [Within, stopOf]

def filter (q : α → Traced Bool) : List α → Traced (List α)
  | [] => pure []
  | a :: as => do
    let keep ← q a
    let rest ← filter q as
    return if keep then a :: rest else rest

theorem value_filter (q : α → Traced Bool) (as : List α) : (filter q as).value = as.filter fun a => (q a).value := by
  induction as with
  | nil => rfl
  | cons a as ih => simp only [filter, value_bind, value_pure, ih, List.filter_cons]

theorem within_filter (q : α → Traced Bool) (as : List α) : (filter q as).Within p ↔ ∀ a ∈ as, (q a).Within p := by
  induction as with
  | nil => simp [filter]
  | cons a as ih => simp [filter, ih]

end Traced

/-! ## Tests and edits -/

open Traced

namespace Span

def intersectsTraced (s t : Span) : Traced Bool := do
  if s.isEmpty || t.isEmpty then
    if s.start ≤ (← stopOf t) then return t.start ≤ (← stopOf s) else return false
  else if s.start < (← stopOf t) then return t.start < (← stopOf s) else return false

theorem value_intersectsTraced (s t : Span) : (s.intersectsTraced t).value = s.intersects t := by
  unfold intersectsTraced intersects
  split
  · rw [value_bind, value_stopOf]
    by_cases h : s.start ≤ t.stop <;> simp only [h] <;> rfl
  · rw [value_bind, value_stopOf]
    by_cases h : s.start < t.stop <;> simp only [h] <;> rfl

/-- The end of the second span is always taken, that of the first at most. -/
theorem within_intersectsTraced {s t : Span} (hs : p s) : (s.intersectsTraced t).Within p ↔ p t := by
  unfold intersectsTraced
  split
  · rw [within_bind, within_stopOf, value_stopOf]
    split <;> simp [hs]
  · rw [within_bind, within_stopOf, value_stopOf]
    split <;> simp [hs]

end Span

namespace Edit

/-- Sorting takes the end of each edit, unless there is nothing to compare it with. -/
def sortTraced (es : List Edit) : Traced (List Edit) :=
  ⟨es.mergeSort before, if es.length < 2 then [] else es.map (·.span)⟩

def applyFromTraced (total cursor : Nat) (rest : List Char) : List Edit → Traced (Except BadInput (List Char))
  | [] => pure (.ok rest)
  | e :: es => do
    let stop ← stopOf e.span
    if e.span.start < cursor then return .error (.overlappingEdits e.span.start)
    else
      match Text.splitAt? rest (e.span.start - cursor) with
      | none => return .error (.editOutside e.span.start stop total)
      | some (kept, tail) =>
        match Text.splitAt? tail e.span.length with
        | none => return .error (.editOutside e.span.start stop total)
        | some (_, after) => return (← applyFromTraced total stop after es).map fun out => kept ++ e.newText.toList ++ out

def applyAllTraced (text : String) (es : List Edit) : Traced (Except BadInput String) := do
  let sorted ← sortTraced es
  return (← applyFromTraced (Text.size text.toList) 0 text.toList sorted).map .ofList

theorem value_applyFromTraced (total cursor : Nat) (rest : List Char) (es : List Edit) :
    (applyFromTraced total cursor rest es).value = applyFrom total cursor rest es := by
  induction es generalizing cursor rest with
  | nil => rfl
  | cons e es ih =>
    rw [applyFromTraced, applyFrom, value_bind, value_stopOf]
    by_cases hcursor : e.span.start < cursor
    · rw [if_pos hcursor, if_pos hcursor, value_pure]
    · rw [if_neg hcursor, if_neg hcursor]
      rcases Text.splitAt? rest (e.span.start - cursor) with _ | ⟨kept, tail⟩
      · rfl
      · dsimp only
        rcases Text.splitAt? tail e.span.length with _ | ⟨gone, after⟩
        · rfl
        · rw [value_bind, value_pure, ih]

theorem value_applyAllTraced (text : String) (es : List Edit) : (applyAllTraced text es).value = applyAll text es := by
  rw [applyAllTraced, value_bind, value_bind, value_pure, value_applyFromTraced]
  rfl

theorem within_applyFromTraced {es : List Edit} (h : ∀ e ∈ es, p e.span) (total cursor : Nat) (rest : List Char) :
    (applyFromTraced total cursor rest es).Within p := by
  induction es generalizing cursor rest with
  | nil => exact within_pure _
  | cons e es ih =>
    obtain ⟨he, hes⟩ := List.forall_mem_cons.1 h
    rw [applyFromTraced, within_bind, within_stopOf]
    refine ⟨he, ?_⟩
    split
    · exact within_pure _
    · split
      · exact within_pure _
      · split
        · exact within_pure _
        · exact (within_bind _ _).2 ⟨ih hes _ _, within_pure _⟩

theorem within_applyAllTraced {es : List Edit} (h : ∀ e ∈ es, p e.span) (text : String) :
    (applyAllTraced text es).Within p := by
  rw [applyAllTraced, within_bind, within_bind]
  refine ⟨fun s hs => ?_, within_applyFromTraced (fun e he => h e (List.mem_mergeSort.1 he)) _ _ _, within_pure _⟩
  unfold sortTraced at hs
  split at hs
  · cases hs
  · obtain ⟨e, he, rfl⟩ := List.mem_map.1 hs
    exact h e he

end Edit

/-! ## Results -/

abbrev TracedResult (α : Type) := ExceptT Fault Traced α

namespace TracedResult

def ofResult (r : Result α) : TracedResult α := ExceptT.mk (pure r)

def ofTraced (x : Traced α) : TracedResult α := ExceptT.lift x

def value (x : TracedResult α) : Result α := x.run.value

def Within (p : Span → Prop) (x : TracedResult α) : Prop := x.run.Within p

@[simp] theorem value_ofResult (r : Result α) : (ofResult r).value = r := rfl

@[simp] theorem within_ofResult (r : Result α) : (ofResult r).Within p := within_pure r

@[simp] theorem value_ofTraced (x : Traced α) : (ofTraced x).value = .ok x.value := rfl

@[simp] theorem within_ofTraced (x : Traced α) : (ofTraced x).Within p ↔ x.Within p := by
  have hbind : (ofTraced x).Within p ↔ x.Within p ∧ (pure (.ok x.value) : Traced (Result α)).Within p :=
    Traced.within_bind _ _
  rw [hbind]
  exact and_iff_left (Traced.within_pure _)

@[simp] theorem value_pure (a : α) : (pure a : TracedResult α).value = .ok a := rfl

@[simp] theorem within_pure (a : α) : (pure a : TracedResult α).Within p := Traced.within_pure _

@[simp] theorem value_throw (e : Fault) : (throw e : TracedResult α).value = .error e := rfl

@[simp] theorem within_throw (e : Fault) : (throw e : TracedResult α).Within p := Traced.within_pure _

@[simp] theorem value_bind (x : TracedResult α) (f : α → TracedResult β) :
    (x >>= f).value = x.value >>= fun a => (f a).value := by
  change (ExceptT.bindCont f x.run.value).value = _
  unfold value
  cases x.run.value <;> rfl

theorem within_bind (x : TracedResult α) (f : α → TracedResult β) :
    (x >>= f).Within p ↔ x.Within p ∧ ∀ a, x.value = .ok a → (f a).Within p := by
  have hbind : (x >>= f).Within p ↔ x.Within p ∧ (ExceptT.bindCont f x.value).Within p := Traced.within_bind _ _
  rw [hbind]
  refine and_congr_right fun _ => ?_
  cases x.value with
  | error e => simp [ExceptT.bindCont]
  | ok a => simp [ExceptT.bindCont, Within, ExceptT.run]

@[simp] theorem within_ofResult_bind (r : Result α) (f : α → TracedResult β) :
    (ofResult r >>= f).Within p ↔ ∀ a, r = .ok a → (f a).Within p := by
  rw [within_bind, and_iff_right (within_ofResult r), value_ofResult]

@[simp] theorem within_ofTraced_bind (x : Traced α) (f : α → TracedResult β) :
    (ofTraced x >>= f).Within p ↔ x.Within p ∧ (f x.value).Within p := by
  rw [within_bind, within_ofTraced, value_ofTraced]
  simp

end TracedResult

/-! ## Changes -/

namespace Snapshot

def withEditsTraced (s : Snapshot) (path : String) (edits : List Edit) : TracedResult Snapshot := do
  if edits.isEmpty then return s
  else
    match s.text? path with
    | none => throw (.invalidInput (.documentNotFound path))
    | some text =>
      match ← .ofTraced (Edit.applyAllTraced text edits) with
      | .error why => throw (.invalidInput why)
      | .ok updated => .ofResult (s.withText path updated)

theorem value_withEditsTraced (s : Snapshot) (path : String) (edits : List Edit) :
    (s.withEditsTraced path edits).value = s.withEdits path edits := by
  unfold withEditsTraced withEdits
  by_cases hempty : edits.isEmpty = true
  · rw [if_pos hempty, if_pos hempty]
    rfl
  · rw [if_neg hempty, if_neg hempty]
    cases s.text? path with
    | none => rfl
    | some text =>
      dsimp only
      rw [← Edit.value_applyAllTraced, TracedResult.value_bind, TracedResult.value_ofTraced]
      change TracedResult.value (match (Edit.applyAllTraced text edits).value with
        | .error why => (throw (.invalidInput why) : TracedResult Snapshot)
        | .ok updated => .ofResult (s.withText path updated)) = _
      cases (Edit.applyAllTraced text edits).value <;> rfl

theorem within_withEditsTraced {edits : List Edit} (h : ∀ e ∈ edits, p e.span) (s : Snapshot) (path : String) :
    (s.withEditsTraced path edits).Within p := by
  unfold withEditsTraced
  split
  · exact TracedResult.within_pure s
  · split
    · exact TracedResult.within_throw _
    · refine (TracedResult.within_bind _ _).2 ⟨(TracedResult.within_ofTraced _).2 (Edit.within_applyAllTraced h _), ?_⟩
      intro r _
      split
      · exact TracedResult.within_throw _
      · exact TracedResult.within_ofResult _

end Snapshot

namespace CodeAction

def applyEditsTraced (s : Snapshot) : List DocumentEdit → TracedResult Snapshot
  | [] => return s
  | d :: rest => do applyEditsTraced (← s.withEditsTraced d.path d.edits) rest

def applyTraced (a : CodeAction) (s : Snapshot) : TracedResult Snapshot := applyEditsTraced s a.edits

theorem value_applyTraced (a : CodeAction) (s : Snapshot) : (a.applyTraced s).value = a.apply s := by
  unfold applyTraced apply
  induction a.edits generalizing s with
  | nil => rfl
  | cons d rest ih =>
    rw [applyEditsTraced, applyEdits, TracedResult.value_bind, Snapshot.value_withEditsTraced]
    cases s.withEdits d.path d.edits with
    | error e => rfl
    | ok next => exact ih next

theorem within_applyTraced {a : CodeAction} (h : ∀ d ∈ a.edits, ∀ e ∈ d.edits, p e.span) (s : Snapshot) :
    (a.applyTraced s).Within p := by
  unfold applyTraced
  generalize a.edits = ds at h
  induction ds generalizing s with
  | nil => exact TracedResult.within_pure s
  | cons d rest ih =>
    obtain ⟨hd, hrest⟩ := List.forall_mem_cons.1 h
    exact (TracedResult.within_bind _ _).2 ⟨Snapshot.within_withEditsTraced hd _ _, fun next _ => ih next hrest⟩

end CodeAction

/-! ## Syntax trees -/

namespace CSharp

namespace Node

def coversTraced (s : Span) (n : Node) : Traced Bool := do
  if n.start ≤ s.start then return (← stopOf s) ≤ n.stop else return false

mutual

def walkTraced (enter : Node → Traced Bool) (around : List Node) : Node → Traced (List Focus)
  | mk k r a b t cs => do
    if ← enter (mk k r a b t cs) then
      return ⟨mk k r a b t cs, around⟩ :: (← walkAllTraced enter (mk k r a b t cs :: around) cs)
    else return [⟨mk k r a b t cs, around⟩]

def walkAllTraced (enter : Node → Traced Bool) (around : List Node) : List Node → Traced (List Focus)
  | [] => return []
  | n :: rest => do
    if n.isNamed then return (← walkTraced enter around n) ++ (← walkAllTraced enter around rest)
    else walkAllTraced enter around rest

end

/-- What reaches over the span is told once for each node that the walk comes to. -/
def coveringTraced (root : Node) (s : Span) (ks : List Kind) : Traced (Option Node) := do
  let foci ← root.walkTraced (coversTraced s) []
  return ((foci.map (·.node)).filter fun n => covers s n && ks.contains n.kind).getLast?

theorem value_coversTraced (s : Span) (n : Node) : (coversTraced s n).value = covers s n := by
  unfold coversTraced covers
  by_cases h : n.start ≤ s.start <;> simp only [h] <;> rfl

theorem within_coversTraced {s : Span} (h : p s) (n : Node) : (coversTraced s n).Within p := by
  unfold coversTraced
  split <;> simp [h]

section
variable {enter : Node → Traced Bool}

mutual

theorem value_walkTraced (around : List Node) : ∀ n : Node,
    (walkTraced enter around n).value = walk (fun m => (enter m).value) around n
  | mk k r a b t cs => by
    rw [walkTraced, walk, value_bind]
    by_cases h : (enter (mk k r a b t cs)).value = true
    · rw [if_pos h, if_pos h, value_bind, value_pure, value_walkAllTraced]
    · rw [if_neg h, if_neg h, value_pure]

theorem value_walkAllTraced (around : List Node) : ∀ ns : List Node,
    (walkAllTraced enter around ns).value = walkAll (fun m => (enter m).value) around ns
  | [] => rfl
  | n :: rest => by
    rw [walkAllTraced, walkAll]
    by_cases h : n.isNamed = true
    · rw [if_pos h, if_pos h, value_bind, value_bind, value_pure, value_walkTraced, value_walkAllTraced]
    · rw [if_neg h, if_neg h, value_walkAllTraced, List.nil_append]

end

mutual

theorem within_walkTraced (h : ∀ m, (enter m).Within p) (around : List Node) :
    ∀ n : Node, (walkTraced enter around n).Within p
  | mk k r a b t cs => by
    rw [walkTraced, within_bind]
    refine ⟨h _, ?_⟩
    split
    · exact (within_bind _ _).2 ⟨within_walkAllTraced h _ cs, within_pure _⟩
    · exact within_pure _

theorem within_walkAllTraced (h : ∀ m, (enter m).Within p) (around : List Node) :
    ∀ ns : List Node, (walkAllTraced enter around ns).Within p
  | [] => within_pure _
  | n :: rest => by
    rw [walkAllTraced]
    split
    · rw [within_bind, within_bind]
      exact ⟨within_walkTraced h around n, within_walkAllTraced h around rest, within_pure _⟩
    · exact within_walkAllTraced h around rest

end

end

theorem value_coveringTraced (root : Node) (s : Span) (ks : List Kind) :
    (root.coveringTraced s ks).value = root.covering? s ks := by
  rw [coveringTraced, value_bind, value_pure, value_walkTraced]
  simp only [value_coversTraced]
  rfl

theorem within_coveringTraced {s : Span} (h : p s) (root : Node) (ks : List Kind) :
    (root.coveringTraced s ks).Within p := by
  rw [coveringTraced, within_bind]
  exact ⟨within_walkTraced (within_coversTraced h) [] root, within_pure _⟩

end Node

end CSharp

end

end Workbench
