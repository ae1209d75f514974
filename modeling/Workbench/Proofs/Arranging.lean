import Workbench.Proofs.Listing
import Workbench.Proofs.Repeating

/-!
# Arranged modifiers

The order that the fix for modifiers writes is their order by rank, in which
nothing is left to report. A field whose modifiers are in that order keeps
them so when it gets `readonly`. So making fields readonly reports modifiers
of no declaration whose modifiers were not reported before.
-/

namespace Workbench.CSharp

/-! ## The order that is written -/

namespace Modifier

/-- The same modifiers by rank. Those of one rank stay in their order. -/
structure Arranged (ms ordered : List String) : Prop where
  perm : ordered.Perm ms
  ranks : ordered.Pairwise fun a b => rank a ≤ rank b
  stable : ∀ r, ordered.filter (rank · == r) = ms.filter (rank · == r)

theorem arranged_sort (ms : List String) : Arranged ms (sort ms) where
  perm := List.mergeSort_perm ms _
  ranks := pairwise_mergeSort id ms
  stable r := by
    refine Ordered.filter_mergeSort (fun a b c hab hbc => ?_) (fun a b => ?_) (fun a b ha hb => ?_) ms
    · simp only [decide_eq_true_eq] at hab hbc ⊢
      exact hab.trans hbc
    · simp only [Bool.or_eq_true, decide_eq_true_eq]
      exact Nat.le_total _ _
    · simp_all

/-- Modifiers that are spelled in order are not reported. -/
theorem Arranged.misordered?_eq_none {ms ordered : List String} (h : Arranged ms ordered) {f : SourceFile} {ns : List Node}
    (hns : ns.map f.text = ordered) : misordered? f ns = none :=
  misordered?_eq_none_iff.2 fun _ => hns ▸ h.ranks

end Modifier

section
variable {read : Parser} {s : Snapshot} {path : String} {f : SourceFile} {d : Diagnostic} {n : Node} {sp : Span}

/-- What the fix for modifiers writes is the order of the modifiers that it finds. -/
theorem modifierSorting?_eq_some {es : List Edit} (h : modifierSorting? f d = some es) :
    ∃ n ∈ f.root.descendants, Modifier.range? n.modifiers = some d.span ∧
      es = [⟨d.span, " ".intercalate (Modifier.sort (n.modifiers.map f.text))⟩] := by
  obtain ⟨sp, hsp, rfl⟩ := Option.map_eq_some_iff.1 h
  rw [modifiersAt] at hsp ⊢
  cases hlast : (((f.root.walk (fun n => !modifiersFill d.span n) []).map (·.node)).filter (modifiersFill d.span)).getLast? with
  | none =>
    rw [hlast] at hsp
    cases hsp
  | some n =>
    obtain ⟨hwalk, hfill⟩ := List.mem_filter.1 (List.mem_of_getLast? hlast)
    exact ⟨n, Node.mem_descendants_of_mem_walk hwalk, beq_iff_eq.1 hfill, rfl⟩

theorem mem_provide_orderModifiers {fixes : List CodeAction} (h : (orderModifiers read).provide s d = .ok fixes)
    {fix : CodeAction} (hfix : fix ∈ fixes) : ∃ f, sourceFile read s d.path = .ok f ∧
      ∃ n ∈ f.root.descendants, Modifier.range? n.modifiers = some d.span ∧ fix = .single "Order modifiers" "OrderModifiers"
        d.path [⟨d.span, " ".intercalate (Modifier.sort (n.modifiers.map f.text))⟩] := by
  obtain ⟨f, es, hf, hes, -, rfl⟩ := mem_provide_fix h hfix
  obtain ⟨n, hn, hrange, rfl⟩ := modifierSorting?_eq_some hes
  exact ⟨f, hf, n, hn, hrange, rfl⟩

/-- There is a fix for all modifiers that are reported. -/
theorem exists_provide_orderModifiers (hfile : sourceFile read s path = .ok f) (hf : f.Sound)
    (hsp : sp ∈ Modifier.misorderedRanges f) :
    ∃ fix, (orderModifiers read).provide s (modifierDiagnostic f sp) = .ok [fix] := by
  obtain ⟨n, hn, hmis⟩ := List.mem_filterMap.1 hsp
  have hpath : (modifierDiagnostic f sp).path = path := by
    obtain ⟨text, -, rfl⟩ := sourceFile_eq_ok.1 hfile
    rfl
  refine ⟨.single "Order modifiers" "OrderModifiers" (modifierDiagnostic f sp).path
    [⟨sp, " ".intercalate (Modifier.sort (n.modifiers.map f.text))⟩], Result.map_eq_ok.2 ⟨f, hpath ▸ hfile, ?_⟩⟩
  rw [modifierSorting?_eq hf (List.mem_filter.1 hn).1 hmis]

theorem mem_provide_makeFieldReadonly {fixes : List CodeAction} (h : (makeFieldReadonly read).provide s d = .ok fixes)
    {fix : CodeAction} (hfix : fix ∈ fixes) : ∃ f, sourceFile read s d.path = .ok f ∧
      ∃ n ∈ f.root.descendants, n.kind = .fieldDeclaration ∧ ∃ at_, Modifier.readonlyPoint? f n = some at_ ∧
        fix = .single "Add readonly modifier" "MakeFieldReadonly" d.path [.insert at_ "readonly "] := by
  obtain ⟨f, es, hf, hes, -, rfl⟩ := mem_provide_fix h hfix
  obtain ⟨n, at_, hcovering, hpoint, rfl⟩ := readonlyInsertion?_eq_some hes
  obtain ⟨hn, hkind, -⟩ := of_covering? hcovering
  exact ⟨f, hf, n, hn, by simpa using hkind, at_, hpoint, rfl⟩

end

/-! ## Declarations of two files -/

/-- The declarations that can have modifiers out of order. -/
def SourceFile.modifiable (f : SourceFile) : List Node :=
  f.root.descendants.filter fun n => Modifier.mayBeMisordered n.kind

section
variable {f g : SourceFile} {edit : Node → List Node} {n m : Node} {es : List Edit}

theorem Node.filter_descendants (p : Node → Bool) (n : Node) : n.descendants.filter p =
    (if p n then [n] else []) ++ n.children.flatMap fun c => if c.isNamed then c.descendants.filter p else [] := by
  have hall : ∀ cs : List Node, (cs.filter Node.isNamed).flatMap (fun c => c.descendants.filter p) =
      cs.flatMap fun c => if c.isNamed then c.descendants.filter p else [] := by
    intro cs
    induction cs with
    | nil => rfl
    | cons c rest ih => by_cases hc : c.isNamed = true <;> simp [hc, ih]
  rw [Node.descendants_eq, List.filter_cons, List.filter_flatMap, Node.named, hall]
  split <;> rfl

/-- Putting `readonly` in makes and unmakes no declaration. -/
theorem Paired.rel_modifiable (hin : Inserts edit) (h : Paired f g edit n m) :
    List.Forall₂ (Paired f g edit) (n.descendants.filter fun n => Modifier.mayBeMisordered n.kind)
      (m.descendants.filter fun n => Modifier.mayBeMisordered n.kind) := by
  induction n using Node.childInduction generalizing m with
  | step n ih =>
    rw [Node.filter_descendants, Node.filter_descendants, h.kind]
    apply List.rel_append
    · split
      · exact .cons h .nil
      · exact .nil
    · refine h.rel_flatMap hin (fun b hk hb => ?_) fun a ha b _ hab => ?_
      · obtain ⟨t, ht, htoken, -⟩ := Node.exists_token_of_isKeyword ((Node.regular_of_everywhere hb).modifier hk).2
        rw [Node.filter_descendants, ht, hk]
        simp [Node.isNamed, htoken, show Modifier.mayBeMisordered .modifier = false from rfl]
      · rw [show b.isNamed = a.isNamed by rw [Node.isNamed, Node.isNamed, hab.kind]]
        split
        · exact ih a ha hab
        · exact .nil

namespace Modifier

/-- A declaration and the same one in another file: it has the same modifiers apart from `readonly`, and they are
reported only if they were. -/
structure Carried (f g : SourceFile) (n m : Node) : Prop where
  kind : m.kind = n.kind
  others : (m.modifiers.map g.text).filter (· != "readonly") = (n.modifiers.map f.text).filter (· != "readonly")
  unreported : misordered? f n.modifiers = none → misordered? g m.modifiers = none

/-- A file has the declarations of another one, and no modifiers are reported that were not. -/
def NoneNew (f g : SourceFile) : Prop := List.Forall₂ (Carried f g) f.modifiable g.modifiable

theorem NoneNew.refl (f : SourceFile) : NoneNew f f := List.forall₂_same.2 fun _ _ => ⟨rfl, rfl, id⟩

theorem NoneNew.trans {h : SourceFile} (hfg : NoneNew f g) (hgh : NoneNew g h) : NoneNew f h := by
  have hjoined : ∀ {as bs cs : List Node}, List.Forall₂ (Carried f g) as bs → List.Forall₂ (Carried g h) bs cs →
      List.Forall₂ (Carried f h) as cs := by
    intro as bs cs hab hbc
    induction hab generalizing cs with
    | nil =>
      cases hbc
      exact .nil
    | cons hab _ ih =>
      obtain ⟨c, cs, hc, hrest, rfl⟩ := List.forall₂_cons_left_iff.1 hbc
      exact .cons ⟨hc.kind.trans hab.kind, hc.others.trans hab.others, hc.unreported ∘ hab.unreported⟩ (ih hrest)
  exact hjoined hfg hgh

/-- There are no more reports than there were. -/
theorem NoneNew.length_le (h : NoneNew f g) : (misorderedRanges g).length ≤ (misorderedRanges f).length := by
  have hcarried : ∀ {ns ms : List Node}, List.Forall₂ (Carried f g) ns ms →
      (ms.filterMap fun m => misordered? g m.modifiers).length ≤ (ns.filterMap fun n => misordered? f n.modifiers).length := by
    intro ns ms h
    induction h with
    | nil => exact Nat.le_refl _
    | @cons n m _ _ hnm _ ih =>
      rw [List.filterMap_cons, List.filterMap_cons]
      cases hn : misordered? f n.modifiers with
      | none =>
        rw [hnm.unreported hn]
        exact ih
      | some sp =>
        cases misordered? g m.modifiers with
        | none => exact Nat.le_succ_of_le ih
        | some sp' => exact Nat.succ_le_succ ih
  exact hcarried h

end Modifier

/-- The modifiers of a field are the same apart from `readonly`. -/
theorem Paired.filter_text_modifiers (hnests : n.nests = true)
    (h : Paired f g (Node.reshaped f .addMissingReadonly es) n m) :
    (m.modifiers.map g.text).filter (· != "readonly") = (n.modifiers.map f.text).filter (· != "readonly") := by
  rw [h.text_modifiers (inserts_readonly f es).keeps]
  rcases keywords_reshaped_readonly h.old hnests with he | ⟨at_, hk, -, he⟩
  · rw [he]
  · have hhead := Node.headed_of_everywhere h.old hnests hk
    have hstarts : n.modifiers.Pairwise fun a b => a.start ≤ b.start := hhead.order.imp Nat.le_of_lt
    obtain ⟨htake, hdrop⟩ := filter_start hstarts at_
    rw [he, Modifier.withReadonly, ← htake, ← hdrop, List.filter_append, List.filter_cons_of_neg (by decide),
      ← List.filter_append, ← List.map_append, List.takeWhile_append_dropWhile]

/-- Adding `readonly` makes no modifiers reported that were not. -/
theorem noneNew_of_paired (hf : f.Sound) (h : Paired f g (Node.reshaped f .addMissingReadonly es) f.root g.root) :
    Modifier.NoneNew f g := by
  have hpairs := forall₂_and (h.rel_modifiable (inserts_readonly f es)) (P := (· ∈ f.root.descendants)) (Q := fun _ => True)
    (fun n hn => (List.mem_filter.1 hn).1) fun _ _ => trivial
  refine hpairs.imp fun n m ⟨hnm, hn, _⟩ => ?_
  have hnests := Node.nests_of_mem_descendants hf.nests hn
  exact ⟨hnm.kind, hnm.filter_text_modifiers hnests, hnm.misordered?_of_readonly hnests⟩

end

/-! ## Runs of the rule -/

section
variable {read : Parser} {s next : Snapshot} {path p : String} {paths : List String} {f : SourceFile} {maxPasses : Nat}
  {c c' : Cancellation}

theorem path_of_turn {rule : CleanupRule} {t : Turn} (h : turn read rule s path = .ok t) : t.before.path = path := by
  obtain ⟨_, -, h⟩ := Result.bind_eq_ok.1 h
  obtain ⟨f, hfile, h⟩ := Result.bind_eq_ok.1 h
  obtain ⟨g, -, h⟩ := Result.bind_eq_ok.1 h
  cases h
  obtain ⟨text, -, rfl⟩ := sourceFile_eq_ok.1 hfile
  rfl

theorem noneNew_runRule {run : RuleRun}
    (hrun : (Cleanup.runRule (model read) .addMissingReadonly s path maxPasses).run c = .ok ((next, run), c'))
    (hfile : sourceFile read s path = .ok f) (hf : f.Sound)
    (hfaithful : ∀ t, turn read .addMissingReadonly s path = .ok t → t.isFaithful = true) :
    ∃ g, sourceFile read next path = .ok g ∧ Modifier.NoneNew f g ∧ g.Sound := by
  rcases Nat.eq_zero_or_pos maxPasses with rfl | hpos
  · -- No pass is made.
    rcases Cleanup.runRule_cases hrun with ⟨h, -⟩ | ⟨h, -⟩ | ⟨-, -, n, d, d', h⟩
    · cases h
    · cases h
    · obtain ⟨he, -⟩ := Cancellable.pure_eq_ok.1 h
      cases he
      exact ⟨f, hfile, .refl f, hf⟩
  · obtain ⟨es, mid, hfirst, hnext⟩ := firstChange_of_runRule hpos hrun
    obtain ⟨g, hnew⟩ := exists_sourceFile (firstChange_sameOutside hfirst).shape hfile
    have hfollows := hfaithful _ (turn_of_firstChange hfirst hfile hnew)
    obtain ⟨hg, hpair⟩ := paired_of_isFaithful hf hfollows
    obtain ⟨chosen, hchosen, -, rfl⟩ := (firstChange_fixes (by decide)).1 hfirst
    -- The first pass leaves no field to make readonly, so it is the last one that changes anything.
    have hfinished : Finished (.ofSnapshot read s) g .addMissingReadonly :=
      finished_of_fixes hfile hf (by decide) hchosen rfl hfollows
    obtain rfl := hnext (pass_idle hnew hg hfinished)
    exact ⟨g, hnew, noneNew_of_paired hf hpair, hg⟩

theorem noneNew_runOver {sum sum' : Cleanup.RuleSummary}
    (hrun : (Cleanup.runOver (model read) .addMissingReadonly maxPasses paths s sum).run c = .ok ((next, sum'), c'))
    (hfile : sourceFile read s p = .ok f) (hf : p ∈ paths → f.Sound)
    (hfaithful : ∀ t ∈ turnsOver read maxPasses .addMissingReadonly paths s c, t.before.path = p → t.isFaithful = true) :
    ∃ g, sourceFile read next p = .ok g ∧ Modifier.NoneNew f g := by
  induction paths generalizing s sum c f with
  | nil =>
    obtain ⟨he, -⟩ := Cancellable.pure_eq_ok.1 hrun
    cases he
    exact ⟨f, hfile, .refl f⟩
  | cons path rest ih =>
    obtain ⟨_, c1, hcheck, h⟩ := Cancellable.bind_eq_ok.1 hrun
    obtain ⟨⟨mid, run⟩, c2, hmid, hrest⟩ := Cancellable.bind_eq_ok.1 h
    rw [turnsOver, Cancellable.bind_eq_ok.2 ⟨_, c1, hcheck, hmid⟩] at hfaithful
    obtain ⟨hfirst, hlater⟩ := List.forall_mem_append.1 hfaithful
    have hstep : ∃ g, sourceFile read mid p = .ok g ∧ Modifier.NoneNew f g ∧ (p ∈ rest → g.Sound) := by
      by_cases hp : p = path
      · subst hp
        obtain ⟨g, hg, hnone, hsound⟩ := noneNew_runRule hmid hfile (hf List.mem_cons_self) fun t ht =>
          hfirst t (by rw [ht]; exact List.mem_singleton.2 rfl) (path_of_turn ht)
        exact ⟨g, hg, hnone, fun _ => hsound⟩
      · have htext : mid.text? p = s.text? p := (Cleanup.runRule_sameOutside (model_editsInPlace read) hmid).texts fun hmem =>
          hp (List.mem_singleton.1 hmem)
        exact ⟨f, (sourceFile_congr htext).trans hfile, .refl f, fun hmem => hf (List.mem_cons_of_mem _ hmem)⟩
    obtain ⟨g, hg, hnone, hsound⟩ := hstep
    obtain ⟨h, hh, hnone'⟩ := ih hrest hg hsound hlater
    exact ⟨h, hh, hnone.trans hnone'⟩

end

/-! ## Reports -/

/-- Diagnostics with the id of modifiers out of order are the reports of modifiers. -/
theorem countP_diagnostics (c : Compilation) (f : SourceFile) :
    (diagnostics c f).countP (·.id == modifierOrderId) = (Modifier.misorderedRanges f).length := by
  have hlocals : ((UnusedLocal.all f).map (localDiagnostic f)).countP (·.id == modifierOrderId) = 0 := by
    refine List.countP_eq_zero.2 fun d hd => ?_
    obtain ⟨l, hl, rfl⟩ := List.mem_map.1 hd
    have hid := reportsLocal_localDiagnostic hl
    intro h
    rw [reportsLocal, beq_iff_eq.1 h] at hid
    exact absurd hid (by decide)
  rw [diagnostics, (List.mergeSort_perm _ _).countP_eq, List.countP_append, List.countP_append, List.countP_append, hlocals,
    List.countP_map, List.countP_map, List.countP_map]
  simp [Function.comp_def, usingDiagnostic, modifierDiagnostic, readonlyDiagnostic, unneededUsingId, modifierOrderId, readonlyFieldId]

theorem countP_view {read : Parser} {s : Snapshot} {path : String} {f : SourceFile} {ds : List Diagnostic}
    (hfile : sourceFile read s path = .ok f) (h : ((model read).view s).diagnostics path = .ok ds) :
    ds.countP (·.id == modifierOrderId) = (Modifier.misorderedRanges f).length := by
  rw [diagnostics_view, hfile] at h
  cases h
  exact countP_diagnostics _ f

/-- The order in which modifiers are written is one in which none are reported, `readonly` goes where it keeps that
order, and making fields readonly adds no report of modifiers to any document. -/
theorem modifiers_stay_ranked (read : Parser) :
    (∀ ms, Modifier.Arranged ms (Modifier.sort ms) ∧
      ∀ f ns, ns.map (SourceFile.text f) = Modifier.sort ms → Modifier.misordered? f ns = none) ∧
    (∀ s d fixes, (orderModifiers read).provide s d = .ok fixes → ∀ fix ∈ fixes, ∃ f, sourceFile read s d.path = .ok f ∧
      ∃ n ∈ f.root.descendants, Modifier.range? n.modifiers = some d.span ∧ fix = .single "Order modifiers" "OrderModifiers"
        d.path [⟨d.span, " ".intercalate (Modifier.sort (n.modifiers.map f.text))⟩]) ∧
    (∀ s path f, sourceFile read s path = .ok f → f.isSound = true → ∀ sp ∈ Modifier.misorderedRanges f,
      ∃ fix, (orderModifiers read).provide s (modifierDiagnostic f sp) = .ok [fix]) ∧
    (∀ s d fixes, (makeFieldReadonly read).provide s d = .ok fixes → ∀ fix ∈ fixes, ∃ f, sourceFile read s d.path = .ok f ∧
      ∃ n ∈ f.root.descendants, n.kind = .fieldDeclaration ∧ ∃ at_, Modifier.readonlyPoint? f n = some at_ ∧
        fix = .single "Add readonly modifier" "MakeFieldReadonly" d.path [.insert at_ "readonly "]) ∧
    (∀ f : SourceFile, f.isSound = true → ∀ n ∈ f.root.descendants, n.kind = .fieldDeclaration → n.Headed) ∧
    (∀ f n at_, n.Headed → Modifier.inOrder (n.modifiers.map f.text) = true → Modifier.readonlyPoint? f n = some at_ →
      Modifier.inOrder (Modifier.withReadonly f n at_) = true) ∧
    .fixModifierOrder ∈ CleanupRule.addMissingReadonly.earlier ∧
    ∀ maxPasses paths s next sum sum' c c', (Cleanup.runOver (model read) .addMissingReadonly maxPasses paths s sum).run c =
        .ok ((next, sum'), c') →
      ∀ p f, sourceFile read s p = .ok f → (p ∈ paths → f.isSound = true) →
        (∀ t ∈ turnsOver read maxPasses .addMissingReadonly paths s c, t.before.path = p → t.isFaithful = true) →
        ∃ g, sourceFile read next p = .ok g ∧ Modifier.NoneNew f g ∧
          ∀ old new, ((model read).view s).diagnostics p = .ok old → ((model read).view next).diagnostics p = .ok new →
            new.countP (·.id == modifierOrderId) ≤ old.countP (·.id == modifierOrderId) := by
  refine ⟨fun ms => ⟨Modifier.arranged_sort ms, fun f ns hns => (Modifier.arranged_sort ms).misordered?_eq_none hns⟩,
    fun s d fixes h fix hfix => mem_provide_orderModifiers h hfix, ?_,
    fun s d fixes h fix hfix => mem_provide_makeFieldReadonly h hfix, ?_, ?_, by decide, ?_⟩
  · intro s path f hfile hsound sp hsp
    exact exists_provide_orderModifiers hfile (SourceFile.sound_of_isSound hsound) hsp
  · intro f hsound n hn hkind
    have hf := SourceFile.sound_of_isSound hsound
    exact Node.headed_of_everywhere (Node.everywhere_of_mem_descendants hf.regular hn) (Node.nests_of_mem_descendants hf.nests hn)
      hkind
  · intro f n at_ hhead horder hpoint
    rw [Modifier.inOrder_iff] at horder ⊢
    exact Modifier.pairwise_withReadonly hhead hpoint horder
  · intro maxPasses paths s next sum sum' c c' hrun p f hfile hsound hfaithful
    obtain ⟨g, hg, hnone⟩ := noneNew_runOver hrun hfile (fun hp => SourceFile.sound_of_isSound (hsound hp)) hfaithful
    refine ⟨g, hg, hnone, fun old new hold hnew => ?_⟩
    rw [countP_view hfile hold, countP_view hg hnew]
    exact hnone.length_le

/-- A file with modifiers out of order. -/
def shuffledFile : SourceFile := .ofText parse "a.cs" "class A { static public int x; }"

/-- A file with a field that nothing assigns. -/
def constantFile : SourceFile := .ofText parse "b.cs" "class B { private required int y; }"

def constantReadonly : SourceFile := .ofText parse "b.cs" "class B { private readonly required int y; }"

/-- The first file beside another one. -/
def shuffledBeside (f : SourceFile) : Snapshot :=
  (Snapshot.empty.addDocument "App" "a.cs" (.ofList shuffledFile.chars) none).addDocument "App" f.path (.ofList f.chars) none

theorem runOver_shuffledBeside :
    (Cleanup.runOver (model parse) .addMissingReadonly 3 ["b.cs"] (shuffledBeside constantFile)
      ⟨.addMissingReadonly, 0, 0⟩).run .never =
        .ok ((shuffledBeside constantReadonly, ⟨.addMissingReadonly, 1, 1⟩), .never) :=
  Result.eq_ok_of_toOption (by decide +kernel)

theorem modifiers_stay_ranked_shuffled :
    Modifier.Arranged ["static", "public"] ["public", "static"] ∧
    (orderModifiers parse).provide (shuffledBeside constantFile) (modifierDiagnostic shuffledFile ⟨10, 13⟩) =
      .ok [.single "Order modifiers" "OrderModifiers" "a.cs" [⟨⟨10, 13⟩, "public static"⟩]] ∧
    (∃ n ∈ constantFile.root.descendants, n.Headed ∧ Modifier.readonlyPoint? constantFile n = some 18 ∧
      Modifier.withReadonly constantFile n 18 = ["private", "readonly", "required"] ∧
      Modifier.inOrder (Modifier.withReadonly constantFile n 18) = true) ∧
    Modifier.NoneNew constantFile constantReadonly := by
  obtain ⟨hsort, hordered, hfix, hreadonly, hheaded, hkept, -, hrun⟩ := modifiers_stay_ranked parse
  have ha : sourceFile parse (shuffledBeside constantFile) "a.cs" = .ok shuffledFile ∧ shuffledFile.isSound = true :=
    ⟨rfl, by decide +kernel⟩
  have hb : sourceFile parse (shuffledBeside constantFile) "b.cs" = .ok constantFile ∧ constantFile.isSound = true :=
    ⟨rfl, by decide +kernel⟩
  have hranks : Modifier.sort ["static", "public"] = ["public", "static"] := by
    have hlater : ¬ Modifier.rank "static" ≤ Modifier.rank "public" := by decide
    simp [Modifier.sort, List.mergeSort, hlater]
  refine ⟨hranks ▸ (hsort ["static", "public"]).1, ?_, ?_, ?_⟩
  · obtain ⟨fix, h⟩ := hfix _ "a.cs" _ ha.1 ha.2 ⟨10, 13⟩ (by decide +kernel)
    obtain ⟨f, hf, n, hn, hrange, hwrites⟩ := hordered _ _ _ h fix List.mem_cons_self
    obtain rfl : shuffledFile = f := Except.ok.inj (ha.1.symm.trans hf)
    have htexts : ∀ n ∈ shuffledFile.root.descendants, Modifier.range? n.modifiers = some ⟨10, 13⟩ →
        n.modifiers.map shuffledFile.text = ["static", "public"] := by
      decide +kernel
    rw [htexts n hn hrange, hranks] at hwrites
    rw [h, hwrites]
    rfl
  · have hprovide : (makeFieldReadonly parse).provide (shuffledBeside constantFile)
        ⟨readonlyFieldId, "Make field 'y' readonly", .info, .ofSpan "b.cs" constantFile.chars ⟨31, 1⟩⟩ =
          .ok [.single "Add readonly modifier" "MakeFieldReadonly" "b.cs" [.insert 18 "readonly "]] :=
      Result.eq_ok_of_toOption (by decide +kernel)
    obtain ⟨f, hf, n, hn, hkind, at_, hpoint, hinserts⟩ := hreadonly _ _ _ hprovide _ List.mem_cons_self
    obtain rfl : constantFile = f := Except.ok.inj (hb.1.symm.trans hf)
    cases hinserts
    have hfield : ∀ n ∈ constantFile.root.descendants, n.kind = .fieldDeclaration →
        Modifier.inOrder (n.modifiers.map constantFile.text) = true ∧
          Modifier.withReadonly constantFile n 18 = ["private", "readonly", "required"] := by
      decide +kernel
    obtain ⟨horder, htexts⟩ := hfield n hn hkind
    have hhead := hheaded _ hb.2 n hn hkind
    exact ⟨n, hn, hhead, hpoint, htexts, hkept _ n 18 hhead horder hpoint⟩
  · have hfaithful : (turnsOver parse 3 .addMissingReadonly ["b.cs"] (shuffledBeside constantFile) .never).all
        Turn.isFaithful = true := by
      decide +kernel
    obtain ⟨g, hg, hnone, -⟩ := hrun 3 _ _ _ _ _ _ _ runOver_shuffledBeside "b.cs" _ hb.1 (fun _ => hb.2) fun t ht _ =>
      List.all_eq_true.1 hfaithful t ht
    have hg' : sourceFile parse (shuffledBeside constantReadonly) "b.cs" = .ok constantReadonly := rfl
    exact Except.ok.inj (hg.symm.trans hg') ▸ hnone

end Workbench.CSharp
