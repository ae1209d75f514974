import Workbench.Proofs.Choosing

/-!
# What a pass mends

Modifiers of different declarations stand apart, and so do fields. So one pass
puts all modifiers in order that can be, and makes all fields readonly that
could be.
-/

namespace Workbench.CSharp

/-! ## Modifiers out of order -/

section
variable {read : Parser} {s : Snapshot} {path : String} {f : SourceFile} {n m c k : Node} {sp : Span}
  {chosen : List DocumentEdit}

/-- The modifiers of a node fill a span, from the first to the last. -/
structure Filled (n : Node) (sp : Span) (first last : Node) : Prop where
  head : first ∈ n.modifiers
  back : last ∈ n.modifiers
  start : sp.start = first.start
  stop : sp.stop = last.stop
  wide : first.start < first.stop ∧ last.start < last.stop ∧ first.start ≤ last.start

theorem start_lt_stop_of_modifier (hn : n.everywhere (Node.isRegular f) = true) (hm : m ∈ n.modifiers) :
    m.start < m.stop := by
  obtain ⟨hm, hk⟩ := Node.mem_modifiers.1 hm
  exact Node.start_lt_stop_of_isKeyword ((Node.regular_of_everywhere ((Node.everywhere_iff.1 hn).2 m hm)).modifier hk).2

theorem exists_filled (hf : f.Sound) (hn : n ∈ f.root.descendants) (h : Modifier.range? n.modifiers = some sp) :
    ∃ first last, Filled n sp first last := by
  have hregular := Node.everywhere_of_mem_descendants hf.regular hn
  have hnests := Node.nests_of_mem_descendants hf.nests hn
  have hplaces : n.modifiers.Pairwise fun a b => a.stop ≤ b.start :=
    ((Node.regular_of_everywhere hregular).pairwise_children hnests).sublist List.filter_sublist
  rw [Modifier.range?] at h
  split at h
  · rename_i first last hfirst hlast
    cases h
    have hfirst' := List.mem_of_head? hfirst
    have hlast' := List.mem_of_getLast? hlast
    have hw := start_lt_stop_of_modifier hregular hfirst'
    have hw' := start_lt_stop_of_modifier hregular hlast'
    have hle : first.start ≤ last.start := by
      obtain ⟨rest, hms⟩ := List.head?_eq_some_iff.1 hfirst
      rw [hms] at hplaces hlast'
      rcases List.mem_cons.1 hlast' with rfl | hmem
      · exact Nat.le_refl _
      · exact (Nat.le_of_lt hw).trans ((List.pairwise_cons.1 hplaces).1 last hmem)
    exact ⟨first, last, hfirst', hlast', rfl, Span.stop_ofBounds (by omega), hw, hw', hle⟩
  · cases h

/-- Below a modifier there is none. -/
theorem modifiers_apart (hf : f.Sound) (hn : n ∈ f.root.descendants) (hc : c ∈ n.children) (hk : k ∈ c.descendants)
    (hmods : k.modifiers ≠ []) (hm : m ∈ n.modifiers) : m.stop ≤ c.start ∨ c.stop ≤ m.start := by
  have hregular := Node.everywhere_of_mem_descendants hf.regular hn
  obtain ⟨hchild, hkind⟩ := Node.mem_modifiers.1 hm
  have hne : m ≠ c := by
    rintro rfl
    obtain ⟨t, ht, htoken, -⟩ := Node.exists_token_of_isKeyword
      ((Node.regular_of_everywhere ((Node.everywhere_iff.1 hregular).2 m hchild)).modifier hkind).2
    rcases Node.mem_descendants.1 hk with rfl | ⟨d, hd, hnamed, -⟩
    · refine hmods ?_
      rw [Node.modifiers, Node.ofKind, ht]
      simp [htoken]
    · rw [ht] at hd
      cases List.mem_singleton.1 hd
      simp [Node.isNamed, htoken] at hnamed
  have hsymm : Std.Symm fun a b : Node => (a.apart b : Prop) := ⟨fun _ _ h => Node.apart_comm ▸ h⟩
  have hapart := (Node.nests_iff.1 (Node.nests_of_mem_descendants hf.nests hn)).2.2.forall hchild hc hne
  simpa [Node.apart] using hapart

/-- No two nodes have modifiers that fill the same span. -/
theorem filled_below (hf : f.Sound) (hn : n ∈ f.root.descendants) (hk : k ∈ n.descendants) {a b a' b' : Node}
    (h : Filled n sp a b) (h' : Filled k sp a' b') : k = n := by
  rcases Node.mem_descendants.1 hk with rfl | ⟨c, hc, -, hkc⟩
  · rfl
  · have hnests := Node.nests_of_mem_descendants hf.nests hn
    have hcnests := Node.nests_of_child hnests hc
    have hin := (Node.within_of_child (Node.nests_of_mem_descendants hcnests hkc) (Node.mem_modifiers.1 h'.head).1).trans
      (Node.within_of_mem_descendants hcnests hkc)
    have hside := modifiers_apart hf hn hc hkc (List.ne_nil_of_mem h'.head) h.head
    have := hin.start
    have := hin.stop
    have := h.start.symm.trans h'.start
    have := h.wide.1
    have := h'.wide.1
    omega

theorem filled_unique (hf : f.Sound) (hn : n ∈ f.root.descendants) (hm : m ∈ f.root.descendants)
    (h : Modifier.range? n.modifiers = some sp) (h' : Modifier.range? m.modifiers = some sp) : n = m := by
  obtain ⟨a, b, h⟩ := exists_filled hf hn h
  obtain ⟨a', b', h'⟩ := exists_filled hf hm h'
  rcases Node.below_or_apart hf.nests hn hm with hbelow | hbelow | hapart
  · exact filled_below hf hm hbelow h' h
  · exact (filled_below hf hn hbelow h h').symm
  · have hin := Node.within_of_child (Node.nests_of_mem_descendants hf.nests hn) (Node.mem_modifiers.1 h.head).1
    have hin' := Node.within_of_child (Node.nests_of_mem_descendants hf.nests hm) (Node.mem_modifiers.1 h'.head).1
    have hhead : a.apart a' := Node.apart_of_within hapart hin hin'
    simp only [Node.apart, Bool.or_eq_true, decide_eq_true_eq] at hhead
    have := h.start.symm.trans h'.start
    have := h.wide.1
    have := h'.wide.1
    omega

/-- What stands between two nodes with nothing but blanks between them is blank. -/
theorem blank_of_between {a b : Node} (h : Modifier.onlyBlanksBetween f a b = true) (ha : a.fits f.chars = true)
    (hb : b.fits f.chars = true) (hk : k.fits f.chars = true) (hstart : a.stop ≤ k.start) (hstop : k.stop ≤ b.start) :
    ∀ ch ∈ (f.text k).toList, Text.isBlank ch = true := by
  obtain ⟨x, mid, y, hchars, hx, hmid, htext⟩ := exists_parts_of_fits hk
  obtain ⟨p, q, hpq, hp⟩ := Text.isBoundary_iff.1 (Node.fits_stop ha)
  obtain ⟨p', q', hpq', hp'⟩ := Text.isBoundary_iff.1 (Node.fits_start hb)
  obtain ⟨u, rfl, hq⟩ := Text.exists_mid_of_size_le (hpq.symm.trans hchars) (by rw [hp, hx]; exact hstart)
  have hback : ((p ++ u) ++ mid) ++ y = p' ++ q' := by rw [List.append_assoc, ← hchars, hpq']
  obtain ⟨v, rfl, hy⟩ := Text.exists_mid_of_size_le hback (by rw [hmid, hp']; exact hstop)
  have hslice : Text.slice? f.chars a.stop b.start = some (u ++ (mid ++ v)) := by
    rw [← hp, ← hp', hpq']
    simpa only [List.append_assoc] using Text.slice?_parts p (u ++ (mid ++ v)) q'
  rw [Modifier.onlyBlanksBetween, hslice] at h
  intro ch hch
  rw [htext] at hch
  exact List.all_eq_true.1 h ch (by simp [hch])

/-- What is not among modifiers that only blanks part stands before or behind all of them. -/
theorem one_side {ms : List Node} {w : Node} (hms : ∀ m ∈ ms, m.fits f.chars = true)
    (hplaces : ms.Pairwise fun a b => a.stop ≤ b.start) (hblanks : Modifier.chained (Modifier.onlyBlanksBetween f) ms = true)
    (hsides : ∀ m ∈ ms, m.stop ≤ c.start ∨ c.stop ≤ m.start) (hw : w.fits f.chars = true) (hin : w.Within c)
    (hword : isWord (f.text w).toList = true) : (∀ m ∈ ms, m.stop ≤ c.start) ∨ ∀ m ∈ ms, c.stop ≤ m.start := by
  induction ms with
  | nil => exact .inl (List.forall_mem_nil _)
  | cons a rest ih =>
    obtain ⟨ha, hms⟩ := List.forall_mem_cons.1 hms
    obtain ⟨hfirst, hplaces⟩ := List.pairwise_cons.1 hplaces
    obtain ⟨haside, hsides⟩ := List.forall_mem_cons.1 hsides
    cases rest with
    | nil => exact haside.imp (fun h => by simpa using h) fun h => by simpa using h
    | cons b rest =>
      obtain ⟨hab, hblanks⟩ := Bool.and_eq_true_iff.1 hblanks
      have hb := hms b List.mem_cons_self
      have hbrange := Node.fits_range hb
      have hnext := hfirst b List.mem_cons_self
      rcases ih hms hplaces hblanks hsides with hleft | hright
      · refine .inl (List.forall_mem_cons.2 ⟨?_, hleft⟩)
        have := hleft b List.mem_cons_self
        omega
      · rcases haside with haside | haside
        · -- Between `a` and `b` there would be a word.
          have hbstart := hright b List.mem_cons_self
          have hblank := blank_of_between hab ha hb hw (haside.trans hin.start) (hin.stop.trans hbstart)
          obtain ⟨hne, hvisible⟩ := Text.isWord_iff.1 hword
          obtain ⟨ch, hch⟩ := List.exists_mem_of_ne_nil _ hne
          exact absurd ((hvisible ch hch).symm.trans (hblank ch hch)) Bool.false_ne_true
        · exact .inr (List.forall_mem_cons.2 ⟨haside, hright⟩)

theorem misordered?_eq_some (h : Modifier.misordered? f n.modifiers = some sp) :
    Modifier.chained (Modifier.onlyBlanksBetween f) n.modifiers = true ∧ Modifier.range? n.modifiers = some sp := by
  rw [Modifier.misordered?] at h
  split at h
  · cases h
  · exact Option.ite_none_right_eq_some.1 h

/-- Modifiers that are out of order do not reach over those of a node below. -/
theorem misordered_below {sp' : Span} (hf : f.Sound) (hn : n ∈ f.root.descendants) (hk : k ∈ n.descendants)
    (h : Modifier.misordered? f n.modifiers = some sp) (h' : Modifier.range? k.modifiers = some sp') :
    k = n ∨ sp.stop ≤ sp'.start ∨ sp'.stop ≤ sp.start := by
  obtain ⟨hblanks, hrange⟩ := misordered?_eq_some h
  rcases Node.mem_descendants.1 hk with rfl | ⟨c, hc, hnamed, hkc⟩
  · exact .inl rfl
  · have hnests := Node.nests_of_mem_descendants hf.nests hn
    have hregular := Node.everywhere_of_mem_descendants hf.regular hn
    have hfits := Node.fits_of_mem_descendants hf.fits hn
    have hcfits := (Node.fits_child hfits hc).1
    have hcnests := Node.nests_of_child hnests hc
    have hkroot := Node.descendants_trans hn (Node.mem_descendants_of_child hc hnamed hkc)
    obtain ⟨first, last, hfill⟩ := exists_filled hf hn hrange
    obtain ⟨first', last', hfill'⟩ := exists_filled hf hkroot h'
    have hkc' := Node.within_of_mem_descendants hcnests hkc
    have hin : ∀ m ∈ k.modifiers, m.Within c := fun m hm =>
      (Node.within_of_child (Node.nests_of_mem_descendants hcnests hkc) (Node.mem_modifiers.1 hm).1).trans hkc'
    obtain ⟨hchild, hkind⟩ := Node.mem_modifiers.1 hfill'.head
    have hkregular := Node.everywhere_of_mem_descendants hf.regular hkroot
    obtain ⟨-, -, -, -, -, hword⟩ := Node.exists_token_of_isKeyword
      ((Node.regular_of_everywhere ((Node.everywhere_iff.1 hkregular).2 _ hchild)).modifier hkind).2
    have hside := one_side (fun m hm => (Node.fits_child hfits (Node.mem_modifiers.1 hm).1).1)
      (((Node.regular_of_everywhere hregular).pairwise_children hnests).sublist List.filter_sublist) hblanks
      (fun m hm => modifiers_apart hf hn hc hkc (List.ne_nil_of_mem hfill'.head) hm)
      (Node.fits_child (Node.fits_of_mem_descendants hf.fits hkroot) hchild).1 (hin _ hfill'.head) hword
    refine .inr (hside.imp (fun h => ?_) fun h => ?_)
    · rw [hfill.stop, hfill'.start]
      exact (h last hfill.back).trans (hin _ hfill'.head).start
    · rw [hfill.start, hfill'.stop]
      exact (hin _ hfill'.back).stop.trans (h first hfill.head)

/-- Spans of modifiers that are out of order do not overlap. -/
theorem misordered_meet {sp' : Span} (hf : f.Sound) (h : sp ∈ Modifier.misorderedRanges f)
    (h' : sp' ∈ Modifier.misorderedRanges f) : sp = sp' ∨ sp.stop ≤ sp'.start ∨ sp'.stop ≤ sp.start := by
  obtain ⟨n, hn, hsp⟩ := List.mem_filterMap.1 h
  obtain ⟨m, hm, hsp'⟩ := List.mem_filterMap.1 h'
  have hn := (List.mem_filter.1 hn).1
  have hm := (List.mem_filter.1 hm).1
  have hsame : n = m → sp = sp' := by
    rintro rfl
    exact Option.some.inj (hsp.symm.trans hsp')
  have hrange := (misordered?_eq_some hsp).2
  have hrange' := (misordered?_eq_some hsp').2
  rcases Node.below_or_apart hf.nests hn hm with hbelow | hbelow | hapart
  · rcases misordered_below hf hm hbelow hsp' hrange with he | hle | hle
    · exact .inl (hsame he)
    · exact .inr (.inr hle)
    · exact .inr (.inl hle)
  · exact (misordered_below hf hn hbelow hsp hrange').imp_left fun he => hsame he.symm
  · obtain ⟨first, last, hfill⟩ := exists_filled hf hn hrange
    obtain ⟨first', last', hfill'⟩ := exists_filled hf hm hrange'
    have hin : ∀ {n m : Node}, n ∈ f.root.descendants → m ∈ n.modifiers → m.Within n := fun hn hm =>
      Node.within_of_child (Node.nests_of_mem_descendants hf.nests hn) (Node.mem_modifiers.1 hm).1
    have := (hin hn hfill.head).start
    have := (hin hn hfill.back).stop
    have := (hin hm hfill'.head).start
    have := (hin hm hfill'.back).stop
    have := hfill.start
    have := hfill.stop
    have := hfill'.start
    have := hfill'.stop
    simp only [Node.apart, Bool.or_eq_true, decide_eq_true_eq] at hapart
    omega

/-- A walk that stops at nodes with a property comes by one when there is one. -/
theorem exists_walk_until {p : Node → Bool} (hm : m ∈ n.descendants) (hp : p m = true) (around : List Node) :
    ∃ k ∈ (n.walk (fun n => !p n) around).map (·.node), p k = true := by
  induction n using Node.childInduction generalizing around with
  | step n ih =>
    cases hn : p n with
    | true => exact ⟨n, Node.mem_map_walk.2 (.inl rfl), hn⟩
    | false =>
      rcases Node.mem_descendants.1 hm with rfl | ⟨c, hc, hnamed, hmc⟩
      · exact absurd (hn.symm.trans hp) Bool.false_ne_true
      · obtain ⟨k, hk, hpk⟩ := ih c hc hmc (n :: around)
        exact ⟨k, Node.mem_map_walk.2 (.inr ⟨by simp [hn], c, hc, hnamed, hk⟩), hpk⟩

/-- The modifiers that fill the span of some are those. -/
theorem modifiersAt_eq (hf : f.Sound) (hn : n ∈ f.root.descendants) (h : Modifier.range? n.modifiers = some sp) :
    modifiersAt f sp = n.modifiers := by
  have hfill : ∀ k : Node, modifiersFill sp k = true ↔ Modifier.range? k.modifiers = some sp := fun k => by
    rw [modifiersFill, beq_iff_eq]
  obtain ⟨k, hk, hpk⟩ := exists_walk_until hn ((hfill n).2 h) []
  have hmem := List.mem_filter.2 ⟨hk, hpk⟩
  have hlast := List.getLast?_eq_some_getLast (List.ne_nil_of_mem hmem)
  obtain ⟨hwalk, hlastFill⟩ := List.mem_filter.1 (List.mem_of_getLast? hlast)
  rw [modifiersAt, hlast, Option.elim_some, filled_unique hf hn (Node.mem_descendants_of_mem_walk hwalk) h
    ((hfill _).1 hlastFill)]

/-- Where modifiers are out of order, their order by rank is written over them. -/
theorem modifierSorting?_eq (hf : f.Sound) (hn : n ∈ f.root.descendants) (h : Modifier.misordered? f n.modifiers = some sp) :
    modifierSorting? f (modifierDiagnostic f sp) =
      some [⟨sp, " ".intercalate (Modifier.sort (n.modifiers.map f.text))⟩] := by
  have hms := modifiersAt_eq hf hn (misordered?_eq_some h).2
  rw [modifierSorting?, show (modifierDiagnostic f sp).span = sp from rfl, hms, h]
  rfl

/-- A pass puts all modifiers in order that can be. -/
theorem exists_sorting (hfile : sourceFile read s path = .ok f) (hf : f.Sound)
    (hchosen : Cleanup.chooseFixes (model read) s path CleanupRule.fixModifierOrder.diagnosticIds = .ok chosen)
    (hsp : sp ∈ Modifier.misorderedRanges f) : ∃ e ∈ Cleanup.chosenFor chosen path, e.span = sp := by
  have hsorting : ∀ sp ∈ Modifier.misorderedRanges f,
      ∃ new, modifierSorting? f (modifierDiagnostic f sp) = some [⟨sp, new⟩] := by
    intro sp hsp
    obtain ⟨n, hn, hmis⟩ := List.mem_filterMap.1 hsp
    exact ⟨_, modifierSorting?_eq hf (List.mem_filter.1 hn).1 hmis⟩
  have hedit : ∀ d ∈ diagnostics (.ofSnapshot read s) f, d.id = modifierOrderId →
      ∃ e, e.span ∈ Modifier.misorderedRanges f ∧ modifierSorting? f d = some [e] := by
    intro d hd hid
    rcases diagnostics_cases hf.fits hd with (h | h) | ⟨u, -, rfl⟩ | ⟨sp, hsp, rfl⟩ | ⟨n, -, rfl⟩
    · exact absurd (h.symm.trans hid) (by decide)
    · exact absurd (h.symm.trans hid) (by decide)
    · exact absurd (show unneededUsingId = modifierOrderId from hid) (by decide)
    · obtain ⟨new, h⟩ := hsorting sp hsp
      exact ⟨_, hsp, h⟩
    · exact absurd (show readonlyFieldId = modifierOrderId from hid) (by decide)
  have hd : modifierDiagnostic f sp ∈ diagnostics (.ofSnapshot read s) f := by
    rw [diagnostics, List.mem_mergeSort]
    simp only [List.mem_append, List.mem_map]
    exact .inl (.inr ⟨sp, hsp, rfl⟩)
  have hprov : ∀ r, registry read = .ok r → r.fixProvidersFor modifierOrderId = [orderModifiers read] := by
    intro r hr
    obtain ⟨rfl, -⟩ := Registry.ofProviders_eq_ok hr
    rfl
  obtain ⟨e, he, e', he', hspan⟩ := exists_chosen_fix hfile hf.fits hchosen hprov (by decide) hedit
    (fun e e' he he' => by simpa [Edit.disjoint] using misordered_meet hf he he') hd rfl
  obtain ⟨new, h⟩ := hsorting sp hsp
  cases he.symm.trans h
  exact ⟨e', he', hspan⟩

end

/-! ## Fields that could be readonly -/

section
variable {read : Parser} {s : Snapshot} {path : String} {f : SourceFile} {type field name : Node}
  {chosen : List DocumentEdit} {at_ : Nat}

/-- The name of a field stands in its field and is not empty. -/
theorem name_spec (hf : f.Sound) (hfield : field ∈ f.root.descendants) (hname : name ∈ ReadonlyField.names field) :
    name.Within field ∧ name.start < name.stop ∧ name.fits f.chars = true := by
  obtain ⟨d, hd, hname⟩ := List.mem_filterMap.1 hname
  cases hdecl : field.variableDeclaration? with
  | none =>
    rw [hdecl] at hd
    cases hd
  | some decl =>
    rw [hdecl, Option.elim_some] at hd
    have hfits := Node.fits_of_mem_descendants hf.fits hfield
    obtain ⟨hdeclFits, hdeclStart, hdeclStop⟩ := Node.fits_child hfits (mem_of_variableDeclaration? hdecl)
    obtain ⟨hdFits, hdStart, hdStop⟩ := Node.fits_child hdeclFits (mem_of_declarators hd)
    obtain ⟨hnameFits, hstart, hstop⟩ := Node.fits_child hdFits (mem_of_declaratorName? hname)
    have hregular : name.everywhere (Node.isRegular f) = true ∧ d.everywhere (Node.isRegular f) = true := by
      have hall := Node.everywhere_of_mem_descendants hf.regular hfield
      have hdecl := (Node.everywhere_iff.1 hall).2 decl (mem_of_variableDeclaration? hdecl)
      have hd := (Node.everywhere_iff.1 hdecl).2 d (mem_of_declarators hd)
      exact ⟨(Node.everywhere_iff.1 hd).2 name (mem_of_declaratorName? hname), hd⟩
    have hkind : name.kind = .identifier := by
      have hdkind : d.kind = .variableDeclarator := by simpa using (List.mem_filter.1 hd).2
      rcases Option.or_eq_some_iff.1 hname with h | ⟨-, h⟩
      · exact (Node.regular_of_everywhere hregular.2).name (by rw [hdkind]; rfl) name h
      · simpa using List.find?_some h
    refine ⟨⟨by omega, by omega⟩, Node.start_lt_stop_of_text (f := f) fun he => ?_, hnameFits⟩
    have hword := ((Node.regular_of_everywhere hregular.1).identifier hkind).2
    rw [he] at hword
    cases hword

/-- The fields of a type are fields of the file. -/
theorem mem_descendants_of_field (hf : f.Sound) (htype : type ∈ f.root.descendantsOf ReadonlyField.holders)
    (hfield : field ∈ (type.body?).elim [] (·.ofKind .fieldDeclaration)) :
    field ∈ f.root.descendants ∧ field.kind = .fieldDeclaration := by
  cases hbody : type.body? with
  | none =>
    rw [hbody] at hfield
    cases hfield
  | some body =>
    rw [hbody, Option.elim_some] at hfield
    obtain ⟨hchild, hkind⟩ := List.mem_filter.1 hfield
    have hkind : field.kind = .fieldDeclaration := by simpa using hkind
    have hbodyChild : body ∈ type.children := by
      rcases Option.or_eq_some_iff.1 hbody with h | ⟨-, h⟩
      · exact mem_of_child? h
      · exact List.mem_of_find?_eq_some h
    have htype := (List.mem_filter.1 htype).1
    have hregular := Node.everywhere_of_mem_descendants hf.regular htype
    -- A body with something in it is no token.
    have hnamed : body.isNamed = true := by
      have hleaf := (Node.regular_of_everywhere ((Node.everywhere_iff.1 hregular).2 body hbodyChild)).leaf
      rw [Node.isNamed, bne_iff_ne]
      intro hk
      rw [hleaf hk] at hchild
      cases hchild
    have hin := Node.mem_descendants_of_child hchild (by simp [Node.isNamed, hkind]) (Node.mem_descendants_self field)
    exact ⟨Node.descendants_trans htype (Node.mem_descendants_of_child hbodyChild hnamed hin), hkind⟩

/-- There is no field in a field. -/
theorem eq_of_fields {k : Node} (hf : f.Sound) (hfield : field ∈ f.root.descendants) (hkind : field.kind = .fieldDeclaration)
    (hk : k.kind = .fieldDeclaration) (h : k ∈ field.descendants) : k = field := by
  rcases Node.mem_descendants.1 h with rfl | ⟨c, hc, -, hkc⟩
  · rfl
  · have hregular := Node.regular_of_everywhere (Node.everywhere_of_mem_descendants hf.regular hfield)
    exact absurd hk (hregular.noField hkind c hc k hkc)

/-- The field around a name in it. -/
theorem covering_field (hf : f.Sound) (hfield : field ∈ f.root.descendants) (hkind : field.kind = .fieldDeclaration)
    (hname : name ∈ ReadonlyField.names field) : f.root.covering? name.span [.fieldDeclaration] = some field := by
  obtain ⟨hin, hpos, hfits⟩ := name_spec hf hfield hname
  have hcovers : ∀ k : Node, Node.covers name.span k = true ↔ k.start ≤ name.start ∧ name.stop ≤ k.stop := fun k => by
    rw [Node.covers, Node.stop_span hfits, Node.start_span, Bool.and_eq_true, decide_eq_true_eq, decide_eq_true_eq]
  obtain ⟨k, hcovering, hmem, hk, hkcovers⟩ :=
    exists_covering hf.nests hfield (show [Kind.fieldDeclaration].contains field.kind = true by simp [hkind])
      ((hcovers field).2 ⟨hin.start, hin.stop⟩)
  have hk : k.kind = .fieldDeclaration := by simpa using hk
  rw [hcovering]
  rcases Node.below_or_apart hf.nests hmem hfield with hbelow | hbelow | hapart
  · rw [eq_of_fields hf hfield hkind hk hbelow]
  · rw [eq_of_fields hf hmem hk hkind hbelow]
  · obtain ⟨hstart, hstop⟩ := (hcovers k).1 hkcovers
    have := hin.start
    have := hin.stop
    simp only [Node.apart, Bool.or_eq_true, decide_eq_true_eq] at hapart
    omega

/-- A candidate is a name of its field, which is not readonly yet and has a place for it. -/
theorem candidate_spec (h : ReadonlyField.candidate? f type field = some name) : name ∈ ReadonlyField.names field ∧
    f.hasModifier field "readonly" = false ∧ (Modifier.readonlyPoint? f field).isSome = true := by
  obtain ⟨heligible, -, hfirst⟩ := ReadonlyField.candidate?_eq_some.1 h
  have hname : name ∈ ReadonlyField.names field := List.mem_of_head? hfirst
  refine ⟨hname, ?_, ?_⟩
  · have hmodifiers := (Bool.and_eq_true_iff.1 heligible).2
    rw [Bool.not_eq_true', List.any_eq_false] at hmodifiers
    rw [SourceFile.hasModifier, ← Bool.not_eq_true, List.contains_iff_mem]
    exact fun hmem => hmodifiers "readonly" hmem (by decide)
  · rw [Modifier.readonlyPoint?]
    split
    · rfl
    · cases hdecl : field.variableDeclaration? with
      | none => simp [ReadonlyField.names, hdecl] at hname
      | some decl => rfl

theorem readonlyInsertion?_eq {d : Diagnostic} (hf : f.Sound) (htype : type ∈ f.root.descendantsOf ReadonlyField.holders)
    (hfield : field ∈ (type.body?).elim [] (·.ofKind .fieldDeclaration))
    (h : ReadonlyField.candidate? f type field = some name) (hspan : d.span = name.span) :
    ∃ at_, Modifier.readonlyPoint? f field = some at_ ∧ readonlyInsertion? f d = some [.insert at_ "readonly "] := by
  obtain ⟨hname, hnot, hpoint⟩ := candidate_spec h
  obtain ⟨hmem, hkind⟩ := mem_descendants_of_field hf htype hfield
  obtain ⟨at_, hat⟩ := Option.isSome_iff_exists.1 hpoint
  refine ⟨at_, hat, ?_⟩
  rw [readonlyInsertion?, hspan, covering_field hf hmem hkind hname]
  dsimp only
  rw [hnot, if_neg Bool.false_ne_true, hat]
  rfl

/-- A pass makes every field readonly that could be. -/
theorem exists_insertion (hfile : sourceFile read s path = .ok f) (hf : f.Sound)
    (hchosen : Cleanup.chooseFixes (model read) s path CleanupRule.addMissingReadonly.diagnosticIds = .ok chosen)
    (htype : type ∈ f.root.descendantsOf ReadonlyField.holders) (hpartial : f.hasModifier type "partial" = false)
    (hfield : field ∈ (type.body?).elim [] (·.ofKind .fieldDeclaration))
    (hcandidate : (ReadonlyField.candidate? f type field).isSome = true) (hat : Modifier.readonlyPoint? f field = some at_) :
    ∃ e ∈ Cleanup.chosenFor chosen path, e.span.start = at_ := by
  have hedit : ∀ d ∈ diagnostics (.ofSnapshot read s) f, d.id = readonlyFieldId →
      ∃ e, e.span.length = 0 ∧ readonlyInsertion? f d = some [e] := by
    intro d hd hid
    rcases diagnostics_cases hf.fits hd with (h | h) | ⟨u, -, rfl⟩ | ⟨sp, -, rfl⟩ | ⟨n, hn, rfl⟩
    · exact absurd (h.symm.trans hid) (by decide)
    · exact absurd (h.symm.trans hid) (by decide)
    · exact absurd (show unneededUsingId = readonlyFieldId from hid) (by decide)
    · exact absurd (show modifierOrderId = readonlyFieldId from hid) (by decide)
    · obtain ⟨type, htype, hn⟩ := List.mem_flatMap.1 hn
      rw [ReadonlyField.inType] at hn
      split at hn
      · cases hn
      · obtain ⟨field, hfield, hn⟩ := List.mem_filterMap.1 hn
        obtain ⟨at_, -, h⟩ := readonlyInsertion?_eq (d := readonlyDiagnostic f n) hf htype hfield hn rfl
        exact ⟨_, rfl, h⟩
  obtain ⟨name, hname⟩ := Option.isSome_iff_exists.1 hcandidate
  have hd : readonlyDiagnostic f name ∈ diagnostics (.ofSnapshot read s) f := by
    rw [diagnostics, List.mem_mergeSort]
    simp only [List.mem_append, List.mem_map]
    refine .inr ⟨name, List.mem_flatMap.2 ⟨type, htype, ?_⟩, rfl⟩
    rw [ReadonlyField.inType, if_neg (by simp [hpartial])]
    exact List.mem_filterMap.2 ⟨field, hfield, hname⟩
  have hprov : ∀ r, registry read = .ok r → r.fixProvidersFor readonlyFieldId = [makeFieldReadonly read] := by
    intro r hr
    obtain ⟨rfl, -⟩ := Registry.ofProviders_eq_ok hr
    rfl
  -- Insertions at different places do not overlap.
  obtain ⟨e, he, e', he', hspan⟩ := exists_chosen_fix hfile hf.fits hchosen hprov (by decide) hedit
    (fun e e' he he' => by
      refine .inr ?_
      simp only [Edit.disjoint, List.all_cons, List.all_nil, Bool.and_true, Span.stop, he, he', Nat.add_zero, Bool.or_eq_true,
        decide_eq_true_eq]
      exact Nat.le_total _ _) hd rfl
  obtain ⟨at', hat', h⟩ := readonlyInsertion?_eq (d := readonlyDiagnostic f name) hf htype hfield hname rfl
  cases he.symm.trans h
  cases hat.symm.trans hat'
  exact ⟨e', he', congrArg Span.start hspan⟩

end

end Workbench.CSharp
