import Workbench.Proofs.Encoding
import Workbench.Proofs.Keeping

/-!
# The nearest project owns

A source file goes to the project whose directory is the nearest around it.
Directories are told apart by the length of their spelling, and the root is
spelled with one byte. So a directory of one byte right below the root is no
deeper than the root itself, and there a project file of the root may come
first.
-/

namespace Workbench.Loading

/-! ## Spellings of places -/

/-- Names that stand between slashes. -/
def AreNames (ns : List String) : Prop := ∀ n ∈ ns, n ≠ "" ∧ n ≠ "." ∧ '/' ∉ n.toList

instance (ns : List String) : Decidable (AreNames ns) := inferInstanceAs (Decidable (∀ n ∈ ns, _))

section
variable {d e f g : List String}

theorem AreNames.above (h : AreNames f) (hd : d <+: f) : AreNames d := fun n hn => h n (hd.subset hn)

theorem relative_of_ne_nil (hne : d ≠ []) : relative d = "/".intercalate d := by
  rw [relative, if_neg (by simpa using hne)]

theorem splitOnChar_relative (h : AreNames d) (hne : d ≠ []) : splitOnChar '/' (relative d) = d := by
  rw [relative_of_ne_nil hne]
  exact splitOnChar_intercalate rfl (fun n hn => (h n hn).2.2) hne

theorem relative_append (hd : d ≠ []) (he : e ≠ []) : relative (d ++ e) = relative d ++ "/" ++ relative e := by
  rw [relative_of_ne_nil hd, relative_of_ne_nil he, relative_of_ne_nil (List.append_ne_nil_of_left_ne_nil hd e),
    String.intercalate_append_of_ne_nil hd he]

theorem relative_ne_empty (h : AreNames d) : relative d ≠ "" := fun hempty => by
  by_cases hroot : d = []
  · rw [hroot] at hempty
    exact absurd hempty (by decide)
  · have hsplit := splitOnChar_relative h hroot
    rw [hempty] at hsplit
    exact (h "" (hsplit ▸ by decide)).1 rfl

/-- The test on spellings finds what lies in a directory or below it. -/
theorem isWithin_relative (hd : AreNames d) (hf : AreNames f) (hne : f ≠ []) :
    isWithin (relative f) (relative d) = true ↔ d <+: f.dropLast := by
  by_cases hroot : d = []
  · subst hroot
    exact ⟨fun _ => List.nil_prefix, fun _ => rfl⟩
  have hsplit := splitOnChar_relative hd hroot
  have hdot : relative d ≠ "." := fun h => by
    rw [h] at hsplit
    exact (hd "." (hsplit ▸ by decide)).2.1 rfl
  have hwithin : isWithin (relative f) (relative d) = true ↔ (relative d ++ "/").toList <+: (relative f).toList := by
    rw [isWithin, decide_eq_false hdot, decide_eq_false (relative_ne_empty hd), Bool.false_or, Bool.false_or]
    exact String.startsWith_string_iff
  rw [hwithin]
  constructor
  · rintro ⟨rest, hrest⟩
    have hparts : f = d ++ (rest.splitOnP (· == '/')).map String.ofList := by
      have hf' := splitOnChar_relative hf hne
      have hchars : (relative d ++ "/").toList ++ rest = (relative d).toList ++ '/' :: rest := by
        rw [String.toList_append, List.append_assoc]
        rfl
      rw [splitOnChar, ← hrest, hchars, List.splitOnP_append_cons (p := (· == '/')) _ _ (beq_self_eq_true '/'),
        List.map_append] at hf'
      rw [← hf']
      exact congrArg (· ++ _) hsplit
    have htail : (rest.splitOnP (· == '/')).map String.ofList ≠ [] := by simp [List.splitOnP_ne_nil]
    rw [hparts, List.dropLast_append_of_ne_nil htail]
    exact List.prefix_append d _
  · rintro ⟨e, he⟩
    obtain ⟨last, rfl⟩ : ∃ last, f = d ++ (e ++ [last]) :=
      ⟨f.getLast hne, by rw [← List.append_assoc, he, List.dropLast_concat_getLast]⟩
    rw [relative_append hroot (List.append_ne_nil_of_right_ne_nil e (List.cons_ne_nil _ []))]
    exact ⟨(relative (e ++ [last])).toList, (String.toList_append ..).symm⟩

/-- The spelling of a place grows with every name, but for the first one where that is as short as the dot of the root. -/
theorem size_relative_above (hg : AreNames g) (hd : d <+: g) (hne : d ≠ g) :
    (relative d).utf8ByteSize < (relative g).utf8ByteSize ∨ d = [] ∧ (relative g).utf8ByteSize = 1 := by
  by_cases hroot : d = []
  · have hdot : (relative d).utf8ByteSize = 1 := by rw [hroot]; decide
    have hpos : 1 ≤ (relative g).utf8ByteSize :=
      Nat.pos_of_ne_zero fun h => relative_ne_empty hg (String.utf8ByteSize_eq_zero_iff.1 h)
    rw [hdot]
    exact (Nat.lt_or_eq_of_le hpos).imp id fun h => ⟨hroot, h.symm⟩
  · obtain ⟨e, rfl⟩ := hd
    have he : e ≠ [] := fun he => hne (by rw [he, List.append_nil])
    have hslash : "/".utf8ByteSize = 1 := by decide
    rw [relative_append hroot he, String.utf8ByteSize_append, String.utf8ByteSize_append]
    omega

end

/-! ## The order of projects -/

/-- The larger ones come first, and among those of one size the one with the smaller path. -/
def largerFirst {α : Type} (size : α → Nat) (path : α → String) (a b : α) : Bool :=
  size b < size a || (size a == size b && path a ≤ path b)

theorem deeper_eq : deeper = largerFirst (·.dir.utf8ByteSize) (·.path) := rfl

section
variable {α : Type} {size : α → Nat} {path : α → String} {a b : α}

theorem largerFirst_iff : largerFirst size path a b = true ↔
    size b < size a ∨ size a = size b ∧ path a ≤ path b := by
  rw [largerFirst, Bool.or_eq_true, decide_eq_true_iff, Bool.and_eq_true, beq_iff_eq, decide_eq_true_iff]

variable (size path) in
theorem pairwise_largerFirst (xs : List α) :
    (xs.mergeSort (largerFirst size path)).Pairwise fun a b => largerFirst size path a b = true := by
  refine List.pairwise_mergeSort (fun a b c hab hbc => ?_) (fun a b => ?_) xs
  · rw [largerFirst_iff] at hab hbc ⊢
    rcases hab with hab | ⟨hab, hle⟩ <;> rcases hbc with hbc | ⟨hbc, hle'⟩
    · exact .inl (by omega)
    · exact .inl (by omega)
    · exact .inl (by omega)
    · exact .inr ⟨by omega, String.le_trans hle hle'⟩
  · rw [Bool.or_eq_true, largerFirst_iff, largerFirst_iff]
    rcases Nat.lt_trichotomy (size a) (size b) with h | h | h
    · exact .inr (.inl h)
    · rcases String.le_total (path a) (path b) with hle | hle
      · exact .inl (.inr ⟨h, hle⟩)
      · exact .inr (.inr ⟨h.symm, hle⟩)
    · exact .inl (.inl h)

/-- What is found in that order comes before all that would do. -/
theorem first_of_find? {p : α → Bool} {xs : List α} (h : (xs.mergeSort (largerFirst size path)).find? p = some a) :
    a ∈ xs ∧ p a = true ∧ ∀ b ∈ xs, p b = true → largerFirst size path a b = true := by
  refine ⟨List.mem_mergeSort.1 (List.mem_of_find?_eq_some h), List.find?_some h, fun b hb hpb => ?_⟩
  rcases eq_or_rel_of_find? (pairwise_largerFirst size path xs) h b (List.mem_mergeSort.2 hb) hpb with rfl | hfirst
  · exact largerFirst_iff.2 (.inr ⟨rfl, String.le_refl _⟩)
  · exact hfirst

end

/-! ## The nearest project file -/

section
variable (root : Disk.Place) (files : List WalkedFile)

/-- The files of a walk have names below the root. -/
structure Walked : Prop where
  below : ∀ f ∈ files, f.names ≠ []
  names : ∀ f ∈ files, AreNames f.names

/-- The directory of `g` holds `f` or is above it. -/
def Around (g f : WalkedFile) : Prop := g.names.dropLast <+: f.names.dropLast

instance (g f : WalkedFile) : Decidable (Around g f) := inferInstanceAs (Decidable (_ <+: _))

/-- The project file `g` is around `f`, and no other one is nearer, or in the same directory at a smaller path. -/
structure Nearest (f g : WalkedFile) : Prop where
  mem : g ∈ files
  isProject : isProjectFile root g = true
  around : Around g f
  nearest : ∀ g' ∈ files, isProjectFile root g' = true → Around g' f →
    g'.names.dropLast.length < g.names.dropLast.length ∨
      g'.names.dropLast = g.names.dropLast ∧ relative g.names ≤ relative g'.names

instance (f g : WalkedFile) : Decidable (Nearest root files f g) :=
  decidable_of_iff (_ ∧ _ ∧ Around g f ∧ _)
    ⟨fun ⟨mem, isProject, around, nearest⟩ => ⟨mem, isProject, around, nearest⟩,
      fun h => ⟨h.mem, h.isProject, h.around, h.nearest⟩⟩

/-- The directory of the project file `g` is not the root but is spelled with one byte, and the root holds a project file at
a smaller path. -/
def Overtaken (g : WalkedFile) : Prop :=
  (g.names.dropLast ≠ [] ∧ (relative g.names.dropLast).utf8ByteSize = 1) ∧
    ∃ q ∈ files, isProjectFile root q = true ∧ q.names.dropLast = [] ∧ relative q.names < relative g.names

instance (g : WalkedFile) : Decidable (Overtaken root files g) := inferInstanceAs (Decidable (_ ∧ ∃ q ∈ files, _))

variable {root files} {f g : WalkedFile}

theorem exists_nearest (hg : g ∈ files) (hproject : isProjectFile root g = true) (haround : Around g f) :
    ∃ g, Nearest root files f g := by
  let fits (g : WalkedFile) : Bool := isProjectFile root g && decide (Around g f)
  have hfits {g : WalkedFile} : fits g = true ↔ isProjectFile root g = true ∧ Around g f := by
    rw [Bool.and_eq_true, decide_eq_true_iff]
  have hfound : ((files.mergeSort (largerFirst (·.names.dropLast.length) (relative ·.names))).find? fits).isSome :=
    List.find?_isSome.2 ⟨g, List.mem_mergeSort.2 hg, hfits.2 ⟨hproject, haround⟩⟩
  obtain ⟨a, ha⟩ := Option.isSome_iff_exists.1 hfound
  obtain ⟨hmem, hspec, hfirst⟩ := first_of_find? ha
  refine ⟨a, hmem, (hfits.1 hspec).1, (hfits.1 hspec).2, fun b hb hproject haround => ?_⟩
  rcases largerFirst_iff.1 (hfirst b hb (hfits.2 ⟨hproject, haround⟩)) with h | ⟨h, hle⟩
  · exact .inl h
  · have hbelow := List.prefix_of_prefix_length_le haround (hfits.1 hspec).2 (Nat.le_of_eq h.symm)
    exact .inr ⟨hbelow.eq_of_length h.symm, hle⟩

section
variable (hw : Walked files)
include hw

theorem Walked.around_iff (hg : g ∈ files) (hf : f ∈ files) :
    isWithin (relative f.names) (relative g.names.dropLast) = true ↔ Around g f :=
  isWithin_relative ((hw.names g hg).above (List.dropLast_prefix _)) (hw.names f hf) (hw.below f hf)

theorem Walked.path_injective (hg : g ∈ files) (hf : f ∈ files) (h : relative g.names = relative f.names) :
    g.names = f.names := by
  rw [← splitOnChar_relative (hw.names g hg) (hw.below g hg), h, splitOnChar_relative (hw.names f hf) (hw.below f hf)]

/-- The owner of a source file is a project file around it, and comes before all the others that are. -/
theorem Walked.owner_first (hf : f ∈ files) {n : NamedProject}
    (hn : (named root files).find? (fun p => isWithin (relative f.names) p.file.dir) = some n) :
    ∃ c ∈ files, isProjectFile root c = true ∧ n.file.path = relative c.names ∧ Around c f ∧
      ∀ p ∈ files, isProjectFile root p = true → Around p f →
        (relative p.names.dropLast).utf8ByteSize < (relative c.names.dropLast).utf8ByteSize ∨
          (relative c.names.dropLast).utf8ByteSize = (relative p.names.dropLast).utf8ByteSize ∧
            relative c.names ≤ relative p.names := by
  have hfind : ((projectFiles root files).mergeSort deeper).find? (fun p => isWithin (relative f.names) p.dir) =
      some n.file := by
    rw [← map_file_named, List.find?_map]
    exact congrArg (Option.map (·.file)) hn
  rw [deeper_eq] at hfind
  obtain ⟨hmem, hwithin, hfirst⟩ := first_of_find? hfind
  obtain ⟨c, hc, hfile⟩ := List.mem_map.1 hmem
  obtain ⟨hc, hproject⟩ := List.mem_filter.1 hc
  rw [← hfile] at hwithin hfirst ⊢
  refine ⟨c, hc, hproject, rfl, (hw.around_iff hc hf).1 hwithin, fun p hp hpproject haround => ?_⟩
  exact largerFirst_iff.1 (hfirst (projectFileOf root p) (List.mem_map_of_mem (List.mem_filter.2 ⟨hp, hpproject⟩))
    ((hw.around_iff hp hf).2 haround))

/-- The owner of a source file is the nearest project file unless that is overtaken. -/
theorem Walked.path_owner_iff (hf : f ∈ files) (hg : Nearest root files f g) {n : NamedProject}
    (hn : (named root files).find? (fun p => isWithin (relative f.names) p.file.dir) = some n) :
    n.file.path = relative g.names ↔ ¬Overtaken root files g := by
  obtain ⟨c, hc, hproject, hpath, haround, hfirst⟩ := hw.owner_first hf hn
  have hcg := hfirst g hg.mem hg.isProject hg.around
  rw [hpath]
  constructor
  · rintro hpath ⟨⟨-, hone⟩, q, hq, hqproject, hqroot, hlt⟩
    have hcq := hfirst q hq hqproject (show q.names.dropLast <+: _ from hqroot ▸ List.nil_prefix)
    rw [hw.path_injective hc hg.mem hpath, hone, hqroot] at hcq
    rcases hcq with h | ⟨-, hle⟩
    · exact absurd h (by decide)
    · exact String.not_lt.2 hle hlt
  · intro hkept
    rcases hg.nearest c hc hproject haround with hlength | ⟨hsame, hle⟩
    · -- A farther directory comes first only from the root and by its path, and then `g` is overtaken.
      have hbelow := List.prefix_of_prefix_length_le haround hg.around (Nat.le_of_lt hlength)
      have hne : c.names.dropLast ≠ g.names.dropLast := fun h => Nat.lt_irrefl _ (h ▸ hlength)
      rcases size_relative_above ((hw.names g hg.mem).above (List.dropLast_prefix _)) hbelow hne with
        hsize | ⟨hroot, hone⟩
      · rcases hcg with h | ⟨h, -⟩ <;> omega
      · rw [hroot, hone] at hcg
        rcases hcg with h | ⟨-, hle⟩
        · exact absurd h (by decide)
        · have hother : relative c.names ≠ relative g.names := fun h =>
            hne (congrArg List.dropLast (hw.path_injective hc hg.mem h))
          have hlt : relative c.names < relative g.names := String.not_le.1 fun h => hother (String.le_antisymm hle h)
          exact absurd ⟨⟨hroot ▸ hne.symm, hone⟩, c, hc, hproject, hroot, hlt⟩ hkept
    · rw [hsame] at hcg
      rcases hcg with h | ⟨-, hle'⟩
      · exact absurd h (Nat.lt_irrefl _)
      · exact String.le_antisymm hle' hle

end

/-- The project `p` of a snapshot owns the document of a source file. -/
def Owns (s : Snapshot) (p : Project) (src : SourceText) : Prop :=
  ∃ d, s.document? (Path.tidy src.path) = some d ∧ d.file = some src.file ∧ d.text = src.text ∧
    s.project? d.project = some p

theorem Holds.owns {projects : List NamedProject} {rootName : String} {hasRoot : Bool} {added : List SourceText}
    {s : Snapshot} (h : Holds projects rootName hasRoot added s)
    (hpaths : (added.map fun f => Path.tidy f.path).Nodup) {src : SourceText} (hsrc : src ∈ added)
    (hnames : (tableNames projects rootName hasRoot).Nodup) {p : Project} (hp : p ∈ table projects rootName hasRoot added)
    (hname : p.name = ownerName projects rootName src) : Owns s p src := by
  have hkeys : ((added.map (documentOf projects rootName)).map Document.path).Nodup := by
    rw [List.map_map]
    exact hpaths
  refine ⟨documentOf projects rootName src, ?_, rfl, rfl, ?_⟩
  · exact (h.document? _).trans (Ordered.find?_of_nodup hkeys (List.mem_map_of_mem hsrc))
  · rw [documentOf, ← hname, h.project?]
    exact Ordered.find?_of_nodup (map_name_table ▸ hnames) hp

section
variable (hu : Unclashed root files) {src : SourceText} (hsrc : src ∈ sources root files)
include hu hsrc

theorem Unclashed.owns {p : Project} (hname : p.name = ownerName (named root files) (rootName root) src)
    (hp : p ∈ table (named root files) (rootName root) (hasRoot root files) (sorted root files)) :
    Owns (snapshotOf root (projectFiles root files) (sources root files)) p src :=
  hu.holds.owns ((sorted_perm.map _).nodup_iff.2 hu.paths) (sorted_perm.mem_iff.2 hsrc) hu.names hp hname

theorem Unclashed.found {n : NamedProject}
    (hn : (named root files).find? (fun p => isWithin src.path p.file.dir) = some n) :
    ∃ p, Owns (snapshotOf root (projectFiles root files) (sources root files)) p src ∧
      p.projectFile = some n.file.path := by
  refine ⟨_, hu.owns hsrc ?_ (List.mem_append_left _ (List.mem_map_of_mem (List.mem_of_find?_eq_some hn))), rfl⟩
  rw [ownerName, owner?, hn]
  rfl

theorem Unclashed.free (hfree : isFree root files src = true) :
    ∃ p, Owns (snapshotOf root (projectFiles root files) (sources root files)) p src ∧
      p.name = rootName root ∧ p.projectFile = none ∧ p.dir = "." := by
  have hroot : hasRoot root files = true := List.any_eq_true.2 ⟨src, hsrc, hfree⟩
  have hrow : rootProject (named root files) (rootName root) (sorted root files) ∈
      table (named root files) (rootName root) (hasRoot root files) (sorted root files) := by
    rw [table, hroot, if_pos rfl]
    exact List.mem_append_right _ (List.mem_singleton.2 rfl)
  exact ⟨_, hu.owns hsrc (ownerName_of_loose (isLoose_named src ▸ hfree)).symm hrow, rfl, rfl, rfl⟩

end

/-- A source file is owned by the nearest project file around it exactly when that one is not overtaken, and by the project
of the root when there is none around it. -/
theorem nearest_owns_iff (root : Disk.Place) {files : List WalkedFile} (hw : Walked files) (hu : Unclashed root files) :
    ∃ s, ofWalk root files = .ok s ∧ ∀ f ∈ files, ∀ src, sourceText? root f = some src → ∃ p, Owns s p src ∧
      ((∃ g, Nearest root files f g ∧ (p.projectFile = some (relative g.names) ↔ ¬Overtaken root files g)) ∨
        (∀ g ∈ files, isProjectFile root g = true → ¬Around g f) ∧
          p.name = rootName root ∧ p.projectFile = none ∧ p.dir = ".") := by
  refine ⟨_, ofWalk_eq hw.below, fun f hf src hsource => ?_⟩
  have hsrc : src ∈ sources root files := List.mem_filterMap.2 ⟨f, hf, hsource⟩
  have hpath : src.path = relative f.names := by
    rw [sourceText?] at hsource
    split at hsource
    · obtain ⟨text, -, rfl⟩ := Option.map_eq_some_iff.1 hsource
      rfl
    · cases hsource
  cases hfound : (named root files).find? fun p => isWithin src.path p.file.dir with
  | some n =>
    obtain ⟨p, howns, hfile⟩ := hu.found hsrc hfound
    rw [hpath] at hfound
    refine ⟨p, howns, .inl ?_⟩
    obtain ⟨c, hc, hproject, -, haround, -⟩ := hw.owner_first hf hfound
    obtain ⟨g, hg⟩ := exists_nearest hc hproject haround
    exact ⟨g, hg, by rw [hfile, Option.some_inj, hw.path_owner_iff hf hg hfound]⟩
  | none =>
    have hfree : isFree root files src = true := by
      rw [← isLoose_named, isLoose, owner?, hfound]
      rfl
    obtain ⟨p, howns, hroot⟩ := hu.free hsrc hfree
    refine ⟨p, howns, .inr ⟨fun g hg hproject haround => ?_, hroot⟩⟩
    have hnot := List.all_eq_true.1 hfree (projectFileOf root g)
      (List.mem_map_of_mem (List.mem_filter.2 ⟨hg, hproject⟩))
    rw [hpath, Bool.not_eq_true'] at hnot
    exact absurd ((hw.around_iff hg hf).2 haround) (Bool.eq_false_iff.1 hnot)

/-- A walk on a project below another one. -/
def nestedProjects : List WalkedFile :=
  [⟨["src", "Lib", "Lib.csproj"], some "<Project />"⟩, ⟨["src", "Lib", "Inner", "Util.cs"], some "class Util { }"⟩,
    ⟨["App.csproj"], some "<Project />"⟩, ⟨["Main.cs"], some "class Main { }"⟩]

theorem nearest_owns_on_nestedProjects : ∃ s p, ofWalk ["ws"] nestedProjects = .ok s ∧
    Owns s p ⟨"src/Lib/Inner/Util.cs", "/ws/src/Lib/Inner/Util.cs", "class Util { }"⟩ ∧
    p.projectFile = some "src/Lib/Lib.csproj" := by
  have hnamed := named_of_sorted (show (projectFiles ["ws"] nestedProjects).Pairwise fun a b => deeper a b = true by
    decide +kernel)
  have hunclashed : Unclashed ["ws"] nestedProjects := by
    refine ⟨?_, by decide +kernel⟩
    rw [hnamed]
    decide +kernel
  have hsource : sourceText? ["ws"] ⟨["src", "Lib", "Inner", "Util.cs"], some "class Util { }"⟩ =
      some ⟨"src/Lib/Inner/Util.cs", "/ws/src/Lib/Inner/Util.cs", "class Util { }"⟩ := by decide +kernel
  obtain ⟨s, hs, howned⟩ := nearest_owns_iff ["ws"] (show Walked nestedProjects from ⟨by decide, by decide⟩) hunclashed
  obtain ⟨p, howns, ⟨g, hg, hiff⟩ | ⟨hnone, -⟩⟩ := howned _ (by decide) _ hsource
  · refine ⟨s, p, hs, howns, ?_⟩
    have hlib : ∀ g ∈ nestedProjects, Nearest ["ws"] nestedProjects
        ⟨["src", "Lib", "Inner", "Util.cs"], some "class Util { }"⟩ g →
        relative g.names = "src/Lib/Lib.csproj" ∧ ¬Overtaken ["ws"] nestedProjects g := by decide +kernel
    obtain ⟨hpath, hkept⟩ := hlib g hg.mem hg
    exact hpath ▸ hiff.2 hkept
  · exact absurd (by decide) (hnone ⟨["src", "Lib", "Lib.csproj"], some "<Project />"⟩ (by decide) (by decide +kernel))

/-- A walk on a project of the root and one in a directory with a name of one character. -/
def shortDirectory : List WalkedFile :=
  [⟨["A.csproj"], some "<Project />"⟩, ⟨["b", "B.csproj"], some "<Project />"⟩, ⟨["b", "x.cs"], some "class X { }"⟩]

/-- The project of the root owns the file of the directory, though another project file is nearer. -/
theorem nearest_overtaken : ∃ s p, ofWalk ["ws"] shortDirectory = .ok s ∧
    Owns s p ⟨"b/x.cs", "/ws/b/x.cs", "class X { }"⟩ ∧ p.projectFile = some "A.csproj" ∧
    Nearest ["ws"] shortDirectory ⟨["b", "x.cs"], some "class X { }"⟩ ⟨["b", "B.csproj"], some "<Project />"⟩ := by
  have hnamed := named_of_sorted (show (projectFiles ["ws"] shortDirectory).Pairwise fun a b => deeper a b = true by
    decide +kernel)
  have hunclashed : Unclashed ["ws"] shortDirectory := by
    refine ⟨?_, by decide +kernel⟩
    rw [hnamed]
    decide +kernel
  have hfirst : (named ["ws"] shortDirectory).find? (fun p => isWithin "b/x.cs" p.file.dir) =
      some ⟨"A", "A", ".", "A.csproj"⟩ := by
    rw [hnamed]
    decide +kernel
  have hsource : (⟨"b/x.cs", "/ws/b/x.cs", "class X { }"⟩ : SourceText) ∈ sources ["ws"] shortDirectory := by decide +kernel
  obtain ⟨p, howns, hfile⟩ := hunclashed.found hsource hfirst
  exact ⟨_, p, ofWalk_eq (by decide), howns, hfile, by decide +kernel⟩

end

end Workbench.Loading
