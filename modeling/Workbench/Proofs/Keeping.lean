import Mathlib.Data.List.Nodup
import Mathlib.Data.List.Perm.Subperm
import Workbench.Loading
import Workbench.Proofs.Editing

/-!
# Loading loses nothing

A snapshot that is loaded keeps every source file and every project file that
the walk has found, and tells which project lists which document, exactly when
no two of them get one key: documents are keyed by their tidy path, projects by
their name. What is keyed like something before it takes its place.
-/

namespace Workbench

namespace Ordered

section
variable {α β : Type} {key : α → String} {xs ys : List α} {k : String}

theorem find?_append : find? key k (xs ++ ys) = (find? key k xs).or (find? key k ys) := List.find?_append

theorem find?_eq_none_iff : find? key k xs = none ↔ k ∉ xs.map key := by
  rw [find?, List.find?_eq_none, List.mem_map]
  simp only [beq_iff_eq, not_exists, not_and]

/-- A new key at the end is found like one that is put in. -/
theorem find?_append_new {a : α} (hnew : key a ∉ xs.map key) :
    find? key k (xs ++ [a]) = if key a = k then some a else find? key k xs := by
  rw [find?_append, find?_cons]
  by_cases hk : key a = k
  · rw [if_pos hk, if_pos hk, ← hk, find?_eq_none_iff.2 hnew, Option.none_or]
  · rw [if_neg hk, if_neg hk]
    exact Option.or_none

/-- A change that leaves the keys alone goes through a look-up. -/
theorem find?_map {g : α → α} (hg : ∀ a, key (g a) = key a) : find? key k (xs.map g) = (find? key k xs).map g := by
  rw [find?, List.find?_map, find?]
  refine congrArg (Option.map g) (congrArg (xs.find? ·) (funext fun a => ?_))
  rw [Function.comp_apply, hg]

/-- An ordered list is known by its look-ups. -/
theorem perm_of_find? (h : Ascending key xs) (hys : (ys.map key).Nodup) (hf : ∀ k, find? key k xs = find? key k ys) :
    xs.Perm ys := by
  refine (List.perm_ext_iff_of_nodup (List.Nodup.of_map key h.nodup) (List.Nodup.of_map key hys)).2 fun a => ?_
  refine ⟨fun ha => ?_, fun ha => ?_⟩
  · exact (find?_eq_some ((hf (key a)).symm.trans (find?_of_mem h ha))).1
  · exact (find?_eq_some ((hf (key a)).trans (find?_of_nodup hys ha))).1

end

theorem ofList_append (xs : List String) (x : String) : ofList (xs ++ [x]) = add x (ofList xs) := by
  rw [ofList, List.foldl_append, ofList]
  rfl

end Ordered

namespace Snapshot

variable {s : Snapshot} {k name dir path text : String} {file : Option String}

theorem project?_addProject : (s.addProject name dir file).project? k =
    if name = k then some ⟨name, file, dir, []⟩ else s.project? k := Ordered.find?_put

theorem document?_addProject : (s.addProject name dir file).document? k = s.document? k := rfl

/-- The project of a document that is added, as it is made if there is none. -/
theorem project?_addDocument {p : Project} (hp : (s.project? name).getD ⟨name, none, "", []⟩ = p) :
    (s.addDocument name path text file).project? k =
      if p.name = k then some { p with documents := Ordered.add (Path.tidy path) p.documents } else s.project? k := by
  subst hp
  exact Ordered.find?_put

theorem document?_addDocument : (s.addDocument name path text file).document? k =
    if Path.tidy path = k then some ⟨Path.tidy path, name, text, file⟩ else s.document? k := Ordered.find?_put

/-- A statement about names of projects that holds of what is added goes on to hold. -/
theorem forall_name_addProject {Q : String → Prop} (hs : ∀ p ∈ s.projects, Q p.name) (hname : Q name) :
    ∀ p ∈ (s.addProject name dir file).projects, Q p.name := fun p hp => by
  rcases Ordered.mem_put hp with rfl | hp
  · exact hname
  · exact hs p hp

theorem forall_name_addDocument {Q : String → Prop} (hs : ∀ p ∈ s.projects, Q p.name) (hname : Q name) :
    ∀ p ∈ (s.addDocument name path text file).projects, Q p.name := fun p hp => by
  rcases Ordered.mem_put hp with rfl | hp
  · dsimp only
    cases howner : Ordered.find? Project.name name s.projects with
    | none => exact hname
    | some owner => exact hs owner (Ordered.find?_eq_some howner).1
  · exact hs p hp

end Snapshot

namespace Loading

/-! ## What a walk has found -/

section
variable (root : Disk.Place) (files : List WalkedFile)

def isProjectFile (f : WalkedFile) : Bool := (extensionOf root f).any isProject

def projectFileOf (f : WalkedFile) : ProjectFile :=
  ⟨(splitName (fileName root f.names)).1, relative f.names.dropLast, relative f.names⟩

/-- The project files of a walk that stays below its root. -/
def projectFiles : List ProjectFile := (files.filter (isProjectFile root)).map (projectFileOf root)

def sources : List SourceText := files.filterMap (sourceText? root)

/-- The sources in the order in which they are added. -/
def sorted : List SourceText := (sources root files).mergeSort fun a b => a.path ≤ b.path

/-- The projects in the order in which owners are looked for. -/
def named : List NamedProject := nameProjects [] ((projectFiles root files).mergeSort deeper)

def rootName : String := root.getLast?.getD "workspace"

/-- Whether no project owns a source file. -/
def isLoose (projects : List NamedProject) (f : SourceText) : Bool := (owner? projects f.path).isNone

variable {root files}

theorem ofWalk_eq (hbelow : ∀ f ∈ files, f.names ≠ []) :
    ofWalk root files = .ok (snapshotOf root (projectFiles root files) (sources root files)) := by
  have hmap (fs : List WalkedFile) (hfs : ∀ f ∈ fs, f.names ≠ []) :
      fs.mapM (projectFile root) = .ok (fs.map (projectFileOf root)) := by
    induction fs with
    | nil => rfl
    | cons f rest ih =>
      have hf : f.names.isEmpty = false := by simpa using hfs f List.mem_cons_self
      rw [List.mapM_cons, ih fun g hg => hfs g (List.mem_cons_of_mem f hg), projectFile, hf]
      rfl
  rw [ofWalk, hmap _ fun f hf => hbelow f (List.mem_filter.1 hf).1]
  rfl

end

/-! ## The tables of a snapshot -/

section
variable (projects : List NamedProject) (rootName : String) (hasRoot : Bool) (added : List SourceText)

def ownerName (f : SourceText) : String := (owner? projects f.path).getD rootName

def documentOf (f : SourceText) : Document := ⟨Path.tidy f.path, ownerName projects rootName f, f.text, some f.file⟩

/-- What a project lists of the sources that have been added. -/
def listed (name : String) : List String :=
  Ordered.ofList ((added.filter fun f => ownerName projects rootName f = name).map fun f => Path.tidy f.path)

def projectOf (p : NamedProject) : Project :=
  ⟨p.name, some p.file.path, p.file.dir, listed projects rootName added p.name⟩

def rootProject : Project := ⟨rootName, none, ".", listed projects rootName added rootName⟩

/-- The projects of the snapshot, which has one for the root or not. -/
def table : List Project :=
  projects.map (projectOf projects rootName added) ++ if hasRoot then [rootProject projects rootName added] else []

def tableNames : List String := projects.map (·.name) ++ if hasRoot then [rootName] else []

/-- A snapshot whose look-ups are those of the tables. -/
structure Holds (s : Snapshot) : Prop where
  project? : ∀ k, s.project? k = Ordered.find? Project.name k (table projects rootName hasRoot added)
  document? : ∀ k, s.document? k = Ordered.find? Document.path k (added.map (documentOf projects rootName))

/-- The project of a source lists its path. -/
def enlist (f : SourceText) (p : Project) : Project :=
  if ownerName projects rootName f = p.name then { p with documents := Ordered.add (Path.tidy f.path) p.documents } else p

variable {projects rootName hasRoot added} {s : Snapshot} {f : SourceText}

theorem map_name_table : (table projects rootName hasRoot added).map (·.name) = tableNames projects rootName hasRoot := by
  rw [table, tableNames, List.map_append, List.map_map]
  refine congrArg₂ (· ++ ·) rfl ?_
  split <;> rfl

theorem ownerName_of_owned (h : isLoose projects f = false) :
    ownerName projects rootName f ∈ projects.map (·.name) := by
  obtain ⟨name, hname⟩ := Option.isSome_iff_exists.1 (Option.isNone_eq_false_iff.1 h)
  obtain ⟨p, hp, rfl⟩ := Option.map_eq_some_iff.1 hname
  rw [ownerName, hname]
  exact List.mem_map_of_mem (List.mem_of_find?_eq_some hp)

theorem ownerName_of_loose (h : isLoose projects f = true) : ownerName projects rootName f = rootName := by
  rw [ownerName, Option.isNone_iff_eq_none.1 h, Option.getD_none]

theorem ownerName_mem (h : isLoose projects f = true → hasRoot = true) :
    ownerName projects rootName f ∈ tableNames projects rootName hasRoot := by
  rw [tableNames, List.mem_append]
  cases hl : isLoose projects f with
  | false => exact .inl (ownerName_of_owned hl)
  | true =>
    rw [h hl, if_pos rfl, ownerName_of_loose hl]
    exact .inr (List.mem_singleton.2 rfl)

theorem mem_table {p : Project} (hp : p ∈ table projects rootName hasRoot added) :
    p.documents = listed projects rootName added p.name ∧ (p.projectFile = none → p.name = rootName) := by
  rcases List.mem_append.1 hp with hp | hp
  · obtain ⟨n, -, rfl⟩ := List.mem_map.1 hp
    exact ⟨rfl, fun h => absurd h (Option.some_ne_none _)⟩
  · split at hp
    · obtain rfl := List.mem_singleton.1 hp
      exact ⟨rfl, fun _ => rfl⟩
    · cases hp

theorem name_enlist (p : Project) : (enlist projects rootName f p).name = p.name := by
  rw [enlist]
  split <;> rfl

theorem listed_append (name : String) : listed projects rootName (added ++ [f]) name =
    if ownerName projects rootName f = name then Ordered.add (Path.tidy f.path) (listed projects rootName added name)
    else listed projects rootName added name := by
  rw [listed, List.filter_append, List.map_append]
  by_cases h : ownerName projects rootName f = name
  · rw [if_pos h, List.filter_cons_of_pos (by simpa using h)]
    exact Ordered.ofList_append _ _
  · rw [if_neg h, List.filter_cons_of_neg (by simpa using h), List.filter_nil, List.map_nil, List.append_nil, listed]

theorem table_append : table projects rootName hasRoot (added ++ [f]) =
    (table projects rootName hasRoot added).map (enlist projects rootName f) := by
  have hproject (p : NamedProject) : projectOf projects rootName (added ++ [f]) p =
      enlist projects rootName f (projectOf projects rootName added p) := by
    rw [projectOf, listed_append, enlist, projectOf]
    split <;> rfl
  have hroot : rootProject projects rootName (added ++ [f]) =
      enlist projects rootName f (rootProject projects rootName added) := by
    rw [rootProject, listed_append, enlist, rootProject]
    split <;> rfl
  rw [table, table, List.map_append, List.map_map]
  refine congrArg₂ (· ++ ·) (List.map_congr_left fun p _ => hproject p) ?_
  split
  · rw [hroot, List.map_singleton]
  · rfl

/-! ## Adding documents -/

/-- A document that is added is listed by its project, which is in the table. -/
theorem Holds.addDocument (h : Holds projects rootName hasRoot added s)
    (hname : ownerName projects rootName f ∈ tableNames projects rootName hasRoot)
    (hnew : Path.tidy f.path ∉ added.map fun f => Path.tidy f.path) :
    Holds projects rootName hasRoot (added ++ [f])
      (s.addDocument (ownerName projects rootName f) f.path f.text (some f.file)) where
  project? k := by
    obtain ⟨p, hp⟩ : ∃ p, Ordered.find? Project.name (ownerName projects rootName f)
        (table projects rootName hasRoot added) = some p :=
      Option.ne_none_iff_exists'.1 fun hnone => Ordered.find?_eq_none_iff.1 hnone (map_name_table ▸ hname)
    obtain ⟨-, hpname⟩ := Ordered.find?_eq_some hp
    have howner : (s.project? (ownerName projects rootName f)).getD ⟨ownerName projects rootName f, none, "", []⟩ = p := by
      rw [h.project?, hp, Option.getD_some]
    rw [Snapshot.project?_addDocument howner, table_append, Ordered.find?_map name_enlist]
    by_cases hk : p.name = k
    · rw [if_pos hk, ← hk, hpname, hp, Option.map_some, enlist, if_pos hpname.symm, ← hpname]
    · rw [if_neg hk, h.project?]
      cases hfind : Ordered.find? Project.name k (table projects rootName hasRoot added) with
      | none => rfl
      | some q =>
        obtain ⟨-, hq⟩ := Ordered.find?_eq_some hfind
        have hother : ownerName projects rootName f ≠ q.name := fun he => hk (hpname.trans (he.trans hq))
        rw [Option.map_some, enlist, if_neg hother]
  document? k := by
    have hkey : (documentOf projects rootName f).path ∉ (added.map (documentOf projects rootName)).map (·.path) := by
      rw [List.map_map]
      exact hnew
    rw [Snapshot.document?_addDocument, h.document?, List.map_append, List.map_singleton, Ordered.find?_append_new hkey]
    rfl

/-- The project of the root joins the table before it lists anything. -/
theorem Holds.addRoot (h : Holds projects rootName false added s) (hroot : rootName ∉ projects.map (·.name))
    (hloose : ∀ f ∈ added, isLoose projects f = false) :
    Holds projects rootName true added (s.addProject rootName "." none) where
  project? k := by
    have hnone : listed projects rootName added rootName = [] := by
      have hfilter : (added.filter fun f => ownerName projects rootName f = rootName) = [] := by
        refine List.filter_eq_nil_iff.2 fun f hf => ?_
        intro howner
        rw [decide_eq_true_eq] at howner
        exact hroot (howner ▸ ownerName_of_owned (hloose f hf))
      rw [listed, hfilter]
      rfl
    have hkey : (rootProject projects rootName added).name ∉
        (projects.map (projectOf projects rootName added)).map (·.name) := by
      rw [List.map_map]
      exact hroot
    rw [Snapshot.project?_addProject, h.project?, table, table, if_pos rfl, Ordered.find?_append_new hkey, rootProject,
      hnone, if_neg Bool.false_ne_true, List.append_nil]
  document? k := h.document? k

theorem project?_addProjects {k : String} (hnames : (projects.map (·.name)).Nodup) :
    (addProjects s projects).project? k =
      (Ordered.find? Project.name k (projects.map (projectOf projects rootName []))).or (s.project? k) := by
  have hrow (ps : List NamedProject) : projectOf ps rootName [] = fun p => ⟨p.name, some p.file.path, p.file.dir, []⟩ :=
    rfl
  rw [hrow]
  induction projects generalizing s with
  | nil => rfl
  | cons p rest ih =>
    obtain ⟨hp, hrest⟩ := List.nodup_cons.1 hnames
    rw [addProjects, List.foldl_cons, ← addProjects, ih hrest, Snapshot.project?_addProject, List.map_cons,
      Ordered.find?_cons]
    dsimp only
    by_cases hk : p.name = k
    · rw [if_pos hk, if_pos hk, Ordered.find?_eq_none_iff.2, Option.none_or, Option.some_or]
      rw [List.map_map, ← hk]
      exact hp
    · rw [if_neg hk, if_neg hk]

theorem document?_addProjects {k : String} : (addProjects s projects).document? k = s.document? k := by
  induction projects generalizing s with
  | nil => rfl
  | cons p rest ih =>
    rw [addProjects, List.foldl_cons, ← addProjects, ih, Snapshot.document?_addProject]

/-- The run of the loop over the sources. -/
theorem Holds.addSources (h : Holds projects rootName (added.any (isLoose projects)) added s) (rest : List SourceText)
    (hroot : (∃ f ∈ added ++ rest, isLoose projects f = true) → rootName ∉ projects.map (·.name))
    (hpaths : ((added ++ rest).map fun f => Path.tidy f.path).Nodup) :
    Holds projects rootName ((added ++ rest).any (isLoose projects)) (added ++ rest)
      (addSources rootName projects (added.any (isLoose projects)) s rest) := by
  induction rest generalizing added s with
  | nil =>
    rw [List.append_nil]
    exact h
  | cons f rest ih =>
    have happend : added ++ f :: rest = added ++ [f] ++ rest := List.append_cons added f rest
    have hnew : Path.tidy f.path ∉ added.map fun f => Path.tidy f.path := by
      rw [List.map_append, List.map_cons] at hpaths
      exact fun hmem => (List.nodup_append.1 hpaths).2.2 _ hmem _ List.mem_cons_self rfl
    have hany : (added ++ [f]).any (isLoose projects) = (added.any (isLoose projects) || isLoose projects f) := by
      rw [List.any_append, List.any_cons, List.any_nil, Bool.or_false]
    rw [happend] at hroot hpaths ⊢
    rw [Loading.addSources]
    cases howner : owner? projects f.path with
    | some name =>
      have howned : isLoose projects f = false := by rw [isLoose, howner, Option.isNone_some]
      have hname : ownerName projects rootName f = name := by rw [ownerName, howner, Option.getD_some]
      have hadded := h.addDocument (ownerName_mem fun hl => absurd (howned.symm.trans hl) Bool.false_ne_true) hnew
      rw [howned, Bool.or_false] at hany
      rw [hname, ← hany] at hadded
      have hdone := ih hadded hroot hpaths
      rw [hany] at hdone
      exact hdone
    | none =>
      have hloose : isLoose projects f = true := by rw [isLoose, howner, Option.isNone_none]
      rw [hloose, Bool.or_true] at hany
      have hrooted : Holds projects rootName true added
          (if added.any (isLoose projects) = true then s else s.addProject rootName "." none) := by
        cases hfirst : added.any (isLoose projects) with
        | true =>
          rw [hfirst] at h
          rw [if_pos rfl]
          exact h
        | false =>
          rw [hfirst] at h
          refine h.addRoot (hroot ⟨f, by simp, hloose⟩) fun g hg => ?_
          exact Bool.eq_false_iff.2 (List.any_eq_false.1 hfirst g hg)
      have hadded := hrooted.addDocument (ownerName_mem fun _ => rfl) hnew
      rw [ownerName_of_loose hloose, ← hany] at hadded
      have hdone := ih hadded hroot hpaths
      rw [hany] at hdone
      exact hdone

theorem forall_name_addProjects {Q : String → Prop} (hs : ∀ p ∈ s.projects, Q p.name)
    (hprojects : ∀ n ∈ projects, Q n.name) : ∀ p ∈ (addProjects s projects).projects, Q p.name := by
  induction projects generalizing s with
  | nil => exact hs
  | cons n rest ih =>
    rw [addProjects, List.foldl_cons, ← addProjects]
    exact ih (Snapshot.forall_name_addProject hs (hprojects n List.mem_cons_self)) fun m hm =>
      hprojects m (List.mem_cons_of_mem n hm)

/-- What is kept by a document of a named project, by the project of the root and by a document of that is kept by all
sources together. -/
theorem addSources_keeps {P : Bool → Snapshot → Prop} {rest : List SourceText}
    (owned : ∀ hasRoot s, ∀ f ∈ rest, ∀ n ∈ projects, P hasRoot s →
      P hasRoot (s.addDocument n.name f.path f.text (some f.file)))
    (opened : ∀ s, (∃ f ∈ rest, isLoose projects f = true) → P false s → P true (s.addProject rootName "." none))
    (loose : ∀ s, ∀ f ∈ rest, isLoose projects f = true → P true s →
      P true (s.addDocument rootName f.path f.text (some f.file)))
    (h : P hasRoot s) : ∃ opened, P opened (addSources rootName projects hasRoot s rest) := by
  induction rest generalizing hasRoot s with
  | nil => exact ⟨hasRoot, h⟩
  | cons f rest ih =>
    have hrest : ∀ {hasRoot s}, P hasRoot s → ∃ opened, P opened (addSources rootName projects hasRoot s rest) := by
      intro hasRoot s h
      refine ih ?_ ?_ ?_ h
      · exact fun hasRoot s g hg => owned hasRoot s g (List.mem_cons_of_mem f hg)
      · exact fun s ⟨g, hg, hloose⟩ => opened s ⟨g, List.mem_cons_of_mem f hg, hloose⟩
      · exact fun s g hg => loose s g (List.mem_cons_of_mem f hg)
    rw [addSources]
    cases howner : owner? projects f.path with
    | some name =>
      obtain ⟨n, hn, rfl⟩ := Option.map_eq_some_iff.1 howner
      exact hrest (owned hasRoot s f List.mem_cons_self n (List.mem_of_find?_eq_some hn) h)
    | none =>
      have hloose : isLoose projects f = true := by rw [isLoose, howner, Option.isNone_none]
      cases hasRoot with
      | true => exact hrest (loose s f List.mem_cons_self hloose h)
      | false => exact hrest (loose _ f List.mem_cons_self hloose (opened s ⟨f, List.mem_cons_self, hloose⟩ h))

theorem forall_name_addSources {Q : String → Prop} {rest : List SourceText} (hs : ∀ p ∈ s.projects, Q p.name)
    (hprojects : ∀ n ∈ projects, Q n.name) (hroot : ∀ f ∈ rest, isLoose projects f = true → Q rootName) :
    ∀ p ∈ (addSources rootName projects hasRoot s rest).projects, Q p.name := by
  have hrun : ∃ _ : Bool, ∀ p ∈ (addSources rootName projects hasRoot s rest).projects, Q p.name := by
    refine addSources_keeps (P := fun _ s => ∀ p ∈ s.projects, Q p.name) ?_ ?_ ?_ hs
    · exact fun _ s f _ n hn hs => Snapshot.forall_name_addDocument hs (hprojects n hn)
    · exact fun s ⟨f, hf, hloose⟩ hs => Snapshot.forall_name_addProject hs (hroot f hf hloose)
    · exact fun s f hf hloose hs => Snapshot.forall_name_addDocument hs (hroot f hf hloose)
  obtain ⟨-, hall⟩ := hrun
  exact hall

end

theorem map_file_nameProjects (before : List String) (fs : List ProjectFile) :
    (nameProjects before fs).map (·.file) = fs := by
  induction fs generalizing before with
  | nil => rfl
  | cons f rest ih => rw [nameProjects, List.map_cons, ih]

section
variable (root : Disk.Place) (files : List WalkedFile)

/-- Whether a source file has no directory of a project around it. -/
def isFree (f : SourceText) : Bool := (projectFiles root files).all fun p => !isWithin f.path p.dir

def hasRoot : Bool := (sources root files).any (isFree root files)

/-- No two projects have one name, and no two documents have one path. -/
structure Unclashed : Prop where
  names : (tableNames (named root files) (rootName root) (hasRoot root files)).Nodup
  paths : ((sources root files).map fun f => Path.tidy f.path).Nodup

instance : Decidable (Unclashed root files) :=
  decidable_of_iff (_ ∧ _) ⟨fun ⟨names, paths⟩ => ⟨names, paths⟩, fun h => ⟨h.names, h.paths⟩⟩

/-- What a loaded snapshot owes to what the walk has found. -/
structure Complete (s : Snapshot) : Prop where
  /-- Every source file is a document. -/
  documents : (s.documents.map fun d => (d.path, d.text, d.file)).Perm
    ((sources root files).map fun f => (Path.tidy f.path, f.text, some f.file))
  /-- Every project file is a project, and there is one more for the root if some document has no owner. -/
  projects : (s.projects.map fun p => (p.projectFile, p.dir)).Perm
    ((projectFiles root files).map (fun f => (some f.path, f.dir)) ++ if hasRoot root files then [(none, ".")] else [])
  rootNamed : ∀ p ∈ s.projects, p.projectFile = none → p.name = rootName root
  /-- The project that a document names is there. -/
  owned : ∀ d ∈ s.documents, ∃ p ∈ s.projects, p.name = d.project
  /-- A project lists the documents that name it, in ascending order. -/
  listed : ∀ p ∈ s.projects, p.documents.Pairwise (· < ·) ∧
    ∀ path, path ∈ p.documents ↔ ∃ d ∈ s.documents, d.path = path ∧ d.project = p.name

variable {root files}

theorem map_file_named : (named root files).map (·.file) = (projectFiles root files).mergeSort deeper :=
  map_file_nameProjects _ _

theorem named_of_sorted (h : (projectFiles root files).Pairwise fun a b => deeper a b = true) :
    named root files = nameProjects [] (projectFiles root files) := by
  rw [named, List.mergeSort_of_pairwise h]

theorem isLoose_named (f : SourceText) : isLoose (named root files) f = isFree root files f := by
  rw [isLoose, owner?, Option.isNone_map, isFree, Bool.eq_iff_iff, Option.isNone_iff_eq_none, List.find?_eq_none,
    List.all_eq_true]
  have hmem (p : ProjectFile) : p ∈ projectFiles root files ↔ ∃ n ∈ named root files, n.file = p := by
    rw [← List.mem_map, map_file_named, List.mem_mergeSort]
  simp only [hmem, forall_exists_index, and_imp, forall_apply_eq_imp_iff₂, Bool.not_eq_true, Bool.not_eq_true']

theorem sorted_perm : (sorted root files).Perm (sources root files) := List.mergeSort_perm _ _

theorem any_isLoose_sorted : (sorted root files).any (isLoose (named root files)) = hasRoot root files := by
  rw [hasRoot, sorted_perm.any_eq]
  exact congrArg _ (funext isLoose_named)

theorem hasRoot_of_loose {f : SourceText} (hf : f ∈ sorted root files) (hloose : isLoose (named root files) f = true) :
    hasRoot root files = true :=
  any_isLoose_sorted ▸ List.any_eq_true.2 ⟨f, hf, hloose⟩

/-- Without a clash a loaded snapshot holds the tables of all that the walk has found. -/
theorem Unclashed.holds (hu : Unclashed root files) :
    Holds (named root files) (rootName root) (hasRoot root files) (sorted root files)
      (snapshotOf root (projectFiles root files) (sources root files)) := by
  have hnames := hu.names
  rw [tableNames] at hnames
  have hstart : Holds (named root files) (rootName root) (List.any [] (isLoose (named root files))) []
      (addProjects { root := some (Disk.Place.render root) } (named root files)) := by
    refine ⟨fun k => ?_, fun k => document?_addProjects⟩
    rw [project?_addProjects (List.nodup_append.1 hnames).1, List.any_nil, table, if_neg Bool.false_ne_true,
      List.append_nil]
    exact Option.or_none
  have hdone := hstart.addSources (sorted root files) ?_ ?_
  · rw [List.nil_append, any_isLoose_sorted] at hdone
    exact hdone
  · rintro ⟨f, hf, hloose⟩ hmem
    rw [hasRoot_of_loose hf hloose, if_pos rfl] at hnames
    exact (List.nodup_append.1 hnames).2.2 _ hmem _ (List.mem_singleton.2 rfl) rfl
  · exact (sorted_perm.map _).nodup_iff.2 hu.paths

theorem mem_listed {projects : List NamedProject} {rootName name path : String} {added : List SourceText} :
    path ∈ listed projects rootName added name ↔
      ∃ f ∈ added, Path.tidy f.path = path ∧ ownerName projects rootName f = name := by
  rw [listed, Ordered.mem_ofList, List.mem_map]
  simp only [List.mem_filter, decide_eq_true_eq]
  exact exists_congr fun f => by rw [and_assoc, and_comm (a := ownerName projects rootName f = name)]

/-- The table has every project file, and one row more for the root if some document has no owner. -/
theorem table_perm : ((table (named root files) (rootName root) (hasRoot root files) (sorted root files)).map fun p =>
    (p.projectFile, p.dir)).Perm
      ((projectFiles root files).map (fun f => (some f.path, f.dir)) ++ if hasRoot root files then [(none, ".")] else []) := by
  rw [table, List.map_append, List.map_map]
  refine List.Perm.append ?_ (by split <;> rfl)
  have hmap : (named root files).map
      ((fun p => (p.projectFile, p.dir)) ∘ projectOf (named root files) (rootName root) (sorted root files)) =
      ((projectFiles root files).mergeSort deeper).map fun f => (some f.path, f.dir) := by
    rw [← map_file_named, List.map_map]
    rfl
  rw [hmap]
  exact (List.mergeSort_perm _ _).map _

theorem ownerName_mem_table {f : SourceText} (hf : f ∈ sorted root files) :
    ownerName (named root files) (rootName root) f ∈
      (table (named root files) (rootName root) (hasRoot root files) (sorted root files)).map (·.name) :=
  map_name_table ▸ ownerName_mem (hasRoot_of_loose hf)

theorem Unclashed.complete (hu : Unclashed root files) :
    Complete root files (snapshotOf root (projectFiles root files) (sources root files)) := by
  have hholds := hu.holds
  generalize hs : snapshotOf root (projectFiles root files) (sources root files) = s at hholds ⊢
  have hprojects : s.projects.Perm (table (named root files) (rootName root) (hasRoot root files) (sorted root files)) :=
    Ordered.perm_of_find? s.projects_ascending (map_name_table ▸ hu.names) hholds.project?
  have hdocuments : s.documents.Perm ((sorted root files).map (documentOf (named root files) (rootName root))) := by
    refine Ordered.perm_of_find? s.documents_ascending ?_ hholds.document?
    rw [List.map_map]
    exact (sorted_perm.map _).nodup_iff.2 hu.paths
  have htable {p : Project} (hp : p ∈ s.projects) := mem_table (hprojects.mem_iff.1 hp)
  refine ⟨?_, ?_, fun p hp => (htable hp).2, fun d hd => ?_, fun p hp => ⟨?_, fun path => ?_⟩⟩
  · refine (hdocuments.map _).trans ?_
    rw [List.map_map]
    exact sorted_perm.map _
  · exact (hprojects.map _).trans table_perm
  · obtain ⟨f, hf, rfl⟩ := List.mem_map.1 (hdocuments.mem_iff.1 hd)
    obtain ⟨p, hp, hname⟩ := List.mem_map.1 (ownerName_mem_table hf)
    exact ⟨p, hprojects.mem_iff.2 hp, hname⟩
  · rw [(htable hp).1]
    exact Ordered.ofList_ascending _
  · rw [(htable hp).1, mem_listed]
    simp only [hdocuments.mem_iff, List.mem_map, exists_exists_and_eq_and]
    rfl

/-- The names of the projects of a loaded snapshot are among those of the table, clash or not. -/
theorem name_mem_snapshotOf : ∀ p ∈ (snapshotOf root (projectFiles root files) (sources root files)).projects,
    p.name ∈ tableNames (named root files) (rootName root) (hasRoot root files) := by
  refine forall_name_addSources (forall_name_addProjects (fun p hp => by cases hp) ?_) ?_ ?_
  · exact fun n hn => List.mem_append_left _ (List.mem_map_of_mem hn)
  · exact fun n hn => List.mem_append_left _ (List.mem_map_of_mem hn)
  · intro f hf hloose
    rw [tableNames, hasRoot_of_loose hf hloose, if_pos rfl]
    exact List.mem_append_right _ (List.mem_singleton.2 rfl)

/-- What is complete has as many projects as names were given, all different, so that no name was given twice. -/
theorem Complete.unclashed (hc : Complete root files (snapshotOf root (projectFiles root files) (sources root files))) :
    Unclashed root files where
  names := by
    generalize hs : snapshotOf root (projectFiles root files) (sources root files) = s at hc
    have hsub : s.projects.map (·.name) ⊆ tableNames (named root files) (rootName root) (hasRoot root files) := by
      intro name hname
      obtain ⟨p, hp, rfl⟩ := List.mem_map.1 hname
      exact name_mem_snapshotOf p (hs ▸ hp)
    have hlength : (tableNames (named root files) (rootName root) (hasRoot root files)).length =
        (s.projects.map (·.name)).length := by
      have hnamed : (named root files).length = (projectFiles root files).length := by
        rw [← List.length_map (·.file), map_file_named, List.length_mergeSort]
      have hprojects := hc.projects.length_eq
      rw [List.length_append, List.length_map, List.length_map] at hprojects
      rw [List.length_map, tableNames, List.length_append, List.length_map, hnamed, hprojects]
      split <;> rfl
    exact ((s.projects_ascending.nodup.subperm hsub).perm_of_length_le (Nat.le_of_eq hlength)).nodup
      s.projects_ascending.nodup
  paths := by
    have hpaths := hc.documents.map (·.1)
    rw [List.map_map, List.map_map] at hpaths
    exact hpaths.nodup (Snapshot.documents_ascending _).nodup

/-- Loading loses nothing exactly when no two projects get one name and no two documents one path. -/
theorem complete_iff_unclashed (root : Disk.Place) {files : List WalkedFile} (hbelow : ∀ f ∈ files, f.names ≠ []) :
    ∃ s, ofWalk root files = .ok s ∧ (Complete root files s ↔ Unclashed root files) :=
  ⟨_, ofWalk_eq hbelow, Complete.unclashed, Unclashed.complete⟩

/-- A walk on a project and on a file that lies beside it. -/
def besideProject : List WalkedFile :=
  [⟨["App", "App.csproj"], some "<Project />"⟩, ⟨["App", "a.cs"], some "class A { }"⟩, ⟨["b.cs"], some "class B { }"⟩]

theorem complete_on_besideProject : ∃ s, ofWalk ["ws"] besideProject = .ok s ∧ Complete ["ws"] besideProject s := by
  obtain ⟨s, hs, hiff⟩ := complete_iff_unclashed ["ws"] (show ∀ f ∈ besideProject, f.names ≠ [] by decide)
  exact ⟨s, hs, hiff.2 (by decide +kernel)⟩

/-- The same, where the project has the name of the root directory. -/
def besideNamesake : List WalkedFile :=
  [⟨["b.cs"], some "class B { }"⟩, ⟨["src", "a.cs"], some "class A { }"⟩, ⟨["src", "ws.csproj"], some "<Project />"⟩]

/-- The project of the root takes the place of its namesake, whose file no project carries any more. -/
theorem namesake_lost : ∃ s, ofWalk ["ws"] besideNamesake = .ok s ∧
    (∃ f ∈ projectFiles ["ws"] besideNamesake, ∀ p ∈ s.projects, p.projectFile ≠ some f.path) ∧
    ¬Complete ["ws"] besideNamesake s := by
  have hsorted : (sources ["ws"] besideNamesake).Pairwise fun a b => decide (a.path ≤ b.path) = true := by decide +kernel
  have hs : snapshotOf ["ws"] (projectFiles ["ws"] besideNamesake) (sources ["ws"] besideNamesake) =
      addSources "ws" (named ["ws"] besideNamesake) false
        (addProjects { root := some (Disk.Place.render ["ws"]) } (named ["ws"] besideNamesake))
        (sources ["ws"] besideNamesake) := by
    rw [snapshotOf, List.mergeSort_of_pairwise hsorted]
    rfl
  refine ⟨_, ofWalk_eq (by decide), ⟨⟨"ws", "src", "src/ws.csproj"⟩, by decide +kernel, ?_⟩, fun hc => ?_⟩
  · rw [hs]
    decide +kernel
  · exact absurd hc.unclashed (by decide +kernel)

end

end Loading

end Workbench
