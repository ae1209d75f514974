import Mathlib.Data.List.Pairwise
import Mathlib.Logic.Function.Basic
import Workbench.Proofs.Editing
import Workbench.Proofs.Operations
import Workbench.Stored

/-!
# Commits to files are atomic

A write stores a text or fails and leaves its file as it was. Whichever write of
a commit fails, what was written before it is taken back, so that the files and
the session are as they were. A commit that succeeds has written just the files
of the documents with a new text.
-/

namespace Workbench

/-! ## Files -/

/-- Files with their texts, where one of the writes to come may be bound to fail. -/
structure Files where
  texts : String → Option String
  /-- How many writes succeed before the one that fails, and why it fails. -/
  fault : Option (Nat × String)
  /-- The files that have been written, the last one first. -/
  log : List String

namespace Files

def put (texts : String → Option String) (file text : String) : String → Option String :=
  Function.update texts file (some text)

def write (file text : String) : ExceptT String (StateM Files) Unit := fun fs =>
  match fs.fault with
  | some (0, why) => (.error why, { fs with fault := none })
  | some (n + 1, why) => (.ok (), ⟨put fs.texts file text, some (n, why), file :: fs.log⟩)
  | none => (.ok (), ⟨put fs.texts file text, none, file :: fs.log⟩)

/-- Files as storage. How documents are loaded does not matter to a commit. -/
def storage (load : Files → Except String Snapshot) : Storage Files where
  write := write
  holds fs file := (fs.texts file).isSome
  load := load

section
variable {file text : String} {fs : Files}

theorem write_of_no_fault (h : fs.fault = none) :
    (write file text).run fs = (.ok (), ⟨put fs.texts file text, none, file :: fs.log⟩) := by
  change write file text fs = _
  rw [write, h]

/-- A write either stores its text, or it is the one that fails; then all later ones succeed. -/
theorem write_cases {load : Files → Except String Snapshot} (file text : String) (fs : Files) :
    (∃ fault, ((storage load).write file text).run fs = (.ok (), ⟨put fs.texts file text, fault, file :: fs.log⟩)) ∨
      ∃ why, ((storage load).write file text).run fs = (.error why, { fs with fault := none }) := by
  change (∃ fault, write file text fs = _) ∨ ∃ why, write file text fs = _
  unfold write
  split
  · exact .inr ⟨_, rfl⟩
  · exact .inl ⟨_, rfl⟩
  · exact .inl ⟨_, rfl⟩

end

end Files

/-! ## Rewrites -/

namespace Rewrite

section
variable {δ : Type} {st : Storage δ} {done rest : List Rewrite} {r : Rewrite} {fs fs' : δ}

theorem run_undo_cons (st : Storage δ) (r : Rewrite) (done : List Rewrite) (fs : δ) :
    (undo st (r :: done)).run fs = (undo st done).run ((st.write r.file r.before).run fs).2 := rfl

theorem on_perform_of_ok (h : (st.write r.file r.after).run fs = (.ok (), fs')) :
    Op.on (perform st done (r :: rest)) fs = Op.on (perform st (r :: done) rest) fs' := by
  have h : StateT.run (st.write r.file r.after).run fs = (.ok (), fs') := h
  rw [perform, Op.on_bind, Op.on_lift, h]

theorem on_perform_of_error {why : String} (h : (st.write r.file r.after).run fs = (.error why, fs')) :
    Op.on (perform st done (r :: rest)) fs = (.error (.internal (.write r.file why)), ((undo st done).run fs').2) := by
  have h : StateT.run (st.write r.file r.after).run fs = (.error why, fs') := h
  rw [perform, Op.on_bind, Op.on_lift, h]
  rfl

end

section
variable {load : Files → Except String Snapshot} {texts : String → Option String} {done rest : List Rewrite}
  {fs fs' : Files} {r : Rewrite}

/-- The texts once the rewrites are taken back, the last one first. -/
def undone (done : List Rewrite) (texts : String → Option String) : String → Option String :=
  done.foldl (fun t r => Files.put t r.file r.before) texts

/-- Taking back what was written, when all writes succeed. -/
theorem texts_undo (h : fs.fault = none) : ((undo (Files.storage load) done).run fs).2.texts = undone done fs.texts := by
  induction done generalizing fs with
  | nil => rfl
  | cons r rest ih =>
    have hw : ((Files.storage load).write r.file r.before).run fs =
        (.ok (), ⟨Files.put fs.texts r.file r.before, none, r.file :: fs.log⟩) := Files.write_of_no_fault h
    rw [run_undo_cons, hw, ih rfl]
    rfl

/-- A file that held the text before a rewrite holds it again when the rewrite is taken back. -/
theorem undone_put (h : fs.texts r.file = some r.before) :
    undone (r :: done) (Files.put fs.texts r.file r.after) = undone done fs.texts := by
  have hput : Files.put (Files.put fs.texts r.file r.after) r.file r.before = fs.texts := by
    rw [Files.put, Files.put, Function.update_idem, ← h, Function.update_eq_self]
  rw [undone, List.foldl_cons, hput]
  rfl

theorem held_put (hheld : ∀ r' ∈ r :: rest, fs.texts r'.file = some r'.before) (hnodup : ((r :: rest).map (·.file)).Nodup) :
    ∀ r' ∈ rest, Files.put fs.texts r.file r.after r'.file = some r'.before := by
  intro r' hr'
  have hne : r'.file ≠ r.file := fun he => (List.nodup_cons.1 hnodup).1 (List.mem_map.2 ⟨r', hr', he⟩)
  rw [Files.put, Function.update_of_ne hne]
  exact hheld r' (List.mem_cons_of_mem r hr')

/-- When a write fails, all that was written is taken back: the files are as they were before the first rewrite. -/
theorem texts_of_failed {e : Fault} (hheld : ∀ r ∈ rest, fs.texts r.file = some r.before)
    (hnodup : (rest.map (·.file)).Nodup) (h : Op.on (perform (Files.storage load) done rest) fs = (.error e, fs')) :
    fs'.texts = undone done fs.texts ∧ ∃ r ∈ rest, ∃ why, e = .internal (.write r.file why) := by
  induction rest generalizing done fs with
  | nil => cases h
  | cons r rest ih =>
    rcases Files.write_cases r.file r.after fs with ⟨fault, hw⟩ | ⟨why, hw⟩
    · rw [on_perform_of_ok hw] at h
      obtain ⟨htexts, r', hr', he⟩ := ih (held_put hheld hnodup) (List.nodup_cons.1 hnodup).2 h
      exact ⟨htexts.trans (undone_put (hheld r List.mem_cons_self)), r', List.mem_cons_of_mem r hr', he⟩
    · rw [on_perform_of_error hw] at h
      obtain ⟨he, hfs⟩ := Prod.mk.inj h
      refine ⟨?_, r, List.mem_cons_self, why, (Except.error.inj he).symm⟩
      rw [← hfs, texts_undo rfl]

/-- When all writes succeed, just the files of the rewrites are written. -/
theorem texts_of_performed (hnodup : (rest.map (·.file)).Nodup)
    (h : Op.on (perform (Files.storage load) done rest) fs = (.ok (), fs')) :
    (∀ r ∈ rest, fs'.texts r.file = some r.after) ∧
      (∀ file, file ∉ rest.map (·.file) → fs'.texts file = fs.texts file) ∧
      fs'.log = (rest.map (·.file)).reverse ++ fs.log := by
  induction rest generalizing done fs with
  | nil =>
    cases h
    exact ⟨fun r hr => (nomatch hr), fun _ _ => rfl, rfl⟩
  | cons r rest ih =>
    obtain ⟨hr, hnodup⟩ := List.nodup_cons.1 hnodup
    rcases Files.write_cases r.file r.after fs with ⟨fault, hw⟩ | ⟨why, hw⟩
    · rw [on_perform_of_ok hw] at h
      obtain ⟨hafter, hother, hlog⟩ := ih hnodup h
      refine ⟨fun r' hr' => ?_, fun file hfile => ?_, ?_⟩
      · rcases List.mem_cons.1 hr' with rfl | hr'
        · rw [hother _ hr]
          exact Function.update_self ..
        · exact hafter r' hr'
      · obtain ⟨hne, hfile⟩ := not_or.1 (mt List.mem_cons.2 hfile)
        rw [hother file hfile]
        exact Function.update_of_ne hne ..
      · rw [hlog, List.map_cons, List.reverse_cons, List.append_assoc]
        rfl
    · rw [on_perform_of_error hw] at h
      cases h

end

/-! ## Rewrites of a commit -/

/-- The path of each document, with its file. -/
def backing (s : Snapshot) : List (String × Option String) := s.documents.map fun d => (d.path, d.file)

section
variable {old next : Snapshot} {d : Document} {r : Rewrite}

theorem exists_of_backing (h : backing next = backing old) (hd : d ∈ next.documents) :
    ∃ d₀ ∈ old.documents, old.text? d.path = some d₀.text ∧ d₀.file = d.file := by
  have hmem : (d.path, d.file) ∈ backing old := h ▸ List.mem_map_of_mem hd
  obtain ⟨d₀, hd₀, hsame⟩ := List.mem_map.1 hmem
  obtain ⟨hpath, hfile⟩ := Prod.mk.inj hsame
  refine ⟨d₀, hd₀, ?_, hfile⟩
  rw [Snapshot.text?, Snapshot.document?, ← hpath, Ordered.find?_of_mem old.documents_ascending hd₀]
  rfl

theorem of?_eq_some (h : backing next = backing old) (hd : d ∈ next.documents) (hr : of? old d = some r) :
    d.file = some r.file ∧ r.after = d.text ∧ old.text? d.path ≠ some d.text ∧
      ∃ d₀ ∈ old.documents, d₀.file = some r.file ∧ r.before = d₀.text := by
  obtain ⟨d₀, hd₀, htext, hfile⟩ := exists_of_backing h hd
  obtain ⟨file, hdfile, hr⟩ := Option.bind_eq_some_iff.1 hr
  rw [htext] at hr
  obtain ⟨hne, hr⟩ := Option.ite_none_left_eq_some.1 hr
  cases hr
  exact ⟨hdfile, rfl, fun he => hne (Option.some.inj (htext.symm.trans he)), d₀, hd₀, hfile.trans hdfile, rfl⟩

theorem of?_eq_none {file : String} (h : backing next = backing old) (hd : d ∈ next.documents) (hfile : d.file = some file)
    (hr : of? old d = none) : ∃ d₀ ∈ old.documents, d₀.file = some file ∧ d₀.text = d.text := by
  obtain ⟨d₀, hd₀, htext, hsame⟩ := exists_of_backing h hd
  rw [of?, hfile, Option.bind_some, htext] at hr
  refine ⟨d₀, hd₀, hsame.trans hfile, Decidable.byContradiction fun hne => ?_⟩
  dsimp only at hr
  rw [if_neg hne] at hr
  cases hr

theorem files_between_sublist (old next : Snapshot) :
    ((between old next).map (·.file)).Sublist (next.documents.filterMap (·.file)) := by
  rw [between, List.map_filterMap]
  induction next.documents with
  | nil => exact .slnil
  | cons d rest ih =>
    -- A document needs no rewrite, or one of its file.
    rw [List.filterMap_cons, List.filterMap_cons]
    cases hr : of? old d with
    | none =>
      cases d.file with
      | none => exact ih
      | some file => exact ih.cons file
    | some r =>
      obtain ⟨file, hfile, hr⟩ := Option.bind_eq_some_iff.1 hr
      have hsame : r.file = file := by
        split at hr
        · obtain ⟨-, hr⟩ := Option.ite_none_left_eq_some.1 hr
          cases hr
          rfl
        · cases hr
          rfl
      rw [hfile, Option.map_some, hsame]
      exact ih.cons_cons file

theorem files_of_backing (h : backing next = backing old) :
    next.documents.filterMap (·.file) = old.documents.filterMap (·.file) := by
  have hfile : ∀ s : Snapshot, s.documents.filterMap (·.file) = (backing s).filterMap Prod.snd := fun s => by
    rw [backing, List.filterMap_map]
    rfl
  rw [hfile, h, ← hfile]

end

end Rewrite

/-! ## Commits -/

namespace StoredSession

/-- A session whose files are all different and hold the texts of its documents, and a snapshot of the same documents. -/
structure Backed (s : StoredSession Files) (next : Snapshot) : Prop where
  backing : Rewrite.backing next = Rewrite.backing s.session.snapshot
  distinct : (s.session.snapshot.documents.filterMap (·.file)).Nodup
  held {d : Document} {file : String} : d ∈ s.session.snapshot.documents → d.file = some file →
    s.store.texts file = some d.text

namespace Backed

variable {s : StoredSession Files} {next : Snapshot}

theorem eq_of_file {d d' : Document} {file : String} (h : Backed s next) (hd : d ∈ next.documents)
    (hd' : d' ∈ next.documents) (hfile : d.file = some file) (hfile' : d'.file = some file) : d = d' := by
  have hdistinct := h.distinct
  rw [← Rewrite.files_of_backing h.backing, List.Nodup, List.pairwise_filterMap] at hdistinct
  have hsymm : Std.Symm fun a b : Document => ∀ f, a.file = some f → ∀ f', b.file = some f' → f ≠ f' :=
    ⟨fun a b hab f hf f' hf' => (hab f' hf' f hf).symm⟩
  exact Decidable.byContradiction fun hne => hdistinct.forall hd hd' hne file hfile file hfile' rfl

/-- A rewrite is that of a document with a new text. -/
theorem of_mem_between {r : Rewrite} (h : Backed s next) (hr : r ∈ Rewrite.between s.session.snapshot next) :
    ∃ d ∈ next.documents, Rewrite.of? s.session.snapshot d = some r ∧ d.file = some r.file ∧
      s.session.snapshot.text? d.path ≠ some d.text := by
  obtain ⟨d, hd, hr⟩ := List.mem_filterMap.1 hr
  obtain ⟨hfile, -, hne, -⟩ := Rewrite.of?_eq_some h.backing hd hr
  exact ⟨d, hd, hr, hfile, hne⟩

theorem held_between (h : Backed s next) :
    ∀ r ∈ Rewrite.between s.session.snapshot next, s.store.texts r.file = some r.before := by
  intro r hr
  obtain ⟨d, hd, hr, -⟩ := h.of_mem_between hr
  obtain ⟨-, -, -, d₀, hd₀, hfile, hbefore⟩ := Rewrite.of?_eq_some h.backing hd hr
  rw [hbefore]
  exact h.held hd₀ hfile

theorem nodup_between (h : Backed s next) : ((Rewrite.between s.session.snapshot next).map (·.file)).Nodup :=
  h.distinct.sublist (Rewrite.files_of_backing h.backing ▸ Rewrite.files_between_sublist _ next)

/-- When all rewrites are made, every document has its text in its file. -/
theorem stored_of_performed {store : Files} {d : Document} {file : String} (h : Backed s next)
    (hafter : ∀ r ∈ Rewrite.between s.session.snapshot next, store.texts r.file = some r.after)
    (hother : ∀ f, f ∉ (Rewrite.between s.session.snapshot next).map (·.file) → store.texts f = s.store.texts f)
    (hd : d ∈ next.documents) (hfile : d.file = some file) : store.texts file = some d.text := by
  cases hr : Rewrite.of? s.session.snapshot d with
  | some r =>
    obtain ⟨hrfile, htext, -⟩ := Rewrite.of?_eq_some h.backing hd hr
    have hafter := hafter r (List.mem_filterMap.2 ⟨d, hd, hr⟩)
    rwa [htext, Option.some.inj (hrfile.symm.trans hfile)] at hafter
  | none =>
    obtain ⟨d₀, hd₀, hfile₀, htext⟩ := Rewrite.of?_eq_none h.backing hd hfile hr
    rw [hother file, h.held hd₀ hfile₀, htext]
    -- No other document has this file, so there is no rewrite of it.
    intro hmem
    obtain ⟨r, hr', rfl⟩ := List.mem_map.1 hmem
    obtain ⟨d', hd', hr', hfile', -⟩ := h.of_mem_between hr'
    rw [h.eq_of_file hd' hd hfile' hfile, hr] at hr'
    cases hr'

end Backed

/-- A commit has done all of its work, or none. -/
structure Atomic (s : StoredSession Files) (base : Nat) (next : Snapshot) (out : Result Nat × StoredSession Files) :
    Prop where
  failed {e : Fault} : out.1 = .error e → out.2.store.texts = s.store.texts ∧ out.2.session = s.session
  /-- A commit fails for a base that is not current, or because a file could not be written. -/
  cause {e : Fault} : out.1 = .error e →
    (s.session.version ≠ base ∧ e = .workspaceChanged base s.session.version) ∨
      ∃ d ∈ next.documents, ∃ file why, d.file = some file ∧ e = .internal (.write file why)
  version {v : Nat} : out.1 = .ok v → s.session.version = base ∧ v = base + 1 ∧ out.2.session = ⟨next, base + 1⟩
  stored {v : Nat} {d : Document} {file : String} : out.1 = .ok v → d ∈ next.documents → d.file = some file →
    out.2.store.texts file = some d.text
  others {v : Nat} {file : String} : out.1 = .ok v → (∀ d ∈ next.documents, d.file ≠ some file) →
    out.2.store.texts file = s.store.texts file
  /-- Only files of documents with a new text are written, each once. -/
  written {v : Nat} : out.1 = .ok v → ∃ files, out.2.store.log = files ++ s.store.log ∧ files.Nodup ∧
    ∀ file ∈ files, ∃ d ∈ next.documents, d.file = some file ∧ s.session.snapshot.text? d.path ≠ some d.text

theorem on_commit_of_ne {δ : Type} {st : Storage δ} {base : Nat} {next : Snapshot} {s : StoredSession δ}
    (h : s.session.version ≠ base) :
    (commit st base next).on s = (.error (.workspaceChanged base s.session.version), s) := if_pos h

section
variable {δ : Type} {st : Storage δ} {base : Nat} {next : Snapshot} {s : StoredSession δ} {store : δ}

theorem on_commit_of_failed {e : Fault} (h : s.session.version = base)
    (hrun : Op.on (Rewrite.perform st [] (Rewrite.between s.session.snapshot next)) s.store = (.error e, store)) :
    (commit st base next).on s = (.error e, { s with store := store }) := by
  have hrun : (Rewrite.perform st [] (Rewrite.between s.session.snapshot next)).run s.store = (.error e, store) := hrun
  refine (if_neg (not_not.2 h)).trans ?_
  rw [hrun]

theorem on_commit_of_performed (h : s.session.version = base)
    (hrun : Op.on (Rewrite.perform st [] (Rewrite.between s.session.snapshot next)) s.store = (.ok (), store)) :
    (commit st base next).on s = (.ok (base + 1), ⟨store, ⟨next, base + 1⟩⟩) := by
  have hrun : (Rewrite.perform st [] (Rewrite.between s.session.snapshot next)).run s.store = (.ok (), store) := hrun
  refine (if_neg (not_not.2 h)).trans ?_
  rw [hrun]

end

theorem commit_atomic (load : Files → Except String Snapshot) (base : Nat) {s : StoredSession Files} {next : Snapshot}
    (h : Backed s next) : Atomic s base next ((commit (Files.storage load) base next).on s) := by
  by_cases hv : s.session.version ≠ base
  · rw [on_commit_of_ne hv]
    exact ⟨fun _ => ⟨rfl, rfl⟩, fun he => .inl ⟨hv, (Except.error.inj he).symm⟩, nofun, nofun, nofun, nofun⟩
  have hv := not_not.1 hv
  rcases hrun : Op.on (Rewrite.perform (Files.storage load) [] (Rewrite.between s.session.snapshot next)) s.store with
    ⟨out, store⟩
  cases out with
  | error e =>
    rw [on_commit_of_failed hv hrun]
    obtain ⟨htexts, r, hr, why, he⟩ := Rewrite.texts_of_failed h.held_between h.nodup_between hrun
    obtain ⟨d, hd, -, hfile, -⟩ := h.of_mem_between hr
    exact ⟨fun _ => ⟨htexts, rfl⟩, fun he' => .inr ⟨d, hd, r.file, why, hfile, (Except.error.inj he').symm.trans he⟩,
      nofun, nofun, nofun, nofun⟩
  | ok u =>
    rw [on_commit_of_performed hv hrun]
    obtain ⟨hafter, hother, hlog⟩ := Rewrite.texts_of_performed h.nodup_between hrun
    refine ⟨nofun, nofun, fun he => ⟨hv, (Except.ok.inj he).symm, rfl⟩,
      fun _ hd hfile => h.stored_of_performed hafter hother hd hfile, fun _ hnone => hother _ fun hmem => ?_, fun _ => ?_⟩
    · obtain ⟨r, hr, rfl⟩ := List.mem_map.1 hmem
      obtain ⟨d, hd, -, hfile, -⟩ := h.of_mem_between hr
      exact hnone d hd hfile
    · refine ⟨_, hlog, (List.reverse_perm _).nodup_iff.2 h.nodup_between, fun file hfile => ?_⟩
      obtain ⟨r, hr, rfl⟩ := List.mem_map.1 (List.mem_reverse.1 hfile)
      obtain ⟨d, hd, -, hdfile, hne⟩ := h.of_mem_between hr
      exact ⟨d, hd, hdfile, hne⟩

/-- Two documents with a file each. -/
def pair (a b : String) : Snapshot where
  projects := [⟨"App", none, "", ["a.cs", "b.cs"]⟩]
  documents := [⟨"a.cs", "App", a, some "/app/a.cs"⟩, ⟨"b.cs", "App", b, some "/app/b.cs"⟩]
  projects_ascending := List.pairwise_singleton ..
  documents_ascending := List.pairwise_pair.2 (by change "a.cs" < "b.cs"; decide +kernel)

/-- A session on two files. Its second write will fail. -/
def pairSession : StoredSession Files where
  store.texts file := if file = "/app/a.cs" then some "A" else if file = "/app/b.cs" then some "B" else none
  store.fault := some (1, "disk full")
  store.log := []
  session := .start (pair "A" "B")

theorem backed_pairSession (a b : String) : Backed pairSession (pair a b) where
  backing := rfl
  distinct := by decide
  held := by
    intro d file hd hfile
    have hd : d = ⟨"a.cs", "App", "A", some "/app/a.cs"⟩ ∨ d = ⟨"b.cs", "App", "B", some "/app/b.cs"⟩ := by
      simpa [pairSession, pair, Session.start] using hd
    rcases hd with rfl | rfl
    · cases hfile
      rfl
    · cases hfile
      rfl

/-- The second of two writes fails, and the first is taken back. -/
theorem commit_atomic_pairSession :
    (((commit (Files.storage fun _ => .ok .empty) 1 (pair "A2" "B2")).on pairSession).1 =
      .error (.internal (.write "/app/b.cs" "disk full"))) ∧
    ((commit (Files.storage fun _ => .ok .empty) 1 (pair "A2" "B2")).on pairSession).2.store.texts =
      pairSession.store.texts := by
  have hfails : ((commit (Files.storage fun _ => .ok .empty) 1 (pair "A2" "B2")).on pairSession).1 =
      .error (.internal (.write "/app/b.cs" "disk full")) := by
    rfl
  exact ⟨hfails, ((commit_atomic (fun _ => .ok .empty) 1 (backed_pairSession "A2" "B2")).failed hfails).1⟩

end StoredSession

end Workbench
