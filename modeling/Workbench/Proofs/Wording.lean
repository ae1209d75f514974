import Mathlib.Data.List.DropRight
import Workbench.Proofs.Reparsing

/-!
# Words

Texts with the same words differ in layout only. The words of a text tell what
a using directive imports, and they tell the text of a name.
-/

namespace Workbench

/-- A list is made of runs of elements that satisfy `p` and of the elements before, between and behind them. -/
theorem runInduction {α : Type} {p : α → Bool} {motive : List α → Prop} (nil : motive [])
    (gap : ∀ a r, p a = false → motive r → motive (a :: r))
    (single : ∀ w, w ≠ [] → (∀ a ∈ w, p a = true) → motive w)
    (next : ∀ w a r, w ≠ [] → (∀ a ∈ w, p a = true) → p a = false → motive r → motive (w ++ a :: r)) (xs : List α) :
    motive xs := by
  induction hn : xs.length using Nat.strongRecOn generalizing xs with
  | ind n ih =>
    subst hn
    cases xs with
    | nil => exact nil
    | cons x r =>
      cases hx : p x with
      | false => exact gap x r hx (ih _ (Nat.lt_succ_self _) r rfl)
      | true =>
        have hne : (x :: r).takeWhile p ≠ [] := by simp [hx]
        have hall : ∀ a ∈ (x :: r).takeWhile p, p a = true := fun a ha => List.mem_takeWhile_imp ha
        have hsplit : (x :: r).takeWhile p ++ (x :: r).dropWhile p = x :: r := List.takeWhile_append_dropWhile
        rcases hrest : (x :: r).dropWhile p with _ | ⟨a, r'⟩
        · rw [hrest, List.append_nil] at hsplit
          exact hsplit ▸ single _ hne hall
        · have ha : p a = false := by
            have := List.head?_dropWhile_not p (x :: r)
            rw [hrest] at this
            exact this
          rw [hrest] at hsplit
          rw [← hsplit]
          refine next _ a r' hne hall ha (ih _ ?_ r' rfl)
          have := congrArg List.length hsplit
          simp only [List.length_append, List.length_cons] at this ⊢
          omega

namespace Text

/-! ## Words of a text -/

section
variable {w cs r : List Char} {b : Char}

/-- A word: not empty, and without blanks. -/
structure IsWord (w : List Char) : Prop where
  ne : w ≠ []
  visible : ∀ c ∈ w, isBlank c = false

theorem isWord_iff : CSharp.isWord w = true ↔ IsWord w := by
  rw [CSharp.isWord, Bool.and_eq_true, Bool.not_eq_true', List.isEmpty_eq_false_iff, List.all_eq_true]
  exact ⟨fun h => ⟨h.1, fun c hc => by simpa using h.2 c hc⟩, fun h => ⟨h.ne, fun c hc => by simp [h.visible c hc]⟩⟩

/-- A text is made of words and of the blanks before, between and behind them. -/
theorem wordInduction {motive : List Char → Prop} (nil : motive []) (blank : ∀ b r, isBlank b = true → motive r → motive (b :: r))
    (single : ∀ w, IsWord w → motive w)
    (next : ∀ w b r, IsWord w → isBlank b = true → motive r → motive (w ++ b :: r)) (cs : List Char) : motive cs := by
  have hword : ∀ w : List Char, w ≠ [] → (∀ c ∈ w, (!isBlank c) = true) → IsWord w := fun w hne hall =>
    ⟨hne, fun c hc => by simpa using hall c hc⟩
  induction cs using runInduction (p := (!isBlank ·)) with
  | nil => exact nil
  | gap b r hb ih => exact blank b r (by simpa using hb) ih
  | single w hne hall => exact single w (hword w hne hall)
  | next w b r hne hall hb ih => exact next w b r (hword w hne hall) (by simpa using hb) ih

@[simp] theorem words_nil : words [] = [] := rfl

theorem words_append_blank (hb : isBlank b = true) (cs r : List Char) : words (cs ++ b :: r) = words cs ++ words r := by
  rw [words, List.splitOnP_append_cons _ _ hb, List.filter_append, words, words]

theorem words_blank (hb : isBlank b = true) (r : List Char) : words (b :: r) = words r := words_append_blank hb [] r

theorem words_of_isWord (h : IsWord w) : words w = [w] := by
  rw [words, List.splitOnP_eq_singleton h.visible]
  simpa using h.ne

theorem words_next (h : IsWord w) (hb : isBlank b = true) (r : List Char) : words (w ++ b :: r) = w :: words r := by
  rw [words_append_blank hb, words_of_isWord h]
  rfl

theorem flatten_words (cs : List Char) : (words cs).flatten = cs.filter (!isBlank ·) := by
  have hword : ∀ w, IsWord w → w.filter (!isBlank ·) = w := fun w hw =>
    List.filter_eq_self.2 fun c hc => by simp [hw.visible c hc]
  induction cs using wordInduction with
  | nil => rfl
  | blank b r hb ih => simp [words_blank hb, hb, ih]
  | single w hw => simp [words_of_isWord hw, hword w hw]
  | next w b r hw hb ih => simp [words_next hw hb, hb, ih, hword w hw]

theorem words_ne_nil {c : Char} (hc : c ∈ cs) (h : isBlank c = false) : words cs ≠ [] := by
  intro hnil
  have hall := flatten_words cs
  rw [hnil, List.flatten_nil, eq_comm, List.filter_eq_nil_iff] at hall
  simpa [h] using hall c hc

theorem words_eq_nil_of_blank (h : ∀ c ∈ cs, isBlank c = true) : words cs = [] := by
  induction cs with
  | nil => rfl
  | cons c r ih =>
    rw [words_blank (h c List.mem_cons_self), ih fun d hd => h d (List.mem_cons_of_mem c hd)]

theorem words_trimStart (cs : List Char) : words (trimStart cs) = words cs := by
  induction cs with
  | nil => rfl
  | cons c r ih =>
    rw [trimStart, List.dropWhile_cons]
    split
    · rename_i hc
      rw [words_blank hc]
      exact ih
    · rfl

theorem words_trimEnd (cs : List Char) : words (trimEnd cs) = words cs := by
  obtain ⟨back, hcs, hback⟩ := dropEndWhile_eq_append isBlank cs
  rw [trimEnd]
  cases back with
  | nil => rw [List.append_nil] at hcs; rw [← hcs]
  | cons b r =>
    rw [hcs, words_append_blank (hback b List.mem_cons_self),
      words_eq_nil_of_blank fun c hc => hback c (List.mem_cons_of_mem b hc), List.append_nil, ← hcs]

theorem words_trim (cs : List Char) : words (trim cs) = words cs := by
  rw [trim, words_trimEnd, words_trimStart]

/-! ## Texts without blanks at their ends -/

/-- A text that neither begins nor ends with a blank. -/
structure Tidy (cs : List Char) : Prop where
  first : ∀ c ∈ cs.head?, isBlank c = false
  last : ∀ c ∈ cs.getLast?, isBlank c = false

theorem tidy_iff : Tidy cs ↔ (cs.head?.all (!isBlank ·) && cs.getLast?.all (!isBlank ·)) = true := by
  simp only [Bool.and_eq_true, Option.all_eq_true, Bool.not_eq_true']
  exact ⟨fun h => ⟨h.first, h.last⟩, fun ⟨first, last⟩ => ⟨first, last⟩⟩

instance (cs : List Char) : Decidable (Tidy cs) := decidable_of_iff _ tidy_iff.symm

theorem IsWord.tidy (h : IsWord w) : Tidy w :=
  ⟨fun c hc => h.visible c (List.mem_of_head? hc), fun c hc => h.visible c (List.mem_of_getLast? hc)⟩

theorem tidy_of_isTight (h : CSharp.isTight cs = true) : Tidy cs := by
  simp only [CSharp.isTight, Bool.and_eq_true, Option.any_eq_true, Bool.not_eq_true'] at h
  obtain ⟨⟨c, hc, hfirst⟩, d, hd, hlast⟩ := h
  refine ⟨fun x hx => ?_, fun x hx => ?_⟩
  · cases hc.symm.trans hx
    exact hfirst
  · cases hd.symm.trans hx
    exact hlast

theorem words_ne_nil_of_isTight (h : CSharp.isTight cs = true) : words cs ≠ [] := by
  simp only [CSharp.isTight, Bool.and_eq_true, Option.any_eq_true, Bool.not_eq_true'] at h
  obtain ⟨⟨c, hc, hfirst⟩, -⟩ := h
  exact words_ne_nil (List.mem_of_head? hc) hfirst

theorem dropEndWhile_eq (p : Char → Bool) (cs : List Char) : dropEndWhile p cs = cs.rdropWhile p := by
  induction cs using List.reverseRecOn with
  | nil => rfl
  | append_singleton cs c ih =>
    rw [List.rdropWhile_concat, ← ih]
    clear ih
    induction cs with
    | nil => simp [dropEndWhile]
    | cons d r ih =>
      rw [List.cons_append, dropEndWhile, ih]
      split <;> rename_i h <;> split at h <;> simp_all [dropEndWhile]

theorem dropEndWhile_append_eq (p : Char → Bool) (a b : List Char) : dropEndWhile p (a ++ b) =
    if b.all p then dropEndWhile p a else a ++ dropEndWhile p b := by
  simp only [dropEndWhile_eq, List.rdropWhile, List.reverse_append, List.dropWhile_append, List.isEmpty_iff,
    List.dropWhile_eq_nil_iff, List.mem_reverse, List.all_eq_true]
  split <;> simp

theorem dropEndWhile_append_keep {p : Char → Bool} {a : List Char} (h : ∀ c ∈ a.getLast?, p c = false) (b : List Char) :
    dropEndWhile p (a ++ b) = a ++ dropEndWhile p b := by
  rw [dropEndWhile_append_eq]
  split
  · rename_i hb
    have hnil : dropEndWhile p b = [] := by rwa [dropEndWhile_eq, List.rdropWhile_eq_nil_iff, ← List.all_eq_true]
    rw [hnil, List.append_nil, dropEndWhile_eq, List.rdropWhile_eq_self_iff]
    exact fun hne => by simp [h _ (List.getLast?_eq_some_getLast hne)]
  · rfl

theorem mem_of_mem_dropEndWhile {p : Char → Bool} {c : Char} (h : c ∈ dropEndWhile p cs) : c ∈ cs :=
  (List.rdropWhile_prefix p cs).mem (dropEndWhile_eq p cs ▸ h)

theorem getLast?_dropEndWhile {p : Char → Bool} {c : Char} (h : (dropEndWhile p cs).getLast? = some c) : p c = false := by
  rw [dropEndWhile_eq] at h
  have hne : cs.rdropWhile p ≠ [] := by
    intro hnil
    rw [hnil] at h
    cases h
  rw [List.getLast?_eq_some_getLast hne] at h
  cases h
  simpa using List.rdropWhile_last_not p cs hne

theorem Tidy.trim_eq (h : Tidy cs) : trim cs = cs := by
  have hstart : trimStart cs = cs := by
    cases cs with
    | nil => rfl
    | cons c r => rw [trimStart, List.dropWhile_cons_of_neg (by simp [h.first c rfl])]
  rw [trim, hstart, trimEnd, dropEndWhile_eq, List.rdropWhile_eq_self_iff]
  exact fun hne => by simp [h.last _ (List.getLast?_eq_some_getLast hne)]

theorem tidy_trim (cs : List Char) : Tidy (trim cs) := by
  refine ⟨fun c hc => ?_, fun c hc => getLast?_dropEndWhile hc⟩
  rw [trim, trimEnd, dropEndWhile_eq] at hc
  have hstart : (trimStart cs).head? = some c := by
    obtain ⟨r, hr⟩ := List.head?_eq_some_iff.1 hc
    obtain ⟨t, ht⟩ := List.rdropWhile_prefix isBlank (l := trimStart cs)
    rw [← ht, hr]
    rfl
  have := List.head?_dropWhile_not isBlank cs
  rw [← trimStart, hstart] at this
  exact this

/-- What is dropped from the end of a text is dropped from its last word. -/
theorem words_dropEndWhile {p : Char → Bool} (hp : ∀ c, isBlank c = true → p c = false)
    (h : ∀ c ∈ cs.getLast?, isBlank c = false) :
    words (dropEndWhile p cs) =
      (words cs).dropLast ++ ((words cs).getLast?.elim [] fun w => words (dropEndWhile p w)) := by
  have hkeep : ∀ (front : List Char) (b : Char) (r : List Char), isBlank b = true →
      dropEndWhile p (front ++ b :: r) = front ++ b :: dropEndWhile p r := by
    intro front b r hb
    have hlast : ∀ c ∈ (front ++ [b]).getLast?, p c = false := by simpa using hp b hb
    simpa using dropEndWhile_append_keep hlast r
  have hlast : ∀ (front : List Char) (b : Char) (r : List Char), isBlank b = true →
      (∀ c ∈ (front ++ b :: r).getLast?, isBlank c = false) → r ≠ [] ∧ ∀ c ∈ r.getLast?, isBlank c = false := by
    intro front b r hb h
    have hne : r ≠ [] := by
      rintro rfl
      simpa [hb] using h b (by simp)
    exact ⟨hne, fun c hc => h c (by rw [List.getLast?_append, List.getLast?_cons, Option.mem_def.1 hc]; rfl)⟩
  induction cs using wordInduction with
  | nil => rfl
  | blank b r hb ih =>
    have := hkeep [] b r hb
    rw [List.nil_append, List.nil_append] at this
    rw [this, words_blank hb, words_blank hb]
    exact ih (hlast [] b r hb h).2
  | single w hw => simp [words_of_isWord hw]
  | next w b r hw hb ih =>
    obtain ⟨hne, hr⟩ := hlast w b r hb h
    have hwords : words r ≠ [] :=
      words_ne_nil (List.getLast_mem hne) (hr _ (List.getLast?_eq_some_getLast hne))
    rw [hkeep w b r hb, words_next hw hb, words_next hw hb, ih hr, List.dropLast_cons_of_ne_nil hwords,
      List.getLast?_cons_of_ne_nil hwords]
    rfl

/-! ## The same words -/

/-- Two texts that differ in the layout between their words only. -/
structure SameWords (cs ds : List Char) : Prop where
  left : Tidy cs
  right : Tidy ds
  words : words cs = words ds

theorem SameWords.trim {ds : List Char} (h : Text.words cs = Text.words ds) : SameWords (trim cs) (trim ds) :=
  ⟨tidy_trim cs, tidy_trim ds, by rw [words_trim, words_trim, h]⟩

theorem SameWords.filter {ds : List Char} (h : SameWords cs ds) :
    cs.filter (!isBlank ·) = ds.filter (!isBlank ·) := by
  rw [← flatten_words, ← flatten_words, h.words]

/-- Behind a blank of a tidy text something else comes. -/
theorem Tidy.rest {front : List Char} (h : Tidy (front ++ b :: r)) (hb : isBlank b = true) :
    words r ≠ [] ∧ Tidy (trimStart r) := by
  have hlast : ∀ c ∈ r.getLast?, isBlank c = false := fun c hc =>
    h.last c (by rw [List.getLast?_append, List.getLast?_cons, Option.mem_def.1 hc]; rfl)
  have hne : r ≠ [] := by
    rintro rfl
    simpa [hb] using h.last b (by simp)
  refine ⟨words_ne_nil (List.getLast_mem hne) (hlast _ (List.getLast?_eq_some_getLast hne)), fun c hc => ?_, fun c hc => ?_⟩
  · have := List.head?_dropWhile_not isBlank r
    rw [← trimStart, Option.mem_def.1 hc] at this
    exact this
  · refine hlast c ?_
    rw [← List.takeWhile_append_dropWhile (p := isBlank) (l := r), ← trimStart, List.getLast?_append,
      Option.mem_def.1 hc]
    rfl

/-- A text of one word is that word. -/
theorem Tidy.eq_word (h : Tidy cs) (hw : words cs = [w]) : cs = w := by
  induction cs using wordInduction with
  | nil => cases hw
  | blank b r hb ih => exact absurd (h.first b rfl) (by simp [hb])
  | single v hv =>
    rw [words_of_isWord hv] at hw
    exact List.head_eq_of_cons_eq hw
  | next v b r hv hb ih =>
    rw [words_next hv hb] at hw
    exact absurd (List.tail_eq_of_cons_eq hw) (h.rest hb).1

theorem SameWords.eq_word {ds : List Char} (h : SameWords cs ds) (hw : IsWord w) : cs = w ↔ ds = w := by
  constructor
  · rintro rfl
    exact h.right.eq_word (h.words ▸ words_of_isWord hw)
  · rintro rfl
    exact h.left.eq_word (h.words ▸ words_of_isWord hw)

end

end Text

namespace CSharp

open Text

/-! ## Using directives -/

namespace Using

/-- What a directive imports. -/
def key (u : Using) : Bool × Bool × Option String × String := (u.isGlobal, u.isStatic, u.shortName, u.name)

theorem isGlobal_of_key {u v : Using} (h : u.key = v.key) : u.isGlobal = v.isGlobal := congrArg Prod.fst h

section
variable {w cs ds : List Char}

theorem afterWord?_eq_some {k : String} {r : List Char} : afterWord? k cs = some r ↔
    ∃ b t, isBlank b = true ∧ cs = k.toList ++ b :: t ∧ r = trimStart t := by
  have hdrop : ∀ t, (k.toList ++ t).drop k.length = t := fun t => by
    rw [← String.length_toList, List.drop_left]
  have htrim : ∀ b t, isBlank b = true → trimStart (b :: t) = trimStart t := fun b t hb =>
    List.dropWhile_cons_of_pos hb
  constructor
  · intro h
    rw [afterWord?] at h
    split at h
    · rename_i hcond
      obtain ⟨hstarts, hblank⟩ := Bool.and_eq_true_iff.1 hcond
      obtain ⟨t, rfl⟩ := List.isPrefixOf_iff_prefix.1 hstarts
      rw [hdrop] at h hblank
      cases t with
      | nil => cases hblank
      | cons b t =>
        cases h
        exact ⟨b, t, hblank, rfl, htrim b t hblank⟩
    · cases h
  · rintro ⟨b, t, hb, rfl, rfl⟩
    rw [afterWord?, hdrop, if_pos, htrim b t hb]
    simp [hb]

/-- Behind the first word `k` of a text come its other words. -/
theorem afterWord?_spec {k : String} (hk : IsWord k.toList) (h : Tidy cs) :
    Option.Rel (fun r ws => Tidy r ∧ words r = ws) (afterWord? k cs)
      (if (words cs).head? = some k.toList ∧ 1 < (words cs).length then some (words cs).tail else none) := by
  rcases hcase : afterWord? k cs with _ | r
  · have hnone : ∀ b t, isBlank b = true → cs ≠ k.toList ++ b :: t := fun b t hb he => by
      rw [afterWord?_eq_some.2 ⟨b, t, hb, he, rfl⟩] at hcase
      cases hcase
    rw [if_neg]
    · exact .none
    · rintro ⟨hhead, hlen⟩
      induction cs using wordInduction with
      | nil => cases hhead
      | blank b r hb _ => exact absurd (h.first b rfl) (by simp [hb])
      | single w hw =>
        rw [words_of_isWord hw] at hlen
        simp at hlen
      | next w b r hw hb _ =>
        rw [words_next hw hb] at hhead
        cases hhead
        exact hnone b r hb rfl
  · obtain ⟨b, t, hb, rfl, rfl⟩ := afterWord?_eq_some.1 hcase
    obtain ⟨hne, htidy⟩ := h.rest hb
    rw [words_next hk hb, if_pos ⟨rfl, by simpa [List.length_pos_iff] using hne⟩]
    exact .some ⟨htidy, words_trimStart t⟩

theorem afterWord?_sameWords {k : String} (hk : IsWord k.toList) (h : SameWords cs ds) :
    Option.Rel SameWords (afterWord? k cs) (afterWord? k ds) := by
  have hmeet : ∀ {o o' : Option (List Char)} {ws : Option (List (List Char))},
      Option.Rel (fun r ws => Tidy r ∧ words r = ws) o ws → Option.Rel (fun r ws => Tidy r ∧ words r = ws) o' ws →
        Option.Rel SameWords o o' := by
    rintro o o' ws (⟨htidy, rfl⟩ | _) (⟨htidy', hw⟩ | _)
    · exact .some ⟨htidy, htidy', hw.symm⟩
    · exact .none
  exact hmeet (h.words ▸ afterWord?_spec hk h.left) (afterWord?_spec hk h.right)

theorem getD_sameWords {o o' : Option (List Char)} (ho : Option.Rel SameWords o o') (h : SameWords cs ds) :
    SameWords (o.getD cs) (o'.getD ds) ∧ o.isSome = o'.isSome := by
  cases ho with
  | some h => exact ⟨h, rfl⟩
  | none => exact ⟨h, rfl⟩

/-- What stands before the first `=` and behind it, without blanks. -/
theorem split_sameWords (h : SameWords cs ds) : cs.contains '=' = ds.contains '=' ∧ dropBlanks cs = dropBlanks ds ∧
    dropBlanks (cs.takeWhile (· != '=')) = dropBlanks (ds.takeWhile (· != '=')) ∧
      dropBlanks ((cs.dropWhile (· != '=')).drop 1) = dropBlanks ((ds.dropWhile (· != '=')).drop 1) := by
  have hparts : ∀ cs : List Char, cs.contains '=' = (cs.filter (!isBlank ·)).contains '=' ∧
      (cs.takeWhile (· != '=')).filter (!isBlank ·) = (cs.filter (!isBlank ·)).takeWhile (· != '=') ∧
      ((cs.dropWhile (· != '=')).drop 1).filter (!isBlank ·) =
        ((cs.filter (!isBlank ·)).dropWhile (· != '=')).drop 1 := by
    intro cs
    induction cs with
    | nil => exact ⟨rfl, rfl, rfl⟩
    | cons c r ih =>
      obtain ⟨hcontains, htake, hdrop⟩ := ih
      have hequals : isBlank '=' = false := by decide
      by_cases hc : c = '='
      · subst hc
        simp [hequals]
      · by_cases hb : isBlank c = true
        · have : '=' ≠ c := Ne.symm hc
          simp_all
        · have : '=' ≠ c := Ne.symm hc
          simp_all
  obtain ⟨hc, ht, hd⟩ := hparts cs
  obtain ⟨hc', ht', hd'⟩ := hparts ds
  refine ⟨?_, ?_, ?_, ?_⟩
  · rw [hc, hc', h.filter]
  · rw [dropBlanks, dropBlanks, h.filter]
  · rw [dropBlanks, dropBlanks, ht, ht', h.filter]
  · rw [dropBlanks, dropBlanks, hd, hd', h.filter]

end

/-- What a directive imports depends on its words alone. -/
theorem key_ofNode {f g : SourceFile} {n m : Node} (h : words (f.text n).toList = words (g.text m).toList) :
    (ofNode f n).key = (ofNode g m).key := by
  have htext := SameWords.trim h
  have hrest : SameWords (Text.trim (dropEndWhile (· == ';') (Text.trim (f.text n).toList)))
      (Text.trim (dropEndWhile (· == ';') (Text.trim (g.text m).toList))) := by
    have hp : ∀ c, isBlank c = true → (c == ';') = false := by
      intro c hc
      refine beq_eq_false_iff_ne.2 ?_
      rintro rfl
      revert hc
      decide
    refine SameWords.trim ?_
    rw [words_dropEndWhile hp htext.left.last, words_dropEndWhile hp htext.right.last, htext.words]
  have hword : ∀ k ∈ ["global", "using", "static"], IsWord k.toList := by
    intro k hk
    exact isWord_iff.1 (by revert k; decide)
  obtain ⟨h1, hglobal⟩ := getD_sameWords (afterWord?_sameWords (hword "global" (by decide)) hrest) hrest
  obtain ⟨h2, -⟩ := getD_sameWords (afterWord?_sameWords (hword "using" (by decide)) h1) h1
  obtain ⟨h3, hstatic⟩ := getD_sameWords (afterWord?_sameWords (hword "static" (by decide)) h2) h2
  obtain ⟨hcontains, hall, hlabel, hname⟩ := split_sameWords h3
  simp only [key, ofNode, apply_ite dropBlanks, hglobal, hstatic, hcontains, hall, hlabel, hname]

end Using

/-! ## Pairs of nodes -/

namespace Paired

variable {f g : SourceFile} {edit : Node → List Node} {n m : Node}

theorem saying (h : Paired f g edit n m) (hk : n.kind ≠ .modifier) : f.saying n = g.saying m :=
  h.facts.saying.resolve_left fun hm => hk (h.kind ▸ hm)

theorem words_phrase (h : Paired f g edit n m) (hk : n.kind ≠ .modifier) (ht : n.kind ≠ .token) (hp : n.isPhrase = true) :
    words (f.text n).toList = words (g.text m).toList := by
  have hwords := congrArg Saying.words (h.saying hk)
  simp only [SourceFile.saying, h.kind] at hwords
  rw [if_pos (by simpa [ht] using hp)] at hwords
  split at hwords
  · exact Option.some_inj.1 hwords
  · cases hwords

theorem text_identifier (h : Paired f g edit n m) (hk : n.kind = .identifier) : f.text n = g.text m := by
  have hword := isWord_iff.1 (h.regular.identifier hk).2
  have hword' := isWord_iff.1 (h.regular'.identifier (h.kind.trans hk)).2
  have hphrase : n.isPhrase = true := by
    have hleaf := (h.regular.identifier hk).1
    cases n
    cases hk
    cases hleaf
    rfl
  have hwords := h.words_phrase (by simp [hk]) (by simp [hk]) hphrase
  rw [words_of_isWord hword, words_of_isWord hword'] at hwords
  exact String.toList_inj.1 (List.head_eq_of_cons_eq hwords)

/-- A name differs in layout only. -/
theorem reference (h : Paired f g edit n m) (hr : n.role = .name) :
    SameWords (f.text n).toList (g.text m).toList := by
  obtain ⟨⟨hnamed, htight⟩, hphrase⟩ := h.regular.reference hr
  have hr' : m.role = .name := h.role.trans hr
  have hk : n.kind ≠ .modifier := fun hk => by
    have := (h.regular.modifier hk).1
    simp [this] at hr
  exact ⟨tidy_of_isTight htight, tidy_of_isTight (h.regular'.reference hr').1.2,
    h.words_phrase hk (by simpa [Node.isNamed] using hnamed) hphrase⟩

theorem compact (h : Paired f g edit n m) (hr : n.role = .name) : f.compact n = g.compact m := by
  rw [SourceFile.compact, SourceFile.compact, (h.reference hr).filter]

theorem parts (h : Paired f g edit n m) (hr : n.role = .name) :
    namespaceParts (f.word n) = namespaceParts (g.word m) := by
  have hk : n.kind ≠ .modifier := fun hk => by
    have := (h.regular.modifier hk).1
    simp [this] at hr
  have hparts := congrArg Saying.parts (h.saying hk)
  simpa [SourceFile.saying, hr, h.role] using hparts

theorem leafText (h : Paired f g edit n m) (hk : n.kind = .token) : n.leafText = m.leafText := by
  have htoken := congrArg Saying.token (h.saying (by simp [hk]))
  simpa [SourceFile.saying, h.kind, hk] using htoken

/-- Modifiers are spelled alike. -/
theorem text_modifier (hkeep : Keeps edit) (h : Paired f g edit n m) (hk : n.kind = .modifier) : f.text n = g.text m := by
  obtain ⟨t, hn, ht, -, htext, -⟩ := Node.exists_token_of_isKeyword (h.regular.modifier hk).2
  obtain ⟨t', hm, ht', -, htext', -⟩ := Node.exists_token_of_isKeyword (h.regular'.modifier (h.kind.trans hk)).2
  have hpair := h.core hkeep
  rw [hn, hm, List.filter_cons_of_pos (by simp [isCore, ht]), List.filter_cons_of_pos (by simp [isCore, ht'])] at hpair
  obtain ⟨hpair, -⟩ := List.forall₂_cons.1 hpair
  rw [← htext, ← htext', hpair.leafText ht]

end Paired

end CSharp

end Workbench
