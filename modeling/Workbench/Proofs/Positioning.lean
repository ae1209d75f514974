import Workbench.Proofs.Wording

/-!
# Positions and offsets

A position is turned into an offset by counting lines and characters forward,
and an offset into a position by counting those of what stands before it. The
two are inverse, but that the carriage returns at the end of a line belong to
no column: between or behind them an offset has a position that leads nowhere.
-/

namespace Workbench.Text

/-- A line of a text, cut before the carriage returns that end it. -/
structure Line (cs : List Char) where
  before : List Char
  body : List Char
  returns : List Char
  rest : List Char
  text : cs = before ++ (body ++ (returns ++ rest))
  starts : ∀ c ∈ before.getLast?, c = '\n'
  plain : '\n' ∉ body
  full : ∀ c ∈ body.getLast?, c ≠ '\r'
  returned : ∀ c ∈ returns, c = '\r'
  stops : ∀ c ∈ rest.head?, c = '\n'

namespace Line

variable {cs : List Char}

def start (l : Line cs) : Nat := size l.before

/-- Where the run of carriage returns that ends the line starts. The run may be empty. -/
def returnsStart (l : Line cs) : Nat := size (l.before ++ l.body)

def stop (l : Line cs) : Nat := size (l.before ++ (l.body ++ l.returns))

/-- The line is that of byte `n`, which may be the one of its newline or of the end of the text. -/
def Holds (l : Line cs) (n : Nat) : Prop := l.start ≤ n ∧ n ≤ l.stop

instance (l : Line cs) (n : Nat) : Decidable (l.Holds n) := inferInstanceAs (Decidable (_ ∧ _))

end Line

/-! ## Columns -/

section
variable {before p r : List Char}

theorem lineColFrom_cons (c : Char) (r : List Char) (n line col : Nat) :
    lineColFrom (c :: r) (c.utf8Size + n) line col =
      if c = '\n' then lineColFrom r n (line + 1) 1 else lineColFrom r n line (col + 1) := by
  have hpos := c.utf8Size_pos
  obtain ⟨k, hk⟩ : ∃ k, c.utf8Size + n = k + 1 := ⟨c.utf8Size + n - 1, by omega⟩
  rw [hk, lineColFrom, if_neg (by omega), ← hk, Nat.add_sub_cancel_left]
  by_cases hc : c = '\n'
  · subst hc
    have hn : k = n := by
      have : ('\n' : Char).utf8Size = 1 := by decide
      omega
    simp [hn]
  · simp [hc]

/-- Characters other than newlines count as columns. -/
theorem lineColFrom_plain (hp : '\n' ∉ p) (n line col : Nat) :
    lineColFrom (p ++ r) (size p + n) line col = lineColFrom r n line (col + p.length) := by
  induction p generalizing col with
  | nil => simp
  | cons c p ih =>
    rw [List.mem_cons, not_or] at hp
    rw [List.cons_append, size_cons, Nat.add_assoc, lineColFrom_cons, if_neg (Ne.symm hp.1), ih hp.2, List.length_cons]
    congr 1
    omega

/-- Behind a newline the columns start anew. -/
theorem lineColFrom_before (hb : ∀ c ∈ before.getLast?, c = '\n') (hne : before ≠ []) (n line col : Nat) :
    lineColFrom (before ++ r) (size before + n) line col = lineColFrom r n (line + before.count '\n') 1 := by
  induction before generalizing line col with
  | nil => exact absurd rfl hne
  | cons c before ih =>
    rw [List.cons_append, size_cons, Nat.add_assoc, lineColFrom_cons]
    by_cases hnil : before = []
    · subst hnil
      have hc : c = '\n' := hb c rfl
      simp [hc]
    · rw [List.getLast?_cons_of_ne_nil hnil] at hb
      by_cases hc : c = '\n'
      · rw [if_pos hc, ih hb hnil, hc, List.count_cons_self]
        congr 1
        omega
      · rw [if_neg hc, ih hb hnil, List.count_cons_of_ne hc]

theorem lineCol_append (hb : ∀ c ∈ before.getLast?, c = '\n') (hp : '\n' ∉ p) :
    lineCol (before ++ (p ++ r)) (size before + size p) = (before.count '\n' + 1, p.length + 1) := by
  have hend : ∀ line, lineColFrom (p ++ r) (size p) line 1 = (line, p.length + 1) := by
    intro line
    have h := lineColFrom_plain hp (r := r) 0 line 1
    rw [Nat.add_zero, lineColFrom, Nat.add_comm 1] at h
    exact h
  unfold lineCol
  by_cases hnil : before = []
  · subst hnil
    simpa using hend 1
  · rw [lineColFrom_before hb hnil, hend, Nat.add_comm 1]

end

/-! ## Lines -/

/-- Dropping lines cuts the text behind a newline, or nowhere. -/
theorem dropLines_eq_some_iff {cs r : List Char} {n start : Nat} :
    dropLines cs n = some (start, r) ↔ ∃ before, cs = before ++ r ∧ size before = start ∧
      before.count '\n' = n ∧ ∀ c ∈ before.getLast?, c = '\n' := by
  constructor
  · intro h
    fun_induction dropLines cs n generalizing start r with
    | case1 cs =>
      simp at h
      obtain ⟨rfl, rfl⟩ := h
      exact ⟨[], rfl, rfl, rfl, by simp⟩
    | case2 => cases h
    | case3 c cs n ih =>
      obtain ⟨⟨k, r'⟩, hr, he⟩ := Option.map_eq_some_iff.1 h
      obtain ⟨rfl, rfl⟩ := Prod.mk.inj he
      obtain ⟨before, rfl, rfl, hcount, hb⟩ := ih hr
      refine ⟨c :: before, rfl, rfl, ?_, ?_⟩
      · by_cases hc : c = '\n'
        · simp [hc] at hcount ⊢
          exact hcount
        · simpa [hc] using hcount
      · intro d hd
        by_cases hnil : before = []
        · subst hnil
          simp at hd hcount
          subst hd
          by_cases hc : c = '\n'
          · exact hc
          · simp [hc] at hcount
        · rw [List.getLast?_cons_of_ne_nil hnil] at hd
          exact hb d hd
  · rintro ⟨before, rfl, rfl, rfl, hb⟩
    induction before with
    | nil => cases r <;> rfl
    | cons c before ih =>
      by_cases hnil : before = []
      · subst hnil
        have hc : c = '\n' := hb c rfl
        subst hc
        cases r <;> rfl
      · rw [List.getLast?_cons_of_ne_nil hnil] at hb
        by_cases hc : c = '\n'
        · subst hc
          simp [dropLines, ih hb]
        · have hmem : '\n' ∈ before := by
            have hlast := hb _ (List.getLast?_eq_some_getLast hnil)
            exact hlast ▸ List.getLast_mem hnil
          obtain ⟨k, hk⟩ : ∃ k, before.count '\n' = k + 1 :=
            ⟨_, (Nat.succ_pred_eq_of_pos (List.count_pos_iff.2 hmem)).symm⟩
          have hih := ih hb
          rw [hk] at hih
          simp [hc, hk, dropLines, hih]

/-- A text is cut where its last line begins. -/
theorem exists_lastLine (cs : List Char) :
    ∃ above left, cs = above ++ left ∧ (∀ c ∈ above.getLast?, c = '\n') ∧ '\n' ∉ left := by
  obtain ⟨left, hcs, hleft⟩ := dropEndWhile_eq_append (· != '\n') cs
  refine ⟨dropEndWhile (· != '\n') cs, left, hcs, ?_, fun hc => by simpa using hleft _ hc⟩
  intro c hc
  simpa using getLast?_dropEndWhile (Option.mem_def.1 hc)

namespace Line

variable {cs : List Char}

/-- A text that is cut at the beginning of a line goes on with that line. -/
theorem exists_from {before r : List Char} (hcs : cs = before ++ r) (hb : ∀ c ∈ before.getLast?, c = '\n') :
    ∃ l : Line cs, l.before = before ∧ l.body = lineBody r := by
  have hline : r.takeWhile (· != '\n') ++ r.dropWhile (· != '\n') = r := List.takeWhile_append_dropWhile
  obtain ⟨returns, hcut, hreturns⟩ := dropEndWhile_eq_append (· == '\r') (r.takeWhile (· != '\n'))
  have hplain : ∀ c ∈ r.takeWhile (· != '\n'), c ≠ '\n' := fun c hc => by simpa using List.mem_takeWhile_imp hc
  refine ⟨⟨before, lineBody r, returns, r.dropWhile (· != '\n'), ?_, hb, ?_, ?_, ?_, ?_⟩, rfl, rfl⟩
  · rw [hcs, ← List.append_assoc (lineBody r), lineBody, ← hcut, hline]
  · intro h
    exact hplain '\n' (hcut ▸ List.mem_append_left _ h) rfl
  · intro c hc
    simpa using getLast?_dropEndWhile (Option.mem_def.1 hc)
  · intro c hc
    simpa using hreturns c hc
  · intro c hc
    have h := List.head?_dropWhile_not (· != '\n') r
    rw [Option.mem_def.1 hc] at h
    simpa using h

/-- Every offset into a text is that of some line. -/
theorem exists_holds {n : Nat} (hn : isBoundary cs n = true) : ∃ l : Line cs, l.Holds n := by
  obtain ⟨a, b, hcs, rfl⟩ := isBoundary_iff.1 hn
  obtain ⟨before, p, rfl, hb, hplain⟩ := exists_lastLine a
  rw [List.append_assoc] at hcs
  obtain ⟨l, hbefore, -⟩ := exists_from hcs hb
  refine ⟨l, ?_, ?_⟩
  · rw [start, hbefore, size_append]
    exact Nat.le_add_right _ _
  · -- What stands in the line before the offset holds no newline, so it does not reach behind the line.
    have htext := hcs.symm.trans l.text
    rw [hbefore, List.append_cancel_left_eq, ← List.append_assoc] at htext
    have hp : p <+: l.body ++ l.returns := by
      rcases List.append_eq_append_iff.1 htext with ⟨mid, h, -⟩ | ⟨mid, h, hrest⟩
      · exact ⟨mid, h.symm⟩
      · cases mid with
        | nil => exact ⟨[], by simpa using h⟩
        | cons c mid =>
          have hc : c = '\n' := l.stops c (by rw [hrest]; rfl)
          exact absurd (by rw [h, hc]; simp) hplain
    obtain ⟨q, hq⟩ := hp
    rw [stop, hbefore, ← hq]
    simp only [size_append]
    omega

variable (l : Line cs)

theorem lineBody_eq : lineBody (l.body ++ (l.returns ++ l.rest)) = l.body := by
  have hline : (l.body ++ (l.returns ++ l.rest)).takeWhile (· != '\n') = l.body ++ l.returns := by
    have hplain : ∀ c ∈ l.body ++ l.returns, (c != '\n') = true := by
      intro c hc
      rcases List.mem_append.1 hc with hc | hc
      · exact bne_iff_ne.2 fun he => l.plain (he ▸ hc)
      · simp [l.returned c hc]
    rw [← List.append_assoc, List.takeWhile_append_of_pos hplain]
    cases hrest : l.rest with
    | nil => simp
    | cons c r =>
      have hc : c = '\n' := l.stops c (by rw [hrest]; rfl)
      simp [hc]
  have hreturns : ∀ c ∈ l.returns, (c == '\r') = true := fun c hc => by simp [l.returned c hc]
  have hbody : l.body.rdropWhile (· == '\r') = l.body :=
    List.rdropWhile_eq_self_iff.2 fun hne => by simpa using l.full _ (List.getLast?_eq_some_getLast hne)
  rw [lineBody, hline, dropEndWhile_eq]
  generalize l.returns = returns at hreturns
  induction returns using List.reverseRecOn with
  | nil => rw [List.append_nil, hbody]
  | append_singleton returns c ih =>
    rw [← List.append_assoc, List.rdropWhile_concat_pos (· == '\r') _ c (hreturns c (by simp))]
    exact ih fun d hd => hreturns d (List.mem_append_left _ hd)

theorem lineCol_eq {p q : List Char} (h : l.body ++ l.returns = p ++ q) :
    lineCol cs (l.start + size p) = (l.before.count '\n' + 1, p.length + 1) := by
  have hp : '\n' ∉ p := by
    intro hmem
    have hmem : '\n' ∈ l.body ++ l.returns := h ▸ List.mem_append_left _ hmem
    rcases List.mem_append.1 hmem with hmem | hmem
    · exact l.plain hmem
    · exact absurd (l.returned _ hmem) (by decide)
  have htext : cs = l.before ++ (p ++ (q ++ l.rest)) := by
    rw [← List.append_assoc p, ← h, List.append_assoc]
    exact l.text
  have hline := lineCol_append (r := q ++ l.rest) l.starts hp
  rw [← htext] at hline
  exact hline

/-- The columns of a line are those of its body. -/
theorem offsetOf_eq (k : Nat) : offsetOf cs (l.before.count '\n' + 1) (k + 1) =
    if k ≤ l.body.length then some (l.start + size (l.body.take k)) else none := by
  have hdrop : dropLines cs (l.before.count '\n') = some (size l.before, l.body ++ (l.returns ++ l.rest)) :=
    dropLines_eq_some_iff.2 ⟨l.before, l.text, rfl, rfl, l.starts⟩
  simp [offsetOf, hdrop, lineBody_eq, start]

end Line

/-! ## Round trips -/

theorem offsetOf_eq_some {cs : List Char} {line col n : Nat} (h : offsetOf cs line col = some n) :
    isBoundary cs n = true ∧ lineCol cs n = (line, col) := by
  unfold offsetOf at h
  split at h
  · cases h
  · rename_i hpos
    split at h
    · cases h
    · rename_i start r hdrop
      obtain ⟨before, hcs, rfl, hcount, hb⟩ := dropLines_eq_some_iff.1 hdrop
      obtain ⟨l, rfl, hbody⟩ := Line.exists_from hcs hb
      dsimp only at h
      split at h
      · rename_i hle
        rw [← hbody] at h hle
        cases h
        have hcut := List.take_append_drop (col - 1) l.body
        refine ⟨?_, ?_⟩
        · refine isBoundary_iff.2 ⟨l.before ++ l.body.take (col - 1), l.body.drop (col - 1) ++ (l.returns ++ l.rest), ?_, by simp⟩
          rw [List.append_assoc, ← List.append_assoc (l.body.take _), hcut]
          exact l.text
        · have hline := l.lineCol_eq (p := l.body.take (col - 1)) (q := l.body.drop (col - 1) ++ l.returns)
            (by rw [← List.append_assoc, hcut])
          rw [Line.start] at hline
          rw [hline, hcount, List.length_take, Nat.min_eq_left hle]
          exact Prod.ext (by dsimp only; omega) (by dsimp only; omega)
      · cases h

theorem Line.offsetOf_lineCol {cs : List Char} (l : Line cs) {n : Nat} (hn : isBoundary cs n = true) (hl : l.Holds n) :
    offsetOf cs (lineCol cs n).1 (lineCol cs n).2 = if n ≤ l.returnsStart then some n else none := by
  obtain ⟨a, b, hcs, rfl⟩ := isBoundary_iff.1 hn
  obtain ⟨p, rfl, hp⟩ := exists_mid_of_size_le (l.text.symm.trans hcs) hl.1
  have htext : l.before ++ (l.body ++ l.returns) ++ l.rest = l.before ++ p ++ b := by
    rw [← hcs, List.append_assoc, List.append_assoc]
    exact l.text.symm
  obtain ⟨q, hq, -⟩ := exists_mid_of_size_le htext.symm hl.2
  rw [List.append_assoc, List.append_cancel_left_eq] at hq
  have hsize : size (l.before ++ p) = l.start + size p := size_append _ _
  have hstart : l.returnsStart = l.start + size l.body := size_append _ _
  rw [hsize, l.lineCol_eq hq, l.offsetOf_eq, hstart]
  rcases List.append_eq_append_iff.1 hq with ⟨mid, hmid, -⟩ | ⟨mid, hmid, -⟩
  · -- The offset lies among the carriage returns, or right before them.
    rw [hmid, List.length_append, size_append]
    by_cases hnil : mid = []
    · simp [hnil]
    · have hlen := List.length_pos_of_ne_nil hnil
      have hpos := size_pos hnil
      rw [if_neg (by omega), if_neg (by omega)]
  · rw [hmid, List.length_append, size_append, if_pos (by omega), if_pos (by omega), List.take_left]

/-- A position with an offset is the position of that offset, and an offset is that of its position just when it is not
behind the place at which the carriage returns of its line begin. -/
theorem positions_inverse (cs : List Char) :
    (∀ line col n, offsetOf cs line col = some n → isBoundary cs n = true ∧ lineCol cs n = (line, col)) ∧
      ∀ n, isBoundary cs n = true → (∃ l : Line cs, l.Holds n) ∧ ∀ l : Line cs, l.Holds n →
        offsetOf cs (lineCol cs n).1 (lineCol cs n).2 = if n ≤ l.returnsStart then some n else none := by
  refine ⟨?_, ?_⟩
  · intro line col n h
    exact offsetOf_eq_some h
  · intro n hn
    refine ⟨Line.exists_holds hn, ?_⟩
    intro l hl
    exact l.offsetOf_lineCol hn hl

/-- Two lines, the second without a newline and with two carriage returns at its end. -/
def strayReturns : List Char := ['a', '\r', '\n', 'é', '\r', '\r']

def strayReturns.last : Line strayReturns where
  before := ['a', '\r', '\n']
  body := ['é']
  returns := ['\r', '\r']
  rest := []
  text := rfl
  starts := by simp
  plain := by decide
  full := by simp
  returned := by simp
  stops := by simp

theorem positions_inverse_strayReturns :
    (offsetOf strayReturns 2 2 = some 5 ∧ isBoundary strayReturns 5 = true ∧ lineCol strayReturns 5 = (2, 2)) ∧
      (isBoundary strayReturns 6 = true ∧ strayReturns.last.Holds 6) ∧
        offsetOf strayReturns (lineCol strayReturns 6).1 (lineCol strayReturns 6).2 = none := by
  obtain ⟨hposition, hoffset⟩ := positions_inverse strayReturns
  have hfound : offsetOf strayReturns 2 2 = some 5 := by decide
  have hboundary : isBoundary strayReturns 6 = true := by decide
  have hholds : strayReturns.last.Holds 6 := by decide
  have hbehind : ¬6 ≤ strayReturns.last.returnsStart := by decide
  refine ⟨⟨hfound, hposition 2 2 5 hfound⟩, ⟨hboundary, hholds⟩, ?_⟩
  rw [(hoffset 6 hboundary).2 strayReturns.last hholds, if_neg hbehind]

end Workbench.Text
