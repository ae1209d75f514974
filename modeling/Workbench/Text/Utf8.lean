/-!
# Byte offsets into text

Positions in a document are byte offsets of its UTF-8 form. `splitAt?` cuts a
text at such an offset and refuses one that falls inside a character or past
the end, so the two parts always join to the whole text again.
-/

namespace Workbench.Text

def size : List Char → Nat
  | [] => 0
  | c :: r => c.utf8Size + size r

@[simp] theorem size_nil : size [] = 0 := rfl

@[simp] theorem size_cons (c : Char) (r : List Char) : size (c :: r) = c.utf8Size + size r := rfl

@[simp] theorem size_append (a b : List Char) : size (a ++ b) = size a + size b := by
  induction a with
  | nil => simp
  | cons c r ih => simp [ih, Nat.add_assoc]

theorem utf8ByteSize_eq_size (s : String) : s.utf8ByteSize = size s.toList := by
  have h (cs : List Char) : (String.ofList cs).utf8ByteSize = size cs := by
    induction cs with
    | nil => rfl
    | cons c r ih => rw [String.ofList_cons, String.utf8ByteSize_append, String.utf8ByteSize_singleton, ih, size_cons]
  rw [← h, String.ofList_toList]

/-- The parts before and after byte `n`. -/
def splitAt? : List Char → Nat → Option (List Char × List Char)
  | cs, 0 => some ([], cs)
  | [], _ + 1 => none
  | c :: r, n + 1 =>
    if c.utf8Size ≤ n + 1 then
      (splitAt? r (n + 1 - c.utf8Size)).map fun p => (c :: p.1, p.2)
    else none

theorem append_of_splitAt? {cs a b : List Char} {n : Nat} (h : splitAt? cs n = some (a, b)) :
    cs = a ++ b ∧ size a = n := by
  fun_induction splitAt? cs n generalizing a b with
  | case1 cs => simp at h; obtain ⟨rfl, rfl⟩ := h; simp
  | case2 => simp at h
  | case3 c r n hc ih =>
    obtain ⟨p, hp, he⟩ := Option.map_eq_some_iff.1 h
    obtain ⟨rfl, rfl⟩ := Prod.mk.inj he
    have := ih hp
    exact ⟨by simp [← this.1], by simp [this.2]; omega⟩
  | case4 => simp at h

theorem splitAt?_append (a b : List Char) : splitAt? (a ++ b) (size a) = some (a, b) := by
  induction a with
  | nil => cases b <;> rfl
  | cons c r ih =>
    have hc : 0 < c.utf8Size := c.utf8Size_pos
    obtain ⟨k, hk⟩ : ∃ k, c.utf8Size + size r = k + 1 := ⟨c.utf8Size + size r - 1, by omega⟩
    simp only [List.cons_append, size_cons, hk, splitAt?]
    rw [if_pos (by omega), ← hk, Nat.add_sub_cancel_left, ih]
    rfl

theorem splitAt?_eq_some_iff {cs a b : List Char} {n : Nat} :
    splitAt? cs n = some (a, b) ↔ cs = a ++ b ∧ size a = n :=
  ⟨append_of_splitAt?, fun ⟨h, hn⟩ => by rw [h, ← hn, splitAt?_append]⟩

def isBoundary (cs : List Char) (n : Nat) : Bool := (splitAt? cs n).isSome

def slice? (cs : List Char) (a b : Nat) : Option (List Char) :=
  if a ≤ b then
    match splitAt? cs a with
    | some (_, r) => (splitAt? r (b - a)).map (·.1)
    | none => none
  else none

/-- The longest beginning that takes at most `n` bytes. -/
def takeBytes : List Char → Nat → List Char
  | [], _ => []
  | c :: r, n => if c.utf8Size ≤ n then c :: takeBytes r (n - c.utf8Size) else []

end Workbench.Text
