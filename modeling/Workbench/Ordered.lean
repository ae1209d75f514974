/-!
# Ordered lists

Lists kept in ascending order of a text key, each key once. They stand for
finite maps and sets whose order answers show.
-/

namespace Workbench.Ordered

def Ascending {α} (key : α → String) (xs : List α) : Prop := xs.Pairwise fun a b => key a < key b

instance {α} {key : α → String} {xs : List α} : Decidable (Ascending key xs) :=
  inferInstanceAs (Decidable (xs.Pairwise fun a b => key a < key b))

theorem ascending_nil {α} (key : α → String) : Ascending key [] := .nil

def put {α} (key : α → String) (a : α) : List α → List α
  | [] => [a]
  | b :: r =>
    if key a < key b then a :: b :: r
    else if key a = key b then a :: r
    else b :: put key a r

theorem mem_put {α} {key : α → String} {a x : α} {xs : List α} (h : x ∈ put key a xs) : x = a ∨ x ∈ xs := by
  induction xs with
  | nil => simpa [put] using h
  | cons b r ih =>
    simp only [put] at h
    split at h
    · simpa using h
    · split at h
      · rcases List.mem_cons.1 h with h | h
        · exact .inl h
        · exact .inr (List.mem_cons_of_mem b h)
      · rcases List.mem_cons.1 h with h | h
        · exact .inr (h ▸ List.mem_cons_self)
        · exact (ih h).imp_right (List.mem_cons_of_mem b)

theorem Ascending.put {α} {key : α → String} {xs : List α} (h : Ascending key xs) (a : α) :
    Ascending key (put key a xs) := by
  induction xs with
  | nil => exact List.pairwise_singleton _ a
  | cons b r ih =>
    obtain ⟨hb, hr⟩ := List.pairwise_cons.1 h
    simp only [Ordered.put]
    split
    · rename_i hab
      refine List.pairwise_cons.2 ⟨fun x hx => ?_, h⟩
      rcases List.mem_cons.1 hx with rfl | hx
      · exact hab
      · exact String.lt_trans hab (hb x hx)
    · split
      · rename_i hab
        exact List.pairwise_cons.2 ⟨fun x hx => hab ▸ hb x hx, hr⟩
      · rename_i hab hne
        have hba : key b < key a :=
          Decidable.byContradiction fun h' => hne (String.le_antisymm (String.not_lt.1 h') (String.not_lt.1 hab))
        refine List.pairwise_cons.2 ⟨fun x hx => ?_, ih hr⟩
        rcases mem_put hx with rfl | hx
        · exact hba
        · exact hb x hx

def find? {α} (key : α → String) (k : String) (xs : List α) : Option α :=
  xs.find? fun a => key a == k

def add (s : String) (xs : List String) : List String := put id s xs

def ofList (xs : List String) : List String := xs.foldl (fun acc s => add s acc) []

/-- Removes neighbours with the same key; the first stays. -/
def dedupBy {α} (same : α → α → Bool) : List α → List α
  | [] => []
  | a :: r =>
    match dedupBy same r with
    | [] => [a]
    | b :: r' => if same a b then a :: r' else a :: b :: r'

end Workbench.Ordered
