import Workbench.CSharp.Tree
import Workbench.Proofs.Encoding
import Workbench.Proofs.Indexing
import Workbench.Proofs.Sites

/-!
# What tells members apart

The identity of a member is its qualified name, its signature and its kind, and
the bytes that are hashed hold no less. Of two members of one type it keeps
apart what differs in kind, name, number of type parameters or types of plain
parameters, and nothing else.
-/

namespace Workbench

/-! ## Bytes of an identity -/

section
variable {α : Type} {x : α} {a a' b b' : List α}

/-- A list is cut in one way at the first place of a separator. -/
theorem append_cons_left_cancel (ha : x ∉ a) (ha' : x ∉ a') (h : a ++ x :: b = a' ++ x :: b') : a = a' ∧ b = b' := by
  rcases List.append_eq_append_iff.1 h with ⟨mid, h1, h2⟩ | ⟨mid, h1, h2⟩
  all_goals
    cases mid with
    | nil => simp_all
    | cons y mid =>
      obtain ⟨rfl, -⟩ := List.cons.inj h2
      simp_all

/-- A list is cut in one way at the last place of a separator. -/
theorem append_cons_right_cancel (hb : x ∉ b) (hb' : x ∉ b') (h : a ++ x :: b = a' ++ x :: b') : a = a' ∧ b = b' := by
  have hr := congrArg List.reverse h
  simp only [List.reverse_append, List.reverse_cons, List.append_assoc, List.singleton_append] at hr
  obtain ⟨hbb, haa⟩ := append_cons_left_cancel (by simpa using hb) (by simpa using hb') hr
  exact ⟨List.reverse_injective haa, List.reverse_injective hbb⟩

end

theorem toList_loop (bytes : ByteArray) (i : Nat) (r : List UInt8) :
    ByteArray.toList.loop bytes i r = r.reverse ++ bytes.data.toList.drop i := by
  fun_induction ByteArray.toList.loop bytes i r with
  | case1 i r h ih =>
    have hi : i < bytes.data.toList.length := h
    rw [ih, List.drop_eq_getElem_cons hi]
    simp [ByteArray.get!, getElem!_pos, h]
  | case2 i r h =>
    have hi : bytes.data.toList.length ≤ i := Nat.le_of_not_lt h
    simp [List.drop_eq_nil_of_le hi]

theorem toList_toUTF8 (s : String) : s.toUTF8.toList = s.toByteArray.data.toList := by
  rw [ByteArray.toList, toList_loop]
  rfl

theorem toList_toUTF8_append (s t : String) : (s ++ t).toUTF8.toList = s.toUTF8.toList ++ t.toUTF8.toList := by
  simp only [toList_toUTF8, String.toByteArray_append, ByteArray.toList_data_append]

theorem toList_toUTF8_inj {s t : String} : s.toUTF8.toList = t.toUTF8.toList ↔ s = t := by
  constructor
  · intro h
    rw [toList_toUTF8, toList_toUTF8, Array.toList_inj] at h
    exact String.toByteArray_inj.1 (ByteArray.ext h)
  · rintro rfl
    rfl

namespace Symbol

/-- The bytes that are hashed are those of one text. -/
theorem identityBytes_eq (qualname : String) (signature : Option String) (kind : SymbolKind) :
    identityBytes qualname signature kind =
      (qualname ++ "\x00" ++ signature.getD "" ++ "\x00" ++ kind.text).toUTF8.toList := by
  have hzero : "\x00".toUTF8.toList = [0] := by decide +kernel
  simp only [identityBytes, toList_toUTF8_append, hzero]

theorem zero_not_mem_kindText (k : SymbolKind) : '\x00' ∉ k.text.toList := by
  cases k <;> decide

theorem kindText_inj {k k' : SymbolKind} (h : k.text = k'.text) : k = k' := by
  revert h
  cases k <;> cases k' <;> decide

/-- Bytes that are hashed alike show the kind, and leave the name and the signature to be told apart. -/
theorem identityBytes_cut {q q' : String} {sig sig' : Option String} {k k' : SymbolKind}
    (h : identityBytes q sig k = identityBytes q' sig' k') :
    k = k' ∧ q.toList ++ '\x00' :: (sig.getD "").toList = q'.toList ++ '\x00' :: (sig'.getD "").toList := by
  have htext : ∀ a b c : String, (a ++ "\x00" ++ b ++ "\x00" ++ c).toList = (a.toList ++ '\x00' :: b.toList) ++ '\x00' :: c.toList := by
    intro a b c
    have hzero : "\x00".toList = ['\x00'] := by decide
    simp only [String.toList_append, hzero, List.append_assoc, List.cons_append, List.nil_append]
  rw [identityBytes_eq, identityBytes_eq, toList_toUTF8_inj, ← String.toList_inj, htext, htext] at h
  obtain ⟨h, hkind⟩ := append_cons_right_cancel (zero_not_mem_kindText k) (zero_not_mem_kindText k') h
  exact ⟨kindText_inj (String.toList_inj.1 hkind), h⟩

/-! ## Generic names -/

theorem toList_genericName (name : String) (arity : Nat) :
    (genericName name arity).toList = name.toList ++ if arity = 0 then [] else '`' :: (toString arity).toList := by
  by_cases h : arity = 0 <;> simp [genericName, h]

/-- A generic name has no characters but those of the name, the mark and digits. -/
theorem not_mem_genericName {c : Char} {name : String} {arity : Nat} (hmark : c ≠ '`') (hdigit : c.isDigit = false)
    (h : c ∉ name.toList) : c ∉ (genericName name arity).toList := by
  rw [toList_genericName, List.mem_append, not_or]
  refine ⟨h, ?_⟩
  split
  · exact List.not_mem_nil
  · rw [List.mem_cons, not_or]
    refine ⟨hmark, fun hmem => ?_⟩
    have hc : c.isDigit = true := Numeral.isDigit_of_mem_render (n := arity) (by simpa [Numeral.render, Nat.repr] using hmem)
    exact Bool.false_ne_true (hdigit.symm.trans hc)

theorem stripArity_genericName {name : String} (arity : Nat) (h : '`' ∉ name.toList) :
    stripArity (genericName name arity) = name := by
  have hall : ∀ c ∈ name.toList, (c != '`') = true := fun c hc => bne_iff_ne.2 fun he => h (he ▸ hc)
  rw [stripArity, toList_genericName, List.takeWhile_append_of_pos hall]
  split <;> simp

theorem toString_arity_inj {a b : Nat} (h : toString a = toString b) : a = b := by
  have hdigits : Nat.toDigits 10 a = Nat.toDigits 10 b := by
    have := congrArg String.toList h
    simpa [Nat.repr] using this
  rw [← Numeral.digitsValue_toDigits a, hdigits, Numeral.digitsValue_toDigits]

/-- A generic name shows the name and the number of type parameters. -/
theorem genericName_inj {name name' : String} {a b : Nat} (hn : '`' ∉ name.toList) (hn' : '`' ∉ name'.toList)
    (h : genericName name a = genericName name' b) : name = name' ∧ a = b := by
  have h := congrArg String.toList h
  rw [toList_genericName, toList_genericName] at h
  by_cases ha : a = 0 <;> by_cases hb : b = 0
  · simp [ha, hb] at h
    exact ⟨String.toList_inj.1 (by simpa using h), ha.trans hb.symm⟩
  · rw [if_pos ha, if_neg hb, List.append_nil] at h
    exact absurd (by simp [h]) hn
  · rw [if_neg ha, if_pos hb, List.append_nil] at h
    exact absurd (by simp [← h]) hn'
  · rw [if_neg ha, if_neg hb] at h
    obtain ⟨hname, harity⟩ := append_cons_left_cancel hn hn' h
    exact ⟨String.toList_inj.1 hname, toString_arity_inj (String.toList_inj.1 harity)⟩

/-! ## Signatures -/

/-- How many brackets are open behind a character; none where a bracket closes too much or a comma stands outside. -/
def openBehind : Option Nat → Char → Option Nat
  | none, _ => none
  | some n, c =>
    if c = '(' ∨ c = '<' ∨ c = '[' then some (n + 1)
    else if c = ')' ∨ c = '>' ∨ c = ']' then if n = 0 then none else some (n - 1)
    else if c = ',' ∧ n = 0 then none
    else some n

/-- A type that is written with matching brackets, and with commas inside them only. -/
def IsClosed (cs : List Char) : Prop := cs.foldl openBehind (some 0) = some 0

instance (cs : List Char) : Decidable (IsClosed cs) := inferInstanceAs (Decidable (_ = _))

theorem foldl_openBehind_none (cs : List Char) : cs.foldl openBehind none = none := by
  induction cs with
  | nil => rfl
  | cons c r ih => exact ih

/-- What is closed does not go on behind a comma that follows a closed beginning. -/
theorem not_isClosed_comma {a r : List Char} (ha : IsClosed a) : ¬IsClosed (a ++ ',' :: r) := by
  intro h
  unfold IsClosed at h
  rw [List.foldl_append, ha, List.foldl_cons] at h
  have hcomma : openBehind (some 0) ',' = none := by decide
  rw [hcomma, foldl_openBehind_none] at h
  cases h

/-- Closed types that are joined by commas can be told from one another. -/
theorem closed_left_cancel {a a' r r' : List Char} (ha : IsClosed a) (ha' : IsClosed a')
    (hr : r = [] ∨ ∃ t, r = ',' :: t) (hr' : r' = [] ∨ ∃ t, r' = ',' :: t) (h : a ++ r = a' ++ r') :
    a = a' ∧ r = r' := by
  have hlonger : ∀ {b b' mid s s' : List Char}, IsClosed b → IsClosed b' → (s = [] ∨ ∃ t, s = ',' :: t) →
      b' = b ++ mid → s = mid ++ s' → mid = [] := by
    intro b b' mid s s' hb hb' hs hmid hsm
    cases mid with
    | nil => rfl
    | cons c mid =>
      rcases hs with rfl | ⟨t, rfl⟩
      · cases hsm
      · obtain ⟨rfl, -⟩ := List.cons.inj hsm
        exact absurd (hmid ▸ hb') (not_isClosed_comma hb)
  rcases List.append_eq_append_iff.1 h with ⟨mid, h1, h2⟩ | ⟨mid, h1, h2⟩
  · have hmid := hlonger ha ha' hr h1 h2
    simp_all
  · have hmid := hlonger ha' ha hr' h1 h2
    simp_all

theorem intercalate_comma_inj {xs ys : List (List Char)} (hxs : ∀ x ∈ xs, x ≠ [] ∧ IsClosed x)
    (hys : ∀ y ∈ ys, y ≠ [] ∧ IsClosed y) (h : [','].intercalate xs = [','].intercalate ys) : xs = ys := by
  have hcons : ∀ (x : List Char) (rest : List (List Char)), ∃ r, (r = [] ∨ ∃ t, r = ',' :: t) ∧
      [','].intercalate (x :: rest) = x ++ r ∧ (r = [] → rest = []) ∧
      ∀ t, r = ',' :: t → t = [','].intercalate rest := by
    intro x rest
    cases rest with
    | nil => exact ⟨[], .inl rfl, by simp, fun _ => rfl, nofun⟩
    | cons y rest =>
      refine ⟨',' :: [','].intercalate (y :: rest), .inr ⟨_, rfl⟩, by simp [List.intercalate], nofun, ?_⟩
      intro t ht
      exact (List.cons.inj ht).2.symm
  induction xs generalizing ys with
  | nil =>
    cases ys with
    | nil => rfl
    | cons y rest =>
      obtain ⟨r, -, hjoin, -⟩ := hcons y rest
      rw [hjoin] at h
      exact absurd (List.append_eq_nil_iff.1 h.symm).1 (hys y List.mem_cons_self).1
  | cons x xs ih =>
    obtain ⟨r, hr, hjoin, hnil, hrest⟩ := hcons x xs
    obtain ⟨⟨hx, hclosed⟩, hrestxs⟩ := List.forall_mem_cons.1 hxs
    cases ys with
    | nil =>
      rw [hjoin] at h
      exact absurd (List.append_eq_nil_iff.1 h).1 hx
    | cons y ys =>
      obtain ⟨r', hr', hjoin', hnil', hrest'⟩ := hcons y ys
      obtain ⟨⟨-, hclosed'⟩, hrestys⟩ := List.forall_mem_cons.1 hys
      rw [hjoin, hjoin'] at h
      obtain ⟨rfl, rfl⟩ := closed_left_cancel hclosed hclosed' hr hr' h
      rcases hr with rfl | ⟨t, rfl⟩
      · rw [hnil rfl, hnil' rfl]
      · rw [ih hrestxs hrestys ((hrest t rfl).symm.trans (hrest' t rfl))]

end Symbol

namespace CSharp

/-! ## Members -/

/-- A name in which neither the mark before a number of type parameters nor the separator of an identity occurs. -/
def IsPlain (name : String) : Prop := '`' ∉ name.toList ∧ '\x00' ∉ name.toList

instance (name : String) : Decidable (IsPlain name) := inferInstanceAs (Decidable (_ ∧ _))

/-- The types of the plain parameters of a callable, in the form in which its signature has them. -/
def typesOf (f : SourceFile) (n : Node) : List (List Char) :=
  (parameters n).map fun q => Symbol.normalizeType (parameterType f q)

/-- What a member of some kind is called inside its container. -/
def calledInside (kind : SymbolKind) (name : String) (n : Node) : String :=
  match kind with
  | .method => Symbol.genericName name (arity n)
  | .constructor => ".ctor"
  | _ => name

theorem signature_eq (f : SourceFile) (n : Node) :
    signature f n = .ofList ('(' :: [','].intercalate (typesOf f n) ++ [')']) := by
  rw [signature, Symbol.normalizeSignature, List.map_map]
  rfl

section
variable {f : SourceFile} {p : Site} {d : Declared}

/-- Members are declared in one way, but for what they are called and whether they have parameters. -/
theorem own_member (hd : d ∈ p.own f) (hk : callerKinds.contains d.kind) :
    (∃ at_, d = declareMember f p.around d.kind p.node at_ d.name (calledInside d.kind d.name p.node) d.kind.isCallable) ∧
      (d.kind = .constructor → p.around.types.getLast? = some d.name) := by
  cases makes_of_own hd with
  | space _ _ _ hmade =>
    rw [hmade.1] at hk
    cases hk
  | type htype _ _ => exact absurd ((callerKinds_of_typeKind htype).1.symm.trans hk) nofun
  | method | property | field => exact ⟨⟨_, rfl⟩, nofun⟩
  | constructor _ _ hlast _ => exact ⟨⟨_, rfl⟩, fun _ => hlast⟩

/-- A qualified name begins with what is around. -/
theorem qualify_eq (e : Enclosure) (name : String) :
    e.qualify name = (e.container?.elim "" fun c => c ++ ".") ++ name := by
  unfold Enclosure.qualify
  cases e.container? <;> simp

theorem zero_not_mem_calledInside {kind : SymbolKind} {name : String} {n : Node}
    (h : kind ≠ .constructor → IsPlain name) : '\x00' ∉ (calledInside kind name n).toList := by
  unfold calledInside
  split
  · exact Symbol.not_mem_genericName (by decide) (by decide) (h nofun).2
  · decide
  · rename_i hne
    exact (h hne).2

/-- What a member other than a constructor is called shows its name, and that of a method its type parameters. -/
theorem calledInside_inj {kind : SymbolKind} {name name' : String} {n n' : Node} (hkind : kind ≠ .constructor)
    (hn : IsPlain name) (hn' : IsPlain name') (h : calledInside kind name n = calledInside kind name' n') :
    name = name' ∧ (kind = .method → arity n = arity n') := by
  unfold calledInside at h
  split at h
  · obtain ⟨hname, harity⟩ := Symbol.genericName_inj hn.1 hn'.1 h
    exact ⟨hname, fun _ => harity⟩
  · exact absurd rfl hkind
  · rename_i hmethod _
    exact ⟨h, fun hk => absurd hk hmethod⟩

/-- A signature shows the types of the plain parameters. -/
theorem signature_inj {n n' : Node} (hn : ∀ t ∈ typesOf f n, t ≠ [] ∧ Symbol.IsClosed t)
    (hn' : ∀ t ∈ typesOf f n', t ≠ [] ∧ Symbol.IsClosed t) (h : signature f n = signature f n') :
    typesOf f n = typesOf f n' := by
  rw [signature_eq, signature_eq, String.ofList_inj] at h
  rw [List.append_cancel_right_eq, List.cons.injEq] at h
  exact Symbol.intercalate_comma_inj hn hn' h.2

end

/-! ## Identities -/

end CSharp

/-- What the index tells declarations apart by. -/
def Declared.identity (d : Declared) : String × Option String × SymbolKind := (d.qualname, d.signature, d.kind)

/-- What is hashed to the id of a declaration. -/
def Declared.bytes (d : Declared) : List UInt8 := Symbol.identityBytes d.qualname d.signature d.kind

namespace CSharp

/-- Two members that agree in all that goes into an identity. -/
structure SameMember (f : SourceFile) (p p' : Site) (d d' : Declared) : Prop where
  kind : d.kind = d'.kind
  name : d.name = d'.name
  arity : d.kind = .method → arity p.node = arity p'.node
  types : d.kind.isCallable → typesOf f p.node = typesOf f p'.node

/-- A member whose name and parameter types are written as those of C# are. -/
structure Legible (f : SourceFile) (p : Site) (d : Declared) : Prop where
  made : d ∈ p.own f
  member : callerKinds.contains d.kind
  plain : d.kind ≠ .constructor → IsPlain d.name
  types : ∀ t ∈ typesOf f p.node, t ≠ [] ∧ Symbol.IsClosed t

section
variable {f : SourceFile} {p p' : Site} {d d' : Declared}

theorem SameMember.identity_eq (h : SameMember f p p' d d') (hd : Legible f p d) (hd' : Legible f p' d')
    (haround : p.around = p'.around) : d.identity = d'.identity := by
  obtain ⟨⟨at_, hd⟩, -⟩ := own_member hd.made hd.member
  obtain ⟨⟨at_', hd'⟩, -⟩ := own_member hd'.made hd'.member
  obtain ⟨hkind, hname, harity, htypes⟩ := h
  have hcalled : calledInside d.kind d.name p.node = calledInside d'.kind d'.name p'.node := by
    rw [← hkind, ← hname]
    unfold calledInside
    split
    · rw [harity ‹_›]
    · rfl
    · rfl
  have hsignature : d.signature = d'.signature := by
    rw [hd, hd']
    unfold declareMember
    dsimp only
    rw [← hkind]
    by_cases hc : d.kind.isCallable
    · rw [if_pos hc, if_pos hc, signature_eq, signature_eq, htypes hc]
    · rw [if_neg hc, if_neg hc]
  have hqualname : d.qualname = d'.qualname := by
    rw [hd, hd']
    unfold declareMember
    dsimp only
    rw [hcalled, haround]
  rw [Declared.identity, Declared.identity, hqualname, hsignature, hkind]

theorem sameMember_of_bytes (hd : Legible f p d) (hd' : Legible f p' d') (haround : p.around = p'.around)
    (h : d.bytes = d'.bytes) : SameMember f p p' d d' := by
  obtain ⟨⟨at_, he⟩, hctor⟩ := own_member hd.made hd.member
  obtain ⟨⟨at_', he'⟩, hctor'⟩ := own_member hd'.made hd'.member
  obtain ⟨hkind, h⟩ := Symbol.identityBytes_cut h
  have hq : d.qualname = p.around.qualify (calledInside d.kind d.name p.node) := by
    rw [he]
    rfl
  have hq' : d'.qualname = p.around.qualify (calledInside d.kind d'.name p'.node) := by
    rw [haround, hkind, he']
    rfl
  rw [hq, hq', qualify_eq, qualify_eq, String.toList_append, String.toList_append, List.append_assoc, List.append_assoc,
    List.append_cancel_left_eq] at h
  obtain ⟨hcalled, hsignature⟩ :=
    append_cons_left_cancel (zero_not_mem_calledInside hd.plain) (zero_not_mem_calledInside (hkind ▸ hd'.plain)) h
  refine ⟨hkind, ?_, ?_, ?_⟩
  · by_cases hc : d.kind = .constructor
    · exact Option.some.inj ((hctor hc).symm.trans (haround ▸ hctor' (hkind ▸ hc)))
    · exact (calledInside_inj hc (hd.plain hc) (hd'.plain (hkind ▸ hc)) (String.toList_inj.1 hcalled)).1
  · intro hmethod
    have hc : d.kind ≠ .constructor := by rw [hmethod]; nofun
    exact (calledInside_inj hc (hd.plain hc) (hd'.plain (hkind ▸ hc)) (String.toList_inj.1 hcalled)).2 hmethod
  · intro hcallable
    have hs : d.signature = some (signature f p.node) := by
      rw [he]
      exact if_pos hcallable
    have hs' : d'.signature = some (signature f p'.node) := by
      rw [he']
      exact if_pos (hkind ▸ hcallable)
    rw [hs, hs', Option.getD_some, Option.getD_some, String.toList_inj] at hsignature
    exact signature_inj hd.types hd'.types hsignature

/-- Of two members of one type, or of two parts of it, both the index and the hashed bytes keep apart just
what differs in kind, name, number of type parameters or types of plain parameters. -/
theorem members_told_apart_iff (hp : p ∈ f.sites) (hp' : p' ∈ f.sites) (haround : p.around = p'.around)
    (hd : Legible f p d) (hd' : Legible f p' d') :
    d ∈ declarations f ∧ d' ∈ declarations f ∧
      (d.identity ≠ d'.identity ↔ ¬SameMember f p p' d d') ∧ (d.bytes ≠ d'.bytes ↔ ¬SameMember f p p' d d') := by
  have hbytes : d.identity = d'.identity → d.bytes = d'.bytes := by
    intro h
    obtain ⟨hqualname, hrest⟩ := Prod.mk.inj h
    obtain ⟨hsignature, hkind⟩ := Prod.mk.inj hrest
    rw [Declared.bytes, Declared.bytes, hqualname, hsignature, hkind]
  refine ⟨?_, ?_, not_congr ⟨fun h => ?_, fun h => ?_⟩, not_congr ⟨fun h => ?_, fun h => ?_⟩⟩
  · exact declarations_eq_sites f ▸ List.mem_flatMap.2 ⟨p, hp, hd.made⟩
  · exact declarations_eq_sites f ▸ List.mem_flatMap.2 ⟨p', hp', hd'.made⟩
  · exact sameMember_of_bytes hd hd' haround (hbytes h)
  · exact h.identity_eq hd hd' haround
  · exact sameMember_of_bytes hd hd' haround h
  · exact hbytes (h.identity_eq hd hd' haround)

end

/-- A class with two methods that overload one another by a parameter array. -/
def parameterArray : SourceFile :=
  .ofText parse "a.cs" "class C \x7b void M() \x7b \x7d void M(int x) \x7b \x7d void M(params int[] xs) \x7b \x7d \x7d"

theorem overloads_told_apart : ∃ p ∈ parameterArray.sites, ∃ p' ∈ parameterArray.sites, ∃ d d',
    p.around = p'.around ∧ Legible parameterArray p d ∧ Legible parameterArray p' d' ∧ d.name = d'.name ∧
      d.identity ≠ d'.identity ∧ d.bytes ≠ d'.bytes := by
  have hmethods : ∃ p ∈ parameterArray.sites, ∃ d ∈ p.own parameterArray,
      ∃ p' ∈ parameterArray.sites, ∃ d' ∈ p'.own parameterArray,
      (p.around.namespaces = p'.around.namespaces ∧ p.around.types = p'.around.types) ∧
        (d.kind = .method ∧ IsPlain d.name ∧ ∀ t ∈ typesOf parameterArray p.node, t ≠ [] ∧ Symbol.IsClosed t) ∧
        (d'.kind = .method ∧ IsPlain d'.name ∧ ∀ t ∈ typesOf parameterArray p'.node, t ≠ [] ∧ Symbol.IsClosed t) ∧
        d.name = d'.name ∧ typesOf parameterArray p.node ≠ typesOf parameterArray p'.node := by decide +kernel
  obtain ⟨p, hp, d, hmade, p', hp', d', hmade', haround, ⟨hk, hn, ht⟩, ⟨hk', hn', ht'⟩, hname, htypes⟩ := hmethods
  have haround : p.around = p'.around := by
    rw [Enclosure.mk.injEq]
    exact haround
  have hd : Legible parameterArray p d := ⟨hmade, by rw [hk]; decide, fun _ => hn, ht⟩
  have hd' : Legible parameterArray p' d' := ⟨hmade', by rw [hk']; decide, fun _ => hn', ht'⟩
  have hother : ¬SameMember parameterArray p p' d d' := fun h => htypes (h.types (by rw [hk]; decide))
  have hmembers := members_told_apart_iff hp hp' haround hd hd'
  exact ⟨p, hp, p', hp', d, d', haround, hd, hd', hname, hmembers.2.2.1.2 hother, hmembers.2.2.2.2 hother⟩

/-- The type of a parameter array is in no signature, so a method that takes one is not told from one without. -/
theorem parameterArray_not_told_apart :
    (declarations parameterArray).map (fun d => (d.identity, d.extent.start)) =
      [(("C", none, .class_), 0), (("C.M", some "()", .method), 10), (("C.M", some "(int)", .method), 23),
        (("C.M", some "()", .method), 41)] := by decide +kernel

end CSharp

end Workbench
