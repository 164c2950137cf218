import Conformance.Proofs.Shape.Alternatives
import Conformance.Proofs.Shape.ToldApart

/-!
# Canonical text is unambiguous

Canonical text leaves out what holds a shape together: unions in unions, unions
of one member, quotes around literals. Where there are no literals, no empty
unions, and no keys but words, what is left still determines the meaning.

An atom is a shape whose text does not go on with the brackets of an array. The
alternatives of a shape are arrays of atoms, so that shapes are told apart by
their atoms, and atoms by the shapes that are parts of them.
-/
namespace Conformance.Shape

/-- A key of ASCII letters, digits and underscores; also the empty key. -/
def IsWord (key : String) : Prop := ∀ c ∈ key.toList, (c.isAlphanum || c == '_') = true

/-- No literals, no empty unions, and no keys but words, at any depth. -/
structure Plain (t : Shape) : Prop where
  literals : ∀ value, literal value ∉ t.nodes
  unions : t.FreeOfEmptyUnions
  keys : ∀ fields, record fields ∈ t.nodes → ∀ f ∈ fields, IsWord f.key

theorem Plain.node {s t : Shape} (h : t.Plain) (hs : s ∈ t.nodes) : s.Plain where
  literals value hv := h.literals value (mem_nodes_trans hv hs)
  unions hu := h.unions (mem_nodes_trans hu hs)
  keys fields hf := h.keys fields (mem_nodes_trans hf hs)

def nodeIsPlain : Shape → Bool
  | literal _ | union [] => false
  | record fields => fields.all fun f => f.key.toList.all fun c => c.isAlphanum || c == '_'
  | _ => true

theorem plain_iff {t : Shape} : t.Plain ↔ t.nodes.all nodeIsPlain = true := by
  rw [List.all_eq_true]
  constructor
  · intro h s hs
    cases s with
    | literal value => exact absurd hs (h.literals value)
    | union members =>
      cases members with
      | nil => exact absurd hs h.unions
      | cons m ms => rfl
    | record fields =>
      simp only [nodeIsPlain, List.all_eq_true]
      exact h.keys fields hs
    | _ => rfl
  · intro h
    refine ⟨fun value hv => ?_, fun hu => ?_, fun fields hf => ?_⟩
    · cases h _ hv
    · cases h _ hu
    · simpa only [IsWord, nodeIsPlain, List.all_eq_true] using h _ hf

instance (t : Shape) : Decidable t.Plain := decidable_of_iff _ plain_iff.symm

def isAtom : Shape → Bool
  | union _ => false
  | array element => element.isUnion
  | _ => true

def arrays : Nat → Shape → Shape
  | 0, t => t
  | n + 1, t => array (arrays n t)

theorem exists_atom {t : Shape} (h : t.isUnion = false) :
    ∃ n, ∃ c ∈ t.nodes, c.isAtom = true ∧ t = arrays n c := by
  induction t with
  | union members => cases h
  | array element ih =>
    cases he : element.isUnion with
    | true => exact ⟨0, _, mem_nodes_self _, he, rfl⟩
    | false =>
      obtain ⟨n, c, hc, hatom, rfl⟩ := ih he
      exact ⟨n + 1, c, mem_nodes.2 (.inr ⟨_, List.mem_cons_self, hc⟩), hatom, rfl⟩
  | _ => exact ⟨0, _, mem_nodes_self _, rfl, rfl⟩

theorem arrays_isUnion {c : Shape} (h : c.isAtom = true) (n : Nat) :
    (arrays n c).isUnion = false := by
  cases n with
  | zero =>
    cases c with
    | union members => cases h
    | _ => rfl
  | succ n => rfl

theorem text_arrays {c : Shape} (h : c.isAtom = true) (n : Nat) :
    (arrays n c).text = c.text ++ brackets n := by
  induction n with
  | zero => exact (List.append_nil _).symm
  | succ n ih =>
    rw [arrays, text, arrays_isUnion h, ih, ← brackets_append, ← List.append_assoc]
    rfl

theorem equivalent_arrays {a b : Shape} (h : a.Equivalent b) (n : Nat) :
    (arrays n a).Equivalent (arrays n b) := by
  induction n with
  | zero => exact h
  | succ n ih => exact equivalent_array ih

theorem arrays_told_apart {a b : Shape} (ha : a.isAtom = true) (hb : b.isAtom = true)
    (h : ToldApart text EndsAtom Equivalent a b) (m n : Nat) :
    ToldApart text EndsAlternative Equivalent (arrays m a) (arrays n b) := by
  intro r s hr hs he
  rw [text_arrays ha, text_arrays hb, List.append_assoc, List.append_assoc] at he
  obtain ⟨hab, hrest⟩ := h _ _ (endsAtom_brackets m hr) (endsAtom_brackets n hs) he
  obtain ⟨rfl, hrs⟩ := brackets_told_apart hr hs hrest
  exact ⟨equivalent_arrays hab m, hrs⟩

def AtomsToldApart (a : Shape) : Prop :=
  ∀ c ∈ a.nodes, c.isAtom = true → ∀ d : Shape, d.Plain → d.isAtom = true →
    ToldApart text EndsAtom Equivalent c d

theorem alternatives_told_apart {a b : Shape} (h : a.AtomsToldApart) (hb : b.Plain) :
    ∀ s ∈ a.alternatives, ∀ t ∈ b.alternatives,
      ToldApart text EndsAlternative Equivalent s t := by
  intro s hs t ht
  obtain ⟨m, c, hc, hcatom, rfl⟩ := exists_atom (isUnion_of_mem_alternatives hs)
  obtain ⟨n, d, hd, hdatom, rfl⟩ := exists_atom (isUnion_of_mem_alternatives ht)
  have hca := mem_nodes_trans hc (mem_nodes_of_mem_alternatives hs)
  have hdb := hb.node (mem_nodes_trans hd (mem_nodes_of_mem_alternatives ht))
  exact arrays_told_apart hcatom hdatom (h c hca hcatom d hdb hdatom) m n

/-- Shapes are told apart as soon as their atoms are: by their alternatives, one by one. -/
theorem shapes_told_apart {a b : Shape} (ha : a.FreeOfEmptyUnions) (hb : b.Plain)
    (h : a.AtomsToldApart) : ToldApart text EndsShape Equivalent a b := by
  intro r s hr hs he
  have hall := alternatives_told_apart h hb
  obtain ⟨x, xs, hx⟩ := List.exists_cons_of_ne_nil (alternatives_ne_nil ha)
  obtain ⟨y, ys, hy⟩ := List.exists_cons_of_ne_nil (alternatives_ne_nil hb.unions)
  rw [text_eq_alternatives ha, text_eq_alternatives hb.unions, hx, hy] at he
  rw [hx, hy] at hall
  have hbar (r : List Char) : EndsAlternative ([' ', '|', ' '] ++ r) := by simp [EndsAlternative]
  obtain ⟨hab, hrs⟩ := intercalate_told_apart hbar hall hr.1 hs.1 hr.2 hs.2 he
  rw [← hx, ← hy] at hab
  refine ⟨?_, hrs⟩
  exact (equivalent_alternatives a).trans
    ((equivalent_union hab).trans (equivalent_alternatives b).symm)

def bracket? : List Char → Option Char
  | [] => none
  | c :: _ => if c.isLower then none else some c

def opening? : Shape → Option Char
  | record _ => some '{'
  | tuple _ => some '['
  | array _ => some '('
  | _ => none

def keyword? : Shape → Option String
  | primitive kind => some kind.keyword
  | other kind => some kind.keyword
  | _ => none

theorem text_of_keyword? {t : Shape} {k : String} (h : t.keyword? = some k) :
    t.text = k.toList := by
  cases t with
  | primitive kind => exact congrArg String.toList (Option.some.inj h)
  | other kind => exact congrArg String.toList (Option.some.inj h)
  | _ => cases h

theorem isLower_of_keyword? {t : Shape} {k : String} (h : t.keyword? = some k) :
    k.toList ≠ [] ∧ ∀ c ∈ k.toList, c.isLower = true := by
  cases t with
  | primitive kind =>
    cases h
    cases kind <;> simp [Primitive.keyword]
  | other kind =>
    cases h
    cases kind <;> simp [Wildcard.keyword]
  | _ => cases h

theorem eq_of_keyword? {a b : Shape} {k : String} (ha : a.keyword? = some k)
    (hb : b.keyword? = some k) : a = b := by
  have hprimitive (i j : Primitive) (h : i.keyword = j.keyword) : i = j := by
    cases i <;> cases j <;> first | rfl | exact absurd h (by decide)
  have hother (i j : Wildcard) (h : i.keyword = j.keyword) : i = j := by
    cases i <;> cases j <;> first | rfl | exact absurd h (by decide)
  have hboth (i : Primitive) (j : Wildcard) : i.keyword ≠ j.keyword := by
    cases i <;> cases j <;> decide
  cases a with
  | primitive i =>
    cases ha
    cases b with
    | primitive j => rw [hprimitive i j (Option.some.inj hb).symm]
    | other j => exact absurd (Option.some.inj hb).symm (hboth i j)
    | _ => cases hb
  | other i =>
    cases ha
    cases b with
    | primitive j => exact absurd (Option.some.inj hb) (hboth j i)
    | other j => rw [hother i j (Option.some.inj hb).symm]
    | _ => cases hb
  | _ => cases ha

theorem bracket?_keyword {t : Shape} {k : String} (h : t.keyword? = some k) (r : List Char) :
    bracket? (t.text ++ r) = none := by
  obtain ⟨hne, hlower⟩ := isLower_of_keyword? h
  obtain ⟨c, cs, hk⟩ := List.exists_cons_of_ne_nil hne
  have hc : c.isLower = true := hlower c (hk ▸ List.mem_cons_self)
  rw [text_of_keyword? h, hk, List.cons_append, bracket?, if_pos hc]

theorem bracket?_atom {c : Shape} (hc : c.Plain) (hatom : c.isAtom = true) (r : List Char) :
    bracket? (c.text ++ r) = c.opening? := by
  cases c with
  | record fields => cases fields <;> rfl
  | tuple elements => rfl
  | array element =>
    have he : element.isUnion = true := hatom
    rw [text, if_pos he]
    rfl
  | union members => cases hatom
  | literal value => exact absurd (mem_nodes_self _) (hc.literals value)
  | _ => exact bracket?_keyword rfl r

theorem exists_keyword {c : Shape} (hc : c.Plain) (hatom : c.isAtom = true)
    (h : c.opening? = none) : ∃ k, c.keyword? = some k := by
  cases c with
  | union members => cases hatom
  | literal value => exact absurd (mem_nodes_self _) (hc.literals value)
  | primitive kind => exact ⟨_, rfl⟩
  | other kind => exact ⟨_, rfl⟩
  | _ => cases h

theorem exists_atom_prefix {t : Shape} (h : t.FreeOfEmptyUnions) :
    ∃ c ∈ t.nodes, c.isAtom = true ∧ c.text <+: t.text := by
  obtain ⟨x, xs, hx⟩ := List.exists_cons_of_ne_nil (alternatives_ne_nil h)
  have hmem : x ∈ t.alternatives := hx ▸ List.mem_cons_self
  obtain ⟨n, c, hc, hatom, rfl⟩ := exists_atom (isUnion_of_mem_alternatives hmem)
  refine ⟨c, mem_nodes_trans hc (mem_nodes_of_mem_alternatives hmem), hatom, ?_⟩
  rw [text_eq_alternatives h, hx, intercalate_map_cons, text_arrays hatom, List.append_assoc]
  exact List.prefix_append _ _

theorem text_append_ne {t : Shape} (h : t.Plain) (r s : List Char) :
    t.text ++ r ≠ ']' :: s := by
  obtain ⟨c, hc, hatom, u, hu⟩ := exists_atom_prefix h.unions
  intro he
  rw [← hu, List.append_assoc] at he
  have hb := bracket?_atom (h.node hc) hatom (u ++ r)
  rw [he] at hb
  cases c <;> simp [bracket?, opening?] at hb

theorem opening?_eq {a b : Shape} (ha : a.Plain) (hb : b.Plain) (haatom : a.isAtom = true)
    (hbatom : b.isAtom = true) {r s : List Char} (h : a.text ++ r = b.text ++ s) :
    a.opening? = b.opening? := by
  rw [← bracket?_atom ha haatom r, h, bracket?_atom hb hbatom s]

theorem keywords_told_apart {a b : Shape} {k l : String} (ha : a.keyword? = some k)
    (hb : b.keyword? = some l) : ToldApart text EndsAtom Equivalent a b := by
  intro r s hr hs he
  have hends {r : List Char} (h : EndsAtom r) : ∀ c ∈ r.head?, c.isLower = false := by
    intro c hc
    have hmem := h c hc
    simp only [List.mem_cons, List.not_mem_nil, or_false] at hmem
    rcases hmem with rfl | rfl | rfl | rfl | rfl | rfl <;> rfl
  rw [text_of_keyword? ha, text_of_keyword? hb] at he
  obtain ⟨hkl, hrs⟩ := run_told_apart (isLower_of_keyword? ha).2 (isLower_of_keyword? hb).2
    (hends hr) (hends hs) he
  refine ⟨?_, hrs⟩
  rw [eq_of_keyword? ha (String.toList_injective hkl ▸ hb)]
  exact .refl b

variable {as bs : List Shape}

theorem tuples_told_apart (has : ∀ a ∈ as, a.Plain) (hbs : ∀ b ∈ bs, b.Plain)
    (h : ∀ a ∈ as, ∀ b ∈ bs, ToldApart text EndsShape Equivalent a b) :
    ToldApart text EndsAtom Equivalent (tuple as) (tuple bs) := by
  intro r s _ _ he
  have hclose (r : List Char) : EndsShape (']' :: r) := endsShape_cons (by simp) r
  have hcomma (r : List Char) : EndsShape ([',', ' '] ++ r) := endsShape_cons (by simp) _
  simp only [text, texts_eq_map, List.cons_append, List.append_assoc, List.nil_append,
    List.cons.injEq, true_and] at he
  -- An empty tuple closes where another one has its first element.
  have hboth : List.Forall₂ Equivalent as bs ∧ ']' :: r = ']' :: s := by
    cases as with
    | nil =>
      cases bs with
      | nil => exact ⟨.nil, he⟩
      | cons b bs =>
        simp only [intercalate_map_cons, List.append_assoc] at he
        exact absurd he.symm (text_append_ne (hbs b List.mem_cons_self) _ _)
    | cons a as =>
      cases bs with
      | nil =>
        simp only [intercalate_map_cons, List.append_assoc] at he
        exact absurd he (text_append_ne (has a List.mem_cons_self) _ _)
      | cons b bs =>
        exact intercalate_told_apart hcomma h (hclose r) (hclose s) (by simp) (by simp) he
  exact ⟨equivalent_tuple hboth.1, (List.cons.inj hboth.2).2⟩

def fieldText (f : Field Shape) : List Char :=
  f.key.toList ++ (if f.optional then ['?'] else []) ++ ':' :: ' ' :: f.value.text

theorem fieldTexts_eq_map (fs : List (Field Shape)) : fieldTexts fs = fs.map fieldText := by
  induction fs with
  | nil => rfl
  | cons f fs ih => rw [fieldTexts, ih, List.map_cons, fieldText]

theorem fields_told_apart {f g : Field Shape} (hf : IsWord f.key) (hg : IsWord g.key)
    (h : ToldApart text EndsShape Equivalent f.value g.value) :
    ToldApart fieldText EndsShape FieldEquivalent f g := by
  intro r s hr hs he
  -- The key ends at the question mark or the colon behind it.
  have hmark (f : Field Shape) (r : List Char) :
      ∀ c ∈ ((if f.optional then ['?'] else []) ++ ':' :: r).head?,
        (c.isAlphanum || c == '_') = false := by
    cases f.optional <;> simp
  simp only [fieldText, List.append_assoc, List.cons_append] at he
  obtain ⟨hkey, hrest⟩ := run_told_apart hf hg (hmark f _) (hmark g _) he
  have hsame : f.optional = g.optional ∧ f.value.text ++ r = g.value.text ++ s := by
    cases ho : f.optional <;> cases hp : g.optional <;> simp [ho, hp] at hrest ⊢ <;> exact hrest
  obtain ⟨hvalue, hrs⟩ := h r s hr hs hsame.2
  exact ⟨⟨String.toList_injective hkey, hsame.1, hvalue⟩, hrs⟩

theorem records_told_apart {fs gs : List (Field Shape)}
    (h : ∀ f ∈ fs, ∀ g ∈ gs, ToldApart fieldText EndsShape FieldEquivalent f g) :
    ToldApart text EndsAtom Equivalent (record fs) (record gs) := by
  intro r s _ _ he
  cases fs with
  | nil =>
    cases gs with
    | nil => exact ⟨.refl _, List.append_cancel_left he⟩
    | cons g gs => simp [text] at he
  | cons f fs =>
    cases gs with
    | nil => simp [text] at he
    | cons g gs =>
      have hsemi (r : List Char) : EndsShape ([';', ' '] ++ r) := endsShape_cons (by simp) _
      simp only [text, fieldTexts_eq_map, List.cons_append, List.append_assoc, List.nil_append,
        List.cons.injEq, true_and] at he
      obtain ⟨hfg, hrs⟩ := intercalate_told_apart hsemi h (endsShape_brace r)
        (endsShape_brace s) (by simp) (by simp) he
      exact ⟨equivalent_record hfg, (List.cons.inj (List.cons.inj hrs).2).2⟩

theorem parentheses_told_apart {a b : Shape} (ha : a.isUnion = true) (hb : b.isUnion = true)
    (h : ToldApart text EndsShape Equivalent a b) :
    ToldApart text EndsAtom Equivalent (array a) (array b) := by
  intro r s _ _ he
  have hclose (r : List Char) : EndsShape (')' :: r) := endsShape_cons (by simp) r
  simp only [text, ha, hb, if_pos, List.cons_append, List.append_assoc, List.nil_append,
    List.cons.injEq, true_and] at he
  obtain ⟨hab, hrest⟩ := h _ _ (hclose _) (hclose _) he
  have hrs : r = s := by simpa using hrest
  exact ⟨equivalent_array hab, hrs⟩

theorem atoms_told_apart {a b : Shape} (ha : a.Plain) (hb : b.Plain) (haatom : a.isAtom = true)
    (hbatom : b.isAtom = true)
    (h : ∀ p ∈ a.parts, ∀ q ∈ b.parts, ToldApart text EndsShape Equivalent p q) :
    ToldApart text EndsAtom Equivalent a b := by
  intro r s hr hs he
  have hopening := opening?_eq ha hb haatom hbatom he
  have hpart {t p : Shape} (ht : t.Plain) (hp : p ∈ t.parts) : p.Plain :=
    ht.node (mem_nodes_of_mem_parts hp)
  cases a with
  | record fs =>
    cases b with
    | record gs =>
      refine records_told_apart (fun f hf g hg => ?_) r s hr hs he
      exact fields_told_apart (ha.keys fs (mem_nodes_self _) f hf)
        (hb.keys gs (mem_nodes_self _) g hg)
        (h f.value (List.mem_map_of_mem hf) g.value (List.mem_map_of_mem hg))
    | _ => simp [opening?] at hopening
  | tuple as =>
    cases b with
    | tuple bs => exact tuples_told_apart (fun a => hpart ha) (fun b => hpart hb) h r s hr hs he
    | _ => simp [opening?] at hopening
  | array a =>
    cases b with
    | array b =>
      exact parentheses_told_apart haatom hbatom
        (h a List.mem_cons_self b List.mem_cons_self) r s hr hs he
    | _ => simp [opening?] at hopening
  | union members => cases haatom
  | literal value => exact absurd (mem_nodes_self _) (ha.literals value)
  | primitive _ | other _ =>
    obtain ⟨k, hk⟩ := exists_keyword hb hbatom hopening.symm
    exact keywords_told_apart rfl hk r s hr hs he

theorem Plain.atomsToldApart {a : Shape} (ha : a.Plain) : a.AtomsToldApart := by
  induction a using byAllParts with
  | h a ih =>
    have hparts p (hp : p ∈ a.parts) : p.Plain ∧ p.AtomsToldApart :=
      have hplain := ha.node (mem_nodes_of_mem_parts hp)
      ⟨hplain, ih p hp hplain⟩
    intro c hc hcatom d hd hdatom
    -- The shape itself may be an atom; all other atoms in it are in its parts.
    rcases mem_nodes.1 hc with rfl | ⟨p, hp, hc⟩
    · refine atoms_told_apart ha hd hcatom hdatom fun p hp q hq => ?_
      obtain ⟨hplain, hp⟩ := hparts p hp
      exact shapes_told_apart hplain.unions (hd.node (mem_nodes_of_mem_parts hq)) hp
    · exact (hparts p hp).2 c hc hcatom d hd hdatom

theorem equivalent_of_text_eq {a b : Shape} (ha : a.Plain) (hb : b.Plain) (h : a.text = b.text) :
    a.Equivalent b :=
  (shapes_told_apart ha.unions hb ha.atomsToldApart [] [] endsShape_nil endsShape_nil
    (by rw [h])).1

/-- Plain shapes of one text accept the same values. -/
theorem accept_iff_of_render_eq {a b : Shape} (ha : a.Plain) (hb : b.Plain)
    (h : a.render = b.render) (v w : Value) : a.accept v = .ok w ↔ b.accept v = .ok w := by
  apply Equivalent.accept_iff
  exact equivalent_of_text_eq ha hb (String.ofList_injective h)

def nestedRight : Shape :=
  record [⟨"item_1", array (union [primitive .string, union [tuple [], array (other .any)]]), true⟩]

def nestedLeft : Shape :=
  record [⟨"item_1", array (union [union [union [primitive .string], tuple []],
    array (other .any)]), true⟩]

theorem accept_nestedRight_iff :
    nestedRight.render = nestedLeft.render ∧
      ∀ v w, nestedRight.accept v = .ok w ↔ nestedLeft.accept v = .ok w := by
  have h : nestedRight.render = nestedLeft.render := by decide
  exact ⟨h, accept_iff_of_render_eq (by decide) (by decide) h⟩

-- Why the shapes have to be plain: what is left out, or looks like punctuation, is not told apart.
example : (literal (.string "null")).render = (primitive .null).render := by decide

example : (tuple [union []]).render = (tuple []).render := by decide

example : (record [⟨"a: any; b", other .any, false⟩]).render =
    (record [⟨"a", other .any, false⟩, ⟨"b", other .any, false⟩]).render := by decide

end Conformance.Shape
