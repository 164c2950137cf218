import Conformance.Proofs.Json.TypedReaders
import Conformance.Shape.Codec

/-!
# Typed readers and rejections

What a codec refuses in a document, its reader refuses in a text with that
document: at the same address and with the same complaint (`Refusal.Echoes`).
This holds of readers that judge a document after they have read it, and is
handed on to lists of them (`Codec.Mirrored`). A refusal at an element comes
before anything behind that element is read, so the first element that is refused
is the one that is reported. As the text is known to be a document, nothing else
can stop the reader.
-/
namespace Conformance

/-- A refusal of a text that says what the rejection of a document says. -/
structure Refusal.Echoes (e : Refusal) (r : Rejection) : Prop where
  address : e.address = r.address
  cause : e.cause = .complaint r.complaint

theorem Refusal.Echoes.below {e : Refusal} {r : Rejection} (h : e.Echoes r) (step : Step) :
    (e.below step).Echoes (r.below step) :=
  ⟨congrArg (step :: ·) h.address, h.cause⟩

namespace Reader

theorem echoes_settle {close : List Char → Option Flaw × List Char} {e : Refusal} {r : Rejection}
    (h : e.Echoes r) : (settle close e).Echoes r := by
  unfold settle
  split
  · exact h
  · exact ⟨h.address, h.cause⟩

variable {α : Type} {reader : Reader α} {documents : Reader Json}
  {tree : Json → Except Rejection α}

/-- Wherever a document stands the reader makes of it what `tree` does, or refuses it for the same
reason. -/
structure Mirrors (reader : Reader α) (documents : Reader Json)
    (tree : Json → Except Rejection α) : Prop where
  accepts : ∀ {s j r a}, documents.run s = .ok (j, r) → tree j = .ok a → reader.run s = .ok (a, r)
  refuses : ∀ {s j r e}, documents.run s = .ok (j, r) → tree j = .error e →
    ∃ refusal, reader.run s = .error refusal ∧ refusal.Echoes e

theorem mirrors_judged (judge : Json → Except Complaint α) :
    (documents.judged judge).Mirrors documents fun j => (judge j).mapError (⟨[], ·⟩) where
  accepts := by
    intro s j r a hs ha
    simp only [judged, hs, Shape.mapError_eq_ok.1 ha]
  refuses := by
    intro s j r e hs he
    cases hj : judge j with
    | ok a =>
      rw [hj] at he
      cases he
    | error c =>
      rw [hj] at he
      cases he
      exact ⟨.hold c r, by simp only [judged, hs, hj], rfl, rfl⟩

section
variable {σ : Type} {step : σ → Option (Reader σ)} {element : Reader σ} {i : Nat}
  {state : σ} {s t : List Char} {e : Refusal}

theorem gatherElements_error (hs : step state = some element)
    (hn : nextElement (i == 0) s = .ok (some t)) (he : element.run t = .error e) :
    gatherElements step i state s = .error (e.below (.index i)) := by
  rw [gatherElements]
  simp only [hs]
  split
  · simp_all
  · simp_all
  · split <;> simp_all

theorem run_map_error {f : α → σ} (h : reader.run s = .error e) :
    (reader.map f).run s = .error e := by
  simp only [map, h]

end

def further (reader : Reader α) (read : List α) : Option (Reader (List α)) :=
  some (reader.map (· :: read))

/-- The two loops go through the same text, as long as no element is refused. -/
theorem gatherElements_mirrors (h : reader.Mirrors documents tree) {i : Nat}
    {js js' : List Json} {s t : List Char}
    (hg : gatherElements (further documents) i js s = .ok (js', t)) :
    ∃ items, js' = items.reverse ++ js ∧
      (∀ as bs, Codec.treeOfItems tree i items = .ok bs →
        gatherElements (further reader) i as s = .ok (bs.reverse ++ as, t)) ∧
      ∀ as r, Codec.treeOfItems tree i items = .error r →
        ∃ e, gatherElements (further reader) i as s = .error e ∧ e.Echoes r := by
  -- By the turns of the loop over documents; the other loop is run along with it.
  fun_induction gatherElements (further documents) i js s with
  | case1 i js s hs => cases hs
  | case2 => cases hg
  | case3 i js s _ _ hn =>
    cases hg
    refine ⟨[], rfl, ?_, ?_⟩
    · rintro as _ ⟨⟩
      exact gatherElements_stop rfl hn
    · rintro as r ⟨⟩
  | case4 => cases hg
  | case5 i js s _ hs u hn _ r he ih =>
    cases hs
    obtain ⟨j, hj, rfl⟩ := run_map_eq_ok he
    obtain ⟨items, hjs, hok, herror⟩ := ih hg
    refine ⟨j :: items, by simp [hjs], ?_, ?_⟩
    · intro as bs hbs
      rw [Codec.treeOfItems] at hbs
      cases ha : tree j with
      | error e =>
        rw [ha] at hbs
        cases hbs
      | ok a =>
        rw [ha] at hbs
        obtain ⟨cs, hcs, rfl⟩ := Shape.map_eq_ok.1 hbs
        rw [gatherElements_next rfl hn (run_map (h.accepts hj ha)), hok _ _ hcs]
        simp
    · intro as r hr
      rw [Codec.treeOfItems] at hr
      cases ha : tree j with
      | error r' =>
        rw [ha] at hr
        cases hr
        obtain ⟨e, hrun, he⟩ := h.refuses hj ha
        exact ⟨_, gatherElements_error rfl hn (run_map_error hrun), he.below _⟩
      | ok a =>
        rw [ha] at hr
        rw [gatherElements_next rfl hn (run_map (h.accepts hj ha))]
        exact herror _ _ (Shape.map_eq_error.1 hr)

theorem listOf_mirrors (h : reader.Mirrors documents tree) {j : Json} {s t : List Char}
    (hs : (items documents).run s = .ok (j, t)) :
    ∃ js, j = .array js ∧
      (∀ as, Codec.treeOfItems tree 0 js = .ok as → (listOf reader).run s = .ok (as, t)) ∧
      ∀ r, Codec.treeOfItems tree 0 js = .error r →
        ∃ e, (listOf reader).run s = .error e ∧ e.Echoes r := by
  obtain ⟨_, hread, rfl⟩ := run_map_eq_ok hs
  obtain ⟨state, u, hg, ⟨⟩, hc⟩ := conclude_eq_ok_iff.1 hread
  obtain ⟨js, rfl, hok, herror⟩ := gatherElements_mirrors h hg
  have hjs : (js.reverse ++ []).reverse = js := by simp
  refine ⟨js, congrArg Json.array hjs, ?_, ?_⟩
  · intro as has
    refine conclude_eq_ok_iff.2 ⟨_, u, hok [] as has, ?_, hc⟩
    simp
  · intro r hr
    obtain ⟨e, he, hecho⟩ := herror [] r hr
    refine ⟨settle closeList e, ?_, echoes_settle hecho⟩
    change conclude closeList _ (gatherElements (further reader) 0 [] s) = _
    rw [he, conclude]

section
variable {depth : Nat} {wanted : String} {j : Json} {s r t : List Char}

theorem document_eq (depth : Nat) : document depth = documentWith (inner document depth) := by
  cases depth <;> rfl

theorem run_document_cases (hs : (document depth).run s = .ok (j, r)) :
    ∃ c t, skipBlanks s = c :: t ∧ (scalar? c t = some (.ok (j, r)) ∨
      ∃ d, depth = d + 1 ∧ scalar? c t = none ∧
        (c = '[' ∧ (items (document d)).run t = .ok (j, r) ∨
          c = '{' ∧ (members (document d)).run t = .ok (j, r))) := by
  rw [document_eq] at hs
  obtain ⟨c, t, hb, hs⟩ := exists_of_begin (fun _ => rfl) hs
  refine ⟨c, t, hb, ?_⟩
  split at hs
  · rename_i hscalar
    exact .inl (hs ▸ hscalar)
  · rename_i hscalar
    right
    cases depth with
    | zero =>
      split at hs
      · cases hs
      · split at hs <;> cases hs
    | succ d =>
      refine ⟨d, rfl, hscalar, ?_⟩
      split at hs
      · rename_i hc
        exact .inl ⟨hc, hs⟩
      · split at hs
        · rename_i hc
          exact .inr ⟨hc, hs⟩
        · cases hs

theorem items_of_run_document {js : List Json}
    (hs : (document depth).run s = .ok (.array js, r)) :
    ∃ d t, depth = d + 1 ∧ skipBlanks s = '[' :: t ∧
      (items (document d)).run t = .ok (.array js, r) := by
  obtain ⟨c, t, hb, hscalar | ⟨d, hd, -, ⟨rfl, ht⟩ | ⟨-, ht⟩⟩⟩ := run_document_cases hs
  · have h : (Json.array js).depth ≤ 0 := (readable_of_scalar? hscalar).shallow
    cases h
  · exact ⟨d, t, hd, hb, ht⟩
  · obtain ⟨ms, u, -, ⟨⟩, -⟩ := conclude_eq_ok_iff.1 ht

theorem run_container {c : Char} {body : Option (Reader α)} (hb : skipBlanks s = c :: t) :
    (container '[' wanted body).run s =
      if c = '[' then enter body c t else .error (unwanted wanted c t) := by
  simp only [container, begin, hb]

theorem run_container_of_ne {body : Option (Reader α)}
    (hs : (document depth).run s = .ok (j, r)) (hj : ∀ js, j ≠ .array js) :
    ∃ e, (container '[' wanted body).run s = .error e ∧
      e.Echoes ⟨[], .wrongType (.ofJson j) wanted⟩ := by
  obtain ⟨c, t, hb, h⟩ := run_document_cases hs
  have hc : c ≠ '[' := by
    rintro rfl
    obtain h | ⟨d, -, -, ⟨-, h⟩ | ⟨h, -⟩⟩ := h
    · cases h
    · obtain ⟨js, -, hjs⟩ := run_map_eq_ok h
      exact hj js hjs.symm
    · cases h
  refine ⟨unwanted wanted c t, (run_container hb).trans (if_neg hc), ?_⟩
  obtain h | ⟨d, -, hn, ⟨h, -⟩ | ⟨rfl, h⟩⟩ := h
  · rw [unwanted, h]
    exact ⟨rfl, rfl⟩
  · exact absurd h hc
  · obtain ⟨ms, u, -, ⟨⟩, -⟩ := conclude_eq_ok_iff.1 h
    rw [unwanted, hn]
    exact ⟨rfl, rfl⟩

end
end Reader

namespace Codec

variable {α : Type} {codec : Codec α} {source : String} {j : Json}

/-- What is read from a text is what is made of the document that stands there, refusals
included. -/
def Mirrored (codec : Codec α) : Prop :=
  ∀ depth, (codec.text depth).Mirrors (Reader.document depth) codec.tree

theorem mirrored_shape : shape.Mirrored := by
  intro depth
  have htree : shape.tree =
      fun j => ((Shape.ofJson j).mapError Rejection.asComplaint).mapError (⟨[], ·⟩) := by
    funext j
    change (Shape.ofJson j).mapError _ = _
    cases Shape.ofJson j <;> rfl
  rw [htree]
  exact Reader.mirrors_judged _

theorem mirrored_list (h : codec.Mirrored) : (list codec).Mirrored := by
  intro depth
  constructor
  · intro s j r as hs has
    obtain ⟨js, rfl, -⟩ := tree_list_eq_ok_iff.1 has
    obtain ⟨d, t, rfl, hb, ht⟩ := Reader.items_of_run_document hs
    obtain ⟨_, ⟨⟩, hok, -⟩ := Reader.listOf_mirrors (h d) ht
    exact (Reader.run_container hb).trans (hok as has)
  · intro s j r e hs he
    cases j with
    | array js =>
      obtain ⟨d, t, rfl, hb, ht⟩ := Reader.items_of_run_document hs
      obtain ⟨_, ⟨⟩, -, herror⟩ := Reader.listOf_mirrors (h d) ht
      obtain ⟨refusal, hr, hecho⟩ := herror e he
      exact ⟨refusal, (Reader.run_container hb).trans hr, hecho⟩
    | _ =>
      cases he
      exact Reader.run_container_of_ne hs nofun

end Codec
end Conformance
