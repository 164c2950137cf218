import Conformance.Json.Reader.Document
import Conformance.Proofs.Json.Quoted
import Conformance.Proofs.Json.Reread

/-!
# Reading back documents

The text of a well-formed document is read as its `reread` when it is not too
deep, and is refused otherwise. The two loops, over items and over members, are
followed first, for parts of which this is known already; in the loop over
members the keys still to come are not among those that have been read, so every
member goes to the end.
-/
namespace Conformance

namespace Reader

variable {α β σ : Type}

def startsValue (c : Char) : Bool :=
  c ∈ ['n', 't', 'f', '"', '[', '{'] || startsNumber c

theorem exists_text_cons (j : Json) : ∃ c r, j.text = c :: r ∧ startsValue c = true := by
  cases j with
  | null => exact ⟨_, _, rfl, rfl⟩
  | boolean b =>
    cases b with
    | true => exact ⟨_, _, rfl, rfl⟩
    | false => exact ⟨_, _, rfl, rfl⟩
  | number n =>
    obtain ⟨c, r, ht, hc, -⟩ := readAs_text n
    exact ⟨c, r, ht, by rw [startsValue, hc, Bool.or_true]⟩
  | string s => exact ⟨_, _, rfl, rfl⟩
  | array items =>
    cases items with
    | nil => exact ⟨_, _, rfl, rfl⟩
    | cons j js => exact ⟨_, _, rfl, rfl⟩
  | object members =>
    cases members with
    | nil => exact ⟨_, _, rfl, rfl⟩
    | cons m ms => exact ⟨_, _, rfl, rfl⟩

theorem not_startsValue {c : Char} (h : c ∈ [' ', '\n', '\t', '\r', ']', '}', ',']) :
    startsValue c = false := by
  simp only [List.mem_cons, List.not_mem_nil, or_false] at h
  rcases h with rfl | rfl | rfl | rfl | rfl | rfl | rfl <;> rfl

theorem skipBlanks_of_startsValue {c : Char} (h : startsValue c = true) (r : List Char) :
    skipBlanks (c :: r) = c :: r := by
  have hb : isBlank c = false := by
    by_contra hb
    have hc : c ∈ [' ', '\n', '\t', '\r', ']', '}', ','] := by
      simp only [isBlank, Bool.not_eq_false, Bool.or_eq_true, beq_iff_eq] at hb
      simp only [List.mem_cons]
      tauto
    rw [not_startsValue hc] at h
    cases h
  rw [skipBlanks, List.dropWhile_cons_of_neg (by simp [hb])]

theorem nextElement_first {s : List Char} (j : Json) :
    nextElement true (j.text ++ s) = .ok (some (j.text ++ s)) := by
  obtain ⟨c, r, ht, hc⟩ := exists_text_cons j
  rw [ht, List.cons_append, nextElement, skipBlanks_of_startsValue hc]
  split
  · rename_i h
    cases h
  · rename_i h
    cases h
    cases hc
  · rename_i h
    cases h
    rfl

theorem nextElement_comma {s : List Char} (j : Json) :
    nextElement false (',' :: (j.text ++ s)) = .ok (some (j.text ++ s)) := by
  obtain ⟨c, r, ht, hc⟩ := exists_text_cons j
  have hb := skipBlanks_of_startsValue hc (r ++ s)
  have hs : skipBlanks (',' :: (c :: (r ++ s))) = ',' :: (c :: (r ++ s)) := rfl
  rw [ht, List.cons_append, nextElement, hs]
  simp only [Bool.false_eq_true, if_false]
  split
  · rename_i h
    cases h
  · rename_i h
    cases h
  · rename_i h
    cases h
    rw [if_pos rfl, hb]
    split
    · rename_i h
      cases h
    · rename_i h
      cases h
      cases hc
    · rfl

theorem endsNumber_textOfItems (js : List Json) (rest : List Char) :
    EndsNumber (Json.textOfItems js ++ rest) := by
  cases js with
  | nil => exact endsNumber_cons (by decide) _
  | cons j js => exact endsNumber_cons (by decide) _

theorem endsNumber_textOfMembers (ms : List (String × Json)) (rest : List Char) :
    EndsNumber (Json.textOfMembers ms ++ rest) := by
  cases ms with
  | nil => exact endsNumber_cons (by decide) _
  | cons m ms => exact endsNumber_cons (by decide) _

theorem toOption_map (f : α → β) (reader : Reader α) (s : List Char) :
    ((reader.map f).run s).toOption = (reader.run s).toOption.map fun p => (f p.1, p.2) := by
  simp only [map]
  cases reader.run s <;> rfl

theorem toOption_gatherElements {step : σ → Option (Reader σ)} {i : Nat} {state : σ}
    {s t : List Char} {element : Reader σ} (hs : step state = some element)
    (hn : nextElement (i == 0) s = .ok (some t)) :
    (gatherElements step i state s).toOption =
      (element.run t).toOption.bind fun p => (gatherElements step (i + 1) p.1 p.2).toOption := by
  rw [gatherElements]
  simp only [hs]
  split
  · rename_i h
    rw [hn] at h
    cases h
  · rename_i h
    rw [hn] at h
    cases h
  · rename_i h
    rw [hn] at h
    cases h
    split
    · rename_i he
      rw [he]
      rfl
    · rename_i he
      rw [he]
      rfl

theorem gatherElements_close {step : σ → Option (Reader σ)} {i : Nat} {state : σ}
    {element : Reader σ} (hs : step state = some element) (r : List Char) :
    gatherElements step i state (']' :: r) = .ok (state, ']' :: r) := by
  have hn : nextElement (i == 0) (']' :: r) = .ok none := rfl
  rw [gatherElements]
  simp only [hs]
  split
  · rename_i h
    rw [hn] at h
    cases h
  · rfl
  · rename_i h
    rw [hn] at h
    cases h

theorem toOption_gatherEntries {key : Reader String}
    {entry : σ → String → Except Rejection (Reader σ)} {first : Bool} {state : σ}
    {s t r : List Char} {name : String} {value : Reader σ} (hn : nextKey first s = .ok (some t))
    (hk : key.run t = .ok (name, ':' :: r)) (he : entry state name = .ok value) :
    (gatherEntries key entry first state s).toOption =
      (value.run r).toOption.bind fun p => (gatherEntries key entry false p.1 p.2).toOption := by
  have hc : colon (':' :: r) = .ok r := rfl
  -- A key, a colon and a value are known to come, so all other branches are closed.
  rw [gatherEntries]
  split
  · rename_i h
    rw [hn] at h
    cases h
  · rename_i h
    rw [hn] at h
    cases h
  · rename_i h
    rw [hn] at h
    cases h
    split
    · rename_i h
      rw [hk] at h
      cases h
    · rename_i h
      rw [hk] at h
      cases h
      simp only [he]
      split
      · rename_i h
        rw [hc] at h
        cases h
      · rename_i h
        rw [hc] at h
        cases h
        split
        · rename_i hv
          rw [hv]
          rfl
        · rename_i hv
          rw [hv]
          rfl

theorem gatherEntries_close {key : Reader String}
    {entry : σ → String → Except Rejection (Reader σ)} {first : Bool} {state : σ}
    (r : List Char) : gatherEntries key entry first state ('}' :: r) = .ok (state, '}' :: r) := by
  have hn : nextKey first ('}' :: r) = .ok none := rfl
  rw [gatherEntries]
  split
  · rename_i h
    rw [hn] at h
    cases h
  · rfl
  · rename_i h
    rw [hn] at h
    cases h

def itemStep (inner : Reader Json) (read : List Json) : Option (Reader (List Json)) :=
  some (inner.map (· :: read))

def memberEntry (inner : Reader Json) (read : Entries Json) (key : String) :
    Except Rejection (Reader (Entries Json)) :=
  .ok (inner.map (Entries.insert read key))

def ReadBack (depth : Nat) (j : Json) : Prop :=
  ∀ rest, EndsNumber rest →
    ((document depth).run (j.text ++ rest)).toOption = (j.rereadWithin depth).map (·, rest)

section
variable {depth : Nat} {rest : List Char}

theorem toOption_gatherItem {j : Json} (h : ReadBack depth j) {i : Nat} {read : List Json}
    {s : List Char} (hr : EndsNumber rest)
    (hn : nextElement (i == 0) s = .ok (some (j.text ++ rest))) :
    (gatherElements (itemStep (document depth)) i read s).toOption =
      (j.rereadWithin depth).bind fun j =>
        (gatherElements (itemStep (document depth)) (i + 1) (j :: read) rest).toOption := by
  have hs : itemStep (document depth) read = some ((document depth).map (· :: read)) := rfl
  rw [toOption_gatherElements hs hn, toOption_map, h rest hr]
  cases j.rereadWithin depth <;> rfl

theorem toOption_gatherItems {js : List Json} (h : ∀ j ∈ js, ReadBack depth j) (i : Nat)
    (read : List Json) :
    (gatherElements (itemStep (document depth)) (i + 1) read
      (Json.textOfItems js ++ rest)).toOption =
      (Json.rereadItemsWithin depth js).map fun js => (js.reverse ++ read, ']' :: rest) := by
  induction js generalizing i read with
  | nil =>
    have hs : itemStep (document depth) read = some ((document depth).map (· :: read)) := rfl
    rw [Json.rereadItemsWithin_nil, Json.textOfItems, List.singleton_append,
      gatherElements_close hs]
    rfl
  | cons j js ih =>
    have hn : nextElement (i + 1 == 0) (',' :: (j.text ++ (Json.textOfItems js ++ rest))) =
        .ok (some (j.text ++ (Json.textOfItems js ++ rest))) := nextElement_comma j
    have hjs := ih fun j hj => h j (List.mem_cons_of_mem _ hj)
    rw [Json.textOfItems, List.cons_append, List.append_assoc,
      toOption_gatherItem (h j List.mem_cons_self) (endsNumber_textOfItems js rest) hn,
      Json.rereadItemsWithin_cons]
    cases j.rereadWithin depth with
    | none => rfl
    | some j' =>
      simp only [Option.bind_some, hjs, Option.map_map]
      congr 1
      funext js
      simp

theorem toOption_gatherMember {k : String} {text : List Char} {o : Option Json}
    (h : ((document depth).run text).toOption = o.map (·, rest)) {first : Bool}
    {read : Entries Json} {s : List Char} (hk : k ∉ read.keys)
    (hn : nextKey first s = .ok (some (k.toList.flatMap Json.escaped ++ '"' :: ':' :: text))) :
    (gatherEntries quoted (memberEntry (document depth)) first read s).toOption =
      o.bind fun j =>
        (gatherEntries quoted (memberEntry (document depth)) false (read ++ [(k, j)])
          rest).toOption := by
  have he : memberEntry (document depth) read k =
      .ok ((document depth).map (Entries.insert read k)) := rfl
  rw [toOption_gatherEntries hn (run_quoted k _) he, toOption_map, h]
  cases o with
  | none => rfl
  | some j =>
    simp only [Option.map_some, Option.bind_some, Entries.insert_of_notMem hk]

theorem toOption_gatherMembers {ms : List (String × Json)} (h : ∀ m ∈ ms, ReadBack depth m.2)
    (read : Entries Json) (hd : (read.keys ++ Entries.keys ms).Nodup) :
    (gatherEntries quoted (memberEntry (document depth)) false read
      (Json.textOfMembers ms ++ rest)).toOption =
      (Json.rereadMembersWithin depth ms).map fun ms => (read ++ ms, '}' :: rest) := by
  induction ms generalizing read with
  | nil =>
    rw [Json.rereadMembersWithin_nil, Json.textOfMembers, List.singleton_append,
      gatherEntries_close]
    simp [Except.toOption]
  | cons m ms ih =>
    obtain ⟨k, j⟩ := m
    have hk : k ∉ read.keys := fun hk =>
      (List.nodup_append.1 hd).2.2 k hk k List.mem_cons_self rfl
    have ht : Json.textOfMembers ((k, j) :: ms) ++ rest =
        ',' :: '"' :: (k.toList.flatMap Json.escaped ++
          '"' :: ':' :: (j.text ++ (Json.textOfMembers ms ++ rest))) := by
      simp [Json.textOfMembers, Json.quoted]
    have hms := ih fun m hm => h m (List.mem_cons_of_mem _ hm)
    rw [ht, toOption_gatherMember
      (h (k, j) List.mem_cons_self _ (endsNumber_textOfMembers ms rest)) hk rfl,
      Json.rereadMembersWithin_cons]
    cases j.rereadWithin depth with
    | none => rfl
    | some j' =>
      have hd' : (Entries.keys (read ++ [(k, j')]) ++ Entries.keys ms).Nodup := by
        simpa [Entries.keys] using hd
      simp only [Option.bind_some, hms _ hd', Option.map_map]
      congr 1
      funext ms
      simp

theorem toOption_conclude {γ : Type} {close : List Char → Option Flaw × List Char} {f : σ → α}
    {g : γ → σ} {gathered : Reading σ} {o : Option γ} {s r : List Char}
    (hc : close s = (none, r)) (h : gathered.toOption = o.map fun x => (g x, s)) :
    (conclude close (fun state => .ok (f state)) gathered).toOption =
      o.map fun x => (f (g x), r) := by
  cases o with
  | none =>
    cases gathered with
    | error e => rfl
    | ok p => cases h
  | some x =>
    cases gathered with
    | error e => cases h
    | ok p =>
      cases h
      simp only [conclude, hc]
      rfl

theorem toOption_items {js : List Json} (h : ∀ j ∈ js, ReadBack depth j) {t : List Char}
    (ht : (Json.array js).text = '[' :: t) :
    ((items (document depth)).run (t ++ rest)).toOption =
      (Json.rereadItemsWithin depth js).map fun js => (.array js, rest) := by
  have hg : (gatherElements (itemStep (document depth)) 0 [] (t ++ rest)).toOption =
      (Json.rereadItemsWithin depth js).map fun js => (js.reverse, ']' :: rest) := by
    cases js with
    | nil =>
      cases ht
      have hs : itemStep (document depth) [] = some ((document depth).map (· :: [])) := rfl
      rw [Json.rereadItemsWithin_nil, List.singleton_append, gatherElements_close hs]
      rfl
    | cons j js =>
      cases ht
      have hn : nextElement (0 == 0) (j.text ++ (Json.textOfItems js ++ rest)) =
          .ok (some (j.text ++ (Json.textOfItems js ++ rest))) := nextElement_first j
      rw [List.append_assoc, toOption_gatherItem (h j List.mem_cons_self)
        (endsNumber_textOfItems js rest) hn, Json.rereadItemsWithin_cons]
      cases j.rereadWithin depth with
      | none => rfl
      | some j' =>
        have hjs := @toOption_gatherItems depth rest js fun j hj => h j (List.mem_cons_of_mem _ hj)
        simp only [Option.bind_some, hjs, Option.map_map]
        congr 1
        funext js
        simp
  have hc : closeList (']' :: rest) = (none, rest) := rfl
  have hl := @toOption_conclude _ _ _ closeList List.reverse List.reverse _ _ _ _ hc hg
  rw [items, toOption_map]
  change Option.map _ (conclude closeList (fun read => .ok read.reverse)
    (gatherElements (itemStep (document depth)) 0 [] (t ++ rest))).toOption = _
  rw [hl, Option.map_map]
  congr 1
  funext js
  simp

theorem toOption_members {ms : List (String × Json)} (h : ∀ m ∈ ms, ReadBack depth m.2)
    (hd : Entries.Distinct ms) {t : List Char} (ht : (Json.object ms).text = '{' :: t) :
    (gatherEntries quoted (memberEntry (document depth)) true [] (t ++ rest)).toOption =
      (Json.rereadMembersWithin depth ms).map (·, '}' :: rest) := by
  cases ms with
  | nil =>
    cases ht
    rw [Json.rereadMembersWithin_nil, List.singleton_append, gatherEntries_close]
    rfl
  | cons m ms =>
    obtain ⟨k, j⟩ := m
    cases ht
    have hk : k ∉ Entries.keys ([] : Entries Json) := by simp [Entries.keys]
    have ht : Json.quoted k ++ ':' :: (j.text ++ Json.textOfMembers ms) ++ rest =
        '"' :: (k.toList.flatMap Json.escaped ++
          '"' :: ':' :: (j.text ++ (Json.textOfMembers ms ++ rest))) := by
      simp [Json.quoted]
    rw [ht, toOption_gatherMember
      (h (k, j) List.mem_cons_self _ (endsNumber_textOfMembers ms rest)) hk rfl,
      Json.rereadMembersWithin_cons]
    cases j.rereadWithin depth with
    | none => rfl
    | some j' =>
      have hd' : (Entries.keys [(k, j')] ++ Entries.keys ms).Nodup := hd
      have hms := @toOption_gatherMembers depth rest ms
        (fun m hm => h m (List.mem_cons_of_mem _ hm)) _ hd'
      simp only [Option.bind_some, List.nil_append, hms, Option.map_map]
      rfl

theorem run_documentWith {inner : Option (Reader Json)} {c : Char} (hc : startsValue c = true)
    (r : List Char) :
    (documentWith inner).run (c :: r) =
      (scalar? c r).getD
        (if c = '[' then enter (inner.map items) c r
        else if c = '{' then enter (inner.map members) c r
        else .error (.next .valueExpected (c :: r))) := by
  simp only [documentWith, begin, skipBlanks_of_startsValue hc]
  cases scalar? c r <;> rfl

theorem run_document_scalar {c : Char} (hc : startsValue c = true) {r : List Char}
    {reading : Reading Json} (hs : scalar? c r = some reading) :
    (document depth).run (c :: r) = reading := by
  cases depth with
  | zero => rw [document, run_documentWith hc, hs, Option.getD_some]
  | succ depth => rw [document, run_documentWith hc, hs, Option.getD_some]

theorem scalar?_of_startsNumber {c : Char} (hc : startsNumber c = true) (r : List Char) :
    scalar? c r = some ((number c r).map fun p => (.number p.1, p.2)) := by
  have hne (x : Char) (hx : startsNumber x = false) : c ≠ x := by
    intro h
    rw [h, hx] at hc
    cases hc
  rw [scalar?, if_neg (hne 'n' rfl), if_neg (hne 't' rfl), if_neg (hne 'f' rfl),
    if_neg (hne '"' rfl), if_pos hc]
  cases number c r <;> rfl

theorem toOption_exceptMap {ε : Type} (f : α → β) (x : Except ε α) :
    (x.map f).toOption = x.toOption.map f := by
  cases x <;> rfl

theorem toOption_document_number {text : List Char} {n : Option Json.Number}
    (h : ReadAs text n) (hr : EndsNumber rest) :
    ((document depth).run (text ++ rest)).toOption = (n.map Json.number).map (·, rest) := by
  obtain ⟨c, r, rfl, hc, hn⟩ := h
  have hs : startsValue c = true := by rw [startsValue, hc, Bool.or_true]
  rw [List.cons_append, run_document_scalar hs (scalar?_of_startsNumber hc _),
    toOption_exceptMap, hn rest hr, Option.map_map, Option.map_map]
  rfl

theorem readBack_number (n : Json.Number) : ReadBack depth (.number n) := by
  intro rest hr
  rw [Json.text, toOption_document_number (readAs_text n) hr]
  rfl

theorem readBack_array {js : List Json} (h : ∀ depth, ∀ j ∈ js, ReadBack depth j) :
    ReadBack depth (.array js) := by
  intro rest hr
  obtain ⟨t, ht⟩ : ∃ t, (Json.array js).text = '[' :: t := by
    cases js with
    | nil => exact ⟨_, rfl⟩
    | cons j js => exact ⟨_, rfl⟩
  have hs : startsValue '[' = true := rfl
  rw [ht, List.cons_append]
  cases depth with
  | zero =>
    rw [document, run_documentWith hs, Json.rereadWithin_array_zero]
    rfl
  | succ depth =>
    rw [document, run_documentWith hs, Json.rereadWithin_array_succ, Option.map_map]
    exact toOption_items (h depth) ht

theorem toOption_document_object {s : List Char} {o : Option (Entries Json)}
    (h : (gatherEntries quoted (memberEntry (document depth)) true [] s).toOption =
      o.map (·, '}' :: rest)) :
    ((document (depth + 1)).run ('{' :: s)).toOption = o.map fun ms => (.object ms, rest) := by
  have hs : startsValue '{' = true := rfl
  have hc : closeObject ('}' :: rest) = (none, rest) := rfl
  rw [document, run_documentWith hs]
  exact toOption_conclude (g := id) hc h

theorem readBack_object {ms : List (String × Json)} (hd : Entries.Distinct ms)
    (h : ∀ depth, ∀ m ∈ ms, ReadBack depth m.2) : ReadBack depth (.object ms) := by
  intro rest hr
  obtain ⟨t, ht⟩ : ∃ t, (Json.object ms).text = '{' :: t := by
    cases ms with
    | nil => exact ⟨_, rfl⟩
    | cons m ms => exact ⟨_, rfl⟩
  have hs : startsValue '{' = true := rfl
  rw [ht, List.cons_append]
  cases depth with
  | zero =>
    rw [document, run_documentWith hs, Json.rereadWithin_object_zero]
    rfl
  | succ depth =>
    rw [toOption_document_object (toOption_members (h depth) hd ht),
      Json.rereadWithin_object_succ, Option.map_map]
    rfl

theorem readBack_of_wellFormed {j : Json} (hj : j.WellFormed) (depth : Nat) :
    ReadBack depth j := by
  -- Each container is read by a reader that goes one less deep.
  induction j generalizing depth with
  | null =>
    intro rest hr
    exact congrArg Except.toOption (run_document_scalar (c := 'n') rfl rfl)
  | boolean b =>
    intro rest hr
    cases b with
    | true => exact congrArg Except.toOption (run_document_scalar (c := 't') rfl rfl)
    | false => exact congrArg Except.toOption (run_document_scalar (c := 'f') rfl rfl)
  | number n => exact readBack_number n
  | string s =>
    intro rest hr
    have hs : startsValue '"' = true := rfl
    have ht : (Json.string s).text ++ rest =
        '"' :: (s.toList.flatMap Json.escaped ++ '"' :: rest) := by
      simp [Json.text, Json.quoted]
    have hq : scalar? '"' (s.toList.flatMap Json.escaped ++ '"' :: rest) =
        some (.ok (.string s, rest)) := by
      have h := run_quoted s rest
      change some _ = _
      rw [h]
    rw [ht, run_document_scalar hs hq]
    simp [Json.rereadWithin, Json.depth, Json.reread, Except.toOption]
  | array items ih =>
    exact readBack_array fun depth j hm => ih j hm (Json.wellFormed_array.1 hj j hm) depth
  | object members ih =>
    obtain ⟨hd, hw⟩ := Json.wellFormed_object.1 hj
    exact readBack_object hd fun depth m hm => ih m hm (hw m hm) depth

end

theorem toOption_runToEnd (reader : Reader α) (s : List Char) :
    (reader.runToEnd s).toOption =
      (reader.run s).toOption.bind fun p => (atEnd p.2).toOption.map fun _ => p.1 := by
  rw [runToEnd]
  cases reader.run s with
  | error e => rfl
  | ok p =>
    dsimp only
    cases h : atEnd p.2 <;> simp [Except.toOption, h]

end Reader

/-- A text written for a well-formed document is read as what its numbers make of it, and refused
when that is nothing or the document is too deep. -/
theorem Json.ofText_compact {j : Json} (hj : j.WellFormed) :
    (Json.ofText j.compact).toOption = j.rereadWithin Reader.depthLimit := by
  have h := Reader.readBack_of_wellFormed hj Reader.depthLimit [] Reader.endsNumber_nil
  rw [List.append_nil] at h
  rw [Json.ofText, Json.compact, String.toList_ofList, Reader.toOption_runToEnd, h]
  cases j.rereadWithin Reader.depthLimit <;> rfl

theorem eq_ok_of_toOption {ε α : Type} {x : Except ε α} {a : α} (h : x.toOption = some a) :
    x = .ok a := by
  cases x with
  | error e => cases h
  | ok b => exact congrArg Except.ok (Option.some.inj h)

theorem Json.ofText_compact_eq_ok {j : Json} (hj : j.WellFormed)
    (h : j.rereadWithin Reader.depthLimit = some j) : Json.ofText j.compact = .ok j :=
  eq_ok_of_toOption ((Json.ofText_compact hj).trans h)

theorem Json.ofText_of_readAs {s : String} {n : Json.Number}
    (h : Reader.ReadAs s.toList (some n)) : Json.ofText s = .ok (.number n) := by
  have hd := @Reader.toOption_document_number Reader.depthLimit [] _ _ h Reader.endsNumber_nil
  rw [List.append_nil] at hd
  apply eq_ok_of_toOption
  rw [Json.ofText, Reader.toOption_runToEnd, hd]
  rfl

end Conformance
