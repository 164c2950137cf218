import Conformance.Files
import Mathlib.Logic.Basic
import Mathlib.Tactic.SplitIfs

/-!
# Contents of files

What the operations on files leave as it was. Making directories only adds
directories where nothing was, also when it fails half-way. Writing touches no
file but the one its path leads to, and leaves there what that file takes of the
bytes: all of them, or a beginning if writing breaks off. `Writable` says where a
path can be written at all.
-/
namespace Conformance.Files

variable {fs fs' fs'' : Files} {here l l' : Location} {node : Node} {path text : String}
  {bytes content : ByteArray} {e : FileError}

def content? (fs : Files) (l : Location) : Option ByteArray :=
  match fs.node? l with
  | some (.file content) => some content
  | _ => none

theorem content?_congr (h : fs'.node? l = fs.node? l) : fs'.content? l = fs.content? l := by
  rw [content?, content?, h]

theorem content?_eq_some : fs.content? l = some content ↔ fs.node? l = some (.file content) := by
  rw [content?]
  split
  · rename_i h
    simp [h]
  · rename_i h
    simpa using h content

theorem fromUTF8?_eq_some_iff : String.fromUTF8? bytes = some text ↔ bytes = text.toUTF8 := by
  rw [String.fromUTF8?]
  constructor
  · intro h
    split at h
    · cases h
      rfl
    · cases h
  · rintro rfl
    exact dif_pos text.isValidUTF8

theorem read_eq_ok_iff :
    fs.read path = .ok text ↔ ∃ l, fs.locate path = .ok l ∧ (fs.limits l).reading = none ∧
      fs.content? l = some text.toUTF8 := by
  rw [read]
  cases fs.locate path with
  | error e => simp
  | ok l =>
    simp only [Except.ok.injEq, exists_eq_left', content?_eq_some, readAt]
    cases fs.node? l with
    | none => simp
    | some node =>
      cases (fs.limits l).reading with
      | some e => simp
      | none =>
        cases node with
        | directory => simp
        | file content =>
          have hc := @fromUTF8?_eq_some_iff text content
          cases ht : String.fromUTF8? content <;> simp_all

theorem read_of_node? (hl : fs.locate path = .ok l) (hn : fs.node? l = some (.text text))
    (hr : (fs.limits l).reading = none) : fs.read path = .ok text :=
  read_eq_ok_iff.2 ⟨l, hl, hr, content?_eq_some.2 hn⟩

theorem lookup_cons_eq (e : Location × Node) (nodes : List (Location × Node)) :
    (e :: nodes).lookup l = if l = e.1 then some e.2 else nodes.lookup l := by
  rw [List.lookup_cons]
  by_cases h : l = e.1
  · rw [if_pos h, beq_iff_eq.2 h]
  · rw [if_neg h, beq_eq_false_iff_ne.2 h]

theorem lookup_go (nodes : List (Location × Node)) :
    (put.go l node nodes).lookup l' = if l' = l then some node else nodes.lookup l' := by
  induction nodes with
  | nil => exact lookup_cons_eq (l, node) []
  | cons e nodes ih =>
    rw [put.go, lookup_cons_eq]
    by_cases h : e.1 = l
    · rw [if_pos h, lookup_cons_eq, h]
      by_cases hl : l' = l
      · rw [if_pos hl, if_pos hl]
      · rw [if_neg hl, if_neg hl, if_neg hl]
    · rw [if_neg h, lookup_cons_eq, ih]
      by_cases hl : l' = e.1
      · have hne : l' ≠ l := fun he => h (hl ▸ he)
        rw [if_pos hl, if_pos hl, if_neg hne]
      · rw [if_neg hl, if_neg hl]

theorem node?_put_self (h : l ≠ []) : (fs.put l node).node? l = some node := by
  rw [node?, if_neg h]
  exact (lookup_go fs.nodes).trans (if_pos rfl)

theorem node?_put_of_ne (h : l' ≠ l) : (fs.put l node).node? l' = fs.node? l' := by
  rw [node?, node?]
  by_cases hl : l' = []
  · rw [if_pos hl, if_pos hl]
  · rw [if_neg hl, if_neg hl]
    exact (lookup_go fs.nodes).trans (if_neg h)

/-- Directories have been made where nothing was, and all else is as it was. -/
structure Grown (fs fs' : Files) : Prop where
  limits : fs'.limits = fs.limits
  node? : ∀ l, fs'.node? l = fs.node? l ∨ fs.node? l = none ∧ fs'.node? l = some .directory

theorem Grown.refl (fs : Files) : Grown fs fs := ⟨rfl, fun _ => .inl rfl⟩

theorem Grown.trans (h : Grown fs fs') (h' : Grown fs' fs'') : Grown fs fs'' := by
  refine ⟨h'.limits.trans h.limits, fun l => ?_⟩
  rcases h.node? l with hl | ⟨hn, hd⟩
  · rcases h'.node? l with hl' | ⟨hn', hd'⟩
    · exact .inl (hl'.trans hl)
    · exact .inr ⟨hl ▸ hn', hd'⟩
  · rcases h'.node? l with hl' | ⟨hn', -⟩
    · exact .inr ⟨hn, hl'.trans hd⟩
    · rw [hd] at hn'
      cases hn'

theorem Grown.content? (h : Grown fs fs') (l : Location) : fs'.content? l = fs.content? l := by
  rcases h.node? l with hl | ⟨hn, hd⟩
  · exact content?_congr hl
  · rw [Files.content?, Files.content?, hn, hd]

theorem grown_put (h : fs.node? l = none) : Grown fs (fs.put l .directory) := by
  refine ⟨rfl, fun l' => ?_⟩
  by_cases hl : l' = l
  · have hne : l ≠ [] := by
      rintro rfl
      cases h
    rw [hl, node?_put_self hne]
    exact .inr ⟨h, rfl⟩
  · exact .inl (node?_put_of_ne hl)

variable {parent names : List String} {name : String}

theorem grown_makeDirectory (h : fs.makeDirectory here parent name = .ok fs') : Grown fs fs' := by
  unfold makeDirectory at h
  split at h
  · cases h
  · split at h
    · cases h
    · cases h
    · split at h
      · cases h
      · split at h
        · cases h
        · cases h
        · rename_i hn _
          cases h
          exact grown_put hn

theorem grown_makeDirectories (fs : Files) (here : Location) (names : List String) :
    Grown fs (fs.makeDirectories here names).1 := by
  induction names with
  | nil => exact Grown.refl fs
  | cons name above ih =>
    rw [makeDirectories]
    split
    · rename_i h
      exact grown_makeDirectory h
    · split
      · rename_i h
        rw [h] at ih
        exact ih
      · rename_i h
        rw [h] at ih
        split
        · rename_i h'
          exact ih.trans (grown_makeDirectory h')
        · exact ih
    · exact Grown.refl fs

theorem grown_makeParent (fs : Files) (path : String) : Grown fs (fs.makeParent path).1 :=
  grown_makeDirectories fs _ _

def next (here : Location) (name : String) : Location :=
  if Path.counts name then if name = ".." then here.dropLast else here ++ [name] else here

theorem next_of_plain (h : name ≠ "" ∧ name ≠ "." ∧ name ≠ "..") :
    next here name = here ++ [name] := by
  simp [next, Path.counts, h]

theorem walk_cons_eq_ok_iff :
    fs.walk here (name :: names) = .ok l ↔
      fs.node? here = some .directory ∧ fs.walk (next here name) names = .ok l := by
  have hc : Path.counts name = !(decide (name = "") || decide (name = ".")) := by
    simp [Path.counts, bne, Bool.beq_eq_decide_eq]
  rw [walk, next, hc]
  cases fs.node? here with
  | none => simp
  | some node =>
    cases node with
    | file content => simp
    | directory =>
      simp only [true_and]
      cases decide (name = "") || decide (name = ".") with
      | true => rfl
      | false =>
        simp only [Bool.false_eq_true, if_false, Bool.not_false, if_true]
        split_ifs <;> rfl

theorem walk_concat_eq_ok_iff :
    fs.walk here (names ++ [name]) = .ok l ↔
      ∃ m, fs.walk here names = .ok m ∧ fs.node? m = some .directory ∧ next m name = l := by
  induction names generalizing here with
  | nil =>
    rw [List.nil_append, walk_cons_eq_ok_iff]
    simp [walk]
  | cons n names ih =>
    rw [List.cons_append, walk_cons_eq_ok_iff, ih]
    simp only [walk_cons_eq_ok_iff]
    exact ⟨fun ⟨hd, m, hm, h⟩ => ⟨m, ⟨hd, hm⟩, h⟩, fun ⟨m, ⟨hd, hm⟩, h⟩ => ⟨hd, m, hm, h⟩⟩

/-- Where no directory is, no walk leads through, so what is put there changes none. -/
theorem walk_put (hd : fs.node? l ≠ some .directory) (h : fs.walk here names = .ok l') :
    (fs.put l node).walk here names = .ok l' := by
  induction names generalizing here with
  | nil => exact h
  | cons name names ih =>
    obtain ⟨hdir, h⟩ := walk_cons_eq_ok_iff.1 h
    have hne : here ≠ l := by
      rintro rfl
      exact hd hdir
    exact walk_cons_eq_ok_iff.2 ⟨(node?_put_of_ne hne).trans hdir, ih h⟩

theorem dropWhile_of_getLast? {names : List String} (h : names.getLast? ≠ some "") :
    (names.reverse.dropWhile (· = "")).reverse = names := by
  rw [← List.head?_reverse] at h
  cases hr : names.reverse with
  | nil => rw [← List.reverse_reverse names, hr]; rfl
  | cons name rest =>
    have hne : name ≠ "" := by
      rintro rfl
      exact h (by rw [hr]; rfl)
    rw [List.dropWhile_cons, if_neg (by simpa using hne), ← hr, List.reverse_reverse]

/-- The path names a file in a directory that is there, where no directory is in the way and the
system refuses nothing. -/
inductive Writable (fs : Files) (path : String) : Location → Prop
  | intro {above : List String} {name : String} {here : Location}
      (names : Path.names path = above ++ [name]) (plain : name ≠ "" ∧ name ≠ "." ∧ name ≠ "..")
      (walk : fs.walk (fs.start path) above = .ok here) (parent : fs.node? here = some .directory)
      (free : fs.node? (here ++ [name]) ≠ some .directory)
      (opening : (fs.limits (here ++ [name])).opening = none) :
      Writable fs path (here ++ [name])

theorem opens_eq_ok_iff : fs.opens path = .ok l ↔ fs.Writable path l := by
  constructor
  · intro h
    unfold opens at h
    dsimp only at h
    split at h
    · cases h
    · rename_i name hname
      split at h
      · cases h
      · rename_i here hwalk
        split at h
        · cases h
        · cases h
        · rename_i hdir
          split at h
          · cases h
          · rename_i hplain
            simp only [Bool.or_eq_true, decide_eq_true_eq, not_or] at hplain
            obtain ⟨⟨hdot, hup⟩, hlast⟩ := hplain
            -- No slash at the end, so nothing has been trimmed off the names.
            rw [dropWhile_of_getLast? hlast] at hname hwalk
            obtain ⟨above, hnames⟩ := List.getLast?_eq_some_iff.1 hname
            rw [hnames, List.dropLast_concat] at hwalk
            have hempty : name ≠ "" := by
              rintro rfl
              exact hlast hname
            split at h
            · cases h
            · cases h
            · rename_i hopen hfree
              cases h
              exact .intro hnames ⟨hempty, hdot, hup⟩ hwalk hdir hfree hopen
  · rintro ⟨names, ⟨hempty, hdot, hup⟩, walk, parent, free, opening⟩
    rename_i above name here
    have hlast : (above ++ [name]).getLast? ≠ some "" := by simpa using hempty
    simp only [opens, names, dropWhile_of_getLast? hlast, List.getLast?_concat,
      List.dropLast_concat, walk, parent, opening]
    exact if_neg (by simp [hempty, hdot, hup])

theorem Writable.locate (h : fs.Writable path l) : fs.locate path = .ok l := by
  obtain ⟨names, plain, walk, parent, -, -⟩ := h
  rw [Files.locate, names, if_neg]
  · exact walk_concat_eq_ok_iff.2 ⟨_, walk, parent, next_of_plain plain⟩
  · rintro rfl
    have hn : [] ++ [""] = _ ++ [_] := names
    exact plain.1 (List.singleton_inj.1 (List.append_inj_right' hn rfl)).symm

theorem Writable.ne_nil (h : fs.Writable path l) : l ≠ [] := by
  cases h
  simp

theorem Writable.not_directory (h : fs.Writable path l) : fs.node? l ≠ some .directory := by
  cases h
  assumption

theorem Writable.locate_put (h : fs.Writable path l) : (fs.put l node).locate path = .ok l := by
  have hl := h.locate
  rw [Files.locate] at hl ⊢
  split_ifs at hl ⊢
  exact walk_put h.not_directory hl

theorem content?_put (hl : l ≠ []) :
    (fs.put l (.file content)).content? l' = if l' = l then some content else fs.content? l' := by
  split_ifs with h
  · rw [h]
    exact content?_eq_some.2 (node?_put_self hl)
  · exact content?_congr (node?_put_of_ne h)

theorem write_of_writable (h : fs.Writable path l) :
    fs.write path bytes = (fs.put l (.file (fs.taken l bytes)), fs.breakOff l bytes) := by
  rw [write, opens_eq_ok_iff.2 h]

/-- A write either fails to open the file, and then changes nothing, or puts into the one file that
the path leads to what that file takes. -/
theorem write_cases (fs : Files) (path : String) (bytes : ByteArray) :
    (∃ e, fs.write path bytes = (fs, some e)) ∨
      ∃ l, fs.Writable path l ∧
        fs.write path bytes = (fs.put l (.file (fs.taken l bytes)), fs.breakOff l bytes) := by
  cases h : fs.opens path with
  | error e => exact .inl ⟨e, by rw [write, h]⟩
  | ok l =>
    have hl : fs.Writable path l := opens_eq_ok_iff.1 h
    exact .inr ⟨l, hl, write_of_writable hl⟩

theorem taken_of_breakOff_none (h : fs.breakOff l bytes = none) : fs.taken l bytes = bytes := by
  rw [breakOff] at h
  rw [taken]
  cases hr : (fs.limits l).room with
  | none => rfl
  | some room =>
    obtain ⟨n, e⟩ := room
    simp only [hr] at h ⊢
    split_ifs at h with hn
    rw [← Nat.max_eq_left (Nat.not_lt.1 hn), ByteArray.extract_zero_max_size]

theorem taken_of_breakOff_some (h : fs.breakOff l bytes = some e) :
    ∃ n, (fs.limits l).room = some (n, e) ∧ n < bytes.size ∧
      fs.taken l bytes = bytes.extract 0 n := by
  rw [breakOff] at h
  rw [taken]
  cases hr : (fs.limits l).room with
  | none =>
    rw [hr] at h
    cases h
  | some room =>
    obtain ⟨n, e'⟩ := room
    simp only [hr] at h ⊢
    split_ifs at h with hn
    cases h
    exact ⟨n, rfl, hn, rfl⟩

theorem walk_filter (h : fs.walk here names = .ok l) :
    fs.walk here (names.filter Path.counts) = .ok l := by
  induction names generalizing here with
  | nil => exact h
  | cons name names ih =>
    obtain ⟨hdir, h⟩ := walk_cons_eq_ok_iff.1 h
    by_cases hc : Path.counts name = true
    · rw [List.filter_cons_of_pos hc]
      exact walk_cons_eq_ok_iff.2 ⟨hdir, ih h⟩
    · rw [List.filter_cons_of_neg hc]
      rw [next, if_neg hc] at h
      exact ih h

theorem walk_parts_of_names {above : List String} (hnames : Path.names path = above ++ [name])
    (hplain : name ≠ "" ∧ name ≠ "." ∧ name ≠ "..") (h : fs.walk here above = .ok l) :
    ∃ parts, Path.parts path = parts ++ [name] ∧ (∀ n ∈ parts, n ≠ "") ∧
      fs.walk here parts = .ok l := by
  have hcounts : Path.counts name = true := by simp [Path.counts, hplain]
  have hfilter (ns : List String) :
      (ns ++ [name]).filter Path.counts = ns.filter Path.counts ++ [name] := by
    rw [List.filter_append, List.filter_cons_of_pos hcounts, List.filter_nil]
  have hne (ns : List String) : ∀ n ∈ ns.filter Path.counts, n ≠ "" := by
    rintro n hn rfl
    cases (List.mem_filter.1 hn).2
  rw [Path.parts, hnames]
  split
  · rename_i ns hd
    cases above with
    | nil =>
      cases hd
      exact absurd rfl hplain.2.1
    | cons dot above =>
      cases hd
      obtain ⟨hdir, h⟩ := walk_cons_eq_ok_iff.1 h
      refine ⟨"." :: above.filter Path.counts, congrArg _ (hfilter above), ?_, ?_⟩
      · exact List.forall_mem_cons.2 ⟨by decide, hne above⟩
      · exact walk_cons_eq_ok_iff.2 ⟨hdir, walk_filter h⟩
  · exact ⟨_, hfilter above, hne above, walk_filter h⟩

theorem makeDirectories_of_walk {parts : List String} (hparts : ∀ n ∈ parts, n ≠ "")
    (h : fs.walk here parts = .ok l) (hdir : fs.node? l = some .directory) :
    fs.makeDirectories here parts.reverse = (fs, none) := by
  cases hr : parts.reverse with
  | nil => rfl
  | cons name above =>
    obtain rfl : parts = above.reverse ++ [name] := by
      rw [← List.reverse_reverse parts, hr, List.reverse_cons]
    obtain ⟨m, hm, hmd, hl⟩ := walk_concat_eq_ok_iff.1 h
    have hname : name ≠ "" := hparts name (by simp)
    have hmade : fs.makeDirectory here above.reverse name = .error .alreadyExists := by
      simp only [makeDirectory, hm, hmd]
      split_ifs with hdots
      · rfl
      · simp only [Bool.or_eq_true, decide_eq_true_eq, not_or] at hdots
        rw [next_of_plain ⟨hname, hdots⟩] at hl
        simp only [hl, hdir]
    rw [← List.reverse_cons] at h
    simp only [makeDirectories, hmade, unlessPresent, h, found, hdir]

theorem Writable.makeParent (h : fs.Writable path l) : fs.makeParent path = (fs, none) := by
  obtain ⟨names, plain, walk, parent, -, -⟩ := h
  obtain ⟨parts, hparts, hne, hwalk⟩ := walk_parts_of_names names plain walk
  rw [Files.makeParent, hparts, List.reverse_concat, List.tail_cons]
  exact makeDirectories_of_walk hne hwalk parent

end Conformance.Files
