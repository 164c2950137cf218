import Conformance.Json.Reader.Document
import Mathlib.Tactic.SplitIfs

/-!
# Reading back strings

A string that has been written between quotes is read as itself, whatever its
characters are: each character is written so that reading it takes one turn, and
no character is written so that it could be taken for the closing quote.
-/
namespace Conformance.Reader

theorem hexValue?_digitChar : ∀ d < 16, hexValue? (Nat.digitChar d) = some d := by decide

theorem escape_control {n : Nat} (hn : n < 0x20) (s : List Char) :
    escape ('u' :: '0' :: '0' :: Nat.digitChar (n / 16) :: Nat.digitChar (n % 16) :: s) =
      .ok (Char.ofNat n, s) := by
  have h0 : hexValue? '0' = some 0 := rfl
  have hd := hexValue?_digitChar (n / 16) (by omega)
  have hm := hexValue?_digitChar (n % 16) (by omega)
  have hv : ((0 * 16 + 0) * 16 + n / 16) * 16 + n % 16 = n := by omega
  have hf : fourHex ('0' :: '0' :: Nat.digitChar (n / 16) :: Nat.digitChar (n % 16) :: s) =
      .ok (n, s) := by
    simp only [fourHex, fourHex?, h0, hd, hm, hv, Option.bind_eq_bind, Option.bind_some,
      Option.pure_def]
  have ht : isTrailing n = false := by simp [isTrailing]; omega
  have hl : isLeading n = false := by simp [isLeading]; omega
  simp only [escape, unicodeEscape, hf, ht, hl, Bool.false_eq_true, if_false, Bool.not_false,
    if_true]

theorem quotedFrom_backslash {read r s : List Char} {c : Char} (h : escape r = .ok (c, s)) :
    quotedFrom read ('\\' :: r) = quotedFrom (c :: read) s := by
  rw [quotedFrom]
  split
  · rename_i h'
    rw [h] at h'
    cases h'
  · rename_i h'
    rw [h] at h'
    cases h'
    rfl

theorem quotedFrom_plain {read s : List Char} {c : Char} (hq : c ≠ '"') (hb : c ≠ '\\')
    (hc : ¬ c.toNat < 0x20) : quotedFrom read (c :: s) = quotedFrom (c :: read) s := by
  rw [quotedFrom]
  · rw [if_neg hc]
  · exact hq
  · exact hb

theorem quotedFrom_escaped (read : List Char) (c : Char) (s : List Char) :
    quotedFrom read (Json.escaped c ++ s) = quotedFrom (c :: read) s := by
  by_cases h : c ∈ ['"', '\\', '\n', '\r', '\t', '\x08', '\x0c']
  · simp only [List.mem_cons, List.not_mem_nil, or_false] at h
    rcases h with rfl | rfl | rfl | rfl | rfl | rfl | rfl <;> exact quotedFrom_backslash rfl
  · simp only [List.mem_cons, List.not_mem_nil, or_false, not_or] at h
    obtain ⟨hq, hb, hn, hr, ht, h8, hc⟩ := h
    have he : Json.escaped c = if c.toNat < 0x20 then
        ['\\', 'u', '0', '0', Nat.digitChar (c.toNat / 16), Nat.digitChar (c.toNat % 16)]
        else [c] := by
      simp [Json.escaped]
    rw [he]
    split_ifs with hlt
    · have hec := escape_control hlt s
      rw [Char.ofNat_toNat] at hec
      exact quotedFrom_backslash hec
    · exact quotedFrom_plain hq hb hlt

theorem quotedFrom_flatMap_escaped (read cs rest : List Char) :
    quotedFrom read (cs.flatMap Json.escaped ++ '"' :: rest) =
      .ok (String.ofList (read.reverse ++ cs), rest) := by
  induction cs generalizing read with
  | nil =>
    rw [List.flatMap_nil, List.nil_append, quotedFrom, List.append_nil]
  | cons c cs ih =>
    rw [List.flatMap_cons, List.append_assoc, quotedFrom_escaped, ih]
    simp

theorem run_quoted (s : String) (rest : List Char) :
    quoted.run (s.toList.flatMap Json.escaped ++ '"' :: rest) = .ok (s, rest) := by
  change quotedFrom [] _ = _
  rw [quotedFrom_flatMap_escaped, List.reverse_nil, List.nil_append, String.ofList_toList]

end Conformance.Reader
