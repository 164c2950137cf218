import Conformance.Proofs.Check.FirstFault
import Conformance.Proofs.Shape.Decoding
import Conformance.Validation

/-!
# The gate in front of the check

What the build step supplied is judged before the value is looked at. `gate` is
that part of `validate`: it yields the shape to check against, or a fault of the
tools. `ToolFault` says which fault that is. The main statement is that the
faults of the tools are the same for all values, and that all other faults come
from the check and are about the value.
-/
namespace Conformance

/-- `ToolFault source version f`: with these inputs no value is checked, for the reason `f`. -/
inductive ToolFault : Option String → Option UInt32 → Fault → Prop
  | noSource (version : Option UInt32) : ToolFault none version .configuration
  | noVersion (source : Option String) : ToolFault source none .configuration
  | older (source : String) {version : UInt32} (h : version < schemaVersion) :
      ToolFault (some source) (some version)
        (.versionMismatch version schemaVersion .extractor)
  | newer (source : String) {version : UInt32} (h : schemaVersion < version) :
      ToolFault (some source) (some version)
        (.versionMismatch version schemaVersion .validator)
  | malformed {source path message : String}
      (h : Shape.decodeText source = .error (.malformedType path message)) :
      ToolFault (some source) (some schemaVersion) (.malformedType path message)

section
variable {source : Option String} {version : Option UInt32} {t : Shape} {v : Value} {f : Fault}

theorem Value.LocalFault.isShape {u : Value} {s : Shape} (h : u.LocalFault s f) :
    f.isShape = true := by
  cases h <;> rfl

theorem Shape.isShape_of_accept (h : t.accept v = .error f) : f.isShape = true := by
  obtain ⟨u, s, _, hl⟩ := check_eq_error_iff.1 (accept_eq_error_iff_check.1 h)
  exact hl.isShape

theorem ToolFault.isShape (h : ToolFault source version f) : f.isShape = false := by
  cases h <;> rfl

theorem mapError_eq_error {ε ε' α : Type} {g : ε → ε'} {x : Except ε α} {e : ε'} :
    x.mapError g = .error e ↔ ∃ d, x = .error d ∧ g d = e := by
  cases x with
  | ok a => simp [Shape.mapError_ok]
  | error d => simp [Shape.mapError_error]

theorem bind_eq_error {ε α β : Type} {g : α → Except ε β} {x : Except ε α} {e : ε} :
    x >>= g = .error e ↔ x = .error e ∨ ∃ a, x = .ok a ∧ g a = .error e := by
  cases x <;> simp [bind, Except.bind]

theorem Shape.malformed_of_decodeText {source : String} (h : decodeText source = .error f) :
    ∃ path message, f = .malformedType path message := by
  rw [decodeText] at h
  cases hj : Codec.document.read source with
  | error e =>
    rw [hj] at h
    cases h
    obtain ⟨r, _, rfl⟩ := mapError_eq_error.1 hj
    exact ⟨_, _, rfl⟩
  | ok j =>
    rw [hj] at h
    obtain ⟨r, _, rfl⟩ := mapError_eq_error.1 h
    exact ⟨_, _, rfl⟩

theorem checkVersion_eq_ok_iff {version : UInt32} {u : Unit} :
    checkVersion version = .ok u ↔ version = schemaVersion := by
  rw [checkVersion, checkVersionAgainst]
  split_ifs with h <;> simp [h]

theorem checkVersion_eq_error_iff {version : UInt32} :
    checkVersion version = .error f ↔
      (version < schemaVersion ∧ f = .versionMismatch version schemaVersion .extractor) ∨
        (schemaVersion < version ∧ f = .versionMismatch version schemaVersion .validator) := by
  have htri : version < schemaVersion ∨ version = schemaVersion ∨ schemaVersion < version := by
    simp only [UInt32.lt_iff_toNat_lt, ← UInt32.toNat_inj]
    omega
  rw [checkVersion, checkVersionAgainst]
  rcases htri with h | rfl | h
  · have hne : version ≠ schemaVersion := UInt32.ne_of_lt h
    have hnot : ¬ schemaVersion < version := UInt32.lt_asymm h
    simp [hne, h, hnot, eq_comm]
  · simp [UInt32.lt_irrefl]
  · have hne : version ≠ schemaVersion := (UInt32.ne_of_lt h).symm
    have hnot : ¬ version < schemaVersion := UInt32.lt_asymm h
    simp [hne, h, hnot, eq_comm]

def gate (source : Option String) (version : Option UInt32) : Except Fault Shape :=
  match source, version with
  | some source, some version => checkVersion version >>= fun _ => Shape.decodeText source
  | _, _ => .error .configuration

theorem validate_eq_gate :
    validate v source version = gate source version >>= fun t => t.accept v := by
  cases source with
  | none => rfl
  | some source =>
    cases version with
    | none => rfl
    | some version =>
      rw [validate, gate]
      cases checkVersion version with
      | error e => rfl
      | ok _ => cases Shape.decodeText source <;> rfl

theorem gate_eq_ok_iff :
    gate source version = .ok t ↔
      ∃ text, source = some text ∧ version = some schemaVersion ∧
        Shape.decodeText text = .ok t := by
  cases source with
  | none => simp [gate]
  | some source =>
    cases version with
    | none => simp [gate]
    | some version => simp [gate, Shape.bind_eq_ok, checkVersion_eq_ok_iff]

theorem validate_of_decodeText {text : String} (h : Shape.decodeText text = .ok t) :
    validate v (some text) (some schemaVersion) = t.accept v := by
  rw [validate_eq_gate, gate_eq_ok_iff.2 ⟨text, rfl, rfl, h⟩]
  rfl

theorem gate_eq_error_iff : gate source version = .error f ↔ ToolFault source version f := by
  constructor
  · intro h
    -- In the order of the gate: what is missing, then the version, and only then the text.
    cases source with
    | none =>
      cases h
      exact .noSource version
    | some source =>
      cases version with
      | none =>
        cases h
        exact .noVersion (some source)
      | some version =>
        rw [gate] at h
        cases hv : checkVersion version with
        | error e =>
          rw [hv] at h
          cases h
          rcases checkVersion_eq_error_iff.1 hv with ⟨h, rfl⟩ | ⟨h, rfl⟩
          · exact .older source h
          · exact .newer source h
        | ok u =>
          rw [hv] at h
          obtain rfl := checkVersion_eq_ok_iff.1 hv
          have hd : Shape.decodeText source = .error f := h
          obtain ⟨path, message, rfl⟩ := Shape.malformed_of_decodeText hd
          exact .malformed hd
  · intro h
    cases h with
    | noSource => rfl
    | noVersion => cases source <;> rfl
    | older source h =>
      rw [gate, checkVersion_eq_error_iff.2 (.inl ⟨h, rfl⟩)]
      rfl
    | newer source h =>
      rw [gate, checkVersion_eq_error_iff.2 (.inr ⟨h, rfl⟩)]
      rfl
    | malformed h =>
      have hv : checkVersion schemaVersion = .ok () := checkVersion_eq_ok_iff.2 rfl
      rw [gate, hv]
      exact h

theorem validate_eq_error_iff_toolFault (h : f.isShape = false) :
    validate v source version = .error f ↔ ToolFault source version f := by
  rw [validate_eq_gate, bind_eq_error, ← gate_eq_error_iff]
  constructor
  · intro hv
    rcases hv with hg | ⟨t, _, ha⟩
    · exact hg
    · have hs : f.isShape = true := Shape.isShape_of_accept ha
      rw [hs] at h
      cases h
  · intro hg
    exact .inl hg

end

/-- A value is refused for a fault that is not about it exactly when the tools are at fault, and
then every value is refused for that fault; otherwise the shape that was supplied decides. -/
theorem validate_separates_faults (source : Option String) (version : Option UInt32) :
    (∀ v f, validate v source version = .error f ∧ f.isShape = false ↔
      ToolFault source version f) ∧
    (∀ v w f, validate v source version = .error f → f.isShape = false →
      validate w source version = .error f) ∧
    ((∀ f, ¬ ToolFault source version f) →
      ∃ text t, source = some text ∧ version = some schemaVersion ∧
        Shape.decodeText text = .ok t ∧ ∀ v, validate v source version = t.accept v) ∧
    ∀ (t : Shape) (v : Value) f, t.accept v = .error f → f.isShape = true := by
  refine ⟨?_, ?_, ?_, ?_⟩
  · intro v f
    constructor
    · intro h
      exact (validate_eq_error_iff_toolFault h.2).1 h.1
    · intro h
      exact ⟨(validate_eq_error_iff_toolFault h.isShape).2 h, h.isShape⟩
  · intro v w f h hs
    exact (validate_eq_error_iff_toolFault hs).2 ((validate_eq_error_iff_toolFault hs).1 h)
  · intro h
    cases hg : gate source version with
    | error f => exact absurd (gate_eq_error_iff.1 hg) (h f)
    | ok t =>
      obtain ⟨text, hs, hv, hd⟩ := gate_eq_ok_iff.1 hg
      refine ⟨text, t, hs, hv, hd, fun v => ?_⟩
      rw [validate_eq_gate, hg]
      rfl
  · intro t v f h
    exact Shape.isShape_of_accept h

end Conformance
