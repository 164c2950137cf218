/-!
# Entries in order of first insertion

The members of an object form a list of keyed entries. Inserting under a key
that is present replaces the value where it stands; a new key goes to the end.
So keys keep the order in which they first came, and no key comes twice.
-/
namespace Conformance

abbrev Entries (α : Type) := List (String × α)

namespace Entries

variable {α β : Type}

def keys (es : Entries α) : List String := es.map Prod.fst

def get? (es : Entries α) (key : String) : Option α :=
  match es with
  | [] => none
  | (k, v) :: es => if k = key then some v else get? es key

/-- Replaces the value under a key that is present; a new key goes to the end. -/
def insert (es : Entries α) (key : String) (value : α) : Entries α :=
  match es with
  | [] => [(key, value)]
  | (k, v) :: es => if k = key then (k, value) :: es else (k, v) :: insert es key value

def ofList (es : List (String × α)) : Entries α :=
  es.foldl (fun m e => insert m e.1 e.2) []

def Distinct (es : Entries α) : Prop := es.keys.Nodup

theorem get?_eq_none_iff {es : Entries α} {key : String} :
    es.get? key = none ↔ key ∉ es.keys := by
  induction es with
  | nil => simp [get?, keys]
  | cons e es ih => grind [get?, keys]

theorem mem_of_get? {es : Entries α} {key : String} {a : α} (h : es.get? key = some a) :
    (key, a) ∈ es := by
  induction es with
  | nil => cases h
  | cons e es ih =>
    rw [get?] at h
    by_cases hk : e.1 = key
    · rw [if_pos hk] at h
      cases h
      subst hk
      exact List.mem_cons_self
    · rw [if_neg hk] at h
      exact List.mem_cons_of_mem _ (ih h)

theorem insert_of_notMem {es : Entries α} {key : String} (h : key ∉ es.keys) (value : α) :
    es.insert key value = es ++ [(key, value)] := by
  induction es with
  | nil => rfl
  | cons e es ih =>
    have hk : e.1 ≠ key := fun hk => h (by simp [keys, hk])
    have hm : key ∉ keys es := fun hm => h (List.mem_cons_of_mem _ hm)
    simp [insert, hk, ih hm]

theorem keys_insert (es : Entries α) (key : String) (value : α) :
    (es.insert key value).keys = if key ∈ es.keys then es.keys else es.keys ++ [key] := by
  induction es with
  | nil => simp [insert, keys]
  | cons e es ih =>
    simp only [keys] at ih
    by_cases h : e.1 = key
    · simp [insert, keys, h]
    · by_cases hm : key ∈ es.map Prod.fst
      · simp [insert, keys, h, Ne.symm h, ih, hm]
      · simp [insert, keys, h, Ne.symm h, ih, hm]

theorem distinct_insert {es : Entries α} (h : es.Distinct) (key : String) (value : α) :
    (es.insert key value).Distinct := by
  unfold Distinct at *
  rw [keys_insert]
  by_cases hm : key ∈ es.keys
  · simpa [hm] using h
  · rw [if_neg hm]
    exact List.nodup_append.2 ⟨h, by simp, by
      intro a ha b hb hab
      rw [List.mem_singleton] at hb
      exact hm (hb ▸ hab ▸ ha)⟩

theorem get?_insert (es : Entries α) (key key' : String) (value : α) :
    (es.insert key value).get? key' = if key = key' then some value else es.get? key' := by
  induction es with
  | nil => rfl
  | cons e es ih => grind [insert, get?]

end Entries
end Conformance
