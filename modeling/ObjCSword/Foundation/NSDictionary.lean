import Mathlib.Data.List.AList

/-!
# Dictionaries and maps with string keys

`NSDictionary`, `NSMutableDictionary` and the engine's `std::map<SWBuf, …>` are all finite maps from
strings, read by `d[key]`, written by `d[key] = value` and `erase(key)`. Mathlib's `AList` is that
map: a list of entries whose keys differ, so that a map holding two values for one key cannot be
built. What a read sees after a write is stated once here, as one equation for each write. The order
of the list means nothing to Foundation, so a loop over a dictionary takes an order of its own
(`EnumerationOrder`).
-/

namespace ObjCSword

/-- A finite map from strings: `NSDictionary`, and the engine's `std::map` keyed by `SWBuf`. -/
abbrev Dictionary (α : Type) := AList (fun _ : String => α)

namespace Dictionary

variable {α : Type}

/-- Reading after `d[key] = value`. -/
theorem lookup_insert (d : Dictionary α) (key key' : String) (value : α) :
    AList.lookup key' (AList.insert key value d) =
      if key' = key then some value else AList.lookup key' d := by
  by_cases h : key' = key
  · rw [if_pos h, h, AList.lookup_insert]
  · rw [if_neg h, AList.lookup_insert_ne h]

/-- Reading after a loop of `d[name(item)] = item`: the last item of the name is there. -/
theorem lookup_foldl_insert (name : α → String) (items : List α) (key : String)
    (d : Dictionary α) :
    AList.lookup key (items.foldl (fun d item => AList.insert (name item) item d) d) =
      (items.reverse.find? fun item => name item = key).or (AList.lookup key d) := by
  induction items generalizing d with
  | nil => rfl
  | cons item items ih =>
    rw [List.foldl_cons, ih, lookup_insert, List.reverse_cons, List.find?_append, Option.or_assoc]
    congr 1
    by_cases h : key = name item
    · rw [if_pos h, List.find?_cons_of_pos (by simpa using h.symm), Option.some_or]
    · rw [if_neg h, List.find?_cons_of_neg (by simpa using Ne.symm h), List.find?_nil,
        Option.none_or]

/-- Reading after `d.erase(key)`. -/
theorem lookup_erase (d : Dictionary α) (key key' : String) :
    AList.lookup key' (AList.erase key d) =
      if key' = key then none else AList.lookup key' d := by
  by_cases h : key' = key
  · rw [if_pos h, h, AList.lookup_erase]
  · rw [if_neg h, AList.lookup_erase_ne h]

theorem mem_keys_of_lookup {d : Dictionary α} {key : String} {value : α}
    (h : AList.lookup key d = some value) : key ∈ d.keys := by
  rw [← AList.mem_keys, ← AList.lookup_isSome, h]
  rfl

/-- The values of a map are what it can be read for. -/
theorem mem_values_iff {d : Dictionary α} {value : α} :
    value ∈ d.entries.map (·.2) ↔ ∃ key, AList.lookup key d = some value := by
  rw [List.mem_map]
  constructor
  · rintro ⟨⟨key, found⟩, hmem, rfl⟩
    exact ⟨key, AList.mem_lookup_iff.mpr hmem⟩
  · rintro ⟨key, hlookup⟩
    exact ⟨⟨key, value⟩, AList.mem_lookup_iff.mp hlookup, rfl⟩

end Dictionary

/-- The order in which dictionaries are enumerated, which Foundation leaves open: for each
dictionary its keys, in some order. -/
structure EnumerationOrder (α : Type) where
  keys : Dictionary α → List String
  keys_perm : ∀ d, (keys d).Perm d.keys

namespace EnumerationOrder

variable {α : Type}

/-- `allValues`. -/
def allValues (order : EnumerationOrder α) (d : Dictionary α) : List α :=
  (order.keys d).filterMap fun key => AList.lookup key d

theorem mem_allValues (order : EnumerationOrder α) {d : Dictionary α} {value : α} :
    value ∈ order.allValues d ↔ ∃ key, AList.lookup key d = some value := by
  rw [allValues, List.mem_filterMap]
  constructor
  · rintro ⟨key, -, hlookup⟩
    exact ⟨key, hlookup⟩
  · rintro ⟨key, hlookup⟩
    exact ⟨key, (order.keys_perm d).mem_iff.mpr (Dictionary.mem_keys_of_lookup hlookup), hlookup⟩

/-- Where no value is there twice, none is enumerated twice. -/
theorem nodup_allValues (order : EnumerationOrder α) {d : Dictionary α}
    (h : ∀ key key' value, AList.lookup key d = some value → AList.lookup key' d = some value →
      key = key') : (order.allValues d).Nodup := by
  have hkeys : (order.keys d).Nodup := (order.keys_perm d).nodup_iff.mpr d.nodupKeys
  exact hkeys.filterMap fun key key' value => h key key' value

/-- An order that begins with a key wherever there is one. -/
def beginning (key : String) : EnumerationOrder α where
  keys d := if key ∈ d.keys then key :: d.keys.erase key else d.keys
  keys_perm d := by
    by_cases h : key ∈ d.keys
    · rw [if_pos h]
      exact (List.perm_cons_erase h).symm
    · rw [if_neg h]

theorem allValues_beginning {d : Dictionary α} {key : String} {value : α}
    (h : AList.lookup key d = some value) :
    ∃ rest, (beginning key).allValues d = value :: rest := by
  have hkeys : (beginning key).keys d = key :: d.keys.erase key :=
    if_pos (Dictionary.mem_keys_of_lookup h)
  rw [allValues, hkeys]
  exact ⟨_, List.filterMap_cons_some h⟩

end EnumerationOrder

end ObjCSword
