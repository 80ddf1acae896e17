import LiveLinear.Table
import Mathlib.Data.List.Nodup

namespace LiveLinear

/-! # Laws of tables

What looking up, storing, changing and erasing entries do to each other. -/

namespace Table

variable {κ : Type u} {β : Type v} {γ : Type w}

theorem mem_keys_iff {table : Table κ β} {key : κ} :
    key ∈ table.keys ↔ ∃ value, (key, value) ∈ table.entries := by
  simp [keys]

theorem mem_values_iff {table : Table κ β} {value : β} :
    value ∈ table.values ↔ ∃ key, (key, value) ∈ table.entries := by
  simp [values]

@[simp] theorem keys_empty : (∅ : Table κ β).keys = [] := rfl

@[simp] theorem values_empty : (∅ : Table κ β).values = [] := rfl

@[simp] theorem values_map (transform : β → γ) (table : Table κ β) :
    (table.map transform).values = table.values.map transform := by
  simp [values, map]

@[simp] theorem length_keys (table : Table κ β) :
    table.keys.length = table.size := by
  simp [keys, size]

variable [DecidableEq κ]

theorem mem_entries_of_get? {table : Table κ β} {key : κ} {value : β}
    (found : table.get? key = some value) : (key, value) ∈ table.entries := by
  rcases Option.map_eq_some_iff.mp found with
    ⟨⟨other, content⟩, isFirst, isValue⟩
  have isKey : other = key := by simpa using List.find?_some isFirst
  have isContent : content = value := isValue
  rw [← isKey, ← isContent]
  exact List.mem_of_find?_eq_some isFirst

theorem mem_values_of_get? {table : Table κ β} {key : κ} {value : β}
    (found : table.get? key = some value) : value ∈ table.values :=
  mem_values_iff.mpr ⟨key, mem_entries_of_get? found⟩

theorem get?_eq_none_iff {table : Table κ β} {key : κ} :
    table.get? key = none ↔ key ∉ table.keys := by
  simp only [get?, Option.map_eq_none_iff, List.find?_eq_none,
    decide_eq_true_eq, keys, List.mem_map]
  constructor
  · rintro absent ⟨entry, present, isKey⟩
    exact absent entry present isKey
  · intro absent entry present isKey
    exact absent ⟨entry, present, isKey⟩

theorem exists_get?_of_mem_keys {table : Table κ β} {key : κ}
    (present : key ∈ table.keys) :
    ∃ value, table.get? key = some value :=
  Option.ne_none_iff_exists'.mp (mt get?_eq_none_iff.mp (not_not.mpr present))

theorem mem_keys_of_get? {table : Table κ β} {key : κ} {value : β}
    (found : table.get? key = some value) : key ∈ table.keys :=
  mem_keys_iff.mpr ⟨value, mem_entries_of_get? found⟩

theorem get?_cons (key other : κ) (value : β) (entries : List (κ × β)) :
    (⟨(key, value) :: entries⟩ : Table κ β).get? other =
      if key = other then some value
      else (⟨entries⟩ : Table κ β).get? other := by
  by_cases equal : key = other <;> simp [get?, equal]

/-- A key that stands once is found where it stands. -/
theorem get?_of_mem_entries {table : Table κ β} (nodup : table.keys.Nodup)
    {key : κ} {value : β} (member : (key, value) ∈ table.entries) :
    table.get? key = some value := by
  rcases table with ⟨entries⟩
  induction entries with
  | nil => cases member
  | cons head tail induction =>
      rcases head with ⟨headKey, headValue⟩
      rcases List.nodup_cons.mp nodup with ⟨fresh, nodupTail⟩
      rw [get?_cons]
      rcases List.mem_cons.mp member with equal | later
      · cases equal
        rw [if_pos rfl]
      · have different : headKey ≠ key := by
          intro equal
          apply fresh
          rw [equal]
          exact List.mem_map.mpr ⟨(key, value), later, rfl⟩
        rw [if_neg different]
        exact induction nodupTail later

theorem get?_map (transform : β → γ) (table : Table κ β) (key : κ) :
    (table.map transform).get? key = (table.get? key).map transform := by
  simp only [get?, map, List.find?_map, Option.map_map]
  rfl

/-! ## Changing one value -/

theorem get?_modify (table : Table κ β) (key other : κ) (change : β → β) :
    (table.modify key change).get? other =
      if other = key then (table.get? other).map change
      else table.get? other := by
  rcases table with ⟨entries⟩
  induction entries with
  | nil => simp [modify, get?]
  | cons head tail induction =>
      rcases head with ⟨headKey, headValue⟩
      simp only [modify, List.map_cons] at induction ⊢
      by_cases atHead : headKey = key
      · rw [if_pos atHead, get?_cons, get?_cons, induction]
        by_cases equal : headKey = other
        · have isKey : other = key := equal.symm.trans atHead
          rw [if_pos equal, if_pos equal, if_pos isKey]
          rfl
        · rw [if_neg equal, if_neg equal]
      · rw [if_neg atHead, get?_cons, get?_cons, induction]
        by_cases equal : headKey = other
        · have notKey : other ≠ key := fun isKey => atHead (equal.trans isKey)
          rw [if_pos equal, if_pos equal, if_neg notKey]
        · rw [if_neg equal, if_neg equal]

theorem mem_values_modify {table : Table κ β} {key : κ} {change : β → β}
    {value : β} (member : value ∈ (table.modify key change).values) :
    value ∈ table.values ∨ ∃ former ∈ table.values, value = change former := by
  rcases mem_values_iff.mp member with ⟨other, inEntries⟩
  rcases List.mem_map.mp inEntries with ⟨⟨former, content⟩, present, equal⟩
  have formerMember : content ∈ table.values :=
    mem_values_iff.mpr ⟨former, present⟩
  split at equal
  · exact .inr ⟨content, formerMember, (Prod.mk.inj equal).2.symm⟩
  · rw [← (Prod.mk.inj equal).2]
    exact .inl formerMember

theorem modify_modify (table : Table κ β) (key : κ) (first second : β → β) :
    (table.modify key first).modify key second = table.modify key
      (second ∘ first) := by
  simp only [modify, List.map_map, Table.mk.injEq]
  apply List.map_congr_left
  intro entry _
  by_cases equal : entry.1 = key <;> simp [equal]

theorem modify_congr {table : Table κ β} (nodup : table.keys.Nodup) {key : κ}
    {first second : β → β}
    (same : ∀ value, table.get? key = some value → first value = second value) :
    table.modify key first = table.modify key second := by
  simp only [modify, Table.mk.injEq]
  apply List.map_congr_left
  intro entry member
  by_cases equal : entry.1 = key
  · have found : table.get? key = some entry.2 :=
      get?_of_mem_entries nodup (by rw [← equal]; exact member)
    rw [if_pos equal, if_pos equal, same entry.2 found]
  · rw [if_neg equal, if_neg equal]

theorem modify_id (table : Table κ β) (key : κ) :
    table.modify key id = table := by
  rcases table with ⟨entries⟩
  simp [modify]

theorem modify_eq_self {table : Table κ β} (nodup : table.keys.Nodup) {key : κ}
    {change : β → β}
    (same : ∀ value, table.get? key = some value → change value = value) :
    table.modify key change = table := by
  have unchanged : table.modify key change = table.modify key id :=
    modify_congr nodup same
  rw [unchanged, modify_id]

/-! ## Storing -/

theorem put_of_mem {table : Table κ β} {key : κ} (present : key ∈ table.keys)
    (value : β) :
    table.put key value = table.modify key fun _ => value := by
  rw [put, if_pos ((contains_eq_true_iff table key).mpr present)]

theorem put_of_not_mem {table : Table κ β} {key : κ} (absent : key ∉ table.keys)
    (value : β) : table.put key value = ⟨table.entries ++ [(key, value)]⟩ := by
  have notContained : ¬table.contains key = true := fun contained =>
    absent ((contains_eq_true_iff table key).mp contained)
  rw [put, if_neg notContained]

theorem values_put_of_not_mem {table : Table κ β} {key : κ}
    (absent : key ∉ table.keys) (value : β) :
    (table.put key value).values = table.values ++ [value] := by
  rw [put_of_not_mem absent, values, List.map_append]
  rfl

theorem mem_keys_put {table : Table κ β} {key other : κ} {value : β} :
    other ∈ (table.put key value).keys ↔ other ∈ table.keys ∨ other = key := by
  rw [keys_put]
  split
  · next present =>
      constructor
      · exact .inl
      · rintro (old | rfl)
        · exact old
        · exact present
  · simp

theorem nodup_keys_put {table : Table κ β} (nodup : table.keys.Nodup) (key : κ)
    (value : β) : (table.put key value).keys.Nodup := by
  rw [keys_put]
  split
  · exact nodup
  · next absent =>
      exact List.Nodup.append nodup (List.nodup_singleton key)
        (by simpa using absent)

theorem mem_values_put {table : Table κ β} {key : κ} {value other : β}
    (member : other ∈ (table.put key value).values) : other ∈ table.values ∨
    other = value := by
  by_cases present : key ∈ table.keys
  · rw [put_of_mem present] at member
    rcases mem_values_modify member with old | ⟨_, _, new⟩
    · exact .inl old
    · exact .inr new
  · rw [put_of_not_mem present] at member
    simpa [values] using member

theorem get?_put_of_ne {table : Table κ β} {key other : κ}
    (different : other ≠ key) (value : β) :
    (table.put key value).get? other = table.get? other := by
  by_cases present : key ∈ table.keys
  · rw [put_of_mem present, get?_modify, if_neg different]
  · rw [put_of_not_mem present]
    simp [get?, List.find?_append, different.symm]

theorem get?_put_self (table : Table κ β) (key : κ) (value : β) :
    (table.put key value).get? key = some value := by
  by_cases present : key ∈ table.keys
  · rcases exists_get?_of_mem_keys present with ⟨former, found⟩
    rw [put_of_mem present, get?_modify, if_pos rfl, found]
    rfl
  · have notFound : table.get? key = none := get?_eq_none_iff.mpr present
    have missing :
        table.entries.find? (fun entry => decide (entry.1 = key)) = none :=
      Option.map_eq_none_iff.mp notFound
    rw [put_of_not_mem present]
    simp [get?, List.find?_append, missing]

theorem get?_put (table : Table κ β) (key other : κ) (value : β) :
    (table.put key value).get? other =
      if other = key then some value else table.get? other := by
  by_cases equal : other = key
  · rw [if_pos equal, equal, get?_put_self]
  · rw [if_neg equal, get?_put_of_ne equal]

/-! ## Erasing -/

theorem get?_erase (table : Table κ β) (key other : κ) :
    (table.erase key).get? other = if other = key then none
      else table.get? other := by
  by_cases equal : other = key
  · rw [if_pos equal, get?_eq_none_iff, keys_erase]
    simp [equal]
  · rw [if_neg equal]
    simp only [get?, erase, List.find?_filter]
    congr 2
    funext entry
    by_cases same : entry.1 = other
    · simp [same, equal]
    · simp [same]

theorem erase_of_not_mem {table : Table κ β} {key : κ}
    (absent : key ∉ table.keys) :
    table.erase key = table := by
  rcases table with ⟨entries⟩
  simp only [erase, Table.mk.injEq, List.filter_eq_self]
  intro entry member
  have different : entry.1 ≠ key := by
    rintro rfl
    exact absent (List.mem_map_of_mem member)
  simpa using different

theorem erase_put {table : Table κ β} {key : κ} (absent : key ∉ table.keys)
    (value : β) :
    (table.put key value).erase key = table := by
  have erased : table.entries.filter (fun entry => !decide (entry.1 = key)) =
      table.entries :=
    congrArg Table.entries (erase_of_not_mem absent)
  rw [put_of_not_mem absent, erase, List.filter_append, erased]
  simp

theorem mem_keys_erase {table : Table κ β} {key other : κ} :
    other ∈ (table.erase key).keys ↔ other ∈ table.keys ∧ other ≠ key := by
  simp [keys_erase]

theorem keys_erase_sublist (table : Table κ β) (key : κ) :
    (table.erase key).keys.Sublist table.keys := by
  rw [keys_erase]
  exact List.filter_sublist

theorem values_erase_sublist (table : Table κ β) (key : κ) :
    (table.erase key).values.Sublist table.values :=
  List.filter_sublist.map Prod.snd

end Table

end LiveLinear
