namespace LiveLinear

/-! # Tables

A table is a finite map that remembers the order in which its keys arrived.
Writing to a key that is present keeps the key's place; a new key goes last. -/

/-- Keys and their values, oldest key first. -/
structure Table (κ : Type u) (β : Type v) where
  entries : List (κ × β)

namespace Table

variable {κ : Type u} {β : Type v} {γ : Type w}

def empty : Table κ β :=
  ⟨[]⟩

instance : EmptyCollection (Table κ β) :=
  ⟨empty⟩

instance : Inhabited (Table κ β) :=
  ⟨empty⟩

def size (table : Table κ β) : Nat :=
  table.entries.length

def keys (table : Table κ β) : List κ :=
  table.entries.map Prod.fst

def values (table : Table κ β) : List β :=
  table.entries.map Prod.snd

def entry (table : Table κ β) (place : Fin table.size) : κ × β :=
  table.entries.get place

def map (transform : β → γ) (table : Table κ β) : Table κ γ :=
  ⟨table.entries.map fun entry => (entry.1, transform entry.2)⟩

@[simp] theorem keys_map (transform : β → γ) (table : Table κ β) :
    (table.map transform).keys = table.keys := by
  simp [keys, map]

variable [DecidableEq κ]

def get? (table : Table κ β) (key : κ) : Option β :=
  (table.entries.find? fun entry => decide (entry.1 = key)).map Prod.snd

def contains (table : Table κ β) (key : κ) : Bool :=
  table.entries.any fun entry => decide (entry.1 = key)

def modify (table : Table κ β) (key : κ) (change : β → β) : Table κ β :=
  ⟨table.entries.map fun entry =>
    if entry.1 = key then (entry.1, change entry.2) else entry⟩

/-- Store a value: in place if the key is present, at the end otherwise. -/
def put (table : Table κ β) (key : κ) (value : β) : Table κ β :=
  if table.contains key then table.modify key fun _ => value
  else ⟨table.entries ++ [(key, value)]⟩

def erase (table : Table κ β) (key : κ) : Table κ β :=
  ⟨table.entries.filter fun entry => !decide (entry.1 = key)⟩

@[simp] theorem get?_empty (key : κ) : (empty : Table κ β).get? key = none :=
  rfl

theorem contains_eq_true_iff (table : Table κ β) (key : κ) :
    table.contains key = true ↔ key ∈ table.keys := by
  simp only [contains, keys, List.any_eq_true, decide_eq_true_eq, List.mem_map]

@[simp] theorem keys_modify (table : Table κ β) (key : κ) (change : β → β) :
    (table.modify key change).keys = table.keys := by
  simp only [keys, modify, List.map_map]
  apply List.map_congr_left
  intro entry _
  simp only [Function.comp_apply]
  split <;> rfl

/-- A new key is the last one, and no other key moves. -/
theorem keys_put (table : Table κ β) (key : κ) (value : β) :
    (table.put key value).keys =
      if key ∈ table.keys then table.keys else table.keys ++ [key] := by
  unfold put
  by_cases present : table.contains key = true
  · rw [if_pos present, if_pos ((contains_eq_true_iff table key).mp present)]
    simp
  · rw [if_neg present, if_neg (fun member =>
      present ((contains_eq_true_iff table key).mpr member))]
    simp [keys]

theorem keys_erase (table : Table κ β) (key : κ) :
    (table.erase key).keys = table.keys.filter fun other =>
      !decide (other = key) := by
  simp only [keys, erase, List.filter_map]
  rfl

end Table

end LiveLinear
