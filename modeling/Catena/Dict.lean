/-!
# Finite maps in order of insertion

A `Dict` keeps its entries in the order in which their keys came in; writing to a key that is
present keeps its place. The lemmas say what each operation does to `find?`.
-/

namespace Catena

/-- A finite map whose entries stand in order of insertion. -/
structure Dict (κ : Type) (α : Type) where
  entries : List (κ × α)
deriving Repr

namespace Dict

variable {κ α : Type} [DecidableEq κ]

instance : EmptyCollection (Dict κ α) := ⟨⟨[]⟩⟩

instance : Inhabited (Dict κ α) := ⟨∅⟩

/-- The first value under `k` in a list of entries. -/
def lookup (k : κ) : List (κ × α) → Option α
  | [] => none
  | (k', a) :: rest => if k' = k then some a else lookup k rest

/-- The value under `k`. -/
def find? (d : Dict κ α) (k : κ) : Option α :=
  lookup k d.entries

/-- Whether `k` has a value. -/
def contains (d : Dict κ α) (k : κ) : Bool :=
  (d.find? k).isSome

/-- Writes `a` under `k`, in place if the key is there and at the end otherwise. -/
def put (k : κ) (a : α) : List (κ × α) → List (κ × α)
  | [] => [(k, a)]
  | (k', b) :: rest => if k' = k then (k, a) :: rest else (k', b) :: put k a rest

/-- Sets the value under `k`. -/
def insert (d : Dict κ α) (k : κ) (a : α) : Dict κ α :=
  ⟨put k a d.entries⟩

/-- Takes `k` out. -/
def erase (d : Dict κ α) (k : κ) : Dict κ α :=
  ⟨d.entries.filter fun e => e.1 ≠ k⟩

/-- The keys, oldest first. -/
def keys (d : Dict κ α) : List κ :=
  d.entries.map (·.1)

/-- The number of entries. -/
def size (d : Dict κ α) : Nat :=
  d.entries.length

/-- Keeps the entries whose key satisfies `p`. -/
def filterKeys (d : Dict κ α) (p : κ → Bool) : Dict κ α :=
  ⟨d.entries.filter fun e => p e.1⟩

@[simp] theorem find?_empty (k : κ) : (∅ : Dict κ α).find? k = none := rfl

theorem lookup_put (k k' : κ) (a : α) (es : List (κ × α)) :
    lookup k' (put k a es) = if k = k' then some a else lookup k' es := by
  induction es with
  | nil => simp [put, lookup]
  | cons e es ih =>
    obtain ⟨k₀, b⟩ := e
    by_cases h : k₀ = k
    · subst h; by_cases h' : k₀ = k' <;> simp [put, lookup, h']
    · by_cases h' : k₀ = k'
      · subst h'; simp [put, lookup, h, Ne.symm h]
      · simp [put, lookup, h, h', ih]

/-- A write is seen under its own key and nowhere else. -/
theorem find?_insert (d : Dict κ α) (k k' : κ) (a : α) :
    (d.insert k a).find? k' = if k = k' then some a else d.find? k' :=
  lookup_put k k' a d.entries

theorem lookup_filter_ne (k k' : κ) (es : List (κ × α)) :
    lookup k' (es.filter fun e => e.1 ≠ k) = if k = k' then none else lookup k' es := by
  induction es with
  | nil => simp [lookup]
  | cons e es ih =>
    obtain ⟨k₀, b⟩ := e
    by_cases h : k₀ = k
    · subst h; by_cases h' : k₀ = k' <;> simp_all [lookup]
    · by_cases h' : k₀ = k'
      · subst h'; simp [lookup, h, Ne.symm h]
      · simp_all [lookup]

/-- A key taken out is gone and the others stay. -/
theorem find?_erase (d : Dict κ α) (k k' : κ) :
    (d.erase k).find? k' = if k = k' then none else d.find? k' :=
  lookup_filter_ne k k' d.entries

theorem mem_keys_put (k k' : κ) (a : α) (es : List (κ × α)) :
    k' ∈ (put k a es).map (·.1) ↔ k' = k ∨ k' ∈ es.map (·.1) := by
  induction es with
  | nil => simp [put]
  | cons e es ih =>
    obtain ⟨k₀, b⟩ := e
    by_cases h : k₀ = k
    · subst h; simp [put]
    · simp only [put, if_neg h, List.map_cons, List.mem_cons, ih]
      exact or_left_comm

theorem nodup_put (k : κ) (a : α) (es : List (κ × α)) (h : (es.map (·.1)).Nodup) :
    ((put k a es).map (·.1)).Nodup := by
  induction es with
  | nil => simp [put]
  | cons e es ih =>
    obtain ⟨k₀, b⟩ := e
    obtain ⟨fresh, rest⟩ := List.nodup_cons.1 h
    by_cases same : k₀ = k
    · subst same
      simpa [put] using h
    · simp only [put, if_neg same, List.map_cons]
      refine List.nodup_cons.2 ⟨fun member => ?_, ih rest⟩
      rcases (mem_keys_put k k₀ a es).1 member with rfl | old
      · exact same rfl
      · exact fresh old

/-- No key is written twice. -/
theorem nodup_insert (d : Dict κ α) (k : κ) (a : α) (h : d.keys.Nodup) :
    (d.insert k a).keys.Nodup :=
  nodup_put k a d.entries h

omit [DecidableEq κ] in
theorem nodup_filterKeys (d : Dict κ α) (p : κ → Bool) (h : d.keys.Nodup) :
    (d.filterKeys p).keys.Nodup :=
  h.sublist (List.filter_sublist.map _)

theorem nodup_erase (d : Dict κ α) (k : κ) (h : d.keys.Nodup) : (d.erase k).keys.Nodup :=
  h.sublist (List.filter_sublist.map _)

end Dict

end Catena
