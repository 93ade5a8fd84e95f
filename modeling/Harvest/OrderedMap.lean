/-!
# Maps in order of insertion

A map from names to values that keeps its entries in the order in which their names first came.
Putting a value under a name that is already there replaces the value in its place.  Names are
distinct by construction.  The main statements say what `find?` gives after each operation.
-/

namespace Harvest

/-- Entries under distinct names, in order of insertion. -/
structure OrderedMap (α : Type) where
  entries : List (String × α)
  nodup : (entries.map Prod.fst).Nodup
  deriving DecidableEq

namespace OrderedMap

variable {α β : Type}

/-! ### Plain lists of entries -/

/-- Put a value under a name: in place if the name is there, else at the end. -/
def put (k : String) (v : α) : List (String × α) → List (String × α)
  | [] => [(k, v)]
  | e :: es => if e.1 = k then (k, v) :: es else e :: put k v es

/-- The value under a name. -/
def look (k : String) : List (String × α) → Option α
  | [] => none
  | e :: es => if e.1 = k then some e.2 else look k es

theorem mem_names_put {k k' : String} {v : α} {es : List (String × α)} :
    k' ∈ (put k v es).map Prod.fst ↔ k' = k ∨ k' ∈ es.map Prod.fst := by
  induction es with
  | nil => simp [put]
  | cons e es ih =>
    by_cases h : e.1 = k
    · simp [put, h]
    · simp only [put, h, if_false, List.map_cons, List.mem_cons, ih]
      exact or_left_comm

theorem nodup_put {k : String} {v : α} {es : List (String × α)}
    (h : (es.map Prod.fst).Nodup) : ((put k v es).map Prod.fst).Nodup := by
  induction es with
  | nil => simp [put]
  | cons e es ih =>
    rw [List.map_cons, List.nodup_cons] at h
    by_cases he : e.1 = k
    · subst he
      simpa [put] using h
    · rw [put, if_neg he, List.map_cons, List.nodup_cons]
      exact ⟨fun hm => (mem_names_put.1 hm).elim he h.1, ih h.2⟩

theorem look_put (k k' : String) (v : α) (es : List (String × α)) :
    look k' (put k v es) = if k' = k then some v else look k' es := by
  induction es with
  | nil => simp [put, look, eq_comm]
  | cons e es ih =>
    by_cases he : e.1 = k
    · by_cases hk : k' = k
      · simp [put, look, he, hk]
      · simp [put, look, he, hk, Ne.symm hk]
    · by_cases hk : k' = k
      · subst hk; simp [put, look, he, ih]
      · simp [put, look, he, ih, hk]

theorem put_of_look {k : String} {v : α} {es : List (String × α)} (h : look k es = some v) :
    put k v es = es := by
  induction es with
  | nil => cases h
  | cons e es ih =>
    by_cases he : e.1 = k
    · rw [look, if_pos he] at h
      rw [put, if_pos he, ← Option.some.inj h, ← he]
    · rw [look, if_neg he] at h
      rw [put, if_neg he, ih h]

theorem put_eq_map {k : String} {v : α} {es : List (String × α)} (h : (es.map Prod.fst).Nodup)
    (hk : k ∈ es.map Prod.fst) : put k v es = es.map fun e => if e.1 = k then (k, v) else e := by
  induction es with
  | nil => cases hk
  | cons e es ih =>
    rw [List.map_cons, List.nodup_cons] at h
    rw [List.map_cons, List.mem_cons] at hk
    by_cases he : e.1 = k
    · have hrest : (es.map fun e => if e.1 = k then (k, v) else e) = es := by
        refine (List.map_congr_left fun f hf => if_neg fun hfk => h.1 ?_).trans (List.map_id es)
        exact List.mem_map.2 ⟨f, hf, hfk.trans he.symm⟩
      rw [put, if_pos he, List.map_cons, if_pos he, hrest]
    · rw [put, if_neg he, List.map_cons, if_neg he, ih h.2 (hk.resolve_left (Ne.symm he))]

theorem look_append (k : String) (es fs : List (String × α)) :
    look k (es ++ fs) = (look k es).or (look k fs) := by
  induction es with
  | nil => rfl
  | cons e es ih => by_cases he : e.1 = k <;> simp [look, he, ih]

theorem look_eq_none_iff {k : String} {es : List (String × α)} :
    look k es = none ↔ k ∉ es.map Prod.fst := by
  induction es with
  | nil => simp [look]
  | cons e es ih => by_cases h : e.1 = k <;> simp_all [look, eq_comm]

theorem look_filter {p : String × α → Bool} {k : String} {es : List (String × α)}
    (h : (es.map Prod.fst).Nodup) :
    look k (es.filter p) = (look k es).filter fun v => p (k, v) := by
  induction es with
  | nil => simp [look]
  | cons e es ih =>
    obtain ⟨a, v⟩ := e
    rw [List.map_cons, List.nodup_cons] at h
    by_cases hk : a = k
    · subst hk
      cases hp : p (a, v) with
      | true => simp [look, hp, Option.filter]
      | false =>
        have hn : look a (es.filter p) = none := by
          rw [ih h.2, look_eq_none_iff.2 h.1]; rfl
        simp [look, hp, hn, Option.filter]
    · cases hp : p (a, v) <;> simp [look, hp, hk, ih h.2]

theorem mem_of_look {k : String} {v : α} {es : List (String × α)}
    (h : look k es = some v) : (k, v) ∈ es := by
  induction es with
  | nil => simp [look] at h
  | cons e es ih =>
    by_cases he : e.1 = k
    · simp only [look, he, if_true, Option.some.injEq] at h
      exact List.mem_cons.2 (.inl (by rw [← he, ← h]))
    · simp only [look, he, if_false] at h
      exact List.mem_cons_of_mem _ (ih h)

theorem look_of_mem {k : String} {v : α} {es : List (String × α)}
    (h : (es.map Prod.fst).Nodup) (hmem : (k, v) ∈ es) : look k es = some v := by
  induction es with
  | nil => cases hmem
  | cons e es ih =>
    rw [List.map_cons, List.nodup_cons] at h
    rcases List.mem_cons.1 hmem with rfl | hmem
    · simp [look]
    · have hne : e.1 ≠ k := by
        rintro rfl
        exact h.1 (List.mem_map.2 ⟨_, hmem, rfl⟩)
      simp [look, hne, ih h.2 hmem]

/-! ### Maps -/

/-- The map with no entries. -/
def empty : OrderedMap α := ⟨[], by simp⟩

instance : EmptyCollection (OrderedMap α) := ⟨empty⟩

instance : Inhabited (OrderedMap α) := ⟨empty⟩

instance [Repr α] : Repr (OrderedMap α) := ⟨fun m _ => repr m.entries⟩

/-- Put a value under a name. -/
def insert (m : OrderedMap α) (k : String) (v : α) : OrderedMap α :=
  ⟨put k v m.entries, nodup_put m.nodup⟩

/-- The value under a name. -/
def find? (m : OrderedMap α) (k : String) : Option α := look k m.entries

/-- Whether a name has a value. -/
def contains (m : OrderedMap α) (k : String) : Bool := (m.find? k).isSome

/-- The names, in order. -/
def names (m : OrderedMap α) : List String := m.entries.map Prod.fst

/-- The values, in order of their names. -/
def values (m : OrderedMap α) : List α := m.entries.map Prod.snd

/-- Keep the entries whose name passes a test. -/
def filterNames (m : OrderedMap α) (p : String → Bool) : OrderedMap α :=
  ⟨m.entries.filter fun e => p e.1,
    List.Sublist.nodup (List.filter_sublist.map Prod.fst) m.nodup⟩

/-- The map that a list of entries makes: a name keeps its first place and its last value. -/
def ofList (es : List (String × α)) : OrderedMap α :=
  es.foldl (fun m e => m.insert e.1 e.2) empty

theorem find?_insert (m : OrderedMap α) (k k' : String) (v : α) :
    (m.insert k v).find? k' = if k' = k then some v else m.find? k' :=
  look_put k k' v m.entries

theorem insert_of_find? {m : OrderedMap α} {k : String} {v : α} (h : m.find? k = some v) :
    m.insert k v = m := by
  obtain ⟨es, hes⟩ := m
  simp only [insert, mk.injEq]
  exact put_of_look h

theorem find?_filterNames (m : OrderedMap α) (p : String → Bool) (k : String) :
    (m.filterNames p).find? k = if p k then m.find? k else none := by
  rw [find?, filterNames, look_filter m.nodup]
  cases hp : p k <;> cases hm : m.find? k <;> simp_all [find?, Option.filter]

theorem find?_eq_some_iff {m : OrderedMap α} {k : String} {v : α} :
    m.find? k = some v ↔ (k, v) ∈ m.entries :=
  ⟨mem_of_look, look_of_mem m.nodup⟩

theorem mem_names_iff {m : OrderedMap α} {k : String} : k ∈ m.names ↔ (m.find? k).isSome := by
  rw [← Option.ne_none_iff_isSome, ne_eq, find?, look_eq_none_iff, Classical.not_not, names]

end OrderedMap

end Harvest
