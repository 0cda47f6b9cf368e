/-!
Tables from names to values, kept in the order of the names. Names are ordered by code point,
which is the order of their UTF-8 bytes. The main statements say what a write does to each lookup,
that writes under different names commute, and that tables stay sorted.
-/

namespace ScopedFormulas

/-- Entries in increasing order of name, each name once. The order is kept by `insert`. -/
structure Table (α : Type) where
  entries : List (String × α)
  deriving Repr

namespace Table

variable {α β : Type}

instance : EmptyCollection (Table α) := ⟨⟨[]⟩⟩

def findEntry (name : String) : List (String × α) → Option α
  | [] => none
  | (k, a) :: rest => if k = name then some a else findEntry name rest

def get? (t : Table α) (name : String) : Option α := findEntry name t.entries

def insertEntry (name : String) (a : α) : List (String × α) → List (String × α)
  | [] => [(name, a)]
  | (k, b) :: rest =>
    if k = name then (name, a) :: rest
    else if name < k then (name, a) :: (k, b) :: rest
    else (k, b) :: insertEntry name a rest

def insert (t : Table α) (name : String) (a : α) : Table α := ⟨insertEntry name a t.entries⟩

def size (t : Table α) : Nat := t.entries.length

def isEmpty (t : Table α) : Bool := t.entries.isEmpty

def ofList (entries : List (String × α)) : Table α :=
  entries.foldl (fun t e => t.insert e.1 e.2) ∅

def map (f : α → β) (t : Table α) : Table β := ⟨t.entries.map fun e => (e.1, f e.2)⟩

theorem findEntry_insertEntry (name other : String) (a : α) (l : List (String × α)) :
    findEntry other (insertEntry name a l) = if name = other then some a else findEntry other l := by
  induction l with
  | nil => simp [insertEntry, findEntry]
  | cons e rest ih =>
    obtain ⟨k, b⟩ := e
    by_cases h : k = name
    · subst h
      simp only [insertEntry, if_true, findEntry]
      split <;> rfl
    · simp only [insertEntry, h, if_false]
      split
      · simp only [findEntry]
      · simp only [findEntry, ih]
        by_cases hk : k = other
        · simp [hk, show ¬ name = other from fun e => h (hk.trans e.symm)]
        · simp [hk]

theorem insertEntry_insertEntry_self (name : String) (a b : α) (l : List (String × α)) :
    insertEntry name a (insertEntry name b l) = insertEntry name a l := by
  induction l with
  | nil => simp [insertEntry]
  | cons e rest ih =>
    obtain ⟨k, c⟩ := e
    by_cases h : k = name
    · simp [insertEntry, h]
    · by_cases hlt : name < k <;> simp [insertEntry, h, hlt, ih]

theorem lt_or_gt_of_ne {a b : String} (h : a ≠ b) : a < b ∨ b < a := by
  by_cases hab : a < b
  · exact .inl hab
  · right
    apply Decidable.byContradiction
    intro hba
    exact h (String.le_antisymm (String.not_lt.mp hba) (String.not_lt.mp hab))

theorem insertEntry_comm_of_lt {name other : String} (a b : α) (h : name < other)
    (l : List (String × α)) :
    insertEntry name a (insertEntry other b l) = insertEntry other b (insertEntry name a l) := by
  have hne : name ≠ other := fun e => String.lt_irrefl _ (e ▸ h)
  have hlt : (name < other) = True := eq_true h
  have hgt : (other < name) = False := eq_false (String.lt_asymm h)
  induction l with
  | nil => simp only [insertEntry, hne, hne.symm, hlt, hgt, if_true, if_false]
  | cons e rest ih =>
    obtain ⟨k, c⟩ := e
    by_cases hn : k = name
    · subst hn
      simp only [insertEntry, hne, hgt, if_true, if_false]
    · by_cases ho : k = other
      · subst ho
        simp only [insertEntry, hne, hne.symm, hlt, hgt, if_true, if_false]
      · by_cases hk : other < k
        · have hk' := String.lt_trans h hk
          simp only [insertEntry, hn, ho, hk, hk', hne, hne.symm, hlt, hgt, if_true, if_false]
        · by_cases hk' : name < k
          · simp only [insertEntry, hn, ho, hk, hk', hne, hgt, if_true, if_false]
          · simp only [insertEntry, hn, ho, hk, hk', if_false, ih]

theorem mem_of_findEntry {name : String} {a : α} {l : List (String × α)}
    (h : findEntry name l = some a) : (name, a) ∈ l := by
  induction l with
  | nil => cases h
  | cons e rest ih =>
    simp only [findEntry] at h
    split at h
    next heq =>
      cases h
      exact heq ▸ List.mem_cons_self
    next => exact List.mem_cons_of_mem _ (ih h)

theorem findEntry_eq_none {name : String} {l : List (String × α)} (h : ∀ e ∈ l, name ≠ e.1) :
    findEntry name l = none := by
  cases hfound : findEntry name l with
  | none => rfl
  | some a => exact absurd rfl (h _ (mem_of_findEntry hfound))

theorem mem_of_get? {t : Table α} {name : String} {a : α} (h : t.get? name = some a) :
    (name, a) ∈ t.entries := mem_of_findEntry h

theorem findEntry_map (f : α → β) (name : String) (l : List (String × α)) :
    findEntry name (l.map fun e => (e.1, f e.2)) = (findEntry name l).map f := by
  induction l with
  | nil => rfl
  | cons e rest ih =>
    simp only [List.map_cons, findEntry, ih]
    split <;> rfl

theorem get?_map (f : α → β) (t : Table α) (name : String) :
    (t.map f).get? name = (t.get? name).map f := findEntry_map f name t.entries

@[simp] theorem get?_empty (name : String) : (∅ : Table α).get? name = none := rfl

theorem get?_insert (t : Table α) (name other : String) (a : α) :
    (t.insert name a).get? other = if name = other then some a else t.get? other :=
  findEntry_insertEntry name other a t.entries

@[simp] theorem get?_insert_self (t : Table α) (name : String) (a : α) :
    (t.insert name a).get? name = some a := by simp [get?_insert]

theorem get?_insert_of_ne (t : Table α) {name other : String} (a : α) (h : name ≠ other) :
    (t.insert name a).get? other = t.get? other := by simp [get?_insert, h]

@[simp] theorem insert_insert_self (t : Table α) (name : String) (a b : α) :
    (t.insert name b).insert name a = t.insert name a := by
  simp [insert, insertEntry_insertEntry_self]

theorem insert_comm (t : Table α) {name other : String} (a b : α) (h : name ≠ other) :
    (t.insert name a).insert other b = (t.insert other b).insert name a := by
  simp only [insert, Table.mk.injEq]
  rcases lt_or_gt_of_ne h with hlt | hlt
  · exact (insertEntry_comm_of_lt a b hlt t.entries).symm
  · exact insertEntry_comm_of_lt b a hlt t.entries

def Sorted (t : Table α) : Prop := t.entries.Pairwise fun e f => e.1 < f.1

theorem fst_mem_insertEntry {name : String} {a : α} {l : List (String × α)} {e : String × α}
    (h : e ∈ insertEntry name a l) : e.1 = name ∨ e ∈ l := by
  induction l with
  | nil =>
    left
    rw [insertEntry, List.mem_singleton] at h
    rw [h]
  | cons d rest ih =>
    obtain ⟨k, b⟩ := d
    simp only [insertEntry] at h
    split at h
    · rcases List.mem_cons.mp h with rfl | h
      · exact .inl rfl
      · exact .inr (List.mem_cons_of_mem _ h)
    · split at h
      · rcases List.mem_cons.mp h with rfl | h
        · exact .inl rfl
        · exact .inr h
      · rcases List.mem_cons.mp h with rfl | h
        · exact .inr List.mem_cons_self
        · exact (ih h).imp_right (List.mem_cons_of_mem _)

theorem pairwise_insertEntry (name : String) (a : α) {l : List (String × α)}
    (h : l.Pairwise fun e f => e.1 < f.1) :
    (insertEntry name a l).Pairwise fun e f => e.1 < f.1 := by
  induction l with
  | nil => exact List.pairwise_singleton _ _
  | cons e rest ih =>
    obtain ⟨k, b⟩ := e
    obtain ⟨hk, hrest⟩ := List.pairwise_cons.mp h
    simp only [insertEntry]
    split
    · rename_i heq
      exact List.pairwise_cons.mpr ⟨fun f hf => heq ▸ hk f hf, hrest⟩
    · rename_i hne
      split
      · rename_i hlt
        refine List.pairwise_cons.mpr ⟨fun f hf => ?_, h⟩
        rcases List.mem_cons.mp hf with rfl | hf
        · exact hlt
        · exact String.lt_trans hlt (hk f hf)
      · rename_i hlt
        refine List.pairwise_cons.mpr ⟨fun f hf => ?_, ih hrest⟩
        rcases fst_mem_insertEntry hf with heq | hf
        · exact heq ▸ (lt_or_gt_of_ne hne).resolve_right hlt
        · exact hk f hf

theorem sorted_empty : (∅ : Table α).Sorted := List.Pairwise.nil

theorem Sorted.insert {t : Table α} (h : t.Sorted) (name : String) (a : α) :
    (t.insert name a).Sorted := pairwise_insertEntry name a h

theorem sorted_ofList (entries : List (String × α)) : (ofList entries).Sorted := by
  have step (t : Table α) (h : t.Sorted) :
      (entries.foldl (fun t e => t.insert e.1 e.2) t).Sorted := by
    induction entries generalizing t with
    | nil => exact h
    | cons e rest ih => exact ih _ (h.insert e.1 e.2)
  exact step ∅ sorted_empty

end Table

end ScopedFormulas
