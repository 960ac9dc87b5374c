/-! Finite maps kept as lists in strictly ascending key order. A key occurs once, and two
tables that answer every look-up alike are the same list, so a table may be compared,
counted and written out without asking in which order it was filled. -/
namespace Intake

structure Table (κ α : Type) [Ord κ] where
  entries : List (κ × α)
  ascending : entries.Pairwise (fun a b => compare a.1 b.1 = .lt)
  deriving Repr

namespace Table

section Entries
variable {κ α : Type} [Ord κ]

def find (key : κ) : List (κ × α) → Option α
  | [] => none
  | (k, v) :: rest => if compare key k = .eq then some v else find key rest

/- Puts an entry where its key belongs; an entry of that key gives way to it. -/
def place (key : κ) (value : α) : List (κ × α) → List (κ × α)
  | [] => [(key, value)]
  | (k, v) :: rest =>
    match compare key k with
    | .lt => (key, value) :: (k, v) :: rest
    | .eq => (key, value) :: rest
    | .gt => (k, v) :: place key value rest

theorem memberPlace {key : κ} {value : α} {entries : List (κ × α)} {p : κ × α}
    (h : p ∈ place key value entries) : p = (key, value) ∨ p ∈ entries := by
  induction entries with
  | nil => simpa [place] using h
  | cons head rest ih =>
    obtain ⟨k, v⟩ := head
    unfold place at h
    split at h
    · simpa using h
    · rcases List.mem_cons.1 h with h | h
      · exact .inl h
      · exact .inr (List.mem_cons_of_mem _ h)
    · rcases List.mem_cons.1 h with h | h
      · exact .inr (by simp [h])
      · rcases ih h with h | h
        · exact .inl h
        · exact .inr (List.mem_cons_of_mem _ h)

theorem placeAscending [Std.TransOrd κ] [Std.LawfulEqOrd κ] (key : κ) (value : α) {entries : List (κ × α)}
    (h : entries.Pairwise (fun a b => compare a.1 b.1 = .lt)) :
    (place key value entries).Pairwise (fun a b => compare a.1 b.1 = .lt) := by
  induction entries with
  | nil => simp [place]
  | cons head rest ih =>
    obtain ⟨k, v⟩ := head
    have tail := List.pairwise_cons.1 h
    unfold place
    split
    · rename_i less
      refine List.pairwise_cons.2 ⟨?_, h⟩
      intro p hp
      rcases List.mem_cons.1 hp with rfl | hp
      · exact less
      · exact Std.TransCmp.lt_trans less (tail.1 p hp)
    · rename_i same
      cases Std.LawfulEqOrd.eq_of_compare same
      exact List.pairwise_cons.2 tail
    · rename_i more
      refine List.pairwise_cons.2 ⟨?_, ih tail.2⟩
      intro p hp
      rcases memberPlace hp with rfl | hp
      · exact Std.OrientedCmp.gt_iff_lt.1 more
      · exact tail.1 p hp

theorem findPlace [Std.LawfulEqOrd κ] (key : κ) (value : α) (entries : List (κ × α)) (k : κ) :
    find k (place key value entries) =
      if compare k key = .eq then some value else find k entries := by
  induction entries with
  | nil => rfl
  | cons head rest ih =>
    obtain ⟨k', v⟩ := head
    unfold place
    split
    · rfl
    · rename_i same
      cases Std.LawfulEqOrd.eq_of_compare same
      by_cases h : compare k key = .eq <;> simp [find, h]
    · rename_i more
      simp only [find, ih]
      by_cases hk : compare k k' = .eq
      · cases Std.LawfulEqOrd.eq_of_compare hk
        have : compare k key ≠ .eq := by
          intro same
          cases Std.LawfulEqOrd.eq_of_compare same
          simp at more
        simp [this]
      · simp [hk]

theorem findSome [Std.LawfulEqOrd κ] {entries : List (κ × α)} {k : κ} {v : α}
    (h : find k entries = some v) : (k, v) ∈ entries := by
  induction entries with
  | nil => simp [find] at h
  | cons head rest ih =>
    obtain ⟨k', v'⟩ := head
    unfold find at h
    split at h
    · rename_i same
      cases Std.LawfulEqOrd.eq_of_compare same
      cases h
      exact List.mem_cons_self
    · exact List.mem_cons_of_mem _ (ih h)

theorem findMember [Std.LawfulEqOrd κ] {entries : List (κ × α)}
    (ordered : entries.Pairwise (fun a b => compare a.1 b.1 = .lt)) {k : κ} {v : α}
    (h : (k, v) ∈ entries) : find k entries = some v := by
  induction entries with
  | nil => simp at h
  | cons head rest ih =>
    obtain ⟨k', v'⟩ := head
    have tail := List.pairwise_cons.1 ordered
    rcases List.mem_cons.1 h with same | h
    · cases same
      simp [find]
    · have less : compare k' k = .lt := tail.1 (k, v) h
      have : compare k k' ≠ .eq := by
        intro same
        cases Std.LawfulEqOrd.eq_of_compare same
        simp at less
      simp [find, this, ih tail.2 h]

end Entries

variable {κ α : Type} [Ord κ]

def empty : Table κ α := ⟨[], .nil⟩

instance : EmptyCollection (Table κ α) := ⟨empty⟩
instance : Inhabited (Table κ α) := ⟨empty⟩

def get? (t : Table κ α) (key : κ) : Option α := find key t.entries

def keys (t : Table κ α) : List κ := t.entries.map (·.1)

def values (t : Table κ α) : List α := t.entries.map (·.2)

def size (t : Table κ α) : Nat := t.entries.length

def contains (t : Table κ α) (key : κ) : Bool := (t.get? key).isSome

@[simp] theorem getEmpty (k : κ) : (empty : Table κ α).get? k = none := rfl

@[ext] theorem sameEntries {a b : Table κ α} (h : a.entries = b.entries) : a = b := by
  cases a; cases b; cases h; rfl

instance [DecidableEq κ] [DecidableEq α] : DecidableEq (Table κ α) := fun a b =>
  if h : a.entries = b.entries then isTrue (sameEntries h)
  else isFalse (fun same => h (congrArg entries same))

theorem getSome [Std.LawfulEqOrd κ] {t : Table κ α} {k : κ} {v : α} :
    t.get? k = some v ↔ (k, v) ∈ t.entries :=
  ⟨findSome, findMember t.ascending⟩

variable [Std.TransOrd κ] [Std.LawfulEqOrd κ]

def set (t : Table κ α) (key : κ) (value : α) : Table κ α :=
  ⟨place key value t.entries, placeAscending key value t.ascending⟩

/- Of several values for one key the last is kept. -/
def ofList (pairs : List (κ × α)) : Table κ α :=
  pairs.foldl (fun t p => t.set p.1 p.2) empty

@[simp] theorem getSet (t : Table κ α) (key : κ) (value : α) (k : κ) :
    (t.set key value).get? k = if compare k key = .eq then some value else t.get? k :=
  findPlace key value t.entries k

theorem memberSet {t : Table κ α} {key : κ} {value : α} {p : κ × α}
    (h : p ∈ (t.set key value).entries) : p = (key, value) ∨ p ∈ t.entries := memberPlace h

theorem memberOfList {pairs : List (κ × α)} {p : κ × α}
    (h : p ∈ (ofList pairs).entries) : p ∈ pairs := by
  have general : ∀ (pairs : List (κ × α)) (t : Table κ α),
      p ∈ (pairs.foldl (fun t q => t.set q.1 q.2) t).entries → p ∈ t.entries ∨ p ∈ pairs := by
    intro pairs
    induction pairs with
    | nil => intro t hp; exact .inl hp
    | cons q rest ih =>
      intro t hp
      rcases ih _ hp with hp | hp
      · rcases memberSet hp with rfl | hp
        · exact .inr List.mem_cons_self
        · exact .inl hp
      · exact .inr (List.mem_cons_of_mem _ hp)
  rcases general pairs empty h with h | h
  · exact absurd h List.not_mem_nil
  · exact h

/- The order of the entries leaves no freedom: look-ups determine the table. -/
theorem sameLookups {a b : Table κ α} (h : ∀ k, a.get? k = b.get? k) : a = b := by
  have members : ∀ p, p ∈ a.entries ↔ p ∈ b.entries := fun p => by
    rw [show p = (p.1, p.2) from rfl, ← getSome, ← getSome, h]
  have irrefl : ∀ p : κ × α, ¬ compare p.1 p.1 = .lt := by simp
  obtain ⟨xs, ordered⟩ := a
  obtain ⟨ys, ordered'⟩ := b
  simp only at members
  refine sameEntries (show xs = ys from ?_)
  clear h
  induction xs generalizing ys with
  | nil => cases ys with
    | nil => rfl
    | cons y ys => simpa using members y
  | cons x xs ih => cases ys with
    | nil => simpa using members x
    | cons y ys =>
      have hx := List.pairwise_cons.1 ordered
      have hy := List.pairwise_cons.1 ordered'
      have heads : x = y := by
        rcases List.mem_cons.1 ((members x).1 List.mem_cons_self) with e | mx
        · exact e
        rcases List.mem_cons.1 ((members y).2 List.mem_cons_self) with e | my
        · exact e.symm
        exact absurd (Std.TransCmp.lt_trans (hx.1 y my) (hy.1 x mx)) (irrefl x)
      subst heads
      rw [ih hx.2 _ hy.2]
      intro p
      constructor
      · intro hp
        rcases List.mem_cons.1 ((members p).1 (List.mem_cons_of_mem _ hp)) with e | m
        · exact absurd (hx.1 p hp) (e ▸ irrefl p)
        · exact m
      · intro hp
        rcases List.mem_cons.1 ((members p).2 (List.mem_cons_of_mem _ hp)) with e | m
        · exact absurd (hy.1 p hp) (e ▸ irrefl p)
        · exact m

end Table

end Intake
