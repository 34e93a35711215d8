/-! Ordered entries built by assignment. A key that is assigned again keeps its place, so the order
is that in which the keys were first met. -/
namespace ScopedStyle

variable {κ α : Type} [BEq κ]

/-- The entries after an assignment: a key that is there keeps its place and its first form and gets
the new value, another goes to the end. -/
def assign (key : κ) (value : α) : List (κ × α) → List (κ × α)
  | [] => [(key, value)]
  | (first, old) :: rest =>
    if first == key then (first, value) :: rest else (first, old) :: assign key value rest

/-- The entries after some assignments in turn. -/
def assignAll (entries assignments : List (κ × α)) : List (κ × α) :=
  assignments.foldl (fun done entry => assign entry.1 entry.2 done) entries

/-- After an assignment a query finds the new value if it is the same as the assigned key, and
otherwise what it found before. Keys that are the same as the query have to be told from the assigned
one as the query is, and so does the query from keys that are the same as the assigned one. -/
theorem lookup_assign {key query : κ}
    (carries : ∀ first, (query == first) = true → (first == key) = (query == key))
    (meets : ∀ first, (first == key) = true → (query == first) = (query == key))
    (value : α) (entries : List (κ × α)) :
    (assign key value entries).lookup query =
      if query == key then some value else entries.lookup query := by
  induction entries with
  | nil => cases same : query == key <;> simp [assign, List.lookup_cons, same]
  | cons entry rest ih =>
    obtain ⟨first, old⟩ := entry
    by_cases met : (first == key) = true
    · rw [assign, if_pos met, List.lookup_cons, List.lookup_cons, meets first met]
      cases query == key <;> rfl
    · rw [assign, if_neg met, List.lookup_cons, List.lookup_cons, ih]
      by_cases asked : (query == first) = true
      · have other : (query == key) = false := by
          rw [← carries first asked]
          exact Bool.eq_false_iff.mpr met
        simp [asked, other]
      · simp [asked]

end ScopedStyle
