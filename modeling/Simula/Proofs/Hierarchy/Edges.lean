import Simula.Hierarchy

/-!
# Recording super-class edges

A table in which a value has been stored finds that value under its key and what it found before
under every other. The hierarchy inherits this: an edge that is recorded replaces the earlier one of
the same class and no other.
-/

namespace Simula

/-! ## Storing in a table -/

namespace Table

variable {κ ν : Type}

/-- The first entry with the key counts. -/
theorem lookup_cons_eq_ite [DecidableEq κ] (k : κ) (e : κ × ν) (l : List (κ × ν)) :
    (e :: l).lookup k = if k = e.1 then some e.2 else l.lookup k := by
  obtain ⟨k', v⟩ := e
  rw [List.lookup_cons]
  by_cases h : k = k'
  · simp [h]
  · rw [if_neg h, beq_false_of_ne h]

variable [LT κ] [DecidableLT κ]

/-- In a list that a value has been put into, a search finds it under its key, and under another key
what it found before. -/
theorem lookup_insertEntry [DecidableEq κ] [Std.Irrefl (α := κ) (· < ·)]
    [Std.Trichotomous (α := κ) (· < ·)] (k k' : κ) (v : ν) (l : List (κ × ν)) :
    (insertEntry k v l).lookup k' = if k' = k then some v else l.lookup k' := by
  induction l with
  | nil => exact lookup_cons_eq_ite k' (k, v) []
  | cons e rest ih =>
    rw [insertEntry]
    split
    · exact lookup_cons_eq_ite k' (k, v) (e :: rest)
    · next hlt =>
      split
      · next hgt =>
        -- The entry that is passed has another key than the one that is stored under.
        have hne : e.1 ≠ k := by
          rintro rfl
          exact Std.Irrefl.irrefl _ hgt
        rw [lookup_cons_eq_ite, lookup_cons_eq_ite, ih]
        by_cases he : k' = e.1
        · simp [he, hne]
        · simp [he]
      · next hgt =>
        obtain rfl : k = e.1 := Std.Trichotomous.trichotomous _ _ hlt hgt
        rw [lookup_cons_eq_ite, lookup_cons_eq_ite]
        by_cases he : k' = e.1 <;> simp [he]

/-- A value with a key above all others is put at the end. -/
theorem insertEntry_of_above [Std.Irrefl (α := κ) (· < ·)]
    [Trans (α := κ) (· < ·) (· < ·) (· < ·)] {k : κ} (v : ν) {l : List (κ × ν)}
    (h : ∀ e ∈ l, e.1 < k) : insertEntry k v l = l ++ [(k, v)] := by
  induction l with
  | nil => rfl
  | cons e rest ih =>
    rw [List.forall_mem_cons] at h
    have hnot : ¬ k < e.1 := fun hlt => Std.Irrefl.irrefl k (Trans.trans hlt h.1)
    rw [insertEntry, if_neg hnot, if_pos h.1, ih h.2, List.cons_append]

end Table

/-! ## The order of identities -/

namespace ClassIdentity

instance : Std.Irrefl (α := ClassIdentity) (· < ·) where
  irrefl c h := by
    rcases h with h | ⟨-, h⟩
    · exact String.lt_irrefl _ h
    · exact String.lt_irrefl _ h

instance : Std.Trichotomous (α := ClassIdentity) (· < ·) where
  trichotomous a b hab hba := by
    have hpackage : a.package = b.package :=
      Std.Trichotomous.trichotomous a.package b.package (fun h => hab (.inl h))
        (fun h => hba (.inl h))
    have hname : a.name = b.name :=
      Std.Trichotomous.trichotomous a.name b.name (fun h => hab (.inr ⟨hpackage, h⟩))
        (fun h => hba (.inr ⟨hpackage.symm, h⟩))
    cases a
    cases b
    exact congr (congrArg mk hpackage) hname

end ClassIdentity

/-- An edge that is recorded replaces the earlier one of the same class and no other. -/
theorem ClassHierarchy.super?_registerEdge (h : ClassHierarchy) (sub sup c : ClassIdentity) :
    (h.registerEdge sub sup).super? c = if c = sub then some sup else h.super? c :=
  Table.lookup_insertEntry sub c sup h.supers.entries

end Simula
