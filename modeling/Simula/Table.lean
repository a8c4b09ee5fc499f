/-!
# Ascending tables

A finite table lists its entries in ascending order of their keys. Storing under a key that is
already present replaces the value, so every key occurs once and the order of a listing does
not depend on the order of insertion.
-/

namespace Simula

/-- A finite table with ascending keys. -/
structure Table (κ ν : Type) [LT κ] where
  entries : List (κ × ν)
  ascending : entries.Pairwise fun a b => a.1 < b.1

namespace Table

variable {κ ν : Type} [LT κ]

/-- The table without entries. -/
def empty : Table κ ν := ⟨[], .nil⟩

instance : Inhabited (Table κ ν) := ⟨empty⟩

/-- The number of entries. -/
def size (t : Table κ ν) : Nat := t.entries.length

/-- The keys in ascending order. -/
def keys (t : Table κ ν) : List κ := t.entries.map (·.1)

/-- The value stored under a key. -/
def find? [DecidableEq κ] (t : Table κ ν) (k : κ) : Option ν := t.entries.lookup k

/-- Puts a value at its place in an ascending list. -/
def insertEntry [DecidableLT κ] (k : κ) (v : ν) : List (κ × ν) → List (κ × ν)
  | [] => [(k, v)]
  | e :: rest =>
    if k < e.1 then (k, v) :: e :: rest
    else if e.1 < k then e :: insertEntry k v rest
    else (e.1, v) :: rest

/-- Every key after an insertion is the new one or an old one. -/
theorem mem_insertEntry [DecidableLT κ] {k : κ} {v : ν} {l : List (κ × ν)} {e : κ × ν}
    (h : e ∈ insertEntry k v l) : e.1 = k ∨ ∃ d ∈ l, d.1 = e.1 := by
  induction l with
  | nil => simp_all [insertEntry]
  | cons d rest ih =>
    rw [insertEntry] at h
    split at h
    · simp only [List.mem_cons] at h
      grind
    · split at h <;> simp only [List.mem_cons] at h <;> grind

/-- Insertion keeps the keys ascending. -/
theorem insertEntry_ascending [DecidableLT κ] [Trans (α := κ) (· < ·) (· < ·) (· < ·)]
    (k : κ) (v : ν) {l : List (κ × ν)} (h : l.Pairwise fun a b => a.1 < b.1) :
    (insertEntry k v l).Pairwise fun a b => a.1 < b.1 := by
  induction l with
  | nil => simp [insertEntry]
  | cons e rest ih =>
    obtain ⟨he, hrest⟩ := List.pairwise_cons.mp h
    rw [insertEntry]
    split
    · next hk =>
      refine List.pairwise_cons.mpr ⟨fun d hd => ?_, h⟩
      rcases List.mem_cons.mp hd with rfl | hd
      · exact hk
      · exact Trans.trans hk (he d hd)
    · split
      · next hk =>
        refine List.pairwise_cons.mpr ⟨fun d hd => ?_, ih hrest⟩
        rcases mem_insertEntry hd with hd | ⟨c, hc, hd⟩
        · exact hd ▸ hk
        · exact hd ▸ he c hc
      · exact List.pairwise_cons.mpr ⟨he, hrest⟩

/-- Stores a value under a key. -/
def insert [DecidableLT κ] [Trans (α := κ) (· < ·) (· < ·) (· < ·)]
    (t : Table κ ν) (k : κ) (v : ν) : Table κ ν :=
  ⟨insertEntry k v t.entries, insertEntry_ascending k v t.ascending⟩

end Table

end Simula
