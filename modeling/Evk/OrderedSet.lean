import Mathlib

/-! Finite sets kept in ascending order, with the operations of an ordered container:
insertion that reports whether the key was new, erasure that reports how many keys
went, the first key, and the split at a lower bound. -/

structure OrderedSet (α : Type u) [LinearOrder α] where
  elems : List α
  ascending : elems.Pairwise (· < ·)

namespace OrderedSet

variable {α : Type u} [LinearOrder α] {s : OrderedSet α} {a b : α}

instance : Membership α (OrderedSet α) := ⟨fun s a => a ∈ s.elems⟩

instance (a : α) (s : OrderedSet α) : Decidable (a ∈ s) := inferInstanceAs (Decidable (a ∈ s.elems))

theorem mem_def : a ∈ s ↔ a ∈ s.elems := Iff.rfl

def empty : OrderedSet α := ⟨[],.nil⟩

def size (s : OrderedSet α) : Nat := s.elems.length

def first (s : OrderedSet α) : Option α := s.elems.head?

def filter (p : α → Bool) (s : OrderedSet α) : OrderedSet α := ⟨s.elems.filter p,s.ascending.filter p⟩

def insert (a : α) (s : OrderedSet α) : OrderedSet α where
  elems := s.elems.filter (· < a) ++ a :: s.elems.filter (a < ·)
  ascending := by
    simp only [List.pairwise_append,List.pairwise_cons,List.mem_cons,List.mem_filter,decide_eq_true_eq]
    refine ⟨s.ascending.filter _,⟨fun _ h => h.2,s.ascending.filter _⟩,?_⟩
    rintro x ⟨-,below⟩ y (rfl | ⟨-,above⟩)
    · exact below
    · exact below.trans above

def erase (a : α) (s : OrderedSet α) : OrderedSet α := s.filter (· ≠ a)

def count (a : α) (s : OrderedSet α) : Nat := if a ∈ s then 1 else 0

/-- The keys before the lower bound of `a`, and those from it on. -/
def below (a : α) (s : OrderedSet α) : OrderedSet α := s.filter (· < a)
def above (a : α) (s : OrderedSet α) : OrderedSet α := s.filter (¬· < a)

@[simp] theorem not_mem_empty : a ∉ (empty : OrderedSet α) := by simp [empty,mem_def]

@[simp] theorem mem_filter {p : α → Bool} : b ∈ s.filter p ↔ b ∈ s ∧ p b = true := by
  simp [filter,mem_def]

@[simp] theorem mem_insert : b ∈ s.insert a ↔ b = a ∨ b ∈ s := by
  simp only [insert,mem_def,List.mem_append,List.mem_filter,List.mem_cons,decide_eq_true_eq]
  rcases lt_trichotomy b a with lt | rfl | gt
  · simp [lt,lt.ne,lt.not_gt]
  · simp
  · simp [gt,gt.ne',gt.not_gt]

@[simp] theorem mem_erase : b ∈ s.erase a ↔ b ∈ s ∧ b ≠ a := by simp [erase]

@[simp] theorem mem_below : b ∈ s.below a ↔ b ∈ s ∧ b < a := by simp [below]

@[simp] theorem mem_above : b ∈ s.above a ↔ b ∈ s ∧ a ≤ b := by simp [above]

theorem nodup (s : OrderedSet α) : s.elems.Nodup := s.ascending.imp fun h => h.ne

theorem size_insert (new : a ∉ s) : (s.insert a).size = s.size + 1 := by
  have same : (s.insert a).elems.Perm (a :: s.elems) := by
    refine (List.perm_ext_iff_of_nodup (s.insert a).nodup (List.nodup_cons.mpr ⟨new,s.nodup⟩)).mpr fun b => ?_
    rw [← mem_def,mem_insert,List.mem_cons,mem_def]
  simpa [size] using same.length_eq

theorem size_erase (present : a ∈ s) : (s.erase a).size + 1 = s.size := by
  have same : (a :: (s.erase a).elems).Perm s.elems := by
    refine (List.perm_ext_iff_of_nodup (List.nodup_cons.mpr ⟨?_,(s.erase a).nodup⟩) s.nodup).mpr fun b => ?_
    · rw [← mem_def,mem_erase]
      exact fun h => h.2 rfl
    · rw [List.mem_cons,← mem_def,← mem_def,mem_erase]
      by_cases eq : b = a
      · simpa [eq] using present
      · simp [eq]
  simpa [size] using same.length_eq

theorem size_below_add_above (a : α) (s : OrderedSet α) : (s.below a).size + (s.above a).size = s.size := by
  have split := s.elems.length_eq_length_filter_add (· < a)
  simp only [size,below,above,filter,decide_not]
  exact split.symm

theorem first_eq_none : s.first = none ↔ ∀ a, a ∉ s := by
  simp [first,mem_def,List.eq_nil_iff_forall_not_mem]

theorem first_spec (first : s.first = some a) : a ∈ s ∧ ∀ b ∈ s, a ≤ b := by
  obtain ⟨elems,ascending⟩ := s
  cases elems with
  | nil => simp [OrderedSet.first] at first
  | cons x rest =>
    obtain rfl : x = a := by simpa [OrderedSet.first] using first
    refine ⟨by simp [mem_def],fun b member => ?_⟩
    rcases List.mem_cons.mp member with rfl | later
    · exact le_rfl
    · exact (List.rel_of_pairwise_cons ascending later).le

end OrderedSet
