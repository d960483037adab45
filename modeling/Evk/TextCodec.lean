import Mathlib

/-! Texts that can be read back. A codec writes a value and reads it again; sequences of
values are written with a separator that no value's text has in it. -/

structure TextCodec (α : Type u) where
  write : α → List Char
  read : List Char → Option α
  read_write : ∀ a, read (write a) = some a

namespace TextCodec

variable {α : Type u} (c : TextCodec α) (sep : Char)

theorem write_inj {a b : α} (same : c.write a = c.write b) : a = b := by
  have read := congrArg c.read same
  rwa [c.read_write,c.read_write,Option.some.injEq] at read

theorem mapM_read (as : List α) : (as.map c.write).mapM c.read = some as := by
  induction as with
  | nil => rfl
  | cons a as ih => simp [c.read_write,ih]

def join (as : List α) : List Char := [sep].intercalate (as.map c.write)

def split (text : List Char) : Option (List α) := (text.splitOn sep).mapM c.read

@[simp] theorem join_nil : c.join sep [] = [] := rfl

@[simp] theorem join_singleton (a : α) : c.join sep [a] = c.write a := by simp [join,List.intercalate]

@[simp] theorem join_cons_cons (a b : α) (as : List α) :
    c.join sep (a :: b :: as) = c.write a ++ sep :: c.join sep (b :: as) := by
  simp [join,List.intercalate,List.intersperse_cons_cons]

theorem split_join (apart : ∀ a, sep ∉ c.write a) (as : List α) (some : as ≠ []) :
    c.split sep (c.join sep as) = as := by
  rw [split,join,List.splitOn_intercalate]
  · exact c.mapM_read as
  · simpa using fun a _ => apart a
  · simpa using some

theorem mem_join {x : Char} {as : List α} (among : x ∈ c.join sep as) : x = sep ∨ ∃ a ∈ as, x ∈ c.write a := by
  induction as with
  | nil => simp at among
  | cons a as ih =>
    cases as with
    | nil => exact .inr ⟨a,List.mem_singleton_self a,by simpa using among⟩
    | cons b as =>
      rw [join_cons_cons,List.mem_append,List.mem_cons] at among
      rcases among with first | separator | later
      · exact .inr ⟨a,List.mem_cons_self,first⟩
      · exact .inl separator
      · exact (ih later).imp_right fun ⟨b,among,inside⟩ => ⟨b,List.mem_cons_of_mem _ among,inside⟩

theorem length_join_le {limit : Nat} (short : ∀ a, (c.write a).length ≤ limit) (as : List α) :
    (c.join sep as).length ≤ as.length * (limit + 1) - 1 := by
  induction as with
  | nil => simp
  | cons a as ih =>
    have first := short a
    cases as with
    | nil => simpa using first
    | cons b as =>
      have positive : 1 ≤ (as.length + 1) * (limit + 1) := Nat.mul_pos (by omega) (by omega)
      have step : (as.length + 1 + 1) * (limit + 1) = (as.length + 1) * (limit + 1) + (limit + 1) := by ring
      simp only [join_cons_cons,List.length_append,List.length_cons] at ih ⊢
      omega

end TextCodec

/-- The last separator splits a text in one way only. -/
theorem List.append_cons_inj_of_not_mem_right {α : Type u} {x : α} {l m s t : List α}
    (outside : x ∉ s) (outside' : x ∉ t)
    (same : l ++ x :: s = m ++ x :: t) : l = m ∧ s = t := by
  induction l generalizing m with
  | nil =>
    cases m with
    | nil => exact ⟨rfl,(List.cons.inj same).2⟩
    | cons y m =>
      obtain ⟨-,rest⟩ := List.cons.inj same
      exact absurd (by simp [rest]) outside
  | cons y l ih =>
    cases m with
    | nil =>
      obtain ⟨-,rest⟩ := List.cons.inj same
      exact absurd (by simp [← rest]) outside'
    | cons z m =>
      obtain ⟨rfl,rest⟩ := List.cons.inj same
      obtain ⟨rfl,rfl⟩ := ih rest
      exact ⟨rfl,rfl⟩
