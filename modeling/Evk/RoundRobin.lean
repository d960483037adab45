import Mathlib

/-! Handing out the elements of a list in turn. Position `i` of what was handed out is
element `i mod n` of the list, so with distinct elements none is ahead of another by
more than one. -/

namespace RoundRobin

variable {α : Type*} {l given later : List α} {a b : α}

/-- The elements of the list, over and over. -/
def Cyclic (l given : List α) : Prop := ∀ i < given.length, given[i]? = l[i % l.length]?

theorem Cyclic.nil : Cyclic l [] := by
  intro i inside
  simp at inside

theorem Cyclic.append (cyclic : Cyclic l given) (next : l[given.length % l.length]? = some a) :
    Cyclic l (given ++ [a]) := by
  intro i inside
  rw [List.length_append,List.length_singleton] at inside
  by_cases old : i < given.length
  · rw [List.getElem?_append_left old,cyclic i old]
  · have last : i = given.length := by omega
    rw [last,List.getElem?_concat_length,next]

theorem Cyclic.of_append (cyclic : Cyclic l (given ++ later)) : Cyclic l given := by
  intro i inside
  rw [← cyclic i (by rw [List.length_append]; omega),List.getElem?_append_left inside]

/-- The counter that goes back to zero at the end of the list. -/
theorem succ_mod (k n : Nat) (some : 0 < n) : (k + 1) % n = if n ≤ k % n + 1 then 0 else k % n + 1 := by
  have below := Nat.mod_lt k some
  rw [← Nat.mod_add_mod]
  split
  · have full : k % n + 1 = n := by omega
    rw [full,Nat.mod_self]
  · exact Nat.mod_eq_of_lt (by omega)

variable [DecidableEq α]

/-- How often an element was handed out is how often its position came up. -/
theorem Cyclic.count (cyclic : Cyclic l given) (distinct : l.Nodup) (inside : j < l.length) :
    given.count l[j] = Nat.count (· ≡ j [MOD l.length]) given.length := by
  induction given using List.reverseRecOn with
  | nil => simp
  | append_singleton given a ih =>
    have last := cyclic given.length (by simp)
    have below := Nat.mod_lt given.length (Nat.zero_lt_of_lt inside)
    rw [List.getElem?_concat_length,List.getElem?_eq_getElem below,Option.some.injEq] at last
    have here : a = l[j] ↔ given.length ≡ j [MOD l.length] := by
      rw [last,distinct.getElem_inj_iff,Nat.ModEq,Nat.mod_eq_of_lt inside]
    rw [List.count_append,ih cyclic.of_append,List.length_append,List.length_singleton,
      Nat.count_succ,List.count_singleton]
    simp only [beq_iff_eq,here]

theorem Cyclic.balanced (cyclic : Cyclic l given) (distinct : l.Nodup) (first : a ∈ l) (second : b ∈ l) :
    given.count a ≤ given.count b + 1 := by
  obtain ⟨i,inside,rfl⟩ := List.mem_iff_getElem.mp first
  obtain ⟨j,inside',rfl⟩ := List.mem_iff_getElem.mp second
  have some : 0 < l.length := Nat.zero_lt_of_lt inside
  rw [cyclic.count distinct inside,cyclic.count distinct inside',Nat.count_modEq_card _ some,
    Nat.count_modEq_card _ some]
  split <;> split <;> omega

end RoundRobin
