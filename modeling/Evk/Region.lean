import Mathlib

/-! Contiguous regions of a flat store. A `slice` reads a region, `store` overwrites
one; every fact below is about where two regions lie relative to each other. -/
namespace Region

variable {α : Type _}

def slice (mem : List α) (start count : Nat) : List α := (mem.drop start).take count

def store (mem : List α) (start : Nat) (data : List α) : List α :=
  mem.take start ++ data ++ mem.drop (start + data.length)

@[simp] theorem slice_zero (mem : List α) (start : Nat) : slice mem start 0 = [] := by
  simp [slice]

theorem length_slice (mem : List α) (start count : Nat) (inside : start + count ≤ mem.length) :
    (slice mem start count).length = count := by
  simp only [slice,List.length_take,List.length_drop]
  omega

@[simp] theorem length_store (mem : List α) (start : Nat) (data : List α)
    (inside : start + data.length ≤ mem.length) : (store mem start data).length = mem.length := by
  simp only [store,List.length_append,List.length_take,List.length_drop]
  omega

theorem slice_add (mem : List α) (start first second : Nat) :
    slice mem start (first + second) = slice mem start first ++ slice mem (start + first) second := by
  simp only [slice,List.take_add,List.drop_drop]

theorem slice_take (mem : List α) (start count n : Nat) :
    (slice mem start count).take n = slice mem start (min n count) := by
  simp only [slice,List.take_take]

theorem slice_drop (mem : List α) (start count n : Nat) :
    (slice mem start count).drop n = slice mem (start + n) (count - n) := by
  simp only [slice,List.drop_take,List.drop_drop]

theorem slice_store_same (mem : List α) (start : Nat) (data : List α)
    (inside : start ≤ mem.length) : slice (store mem start data) start data.length = data := by
  have front : (mem.take start).length = start := by simp [inside]
  simp only [slice,store,List.append_assoc]
  rw [List.drop_append_of_le_length (by omega),List.drop_of_length_le (by omega)]
  simp

theorem slice_store_before (mem : List α) (start : Nat) (data : List α) (first count : Nat)
    (inside : start ≤ mem.length) (before : first + count ≤ start) :
    slice (store mem start data) first count = slice mem first count := by
  have front : (mem.take start).length = start := by simp [inside]
  simp only [slice,store,List.append_assoc]
  rw [List.drop_append_of_le_length (by omega),List.take_append_of_le_length
    (by simp only [List.length_drop,front]; omega),List.drop_take,List.take_take]
  congr 1
  omega

theorem slice_store_after (mem : List α) (start : Nat) (data : List α) (first count : Nat)
    (inside : start + data.length ≤ mem.length) (after : start + data.length ≤ first) :
    slice (store mem start data) first count = slice mem first count := by
  have front : (mem.take start ++ data).length = start + data.length := by
    simp only [List.length_append,List.length_take]; omega
  simp only [slice,store]
  rw [List.drop_append,List.drop_of_length_le (by omega),List.nil_append,List.drop_drop,front]
  congr 2
  omega

theorem getElem?_slice (mem : List α) (start count i : Nat) (bound : i < count) :
    (slice mem start count)[i]? = mem[start + i]? := by
  simp only [slice,List.getElem?_take_of_lt bound,List.getElem?_drop]

/-- Two places that hold the same data in every memory are the same place. -/
theorem same_place {x y : α} (distinct : x ≠ y) (first : p + count ≤ n) (second : q + count ≤ n)
    (agree : ∀ mem : List α, mem.length = n → slice mem p count = slice mem q count) : count = 0 ∨ p = q := by
  by_contra differ
  obtain ⟨nonempty,apart⟩ := not_or.mp differ
  have heads := congrArg (·[0]?) (agree ((List.replicate n x).set p y) (by simp))
  simp only [getElem?_slice _ _ _ 0 (Nat.pos_of_ne_zero nonempty),Nat.add_zero] at heads
  have marked : ((List.replicate n x).set p y)[p]? = some y :=
    List.getElem?_set_self (by rw [List.length_replicate]; omega)
  have plain : ((List.replicate n x).set p y)[q]? = some x := by
    rw [List.getElem?_set_ne apart,List.getElem?_replicate_of_lt (by omega)]
  rw [marked,plain] at heads
  exact distinct (Option.some.inj heads).symm

end Region
