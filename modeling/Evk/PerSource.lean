import Mathlib

/-! Sequences with several sources. Of what the sources gave, some is taken, and what one
source gave is taken in the order in which it was given; between sources there is no order. -/

namespace PerSource

variable {ι α : Type*} [DecidableEq ι] {given taken front back : List (ι × α)} {i : ι} {e : ι × α} {a : α}

def part (i : ι) (l : List (ι × α)) : List (ι × α) := l.filter (·.1 = i)

def Ordered (given taken : List (ι × α)) : Prop := ∀ i, (part i taken).Sublist (part i given)

namespace Ordered

theorem nil : Ordered given [] := fun _ => List.nil_sublist _

theorem drop (ordered : Ordered given taken) (fewer : front.Sublist taken) : Ordered given front :=
  fun i => (fewer.filter _).trans (ordered i)

theorem give (ordered : Ordered given taken) (e : ι × α) : Ordered (given ++ [e]) taken := by
  intro i
  apply (ordered i).trans
  simp [part]

theorem push (ordered : Ordered given taken) (e : ι × α) : Ordered (given ++ [e]) (taken ++ [e]) := by
  intro i
  simp only [part,List.filter_append]
  exact (ordered i).append_right _

/-- What is given last may be taken before what other sources gave. -/
theorem insert (ordered : Ordered given (front ++ back)) (others : ∀ e ∈ back, e.1 ≠ i) (a : α) :
    Ordered (given ++ [(i,a)]) (front ++ (i,a) :: back) := by
  intro j
  have before := ordered j
  by_cases own : i = j
  · subst own
    have none : part i back = [] := List.filter_eq_nil_iff.mpr fun e among => by simpa using others e among
    simp only [part] at none before ⊢
    simp only [List.filter_append,List.filter_cons,none,decide_true,if_true,List.filter_nil,List.append_nil] at before ⊢
    exact before.append_right _
  · simpa [part,own] using before

/-- Nothing is taken more often than it was given. -/
theorem count_le [DecidableEq α] (ordered : Ordered given taken) (e : ι × α) : taken.count e ≤ given.count e := by
  have own (l : List (ι × α)) : (part e.1 l).count e = l.count e := List.count_filter (by simp)
  rw [← own taken,← own given]
  exact (ordered e.1).count_le e

end Ordered
end PerSource
