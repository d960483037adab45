import Mathlib.Data.List.Infix

/-! Work in rounds. A worker takes up what its agenda lists, one item after the other.
Others leave calls with it, and the last item of every round puts these on the agenda, so
they are made in the order in which they were left. A round begins when the agenda is
empty, so what was left before one has been called when the worker begins the next but
one. -/

inductive Agenda.Item (J : Type u) (F : Type v) where
  | job (j : J)
  /-- Puts what is pending on the agenda. -/
  | swap
  | call (f : F)

structure Agenda (J : Type u) (F : Type v) where
  todo : List (Agenda.Item J F)
  pending : List F

namespace Agenda

open scoped List

variable {J : Type u} {F : Type v}

def Item.isSwap : Item J F → Bool
  | .swap => true
  | .job _ | .call _ => false

def Item.call? : Item J F → Option F
  | .call f => some f
  | .job _ | .swap => none

/-- One piece of work, and the calls it makes. An item may put others before the rest. -/
inductive Step (inner : Item J F → Prop) : Agenda J F → List F → Agenda J F → Prop where
  | job : Step inner ⟨.job j :: rest,waiting⟩ [] ⟨rest,waiting⟩
  | call : Step inner ⟨.call f :: rest,waiting⟩ [f] ⟨rest,waiting⟩
  | swap : Step inner ⟨.swap :: rest,waiting⟩ [] ⟨rest ++ waiting.map .call,[]⟩
  | nest : (∀ item ∈ more, inner item) → Step inner ⟨items,waiting⟩ [] ⟨more ++ items,waiting⟩
  | push : Step inner ⟨items,waiting⟩ [] ⟨items,waiting ++ [f]⟩

def begin (jobs : List J) (waiting : List F) : Agenda J F := ⟨jobs.map .job ++ [.swap],waiting⟩

/-- A run that begins so many rounds and makes these calls. -/
inductive Runs (inner : Item J F → Prop) (a : Agenda J F) : Nat → List F → Agenda J F → Prop where
  | refl : Runs inner a 0 [] a
  | step : Runs inner a n log b → Step inner b more c → Runs inner a n (log ++ more) c
  | begin : Runs inner a n log ⟨[],waiting⟩ → Runs inner a (n + 1) log (begin jobs waiting)

variable {inner : Item J F → Prop} {a b c : Agenda J F}

theorem Runs.one (step : Step inner a log b) : Runs inner a 0 log b := .step .refl step

theorem Runs.trans (first : Runs inner a n log b) (later : Runs inner b m log' c) :
    Runs inner a (n + m) (log ++ log') c := by
  induction later with
  | refl => rwa [List.append_nil]
  | step _ step ih =>
    rw [← List.append_assoc]
    exact .step ih step
  | begin _ ih => exact .begin ih

/-- Nothing comes after the swap. -/
def Placed (a : Agenda J F) : Prop := ∀ item ∈ a.todo.dropLast, item.isSwap = false

theorem begin_placed (jobs : List J) (waiting : List F) : (begin jobs waiting).Placed := by
  intro item among
  rw [begin,List.dropLast_concat] at among
  obtain ⟨j,_,rfl⟩ := List.mem_map.mp among
  rfl

theorem calls_placed (calls : List F) (waiting : List F) : Placed (⟨calls.map .call,waiting⟩ : Agenda J F) := by
  intro item among
  obtain ⟨f,_,rfl⟩ := List.mem_map.mp (List.mem_of_mem_dropLast among)
  rfl

theorem Placed.tail (placed : Placed ⟨item :: rest,waiting⟩) : Placed ⟨rest,waiting⟩ := by
  intro other among
  apply placed
  cases rest with
  | nil => cases among
  | cons => exact List.mem_cons_of_mem _ among

theorem Placed.swap (placed : Placed (J := J) ⟨.swap :: rest,waiting⟩) : rest = [] := by
  cases rest with
  | nil => rfl
  | cons => cases placed .swap List.mem_cons_self

theorem Step.placed (plain : ¬inner .swap) (step : Step inner a log b) (placed : a.Placed) : b.Placed := by
  cases step with
  | job | call => exact placed.tail
  | push => exact placed
  | swap =>
    obtain rfl := placed.swap
    exact calls_placed _ _
  | nest nested =>
    rename_i more items waiting
    intro item among
    have old : item ∈ more ∨ item ∈ items.dropLast := by
      cases items with
      | nil =>
        rw [List.append_nil] at among
        exact .inl (List.mem_of_mem_dropLast among)
      | cons head rest =>
        rw [List.dropLast_append_of_ne_nil (List.cons_ne_nil head rest)] at among
        exact List.mem_append.mp among
    rcases old with new | old
    · cases item with
      | swap => exact absurd (nested _ new) plain
      | job | call => rfl
    · exact placed item old

def listed (a : Agenda J F) : List F := a.todo.filterMap Item.call?

@[simp] theorem listed_nil : listed (⟨[],waiting⟩ : Agenda J F) = [] := rfl
@[simp] theorem listed_job : listed ⟨.job j :: rest,waiting⟩ = listed ⟨rest,waiting⟩ := rfl
@[simp] theorem listed_swap : listed (⟨.swap :: rest,waiting⟩ : Agenda J F) = listed ⟨rest,waiting⟩ := rfl
@[simp] theorem listed_call : listed (⟨.call f :: rest,waiting⟩ : Agenda J F) = f :: listed ⟨rest,waiting⟩ := rfl

@[simp] theorem listed_append (more items : List (Item J F)) :
    listed ⟨more ++ items,waiting⟩ = listed ⟨more,waiting⟩ ++ listed ⟨items,waiting⟩ := List.filterMap_append

@[simp] theorem listed_jobs (jobs : List J) : listed (⟨jobs.map .job,waiting⟩ : Agenda J F) = [] := by
  induction jobs with
  | nil => rfl
  | cons _ _ ih => exact ih

@[simp] theorem listed_calls (calls : List F) : listed (⟨calls.map .call,waiting⟩ : Agenda J F) = calls := by
  induction calls with
  | nil => rfl
  | cons f _ ih => exact congrArg (f :: ·) ih

/-- The calls still to come in the round: those on the agenda, and those that are pending if
the swap is still ahead. -/
def owed (a : Agenda J F) : List F := a.listed ++ if a.todo.any Item.isSwap then a.pending else []

def left (a : Agenda J F) : List F := a.listed ++ a.pending

theorem owed_begin (jobs : List J) (waiting : List F) : (begin jobs waiting).owed = waiting := by
  simp [owed,begin,Item.isSwap]

/-- A piece of work makes the first of the calls still to come, or adds to them. -/
theorem Step.owed (step : Step inner a log b) (placed : a.Placed) : a.owed <+ log ++ b.owed := by
  cases step with
  | job | call => simp [Agenda.owed,Item.isSwap]
  | swap =>
    obtain rfl := placed.swap
    simp [Agenda.owed,Item.isSwap]
  | nest =>
    rename_i more items waiting _
    simp only [Agenda.owed,listed_append,List.nil_append,List.append_assoc]
    apply List.sublist_append_of_sublist_right
    apply List.Sublist.append_left
    by_cases ahead : items.any Item.isSwap = true <;> simp [ahead]
  | push =>
    rename_i items waiting f
    apply List.Sublist.append_left
    by_cases ahead : items.any Item.isSwap = true <;> simp [ahead]

theorem Step.left (step : Step inner a log b) (placed : a.Placed) : a.left <+ log ++ b.left := by
  cases step with
  | job | call => simp [Agenda.left]
  | swap =>
    obtain rfl := placed.swap
    simp [Agenda.left]
  | nest => simp [Agenda.left]
  | push =>
    simp only [Agenda.left,List.nil_append]
    apply List.Sublist.append_left
    exact List.sublist_append_left _ _

/-- Calls that no item makes on its own are made in their order, before any that come later. -/
theorem Step.in_order {p : F → Bool} (queued : ∀ f, inner (.call f) → p f = false)
    (step : Step inner a log b) (placed : a.Placed) :
    a.left.filter p <+: (log ++ b.left).filter p := by
  cases step with
  | job | call => simp [Agenda.left]
  | swap =>
    obtain rfl := placed.swap
    simp [Agenda.left]
  | nest nested =>
    rename_i more items waiting
    have none : (listed ⟨more,waiting⟩).filter p = [] := by
      refine List.filter_eq_nil_iff.mpr fun f among => ?_
      obtain ⟨item,member,made⟩ := List.mem_filterMap.mp among
      cases item with
      | call g =>
        obtain rfl : g = f := Option.some.inj made
        simp [queued g (nested _ member)]
      | job | swap => cases made
    simp [Agenda.left,none]
  | push =>
    simp only [Agenda.left,List.nil_append,← List.append_assoc]
    exact (List.prefix_append _ _).filter p

theorem Runs.placed (plain : ¬inner .swap) (runs : Runs inner a n log b) (placed : a.Placed) : b.Placed := by
  induction runs with
  | refl => exact placed
  | step _ step ih => exact step.placed plain ih
  | begin => exact begin_placed _ _

theorem Runs.in_order {p : F → Bool} (plain : ¬inner .swap) (queued : ∀ f, inner (.call f) → p f = false)
    (runs : Runs inner a n log b) (placed : a.Placed) : a.left.filter p <+: (log ++ b.left).filter p := by
  induction runs with
  | refl => exact List.prefix_rfl
  | step before step ih =>
    rename_i n log b more c
    have next := step.in_order queued (before.placed plain placed)
    calc a.left.filter p
      _ <+: (log ++ b.left).filter p := ih
      _ = log.filter p ++ b.left.filter p := List.filter_append ..
      _ <+: log.filter p ++ (more ++ c.left).filter p := (List.prefix_append_right_inj _).mpr next
      _ = (log ++ more ++ c.left).filter p := by simp
  | begin _ ih => simpa [Agenda.left,Agenda.begin] using ih

/-- What a run can still owe of the calls of its first round. -/
def due : Nat → Agenda J F → List F
  | 0, b => b.owed
  | _ + 1, _ => []

/-- And of all calls that were to be made when it began. -/
def outstanding : Nat → Agenda J F → List F
  | 0, b => b.left
  | 1, b => b.owed
  | _ + 2, _ => []

theorem Runs.due (plain : ¬inner .swap) (runs : Runs inner a n log b) (placed : a.Placed) :
    a.owed <+ log ++ due n b := by
  induction runs with
  | refl => exact .refl _
  | step before step ih =>
    rename_i n log b more c
    have next : Agenda.due n b <+ more ++ Agenda.due n c := by
      cases n with
      | zero => exact step.owed (before.placed plain placed)
      | succ => exact List.nil_sublist _
    rw [List.append_assoc]
    exact ih.trans (next.append_left log)
  | begin before ih =>
    rename_i n log waiting jobs
    have none : Agenda.due n (⟨[],waiting⟩ : Agenda J F) = [] := by cases n <;> rfl
    rwa [none] at ih

theorem Runs.outstanding (plain : ¬inner .swap) (runs : Runs inner a n log b) (placed : a.Placed) :
    a.left <+ log ++ outstanding n b := by
  induction runs with
  | refl => exact .refl _
  | step before step ih =>
    rename_i n log b more c
    have next : Agenda.outstanding n b <+ more ++ Agenda.outstanding n c := by
      match n with
      | 0 => exact step.left (before.placed plain placed)
      | 1 => exact step.owed (before.placed plain placed)
      | _ + 2 => exact List.nil_sublist _
    rw [List.append_assoc]
    exact ih.trans (next.append_left log)
  | begin before ih =>
    rename_i n log waiting jobs
    have next : Agenda.outstanding n (⟨[],waiting⟩ : Agenda J F) = Agenda.outstanding (n + 1)
        (Agenda.begin jobs waiting) := by
      match n with
      | 0 => exact (owed_begin jobs waiting).symm
      | 1 => rfl
      | _ + 2 => rfl
    rwa [← next]

/-- When the next round begins, the calls that were to come in this one have been made. -/
theorem Runs.owed_called (plain : ¬inner .swap) (runs : Runs inner a n log b) (placed : a.Placed) (rounds : 1 ≤ n) :
    a.owed <+ log := by
  obtain ⟨k,rfl⟩ := Nat.exists_eq_add_of_le' rounds
  have called := runs.due plain placed
  rwa [Agenda.due,List.append_nil] at called

/-- And when the one after it begins, so have all that were pending. -/
theorem Runs.left_called (plain : ¬inner .swap) (runs : Runs inner a n log b) (placed : a.Placed) (rounds : 2 ≤ n) :
    a.left <+ log := by
  obtain ⟨k,rfl⟩ := Nat.exists_eq_add_of_le' rounds
  have called := runs.outstanding plain placed
  rwa [Agenda.outstanding,List.append_nil] at called

end Agenda
