import Peripherals.Word
import Mathlib.Tactic.Common

/-! # Interleavings

A sequence interleaves what several producers gave if its elements can be
assigned to the producers so that everyone finds its own elements, all of them
and in their order. -/

namespace Peripherals

variable {ι α : Type} [DecidableEq ι]

/-- Every element has an owner, and the elements of an owner are exactly what it produced. -/
def Interleaves (produced : ι → List α) (out : List α) : Prop :=
  ∃ owned : List (ι × α), owned.map (·.2) = out ∧
    ∀ i, (owned.filter (·.1 = i)).map (·.2) = produced i

namespace Interleaves

variable {produced produced' : ι → List α} {out : List α}

/-- Nobody produced anything. -/
theorem nil (nothing : ∀ i, produced i = []) : Interleaves produced [] :=
  ⟨[], rfl, fun i => (nothing i).symm⟩

/-- One producer gave some more elements. -/
theorem append (interleaves : Interleaves produced out) {i : ι} {more : List α}
    (own : produced' i = produced i ++ more) (others : ∀ j, j ≠ i → produced' j = produced j) :
    Interleaves produced' (out ++ more) := by
  obtain ⟨owned, rfl, owners⟩ := interleaves
  have given : (more.map fun a => (i, a)).map (·.2) = more := by
    rw [List.map_map]
    exact List.map_id more
  refine ⟨owned ++ more.map fun a => (i, a), by rw [List.map_append, given], fun j => ?_⟩
  rw [List.filter_append, List.map_append, owners]
  by_cases same : j = i
  · subst same
    have all : (more.map fun a => (j, a)).filter (·.1 = j) = more.map fun a => (j, a) := by
      simp [List.filter_eq_self]
    rw [all, given, own]
  · have none_owned : (more.map fun a => (i, a)).filter (·.1 = j) = [] := by
      simp [List.filter_eq_nil_iff, Ne.symm same]
    rw [none_owned, others j same]
    exact List.append_nil _

/-- One producer gave one more element. -/
theorem snoc (interleaves : Interleaves produced out) {i : ι} {a : α}
    (own : produced' i = produced i ++ [a]) (others : ∀ j, j ≠ i → produced' j = produced j) :
    Interleaves produced' (out ++ [a]) :=
  interleaves.append own others

/-- Nothing that matters changed. -/
theorem of_eq (interleaves : Interleaves produced out) (same : ∀ i, produced' i = produced i) :
    Interleaves produced' out := by
  obtain ⟨owned, all, owners⟩ := interleaves
  exact ⟨owned, all, fun i => (owners i).trans (same i).symm⟩

end Interleaves

end Peripherals
