import Mathlib.Data.List.Basic
/-!
Lists without some of their repetitions: what is dropped is there already, so whoever goes by what
comes up first finds the same.
-/
namespace RelGraph

variable {α β : Type} {x : α} {seen seen' as bs cs as' bs' : List α}

/-- Whether a list is another without some elements that come up before them, or have been seen
before the list. -/
inductive Thins {α : Type} : List α → List α → List α → Prop
  | nil {seen : List α} : Thins seen [] []
  | keep {seen as bs : List α} {x : α} (h : Thins (x :: seen) as bs) :
      Thins seen (x :: as) (x :: bs)
  | drop {seen as bs : List α} {x : α} (hx : x ∈ seen) (h : Thins seen as bs) :
      Thins seen as (x :: bs)

namespace Thins

theorem mono (h : Thins seen as bs) (hsub : seen ⊆ seen') : Thins seen' as bs := by
  induction h generalizing seen' with
  | nil => exact .nil
  | keep _ ih => exact .keep (ih (List.cons_subset_cons _ hsub))
  | drop hx _ ih => exact .drop (hsub hx) (ih hsub)

theorem refl (seen as : List α) : Thins seen as as := by
  induction as generalizing seen with
  | nil => exact .nil
  | cons a as ih => exact .keep (ih _)

theorem of_subset (h : bs ⊆ seen) : Thins seen [] bs := by
  induction bs with
  | nil => exact .nil
  | cons b bs ih =>
    obtain ⟨hb, hbs⟩ := List.cons_subset.mp h
    exact .drop hb (ih hbs)

theorem append (h : Thins seen as bs) (h' : Thins (as ++ seen) as' bs') :
    Thins seen (as ++ as') (bs ++ bs') := by
  induction h with
  | nil => exact h'
  | @keep seen as bs x _ ih =>
    exact .keep (ih (h'.mono fun y hy => by simpa [or_left_comm] using hy))
  | drop hx _ ih => exact .drop hx (ih h')

/-- What is dropped has been seen or is kept. -/
theorem subset (h : Thins seen as bs) : bs ⊆ as ++ seen := by
  induction h with
  | nil => exact List.nil_subset _
  | @keep seen as bs x _ ih =>
    refine List.cons_subset.mpr ⟨by simp, fun y hy => ?_⟩
    simpa [or_left_comm] using ih hy
  | drop hx _ ih => exact List.cons_subset.mpr ⟨List.mem_append_right _ hx, ih⟩

theorem sublist (h : Thins seen as bs) : as.Sublist bs := by
  induction h with
  | nil => exact .slnil
  | keep _ ih => exact ih.cons_cons _
  | drop _ _ ih => exact ih.cons _

theorem trans (h : Thins seen as bs) (h' : Thins seen bs cs) : Thins seen as cs := by
  induction h' generalizing as with
  | nil => exact h
  | @keep seen bs cs x _ ih =>
    cases h with
    | keep h => exact .keep (ih h)
    | drop hx h =>
      refine .drop hx ((ih (h.mono (List.subset_cons_self _ _))).mono ?_)
      exact List.cons_subset.mpr ⟨hx, List.Subset.refl _⟩
  | drop hx _ ih => exact .drop hx (ih h)

theorem flatMap (h : Thins seen as bs) (f : α → List β) :
    Thins (seen.flatMap f) (as.flatMap f) (bs.flatMap f) := by
  induction h with
  | nil => exact .nil
  | keep _ ih =>
    simp only [List.flatMap_cons] at ih ⊢
    exact (refl _ _).append ih
  | @drop seen as bs x hx _ ih =>
    rw [List.flatMap_cons]
    exact (of_subset fun y hy => List.mem_flatMap.mpr ⟨x, hx, hy⟩).append ih

theorem filter (h : Thins seen as bs) (p : α → Bool) :
    Thins (seen.filter p) (as.filter p) (bs.filter p) := by
  induction h with
  | nil => exact .nil
  | @keep seen as bs x _ ih =>
    by_cases hx : p x
    · rw [List.filter_cons_of_pos hx] at ih
      rw [List.filter_cons_of_pos hx, List.filter_cons_of_pos hx]
      exact ih.keep
    · simpa [hx] using ih
  | @drop seen as bs x hmem _ ih =>
    by_cases hx : p x
    · simpa [hx] using ih.drop (List.mem_filter.mpr ⟨hmem, hx⟩)
    · simpa [hx] using ih

theorem head?_eq (h : Thins [] as bs) : as.head? = bs.head? := by
  cases h with
  | nil | keep => rfl
  | drop hx => cases hx

end Thins
end RelGraph
