import Mathlib

/-! Fields that are assigned values, one assignment after the other. The last assignment of a field decides
its value, and a program whose steps make assignments decides every field that way. -/

namespace Assignments

variable {φ : Type*} [DecidableEq φ] {ν : φ → Type*}

/-- The fields after the assignments, in order. -/
def assignAll (c : (f : φ) → ν f) (as : List (Sigma ν)) : (f : φ) → ν f :=
  as.foldl (fun c a => Function.update c a.1 a.2) c

/-- What the assignments make of a field, if any concerns it. -/
def decided (as : List (Sigma ν)) (f : φ) : Option (ν f) := as.reverse.dlookup f

theorem assignAll_append (c : (f : φ) → ν f) (as bs : List (Sigma ν)) :
    assignAll c (as ++ bs) = assignAll (assignAll c as) bs := List.foldl_append

theorem decided_append (as bs : List (Sigma ν)) (f : φ) :
    decided (as ++ bs) f = (decided bs f).or (decided as f) := by
  unfold decided
  rw [List.reverse_append, List.dlookup_append]

/-- Whoever decides a field is one of the assignments. -/
theorem mem_of_decided {as : List (Sigma ν)} {f : φ} {v : ν f} (h : decided as f = some v) :
    ⟨f, v⟩ ∈ as :=
  List.mem_reverse.mp (List.of_mem_dlookup h)

/-- The last assignment of a field decides. -/
theorem assignAll_apply (c : (f : φ) → ν f) (as : List (Sigma ν)) (f : φ) :
    assignAll c as f = (decided as f).getD (c f) := by
  induction as using List.reverseRecOn with
  | nil => rfl
  | append_singleton as a ih =>
      obtain ⟨g, v⟩ := a
      have hlast : assignAll c (as ++ [⟨g, v⟩]) = Function.update (assignAll c as) g v :=
        assignAll_append c as [⟨g, v⟩]
      rw [hlast, decided_append]
      by_cases hg : f = g
      · subst hg
        rw [Function.update_self]
        exact congrArg (fun o => (o.or (decided as f)).getD (c f)) (List.dlookup_cons_eq [] f v).symm
      · rw [Function.update_of_ne hg, ih]
        have hnone : decided [⟨g, v⟩] f = none := List.dlookup_cons_ne [] ⟨g, v⟩ hg
        rw [hnone, Option.none_or]

/-- What a program is told of the fields, one step after the other. -/
theorem get_foldlM {σ ι ε : Type*} (get : σ → (f : φ) → ν f) {step : σ → ι → Except ε σ}
    {told : ι → List (Sigma ν)}
    (hstep : ∀ s x s', step s x = .ok s' → get s' = assignAll (get s) (told x)) {s s' : σ} {xs : List ι}
    (h : xs.foldlM step s = .ok s') : get s' = assignAll (get s) (xs.flatMap told) := by
  induction xs generalizing s with
  | nil =>
      cases h
      rfl
  | cons x xs ih =>
      rw [List.foldlM_cons] at h
      cases hx : step s x with
      | error e =>
          rw [hx] at h
          cases h
      | ok t =>
          rw [hx] at h
          calc
            get s' = assignAll (get t) (xs.flatMap told) := ih h
            _ = assignAll (assignAll (get s) (told x)) (xs.flatMap told) := by rw [hstep s x t hx]
            _ = assignAll (get s) ((x :: xs).flatMap told) := (assignAll_append ..).symm

end Assignments
