import Mathlib

/-! Runs of a deterministic step function over a list of inputs, and conditions on every step of a
run. What one step preserves, a run preserves; what every step of a run satisfies can be exchanged
for anything equivalent in the states the run goes through. -/

namespace Runs

variable {σ ι : Type} (step : σ → ι → σ)

/-- The state after the inputs. -/
def run (s : σ) (is : List ι) : σ := is.foldl step s

/-- `P` holds of every state of the run together with the input taken there. -/
def Along (P : σ → ι → Prop) : σ → List ι → Prop
  | _, [] => True
  | s, i :: is => P s i ∧ Along P (step s i) is

@[simp] theorem run_nil (s : σ) : run step s [] = s := rfl

@[simp] theorem run_cons (s : σ) (i : ι) (is : List ι) :
    run step s (i :: is) = run step (step s i) is := rfl

theorem run_append (s : σ) (is js : List ι) :
    run step s (is ++ js) = run step (run step s is) js := List.foldl_append ..

variable {step}

/-- Whether a decidable condition holds along a run can be computed. -/
instance Along.decidable {P : σ → ι → Prop} [h : ∀ s i, Decidable (P s i)] :
    ∀ s is, Decidable (Along step P s is)
  | _, [] => isTrue trivial
  | s, i :: is => @instDecidableAnd _ _ (h s i) (Along.decidable (step s i) is)

theorem Along.append {P : σ → ι → Prop} {s : σ} {is js : List ι} :
    Along step P s (is ++ js) ↔ Along step P s is ∧ Along step P (run step s is) js := by
  induction is generalizing s with
  | nil => simp [Along]
  | cons i is ih => simp [Along, ih, and_assoc]

/-- What holds along a run holds of each of its steps. -/
theorem Along.holds {P : σ → ι → Prop} {s : σ} {is js : List ι} {i : ι}
    (h : Along step P s (is ++ i :: js)) : P (run step s is) i := (Along.append.mp h).2.1

theorem Along.of_split {P : σ → ι → Prop} {s : σ} {is : List ι}
    (h : ∀ before i after, is = before ++ i :: after → P (run step s before) i) :
    Along step P s is := by
  induction is generalizing s with
  | nil => trivial
  | cons i is ih =>
      refine ⟨h [] i is rfl, ih fun before j after heq => ?_⟩
      exact h (i :: before) j after (congrArg (i :: ·) heq)

theorem Along.of_forall {P : σ → ι → Prop} (h : ∀ s i, P s i) (s : σ) (is : List ι) :
    Along step P s is := by
  induction is generalizing s with
  | nil => trivial
  | cons i is ih => exact ⟨h s i, ih _⟩

theorem Along.mono {P Q : σ → ι → Prop} (h : ∀ s i, P s i → Q s i) {s : σ} {is : List ι}
    (hP : Along step P s is) : Along step Q s is := by
  induction is generalizing s with
  | nil => trivial
  | cons i is ih => exact ⟨h s i hP.1, ih hP.2⟩

/-- An invariant that every step under the condition preserves holds at the end of the run. -/
theorem Along.invariant {P : σ → ι → Prop} {Inv : σ → Prop}
    (hstep : ∀ s i, Inv s → P s i → Inv (step s i)) {s : σ} (hs : Inv s) {is : List ι}
    (hP : Along step P s is) : Inv (run step s is) := by
  induction is generalizing s with
  | nil => exact hs
  | cons i is ih => exact ih (hstep s i hs hP.1) hP.2

/-- Under an invariant, what follows from the condition holds of every step. -/
theorem Along.imp {P Q : σ → ι → Prop} {Inv : σ → Prop}
    (hstep : ∀ s i, Inv s → P s i → Inv (step s i) ∧ Q s i) {s : σ} (hs : Inv s) {is : List ι}
    (hP : Along step P s is) : Along step Q s is := by
  induction is generalizing s with
  | nil => trivial
  | cons i is ih => exact ⟨(hstep s i hs hP.1).2, ih (hstep s i hs hP.1).1 hP.2⟩

/-- Two conditions that are equivalent wherever the invariant holds, one of which keeps it, hold
along the same runs. -/
theorem along_iff {P Q : σ → ι → Prop} {Inv : σ → Prop} (hiff : ∀ s i, Inv s → (P s i ↔ Q s i))
    (hstep : ∀ s i, Inv s → P s i → Inv (step s i)) {s : σ} (hs : Inv s) (is : List ι) :
    Along step P s is ↔ Along step Q s is := by
  induction is generalizing s with
  | nil => exact Iff.rfl
  | cons i is ih =>
      constructor
      · rintro ⟨hP, hrest⟩
        exact ⟨(hiff s i hs).mp hP, (ih (hstep s i hs hP)).mp hrest⟩
      · rintro ⟨hQ, hrest⟩
        have hP := (hiff s i hs).mpr hQ
        exact ⟨hP, (ih (hstep s i hs hP)).mpr hrest⟩

end Runs
