import Mathlib.Data.List.Basic

/-
  Runs of a deterministic transition function.

  A run is a list of inputs fed to `step` from a start
  state. `Always` says that a property holds in every state
  the run reaches, `Along` that a relation between state
  and input holds at every step it takes.

  Key definitions include:
    * `Runs.after`
    * `Runs.Always`
    * `Runs.Along`
    * `Runs.total`

  Key theorems include:
    * `Runs.always_of_along`
    * `Runs.always_iff_along`
    * `Runs.after_of_along`
    * `Runs.along_congr`
    * `Runs.along_iff`
    * `Runs.always_iff_prefixes`
    * `Runs.related_of_along`
    * `Runs.meter_after`
-/

------------------------------------------------------------
-- Runs
------------------------------------------------------------

namespace Runs

variable {σ ι : Type}

/- The state a run ends in. -/
def after
    (step : σ → ι → σ)
    (s : σ)
    (inputs : List ι) : σ :=
  inputs.foldl step s

/- The property holds in every state of the run. -/
def Always
    (step : σ → ι → σ)
    (P : σ → Prop) : σ → List ι → Prop
| s, [] => P s
| s, i :: inputs => P s ∧ Always step P (step s i) inputs

/- The relation holds at every step of the run. -/
def Along
    (step : σ → ι → σ)
    (C : σ → ι → Prop) : σ → List ι → Prop
| _, [] => True
| s, i :: inputs => C s i ∧ Along step C (step s i) inputs

variable {step : σ → ι → σ}

@[simp] theorem after_nil (s : σ) :
    after step s [] = s := rfl

@[simp] theorem after_cons
    (s : σ)
    (i : ι)
    (inputs : List ι) :
    after step s (i :: inputs) =
      after step (step s i) inputs := rfl

theorem after_append
    (s : σ)
    (first second : List ι) :
    after step s (first ++ second) =
      after step (after step s first) second :=
  List.foldl_append

/- A property that always holds, holds at the start. -/
theorem Always.start
    {P : σ → Prop}
    {s : σ}
    {inputs : List ι}
    (hAlways : Always step P s inputs) :
    P s := by
  cases inputs with
  | nil => exact hAlways
  | cons i inputs => exact hAlways.1

/- A property that always holds, holds at the end. -/
theorem Always.after
    {P : σ → Prop}
    {s : σ}
    {inputs : List ι}
    (hAlways : Always step P s inputs) :
    P (after step s inputs) := by
  induction inputs generalizing s with
  | nil => exact hAlways
  | cons i inputs ih => exact ih hAlways.2

/- A property always holds if it does after every prefix. -/
theorem always_iff_prefixes
    (step : σ → ι → σ)
    (P : σ → Prop)
    (s : σ)
    (inputs : List ι) :
    Always step P s inputs ↔
      ∀ first, first <+: inputs → P (after step s first) := by
  induction inputs generalizing s with
  | nil =>
      constructor
      · intro hP first hPrefix
        rw [List.prefix_nil.mp hPrefix]
        exact hP
      · intro hAll
        exact hAll [] List.nil_prefix
  | cons i inputs ih =>
      constructor
      · rintro ⟨hP, hRest⟩ first hPrefix
        cases first with
        | nil => exact hP
        | cons j first =>
            rcases List.cons_prefix_cons.mp hPrefix with
              ⟨hHead, hTail⟩
            subst hHead
            exact (ih (step s j)).mp hRest first hTail
      · intro hAll
        refine ⟨hAll [] List.nil_prefix, ?_⟩
        apply (ih (step s i)).mpr
        intro first hPrefix
        have hLonger : i :: first <+: i :: inputs :=
          List.cons_prefix_cons.mpr ⟨rfl, hPrefix⟩
        exact hAll (i :: first) hLonger

/- A weaker property holds wherever a stronger one does. -/
theorem Always.mono
    {P Q : σ → Prop}
    (hImp : ∀ s, P s → Q s)
    {s : σ}
    {inputs : List ι}
    (hAlways : Always step P s inputs) :
    Always step Q s inputs := by
  induction inputs generalizing s with
  | nil => exact hImp s hAlways
  | cons i inputs ih =>
      exact ⟨hImp s hAlways.1, ih hAlways.2⟩

------------------------------------------------------------
-- Invariants
------------------------------------------------------------

/-
  The invariant rule. What holds at the start and is kept
  by every step that meets the side condition holds in
  every state of a run whose steps all meet it.
-/
theorem always_of_along
    {Inv : σ → Prop}
    {C : σ → ι → Prop}
    (hStep : ∀ s i, Inv s → C s i → Inv (step s i))
    {s : σ}
    {inputs : List ι}
    (hStart : Inv s)
    (hAlong : Along step C s inputs) :
    Always step Inv s inputs := by
  induction inputs generalizing s with
  | nil => exact hStart
  | cons i inputs ih =>
      exact ⟨hStart,
        ih (hStep s i hStart hAlong.1) hAlong.2⟩

/- The invariant rule, for the state a run ends in. -/
theorem after_of_along
    {Inv : σ → Prop}
    {C : σ → ι → Prop}
    (hStep : ∀ s i, Inv s → C s i → Inv (step s i))
    {s : σ}
    {inputs : List ι}
    (hStart : Inv s)
    (hAlong : Along step C s inputs) :
    Inv (after step s inputs) :=
  (always_of_along hStep hStart hAlong).after

/-
  The exactness rule. Suppose that, in states that meet an
  invariant and the property, a step keeps the property
  exactly when its side condition holds. Then the property
  holds throughout a run exactly when the side condition
  holds at each of its steps.
-/
theorem always_iff_along
    {Inv P : σ → Prop}
    {Legal C : σ → ι → Prop}
    (hInv : ∀ s i, Inv s → Legal s i → Inv (step s i))
    (hExact :
      ∀ s i, Inv s → Legal s i → P s →
        (P (step s i) ↔ C s i))
    {s : σ}
    {inputs : List ι}
    (hStart : Inv s)
    (hProp : P s)
    (hLegal : Along step Legal s inputs) :
    Always step P s inputs ↔ Along step C s inputs := by
  induction inputs generalizing s with
  | nil => exact ⟨fun _ => trivial, fun _ => hProp⟩
  | cons i inputs ih =>
      have hHead := hExact s i hStart hLegal.1 hProp
      have hNext := hInv s i hStart hLegal.1
      constructor
      · rintro ⟨_, hRest⟩
        have hProp' : P (step s i) := hRest.start
        exact ⟨hHead.mp hProp',
          (ih hNext hProp' hLegal.2).mp hRest⟩
      · rintro ⟨hC, hRest⟩
        have hProp' : P (step s i) := hHead.mpr hC
        exact ⟨hProp,
          (ih hNext hProp' hLegal.2).mpr hRest⟩

/- A relation that always holds, holds along every run. -/
theorem along_of_forall
    {C : σ → ι → Prop}
    (hAll : ∀ s i, C s i)
    (s : σ)
    (inputs : List ι) :
    Along step C s inputs := by
  induction inputs generalizing s with
  | nil => trivial
  | cons i inputs ih => exact ⟨hAll s i, ih (step s i)⟩

/- So does one that holds of every input. -/
theorem along_of_forall_mem
    {C : ι → Prop}
    {inputs : List ι}
    (hAll : ∀ i ∈ inputs, C i)
    (s : σ) :
    Along step (fun _ i => C i) s inputs := by
  induction inputs generalizing s with
  | nil => trivial
  | cons i inputs ih =>
      rw [List.forall_mem_cons] at hAll
      exact ⟨hAll.1, ih hAll.2 (step s i)⟩

/- And one that is an invariant of the steps. -/
theorem along_of_invariant
    {Inv : σ → Prop}
    (hStep : ∀ s i, Inv s → Inv (step s i))
    {s : σ}
    (hStart : Inv s)
    (inputs : List ι) :
    Along step (fun s _ => Inv s) s inputs := by
  induction inputs generalizing s with
  | nil => trivial
  | cons i inputs ih =>
      exact ⟨hStart, ih (hStep s i hStart)⟩

/- The exactness rule for a property that needs no other. -/
theorem always_iff_along_of_exact
    {P : σ → Prop}
    {C : σ → ι → Prop}
    (hExact : ∀ s i, P s → (P (step s i) ↔ C s i))
    {s : σ}
    {inputs : List ι}
    (hProp : P s) :
    Always step P s inputs ↔ Along step C s inputs := by
  have hInv :
      ∀ (s : σ) (i : ι), (fun _ : σ => True) s →
        (fun (_ : σ) (_ : ι) => True) s i →
        (fun _ : σ => True) (step s i) :=
    fun _ _ _ _ => trivial
  exact always_iff_along hInv
    (fun s i _ _ hP => hExact s i hP) trivial hProp
    (along_of_forall (fun _ _ => trivial) s inputs)

/-
  Two relations that agree wherever an invariant holds, hold
  along the same runs.
-/
theorem along_congr
    {Inv : σ → Prop}
    {C D : σ → ι → Prop}
    (hStep : ∀ s i, Inv s → Inv (step s i))
    (hIff : ∀ s i, Inv s → (C s i ↔ D s i))
    {s : σ}
    (hStart : Inv s)
    (inputs : List ι) :
    Along step C s inputs ↔ Along step D s inputs := by
  induction inputs generalizing s with
  | nil => exact Iff.rfl
  | cons i inputs ih =>
      exact and_congr (hIff s i hStart)
        (ih (hStep s i hStart))

/- Relations that agree hold along the same runs. -/
theorem along_iff
    {C D : σ → ι → Prop}
    (hIff : ∀ s i, C s i ↔ D s i)
    (s : σ)
    (inputs : List ι) :
    Along step C s inputs ↔ Along step D s inputs := by
  have hSame : C = D := by
    funext s i
    exact propext (hIff s i)
  rw [hSame]

------------------------------------------------------------
-- Simulation
------------------------------------------------------------

/-
  The simulation rule. Two systems that take the same inputs
  stay related, if each step of the second that meets its
  side condition keeps them related.
-/
theorem related_of_along
    {τ : Type}
    {step' : τ → ι → τ}
    {Rel : σ → τ → Prop}
    {C : τ → ι → Prop}
    (hStep :
      ∀ s t i, Rel s t → C t i → Rel (step s i) (step' t i))
    {s : σ}
    {t : τ}
    {inputs : List ι}
    (hStart : Rel s t)
    (hAlong : Along step' C t inputs) :
    Rel (after step s inputs) (after step' t inputs) := by
  induction inputs generalizing s t with
  | nil => exact hStart
  | cons i inputs ih =>
      exact ih (hStep s t i hStart hAlong.1) hAlong.2

------------------------------------------------------------
-- Totals
------------------------------------------------------------

/- What all steps of a run come to. -/
def total
    (step : σ → ι → σ)
    (amount : σ → ι → Nat) : σ → List ι → Nat
| _, [] => 0
| s, i :: inputs =>
    amount s i + total step amount (step s i) inputs

/-
  The conservation rule. A meter that each step of a run
  raises by one amount and lowers by another is raised and
  lowered by the totals over the whole run.
-/
theorem meter_after
    {meter : σ → Nat}
    {raised lowered : σ → ι → Nat}
    {C : σ → ι → Prop}
    (hStep :
      ∀ s i, C s i →
        meter (step s i) + lowered s i =
          meter s + raised s i)
    {s : σ}
    {inputs : List ι}
    (hAlong : Along step C s inputs) :
    meter (after step s inputs) + total step lowered s inputs =
      meter s + total step raised s inputs := by
  induction inputs generalizing s with
  | nil => rfl
  | cons i inputs ih =>
      have hHead := hStep s i hAlong.1
      have hRest := ih hAlong.2
      rw [after_cons, total, total]
      omega

@[simp] theorem total_zero
    (s : σ)
    (inputs : List ι) :
    total step (fun _ _ => 0) s inputs = 0 := by
  induction inputs generalizing s with
  | nil => rfl
  | cons i inputs ih => rw [total, ih]

/- Amounts that are added up step by step or at the end. -/
theorem total_add
    (first second : σ → ι → Nat)
    (s : σ)
    (inputs : List ι) :
    total step (fun s i => first s i + second s i) s inputs =
      total step first s inputs +
        total step second s inputs := by
  induction inputs generalizing s with
  | nil => rfl
  | cons i inputs ih =>
      rw [total, total, total, ih]
      omega

theorem total_mul
    (k : Nat)
    (amount : σ → ι → Nat)
    (s : σ)
    (inputs : List ι) :
    total step (fun s i => k * amount s i) s inputs =
      k * total step amount s inputs := by
  induction inputs generalizing s with
  | nil => rfl
  | cons i inputs ih => rw [total, total, ih, Nat.mul_add]

/- Amounts that agree at every step have the same total. -/
theorem total_congr
    {first second : σ → ι → Nat}
    {C : σ → ι → Prop}
    (hSame : ∀ s i, C s i → first s i = second s i)
    {s : σ}
    {inputs : List ι}
    (hAlong : Along step C s inputs) :
    total step first s inputs = total step second s inputs := by
  induction inputs generalizing s with
  | nil => rfl
  | cons i inputs ih =>
      rw [total, total, hSame s i hAlong.1, ih hAlong.2]

end Runs
