import UdjatProcess.Library.Runs

/-
  A list from which inputs drop entries and to which they
  append some.

  Whether an input drops an entry depends on a key of it,
  and what it appends on the keys that are there. After any
  number of inputs the list consists of the old entries that
  all of them kept, and then of those that came later and
  were kept ever since, all in order.

  Key definitions include:
    * `Roster.spared`
    * `Roster.entrants`

  Key theorems include:
    * `Roster.view_after`
-/

namespace Roster

variable {σ ι α κ : Type}

/- Every input keeps entries with the key. -/
def spared
    (keeps : ι → κ → Bool)
    (inputs : List ι)
    (k : κ) : Bool :=
  inputs.all fun i => keeps i k

/- The keys that enter and are kept from then on. -/
def entrants
    (keeps : ι → κ → Bool)
    (enters : List κ → ι → List κ) :
    List κ → List ι → List κ
| _, [] => []
| ks, i :: inputs =>
    (enters ks i).filter (spared keeps inputs) ++
      entrants keeps enters
        (ks.filter (keeps i) ++ enters ks i) inputs

theorem filter_spared_cons
    (keeps : ι → κ → Bool)
    (key : α → κ)
    (i : ι)
    (inputs : List ι)
    (xs : List α) :
    (xs.filter fun x => keeps i (key x)).filter
        (fun x => spared keeps inputs (key x)) =
      xs.filter fun x => spared keeps (i :: inputs) (key x) := by
  rw [List.filter_filter]
  apply List.filter_congr
  intro x _
  exact Bool.and_comm _ _

/-
  The list after a run, if each step keeps and appends what
  it should.
-/
theorem view_after
    {step : σ → ι → σ}
    {C : σ → ι → Prop}
    {view : σ → List α}
    {key : α → κ}
    {keeps : ι → κ → Bool}
    {enters : List κ → ι → List κ}
    (hStep :
      ∀ s i, C s i →
        ∃ added : List α,
          view (step s i) =
            ((view s).filter fun x => keeps i (key x)) ++
              added ∧
          added.map key = enters ((view s).map key) i)
    {s : σ}
    {inputs : List ι}
    (hAlong : Runs.Along step C s inputs) :
    ∃ added : List α,
      view (Runs.after step s inputs) =
        ((view s).filter fun x =>
          spared keeps inputs (key x)) ++ added ∧
      added.map key =
        entrants keeps enters ((view s).map key) inputs := by
  induction inputs generalizing s with
  | nil =>
      refine ⟨[], ?_, rfl⟩
      rw [List.append_nil]
      exact (List.filter_eq_self.mpr fun _ _ => rfl).symm
  | cons i inputs ih =>
      rcases hStep s i hAlong.1 with ⟨first, hView, hFirst⟩
      rcases ih hAlong.2 with ⟨later, hAfter, hLater⟩
      have hKeys :
          (view (step s i)).map key =
            ((view s).map key).filter (keeps i) ++
              enters ((view s).map key) i := by
        rw [hView, List.map_append, hFirst, List.filter_map]
        rfl
      refine
        ⟨(first.filter fun x =>
            spared keeps inputs (key x)) ++ later, ?_, ?_⟩
      · rw [Runs.after_cons, hAfter, hView,
          List.filter_append, filter_spared_cons,
          List.append_assoc]
      · have hKept :
            (first.filter fun x =>
                spared keeps inputs (key x)).map key =
              (enters ((view s).map key) i).filter
                (spared keeps inputs) := by
          rw [← hFirst, List.filter_map]
          rfl
        rw [List.map_append, hKept, hLater, hKeys]
        rfl

end Roster
