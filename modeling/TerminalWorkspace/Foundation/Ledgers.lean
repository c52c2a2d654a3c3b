import TerminalWorkspace.Foundation.Runs

/-! Systems that keep account of what was there: a thing that goes leaves a mark, marks may be shed
by rules of their own, and some actions start the account anew. -/
namespace Ledgers
open Runs

section Accounts
variable {σ α ι : Type*} (step : σ → α → σ) (live marked : σ → ι → Prop)
  (sheds : σ → α → ι → Prop) (resets : α → Prop)

/-- The thing was live at a point of the run after which the account was not started anew. -/
def WasLive (s : σ) (actions : List α) (x : ι) : Prop :=
  ∃ first rest, actions = first ++ rest ∧ (∀ a ∈ rest, ¬ resets a) ∧ live (run step s first) x

/-- A step of the run shed the mark of the thing, which has not been live since. -/
def ShedSince (s : σ) (actions : List α) (x : ι) : Prop :=
  ∃ first a rest, actions = first ++ a :: rest ∧ sheds (run step s first) a x ∧
    ∀ more, more <+: rest → ¬ live (run step s (first ++ a :: more)) x

/-- What is live or marked is so after the step, unless the step sheds its mark. -/
def KeepsAccount (s : σ) (a : α) : Prop :=
  ∀ x, live s x ∨ marked s x → live (step s a) x ∨ marked (step s a) x ∨ sheds s a x

variable {step live marked sheds resets} {s : σ} {actions : List α} {x : ι}

theorem ShedSince.cons {a : α} (h : ShedSince step live sheds (step s a) actions x) :
    ShedSince step live sheds s (a :: actions) x := by
  obtain ⟨first, b, rest, rfl, hsheds, hnever⟩ := h
  exact ⟨a :: first, b, rest, rfl, hsheds, hnever⟩

theorem ShedSince.append (first : List α)
    (h : ShedSince step live sheds (run step s first) actions x) :
    ShedSince step live sheds s (first ++ actions) x := by
  induction first generalizing s with
  | nil => exact h
  | cons a first ih => exact (ih h).cons

/-- In a run whose steps all keep account, what was live or marked at the start is so at the end,
or its mark was shed since. The induction is on the length of the run, as the thing may be live
again after its mark was shed. -/
theorem accounted_of_keeps (n : ℕ) {s : σ} {actions : List α} (hlength : actions.length ≤ n)
    (hkeeps : ∀ first a, first ++ [a] <+: actions →
      KeepsAccount step live marked sheds (run step s first) a)
    (hx : live s x ∨ marked s x) :
    live (run step s actions) x ∨ marked (run step s actions) x ∨
      ShedSince step live sheds s actions x := by
  induction n generalizing s actions with
  | zero =>
    obtain rfl := List.length_eq_zero_iff.mp (Nat.le_zero.mp hlength)
    exact hx.imp_right .inl
  | succ n ih =>
    cases actions with
    | nil => exact hx.imp_right .inl
    | cons a actions =>
      have hrest : actions.length ≤ n := by
        rw [List.length_cons] at hlength
        omega
      have hlater (more : List α) {tail : List α} (htail : actions = more ++ tail) :
          ∀ first b, first ++ [b] <+: tail →
            KeepsAccount step live marked sheds (run step (run step s (a :: more)) first) b := by
        rintro first b ⟨last, rfl⟩
        rw [← run_append]
        refine hkeeps (a :: more ++ first) b ⟨last, ?_⟩
        simp [htail]
      rcases hkeeps [] a (List.prefix_append [a] actions) x hx with hlive | hmarked | hshed
      · exact (ih hrest (hlater [] rfl) (.inl hlive)).imp_right (.imp_right .cons)
      · exact (ih hrest (hlater [] rfl) (.inr hmarked)).imp_right (.imp_right .cons)
      · by_cases hagain : ∃ more, more <+: actions ∧ live (run step s (a :: more)) x
        · obtain ⟨more, ⟨tail, rfl⟩, hlive⟩ := hagain
          have hshort : tail.length ≤ n := by
            rw [List.length_append] at hrest
            omega
          have hend := ih hshort (hlater more rfl) (.inl hlive)
          have hrun : run step (run step s (a :: more)) tail =
              run step s (a :: (more ++ tail)) := (run_append s (a :: more) tail).symm
          rw [hrun] at hend
          exact hend.imp_right (.imp_right (ShedSince.append (a :: more)))
        · refine .inr (.inr ⟨[], a, actions, rfl, hshed, fun more hmore hlive => ?_⟩)
          exact hagain ⟨more, hmore, hlive⟩

/-- What was live since the account was last started anew is live, marked, or shed. -/
theorem accounted_run {Inv : σ → Prop} {allowed : σ → α → Prop}
    (hstep : ∀ s a, Inv s → allowed s a → Inv (step s a))
    (hkeeps : ∀ s a, Inv s → allowed s a → ¬ resets a → KeepsAccount step live marked sheds s a)
    (hinit : Inv s) (h : Allowed step allowed s actions)
    (hx : WasLive step live resets s actions x) :
    live (run step s actions) x ∨ marked (run step s actions) x ∨
      ShedSince step live sheds s actions x := by
  obtain ⟨first, rest, rfl, hrest, hlive⟩ := hx
  have hrestkeeps : ∀ more a, more ++ [a] <+: rest →
      KeepsAccount step live marked sheds (run step (run step s first) more) a := by
    rintro more a ⟨last, rfl⟩
    have hprefix : first ++ more ++ [a] <+: first ++ (more ++ [a] ++ last) := ⟨last, by simp⟩
    rw [← run_append]
    refine hkeeps _ a ?_ (allowed_iff.mp h _ a hprefix) (hrest a (by simp))
    exact run_invariant hstep hinit (h.of_prefix ((List.prefix_append _ [a]).trans hprefix))
  have hend := accounted_of_keeps rest.length (Nat.le_refl _) hrestkeeps (.inl hlive)
  rw [← run_append] at hend
  exact hend.imp_right (.imp_right (.append first))

end Accounts
end Ledgers
