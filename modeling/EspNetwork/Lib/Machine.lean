import Mathlib

/-!
# Labelled step machines

A machine is an initial state and a partial step function on labels. A *guard*
`G` restricts the steps a run may take (an assumption on the environment, or the
condition under which a property is claimed).

* `Reach.invariant`: what the initial state has and every guarded step preserves
  holds in every state a guarded run reaches.
* `Run.map`: a step-by-step projection carries runs of one machine to runs of
  another.
* `run_congr`: only what a guard says of reachable states matters.
* `withHistory`: a machine with a record of its run beside it, which no step reads.
* `Run.response`: a run that is long enough, in the steps that count, gets to its goal.
* `Run.of_exec`: a run can be checked by evaluation.
-/

namespace Lts

/-- A machine over states `S` and labels `L`. -/
structure Machine (S L : Type*) where
  init : S
  step : S → L → Option S

/-- No restriction on the steps of a run. -/
def anyStep {S L : Type*} : S → L → Prop := fun _ _ => True

namespace Machine

variable {S L : Type*} (M : Machine S L)

/-- Runs from `s` whose every step meets the guard `G`. -/
inductive Run (G : S → L → Prop) (s : S) : List L → S → Prop
  | nil : Run G s [] s
  | snoc {ls t l u} : Run G s ls t → G t l → M.step t l = some u → Run G s (ls ++ [l]) u

/-- The states reached from the initial one by steps that meet `G`. -/
def Reach (G : S → L → Prop) (s : S) : Prop := ∃ ls, M.Run G M.init ls s

/-- Run a list of labels, checking the guard before each step. -/
def exec (G : S → L → Prop) [∀ s l, Decidable (G s l)] : S → List L → Option S
  | s, [] => some s
  | s, l :: ls => if G s l then (M.step s l).bind fun t => exec G t ls else none

/-- The machine with a history beside it: each step notes something in it, and none reads it. -/
def withHistory {H : Type*} (h : H) (note : S → L → H → H) : Machine (S × H) L :=
  ⟨(M.init, h), fun x l => (M.step x.1 l).map fun t => (t, note x.1 l x.2)⟩

variable {M} {G G' : S → L → Prop} {s t u : S} {l : L} {ls ks : List L}

/-- A step of the machine with a record is one of the machine, and notes it. -/
theorem withHistory_step {H : Type*} {h : H} {note : S → L → H → H} {x y : S × H}
    (hs : (M.withHistory h note).step x l = some y) : M.step x.1 l = some y.1 ∧ y.2 = note x.1 l x.2 := by
  obtain ⟨t, ht, rfl⟩ := Option.map_eq_some_iff.1 hs
  exact ⟨ht, rfl⟩

/-- A guard may be weakened. -/
theorem Run.mono (hG : ∀ s l, G s l → G' s l) (h : M.Run G s ls t) : M.Run G' s ls t := by
  induction h with
  | nil => exact .nil
  | snoc _ hg hs ih => exact .snoc ih (hG _ _ hg) hs

/-- Runs compose. -/
theorem Run.append (h : M.Run G s ls t) (h' : M.Run G t ks u) : M.Run G s (ls ++ ks) u := by
  induction h' with
  | nil => simpa using h
  | snoc _ hg hs ih => rw [← List.append_assoc]; exact .snoc ih hg hs

theorem Run.single (hg : G s l) (hs : M.step s l = some t) : M.Run G s [l] t :=
  Run.snoc Run.nil hg hs

/-- A run may be begun with one more step. -/
theorem Run.cons (hg : G s l) (hs : M.step s l = some t) (h : M.Run G t ls u) :
    M.Run G s (l :: ls) u :=
  (Run.single hg hs).append h

/-- **Invariants along a run.** -/
theorem Run.invariant {P : S → Prop} (h : M.Run G s ls t) (h0 : P s)
    (hstep : ∀ s l t, P s → G s l → M.step s l = some t → P t) : P t := by
  induction h with
  | nil => exact h0
  | snoc _ hg hs ih => exact hstep _ _ _ ih hg hs

/-- **Bounded response.** Up to the goal `Q` every step keeps `I`, and the steps that `c`
counts use up the measure; the goal stays reached. -/
theorem Run.response {I Q : S → Prop} {μ : S → ℕ} {c : L → Bool} (h : M.Run G s ls t) (h0 : Q s ∨ I s)
    (hstep : ∀ s l t, I s → G s l → M.step s l = some t → Q t ∨ I t ∧ μ t + (if c l then 1 else 0) ≤ μ s)
    (hstay : ∀ s l t, Q s → G s l → M.step s l = some t → Q t) (hlong : μ s < ls.countP c) : Q t := by
  have hrun : Q t ∨ I t ∧ μ t + ls.countP c ≤ μ s := by
    clear hlong
    induction h with
    | nil => exact h0.imp_right fun hI => ⟨hI, le_rfl⟩
    | snoc _ hg hs ih =>
      rcases ih with hQ | ⟨hI, hle⟩
      · exact .inl (hstay _ _ _ hQ hg hs)
      · rcases hstep _ _ _ hI hg hs with hQ | ⟨hI, hdrop⟩
        · exact .inl hQ
        · refine .inr ⟨hI, ?_⟩
          rw [List.countP_append, List.countP_singleton]
          omega
  rcases hrun with hQ | ⟨-, hle⟩
  · exact hQ
  · omega

/-- A run followed along `f` is a run of the image machine, if every step is. -/
theorem Run.map {S' L' : Type*} {N : Machine S' L'} {H : S' → L' → Prop} (f : S → S')
    (hstep : ∀ s l t, G s l → M.step s l = some t → ∃ ks, N.Run H (f s) ks (f t))
    (h : M.Run G s ls t) : ∃ ks, N.Run H (f s) ks (f t) := by
  induction h with
  | nil => exact ⟨[], .nil⟩
  | snoc _ hg hs ih =>
    obtain ⟨k1, h1⟩ := ih
    obtain ⟨k2, h2⟩ := hstep _ _ _ hg hs
    exact ⟨k1 ++ k2, h1.append h2⟩

/-- What is executed is a run. -/
theorem Run.of_exec [∀ s l, Decidable (G s l)] :
    ∀ {ls : List L} {s t : S}, M.exec G s ls = some t → M.Run G s ls t
  | [], s, t, h => by simp only [exec, Option.some.injEq] at h; subst h; exact .nil
  | l :: ls, s, t, h => by
    simp only [exec] at h
    split at h
    · rename_i hg
      obtain ⟨u, hu, ht⟩ := Option.bind_eq_some_iff.1 h
      exact .cons hg hu (Run.of_exec ht)
    · cases h

theorem Reach.init : M.Reach G M.init := ⟨[], .nil⟩

theorem Reach.step (h : M.Reach G s) (hg : G s l) (hs : M.step s l = some t) : M.Reach G t := by
  obtain ⟨ls, h⟩ := h; exact ⟨_, h.snoc hg hs⟩

theorem Reach.run (h : M.Reach G s) (h' : M.Run G s ls t) : M.Reach G t := by
  obtain ⟨ks, h⟩ := h; exact ⟨_, h.append h'⟩

theorem Reach.mono (hG : ∀ s l, G s l → G' s l) (h : M.Reach G s) : M.Reach G' s := by
  obtain ⟨ls, h⟩ := h; exact ⟨ls, h.mono hG⟩

/-- Guards that agree on every reachable state admit the same runs. -/
theorem run_congr (hG : ∀ s l, M.Reach anyStep s → (G s l ↔ G' s l)) : M.Run G M.init ls s ↔ M.Run G' M.init ls s := by
  constructor <;> intro h
  · induction h with
    | nil => exact .nil
    | snoc hr hg hs ih => exact .snoc ih ((hG _ _ ⟨_, hr.mono fun _ _ _ => trivial⟩).1 hg) hs
  · induction h with
    | nil => exact .nil
    | snoc hr hg hs ih => exact .snoc ih ((hG _ _ ⟨_, hr.mono fun _ _ _ => trivial⟩).2 hg) hs

/-- **The invariant rule.** -/
theorem Reach.invariant {P : S → Prop} (h : M.Reach G s) (h0 : P M.init)
    (hstep : ∀ s l t, P s → G s l → M.step s l = some t → P t) : P s := by
  obtain ⟨ls, h⟩ := h; exact h.invariant h0 hstep

/-- A state that satisfies the decidable `p` is reached by evaluating a run. -/
theorem Reach.of_exec [∀ s l, Decidable (G s l)] {p : S → Bool}
    (h : (M.exec G M.init ls).map p = some true) : ∃ s, M.Reach G s ∧ p s = true := by
  obtain ⟨s, hs, hp⟩ := Option.map_eq_some_iff.1 h
  exact ⟨s, ⟨ls, Run.of_exec hs⟩, hp⟩

end Machine

instance {S L : Type*} (s : S) (l : L) : Decidable (anyStep s l) := instDecidableTrue

end Lts
