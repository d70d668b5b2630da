/-
Runs of a machine whose steps are named by actions.

`step s a` is the state after the action `a`, or `none` where `a` cannot
be taken in `s`. A condition on the steps of a run is a predicate on the
state before the step and the action; `Meets` says that every step of a
run meets it.

A history variable is threaded beside the state: `trace` is its value at
the end of a run, and the induction rule `exec_invariant` is over both.
`outputs` is what the steps of a run put out.
-/
import Mathlib.Logic.Relation

namespace Lib

section Machine

variable {σ α γ : Type*} (step : σ → α → Option σ)

/-- The state after a run of actions. -/
def exec : σ → List α → Option σ
  | s, [] => some s
  | s, a :: as =>
    match step s a with
    | none => none
    | some t => exec t as

/-- Every step of the run meets the condition. -/
def Meets (cond : σ → α → Prop) : σ → List α → Prop
  | _, [] => True
  | s, a :: as =>
    cond s a ∧
      match step s a with
      | none => True
      | some t => Meets cond t as

/-- A history variable after a run of actions. -/
def trace (upd : σ → α → γ → γ) : σ → γ → List α → γ
  | _, g, [] => g
  | s, g, a :: as =>
    match step s a with
    | none => g
    | some t => trace upd t (upd s a g) as

/-- What the steps of a run put out. -/
def outputs {ω : Type*} (out : σ → α → List ω) : σ → List α → List ω
  | _, [] => []
  | s, a :: as =>
    out s a ++
      match step s a with
      | none => []
      | some t => outputs out t as

instance Meets.decidable (cond : σ → α → Prop) [∀ s a, Decidable (cond s a)] :
    ∀ (s : σ) (as : List α), Decidable (Meets step cond s as)
  | _, [] => isTrue trivial
  | s, a :: as =>
    match h : step s a with
    | none => decidable_of_iff (cond s a) (by simp [Meets, h])
    | some t =>
      have := Meets.decidable cond t as
      decidable_of_iff (cond s a ∧ Meets step cond t as) (by simp [Meets, h])

variable {step}

theorem exec_cons_iff {s t : σ} {a : α} {as : List α} :
    exec step s (a :: as) = some t ↔ ∃ u, step s a = some u ∧ exec step u as = some t := by
  rw [exec]
  cases step s a <;> simp

theorem outputs_cons {ω : Type*} {out : σ → α → List ω} {s t : σ} {a : α}
    (h : step s a = some t) (as : List α) :
    outputs step out s (a :: as) = out s a ++ outputs step out t as := by
  rw [outputs, h]

theorem exec_append_iff {s t : σ} {as bs : List α} :
    exec step s (as ++ bs) = some t ↔ ∃ u, exec step s as = some u ∧ exec step u bs = some t := by
  induction as generalizing s with
  | nil => simp [exec]
  | cons a as ih =>
    rw [List.cons_append, exec_cons_iff]
    constructor
    · rintro ⟨v, hv, hrest⟩
      obtain ⟨u, hu, hbs⟩ := ih.1 hrest
      exact ⟨u, exec_cons_iff.2 ⟨v, hv, hu⟩, hbs⟩
    · rintro ⟨u, hu, hbs⟩
      obtain ⟨v, hv, hrest⟩ := exec_cons_iff.1 hu
      exact ⟨v, hv, ih.2 ⟨u, hrest, hbs⟩⟩

/-- Steps of one action make a run of it. -/
theorem exec_replicate {s t : σ} {a : α}
    (h : Relation.ReflTransGen (fun s t => step s a = some t) s t) :
    ∃ n, exec step s (List.replicate n a) = some t := by
  induction h using Relation.ReflTransGen.head_induction_on with
  | refl => exact ⟨0, rfl⟩
  | head hstep _ ih =>
    obtain ⟨n, hn⟩ := ih
    exact ⟨n + 1, exec_cons_iff.2 ⟨_, hstep, hn⟩⟩

/-- A condition on the actions alone. -/
theorem meets_of_forall {p : α → Prop} {as : List α}
    (h : ∀ a ∈ as, p a) (s : σ) : Meets step (fun _ a => p a) s as := by
  induction as generalizing s with
  | nil => trivial
  | cons a as ih =>
    refine ⟨h a List.mem_cons_self, ?_⟩
    cases step s a with
    | none => trivial
    | some t => exact ih (fun b hb => h b (List.mem_cons_of_mem _ hb)) t

theorem Meets.and {cond cond' : σ → α → Prop} {s : σ} {as : List α}
    (h : Meets step cond s as) (h' : Meets step cond' s as) :
    Meets step (fun s a => cond s a ∧ cond' s a) s as := by
  induction as generalizing s with
  | nil => trivial
  | cons a as ih =>
    unfold Meets at h h' ⊢
    refine ⟨⟨h.1, h'.1⟩, ?_⟩
    cases hstep : step s a with
    | none => trivial
    | some t =>
      rw [hstep] at h h'
      exact ih h.2 h'.2

/-- Two conditions that agree where an invariant holds agree on runs, if
the steps that meet one of them keep the invariant. -/
theorem meets_iff {cond p q : σ → α → Prop} {I : σ → Prop}
    (agree : ∀ {s a}, I s → cond s a → (p s a ↔ q s a))
    (keep : ∀ {s a t}, I s → cond s a → q s a → step s a = some t → I t)
    {s : σ} {as : List α} (h : I s) (hmeets : Meets step cond s as) :
    Meets step p s as ↔ Meets step q s as := by
  induction as generalizing s with
  | nil => exact Iff.rfl
  | cons a as ih =>
    unfold Meets at hmeets ⊢
    obtain ⟨hcond, hrest⟩ := hmeets
    rw [agree h hcond]
    refine and_congr_right fun hq => ?_
    cases hstep : step s a with
    | none => exact Iff.rfl
    | some t =>
      rw [hstep] at hrest
      exact ih (keep h hcond hq hstep) hrest

/-- What holds at the start and is kept by every step that meets the
condition holds at the end of every run that meets it. -/
theorem exec_invariant {cond : σ → α → Prop} {f : σ → α → γ → γ} {I : σ → γ → Prop}
    (keep : ∀ {s a t g}, I s g → cond s a → step s a = some t → I t (f s a g))
    {s t : σ} {g : γ} {as : List α} (h : I s g)
    (hmeets : Meets step cond s as) (hexec : exec step s as = some t) :
    I t (trace step f s g as) := by
  induction as generalizing s g with
  | nil =>
    cases hexec
    exact h
  | cons a as ih =>
    unfold Meets at hmeets
    unfold exec at hexec
    unfold trace
    cases hstep : step s a with
    | none =>
      rw [hstep] at hexec
      cases hexec
    | some u =>
      rw [hstep] at hmeets hexec
      exact ih (keep h hmeets.1 hstep) hmeets.2 hexec

/-- The rule without a history variable. -/
theorem exec_keeps {cond : σ → α → Prop} {I : σ → Prop}
    (keep : ∀ {s a t}, I s → cond s a → step s a = some t → I t) {s t : σ} {as : List α} (h : I s)
    (hmeets : Meets step cond s as) (hexec : exec step s as = some t) :
    I t :=
  exec_invariant (f := fun _ _ (u : Unit) => u) (I := fun s _ => I s) keep (g := ()) h hmeets hexec

end Machine

end Lib
