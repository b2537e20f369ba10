import Mathlib.Logic.Relation

/-!
# Runs of a machine whose steps meet a condition

A machine takes one event after the other. `Runs step cond` relates the first and the last state of a
run in which every event met the condition in the state it found; what one such step preserves, every
such run preserves.
-/

set_option autoImplicit false

namespace Workbench.Lib

universe u v

variable {S : Type u} {E : Type v}

/-- The runs of a machine from which each event is taken under a condition. -/
def Runs (step : S → E → S) (cond : S → E → Prop) : S → S → Prop :=
  Relation.ReflTransGen fun s t => ∃ e, cond s e ∧ t = step s e

namespace Runs

variable {step : S → E → S} {cond : S → E → Prop}

theorem refl (s : S) : Runs step cond s s := Relation.ReflTransGen.refl

theorem tail {s t : S} (h : Runs step cond s t) {e : E} (he : cond t e) :
    Runs step cond s (step t e) :=
  Relation.ReflTransGen.tail h ⟨e, he, rfl⟩

theorem trans {s t u : S} (h : Runs step cond s t) (h' : Runs step cond t u) : Runs step cond s u :=
  Relation.ReflTransGen.trans h h'

theorem mono {cond' : S → E → Prop} (himp : ∀ s e, cond s e → cond' s e) {s t : S}
    (h : Runs step cond s t) : Runs step cond' s t := by
  induction h with
  | refl => exact refl s
  | tail _ hlast ih =>
    obtain ⟨e, he, rfl⟩ := hlast
    exact ih.tail (himp _ e he)

/-- The invariant rule. -/
theorem invariant {P : S → Prop} (hstep : ∀ s e, cond s e → P s → P (step s e)) {s t : S}
    (h : Runs step cond s t) (hs : P s) : P t := by
  induction h with
  | refl => exact hs
  | tail _ hlast ih =>
    obtain ⟨e, he, rfl⟩ := hlast
    exact hstep _ e he ih

/-- Every event of a list meets the condition in the state it finds. -/
def Meets (step : S → E → S) (cond : S → E → Prop) : S → List E → Prop
  | _, [] => True
  | s, e :: rest => cond s e ∧ Meets step cond (step s e) rest

instance decidableMeets (step : S → E → S) (cond : S → E → Prop) [∀ s e, Decidable (cond s e)] :
    ∀ s events, Decidable (Meets step cond s events)
  | _, [] => inferInstanceAs (Decidable True)
  | s, e :: rest =>
    have : Decidable (Meets step cond (step s e) rest) := decidableMeets step cond (step s e) rest
    inferInstanceAs (Decidable (cond s e ∧ Meets step cond (step s e) rest))

/-- A list of events that meet the condition is a run. -/
theorem of_meets (events : List E) :
    ∀ {s : S}, Meets step cond s events → Runs step cond s (events.foldl step s) := by
  induction events with
  | nil =>
    intro s _
    exact refl s
  | cons e rest ih =>
    rintro s ⟨he, hrest⟩
    exact Relation.ReflTransGen.head ⟨e, he, rfl⟩ (ih hrest)

/-- A condition that says of each step whether it keeps an invariant says of a list of events whether the
invariant holds behind each of them. -/
theorem meets_iff_always {P : S → Prop} (hstep : ∀ s e, P s → (P (step s e) ↔ cond s e))
    (events : List E) : ∀ {s : S}, P s →
    (Meets step cond s events ↔ ∀ front, front <+: events → P (front.foldl step s)) := by
  induction events with
  | nil =>
    intro s hs
    simpa [Meets] using hs
  | cons e rest ih =>
    intro s hs
    rw [Meets, ← hstep s e hs]
    constructor
    · rintro ⟨hfirst, hrest⟩ front hfront
      cases front with
      | nil => exact hs
      | cons e' front =>
        obtain ⟨rfl, hbehind⟩ := List.cons_prefix_cons.1 hfront
        exact (ih hfirst).1 hrest front hbehind
    · intro halways
      have hfirst : P (step s e) := halways [e] (List.cons_prefix_cons.2 ⟨rfl, List.nil_prefix⟩)
      refine ⟨hfirst, (ih hfirst).2 fun front hfront => ?_⟩
      exact halways (e :: front) (List.cons_prefix_cons.2 ⟨rfl, hfront⟩)

end Runs

/-- A run keeps a property, or goes through a first step that does not. -/
theorem kept_or_lost {R : S → S → Prop} {P : S → Prop} {s t : S} (hrun : Relation.ReflTransGen R s t)
    (hs : P s) :
    P t ∨ ∃ u v, Relation.ReflTransGen R s u ∧ P u ∧ R u v ∧ ¬ P v ∧ Relation.ReflTransGen R v t := by
  induction hrun with
  | refl => exact Or.inl hs
  | @tail u v hfront hlast ih =>
    rcases ih with hu | ⟨u₁, v₁, hbefore, hu₁, hstep, hv₁, hbehind⟩
    · by_cases hv : P v
      · exact Or.inl hv
      · exact Or.inr ⟨u, v, hfront, hu, hlast, hv, Relation.ReflTransGen.refl⟩
    · exact Or.inr ⟨u₁, v₁, hbefore, hu₁, hstep, hv₁, hbehind.tail hlast⟩

end Workbench.Lib
