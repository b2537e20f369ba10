import Mathlib.Tactic.Basic

/-!
# Programs that send commands to a server

The server of a store executes one command after the other, whoever sends it; a command in `C β` is
answered with a `β`. A client sends its next command when the last one was answered or has failed, and a
failed command may still have been executed.
-/

set_option autoImplicit false

namespace Workbench.Lib

/-- What is left of a program; it goes on without an answer where a command fails. -/
inductive Prog (C : Type → Type) (α : Type) : Type 1 where
  | ret (result : α)
  | call {β : Type} (c : C β) (next : Option β → Prog C α)

/-- What becomes of a command: it is executed and answered, it does not reach the server, or its answer
is lost. -/
inductive Delivery where
  | answered
  | refused
  | lost
  deriving DecidableEq, Repr

section

variable {S : Type} {C : Type → Type} {α β : Type}

/-- The answer that the client gets, and the store behind it. -/
def deliver (exec : ∀ {β : Type}, C β → S → β × S) (d : Delivery) (c : C β) (s : S) :
    Option β × S :=
  match d with
  | .answered => (some (exec c s).1, (exec c s).2)
  | .refused => (none, s)
  | .lost => (none, (exec c s).2)

namespace Prog

/-- The next command of a program. -/
def step (exec : ∀ {β : Type}, C β → S → β × S) (d : Delivery) : Prog C α → S → Prog C α × S
  | .ret result, s => (.ret result, s)
  | .call c next, s => (next (deliver exec d c s).1, (deliver exec d c s).2)

/-- A program that runs alone; the deliveries are used one by one, and what comes behind them is
answered. -/
def run (exec : ∀ {β : Type}, C β → S → β × S) : Prog C α → List Delivery → S → α × S
  | .ret result, _, s => (result, s)
  | .call c next, ds, s =>
    let answer := deliver exec (ds.headD .answered) c s
    (next answer.1).run exec ds.tail answer.2

/-- A program that runs alone against a server that refuses some commands, depending on its state, and answers
the others. -/
def runWhere (takes : ∀ {β : Type}, C β → S → Bool) (exec : ∀ {β : Type}, C β → S → β × S) : Prog C α → S → α × S
  | .ret result, s => (result, s)
  | .call c next, s =>
    let answer := deliver exec (if takes c s then .answered else .refused) c s
    (next answer.1).runWhere takes exec answer.2

theorem runWhere_taken {takes : ∀ {β : Type}, C β → S → Bool} {exec : ∀ {β : Type}, C β → S → β × S} {c : C β}
    {next : Option β → Prog C α} {s : S} (h : takes c s = true) :
    (call c next).runWhere takes exec s = (next (some (exec c s).1)).runWhere takes exec (exec c s).2 := by
  rw [runWhere, h]
  rfl

theorem runWhere_refused {takes : ∀ {β : Type}, C β → S → Bool} {exec : ∀ {β : Type}, C β → S → β × S} {c : C β}
    {next : Option β → Prog C α} {s : S} (h : takes c s = false) :
    (call c next).runWhere takes exec s = (next none).runWhere takes exec s := by
  rw [runWhere, h]
  rfl

/-- Every command that a program can send is one of `P`. -/
def Sends (P : ∀ {β : Type}, C β → Prop) : Prog C α → Prop
  | .ret _ => True
  | .call c next => P c ∧ ∀ answer, (next answer).Sends P

/-- What each of its commands keeps, a run keeps, whatever is delivered. -/
theorem run_invariant {P : ∀ {β : Type}, C β → Prop} {exec : ∀ {β : Type}, C β → S → β × S}
    {I : S → Prop} (hexec : ∀ {β : Type} (c : C β) s, P c → I s → I (exec c s).2) (p : Prog C α) :
    ∀ ds s, p.Sends P → I s → I (p.run exec ds s).2 := by
  induction p with
  | ret result => exact fun _ _ _ hs => hs
  | call c next ih =>
    rintro ds s ⟨hc, hnext⟩ hs
    apply ih
    · exact hnext _
    · cases ds.headD .answered with
      | answered => exact hexec c s hc hs
      | refused => exact hs
      | lost => exact hexec c s hc hs

/-- Every command that a program can send is one of `P`, and every result one of `Q`. -/
def Obeys (P : ∀ {β : Type}, C β → Prop) (Q : α → Prop) : Prog C α → Prop
  | .ret result => Q result
  | .call c next => P c ∧ ∀ answer, (next answer).Obeys P Q

/-- What each of its commands keeps, a run keeps, and it ends with one of the results. -/
theorem Obeys.run {P : ∀ {β : Type}, C β → Prop} {Q : α → Prop} {exec : ∀ {β : Type}, C β → S → β × S}
    {I : S → Prop} (hexec : ∀ {β : Type} (c : C β) s, P c → I s → I (exec c s).2) {p : Prog C α}
    (h : p.Obeys P Q) (ds : List Delivery) (s : S) (hs : I s) :
    Q (p.run exec ds s).1 ∧ I (p.run exec ds s).2 := by
  induction p generalizing ds s with
  | ret result => exact ⟨h, hs⟩
  | call c next ih =>
    apply ih _ (h.2 _)
    cases ds.headD .answered with
    | answered => exact hexec c s h.1 hs
    | refused => exact hs
    | lost => exact hexec c s h.1 hs

end Prog

/-! ## How far a client comes -/

/-- The first `n` commands are answered. -/
def Through (ds : List Delivery) (n : Nat) : Prop := ∀ i < n, ds.getD i .answered = .answered

/-- The command behind the first `n` is executed, and these are answered. -/
def Arrives (ds : List Delivery) (n : Nat) : Prop := Through ds n ∧ ds.getD n .answered ≠ .refused

variable {ds : List Delivery} {n : Nat}

theorem getD_succ_eq_tail (ds : List Delivery) (d : Delivery) (n : Nat) :
    ds.getD (n + 1) d = ds.tail.getD n d := by
  cases ds <;> simp

@[simp]
theorem through_zero : Through ds 0 := fun _ h => absurd h (Nat.not_lt_zero _)

theorem through_succ : Through ds (n + 1) ↔ ds.headD .answered = .answered ∧ Through ds.tail n := by
  constructor
  · intro h
    refine ⟨?_, fun i hi => ?_⟩
    · rw [List.headD_eq_getD]
      exact h 0 (Nat.succ_pos n)
    · rw [← getD_succ_eq_tail]
      exact h (i + 1) (Nat.succ_lt_succ hi)
  · rintro ⟨hhead, htail⟩ i hi
    cases i with
    | zero => rwa [← List.headD_eq_getD]
    | succ i =>
      rw [getD_succ_eq_tail]
      exact htail i (Nat.lt_of_succ_lt_succ hi)

theorem arrives_zero : Arrives ds 0 ↔ ds.headD .answered ≠ .refused := by
  rw [Arrives, ← List.headD_eq_getD]
  exact and_iff_right through_zero

theorem arrives_succ : Arrives ds (n + 1) ↔ ds.headD .answered = .answered ∧ Arrives ds.tail n := by
  rw [Arrives, Arrives, through_succ, getD_succ_eq_tail, and_assoc]

/-- What is executed behind `n + m` commands is executed `m` commands behind the first `n`. -/
theorem arrives_drop {m : Nat} (hthrough : Through ds n) : Arrives (ds.drop n) m ↔ Arrives ds (n + m) := by
  induction n generalizing ds with
  | zero => simp
  | succ n ih =>
    obtain ⟨hhead, htail⟩ := through_succ.1 hthrough
    rw [Nat.succ_add, arrives_succ, ← ih htail, ← List.drop_tail]
    exact (and_iff_right hhead).symm

theorem Arrives.through {m : Nat} (h : Arrives ds m) (hle : n ≤ m) : Through ds n :=
  fun i hi => h.1 i (Nat.lt_of_lt_of_le hi hle)

theorem through_of_arrives {m : Nat} (h : Through ds m) (hlt : n < m) : Arrives ds n := by
  refine ⟨fun i hi => h i (Nat.lt_trans hi hlt), ?_⟩
  rw [h n hlt]
  decide

end

end Workbench.Lib
