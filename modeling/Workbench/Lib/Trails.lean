import Workbench.Lib.ReadCommitted

/-!
# What committed transactions have recorded

A state has a list of entries, to which the statements of transactions add. If each way in which a
transaction can commit adds the entries of its result, then the state has, in every run, the entries of
the transactions that have committed and no others, however the transactions interleave. What each way of
committing makes true of the result is true of every result.
-/

set_option autoImplicit false

namespace Workbench.Lib

section

variable {Db Key : Type} {R : Rows Db Key} {Label Err α E : Type} (obs : Db → List E)

/-- A transaction that has added `sofar` will have added the entries of its result when it commits, and
this result satisfies `Q`. -/
def Tx.Records (total : α → List E) (Q : α → Prop) : Tx R Label Err α → List E → Prop
  | .done (.ok a), sofar => sofar = total a ∧ Q a
  | .done (.error _), _ => True
  | .stmt s next, sofar =>
    ∀ found view b, s.result found view = .ok b →
      ∃ new, (∀ db, obs (s.change found view db) = new ++ obs db) ∧
        (next b).Records total Q (new ++ sofar)

/-- A transaction on its way has added what it has to add up to here. -/
def Proc.Records (total : α → List E) (Q : α → Prop) (p : Proc R Label Err α) : Prop :=
  match p.phase with
  | .ready tx =>
    ∃ sofar, (∀ db, obs (p.write db) = sofar ++ obs db) ∧ tx.Records obs total Q sofar
  | .locking s next _ _ =>
    ∃ sofar, (∀ db, obs (p.write db) = sofar ++ obs db) ∧ (Tx.stmt s next).Records obs total Q sofar
  | .finished _ => True

variable {obs} {total : α → List E} {Q : α → Prop}

theorem Tx.records_done {β : Type} {r : Except Err β} {f : β → Tx R Label Err α} {sofar : List E}
    (h : ∀ b, r = .ok b → (f b).Records obs total Q sofar) :
    (Tx.done r >>= f).Records obs total Q sofar := by
  cases r with
  | ok b => exact h b rfl
  | error e => trivial

theorem Tx.records_perform {β : Type} {s : Statement R Label Err β} {f : β → Tx R Label Err α}
    {sofar : List E}
    (h : ∀ found view b, s.result found view = .ok b →
      ∃ new, (∀ db, obs (s.change found view db) = new ++ obs db) ∧
        (f b).Records obs total Q (new ++ sofar)) :
    (Tx.perform s >>= f).Records obs total Q sofar := h

/-- A transaction whose result is dressed. -/
theorem Tx.records_map {β : Type} {g : β → α} {t : Tx R Label Err β} {sofar : List E}
    (h : t.Records obs (fun b => total (g b)) (fun b => Q (g b)) sofar) :
    (t >>= fun b => pure (g b)).Records obs total Q sofar := by
  induction t generalizing sofar with
  | done r =>
    cases r with
    | ok b => exact h
    | error e => trivial
  | stmt s next ih =>
    intro found view b hresult
    obtain ⟨new, hchange, hnext⟩ := h found view b hresult
    exact ⟨new, hchange, ih b hnext⟩

namespace Proc

variable {busy : Key → Prop} {db db' : Db} {p p' : Proc R Label Err α}

/-- A transaction that takes a step has not ended. -/
theorem Step.not_finished (h : p.Step busy db db' p') : ¬ p.isFinished := by
  rintro ⟨result, hphase⟩
  cases h with
  | fail hnot => exact hnot ⟨result, hphase⟩
  | _ => cases hphase

/-- A step adds nothing to the committed state, or it is a commit and adds the entries of its result. -/
theorem Step.records (hstep : p.Step busy db db' p') (h : p.Records obs total Q) :
    p'.Records obs total Q ∧
      ((obs db' = obs db ∧ ∀ a, p'.phase ≠ .finished (some (.ok a))) ∨
        ∃ a, p'.phase = .finished (some (.ok a)) ∧ obs db' = total a ++ obs db ∧ Q a) := by
  cases hstep with
  | begin =>
    exact ⟨h, Or.inl ⟨rfl, fun a => nofun⟩⟩
  | lock _ _ => exact ⟨h, Or.inl ⟨rfl, fun a => nofun⟩⟩
  | skip _ => exact ⟨h, Or.inl ⟨rfl, fun a => nofun⟩⟩
  | exec _ hresult =>
    -- the statement adds to what its transaction has added already
    obtain ⟨sofar, hwrite, htx⟩ := h
    obtain ⟨new, hchange, hnext⟩ := htx _ _ _ hresult
    refine ⟨⟨new ++ sofar, fun x => ?_, hnext⟩, Or.inl ⟨rfl, fun a => nofun⟩⟩
    rw [hchange, hwrite, List.append_assoc]
  | refuse _ => exact ⟨trivial, Or.inl ⟨rfl, fun a => nofun⟩⟩
  | commit =>
    obtain ⟨sofar, hwrite, htx⟩ := h
    -- behind the last statement this is all that the result has to leave
    obtain ⟨hsofar, hQ⟩ := htx
    refine ⟨trivial, Or.inr ⟨_, rfl, ?_, hQ⟩⟩
    rw [hwrite, hsofar]
  | rollback => exact ⟨trivial, Or.inl ⟨rfl, fun a => nofun⟩⟩
  | fail _ => exact ⟨trivial, Or.inl ⟨rfl, fun a => nofun⟩⟩

end Proc

namespace System

variable {ι : Type} [DecidableEq ι] {totals : ι → α → List E} {Qs : ι → α → Prop}

/-- The committed transactions of a state with their results, and what is there besides their entries. -/
structure Recorded (obs : Db → List E) (totals : ι → α → List E) (Qs : ι → α → Prop) (old : List E)
    (σ : System R Label Err α ι) (committed : List (ι × α)) : Prop where
  nodup : (committed.map Prod.fst).Nodup
  mem : ∀ i a, (i, a) ∈ committed ↔ (σ.procs i).phase = .finished (some (.ok a))
  entries : (obs σ.committed).Perm (committed.flatMap (fun c => totals c.1 c.2) ++ old)
  results : ∀ i a, (i, a) ∈ committed → Qs i a
  procs : ∀ i, (σ.procs i).Records obs (totals i) (Qs i)

theorem StepBy.recorded {i : ι} {σ σ' : System R Label Err α ι} {old : List E}
    {committed : List (ι × α)} (hstep : StepBy i σ σ') (h : Recorded obs totals Qs old σ committed) :
    ∃ committed', Recorded obs totals Qs old σ' committed' := by
  obtain ⟨hproc⟩ := hstep
  rename_i db p
  obtain ⟨hrecords, hcase⟩ := hproc.records (h.procs i)
  -- a transaction that takes a step has not committed before
  have hnew : ∀ a, (i, a) ∉ committed := fun a hmem => hproc.not_finished ⟨_, (h.mem i a).1 hmem⟩
  have hprocs : ∀ j, ((⟨db, Function.update σ.procs i p⟩ : System R Label Err α ι).procs j).Records obs
      (totals j) (Qs j) := by
    intro j
    by_cases hj : j = i
    · subst hj
      rw [procs_self]
      exact hrecords
    · rw [procs_of_ne hj]
      exact h.procs j
  rcases hcase with ⟨hsame, hnot⟩ | ⟨a, hphase, hobs, hQ⟩
  · -- no commit: the same transactions have committed
    refine ⟨committed, h.nodup, fun j a => ?_, ?_, h.results, hprocs⟩
    · by_cases hj : j = i
      · subst hj
        rw [procs_self]
        exact iff_of_false (hnew a) (hnot a)
      · rw [procs_of_ne hj]
        exact h.mem j a
    · rw [hsame]
      exact h.entries
  · -- the commit of `i`, whose entries come first
    refine ⟨(i, a) :: committed, ?_, fun j b => ?_, ?_, fun j b hmem => ?_, hprocs⟩
    · rw [List.map_cons, List.nodup_cons]
      refine ⟨fun hmem => ?_, h.nodup⟩
      obtain ⟨⟨j, b⟩, hcommitted, rfl⟩ := List.mem_map.1 hmem
      exact hnew b hcommitted
    · by_cases hj : j = i
      · subst hj
        rw [procs_self, hphase, List.mem_cons]
        constructor
        · rintro (heq | hmem)
          · cases heq
            rfl
          · exact absurd hmem (hnew b)
        · rintro heq
          cases heq
          exact Or.inl rfl
      · rw [procs_of_ne hj, List.mem_cons, ← h.mem j b]
        apply or_iff_right
        intro heq
        cases heq
        exact hj rfl
    · rw [List.flatMap_cons, List.append_assoc]
      show (obs db).Perm _
      rw [hobs]
      exact h.entries.append_left _
    · rcases List.mem_cons.1 hmem with heq | hmem
      · cases heq
        exact hQ
      · exact h.results j b hmem

/-- In every run the state has the entries of the committed transactions besides those of the start. -/
theorem Run.recorded {db : Db} {txs : ι → Tx R Label Err α}
    (hrecords : ∀ i, (txs i).Records obs (totals i) (Qs i) [])
    {cond : ι → System R Label Err α ι → System R Label Err α ι → Prop} {σ : System R Label Err α ι}
    (hrun : Run cond (init db txs) σ) : ∃ committed, Recorded obs totals Qs (obs db) σ committed := by
  induction hrun with
  | refl =>
    refine ⟨[], List.nodup_nil, fun i a => iff_of_false List.not_mem_nil nofun, List.Perm.refl _,
      fun i a hmem => absurd hmem List.not_mem_nil, ?_⟩
    intro i
    exact ⟨[], fun _ => rfl, hrecords i⟩
  | tail _ hlast ih =>
    obtain ⟨i, hstep, -⟩ := hlast
    obtain ⟨committed, hrecorded⟩ := ih
    exact hstep.recorded hrecorded

end System

end

end Workbench.Lib
