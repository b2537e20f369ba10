import Mathlib.Data.Set.Basic
import Workbench.Lib.ReadCommitted

/-!
# Proof outlines of transactions

What a transaction knows while others run is what its locks protect. An outline says what holds when each
statement begins, and from then on (`fact`), and when the transaction commits (`post`); it is checked
against the text of the transaction alone, and holds along every run of a system whose transactions all
have one.
-/

set_option autoImplicit false

namespace Workbench.Lib

section

variable {Db Key : Type} {R : Rows Db Key} {Label Err α : Type}

/-- The rows in `L` are the same in both states, as far as a lock protects them. -/
def Agree (R : Rows Db Key) (L : Set Key) (a b : Db) : Prop := ∀ k ∈ L, R.Keeps k a b

theorem Agree.refl (L : Set Key) (a : Db) : Agree R L a a := fun k _ => R.refl k a

theorem Agree.trans {L : Set Key} {a b c : Db} (h : Agree R L a b) (h' : Agree R L b c) :
    Agree R L a c := fun k hk => R.trans (h k hk) (h' k hk)

theorem Agree.mono {L L' : Set Key} {a b : Db} (h : Agree R L' a b) (hsub : L ⊆ L') :
    Agree R L a b := fun k hk => h k (hsub hk)

/-- What a transaction knows: the statements it has executed, its locks, the state of which it knows the
locked rows, and its writes. -/
structure Local (Label Db Key : Type) where
  trace : List (Label × List Key)
  locks : Set Key
  snap : Db
  write : Db → Db

/-- What a transaction knows behind a statement that found the rows `found` in the state `db`. -/
def Local.behind {β : Type} (x : Local Label Db Key) (s : Statement R Label Err β) (found : List Key)
    (db : Db) : Local Label Db Key :=
  ⟨x.trace ++ [(s.label, found)], {k | k ∈ s.claims ∨ k ∈ x.locks ∨ k ∈ found}, db,
    fun y => s.change found (x.write db) (x.write y)⟩

/-- What an outline says: of the writes that a statement finds when it begins, of the committed state
from then on, and of a commit. -/
structure Notes (Label Key Db : Type) where
  entry : Label → (Db → Db) → Prop
  fact : Label → List (Label × List Key) → Set Key → Db → Prop
  post : List (Label × List Key) → Set Key → Db → (Db → Db) → Prop

/-- What a statement found: the rows of its snapshot but for those that were gone when their turn came. -/
structure Found {β : Type} (s : Statement R Label Err β) (x : Local Label Db Key) (start : Db)
    (found : List Key) (db : Db) : Prop where
  before : Agree R x.locks x.snap start
  after : Agree R x.locks start db
  sound : ∀ k ∈ found, k ∈ s.rows (x.write start)
  complete : ∀ k ∈ s.rows (x.write start), k ∈ found ∨
    ∃ mid, Agree R x.locks start mid ∧ Agree R x.locks mid db ∧ R.present (x.write mid) k = false

theorem Found.agree {β : Type} {s : Statement R Label Err β} {x : Local Label Db Key} {start db : Db}
    {found : List Key} (h : Found s x start found db) : Agree R x.locks x.snap db :=
  h.before.trans h.after

/-! ## Outlines -/

namespace Tx

/-- What an outline says of a statement that begins. -/
def Begins {β : Type} (N : Notes Label Key Db) (s : Statement R Label Err β) (x : Local Label Db Key) :
    Prop :=
  N.entry s.label x.write ∧
    ∀ db, Agree R x.locks x.snap db → N.fact s.label x.trace x.locks db

/-- The outline of a transaction: each statement begins as the notes say, and the result is `Q`. -/
def Wp (N : Notes Label Key Db) :
    Tx R Label Err α → (α → Local Label Db Key → Prop) → Local Label Db Key → Prop
  | .done (.ok a), Q, x => Q a x
  | .done (.error _), _, _ => True
  | .stmt s next, Q, x =>
    Begins N s x ∧
    ∀ start found db b, Found s x start found db → s.result found (x.write db) = .ok b →
      (next b).Wp N Q (x.behind s found db)

variable {N : Notes Label Key Db}

theorem wp_bind {β : Type} (t : Tx R Label Err β) (f : β → Tx R Label Err α)
    (Q : α → Local Label Db Key → Prop) (x : Local Label Db Key) :
    (t >>= f).Wp N Q x ↔ t.Wp N (fun b => (f b).Wp N Q) x := by
  induction t generalizing x with
  | done r => cases r <;> exact Iff.rfl
  | stmt s next ih =>
    apply and_congr Iff.rfl
    refine forall_congr' fun start => forall_congr' fun found => forall_congr' fun db => ?_
    refine forall_congr' fun b => imp_congr Iff.rfl (imp_congr Iff.rfl ?_)
    exact ih b _

/-- One statement. -/
theorem wp_perform {β : Type} (s : Statement R Label Err β) (Q : β → Local Label Db Key → Prop)
    (x : Local Label Db Key) :
    (perform s).Wp N Q x ↔
      Begins N s x ∧
      ∀ start found db b, Found s x start found db → s.result found (x.write db) = .ok b →
        Q b (x.behind s found db) := Iff.rfl

theorem wp_done (r : Except Err α) (Q : α → Local Label Db Key → Prop) (x : Local Label Db Key) :
    (done r : Tx R Label Err α).Wp N Q x ↔ ∀ a, r = .ok a → Q a x := by
  cases r with
  | ok a =>
    constructor
    · rintro h b ⟨⟩
      exact h
    · exact fun h => h a rfl
  | error e =>
    constructor
    · intro _ a h
      cases h
    · exact fun _ => trivial

/-- Every statement of a transaction has the property `P`. -/
def Each (P : {β : Type} → Statement R Label Err β → Prop) : Tx R Label Err α → Prop
  | .done _ => True
  | .stmt s next => P s ∧ ∀ b, (next b).Each P

section

variable {P : {β : Type} → Statement R Label Err β → Prop}

theorem each_perform {β : Type} {s : Statement R Label Err β} (h : P s) : (perform s).Each P :=
  ⟨h, fun _ => trivial⟩

theorem each_bind {β : Type} {t : Tx R Label Err β} {f : β → Tx R Label Err α} (h : t.Each P)
    (hf : ∀ b, (f b).Each P) : (t >>= f).Each P := by
  induction t with
  | done r =>
    cases r with
    | ok b => exact hf b
    | error e => trivial
  | stmt s next ih => exact ⟨h.1, fun c => ih c (h.2 c)⟩

theorem each_forM_of_mem {β : Type} {f : β → Tx R Label Err PUnit} {l : List β}
    (hf : ∀ b ∈ l, (f b).Each P) : (l.forM f).Each P := by
  induction l with
  | nil => trivial
  | cons x l ih =>
    exact each_bind (hf x List.mem_cons_self) fun _ => ih fun b hb => hf b (List.mem_cons_of_mem _ hb)

theorem each_forM {β : Type} {f : β → Tx R Label Err PUnit} (hf : ∀ b, (f b).Each P) (l : List β) :
    (l.forM f).Each P := each_forM_of_mem fun b _ => hf b

theorem Each.mono {P' : {β : Type} → Statement R Label Err β → Prop} {t : Tx R Label Err α} (h : t.Each P)
    (himp : ∀ {β : Type} (s : Statement R Label Err β), P s → P' s) : t.Each P' := by
  induction t with
  | done r => trivial
  | stmt s next ih => exact ⟨himp s h.1, fun b => ih b (h.2 b)⟩

/-- What each statement keeps holds at the end. -/
theorem wp_of_each {I : Local Label Db Key → Prop} {t : Tx R Label Err α}
    {Q : α → Local Label Db Key → Prop} (ht : t.Each P)
    (hstep : ∀ {β : Type} (s : Statement R Label Err β) x, P s → I x → Begins N s x ∧
      ∀ start found db b, Found s x start found db → s.result found (x.write db) = .ok b →
        I (x.behind s found db))
    (hQ : ∀ a y, I y → Q a y) {x : Local Label Db Key} (hx : I x) : t.Wp N Q x := by
  induction t generalizing x with
  | done r => exact (wp_done r Q x).2 fun a _ => hQ a x hx
  | stmt s next ih =>
    refine ⟨(hstep s x ht.1 hx).1, fun start found db b hfound hresult => ?_⟩
    exact ih b (ht.2 b) ((hstep s x ht.1 hx).2 start found db b hfound hresult)

end

end Tx

variable (N : Notes Label Key Db)

/-- What a transaction knows when it commits. -/
def AtCommit (R : Rows Db Key) (x : Local Label Db Key) : Prop :=
  ∀ db, Agree R x.locks x.snap db → N.post x.trace x.locks db x.write

/-- The transaction has an outline that ends as the notes say. -/
def Tx.Outline (t : Tx R Label Err α) (x : Local Label Db Key) : Prop :=
  t.Wp N (fun _ => AtCommit N R) x

/-- The facts of the notes are protected by the locks, and further statements leave them true. -/
def Notes.Stable (R : Rows Db Key) (N : Notes Label Key Db) : Prop :=
  ∀ (l : Label) (trace trace' : List (Label × List Key)) (L L' : Set Key) (a b : Db),
    trace <+: trace' → L ⊆ L' → Agree R L a b → N.fact l trace L a → N.fact l trace' L' b

namespace Proc

def lockSet (p : Proc R Label Err α) : Set Key := {k | k ∈ p.locks}

/-- What is known of the statement on whose rows a transaction waits: the locks `L` it began with, the
state `snap` since which it holds them, and its snapshot `start`. -/
structure Waits {β : Type} (p : Proc R Label Err α) (db : Db) (s : Statement R Label Err β)
    (next : β → Tx R Label Err α) (todo got : List Key) (L : Set Key) (snap start : Db) : Prop where
  locks : ∀ k, k ∈ p.locks ↔ k ∈ L ∨ k ∈ got
  before : Agree R L snap start
  after : Agree R L start db
  sound : ∀ k, k ∈ todo ∨ k ∈ got → k ∈ s.rows (p.write start)
  complete : ∀ k ∈ s.rows (p.write start), k ∈ todo ∨ k ∈ got ∨
    ∃ mid, Agree R L start mid ∧ Agree R L mid db ∧ R.present (p.write mid) k = false
  outline : (Tx.stmt s next).Outline N ⟨p.trace, L, snap, p.write⟩

/-- What is left of a transaction has an outline. -/
def Knows (p : Proc R Label Err α) (db : Db) : Prop :=
  match p.phase with
  | .ready tx => ∃ snap, Agree R p.lockSet snap db ∧
      tx.Outline N ⟨p.trace, p.lockSet, snap, p.write⟩
  | .locking s next todo got => ∃ L snap start, p.Waits N db s next todo got L snap start
  | .finished _ => True

/-- The invariant of a transaction on its way: its writes change only rows that it has locked, and the
facts of the statements it has begun hold. -/
structure Inv (p : Proc R Label Err α) (db : Db) : Prop where
  local_write : ∀ k, k ∉ p.locks → ∀ x, R.Keeps k x (p.write x)
  facts : ¬ p.isFinished → ∀ l ∈ p.begun, N.fact l p.trace p.lockSet db
  knows : p.Knows N db

variable {N}

theorem inv_start {tx : Tx R Label Err α} {db : Db} (h : tx.Outline N ⟨[], ∅, db, id⟩) :
    (Proc.start tx).Inv N db := by
  have hempty : (Proc.start tx).lockSet = ∅ := by
    ext k
    simp [lockSet, start]
  constructor
  · intro k _ x
    exact R.refl k x
  · intro _ l hl
    simp [begun, start] at hl
  · refine ⟨db, Agree.refl _ _, ?_⟩
    rw [hempty]
    exact h

/-- A transaction that is through knows nothing and needs nothing. -/
theorem inv_finished (result : Option (Except Err α)) (trace : List (Label × List Key)) (db : Db) :
    Inv N (⟨.finished result, id, [], trace⟩ : Proc R Label Err α) db := by
  constructor
  · intro k _ x
    exact R.refl k x
  · intro h
    exact absurd ⟨result, rfl⟩ h
  · trivial

/-- What the others do leaves the invariant of a transaction true. -/
theorem Inv.other (hstable : N.Stable R) {p : Proc R Label Err α} {db db' : Db}
    (h : p.Inv N db) (hagree : Agree R p.lockSet db db') : p.Inv N db' := by
  obtain ⟨hwrite, hfacts, hknows⟩ := h
  refine ⟨hwrite, fun hfin l hl => ?_, ?_⟩
  · exact hstable l _ _ _ _ _ _ (List.prefix_refl _) subset_rfl hagree (hfacts hfin l hl)
  · obtain ⟨phase, write, locks, trace⟩ := p
    cases phase with
    | ready tx =>
      obtain ⟨snap, hsnap, houtline⟩ := hknows
      exact ⟨snap, hsnap.trans hagree, houtline⟩
    | locking s next todo got =>
      obtain ⟨L, snap, start, hw⟩ := hknows
      have hsub : L ⊆ lockSet ⟨.locking s next todo got, write, locks, trace⟩ :=
        fun k hk => (hw.locks k).2 (Or.inl hk)
      have hagree' := hagree.mono hsub
      refine ⟨L, snap, start, hw.locks, hw.before, hw.after.trans hagree', hw.sound, ?_, hw.outline⟩
      intro k hk
      rcases hw.complete k hk with htodo | hgot | ⟨mid, hstart, hmid, hgone⟩
      · exact Or.inl htodo
      · exact Or.inr (Or.inl hgot)
      · exact Or.inr (Or.inr ⟨mid, hstart, hmid.trans hagree', hgone⟩)
    | finished result => trivial

/-- At its commit a transaction has what its outline says. -/
theorem Inv.post_of_commit {a : α} {write : Db → Db} {locks : List Key}
    {trace : List (Label × List Key)} {db : Db}
    (h : Inv N (⟨.ready (.done (.ok a)), write, locks, trace⟩ : Proc R Label Err α) db) :
    N.post trace {k | k ∈ locks} db write := by
  obtain ⟨snap, hsnap, houtline⟩ := h.knows
  exact houtline db hsnap

theorem Inv.post_of_ready {a : α} {p : Proc R Label Err α} {db : Db} (h : p.Inv N db)
    (hphase : p.phase = .ready (.done (.ok a))) : N.post p.trace p.lockSet db p.write := by
  obtain ⟨phase, write, locks, trace⟩ := p
  obtain rfl : phase = _ := hphase
  exact h.post_of_commit

/-- When a statement begins, the notes hold of the writes that it finds. -/
theorem Inv.entry_of_ready {β : Type} {s : Statement R Label Err β} {next : β → Tx R Label Err α}
    {p : Proc R Label Err α} {db : Db} (h : p.Inv N db) (hphase : p.phase = .ready (.stmt s next)) :
    N.entry s.label p.write := by
  have hknows := h.knows
  rw [Knows, hphase] at hknows
  obtain ⟨snap, -, houtline⟩ := hknows
  exact houtline.1.1

/-- And it is still so while it waits for its rows. -/
theorem Inv.entry_of_locking {β : Type} {s : Statement R Label Err β} {next : β → Tx R Label Err α}
    {todo got : List Key} {p : Proc R Label Err α} {db : Db} (h : p.Inv N db)
    (hphase : p.phase = .locking s next todo got) : N.entry s.label p.write := by
  have hknows := h.knows
  rw [Knows, hphase] at hknows
  obtain ⟨L, snap, start, hw⟩ := hknows
  exact hw.outline.1.1

/-- What a transaction does keeps its own invariant. -/
theorem Inv.step (hstable : N.Stable R) {busy : Key → Prop} {p p' : Proc R Label Err α}
    {db db' : Db} (h : p.Inv N db) (hstep : p.Step busy db db' p') :
    p'.Inv N db' := by
  cases hstep with
  | @begin β s next write locks trace =>
    -- the note of the new label comes from the outline, and those of the others are kept
    obtain ⟨snap, hsnap, houtline⟩ := h.knows
    refine ⟨h.local_write, fun _ l hl => ?_, ?_⟩
    · rcases List.mem_append.1 hl with hold | hnew
      · apply h.facts (by rintro ⟨_, hphase⟩; cases hphase)
        simpa [begun] using hold
      · rw [List.mem_singleton.1 hnew]
        exact houtline.1.2 db hsnap
    · refine ⟨{k | k ∈ locks}, snap, db, ?_, hsnap, Agree.refl _ _, ?_, ?_, houtline⟩
      · intro k
        simp
      · intro k hk
        simpa using hk
      · intro k hk
        exact Or.inl hk
  | @lock β s next write locks trace k todo got hfree hpresent =>
    obtain ⟨L, snap, start, hw⟩ := h.knows
    refine ⟨fun k' hk' x => h.local_write k' (fun hmem => hk' (List.mem_cons_of_mem _ hmem)) x,
      fun _ l hl => ?_, ?_⟩
    · refine hstable l _ _ _ _ db db (List.prefix_refl _) ?_ (Agree.refl _ _)
        (h.facts (by rintro ⟨_, hphase⟩; cases hphase) l hl)
      exact fun k' hk' => List.mem_cons_of_mem _ hk'
    · refine ⟨L, snap, start, ?_, hw.before, hw.after, ?_, ?_, hw.outline⟩
      · intro k'
        have hlocks : k' ∈ locks ↔ k' ∈ L ∨ k' ∈ got := hw.locks k'
        show k' ∈ k :: locks ↔ k' ∈ L ∨ k' ∈ got ++ [k]
        simp only [List.mem_cons, hlocks, List.mem_append, List.not_mem_nil, or_false]
        tauto
      · intro k' hk'
        apply hw.sound k'
        simp only [List.mem_append, List.mem_cons, List.not_mem_nil, or_false] at hk' ⊢
        tauto
      · intro k' hk'
        rcases hw.complete k' hk' with htodo | hgot | hgone
        · rcases List.mem_cons.1 htodo with rfl | htodo
          · -- the row has become one that was found
            exact Or.inr (Or.inl (by simp))
          · exact Or.inl htodo
        · exact Or.inr (Or.inl (List.mem_append_left _ hgot))
        · exact Or.inr (Or.inr hgone)
  | @skip β s next write locks trace k todo got hgone =>
    obtain ⟨L, snap, start, hw⟩ := h.knows
    refine ⟨h.local_write, fun _ => h.facts (by rintro ⟨_, hphase⟩; cases hphase), ?_⟩
    refine ⟨L, snap, start, hw.locks, hw.before, hw.after, ?_, ?_, hw.outline⟩
    · intro k' hk'
      apply hw.sound k'
      exact hk'.imp (List.mem_cons_of_mem _) id
    · intro k' hk'
      rcases hw.complete k' hk' with htodo | hgot | hvanished
      · rcases List.mem_cons.1 htodo with rfl | htodo
        · -- the row has been seen to be gone
          exact Or.inr (Or.inr ⟨db, hw.after, Agree.refl _ _, hgone⟩)
        · exact Or.inl htodo
      · exact Or.inr (Or.inl hgot)
      · exact Or.inr (Or.inr hvanished)
  | @exec β s next write locks trace got b hfree hresult =>
    obtain ⟨L, snap, start, hw⟩ := h.knows
    -- nothing is left to lock: the outline says what the found rows mean
    have hfound : Found s ⟨trace, L, snap, write⟩ start got db := by
      refine ⟨hw.before, hw.after, fun k hk => hw.sound k (Or.inr hk), fun k hk => ?_⟩
      rcases hw.complete k hk with htodo | hgot | hgone
      · exact absurd htodo List.not_mem_nil
      · exact Or.inl hgot
      · exact Or.inr hgone
    have hset : lockSet ⟨.ready (next b), fun x => s.change got (write db) (write x),
        s.claims ++ locks, trace ++ [(s.label, got)]⟩ =
        {k | k ∈ s.claims ∨ k ∈ L ∨ k ∈ got} := by
      ext k
      have hlocks : k ∈ locks ↔ k ∈ L ∨ k ∈ got := hw.locks k
      simp [lockSet, hlocks]
    refine ⟨fun k hk x => ?_, fun _ l hl => ?_, ?_⟩
    · -- a row that is locked neither before nor by this statement
      have hnot : k ∉ s.claims ∧ k ∉ locks := by simpa using hk
      have hgot : k ∉ got := fun hmem => hnot.2 ((hw.locks k).2 (Or.inr hmem))
      exact R.trans (h.local_write k hnot.2 x) (s.frame got (write db) (write x) k hgot hnot.1)
    · refine hstable l _ _ _ _ db db (List.prefix_append _ _) ?_ (Agree.refl _ _)
        (h.facts (by rintro ⟨_, hphase⟩; cases hphase) l ?_)
      · exact fun k hk => List.mem_append_right _ hk
      · simpa [begun] using hl
    · refine ⟨db, Agree.refl _ _, ?_⟩
      rw [hset]
      exact hw.outline.2 start got db b hfound hresult
  | refuse hresult => exact inv_finished _ _ _
  | commit => exact inv_finished _ _ _
  | rollback => exact inv_finished _ _ _
  | fail hfin => exact inv_finished _ _ _

/-- A step changes only rows that the transaction has locked. -/
theorem Inv.keeps_of_step {busy : Key → Prop} {p p' : Proc R Label Err α} {db db' : Db}
    (h : p.Inv N db) (hstep : p.Step busy db db' p') {k : Key} (hk : k ∉ p.locks) :
    R.Keeps k db db' := by
  cases hstep with
  | commit => exact h.local_write k hk db
  | _ => exact R.refl k db

/-- Either a step commits, or the committed state stays; and what it executes is one statement. -/
theorem Step.commits_or {busy : Key → Prop} {p p' : Proc R Label Err α} {db db' : Db}
    (hstep : p.Step busy db db' p') :
    (∃ a, p.phase = .ready (.done (.ok a)) ∧ db' = p.write db ∧ p'.isFinished) ∨
      (db' = db ∧ (p'.isFinished ∨ p'.trace = p.trace ∨
        ∃ l found, p'.trace = p.trace ++ [(l, found)])) := by
  cases hstep with
  | commit => exact Or.inl ⟨_, rfl, rfl, _, rfl⟩
  | begin => exact Or.inr ⟨rfl, Or.inr (Or.inl rfl)⟩
  | lock hfree hpresent => exact Or.inr ⟨rfl, Or.inr (Or.inl rfl)⟩
  | skip hgone => exact Or.inr ⟨rfl, Or.inr (Or.inl rfl)⟩
  | exec hfree hresult => exact Or.inr ⟨rfl, Or.inr (Or.inr ⟨_, _, rfl⟩)⟩
  | refuse hresult => exact Or.inr ⟨rfl, Or.inl ⟨_, rfl⟩⟩
  | rollback => exact Or.inr ⟨rfl, Or.inl ⟨_, rfl⟩⟩
  | fail hfin => exact Or.inr ⟨rfl, Or.inl ⟨_, rfl⟩⟩

/-- A step takes no lock that another transaction has. -/
theorem Step.locks {busy : Key → Prop} {p p' : Proc R Label Err α} {db db' : Db}
    (hstep : p.Step busy db db' p') {k : Key} (hk : k ∈ p'.locks) : k ∈ p.locks ∨ ¬ busy k := by
  cases hstep with
  | begin => exact Or.inl hk
  | lock hfree hpresent =>
    rcases List.mem_cons.1 hk with rfl | hold
    · exact Or.inr hfree
    · exact Or.inl hold
  | skip hgone => exact Or.inl hk
  | exec hfree hresult =>
    rcases List.mem_append.1 hk with hclaim | hold
    · exact Or.inr (hfree k hclaim)
    · exact Or.inl hold
  | refuse hresult => exact absurd hk List.not_mem_nil
  | commit => exact absurd hk List.not_mem_nil
  | rollback => exact absurd hk List.not_mem_nil
  | fail hfin => exact absurd hk List.not_mem_nil

end Proc

/-! ## Systems -/

namespace System

variable {ι : Type} {N : ι → Notes Label Key Db}

/-- No two transactions hold one lock, and each one has its invariant. -/
structure Inv (N : ι → Notes Label Key Db) (σ : System R Label Err α ι) : Prop where
  exclusive : ∀ i j k, i ≠ j → k ∈ (σ.procs i).locks → k ∉ (σ.procs j).locks
  proc : ∀ i, (σ.procs i).Inv (N i) σ.committed

theorem inv_init {db : Db} {txs : ι → Tx R Label Err α}
    (h : ∀ i, (txs i).Outline (N i) ⟨[], ∅, db, id⟩) : (init db txs).Inv N :=
  ⟨fun _ _ _ _ hk => absurd hk List.not_mem_nil, fun i => Proc.inv_start (h i)⟩

/-- The others see a step of one transaction only in the rows that they have not locked. -/
theorem Inv.agree_of_step {σ : System R Label Err α ι} (h : σ.Inv N) {i j : ι} (hij : i ≠ j)
    {db : Db} {p : Proc R Label Err α} (hstep : (σ.procs i).Step (σ.busy i) σ.committed db p) :
    Agree R (σ.procs j).lockSet σ.committed db := by
  intro k hk
  exact (h.proc i).keeps_of_step hstep fun hmem => h.exclusive i j k hij hmem hk

variable [DecidableEq ι]

theorem Inv.step (hstable : ∀ i, (N i).Stable R) {i : ι} {σ σ' : System R Label Err α ι}
    (h : σ.Inv N) (hstep : StepBy i σ σ') : σ'.Inv N := by
  obtain ⟨hp⟩ := hstep
  rename_i db p
  have hnew : ∀ j k, j ≠ i → k ∈ p.locks → k ∉ (σ.procs j).locks := by
    intro j k hji hk hmem
    rcases hp.locks hk with hold | hfree
    · exact h.exclusive i j k (Ne.symm hji) hold hmem
    · exact hfree ⟨j, hji, hmem⟩
  constructor
  · intro j l k hjl
    by_cases hj : j = i
    · have hl : l ≠ i := fun heq => hjl (hj.trans heq.symm)
      simp only [hj, Function.update_self, Function.update_of_ne hl]
      exact fun hk => hnew l k hl hk
    · by_cases hl : l = i
      · simp only [hl, Function.update_self, Function.update_of_ne hj]
        exact fun hk hk' => hnew j k hj hk' hk
      · simp only [Function.update_of_ne hj, Function.update_of_ne hl]
        exact h.exclusive j l k hjl
  · intro j
    by_cases hj : j = i
    · subst hj
      simp only [Function.update_self]
      exact (h.proc j).step (hstable j) hp
    · simp only [Function.update_of_ne hj]
      exact (h.proc j).other (hstable j) (h.agree_of_step (Ne.symm hj) hp)

theorem Inv.run (hstable : ∀ i, (N i).Stable R)
    {cond : ι → System R Label Err α ι → System R Label Err α ι → Prop}
    {σ σ' : System R Label Err α ι} (h : σ.Inv N) (hrun : Run cond σ σ') :
    σ'.Inv N := by
  induction hrun with
  | refl => exact h
  | tail _ hstep ih =>
    obtain ⟨i, hstep, -⟩ := hstep
    exact ih.step hstable hstep

/-- A property that every step of a system with outlines keeps holds along every run. -/
theorem Inv.run_induction (hstable : ∀ i, (N i).Stable R)
    {cond : ι → System R Label Err α ι → System R Label Err α ι → Prop}
    {P : System R Label Err α ι → Prop}
    (hstep : ∀ i σ σ', σ.Inv N → P σ → StepBy i σ σ' → cond i σ σ' → P σ')
    {σ σ' : System R Label Err α ι} (h : σ.Inv N) (hP : P σ) (hrun : Run cond σ σ') :
    P σ' := by
  induction hrun with
  | refl => exact hP
  | tail hprefix hlast ih =>
    obtain ⟨i, hby, hcond⟩ := hlast
    exact hstep i _ _ (h.run hstable hprefix) ih hby hcond

end System

end

end Workbench.Lib

/-!
## What transactions have seen

A statement can look at rows that no lock of its transaction protects. What it saw was true of the committed
state then, unless the transaction is about to fail; whether it is still true at the commit depends on what
the others may do.
-/

namespace Workbench.Lib

section

variable {Db Key : Type} {R : Rows Db Key} {Label Err α : Type}

namespace Tx

/-- The transaction can only be rolled back. -/
def Fails : Tx R Label Err α → Prop
  | .done (.error _) => True
  | _ => False

theorem Fails.bind {β : Type} {t : Tx R Label Err β} (h : t.Fails) (f : β → Tx R Label Err α) :
    (t >>= f).Fails := by
  cases t with
  | done r =>
    cases r with
    | ok b => cases h
    | error e => trivial
  | stmt s next => cases h

variable (P : {β : Type} → Statement R Label Err β → Prop) (seen : Label → Db → Prop)

/-- Every statement has the property `P`, and behind it the transaction fails or `seen` was true of the state
that it looked at. -/
def Tells : Tx R Label Err α → Prop
  | .done _ => True
  | .stmt s next =>
    P s ∧ ∀ found view b, s.result found view = .ok b →
      ((next b).Fails ∨ seen s.label view) ∧ (next b).Tells

variable {P : {β : Type} → Statement R Label Err β → Prop} {seen : Label → Db → Prop}

theorem tells_bind {β : Type} {t : Tx R Label Err β} {f : β → Tx R Label Err α} (h : t.Tells P seen)
    (hf : ∀ b, (f b).Tells P seen) : (t >>= f).Tells P seen := by
  induction t with
  | done r =>
    cases r with
    | ok b => exact hf b
    | error e => trivial
  | stmt s next ih =>
    refine ⟨h.1, fun found view b hresult => ?_⟩
    obtain ⟨hseen, hnext⟩ := h.2 found view b hresult
    refine ⟨hseen.imp_left fun hfails => hfails.bind f, ?_⟩
    exact ih b hnext

/-- What each statement tells by itself. -/
theorem tells_of_each {P' : {β : Type} → Statement R Label Err β → Prop} {t : Tx R Label Err α}
    (ht : t.Each P') (h : ∀ {β : Type} (s : Statement R Label Err β), P' s → P s ∧ ∀ view, seen s.label view) :
    t.Tells P seen := by
  induction t with
  | done r => trivial
  | stmt s next ih =>
    obtain ⟨hs, hseen⟩ := h s ht.1
    exact ⟨hs, fun found view b _ => ⟨Or.inr (hseen view), ih b (ht.2 b)⟩⟩

theorem tells_forM {β : Type} {f : β → Tx R Label Err PUnit} (hf : ∀ b, (f b).Tells P seen) (l : List β) :
    (l.forM f).Tells P seen := by
  induction l with
  | nil => trivial
  | cons x l ih => exact tells_bind (hf x) fun _ => ih

end Tx

namespace Proc

theorem unfinished_of_ready {p : Proc R Label Err α} {tx : Tx R Label Err α} (h : p.phase = .ready tx) :
    ¬ p.isFinished := by
  rintro ⟨result, hresult⟩
  rw [h] at hresult
  cases hresult

theorem unfinished_of_locking {β : Type} {p : Proc R Label Err α} {s : Statement R Label Err β}
    {next : β → Tx R Label Err α} {todo got : List Key} (h : p.phase = .locking s next todo got) :
    ¬ p.isFinished := by
  rintro ⟨result, hresult⟩
  rw [h] at hresult
  cases hresult

/-- What is left of the transaction can only be rolled back. -/
def Fails (p : Proc R Label Err α) : Prop :=
  match p.phase with
  | .ready tx => tx.Fails
  | _ => False

variable (P : {β : Type} → Statement R Label Err β → Prop) (seen : Label → Db → Prop)

def Tells (p : Proc R Label Err α) : Prop :=
  match p.phase with
  | .ready tx => tx.Tells P seen
  | .locking s next _ _ => (Tx.stmt s next).Tells P seen
  | .finished _ => True

variable {P : {β : Type} → Statement R Label Err β → Prop} {seen : Label → Db → Prop}

theorem Tells.step {busy : Key → Prop} {p p' : Proc R Label Err α} {db db' : Db} (h : p.Tells P seen)
    (hstep : p.Step busy db db' p') : p'.Tells P seen := by
  cases hstep with
  | begin => exact h
  | lock hfree hpresent => exact h
  | skip hgone => exact h
  | exec hfree hresult => exact (h.2 _ _ _ hresult).2
  | refuse hresult => trivial
  | commit => trivial
  | rollback => trivial
  | fail hfin => trivial

end Proc

end

end Workbench.Lib
