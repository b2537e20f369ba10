import Workbench.Base.Text
import Workbench.Lib.Runs
import Workbench.Lib.Table

/-!
# The life of a transaction

`api/internal/query/transaction.go`. The table is only touched under the lock; a transaction begins before
it is filed, and is committed or rolled back after it was taken out, so that other calls come in between.
-/

set_option autoImplicit false

namespace Workbench.Query.Transactions

open Workbench.Lib

/-- A filed transaction; a `*sql.Tx` is known by the order in which it began. -/
structure Entry where
  scope : Text
  tx : Nat
  lastUsed : Int
  deriving DecidableEq, Repr

def Entry.touch (now : Int) (item : Entry) : Entry := { item with lastUsed := now }

structure Service where
  idle : Int
  items : Table Text Entry

namespace Service

/-- The locked part of `Begin`. -/
def file (s : Service) (id : Text) (entry : Entry) : Service := { s with items := s.items.insert id entry }

/-- `Get`. -/
def get (s : Service) (scope id : Text) (now : Int) : Option Nat × Service :=
  match s.items.lookup id with
  | none => (none, s)
  | some item =>
    if item.scope ≠ scope then (none, s)
    else
      (some item.tx,
        { s with items := s.items.alter (fun k => k = id) fun item => some (item.touch now) })

/-- `take`, the locked part of `Commit` and `Rollback`. -/
def take (s : Service) (scope id : Text) : Option Entry × Service :=
  match s.items.lookup id with
  | none => (none, s)
  | some item =>
    if item.scope ≠ scope then (none, s) else (some item, { s with items := s.items.erase id })

def idleAt (s : Service) (now : Int) (item : Entry) : Bool := item.lastUsed ≤ now - s.idle

/-- `CloseIdle`, with the transactions that it rolls back. -/
def closeIdle (s : Service) (now : Int) : List Nat × Service :=
  (((s.items.rows.filter (s.idleAt now)).map Entry.tx),
    { s with items := s.items.alter (fun _ => true) fun item =>
        if s.idleAt now item then none else some item })

/-- The transactions in the table. -/
def txs (s : Service) : List Nat := s.items.rows.map Entry.tx

/-- The transaction is in the table. -/
def Has (s : Service) (tx : Nat) : Prop := ∃ id item, s.items.lookup id = some item ∧ item.tx = tx

end Service

inductive Finish where
  | commit
  | rollback
  deriving DecidableEq, Repr

/-- A `Commit` or `Rollback` between its lock and its call on the transaction. -/
structure Finishing where
  scope : Text
  tx : Nat
  finish : Finish
  deriving DecidableEq, Repr

/-- The service with the calls in progress. `begun` are the scopes of the transactions so far, in their
order; `finished` are the finishing calls that were issued. -/
structure State where
  service : Service
  begun : List Text
  filing : List Nat
  finishing : List Finishing
  finished : List Nat

/-- What happens next, and in which of the calls in progress. -/
inductive Event where
  | beginTx (scope : Text) (ok : Bool)
  | file (i : Nat) (id : Text) (now : Int)
  | get (scope id : Text) (now : Int)
  | take (finish : Finish) (scope id : Text)
  | finish (i : Nat)
  | closeIdle (now : Int)
  deriving DecidableEq, Repr

namespace State

def start (idle : Int) : State := ⟨⟨idle, ∅⟩, [], [], [], []⟩

/-- The scope that a transaction was begun with. -/
def scopeOf (s : State) (tx : Nat) : Text := s.begun.getD tx []

def step (s : State) : Event → State
  | .beginTx scope ok =>
    if ok then { s with begun := s.begun ++ [scope], filing := s.begun.length :: s.filing } else s
  | .file i id now =>
    match s.filing[i]? with
    | none => s
    | some tx =>
      { s with
        service := s.service.file id ⟨s.scopeOf tx, tx, now⟩
        filing := s.filing.eraseIdx i }
  | .get scope id now => { s with service := (s.service.get scope id now).2 }
  | .take finish scope id =>
    match s.service.take scope id with
    | (none, _) => s
    | (some item, service) =>
      { s with service := service, finishing := ⟨scope, item.tx, finish⟩ :: s.finishing }
  | .finish i =>
    match s.finishing[i]? with
    | none => s
    | some call =>
      { s with finishing := s.finishing.eraseIdx i, finished := call.tx :: s.finished }
  | .closeIdle now =>
    { s with
      service := (s.service.closeIdle now).2
      finished := (s.service.closeIdle now).1 ++ s.finished }

/-- The scope that the call carries to which the event belongs. -/
def carries (s : State) : Event → Option Text
  | .beginTx scope _ => some scope
  | .file i _ _ => (s.filing[i]?).map s.scopeOf
  | .get scope _ _ => some scope
  | .take _ scope _ => some scope
  | .finish i => (s.finishing[i]?).map Finishing.scope
  | .closeIdle _ => none

/-- The transaction that the call returns. -/
def returns (s : State) : Event → Option Nat
  | .get scope id now => (s.service.get scope id now).1
  | _ => none

/-- No call is in progress. -/
def Quiet (s : State) : Prop := s.filing = [] ∧ s.finishing = []

/-- The random source never draws an id that is in use. -/
def Fresh (s : State) : Event → Prop
  | .file _ id _ => s.service.items.lookup id = none
  | _ => True

end State

/-! ## The table -/

section

variable {s : Service} {id scope : Text} {now : Int}

theorem Service.mem_txs {tx : Nat} : tx ∈ s.txs ↔ s.Has tx := by
  rw [txs, List.mem_map]
  constructor
  · rintro ⟨item, hmem, htx⟩
    obtain ⟨id, hlookup⟩ := Table.mem_rows.1 hmem
    exact ⟨id, item, hlookup, htx⟩
  · rintro ⟨id, item, hlookup, htx⟩
    exact ⟨item, Table.mem_rows.2 ⟨id, hlookup⟩, htx⟩

theorem Service.txs_file (hnew : s.items.lookup id = none) (entry : Entry) :
    (s.file id entry).txs = entry.tx :: s.txs := by
  rw [txs, file]
  dsimp only
  rw [Table.rows_insert_new hnew]
  rfl

theorem Service.txs_get : (s.get scope id now).2.txs = s.txs := by
  rw [get]
  split
  · rfl
  · split
    · rfl
    · exact Table.map_rows_alter s.items _ fun _ => rfl

/-- `Get` changes the time of use. -/
theorem Service.lookup_get {id' : Text} {item : Entry}
    (h : (s.get scope id now).2.items.lookup id' = some item) :
    ∃ old, s.items.lookup id' = some old ∧ item.scope = old.scope ∧ item.tx = old.tx := by
  rw [get] at h
  split at h
  · exact ⟨item, h, rfl, rfl⟩
  · split at h
    · exact ⟨item, h, rfl, rfl⟩
    · dsimp only at h
      rw [Table.lookup_alter] at h
      split at h
      · obtain ⟨old, hold, htouched⟩ := Option.bind_eq_some_iff.1 h
        cases htouched
        exact ⟨old, hold, rfl, rfl⟩
      · exact ⟨item, h, rfl, rfl⟩

theorem Service.lookup_take {found : Option Entry} {after : Service} {id' : Text} {item : Entry}
    (h : s.take scope id = (found, after)) (hitem : after.items.lookup id' = some item) :
    s.items.lookup id' = some item := by
  rw [take] at h
  split at h
  · cases h
    exact hitem
  · split at h
    · cases h
      exact hitem
    · cases h
      by_cases hid : id' = id
      · rw [hid, AList.lookup_erase] at hitem
        cases hitem
      · rwa [AList.lookup_erase_ne hid] at hitem

theorem Service.lookup_take_of_ne {found : Option Entry} {after : Service} {id' : Text} {item : Entry}
    (h : s.take scope id = (found, after)) (hid : id' ≠ id)
    (hitem : s.items.lookup id' = some item) : after.items.lookup id' = some item := by
  rw [take] at h
  split at h
  · cases h
    exact hitem
  · split at h
    · cases h
      exact hitem
    · cases h
      exact (AList.lookup_erase_ne hid).trans hitem

theorem Service.lookup_closeIdle {id' : Text} {item : Entry}
    (h : (s.closeIdle now).2.items.lookup id' = some item) : s.items.lookup id' = some item := by
  rw [closeIdle] at h
  dsimp only at h
  rw [Table.lookup_alter, if_pos rfl] at h
  obtain ⟨old, hold, hkept⟩ := Option.bind_eq_some_iff.1 h
  split at hkept
  · cases hkept
  · cases hkept
    exact hold

theorem Service.txs_take {item : Entry} {after : Service} (h : s.take scope id = (some item, after)) :
    s.items.lookup id = some item ∧ item.scope = scope ∧ s.txs.Perm (item.tx :: after.txs) := by
  rw [take] at h
  split at h
  · cases h
  · next found hlookup =>
      split at h
      · cases h
      · next hscope =>
          cases h
          refine ⟨hlookup, not_not.1 hscope, ?_⟩
          exact (Table.rows_erase_perm hlookup).map Entry.tx

theorem Service.txs_closeIdle : s.txs.Perm ((s.closeIdle now).1 ++ (s.closeIdle now).2.txs) := by
  rw [txs, txs, closeIdle]
  dsimp only
  rw [Table.rows_alter_delete, ← List.map_append]
  exact ((List.filter_append_perm (s.idleAt now) s.items.rows).symm).map Entry.tx

end

/-! ## Whole runs -/

/-- The places where a transaction is: it begins and is to be filed, it is in the table, or it is to be
finished or was finished. -/
def State.places (s : State) (tx : Nat) : Nat :=
  s.filing.count tx + s.service.txs.count tx + (s.finishing.map Finishing.tx).count tx + s.finished.count tx

/-- Every transaction is in exactly one place, and wherever it is, it is there with its scope. -/
structure Tracked (s : State) : Prop where
  places : ∀ tx, s.places tx = if tx < s.begun.length then 1 else 0
  items : ∀ id item, s.service.items.lookup id = some item → item.scope = s.scopeOf item.tx
  finishing : ∀ call ∈ s.finishing, call.scope = s.scopeOf call.tx

theorem tracked_start (idle : Int) : Tracked (State.start idle) where
  places := fun _ => rfl
  items := by
    intro id item h
    cases h
  finishing := by
    intro call h
    cases h

/-- One of a list is taken out. -/
theorem count_eraseIdx {l : List Nat} {i tx : Nat} (h : l[i]? = some tx) (a : Nat) :
    l.count a = (l.eraseIdx i).count a + [tx].count a := by
  obtain ⟨hi, rfl⟩ := List.getElem?_eq_some_iff.1 h
  have hperm := (List.getElem_cons_eraseIdx_perm hi).count_eq a
  rw [← hperm, List.count_cons, List.count_singleton]

section

variable {s : State}

/-- What is in a place has begun. -/
theorem Tracked.lt_of_places (h : Tracked s) {tx : Nat} (hplace : 0 < s.places tx) : tx < s.begun.length := by
  rw [h.places] at hplace
  by_contra hlt
  rw [if_neg hlt] at hplace
  exact absurd hplace (lt_irrefl 0)

theorem Tracked.lt_of_lookup (h : Tracked s) {id : Text} {item : Entry}
    (hlookup : s.service.items.lookup id = some item) : item.tx < s.begun.length := by
  apply h.lt_of_places
  have hmem : item.tx ∈ s.service.txs := Service.mem_txs.2 ⟨id, item, hlookup, rfl⟩
  have hcount := List.count_pos_iff.2 hmem
  rw [State.places]
  omega

theorem Tracked.lt_of_finishing (h : Tracked s) {call : Finishing} (hcall : call ∈ s.finishing) :
    call.tx < s.begun.length := by
  apply h.lt_of_places
  have hcount := List.count_pos_iff.2 (List.mem_map_of_mem (f := Finishing.tx) hcall)
  rw [State.places]
  omega

/-- The transaction that begins is the next one. -/
theorem tracked_beginTx (h : Tracked s) (scope : Text) : Tracked (s.step (.beginTx scope true)) := by
  -- the scopes of the older transactions stay where they are
  have hscope : ∀ tx < s.begun.length,
      (s.begun ++ [scope]).getD tx [] = s.begun.getD tx [] := by
    intro tx htx
    rw [List.getD_eq_getElem?_getD, List.getD_eq_getElem?_getD, List.getElem?_append_left htx]
  refine ⟨?_, ?_, ?_⟩
  · intro tx
    have hold := h.places tx
    show (s.begun.length :: s.filing).count tx + _ + _ + _ =
      if tx < (s.begun ++ [scope]).length then 1 else 0
    have hcons : (s.begun.length :: s.filing).count tx =
        s.filing.count tx + if s.begun.length = tx then 1 else 0 := by
      simp only [List.count_cons, beq_iff_eq]
    rw [State.places] at hold
    rw [hcons, List.length_append, List.length_singleton]
    show s.filing.count tx + _ + s.service.txs.count tx + (s.finishing.map Finishing.tx).count tx +
      s.finished.count tx = _
    split at hold <;> split <;> split <;> omega
  · intro id item hlookup
    exact (h.items id item hlookup).trans (hscope _ (h.lt_of_lookup hlookup)).symm
  · intro call hcall
    exact (h.finishing call hcall).trans (hscope _ (h.lt_of_finishing hcall)).symm

/-- A transaction that was to be filed comes into the table. -/
theorem tracked_file (h : Tracked s) {id : Text} (hfresh : s.service.items.lookup id = none) (i : Nat)
    (now : Int) : Tracked (s.step (.file i id now)) := by
  rw [State.step]
  cases hi : s.filing[i]? with
  | none => exact h
  | some tx =>
    refine ⟨?_, ?_, ?_⟩
    · intro a
      have hold := h.places a
      -- the transaction leaves the calls of `Begin` and comes into the table
      have hfiling := count_eraseIdx hi a
      show (s.filing.eraseIdx i).count a + (s.service.file id ⟨s.scopeOf tx, tx, now⟩).txs.count a + _ + _ =
        if a < s.begun.length then 1 else 0
      rw [Service.txs_file hfresh, List.count_cons]
      rw [State.places] at hold
      rw [List.count_singleton] at hfiling
      dsimp only
      omega
    · intro id' item hlookup
      have hinsert : (s.service.items.insert id ⟨s.scopeOf tx, tx, now⟩).lookup id' = some item :=
        hlookup
      by_cases hid : id' = id
      · rw [hid, AList.lookup_insert] at hinsert
        cases hinsert
        rfl
      · rw [AList.lookup_insert_ne hid] at hinsert
        exact h.items id' item hinsert
    · exact h.finishing

theorem tracked_get (h : Tracked s) (scope id : Text) (now : Int) :
    Tracked (s.step (.get scope id now)) := by
  refine ⟨?_, ?_, h.finishing⟩
  · intro tx
    have hold := h.places tx
    show _ + (s.service.get scope id now).2.txs.count tx + _ + _ = _
    rw [Service.txs_get]
    exact hold
  · intro id' item hlookup
    -- `Get` changes neither the scope nor the transaction
    obtain ⟨old, hold, hscope, htx⟩ := Service.lookup_get hlookup
    rw [hscope, htx]
    exact h.items id' old hold

/-- A transaction that is taken out of the table is to be finished. -/
theorem tracked_take (h : Tracked s) (finish : Finish) (scope id : Text) :
    Tracked (s.step (.take finish scope id)) := by
  rw [State.step]
  cases htake : s.service.take scope id with
  | mk found after =>
    cases found with
    | none => exact h
    | some item =>
      -- `take` gives out what it deletes, and only to its own scope
      obtain ⟨hlookup, hscope, hperm⟩ := Service.txs_take htake
      refine ⟨?_, ?_, ?_⟩
      · intro tx
        have hold := h.places tx
        have hcount := hperm.count_eq tx
        show _ + after.txs.count tx + (item.tx :: s.finishing.map Finishing.tx).count tx + _ = _
        rw [State.places] at hold
        rw [List.count_cons] at hcount ⊢
        dsimp only
        omega
      · intro id' other hother
        exact h.items id' other (Service.lookup_take htake hother)
      · intro call hcall
        rcases List.mem_cons.1 hcall with rfl | hcall
        · exact hscope.symm.trans (h.items id item hlookup)
        · exact h.finishing call hcall

theorem tracked_finish (h : Tracked s) (i : Nat) : Tracked (s.step (.finish i)) := by
  rw [State.step]
  cases hi : s.finishing[i]? with
  | none => exact h
  | some call =>
    refine ⟨?_, h.items, ?_⟩
    · intro tx
      have hold := h.places tx
      -- the call on the transaction is issued, and the caller is done
      have hmap : (s.finishing.map Finishing.tx)[i]? = some call.tx := by
        rw [List.getElem?_map, hi]
        rfl
      have hcount := count_eraseIdx hmap tx
      show _ + _ + ((s.finishing.eraseIdx i).map Finishing.tx).count tx + (call.tx :: s.finished).count tx = _
      rw [State.places] at hold
      rw [← List.eraseIdx_map, List.count_cons]
      rw [List.count_singleton] at hcount
      dsimp only
      omega
    · intro other hother
      exact h.finishing other (List.mem_of_mem_eraseIdx hother)

/-- What is idle goes from the table to what was finished. -/
theorem tracked_closeIdle (h : Tracked s) (now : Int) : Tracked (s.step (.closeIdle now)) := by
  refine ⟨?_, ?_, h.finishing⟩
  · intro tx
    have hold := h.places tx
    have hperm : s.service.txs.Perm
        ((s.service.closeIdle now).1 ++ (s.service.closeIdle now).2.txs) := Service.txs_closeIdle
    have hcount := hperm.count_eq tx
    show s.filing.count tx + (s.service.closeIdle now).2.txs.count tx +
      (s.finishing.map Finishing.tx).count tx + ((s.service.closeIdle now).1 ++ s.finished).count tx =
        if tx < s.begun.length then 1 else 0
    rw [State.places] at hold
    rw [List.count_append] at hcount ⊢
    omega
  · intro id item hlookup
    exact h.items id item (Service.lookup_closeIdle hlookup)

theorem tracked_step {e : Event} (h : Tracked s) (hfresh : s.Fresh e) : Tracked (s.step e) := by
  cases e with
  | beginTx scope ok =>
    cases ok with
    | false => exact h
    | true => exact tracked_beginTx h scope
  | file i id now => exact tracked_file h hfresh i now
  | get scope id now => exact tracked_get h scope id now
  | take finish scope id => exact tracked_take h finish scope id
  | finish i => exact tracked_finish h i
  | closeIdle now => exact tracked_closeIdle h now

/-! ## Calls with another scope -/

/-- Nothing about the transaction is different. -/
structure Untouched (tx : Nat) (s s' : State) : Prop where
  items : ∀ id item, item.tx = tx →
    (s'.service.items.lookup id = some item ↔ s.service.items.lookup id = some item)
  filing : s'.filing.count tx = s.filing.count tx
  finishing : ∀ call : Finishing, call.tx = tx → s'.finishing.count call = s.finishing.count call
  finished : s'.finished.count tx = s.finished.count tx

theorem Untouched.refl (tx : Nat) (s : State) : Untouched tx s s :=
  ⟨fun _ _ _ => Iff.rfl, rfl, fun _ _ => rfl, rfl⟩

/-- One other than `a` is taken out. -/
theorem count_eraseIdx_of_ne {α : Type} [DecidableEq α] {l : List α} {i : Nat} {b a : α}
    (h : l[i]? = some b) (hne : b ≠ a) : (l.eraseIdx i).count a = l.count a := by
  obtain ⟨hi, rfl⟩ := List.getElem?_eq_some_iff.1 h
  have hperm := (List.getElem_cons_eraseIdx_perm hi).count_eq a
  rw [← hperm, List.count_cons_of_ne hne]

/-- The entry of another transaction comes in where none was. -/
theorem untouched_file {id : Text} {now : Int} {i tx : Nat} (hfresh : s.service.items.lookup id = none)
    (hother : ∀ filed, s.filing[i]? = some filed → filed ≠ tx) : Untouched tx s (s.step (.file i id now)) := by
  rw [State.step]
  cases hi : s.filing[i]? with
  | none => exact Untouched.refl tx s
  | some filed =>
    have hne := hother filed hi
    refine ⟨?_, count_eraseIdx_of_ne hi hne, fun _ _ => rfl, rfl⟩
    intro id' item hitem
    show (s.service.items.insert id ⟨s.scopeOf filed, filed, now⟩).lookup id' = some item ↔ _
    by_cases hid : id' = id
    · rw [hid, AList.lookup_insert, hfresh]
      refine iff_of_false ?_ fun h => nomatch h
      intro hfiled
      rw [← Option.some_inj.1 hfiled] at hitem
      exact hne hitem
    · rw [AList.lookup_insert_ne hid]

theorem untouched_get {scope id : Text} {now : Int} {tx : Nat}
    (hother : ∀ item, s.service.items.lookup id = some item → item.scope = scope → item.tx ≠ tx) :
    Untouched tx s (s.step (.get scope id now)) ∧ (s.service.get scope id now).1 ≠ some tx := by
  rw [State.step, Service.get]
  cases hlookup : s.service.items.lookup id with
  | none => exact ⟨Untouched.refl tx s, fun h => nomatch h⟩
  | some item =>
    dsimp only
    by_cases hitem : item.scope ≠ scope
    · rw [if_pos hitem]
      exact ⟨Untouched.refl tx s, fun h => nomatch h⟩
    · rw [if_neg hitem]
      have hne : item.tx ≠ tx := hother item hlookup (not_not.1 hitem)
      refine ⟨⟨?_, rfl, fun _ _ => rfl, rfl⟩, fun hreturn => hne (Option.some_inj.1 hreturn)⟩
      intro id' other heq
      dsimp only
      rw [Table.lookup_alter]
      by_cases hid : id' = id
      · -- the entry that is touched is that of another transaction
        rw [hid, decide_eq_true rfl, if_pos rfl, hlookup, Option.bind_some]
        refine iff_of_false ?_ ?_
        · intro htouched
          rw [← Option.some_inj.1 htouched] at heq
          exact hne heq
        · intro hsame
          rw [← Option.some_inj.1 hsame] at heq
          exact hne heq
      · rw [decide_eq_false hid, if_neg Bool.false_ne_true]

theorem untouched_take {finish : Finish} {scope id : Text} {tx : Nat}
    (hother : ∀ item, s.service.items.lookup id = some item → item.scope = scope → item.tx ≠ tx) :
    Untouched tx s (s.step (.take finish scope id)) := by
  rw [State.step]
  cases htake : s.service.take scope id with
  | mk found after =>
    cases found with
    | none => exact Untouched.refl tx s
    | some item =>
      obtain ⟨hlookup, hitem, -⟩ := Service.txs_take htake
      have hne : item.tx ≠ tx := hother item hlookup hitem
      refine ⟨?_, rfl, ?_, rfl⟩
      · intro id' other heq
        refine ⟨Service.lookup_take htake, ?_⟩
        intro hold
        by_cases hid : id' = id
        · -- the entry that is taken out is that of another transaction
          rw [hid, hlookup] at hold
          rw [← Option.some_inj.1 hold] at heq
          exact (hne heq).elim
        · exact Service.lookup_take_of_ne htake hid hold
      · intro call hcall
        apply List.count_cons_of_ne
        rintro rfl
        exact hne hcall

theorem untouched_finish {i tx : Nat} (hother : ∀ call, s.finishing[i]? = some call → call.tx ≠ tx) :
    Untouched tx s (s.step (.finish i)) := by
  rw [State.step]
  cases hi : s.finishing[i]? with
  | none => exact Untouched.refl tx s
  | some call =>
    have hne := hother call hi
    refine ⟨fun _ _ _ => Iff.rfl, rfl, ?_, List.count_cons_of_ne hne⟩
    intro other heq
    apply count_eraseIdx_of_ne hi
    rintro rfl
    exact hne heq

theorem untouched_step {e : Event} {tx : Nat} (h : Tracked s) (hfresh : s.Fresh e)
    (htx : tx < s.begun.length) {scope : Text} (hcarries : s.carries e = some scope)
    (hscope : scope ≠ s.scopeOf tx) : Untouched tx s (s.step e) ∧ s.returns e ≠ some tx := by
  -- an entry that is found under the scope of the call is not that of the transaction
  have hother : ∀ id item, s.service.items.lookup id = some item → item.scope = scope → item.tx ≠ tx := by
    rintro id item hlookup hitem rfl
    exact hscope (hitem.symm.trans (h.items id item hlookup))
  cases e with
  | beginTx scope' ok =>
    refine ⟨?_, fun h => nomatch h⟩
    cases ok with
    | false => exact Untouched.refl tx s
    | true =>
      refine ⟨fun _ _ _ => Iff.rfl, ?_, fun _ _ => rfl, rfl⟩
      apply List.count_cons_of_ne
      exact Nat.ne_of_gt htx
  | file i id now =>
    refine ⟨untouched_file hfresh ?_, fun h => nomatch h⟩
    rintro filed hi rfl
    rw [State.carries, hi] at hcarries
    exact hscope (Option.some_inj.1 hcarries).symm
  | get scope' id now =>
    cases hcarries
    exact untouched_get (hother id)
  | take finish scope' id =>
    cases hcarries
    exact ⟨untouched_take (hother id), fun h => nomatch h⟩
  | finish i =>
    refine ⟨untouched_finish ?_, fun h => nomatch h⟩
    rintro call hi rfl
    rw [State.carries, hi] at hcarries
    have hcall := h.finishing call (List.mem_of_getElem? hi)
    exact hscope ((Option.some_inj.1 hcarries).symm.trans hcall)
  | closeIdle now => cases hcarries

end

/-- **A transaction is finished at most once, it is in the table exactly as long as it was not finished
and no call is in progress, and calls with another scope leave it alone.** -/
theorem lifecycle {idle : Int} {s : State}
    (hrun : Runs State.step State.Fresh (State.start idle) s) :
    (∀ tx, s.finished.count tx ≤ 1) ∧
      (s.Quiet → ∀ tx < s.begun.length, s.service.Has tx ↔ tx ∉ s.finished) ∧
      ∀ e, s.Fresh e → ∀ tx < s.begun.length, ∀ scope, s.carries e = some scope →
        scope ≠ s.scopeOf tx → Untouched tx s (s.step e) ∧ s.returns e ≠ some tx := by
  have h : Tracked s :=
    hrun.invariant (fun _ _ hfresh h => tracked_step h hfresh) (tracked_start idle)
  refine ⟨?_, ?_, ?_⟩
  · intro tx
    have hplaces := h.places tx
    rw [State.places] at hplaces
    split at hplaces <;> omega
  · rintro ⟨hfiling, hfinishing⟩ tx htx
    have hplaces := h.places tx
    rw [State.places, if_pos htx, hfiling, hfinishing, List.count_nil, List.map_nil, List.count_nil] at hplaces
    rw [← Service.mem_txs, ← List.count_pos_iff, ← List.count_eq_zero]
    omega
  · intro e hfresh tx htx scope hcarries hscope
    exact untouched_step h hfresh htx hcarries hscope

/-- Two transactions in two scopes, of which one is committed. -/
def firstEvents : List Event :=
  [.beginTx ['a'] true, .beginTx ['b'] true, .file 0 ['j'] 0, .file 0 ['i'] 0, .take .commit ['a'] ['j'],
    .take .commit ['a'] ['i'], .finish 0]

theorem lifecycle_first :
    (firstEvents.foldl State.step (State.start 60)).finished = [0] ∧
      ∀ tx < 2, (firstEvents.foldl State.step (State.start 60)).service.Has tx ↔ tx ∉ [0] := by
  have hrun : Runs State.step State.Fresh (State.start 60)
      (firstEvents.foldl State.step (State.start 60)) := by
    apply Runs.of_meets
    exact ⟨trivial, trivial, rfl, rfl, trivial, trivial, trivial, trivial⟩
  exact ⟨rfl, (lifecycle hrun).2.1 ⟨rfl, rfl⟩⟩

end Workbench.Query.Transactions
