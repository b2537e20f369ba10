import Workbench.Identity.Calls
import Workbench.Lib.ProofOutline

/-!
# Outlines of the guards

What the guards of the store know while other transactions run.
-/

set_option autoImplicit false

namespace Workbench.Identity

open Workbench.Lib

abbrev View : Type := Local Label Db Key

variable {α : Type} {N : Notes Label Key Db} {Q : α → View → Prop} {x : View}

theorem agree_user {L : Set Key} {a b : Db} {id : Text} (h : Agree store L a b)
    (hmem : Key.user id ∈ L) : b.users.lookup id = a.users.lookup id := (h _ hmem).1

theorem agree_noMember {L : Set Key} {a b : Db} {id teamID : Text} (h : Agree store L a b)
    (hmem : Key.user id ∈ L) (hnone : a.members.lookup (teamID, id) = none) :
    b.members.lookup (teamID, id) = none := (h _ hmem).2 teamID hnone

theorem agree_member {L : Set Key} {a b : Db} {teamID userID : Text} (h : Agree store L a b)
    (hmem : Key.member teamID userID ∈ L) :
    b.members.lookup (teamID, userID) = a.members.lookup (teamID, userID) := h _ hmem

theorem agree_activeAdmin {L : Set Key} {a b : Db} {id : Text} (h : Agree store L a b)
    (hmem : Key.user id ∈ L) (hadmin : a.IsActiveAdmin id) : b.IsActiveAdmin id := by
  obtain ⟨u, hu, hactive⟩ := hadmin
  exact ⟨u, (agree_user h hmem).trans hu, hactive⟩

/-! ## Checks -/

theorem wp_fail (s : Sentinel) : (fail s : Transaction α).Wp N Q x := trivial

theorem wp_failIf {p : Prop} [Decidable p] {s : Sentinel} {Q : Unit → View → Prop}
    (h : ¬ p → Q () x) : (failIf p s).Wp N Q x := by
  unfold failIf
  split
  · trivial
  · next hp => exact h hp

theorem wp_runIf {p : Prop} [Decidable p] {tx : Transaction Unit} {Q : Unit → View → Prop}
    (h : p → tx.Wp N Q x) (hnot : ¬ p → Q () x) : (runIf p tx).Wp N Q x := by
  unfold runIf
  split
  · next hp => exact h hp
  · next hp => exact hnot hp

/-! ## Locks -/

/-- The row of a user that is locked, or nothing. -/
theorem wp_lockUser {Q : Option UserRow → View → Prop} {userID : Text}
    (hbegin : Tx.Begins N (lockUser userID) x)
    (hnone : ∀ y, Q none y)
    (hsome : ∀ found db u, Agree store x.locks x.snap db → .user userID ∈ found →
      (x.write db).users.lookup userID = some u → Q (some u) (x.behind (lockUser userID) found db)) :
    (Tx.perform (lockUser userID)).Wp N Q x := by
  refine (Tx.wp_perform _ _ _).2 ⟨hbegin, fun start found db b hfound hresult => ?_⟩
  have hb : (if Key.user userID ∈ found then (x.write db).users.lookup userID else none) = b :=
    Except.ok.inj hresult
  cases b with
  | none => exact hnone _
  | some u =>
    split at hb
    · next hmem => exact hsome found db u hfound.agree hmem hb
    · cases hb

theorem wp_lockMember {Q : Option Role → View → Prop} {teamID userID : Text}
    (hbegin : Tx.Begins N (lockMember teamID userID) x)
    (hnone : ∀ y, Q none y)
    (hsome : ∀ found db role, Agree store x.locks x.snap db → .member teamID userID ∈ found →
      (x.write db).members.lookup (teamID, userID) = some role →
        Q (some role) (x.behind (lockMember teamID userID) found db)) :
    (Tx.perform (lockMember teamID userID)).Wp N Q x := by
  refine (Tx.wp_perform _ _ _).2 ⟨hbegin, fun start found db b hfound hresult => ?_⟩
  have hb : (if Key.member teamID userID ∈ found then (x.write db).members.lookup (teamID, userID)
      else none) = b := Except.ok.inj hresult
  cases b with
  | none => exact hnone _
  | some role =>
    split at hb
    · next hmem => exact hsome found db role hfound.agree hmem hb
    · cases hb

/-! ## Guards -/

theorem wp_authorizeSystemAdmin {Q : Unit → View → Prop} {userID : Text}
    (hbegin : Tx.Begins N (lockUser userID) x)
    (h : ∀ found db, Agree store x.locks x.snap db → .user userID ∈ found →
      (x.write db).IsActiveAdmin userID → Q () (x.behind (lockUser userID) found db)) :
    (authorizeSystemAdminForUpdate userID).Wp N Q x := by
  unfold authorizeSystemAdminForUpdate
  rw [Tx.wp_bind]
  refine wp_lockUser hbegin (fun y => wp_fail _) fun found db u hagree hmem hu => ?_
  refine wp_failIf fun hp => h found db hagree hmem ⟨u, hu, u.activeAdmin_iff.2 ?_⟩
  rw [not_or, ne_eq, not_not] at hp
  exact ⟨hp.2, by simpa using hp.1⟩

end Workbench.Identity
