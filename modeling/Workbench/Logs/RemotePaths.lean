import Workbench.Logs.Import
import Workbench.Logs.Paths

/-!
# Remote paths

`ValidateRemotePath` of `api/internal/sshlog/service.go`. A handler validates the path of a request, `CreateTailFile`
trims the validated path and stores it, and `OpenFile`, `Tail`, `Browse` and `Scan` each validate the path that they
are given. Trimming comes in front of cleaning, so that the path that is left can be trimmed once more:
`validateRemotePath_stable_iff` says when it is not.
-/

set_option autoImplicit false

namespace Workbench.Logs

open Workbench.Lib
open Workbench.Identity (Principal)

def notAbsolute : Text := "remote path must be an absolute path".toList

def validateRemotePath (value : Text) : Except Text Text :=
  let trimmed := trimSpace value
  if trimmed = [] ∨ trimmed.head? ≠ some '/' ∨ Char.ofNat 0 ∈ trimmed then .error notAbsolute
  else .ok (clean trimmed)

/-- A statement that inserts a file stores this path with it. -/
def Command.StoresPath (path : Text) : ∀ {β : Type}, Command β → Prop
  | _, .insertFile _ row => row.storagePath = path
  | _, _ => True

/-- A validated path that stays as it is: when it is validated again, and when it is stored with a tail file. -/
structure Stable (path : Text) : Prop where
  absolute : path.head? = some '/'
  undotted : ∀ part ∈ path.splitOn '/', part ≠ ['.'] ∧ part ≠ ['.', '.']
  again : validateRemotePath path = .ok path
  stored : ∀ (fileID : Text) (actor : Principal) (sessionID serviceName nodeName : Text),
    (createTailFile fileID actor sessionID path serviceName nodeName).Sends (Command.StoresPath path)

/-- The last segment of a path that no later two dots take away ends in white space. -/
def endsBlank (value : Text) : Bool :=
  let last := Step.lastName 0 (((trimSpace value).splitOn '/').map stepOf).reverse
  (last.bind List.getLast?).any isGoSpace

/-! ## Accepted paths -/

theorem validateRemotePath_eq_ok {value path : Text} :
    validateRemotePath value = .ok path ↔
      ∃ rest, trimSpace value = '/' :: rest ∧ Char.ofNat 0 ∉ '/' :: rest ∧ path = clean ('/' :: rest) := by
  unfold validateRemotePath
  rw [guard_eq_ok]
  constructor
  · rintro ⟨haccepted, hpath⟩
    simp only [not_or, not_not] at haccepted
    obtain ⟨hne, hhead, hnul⟩ := haccepted
    cases htrimmed : trimSpace value with
    | nil => exact absurd htrimmed hne
    | cons c rest =>
      rw [htrimmed] at hhead hnul hpath
      obtain rfl : c = '/' := Option.some.inj hhead
      exact ⟨rest, rfl, hnul, (Except.ok.inj hpath).symm⟩
  · rintro ⟨rest, htrimmed, hnul, rfl⟩
    rw [htrimmed]
    refine ⟨?_, rfl⟩
    rintro (hempty | hhead | hmem)
    · cases hempty
    · exact hhead rfl
    · exact hnul hmem

/-- The front of a rooted text is not trimmed. -/
theorem rdropWhile_rooted (rest : Text) : ∃ front, ('/' :: rest).rdropWhile isGoSpace = '/' :: front := by
  cases htrimmed : ('/' :: rest).rdropWhile isGoSpace with
  | nil =>
    have hblank := List.rdropWhile_eq_nil_iff.1 htrimmed '/' List.mem_cons_self
    exact absurd hblank (by decide)
  | cons c front =>
    have hprefix : ('/' :: rest).rdropWhile isGoSpace <+: '/' :: rest := List.rdropWhile_prefix _ _
    rw [htrimmed] at hprefix
    obtain rfl : c = '/' := (List.cons_prefix_cons.1 hprefix).1
    exact ⟨front, rfl⟩

theorem trimSpace_rooted (rest : Text) : trimSpace ('/' :: rest) = ('/' :: rest).rdropWhile isGoSpace := by
  obtain ⟨front, hfront⟩ := rdropWhile_rooted rest
  rw [trimSpace, hfront]
  exact List.dropWhile_cons_of_neg (by decide)

/-- A rooted text stays as it is where it does not end in white space. -/
theorem trimSpace_rooted_eq_self {rest : Text} :
    trimSpace ('/' :: rest) = '/' :: rest ↔ ∀ c ∈ ('/' :: rest).getLast?, isGoSpace c = false := by
  rw [trimSpace_eq_self]
  apply and_iff_right
  intro c hc
  rw [← Option.some.inj hc]
  decide

/-! ## Validating again -/

section

variable {rest : Text}

theorem clean_head (rest : Text) : ∃ more, clean ('/' :: rest) = '/' :: more := ⟨_, clean_rooted rest⟩

/-- A clean path that ends in white space becomes shorter, any other is accepted as it is. -/
theorem validateRemotePath_clean_iff (hnul : Char.ofNat 0 ∉ '/' :: rest) :
    validateRemotePath (clean ('/' :: rest)) = .ok (clean ('/' :: rest)) ↔
      trimSpace (clean ('/' :: rest)) = clean ('/' :: rest) := by
  obtain ⟨more, hmore⟩ := clean_head rest
  rw [validateRemotePath_eq_ok]
  constructor
  · rintro ⟨front, htrimmed, -, hclean⟩
    have hprefix : trimSpace (clean ('/' :: rest)) <+: clean ('/' :: rest) := by
      rw [hmore, trimSpace_rooted]
      exact List.rdropWhile_prefix _ _
    apply hprefix.eq_of_length_le
    rw [htrimmed]
    conv_lhs => rw [hclean]
    exact length_clean_le front
  · intro htrimmed
    refine ⟨more, htrimmed.trans hmore, ?_, ?_⟩
    · rw [← hmore]
      exact fun hmem => hnul (mem_of_mem_clean hmem)
    · rw [← hmore, clean_idempotent]

/-- It ends in white space where the last name of the path does. -/
theorem trimSpace_clean_iff {value : Text} (htrimmed : trimSpace value = '/' :: rest) :
    trimSpace (clean ('/' :: rest)) = clean ('/' :: rest) ↔ endsBlank value = false := by
  obtain ⟨more, hmore⟩ := clean_head rest
  rw [hmore, trimSpace_rooted_eq_self, ← hmore, endsBlank, htrimmed]
  cases hlast : Step.lastName 0 ((('/' :: rest).splitOn '/').map stepOf).reverse with
  | none =>
    rw [clean_of_lastName_none hlast]
    refine iff_of_true ?_ rfl
    rintro c hc
    rw [← Option.some.inj hc]
    decide
  | some name =>
    rw [getLast?_clean hlast]
    show _ ↔ name.getLast?.any isGoSpace = false
    cases name.getLast? with
    | none => simp
    | some c => simp

end

/-! ## Storing a path -/

theorem sends_authorized {α : Type} {P : ∀ {β : Type}, Command β → Prop} {actor : Principal} {sessionID : Text}
    {write : Bool} {next : Session → Prog Command (Outcome α)} (hload : P (.loadSession sessionID))
    (hnext : ∀ session, (next session).Sends P) : (authorized actor sessionID write next).Sends P := by
  unfold authorized
  split
  · trivial
  · refine ⟨hload, ?_⟩
    intro answer
    cases answer with
    | none => trivial
    | some found =>
      cases found with
      | error e => trivial
      | ok session =>
        dsimp only
        split
        · trivial
        · exact hnext _

/-- The path that is stored is the trimmed one. -/
theorem createTailFile_stores (fileID : Text) (actor : Principal) (sessionID remotePath serviceName nodeName : Text) :
    (createTailFile fileID actor sessionID remotePath serviceName nodeName).Sends
      (Command.StoresPath (trimSpace remotePath)) := by
  refine sends_authorized trivial fun session => ?_
  dsimp only
  split
  · trivial
  · apply sends_demandFile
    · rfl
    · exact sends_demand trivial trivial

/-- **A validated path is stable if the last segment that cleaning leaves does not end in white space, and only
then.** -/
theorem validateRemotePath_stable_iff {value path : Text} (h : validateRemotePath value = .ok path) :
    Stable path ↔ endsBlank value = false := by
  obtain ⟨rest, htrimmed, hnul, rfl⟩ := validateRemotePath_eq_ok.1 h
  rw [← trimSpace_clean_iff htrimmed, ← validateRemotePath_clean_iff hnul]
  constructor
  · exact Stable.again
  · intro hagain
    have hself := (validateRemotePath_clean_iff hnul).1 hagain
    refine ⟨?_, fun _ hpart => undotted_clean rest hpart, hagain, ?_⟩
    · rw [clean_rooted]
      rfl
    · intro fileID actor sessionID serviceName nodeName
      have hstores := createTailFile_stores fileID actor sessionID (clean ('/' :: rest)) serviceName nodeName
      rwa [hself] at hstores

theorem validateRemotePath_stable_iff_log :
    Stable "/var/log/app.log".toList ↔ endsBlank " /var//log/./old/../app.log".toList = false := by
  have haccepted : validateRemotePath " /var//log/./old/../app.log".toList = .ok "/var/log/app.log".toList := by decide
  exact validateRemotePath_stable_iff haccepted

/-- The slash behind the blank is cleaned away, and the blank is trimmed when the path is validated again. -/
theorem validateRemotePath_unstable :
    validateRemotePath "/var/log/app /".toList = .ok "/var/log/app ".toList ∧ ¬Stable "/var/log/app ".toList := by
  refine ⟨by decide, fun hstable => ?_⟩
  have hagain : validateRemotePath "/var/log/app ".toList = .ok "/var/log/app".toList := by decide
  exact absurd (hagain.symm.trans hstable.again) (by decide)

end Workbench.Logs
