import Workbench.Logs.Uploads

/-!
# Paths in the upload directory

What `safePathPart`, `newID` and `filepath.Join` of `api/internal/logs/store.go` make of names: whatever name a file
comes with, it is written into the directory of its session, and no two uploads are written to one path
(`uploads_stay`).
-/

set_option autoImplicit false

namespace Workbench.Logs

open Workbench.Lib Workbench.Storage
open scoped Workbench.Characters

/-! ## Parts that are safe -/

theorem replaceOthers_safe (value : Text) : ∀ inside, ∀ c ∈ replaceOthers inside value, isPathChar c = true := by
  induction value with
  | nil => exact fun _ c hc => absurd hc List.not_mem_nil
  | cons d rest ih =>
    intro inside c hc
    rw [replaceOthers] at hc
    split_ifs at hc with hd hinside
    · rcases List.mem_cons.1 hc with rfl | hmem
      · exact hd
      · exact ih false c hmem
    · exact ih true c hc
    · rcases List.mem_cons.1 hc with rfl | hmem
      · decide
      · exact ih true c hmem

theorem replaceOthers_eq_self {value : Text} (h : ∀ c ∈ value, isPathChar c = true) :
    replaceOthers false value = value := by
  induction value with
  | nil => rfl
  | cons d rest ih =>
    rw [replaceOthers, if_pos (h d List.mem_cons_self), ih fun c hc => h c (List.mem_cons_of_mem _ hc)]

/-- What comes out has no slash. -/
theorem safePathPart_safe (value : Text) : ∀ c ∈ safePathPart value, isPathChar c = true := by
  rw [safePathPart]
  split_ifs with hempty
  · decide
  · exact replaceOthers_safe _ false

theorem isPathChar_bound {c : Char} (h : isPathChar c = true) : 45 ≤ c.toNat ∧ c.toNat ≤ 122 := by
  simp only [isPathChar, isLetter, isLower, isUpper, isDigit, Bool.or_eq_true, Bool.and_eq_true, decide_eq_true_eq,
    char_le_iff] at h
  rcases h with ((((⟨hlow, hhigh⟩ | ⟨hlow, hhigh⟩) | ⟨hlow, hhigh⟩) | rfl) | rfl) | rfl
  · exact ⟨le_trans (by decide) hlow, hhigh⟩
  · exact ⟨le_trans (by decide) hlow, le_trans hhigh (by decide)⟩
  · exact ⟨le_trans (by decide) hlow, le_trans hhigh (by decide)⟩
  · decide
  · decide
  · decide

theorem slash_not_mem {value : Text} (h : ∀ c ∈ value, isPathChar c = true) : '/' ∉ value := fun hmem =>
  absurd (h _ hmem) (by decide)

theorem safePathPart_eq_self {value : Text} (h : ∀ c ∈ value, isPathChar c = true) (hne : value ≠ [])
    (hdot : value ≠ ['.']) : safePathPart value = value := by
  -- Neither blanks nor slashes are among the characters that are kept.
  have hspace : ∀ c ∈ value, isGoSpace c = false := by
    intro c hc
    have hbound := isPathChar_bound (h c hc)
    exact isGoSpace_of_printable (by omega) (by omega)
  have htrim : trimSpace value = value :=
    trimSpace_eq_self.2
      ⟨fun c hc => hspace c (List.mem_of_mem_head? hc), fun c hc => hspace c (List.mem_of_getLast? hc)⟩
  have hslash : ∀ c ∈ value, c ≠ '/' := fun c hc hc' => slash_not_mem h (hc' ▸ hc)
  have hbase : base value = value := by
    have hback : value.rdropWhile (fun c => c = '/') = value := by
      rw [List.rdropWhile_eq_self_iff]
      intro hne hlast
      exact hslash _ (List.getLast_mem hne) (of_decide_eq_true hlast)
    have htake : value.rtakeWhile (fun c => c ≠ '/') = value := by
      rw [List.rtakeWhile_eq_self_iff]
      exact fun c hc => decide_eq_true (hslash c hc)
    rw [base, if_neg hne, hback, htake, if_neg hne]
  rw [safePathPart, htrim, hbase, replaceOthers_eq_self h, if_neg (not_or.2 ⟨hne, hdot⟩)]

/-! ## Ids -/

/-- What `rand.Read` fills. -/
abbrev IdBuffer := {bytes : List UInt8 // bytes.length = 18}

def newID (kind : Text) (buffer : IdBuffer) : Text := kind ++ Base64.encode buffer.val

theorem digit_pathChar {n : Nat} (h : n < 64) : isPathChar (Base64.digit n) = true := by
  have hall : ∀ k : Fin 64, isPathChar (Base64.digit k) = true := by decide +kernel
  exact hall ⟨n, h⟩

theorem newID_safe {kind : Text} (hkind : ∀ c ∈ kind, isPathChar c = true) (buffer : IdBuffer) :
    ∀ c ∈ newID kind buffer, isPathChar c = true := by
  intro c hc
  rcases List.mem_append.1 hc with hmem | hmem
  · exact hkind c hmem
  · rw [Base64.encode_eq_map] at hmem
    obtain ⟨n, hn, rfl⟩ := List.mem_map.1 hmem
    exact digit_pathChar (Base64.digits_lt _ n hn)

theorem length_newID (kind : Text) (a b : IdBuffer) : (newID kind a).length = (newID kind b).length := by
  rw [newID, newID, List.length_append, List.length_append, Base64.length_encode, Base64.length_encode, a.property,
    b.property]

theorem newID_injective (kind : Text) : Function.Injective (newID kind) := by
  intro a b h
  have hdecode := congrArg Base64.decode (List.append_cancel_left h)
  rw [Base64.decode_encode, Base64.decode_encode] at hdecode
  exact Subtype.ext (Option.some.inj hdecode)

/-! ## Uploads -/

theorem isName_newID {kind : Text} (hkind : ∀ c ∈ kind, isPathChar c = true) (hlong : 2 < kind.length)
    (buffer : IdBuffer) : IsName (newID kind buffer) := by
  have hlength : 2 < (newID kind buffer).length := by
    rw [newID, List.length_append]
    omega
  refine ⟨?_, ?_, ?_, slash_not_mem (newID_safe hkind buffer)⟩
  all_goals
    intro h
    rw [h] at hlength
    exact absurd hlength (by decide)

/-- The kinds of ids that uploads have. -/
def sessionID (buffer : IdBuffer) : Text := newID "logs_".toList buffer

def fileID (buffer : IdBuffer) : Text := newID "logfile_".toList buffer

theorem isName_sessionID (buffer : IdBuffer) : IsName (sessionID buffer) :=
  isName_newID (by decide) (by decide) buffer

theorem isName_fileID (buffer : IdBuffer) : IsName (fileID buffer) := isName_newID (by decide) (by decide) buffer

/-- The name that an upload gets in the directory of its session. -/
def uploadName (file : IdBuffer) (originalName : Text) : Text := fileID file ++ '-' :: safePathPart originalName

theorem isName_uploadName (file : IdBuffer) (originalName : Text) : IsName (uploadName file originalName) := by
  have hlength : 2 < (uploadName file originalName).length := by
    rw [uploadName, fileID, newID, List.length_append, List.length_append]
    show 2 < 8 + _ + _
    omega
  have hsafe : ∀ c ∈ uploadName file originalName, isPathChar c = true := by
    intro c hc
    rcases List.mem_append.1 hc with hid | hname
    · exact newID_safe (by decide) file c hid
    · rcases List.mem_cons.1 hname with rfl | hname
      · decide
      · exact safePathPart_safe originalName c hname
  -- It is longer than a name of dots.
  refine ⟨?_, ?_, ?_, slash_not_mem hsafe⟩
  all_goals
    intro h
    rw [h] at hlength
    exact absurd hlength (by decide)

/-- Where an upload is written. -/
theorem saveUpload_path {uploadDir originalName path : Text} {session file : IdBuffer} {written : Written}
    (h : (saveUpload uploadDir (sessionID session) (fileID file) originalName written).2 = some path) :
    path = child (child (clean uploadDir) (sessionID session)) (uploadName file originalName) := by
  have hsession := isName_sessionID session
  have hfile := isName_fileID file
  have hsessionPart : safePathPart (sessionID session) = sessionID session :=
    safePathPart_eq_self (newID_safe (by decide) session) hsession.nonempty hsession.not_dot
  have hfilePart : safePathPart (fileID file) = fileID file :=
    safePathPart_eq_self (newID_safe (by decide) file) hfile.nonempty hfile.not_dot
  rw [saveUpload, hsessionPart, hfilePart] at h
  by_cases hdir : uploadDir = []
  · rw [if_pos hdir] at h
    cases h
  · have hsessionDir := join_name hdir hsession
    have hne : join uploadDir (sessionID session) ≠ [] := by
      rw [hsessionDir]
      exact fun h => hsession.nonempty (List.append_eq_nil_iff.1 h).2
    have hcleaned : clean (join uploadDir (sessionID session)) = child (clean uploadDir) (sessionID session) := by
      rw [← hsessionDir, join, clean_idempotent]
    have hpath : join (join uploadDir (sessionID session)) (uploadName file originalName) =
        child (child (clean uploadDir) (sessionID session)) (uploadName file originalName) := by
      rw [join_name hne (isName_uploadName file originalName), hcleaned]
    rw [if_neg hdir] at h
    -- Whatever becomes of the file, its path is the one that was joined.
    cases written with
    | notCreated => cases h
    | copyFailed => exact (Option.some.inj h).symm.trans hpath
    | complete => exact (Option.some.inj h).symm.trans hpath

/-- **An upload is written into the directory of its session, an entry of the upload directory, and no two uploads are
written to one path.** -/
theorem uploads_stay (uploadDir originalName : Text) (session file : IdBuffer) (written : Written) :
    (∀ path, (saveUpload uploadDir (sessionID session) (fileID file) originalName written).2 = some path →
      ∃ name, IsName name ∧ IsName (sessionID session) ∧
        path = child (child (clean uploadDir) (sessionID session)) name) ∧
    ∀ session' file' originalName' written' path,
      (saveUpload uploadDir (sessionID session) (fileID file) originalName written).2 = some path →
      (saveUpload uploadDir (sessionID session') (fileID file') originalName' written').2 = some path →
        session = session' ∧ file = file' := by
  constructor
  · intro path hpath
    exact ⟨_, isName_uploadName file originalName, isName_sessionID session, saveUpload_path hpath⟩
  · intro session' file' originalName' written' path hpath hpath'
    have hsame := (saveUpload_path hpath).symm.trans (saveUpload_path hpath')
    rw [child_child _ (isName_sessionID session), child_child _ (isName_sessionID session')] at hsame
    -- the ids are of one length, so they end at one place
    obtain ⟨hsession, hname⟩ := List.append_inj (List.append_cancel_left hsame) (length_newID _ session session')
    obtain ⟨hfile, -⟩ := List.append_inj (List.cons.inj hname).2 (length_newID _ file file')
    exact ⟨newID_injective _ hsession, newID_injective _ hfile⟩

/-- A name that points out of the directory. -/
def passwdName : Text := "../../etc/passwd".toList

def bufferOf (b : UInt8) : IdBuffer := ⟨List.replicate 18 b, List.length_replicate⟩

/-- Two uploads under that name in one session. -/
theorem uploads_stay_passwd : ∃ path path',
    (saveUpload "/uploads".toList (sessionID (bufferOf 0)) (fileID (bufferOf 1)) passwdName .complete).2 = some path ∧
    (saveUpload "/uploads".toList (sessionID (bufferOf 0)) (fileID (bufferOf 2)) passwdName .complete).2 = some path' ∧
    path ≠ path' ∧ ∃ name, IsName name ∧ path = child (child "/uploads".toList (sessionID (bufferOf 0))) name := by
  obtain ⟨hstays, hdiffer⟩ := uploads_stay "/uploads".toList passwdName (bufferOf 0) (bufferOf 1) .complete
  refine ⟨_, _, rfl, rfl, ?_, ?_⟩
  · intro hsame
    obtain ⟨-, hfile⟩ := hdiffer (bufferOf 0) (bufferOf 2) passwdName .complete _ rfl (congrArg some hsame.symm)
    exact absurd hfile (by decide)
  · obtain ⟨name, hname, -, hpath⟩ := hstays _ rfl
    exact ⟨name, hname, hpath⟩

end Workbench.Logs
