import Mathlib.Data.List.Sort
import Workbench.Logs.RemotePaths

/-!
# Remote scans

`Scan` of `api/internal/sshlog/service.go` walks the directories below a path of a remote host, to a depth and up to a
number of files, and says whether it was cut off. The directories that cannot be read are passed over. What a scan
returns lies there, and a scan that was not cut off returns all of it (`scan_honest`).
-/

set_option autoImplicit false

namespace Workbench.Logs

open scoped Workbench.Characters

/-- What `Mode` says of an entry; a symbolic link is of the other kinds. -/
inductive FileKind where
  | directory
  | regular
  | other
  deriving DecidableEq

structure FileInfo where
  name : Text
  kind : FileKind
  size : Int
  modTime : Int
  deriving DecidableEq

structure RemoteEntry where
  name : Text
  path : Text
  kind : Text
  size : Int
  modifiedAt : Int
  deriving DecidableEq

structure ScanResult where
  entries : List RemoteEntry
  truncated : Bool
  maxDepth : Int
  maxFiles : Int
  deriving DecidableEq

/-- The order that a scan sorts a listing by. -/
def FileInfo.less (lower : Text → Text) (a b : FileInfo) : Bool :=
  if decide (a.kind = .directory) ≠ decide (b.kind = .directory) then a.kind = .directory
  else lower a.name < lower b.name

/-- A host that a scan is connected to. Its directories are read by path; the names in one are different, and none of
them is empty or has a slash. Where `sort.Slice` leaves the names that are equal in lower case is not said. -/
structure RemoteHost where
  dial : Option Text
  newClient : Option Text
  ctxErr : Text → Option Text
  readDir : Text → Option (List FileInfo)
  lower : Text → Text
  sorted : List FileInfo → List FileInfo
  names_nodup : ∀ dir, ∀ files ∈ readDir dir, (files.map FileInfo.name).Nodup
  names_whole : ∀ dir, ∀ files ∈ readDir dir, ∀ file ∈ files, file.name ≠ [] ∧ '/' ∉ file.name
  sorted_perm : ∀ files, (sorted files).Perm files
  sorted_ordered : ∀ files, (sorted files).Pairwise fun a b => FileInfo.less lower b a = false

def isLogFile (name : Text) : Bool :=
  let lower := toLower name
  [".log".toList, ".txt".toList, ".out".toList, ".err".toList].any fun suffix => suffix.isSuffixOf lower

/-- A limit of a scan: what stands for one that is not positive, and the most that is kept of one. -/
def limited (standing most limit : Int) : Int :=
  let limit := if limit ≤ 0 then standing else limit
  if most < limit then most else limit

def scanDepth : Int → Int := limited 8 20

def scanFiles : Int → Int := limited 2000 10000

def fileEntry (dir : Text) (file : FileInfo) : RemoteEntry :=
  ⟨file.name, join dir file.name, "file".toList, file.size, file.modTime⟩

def ScanResult.cutOff (result : ScanResult) : ScanResult := { result with truncated := true }

/-- The loop of `walk` over the sorted files of a directory. -/
def walkFiles (maxFiles : Int) (walk : Text → ScanResult → Except Text ScanResult) (currentPath : Text) :
    List FileInfo → ScanResult → Except Text ScanResult
  | [], result => .ok result
  | file :: rest, result =>
    if maxFiles ≤ result.entries.length then .ok result.cutOff
    else if file.name = ['.'] ∨ file.name = ['.', '.'] then walkFiles maxFiles walk currentPath rest result
    else if file.kind = .directory then
      match walk (join currentPath file.name) result with
      | .error err => .error err
      | .ok result => walkFiles maxFiles walk currentPath rest result
    else if file.kind = .regular ∧ isLogFile file.name = true then
      walkFiles maxFiles walk currentPath rest
        { result with entries := result.entries ++ [fileEntry currentPath file] }
    else walkFiles maxFiles walk currentPath rest result

/-- `walk`, which counts the levels that are left, `maxDepth + 1 - depth`. -/
def walk (host : RemoteHost) (maxFiles : Int) (levels : Nat) (currentPath : Text) (result : ScanResult) :
    Except Text ScanResult :=
  match host.ctxErr currentPath with
  | some err => .error err
  | none =>
    match levels with
    | 0 => .ok result.cutOff
    | levels + 1 =>
      if maxFiles ≤ result.entries.length then .ok result.cutOff
      else
        match host.readDir currentPath with
        | none => .ok result
        | some files => walkFiles maxFiles (walk host maxFiles levels) currentPath (host.sorted files) result

/-- `Scan`. -/
def scan (host : RemoteHost) (remotePath : Text) (maxDepth maxFiles : Int) : Except Text ScanResult :=
  match validateRemotePath remotePath with
  | .error err => .error err
  | .ok safePath =>
    match host.dial with
    | some err => .error err
    | none =>
      match host.newClient with
      | some err => .error ("open sftp client: ".toList ++ err)
      | none =>
        walk host (scanFiles maxFiles) (scanDepth maxDepth + 1).toNat safePath
          ⟨[], false, scanDepth maxDepth, scanFiles maxFiles⟩

/-! ## What lies below a directory -/

namespace RemoteHost

variable {host : RemoteHost}

/-- The directories that can be come to, so many levels down, through directories that can be read. -/
inductive Reaches (host : RemoteHost) : Text → Nat → Text → Prop where
  | here (dir : Text) : Reaches host dir 0 dir
  | into {dir target : Text} {files : List FileInfo} {file : FileInfo} {depth : Nat} :
      host.readDir dir = some files → file ∈ files → file.kind = .directory → file.name ≠ ['.'] →
      file.name ≠ ['.', '.'] → Reaches host (child dir file.name) depth target → Reaches host dir (depth + 1) target

/-- A regular log file in a directory that can be read, so many levels below another. -/
def Holds (host : RemoteHost) (dir : Text) (depth : Nat) (entry : RemoteEntry) : Prop :=
  ∃ target files file, host.Reaches dir depth target ∧ host.readDir target = some files ∧ file ∈ files ∧
    file.kind = .regular ∧ isLogFile file.name = true ∧
    entry = ⟨file.name, child target file.name, "file".toList, file.size, file.modTime⟩

/-- What one file of a directory has to do with it. -/
def Yields (host : RemoteHost) (dir : Text) (file : FileInfo) : Nat → RemoteEntry → Prop
  | 0, entry => file.kind = .regular ∧ isLogFile file.name = true ∧
      entry = ⟨file.name, child dir file.name, "file".toList, file.size, file.modTime⟩
  | depth + 1, entry => file.kind = .directory ∧ file.name ≠ ['.'] ∧ file.name ≠ ['.', '.'] ∧
      host.Holds (child dir file.name) depth entry

theorem holds_iff {dir : Text} {depth : Nat} {entry : RemoteEntry} :
    host.Holds dir depth entry ↔
      ∃ files, host.readDir dir = some files ∧ ∃ file ∈ files, host.Yields dir file depth entry := by
  constructor
  · rintro ⟨target, files, file, hreaches, hread, hfile, hkind, hlog, rfl⟩
    cases hreaches with
    | here => exact ⟨files, hread, file, hfile, hkind, hlog, rfl⟩
    | into hread' hfile' hkind' hdot hdots hreaches =>
      exact ⟨_, hread', _, hfile', hkind', hdot, hdots, target, files, file, hreaches, hread, hfile, hkind, hlog, rfl⟩
  · rintro ⟨files, hread, file, hfile, hyields⟩
    -- An entry of the directory itself, or one below a directory in it.
    cases depth with
    | zero =>
      obtain ⟨hkind, hlog, hentry⟩ := hyields
      exact ⟨dir, files, file, .here dir, hread, hfile, hkind, hlog, hentry⟩
    | succ depth =>
      obtain ⟨hkind, hdot, hdots, target, files', file', hreaches, hrest⟩ := hyields
      exact ⟨target, files', file', .into hread hfile hkind hdot hdots hreaches, hrest⟩

theorem isLogFile_dots {name : Text} (h : name = ['.'] ∨ name = ['.', '.']) : isLogFile name = false := by
  rcases h with rfl | rfl
  · decide
  · decide

/-- The dots that a listing may begin with have nothing to do with it. -/
theorem not_yields_dots {dir : Text} {file : FileInfo} (h : file.name = ['.'] ∨ file.name = ['.', '.']) (depth : Nat)
    (entry : RemoteEntry) : ¬host.Yields dir file depth entry := by
  cases depth with
  | zero =>
    rintro ⟨-, hlog, -⟩
    rw [isLogFile_dots h] at hlog
    cases hlog
  | succ depth =>
    rintro ⟨-, hdot, hdots, -⟩
    exact h.elim hdot hdots

/-! ## Paths of different files -/

/-- The paths of the files below a directory begin with its own. -/
theorem path_of_holds {dir : Text} {depth : Nat} {entry : RemoteEntry} (h : host.Holds dir depth entry) :
    ∃ rest, entry.path = inside dir ++ rest := by
  induction depth generalizing dir with
  | zero =>
    obtain ⟨-, -, -, -, -, -, rfl⟩ := holds_iff.1 h
    exact ⟨_, rfl⟩
  | succ depth ih =>
    obtain ⟨files, hread, file, hfile, -, hdot, hdots, hholds⟩ := holds_iff.1 h
    obtain ⟨hne, hwhole⟩ := host.names_whole dir files hread file hfile
    obtain ⟨rest, hrest⟩ := ih hholds
    have hstep := child_child dir ⟨hne, hdot, hdots, hwhole⟩ rest
    exact ⟨_, hrest.trans hstep⟩

/-- The path of a file that comes from an entry of a directory goes on behind the name of the entry. -/
theorem path_of_yields {dir : Text} {file : FileInfo} {depth : Nat} {entry : RemoteEntry} (hne : file.name ≠ [])
    (hwhole : '/' ∉ file.name) (h : host.Yields dir file depth entry) :
    ∃ rest, entry.path = inside dir ++ (file.name ++ rest) ∧ ∀ c ∈ rest.head?, c = '/' := by
  cases depth with
  | zero =>
    obtain ⟨-, -, rfl⟩ := h
    exact ⟨[], by rw [List.append_nil]; rfl, fun c hc => by cases hc⟩
  | succ depth =>
    obtain ⟨-, hdot, hdots, hholds⟩ := h
    obtain ⟨rest, hrest⟩ := path_of_holds hholds
    have hstep := child_child dir ⟨hne, hdot, hdots, hwhole⟩ rest
    exact ⟨'/' :: rest, hrest.trans hstep, fun c hc => (Option.some.inj hc).symm⟩

/-- A name in front of a slash or of nothing is read back. -/
theorem takeWhile_name {name rest : Text} (hwhole : '/' ∉ name) (hrest : ∀ c ∈ rest.head?, c = '/') :
    (name ++ rest).takeWhile (fun c => c ≠ '/') = name := by
  have hname : ∀ c ∈ name, decide (c ≠ '/') = true := fun c hc => decide_eq_true fun h => hwhole (h ▸ hc)
  rw [List.takeWhile_append_of_pos hname]
  cases rest with
  | nil => rw [List.takeWhile_nil, List.append_nil]
  | cons c rest =>
    obtain rfl := hrest c rfl
    rw [List.takeWhile_cons_of_neg (by decide), List.append_nil]

/-- One path comes from one entry of a directory. -/
theorem name_eq_of_path {dir : Text} {files : List FileInfo} {a b : FileInfo} {depth depth' : Nat}
    {entry entry' : RemoteEntry} (hread : host.readDir dir = some files) (ha : a ∈ files) (hb : b ∈ files)
    (hyields : host.Yields dir a depth entry) (hyields' : host.Yields dir b depth' entry')
    (hpath : entry.path = entry'.path) : a.name = b.name := by
  obtain ⟨hne, hwhole⟩ := host.names_whole dir files hread a ha
  obtain ⟨hne', hwhole'⟩ := host.names_whole dir files hread b hb
  obtain ⟨rest, hentry, hrest⟩ := path_of_yields hne hwhole hyields
  obtain ⟨rest', hentry', hrest'⟩ := path_of_yields hne' hwhole' hyields'
  have hsame : a.name ++ rest = b.name ++ rest' := by
    rw [hentry, hentry'] at hpath
    exact List.append_cancel_left hpath
  calc
    a.name = (a.name ++ rest).takeWhile (fun c => c ≠ '/') := (takeWhile_name hwhole hrest).symm
    _ = (b.name ++ rest').takeWhile (fun c => c ≠ '/') := by rw [hsame]
    _ = b.name := takeWhile_name hwhole' hrest'

end RemoteHost

/-! ## What a walk adds -/

/-- What a part of a scan adds to its result, of the files that it has to do with (`Under`). -/
structure Adds (maxFiles : Int) (levels : Nat) (Under : Nat → RemoteEntry → Prop) (result after : ScanResult)
    (found : List RemoteEntry) : Prop where
  entries : after.entries = result.entries ++ found
  bounded : (result.entries.length : Int) ≤ maxFiles → (after.entries.length : Int) ≤ maxFiles
  sound : ∀ entry ∈ found, ∃ depth < levels, Under depth entry
  distinct : (found.map RemoteEntry.path).Nodup
  honest : after.truncated = false → result.truncated = false ∧ ∀ depth entry, Under depth entry → entry ∈ found

namespace Adds

variable {maxFiles : Int} {levels : Nat} {Under Under' : Nat → RemoteEntry → Prop} {result middle after : ScanResult}
  {found found' : List RemoteEntry}

/-- Nothing is added where there is nothing. -/
theorem nothing (result : ScanResult) (h : ∀ depth entry, ¬Under depth entry) :
    Adds maxFiles levels Under result result [] where
  entries := (List.append_nil _).symm
  bounded := id
  sound _ hentry := absurd hentry List.not_mem_nil
  distinct := List.nodup_nil
  honest htruncated := ⟨htruncated, fun depth entry hunder => absurd hunder (h depth entry)⟩

/-- A part that is cut off adds nothing and says so. -/
theorem cutOff (result : ScanResult) : Adds maxFiles levels Under result result.cutOff [] where
  entries := (List.append_nil _).symm
  bounded := id
  sound _ hentry := absurd hentry List.not_mem_nil
  distinct := List.nodup_nil
  honest htruncated := by cases htruncated

/-- A file is added while there is room. -/
theorem single {result : ScanResult} {entry : RemoteEntry} (hroom : (result.entries.length : Int) < maxFiles)
    (h : ∀ depth other, Under depth other ↔ depth = 0 ∧ other = entry) :
    Adds maxFiles (levels + 1) Under result { result with entries := result.entries ++ [entry] } [entry] where
  entries := rfl
  bounded _ := by
    rw [List.length_append, List.length_singleton]
    omega
  sound other hother := ⟨0, Nat.succ_pos levels, (h 0 other).2 ⟨rfl, List.mem_singleton.1 hother⟩⟩
  distinct := List.nodup_singleton _
  honest htruncated := ⟨htruncated, fun depth other hunder => List.mem_singleton.2 ((h depth other).1 hunder).2⟩

/-- One part behind another. -/
theorem append (h : Adds maxFiles levels Under result middle found)
    (h' : Adds maxFiles levels Under' middle after found')
    (hapart : ∀ depth entry depth' entry', Under depth entry → Under' depth' entry' → entry.path ≠ entry'.path) :
    Adds maxFiles levels (fun depth entry => Under depth entry ∨ Under' depth entry) result after
      (found ++ found') where
  entries := by rw [h'.entries, h.entries, List.append_assoc]
  bounded hbound := h'.bounded (h.bounded hbound)
  sound entry hentry := by
    rcases List.mem_append.1 hentry with hmem | hmem
    · obtain ⟨depth, hdepth, hunder⟩ := h.sound entry hmem
      exact ⟨depth, hdepth, .inl hunder⟩
    · obtain ⟨depth, hdepth, hunder⟩ := h'.sound entry hmem
      exact ⟨depth, hdepth, .inr hunder⟩
  distinct := by
    rw [List.map_append]
    refine h.distinct.append h'.distinct ?_
    intro path hmem hmem'
    obtain ⟨entry, hentry, rfl⟩ := List.mem_map.1 hmem
    obtain ⟨entry', hentry', hpath⟩ := List.mem_map.1 hmem'
    obtain ⟨depth, -, hunder⟩ := h.sound entry hentry
    obtain ⟨depth', -, hunder'⟩ := h'.sound entry' hentry'
    exact hapart depth entry depth' entry' hunder hunder' hpath.symm
  honest htruncated := by
    obtain ⟨hmiddle, hall'⟩ := h'.honest htruncated
    obtain ⟨hresult, hall⟩ := h.honest hmiddle
    refine ⟨hresult, fun depth entry hunder => ?_⟩
    rcases hunder with hunder | hunder
    · exact List.mem_append_left _ (hall depth entry hunder)
    · exact List.mem_append_right _ (hall' depth entry hunder)

theorem congr (h : Adds maxFiles levels Under result after found)
    (hiff : ∀ depth entry, Under depth entry ↔ Under' depth entry) : Adds maxFiles levels Under' result after found where
  entries := h.entries
  bounded := h.bounded
  sound entry hentry := by
    obtain ⟨depth, hdepth, hunder⟩ := h.sound entry hentry
    exact ⟨depth, hdepth, (hiff depth entry).1 hunder⟩
  distinct := h.distinct
  honest htruncated := by
    obtain ⟨hresult, hall⟩ := h.honest htruncated
    exact ⟨hresult, fun depth entry hunder => hall depth entry ((hiff depth entry).2 hunder)⟩

/-- What is found below a directory is one level further below the one above it. -/
theorem below (h : Adds maxFiles levels Under result after found)
    (hiff : ∀ depth entry, Under' depth entry ↔ ∃ depth', depth = depth' + 1 ∧ Under depth' entry) :
    Adds maxFiles (levels + 1) Under' result after found where
  entries := h.entries
  bounded := h.bounded
  sound entry hentry := by
    obtain ⟨depth, hdepth, hunder⟩ := h.sound entry hentry
    exact ⟨depth + 1, Nat.succ_lt_succ hdepth, (hiff _ entry).2 ⟨depth, rfl, hunder⟩⟩
  distinct := h.distinct
  honest htruncated := by
    obtain ⟨hresult, hall⟩ := h.honest htruncated
    refine ⟨hresult, fun depth entry hunder => ?_⟩
    obtain ⟨depth', -, hunder'⟩ := (hiff depth entry).1 hunder
    exact hall depth' entry hunder'

end Adds

/-! ## The walk -/

theorem ne_nil_of_clean {dir : Text} (h : clean dir = dir) : dir ≠ [] := by
  rintro rfl
  exact absurd h (by decide)

theorem join_eq_child {dir name : Text} (hclean : clean dir = dir) (hname : IsName name) :
    join dir name = child dir name := by
  rw [join_name (ne_nil_of_clean hclean) hname, hclean]

theorem clean_child {dir name : Text} (hclean : clean dir = dir) (hname : IsName name) :
    clean (child dir name) = child dir name := by
  rw [← join_eq_child hclean hname, join, clean_idempotent]

section Walk

variable {host : RemoteHost} {maxFiles : Int} {levels : Nat} {into : Text → ScanResult → Except Text ScanResult}
  {dir : Text} {result after : ScanResult}

/-- What the loop does with one file: it stops, or adds what the file has to do with it and goes on. -/
theorem walkFiles_step {file : FileInfo} {rest : List FileInfo} (hclean : clean dir = dir) (hne : file.name ≠ [])
    (hwhole : '/' ∉ file.name)
    (hinto : IsName file.name → ∀ before below, into (child dir file.name) before = .ok below →
      ∃ found, Adds maxFiles levels (host.Holds (child dir file.name)) before below found)
    (h : walkFiles maxFiles into dir (file :: rest) result = .ok after) :
    after = result.cutOff ∨
      ∃ middle found, Adds maxFiles (levels + 1) (host.Yields dir file) result middle found ∧
        walkFiles maxFiles into dir rest middle = .ok after := by
  rw [walkFiles] at h
  -- The five ways of the loop: full, a name of dots, a directory, a log file, and any other file.
  split_ifs at h with hfull hdots hdirectory hlog
  · exact .inl (Except.ok.inj h).symm
  · exact .inr ⟨result, [], .nothing result (RemoteHost.not_yields_dots hdots), h⟩
  · obtain ⟨hdot, hdots⟩ := not_or.1 hdots
    -- What the directory holds is one level further down.
    have hname : IsName file.name := ⟨hne, hdot, hdots, hwhole⟩
    rw [join_eq_child hclean hname] at h
    cases hbelow : into (child dir file.name) result with
    | error err =>
      rw [hbelow] at h
      cases h
    | ok below =>
      rw [hbelow] at h
      obtain ⟨found, hfound⟩ := hinto hname result below hbelow
      refine .inr ⟨below, found, hfound.below fun depth entry => ?_, h⟩
      constructor
      · intro hyields
        cases depth with
        | zero =>
          rw [hyields.1] at hdirectory
          cases hdirectory
        | succ depth => exact ⟨depth, rfl, hyields.2.2.2⟩
      · rintro ⟨depth', rfl, hholds⟩
        exact ⟨hdirectory, hdot, hdots, hholds⟩
  · obtain ⟨hdot, hdots⟩ := not_or.1 hdots
    have hentry : fileEntry dir file = ⟨file.name, child dir file.name, "file".toList, file.size, file.modTime⟩ := by
      rw [fileEntry, join_eq_child hclean ⟨hne, hdot, hdots, hwhole⟩]
    refine .inr ⟨_, _, .single (not_le.1 hfull) fun depth other => ?_, h⟩
    rw [hentry]
    cases depth with
    | zero => exact ⟨fun hyields => ⟨rfl, hyields.2.2⟩, fun hother => ⟨hlog.1, hlog.2, hother.2⟩⟩
    | succ depth =>
      exact ⟨fun hyields => absurd hyields.1 hdirectory, fun hother => absurd hother.1 (Nat.succ_ne_zero _)⟩
  · refine .inr ⟨result, [], .nothing result fun depth entry hyields => ?_, h⟩
    cases depth with
    | zero => exact hlog ⟨hyields.1, hyields.2.1⟩
    | succ depth => exact hdirectory hyields.1

theorem walkFiles_adds {listed files : List FileInfo} (hclean : clean dir = dir)
    (hread : host.readDir dir = some listed) (hlisted : ∀ file ∈ files, file ∈ listed)
    (hnodup : (files.map FileInfo.name).Nodup)
    (hinto : ∀ name, IsName name → ∀ before below, into (child dir name) before = .ok below →
      ∃ found, Adds maxFiles levels (host.Holds (child dir name)) before below found)
    (h : walkFiles maxFiles into dir files result = .ok after) :
    ∃ found, Adds maxFiles (levels + 1) (fun depth entry => ∃ file ∈ files, host.Yields dir file depth entry) result
      after found := by
  -- By induction over the files of the directory.
  induction files generalizing result with
  | nil =>
    obtain rfl := Except.ok.inj h
    refine ⟨[], .nothing result ?_⟩
    rintro depth entry ⟨file, hfile, -⟩
    exact List.not_mem_nil hfile
  | cons file rest ih =>
    obtain ⟨hne, hwhole⟩ := host.names_whole dir listed hread file (hlisted file List.mem_cons_self)
    rw [List.map_cons, List.nodup_cons] at hnodup
    rcases walkFiles_step hclean hne hwhole (hinto file.name) h with rfl | ⟨middle, found, hfound, hrest⟩
    · exact ⟨[], .cutOff result⟩
    · obtain ⟨found', hfound'⟩ :=
        ih (fun other hother => hlisted other (List.mem_cons_of_mem _ hother)) hnodup.2 hrest
      refine ⟨found ++ found', (hfound.append hfound' ?_).congr fun depth entry => ?_⟩
      · -- Two entries with one path would come of two files with one name.
        rintro depth entry depth' entry' hyields ⟨other, hother, hyields'⟩ hpath
        have hsame := RemoteHost.name_eq_of_path hread (hlisted file List.mem_cons_self)
          (hlisted other (List.mem_cons_of_mem _ hother)) hyields hyields' hpath
        exact hnodup.1 (hsame ▸ List.mem_map_of_mem hother)
      · rw [List.exists_mem_cons_iff]

/-- A walk adds the files below its directory, up to its depth. -/
theorem walk_adds (hclean : clean dir = dir) (h : walk host maxFiles levels dir result = .ok after) :
    ∃ found, Adds maxFiles levels (host.Holds dir) result after found := by
  -- By induction over the levels: what is below a directory is added by the levels that are left.
  induction levels generalizing dir result after with
  | zero =>
    rw [walk] at h
    cases herr : host.ctxErr dir with
    | some err =>
      rw [herr] at h
      cases h
    | none =>
      rw [herr] at h
      obtain rfl := Except.ok.inj h
      exact ⟨[], .cutOff result⟩
  | succ levels ih =>
    rw [walk] at h
    cases herr : host.ctxErr dir with
    | some err =>
      rw [herr] at h
      cases h
    | none =>
      rw [herr] at h
      dsimp only at h
      split_ifs at h with hfull
      · obtain rfl := Except.ok.inj h
        exact ⟨[], .cutOff result⟩
      · cases hread : host.readDir dir with
        | none =>
          rw [hread] at h
          obtain rfl := Except.ok.inj h
          refine ⟨[], .nothing result fun depth entry hholds => ?_⟩
          obtain ⟨files, hfiles, -⟩ := RemoteHost.holds_iff.1 hholds
          rw [hread] at hfiles
          cases hfiles
        | some listed =>
          rw [hread] at h
          -- The files are sorted, which changes neither what they are nor that their names differ.
          have hperm := host.sorted_perm listed
          obtain ⟨found, hfound⟩ := walkFiles_adds hclean hread (fun file hfile => hperm.mem_iff.1 hfile)
            ((hperm.map FileInfo.name).nodup_iff.2 (host.names_nodup dir listed hread))
            (fun name hname before below hbelow => ih (clean_child hclean hname) hbelow) h
          refine ⟨found, hfound.congr fun depth entry => ?_⟩
          rw [RemoteHost.holds_iff]
          constructor
          · rintro ⟨file, hfile, hyields⟩
            exact ⟨listed, hread, file, hperm.mem_iff.1 hfile, hyields⟩
          · rintro ⟨files, hfiles, file, hfile, hyields⟩
            obtain rfl := Option.some.inj (hread.symm.trans hfiles)
            exact ⟨file, hperm.mem_iff.2 hfile, hyields⟩

end Walk

theorem limited_nonneg {standing most : Int} (hstanding : 0 ≤ standing) (hmost : 0 ≤ most) (limit : Int) :
    0 ≤ limited standing most limit := by
  dsimp only [limited]
  split_ifs <;> omega

/-- What a scan from a directory returns: different log files, no more and no deeper than its limits, and all of those
in the directories that can be read unless it says that it was cut off. -/
structure HonestScan (host : RemoteHost) (root : Text) (depths files : Int) (result : ScanResult) : Prop where
  bounded : (result.entries.length : Int) ≤ files
  distinct : (result.entries.map RemoteEntry.path).Nodup
  sound : ∀ entry ∈ result.entries, ∃ depth : Nat, (depth : Int) ≤ depths ∧ host.Holds root depth entry
  complete : result.truncated = false → ∀ depth entry, host.Holds root depth entry → entry ∈ result.entries

/-- **A scan is honest about what it returns.** -/
theorem scan_honest (host : RemoteHost) {remotePath : Text} {maxDepth maxFiles : Int} {result : ScanResult}
    (h : scan host remotePath maxDepth maxFiles = .ok result) :
    ∃ root, validateRemotePath remotePath = .ok root ∧
      HonestScan host root (scanDepth maxDepth) (scanFiles maxFiles) result := by
  rw [scan] at h
  cases hroot : validateRemotePath remotePath with
  | error err =>
    rw [hroot] at h
    cases h
  | ok root =>
    obtain ⟨rest, -, -, hclean⟩ := validateRemotePath_eq_ok.1 hroot
    have hclean : clean root = root := by rw [hclean, clean_idempotent]
    rw [hroot] at h
    dsimp only at h
    split at h
    · cases h
    · split at h
      · cases h
      · obtain ⟨found, hfound⟩ := walk_adds hclean h
        -- The walk began with nothing, so the entries are what it added.
        have hentries : result.entries = found := hfound.entries
        refine ⟨root, rfl, hfound.bounded (limited_nonneg (by decide) (by decide) maxFiles), ?_, ?_, ?_⟩
        · rw [hentries]
          exact hfound.distinct
        · intro entry hentry
          obtain ⟨depth, hdepth, hholds⟩ := hfound.sound entry (hentries ▸ hentry)
          exact ⟨depth, by omega, hholds⟩
        · intro htruncated depth entry hholds
          rw [hentries]
          exact (hfound.honest htruncated).2 depth entry hholds

/-! ## A host with a log directory -/

theorem not_less_iff {lower : Text → Text} {a b : FileInfo} : FileInfo.less lower b a = false ↔
    (b.kind = .directory → a.kind = .directory) ∧
      ((a.kind = .directory ↔ b.kind = .directory) → ¬ lower b.name < lower a.name) := by
  unfold FileInfo.less
  by_cases ha : a.kind = .directory <;> by_cases hb : b.kind = .directory <;> simp [ha, hb]

instance (lower : Text → Text) : Std.Total fun a b => FileInfo.less lower b a = false where
  total a b := by
    simp only [not_less_iff]
    have hasymm : lower b.name < lower a.name → ¬ lower a.name < lower b.name := List.lt_asymm
    grind

instance (lower : Text → Text) : IsTrans FileInfo fun a b => FileInfo.less lower b a = false where
  trans a b c hab hbc := by
    simp only [not_less_iff] at hab hbc ⊢
    have htrans : ¬ lower b.name < lower a.name → ¬ lower c.name < lower b.name → ¬ lower c.name < lower a.name :=
      List.le_trans
    grind

def varLog : Text := "/var/log".toList

def nginx : FileInfo := ⟨"nginx".toList, .directory, 0, 0⟩

def privateDir : FileInfo := ⟨"private".toList, .directory, 0, 0⟩

def appLOG : FileInfo := ⟨"app.LOG".toList, .regular, 10, 1⟩

def accessLog : FileInfo := ⟨"access.log".toList, .regular, 20, 2⟩

/-- A host with two directories, of which one cannot be read. -/
def logHost : RemoteHost where
  dial := none
  newClient := none
  ctxErr _ := none
  readDir dir :=
    if dir = varLog then some [appLOG, nginx, privateDir, ⟨['.'], .directory, 0, 0⟩]
    else if dir = "/var/log/nginx".toList then some [accessLog, ⟨"access.log.1.gz".toList, .regular, 5, 0⟩]
    else none
  lower := toLower
  sorted files := files.insertionSort fun a b => FileInfo.less toLower b a = false
  names_nodup dir files hfiles := by
    split_ifs at hfiles
    · obtain rfl := Option.some.inj hfiles
      decide
    · obtain rfl := Option.some.inj hfiles
      decide
    · cases hfiles
  names_whole dir files hfiles := by
    split_ifs at hfiles
    · obtain rfl := Option.some.inj hfiles
      decide
    · obtain rfl := Option.some.inj hfiles
      decide
    · cases hfiles
  sorted_perm files := List.perm_insertionSort _ files
  sorted_ordered files := List.pairwise_insertionSort _ files

/-- What a scan of it returns. -/
def logScan : ScanResult :=
  ⟨[fileEntry "/var/log/nginx".toList accessLog, fileEntry varLog appLOG], false, 8, 2000⟩

theorem scan_honest_logs : scan logHost varLog 0 0 = .ok logScan ∧
    ∃ root, validateRemotePath varLog = .ok root ∧ HonestScan logHost root 8 2000 logScan :=
  have hscan : scan logHost varLog 0 0 = .ok logScan := by decide +kernel
  ⟨hscan, scan_honest logHost hscan⟩

end Workbench.Logs
