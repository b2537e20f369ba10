import Workbench.Lib.Like
import Workbench.Storage.Counters

/-!
# Searching for a text

The condition that `buildSearchWhere` of `api/internal/logs/store.go` makes of a query, on PostgreSQL: `ILIKE`
compares in lower case, and the query stands in the pattern as it is.
-/

set_option autoImplicit false

namespace Workbench.Logs

open Workbench.Lib Workbench.Storage
open Workbench.Identity (Principal)

/-- PostgreSQL with a case mapping and a collation. -/
def Runtime.postgres (lower : Char → Char) (collate : Text → Text → Bool) : Runtime where
  lowerText := List.map lower
  collate := collate
  ilike value pattern := like (pattern.map lower) (value.map lower)

/-- A case mapping leaves the characters alone that have a meaning in patterns, and makes none of them. -/
def KeepsSpecial (lower : Char → Char) : Prop :=
  ∀ special, isLikeSpecial special = true → ∀ c, lower c = special ↔ c = special

/-- A search for a text, without any filter. -/
def SearchInput.ofQuery (query : Text) (limit : Int) : SearchInput := ⟨query, [], [], [], none, none, limit⟩

/-- `Search` on PostgreSQL, which takes no text with a NUL in it. -/
def searchText (lower : Char → Char) (collate : Text → Text → Bool) (actor : Principal) (sessionID : Text)
    (query : Text) (limit : Int) (db : Db) : Except Err SearchResult := do
  let _ ← authorize actor sessionID false db
  if Char.ofNat 0 ∈ trimSpace query then .error .database
  else search (Runtime.postgres lower collate) actor sessionID (SearchInput.ofQuery query limit) db

/-! ## What a search should find -/

section

variable (lower : Char → Char)

/-- A text contains another one, in whatever case. -/
def containsText (text query : Text) : Bool := decide (query.map lower <:+: text.map lower)

/-- The entries of a session with the text in their message or in their line. -/
def literalMatches (sessionID query : Text) (db : Db) : List Entry :=
  (db.logEntries.entries.filter fun e => e.2.sessionID = sessionID &&
    (containsText lower e.2.message query || containsText lower e.2.raw query)).map fun e => ⟨e.1, e.2⟩

/-- In every state of the stores, whoever searches a session he sees finds exactly these entries. -/
def SearchesLiterally (collate : Text → Text → Bool) (query : Text) : Prop :=
  ∀ (env : World.Env) (w : World), World.Reachable env w →
    ∀ (actor : Principal) (sessionID : Text) (session : Session) (limit : Int),
      authorize actor sessionID false w.db = .ok session →
      matching (Runtime.postgres lower collate)
          (buildSearchWhere sessionID (SearchInput.ofQuery query limit)) w.db =
        literalMatches lower sessionID (trimSpace query) w.db ∧
      ∃ result, searchText lower collate actor sessionID query limit w.db = .ok result ∧
        result.total = (literalMatches lower sessionID (trimSpace query) w.db).length

end

/-! ## The condition of a query -/

section

variable {lower : Char → Char} {collate : Text → Text → Bool} {sessionID query : Text}

theorem buildSearchWhere_ofQuery (hquery : trimSpace query ≠ []) (limit : Int) :
    buildSearchWhere sessionID (SearchInput.ofQuery query limit) = [.session sessionID, .text (trimSpace query)] := by
  simp only [buildSearchWhere, SearchInput.ofQuery, normalizeList_nil]
  simp [hquery]

/-- The pattern of a query in lower case. -/
theorem map_pattern (hlower : KeepsSpecial lower) (text : Text) :
    ('%' :: text ++ ['%']).map lower = '%' :: text.map lower ++ ['%'] := by
  have hpercent : lower '%' = '%' := (hlower '%' rfl '%').2 rfl
  simp [hpercent]

theorem isLikeSpecial_lower (hlower : KeepsSpecial lower) (c : Char) :
    isLikeSpecial (lower c) = isLikeSpecial c := by
  simp [isLikeSpecial, hlower '%' rfl c, hlower '_' rfl c, hlower '\\' rfl c]

/-- A query without special characters. -/
theorem ilike_plain (hlower : KeepsSpecial lower) {text : Text} (h : ∀ c ∈ text, isLikeSpecial c = false)
    (value : Text) : (Runtime.postgres lower collate).ilike value ('%' :: text ++ ['%']) =
      containsText lower value text := by
  have hplain : ∀ c ∈ text.map lower, isLikeSpecial c = false := by
    intro c hc
    obtain ⟨d, hd, rfl⟩ := List.mem_map.1 hc
    rw [isLikeSpecial_lower hlower, h d hd]
  have hilike : (Runtime.postgres lower collate).ilike value ('%' :: text ++ ['%']) =
      like ('%' :: text.map lower ++ ['%']) (value.map lower) := by
    rw [← map_pattern hlower]
    rfl
  rw [Bool.eq_iff_iff, hilike, like_contains hplain, containsText, decide_eq_true_eq]

/-- The instance of a pattern in lower case. -/
theorem map_likeInstance (hlower : KeepsSpecial lower) (filler : Char) (text : Text) :
    (likeInstance filler text).map lower = likeInstance (lower filler) (text.map lower) := by
  have hkeep : ∀ c, isLikeSpecial c = true → lower c = c := fun c hc => (hlower c hc c).2 rfl
  have hpercent := hkeep '%' rfl
  have hunderscore := hkeep '_' rfl
  have hbackslash := hkeep '\\' rfl
  fun_induction likeInstance filler text with
  | case1 => rfl
  | case2 rest ih => rw [List.map_cons, hpercent, likeInstance, ih]
  | case3 rest ih => rw [List.map_cons, List.map_cons, hunderscore, likeInstance, ih]
  | case4 => simp [hpercent, hbackslash, likeInstance]
  | case5 c rest ih => rw [List.map_cons, List.map_cons, List.map_cons, hbackslash, likeInstance, ih]
  | case6 c rest hpercent hunderscore hend hescape ih =>
    have hc := isLikeSpecial_eq_false hpercent hunderscore hend hescape
    rw [List.map_cons, List.map_cons, likeInstance_plain (by rw [isLikeSpecial_lower hlower, hc]), ih]

/-- A query with special characters finds a text that does not contain it. -/
theorem ilike_special (hlower : KeepsSpecial lower) {text : Text} (h : ¬∀ c ∈ text, isLikeSpecial c = false) :
    (Runtime.postgres lower collate).ilike (likeInstance 'a' text) ('%' :: text ++ ['%']) = true ∧
      containsText lower (likeInstance 'a' text) text = false := by
  have hfiller : lower 'a' ≠ '_' := fun ha => absurd ((hlower '_' rfl 'a').1 ha) (by decide)
  constructor
  · have hilike : (Runtime.postgres lower collate).ilike (likeInstance 'a' text) ('%' :: text ++ ['%']) =
        like ('%' :: text.map lower ++ ['%']) (likeInstance (lower 'a') (text.map lower)) := by
      rw [← map_pattern hlower, ← map_likeInstance hlower]
      rfl
    rw [hilike, List.cons_append, like_percent, List.any_eq_true]
    exact ⟨_, (List.mem_tails _ _).2 (List.suffix_refl _), like_instance _ _⟩
  · rw [containsText, decide_eq_false_iff_not, map_likeInstance hlower]
    apply not_infix_likeInstance hfiller
    intro hplain
    apply h
    intro c hc
    rw [← isLikeSpecial_lower hlower]
    exact hplain (lower c) (List.mem_map_of_mem hc)

theorem searchText_ok {actor : Principal} {session : Session} {limit : Int} {db : Db}
    (hauthorize : authorize actor sessionID false db = .ok session) (hnul : Char.ofNat 0 ∉ trimSpace query) :
    ∃ result, searchText lower collate actor sessionID query limit db = .ok result ∧
      result.total = (matching (Runtime.postgres lower collate)
        (buildSearchWhere sessionID (SearchInput.ofQuery query limit)) db).length := by
  rw [searchText, hauthorize]
  simp only [bind, Except.bind, if_neg hnul, search, hauthorize, tree]
  exact ⟨_, rfl, rfl⟩

end

/-- A line that is its own message. -/
def lineOf (text : Text) : ParsedLine := ⟨none, "INFO".toList, text, text, 1⟩

theorem entries_withLine (text : Text) : (World.withLines [lineOf text]).db.logEntries.entries =
    [⟨1, ⟨"logs_a".toList, "logfile_a".toList, none, "INFO".toList, "shop".toList, "n1".toList, text, text, 1⟩⟩] :=
  rfl

/-- A query that is searched literally has no character that a pattern reads in its own way. -/
theorem plain_of_searchesLiterally {lower : Char → Char} (hlower : KeepsSpecial lower)
    {collate : Text → Text → Bool} {query : Text} (hquery : trimSpace query ≠ [])
    (h : SearchesLiterally lower collate query) : ∀ c ∈ trimSpace query, isLikeSpecial c = false := by
  intro c hc
  -- a file with one line, whose text is the shortest for the query
  have hmatching := (h _ _ (World.reachable_withLines [lineOf (likeInstance 'a' (trimSpace query))])
    World.bobPrincipal "logs_a".toList _ 0 rfl).1
  by_contra hspecial
  obtain ⟨hfound, habsent⟩ : (Runtime.postgres lower collate).ilike
      (likeInstance 'a' (trimSpace query)) ('%' :: trimSpace query ++ ['%']) = true ∧
        containsText lower (likeInstance 'a' (trimSpace query)) (trimSpace query) = false :=
    ilike_special hlower fun hplain => hspecial (hplain c hc)
  rw [buildSearchWhere_ofQuery hquery, matching, literalMatches, entries_withLine] at hmatching
  simp only [List.filter_cons, List.filter_nil, Condition.holds, List.all_cons, hfound, habsent] at hmatching
  simp at hmatching

/-- A query with a NUL is refused by the database. -/
theorem no_nul_of_searchesLiterally {lower : Char → Char} {collate : Text → Text → Bool} {query : Text}
    (h : SearchesLiterally lower collate query) : Char.ofNat 0 ∉ trimSpace query := by
  intro hnul
  obtain ⟨-, result, hresult, -⟩ := h _ _ (World.reachable_withLines [lineOf []]) World.bobPrincipal
    "logs_a".toList _ 0 rfl
  have hrefused : searchText lower collate World.bobPrincipal "logs_a".toList query 0
      (World.withLines [lineOf []]).db = .error .database := if_pos hnul
  rw [hrefused] at hresult
  cases hresult

/-- **Search for a text is literal, in every session of every state of the stores, exactly for the queries
without a percent sign, an underscore or a backslash (and without a NUL, which no query can carry).** -/
theorem searches_literally_iff (lower : Char → Char) (hlower : KeepsSpecial lower)
    (collate : Text → Text → Bool) (query : Text) (hquery : trimSpace query ≠ []) :
    SearchesLiterally lower collate query ↔
      ∀ c ∈ trimSpace query, isLikeSpecial c = false ∧ c ≠ Char.ofNat 0 := by
  constructor
  · intro h c hc
    refine ⟨plain_of_searchesLiterally hlower hquery h c hc, ?_⟩
    rintro rfl
    exact no_nul_of_searchesLiterally h hc
  · intro h env w _ actor sessionID session limit hauthorize
    have hplain : ∀ c ∈ trimSpace query, isLikeSpecial c = false := fun c hc => (h c hc).1
    have hmatching : matching (Runtime.postgres lower collate)
        (buildSearchWhere sessionID (SearchInput.ofQuery query limit)) w.db =
          literalMatches lower sessionID (trimSpace query) w.db := by
      rw [buildSearchWhere_ofQuery hquery, matching, literalMatches]
      apply congrArg
      apply List.filter_congr
      intro e _
      simp only [List.all_cons, List.all_nil, Bool.and_true, Condition.holds, ilike_plain hlower hplain]
    refine ⟨hmatching, ?_⟩
    rw [← hmatching]
    exact searchText_ok hauthorize fun hnul => (h _ hnul).2 rfl

/-- The percent sign of a query stands for the text between a count and a total. -/
theorem search_share_finds_count :
    (matching (Runtime.postgres asciiLower fun _ _ => true)
        (buildSearchWhere "logs_a".toList (SearchInput.ofQuery "5% of".toList 0))
        (World.withLines [lineOf "50 of 100".toList]).db).map (fun e => e.row.raw) = ["50 of 100".toList] ∧
      literalMatches asciiLower "logs_a".toList "5% of".toList
        (World.withLines [lineOf "50 of 100".toList]).db = [] ∧
      ¬SearchesLiterally asciiLower (fun _ _ => true) "5% of".toList := by
  have hmatching : (matching (Runtime.postgres asciiLower fun _ _ => true)
      (buildSearchWhere "logs_a".toList (SearchInput.ofQuery "5% of".toList 0))
      (World.withLines [lineOf "50 of 100".toList]).db).map (fun e => e.row.raw) = ["50 of 100".toList] := by
    rw [buildSearchWhere_ofQuery (by decide), matching, entries_withLine]
    decide
  have hliteral : literalMatches asciiLower "logs_a".toList "5% of".toList
      (World.withLines [lineOf "50 of 100".toList]).db = [] := by
    rw [literalMatches, entries_withLine]
    decide
  refine ⟨hmatching, hliteral, fun hsearches => ?_⟩
  have hsame := (hsearches _ _ (World.reachable_withLines [lineOf "50 of 100".toList]) World.bobPrincipal
    "logs_a".toList _ 0 rfl).1
  have htrim : trimSpace "5% of".toList = "5% of".toList := by decide
  rw [htrim, hliteral] at hsame
  rw [hsame] at hmatching
  cases hmatching

theorem keepsSpecial_asciiLower : KeepsSpecial asciiLower := by
  intro special hspecial c
  rw [asciiLower]
  split
  · next hupper =>
      -- a letter in upper case and its lower case are both no special characters
      simp only [isUpper, Bool.and_eq_true, decide_eq_true_eq, char_le_iff] at hupper
      have hrange : 65 ≤ c.toNat ∧ c.toNat ≤ 90 := hupper
      have hvalid : (c.toNat + 32).isValidChar := Or.inl (by omega)
      have hlower : (Char.ofNat (c.toNat + 32)).toNat = c.toNat + 32 := by
        rw [Char.ofNat, dif_pos hvalid]
        rfl
      have hcode : special.toNat = 37 ∨ special.toNat = 95 ∨ special.toNat = 92 := by
        rcases isLikeSpecial_cases hspecial with rfl | rfl | rfl <;> simp
      constructor
      · rintro rfl
        omega
      · rintro rfl
        omega
  · rfl

/-- A query of letters only. -/
theorem searches_literally_disk : SearchesLiterally asciiLower (fun _ _ => true) " Disk full ".toList := by
  refine (searches_literally_iff asciiLower keepsSpecial_asciiLower _ " Disk full ".toList (by decide)).2 ?_
  have htrimmed : trimSpace " Disk full ".toList = "Disk full".toList := rfl
  rw [htrimmed]
  simp [isLikeSpecial]

end Workbench.Logs
