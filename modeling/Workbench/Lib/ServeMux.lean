import Mathlib.Tactic

/-!
# A request multiplexer

The routing of Go's `http.ServeMux` for patterns without a host: a pattern is a method and a path whose
segments are literals or wildcards, and may end with a slash to stand for a subtree. A path is matched
with its escapes, segment by segment, and each segment is unescaped before it is compared; a path with
`.`, `..` or empty segments is redirected to its clean form. The texts are byte strings, each byte as the
character of its number.
-/

set_option autoImplicit false

namespace Workbench.Lib

/-! ## Escapes -/

/-- The value of a hexadecimal digit. -/
def hexDigit (c : Char) : Option Nat :=
  if '0' ≤ c ∧ c ≤ '9' then some (c.toNat - 48)
  else if 'a' ≤ c ∧ c ≤ 'f' then some (c.toNat - 87)
  else if 'A' ≤ c ∧ c ≤ 'F' then some (c.toNat - 55)
  else none

/-- `url.PathUnescape`. -/
def unescape : List Char → Option (List Char)
  | [] => some []
  | '%' :: a :: b :: rest =>
    match hexDigit a, hexDigit b with
    | some x, some y => (unescape rest).map (Char.ofNat (16 * x + y) :: ·)
    | _, _ => none
  | '%' :: _ => none
  | c :: rest => (unescape rest).map (c :: ·)

/-- An escape ends before a slash, so that a path can be unescaped part by part. -/
theorem unescape_slash (a b : List Char) :
    unescape (a ++ '/' :: b) =
      (unescape a).bind fun x => (unescape b).map fun y => x ++ '/' :: y := by
  have hslash : hexDigit '/' = none := by decide
  fun_induction unescape a with
  | case1 => simp [unescape]
  | case2 a b' rest x y hx hy ih =>
    simp only [List.cons_append, unescape, hx, hy, ih]
    cases unescape rest with
    | none => rfl
    | some r => cases unescape b <;> rfl
  | case3 a b' rest hnone =>
    -- One of the two characters is no digit, with or without what follows.
    simp only [List.cons_append, unescape, Option.bind_none]
  | case4 rest hshort =>
    match rest, hshort with
    | [], _ =>
      cases b with
      | nil => simp [unescape]
      | cons c b => simp [unescape, hslash]
    | [c], _ => simp [unescape, hslash]
    | c :: d :: rest, hshort => exact absurd rfl (hshort c d rest)
  | case5 c rest hne hnot ih =>
    have hskip : ∀ r, unescape (c :: r) = (unescape r).map (c :: ·) := by
      intro r
      rw [unescape]
      · exact fun _ _ _ h _ => hnot h
      · exact hnot
    rw [List.cons_append, hskip, ih]
    cases unescape rest with
    | none => rfl
    | some r => cases unescape b <;> rfl

/-- The path of a request: as it was sent, and unescaped. -/
structure URL where
  escapedPath : List Char
  path : List Char
  decodes : unescape escapedPath = some path

/-! ## Clean paths -/

/-- The loop of `path.Clean` over a rooted path, with the segments that are kept so far. -/
def cleanSegments (kept : List (List Char)) : List (List Char) → List (List Char)
  | [] => kept
  | s :: rest =>
    if s = [] ∨ s = ['.'] then cleanSegments kept rest
    else if s = ['.', '.'] then cleanSegments kept.dropLast rest
    else cleanSegments (kept ++ [s]) rest

def pathClean (rooted : List Char) : List Char :=
  '/' :: ['/'].intercalate (cleanSegments [] (rooted.splitOn '/'))

/-- `cleanPath`: a trailing slash is kept. -/
def cleanPath (p : List Char) : List Char :=
  let rooted := if p.head? = some '/' then p else '/' :: p
  let np := pathClean rooted
  if rooted.getLast? = some '/' ∧ np ≠ ['/'] then np ++ ['/'] else np

theorem cleanPath_head (p : List Char) : ∃ rest, cleanPath p = '/' :: rest := by
  simp only [cleanPath]
  generalize (if p.head? = some '/' then p else '/' :: p) = rooted
  split
  · exact ⟨_, rfl⟩
  · exact ⟨_, rfl⟩

/-! ## Patterns -/

/-- A segment of a pattern; the one behind a trailing slash stands for the rest of the path. -/
inductive Segment where
  | lit (s : List Char)
  | wild (name : List Char)
  | multi
  deriving DecidableEq, Repr

/-- A literal comes from a path that was cut at its slashes. -/
def Segment.Plain : Segment → Prop
  | .lit s => '/' ∉ s
  | .wild _ => True
  | .multi => True

instance : DecidablePred Segment.Plain
  | .lit s => inferInstanceAs (Decidable ('/' ∉ s))
  | .wild _ => inferInstanceAs (Decidable True)
  | .multi => inferInstanceAs (Decidable True)

/-- A registered pattern; without a method it serves them all. -/
structure Pattern where
  method : Option (List Char)
  segments : List Segment
  deriving DecidableEq, Repr

/-- A segment of a path that is compared with the literals; what does not unescape is left. -/
def pathUnescape (s : List Char) : List Char := (unescape s).getD s

/-- The segments of a path in the order of `firstSegment`: a trailing slash comes as `/`. -/
def segmentsOf : List (List Char) → List (List Char)
  | [] => []
  | [s] => if s = [] then [['/']] else [pathUnescape s]
  | s :: rest => pathUnescape s :: segmentsOf rest

def pathSegments : List Char → List (List Char)
  | [] => []
  | _ :: p => segmentsOf (p.splitOn '/')

/-! ## Routing

A node of the routing tree is the list of the patterns below it, each with the segments that are left. -/

abbrev Node := List (List Segment × Pattern)

namespace Node

/-- The pattern that ends at the node. -/
def leaf (n : Node) : Option Pattern :=
  n.findSome? fun e => if e.1 = [] then some e.2 else none

def emptyChild (n : Node) : Node :=
  n.filterMap fun e =>
    match e.1 with
    | .wild _ :: rest => some (rest, e.2)
    | _ => none

def findChild (n : Node) (key : List Char) : Node :=
  if key = [] then n.emptyChild
  else n.filterMap fun e =>
    match e.1 with
    | .lit s :: rest => if s = key then some (rest, e.2) else none
    | _ => none

def multiChild (n : Node) : Option Pattern :=
  n.findSome? fun e => if e.1 = [.multi] then some e.2 else none

/-- A literal goes before a wildcard, and that before a subtree; a single wildcard does not match a
trailing slash. -/
def matchPath (n : Node) : List (List Char) → Option Pattern
  | [] => n.leaf
  | seg :: rest =>
    match (n.findChild seg).matchPath rest with
    | some p => some p
    | none =>
      match if seg ≠ ['/'] then n.emptyChild.matchPath rest else none with
      | some p => some p
      | none => n.multiChild

end Node

/-- What a pattern asks of the segments of a path. -/
def Matches : List Segment → List (List Char) → Prop
  | [], [] => True
  | .lit l :: pat, s :: rest => l = s ∧ Matches pat rest
  | .wild _ :: pat, s :: rest => s ≠ ['/'] ∧ Matches pat rest
  | [.multi], _ :: _ => True
  | _, _ => False

theorem Node.mem_emptyChild {n : Node} {pat : List Segment} {p : Pattern} (h : (pat, p) ∈ n.emptyChild) :
    ∃ name, (.wild name :: pat, p) ∈ n := by
  obtain ⟨⟨segs, q⟩, hmem, heq⟩ := List.mem_filterMap.1 h
  match segs, hmem, heq with
  | .wild name :: rest, hmem, heq =>
    cases heq
    exact ⟨name, hmem⟩

theorem Node.mem_findChild {n : Node} {key : List Char} {pat : List Segment} {p : Pattern}
    (h : (pat, p) ∈ n.findChild key) :
    (.lit key :: pat, p) ∈ n ∨ key = [] ∧ ∃ name, (.wild name :: pat, p) ∈ n := by
  rw [findChild] at h
  split at h
  · next hkey => exact Or.inr ⟨hkey, mem_emptyChild h⟩
  · obtain ⟨⟨segs, q⟩, hmem, heq⟩ := List.mem_filterMap.1 h
    match segs, hmem, heq with
    | .lit s :: rest, hmem, heq =>
      obtain ⟨hs, heq⟩ := Option.ite_none_right_eq_some.1 heq
      cases heq
      cases hs
      exact Or.inl hmem

theorem Node.mem_leaf {n : Node} {p : Pattern} (h : n.leaf = some p) : ([], p) ∈ n := by
  obtain ⟨⟨segs, q⟩, hmem, heq⟩ := List.exists_of_findSome?_eq_some h
  rw [Option.ite_none_right_eq_some] at heq
  obtain ⟨rfl, heq⟩ := heq
  cases heq
  exact hmem

theorem Node.mem_multiChild {n : Node} {p : Pattern} (h : n.multiChild = some p) :
    ([.multi], p) ∈ n := by
  obtain ⟨⟨segs, q⟩, hmem, heq⟩ := List.exists_of_findSome?_eq_some h
  rw [Option.ite_none_right_eq_some] at heq
  obtain ⟨rfl, heq⟩ := heq
  cases heq
  exact hmem

/-- What the routing tree finds matches. -/
theorem Node.matchPath_sound {segs : List (List Char)} :
    ∀ {n : Node} {p : Pattern}, n.matchPath segs = some p → ∃ pat, (pat, p) ∈ n ∧ Matches pat segs := by
  induction segs with
  | nil =>
    intro n p h
    exact ⟨[], mem_leaf h, trivial⟩
  | cons seg rest ih =>
    intro n p h
    rw [matchPath] at h
    split at h
    · next q hchild =>
        cases h
        obtain ⟨pat, hmem, hrest⟩ := ih hchild
        rcases mem_findChild hmem with hlit | ⟨rfl, name, hwild⟩
        · exact ⟨_, hlit, rfl, hrest⟩
        · exact ⟨_, hwild, by simp, hrest⟩
    · split at h
      · next q hchild =>
          cases h
          split at hchild
          · next hseg =>
              obtain ⟨pat, hmem, hrest⟩ := ih hchild
              obtain ⟨name, hwild⟩ := mem_emptyChild hmem
              exact ⟨_, hwild, hseg, hrest⟩
          · cases hchild
      · exact ⟨_, mem_multiChild h, trivial⟩

/-! ## What a matched path spells -/

/-- An unescaped path has the form of a pattern. -/
inductive Spelled : List Segment → List Char → Prop
  | nil : Spelled [] []
  | lit {l : List Char} {pat : List Segment} {path : List Char} (h : Spelled pat path) :
      Spelled (.lit l :: pat) ('/' :: (l ++ path))
  | wild {name s : List Char} {pat : List Segment} {path : List Char} (h : Spelled pat path) :
      Spelled (.wild name :: pat) ('/' :: (s ++ path))
  | multi {path : List Char} : Spelled [.multi] ('/' :: path)

/-- The pieces between the slashes. -/
def joined (pieces : List (List Char)) : List Char := pieces.flatMap ('/' :: ·)

theorem joined_splitOn (p : List Char) : joined (p.splitOn '/') = '/' :: p := by
  have hjoined : ∀ (s : List Char) (rest : List (List Char)),
      joined (s :: rest) = '/' :: ['/'].intercalate (s :: rest) := by
    intro s rest
    induction rest generalizing s with
    | nil => simp [joined]
    | cons t rest ih =>
      have hrest := ih t
      simp only [joined, List.flatMap_cons, List.intercalate_cons_cons] at hrest ⊢
      rw [hrest]
      simp
  obtain ⟨s, rest, hpieces⟩ := List.exists_cons_of_ne_nil (List.splitOn_ne_nil '/' p)
  rw [hpieces, hjoined, ← hpieces, List.intercalate_splitOn]

theorem unescape_joined {s out : List Char} {rest : List (List Char)}
    (h : unescape (joined (s :: rest)) = some out) :
    ∃ x y, unescape s = some x ∧ unescape (joined rest) = some y ∧ out = '/' :: (x ++ y) := by
  have hhead : ∀ b, unescape ('/' :: b) = (unescape b).map ('/' :: ·) := by
    intro b
    simp [unescape]
  simp only [joined, List.flatMap_cons, List.cons_append, hhead, Option.map_eq_some_iff] at h
  obtain ⟨inner, hinner, rfl⟩ := h
  cases rest with
  | nil =>
    rw [List.flatMap_nil, List.append_nil] at hinner
    exact ⟨inner, [], hinner, rfl, by simp⟩
  | cons t rest =>
    rw [List.flatMap_cons, List.cons_append, unescape_slash, Option.bind_eq_some_iff] at hinner
    obtain ⟨x, hx, hinner⟩ := hinner
    obtain ⟨y, hy, rfl⟩ := Option.map_eq_some_iff.1 hinner
    refine ⟨x, '/' :: y, hx, ?_, rfl⟩
    rw [joined, List.flatMap_cons, List.cons_append, hhead, hy, Option.map_some]

theorem spelled_of_matches {pieces : List (List Char)} :
    ∀ {pat : List Segment} {out : List Char}, (∀ seg ∈ pat, seg.Plain) →
      Matches pat (segmentsOf pieces) → unescape (joined pieces) = some out → Spelled pat out := by
  induction pieces with
  | nil =>
    intro pat out hplain hmatch hout
    cases hout
    cases pat with
    | nil => exact Spelled.nil
    | cons seg pat => cases seg <;> simp [segmentsOf, Matches] at hmatch
  | cons s rest ih =>
    intro pat out hplain hmatch hout
    obtain ⟨x, y, hx, hy, rfl⟩ := unescape_joined hout
    have hseg : ∃ d, segmentsOf (s :: rest) = d :: segmentsOf rest ∧ (d = ['/'] ∨ d = x) := by
      cases rest with
      | nil =>
        by_cases hs : s = []
        · exact ⟨['/'], by simp [segmentsOf, hs], Or.inl rfl⟩
        · exact ⟨x, by simp [segmentsOf, hs, pathUnescape, hx], Or.inr rfl⟩
      | cons t rest => exact ⟨_, rfl, Or.inr (by rw [pathUnescape, hx, Option.getD_some])⟩
    obtain ⟨d, hd, hcase⟩ := hseg
    rw [hd] at hmatch
    match pat, hmatch, hplain with
    | .lit l :: pat, ⟨hl, hrest⟩, hplain =>
      -- A literal has no slash, so the segment was no trailing slash.
      have hnoslash : '/' ∉ l := hplain _ List.mem_cons_self
      rcases hcase with hslash | hx'
      · rw [hl, hslash] at hnoslash
        exact absurd List.mem_cons_self hnoslash
      · rw [← hx', ← hl]
        apply Spelled.lit
        exact ih (fun _ hmem => hplain _ (List.mem_cons_of_mem _ hmem)) hrest hy
    | .wild name :: pat, ⟨_, hrest⟩, hplain =>
      apply Spelled.wild
      exact ih (fun _ hmem => hplain _ (List.mem_cons_of_mem _ hmem)) hrest hy
    | [.multi], _, _ => exact Spelled.multi

/-- Whether a path could have the form of a pattern, as far as its literals in front go. -/
def couldSpell : List Segment → List Char → Bool
  | [], path => path = []
  | .lit l :: pat, path =>
    if ('/' :: l).isPrefixOf path then couldSpell pat (path.drop (l.length + 1)) else false
  | _ :: _, path => path.head? = some '/'

theorem Spelled.couldSpell {pat : List Segment} {path : List Char} (h : Spelled pat path) :
    couldSpell pat path = true := by
  induction h with
  | nil => rfl
  | @lit l pat path _ ih =>
    have hfront : ('/' :: l).isPrefixOf ('/' :: (l ++ path)) = true :=
      List.isPrefixOf_iff_prefix.2 (List.prefix_append ('/' :: l) path)
    rw [Lib.couldSpell, if_pos hfront, List.drop_succ_cons, List.drop_left]
    exact ih
  | wild _ _ => rfl
  | multi => rfl

/-! ## Finding the handler -/

def methodGet : List Char := "GET".toList
def methodHead : List Char := "HEAD".toList
def methodConnect : List Char := "CONNECT".toList

/-- The patterns that were registered. -/
abbrev ServeMux := List Pattern

namespace ServeMux

/-- The tree of the patterns with one method. -/
def root (mux : ServeMux) (method : Option (List Char)) : Node :=
  (mux.filter fun p => p.method = method).map fun p => (p.segments, p)

/-- `matchMethodAndPath`: a handler for `GET` also serves `HEAD`. -/
def lookup (mux : ServeMux) (method path : List Char) : Option Pattern :=
  match (mux.root (some method)).matchPath (pathSegments path) with
  | some p => some p
  | none =>
    match if method = methodHead then
        (mux.root (some methodGet)).matchPath (pathSegments path) else none with
    | some p => some p
    | none => (mux.root none).matchPath (pathSegments path)

end ServeMux

/-- The match is no proper subtree. -/
def exactMatch (found : Option Pattern) (path : List Char) : Bool :=
  match found with
  | none => false
  | some p =>
    if p.segments.getLast? ≠ some .multi then true
    else if path ≠ [] ∧ path.getLast? ≠ some '/' then false
    else p.segments.length = path.count '/'

/-- What becomes of a request: the handler of a pattern takes it, or the multiplexer answers itself. -/
inductive Routed where
  | handler (p : Pattern)
  | redirect (path : List Char)
  | methodNotAllowed
  | notFound
  deriving DecidableEq, Repr

namespace ServeMux

/-- The redirection of `matchOrRedirect` to a subtree. -/
def redirectTo (mux : ServeMux) (method path : List Char) (url : URL) : Option (List Char) :=
  if exactMatch (mux.lookup method path) path = false ∧ path.getLast? ≠ some '/' ∧ path ≠ [] ∧
      exactMatch (mux.lookup method (path ++ ['/'])) (path ++ ['/']) then
    some (cleanPath url.path ++ ['/'])
  else none

/-- What answers where no pattern has both the method and the path. -/
def unmatched (mux : ServeMux) (path : List Char) : Routed :=
  if mux.any fun p => ((mux.root p.method).matchPath (pathSegments path)).isSome then .methodNotAllowed
  else .notFound

/-- `findHandler`: the path of a `CONNECT` request is not cleaned. -/
def findHandler (mux : ServeMux) (method : List Char) (url : URL) : Routed :=
  let path := if method = methodConnect then url.escapedPath else cleanPath url.escapedPath
  match mux.redirectTo method path url with
  | some target => .redirect target
  | none =>
    if path ≠ url.escapedPath then .redirect path
    else
      match mux.lookup method path with
      | some p => .handler p
      | none => mux.unmatched path

theorem mem_root {mux : ServeMux} {method : Option (List Char)} {pat : List Segment} {p : Pattern}
    (h : (pat, p) ∈ mux.root method) : p ∈ mux ∧ p.method = method ∧ pat = p.segments := by
  obtain ⟨q, hq, heq⟩ := List.mem_map.1 h
  obtain ⟨hmem, hmethod⟩ := List.mem_filter.1 hq
  cases heq
  exact ⟨hmem, of_decide_eq_true hmethod, rfl⟩

/-- The pattern has the method of the request, or takes it for another reason. -/
def Serves (p : Pattern) (method : List Char) : Prop :=
  p.method = some method ∨ method = methodHead ∧ p.method = some methodGet ∨ p.method = none

theorem lookup_sound {mux : ServeMux} {method path : List Char} {p : Pattern}
    (h : mux.lookup method path = some p) :
    p ∈ mux ∧ Serves p method ∧ Matches p.segments (pathSegments path) := by
  have hroot : ∀ {m : Option (List Char)}, (mux.root m).matchPath (pathSegments path) = some p →
      p ∈ mux ∧ p.method = m ∧ Matches p.segments (pathSegments path) := by
    intro m hm
    obtain ⟨pat, hmem, hmatch⟩ := Node.matchPath_sound hm
    obtain ⟨hp, hmethod, rfl⟩ := mem_root hmem
    exact ⟨hp, hmethod, hmatch⟩
  rw [lookup] at h
  split at h
  · next q hq =>
      cases h
      obtain ⟨hp, hmethod, hmatch⟩ := hroot hq
      exact ⟨hp, Or.inl hmethod, hmatch⟩
  · split at h
    · next q hq =>
        cases h
        rw [Option.ite_none_right_eq_some] at hq
        obtain ⟨hhead, hq⟩ := hq
        obtain ⟨hp, hmethod, hmatch⟩ := hroot hq
        exact ⟨hp, Or.inr (Or.inl ⟨hhead, hmethod⟩), hmatch⟩
    · obtain ⟨hp, hmethod, hmatch⟩ := hroot h
      exact ⟨hp, Or.inr (Or.inr hmethod), hmatch⟩

/-- A handler runs for a registered pattern with the method of the request, and the unescaped path has
the form of this pattern. -/
theorem findHandler_sound {mux : ServeMux} (hplain : ∀ q ∈ mux, ∀ s ∈ q.segments, s.Plain) {method : List Char} {url : URL}
    {p : Pattern} (h : mux.findHandler method url = .handler p) :
    p ∈ mux ∧ Serves p method ∧ (method ≠ methodConnect → Spelled p.segments url.path) := by
  simp only [findHandler] at h
  generalize hpath : (if method = methodConnect then url.escapedPath
    else cleanPath url.escapedPath) = path at h
  split at h
  · cases h
  · split at h
    · cases h
    · next hclean =>
        rw [not_not] at hclean
        split at h
        · next q hlookup =>
            cases h
            obtain ⟨hp, hserves, hmatch⟩ := lookup_sound hlookup
            refine ⟨hp, hserves, ?_⟩
            intro hconnect
            -- The path is its own clean form, which begins with a slash.
            rw [if_neg hconnect] at hpath
            obtain ⟨rest, hrest⟩ := cleanPath_head url.escapedPath
            rw [← hpath, hrest, pathSegments] at hmatch
            apply spelled_of_matches (hplain p hp) hmatch
            rw [joined_splitOn, ← hrest, hpath, hclean]
            exact url.decodes
        · rw [unmatched] at h
          split at h <;> cases h

end ServeMux

end Workbench.Lib
