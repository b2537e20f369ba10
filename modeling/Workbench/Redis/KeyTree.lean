import Mathlib.Data.List.Perm.Lattice
import Workbench.Base.Text
import Workbench.Lib.Infixes

/-!
# The tree of keys

`buildRedisKeyTree` of `web/src/features/redis/redisKeyHierarchy.ts` cuts each key at the separator, inserts the keys
into folders one after another, and shows folders and keys in the order of `localeCompare`. The tree has every key that
it was built of, in the folders that `folderPathForKey` opens for it (`buildRedisKeyTree_complete`). A text is a list of
code units, and the separator is one of them.
-/

set_option autoImplicit false

namespace Workbench.Redis

open Workbench.Lib

variable {α : Type}

structure RedisKeySummary (α : Type) where
  key : List α
  type : Text
  ttl : Int
  deriving DecidableEq

inductive RedisKeyTreeNode (α : Type) where
  | folder (name prefixText : List α) (count : Nat) (children : List (RedisKeyTreeNode α))
  | key (item : RedisKeySummary α) (displayName : List α)

mutual

inductive InternalNode (α : Type) where
  | mk (name prefixText : List α) (folders : Folders α) (keys : List (RedisKeySummary α))

/-- The map `folders`, in the order of its insertions. -/
inductive Folders (α : Type) where
  | nil
  | cons (name : List α) (child : InternalNode α) (rest : Folders α)

end

def InternalNode.name : InternalNode α → List α
  | .mk name _ _ _ => name

def InternalNode.prefixText : InternalNode α → List α
  | .mk _ prefixText _ _ => prefixText

mutual

def countKeys : InternalNode α → Nat
  | .mk _ _ folders keys => keys.length + countFolders folders

def countFolders : Folders α → Nat
  | .nil => 0
  | .cons _ child rest => countKeys child + countFolders rest

end

section Insert

variable [DecidableEq α]

def Folders.get (name : List α) : Folders α → Option (InternalNode α)
  | .nil => none
  | .cons other child rest => if other = name then some child else rest.get name

def Folders.set (name : List α) (child : InternalNode α) : Folders α → Folders α
  | .nil => .cons name child .nil
  | .cons other old rest => if other = name then .cons other child rest else .cons other old (rest.set name child)

/-- `insertKey`, of the parts that are left. No key has no parts. -/
def insertKey (separator : α) (item : RedisKeySummary α) :
    List (List α) → List (List α) → InternalNode α → InternalNode α
  | [], _, node => node
  | [_], _, .mk name prefixText folders keys => .mk name prefixText folders (keys ++ [item])
  | head :: next :: rest, prefixParts, .mk name prefixText folders keys =>
    let childPrefix := [separator].intercalate (prefixParts ++ [head])
    let child := (folders.get head).getD (.mk head childPrefix .nil [])
    .mk name prefixText
      (folders.set head (insertKey separator item (next :: rest) (prefixParts ++ [head]) child)) keys

/-- What is behind the last separator of a key. -/
def displayName (separator : α) (key : List α) : List α :=
  match cutLast separator key with
  | some (_, name) => name
  | none => key

mutual

/-- `toTreeNodes`. The folders are sorted by their names, with the nodes that are made of them. -/
def toTreeNodes (localeCompare : List α → List α → Int) (separator : α) : InternalNode α → List (RedisKeyTreeNode α)
  | .mk _ _ folders keys =>
    ((folderNodes localeCompare separator folders).mergeSort fun left right =>
        localeCompare left.1 right.1 ≤ 0).map Prod.snd ++
      (keys.mergeSort fun left right => localeCompare left.key right.key ≤ 0).map fun item =>
        .key item (displayName separator item.key)

def folderNodes (localeCompare : List α → List α → Int) (separator : α) :
    Folders α → List (List α × RedisKeyTreeNode α)
  | .nil => []
  | .cons _ folder rest =>
    (folder.name, .folder folder.name folder.prefixText (countKeys folder)
      (toTreeNodes localeCompare separator folder)) :: folderNodes localeCompare separator rest

end

def rootNode : InternalNode α := .mk [] [] .nil []

def buildRedisKeyTree (localeCompare : List α → List α → Int) (separator : α) (keys : List (RedisKeySummary α)) :
    List (RedisKeyTreeNode α) :=
  toTreeNodes localeCompare separator
    (keys.foldl (fun root item => insertKey separator item (item.key.splitOn separator) [] root) rootNode)

def folderPathForKey (separator : α) (key : List α) : List (List α) :=
  let parts := key.splitOn separator
  if parts.length ≤ 1 then []
  else (List.range (parts.length - 1)).map fun index => [separator].intercalate (parts.take (index + 1))

end Insert

/-! ## What a tree shows -/

/-- A key in a tree, below the folders with these prefixes. -/
structure Leaf (α : Type) where
  above : List (List α)
  item : RedisKeySummary α
  displayName : List α

mutual

def RedisKeyTreeNode.leaves (above : List (List α)) : RedisKeyTreeNode α → List (Leaf α)
  | .folder _ prefixText _ children => leavesOf (above ++ [prefixText]) children
  | .key item displayName => [⟨above, item, displayName⟩]

def leavesOf (above : List (List α)) : List (RedisKeyTreeNode α) → List (Leaf α)
  | [] => []
  | node :: rest => node.leaves above ++ leavesOf above rest

end

/-- The nodes that stand side by side in a tree. -/
inductive IsLevel : List (RedisKeyTreeNode α) → List (RedisKeyTreeNode α) → Prop where
  | root (nodes : List (RedisKeyTreeNode α)) : IsLevel nodes nodes
  | inside {nodes children level : List (RedisKeyTreeNode α)} {name prefixText : List α} {count : Nat} :
      .folder name prefixText count children ∈ nodes → IsLevel children level → IsLevel nodes level

def RedisKeyTreeNode.folderName : RedisKeyTreeNode α → Option (List α)
  | .folder name _ _ _ => some name
  | .key _ _ => none

/-- A tree that has its keys where they are looked for. -/
structure Complete [DecidableEq α] (separator : α) (keys : List (RedisKeySummary α))
    (tree : List (RedisKeyTreeNode α)) : Prop where
  leaves : ((leavesOf [] tree).map Leaf.item).Perm keys
  counts : ∀ level, IsLevel tree level → ∀ name prefixText count children,
    .folder name prefixText count children ∈ level → count = (leavesOf [] children).length
  distinct : ∀ level, IsLevel tree level → (level.filterMap RedisKeyTreeNode.folderName).Nodup
  paths : ∀ leaf ∈ leavesOf [] tree, leaf.above = folderPathForKey separator leaf.item.key
  names : ∀ leaf ∈ leavesOf [] tree,
    leaf.item.key = leaf.above.getLast?.elim leaf.displayName fun last => last ++ separator :: leaf.displayName

theorem leavesOf_eq_flatMap (above : List (List α)) (nodes : List (RedisKeyTreeNode α)) :
    leavesOf above nodes = nodes.flatMap (RedisKeyTreeNode.leaves above) := by
  induction nodes with
  | nil => rw [leavesOf, List.flatMap_nil]
  | cons node rest ih => rw [leavesOf, List.flatMap_cons, ih]

theorem leavesOf_append (above : List (List α)) (nodes more : List (RedisKeyTreeNode α)) :
    leavesOf above (nodes ++ more) = leavesOf above nodes ++ leavesOf above more := by
  rw [leavesOf_eq_flatMap, leavesOf_eq_flatMap, leavesOf_eq_flatMap, List.flatMap_append]

theorem leavesOf_perm (above : List (List α)) {nodes others : List (RedisKeyTreeNode α)} (h : nodes.Perm others) :
    (leavesOf above nodes).Perm (leavesOf above others) := by
  rw [leavesOf_eq_flatMap, leavesOf_eq_flatMap]
  exact h.flatMap_right _

/-! ## Keys that are inserted -/

mutual

def InternalNode.items : InternalNode α → List (RedisKeySummary α)
  | .mk _ _ folders keys => folders.items ++ keys

def Folders.items : Folders α → List (RedisKeySummary α)
  | .nil => []
  | .cons _ child rest => child.items ++ rest.items

end

mutual

theorem countKeys_eq : ∀ node : InternalNode α, countKeys node = node.items.length
  | .mk name prefixText folders keys => by
    rw [countKeys, InternalNode.items, List.length_append, countFolders_eq folders, Nat.add_comm]

theorem countFolders_eq : ∀ folders : Folders α, countFolders folders = folders.items.length
  | .nil => by rw [countFolders, Folders.items, List.length_nil]
  | .cons name child rest => by
    rw [countFolders, Folders.items, List.length_append, countKeys_eq child, countFolders_eq rest]

end

section

variable [DecidableEq α] {separator : α} {item : RedisKeySummary α}

/-- A folder that gets one item more. -/
theorem Folders.items_set_of_some {name : List α} {old child : InternalNode α}
    (hchild : child.items.Perm (item :: old.items)) :
    ∀ {folders : Folders α}, folders.get name = some old → (folders.set name child).items.Perm (item :: folders.items)
  | .nil, h => by cases h
  | .cons other first rest, h => by
    rw [Folders.get] at h
    rw [Folders.set]
    by_cases hname : other = name
    · rw [if_pos hname] at h ⊢
      obtain rfl := Option.some.inj h
      exact hchild.append_right rest.items
    · rw [if_neg hname] at h ⊢
      exact ((items_set_of_some hchild h).append_left first.items).trans List.perm_middle

theorem Folders.items_set_of_none {name : List α} {child : InternalNode α} (hchild : child.items = [item]) :
    ∀ {folders : Folders α}, folders.get name = none → (folders.set name child).items.Perm (item :: folders.items)
  | .nil, _ => by
    rw [Folders.set, Folders.items, Folders.items, hchild]
    rfl
  | .cons other first rest, h => by
    rw [Folders.get] at h
    rw [Folders.set]
    by_cases hname : other = name
    · rw [if_pos hname] at h
      cases h
    · rw [if_neg hname] at h ⊢
      exact ((items_set_of_none hchild h).append_left first.items).trans List.perm_middle

theorem items_insertKey {parts : List (List α)} (hne : parts ≠ []) (prefixParts : List (List α))
    (node : InternalNode α) : (insertKey separator item parts prefixParts node).items.Perm (item :: node.items) := by
  -- By induction over the parts of the key: all but the last one lead to a folder.
  induction parts generalizing prefixParts node with
  | nil => exact absurd rfl hne
  | cons head rest ih =>
    obtain ⟨name, prefixText, folders, keys⟩ := node
    cases rest with
    | nil =>
      rw [insertKey, InternalNode.items, InternalNode.items, ← List.append_assoc]
      exact List.perm_append_singleton item _
    | cons next more =>
      have hrest := ih (List.cons_ne_nil next more) (prefixParts ++ [head])
      rw [insertKey, InternalNode.items, InternalNode.items]
      -- The folder is there, or it is made for the key.
      cases hget : folders.get head with
      | some old => exact (Folders.items_set_of_some (hrest old) hget).append_right keys
      | none => exact (Folders.items_set_of_none (List.perm_singleton.1 (hrest _)) hget).append_right keys

/-! ## Where the keys are inserted -/

/-- The prefixes of the folders that these parts name. -/
def prefixes (separator : α) (parts : List (List α)) : List (List α) :=
  (List.range parts.length).map fun index => [separator].intercalate (parts.take (index + 1))

def Folders.names : Folders α → List (List α)
  | .nil => []
  | .cons name _ rest => name :: rest.names

mutual

/-- The keys of a node have its parts in front, and its folders have different names. -/
def InternalNode.Wf (separator : α) (parts : List (List α)) : InternalNode α → Prop
  | .mk _ _ folders keys =>
    folders.Wf separator parts ∧ ∀ item ∈ keys, ∃ last, item.key.splitOn separator = parts ++ [last]

def Folders.Wf (separator : α) (parts : List (List α)) : Folders α → Prop
  | .nil => True
  | .cons name child rest => name ∉ rest.names ∧ child.name = name ∧
      child.prefixText = [separator].intercalate (parts ++ [name]) ∧ child.Wf separator (parts ++ [name]) ∧
      rest.Wf separator parts

end

/-- A folder as it belongs below these parts. -/
structure IsFolder (separator : α) (parts : List (List α)) (name : List α) (child : InternalNode α) : Prop where
  name_eq : child.name = name
  prefixText_eq : child.prefixText = [separator].intercalate (parts ++ [name])
  wf : child.Wf separator (parts ++ [name])

theorem Folders.wf_cons {parts : List (List α)} {name : List α} {child : InternalNode α} {rest : Folders α} :
    (Folders.cons name child rest).Wf separator parts ↔
      name ∉ rest.names ∧ IsFolder separator parts name child ∧ rest.Wf separator parts := by
  rw [Folders.Wf]
  exact ⟨fun ⟨hnew, hname, hprefix, hchild, hrest⟩ => ⟨hnew, ⟨hname, hprefix, hchild⟩, hrest⟩,
    fun ⟨hnew, ⟨hname, hprefix, hchild⟩, hrest⟩ => ⟨hnew, hname, hprefix, hchild, hrest⟩⟩

theorem Folders.isFolder_of_get {parts : List (List α)} {name : List α} {child : InternalNode α} :
    ∀ {folders : Folders α}, folders.Wf separator parts → folders.get name = some child →
      IsFolder separator parts name child
  | .nil, _, h => by cases h
  | .cons other first rest, hwf, h => by
    obtain ⟨-, hfirst, hrest⟩ := wf_cons.1 hwf
    rw [Folders.get] at h
    by_cases hname : other = name
    · rw [if_pos hname] at h
      obtain rfl := Option.some.inj h
      exact hname ▸ hfirst
    · rw [if_neg hname] at h
      exact isFolder_of_get hrest h

theorem Folders.mem_names_set {name other : List α} {child : InternalNode α} :
    ∀ {folders : Folders α}, other ∈ (folders.set name child).names → other = name ∨ other ∈ folders.names
  | .nil, h => .inl (List.mem_singleton.1 h)
  | .cons first old rest, h => by
    rw [Folders.set] at h
    by_cases hname : first = name
    · rw [if_pos hname] at h
      exact .inr h
    · rw [if_neg hname] at h
      rcases List.mem_cons.1 h with rfl | hmem
      · exact .inr List.mem_cons_self
      · exact (mem_names_set hmem).imp_right (List.mem_cons_of_mem first)

theorem Folders.wf_set {parts : List (List α)} {name : List α} {child : InternalNode α}
    (hchild : IsFolder separator parts name child) :
    ∀ {folders : Folders α}, folders.Wf separator parts → (folders.set name child).Wf separator parts
  | .nil, _ => wf_cons.2 ⟨List.not_mem_nil, hchild, trivial⟩
  | .cons other first rest, hwf => by
    obtain ⟨hnew, hfirst, hrest⟩ := wf_cons.1 hwf
    rw [Folders.set]
    by_cases hname : other = name
    · rw [if_pos hname]
      exact wf_cons.2 ⟨hnew, hname ▸ hchild, hrest⟩
    · rw [if_neg hname]
      exact wf_cons.2 ⟨fun hmem => (mem_names_set hmem).elim hname hnew, hfirst, wf_set hchild hrest⟩

/-- Inserting a key keeps every key where its parts say, and the node its name and prefix. -/
theorem wf_insertKey {parts prefixParts : List (List α)} (hne : parts ≠ [])
    (hparts : item.key.splitOn separator = prefixParts ++ parts) {node : InternalNode α}
    (hwf : node.Wf separator prefixParts) :
    (insertKey separator item parts prefixParts node).Wf separator prefixParts ∧
      (insertKey separator item parts prefixParts node).name = node.name ∧
      (insertKey separator item parts prefixParts node).prefixText = node.prefixText := by
  -- What is inserted below has the parts of the way there in front of its own.
  induction parts generalizing prefixParts node with
  | nil => exact absurd rfl hne
  | cons head rest ih =>
    obtain ⟨name, prefixText, folders, keys⟩ := node
    obtain ⟨hfolders, hkeys⟩ := hwf
    cases rest with
    | nil =>
      refine ⟨⟨hfolders, fun other hother => ?_⟩, rfl, rfl⟩
      rcases List.mem_append.1 hother with hold | hnew
      · exact hkeys other hold
      · rw [List.mem_singleton.1 hnew]
        exact ⟨head, hparts⟩
    | cons next more =>
      have hbelow : item.key.splitOn separator = prefixParts ++ [head] ++ next :: more := by
        rw [hparts, List.append_assoc, List.singleton_append]
      refine ⟨⟨Folders.wf_set ?_ hfolders, hkeys⟩, rfl, rfl⟩
      cases hget : folders.get head with
      | some old =>
        have hold := Folders.isFolder_of_get hfolders hget
        obtain ⟨hwf, hname, hprefix⟩ := ih (List.cons_ne_nil next more) hbelow hold.wf
        exact ⟨hname.trans hold.name_eq, hprefix.trans hold.prefixText_eq, hwf⟩
      | none =>
        -- A folder that is made is empty, and has its name and its prefix from the way there.
        have hfresh : (InternalNode.mk head ([separator].intercalate (prefixParts ++ [head])) .nil []).Wf
            separator (prefixParts ++ [head]) := ⟨trivial, fun _ h => absurd h List.not_mem_nil⟩
        obtain ⟨hwf, hname, hprefix⟩ := ih (List.cons_ne_nil next more) hbelow hfresh
        exact ⟨hname, hprefix, hwf⟩

/-- The keys that have been inserted. -/
theorem inserted (separator : α) (keys : List (RedisKeySummary α)) :
    let root := keys.foldl (fun root item => insertKey separator item (item.key.splitOn separator) [] root) rootNode
    root.items.Perm keys ∧ root.Wf separator [] := by
  induction keys using List.reverseRecOn with
  | nil => exact ⟨List.Perm.nil, trivial, fun _ h => absurd h List.not_mem_nil⟩
  | append_singleton keys item ih =>
    obtain ⟨hitems, hwf⟩ := ih
    have hne := List.splitOn_ne_nil separator item.key
    dsimp only
    rw [List.foldl_concat]
    refine ⟨?_, (wf_insertKey hne rfl hwf).1⟩
    exact (items_insertKey hne [] _).trans ((hitems.cons item).trans (List.perm_append_singleton item keys).symm)

/-! ## Leaves of the tree -/

/-- The node of a key. -/
def keyNode (separator : α) (item : RedisKeySummary α) : RedisKeyTreeNode α :=
  .key item (displayName separator item.key)

theorem leavesOf_keys (separator : α) (above : List (List α)) (keys : List (RedisKeySummary α)) :
    leavesOf above (keys.map (keyNode separator)) =
      keys.map fun item => ⟨above, item, displayName separator item.key⟩ := by
  induction keys with
  | nil => rw [List.map_nil, leavesOf, List.map_nil]
  | cons item rest ih =>
    rw [List.map_cons, leavesOf, ih, keyNode, RedisKeyTreeNode.leaves]
    rfl

/-- The order of the nodes is for the eye. -/
theorem toTreeNodes_perm (localeCompare : List α → List α → Int) (separator : α) (name prefixText : List α)
    (folders : Folders α) (keys : List (RedisKeySummary α)) :
    (toTreeNodes localeCompare separator (.mk name prefixText folders keys)).Perm
      ((folderNodes localeCompare separator folders).map Prod.snd ++ keys.map (keyNode separator)) := by
  rw [toTreeNodes]
  exact ((List.mergeSort_perm _ _).map Prod.snd).append ((List.mergeSort_perm _ _).map _)

variable (localeCompare : List α → List α → Int)

mutual

/-- The leaves below a node are its keys. -/
theorem leaves_toTreeNodes (above : List (List α)) : ∀ node : InternalNode α,
    ((leavesOf above (toTreeNodes localeCompare separator node)).map Leaf.item).Perm node.items
  | .mk name prefixText folders keys => by
    have hperm := leavesOf_perm above (toTreeNodes_perm localeCompare separator name prefixText folders keys)
    rw [leavesOf_append, leavesOf_keys] at hperm
    have hitems := hperm.map Leaf.item
    rw [List.map_append, List.map_map] at hitems
    have hkeys : (Leaf.item ∘ fun item : RedisKeySummary α => ⟨above, item, displayName separator item.key⟩) = id :=
      rfl
    rw [hkeys, List.map_id] at hitems
    rw [InternalNode.items]
    exact hitems.trans ((leaves_folderNodes above folders).append_right keys)

theorem leaves_folderNodes (above : List (List α)) : ∀ folders : Folders α,
    ((leavesOf above ((folderNodes localeCompare separator folders).map Prod.snd)).map Leaf.item).Perm folders.items
  | .nil => by
    rw [folderNodes, List.map_nil, leavesOf, Folders.items]
    exact List.Perm.nil
  | .cons name child rest => by
    rw [folderNodes, List.map_cons, leavesOf, RedisKeyTreeNode.leaves, List.map_append, Folders.items]
    exact (leaves_toTreeNodes _ child).append (leaves_folderNodes above rest)

end

/-! ## Folders above a leaf -/

omit [DecidableEq α] in
theorem prefixes_concat (parts : List (List α)) (part : List α) :
    prefixes separator (parts ++ [part]) = prefixes separator parts ++ [[separator].intercalate (parts ++ [part])] := by
  have hsame : ∀ index ∈ List.range parts.length,
      [separator].intercalate ((parts ++ [part]).take (index + 1)) =
        [separator].intercalate (parts.take (index + 1)) := by
    intro index hindex
    rw [List.take_append_of_le_length (List.mem_range.1 hindex)]
  have hlast : (parts ++ [part]).take (parts.length + 1) = parts ++ [part] := List.take_of_length_le (by simp)
  rw [prefixes, prefixes, List.length_append, List.length_singleton, List.range_succ, List.map_append,
    List.map_congr_left hsame, List.map_singleton, hlast]

theorem folderPathForKey_eq {key last : List α} {parts : List (List α)} (h : key.splitOn separator = parts ++ [last]) :
    folderPathForKey separator key = prefixes separator parts := by
  dsimp only [folderPathForKey]
  rw [h, List.length_append, List.length_singleton, Nat.add_sub_cancel, prefixes]
  cases parts with
  | nil => rfl
  | cons part rest =>
    have hlong : ¬ (part :: rest).length + 1 ≤ 1 := by
      rw [List.length_cons]
      omega
    rw [if_neg hlong]
    refine List.map_congr_left fun index hindex => ?_
    rw [List.take_append_of_le_length (List.mem_range.1 hindex)]

/-- The separator is put between the folder of a key and the name that is shown. -/
theorem key_eq {key last : List α} {parts : List (List α)} (h : key.splitOn separator = parts ++ [last]) :
    key = (prefixes separator parts).getLast?.elim (displayName separator key)
      fun folder => folder ++ separator :: displayName separator key := by
  have hjoin : key = [separator].intercalate (parts ++ [last]) := by rw [← h, List.intercalate_splitOn]
  have hlast : separator ∉ last := by
    have hmem : last ∈ key.splitOn separator := by
      rw [h]
      exact List.mem_append_right _ (List.mem_singleton_self last)
    exact not_mem_of_mem_splitOn hmem
  -- The key stands in a folder, or at the top where nothing is cut off.
  rcases List.eq_nil_or_concat parts with rfl | ⟨front, part, rfl⟩
  · have hkey : key = last := hjoin.trans List.intercalate_singleton
    have hnone : cutLast separator key = none := cutLast_eq_none.2 (hkey ▸ hlast)
    rw [displayName, hnone]
    rfl
  · have hne : front ++ [part] ≠ [] := List.concat_ne_nil _ _
    rw [List.concat_eq_append, intercalate_concat hne] at hjoin
    have hcut : cutLast separator key = some ([separator].intercalate (front ++ [part]), last) := by
      rw [hjoin, cutLast_append hlast]
    rw [List.concat_eq_append, prefixes_concat, List.getLast?_concat, displayName, hcut]
    exact hjoin

mutual

theorem leaf_of_toTreeNodes {parts : List (List α)} : ∀ {node : InternalNode α}, node.Wf separator parts →
    ∀ leaf ∈ leavesOf (prefixes separator parts) (toTreeNodes localeCompare separator node),
      leaf.above = folderPathForKey separator leaf.item.key ∧
        leaf.item.key = leaf.above.getLast?.elim leaf.displayName fun last => last ++ separator :: leaf.displayName
  | .mk name prefixText folders keys, hwf, leaf, hleaf => by
    obtain ⟨hfolders, hkeys⟩ := hwf
    have hperm := leavesOf_perm (prefixes separator parts)
      (toTreeNodes_perm localeCompare separator name prefixText folders keys)
    rw [leavesOf_append, leavesOf_keys] at hperm
    rcases List.mem_append.1 (hperm.mem_iff.1 hleaf) with hbelow | hhere
    · exact leaf_of_folderNodes hfolders leaf hbelow
    · obtain ⟨item, hitem, rfl⟩ := List.mem_map.1 hhere
      obtain ⟨last, hlast⟩ := hkeys item hitem
      exact ⟨(folderPathForKey_eq hlast).symm, key_eq hlast⟩

theorem leaf_of_folderNodes {parts : List (List α)} : ∀ {folders : Folders α}, folders.Wf separator parts →
    ∀ leaf ∈ leavesOf (prefixes separator parts) ((folderNodes localeCompare separator folders).map Prod.snd),
      leaf.above = folderPathForKey separator leaf.item.key ∧
        leaf.item.key = leaf.above.getLast?.elim leaf.displayName fun last => last ++ separator :: leaf.displayName
  | .nil, _, leaf, hleaf => by
    rw [folderNodes, List.map_nil, leavesOf] at hleaf
    cases hleaf
  | .cons name child rest, hwf, leaf, hleaf => by
    obtain ⟨-, hchild, hrest⟩ := Folders.wf_cons.1 hwf
    rw [folderNodes, List.map_cons, leavesOf, RedisKeyTreeNode.leaves, hchild.prefixText_eq,
      ← prefixes_concat] at hleaf
    rcases List.mem_append.1 hleaf with hbelow | hlater
    · exact leaf_of_toTreeNodes hchild.wf leaf hbelow
    · exact leaf_of_folderNodes hrest leaf hlater

end

/-! ## Nodes side by side -/

structure LevelOk (level : List (RedisKeyTreeNode α)) : Prop where
  counts : ∀ name prefixText count children, .folder name prefixText count children ∈ level →
    count = (leavesOf [] children).length
  distinct : (level.filterMap RedisKeyTreeNode.folderName).Nodup

theorem mem_toTreeNodes {node : RedisKeyTreeNode α} {name prefixText : List α} {folders : Folders α}
    {keys : List (RedisKeySummary α)} {folder : List α} (hfolder : node.folderName = some folder)
    (h : node ∈ toTreeNodes localeCompare separator (.mk name prefixText folders keys)) :
    node ∈ (folderNodes localeCompare separator folders).map Prod.snd := by
  rcases List.mem_append.1 ((toTreeNodes_perm localeCompare separator name prefixText folders keys).mem_iff.1 h) with
    hmem | hkey
  · exact hmem
  · obtain ⟨item, -, rfl⟩ := List.mem_map.1 hkey
    cases hfolder

theorem folderNames_keys (separator : α) (keys : List (RedisKeySummary α)) :
    (keys.map (keyNode separator)).filterMap RedisKeyTreeNode.folderName = [] := by
  rw [List.filterMap_eq_nil_iff]
  intro node hnode
  obtain ⟨item, -, rfl⟩ := List.mem_map.1 hnode
  rfl

theorem folderNames_folders {parts : List (List α)} : ∀ {folders : Folders α}, folders.Wf separator parts →
    ((folderNodes localeCompare separator folders).map Prod.snd).filterMap RedisKeyTreeNode.folderName = folders.names ∧
      folders.names.Nodup
  | .nil, _ => by
    rw [folderNodes]
    exact ⟨rfl, List.nodup_nil⟩
  | .cons name child rest, hwf => by
    obtain ⟨hnew, hchild, hrest⟩ := Folders.wf_cons.1 hwf
    obtain ⟨hnames, hnodup⟩ := folderNames_folders hrest
    have hfirst : (RedisKeyTreeNode.folder child.name child.prefixText (countKeys child)
        (toTreeNodes localeCompare separator child)).folderName = some name := congrArg some hchild.name_eq
    rw [folderNodes, List.map_cons, List.filterMap_cons_some hfirst, hnames]
    exact ⟨rfl, List.nodup_cons.2 ⟨hnew, hnodup⟩⟩

mutual

theorem level_of_toTreeNodes {parts : List (List α)} : ∀ {node : InternalNode α}, node.Wf separator parts →
    ∀ level, IsLevel (toTreeNodes localeCompare separator node) level → LevelOk level
  | .mk name prefixText folders keys, hwf, level, hlevel => by
    obtain ⟨hfolders, -⟩ := hwf
    have hbelow := level_of_folderNodes hfolders
    cases hlevel with
    | root =>
      constructor
      · exact fun _ _ _ _ hfolder => (hbelow _ _ _ _ (mem_toTreeNodes localeCompare rfl hfolder)).1
      · have hperm := (toTreeNodes_perm localeCompare separator name prefixText folders keys).filterMap
          RedisKeyTreeNode.folderName
        obtain ⟨hnames, hnodup⟩ := folderNames_folders localeCompare hfolders
        rw [List.filterMap_append, folderNames_keys, List.append_nil, hnames] at hperm
        exact hperm.nodup_iff.2 hnodup
    | inside hfolder hlevel => exact (hbelow _ _ _ _ (mem_toTreeNodes localeCompare rfl hfolder)).2 level hlevel

theorem level_of_folderNodes {parts : List (List α)} : ∀ {folders : Folders α}, folders.Wf separator parts →
    ∀ name prefixText count children,
      .folder name prefixText count children ∈ (folderNodes localeCompare separator folders).map Prod.snd →
        count = (leavesOf [] children).length ∧ ∀ level, IsLevel children level → LevelOk level
  | .nil, _, name, prefixText, count, children, h => by
    rw [folderNodes] at h
    cases h
  | .cons _ child rest, hwf, name, prefixText, count, children, h => by
    obtain ⟨-, hchild, hrest⟩ := Folders.wf_cons.1 hwf
    rw [folderNodes, List.map_cons] at h
    rcases List.mem_cons.1 h with hfirst | hlater
    · -- The first folder counts the keys below it, and they are its leaves.
      obtain ⟨rfl, rfl, rfl, rfl⟩ := RedisKeyTreeNode.folder.inj hfirst
      have hleaves : (leavesOf [] (toTreeNodes localeCompare separator child)).length = child.items.length := by
        rw [← (leaves_toTreeNodes localeCompare [] child).length_eq, List.length_map]
      exact ⟨(countKeys_eq child).trans hleaves.symm, level_of_toTreeNodes hchild.wf⟩
    · exact level_of_folderNodes hrest name prefixText count children hlater

end

/-- **The tree of keys is complete.** -/
theorem buildRedisKeyTree_complete (localeCompare : List α → List α → Int) (separator : α)
    (keys : List (RedisKeySummary α)) : Complete separator keys (buildRedisKeyTree localeCompare separator keys) := by
  obtain ⟨hitems, hwf⟩ := inserted separator keys
  have hleaf := leaf_of_toTreeNodes localeCompare hwf
  constructor
  · exact (leaves_toTreeNodes localeCompare [] _).trans hitems
  · exact fun level hlevel => (level_of_toTreeNodes localeCompare hwf level hlevel).counts
  · exact fun level hlevel => (level_of_toTreeNodes localeCompare hwf level hlevel).distinct
  · exact fun leaf hmem => (hleaf leaf hmem).1
  · exact fun leaf hmem => (hleaf leaf hmem).2

end

end Workbench.Redis
