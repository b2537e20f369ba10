import Workbench.Redis.Service

/-!
# What saving a key does to its expiry

Every value is written anew, by `SET` or behind `DEL`, so that `SaveKey` forgets the expiry; and it sends a `ttl`
that is not positive to `EXPIRE`, where `SetTTL` takes the expiry away.
-/

set_option autoImplicit false

namespace Workbench.Redis

open Workbench.Lib

section

variable {now : Int} {key : Text} {ks ks' : Keyspace}

/-! ## Rewriting -/

/-- A key that has been deleted and to which only additions were made since. -/
structure Rewritten (key : Text) (ks : Keyspace) (commands : List Command) (ks' : Keyspace) : Prop where
  expiry : ks'.expiryOf key = none
  gone : commands = [] → ks' key = none
  there : commands ≠ [] → (ks' key).isSome
  others : ∀ k, k ≠ key → ks' k = ks k

theorem runAll_adds {commands : List Command} (hadds : ∀ c ∈ commands, c.Adds key) (hexpiry : ks.expiryOf key = none)
    (h : Command.runAll now commands ks = (ks', none)) :
    ks'.expiryOf key = none ∧ (commands = [] → ks' = ks) ∧ (commands ≠ [] → (ks' key).isSome) ∧
      ∀ k, k ≠ key → ks' k = ks k := by
  induction commands generalizing ks with
  | nil =>
    cases h
    exact ⟨hexpiry, fun _ => rfl, fun hne => absurd rfl hne, fun _ _ => rfl⟩
  | cons c rest ih =>
    obtain ⟨hc, hrest⟩ := List.forall_mem_cons.1 hadds
    rw [Command.runAll] at h
    cases hrun : c.run now ks with
    | error e =>
      rw [hrun] at h
      cases h
    | ok mid =>
      rw [hrun] at h
      obtain ⟨value, hne, hmid, hself⟩ := run_of_adds hc hrun
      have hmidExpiry : mid.expiryOf key = none := by
        rw [Keyspace.expiryOf, hself]
        exact hexpiry
      obtain ⟨hlast, hnil, hthere, hothers⟩ := ih hrest hmidExpiry h
      refine ⟨hlast, fun hcons => absurd hcons (List.cons_ne_nil _ _), fun _ => ?_, fun k hk => ?_⟩
      · by_cases hempty : rest = []
        · rw [hnil hempty, hself]
          rfl
        · exact hthere hempty
      · rw [hothers k hk, hmid]
        exact Function.update_of_ne hk ..

theorem rewritten_of_exec {commands : List Command} (hadds : ∀ c ∈ commands, c.Adds key)
    (h : Command.exec now (.del key :: commands) ks = (ks', none)) : Rewritten key ks commands ks' := by
  rw [Command.exec] at h
  split at h
  · -- the key is gone when the first command comes to it
    have hrun : Command.runAll now commands (ks.remove key) = (ks', none) := h
    have hexpiry : (ks.remove key).expiryOf key = none := by rw [Keyspace.expiryOf, Keyspace.remove_self]; rfl
    obtain ⟨hlast, hnil, hthere, hothers⟩ := runAll_adds hadds hexpiry hrun
    refine ⟨hlast, fun hempty => ?_, hthere, fun k hk => ?_⟩
    · rw [hnil hempty, Keyspace.remove_self]
    · rw [hothers k hk]
      exact Function.update_of_ne hk ..
  · cases h

/-- The key is free for the command of a sorted set. -/
def TakesScores (ks : Keyspace) (key : Text) : Prop :=
  ∀ entry, ks key = some entry → ∃ scores, entry.value = .zset scores

theorem zadd_ok (h : TakesScores ks key) (score : Number) (member : Text) :
    ∃ ks', amend ks key (Command.zsetWith score member) = .ok ks' ∧ TakesScores ks' key := by
  have hresult : ∃ scores, Command.zsetWith score member ((ks key).map Entry.value) = some (.zset scores) := by
    cases hkey : ks key with
    | none => exact ⟨_, rfl⟩
    | some entry =>
      obtain ⟨scores, hscores⟩ := h entry hkey
      exact ⟨_, by rw [Option.map_some, hscores]; rfl⟩
  obtain ⟨scores, hscores⟩ := hresult
  refine ⟨ks.store key (.zset scores) (ks.expiryOf key), by rw [amend, hscores], fun entry hentry => ?_⟩
  rw [Keyspace.store, Function.update_self] at hentry
  split at hentry
  · cases hentry
    exact ⟨scores, rfl⟩
  · cases hentry

/-- The scores of a sorted set are all numbers, or the first one that is none fails. -/
theorem runAll_zadd_iff (libs : Libraries) (now : Int) (items : List (List (Text × GoAny))) (h : TakesScores ks key) :
    (Command.runAll now (items.map (zaddItem libs key)) ks).2 = none ↔
      ∀ item ∈ items, libs.parseFloat (libs.sprint (mapGet item "score".toList)) ≠ none := by
  induction items generalizing ks with
  | nil => exact iff_of_true rfl fun _ hmem => absurd hmem List.not_mem_nil
  | cons item rest ih =>
    rw [List.map_cons, Command.runAll, List.forall_mem_cons, zaddItem]
    cases libs.parseFloat (libs.sprint (mapGet item "score".toList)) with
    | none => simp [Command.run]
    | some score =>
      obtain ⟨ks', hok, htakes⟩ := zadd_ok h score (libs.sprint (mapGet item "member".toList))
      simp only [Command.run, hok, ih htakes, ne_eq, reduceCtorEq, not_false_eq_true, true_and]

end

/-! ## Updates -/

/-- The update is one that `SaveKey` carries out. -/
def Accepts (libs : Libraries) (update : KeyUpdate) : Prop :=
  let type := update.type.map runeToLower
  (type = "string".toList ∧ ∃ text, update.value = .string text) ∨
  (type = "hash".toList ∧ ∃ fields, fields ≠ [] ∧ update.value = .map fields) ∨
  ((type = "list".toList ∨ type = "set".toList) ∧ ∃ items, update.value = .slice items) ∨
  (type = "zset".toList ∧ ∃ items, update.value = .maps items ∧
    ∀ item ∈ items, libs.parseFloat (libs.sprint (mapGet item "score".toList)) ≠ none)

/-- There is nothing in the update, so that no key is left. -/
def LeavesNothing (update : KeyUpdate) : Prop := update.value = .slice [] ∨ update.value = .maps []

/-- What an update that was carried out has made of the keys. -/
structure Written (key : Text) (update : KeyUpdate) (ks ks' : Keyspace) : Prop where
  expiry : ks'.expiryOf key = none
  there : (ks' key).isSome ↔ ¬ LeavesNothing update
  others : ∀ k, k ≠ key → ks' k = ks k

/-- The result of the `switch`. -/
def Saved (libs : Libraries) (key : Text) (update : KeyUpdate) (ks : Keyspace) (r : Keyspace × Option Err) : Prop :=
  (Accepts libs update ∧ r.2 = none ∧ Written key update ks r.1) ∨ (¬ Accepts libs update ∧ r.2 ≠ none)

section

variable {libs : Libraries} {now : Int} {key : Text} {ks : Keyspace} {update : KeyUpdate}

theorem Rewritten.written {commands : List Command} {ks' : Keyspace} (h : Rewritten key ks commands ks')
    (hiff : commands = [] ↔ LeavesNothing update) : Written key update ks ks' := by
  refine ⟨h.expiry, ?_, h.others⟩
  rw [← hiff]
  constructor
  · intro hthere hempty
    rw [h.gone hempty] at hthere
    cases hthere
  · exact h.there

theorem saved_pipeline {commands : List Command} (haccepts : Accepts libs update)
    (hadds : ∀ c ∈ commands, c.Adds key) (hiff : commands = [] ↔ LeavesNothing update)
    (hok : ∃ ks', Command.exec now (.del key :: commands) ks = (ks', none)) :
    Saved libs key update ks (pipeline now ks (.del key :: commands)) := by
  obtain ⟨ks', hexec⟩ := hok
  left
  rw [pipeline, hexec]
  exact ⟨haccepts, rfl, (rewritten_of_exec hadds hexec).written hiff⟩

theorem saved_refused {r : Keyspace × Option Err} (h : ¬ Accepts libs update) (hr : r.2 ≠ none) :
    Saved libs key update ks r := Or.inr ⟨h, hr⟩

section

variable {type : Text} {value : GoAny} {ttl : Option Int}

theorem accepts_string (h : type.map runeToLower = "string".toList) :
    Accepts libs ⟨type, value, ttl⟩ ↔ ∃ text, value = .string text := by simp [Accepts, h]

theorem accepts_hash (h : type.map runeToLower = "hash".toList) :
    Accepts libs ⟨type, value, ttl⟩ ↔ ∃ fields, fields ≠ [] ∧ value = .map fields := by simp [Accepts, h]

theorem accepts_slice (h : type.map runeToLower = "list".toList ∨ type.map runeToLower = "set".toList) :
    Accepts libs ⟨type, value, ttl⟩ ↔ ∃ items, value = .slice items := by
  rcases h with h | h <;> simp [Accepts, h]

theorem accepts_zset (h : type.map runeToLower = "zset".toList) :
    Accepts libs ⟨type, value, ttl⟩ ↔ ∃ items, value = .maps items ∧
      ∀ item ∈ items, libs.parseFloat (libs.sprint (mapGet item "score".toList)) ≠ none := by simp [Accepts, h]

theorem saved_string (h : type.map runeToLower = "string".toList) (text : Text) :
    Saved libs key ⟨type, .string text, ttl⟩ ks (send now ks (.set key text)) := by
  refine Or.inl ⟨(accepts_string h).2 ⟨text, rfl⟩, rfl, ?_, ?_, fun k hk => Function.update_of_ne hk ..⟩
  · show ((ks.store key (.string text) none) key).bind Entry.expiry = none
    rw [Keyspace.store_self rfl]
    rfl
  · refine iff_of_true ?_ (by simp [LeavesNothing])
    show ((ks.store key (.string text) none) key).isSome
    rw [Keyspace.store_self rfl]
    rfl

theorem saved_hash (h : type.map runeToLower = "hash".toList) (fields : List (Text × GoAny)) :
    Saved libs key ⟨type, .map fields, ttl⟩ ks
      (pipeline now ks [.del key, .hset key (fields.map fun f => (f.1, libs.sprint f.2))]) := by
  by_cases hempty : fields = []
  · -- a command without fields, with which the whole transaction is refused
    subst hempty
    refine saved_refused (fun haccepts => ?_) (by simp [pipeline, reply, Command.exec, Command.hasArguments])
    obtain ⟨fields, hne, hvalue⟩ := (accepts_hash h).1 haccepts
    cases hvalue
    exact hne rfl
  · have hne : (fields.map fun f => (f.1, libs.sprint f.2)) ≠ [] := fun hnil => hempty (List.map_eq_nil_iff.1 hnil)
    refine saved_pipeline ((accepts_hash h).2 ⟨fields, hempty, rfl⟩) ?_ (by simp [LeavesNothing]) ?_
    · intro c hc
      rw [List.mem_singleton.1 hc]
      exact ⟨rfl, hne⟩
    · exact ⟨_, exec_amend (by simpa [Command.hasArguments] using hempty) (fun _ => rfl) rfl ks⟩

/-- The lists and the sets: one command if there is an item. -/
theorem saved_slice (h : type.map runeToLower = "list".toList ∨ type.map runeToLower = "set".toList)
    (add : List Text → Command) (hadds : ∀ items, items ≠ [] → (add items).Adds key ∧ (add items).hasArguments = true)
    {f : List Text → Option Value → Option Value} (hrun : ∀ items ks, (add items).run now ks = amend ks key (f items))
    (hf : ∀ items, ∃ value, f items none = some value) (items : List GoAny) :
    Saved libs key ⟨type, .slice items, ttl⟩ ks
      (pipeline now ks (.del key :: if items = [] then [] else [add (items.map libs.sprint)])) := by
  have haccepts : Accepts libs ⟨type, .slice items, ttl⟩ := (accepts_slice h).2 ⟨items, rfl⟩
  by_cases hempty : items = []
  · rw [if_pos hempty]
    refine saved_pipeline haccepts (fun c hc => absurd hc List.not_mem_nil) (by simp [LeavesNothing, hempty]) ?_
    exact ⟨ks.remove key, rfl⟩
  · rw [if_neg hempty]
    have hne : items.map libs.sprint ≠ [] := fun hnil => hempty (List.map_eq_nil_iff.1 hnil)
    refine saved_pipeline haccepts ?_ (by simp [LeavesNothing, hempty]) ?_
    · intro c hc
      rw [List.mem_singleton.1 hc]
      exact (hadds _ hne).1
    · obtain ⟨value, hvalue⟩ := hf (items.map libs.sprint)
      exact ⟨_, exec_amend (hadds _ hne).2 (hrun _) hvalue ks⟩

theorem saved_zset (h : type.map runeToLower = "zset".toList) (items : List (List (Text × GoAny))) :
    Saved libs key ⟨type, .maps items, ttl⟩ ks (pipeline now ks (.del key :: items.map (zaddItem libs key))) := by
  have hadds : ∀ c ∈ items.map (zaddItem libs key), c.Adds key := by
    intro c hc
    obtain ⟨item, -, rfl⟩ := List.mem_map.1 hc
    rfl
  have hexec : Command.exec now (.del key :: items.map (zaddItem libs key)) ks =
      Command.runAll now (items.map (zaddItem libs key)) (ks.remove key) := by
    rw [Command.exec, if_pos]
    · rfl
    · show (true && (items.map (zaddItem libs key)).all Command.hasArguments) = true
      rw [Bool.true_and, List.all_eq_true]
      intro c hc
      obtain ⟨item, -, rfl⟩ := List.mem_map.1 hc
      rfl
  have htakes : TakesScores (ks.remove key) key := by
    intro entry hentry
    rw [Keyspace.remove_self] at hentry
    cases hentry
  have hiff := runAll_zadd_iff libs now items htakes
  by_cases hscores : ∀ item ∈ items, libs.parseFloat (libs.sprint (mapGet item "score".toList)) ≠ none
  · refine saved_pipeline ((accepts_zset h).2 ⟨items, rfl, hscores⟩) hadds (by simp [LeavesNothing]) ?_
    exact ⟨_, hexec.trans (Prod.ext rfl (hiff.2 hscores))⟩
  · refine saved_refused (fun haccepts => ?_) ?_
    · obtain ⟨items', hvalue, hall⟩ := (accepts_zset h).1 haccepts
      cases hvalue
      exact hscores hall
    · rw [pipeline, reply, hexec]
      exact fun hnone => hscores (hiff.1 (Option.map_eq_none_iff.1 hnone))

end

/-- Every branch of the `switch` writes the key anew or refuses the update. -/
theorem saveValue_saved (libs : Libraries) (now : Int) (ks : Keyspace) (key : Text) (update : KeyUpdate) :
    Saved libs key update ks (saveValue libs now ks key update) := by
  obtain ⟨type, value, ttl⟩ := update
  rw [saveValue]
  dsimp only
  split_ifs with hstring hhash hlist hset hzset
  · cases value with
    | string text => exact saved_string hstring text
    | _ => exact saved_refused (by simp [accepts_string hstring]) (by simp [refuse])
  · cases value with
    | map fields => exact saved_hash hhash fields
    | _ => exact saved_refused (by simp [accepts_hash hhash]) (by simp [refuse])
  · cases value with
    | slice items =>
      refine saved_slice (Or.inl hlist) (Command.rpush key) (fun items hne => ⟨⟨rfl, hne⟩, ?_⟩) (fun _ _ => rfl)
        (fun _ => ⟨_, rfl⟩) items
      simpa [Command.hasArguments] using hne
    | _ => exact saved_refused (by simp [accepts_slice (Or.inl hlist)]) (by simp [refuse])
  · cases value with
    | slice items =>
      refine saved_slice (Or.inr hset) (Command.sadd key) (fun items hne => ⟨⟨rfl, hne⟩, ?_⟩) (fun _ _ => rfl)
        (fun _ => ⟨_, rfl⟩) items
      simpa [Command.hasArguments] using hne
    | _ => exact saved_refused (by simp [accepts_slice (Or.inr hset)]) (by simp [refuse])
  · cases value with
    | maps items => exact saved_zset hzset items
    | _ => exact saved_refused (by simp [accepts_zset hzset]) (by simp [refuse])
  · refine saved_refused ?_ (by simp)
    rintro (⟨h, -⟩ | ⟨h, -⟩ | ⟨h | h, -⟩ | ⟨h, -⟩)
    · exact hstring h
    · exact hhash h
    · exact hlist h
    · exact hset h
    · exact hzset h

/-! ## The expiry -/

theorem saveKey_of_saved (libs : Libraries) (now : Int) (ks : Keyspace) (update : KeyUpdate) (hkey : key ≠ []) :
    (Accepts libs update ∧ ∃ ks', Written key update ks ks' ∧
        saveKey libs now ks key { update with ttl := none } = (ks', none) ∧
        saveKey libs now ks key update =
          match update.ttl with
          | some ttl => expire libs now ks' key ttl
          | none => (ks', none)) ∨
      (¬ Accepts libs update ∧ ∃ ks' e, saveKey libs now ks key { update with ttl := none } = (ks', some e) ∧
        saveKey libs now ks key update = (ks', some e)) := by
  have hsame : saveValue libs now ks key { update with ttl := none } = saveValue libs now ks key update := rfl
  rcases saveValue_saved libs now ks key update with ⟨haccepts, hnone, hwritten⟩ | ⟨hrefused, hsome⟩
  · left
    refine ⟨haccepts, (saveValue libs now ks key update).1, hwritten, ?_, ?_⟩
    · rw [saveKey, if_neg hkey, hsame]
      generalize saveValue libs now ks key update = r at hnone
      obtain ⟨ks', e⟩ := r
      cases hnone
      rfl
    · rw [saveKey, if_neg hkey]
      generalize saveValue libs now ks key update = r at hnone
      obtain ⟨ks', e⟩ := r
      cases hnone
      cases update.ttl <;> rfl
  · right
    obtain ⟨e, he⟩ := Option.ne_none_iff_exists'.1 hsome
    refine ⟨hrefused, (saveValue libs now ks key update).1, e, ?_, ?_⟩
    · rw [saveKey, if_neg hkey, hsame]
      generalize saveValue libs now ks key update = r at he
      obtain ⟨ks', e'⟩ := r
      cases he
      rfl
    · rw [saveKey, if_neg hkey]
      generalize saveValue libs now ks key update = r at he
      obtain ⟨ks', e'⟩ := r
      cases he
      rfl

/-- `SaveKey` without a `ttl`, and then `SetTTL`. -/
def saveKeyThenSetTTL (libs : Libraries) (now : Int) (ks : Keyspace) (key : Text) (update : KeyUpdate) (ttl : Int) :
    Keyspace × Option Err :=
  match saveKey libs now ks key { update with ttl := none } with
  | (ks', some e) => (ks', some e)
  | (ks', none) => setTTL libs now ks' key ttl

/-- The expiry is changed only as it is asked for: not at all without a `ttl`, and with one as `SetTTL` does it. -/
def ExpiryAsAsked (libs : Libraries) (now : Int) (ks : Keyspace) (key : Text) (update : KeyUpdate) : Prop :=
  match update.ttl with
  | none => ∀ ks', saveKey libs now ks key update = (ks', none) → ks'.expiryOf key = ks.expiryOf key
  | some ttl => saveKey libs now ks key update = saveKeyThenSetTTL libs now ks key update ttl

/-- The update is refused, or there is no expiry that it could forget and no `ttl` for which the key would be
deleted. -/
def ExpirySafe (libs : Libraries) (ks : Keyspace) (key : Text) (update : KeyUpdate) : Prop :=
  key ≠ [] → Accepts libs update →
    match update.ttl with
    | none => ks.expiryOf key = none
    | some ttl => 0 < ttl ∨ LeavesNothing update

theorem send_of_ok {c : Command} {ks' : Keyspace} (h : c.run now ks = .ok ks') : send now ks c = (ks', none) := by
  rw [send, Command.runAll, h]
  rfl

/-- `EXPIRE` does what `PERSIST` does only where there is no key. -/
theorem expire_eq_persist_iff (now : Int) (ks : Keyspace) (key : Text) (seconds : Int) :
    send now ks (.expire key seconds) = send now ks (.persist key) ↔ ks key = none := by
  cases hkey : ks key with
  | none =>
    have hexpire : (Command.expire key seconds).run now ks = .ok ks := by rw [Command.run, hkey]
    have hpersist : (Command.persist key).run now ks = .ok ks := by rw [Command.run, hkey]
    refine iff_of_true ?_ rfl
    rw [send_of_ok hexpire, send_of_ok hpersist]
  | some entry =>
    refine iff_of_false (fun heq => ?_) (by simp)
    have hpersist : (Command.persist key).run now ks = .ok (ks.store key entry.value none) := by
      rw [Command.run, hkey]
    rw [send_of_ok hpersist] at heq
    by_cases hpast : seconds ≤ 0
    · -- a time that is not ahead deletes the key
      have hexpire : (Command.expire key seconds).run now ks = .ok (ks.remove key) := by
        rw [Command.run, hkey]
        exact if_pos hpast
      rw [send_of_ok hexpire] at heq
      have hstays : ks.remove key key = _ := congrFun (Prod.mk.inj heq).1 key
      rw [Keyspace.remove_self, Keyspace.store_self entry.nonempty] at hstays
      cases hstays
    · have hexpire : (Command.expire key seconds).run now ks =
          .ok (ks.store key entry.value (some (now + seconds * 1000))) := by
        rw [Command.run, hkey]
        exact if_neg hpast
      rw [send_of_ok hexpire] at heq
      have hstays : ks.store key entry.value (some (now + seconds * 1000)) key = _ :=
        congrFun (Prod.mk.inj heq).1 key
      rw [Keyspace.store_self entry.nonempty, Keyspace.store_self entry.nonempty] at hstays
      cases hstays

/-- `SaveKey` changes the expiry as it is asked to if and only if the update is refused, or the key has no expiry and
no `ttl` is given, or a positive one is, or nothing is left of the key. -/
theorem saveKey_expiry_iff (libs : Libraries) (now : Int) (ks : Keyspace) (key : Text) (update : KeyUpdate) :
    ExpiryAsAsked libs now ks key update ↔ ExpirySafe libs ks key update := by
  obtain ⟨type, value, ttl⟩ := update
  by_cases hkey : key = []
  · -- without a key both ways end with one error
    refine iff_of_true ?_ fun hne => absurd hkey hne
    cases ttl with
    | none =>
      intro ks' h
      rw [saveKey, if_pos hkey] at h
      cases h
    | some ttl =>
      show saveKey _ _ _ _ _ = saveKeyThenSetTTL _ _ _ _ _ _
      rw [saveKeyThenSetTTL, saveKey, saveKey, if_pos hkey, if_pos hkey]
      rfl
  rcases saveKey_of_saved libs now ks ⟨type, value, ttl⟩ hkey with
    ⟨haccepts, ks', hwritten, hplain, hsave⟩ | ⟨hrefused, ks', e, hplain, hsave⟩
  · cases ttl with
    | none =>
      have hnone : ExpirySafe libs ks key ⟨type, value, none⟩ ↔ ks.expiryOf key = none :=
        ⟨fun h => h hkey haccepts, fun h _ _ => h⟩
      rw [hnone]
      constructor
      · intro h
        rw [← h ks' hsave, hwritten.expiry]
      · intro h ks'' hsave'
        rw [hsave] at hsave'
        cases hsave'
        rw [h, hwritten.expiry]
    | some ttl =>
      have hsome : ExpirySafe libs ks key ⟨type, value, some ttl⟩ ↔
          0 < ttl ∨ LeavesNothing ⟨type, value, some ttl⟩ :=
        ⟨fun h => h hkey haccepts, fun h _ _ => h⟩
      rw [hsome]
      show saveKey _ _ _ _ _ = saveKeyThenSetTTL _ _ _ _ _ _ ↔ _
      rw [saveKeyThenSetTTL, hplain, hsave]
      show expire libs now ks' key ttl = setTTL libs now ks' key ttl ↔ _
      rw [setTTL]
      by_cases hpositive : 0 < ttl
      · rw [if_neg (by omega)]
        exact iff_of_true rfl (Or.inl hpositive)
      · rw [if_pos (by omega), expire, expire_eq_persist_iff, or_iff_right hpositive]
        rw [← not_iff_not, ← hwritten.there, Option.isSome_iff_ne_none]
  · refine iff_of_true ?_ fun _ haccepts => absurd haccepts hrefused
    cases ttl with
    | none =>
      intro ks'' h
      rw [hsave] at h
      cases h
    | some ttl =>
      show saveKey _ _ _ _ _ = saveKeyThenSetTTL _ _ _ _ _ _
      rw [saveKeyThenSetTTL, hplain, hsave]

end

/-- A key that expires in a minute. -/
def oneMinute : Keyspace :=
  Keyspace.store (fun _ => none) "session".toList (.string "a".toList) (some 60000)

/-- A saved text lives on for ever, and with a `ttl` of zero, which `SetTTL` takes for no expiry, it is gone. -/
theorem saveKey_forgets_expiry :
    ¬ ExpiryAsAsked default 0 oneMinute "session".toList ⟨"string".toList, .string "b".toList, none⟩ ∧
      ¬ ExpiryAsAsked default 0 oneMinute "session".toList ⟨"string".toList, .string "b".toList, some 0⟩ := by
  constructor
  · intro h
    cases h _ rfl
  · intro h
    have hgone := congrArg (fun r => (r.1 "session".toList).isSome) h
    cases hgone

end Workbench.Redis
