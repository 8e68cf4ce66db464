import RedisClone.Database.SortedSet
import RedisClone.Keyspace.Deadline
import RedisClone.Keyspace.WrongType
import RedisClone.Keyspace.Restore

/-!
This module contains the proof that the commands that count what they change reply the real change in
size, whatever is repeated in their arguments.
-/

namespace RedisClone

open Store

/--
The number of elements of a collection.
-/
def Value.card : Value → Nat
  | .str _ => 0
  | .list inner => inner.len
  | .set inner => inner.scard
  | .sortedSet inner => inner.zcard
  | .hash inner => inner.hlen

namespace Store

/--
The number of elements at a key, 0 if it is missing.
-/
def card (now : Instant) (key : String) (store : Store) : Nat :=
  (live now store key).elim 0 fun entry => entry.value.card

/--
The elements of the list at a key, in order.
-/
def items (now : Instant) (key : String) (store : Store) : List String :=
  match live now store key with
  | some ⟨.list list, _⟩ => list.list
  | _ => []

/--
The score of a member of the sorted set at a key.
-/
def scoreOf (now : Instant) (key member : String) (store : Store) : Option Float :=
  match live now store key with
  | some ⟨.sortedSet zset, _⟩ => zset.zscore member
  | _ => none

end Store

namespace Db

variable {σ α : Type} {change : σ → α → σ × Bool}

/-
A count of changes telescopes: if each change counts 1 when the size goes up, or down, by 1, the total
is the difference of the sizes.
-/

theorem countChanges_cons (item : α) (items : List α) (state : σ)
    : countChanges change (item :: items) state
        =
      ((countChanges change items (change state item).1).1,
        (countChanges change items (change state item).1).2
          + if (change state item).2 then 1 else 0) := by
  have hcount : ∀ (items : List α) (state : σ) (count : Nat),
      items.foldl (fun (state, count) item =>
          let (state, changed) := change state item
          (state, if changed then count + 1 else count)) (state, count)
        = ((countChanges change items state).1, (countChanges change items state).2 + count) := by
    intro items
    induction items with
    | nil =>
      intro state count
      simp [countChanges]
    | cons item items ih =>
      intro state count
      unfold countChanges
      simp only [List.foldl_cons]
      rw [ih, ih]
      congr 1
      split <;> omega
  unfold countChanges
  simp only [List.foldl_cons]
  rw [hcount]
  split <;> rfl

theorem countChanges_grows (change : σ → α → σ × Bool) (size : σ → Nat)
    (h : ∀ state item, size (change state item).1
      = size state + if (change state item).2 then 1 else 0)
    (items : List α) (state : σ)
    : size (countChanges change items state).1 = size state + (countChanges change items state).2 := by
  induction items generalizing state with
  | nil => rfl
  | cons item items ih =>
    have hitem := h state item
    rw [countChanges_cons, ih]
    omega

theorem countChanges_shrinks (change : σ → α → σ × Bool) (size : σ → Nat)
    (h : ∀ state item, size state
      = size (change state item).1 + if (change state item).2 then 1 else 0)
    (items : List α) (state : σ)
    : size state = size (countChanges change items state).1 + (countChanges change items state).2 := by
  induction items generalizing state with
  | nil => rfl
  | cons item items ih =>
    have hitem := h state item
    have hitems := ih (change state item).1
    rw [countChanges_cons]
    dsimp only
    omega

end Db

namespace RSet

theorem scard_sadd (set : RSet) (value : String)
    : (set.sadd value).1.scard = set.scard + if (set.sadd value).2 then 1 else 0 := by
  unfold scard sadd
  rw [Std.ExtTreeSet.size_insert]
  by_cases hmem : value ∈ set.set
  . have hcontains : set.set.contains value = true := hmem
    simp [hcontains]
  . have hcontains : set.set.contains value = false := Bool.eq_false_iff.mpr hmem
    simp [hcontains]

theorem scard_srem (set : RSet) (value : String)
    : set.scard = (set.srem value).1.scard + if (set.srem value).2 then 1 else 0 := by
  unfold scard srem
  rw [Std.ExtTreeSet.size_erase]
  by_cases hmem : value ∈ set.set
  . have hcontains : set.set.contains value = true := hmem
    have hpos : set.set.size ≠ 0 := by
      intro hzero
      rw [← Std.ExtTreeSet.eq_empty_iff_size_eq_zero] at hzero
      simp [hzero] at hmem
    simp only [hcontains, if_true]
    omega
  . have hcontains : set.set.contains value = false := Bool.eq_false_iff.mpr hmem
    simp [hcontains]

end RSet

namespace RSortedSet

theorem zcard_zadd (zset : RSortedSet) (score : Float) (member : String)
    : (zset.zadd score member).1.zcard
        =
      zset.zcard + if (zset.zadd score member).2 then 1 else 0 := by
  unfold zcard zadd
  split
  . next old hold =>
    have hmem : member ∈ zset.members := by
      rw [Std.ExtTreeMap.mem_iff_isSome_getElem?, hold]
      rfl
    split
    . rfl
    . simp [Std.ExtTreeMap.size_insert, hmem]
  . next hnone =>
    have hmem : member ∉ zset.members := by
      rw [Std.ExtTreeMap.mem_iff_isSome_getElem?, hnone]
      exact Bool.false_ne_true
    simp [Std.ExtTreeMap.size_insert, hmem]

end RSortedSet

/--
The score that is given last to a member.
-/
def lastScore (members : List (Float × String)) (member : String) : Option Float :=
  (members.reverse.find? fun (_, other) => other == member).map Prod.fst

theorem lastScore_append (members : List (Float × String)) (score : Float) (member other : String)
    : lastScore (members ++ [(score, member)]) other
        =
      if member = other then some score else lastScore members other := by
  unfold lastScore
  rw [List.reverse_append, List.reverse_singleton, List.singleton_append, List.find?_cons]
  by_cases h : member = other
  . simp [h]
  . have hne : (member == other) = false := beq_eq_false_iff_ne.mpr h
    rw [if_neg h]
    simp only [hne]

/--
After `ZADD` a member has the score that was given last to it, and the one it had if there is none.
-/
def Rescored (members : List (Float × String)) (member : String) (before after : Option Float)
    : Prop :=
  match lastScore members member with
  | some score => ∃ stored, after = some stored ∧ OrderedFloat.eq stored score = true
  | none => after = before

theorem zscore_zaddAll (members : List (Float × String)) (zset : RSortedSet) (other : String)
    : Rescored members other (zset.zscore other)
        ((Db.countChanges (fun zset (score, member) => zset.zadd score member) members
          zset).1.zscore other) := by
  rw [Db.countChanges_fst]
  -- The last pair decides, so the list is taken apart from its end.
  induction members using List.reverseRecOn with
  | nil => rfl
  | append_singleton members pair ih =>
    rcases pair with ⟨score, member⟩
    unfold Rescored at ih ⊢
    rw [List.foldl_append, List.foldl_cons, List.foldl_nil, lastScore_append]
    generalize members.foldl (fun zset (score, member) => (zset.zadd score member).1) zset = scored
      at ih ⊢
    unfold RSortedSet.zscore at ih ⊢
    rw [RSortedSet.getElem?_members_zadd]
    by_cases hmember : member = other
    . rw [if_pos hmember]
      subst hmember
      by_cases hold : ∃ old, scored.members[member]? = some old ∧ OrderedFloat.eq old score = true
      . rw [if_neg (fun h => h.2 hold)]
        exact hold
      . rw [if_pos ⟨rfl, hold⟩]
        refine ⟨score, rfl, OrderedFloat.eq_of_cmp_eq ?_⟩
        exact Std.ReflCmp.compare_self
    . rw [if_neg hmember, if_neg (fun h => hmember h.1)]
      exact ih

section

variable {env : Env} {db : Database} {command shown : Command} {key : String}

/--
The value at a key, the fresh one of its type if it is missing.
-/
def Store.valueAt (now : Instant) (key : String) (fresh : Value) (store : Store) : Value :=
  ((live now store key).map Entry.value).getD fresh

theorem card_eq_valueAt (fresh : Value) (h : fresh.card = 0) (now : Instant) (store : Store)
    : store.card now key = (store.valueAt now key fresh).card := by
  unfold Store.card Store.valueAt
  cases live now store key with
  | none => exact h.symm
  | some entry => rfl

/--
The two values of a collection: as `command` finds it and as it leaves it.
-/
structure Leaves (env : Env) (db : Database) (command : Command) (key : String) (fresh : Value)
    (before after : Value) (count : Nat) : Prop where
  before : db.store.valueAt env.now key fresh = before
  after : (execute env command db).1.store.valueAt env.now key fresh = after
  reply : (execute env command db).2 = Reply.number count

theorem leaves_of_updateOp {fresh : Value} {act : Value → Except StoreError (Value × Nat)}
    (hkey : command.keyOp env = some (key, (KeyOp.updateOp fresh act).reply Reply.count))
    (hact : ∀ value error, act value = .error error → error = .wrongType)
    (hreply : (execute env command db).2 ≠ wrongTypeReply)
    : ∃ before after count, act before = .ok (after, count)
        ∧ Leaves env db command key fresh before after count := by
  let found := live env.now db.store key
  let entry := found.getD { value := fresh, expiresAt := none }
  have hbefore : db.store.valueAt env.now key fresh = entry.value := by
    simp only [Store.valueAt, entry, found]
    cases live env.now db.store key <;> rfl
  have halive : entry.isLive env.now = true := by
    cases hfound : found with
    | none =>
      simp only [entry, hfound]
      rfl
    | some old =>
      simp only [entry, hfound]
      exact (LiveMap.live_eq_some.mp hfound).2
  have hexecute := execute_eq_keyOp hkey db
  cases hresult : act entry.value with
  | error error =>
    refine absurd ?_ hreply
    have herror := hact _ _ hresult
    subst herror
    rw [hexecute]
    show Reply.count (KeyOp.updateOp fresh act found).2 = _
    simp only [KeyOp.updateOp]
    rw [hresult]
    rfl
  | ok changed =>
    rcases changed with ⟨after, count⟩
    have hop : KeyOp.updateOp fresh act found = (some { entry with value := after }, .ok count) := by
      simp only [KeyOp.updateOp]
      rw [hresult]
    refine ⟨entry.value, after, count, hresult, hbefore, ?_, ?_⟩
    . unfold Store.valueAt
      rw [live_execute_keyOp hkey]
      show ((Option.filter _ (KeyOp.updateOp fresh act found).1).map Entry.value).getD fresh = after
      rw [hop, Option.filter_some, if_pos]
      . rfl
      . exact halive
    . rw [hexecute]
      show Reply.count (KeyOp.updateOp fresh act found).2 = _
      rw [hop]
      rfl

theorem leaves_of_removeOp {fresh : Value} {act : Value → Except StoreError (Value × Nat × Bool)}
    (hkey : command.keyOp env = some (key, (KeyOp.removeOp 0 act).reply Reply.count))
    (hact : ∀ value error, act value = .error error → error = .wrongType)
    (hfresh : act fresh = .ok (fresh, 0, true))
    (hempty : ∀ value after count, act value = .ok (after, count, true) → after = fresh)
    (hreply : (execute env command db).2 ≠ wrongTypeReply)
    : ∃ before after count isEmpty, act before = .ok (after, count, isEmpty)
        ∧ Leaves env db command key fresh before after count := by
  have hexecute := execute_eq_keyOp hkey db
  cases hfound : live env.now db.store key with
  | none =>
    refine ⟨fresh, fresh, 0, true, hfresh, ?_, ?_, ?_⟩
    . simp [Store.valueAt, hfound]
    . unfold Store.valueAt
      rw [live_execute_keyOp hkey, hfound]
      rfl
    . rw [hexecute]
      show Reply.count (KeyOp.removeOp 0 act (live env.now db.store key)).2 = _
      rw [hfound]
      rfl
  | some entry =>
    have hbefore : db.store.valueAt env.now key fresh = entry.value := by
      simp [Store.valueAt, hfound]
    have halive := (LiveMap.live_eq_some.mp hfound).2
    cases hresult : act entry.value with
    | error error =>
      refine absurd ?_ hreply
      have herror := hact _ _ hresult
      subst herror
      rw [hexecute]
      show Reply.count (KeyOp.removeOp 0 act (live env.now db.store key)).2 = _
      rw [hfound]
      simp only [KeyOp.removeOp]
      rw [hresult]
      rfl
    | ok changed =>
      rcases changed with ⟨after, count, isEmpty⟩
      have hop : KeyOp.removeOp 0 act (live env.now db.store key)
          = (if isEmpty then none else some { entry with value := after }, .ok count) := by
        rw [hfound]
        simp only [KeyOp.removeOp]
        rw [hresult]
      refine ⟨entry.value, after, count, isEmpty, hresult, hbefore, ?_, ?_⟩
      . unfold Store.valueAt
        rw [live_execute_keyOp hkey]
        show ((Option.filter _ (KeyOp.removeOp 0 act (live env.now db.store key)).1).map
          Entry.value).getD fresh = after
        rw [hop]
        cases isEmpty with
        | true => exact (hempty _ _ _ hresult).symm
        | false =>
          rw [if_neg Bool.false_ne_true, Option.filter_some, if_pos]
          . rfl
          . exact halive
      . rw [hexecute]
        show Reply.count (KeyOp.removeOp 0 act (live env.now db.store key)).2 = _
        rw [hop]
        rfl

/--
What the commands that show a size reply.
-/
theorem shows_of_readOp (fresh : Value) {f : Value → Except StoreError Nat} {n : Nat}
    (hkey : shown.keyOp env
      = some (key, (KeyOp.readOp (.ok 0) fun entry => f entry.value).reply Reply.count))
    (hfresh : f fresh = .ok 0) (hvalue : f (db.store.valueAt env.now key fresh) = .ok n)
    : (execute env shown db).2 = Reply.number n := by
  rw [execute_eq_keyOp hkey]
  show Reply.count (KeyOp.readOp (.ok 0) (fun entry => f entry.value)
    (live env.now db.store key)).2 = _
  unfold Store.valueAt at hvalue
  cases hfound : live env.now db.store key with
  | none =>
    rw [hfound] at hvalue
    have hn : n = 0 := by
      rw [Option.map_none, Option.getD_none, hfresh] at hvalue
      cases hvalue
      rfl
    subst hn
    rfl
  | some entry =>
    rw [hfound, Option.map_some, Option.getD_some] at hvalue
    show Reply.count (f entry.value) = _
    rw [hvalue]
    rfl

end

/--
A command replies `count`, and `size` is what `shown` replies just before and just after it.
-/
structure Sized (env : Env) (db : Database) (command shown : Command) (size : Store → Nat)
    (count : Nat) : Prop where
  before : (execute env shown db).2 = Reply.number (size db.store)
  after : (execute env shown (execute env command db).1).2
    = Reply.number (size (execute env command db).1.store)
  reply : (execute env command db).2 = Reply.number count

section

variable {env : Env} {db : Database} {command shown : Command} {key : String} {fresh before after : Value}
  {count : Nat}

theorem Leaves.sized {f : Value → Except StoreError Nat}
    (h : Leaves env db command key fresh before after count)
    (hkey : shown.keyOp env
      = some (key, (KeyOp.readOp (.ok 0) fun entry => f entry.value).reply Reply.count))
    (hfresh : f fresh = .ok 0) (hcard : fresh.card = 0)
    (hbefore : f before = .ok before.card) (hafter : f after = .ok after.card)
    : Sized env db command shown (Store.card env.now key) count := by
  refine ⟨?_, ?_, h.reply⟩
  . rw [card_eq_valueAt fresh hcard, h.before]
    apply shows_of_readOp fresh hkey hfresh
    rw [h.before, hbefore]
  . rw [card_eq_valueAt fresh hcard, h.after]
    apply shows_of_readOp fresh hkey hfresh
    rw [h.after, hafter]

end

theorem items_eq {now : Instant} {key : String} {store : Store} {list : RList}
    (h : store.valueAt now key (.list .new) = .list list)
    : store.items now key = list.list := by
  unfold Store.valueAt at h
  unfold Store.items
  rcases hfound : live now store key with _ | ⟨value, expiresAt⟩
  . rw [hfound] at h
    cases h
    rfl
  . rw [hfound, Option.map_some, Option.getD_some] at h
    subst h
    rfl

theorem scoreOf_eq {now : Instant} {key member : String} {store : Store} {zset : RSortedSet}
    (h : store.valueAt now key (.sortedSet .new) = .sortedSet zset)
    : store.scoreOf now key member = zset.zscore member := by
  unfold Store.valueAt at h
  unfold Store.scoreOf
  rcases hfound : live now store key with _ | ⟨value, expiresAt⟩
  . rw [hfound] at h
    cases h
    simp [RSortedSet.zscore, RSortedSet.new]
  . rw [hfound, Option.map_some, Option.getD_some] at h
    subst h
    rfl

section

variable {env : Env} {db : Database} {key : String}

theorem sadd_counts (values : List String)
    (hreply : (execute env (.sAdd key values) db).2 ≠ wrongTypeReply)
    : ∃ added, Sized env db (.sAdd key values) (.sCard key) (Store.card env.now key) added
        ∧ Store.card env.now key (execute env (.sAdd key values) db).1.store
            = Store.card env.now key db.store + added := by
  have hact : ∀ value error, Db.saddOn values value = .error error → error = .wrongType := by
    intro value error h
    cases value <;> cases h
    all_goals rfl
  rcases leaves_of_updateOp rfl hact hreply with ⟨before, after, added, hresult, h⟩
  cases before with
  | set set =>
    cases hresult
    refine ⟨_, h.sized (f := fun value => value.asSet.map RSet.scard) rfl rfl rfl rfl rfl, ?_⟩
    rw [card_eq_valueAt (.set .new) rfl, card_eq_valueAt (.set .new) rfl, h.before,
      h.after]
    exact Db.countChanges_grows RSet.sadd RSet.scard RSet.scard_sadd values set
  | _ => cases hresult

theorem srem_counts (values : List String)
    (hreply : (execute env (.sRem key values) db).2 ≠ wrongTypeReply)
    : ∃ removed, Sized env db (.sRem key values) (.sCard key) (Store.card env.now key) removed
        ∧ Store.card env.now key db.store
            = Store.card env.now key (execute env (.sRem key values) db).1.store + removed := by
  have hact : ∀ value error, Db.sremOn values value = .error error → error = .wrongType := by
    intro value error h
    cases value <;> cases h
    all_goals rfl
  have hempty : ∀ value after count, Db.sremOn values value = .ok (after, count, true)
      → after = .set .new := by
    intro value after count h
    cases value with
    | set set =>
      simp only [Db.sremOn, Value.asSet, Except.map, Except.ok.injEq, Prod.mk.injEq] at h
      rcases h with ⟨rfl, rfl, hisEmpty⟩
      rw [RSet.isEmpty, Std.ExtTreeSet.isEmpty_iff] at hisEmpty
      exact congrArg Value.set (congrArg RSet.mk hisEmpty)
    | _ => cases h
  have hfresh : Db.sremOn values (.set .new) = .ok (.set .new, 0, true) := by
    have hshrinks := Db.countChanges_shrinks RSet.srem RSet.scard RSet.scard_srem values .new
    have hzero : RSet.new.scard = 0 := rfl
    have hset : (Db.countChanges RSet.srem values .new).1.set = ∅ := by
      rw [Std.ExtTreeSet.eq_empty_iff_size_eq_zero]
      show RSet.scard _ = 0
      omega
    have hremoved : (Db.countChanges RSet.srem values .new).2 = 0 := by omega
    simp only [Db.sremOn, Value.asSet, Except.map, hremoved, RSet.isEmpty, hset]
    rw [show (Db.countChanges RSet.srem values .new).1 = .new from congrArg RSet.mk hset]
    rfl
  rcases leaves_of_removeOp rfl hact hfresh hempty hreply with
    ⟨before, after, removed, isEmpty, hresult, h⟩
  cases before with
  | set set =>
    cases hresult
    refine ⟨_, h.sized (f := fun value => value.asSet.map RSet.scard) rfl rfl rfl rfl rfl, ?_⟩
    rw [card_eq_valueAt (.set .new) rfl, card_eq_valueAt (.set .new) rfl, h.before,
      h.after]
    exact Db.countChanges_shrinks RSet.srem RSet.scard RSet.scard_srem values set
  | _ => cases hresult

theorem zadd_counts (members : List (Float × String))
    (hreply : (execute env (.zAdd key members) db).2 ≠ wrongTypeReply)
    : ∃ added, Sized env db (.zAdd key members) (.zCard key) (Store.card env.now key) added
        ∧ Store.card env.now key (execute env (.zAdd key members) db).1.store
            = Store.card env.now key db.store + added
        ∧ ∀ member, Rescored members member (Store.scoreOf env.now key member db.store)
            (Store.scoreOf env.now key member (execute env (.zAdd key members) db).1.store) := by
  have hact : ∀ value error, Db.zaddOn members value = .error error → error = .wrongType := by
    intro value error h
    cases value <;> cases h
    all_goals rfl
  rcases leaves_of_updateOp rfl hact hreply with ⟨before, after, added, hresult, h⟩
  cases before with
  | sortedSet zset =>
    cases hresult
    refine ⟨_, h.sized (f := fun value => value.asSortedSet.map RSortedSet.zcard) rfl rfl rfl rfl rfl,
      ?_, ?_⟩
    . rw [card_eq_valueAt (.sortedSet .new) rfl,
        card_eq_valueAt (.sortedSet .new) rfl, h.before, h.after]
      exact Db.countChanges_grows (fun (zset : RSortedSet) (pair : Float × String) =>
        zset.zadd pair.1 pair.2) RSortedSet.zcard (fun zset pair => zset.zcard_zadd pair.1 pair.2)
        members zset
    . intro member
      rw [scoreOf_eq h.before, scoreOf_eq h.after]
      exact zscore_zaddAll members zset member
  | _ => cases hresult

theorem push_counts {push : RList → String → RList} {values : List String} {command : Command}
    (hkey : command.keyOp env
      = some (key, (KeyOp.updateOp (.list .new) (Db.pushOn push values)).reply Reply.count))
    (hreply : (execute env command db).2 ≠ wrongTypeReply)
    : Sized env db command (.lLen key) (fun store => (store.items env.now key).length)
          ((execute env command db).1.store.items env.now key).length
        ∧ (execute env command db).1.store.items env.now key
            = (values.foldl push ⟨db.store.items env.now key⟩).list := by
  have hact : ∀ value error, Db.pushOn push values value = .error error → error = .wrongType := by
    intro value error h
    cases value <;> cases h
    all_goals rfl
  rcases leaves_of_updateOp hkey hact hreply with ⟨before, after, count, hresult, h⟩
  cases before with
  | list list =>
    cases hresult
    have hbefore := items_eq h.before
    have hafter := items_eq h.after
    refine ⟨⟨?_, ?_, ?_⟩, ?_⟩
    . rw [hbefore]
      apply shows_of_readOp (.list .new) (f := fun value => value.asList.map RList.len) rfl rfl
      rw [h.before]
      rfl
    . rw [hafter]
      apply shows_of_readOp (.list .new) (f := fun value => value.asList.map RList.len) rfl rfl
      rw [h.after]
      rfl
    . rw [hafter]
      exact h.reply
    . rw [hafter, hbefore]
  | _ => cases hresult

theorem foldl_lpush (values : List String) (list : RList)
    : values.foldl RList.lpush list = ⟨values.reverse ++ list.list⟩ := by
  induction values generalizing list with
  | nil => rfl
  | cons value values ih =>
    rw [List.foldl_cons, ih]
    simp [RList.lpush]

theorem dbsize_congr {now : Instant} {store store' : Store}
    (h : ∀ key, live now store key = live now store' key)
    : Db.dbsize now store = Db.dbsize now store' := by
  exact (LiveMap.liveKeys_perm h).length_eq

theorem dbsize_del (now : Instant) (keys : List String) (store : Store)
    : Db.dbsize now store = Db.dbsize now (Db.del now keys store).1 + (Db.del now keys store).2 := by
  unfold Db.del
  -- the keys left and the keys counted add up to the same number at each key of the loop
  apply List.foldlRecOn
    (motive := fun state : Store × Nat => Db.dbsize now store = Db.dbsize now state.1 + state.2)
  . rfl
  rintro ⟨current, removed⟩ hsum key -
  dsimp only at hsum ⊢
  have hevict := dbsize_congr (live_liveEntry now key current)
  have hfound : (liveEntry now key current).2 = live now (liveEntry now key current).1 key := by
    rw [live_liveEntry, liveEntry_eq]
  rcases hentry : liveEntry now key current with ⟨store', _ | entry⟩
  . rw [hentry] at hevict
    dsimp only at hevict ⊢
    rw [hsum, hevict]
  . -- a live key is erased, and counted
    rw [hentry] at hevict hfound
    have hsome : (live now store' key).isSome = true := by
      rw [← hfound]
      rfl
    have herase : Db.dbsize now (store'.erase key) + 1 = Db.dbsize now store' :=
      (LiveMap.liveKeys_erase_perm hsome).length_eq
    dsimp only at hevict ⊢
    omega

end

/--
The counts that commands reply, for the keys and arguments they are given.
-/
structure CountsExact (env : Env) (db : Database) : Prop where
  sadd : ∀ key values, (execute env (.sAdd key values) db).2 ≠ wrongTypeReply
    → ∃ added, Sized env db (.sAdd key values) (.sCard key) (Store.card env.now key) added
      ∧ Store.card env.now key (execute env (.sAdd key values) db).1.store
          = Store.card env.now key db.store + added
  srem : ∀ key values, (execute env (.sRem key values) db).2 ≠ wrongTypeReply
    → ∃ removed, Sized env db (.sRem key values) (.sCard key) (Store.card env.now key) removed
      ∧ Store.card env.now key db.store
          = Store.card env.now key (execute env (.sRem key values) db).1.store + removed
  zadd : ∀ key members, (execute env (.zAdd key members) db).2 ≠ wrongTypeReply
    → ∃ added, Sized env db (.zAdd key members) (.zCard key) (Store.card env.now key) added
      ∧ Store.card env.now key (execute env (.zAdd key members) db).1.store
          = Store.card env.now key db.store + added
      ∧ ∀ member, Rescored members member (Store.scoreOf env.now key member db.store)
          (Store.scoreOf env.now key member (execute env (.zAdd key members) db).1.store)
  lpush : ∀ key values, (execute env (.lPush key values) db).2 ≠ wrongTypeReply
    → let pushed := values.reverse ++ db.store.items env.now key
      (execute env (.lPush key values) db).1.store.items env.now key = pushed
        ∧ Sized env db (.lPush key values) (.lLen key)
            (fun store => (store.items env.now key).length) pushed.length
  rpush : ∀ key values, (execute env (.rPush key values) db).2 ≠ wrongTypeReply
    → let pushed := db.store.items env.now key ++ values
      (execute env (.rPush key values) db).1.store.items env.now key = pushed
        ∧ Sized env db (.rPush key values) (.lLen key)
            (fun store => (store.items env.now key).length) pushed.length
  del : ∀ keys, ∃ removed, Sized env db (.del keys) .dbSize (Db.dbsize env.now) removed
    ∧ Db.dbsize env.now db.store = Db.dbsize env.now (execute env (.del keys) db).1.store + removed

theorem counts_exact (env : Env) (db : Database) : CountsExact env db where
  sadd _ values hreply := sadd_counts values hreply
  srem _ values hreply := srem_counts values hreply
  zadd _ members hreply := zadd_counts members hreply
  lpush key values hreply := by
    rcases push_counts rfl hreply with ⟨hsized, hitems⟩
    rw [hitems, foldl_lpush] at hsized
    rw [hitems, foldl_lpush]
    exact ⟨rfl, hsized⟩
  rpush key values hreply := by
    rcases push_counts rfl hreply with ⟨hsized, hitems⟩
    rw [hitems, Db.foldl_rpush] at hsized
    rw [hitems, Db.foldl_rpush]
    exact ⟨rfl, hsized⟩
  del keys := ⟨(Db.del env.now keys db.store).2, ⟨rfl, rfl, rfl⟩, dbsize_del env.now keys db.store⟩

end RedisClone
