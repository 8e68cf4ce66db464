import RedisClone.Command.WellFormed
import RedisClone.Keyspace.Collection
import RedisClone.Keyspace.Count
import RedisClone.Traffic.AtKey

/-!
This module contains what a set is to the clients that share it: a pool that members are put into and
taken out of. However their requests interleave, what is put in once is taken out once.
-/

namespace RedisClone

open Store

abbrev Pool := Std.ExtTreeSet String

namespace Pool

variable {pool : Pool} {member : String}

def insertAll (pool : Pool) (values : List String) : Pool :=
  values.foldl (fun pool value => pool.insert value) pool

def eraseAll (pool : Pool) (values : List String) : Pool :=
  values.foldl (fun pool value => pool.erase value) pool

/--
The member that comes first in the order of the surroundings.
-/
def pick (pool : Pool) (env : Env) (key : String) : Option String :=
  (env.order (.value key) pool.toList).head?

theorem mem_insertAll {values : List String}
    : member ∈ pool.insertAll values ↔ member ∈ pool.toList ++ values := by
  unfold insertAll
  induction values generalizing pool with
  | nil => simp
  | cons value values ih =>
    rw [List.foldl_cons, ih, List.mem_append, List.mem_append, Std.ExtTreeSet.mem_toList,
      Std.ExtTreeSet.mem_toList, Std.ExtTreeSet.mem_insert, Std.LawfulEqCmp.compare_eq_iff_eq,
      List.mem_cons]
    rw [eq_comm]
    tauto

theorem nodup_toList (pool : Pool) : pool.toList.Nodup := by
  apply List.Pairwise.imp _ Std.ExtTreeSet.distinct_toList
  rintro a b hne rfl
  exact hne Std.ReflCmp.compare_self

theorem perm_insertAll {values : List String} (h : (pool.toList ++ values).Nodup)
    : (pool.insertAll values).toList.Perm (pool.toList ++ values) := by
  rw [List.perm_ext_iff_of_nodup (nodup_toList _) h]
  intro member
  rw [Std.ExtTreeSet.mem_toList, mem_insertAll]

theorem perm_erase (h : member ∈ pool) : pool.toList.Perm (member :: (pool.erase member).toList) := by
  have hnodup : (member :: (pool.erase member).toList).Nodup := by
    rw [List.nodup_cons]
    refine ⟨?_, nodup_toList _⟩
    simp
  rw [List.perm_ext_iff_of_nodup (nodup_toList _) hnodup]
  intro other
  rw [List.mem_cons, Std.ExtTreeSet.mem_toList, Std.ExtTreeSet.mem_toList, Std.ExtTreeSet.mem_erase,
    ne_eq, Std.LawfulEqCmp.compare_eq_iff_eq]
  by_cases hother : other = member
  . simp [hother, h]
  . simp [hother, Ne.symm hother]

theorem eraseAll_empty (values : List String) : eraseAll ∅ values = ∅ := by
  induction values with
  | nil => rfl
  | cons value values ih =>
    have herase : (∅ : Pool).erase value = ∅ := by
      simp
    unfold eraseAll at ih ⊢
    rw [List.foldl_cons, herase, ih]

theorem order_empty (env : Env) (key : String)
    : env.order (.value key) (∅ : Pool).toList = [] := by
  have hperm := env.order_perm (.value key) (∅ : Pool).toList
  exact List.perm_nil.mp hperm

theorem mem_of_pick {env : Env} {key : String} (h : pool.pick env key = some member)
    : member ∈ pool := by
  have hmem := List.mem_of_head? h
  rwa [(env.order_perm (.value key) pool.toList).mem_iff, Std.ExtTreeSet.mem_toList] at hmem

end Pool

/--
The key of a command on a set.
-/
def Command.poolKey : Command → Option String
  | .sAdd key _ | .sRem key _ | .sMembers key | .sIsMember key _ | .sCard key | .sPop key => some key
  | _ => none

/--
A command on a pool, with its reply. `SADD` is answered with the number of new members, `SREM` with the
number of members that are gone.
-/
def Command.onPool (env : Env) (pool : Pool) : Command → Pool × String
  | .sAdd _ values =>
    let filled := pool.insertAll values
    (filled, Reply.number (filled.size - pool.size))
  | .sRem _ values =>
    let rest := pool.eraseAll values
    (rest, Reply.number (pool.size - rest.size))
  | .sMembers key => (pool, Resp.array (env.order (.value key) pool.toList))
  | .sIsMember _ value => (pool, Reply.bit (pool.contains value))
  | .sCard _ => (pool, Reply.number pool.size)
  | .sPop key =>
    let popped := pool.pick env key
    (popped.elim pool pool.erase, Reply.optional (.ok popped))
  | _ => (pool, "")

def pools : Collection Pool where
  wrap pool := .set ⟨pool⟩
  empty := ∅
  isEmpty := Std.ExtTreeSet.isEmpty
  isEmpty_iff _ := Std.ExtTreeSet.isEmpty_iff

variable {key : String} {command : Command}

theorem saddOn_eq (values : List String) (pool : Pool)
    : Db.saddOn values (pools.wrap pool)
        =
      .ok (pools.wrap (pool.insertAll values), (pool.insertAll values).size - pool.size) := by
  let added := Db.countChanges RSet.sadd values ⟨pool⟩
  have hact : Db.saddOn values (pools.wrap pool) = .ok (.set added.1, added.2) := by
    rfl
  have hcount : added.1.scard = pool.size + added.2 :=
    Db.countChanges_grows _ RSet.scard RSet.scard_sadd values ⟨pool⟩
  have hset : added.1 = ⟨pool.insertAll values⟩ := by
    unfold added Pool.insertAll
    rw [Db.countChanges_fst]
    clear hact hcount added
    induction values generalizing pool with
    | nil => rfl
    | cons value values ih => exact ih (pool.insert value)
  rw [hset] at hact hcount
  rw [hact]
  have hsize : (pool.insertAll values).size = pool.size + added.2 := hcount
  rw [hsize, Nat.add_sub_cancel_left]
  rfl

theorem sremOn_eq (values : List String) (pool : Pool)
    : Db.sremOn values (pools.wrap pool)
        =
      .ok (pools.wrap (pool.eraseAll values), pool.size - (pool.eraseAll values).size,
        pools.isEmpty (pool.eraseAll values)) := by
  let removed := Db.countChanges RSet.srem values ⟨pool⟩
  have hact : Db.sremOn values (pools.wrap pool)
      = .ok (.set removed.1, removed.2, removed.1.isEmpty) := by
    rfl
  have hcount : pool.size = removed.1.scard + removed.2 :=
    Db.countChanges_shrinks _ RSet.scard RSet.scard_srem values ⟨pool⟩
  have hset : removed.1 = ⟨pool.eraseAll values⟩ := by
    unfold removed Pool.eraseAll
    rw [Db.countChanges_fst]
    clear hact hcount removed
    induction values generalizing pool with
    | nil => rfl
    | cons value values ih => exact ih (pool.erase value)
  rw [hset] at hact hcount
  rw [hact]
  have hsize : pool.size = (pool.eraseAll values).size + removed.2 := hcount
  rw [hsize, Nat.add_sub_cancel_left]
  rfl

/--
At a key that holds a pool, a command on it does what it does to the pool.
-/
theorem keyOp_onPool {tokens : List String} (env : Env) (hpool : command.poolKey = some key)
    (hwellFormed : command.WellFormed tokens) (pool : Pool)
    : ∃ op, command.keyOp env = some (key, op)
        ∧ op (pools.entry pool)
          = (pools.entry (command.onPool env pool).1, (command.onPool env pool).2) := by
  cases command
  all_goals simp only [Command.poolKey, Option.some.injEq, reduceCtorEq] at hpool
  all_goals subst hpool
  all_goals refine ⟨_, rfl, ?_⟩
  case sAdd key values =>
    have hne : pools.isEmpty (pool.insertAll values) = false := by
      have hvalues : values ≠ [] := hwellFormed.1
      obtain ⟨value, hvalue⟩ := List.exists_mem_of_ne_nil _ hvalues
      have hmem : value ∈ pool.insertAll values :=
        Pool.mem_insertAll.mpr (List.mem_append_right _ hvalue)
      rw [Bool.eq_false_iff]
      intro hempty
      rw [(pools.isEmpty_iff _).mp hempty] at hmem
      exact Std.ExtTreeSet.not_mem_empty hmem
    exact KeyOp.reply_eq (pools.updateOp_entry (saddOn_eq values pool) hne) Reply.count
  case sRem key values =>
    refine KeyOp.reply_eq (pools.removeOp_entry (sremOn_eq values pool) ?_) Reply.count
    rintro rfl
    have hrest : Pool.eraseAll pools.empty values = pools.empty := Pool.eraseAll_empty values
    rw [hrest]
    exact ⟨rfl, rfl⟩
  case sPop key =>
    have hact : Db.spopOn (env.order (.value key)) (pools.wrap pool)
        = .ok (pools.wrap ((pool.pick env key).elim pool pool.erase), pool.pick env key,
          pools.isEmpty ((pool.pick env key).elim pool pool.erase)) := by
      unfold Pool.pick
      simp only [Db.spopOn, pools, Value.asSet, Except.map, RSet.spop, RSet.isEmpty]
      cases (env.order (.value key) pool.toList).head? <;> rfl
    refine KeyOp.reply_eq (pools.removeOp_entry hact ?_) Reply.optional
    rintro rfl
    have hnone : Pool.pick pools.empty env key = none := by
      exact congrArg List.head? (Pool.order_empty env key)
    rw [hnone]
    exact ⟨rfl, rfl⟩
  case sMembers key =>
    refine KeyOp.reply_eq (pools.readOp_entry rfl ?_) Reply.array
    rintro rfl
    exact congrArg Except.ok (Pool.order_empty env key).symm
  case sIsMember key value =>
    refine KeyOp.reply_eq (pools.readOp_entry rfl ?_) Reply.bool
    rintro rfl
    rfl
  case sCard key =>
    refine KeyOp.reply_eq (pools.readOp_entry rfl ?_) Reply.count
    rintro rfl
    rfl

namespace Traffic

/--
A pool that answers the commands on a set.
-/
def pool : Linearize.Object Pool ClientRequest String := commands Command.onPool

theorem standsFor_pool (key : String)
    : StandsFor pool key (isRequestOn Command.poolKey key)
        fun members _ found => found = pools.entry members := by
  apply standsFor_commands
  . intro members now
    exact pools.filter_entry now members
  . intro tokens command env members hparse hkey
    exact keyOp_onPool env hkey (Command.parse_wellFormed hparse) members

variable {members : Pool} {requests : List ClientRequest}

/--
The members that a request puts in.
-/
def putIn (request : ClientRequest) : List String :=
  match Command.parse request.tokens with
  | .ok (.sAdd _ values) => values
  | _ => []

/--
Whether a request takes out a member of its choice.
-/
def isPop (request : ClientRequest) : Bool :=
  match Command.parse request.tokens with
  | .ok (.sPop _) => true
  | _ => false

/--
Every request but `SREM`, which takes out members that the client names.
-/
def NamesNoMember (request : ClientRequest) : Prop :=
  ∀ key values, Command.parse request.tokens ≠ .ok (.sRem key values)

/--
What a request does to a pool: it puts members in, it takes one out, or it only looks.
-/
theorem call_pool {request : ClientRequest} (h : NamesNoMember request) (members : Pool)
    : let called := pool.call request members
      if isPop request then
        putIn request = []
          ∧ ∃ popped, called = (popped.elim members members.erase, Reply.optional (.ok popped))
            ∧ (∀ member, popped = some member → member ∈ members)
      else
        called.1 = members.insertAll (putIn request) := by
  unfold isPop putIn
  cases hparse : Command.parse request.tokens with
  | error error => simp [pool, commands, hparse, Pool.insertAll]
  | ok command =>
    have hremove : ∀ key values, command ≠ .sRem key values := by
      rintro key values rfl
      exact h key values hparse
    simp only [pool, commands, hparse]
    cases command
    case sPop key =>
      refine ⟨rfl, members.pick request.env key, rfl, ?_⟩
      intro member hpick
      exact Pool.mem_of_pick hpick
    case sRem key values => exact absurd rfl (hremove key values)
    all_goals rfl

/--
The members that are popped, in order, and the ones that remain are those of the pool and those put in.
-/
theorem answers_pool (h : ∀ request ∈ requests, NamesNoMember request) (members : Pool)
    (hnodup : (members.toList ++ requests.flatMap putIn).Nodup)
    : ∃ delivered : List (Option String),
        ((pool.answers requests members).filter fun answer => isPop answer.1).map Prod.snd
            = delivered.map (fun popped => Reply.optional (.ok popped))
          ∧ (delivered.reduceOption ++ (pool.after requests members).toList).Perm
            (members.toList ++ requests.flatMap putIn) := by
  induction requests generalizing members with
  | nil => exact ⟨[], rfl, by simp⟩
  | cons request requests ih =>
    rw [List.forall_mem_cons] at h
    have hcall := call_pool h.1 members
    rw [Linearize.Object.answers, Linearize.Object.after_cons, List.filter_cons]
    rw [List.flatMap_cons] at hnodup ⊢
    cases hpop : isPop request with
    | false =>
      rw [hpop] at hcall
      have hnext : (pool.call request members).1 = members.insertAll (putIn request) := hcall
      rw [← List.append_assoc] at hnodup ⊢
      have hperm := (Pool.perm_insertAll hnodup.of_append_left).append_right
        (requests.flatMap putIn)
      rw [← hperm.nodup_iff, ← hnext] at hnodup
      obtain ⟨delivered, hreplies, hall⟩ := ih h.2 _ hnodup
      rw [hnext] at hreplies hall ⊢
      exact ⟨delivered, hreplies, hall.trans hperm⟩
    | true =>
      rw [hpop] at hcall
      obtain ⟨hnone, popped, hcall, hmem⟩ := hcall
      rw [hnone, List.nil_append] at hnodup ⊢
      rw [hcall]
      cases popped with
      | none =>
        obtain ⟨delivered, hreplies, hall⟩ := ih h.2 members hnodup
        refine ⟨none :: delivered, ?_, hall⟩
        exact congrArg (_ :: ·) hreplies
      | some member =>
        have hperm := (Pool.perm_erase (hmem member rfl)).append_right (requests.flatMap putIn)
        rw [hperm.nodup_iff, List.cons_append, List.nodup_cons] at hnodup
        obtain ⟨delivered, hreplies, hall⟩ := ih h.2 _ hnodup.2
        refine ⟨some member :: delivered, ?_, ?_⟩
        . exact congrArg (_ :: ·) hreplies
        . rw [List.reduceOption_cons_of_some, List.cons_append]
          exact (hall.cons member).trans hperm.symm

/--
A set is a linearizable pool. Whatever other keys the clients use at the same time, every command on it is
answered as by a pool that serves these commands one after the other, and the key holds its members in the
end.
-/
theorem set_is_pool {events : List TrafficEvent} {start : Instant} {db : Database}
    {last : Traffic} {answers : List (ClientRequest × String)}
    (hinitial : live start db.store key = pools.entry members)
    (huses : ∀ event ∈ events, Uses (isRequestOn Command.poolKey key) key event)
    (hrun : system.run events (new start db) = some (last, answers))
    : let requests := (events.filterMap TrafficEvent.clientRequest).filter
        (isRequestOn Command.poolKey key)
      (answers.filter fun answer => isRequestOn Command.poolKey key answer.1)
          = pool.answers requests members
        ∧ live last.clock last.db.store key = pools.entry (pool.after requests members) := by
  exact (standsFor_pool key).run hinitial huses hrun

def drafting : List TrafficEvent :=
  [.request 0 (envAt startOfClock) ["SADD", "team", "a", "b"],
    .request 1 (envAt startOfClock) ["SPOP", "team"], .finish 0 startOfClock,
    .request 2 (envAt startOfClock) ["SREM", "bench", "a"], .finish 1 startOfClock,
    .request 0 (envAt startOfClock) ["SPOP", "team"]]

theorem drafting_uses
    : ∀ event ∈ drafting, Uses (isRequestOn Command.poolKey "team") "team" event := by
  simp only [drafting, List.forall_mem_cons, List.not_mem_nil, false_implies, implies_true, and_true]
  refine ⟨?_, ?_, ?_, ?_, ?_, ?_⟩
  all_goals
    intro request hrequest
    cases hrequest
  . left
    rfl
  . left
    rfl
  . right
    intro command hcommand
    cases hcommand
    exact ⟨by simp, .inr (by simp [Command.namedKeys])⟩
  . left
    rfl

theorem exists_run_drafting
    : ∃ last answers,
        system.run drafting (new startOfClock (.new startOfClock)) = some (last, answers) := by
  have hrun : (system.run drafting (new startOfClock (.new startOfClock))).isSome = true := by
    decide
  obtain ⟨⟨last, answers⟩, hrun⟩ := Option.isSome_iff_exists.mp hrun
  exact ⟨last, answers, hrun⟩

theorem set_is_pool_drafting
    : ∃ last answers,
        system.run drafting (new startOfClock (.new startOfClock)) = some (last, answers)
          ∧ let requests := (drafting.filterMap TrafficEvent.clientRequest).filter
              (isRequestOn Command.poolKey "team")
            (answers.filter fun answer => isRequestOn Command.poolKey "team" answer.1)
                = pool.answers requests ∅
              ∧ live last.clock last.db.store "team" = pools.entry (pool.after requests ∅) := by
  obtain ⟨last, answers, hrun⟩ := exists_run_drafting
  exact ⟨last, answers, hrun, set_is_pool rfl drafting_uses hrun⟩

end Traffic
end RedisClone
