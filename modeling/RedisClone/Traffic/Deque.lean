import RedisClone.Lib.Deque
import RedisClone.Command.WellFormed
import RedisClone.Keyspace.Collection
import RedisClone.Keyspace.Count
import RedisClone.Keyspace.Restore
import RedisClone.Traffic.AtKey

/-!
This module contains what a list is to the clients that share it: a double-ended queue. However their
requests interleave, with each other and with requests for other keys, nothing that is pushed is lost,
popped twice or overtaken.
-/

namespace RedisClone

open Store

/--
The commands that push and pop.
-/
def Command.dequeOp : Command → Option (Deque.Op String)
  | .lPush _ values => some (.pushFront values)
  | .rPush _ values => some (.pushBack values)
  | .lPop _ => some .popFront
  | .rPop _ => some .popBack
  | _ => none

/--
A push is answered with the new length, a pop with the item.
-/
def dequeReply (items : List String) (op : Deque.Op String) : String :=
  if op.isPop then Reply.optional (.ok (op.popped items)) else Reply.number (op.next items).length

/--
The key of a list command.
-/
def Command.listKey : Command → Option String
  | .lPush key _ | .rPush key _ | .lPop key | .rPop key | .lLen key | .lRange key _ _
  | .lIndex key _ | .lSet key _ _ => some key
  | _ => none

/--
A list command on a deque, with its reply. A deque without items is a missing key.
-/
def Command.onDeque (items : List String) (command : Command) : List String × String :=
  match command.dequeOp with
  | some op => (op.next items, dequeReply items op)
  | none =>
    match command with
    | .lLen _ => (items, Reply.number items.length)
    | .lRange _ start stop => (items, Resp.array (selectRange items start stop))
    | .lIndex _ index =>
      let offset := normalizeIndex index items.length
      (items, Reply.optional (.ok (offset.bind fun offset => items[offset]?)))
    | .lSet _ index value =>
      match normalizeIndex index items.length with
      | some offset => (items.set offset value, Resp.simpleString "OK")
      | none =>
        let error := if items.isEmpty then StoreError.noSuchKey else StoreError.indexOutOfRange
        (items, Resp.error error.toString)
    | _ => (items, "")

/--
What the keyspace holds for a deque.
-/
def dequeEntry (items : List String) : Option Entry :=
  if items = [] then none else some { value := .list ⟨items⟩, expiresAt := none }

variable {key : String} {command : Command} {items : List String}

/--
A deque as a collection.
-/
def deques : Collection (List String) where
  wrap items := .list ⟨items⟩
  empty := []
  isEmpty := List.isEmpty
  isEmpty_iff _ := List.isEmpty_iff

theorem dequeEntry_of_ne_nil (h : items ≠ [])
    : dequeEntry items = some { value := .list ⟨items⟩, expiresAt := none } := by
  exact if_neg h

theorem dequeEntry_eq (items : List String) : dequeEntry items = deques.entry items := by
  cases items <;> rfl

/--
At a key that holds a deque, a list command does what it does to the deque.
-/
theorem keyOp_onDeque {tokens : List String} (env : Env) (hlist : command.listKey = some key)
    (hwellFormed : command.WellFormed tokens) (items : List String)
    : ∃ op, command.keyOp env = some (key, op)
        ∧ op (dequeEntry items)
          = (dequeEntry (command.onDeque items).1, (command.onDeque items).2) := by
  simp only [dequeEntry_eq]
  cases command
  all_goals simp only [Command.listKey, Option.some.injEq, reduceCtorEq] at hlist
  all_goals subst hlist
  all_goals refine ⟨_, rfl, ?_⟩
  case lPush key values =>
    have hvalues : values ≠ [] := hwellFormed
    have hact : Db.pushOn RList.lpush values (deques.wrap items)
        = .ok (deques.wrap (values.reverse ++ items), (values.reverse ++ items).length) := by
      simp only [Db.pushOn, deques, Value.asList, Except.map, foldl_lpush, RList.len]
    have hpush := deques.updateOp_entry hact (by simp [deques, hvalues])
    exact KeyOp.reply_eq hpush Reply.count
  case rPush key values =>
    have hvalues : values ≠ [] := hwellFormed
    have hact : Db.pushOn RList.rpush values (deques.wrap items)
        = .ok (deques.wrap (items ++ values), (items ++ values).length) := by
      simp only [Db.pushOn, deques, Value.asList, Except.map, Db.foldl_rpush, RList.len]
    have hpush := deques.updateOp_entry hact (by simp [deques, hvalues])
    exact KeyOp.reply_eq hpush Reply.count
  case lPop key =>
    have hpop : KeyOp.removeOp none (Db.popOn RList.lpop) (deques.entry items)
        = (deques.entry items.tail, .ok items.head?) := by
      apply deques.removeOp_entry rfl
      rintro rfl
      exact ⟨rfl, rfl⟩
    exact KeyOp.reply_eq hpop Reply.optional
  case rPop key =>
    have hpop : KeyOp.removeOp none (Db.popOn RList.rpop) (deques.entry items)
        = (deques.entry items.dropLast, .ok items.getLast?) := by
      apply deques.removeOp_entry rfl
      rintro rfl
      exact ⟨rfl, rfl⟩
    exact KeyOp.reply_eq hpop Reply.optional
  case lLen key =>
    refine KeyOp.reply_eq (deques.readOp_entry rfl ?_) Reply.count
    rintro rfl
    rfl
  case lRange key start stop =>
    refine KeyOp.reply_eq (deques.readOp_entry rfl ?_) Reply.array
    rintro rfl
    rfl
  case lIndex key index =>
    refine KeyOp.reply_eq (deques.readOp_entry rfl ?_) Reply.optional
    rintro rfl
    rfl
  case lSet key index value =>
    by_cases hitems : items = []
    . subst hitems
      rfl
    . simp only [← dequeEntry_eq]
      rw [dequeEntry_of_ne_nil hitems]
      simp only [KeyOp.reply, KeyOp.lsetOp, Command.onDeque, Command.dequeOp, Value.asList,
        RList.lset]
      cases normalizeIndex index items.length with
      | some offset =>
        have hset : items.set offset value ≠ [] := by
          simpa using hitems
        rw [dequeEntry_of_ne_nil hset]
        rfl
      | none =>
        rw [dequeEntry_of_ne_nil hitems, if_neg (by simpa using hitems)]
        rfl

namespace Traffic

/--
A deque that answers list commands.
-/
def deque : Linearize.Object (List String) ClientRequest String :=
  commands fun _ => Command.onDeque

theorem standsFor_deque (key : String)
    : StandsFor deque key (isRequestOn Command.listKey key)
        fun items _ found => found = dequeEntry items := by
  apply standsFor_commands
  . intro items now
    rw [dequeEntry_eq]
    exact deques.filter_entry now items
  . intro tokens command env items hparse hkey
    exact keyOp_onDeque env hkey (Command.parse_wellFormed hparse) items

/--
A list is a linearizable deque. Whatever other keys the clients use at the same time, every list command
on the key is answered as by a deque that serves these commands one after the other, and the key holds the
items of this deque in the end.
-/
theorem list_is_deque {events : List TrafficEvent} {start : Instant} {db : Database}
    {last : Traffic} {answers : List (ClientRequest × String)}
    (hinitial : live start db.store key = dequeEntry items)
    (huses : ∀ event ∈ events, Uses (isRequestOn Command.listKey key) key event)
    (hrun : system.run events (new start db) = some (last, answers))
    : let requests := (events.filterMap TrafficEvent.clientRequest).filter
        (isRequestOn Command.listKey key)
      (answers.filter fun answer => isRequestOn Command.listKey key answer.1)
          = deque.answers requests items
        ∧ live last.clock last.db.store key = dequeEntry (deque.after requests items) := by
  exact (standsFor_deque key).run hinitial huses hrun

/--
Two clients that hand over items, and a third one that sets an item of another list.
-/
def handover : List TrafficEvent :=
  [.request 0 (envAt startOfClock) ["RPUSH", "jobs", "a", "b"],
    .request 1 (envAt startOfClock) ["LPOP", "jobs"], .finish 0 startOfClock,
    .request 2 (envAt startOfClock) ["LSET", "done", "0", "x"], .finish 1 startOfClock,
    .request 0 (envAt startOfClock) ["LLEN", "jobs"]]

theorem handover_uses
    : ∀ event ∈ handover, Uses (isRequestOn Command.listKey "jobs") "jobs" event
    := by
  simp only [handover, List.forall_mem_cons, List.not_mem_nil, false_implies, implies_true,
    and_true]
  refine ⟨?_, ?_, ?_, ?_, ?_, ?_⟩
  all_goals
    intro request hrequest
    cases hrequest
  . left
    rfl
  . left
    rfl
  . right
    intro command hcommand
    cases hcommand
    exact ⟨by simp, .inr (by simp [Command.namedKeys])⟩
  . left
    rfl

theorem exists_run_handover
    : ∃ last answers,
        system.run handover (new startOfClock (.new startOfClock)) = some (last, answers) := by
  have hrun : (system.run handover (new startOfClock (.new startOfClock))).isSome = true := by
    decide
  obtain ⟨⟨last, answers⟩, hrun⟩ := Option.isSome_iff_exists.mp hrun
  exact ⟨last, answers, hrun⟩

theorem list_is_deque_handover
    : ∃ last answers,
        system.run handover (new startOfClock (.new startOfClock)) = some (last, answers)
          ∧ let requests := (handover.filterMap TrafficEvent.clientRequest).filter
              (isRequestOn Command.listKey "jobs")
            (answers.filter fun answer => isRequestOn Command.listKey "jobs" answer.1)
                = deque.answers requests []
              ∧ live last.clock last.db.store "jobs" = dequeEntry (deque.after requests []) := by
  obtain ⟨last, answers, hrun⟩ := exists_run_handover
  exact ⟨last, answers, hrun, list_is_deque rfl handover_uses hrun⟩

/-
What is pushed and what is popped.
-/

def requestOp (tokens : List String) : Option (Deque.Op String) :=
  match Command.parse tokens with
  | .ok command => command.dequeOp
  | .error _ => none

/--
Every list command but `LSET`, which exchanges an item for another one.
-/
def SetsNoItem (tokens : List String) : Prop :=
  ∀ key index value, Command.parse tokens ≠ .ok (.lSet key index value)

theorem call_deque {request : ClientRequest} (h : SetsNoItem request.tokens) (items : List String)
    : (deque.call request items).1 = (requestOp request.tokens).elim items (Deque.Op.next items)
        ∧ ∀ op, requestOp request.tokens = some op
          → (deque.call request items).2 = dequeReply items op := by
  unfold requestOp
  cases hparse : Command.parse request.tokens with
  | error error =>
    simp [deque, commands, hparse]
  | ok command =>
    have hset : ∀ key index value, command ≠ .lSet key index value := by
      rintro key index value rfl
      exact h key index value hparse
    simp only [deque, commands, hparse, Command.onDeque]
    cases command
    case lSet key index value => exact absurd rfl (hset key index value)
    all_goals simp [Command.dequeOp]

theorem answers_deque {requests : List ClientRequest}
    (h : ∀ request ∈ requests, SetsNoItem request.tokens) (items : List String)
    : let ops := requests.filterMap fun request => requestOp request.tokens
      let pops := (deque.answers requests items).filter fun answer =>
        (requestOp answer.1.tokens).any Deque.Op.isPop
      deque.after requests items = Deque.after items ops
        ∧ pops.map Prod.snd
          = (Deque.outcomes items ops).map fun outcome => Reply.optional (.ok outcome) := by
  induction requests generalizing items with
  | nil => exact ⟨rfl, rfl⟩
  | cons request requests ih =>
    rw [List.forall_mem_cons] at h
    have ⟨hafter, hpops⟩ := ih h.2 (deque.call request items).1
    have ⟨hnext, hreply⟩ := call_deque h.1 items
    simp only [Linearize.Object.answers, Linearize.Object.after_cons, List.filterMap_cons]
    cases hop : requestOp request.tokens with
    | none =>
      simp only [hop, Option.elim] at hnext
      rw [hnext] at hafter hpops ⊢
      simpa [hop] using ⟨hafter, hpops⟩
    | some op =>
      simp only [hop, Option.elim] at hnext
      rw [hnext] at hafter hpops ⊢
      refine ⟨hafter, ?_⟩
      rw [Deque.outcomes, List.filter_cons]
      cases hpop : op.isPop with
      | false => simpa [hop, hpop] using hpops
      | true => simpa [hop, hpop, hreply op hop, dequeReply] using hpops

end Traffic
end RedisClone
