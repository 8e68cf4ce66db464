import RedisClone.Keyspace.Commute
import RedisClone.Keyspace.Permanent
import RedisClone.Lib.WriteBehind

/-!
This module contains the requests of concurrent clients as the two steps that `dispatch` takes: the
lock of the store is released before the lock of the file is taken, so that anything can happen in
between.
-/

namespace RedisClone

/--
A request that has been executed, and whose entry is not in the file yet.
-/
structure Unlogged where
  client : Nat
  entry : List String

/--
The database, and the requests between their two steps in the order of their execution.
-/
structure Writes where
  db : Database
  unlogged : List Unlogged

inductive WriteEvent where
  | execute (client : Nat) (env : Env) (tokens : List String)
  | append (client : Nat)

namespace Writes

def new (db : Database) : Writes := ⟨db, []⟩

/--
The requests in flight that were executed before that of `client`.
-/
def ahead (self : Writes) (client : Nat) : List Unlogged :=
  self.unlogged.takeWhile fun request => request.client != client

/--
A client has one request in flight at most. A request that has nothing to log is complete when it has
been executed.
-/
def step (self : Writes) : WriteEvent → Option Writes
  | .execute client env tokens =>
    if self.unlogged.any fun request => request.client == client then
      none
    else
      match Command.parse tokens with
      | .error _ => some self
      | .ok command =>
        let db := (execute env command self.db).1
        match logEntry env command tokens self.db with
        | some entry => some ⟨db, self.unlogged ++ [⟨client, entry⟩]⟩
        | none => some { self with db }
  | .append client =>
    match self.unlogged.dropWhile fun request => request.client != client with
    | request :: behind => some ⟨self.db.logWrite request.entry, self.ahead client ++ behind⟩
    | [] => none

def run : List WriteEvent → Writes → Option Writes
  | [], self => some self
  | event :: events, self => (self.step event).bind (run events)

/--
Executed and logged without anything in between, a request does what `dispatch` does.
-/
theorem run_dispatch (client : Nat) (env : Env) (tokens : List String) (db : Database)
    : ∃ events,
        (events = [.execute client env tokens]
          ∨ events = [.execute client env tokens, .append client])
          ∧ run events (new db) = some (new (dispatch env tokens db).1) := by
  cases tokens with
  | nil => exact ⟨_, .inl rfl, rfl⟩
  | cons name args =>
    cases hparse : Command.parse (name :: args) with
    | error error =>
      refine ⟨_, .inl rfl, ?_⟩
      rw [dispatch_of_parse_error (List.cons_ne_nil name args) hparse]
      simp [run, step, new, hparse]
    | ok command =>
      rw [dispatch_of_parse_ok hparse]
      cases hentry : logEntry env command (name :: args) db with
      | none =>
        refine ⟨_, .inl rfl, ?_⟩
        simp [run, step, new, hparse, hentry, Database.logOptional]
      | some entry =>
        refine ⟨_, .inr rfl, ?_⟩
        simp [run, step, new, ahead, hparse, hentry, Database.logOptional]

/--
Requests that set no deadline.
-/
def TimelessRequest : WriteEvent → Prop
  | .execute _ _ tokens =>
    ∀ command, Command.parse tokens = .ok command → command.setsDeadline = false
  | .append _ => True

/--
Entries that have the same effect in either order on every keyspace without deadlines.
-/
def CommutingEntries (entry other : List String) : Prop :=
  ∀ env, WriteBehind.Commute (effect env) Store.Permanent entry other

/--
A request may append its entry ahead of those that were executed before it if it commutes with them.
-/
def InOrder (self : Writes) : WriteEvent → Prop
  | .append client => ∀ request ∈ self.unlogged, request.client = client →
    ∀ other ∈ self.ahead client, CommutingEntries request.entry other.entry
  | .execute _ _ _ => True

/--
A request may append its entry if the reader accepts it.
-/
def WithinLimits (self : Writes) : WriteEvent → Prop
  | .append client => ∀ request ∈ self.unlogged, request.client = client → Readable request.entry
  | .execute _ _ _ => True

/--
A condition on every step of a run.
-/
def AtEveryStep (condition : Writes → WriteEvent → Prop) : List WriteEvent → Writes → Prop
  | [], _ => True
  | event :: events, self =>
    condition self event
      ∧ ∀ next, self.step event = some next → AtEveryStep condition events next

end Writes
end RedisClone
