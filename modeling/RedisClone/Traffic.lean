import RedisClone.Keyspace.ReadLocks
import RedisClone.Lib.Linearize
import RedisClone.Server.Recovery

/-!
This module contains the requests of any number of clients as the separate locks they take. The first
lock of a request decides its reply. What it leaves behind, an expired key to evict or an entry to append
to the log, is done under a second lock, when other requests and the sweeper have been at the store.
-/

namespace RedisClone

open Store

/--
What a request has left to do after its first lock.
-/
inductive Leftover where
  | evict (key : String)
  | append (entry : List String)

def Leftover.entry : Leftover → Option (List String)
  | .append entry => some entry
  | .evict _ => none

def Leftover.finish (now : Instant) (self : Leftover) (db : Database) : Database :=
  match self with
  | .evict key => { db with store := evictExpired now key db.store }
  | .append entry => db.logWrite entry

/--
A request up to the release of its first lock, with its reply.
-/
def firstLock (env : Env) (tokens : List String) (db : Database)
    : Database × String × Option Leftover :=
  if tokens.isEmpty then
    (db, "", none)
  else
    match Command.parse tokens with
    | .ok command =>
      match command.entryRead env with
      | some read =>
        let (reply, expired) := read.peek env.now db.store
        (db, reply, if expired then some (.evict read.key) else none)
      | none =>
        let (next, reply) := execute env command db
        (next, reply, (logEntry env command tokens db).map .append)
    | .error error => (db, Resp.error error.toString, none)

structure InFlight where
  client : Nat
  leftover : Leftover

/--
The database, the time of the last step, and the requests that have not been finished yet.
-/
structure Traffic where
  db : Database
  clock : Instant
  inFlight : List InFlight

inductive TrafficEvent where
  | request (client : Nat) (env : Env) (tokens : List String)
  | finish (client : Nat) (now : Instant)
  | sweep (now : Instant)

def TrafficEvent.now : TrafficEvent → Instant
  | .request _ env _ => env.now
  | .finish _ now | .sweep now => now

/--
A request of a client, with the surroundings it is served in.
-/
structure ClientRequest where
  client : Nat
  env : Env
  tokens : List String

def TrafficEvent.clientRequest : TrafficEvent → Option ClientRequest
  | .request client env tokens => some ⟨client, env, tokens⟩
  | _ => none

namespace Traffic

def new (now : Instant) (db : Database) : Traffic := ⟨db, now, []⟩

/--
A client has one request in flight at most, and the clock does not go back.
-/
def step (self : Traffic) (event : TrafficEvent)
    : Option (Traffic × Option (ClientRequest × String)) :=
  if self.clock ≤ event.now then
    match event with
    | .request client env tokens =>
      if self.inFlight.any fun request => request.client == client then
        none
      else
        let (db, reply, leftover) := firstLock env tokens self.db
        let inFlight := self.inFlight ++ (leftover.map (InFlight.mk client)).toList
        some (⟨db, env.now, inFlight⟩, some (⟨client, env, tokens⟩, reply))
    | .finish client now =>
      match self.inFlight.find? fun request => request.client == client with
      | some request =>
        let inFlight := self.inFlight.eraseP fun request => request.client == client
        some (⟨request.leftover.finish now self.db, now, inFlight⟩, none)
      | none => none
    | .sweep now =>
      let store := (Db.sweepExpired now self.db.store).1
      some ({ self with db := { self.db with store }, clock := now }, none)
  else
    none

def system : Linearize.System Traffic TrafficEvent ClientRequest String := ⟨step⟩

/--
The server as a single client sees it: every request is dispatched at once.
-/
def sequential : Linearize.Object Database ClientRequest String :=
  ⟨fun request db => dispatch request.env request.tokens db⟩

/--
The entries that are still to be appended to the log.
-/
def unlogged (self : Traffic) : List (List String) :=
  self.inFlight.filterMap fun request => request.leftover.entry

end Traffic

/-
A request with both locks in one piece is a dispatch.
-/

theorem logEntry_of_entryRead {env : Env} {command : Command} {read : EntryRead}
    (h : command.entryRead env = some read) (tokens : List String) (db : Database)
    : logEntry env command tokens db = none := by
  cases command
  all_goals simp only [Command.entryRead, reduceCtorEq] at h
  all_goals rfl

theorem dispatch_eq_firstLock (env : Env) (tokens : List String) (db : Database)
    : let locked := firstLock env tokens db
      dispatch env tokens db
        =
      (locked.2.2.elim locked.1 fun leftover => leftover.finish env.now locked.1, locked.2.1) := by
  cases tokens with
  | nil => rfl
  | cons name args =>
    unfold firstLock
    rw [if_neg (by simp)]
    cases hparse : Command.parse (name :: args) with
    | error error => exact dispatch_of_parse_error (List.cons_ne_nil name args) hparse
    | ok command =>
      rw [dispatch_of_parse_ok hparse]
      dsimp only
      cases hread : command.entryRead env with
      | some read =>
        rw [execute_eq_halves hread, logEntry_of_entryRead hread]
        unfold EntryRead.halves
        dsimp only
        cases (read.peek env.now db.store).2 <;> rfl
      | none => cases logEntry env command (name :: args) db <;> rfl

end RedisClone
