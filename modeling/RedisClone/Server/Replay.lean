import RedisClone.Command.Execute
import RedisClone.Server.ReadRequest

/-!
This module contains the recovery of the keyspace from the append-only file.
-/

namespace RedisClone

/--
The loop of `replay_aof`; `envs` are the surroundings of each command. Every request takes at least
one byte, so the length of the file bounds the number of rounds.
-/
def replayLoop (rounds : Nat) (envs : Nat → Env) (input : List UInt8) (db : Database) (count : Nat)
    : Database × Nat :=
  match rounds with
  | 0 => (db, count)
  | rounds + 1 =>
    match readRequest input with
    | .ok (some (tokens, rest)) =>
      replayLoop rounds (fun i => envs (i + 1)) rest (dispatch (envs 0) tokens db).1 (count + 1)
    | .ok none => (db, count)
    | .error _ => (db, count)

/--
`replay_aof`: nothing is logged while it runs, also if it stops at a malformed entry.
-/
def replayAof (envs : Nat → Env) (file : List UInt8) (db : Database) : Database × Nat :=
  let (db, count) := replayLoop (file.length + 1) envs file db.beginReplay 0
  (db.endReplay, count)

/--
`init_persistence` in append-only mode: the file is opened for appending and replayed.
-/
def initAppendOnly (now : Instant) (envs : Nat → Env) (snapshotPath : Option String)
    (file : List UInt8) : Database :=
  (replayAof envs file (Database.withPersistence now snapshotPath (some file))).1

end RedisClone
