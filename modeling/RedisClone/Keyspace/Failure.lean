import RedisClone.Command.Dispatch
import RedisClone.Keyspace.Laws

/-!
This module contains the proof that a request whose reply is an error changes nothing: neither the
live keys with their values and deadlines nor the append-only file.
-/

namespace RedisClone

open Store

variable {env : Env} {command : Command} {db : Database}

theorem execute_store_of_read (hkey : command.keyOp env = none) (hread : command.mutates = false)
    : (execute env command db).1.store = db.store := by
  cases command
  case zRange key start stop withScores => cases withScores <;> simp [Command.keyOp] at hkey
  all_goals simp only [Command.keyOp, reduceCtorEq] at hkey
  all_goals simp only [Command.mutates, Command.isWrite, Bool.true_eq_false] at hread
  case ping message => cases message <;> rfl
  case save =>
    simp only [execute]
    split <;> rfl
  all_goals rfl

theorem live_execute_of_unchanged {key : String} {op : KeyOp String}
    (hkey : command.keyOp env = some (key, op))
    (h : (op (live env.now db.store key)).1 = live env.now db.store key) (other : String)
    : live env.now (execute env command db).1.store other = live env.now db.store other := by
  rw [execute_eq_keyOp hkey]
  exact LiveMap.live_atKey_of_unchanged h

theorem live_execute_of_read (hread : command.mutates = false) (key : String)
    : live env.now (execute env command db).1.store key = live env.now db.store key := by
  cases hkey : command.keyOp env with
  | none => rw [execute_store_of_read hkey hread]
  | some keyOp => exact live_execute_of_unchanged hkey (Command.keyOp_read hkey hread) key

theorem live_liveEntry (now : Instant) (key : String) (store : Store) (other : String)
    : live now (liveEntry now key store).1 other = live now store other := by
  rw [liveEntry_eq]
  exact LiveMap.live_atKey_of_unchanged (f := fun found => (found, ())) rfl

theorem live_execute_of_fail {tokens : List String} (hparse : command.WellFormed tokens)
    (hfail : Reply.isError (execute env command db).2 = true) (key : String)
    : live env.now (execute env command db).1.store key = live env.now db.store key := by
  cases hread : command.mutates with
  | false => exact live_execute_of_read hread key
  | true =>
    cases hkey : command.keyOp env with
    | some keyOp =>
      rw [execute_eq_keyOp hkey] at hfail
      exact live_execute_of_unchanged hkey (Command.keyOp_fail hparse hkey hfail) key
    | none =>
      cases command
      all_goals simp only [Command.mutates, Command.isWrite, Bool.false_eq_true] at hread
      all_goals simp only [Command.keyOp, reduceCtorEq] at hkey
      case del => simp [execute, Database.run, Reply.number] at hfail
      case mSet => simp [execute] at hfail
      case flushAll => simp [execute] at hfail
      case rename source target =>
        have hlive := live_liveEntry env.now source db.store key
        simp only [execute, Database.run, Db.rename] at hfail ⊢
        generalize liveEntry env.now source db.store = evicted at hfail hlive ⊢
        rcases evicted with ⟨store, found⟩
        cases found with
        | none => exact hlive
        | some entry => simp [Reply.renamed] at hfail

theorem logEntry_of_fail {tokens : List String}
    (hfail : Reply.isError (execute env command db).2 = true)
    : logEntry env command tokens db = none := by
  cases command
  case sPop key =>
    simp only [execute, Database.run] at hfail
    simp only [logEntry]
    cases hpop : (Db.spop env key db.store).2 with
    | error error => rfl
    | ok popped => simp [hpop, Reply.reports_optional _] at hfail
  all_goals simp [logEntry, hfail]

/--
A request that is answered by an error keeps every live key with its value and deadline, and logs
nothing.
-/
theorem dispatch_error_unchanged (env : Env) (tokens : List String) (db : Database)
    (hfail : Reply.isError (dispatch env tokens db).2 = true)
    : (∀ key, live env.now (dispatch env tokens db).1.store key = live env.now db.store key)
        ∧
      (dispatch env tokens db).1.aof = db.aof := by
  rcases command_or_rejected tokens with ⟨command, hparse⟩ | ⟨-, hrejected⟩
  . rw [dispatch_of_parse_ok hparse] at hfail ⊢
    rw [logEntry_of_fail hfail]
    constructor
    . intro key
      exact live_execute_of_fail (Command.parse_wellFormed hparse) hfail key
    . exact execute_aof
  . rw [hrejected]
    exact ⟨fun _ => rfl, rfl⟩

/--
A `ZINCRBY` that would make the score NaN.
-/
theorem dispatch_error_unchanged_zincrby
    : let now := startOfClock
      let env := envAt now
      let db := (dispatch env ["ZADD", "z", "inf", "a"] (.withPersistence now none (some []))).1
      (∀ key, live now (dispatch env ["ZINCRBY", "z", "-inf", "a"] db).1.store key
          = live now db.store key)
        ∧ (dispatch env ["ZINCRBY", "z", "-inf", "a"] db).1.aof = db.aof := by
  intro now env db
  exact dispatch_error_unchanged env ["ZINCRBY", "z", "-inf", "a"] db (by decide +kernel)

end RedisClone
