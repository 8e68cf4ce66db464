import RedisClone.Command.Execute

/-!
This module contains the anatomy of `dispatch`: a command is executed under the lock of the store,
and what it has to log is appended afterwards under the lock of the file.
-/

namespace RedisClone

/--
What a command appends to the log: its own tokens if it is a successful write, and for `SPOP` the
`SREM` of the member it removed.
-/
def logEntry (env : Env) (command : Command) (tokens : List String) (db : Database)
    : Option (List String) :=
  match command with
  | .sPop key =>
    match (Db.spop env key db.store).2 with
    | .ok (some member) => some ["SREM", key, member]
    | _ => none
  | _ =>
    if command.isWrite && !Reply.isError (execute env command db).2 then some tokens else none

theorem logEntry_of_not_spop {command : Command} (h : ∀ key, command ≠ .sPop key) (env : Env)
    (tokens : List String) (db : Database)
    : logEntry env command tokens db
        =
      if command.isWrite && !Reply.isError (execute env command db).2 then some tokens else none := by
  cases command
  case sPop key => exact absurd rfl (h key)
  all_goals rfl

/--
What may be logged for a request: the request itself, or for `SPOP` the `SREM` of a member.
-/
def LoggedFor (tokens entry : List String) : Prop :=
  entry = tokens
    ∨ ∃ key member, Command.parse tokens = .ok (.sPop key) ∧ entry = ["SREM", key, member]

/--
The second step of `dispatch`.
-/
def Database.logOptional (entry : Option (List String)) (db : Database) : Database :=
  match entry with
  | some tokens => db.logWrite tokens
  | none => db

variable {env : Env} {tokens : List String} {command : Command} {db : Database}

theorem dispatch_nil : dispatch env [] db = (db, "") := by
  rfl

theorem dispatch_of_parse_error {error : CommandError} (hne : tokens ≠ [])
    (h : Command.parse tokens = .error error)
    : dispatch env tokens db = (db, Resp.error error.toString) := by
  unfold dispatch
  rw [if_neg (by simpa using hne), h]

theorem dispatch_of_parse_ok (h : Command.parse tokens = .ok command)
    : dispatch env tokens db
        =
      ((execute env command db).1.logOptional (logEntry env command tokens db),
        (execute env command db).2) := by
  have hne : tokens ≠ [] := by
    rintro rfl
    cases h
  unfold dispatch
  rw [if_neg (by simpa using hne), h]
  cases command
  case sPop key =>
    simp only [logEntry, execute, Database.run]
    rcases (Db.spop env key db.store).2 with _ | _ | _ <;> rfl
  all_goals
    simp only [logEntry]
    split <;> rfl

theorem loggedFor_of_logEntry (hparse : Command.parse tokens = .ok command) {entry : List String}
    (h : logEntry env command tokens db = some entry)
    : LoggedFor tokens entry := by
  by_cases hpops : ∀ key, command ≠ .sPop key
  . rw [logEntry_of_not_spop hpops] at h
    split at h
    . left
      exact (Option.some.inj h).symm
    . cases h
  . push Not at hpops
    rcases hpops with ⟨key, rfl⟩
    simp only [logEntry] at h
    rcases hpopped : (Db.spop env key db.store).2 with error | _ | member
    all_goals simp only [hpopped] at h
    . cases h
    . cases h
    . right
      exact ⟨key, member, hparse, (Option.some.inj h).symm⟩

theorem command_or_rejected (tokens : List String)
    : (∃ command, Command.parse tokens = .ok command)
        ∨ (∀ command, Command.parse tokens ≠ .ok command)
          ∧ ∀ env db, (dispatch env tokens db).1 = db := by
  cases hparse : Command.parse tokens with
  | ok command =>
    left
    exact ⟨command, rfl⟩
  | error error =>
    right
    constructor
    . intro command h
      cases h
    . intro env db
      cases tokens with
      | nil => rw [dispatch_nil]
      | cons name args => rw [dispatch_of_parse_error (List.cons_ne_nil name args) hparse]

/--
Executing a command changes nothing of the database but the keyspace and the pub/sub registry.
-/
theorem execute_frame (env : Env) (command : Command) (db : Database)
    : (execute env command db).1
        =
      { db with
          store := (execute env command db).1.store
          pubsub := (execute env command db).1.pubsub } := by
  cases command
  case zRange key start stop withScores => cases withScores <;> rfl
  case ping message => cases message <;> rfl
  case save =>
    simp only [execute]
    split <;> rfl
  all_goals rfl

@[simp]
theorem execute_aof : (execute env command db).1.aof = db.aof := by
  rw [execute_frame]

@[simp]
theorem execute_replaying : (execute env command db).1.replaying = db.replaying := by
  rw [execute_frame]

@[simp]
theorem logWrite_store : (db.logWrite tokens).store = db.store := by
  unfold Database.logWrite
  split <;> rfl

@[simp]
theorem logOptional_store (entry : Option (List String))
    : (db.logOptional entry).store = db.store := by
  cases entry with
  | none => rfl
  | some tokens => exact logWrite_store

theorem logOptional_aof {file : List UInt8} (hreplaying : db.replaying = false)
    (haof : db.aof = some file) (entry : Option (List String))
    : (db.logOptional entry).aof
        =
      match entry with
      | some tokens => some (Aof.append tokens file)
      | none => some file := by
  cases entry with
  | none => exact haof
  | some tokens =>
    simp only [Database.logOptional, Database.logWrite, hreplaying, haof]
    rfl

theorem execute_pubsub
    : (execute env command db).1.pubsub
        =
      match command with
      | .publish channel message => (db.pubsub.publish channel message).1
      | _ => db.pubsub := by
  cases command
  case zRange key start stop withScores => cases withScores <;> rfl
  case ping message => cases message <;> rfl
  case save =>
    simp only [execute]
    split <;> rfl
  all_goals rfl

@[simp]
theorem logOptional_pubsub (entry : Option (List String))
    : (db.logOptional entry).pubsub = db.pubsub := by
  cases entry with
  | none => rfl
  | some tokens =>
    simp only [Database.logOptional, Database.logWrite]
    split <;> rfl

end RedisClone
