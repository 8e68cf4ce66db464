import RedisClone.Keyspace.Logged

/-!
This module contains the proof that replaying the append-only file rebuilds the keyspace a run of
requests has led to, as long as the clock stands still.
-/

namespace RedisClone

variable {env : Env} {tokens : List String} {db db' : Database} {now : Instant}

theorem applyAll_append (envs : Nat → Env) (entries entries' : List (List String))
    (db : Database)
    : applyAll envs (entries ++ entries') db
        =
      applyAll (fun i => envs (entries.length + i)) entries' (applyAll envs entries db) := by
  induction entries generalizing envs db with
  | nil => simp [applyAll]
  | cons entry entries ih =>
    rw [List.cons_append, applyAll, applyAll, ih]
    simp only [List.length_cons, Nat.add_right_comm]

/--
A run of requests, each in its own surroundings.
-/
def dispatchRun (run : List (Env × List String)) (db : Database) : Database :=
  run.foldl (fun db step => (dispatch step.1 step.2 db).1) db

theorem dispatch_replaying : (dispatch env tokens db).1.replaying = db.replaying := by
  rcases command_or_rejected tokens with ⟨command, hparse⟩ | ⟨-, hrejected⟩
  . rw [dispatch_of_parse_ok hparse]
    simp only [Database.logOptional, Database.logWrite]
    split
    . split
      . exact execute_replaying
      . exact execute_replaying
    . exact execute_replaying
  . rw [hrejected]

theorem dispatchRun_replaying {run : List (Env × List String)}
    : (dispatchRun run db).replaying = db.replaying := by
  induction run generalizing db with
  | nil => rfl
  | cons step run ih => exact ih.trans dispatch_replaying

/-
During a replay nothing is logged.
-/

theorem logOptional_of_replaying (h : db.replaying = true) (entry : Option (List String))
    : db.logOptional entry = db := by
  cases entry with
  | none => rfl
  | some tokens =>
    unfold Database.logOptional Database.logWrite
    split <;> simp_all

theorem dispatch_of_replaying {command : Command} (hparse : Command.parse tokens = .ok command)
    (h : db.replaying = true) (env : Env)
    : (dispatch env tokens db).1 = (execute env command db).1 := by
  rw [dispatch_of_parse_ok hparse]
  exact logOptional_of_replaying (execute_replaying.trans h) _

theorem dispatch_aof_of_replaying (h : db.replaying = true)
    : (dispatch env tokens db).1.aof = db.aof := by
  rcases command_or_rejected tokens with ⟨command, hparse⟩ | ⟨-, hrejected⟩
  . rw [dispatch_of_replaying hparse h]
    exact execute_aof
  . rw [hrejected]

theorem applyAll_replaying (h : db.replaying = true) (envs : Nat → Env)
    (entries : List (List String))
    : (applyAll envs entries db).replaying = true := by
  induction entries generalizing envs db with
  | nil => exact h
  | cons entry entries ih => exact ih (dispatch_replaying.trans h) _

theorem applyAll_aof_of_replaying (h : db.replaying = true) (envs : Nat → Env)
    (entries : List (List String))
    : (applyAll envs entries db).aof = db.aof := by
  induction entries generalizing envs db with
  | nil => rfl
  | cons entry entries ih =>
    rw [applyAll, ih (dispatch_replaying.trans h)]
    exact dispatch_aof_of_replaying h

/-
What requests append to the log.
-/

def loggedBy (env : Env) (tokens : List String) (db : Database) : List (List String) :=
  match Command.parse tokens with
  | .ok command => (logEntry env command tokens db).toList
  | .error _ => []

def loggedByRun : List (Env × List String) → Database → List (List String)
  | [], _ => []
  | (env, tokens) :: run, db =>
    loggedBy env tokens db ++ loggedByRun run (dispatch env tokens db).1

variable {command : Command} {file : List UInt8} {entry : List String}
  {run : List (Env × List String)}

theorem loggedBy_of_parse_ok (h : Command.parse tokens = .ok command)
    : loggedBy env tokens db = (logEntry env command tokens db).toList := by
  unfold loggedBy
  rw [h]

theorem mem_loggedBy
    : entry ∈ loggedBy env tokens db
        ↔
      ∃ command, Command.parse tokens = .ok command
        ∧ logEntry env command tokens db = some entry := by
  unfold loggedBy
  cases hparse : Command.parse tokens with
  | ok command => simp
  | error error => simp

theorem loggedBy_of_rejected (h : ∀ command, Command.parse tokens ≠ .ok command)
    : loggedBy env tokens db = [] := by
  rw [List.eq_nil_iff_forall_not_mem]
  intro entry hmem
  rcases mem_loggedBy.mp hmem with ⟨command, hparse, -⟩
  exact h command hparse

theorem length_loggedBy : (loggedBy env tokens db).length ≤ 1 := by
  unfold loggedBy
  split
  . exact Option.length_toList_le
  . exact Nat.zero_le 1

theorem loggedByRun_append (run more : List (Env × List String)) (db : Database)
    : loggedByRun (run ++ more) db = loggedByRun run db ++ loggedByRun more (dispatchRun run db) := by
  induction run generalizing db with
  | nil => rfl
  | cons step run ih =>
    rw [List.cons_append, loggedByRun, loggedByRun, ih, List.append_assoc]
    rfl

theorem loggedFor_of_mem_loggedByRun (h : entry ∈ loggedByRun run db)
    : ∃ step ∈ run, LoggedFor step.2 entry := by
  induction run generalizing db with
  | nil => cases h
  | cons step run ih =>
    rw [loggedByRun, List.mem_append] at h
    rcases h with h | h
    . rcases mem_loggedBy.mp h with ⟨command, hparse, hentry⟩
      exact ⟨step, List.mem_cons_self, loggedFor_of_logEntry hparse hentry⟩
    . rcases ih h with ⟨other, hmem, hother⟩
      exact ⟨other, List.mem_cons_of_mem _ hmem, hother⟩

theorem dispatch_appends (haof : db.aof = some file) (hreplaying : db.replaying = false)
    : (dispatch env tokens db).1.aof = some (file ++ logBytes (loggedBy env tokens db)) := by
  rcases command_or_rejected tokens with ⟨command, hparse⟩ | ⟨hrejected, hunchanged⟩
  . rw [dispatch_of_parse_ok hparse, loggedBy_of_parse_ok hparse,
      logOptional_aof (execute_replaying.trans hreplaying) (execute_aof.trans haof)]
    cases logEntry env command tokens db <;> simp [Aof.append, logBytes]
  . rw [hunchanged, loggedBy_of_rejected hrejected, haof]
    simp [logBytes]

/--
A run appends its log to the file.
-/
theorem dispatchRun_appends (haof : db.aof = some file) (hreplaying : db.replaying = false)
    : (dispatchRun run db).aof = some (file ++ logBytes (loggedByRun run db)) := by
  induction run generalizing db file with
  | nil => simp [dispatchRun, haof, loggedByRun, logBytes]
  | cons step run ih =>
    rw [loggedByRun, logBytes_append, ← List.append_assoc]
    exact ih (dispatch_appends haof hreplaying) (dispatch_replaying.trans hreplaying)

/--
The reader accepts the log of requests that it accepts.
-/
theorem readable_loggedByRun (hrun : ∀ step ∈ run, Readable step.2)
    (hsound : LiveMap.All (Entry.Sound Fits) db.store)
    : ∀ entry ∈ loggedByRun run db, Readable entry := by
  induction run generalizing db with
  | nil => simp [loggedByRun]
  | cons step run ih =>
    rw [List.forall_mem_cons] at hrun
    rw [loggedByRun, List.forall_mem_append]
    constructor
    . intro entry hmem
      rcases mem_loggedBy.mp hmem with ⟨command, hparse, hentry⟩
      exact readable_of_logEntry hparse hrun.1 hsound hentry
    . exact ih hrun.2 (dispatch_sound hsound hrun.1.bytes)

theorem readable_loggedByRun_of_not_spop
    (hrun : ∀ step ∈ run, Readable step.2 ∧ ∀ key, Command.parse step.2 ≠ .ok (.sPop key))
    : ∀ entry ∈ loggedByRun run db, Readable entry := by
  intro entry hmem
  rcases loggedFor_of_mem_loggedByRun hmem with ⟨step, hstep, rfl | ⟨key, member, hparse, -⟩⟩
  . exact (hrun step hstep).1
  . exact absurd hparse ((hrun step hstep).2 key)

/--
Applying what a request logs changes the live entries as the request did.
-/
theorem loggedBy_simulation {member : String → Prop} {envs : Nat → Env} (hnow : env.now = now)
    (henvs : ∀ i, (envs i).now = now) (hsound : LiveMap.All (Entry.Sound member) db.store)
    (h : Store.Alike now db.store db'.store)
    : Store.Alike now (dispatch env tokens db).1.store
        (applyAll envs (loggedBy env tokens db) db').store := by
  rcases command_or_rejected tokens with ⟨command, hparse⟩ | ⟨hrejected, hunchanged⟩
  . have hsimulation := logEntry_simulation hparse hnow (henvs 0) hsound h
    rw [dispatch_of_parse_ok hparse, logOptional_store, loggedBy_of_parse_ok hparse]
    cases hentry : logEntry env command tokens db with
    | none =>
      rw [hentry] at hsimulation
      exact hsimulation
    | some entry =>
      rw [hentry] at hsimulation
      exact hsimulation
  . rw [hunchanged, loggedBy_of_rejected hrejected]
    exact h

theorem loggedByRun_simulation {member : String → Prop} {envs : Nat → Env}
    (hnow : ∀ step ∈ run, step.1.now = now) (henvs : ∀ i, (envs i).now = now)
    (hmember : ∀ step ∈ run, ∀ token ∈ step.2, member token)
    (hsound : LiveMap.All (Entry.Sound member) db.store) (h : Store.Alike now db.store db'.store)
    : Store.Alike now (dispatchRun run db).store (applyAll envs (loggedByRun run db) db').store := by
  induction run generalizing envs db db' with
  | nil => exact h
  | cons step run ih =>
    rw [List.forall_mem_cons] at hnow hmember
    rw [loggedByRun, applyAll_append]
    apply ih hnow.2 (fun i => henvs _) hmember.2 (dispatch_sound hsound hmember.1)
    exact loggedBy_simulation hnow.1 henvs hsound h

theorem initAppendOnly_store (envs : Nat → Env) (path : Option String)
    {entries : List (List String)} (h : ∀ entry ∈ entries, Readable entry)
    : (initAppendOnly now envs path (logBytes entries)).store
        =
      (applyAll envs entries
        (Database.withPersistence now path (some (logBytes entries))).beginReplay).store := by
  unfold initAppendOnly
  rw [replayAof_eq, requestsOf_logBytes h]
  rfl

/--
Replaying the file that a run has written, under the clock of the run, rebuilds its live keys with
their values and deadlines.
-/
theorem replay_rebuilds (now : Instant) (path : Option String) (run : List (Env × List String))
    (hnow : ∀ step ∈ run, step.1.now = now) (hrun : ∀ step ∈ run, Readable step.2)
    (envs : Nat → Env) (henvs : ∀ i, (envs i).now = now)
    : let db := dispatchRun run (.withPersistence now path (some []))
      ∃ file, db.aof = some file
        ∧ ∀ key, Store.live now (initAppendOnly now envs path file).store key
          = Store.live now db.store key := by
  intro db
  let fresh := Database.withPersistence now path (some [])
  let entries := loggedByRun run fresh
  have hsound : LiveMap.All (Entry.Sound Fits) fresh.store := LiveMap.all_empty
  have haof : db.aof = some ([] ++ logBytes entries) := dispatchRun_appends rfl rfl
  refine ⟨_, haof, ?_⟩
  intro key
  let empty := (Database.withPersistence now path (some (logBytes entries))).beginReplay
  have halike : Store.Alike now fresh.store empty.store := fun _ => rfl
  rw [List.nil_append, initAppendOnly_store envs path (readable_loggedByRun hrun hsound)]
  exact (loggedByRun_simulation hnow henvs (fun step hmem => (hrun step hmem).bytes) hsound halike
    key).symm

/--
A run in which `SPOP` chooses the last member of a set, and a request is malformed.
-/
theorem replay_rebuilds_spop
    : let now := startOfClock
      let env : Env := ⟨now, fun _ keys => keys.reverse, fun _ keys => keys.reverse_perm, .ok ()⟩
      let run := [["SADD", "s", "a", "b"], ["SPOP", "s"], ["SET", "k"]].map fun tokens =>
        (env, tokens)
      let db := dispatchRun run (.withPersistence now none (some []))
      ∃ file, db.aof = some file
        ∧ ∀ key, Store.live now (initAppendOnly now (fun _ => env) none file).store key
          = Store.live now db.store key := by
  intro now env run
  refine replay_rebuilds now none run ?_ ?_ (fun _ => env) (fun _ => rfl)
  . simp [run, env]
  . simp only [run, List.map_cons, List.map_nil, List.mem_cons, List.not_mem_nil, or_false]
    rintro step (rfl | rfl | rfl)
    all_goals
      constructor
      . decide
      . unfold maxBulkBytes
        decide

end RedisClone
