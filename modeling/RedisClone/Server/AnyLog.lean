import RedisClone.Server.Recovery
import RedisClone.Server.Torn

/-!
This module contains the proof that replaying a file is safe whatever is in it: the loop stops, it has
dispatched what can be read, nothing is logged meanwhile, and everything is afterwards.
-/

namespace RedisClone

/--
Every successful write is appended to the file, and for `SPOP` the `SREM` of the member it removed.
-/
structure LogsWrites (db : Database) : Prop where
  writes : ∀ (env : Env) (tokens : List String) (command : Command) (file : List UInt8),
    Command.parse tokens = .ok command → command.isWrite = true
      → Reply.isError (dispatch env tokens db).2 = false → db.aof = some file
      → (dispatch env tokens db).1.aof = some (file ++ asBytes (Resp.array tokens))
  pops : ∀ (env : Env) (tokens : List String) (key member : String) (file : List UInt8),
    Command.parse tokens = .ok (.sPop key) → (Db.spop env key db.store).2 = .ok (some member)
      → db.aof = some file
      → (dispatch env tokens db).1.aof
        = some (file ++ asBytes (Resp.array ["SREM", key, member]))

/--
A replay that reads `requests` up to the end of the file, or up to an error.
-/
structure SafeReplay (envs : Nat → Env) (file : List UInt8) (db : Database)
    (requests : List (List String)) (outcome : Except ReadError Unit) : Prop where
  reads : ReadsAll file requests outcome
  only : ∀ requests' outcome', ReadsAll file requests' outcome'
    → requests' = requests ∧ outcome' = outcome
  bounded : requests.length ≤ file.length
  stops : ∀ rounds, file.length < rounds → replayLoop rounds envs file db.beginReplay 0
    = (applyAll envs requests db.beginReplay, requests.length)
  dispatches : replayAof envs file db
    = ((applyAll envs requests db.beginReplay).endReplay, requests.length)
  silent : ∀ n, (applyAll envs (requests.take n) db.beginReplay).aof = db.aof
  unchanged : (replayAof envs file db).1.aof = db.aof
  cleared : (replayAof envs file db).1.replaying = false
  logs : ∀ run, LogsWrites (dispatchRun run (replayAof envs file db).1)
    ∧ (dispatchRun run (replayAof envs file db).1).aof.isSome = db.aof.isSome

section

variable {env : Env} {tokens : List String} {db : Database}

/-
Reading a file to its end.
-/

theorem readsAll_requestsOf (input : List UInt8)
    : (∃ outcome, ReadsAll input (requestsOf input) outcome)
        ∧ (requestsOf input).length ≤ input.length := by
  -- every request takes at least one byte
  induction hlength : input.length using Nat.strongRecOn generalizing input with
  | ind length ih =>
    rcases hread : readRequest input with error | _ | ⟨tokens, rest⟩
    . rw [requestsOf_of_error hread]
      exact ⟨⟨_, .failed hread⟩, Nat.zero_le _⟩
    . rw [requestsOf_of_end hread]
      exact ⟨⟨_, .done hread⟩, Nat.zero_le _⟩
    . have hrest := length_readRequest hread
      rcases ih rest.length (by omega) rest rfl with ⟨⟨outcome, hreads⟩, hbound⟩
      rw [requestsOf_of_read hread]
      refine ⟨⟨outcome, .request hread hreads⟩, ?_⟩
      rw [List.length_cons]
      omega

/-
Logging after the replay.
-/

theorem logsWrites_of_not_replaying (h : db.replaying = false) : LogsWrites db where
  writes := by
    intro env tokens command file hparse hwrite hok haof
    have hpops : ∀ key, command ≠ .sPop key := by
      rintro key rfl
      cases hwrite
    rw [dispatch_of_parse_ok hparse] at hok ⊢
    dsimp only at hok
    rw [logEntry_of_not_spop hpops, hwrite, hok,
      logOptional_aof (execute_replaying.trans h) (execute_aof.trans haof)]
    rfl
  pops := by
    intro env tokens key member file hparse hpopped haof
    rw [dispatch_of_parse_ok hparse,
      logOptional_aof (execute_replaying.trans h) (execute_aof.trans haof)]
    simp only [logEntry, hpopped]
    rfl

theorem dispatch_isSome_aof : (dispatch env tokens db).1.aof.isSome = db.aof.isSome := by
  rcases command_or_rejected tokens with ⟨command, hparse⟩ | ⟨-, hrejected⟩
  . rw [dispatch_of_parse_ok hparse]
    cases logEntry env command tokens db with
    | none => exact congrArg _ execute_aof
    | some entry =>
      simp only [Database.logOptional, Database.logWrite]
      split
      . rw [execute_aof]
      . rw [execute_aof, Option.isSome_map]
  . rw [hrejected]

theorem dispatchRun_isSome_aof (run : List (Env × List String))
    : (dispatchRun run db).aof.isSome = db.aof.isSome := by
  induction run generalizing db with
  | nil => rfl
  | cons step run ih => exact ih.trans dispatch_isSome_aof

end

/--
Replaying a file is safe whatever is in it.
-/
theorem replay_safe (envs : Nat → Env) (file : List UInt8) (db : Database)
    : ∃ requests outcome, SafeReplay envs file db requests outcome := by
  rcases readsAll_requestsOf file with ⟨⟨outcome, hreads⟩, hbound⟩
  refine ⟨requestsOf file, outcome, ?_⟩
  have hreplaying : db.beginReplay.replaying = true := by
    rfl
  have hunchanged : (replayAof envs file db).1.aof = db.aof := by
    rw [replayAof_eq]
    exact applyAll_aof_of_replaying hreplaying envs (requestsOf file)
  have hcleared : (replayAof envs file db).1.replaying = false := by
    rw [replayAof_eq]
    rfl
  exact {
    reads := hreads
    only := fun requests' outcome' h => readsAll_unique h hreads
    bounded := hbound
    stops := by
      intro rounds hrounds
      have hrequests : requests rounds file = requestsOf file := by
        exact requests_rounds hrounds (Nat.lt_succ_self _)
      rw [replayLoop_eq, hrequests, Nat.zero_add]
    dispatches := replayAof_eq envs file db
    silent := fun n => applyAll_aof_of_replaying hreplaying envs ((requestsOf file).take n)
    unchanged := hunchanged
    cleared := hcleared
    logs := by
      intro run
      rw [dispatchRun_isSome_aof, hunchanged]
      exact ⟨logsWrites_of_not_replaying (dispatchRun_replaying.trans hcleared), rfl⟩
  }

end RedisClone
