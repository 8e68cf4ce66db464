import RedisClone.Keyspace.Deadline
import RedisClone.Keyspace.Permanent
import RedisClone.Server.TornTail

/-!
This module contains what becomes of a crash in the middle of an append two restarts later. The server
appends behind whatever the crash has left, so what it logs after the first restart is read back at the
second one only if the crash has left no torn entry, and no entry that the reader refuses.
-/

namespace RedisClone

open Store

def SetsNoDeadline (tokens : List String) : Prop :=
  ∀ command, Command.parse tokens = .ok command → command.setsDeadline = false

/--
A restart from the log of a database dispatches nothing but what was `sent`, and gives the live keys of
the database with their values.
-/
def Recovers (sent : List String → Prop) (later : Instant) (path : Option String) (envs : Nat → Env)
    (db : Database) : Prop :=
  ∃ file, db.aof = some file
    ∧ (∀ tokens ∈ requestsOf file, sent tokens)
    ∧ ∀ key, (live later (initAppendOnly later envs path file).store key).map Entry.value
        = (live later db.store key).map Entry.value

/--
The run of a server that has restarted from a cut of the log of `entries` is durable: at every point of
it, and after any more requests that set no deadline and log what the reader accepts (or none), another
restart recovers. `clock` holds of the readings that the clock may give.
-/
def Durable (clock : Instant → Prop) (entries : List (List String)) (db : Database)
    (run : List (Env × List String)) : Prop :=
  ∀ (before more : List (Env × List String)) (later : Instant) (path : Option String)
    (envs : Nat → Env),
    before <+: run
      → (∀ step ∈ more, SetsNoDeadline step.2 ∧ clock step.1.now)
      → (∀ entry ∈ loggedByRun more (dispatchRun before db), Readable entry)
      → clock later → (∀ i, clock (envs i).now)
      → Recovers (fun tokens => tokens ∈ entries ∨ ∃ step ∈ before ++ more, LoggedFor step.2 tokens)
          later path envs (dispatchRun (before ++ more) db)

section

variable {env env' : Env} {tokens : List String} {db db' : Database} {now : Instant}
  {entries : List (List String)}

/-
What replay leaves alone, and what it looks at.
-/

theorem dispatch_store_congr (env : Env) (tokens : List String) (h : db.store = db'.store)
    : (dispatch env tokens db).1.store = (dispatch env tokens db').1.store := by
  rcases command_or_rejected tokens with ⟨command, hparse⟩ | ⟨-, hrejected⟩
  . rw [dispatch_of_parse_ok hparse, dispatch_of_parse_ok hparse, logOptional_store,
      logOptional_store]
    exact execute_store_congr h
  . rw [hrejected, hrejected]
    exact h

theorem applyAll_store_congr (envs : Nat → Env) (entries : List (List String))
    (h : db.store = db'.store)
    : (applyAll envs entries db).store = (applyAll envs entries db').store := by
  induction entries generalizing envs db db' with
  | nil => exact h
  | cons entry entries ih =>
    apply ih
    exact dispatch_store_congr (envs 0) entry h

theorem applyAll_sound {member : String → Prop} (envs : Nat → Env)
    (hentries : ∀ entry ∈ entries, ∀ token ∈ entry, member token)
    (h : LiveMap.All (Entry.Sound member) db.store)
    : LiveMap.All (Entry.Sound member) (applyAll envs entries db).store := by
  induction entries generalizing envs db with
  | nil => exact h
  | cons entry entries ih =>
    rw [List.forall_mem_cons] at hentries
    exact ih _ hentries.2 (dispatch_sound h hentries.1)

theorem initAppendOnly_sound (now : Instant) (envs : Nat → Env) (path : Option String)
    (file : List UInt8)
    : LiveMap.All (Entry.Sound fun _ => True) (initAppendOnly now envs path file).store := by
  unfold initAppendOnly
  rw [replayAof_eq]
  exact applyAll_sound _ (fun _ _ _ _ => trivial) LiveMap.all_empty

theorem initAppendOnly_aof (now : Instant) (envs : Nat → Env) (path : Option String)
    (file : List UInt8)
    : (initAppendOnly now envs path file).aof = some file
        ∧ (initAppendOnly now envs path file).replaying = false := by
  unfold initAppendOnly
  rw [replayAof_eq]
  refine ⟨?_, rfl⟩
  have hreplaying : (Database.withPersistence now path (some file)).beginReplay.replaying = true :=
    rfl
  exact applyAll_aof_of_replaying hreplaying envs (requestsOf file)

/--
Restarting from the entries of a log and some more requests.
-/
theorem initAppendOnly_store_append (envs : Nat → Env) (path : Option String)
    (h : ∀ entry ∈ entries, Readable entry) (input rest : List UInt8)
    : (initAppendOnly now envs path (logBytes entries ++ rest)).store
        =
      (applyAll (fun i => envs (entries.length + i)) (requestsOf rest)
        (applyAll envs entries
          (Database.withPersistence now path (some input)).beginReplay)).store := by
  unfold initAppendOnly
  rw [replayAof_eq, requestsOf_logBytes_append h, ← applyAll_append]
  exact applyAll_store_congr envs (entries ++ requestsOf rest) rfl

/-
The clock stands still.
-/

theorem dispatch_alike_of_not_spop (hnow : env.now = now) (hnow' : env'.now = now)
    (hpops : ∀ key, Command.parse tokens ≠ .ok (.sPop key)) (h : Alike now db.store db'.store)
    : Alike now (dispatch env tokens db).1.store (dispatch env' tokens db').1.store := by
  rcases command_or_rejected tokens with ⟨command, hparse⟩ | ⟨-, hrejected⟩
  . rw [dispatch_of_parse_ok hparse, dispatch_of_parse_ok hparse, logOptional_store,
      logOptional_store]
    cases hmutates : command.mutates with
    | false =>
      intro key
      rw [← hnow, live_execute_of_read hmutates, hnow, h key, ← hnow',
        live_execute_of_read hmutates]
    | true =>
      have hwrite : command.isWrite = true := by
        cases command
        case sPop key => exact absurd hparse (hpops key)
        all_goals exact hmutates
      exact execute_alike_of_isWrite hwrite hnow hnow' h
  . rw [hrejected, hrejected]
    exact h

theorem applyAll_alike {envs envs' : Nat → Env} (hnow : ∀ i, (envs i).now = now)
    (hnow' : ∀ i, (envs' i).now = now)
    (hpops : ∀ entry ∈ entries, ∀ key, Command.parse entry ≠ .ok (.sPop key))
    (h : Alike now db.store db'.store)
    : Alike now (applyAll envs entries db).store (applyAll envs' entries db').store := by
  induction entries generalizing envs envs' db db' with
  | nil => exact h
  | cons entry entries ih =>
    rw [List.forall_mem_cons] at hpops
    apply ih (fun i => hnow (i + 1)) (fun i => hnow' (i + 1)) hpops.2
    exact dispatch_alike_of_not_spop (hnow 0) (hnow' 0) hpops.1 h

/-
Nothing has a deadline.
-/

theorem loggedBy_replays {member : String → Prop} (env env' : Env)
    (hdeadline : SetsNoDeadline tokens) (hsound : LiveMap.All (Entry.Sound member) db.store)
    (hpermanent : Permanent db.store)
    : Permanent (dispatch env tokens db).1.store
        ∧ (∀ entry ∈ loggedBy env tokens db, Timeless entry)
        ∧ (dispatch env tokens db).1.store
          = (loggedBy env tokens db).foldl (effect env') db.store := by
  rcases command_or_rejected tokens with ⟨command, hparse⟩ | ⟨hrejected, hunchanged⟩
  . have hreplays := logEntry_replays env hparse (hdeadline command hparse) hsound hpermanent
    rw [dispatch_of_parse_ok hparse, logOptional_store, loggedBy_of_parse_ok hparse]
    refine ⟨execute_permanent (hdeadline command hparse) hpermanent, ?_⟩
    cases hentry : logEntry env command tokens db with
    | none =>
      simp only [hentry] at hreplays
      exact ⟨by simp, hreplays⟩
    | some entry =>
      simp only [hentry] at hreplays
      rcases hreplays with ⟨htimeless, heffect⟩
      refine ⟨by simpa using htimeless, ?_⟩
      exact (heffect env' { Database.new env'.now with store := db.store } rfl).symm
  . rw [hunchanged, loggedBy_of_rejected hrejected]
    exact ⟨hpermanent, by simp, rfl⟩

theorem loggedByRun_replays {run : List (Env × List String)} (env' : Env)
    (hrun : ∀ step ∈ run, SetsNoDeadline step.2)
    (hsound : LiveMap.All (Entry.Sound fun _ => True) db.store) (hpermanent : Permanent db.store)
    : (∀ entry ∈ loggedByRun run db, Timeless entry)
        ∧ (dispatchRun run db).store = (loggedByRun run db).foldl (effect env') db.store := by
  induction run generalizing db with
  | nil => exact ⟨by simp [loggedByRun], rfl⟩
  | cons step run ih =>
    rw [List.forall_mem_cons] at hrun
    rcases loggedBy_replays step.1 env' hrun.1 hsound hpermanent
      with ⟨hpermanent', htimeless, hstore⟩
    rcases ih hrun.2 (dispatch_sound hsound fun _ _ => trivial) hpermanent'
      with ⟨htimeless', hstore'⟩
    rw [loggedByRun, List.foldl_append, ← hstore]
    exact ⟨List.forall_mem_append.mpr ⟨htimeless, htimeless'⟩, hstore'⟩

end

/-
A crash that has left whole entries only.
-/

section

variable {now later : Instant} {path path' : Option String} {envs envs' : Nat → Env}
  {run : List (Env × List String)} {kept : List (List String)}

theorem foldl_effect_permanent {store : Store} (env : Env) (htimeless : ∀ entry ∈ kept, Timeless entry)
    (h : Permanent store)
    : Permanent (kept.foldl (effect env) store) := by
  induction kept generalizing store with
  | nil => exact h
  | cons entry kept ih =>
    apply ih fun other hmem => htimeless other (List.mem_cons_of_mem _ hmem)
    exact (htimeless entry List.mem_cons_self).effect_permanent h

theorem initAppendOnly_store_of_timeless (now : Instant) (envs : Nat → Env) (path : Option String)
    (env : Env) (hkept : ∀ entry ∈ kept, Readable entry) (htimeless : ∀ entry ∈ kept, Timeless entry)
    : (initAppendOnly now envs path (logBytes kept)).store = kept.foldl (effect env) ∅ := by
  let empty := (Database.withPersistence now path (some (logBytes kept))).beginReplay
  have hempty : Permanent empty.store := LiveMap.all_empty
  rw [initAppendOnly_store envs path hkept]
  exact applyAll_eq_foldl htimeless hempty env envs

/--
Without deadlines a restart gives the keyspace back at any time.
-/
theorem restart_of_permanent (hkept : ∀ entry ∈ kept, Readable entry)
    (htimeless : ∀ entry ∈ kept, Timeless entry) (hrun : ∀ step ∈ run, SetsNoDeadline step.2)
    (hlogged : ∀ entry ∈ loggedByRun run (initAppendOnly now envs path (logBytes kept)),
      Readable entry)
    : let db := initAppendOnly now envs path (logBytes kept)
      (initAppendOnly later envs' path' (logBytes (kept ++ loggedByRun run db))).store
        = (dispatchRun run db).store := by
  intro db
  -- any surroundings will do to say what the entries do
  let env := envs 0
  have hstore : db.store = kept.foldl (effect env) ∅ :=
    initAppendOnly_store_of_timeless now envs path env hkept htimeless
  have hpermanent : Permanent db.store := by
    rw [hstore]
    exact foldl_effect_permanent env htimeless LiveMap.all_empty
  have hsound := initAppendOnly_sound now envs path (logBytes kept)
  rcases loggedByRun_replays env hrun hsound hpermanent with ⟨htimeless', hreplays⟩
  rw [hreplays, hstore, ← List.foldl_append]
  apply initAppendOnly_store_of_timeless
  . exact List.forall_mem_append.mpr ⟨hkept, hlogged⟩
  . exact List.forall_mem_append.mpr ⟨htimeless, htimeless'⟩

/--
With deadlines it does as long as the clock stands still.
-/
theorem restart_of_frozen (hkept : ∀ entry ∈ kept, Readable entry)
    (hpops : ∀ entry ∈ kept, ∀ key, Command.parse entry ≠ .ok (.sPop key))
    (henvs : ∀ i, (envs i).now = now) (hnow : ∀ step ∈ run, step.1.now = now)
    (henvs' : ∀ i, (envs' i).now = now)
    (hlogged : ∀ entry ∈ loggedByRun run (initAppendOnly now envs path (logBytes kept)),
      Readable entry)
    : let db := initAppendOnly now envs path (logBytes kept)
      Alike now (dispatchRun run db).store
        (initAppendOnly now envs' path' (logBytes (kept ++ loggedByRun run db))).store := by
  intro db
  have hsound := initAppendOnly_sound now envs path (logBytes kept)
  rw [initAppendOnly_store envs' path' (List.forall_mem_append.mpr ⟨hkept, hlogged⟩),
    applyAll_append]
  apply loggedByRun_simulation hnow (fun i => henvs' _) (fun _ _ _ _ => trivial) hsound
  rw [initAppendOnly_store envs path hkept]
  apply applyAll_alike henvs henvs' hpops
  exact fun _ => rfl

theorem timeless_of_not_spop {entry : List String} (hdeadline : SetsNoDeadline entry)
    (hpops : ∀ key, Command.parse entry ≠ .ok (.sPop key))
    : Timeless entry := by
  intro command hparse
  refine ⟨hdeadline command hparse, ?_⟩
  rintro key rfl
  exact hpops key hparse

theorem recovers_of_whole_entries {entries : List (List String)} (hwhole : kept <+: entries)
    (hkept : ∀ entry ∈ kept, Readable entry)
    (hpops : ∀ entry ∈ entries, ∀ key, Command.parse entry ≠ .ok (.sPop key))
    (hrun : ∀ step ∈ run, SetsNoDeadline step.2)
    (hlogged : ∀ entry ∈ loggedByRun run (initAppendOnly now envs path (logBytes kept)),
      Readable entry)
    (hclock : (∀ entry ∈ entries, SetsNoDeadline entry)
      ∨ (∀ i, (envs i).now = now) ∧ (∀ step ∈ run, step.1.now = now) ∧ later = now
        ∧ ∀ i, (envs' i).now = now)
    : Recovers (fun tokens => tokens ∈ entries ∨ ∃ step ∈ run, LoggedFor step.2 tokens) later path'
        envs' (dispatchRun run (initAppendOnly now envs path (logBytes kept))) := by
  let db := initAppendOnly now envs path (logBytes kept)
  rcases initAppendOnly_aof now envs path (logBytes kept) with ⟨haof, hreplaying⟩
  have haof' : (dispatchRun run db).aof = some (logBytes (kept ++ loggedByRun run db)) := by
    rw [logBytes_append]
    exact dispatchRun_appends haof hreplaying
  have hpops : ∀ entry ∈ kept, ∀ key, Command.parse entry ≠ .ok (.sPop key) :=
    fun entry hmem => hpops entry (hwhole.mem hmem)
  refine ⟨_, haof', ?_, ?_⟩
  . intro tokens hmem
    rw [requestsOf_logBytes (List.forall_mem_append.mpr ⟨hkept, hlogged⟩), List.mem_append] at hmem
    rcases hmem with hmem | hmem
    . left
      exact hwhole.mem hmem
    . right
      exact loggedFor_of_mem_loggedByRun hmem
  . intro key
    rcases hclock with hdeadlines | ⟨henvs, hnow, rfl, henvs'⟩
    . have htimeless : ∀ entry ∈ kept, Timeless entry := fun entry hmem =>
        timeless_of_not_spop (hdeadlines entry (hwhole.mem hmem)) (hpops entry hmem)
      rw [restart_of_permanent hkept htimeless hrun hlogged]
    . have halike : Alike later (dispatchRun run db).store
          (initAppendOnly later envs' path' (logBytes (kept ++ loggedByRun run db))).store :=
        restart_of_frozen hkept hpops henvs hnow henvs' hlogged
      exact congrArg _ (halike key).symm

end

/-
A crash that has left a torn entry.
-/

/--
A write to go behind a torn entry. The bytes that are missing of the entry end neither in front of a
bulk string of the write nor behind its value.
-/
def probe (missing : Nat) (value : String) : List String :=
  if missing ∈ [4, 13, 20, 27] then
    "MSET" :: (List.replicate 5 ["k", value]).flatten
  else
    ["SET", "k", value]

/--
What is left of the write is neither a bulk string nor a request with an effect.
-/
theorem probe_swallowed
    : ∀ missing ∈ List.range 28, 0 < missing → ∀ value ∈ ["a", "b"],
        let bytes := asBytes (Resp.array (probe missing value))
        missing ≤ bytes.length
          ∧ bytes.take (missing - 2)
            = (asBytes (Resp.array (probe missing "a"))).take (missing - 2)
          ∧ (readBulkString (bytes.drop missing)).isOk = false
          ∧ ∀ tokens ∈ requestsOf (bytes.drop missing), (Command.parse tokens).isOk = false := by
  decide +kernel

theorem length_probe {missing : Nat} (h : 27 < missing)
    : ∀ value ∈ ["a", "b"], (asBytes (Resp.array (probe missing value))).length < missing := by
  have hprobe : ∀ value, probe missing value = ["SET", "k", value] := by
    intro value
    unfold probe
    rw [if_neg]
    simp only [List.mem_cons, List.not_mem_nil, or_false]
    omega
  have hlength : ∀ value ∈ ["a", "b"], (asBytes (Resp.array ["SET", "k", value])).length = 27 := by
    decide +kernel
  intro value hvalue
  rw [hprobe, hlength value hvalue]
  exact h

theorem parse_mset {args : List String} (hne : args.isEmpty = false) (heven : args.length % 2 = 0)
    : Command.parse ("MSET" :: args) = .ok (.mSet (Command.keyPairs args)) := by
  show (if (args.isEmpty || args.length % 2 != 0) = true then _ else _) = _
  rw [hne, heven]
  rfl

theorem dispatch_appends_itself (env : Env) {tokens : List String} {command : Command}
    {db : Database} {file : List UInt8} (hparse : Command.parse tokens = .ok command)
    (hpops : ∀ key, command ≠ .sPop key) (hwrite : command.isWrite = true)
    (hok : (execute env command db).2 = Resp.simpleString "OK") (haof : db.aof = some file)
    (hreplaying : db.replaying = false)
    : (dispatch env tokens db).1.aof = some (file ++ asBytes (Resp.array tokens))
        ∧ (dispatch env tokens db).1.store = (execute env command db).1.store := by
  rw [dispatch_of_parse_ok hparse, logEntry_of_not_spop hpops, hwrite, hok,
    Reply.isError_simpleString]
  refine ⟨?_, logOptional_store _⟩
  rw [logOptional_aof (execute_replaying.trans hreplaying) (execute_aof.trans haof)]
  rfl

theorem dispatch_probe (env : Env) (missing : Nat) (value : String) {db : Database}
    {file : List UInt8} (haof : db.aof = some file) (hreplaying : db.replaying = false)
    : (dispatch env (probe missing value) db).1.aof
          = some (file ++ asBytes (Resp.array (probe missing value)))
        ∧ live env.now (dispatch env (probe missing value) db).1.store "k"
          = some { value := .str value, expiresAt := none } := by
  unfold probe
  split
  . have hparse : Command.parse ("MSET" :: (List.replicate 5 ["k", value]).flatten)
        = .ok (.mSet (List.replicate 5 ("k", value))) := by
      apply parse_mset rfl
      simp
    rcases dispatch_appends_itself env hparse (by simp) rfl rfl haof hreplaying
      with ⟨haof', hstore⟩
    rw [hstore]
    exact ⟨haof', live_string env.now _ "k" value⟩
  . have hparse : Command.parse ["SET", "k", value] = .ok (.set "k" value none) := by
      rfl
    rcases dispatch_appends_itself env hparse (by simp) rfl rfl haof hreplaying
      with ⟨haof', hstore⟩
    rw [hstore]
    exact ⟨haof', live_string env.now _ "k" value⟩

theorem probe_setsNoDeadline (missing : Nat) (value : String)
    : SetsNoDeadline (probe missing value) := by
  intro command hcommand
  unfold probe at hcommand
  split at hcommand
  . rw [parse_mset rfl (by simp)] at hcommand
    cases hcommand
    rfl
  . cases hcommand
    rfl

theorem probe_not_spop (missing : Nat) (value key : String)
    : Command.parse (probe missing value) ≠ .ok (.sPop key) := by
  intro hparse
  unfold probe at hparse
  split at hparse
  . rw [parse_mset rfl (by simp)] at hparse
    cases hparse
  . cases hparse

theorem readable_probe (missing : Nat)
    : ∀ value ∈ ["a", "b"], Readable (probe missing value) := by
  unfold probe
  split
  . decide +kernel
  . decide +kernel

theorem applyAll_rejected {requests : List (List String)}
    (h : ∀ tokens ∈ requests, (Command.parse tokens).isOk = false) (envs : Nat → Env)
    (db : Database)
    : applyAll envs requests db = db := by
  induction requests generalizing envs with
  | nil => rfl
  | cons tokens requests ih =>
    have hrejected : (dispatch (envs 0) tokens db).1 = db := by
      rcases command_or_rejected tokens with ⟨command, hparse⟩ | ⟨-, hrejected⟩
      . have hfails := h tokens List.mem_cons_self
        rw [hparse] at hfails
        cases hfails
      . exact hrejected (envs 0) db
    rw [applyAll, hrejected]
    exact ih (fun other hmem => h other (List.mem_cons_of_mem _ hmem)) _

theorem exists_asBytes_array (tokens : List String)
    : ∃ rest, asBytes (Resp.array tokens) = 42 :: rest := by
  rw [asBytes_array, asBytes_append, asBytes_append]
  exact ⟨_, rfl⟩

/--
Behind these bytes there is a write that is read the same whichever of two values it has.
-/
def Swallows (bytes : List UInt8) : Prop :=
  ∃ missing swallowed, ∀ value ∈ ["a", "b"], ∃ rejected,
    requestsOf (bytes ++ asBytes (Resp.array (probe missing value))) = swallowed ++ rejected
      ∧ ∀ tokens ∈ rejected, (Command.parse tokens).isOk = false

theorem swallows_of_torn {tokens : List String} {torn : List UInt8}
    (h : torn <+: asBytes (Resp.array tokens)) (hstrict : torn ≠ asBytes (Resp.array tokens))
    (hnonempty : torn ≠ [])
    : Swallows torn := by
  rcases readRequest_append_torn h hstrict hnonempty with hfails | ⟨tail, hmissing, htail⟩
  . refine ⟨0, [], ?_⟩
    intro value hvalue
    refine ⟨[], ?_, by simp⟩
    rcases exists_asBytes_array (probe 0 value) with ⟨rest, hrest⟩
    rcases hfails rest with ⟨error, herror⟩
    rw [hrest, requestsOf_of_error herror]
    rfl
  . refine ⟨tail.missing, ?_⟩
    by_cases hshort : 27 < tail.missing
    . -- the write is too short to complete the entry
      refine ⟨[], ?_⟩
      intro value hvalue
      refine ⟨[], ?_, by simp⟩
      have hread := htail (asBytes (Resp.array (probe tail.missing value)))
      rw [TornTail.resume_of_lt (length_probe hshort value hvalue)] at hread
      exact requestsOf_of_error hread
    . have hprobe := probe_swallowed tail.missing (List.mem_range.mpr (by omega)) hmissing
      cases htext : fromUtf8 (tail.start
          ++ (asBytes (Resp.array (probe tail.missing "a"))).take (tail.missing - 2)) with
      | none =>
        refine ⟨[], ?_⟩
        intro value hvalue
        refine ⟨[], ?_, by simp⟩
        rcases hprobe value hvalue with ⟨hle, hstart, -⟩
        have hread := htail (asBytes (Resp.array (probe tail.missing value)))
        rw [TornTail.resume_of_le hle, hstart, htext] at hread
        exact requestsOf_of_error hread
      | some token =>
        cases hafter : tail.after with
        | zero =>
          -- the entry is complete, with a part of the write in its last payload
          refine ⟨[tail.init ++ [token]], ?_⟩
          intro value hvalue
          rcases hprobe value hvalue with ⟨hle, hstart, -, hrejected⟩
          have hread := htail (asBytes (Resp.array (probe tail.missing value)))
          rw [TornTail.resume_of_le hle, hstart, htext, hafter] at hread
          exact ⟨_, requestsOf_of_read hread, hrejected⟩
        | succ count =>
          refine ⟨[], ?_⟩
          intro value hvalue
          refine ⟨[], ?_, by simp⟩
          rcases hprobe value hvalue with ⟨hle, hstart, hbulk, -⟩
          have hread := htail (asBytes (Resp.array (probe tail.missing value)))
          cases hstring : readBulkString
              ((asBytes (Resp.array (probe tail.missing value))).drop tail.missing) with
          | ok result =>
            rw [hstring] at hbulk
            cases hbulk
          | error error =>
            rw [TornTail.resume_of_le hle, hstart, htext, hafter, readBulkStrings, hstring] at hread
            exact requestsOf_of_error hread

/--
An entry beyond the limits swallows everything.
-/
theorem swallows_of_not_readable {tokens : List String} (h : ¬ Readable tokens) (rest : List UInt8)
    : Swallows (asBytes (Resp.array tokens) ++ rest) := by
  refine ⟨0, [], ?_⟩
  intro value _
  refine ⟨[], ?_, by simp⟩
  rw [List.append_assoc]
  rcases readRequest_of_not_readable h (rest ++ asBytes (Resp.array (probe 0 value)))
    with ⟨error, herror⟩
  exact requestsOf_of_error herror

/--
What the reader does not accept of some entries begins with one that is beyond the limits.
-/
theorem readable_or_swallows (entries : List (List String))
    : (∀ entry ∈ entries, Readable entry)
        ∨ ∃ kept rest, (∀ entry ∈ kept, Readable entry) ∧ logBytes entries = logBytes kept ++ rest
          ∧ ∀ torn, Swallows (rest ++ torn) := by
  induction entries with
  | nil => simp
  | cons entry entries ih =>
    by_cases hentry : Readable entry
    . rcases ih with hreadable | ⟨kept, rest, hkept, hbytes, hrest⟩
      . left
        exact List.forall_mem_cons.mpr ⟨hentry, hreadable⟩
      . right
        refine ⟨entry :: kept, rest, List.forall_mem_cons.mpr ⟨hentry, hkept⟩, ?_, hrest⟩
        rw [logBytes_cons, logBytes_cons, hbytes, List.append_assoc]
    . right
      refine ⟨[], logBytes (entry :: entries), by simp, rfl, ?_⟩
      intro torn
      rw [logBytes_cons, List.append_assoc]
      exact swallows_of_not_readable hentry _

section

variable {now : Instant} {kept : List (List String)} {rest : List UInt8} {db : Database}

/--
What the second restart loses is the write that is swallowed.
-/
theorem exists_lost (hkept : ∀ entry ∈ kept, Readable entry) (hrest : Swallows rest)
    (haof : db.aof = some (logBytes kept ++ rest)) (hreplaying : db.replaying = false)
    (now : Instant)
    : ∃ missing, ∃ value ∈ ["a", "b"], ∀ sent,
        ¬ Recovers sent now none (fun _ => envAt now)
          (dispatch (envAt now) (probe missing value) db).1 := by
  rcases hrest with ⟨missing, swallowed, hswallowed⟩
  let env := envAt now
  -- the keyspace that the second restart leads to, whatever is written
  let replayed := applyAll (fun _ => env) swallowed (applyAll (fun _ => env) kept
    (Database.withPersistence now none (some [])).beginReplay)
  have hvalue : ∃ value ∈ ["a", "b"],
      (live now replayed.store "k").map Entry.value ≠ some (.str value) := by
    by_cases ha : (live now replayed.store "k").map Entry.value = some (.str "a")
    . refine ⟨"b", by simp, ?_⟩
      rw [ha]
      simp
    . exact ⟨"a", by simp, ha⟩
  rcases hvalue with ⟨value, hmem, hvalue⟩
  refine ⟨missing, value, hmem, ?_⟩
  rintro sent ⟨file, hfile, -, hkeys⟩
  rcases hswallowed value hmem with ⟨rejected, hrequests, hrejected⟩
  rcases dispatch_probe env missing value haof hreplaying with ⟨haof', hlive⟩
  rw [haof'] at hfile
  cases hfile
  have hstore : (initAppendOnly now (fun _ => env) none
      (logBytes kept ++ rest ++ asBytes (Resp.array (probe missing value)))).store
        = replayed.store := by
    rw [List.append_assoc, initAppendOnly_store_append _ none hkept [], hrequests, applyAll_append,
      applyAll_rejected hrejected]
  apply hvalue
  rw [← hstore, hkeys "k"]
  exact congrArg _ hlive

theorem not_durable_of_swallows {clock : Instant → Prop} {entries : List (List String)}
    {run before : List (Env × List String)} (hnow : clock now) (hbefore : before <+: run)
    (hkept : ∀ entry ∈ kept, Readable entry) (hrest : Swallows rest)
    (haof : (dispatchRun before db).aof = some (logBytes kept ++ rest))
    (hreplaying : (dispatchRun before db).replaying = false)
    : ¬ Durable clock entries db run := by
  intro hdurable
  rcases exists_lost hkept hrest haof hreplaying now with ⟨missing, value, hmem, hlost⟩
  let more := [(envAt now, probe missing value)]
  have hmore : ∀ step ∈ more, SetsNoDeadline step.2 ∧ clock step.1.now := by
    rw [List.forall_mem_singleton]
    exact ⟨probe_setsNoDeadline missing value, hnow⟩
  have hlogged : ∀ entry ∈ loggedByRun more (dispatchRun before db), Readable entry := by
    apply readable_loggedByRun_of_not_spop
    rw [List.forall_mem_singleton]
    exact ⟨readable_probe missing value hmem, probe_not_spop missing value⟩
  have hrecovers := hdurable before more now none (fun _ => envAt now) hbefore hmore hlogged hnow
    fun _ => hnow
  unfold dispatchRun at hrecovers
  rw [List.foldl_append] at hrecovers
  exact hlost _ hrecovers

end

/--
What a cut leaves of a log: some entries, and possibly a part of another one.
-/
theorem exists_torn {entries : List (List String)} {input : List UInt8}
    (h : input <+: logBytes entries)
    : ∃ kept torn, kept <+: entries ∧ input = logBytes kept ++ torn
        ∧ (torn ≠ [] → ∃ entry ∈ entries, torn <+: asBytes (Resp.array entry)
          ∧ torn ≠ asBytes (Resp.array entry)) := by
  induction entries generalizing input with
  | nil =>
    refine ⟨[], [], List.nil_prefix, List.prefix_nil.mp h, ?_⟩
    intro hne
    exact absurd rfl hne
  | cons entry entries ih =>
    rw [logBytes_cons] at h
    rcases prefix_append_cases h with ⟨hstart, hstrict⟩ | ⟨rest, rfl, hrest⟩
    . refine ⟨[], input, List.nil_prefix, rfl, ?_⟩
      intro _
      exact ⟨entry, List.mem_cons_self, hstart, hstrict⟩
    . rcases ih hrest with ⟨kept, torn, hkept, rfl, htorn⟩
      refine ⟨entry :: kept, torn, ?_, ?_, ?_⟩
      . rw [List.cons_prefix_cons]
        exact ⟨rfl, hkept⟩
      . rw [logBytes_cons, List.append_assoc]
      . intro hne
        rcases htorn hne with ⟨other, hmem, hother⟩
        exact ⟨other, List.mem_cons_of_mem _ hmem, hother⟩

section

variable {entries kept : List (List String)} {input : List UInt8} {clock : Instant → Prop}
  {now : Instant} {envs : Nat → Env} {path : Option String} {run : List (Env × List String)}

/--
A durable run begins with whole entries that the reader accepts.
-/
theorem whole_entries_of_durable (hcut : input <+: logBytes entries) (hnow : clock now)
    (hdurable : Durable clock entries (initAppendOnly now envs path input) run)
    : ∃ kept, kept <+: entries ∧ input = logBytes kept ∧ ∀ entry ∈ kept, Readable entry := by
  rcases initAppendOnly_aof now envs path input with ⟨haof, hreplaying⟩
  rcases exists_torn hcut with ⟨kept, torn, hkept, hinput, htorn⟩
  rcases readable_or_swallows kept with hreadable | ⟨good, rest, hgood, hbytes, hrest⟩
  . refine ⟨kept, hkept, ?_, hreadable⟩
    by_contra hne
    have hnonempty : torn ≠ [] := by
      rintro rfl
      exact hne (hinput.trans (List.append_nil _))
    rcases htorn hnonempty with ⟨entry, -, hstart, hstrict⟩
    have haof := haof.trans (congrArg some hinput)
    exact not_durable_of_swallows hnow List.nil_prefix hreadable
      (swallows_of_torn hstart hstrict hnonempty) haof hreplaying hdurable
  . exfalso
    rw [hbytes, List.append_assoc] at hinput
    have haof := haof.trans (congrArg some hinput)
    exact not_durable_of_swallows hnow List.nil_prefix hgood (hrest torn) haof hreplaying hdurable

/--
The reader accepts what a durable run logs.
-/
theorem readable_of_durable (hnow : clock now)
    (hdurable : Durable clock entries (initAppendOnly now envs path (logBytes kept)) run)
    : ∀ entry ∈ loggedByRun run (initAppendOnly now envs path (logBytes kept)), Readable entry := by
  let db := initAppendOnly now envs path (logBytes kept)
  rcases initAppendOnly_aof now envs path (logBytes kept) with ⟨haof, hreplaying⟩
  have haof' : (dispatchRun run db).aof = some (logBytes (kept ++ loggedByRun run db)) := by
    rw [logBytes_append]
    exact dispatchRun_appends haof hreplaying
  rcases readable_or_swallows (kept ++ loggedByRun run db)
    with hreadable | ⟨good, rest, hgood, hbytes, hrest⟩
  . exact (List.forall_mem_append.mp hreadable).2
  . exfalso
    rw [hbytes, ← List.append_nil rest] at haof'
    exact not_durable_of_swallows hnow List.prefix_rfl hgood (hrest []) haof'
      (dispatchRun_replaying.trans hreplaying) hdurable

theorem durable_of_whole_entries (hkept : kept <+: entries)
    (hreadable : ∀ entry ∈ kept, Readable entry)
    (hpops : ∀ entry ∈ entries, ∀ key, Command.parse entry ≠ .ok (.sPop key))
    (hclock : (∀ entry ∈ entries, SetsNoDeadline entry) ∨ ∀ reading, clock reading → reading = now)
    (henvs : ∀ i, clock (envs i).now)
    (hrun : ∀ step ∈ run, SetsNoDeadline step.2 ∧ clock step.1.now)
    (hlogged : ∀ entry ∈ loggedByRun run (initAppendOnly now envs path (logBytes kept)),
      Readable entry)
    : Durable clock entries (initAppendOnly now envs path (logBytes kept)) run := by
  intro before more later path' envs' hbefore hmore hlogged' hlater henvs'
  have hserved : ∀ step ∈ before ++ more, SetsNoDeadline step.2 ∧ clock step.1.now :=
    List.forall_mem_append.mpr ⟨fun step hmem => hrun step (hbefore.mem hmem), hmore⟩
  apply recovers_of_whole_entries hkept hreadable hpops
  . intro step hmem
    exact (hserved step hmem).1
  . rw [loggedByRun_append, List.forall_mem_append]
    refine ⟨?_, hlogged'⟩
    intro entry hmem
    rcases hbefore with ⟨after, rfl⟩
    apply hlogged
    rw [loggedByRun_append]
    exact List.mem_append_left _ hmem
  . rcases hclock with hdeadlines | hfrozen
    . left
      exact hdeadlines
    . right
      refine ⟨fun i => hfrozen _ (henvs i), ?_, hfrozen later hlater, fun i => hfrozen _ (henvs' i)⟩
      intro step hmem
      exact hfrozen _ (hserved step hmem).2

end

/--
A run that sets no deadline, after a restart from what a crash in the middle of an append has left of a
log, is durable if and only if the crash has left whole entries, and the reader accepts these and what
the run logs. If the log sets deadlines, this is for a clock that stands still, as replaying it starts
them anew.
-/
theorem recovery_durable_iff (entries : List (List String))
    (hpops : ∀ entry ∈ entries, ∀ key, Command.parse entry ≠ .ok (.sPop key)) (input : List UInt8)
    (hcut : input <+: logBytes entries) (clock : Instant → Prop) (now : Instant)
    (hclock : (∀ entry ∈ entries, SetsNoDeadline entry) ∨ ∀ reading, clock reading → reading = now)
    (path : Option String) (envs : Nat → Env) (hnow : clock now) (henvs : ∀ i, clock (envs i).now)
    (run : List (Env × List String)) (hrun : ∀ step ∈ run, SetsNoDeadline step.2 ∧ clock step.1.now)
    : let db := initAppendOnly now envs path input
      Durable clock entries db run
        ↔
      (∃ kept, kept <+: entries ∧ input = logBytes kept ∧ ∀ entry ∈ kept, Readable entry)
        ∧ ∀ entry ∈ loggedByRun run db, Readable entry := by
  intro db
  constructor
  . intro hdurable
    have hwhole := whole_entries_of_durable hcut hnow hdurable
    refine ⟨hwhole, ?_⟩
    rcases hwhole with ⟨kept, -, rfl, -⟩
    exact readable_of_durable hnow hdurable
  . rintro ⟨⟨kept, hkept, rfl, hreadable⟩, hlogged⟩
    exact durable_of_whole_entries hkept hreadable hpops hclock henvs hrun hlogged

/--
The log of two writes, cut behind the first one, and a third write.
-/
theorem recovery_durable_iff_boundary
    : let entries := [["SET", "k1", "v1"], ["SET", "k2", "value"]]
      let db := initAppendOnly startOfClock (fun _ => envAt startOfClock) none
        (logBytes [["SET", "k1", "v1"]])
      Durable (fun _ => True) entries db [(envAt startOfClock, ["SET", "k3", "v3"])] := by
  intro entries db
  have hsets : ∀ entry ∈ ["SET", "k3", "v3"] :: entries, ∃ key value,
      Command.parse entry = .ok (.set key value none) := by
    simp only [entries, List.forall_mem_cons]
    exact ⟨⟨_, _, rfl⟩, ⟨_, _, rfl⟩, ⟨_, _, rfl⟩, by simp⟩
  have hdeadline : ∀ entry ∈ ["SET", "k3", "v3"] :: entries, SetsNoDeadline entry := by
    intro entry hmem command hparse
    rcases hsets entry hmem with ⟨key, value, hset⟩
    rw [hset] at hparse
    cases hparse
    rfl
  have hpops : ∀ entry ∈ ["SET", "k3", "v3"] :: entries, ∀ key,
      Command.parse entry ≠ .ok (.sPop key) := by
    intro entry hmem name hparse
    rcases hsets entry hmem with ⟨key, value, hset⟩
    rw [hset] at hparse
    cases hparse
  rw [List.forall_mem_cons] at hdeadline hpops
  apply (recovery_durable_iff entries hpops.2 (logBytes [["SET", "k1", "v1"]])
    ⟨logBytes [["SET", "k2", "value"]], rfl⟩ (fun _ => True) startOfClock (.inl hdeadline.2) none
    (fun _ => envAt startOfClock) trivial (fun _ => trivial) _ ?_).mpr
  . refine ⟨⟨[["SET", "k1", "v1"]], ⟨[["SET", "k2", "value"]], rfl⟩, rfl, ?_⟩, ?_⟩
    . decide +kernel
    . apply readable_loggedByRun_of_not_spop
      rw [List.forall_mem_singleton]
      exact ⟨by decide +kernel, hpops.1⟩
  . rw [List.forall_mem_singleton]
    exact ⟨hdeadline.1, trivial⟩

/--
A crash in the middle of the second write. The `SET` of `k3` that follows is gone after the second
restart, and `k2` has a value nobody has set.
-/
theorem acknowledged_write_lost
    : let entries := [["SET", "k1", "v1"], ["SET", "k2", "value"]]
      let input := logBytes [["SET", "k1", "v1"]] ++ asBytes "*3\r\n$3\r\nSET\r\n$2\r\nk2\r\n$5\r\nval"
      let env := envAt startOfClock
      let run := [(env, ["SET", "k3", "v3"])]
      let db := dispatchRun run (initAppendOnly startOfClock (fun _ => env) none input)
      input <+: logBytes entries
        ∧ ¬ Recovers (fun tokens => tokens ∈ entries ∨ ∃ step ∈ run, LoggedFor step.2 tokens)
          startOfClock none (fun _ => env) db
        ∧ requestsOf (input ++ logBytes [["SET", "k3", "v3"]])
          = [["SET", "k1", "v1"], ["SET", "k2", "val*3"], ["$3"], ["SET"], ["$2"], ["k3"], ["$2"],
              ["v3"]] := by
  intro entries input env run db
  refine ⟨by decide +kernel, ?_, by decide +kernel⟩
  rintro ⟨file, hfile, -, hkeys⟩
  have haof : db.aof = some (input ++ logBytes [["SET", "k3", "v3"]]) := by
    decide +kernel
  rw [haof] at hfile
  cases hfile
  have hlost : ((live startOfClock (initAppendOnly startOfClock (fun _ => env) none
      (input ++ logBytes [["SET", "k3", "v3"]])).store "k3").map Entry.value).isSome = false := by
    decide +kernel
  have hwritten : ((live startOfClock db.store "k3").map Entry.value).isSome = true := by
    decide +kernel
  rw [hkeys "k3", hwritten] at hlost
  cases hlost

end RedisClone
