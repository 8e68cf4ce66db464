import RedisClone.Database.Snapshot
import RedisClone.Lib.Linearize
import RedisClone.Server.Replay

/-!
This module contains the machine the server runs on. The server is started, serves its clients one request
after the other, is shut down or killed, and is started again; between its lives there are only the files
on the disk.
-/

namespace RedisClone

inductive FsyncPolicy where
  | always
  | everySec
  | no
deriving DecidableEq

def FsyncPolicy.fromStr (value : String) : Except String FsyncPolicy :=
  match toAsciiLowercase value with
  | "always" => .ok .always
  | "everysec" => .ok .everySec
  | "no" => .ok .no
  | other =>
    .error ("unknown fsync policy '" ++ other ++ "' (expected always, everysec, or no)")

/--
The settings of the persistence.
-/
structure Config where
  snapshotFile : String
  appendonly : Bool
  appendfsync : String
  aofFile : String

/--
What every path leads to.
-/
abbrev Disk := String → Option (List UInt8)

/--
The JSON text of snapshots comes from outside the repository. What is written can be read back.
-/
structure SnapshotJson where
  toVecPretty : Snapshot → Except String (List UInt8)
  fromSlice : List UInt8 → Except String Snapshot
  round_trip : ∀ snapshot bytes, toVecPretty snapshot = .ok bytes → fromSlice bytes = .ok snapshot

namespace Database

/--
`Database::load_from`: nothing is loaded if there is no file.
-/
def loadFrom (json : SnapshotJson) (now : Instant) (path : String) (disk : Disk) (db : Database)
    : Except String (Database × Bool) :=
  match disk path with
  | some bytes =>
    (json.fromSlice bytes).map fun snapshot =>
      ({ db with store := Db.loadSnapshot now snapshot db.store }, true)
  | none => .ok (db, false)

/--
The disk after `Database::save`. A snapshot without a text cannot have been saved.
-/
def saveTo (json : SnapshotJson) (env : Env) (disk : Disk) (db : Database) : Option Disk :=
  match db.snapshotPath, db.save env with
  | some path, .ok () =>
    (json.toVecPretty (Db.snapshot env db.store)).toOption.map fun bytes =>
      Function.update disk path (some bytes)
  | _, _ => some disk

end Database

/--
`init_persistence`: the log is replayed in append-only mode, and the snapshot is loaded otherwise. A log
that does not exist is created; a snapshot that cannot be read is ignored.
-/
def initPersistence (json : SnapshotJson) (config : Config) (now : Instant) (envs : Nat → Env)
    (disk : Disk) : Except String (Disk × Database × Option FsyncPolicy) :=
  if config.appendonly then
    (FsyncPolicy.fromStr config.appendfsync).map fun policy =>
      let log := (disk config.aofFile).getD []
      (Function.update disk config.aofFile (some log),
        initAppendOnly now envs (some config.snapshotFile) log, some policy)
  else
    let db := Database.withPersistence now (some config.snapshotFile) none
    match db.loadFrom json now config.snapshotFile disk with
    | .ok (db, _) => .ok (disk, db, none)
    | .error _ => .ok (disk, db, none)

/--
A server that is up.
-/
structure Running where
  config : Config
  policy : Option FsyncPolicy
  db : Database

/--
The disk, what a loss of power leaves of each file at least, and the server while it is up, with the time
of its last step, the time it has been up in all its lives, and their number.
-/
structure Machine where
  disk : Disk
  stable : String → List UInt8
  running : Option Running
  clock : Instant
  uptime : Nat
  starts : Nat

/--
What happens to the machine. `BGSAVE` writes its file in a task of its own, here in one piece, and a kill
finds no write on its way to a file.
-/
inductive MachineEvent where
  | start (config : Config) (now : Instant) (envs : Nat → Env)
  | request (env : Env) (tokens : List String)
  | backgroundSave (env : Env)
  | sweep (now : Instant)
  | flush (now : Instant)
  | shutdown (env : Env)
  | kill (now : Instant)

def MachineEvent.now : MachineEvent → Instant
  | .start _ now _ | .sweep now | .flush now | .kill now => now
  | .request env _ | .backgroundSave env | .shutdown env => env.now

def MachineEvent.clientRequest : MachineEvent → Option (Env × List String)
  | .request env tokens => some (env, tokens)
  | _ => none

/--
The disk with the log as it is in the file.
-/
def Running.written (self : Running) (disk : Disk) : Disk :=
  self.db.aof.elim disk fun log => Function.update disk self.config.aofFile (some log)

/--
`Database::sync_aof`: all of the log is on stable storage.
-/
def Running.syncAof (self : Running) (stable : String → List UInt8) : String → List UInt8 :=
  self.db.aof.elim stable fun log => Function.update stable self.config.aofFile log

namespace Machine

def new (disk : Disk) : Machine where
  disk := disk
  stable := fun _ => []
  running := none
  clock := ⟨0, Instant.zero_inRange⟩
  uptime := 0
  starts := 0

variable (json : SnapshotJson)

/--
A step of a server that is up. Only an append is followed by a sync under `always`, and only `everysec`
has a task that flushes.
-/
def serve (self : Machine) (running : Running)
    : MachineEvent → Option (Machine × Option ((Env × List String) × String))
  | .start _ _ _ => none
  | .request env tokens =>
    let answer := dispatch env tokens running.db
    let next := { running with db := answer.1 }
    let stable :=
      if running.policy = some .always ∧ next.db.aof ≠ running.db.aof then next.syncAof self.stable
      else self.stable
    let disk := next.written self.disk
    let saved :=
      match Command.parse tokens with
      | .ok .save => next.db.saveTo json env disk
      | _ => some disk
    saved.map fun disk =>
      ({ self with disk, stable, running := some next }, some ((env, tokens), answer.2))
  | .backgroundSave env =>
    (running.db.saveTo json env self.disk).map fun disk => ({ self with disk }, none)
  | .sweep now =>
    let db := { running.db with store := (Db.sweepExpired now running.db.store).1 }
    some ({ self with running := some { running with db } }, none)
  | .flush _ =>
    if running.policy = some .everySec then
      some ({ self with stable := running.syncAof self.stable }, none)
    else
      none
  | .shutdown env =>
    (running.db.saveTo json env self.disk).map fun disk =>
      ({ self with disk, stable := running.syncAof self.stable, running := none }, none)
  | .kill _ => some ({ self with running := none }, none)

/--
The clock of a server does not go back while it is up. A server that cannot be started stays down.
-/
def step (self : Machine) (event : MachineEvent)
    : Option (Machine × Option ((Env × List String) × String)) :=
  match self.running with
  | some running =>
    if self.clock ≤ event.now then
      let uptime := self.uptime + (event.now.nanos - self.clock.nanos)
      serve json { self with clock := event.now, uptime } running event
    else
      none
  | none =>
    match event with
    | .start config now envs =>
      match initPersistence json config now envs self.disk with
      | .ok (disk, db, policy) =>
        let running := some ⟨config, policy, db⟩
        some ({ self with disk, running, clock := now, starts := self.starts + 1 }, none)
      | .error _ => some (self, none)
    | _ => none

def system : Linearize.System Machine MachineEvent (Env × List String) String := ⟨step json⟩

variable {json} {self next : Machine} {event : MachineEvent}
  {answer : Option ((Env × List String) × String)}

/--
A step is one of a server that is up, at its time, or one that starts a server.
-/
theorem step_cases (h : step json self event = some (next, answer))
    : (∃ running uptime, self.running = some running ∧ self.clock ≤ event.now
          ∧ uptime = self.uptime + (event.now.nanos - self.clock.nanos)
          ∧ serve json { self with clock := event.now, uptime } running event = some (next, answer))
        ∨ self.running = none ∧ ∃ config now envs, event = .start config now envs := by
  unfold step at h
  split at h
  . next running hrunning =>
    rw [Option.ite_none_right_eq_some] at h
    exact .inl ⟨running, _, hrunning, h.1, rfl, h.2⟩
  . next hdown =>
    right
    refine ⟨hdown, ?_⟩
    cases event with
    | start config now envs => exact ⟨config, now, envs, rfl⟩
    | _ => cases h

theorem clientRequest_of_step (self : Machine) (event : MachineEvent) (next : Machine)
    (answer : Option ((Env × List String) × String)) (h : step json self event = some (next, answer))
    : answer.map Prod.fst = event.clientRequest := by
  rcases step_cases h with ⟨running, uptime, -, -, -, hserve⟩ | ⟨hdown, config, now, envs, rfl⟩
  . cases event with
    | start config now envs => cases hserve
    | request env tokens =>
      obtain ⟨disk, -, heq⟩ := Option.map_eq_some_iff.mp hserve
      cases heq
      rfl
    | backgroundSave env | shutdown env =>
      obtain ⟨disk, -, heq⟩ := Option.map_eq_some_iff.mp hserve
      cases heq
      rfl
    | flush now =>
      rw [serve, Option.ite_none_right_eq_some] at hserve
      cases hserve.2
      rfl
    | sweep now | kill now =>
      cases hserve
      rfl
  . simp only [step, hdown] at h
    split at h
    all_goals
      cases h
      rfl

end Machine

/--
A server that is never restarted.
-/
def restless : Linearize.Object Database (Env × List String) String :=
  ⟨fun request db => dispatch request.1 request.2 db⟩

end RedisClone
