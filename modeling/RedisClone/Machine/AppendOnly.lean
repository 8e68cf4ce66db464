import RedisClone.Machine.Recoverable

/-!
This module contains what the clients of a server in append-only mode see of its restarts: nothing, as long
as the requests set no deadline.
-/

namespace RedisClone

open Store

/--
The commands that are answered from the keyspace alone. The others look at the clients or at the files.
-/
def Command.fromKeyspace : Command → Bool
  | .info | .publish _ _ | .save => false
  | _ => true

def FromKeyspace (tokens : List String) : Prop :=
  ∀ command, Command.parse tokens = .ok command → command.fromKeyspace = true

/--
Two databases with the same keyspace and the same log.
-/
structure Database.Agrees (db db' : Database) : Prop where
  store : db.store = db'.store
  aof : db.aof = db'.aof
  replaying : db.replaying = db'.replaying

section

variable {env : Env} {tokens : List String} {command : Command} {db db' : Database}

theorem execute_reply_congr (hcommand : command.fromKeyspace = true) (h : db.store = db'.store)
    : (execute env command db).2 = (execute env command db').2 := by
  cases command
  case info | publish | save => cases hcommand
  case zRange key start stop withScores =>
    cases withScores <;> simp only [execute, Database.run, h, Bool.false_eq_true, if_true, if_false]
  case ping message => cases message <;> rfl
  all_goals simp only [execute, Database.run, h]

theorem logEntry_store_congr (h : db.store = db'.store)
    : logEntry env command tokens db = logEntry env command tokens db' := by
  by_cases hpops : ∃ key, command = .sPop key
  . obtain ⟨key, rfl⟩ := hpops
    simp only [logEntry, h]
  . have hpops : ∀ key, command ≠ .sPop key := fun key heq => hpops ⟨key, heq⟩
    rw [logEntry_of_not_spop hpops, logEntry_of_not_spop hpops]
    cases hwrite : command.isWrite with
    | false => rfl
    | true =>
      have hcommand : command.fromKeyspace = true := by
        cases command
        case info | publish | save => cases hwrite
        all_goals rfl
      rw [execute_reply_congr hcommand h]

theorem logOptional_snapshotPath (entry : Option (List String))
    : (db.logOptional entry).snapshotPath = db.snapshotPath := by
  cases entry with
  | none => rfl
  | some tokens =>
    unfold Database.logOptional Database.logWrite
    dsimp only
    split <;> rfl

theorem dispatch_snapshotPath : (dispatch env tokens db).1.snapshotPath = db.snapshotPath := by
  rcases command_or_rejected tokens with ⟨command, hparse⟩ | ⟨-, hrejected⟩
  . rw [dispatch_of_parse_ok hparse, logOptional_snapshotPath, execute_frame]
  . rw [hrejected]

theorem initAppendOnly_snapshotPath (now : Instant) (envs : Nat → Env) (path : Option String)
    (file : List UInt8)
    : (initAppendOnly now envs path file).snapshotPath = path := by
  have happly : ∀ (entries : List (List String)) (envs : Nat → Env) (db : Database),
      (applyAll envs entries db).snapshotPath = db.snapshotPath := by
    intro entries
    induction entries with
    | nil => exact fun _ _ => rfl
    | cons entry entries ih =>
      intro envs db
      rw [applyAll, ih, dispatch_snapshotPath]
  unfold initAppendOnly
  rw [replayAof_eq]
  exact happly _ _ _

theorem logOptional_agrees (h : db.Agrees db') (entry : Option (List String))
    : (db.logOptional entry).Agrees (db'.logOptional entry) := by
  cases entry with
  | none => exact h
  | some tokens =>
    simp only [Database.logOptional, Database.logWrite, h.replaying]
    split
    . exact h
    . exact ⟨h.store, congrArg (Option.map _) h.aof, rfl⟩

/--
Databases that agree give the same answers from the keyspace, and agree afterwards.
-/
theorem dispatch_agrees (env : Env) (tokens : List String) (h : db.Agrees db')
    : (dispatch env tokens db).1.Agrees (dispatch env tokens db').1
        ∧ (FromKeyspace tokens → (dispatch env tokens db).2 = (dispatch env tokens db').2) := by
  cases tokens with
  | nil => exact ⟨h, fun _ => rfl⟩
  | cons name args =>
    cases hparse : Command.parse (name :: args) with
    | error error =>
      rw [dispatch_of_parse_error (List.cons_ne_nil name args) hparse]
      rw [dispatch_of_parse_error (List.cons_ne_nil name args) hparse]
      exact ⟨h, fun _ => rfl⟩
    | ok command =>
      rw [dispatch_of_parse_ok hparse, dispatch_of_parse_ok hparse, logEntry_store_congr h.store]
      constructor
      . apply logOptional_agrees
        constructor
        . exact execute_store_congr h.store
        . rw [execute_aof, execute_aof, h.aof]
        . rw [execute_replaying, execute_replaying, h.replaying]
      . intro hkeyspace
        exact execute_reply_congr (hkeyspace command hparse) h.store

end

theorem Store.Permanent.sweepExpired_eq {store : Store} (h : Permanent store) (now : Instant)
    : (Db.sweepExpired now store).1 = store := by
  apply Std.ExtTreeMap.ext_getElem?
  intro key
  rw [← h.live_eq now key]
  exact LiveMap.getElem?_purge

namespace Machine

/--
What happens to a machine whose server always runs in append-only mode, with one log that is not the
snapshot file, and serves requests that can be logged and set no deadline.
-/
def AppendOnly (path : String) : MachineEvent → Prop
  | .start config _ _ =>
    config.appendonly = true ∧ config.aofFile = path ∧ config.snapshotFile ≠ path
  | .request env tokens => Loggable (env, tokens)
  | _ => True

/--
The server runs under `always`, if it is up.
-/
def Always (self : Machine) : Prop :=
  ∀ running, self.running = some running → running.policy = some .always

def StartsAlways : MachineEvent → Prop
  | .start config _ _ => FsyncPolicy.fromStr config.appendfsync = .ok .always
  | _ => True

def log (self : Machine) (path : String) : List UInt8 := (self.disk path).getD []

/--
A running server and the one that is never restarted.
-/
structure Serves (path : String) (running : Running) (spec : Database) : Prop where
  aofFile : running.config.aofFile = path
  snapshotFile : running.db.snapshotPath ≠ some path
  agrees : running.db.Agrees spec

/--
The machine and the server that is never restarted.
-/
structure Follows (path : String) (machine : Machine) (spec : Database) : Prop where
  recoverable : ∃ entries, Recoverable spec entries
  aof : spec.aof = some (machine.log path)
  stable : machine.stable path <+: machine.log path
  running : ∀ running, machine.running = some running → Serves path running spec

section

variable {json : SnapshotJson} {path : String} {self next : Machine} {running : Running}
  {spec : Database} {event : MachineEvent} {answer : Option ((Env × List String) × String)}

theorem saveTo_of_ne {env : Env} {disk disk' : Disk} {db : Database}
    (h : db.saveTo json env disk = some disk') (hpath : db.snapshotPath ≠ some path)
    : disk' path = disk path := by
  unfold Database.saveTo at h
  split at h
  . next file outcome hfile houtcome =>
    obtain ⟨bytes, -, rfl⟩ := Option.map_eq_some_iff.mp h
    apply Function.update_of_ne
    rintro rfl
    exact hpath hfile
  . cases h
    rfl

theorem Serves.written (h : Serves path running spec) (disk : Disk) {log : List UInt8}
    (haof : spec.aof = some log)
    : running.written disk path = some log := by
  unfold Running.written
  rw [h.agrees.aof, haof, ← h.aofFile]
  exact Function.update_self ..

theorem Serves.syncAof (h : Serves path running spec) (stable : String → List UInt8)
    {log : List UInt8} (haof : spec.aof = some log)
    : running.syncAof stable path = log := by
  unfold Running.syncAof
  rw [h.agrees.aof, haof, ← h.aofFile]
  exact Function.update_self ..

theorem follows_new {disk : Disk} (now : Instant) (snapshotPath : Option String)
    (h : (disk path).getD [] = [])
    : Follows path (new disk) (.withPersistence now snapshotPath (some [])) where
  recoverable := ⟨[], recoverable_new now snapshotPath⟩
  aof := congrArg some h.symm
  stable := List.nil_prefix
  running := by
    intro running hrunning
    cases hrunning

/--
What a step does to the log, and to the part of it on stable storage.
-/
structure LogStep (path : String) (event : MachineEvent) (machine next : Machine) : Prop where
  grows : machine.log path <+: next.log path
  stable : next.stable path = next.log path
    ∨ next.stable path = machine.stable path ∧ (machine.Always → next.log path = machine.log path)
  always : StartsAlways event → machine.Always → next.Always

/--
The server starts with the keyspace the machine has had before, if it starts.
-/
theorem Follows.start (h : Follows path self spec) (hdown : self.running = none) {config : Config}
    {now : Instant} {envs : Nat → Env} (hconfig : AppendOnly path (.start config now envs))
    (hstep : step json self (.start config now envs) = some (next, answer))
    : Follows path next spec ∧ LogStep path (.start config now envs) self next ∧ answer = none := by
  obtain ⟨happendonly, haofFile, hsnapshotFile⟩ := hconfig
  simp only [step, hdown, initPersistence, happendonly, if_true] at hstep
  cases hpolicy : FsyncPolicy.fromStr config.appendfsync with
  | error cause =>
    simp only [hpolicy, Except.map, Option.some.injEq, Prod.mk.injEq] at hstep
    obtain ⟨rfl, rfl⟩ := hstep
    exact ⟨h, ⟨List.prefix_rfl, .inr ⟨rfl, fun _ => rfl⟩, fun _ => id⟩, rfl⟩
  | ok policy =>
    simp only [hpolicy, Except.map, Option.some.injEq, Prod.mk.injEq] at hstep
    obtain ⟨rfl, rfl⟩ := hstep
    subst haofFile
    have hlog : (Function.update self.disk config.aofFile (some (self.log config.aofFile))
        config.aofFile).getD [] = self.log config.aofFile := by
      rw [Function.update_self]
      rfl
    refine ⟨?_, ?_, rfl⟩
    . constructor
      . exact h.recoverable
      . exact h.aof.trans (congrArg some hlog.symm)
      . have hstable := h.stable
        rw [← hlog] at hstable
        exact hstable
      . rintro running ⟨⟩
        obtain ⟨entries, hrecoverable⟩ := h.recoverable
        have hlog : requestsOf (self.log config.aofFile) = entries := by
          have heq := h.aof.symm.trans hrecoverable.aof
          rw [Option.some.inj heq, requestsOf_logBytes hrecoverable.readable]
        obtain ⟨haof, hserving⟩ :=
          initAppendOnly_aof now envs (some config.snapshotFile) (self.log config.aofFile)
        refine ⟨rfl, ?_, ?_⟩
        . dsimp only
          rw [initAppendOnly_snapshotPath, ne_eq, Option.some.injEq]
          exact hsnapshotFile
        . constructor
          . exact hrecoverable.store_initAppendOnly hlog now envs (some config.snapshotFile)
          . exact haof.trans h.aof.symm
          . exact hserving.trans hrecoverable.serving.symm
    . constructor
      . exact ⟨[], (List.append_nil _).trans hlog.symm⟩
      . exact .inr ⟨rfl, fun _ => hlog⟩
      . intro hstarts halways
        rintro running ⟨⟩
        cases hpolicy.symm.trans hstarts
        rfl

theorem Follows.request (h : Follows path self spec) (hrunning : self.running = some running)
    {env : Env} {tokens : List String} (htokens : Loggable (env, tokens))
    (hstep : serve json self running (.request env tokens) = some (next, answer))
    : Follows path next (dispatch env tokens spec).1 ∧ LogStep path (.request env tokens) self next
        ∧ ∃ reply, answer = some ((env, tokens), reply)
          ∧ (FromKeyspace tokens → reply = (dispatch env tokens spec).2) := by
  have hserves := h.running running hrunning
  obtain ⟨entries, hrecoverable⟩ := h.recoverable
  obtain ⟨appended, -, hrecoverable'⟩ := hrecoverable.dispatch env htokens.1 htokens.2
  have hagrees := dispatch_agrees env tokens hserves.agrees
  have hserves' : Serves path { running with db := (dispatch env tokens running.db).1 }
      (dispatch env tokens spec).1 := by
    refine ⟨hserves.aofFile, ?_, hagrees.1⟩
    dsimp only
    rw [dispatch_snapshotPath]
    exact hserves.snapshotFile
  unfold serve at hstep
  obtain ⟨disk, hsaved, heq⟩ := Option.map_eq_some_iff.mp hstep
  rw [Prod.mk.injEq] at heq
  obtain ⟨rfl, rfl⟩ := heq
  have hwritten := hserves'.written self.disk hrecoverable'.aof
  have hdisk : disk path = some (logBytes (entries ++ appended)) := by
    rw [← hwritten]
    split at hsaved
    . exact saveTo_of_ne hsaved hserves'.snapshotFile
    . cases hsaved
      rfl
  have hlog : (disk path).getD [] = logBytes (entries ++ appended) := by
    rw [hdisk]
    rfl
  have hself : self.log path = logBytes entries :=
    Option.some.inj (h.aof.symm.trans hrecoverable.aof)
  have hgrows : self.log path <+: (disk path).getD [] := by
    rw [hlog, hself, logBytes_append]
    exact List.prefix_append _ _
  refine ⟨?_, ?_, _, rfl, hagrees.2⟩
  . constructor
    . exact ⟨_, hrecoverable'⟩
    . exact hrecoverable'.aof.trans (congrArg some hlog.symm)
    . dsimp only
      split
      . rw [hserves'.syncAof _ hrecoverable'.aof, ← hlog]
        exact List.prefix_rfl
      . exact h.stable.trans hgrows
    . rintro running' ⟨⟩
      exact hserves'
  . constructor
    . exact hgrows
    . dsimp only
      split
      . left
        rw [hserves'.syncAof _ hrecoverable'.aof, ← hlog]
        rfl
      . next hquiet =>
        refine .inr ⟨rfl, ?_⟩
        intro halways
        have hpolicy := halways running hrunning
        have haof : (dispatch env tokens running.db).1.aof = running.db.aof := by
          by_contra hne
          exact hquiet ⟨hpolicy, hne⟩
        have hsame := hagrees.1.aof.symm.trans (haof.trans hserves.agrees.aof)
        rw [hrecoverable'.aof, hrecoverable.aof, ← hlog, ← hself] at hsame
        exact Option.some.inj hsame
    . intro _ halways
      rintro running' ⟨⟩
      exact halways running hrunning

/--
The other steps of a server that is up do not change what is in the log.
-/
theorem Follows.serve (h : Follows path self spec) (hrunning : self.running = some running)
    (hrequest : event.clientRequest = none)
    (hstep : serve json self running event = some (next, answer))
    : Follows path next spec ∧ LogStep path event self next ∧ answer = none := by
  have hserves := h.running running hrunning
  -- the file is as it was, and what is on stable storage is as it was or the whole file
  have hsame : next.log path = self.log path ∧ answer = none
      ∧ (next.stable path = next.log path ∨ next.stable path = self.stable path)
      ∧ ∀ running', next.running = some running' → running'.policy = running.policy
        ∧ Serves path running' spec := by
    cases event with
    | start config now envs => cases hstep
    | request env tokens => cases hrequest
    | backgroundSave env =>
      obtain ⟨disk, hsaved, heq⟩ := Option.map_eq_some_iff.mp hstep
      cases heq
      refine ⟨?_, rfl, .inr rfl, ?_⟩
      . exact congrArg (Option.getD · []) (saveTo_of_ne hsaved hserves.snapshotFile)
      . intro running' hrunning'
        cases hrunning.symm.trans hrunning'
        exact ⟨rfl, hserves⟩
    | sweep now =>
      cases hstep
      refine ⟨rfl, rfl, .inr rfl, ?_⟩
      rintro running' ⟨⟩
      refine ⟨rfl, hserves.aofFile, hserves.snapshotFile, ?_⟩
      obtain ⟨entries, hrecoverable⟩ := h.recoverable
      have hpermanent := hrecoverable.permanent
      rw [← hserves.agrees.store] at hpermanent
      exact ⟨(hpermanent.sweepExpired_eq now).trans hserves.agrees.store, hserves.agrees.aof,
        hserves.agrees.replaying⟩
    | flush now =>
      rw [Machine.serve, Option.ite_none_right_eq_some] at hstep
      obtain ⟨-, heq⟩ := hstep
      cases heq
      refine ⟨rfl, rfl, .inl (hserves.syncAof _ h.aof), ?_⟩
      intro running' hrunning'
      cases hrunning.symm.trans hrunning'
      exact ⟨rfl, hserves⟩
    | shutdown env =>
      obtain ⟨disk, hsaved, heq⟩ := Option.map_eq_some_iff.mp hstep
      cases heq
      have hlog : (disk path).getD [] = self.log path :=
        congrArg (Option.getD · []) (saveTo_of_ne hsaved hserves.snapshotFile)
      refine ⟨hlog, rfl, .inl ((hserves.syncAof _ h.aof).trans hlog.symm), ?_⟩
      rintro running' ⟨⟩
    | kill now =>
      cases hstep
      refine ⟨rfl, rfl, .inr rfl, ?_⟩
      rintro running' ⟨⟩
  obtain ⟨hlog, hanswer, hstable, hrunning'⟩ := hsame
  refine ⟨?_, ?_, hanswer⟩
  . constructor
    . exact h.recoverable
    . rw [hlog]
      exact h.aof
    . rcases hstable with hstable | hstable
      . rw [hstable]
      . rw [hstable, hlog]
        exact h.stable
    . intro running' hsome
      exact (hrunning' running' hsome).2
  . constructor
    . rw [hlog]
    . apply hstable.imp_right
      intro hstable
      exact ⟨hstable, fun _ => hlog⟩
    . intro _ halways running' hsome
      rw [(hrunning' running' hsome).1]
      exact halways running hrunning

/--
One step of the machine: it is a step of the server that is never restarted, or none.
-/
theorem Follows.step (h : Follows path self spec) (hevent : AppendOnly path event)
    (hstep : step json self event = some (next, answer))
    : Follows path next (answer.elim spec fun answer => (restless.call answer.1 spec).1)
        ∧ LogStep path event self next
        ∧ ∀ request reply, answer = some (request, reply) → FromKeyspace request.2
          → reply = (restless.call request spec).2 := by
  rcases step_cases hstep with ⟨running, uptime, hrunning, -, -, hserve⟩ | ⟨hdown, config, now, envs, rfl⟩
  . have hticked : Follows path { self with clock := event.now, uptime } spec :=
      ⟨h.recoverable, h.aof, h.stable, h.running⟩
    cases hrequest : event.clientRequest with
    | some request =>
      cases event with
      | request env tokens =>
        obtain ⟨hfollows, hlog, reply, rfl, hreply⟩ := hticked.request hrunning hevent hserve
        refine ⟨hfollows, ⟨hlog.grows, hlog.stable, hlog.always⟩, ?_⟩
        rintro request' reply' ⟨⟩
        exact hreply
      | _ => cases hrequest
    | none =>
      obtain ⟨hfollows, hlog, rfl⟩ := hticked.serve hrunning hrequest hserve
      refine ⟨hfollows, ⟨hlog.grows, hlog.stable, hlog.always⟩, ?_⟩
      rintro request' reply' ⟨⟩
  . obtain ⟨hfollows, hlog, rfl⟩ := h.start hdown hevent hstep
    refine ⟨hfollows, hlog, ?_⟩
    rintro request' reply' ⟨⟩

theorem refines_restless (json : SnapshotJson) (path : String)
    : Linearize.Refines (system json) restless (AppendOnly path) (Follows path)
        fun request reply reply' => FromKeyspace request.2 → reply = reply' := by
  constructor
  . intro self event next spec hevent h hstep
    exact (h.step hevent hstep).1
  . intro self event next request reply spec hevent h hstep
    obtain ⟨hfollows, -, hreply⟩ := h.step hevent hstep
    exact ⟨hfollows, hreply request reply rfl⟩

end

/-
A log in its default place. No snapshot is written in the runs below.
-/

def logged (appendfsync : String) : Config :=
  ⟨"dump.rdb.json", true, appendfsync, "appendonly.aof"⟩

def neverSaved : SnapshotJson := ⟨fun _ => .error "", fun _ => .error "", by intro _ _ h; cases h⟩

def startLogged (appendfsync : String) : MachineEvent :=
  .start (logged appendfsync) startOfClock fun _ => envAt startOfClock

theorem appendOnly_startLogged (appendfsync : String)
    : AppendOnly "appendonly.aof" (startLogged appendfsync) := by
  exact ⟨rfl, rfl, (by decide : "dump.rdb.json" ≠ "appendonly.aof")⟩

theorem loggable_of_parse {env : Env} {tokens : List String} (command : Command)
    (hreadable : Readable tokens) (hparse : Command.parse tokens = .ok command)
    (hdeadline : command.setsDeadline = false)
    : Loggable (env, tokens) := by
  refine ⟨hreadable, ?_⟩
  intro other hother
  rw [← Except.ok.inj (hparse.symm.trans hother)]
  exact hdeadline

theorem loggable_push (item : String) (hreadable : Readable ["RPUSH", "l", item])
    : Loggable (envAt startOfClock, ["RPUSH", "l", item]) := by
  apply loggable_of_parse (.rPush "l" [item]) hreadable
  . rfl
  . rfl

section

variable {json : SnapshotJson} {path : String} {disk : Disk} {events : List MachineEvent}
  {last : Machine} {answers : List ((Env × List String) × String)}

end

end Machine
end RedisClone
