import RedisClone.Keyspace.Remaining
import RedisClone.Machine.AppendOnly
import RedisClone.Traffic.AtKey

/-!
This module contains what becomes of a key in the restarts of a server that loads its snapshot. A deadline
is not saved, only the seconds until then are; so the time a server is down does not count, and each restart
cuts the remaining time to whole seconds.
-/

namespace RedisClone

open Store

variable {entry : Entry} {since now later : Instant} {spent starts : Nat} {found : Option Entry}
  {env : Env} {store : Store} {key : String} {tokens : List String} {db : Database}

theorem live_dispatch_of_leavesAlone (h : LeavesAlone key tokens)
    : live env.now (dispatch env tokens db).1.store key = live env.now db.store key := by
  rw [dispatch_eq_firstLock]
  dsimp only
  cases hleftover : (firstLock env tokens db).2.2 with
  | none => exact live_firstLock_of_leavesAlone h db
  | some leftover =>
    rw [Option.elim_some, live_finish]
    exact live_firstLock_of_leavesAlone h db

theorem Instant.checkedAdd_ofNat {secs : Nat}
    (h : now.nanos + secs * nanosPerSec < 2 ^ 63 * nanosPerSec)
    : now.checkedAdd (UInt64.ofNat secs) = some ⟨now.nanos + secs * nanosPerSec, h⟩ := by
  have hsecs : (UInt64.ofNat secs).toNat = secs := by
    have hlt : secs * nanosPerSec < 2 ^ 63 * nanosPerSec := by omega
    have := Nat.lt_of_mul_lt_mul_right hlt
    rw [UInt64.toNat_ofNat']
    omega
  unfold checkedAdd
  simp only [hsecs]
  exact dif_pos h

/--
What is found of an entry when the server was up for the given nanoseconds since, and was started the given
number of times: its remaining time has passed to the second for each start.
-/
def Entry.Aged (entry : Entry) (since : Instant) (spent starts : Nat) (now : Instant)
    (found : Option Entry) : Prop :=
  match entry.expiresAt with
  | none => found = some entry
  | some deadline =>
    let left := deadline.nanos - since.nanos
    match found with
    | some aged => aged.value = entry.value ∧ ∃ deadline', aged.expiresAt = some deadline'
      ∧ deadline'.nanos - now.nanos + spent ≤ left
      ∧ left ≤ deadline'.nanos - now.nanos + spent + starts * nanosPerSec
    | none => left ≤ spent + starts * nanosPerSec

theorem Value.Sound.weaken {member : String → Prop} {value : Value} (h : value.Sound member)
    : value.Sound fun _ => True := by
  cases value with
  | set inner => exact ⟨h.1, fun _ _ => trivial⟩
  | sortedSet zset => exact h
  | str _ | list _ | hash _ => trivial

/--
An entry without a deadline is loaded as it was saved.
-/
theorem loadEntry_of_permanent (hdeadline : entry.expiresAt = none)
    (hsound : entry.value.Sound fun _ => True) (halloc : entry.value.Allocatable)
    (hprint : entry.value.Printable)
    : Db.loadEntry now (Db.snapshotEntry env key entry) = entry := by
  have hvalue := Db.deserialize_serialize (env.order_perm (.value key)) hsound halloc hprint
  rcases entry with ⟨value, expiresAt⟩
  cases hdeadline
  exact congrArg₂ Entry.mk hvalue rfl

namespace Entry.Aged

theorem new : entry.Aged since 0 0 since (some entry) := by
  unfold Aged
  split
  . rfl
  . next deadline hdeadline =>
    refine ⟨rfl, deadline, hdeadline, ?_, ?_⟩
    . omega
    . omega

theorem wait (h : entry.Aged since spent starts now found) (hle : now ≤ later)
    : entry.Aged since (spent + (later.nanos - now.nanos)) starts later
        (found.filter (Entry.isLive later)) := by
  unfold Aged at h ⊢
  split
  . next hdeadline =>
    rw [hdeadline] at h
    rw [h]
    apply Option.filter_some_pos
    unfold Entry.isLive Entry.isExpired
    rw [hdeadline]
    rfl
  . next deadline hdeadline =>
    simp only [hdeadline] at h
    rw [Instant.le_def] at hle
    cases found with
    | none =>
      simp only at h
      simp only [Option.filter_none]
      omega
    | some aged =>
      obtain ⟨hvalue, deadline', hdeadline', hupper, hlower⟩ := h
      cases hlive : aged.isLive later with
      | true =>
        have hbefore : later.nanos < deadline'.nanos := by
          unfold Entry.isLive Entry.isExpired at hlive
          rw [hdeadline'] at hlive
          simp only [Bool.not_eq_true', decide_eq_false_iff_not] at hlive
          rw [Instant.le_def] at hlive
          omega
        rw [Option.filter_some_pos hlive]
        refine ⟨hvalue, deadline', hdeadline', ?_, ?_⟩
        . omega
        . omega
      | false =>
        have hafter : deadline'.nanos ≤ later.nanos := by
          unfold Entry.isLive Entry.isExpired at hlive
          rw [hdeadline'] at hlive
          simp only [Bool.not_eq_false', decide_eq_true_eq] at hlive
          exact hlive
        rw [Option.filter_some_neg (by simp [hlive])]
        dsimp only
        omega

/--
Saved at one time and loaded at another.
-/
theorem load (h : entry.Aged since spent starts env.now (live env.now store key))
    (hsound : entry.value.Sound fun _ => True) (halloc : entry.value.Allocatable)
    (hprint : entry.value.Printable)
    (hclock : ∀ deadline, entry.expiresAt = some deadline
      → now.nanos + (deadline.nanos - since.nanos) < 2 ^ 63 * nanosPerSec)
    : entry.Aged since spent (starts + 1) now
        (live now (Db.loadSnapshot now (Db.snapshot env store) ∅) key) := by
  have hvalue : ∀ aged : Entry, aged.value = entry.value
      → (Db.loadEntry now (Db.snapshotEntry env key aged)).value = entry.value := by
    intro aged heq
    exact Db.deserialize_serialize (env.order_perm _) (heq ▸ hsound) (heq ▸ halloc) (heq ▸ hprint)
      |>.trans heq
  have hloaded : live now (Db.loadSnapshot now (Db.snapshot env store) ∅) key
      = ((live env.now store key).map fun aged =>
          Db.loadEntry now (Db.snapshotEntry env key aged)).filter (Entry.isLive now) := by
    rw [← Db.getElem?_loadSnapshot env now store ∅ key]
    rfl
  rw [hloaded]
  unfold Aged at h ⊢
  split
  . next hdeadline =>
    rw [hdeadline] at h
    rw [h, Option.map_some, loadEntry_of_permanent hdeadline hsound halloc hprint]
    apply Option.filter_some_pos
    unfold Entry.isLive Entry.isExpired
    rw [hdeadline]
    rfl
  . next deadline hdeadline =>
    simp only [hdeadline] at h
    cases hlive : live env.now store key with
    | none =>
      simp only [hlive] at h
      simp only [Option.map_none, Option.filter_none]
      rw [Nat.add_one_mul]
      omega
    | some aged =>
      simp only [hlive] at h
      obtain ⟨heq, deadline', hdeadline', hupper, hlower⟩ := h
      -- the whole seconds that are left
      let secs := deadline'.secsSince env.now
      have hcut : secs * nanosPerSec ≤ deadline'.nanos - env.now.nanos
          ∧ deadline'.nanos - env.now.nanos < secs * nanosPerSec + nanosPerSec := by
        refine ⟨Nat.div_mul_le_self _ _, ?_⟩
        exact Nat.lt_div_mul_add (by decide)
      have hrange : now.nanos + secs * nanosPerSec < 2 ^ 63 * nanosPerSec := by
        have := hclock deadline hdeadline
        omega
      have hexpires : (Db.loadEntry now (Db.snapshotEntry env key aged)).expiresAt
          = some ⟨now.nanos + secs * nanosPerSec, hrange⟩ := by
        have hsecs : (Db.snapshotEntry env key aged).ttlSecs = some (UInt64.ofNat secs) := by
          simp only [Db.snapshotEntry, hdeadline']
          rfl
        rw [loadEntry_expiresAt hsecs]
        exact Instant.checkedAdd_ofNat hrange
      rw [Option.map_some]
      cases hstill : (Db.loadEntry now (Db.snapshotEntry env key aged)).isLive now with
      | true =>
        rw [Option.filter_some_pos hstill]
        refine ⟨hvalue aged heq, _, hexpires, ?_, ?_⟩
        . dsimp only
          omega
        . rw [Nat.add_one_mul]
          dsimp only
          omega
      | false =>
        have hzero : secs * nanosPerSec = 0 := by
          unfold Entry.isLive Entry.isExpired at hstill
          rw [hexpires] at hstill
          simp only [Bool.not_eq_false', decide_eq_true_eq, Instant.le_def] at hstill
          omega
        rw [Option.filter_some_neg (by simp [hstill]), Nat.add_one_mul]
        dsimp only
        omega

end Entry.Aged

namespace Machine

/--
What happens to a machine whose server always loads one snapshot file, is always shut down in an orderly way
with the snapshot saved, and serves requests that do not write to the key. The clock does not end before the
deadline.
-/
def Orderly (path key : String) (entry : Entry) (since : Instant) : MachineEvent → Prop
  | .start config now _ => config.appendonly = false ∧ config.snapshotFile = path
    ∧ ∀ deadline, entry.expiresAt = some deadline
      → now.nanos + (deadline.nanos - since.nanos) < 2 ^ 63 * nanosPerSec
  | .request _ tokens => LeavesAlone key tokens
  | .shutdown env => env.saveOutcome = .ok ()
  | .kill _ => False
  | _ => True

/--
What is found at a time, of an entry of the first machine.
-/
def Shows (entry : Entry) (first machine : Machine) (now : Instant) (store : Store) (key : String)
    : Prop :=
  entry.Aged first.clock (machine.uptime - first.uptime) (machine.starts - first.starts) now
    (live now store key)

/--
A key of the first machine in the store of the server, or in the snapshot while the server is down.
-/
structure Ages (json : SnapshotJson) (path key : String) (entry : Entry) (first machine : Machine)
    : Prop where
  uptime : first.uptime ≤ machine.uptime
  starts : first.starts ≤ machine.starts
  up : ∀ running, machine.running = some running → running.db.snapshotPath = some path
    ∧ Shows entry first machine machine.clock running.db.store key
  down : machine.running = none → ∃ env store bytes, machine.disk path = some bytes
    ∧ json.toVecPretty (Db.snapshot env store) = .ok bytes
    ∧ Shows entry first machine env.now store key

section

variable {json : SnapshotJson} {path : String} {first self next last : Machine} {running : Running}
  {event : MachineEvent} {answer : Option ((Env × List String) × String)}

theorem ok_of_toOption {result : Except String α} {value : α} (h : result.toOption = some value)
    : result = .ok value := by
  cases result with
  | error error => cases h
  | ok found =>
    cases h
    rfl

theorem saveTo_of_ok {disk disk' : Disk} (h : db.saveTo json env disk = some disk')
    (hpath : db.snapshotPath = some path) (houtcome : env.saveOutcome = .ok ())
    : ∃ bytes, json.toVecPretty (Db.snapshot env db.store) = .ok bytes
        ∧ disk' = Function.update disk path (some bytes) := by
  unfold Database.saveTo Database.save at h
  rw [hpath] at h
  simp only [houtcome] at h
  obtain ⟨bytes, hbytes, heq⟩ := Option.map_eq_some_iff.mp h
  exact ⟨bytes, ok_of_toOption hbytes, heq.symm⟩

/--
The server is up.
-/
theorem Ages.serve (h : Ages json path key entry first self) (hrunning : self.running = some running)
    (hclock : self.clock ≤ event.now) {uptime : Nat}
    (huptime : uptime = self.uptime + (event.now.nanos - self.clock.nanos))
    (hevent : Orderly path key entry first.clock event)
    (hserve : Machine.serve json { self with clock := event.now, uptime } running event
      = some (next, answer))
    : Ages json path key entry first next := by
  obtain ⟨hpath, hshows⟩ := h.up running hrunning
  have hspent : uptime - first.uptime
      = self.uptime - first.uptime + (event.now.nanos - self.clock.nanos) := by
    have := h.uptime
    omega
  -- the time since the last step has passed
  have haged : entry.Aged first.clock (uptime - first.uptime) (self.starts - first.starts) event.now
      (live event.now running.db.store key) := by
    rw [hspent, live_of_le hclock]
    exact hshows.wait hclock
  have hgrows : first.uptime ≤ uptime := by
    have := h.uptime
    omega
  have hup : ∀ (after : Machine) (running' : Running), after.running = some running'
      → after.uptime = uptime ∧ after.starts = self.starts ∧ after.clock = event.now
      → running'.db.snapshotPath = some path
      → live event.now running'.db.store key = live event.now running.db.store key
      → Ages json path key entry first after := by
    rintro after running' hafter ⟨huptime', hstarts', hclock'⟩ hpath' hlive'
    constructor
    . rw [huptime']
      exact hgrows
    . rw [hstarts']
      exact h.starts
    . intro running'' hrunning''
      cases hafter.symm.trans hrunning''
      refine ⟨hpath', ?_⟩
      unfold Shows
      rw [huptime', hstarts', hclock', hlive']
      exact haged
    . intro hdown
      rw [hafter] at hdown
      cases hdown
  cases event with
  | start config now envs => cases hserve
  | request env tokens =>
    obtain ⟨disk, -, heq⟩ := Option.map_eq_some_iff.mp hserve
    cases heq
    refine hup _ _ rfl ⟨rfl, rfl, rfl⟩ ?_ ?_
    . exact dispatch_snapshotPath.trans hpath
    . exact live_dispatch_of_leavesAlone hevent
  | backgroundSave env =>
    obtain ⟨disk, -, heq⟩ := Option.map_eq_some_iff.mp hserve
    cases heq
    exact hup _ running hrunning ⟨rfl, rfl, rfl⟩ hpath rfl
  | sweep now =>
    cases hserve
    refine hup _ _ rfl ⟨rfl, rfl, rfl⟩ ?_ ?_
    . exact hpath
    . exact (alike_purge key).symm
  | flush now =>
    rw [Machine.serve, Option.ite_none_right_eq_some] at hserve
    cases hserve.2
    exact hup _ running hrunning ⟨rfl, rfl, rfl⟩ hpath rfl
  | shutdown env =>
    obtain ⟨disk, hsaved, heq⟩ := Option.map_eq_some_iff.mp hserve
    cases heq
    obtain ⟨bytes, hbytes, rfl⟩ := saveTo_of_ok hsaved hpath hevent
    constructor
    . exact hgrows
    . exact h.starts
    . rintro running' ⟨⟩
    . intro _
      exact ⟨env, running.db.store, bytes, Function.update_self .., hbytes, haged⟩
  | kill now => exact hevent.elim

/--
The server is started.
-/
theorem Ages.start (h : Ages json path key entry first self) (hdown : self.running = none)
    (hsound : entry.value.Sound fun _ => True) (halloc : entry.value.Allocatable)
    (hprint : entry.value.Printable) {config : Config} {now : Instant} {envs : Nat → Env}
    (hevent : Orderly path key entry first.clock (.start config now envs))
    (hstep : step json self (.start config now envs) = some (next, answer))
    : Ages json path key entry first next := by
  obtain ⟨env, store, bytes, hdisk, hbytes, hshows⟩ := h.down hdown
  obtain ⟨hsnapshot, rfl, hclock⟩ := hevent
  simp only [step, hdown, initPersistence, hsnapshot, Bool.false_eq_true, if_false,
    Database.loadFrom, hdisk, json.round_trip _ _ hbytes, Except.map] at hstep
  cases hstep
  constructor
  . exact h.uptime
  . exact Nat.le_succ_of_le h.starts
  . rintro running' ⟨⟩
    refine ⟨rfl, ?_⟩
    have hstarts : self.starts + 1 - first.starts = self.starts - first.starts + 1 := by
      have := h.starts
      omega
    unfold Shows
    dsimp only
    rw [hstarts]
    exact hshows.load hsound halloc hprint hclock
  . intro hnone
    cases hnone

/-
The JSON text of a single snapshot.
-/

def only (known : Snapshot) (text : List UInt8) : SnapshotJson where
  toVecPretty snapshot := if snapshot = known then .ok text else .error "another snapshot"
  fromSlice bytes := if bytes = text then .ok known else .error "another file"
  round_trip := by
    intro snapshot bytes h
    split at h
    . next heq =>
      cases h
      rw [if_pos rfl, heq]
    . cases h

def oneKey (ttlSecs : Option UInt64) : Snapshot := ⟨[⟨"k", ttlSecs, .str "v"⟩]⟩

def oneKeyJson (ttl : String) : List UInt8 :=
  asBytes ("\x7b\n  \"entries\": [\n    \x7b\n      \"key\": \"k\",\n" ++ ttl
    ++ "      \"value\": \x7b\n        \"Str\": \"v\"\n      \x7d\n    \x7d\n  ]\n\x7d")

/--
A key that is not written to survives any number of orderly restarts with its value, and its remaining time
passes only while the server is up, to the second for each restart.
-/
theorem survives_restarts {running' : Running} {events : List MachineEvent}
    {answers : List ((Env × List String) × String)} (hreachable : Reachable running.db)
    (hrunning : first.running = some running) (hpath : running.db.snapshotPath = some path)
    (hlive : live first.clock running.db.store key = some entry)
    (halloc : entry.value.Allocatable) (hprint : entry.value.Printable)
    (hevents : ∀ event ∈ events, Orderly path key entry first.clock event)
    (hrun : (system json).run events first = some (last, answers))
    (hlast : last.running = some running')
    : entry.Aged first.clock (last.uptime - first.uptime) (last.starts - first.starts) last.clock
        (live last.clock running'.db.store key) := by
  have hsound := sound_of_reachable hreachable key entry (LiveMap.live_eq_some.mp hlive).1
  have hfirst : Ages json path key entry first first := by
    constructor
    . exact Nat.le_refl _
    . exact Nat.le_refl _
    . intro running' hrunning'
      cases hrunning.symm.trans hrunning'
      refine ⟨hpath, ?_⟩
      unfold Shows
      rw [Nat.sub_self, Nat.sub_self, hlive]
      exact Entry.Aged.new
    . intro hdown
      rw [hrunning] at hdown
      cases hdown
  have hages : Ages json path key entry first last := by
    refine Linearize.System.run_invariant ?_ hevents hfirst hrun
    intro self event next answer hevent h hstep
    rcases step_cases hstep with ⟨running, uptime, hrunning, hclock, huptime, hserve⟩ | ⟨hdown, hstart⟩
    . exact h.serve hrunning hclock huptime hevent hserve
    . obtain ⟨config, now, envs, rfl⟩ := hstart
      exact h.start hdown hsound halloc hprint hevent hstep
  exact (hages.up running' hlast).2

/--
A key with a deadline, saved half a second later, and loaded when another clock has come to one second.
-/
theorem survives_restarts_once
    : let oneSecond : Instant := ⟨nanosPerSec, by unfold nanosPerSec; omega⟩
      let entry : Entry := ⟨.str "v", deadlineAfter startOfClock 100⟩
      let config : Config := ⟨"dump.rdb.json", false, "everysec", "appendonly.aof"⟩
      let db := (dispatch (envAt startOfClock) ["SET", "k", "v", "EX", "100"]
        (.withPersistence startOfClock (some "dump.rdb.json") none)).1
      let first : Machine :=
        ⟨fun _ => none, fun _ => [], some ⟨config, none, db⟩, startOfClock, 0, 1⟩
      let json := only (oneKey (some 99)) (oneKeyJson "      \"ttl_secs\": 99,\n")
      let events := [.request (envAt startOfClock) ["GET", "k"], .shutdown (envAt halfSecond),
        .start config oneSecond fun _ => envAt oneSecond]
      ∃ last answers running, (system json).run events first = some (last, answers)
        ∧ last.running = some running
        ∧ entry.Aged first.clock (last.uptime - first.uptime) (last.starts - first.starts) last.clock
          (live last.clock running.db.store "k") := by
  intro oneSecond entry config db first json events
  have hstore : db.store = (∅ : Store).insert "k" entry := by
    have hparse : Command.parse ["SET", "k", "v", "EX", "100"] = .ok (.set "k" "v" (some 100)) := rfl
    simp only [db]
    rw [dispatch_of_parse_ok hparse, logOptional_store]
    simp [execute, Db.set, Database.withPersistence, entry, envAt]
  have hlive : live startOfClock db.store "k" = some entry := by
    apply LiveMap.live_eq_some.mpr
    rw [hstore]
    simp only [Std.ExtTreeMap.getElem?_insert_self, true_and]
    decide
  have hup : ((system json).run events first).any (fun last => last.1.running.isSome) = true := by
    decide +kernel
  obtain ⟨⟨last, answers⟩, hrun, hup⟩ := (Option.any_eq_true _ _).mp hup
  obtain ⟨running, hrunning⟩ := Option.isSome_iff_exists.mp hup
  have hpath : db.snapshotPath = some "dump.rdb.json" := dispatch_snapshotPath
  have hclock : (deadlineAfter startOfClock 100).all (fun deadline => decide
      (oneSecond.nanos + (deadline.nanos - startOfClock.nanos) < 2 ^ 63 * nanosPerSec)) = true := by
    decide
  refine ⟨last, answers, running, hrun, hrunning, survives_restarts (.dispatch _ _ .withPersistence)
    rfl hpath hlive trivial trivial ?_ hrun hrunning⟩
  simp only [events, List.forall_mem_cons, List.not_mem_nil, false_implies, implies_true, and_true]
  refine ⟨?_, rfl, rfl, rfl, ?_⟩
  . intro command hcommand
    cases hcommand
    exact ⟨by simp, .inl rfl⟩
  . intro deadline hdeadline
    dsimp only [entry] at hdeadline
    rw [hdeadline] at hclock
    simpa using hclock

theorem Follows.store_initPersistence {spec : Database} (h : Follows path self spec)
    (hdown : self.running = none) {config : Config} {envs : Nat → Env} {disk' : Disk}
    {policy : Option FsyncPolicy} (hconfig : AppendOnly path (.start config now envs))
    (hstart : initPersistence json config now envs self.disk = .ok (disk', db, policy))
    : db.store = spec.store := by
  have hstep : Machine.step json self (.start config now envs)
      = some ({ self with
          disk := disk', running := some ⟨config, policy, db⟩, clock := now,
          starts := self.starts + 1 }, none) := by
    simp only [Machine.step, hdown, hstart]
  exact ((h.start hdown hconfig hstep).1.running _ rfl).agrees.store

end

end Machine
end RedisClone
