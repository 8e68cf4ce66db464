import RedisClone.Keyspace.Eviction
import RedisClone.Keyspace.Outlive
import RedisClone.Server.Recovery

/-!
This module contains what a replay at a later time keeps of a run in which keys expire. The log does not
say that they did, so in the replay they are still there, and a command that has created a key anew in
the run finds the old one.
-/

namespace RedisClone

open Store

/--
A run as far as it has come, and what has expired in it.
-/
structure Watch where
  now : Instant
  db : Database
  expired : Expired

namespace Watch

/--
What has expired once the clock reads `now`. Nothing has at the keys that are live.
-/
def wait (now : Instant) (self : Watch) : Expired := fun key =>
  match live self.now self.db.store key with
  | some entry => if entry.isExpired now then some entry.value.typeName else none
  | none => self.expired key

def serve (env : Env) (tokens : List String) (self : Watch) : Watch where
  now := env.now
  db := (dispatch env tokens self.db).1
  expired :=
    match Command.parse tokens with
    | .ok command => (self.wait env.now).after command
    | .error _ => self.wait env.now

/--
Whether a request creates a key anew that has expired.
-/
def revives (env : Env) (tokens : List String) (self : Watch) : Bool :=
  match Command.parse tokens with
  | .ok command => command.revives (self.wait env.now)
  | .error _ => false

end Watch

/--
No request of a run creates a key anew that has expired.
-/
def NeverRevives : List (Env × List String) → Watch → Prop
  | [], _ => True
  | (env, tokens) :: run, watch =>
    watch.revives env tokens = false ∧ NeverRevives run (watch.serve env tokens)

/--
The keys without a deadline that a run has left have the same values, and no deadline, after replaying
the file it has written.
-/
def PermanentKeysSurvive (now : Instant) (path : Option String) (run : List (Env × List String))
    (later : Instant) (envs : Nat → Env) : Prop :=
  let db := dispatchRun run (.withPersistence now path (some []))
  ∃ file, db.aof = some file
    ∧ ∀ key entry, db.store[key]? = some entry → entry.expiresAt = none
      → ∃ entry', live later (initAppendOnly later envs path file).store key = some entry'
        ∧ entry'.expiresAt = none ∧ entry'.value = entry.value

section

variable {now now' later : Instant} {store store₁ store' : Store} {expired : Expired}

theorem Outlives.wait {watch : Watch} (hle : watch.now ≤ now)
    (h : Outlives watch.now later watch.db.store store' watch.expired)
    : Outlives now later watch.db.store store' (watch.wait now) := by
  intro key
  have hkey := h key
  have hlater : live now watch.db.store key
      = (live watch.now watch.db.store key).filter (Entry.isLive now) :=
    LiveMap.live_later fun entry => isLive_of_le hle
  rw [hlater]
  unfold Watch.wait
  cases hfound : live watch.now watch.db.store key with
  | none =>
    rw [hfound] at hkey
    exact hkey
  | some entry =>
    rw [hfound] at hkey
    rcases hkey with ⟨entry', hentry', hvalue, hdeadline⟩
    rw [Option.filter_some]
    cases hexpired : entry.isExpired now with
    | false =>
      rw [if_pos (by simp [Entry.isLive, hexpired])]
      exact ⟨entry', hentry', hvalue, hdeadline⟩
    | true =>
      -- the replay still has it
      rw [if_neg (by simp [Entry.isLive, hexpired])]
      intro other hother
      rw [hentry'] at hother
      cases hother
      simp [hexpired, hvalue]

theorem Outlives.congr (h : Outlives now later store store' expired)
    (halike : Alike now store₁ store)
    : Outlives now later store₁ store' expired := by
  intro key
  have hkey : live now store₁ key = live now store key := halike key
  rw [hkey]
  exact h key

end

section

variable {env env' : Env} {command : Command} {tokens : List String} {db db' : Database}
  {expired : Expired}

theorem isSome_of_rename {source target : String}
    (hok : Reply.isError (execute env (.rename source target) db).2 = false)
    : (live env.now db.store source).isSome = true := by
  cases hsource : live env.now db.store source with
  | some entry => rfl
  | none =>
    simp only [execute, Database.run, Db.rename, liveEntry_eq, hsource] at hok
    simp [Reply.renamed] at hok

theorem after_of_logEntry_none (h : logEntry env command tokens db = none)
    : expired.after command = expired := by
  have hforgets : ∀ key, command.forgets key = false := by
    intro key
    cases command
    case set | mSet | flushAll => simp [logEntry, Command.isWrite, execute] at h
    case del names => simp [logEntry, Command.isWrite, execute, Database.run, Reply.number] at h
    case expire name seconds =>
      simp [logEntry, Command.isWrite, execute, Database.run, Reply.bit] at h
    all_goals rfl
  funext key
  unfold Expired.after
  rw [hforgets]
  rfl

/--
One request, in the run and in the replay.
-/
theorem logEntry_outlives {member : String → Prop} (hparse : Command.parse tokens = .ok command)
    (hsound : LiveMap.All (Entry.Sound member) db.store) (hle : env.now ≤ env'.now)
    (hrevives : command.revives expired = false)
    (h : Outlives env.now env'.now db.store db'.store expired)
    : match logEntry env command tokens db with
      | some entry => Outlives env.now env'.now (execute env command db).1.store
          (dispatch env' entry db').1.store (expired.after command)
      | none => Outlives env.now env'.now (execute env command db).1.store db'.store
          (expired.after command) := by
  have hsimulation := logEntry_simulation hparse (rfl : env.now = env.now) (rfl : env.now = env.now)
    hsound (fun _ => rfl : Alike env.now db.store db.store)
  cases hentry : logEntry env command tokens db with
  | none =>
    simp only [hentry] at hsimulation ⊢
    rw [after_of_logEntry_none hentry]
    exact h.congr hsimulation
  | some entry =>
    simp only [hentry] at hsimulation ⊢
    by_cases hpop : ∃ key, command = .sPop key
    . -- in the run, too, popping a member is removing it
      rcases hpop with ⟨key, rfl⟩
      rw [logEntry_spop] at hentry
      split at hentry
      . next member _ =>
        cases hentry
        rw [dispatch_of_parse_ok (parse_srem key member), logOptional_store] at hsimulation ⊢
        have hremoved := execute_outlives hle (rfl : (Command.sRem key [member]).isWrite = true)
          (fun _ _ h => nomatch h) rfl h
        exact Outlives.congr hremoved hsimulation
      . cases hentry
    . have hnot : ∀ key, command ≠ .sPop key := fun key heq => hpop ⟨key, heq⟩
      rw [logEntry_of_not_spop hnot] at hentry
      split at hentry
      . next hlogged =>
        cases hentry
        rw [Bool.and_eq_true, Bool.not_eq_true'] at hlogged
        rw [dispatch_of_parse_ok hparse, logOptional_store]
        apply execute_outlives hle hlogged.1 _ hrevives h
        rintro source target rfl
        exact isSome_of_rename hlogged.2
      . cases hentry

end

section

variable {env : Env} {tokens : List String} {db' : Database} {watch : Watch} {later : Instant}
  {envs : Nat → Env} {run : List (Env × List String)}

/--
Replaying what a request logs keeps up with the run.
-/
theorem loggedBy_outlives (hle : watch.now ≤ env.now) (hlater : env.now ≤ later)
    (henvs : ∀ i, (envs i).now = later)
    (hsound : LiveMap.All (Entry.Sound fun _ => True) watch.db.store)
    (hrevives : watch.revives env tokens = false)
    (h : Outlives watch.now later watch.db.store db'.store watch.expired)
    : Outlives env.now later (watch.serve env tokens).db.store
        (applyAll envs (loggedBy env tokens watch.db) db').store
        (watch.serve env tokens).expired := by
  have hwait := h.wait hle
  rcases command_or_rejected tokens with ⟨command, hparse⟩ | ⟨hrejected, hunchanged⟩
  . have hcommand : command.revives (watch.wait env.now) = false := by
      simpa [Watch.revives, hparse] using hrevives
    rw [← henvs 0] at hlater hwait
    have hstep := logEntry_outlives hparse hsound hlater hcommand hwait
    unfold Watch.serve
    rw [dispatch_of_parse_ok hparse, logOptional_store, loggedBy_of_parse_ok hparse, hparse]
    rw [henvs 0] at hstep
    cases hentry : logEntry env command tokens watch.db with
    | none =>
      rw [hentry] at hstep
      exact hstep
    | some entry =>
      rw [hentry] at hstep
      exact hstep
  . cases hparse : Command.parse tokens with
    | ok command => exact absurd hparse (hrejected command)
    | error error =>
      unfold Watch.serve
      rw [hunchanged, loggedBy_of_rejected hrejected, hparse]
      exact hwait

theorem loggedByRun_outlives
    (hclock : (watch.now :: run.map fun step => step.1.now).Pairwise (· ≤ ·))
    (hlater : ∀ step ∈ run, step.1.now ≤ later) (henvs : ∀ i, (envs i).now = later)
    (hsound : LiveMap.All (Entry.Sound fun _ => True) watch.db.store)
    (hrevives : NeverRevives run watch)
    (h : Outlives watch.now later watch.db.store db'.store watch.expired)
    : ∃ after : Watch, after.db = dispatchRun run watch.db
        ∧ Outlives after.now later after.db.store
            (applyAll envs (loggedByRun run watch.db) db').store after.expired := by
  induction run generalizing watch envs db' with
  | nil => exact ⟨watch, rfl, h⟩
  | cons step run ih =>
    rcases step with ⟨env, tokens⟩
    rw [List.map_cons, List.pairwise_cons] at hclock
    rw [List.forall_mem_cons] at hlater
    have hle : watch.now ≤ env.now := hclock.1 _ List.mem_cons_self
    have hstep := loggedBy_outlives hle hlater.1 henvs hsound hrevives.1 h
    rw [loggedByRun, applyAll_append]
    exact ih hclock.2 hlater.2 (fun i => henvs _) (dispatch_sound hsound fun _ _ => trivial)
      hrevives.2 hstep

end

def twoSeconds : Instant := ⟨2 * nanosPerSec, by decide⟩

/--
If no request creates a key anew that has expired, and the reader accepts what is logged, a replay at any
later time gives every key without a deadline back.
-/
theorem permanent_keys_survive (now later : Instant) (path : Option String)
    (run : List (Env × List String))
    (hclock : (now :: run.map fun step => step.1.now).Pairwise (· ≤ ·))
    (hlater : ∀ step ∈ run, step.1.now ≤ later)
    (hlogged : ∀ entry ∈ loggedByRun run (.withPersistence now path (some [])), Readable entry)
    (hrevives : NeverRevives run ⟨now, .withPersistence now path (some []), fun _ => none⟩)
    (envs : Nat → Env) (henvs : ∀ i, (envs i).now = later)
    : PermanentKeysSurvive now path run later envs := by
  let start : Watch := ⟨now, .withPersistence now path (some []), fun _ => none⟩
  let entries := loggedByRun run start.db
  let empty := (Database.withPersistence later path (some (logBytes entries))).beginReplay
  have hsound : LiveMap.All (Entry.Sound fun _ => True) start.db.store := LiveMap.all_empty
  have hempty : Outlives start.now later start.db.store empty.store start.expired := by
    intro name
    have hnone : ∀ now, live now (∅ : Store) name = none := fun now => LiveMap.live_empty
    show Restores (live now ∅ name) _ (live later ∅ name)
    rw [hnone, hnone]
    exact restores_none _
  rcases loggedByRun_outlives hclock hlater henvs hsound hrevives hempty
    with ⟨after, hdb, houtlives⟩
  have haof : (dispatchRun run start.db).aof = some ([] ++ logBytes entries) :=
    dispatchRun_appends rfl rfl
  refine ⟨logBytes entries, haof, ?_⟩
  intro key entry hentry hpermanent
  have hrestores := houtlives key
  have hlive : live after.now after.db.store key = some entry := by
    apply LiveMap.live_eq_some.mpr
    rw [hdb]
    refine ⟨hentry, ?_⟩
    unfold Entry.isLive Entry.isExpired
    rw [hpermanent]
    rfl
  rw [hlive] at hrestores
  rcases hrestores with ⟨entry', hentry', hvalue, hdeadline⟩
  rw [initAppendOnly_store envs path hlogged]
  exact ⟨entry', hentry', hdeadline hpermanent, hvalue⟩

/--
A key that expires and is set again, next to one that is deleted after it has expired.
-/
theorem permanent_keys_survive_set
    : let run := [(envAt startOfClock, ["SET", "k", "v", "EX", "1"]),
        (envAt startOfClock, ["SET", "j", "v", "EX", "1"]), (envAt twoSeconds, ["SET", "k", "w"]),
        (envAt twoSeconds, ["DEL", "j"]), (envAt twoSeconds, ["SETNX", "j", "w"])]
      PermanentKeysSurvive startOfClock none run twoSeconds fun _ => envAt twoSeconds := by
  intro run
  refine permanent_keys_survive startOfClock twoSeconds none run ?_ ?_ ?_ ?_ _ fun _ => rfl
  . decide
  . decide
  . decide +kernel
  . refine ⟨?_, ?_, ?_, ?_, ?_, trivial⟩
    all_goals decide +kernel

/--
`SETNX` creates a key anew that has expired; the replay does not, and the key keeps its old value and a
deadline.
-/
theorem permanent_key_lost
    : let run := [(envAt startOfClock, ["SET", "k", "v", "EX", "1"]),
        (envAt twoSeconds, ["SETNX", "k", "w"])]
      ¬ PermanentKeysSurvive startOfClock none run twoSeconds fun _ => envAt twoSeconds := by
  intro run
  let entries := [["SET", "k", "v", "EX", "1"], ["SETNX", "k", "w"]]
  rintro ⟨file, hfile, hsurvive⟩
  have haof : (dispatchRun run (.withPersistence startOfClock none (some []))).aof
      = some (logBytes entries) := by
    decide +kernel
  rw [haof] at hfile
  cases hfile
  have hreadable : ∀ entry ∈ entries, Readable entry := by
    decide +kernel
  have hrun : ((dispatchRun run (.withPersistence startOfClock none (some []))).store["k"]?).map
      Entry.expiresAt = some none := by
    decide +kernel
  rcases Option.map_eq_some_iff.mp hrun with ⟨entry, hentry, hpermanent⟩
  rcases hsurvive "k" entry hentry hpermanent with ⟨entry', hentry', hpermanent', -⟩
  rw [initAppendOnly_store _ none hreadable] at hentry'
  have hreplay : (live twoSeconds (applyAll (fun _ => envAt twoSeconds) entries
      (Database.withPersistence twoSeconds none (some (logBytes entries))).beginReplay).store
      "k").map Entry.expiresAt ≠ some none := by
    decide +kernel
  exact hreplay (Option.map_eq_some_iff.mpr ⟨entry', hentry', hpermanent'⟩)

end RedisClone
