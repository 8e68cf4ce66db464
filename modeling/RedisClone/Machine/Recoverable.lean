import RedisClone.Machine
import RedisClone.Server.AnyLog
import RedisClone.Server.Restart

/-!
This module contains databases whose log rebuilds their keyspace. Requests that set no deadline keep them
so, one entry for each request at most; and what a loss of power leaves of the log gives the keyspace as it
was between two requests.
-/

namespace RedisClone

open Store

/--
The log has these entries, and they rebuild the keyspace at any time.
-/
structure Recoverable (db : Database) (entries : List (List String)) : Prop where
  serving : db.replaying = false
  aof : db.aof = some (logBytes entries)
  nonempty : ∀ entry ∈ entries, entry ≠ []
  loggable : ∀ entry ∈ entries, Readable entry ∧ Timeless entry
  store : db.store = entries.foldl (effect (envAt startOfClock)) ∅

variable {db : Database} {entries : List (List String)} {env : Env} {tokens : List String}
  {command : Command} {input log : List UInt8} {requests : List (Env × List String)}

theorem recoverable_new (now : Instant) (path : Option String)
    : Recoverable (.withPersistence now path (some [])) [] where
  serving := rfl
  aof := rfl
  nonempty := by simp
  loggable := by simp
  store := rfl

namespace Recoverable

theorem readable (h : Recoverable db entries) : ∀ entry ∈ entries, Readable entry := by
  intro entry hmem
  exact (h.loggable entry hmem).1

theorem permanent (h : Recoverable db entries) : Permanent db.store := by
  rw [h.store]
  apply foldl_effect_permanent
  . intro entry hmem
    exact (h.loggable entry hmem).2
  . exact LiveMap.all_empty

/--
A log with the same entries in it gives the keyspace back, whatever is behind them.
-/
theorem store_initAppendOnly (h : Recoverable db entries) (hinput : requestsOf input = entries)
    (now : Instant) (envs : Nat → Env) (path : Option String)
    : (initAppendOnly now envs path input).store = db.store := by
  have hempty : Permanent (Database.withPersistence now path (some input)).beginReplay.store :=
    LiveMap.all_empty
  have htimeless : ∀ entry ∈ entries, Timeless entry := by
    intro entry hmem
    exact (h.loggable entry hmem).2
  unfold initAppendOnly
  rw [replayAof_eq, hinput, h.store]
  exact applyAll_eq_foldl htimeless hempty (envAt startOfClock) envs

theorem sound (h : Recoverable db entries) : LiveMap.All (Entry.Sound Fits) db.store := by
  have hstore := h.store_initAppendOnly (requestsOf_logBytes h.readable) startOfClock
    (fun _ => envAt startOfClock) none
  rw [← hstore, initAppendOnly_store _ _ h.readable]
  exact applyAll_sound _ (fun entry hmem => (h.readable entry hmem).bytes) LiveMap.all_empty

theorem dispatch (h : Recoverable db entries) (env : Env) (htokens : Readable tokens)
    (hdeadline : SetsNoDeadline tokens)
    : ∃ appended, appended.length ≤ 1
        ∧ Recoverable (dispatch env tokens db).1 (entries ++ appended) := by
  rcases loggedBy_replays env (envAt startOfClock) hdeadline h.sound h.permanent
    with ⟨-, htimeless, hstore⟩
  refine ⟨loggedBy env tokens db, length_loggedBy, ?_⟩
  constructor
  . exact dispatch_replaying.trans h.serving
  . rw [logBytes_append]
    exact dispatch_appends h.aof h.serving
  . refine List.forall_mem_append.mpr ⟨h.nonempty, ?_⟩
    intro entry hmem
    rcases mem_loggedBy.mp hmem with ⟨command, hparse, hentry⟩
    rcases loggedFor_of_logEntry hparse hentry with rfl | ⟨key, member, -, rfl⟩
    . rintro rfl
      cases hparse
    . exact List.cons_ne_nil _ _
  . refine List.forall_mem_append.mpr ⟨h.loggable, ?_⟩
    intro entry hmem
    refine ⟨?_, htimeless entry hmem⟩
    rcases mem_loggedBy.mp hmem with ⟨command, hparse, hentry⟩
    exact readable_of_logEntry hparse htokens h.sound hentry
  . rw [hstore, List.foldl_append, ← h.store]

end Recoverable

/-
What a loss of power leaves.
-/

/--
Requests that can be logged, and that set no deadline.
-/
def Loggable (request : Env × List String) : Prop := Readable request.2 ∧ SetsNoDeadline request.2

namespace Recoverable

theorem after (h : Recoverable db entries) (hrequests : ∀ request ∈ requests, Loggable request)
    : ∃ appended, Recoverable (restless.after requests db) (entries ++ appended) := by
  induction requests generalizing db entries with
  | nil => exact ⟨[], by rwa [List.append_nil]⟩
  | cons request requests ih =>
    rw [List.forall_mem_cons] at hrequests
    obtain ⟨appended, -, hnext⟩ := h.dispatch request.1 hrequests.1.1 hrequests.1.2
    obtain ⟨appended', hlast⟩ := ih hnext hrequests.2
    rw [List.append_assoc] at hlast
    exact ⟨appended ++ appended', hlast⟩

/--
An entry that has been cut off is not read.
-/
theorem requestsOf_torn {entry : List String} {torn : List UInt8} (hnonempty : entry ≠ [])
    (hreadable : Readable entry) (h : torn <+: asBytes (Resp.array entry))
    (hstrict : torn ≠ asBytes (Resp.array entry))
    : requestsOf torn = [] := by
  by_cases hempty : torn = []
  . rw [hempty]
    rfl
  . obtain ⟨error, herror⟩ := readRequest_torn hnonempty hreadable h hstrict hempty
    exact requestsOf_of_error herror

/--
What is left of the log after a loss of power gives the keyspace as it was after some of the requests: if
no more is lost than what the requests have appended, then only requests at the end are undone.
-/
theorem survives (h : Recoverable db entries) (hrequests : ∀ request ∈ requests, Loggable request)
    (hlog : (restless.after requests db).aof = some log) (hstable : logBytes entries <+: input)
    (hinput : input <+: log)
    : ∃ survived, survived <+: requests ∧ ∀ (now : Instant) (envs : Nat → Env) (path : Option String),
        (initAppendOnly now envs path input).store = (restless.after survived db).store := by
  induction requests generalizing db entries with
  | nil =>
    have heq : log = logBytes entries := by
      rw [Linearize.Object.after_nil, h.aof] at hlog
      exact (Option.some.inj hlog).symm
    have hinput : input = logBytes entries := by
      rw [heq] at hinput
      exact hinput.eq_of_length_le hstable.length_le
    refine ⟨[], List.prefix_rfl, ?_⟩
    intro now envs path
    apply h.store_initAppendOnly
    rw [hinput, requestsOf_logBytes h.readable]
  | cons request requests ih =>
    rw [List.forall_mem_cons] at hrequests
    obtain ⟨appended, hone, hnext⟩ := h.dispatch request.1 hrequests.1.1 hrequests.1.2
    have hlogged : logBytes (entries ++ appended) <+: log := by
      obtain ⟨later, hlast⟩ := hnext.after hrequests.2
      have haof := hlast.aof.symm.trans hlog
      rw [logBytes_append] at haof
      exact ⟨_, Option.some.inj haof⟩
    by_cases hwhole : logBytes (entries ++ appended) <+: input
    . obtain ⟨survived, hsurvived, hstore⟩ := ih hnext hrequests.2 hlog hwhole
      exact ⟨request :: survived, List.prefix_cons_inj request |>.mpr hsurvived, hstore⟩
    . -- the power was lost in the middle of what this request has appended
      refine ⟨[], List.nil_prefix, ?_⟩
      intro now envs path
      apply h.store_initAppendOnly
      have hcut : input <+: logBytes (entries ++ appended) :=
        (List.prefix_or_prefix_of_prefix hinput hlogged).resolve_right hwhole
      obtain ⟨torn, rfl⟩ := hstable
      rw [logBytes_append, List.prefix_append_right_inj] at hcut
      rw [logBytes_append, List.prefix_append_right_inj] at hwhole
      rw [requestsOf_logBytes_append h.readable]
      rcases appended with _ | ⟨entry, _ | ⟨other, appended⟩⟩
      . exact absurd List.nil_prefix hwhole
      . have hentry : logBytes [entry] = asBytes (Resp.array entry) := by
          simp [logBytes]
        rw [hentry] at hcut hwhole
        have hmem : entry ∈ entries ++ [entry] := by simp
        have hstrict : torn ≠ asBytes (Resp.array entry) := by
          rintro rfl
          exact hwhole List.prefix_rfl
        rw [requestsOf_torn (hnext.nonempty entry hmem) (hnext.readable entry hmem) hcut hstrict,
          List.append_nil]
      . simp at hone

end Recoverable
end RedisClone
