import RedisClone.Writes

/-!
This module contains the proof of when the order of the log does not matter to concurrent clients:
replaying it rebuilds the keyspace if no entry is appended ahead of one that was executed before it
and that it does not commute with.
-/

namespace RedisClone
namespace Writes

open Store

variable {env : Env} {self next : Writes} {client : Nat} {entry other : List String}

theorem commutingEntries_of_disjoint (h : DisjointEntries entry other)
    : CommutingEntries entry other := by
  intro env store _
  rcases h with ⟨command, command', keys, keys', hparse, hparse', -, -, hkeys, hkeys', hdisjoint⟩
  have hcommute := (execute_commute hkeys hkeys' hdisjoint env env
    { Database.new env.now with store }).2.2
  unfold effect
  simp only [dispatch_of_parse_ok hparse, dispatch_of_parse_ok hparse', logOptional_store]
  calc (execute env command'
          { Database.new env.now with
            store := (execute env command { Database.new env.now with store }).1.store }).1.store
    _ = (execute env command'
          (execute env command { Database.new env.now with store }).1).1.store :=
        execute_store_congr rfl
    _ = (execute env command
          (execute env command' { Database.new env.now with store }).1).1.store := by rw [hcommute]
    _ = (execute env command
          { Database.new env.now with
            store := (execute env command' { Database.new env.now with store }).1.store }).1.store :=
        execute_store_congr rfl

/--
The entries that the reader accepts and that can be replayed at any time.
-/
def Loggable (entry : List String) : Prop := Readable entry ∧ Timeless entry

/--
Replaying the file and then the entries in flight rebuilds the keyspace.
-/
structure Consistent (env : Env) (writes : Writes) : Prop where
  sound : LiveMap.All (Entry.Sound fun _ => True) writes.db.store
  permanent : Permanent writes.db.store
  replaying : writes.db.replaying = false
  unlogged : ∀ request ∈ writes.unlogged, Timeless request.entry
  log : ∃ entries, writes.db.aof = some (logBytes entries) ∧ (∀ entry ∈ entries, Loggable entry)
    ∧ WriteBehind.Replays (effect env) ∅ entries (writes.unlogged.map Unlogged.entry) writes.db.store

theorem consistent_new (env : Env) (now : Instant) (path : Option String)
    : Consistent env (new (.withPersistence now path (some []))) where
  sound := LiveMap.all_empty
  permanent := LiveMap.all_empty
  replaying := rfl
  unlogged := by simp [new]
  log := ⟨[], rfl, by simp, WriteBehind.replays_nil ∅⟩

theorem consistent_execute {client : Nat} {env' : Env} {tokens : List String}
    (h : Consistent env self) (hevent : TimelessRequest (.execute client env' tokens))
    (hstep : self.step (.execute client env' tokens) = some next)
    : Consistent env next := by
  unfold step at hstep
  dsimp only at hstep
  split at hstep
  . cases hstep
  . cases hparse : Command.parse tokens with
    | error error =>
      simp only [hparse, Option.some.injEq] at hstep
      rwa [← hstep]
    | ok command =>
      have hdeadline := hevent command hparse
      have hreplays := logEntry_replays env' hparse hdeadline h.sound h.permanent
      have hsound : LiveMap.All (Entry.Sound fun _ => True) (dispatch env' tokens self.db).1.store :=
        dispatch_sound h.sound fun _ _ => trivial
      rw [dispatch_of_parse_ok hparse, logOptional_store] at hsound
      rcases h.log with ⟨entries, haof, hentries, hlog⟩
      simp only [hparse] at hstep
      cases hentry : logEntry env' command tokens self.db with
      | none =>
        simp only [hentry, Option.some.injEq] at hstep hreplays
        subst hstep
        refine ⟨hsound, execute_permanent hdeadline h.permanent, ?_, h.unlogged, entries, ?_⟩
        . exact execute_replaying.trans h.replaying
        . refine ⟨execute_aof.trans haof, hentries, ?_⟩
          dsimp only
          rwa [hreplays]
      | some entry =>
        simp only [hentry, Option.some.injEq] at hstep hreplays
        subst hstep
        rcases hreplays with ⟨htimeless, heffect⟩
        refine ⟨hsound, execute_permanent hdeadline h.permanent, ?_, ?_, entries, ?_⟩
        . exact execute_replaying.trans h.replaying
        . intro request hmem
          rcases List.mem_append.mp hmem with hmem | hmem
          . exact h.unlogged request hmem
          . rw [List.mem_singleton.mp hmem]
            exact htimeless
        . refine ⟨execute_aof.trans haof, hentries, ?_⟩
          have hwait := hlog.wait entry
          have hstore : effect env self.db.store entry = (execute env' command self.db).1.store :=
            heffect env { Database.new env.now with store := self.db.store } rfl
          rw [hstore] at hwait
          simpa using hwait

theorem step_append (h : self.step (.append client) = some next)
    : ∃ request behind, self.unlogged = self.ahead client ++ request :: behind
        ∧ request.client = client
        ∧ next = ⟨self.db.logWrite request.entry, self.ahead client ++ behind⟩ := by
  unfold step at h
  dsimp only at h
  split at h
  . next request behind hdrop =>
    cases h
    refine ⟨request, behind, ?_, ?_, rfl⟩
    . unfold ahead
      rw [← hdrop, List.takeWhile_append_dropWhile]
    . have hhead := List.head?_dropWhile_not (fun request => request.client != client) self.unlogged
      rw [hdrop] at hhead
      simpa using hhead
  . cases h

theorem consistent_append (h : Consistent env self) (horder : self.InOrder (.append client))
    (hlimits : self.WithinLimits (.append client))
    (hstep : self.step (.append client) = some next)
    : Consistent env next := by
  rcases step_append hstep with ⟨request, behind, hunlogged, hclient, rfl⟩
  rcases h.log with ⟨entries, haof, hentries, hlog⟩
  have hmem : request ∈ self.unlogged := by
    rw [hunlogged]
    simp
  have hahead : ∀ other ∈ self.ahead client, other ∈ self.unlogged := by
    intro other hother
    rw [hunlogged]
    exact List.mem_append_left _ hother
  have hrequest : Loggable request.entry := ⟨hlimits request hmem hclient, h.unlogged request hmem⟩
  have hwrite : self.db.logWrite request.entry
      = { self.db with aof := some (logBytes (entries ++ [request.entry])) } := by
    have hreplaying : ¬ self.db.replaying = true := by
      rw [h.replaying]
      exact Bool.false_ne_true
    unfold Database.logWrite
    rw [if_neg hreplaying, haof, Option.map_some, append_eq_logBytes]
  have hkeep : ∀ store, ∀ entry ∈ entries ++ (self.ahead client).map Unlogged.entry,
      Permanent store → Permanent (effect env store entry) := by
    intro store entry hentry hpermanent
    rcases List.mem_append.mp hentry with hentry | hentry
    . exact (hentries entry hentry).2.effect_permanent hpermanent
    . rcases List.mem_map.mp hentry with ⟨other, hother, rfl⟩
      exact (h.unlogged other (hahead other hother)).effect_permanent hpermanent
  have hcommute : ∀ entry ∈ (self.ahead client).map Unlogged.entry,
      WriteBehind.Commute (effect env) Permanent request.entry entry := by
    intro entry hentry
    rcases List.mem_map.mp hentry with ⟨other, hother, rfl⟩
    exact horder request hmem hclient other hother env
  rw [hunlogged, List.map_append, List.map_cons] at hlog
  rw [hwrite]
  refine ⟨h.sound, h.permanent, h.replaying, ?_, entries ++ [request.entry], rfl, ?_, ?_⟩
  . intro other hother
    apply h.unlogged
    rw [hunlogged]
    rcases List.mem_append.mp hother with hother | hother
    . exact List.mem_append_left _ hother
    . exact List.mem_append_right _ (List.mem_cons_of_mem request hother)
  . intro entry hentry
    rcases List.mem_append.mp hentry with hentry | hentry
    . exact hentries entry hentry
    . rwa [List.mem_singleton.mp hentry]
  . rw [List.map_append]
    exact hlog.append hkeep hcommute LiveMap.all_empty

theorem step_consistent {event : WriteEvent} (h : Consistent env self)
    (hevent : TimelessRequest event) (horder : self.InOrder event)
    (hlimits : self.WithinLimits event) (hstep : self.step event = some next)
    : Consistent env next := by
  cases event with
  | execute client env' tokens => exact consistent_execute h hevent hstep
  | append client => exact consistent_append h horder hlimits hstep

theorem run_consistent {events : List WriteEvent} (h : Consistent env self)
    (hevents : ∀ event ∈ events, TimelessRequest event) (horder : AtEveryStep InOrder events self)
    (hlimits : AtEveryStep WithinLimits events self) (hrun : run events self = some next)
    : Consistent env next := by
  induction events generalizing self with
  | nil =>
    cases hrun
    exact h
  | cons event events ih =>
    rw [run, Option.bind_eq_some_iff] at hrun
    rcases hrun with ⟨middle, hstep, hrun⟩
    have hmiddle :=
      step_consistent h (hevents event List.mem_cons_self) horder.1 hlimits.1 hstep
    apply ih hmiddle
    . intro other hmem
      exact hevents other (List.mem_cons_of_mem event hmem)
    . exact horder.2 middle hstep
    . exact hlimits.2 middle hstep
    . exact hrun

/--
If the order is kept, and the entries are within the limits of the reader, then once no request is in
flight, replaying the file at any time rebuilds the keyspace.
-/
theorem log_rebuilds (now : Instant) (path : Option String) (events : List WriteEvent)
    (hevents : ∀ event ∈ events, TimelessRequest event)
    (horder : AtEveryStep InOrder events (new (.withPersistence now path (some []))))
    (hlimits : AtEveryStep WithinLimits events (new (.withPersistence now path (some []))))
    {writes : Writes} (hrun : run events (new (.withPersistence now path (some []))) = some writes)
    (hidle : writes.unlogged = [])
    : ∃ file, writes.db.aof = some file
        ∧ ∀ later envs path', (initAppendOnly later envs path' file).store = writes.db.store := by
  let env := envAt now
  have hconsistent := run_consistent (consistent_new env now path) hevents horder hlimits hrun
  rcases hconsistent.log with ⟨entries, haof, hentries, hlog⟩
  refine ⟨_, haof, ?_⟩
  intro later envs path'
  rw [hidle, List.map_nil] at hlog
  rw [initAppendOnly_store envs path' fun entry hmem => (hentries entry hmem).1]
  let empty := (Database.withPersistence later path' (some (logBytes entries))).beginReplay
  have hempty : Permanent empty.store := LiveMap.all_empty
  rw [applyAll_eq_foldl (fun entry hmem => (hentries entry hmem).2) hempty env]
  exact hlog.settled

/-
Two clients whose appends overtake each other.
-/

def overtaking (first second : List String) : List WriteEvent :=
  let env := envAt startOfClock
  [.execute 1 env first, .execute 2 env second, .append 2, .append 1]

def started : Writes := new (.withPersistence startOfClock none (some []))

theorem timeless_set (key value : String) (client : Nat) (env : Env)
    : TimelessRequest (.execute client env ["SET", key, value]) := by
  intro command hparse
  have hset : Command.parse ["SET", key, value] = .ok (.set key value none) := by rfl
  rw [hset] at hparse
  cases hparse
  rfl

theorem timeless_overtaking {first second : List String}
    (hfirst : ∀ client env, TimelessRequest (.execute client env first))
    (hsecond : ∀ client env, TimelessRequest (.execute client env second))
    : ∀ event ∈ overtaking first second, TimelessRequest event := by
  intro event hmem
  simp only [overtaking, List.mem_cons, List.not_mem_nil, or_false] at hmem
  rcases hmem with rfl | rfl | rfl | rfl
  . exact hfirst 1 _
  . exact hsecond 2 _
  . trivial
  . trivial

theorem log_rebuilds_disjoint
    : ∃ writes, run (overtaking ["SET", "a", "1"] ["SET", "b", "2"]) started = some writes
        ∧ ∃ file, writes.db.aof = some file
          ∧ ∀ later envs path', (initAppendOnly later envs path' file).store = writes.db.store := by
  have hdisjoint : DisjointEntries ["SET", "b", "2"] ["SET", "a", "1"] := by
    exact ⟨.set "b" "2" none, .set "a" "1" none, ["b"], ["a"], rfl, rfl, rfl, rfl, rfl, rfl, by simp⟩
  refine ⟨_, rfl, ?_⟩
  refine log_rebuilds startOfClock none (overtaking ["SET", "a", "1"] ["SET", "b", "2"])
    ?_ ?_ ?_ rfl rfl
  . exact timeless_overtaking (timeless_set "a" "1") (timeless_set "b" "2")
  . refine ⟨trivial, ?_⟩
    rintro next ⟨⟩
    refine ⟨trivial, ?_⟩
    rintro next ⟨⟩
    constructor
    . -- The second client overtakes the first.
      intro request hmem hclient other hother
      have hrequest : request ∈ [⟨1, ["SET", "a", "1"]⟩, ⟨2, ["SET", "b", "2"]⟩] := hmem
      have hfirst : other ∈ [⟨1, ["SET", "a", "1"]⟩] := hother
      simp only [List.mem_cons, List.not_mem_nil, or_false] at hrequest hfirst
      rcases hrequest with rfl | rfl
      . cases hclient
      . rw [hfirst]
        exact commutingEntries_of_disjoint hdisjoint
    . rintro next ⟨⟩
      constructor
      . intro request hmem hclient other hother
        have hnone : other ∈ [] := hother
        cases hnone
      . rintro next ⟨⟩
        trivial
  . have hreadable : Readable ["SET", "a", "1"] ∧ Readable ["SET", "b", "2"] := by
      decide +kernel
    refine ⟨trivial, ?_⟩
    rintro next ⟨⟩
    refine ⟨trivial, ?_⟩
    rintro next ⟨⟩
    constructor
    . intro request hmem hclient
      have hrequest : request ∈ [⟨1, ["SET", "a", "1"]⟩, ⟨2, ["SET", "b", "2"]⟩] := hmem
      simp only [List.mem_cons, List.not_mem_nil, or_false] at hrequest
      rcases hrequest with rfl | rfl
      . exact hreadable.1
      . exact hreadable.2
    . rintro next ⟨⟩
      constructor
      . intro request hmem hclient
        have hrequest : request ∈ [⟨1, ["SET", "a", "1"]⟩] := hmem
        rw [List.mem_singleton.mp hrequest]
        exact hreadable.1
      . rintro next ⟨⟩
        trivial

/--
Writes to the same key, logged in the other order: the replayed file has the older value.
-/
theorem log_out_of_order
    : let events := overtaking ["SET", "k", "a"] ["SET", "k", "b"]
      ∃ writes file, (∀ event ∈ events, TimelessRequest event)
        ∧ run events started = some writes ∧ writes.unlogged = [] ∧ writes.db.aof = some file
        ∧ ∀ later envs path',
          (writes.db.store["k"]?).map Entry.value = some (.str "b")
            ∧ ((initAppendOnly later envs path' file).store["k"]?).map Entry.value
              = some (.str "a") := by
  refine ⟨_, _, ?_, rfl, rfl, rfl, ?_⟩
  . exact timeless_overtaking (timeless_set "k" "a") (timeless_set "k" "b")
  . intro later envs path'
    exact ⟨rfl, rfl⟩

end Writes
end RedisClone
