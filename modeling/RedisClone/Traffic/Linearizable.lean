import RedisClone.Traffic

/-!
This module contains the proof that the server is linearizable: whatever is interleaved between the
locks of the requests, every client gets the replies of a server that dispatches the requests one after
the other, in the order of their first locks.
-/

namespace RedisClone

open Store

theorem Store.alike_evictExpired (now : Instant) (key : String) (store : Store)
    : Alike now (evictExpired now key store) store := by
  intro other
  rw [evictExpired_eq]
  exact LiveMap.live_atKey_of_unchanged (f := fun found => (found, ())) rfl

theorem Database.Alike.trans {now : Instant} {db db' db'' : Database} (h : db.Alike now db')
    (h' : db'.Alike now db'') : db.Alike now db'' := by
  refine ⟨fun key => (h.store key).trans (h'.store key), ?_⟩
  rw [h'.frame, h.frame]

section

variable {env : Env} {command : Command} {tokens : List String} {db : Database}

/-
The append-only file does not matter to a command.
-/

theorem execute_withAof (aof : Option (List UInt8))
    : execute env command { db with aof }
        =
      ({ (execute env command db).1 with aof }, (execute env command db).2) := by
  cases command
  case zRange key start stop withScores => cases withScores <;> rfl
  case ping message => cases message <;> rfl
  case save =>
    have hsave : Database.save env { db with aof } = db.save env := rfl
    simp only [execute, hsave]
    split <;> rfl
  all_goals rfl

theorem logEntry_withAof (aof : Option (List UInt8))
    : logEntry env command tokens { db with aof } = logEntry env command tokens db := by
  by_cases hpops : ∃ key, command = .sPop key
  . obtain ⟨key, rfl⟩ := hpops
    rfl
  . have hpops : ∀ key, command ≠ .sPop key := fun key heq => hpops ⟨key, heq⟩
    rw [logEntry_of_not_spop hpops, logEntry_of_not_spop hpops, execute_withAof]

theorem firstLock_of_parse_error {error : CommandError} (env : Env) (db : Database)
    (h : Command.parse tokens = .error error) (db' : Database)
    : firstLock env tokens db = (db, (dispatch env tokens db').2, none)
        ∧ (dispatch env tokens db').1 = db' := by
  cases tokens with
  | nil => exact ⟨rfl, rfl⟩
  | cons name args =>
    rw [dispatch_of_parse_error (List.cons_ne_nil name args) h]
    refine ⟨?_, rfl⟩
    simp [firstLock, h]

theorem dispatch_withAof (env : Env) (hparse : Command.parse tokens = .ok command)
    (h : db.replaying = false) (aof : Option (List UInt8))
    : dispatch env tokens { db with aof }
        =
      let logged := (logEntry env command tokens db).elim aof fun entry => aof.map (Aof.append entry)
      ({ (execute env command db).1 with aof := logged }, (execute env command db).2) := by
  rw [dispatch_of_parse_ok hparse, execute_withAof, logEntry_withAof]
  cases logEntry env command tokens db with
  | none => rfl
  | some entry => simp [Database.logOptional, Database.logWrite, h]

/--
Up to the release of its first lock, a command has done all of its work on the live entries.
-/
theorem firstLock_of_parse_ok (env : Env) (db : Database)
    (hparse : Command.parse tokens = .ok command)
    : let locked := firstLock env tokens db
      Database.Alike env.now locked.1 (execute env command db).1
        ∧ locked.2.1 = (execute env command db).2
        ∧ locked.2.2.bind Leftover.entry = logEntry env command tokens db := by
  have hne : tokens ≠ [] := by
    rintro rfl
    cases hparse
  unfold firstLock
  rw [if_neg (by simpa using hne), hparse]
  dsimp only
  cases hread : command.entryRead env with
  | some read =>
    rw [execute_eq_halves hread, logEntry_of_entryRead hread]
    unfold EntryRead.halves
    dsimp only
    cases (read.peek env.now db.store).2 with
    | true => exact ⟨⟨fun key => (alike_evictExpired _ _ _ key).symm, rfl⟩, rfl, rfl⟩
    | false => exact ⟨⟨alike_refl, rfl⟩, rfl, rfl⟩
  | none =>
    refine ⟨⟨alike_refl, rfl⟩, rfl, ?_⟩
    cases logEntry env command tokens db <;> rfl

end

namespace Traffic

/--
The database `db`, at which the requests are dispatched one after the other, has the live entries of the
server; and what it has logged, the server has logged or will log, in some order.
-/
structure Follows (aof : Option (List UInt8)) (traffic : Traffic) (db : Database) : Prop where
  store : Alike traffic.clock traffic.db.store db.store
  frame : db = { traffic.db with store := db.store, aof := db.aof }
  serving : db.replaying = false
  log : ∃ written logged, traffic.db.aof = aof.map (· ++ logBytes written)
    ∧ db.aof = aof.map (· ++ logBytes logged) ∧ (written ++ traffic.unlogged).Perm logged

variable {aof : Option (List UInt8)} {traffic next : Traffic} {db : Database}

theorem logged_append (logged : List (List String)) (entry : Option (List String))
    : (entry.elim (aof.map (· ++ logBytes logged)) fun entry =>
        (aof.map (· ++ logBytes logged)).map (Aof.append entry))
        =
      aof.map (· ++ logBytes (logged ++ entry.toList)) := by
  cases entry with
  | none => simp
  | some entry => cases aof <;> simp [Aof.append, logBytes]

theorem follows_new (now : Instant) (h : db.replaying = false)
    : Follows db.aof (new now db) db := by
  refine ⟨alike_refl, rfl, h, [], [], ?_, ?_, .nil⟩
  . simp [new, logBytes]
  . simp [logBytes]

theorem unlogged_request (client : Nat) (leftover : Option Leftover) (now : Instant)
    (inFlight : List InFlight)
    : unlogged ⟨db, now, inFlight ++ (leftover.map (InFlight.mk client)).toList⟩
        =
      unlogged ⟨db, now, inFlight⟩ ++ (leftover.bind Leftover.entry).toList := by
  unfold unlogged
  rw [List.filterMap_append]
  congr 1
  cases leftover with
  | none => rfl
  | some leftover => cases leftover <;> rfl

/--
A request that takes its first lock is dispatched.
-/
theorem Follows.request {client : Nat} {env : Env} {tokens : List String}
    (h : Follows aof traffic db) (hclock : traffic.clock ≤ env.now)
    : let locked := firstLock env tokens traffic.db
      let inFlight := traffic.inFlight ++ (locked.2.2.map (InFlight.mk client)).toList
      Follows aof ⟨locked.1, env.now, inFlight⟩ (dispatch env tokens db).1
        ∧ SameReplyTo tokens locked.2.1 (dispatch env tokens db).2 := by
  have hlater : Alike env.now traffic.db.store db.store := h.store.later hclock
  cases hparse : Command.parse tokens with
  | error error =>
    obtain ⟨hlocked, hdb⟩ := firstLock_of_parse_error env traffic.db hparse db
    rw [hlocked, hdb]
    refine ⟨⟨hlater, h.frame, h.serving, ?_⟩, ?_⟩
    . simpa [unlogged] using h.log
    . simp [SameReplyTo, hparse]
  | ok command =>
    let seen : Database := { traffic.db with store := db.store }
    have hseen : { seen with aof := db.aof } = db := h.frame.symm
    have hserving : seen.replaying = false := by
      rw [← h.serving, ← hseen]
    have hdispatch := dispatch_withAof env hparse hserving db.aof
    rw [hseen] at hdispatch
    have halike : traffic.db.Alike env.now seen := ⟨hlater, rfl⟩
    have hexecute := execute_alike env.alike_refl halike command
    have hentry := logEntry_alike env.alike_refl halike command tokens
    obtain ⟨hfirst, hreply, hleftover⟩ := firstLock_of_parse_ok env traffic.db hparse
    have hlocked := hfirst.trans hexecute.1
    rw [hdispatch]
    refine ⟨⟨hlocked.store, ?_, execute_replaying.trans hserving, ?_⟩, ?_⟩
    . dsimp only
      rw [hlocked.frame]
    . obtain ⟨written, logged, hwritten, hlogged, hentries⟩ := h.log
      refine ⟨written, logged ++ (logEntry env command tokens seen).toList, ?_, ?_, ?_⟩
      . have haof : (firstLock env tokens traffic.db).1.aof = traffic.db.aof := by
          have hexecuted : (execute env command traffic.db).1.aof = traffic.db.aof := execute_aof
          rw [← hexecuted, hfirst.frame]
        exact haof.trans hwritten
      . rw [← logged_append, ← hlogged]
      . rw [unlogged_request, hleftover, hentry, ← List.append_assoc]
        exact hentries.append_right _
    . simp only [SameReplyTo, hparse, hreply]
      exact hexecute.2

/--
What is left of a request, and a round of the sweeper, nobody sees.
-/
theorem Follows.finish {request : InFlight} {now : Instant} {inFlight : List InFlight}
    (h : Follows aof traffic db) (hclock : traffic.clock ≤ now)
    (hperm : traffic.inFlight.Perm (request :: inFlight))
    : Follows aof ⟨request.leftover.finish now traffic.db, now, inFlight⟩ db := by
  obtain ⟨written, logged, hwritten, hlogged, hentries⟩ := h.log
  have hlater : Alike now traffic.db.store db.store := h.store.later hclock
  have hserving : traffic.db.replaying = false := by
    rw [← h.serving, h.frame]
  have hunlogged := hperm.filterMap fun request => request.leftover.entry
  cases hleftover : request.leftover with
  | evict key =>
    rw [List.filterMap_cons_none (by rw [hleftover]; rfl)] at hunlogged
    refine ⟨?_, h.frame, h.serving, written, logged, hwritten, hlogged, ?_⟩
    . intro other
      exact (alike_evictExpired now key traffic.db.store other).trans (hlater other)
    . exact (hunlogged.symm.append_left written).trans hentries
  | append entry =>
    rw [List.filterMap_cons_some (b := entry) (by rw [hleftover]; rfl)] at hunlogged
    have hfinish : (Leftover.append entry).finish now traffic.db
        = { traffic.db with aof := traffic.db.aof.map (Aof.append entry) } := by
      simp [Leftover.finish, Database.logWrite, hserving]
    rw [hfinish]
    refine ⟨hlater, h.frame, h.serving, written ++ [entry], logged, ?_, hlogged, ?_⟩
    . rw [hwritten]
      exact logged_append written (some entry)
    . rw [List.append_assoc]
      exact (hunlogged.symm.append_left written).trans hentries

theorem Follows.sweep {now : Instant} (h : Follows aof traffic db) (hclock : traffic.clock ≤ now)
    : let store := (Db.sweepExpired now traffic.db.store).1
      Follows aof { traffic with db := { traffic.db with store }, clock := now } db := by
  refine ⟨?_, h.frame, h.serving, h.log⟩
  intro key
  exact (alike_purge key).symm.trans (h.store.later hclock key)

theorem perm_eraseP_of_find? {p : InFlight → Bool} {requests : List InFlight} {request : InFlight}
    (h : requests.find? p = some request) : requests.Perm (request :: requests.eraseP p) := by
  rw [List.find?_eq_some_iff_append] at h
  obtain ⟨hp, before, behind, rfl, hbefore⟩ := h
  rw [List.eraseP_append_right _ (by simpa using hbefore), List.eraseP_cons_of_pos hp]
  exact List.perm_middle

/--
What a step can do.
-/
theorem step_cases {event : TrafficEvent} {answer : Option (ClientRequest × String)}
    (h : traffic.step event = some (next, answer))
    : traffic.clock ≤ event.now
        ∧
      match event with
      | .request client env tokens =>
        let locked := firstLock env tokens traffic.db
        next = ⟨locked.1, env.now,
            traffic.inFlight ++ (locked.2.2.map (InFlight.mk client)).toList⟩
          ∧ answer = some (⟨client, env, tokens⟩, locked.2.1)
      | .finish _ now =>
        ∃ request inFlight, traffic.inFlight.Perm (request :: inFlight)
          ∧ next = ⟨request.leftover.finish now traffic.db, now, inFlight⟩ ∧ answer = none
      | .sweep now =>
        let store := (Db.sweepExpired now traffic.db.store).1
        next = { traffic with db := { traffic.db with store }, clock := now } ∧ answer = none := by
  unfold step at h
  split at h
  . next hclock =>
    refine ⟨hclock, ?_⟩
    cases event with
    | request client env tokens =>
      dsimp only at h ⊢
      split at h
      . cases h
      . cases h
        exact ⟨rfl, rfl⟩
    | finish client now =>
      dsimp only at h ⊢
      split at h
      . next request hfind =>
        cases h
        exact ⟨request, _, perm_eraseP_of_find? hfind, rfl, rfl⟩
      . cases h
    | sweep now =>
      cases h
      exact ⟨rfl, rfl⟩
  . cases h

theorem clientRequest_of_step (traffic : Traffic) (event : TrafficEvent) (next : Traffic)
    (answer : Option (ClientRequest × String)) (h : system.step traffic event = some (next, answer))
    : answer.map Prod.fst = event.clientRequest := by
  obtain ⟨-, hcases⟩ := step_cases h
  cases event with
  | request client env tokens => rw [hcases.2]; rfl
  | finish client now =>
    obtain ⟨_, _, -, -, hanswer⟩ := hcases
    rw [hanswer]
    rfl
  | sweep now => rw [hcases.2]; rfl

theorem refines
    : Linearize.Refines system sequential (fun _ => True) (Follows aof)
        fun request reply reply' => SameReplyTo request.tokens reply reply' := by
  constructor
  . intro traffic event next db _ h hstep
    have ⟨hclock, hcases⟩ := step_cases hstep
    cases event with
    | request client env tokens => cases hcases.2
    | finish client now =>
      obtain ⟨request, inFlight, hperm, hnext, -⟩ := hcases
      rw [hnext]
      exact h.finish hclock hperm
    | sweep now =>
      rw [hcases.1]
      exact h.sweep hclock
  . intro traffic event next request reply db _ h hstep
    have ⟨hclock, hcases⟩ := step_cases hstep
    cases event with
    | request client env tokens =>
      obtain ⟨hnext, hanswer⟩ := hcases
      cases hanswer
      rw [hnext]
      exact h.request hclock
    | finish client now =>
      obtain ⟨_, _, -, -, hanswer⟩ := hcases
      cases hanswer
    | sweep now => cases hcases.2

/--
The server is linearizable. Whatever happens between the two locks of the requests, the clients get the
replies of a server that dispatches every request at once, in the order of their first locks; the keyspace
has the same live entries as there; and every entry logged there has been appended once or is waiting for
the lock of the file.
-/
theorem linearizable {events : List TrafficEvent} {start : Instant} {db : Database} {last : Traffic}
    {answers : List (ClientRequest × String)} (hserving : db.replaying = false)
    (hrun : system.run events (new start db) = some (last, answers))
    : let requests := events.filterMap TrafficEvent.clientRequest
      let spec := sequential.after requests db
      Linearize.SameAnswers (fun request => SameReplyTo request.tokens) answers
          (sequential.answers requests db)
        ∧ Alike last.clock last.db.store spec.store
        ∧ ∃ written logged, last.db.aof = db.aof.map (· ++ logBytes written)
          ∧ spec.aof = db.aof.map (· ++ logBytes logged)
          ∧ (written ++ last.unlogged).Perm logged := by
  have hrequests := system.map_fst_run TrafficEvent.clientRequest clientRequest_of_step hrun
  have ⟨hfollows, hanswers⟩ :=
    refines.run (fun _ _ => trivial) (follows_new start hserving) hrun
  rw [hrequests] at hfollows hanswers
  exact ⟨hanswers, hfollows.store, hfollows.log⟩

/--
A client finds a key expired; before it evicts the key, another client sets it again.
-/
theorem linearizable_expired
    : let later : Instant := ⟨2 * nanosPerSec, by unfold nanosPerSec; omega⟩
      let db := (dispatch (envAt startOfClock) ["SET", "k", "v", "EX", "1"] (.new startOfClock)).1
      let events := [.request 0 (envAt later) ["GET", "k"],
        .request 1 (envAt later) ["SET", "k", "w"], .finish 0 later,
        .request 2 (envAt later) ["GET", "k"]]
      ∃ last answers, system.run events (new startOfClock db) = some (last, answers)
        ∧ let requests := events.filterMap TrafficEvent.clientRequest
          let spec := sequential.after requests db
          Linearize.SameAnswers (fun request => SameReplyTo request.tokens) answers
              (sequential.answers requests db)
            ∧ Alike last.clock last.db.store spec.store
            ∧ ∃ written logged, last.db.aof = db.aof.map (· ++ logBytes written)
              ∧ spec.aof = db.aof.map (· ++ logBytes logged)
              ∧ (written ++ last.unlogged).Perm logged := by
  intro later db events
  have hrun : (system.run events (new startOfClock db)).isSome = true := by
    decide
  obtain ⟨⟨last, answers⟩, hrun⟩ := Option.isSome_iff_exists.mp hrun
  exact ⟨last, answers, hrun, linearizable rfl hrun⟩

end Traffic
end RedisClone
