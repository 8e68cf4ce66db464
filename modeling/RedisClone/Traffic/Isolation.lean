import RedisClone.Traffic.AtKey

/-!
This module contains the isolation of clients that share the server but not their keys: whatever the
others do, and whenever, a client gets the replies of a server of its own.
-/

namespace RedisClone

open Store
open LiveMap (AgreeOn)

/--
The store `store'`, with what `store` has at some keys.
-/
def Store.overlay (keys : List String) (store store' : Store) : Store :=
  keys.foldl (fun result key => LiveMap.put result key store[key]?) store'

theorem Store.getElem?_overlay (keys : List String) (store store' : Store) (key : String)
    : (overlay keys store store')[key]? = if key ∈ keys then store[key]? else store'[key]? := by
  unfold overlay
  induction keys generalizing store' with
  | nil => simp
  | cons first keys ih =>
    rw [List.foldl_cons, ih, LiveMap.getElem?_put]
    by_cases hmem : key ∈ keys
    . simp [hmem]
    . by_cases hfirst : first = key <;> simp [hmem, hfirst, Ne.symm]

variable {env : Env} {command : Command} {db db' : Database} {keys : List String}

/--
A command that names its keys depends on their live entries only, and changes no others.
-/
theorem execute_congr_of_named (hkeys : command.namedKeys = some keys)
    (h : ∀ key ∈ keys, live env.now db.store key = live env.now db'.store key)
    : command.SameReply (execute env command db).2 (execute env command db').2
        ∧ ∀ key ∈ keys, live env.now (execute env command db).1.store key
          = live env.now (execute env command db').1.store key := by
  let seen : Database := { db' with store := overlay keys db.store db'.store }
  have halike : seen.Alike env.now db' := by
    refine ⟨fun key => ?_, rfl⟩
    unfold live LiveMap.live
    rw [getElem?_overlay]
    split
    . next hmem => exact h key hmem
    . rfl
  have hagree : AgreeOn keys db.store seen.store := by
    intro key hmem
    rw [getElem?_overlay, if_pos hmem]
  obtain ⟨op, hlocal, hop⟩ := execute_local hkeys env
  have hexecute := execute_alike env.alike_refl halike command
  rw [hop seen] at hexecute
  rw [hop db]
  refine ⟨?_, fun key hmem => ?_⟩
  . have hresult := hlocal.result _ _ hagree
    rw [Database.run, hresult]
    exact hexecute.2
  . rw [← hexecute.1.store key]
    exact live_of_agreeOn (hlocal.effect _ _ hagree) hmem

/--
A request that names keys of a tenant only.
-/
def Within (mine : String → Prop) (tokens : List String) : Prop :=
  ∀ command, Command.parse tokens = .ok command
    → ∃ keys, command.namedKeys = some keys ∧ ∀ key ∈ keys, mine key

/--
A request that names no key of a tenant and does not clear the keyspace.
-/
def Spares (mine : String → Prop) (tokens : List String) : Prop :=
  ∀ command, Command.parse tokens = .ok command
    → command ≠ .flushAll ∧ ∀ key ∈ command.namedKeys.getD [], ¬ mine key

namespace Traffic

/--
A server of the tenant's own has the live entries of its keys.
-/
def Sees (mine : String → Prop) (traffic : Traffic) (db : Database) : Prop :=
  ∀ key, mine key → live traffic.clock traffic.db.store key = live traffic.clock db.store key

variable {mine : String → Prop} {tokens : List String}

/--
A request of the tenant is answered as by the tenant's own server.
-/
theorem sees_request (h : ∀ key, mine key → live env.now db.store key = live env.now db'.store key)
    (hwithin : Within mine tokens)
    : let locked := firstLock env tokens db
      (∀ key, mine key → live env.now locked.1.store key
          = live env.now (dispatch env tokens db').1.store key)
        ∧ SameReplyTo tokens locked.2.1 (dispatch env tokens db').2 := by
  cases hparse : Command.parse tokens with
  | error error =>
    obtain ⟨hlocked, hdb⟩ := firstLock_of_parse_error env db hparse db'
    rw [hlocked, hdb]
    refine ⟨h, ?_⟩
    simp [SameReplyTo, hparse]
  | ok command =>
    obtain ⟨keys, hkeys, hmine⟩ := hwithin command hparse
    obtain ⟨hfirst, hreply, -⟩ := firstLock_of_parse_ok env db hparse
    obtain ⟨hsame, hlive⟩ := execute_congr_of_named hkeys fun key hmem => h key (hmine key hmem)
    rw [dispatch_of_parse_ok hparse]
    constructor
    . intro key hkey
      dsimp only
      rw [logOptional_store, hfirst.store key]
      by_cases hmem : key ∈ keys
      . exact hlive key hmem
      . have hflush : command ≠ .flushAll := by
          rintro rfl
          cases hkeys
        have hnot : key ∉ command.namedKeys.getD [] := by
          rwa [hkeys]
        rw [live_execute_of_not_named hflush hnot, live_execute_of_not_named hflush hnot]
        exact h key hkey
    . simp only [SameReplyTo, hparse, hreply]
      exact hsame

/--
A tenant is the clients that `tenant` selects. Their requests stay within the tenant's keys, and those of
the others spare them.
-/
def Respects (tenant : Nat → Bool) (mine : String → Prop) (event : TrafficEvent) : Prop :=
  ∀ request, event.clientRequest = some request
    → if tenant request.client then Within mine request.tokens else Spares mine request.tokens

theorem refines_tenant (tenant : Nat → Bool)
    : Linearize.Refines (system.watch fun request => tenant request.client) sequential
        (Respects tenant mine) (Sees mine) fun request => SameReplyTo request.tokens := by
  apply refines_of_live fun (db : Database) now found =>
    ∀ key, mine key → found key = live now db.store key
  . intro db t t' found h hle key hmine
    dsimp only
    rw [h key hmine, live_of_le hle]
  . intro request served db hrespects hother h key hmine
    rw [if_neg (by simpa using hother)] at hrespects
    have halone : LeavesAlone key request.tokens := fun command hparse =>
      have hcommand := hrespects command hparse
      ⟨hcommand.1, .inr fun hmem => hcommand.2 key hmem hmine⟩
    exact (live_firstLock_of_leavesAlone halone served).trans (h key hmine)
  . intro request served db hrespects htenant h
    rw [if_pos htenant] at hrespects
    exact sees_request h hrespects

/--
Tenants are isolated. However the locks of all requests interleave, the clients that keep to keys no
other client names get the replies of a server that serves nobody else, and at their keys the keyspace is
that of this server.
-/
theorem tenants_isolated {tenant : Nat → Bool} {mine : String → Prop} {events : List TrafficEvent}
    {start : Instant} {db : Database} {last : Traffic} {answers : List (ClientRequest × String)}
    (hrespects : ∀ event ∈ events, Respects tenant mine event)
    (hrun : system.run events (new start db) = some (last, answers))
    : let requests := (events.filterMap TrafficEvent.clientRequest).filter fun request =>
        tenant request.client
      Linearize.SameAnswers (fun request => SameReplyTo request.tokens)
          (answers.filter fun answer => tenant answer.1.client) (sequential.answers requests db)
        ∧ ∀ key, mine key → live last.clock last.db.store key
          = live last.clock (sequential.after requests db).store key := by
  have ⟨hsees, hanswers⟩ :=
    (refines_tenant tenant).run_watch clientRequest_of_step hrespects (fun _ _ => rfl) hrun
  exact ⟨hanswers, hsees⟩

/--
Two clients that keep to one key each.
-/
theorem tenants_isolated_two
    : let env := envAt startOfClock
      let db := Database.new startOfClock
      let events := [.request 0 env ["SET", "a", "x"], .request 1 env ["LPUSH", "b", "y"],
        .finish 1 startOfClock, .finish 0 startOfClock, .request 0 env ["GET", "a"]]
      ∃ last answers, system.run events (new startOfClock db) = some (last, answers)
        ∧ let requests := (events.filterMap TrafficEvent.clientRequest).filter fun request =>
            request.client == 0
          Linearize.SameAnswers (fun request => SameReplyTo request.tokens)
              (answers.filter fun answer => answer.1.client == 0) (sequential.answers requests db)
            ∧ ∀ key, key = "a" → live last.clock last.db.store key
              = live last.clock (sequential.after requests db).store key := by
  intro env db events
  have hrespects : ∀ event ∈ events, Respects (· == 0) (· = "a") event := by
    simp only [events, List.forall_mem_cons, List.not_mem_nil, false_implies, implies_true, and_true]
    refine ⟨?_, ?_, ?_, ?_, ?_⟩
    all_goals
      intro request hrequest
      cases hrequest
    . intro command hcommand
      cases hcommand
      exact ⟨["a"], rfl, by simp⟩
    . intro command hcommand
      cases hcommand
      exact ⟨by simp, by simp [Command.namedKeys]⟩
    . intro command hcommand
      cases hcommand
      exact ⟨["a"], rfl, by simp⟩
  have hrun : (system.run events (new startOfClock db)).isSome = true := by
    decide
  obtain ⟨⟨last, answers⟩, hrun⟩ := Option.isSome_iff_exists.mp hrun
  exact ⟨last, answers, hrun, tenants_isolated hrespects hrun⟩

end Traffic
end RedisClone
