import RedisClone.Keyspace.Remaining
import RedisClone.Traffic.AtKey

/-!
This module contains what a deadline means to the clients: an entry is there at all times before its
deadline and at no time from its deadline on, whoever reads it and whatever evicts it.
-/

namespace RedisClone

open Store

/--
A request that is a single read of the key.
-/
def isReadOf (env : Env) (key : String) (tokens : List String) : Bool :=
  match Command.parse tokens with
  | .ok command => (command.entryRead env).any fun read => read.key == key
  | .error _ => false

namespace Traffic

/--
An entry that is read until it expires.
-/
def fading : Linearize.Object Entry ClientRequest String where
  call request entry :=
    (entry,
      match Command.parse request.tokens with
      | .ok command =>
        match command.entryRead request.env with
        | some read => if entry.isLive request.env.now then read.read entry else read.absent
        | none => ""
      | .error _ => "")

variable {key : String} {entry : Entry}

theorem firstLock_read {env : Env} {tokens : List String} {command : Command} {read : EntryRead}
    (hparse : Command.parse tokens = .ok command) (hread : command.entryRead env = some read)
    (db : Database)
    : (firstLock env tokens db).2.1 = (live env.now db.store read.key).elim read.absent read.read
    := by
  have hne : tokens ≠ [] := by
    rintro rfl
    cases hparse
  unfold firstLock
  rw [if_neg (by simpa using hne), hparse]
  dsimp only
  rw [hread]
  simp only [EntryRead.peek, peekEntry]
  cases hentry : db.store[read.key]? with
  | none => simp [live_of_absent hentry]
  | some found =>
    cases hexpired : found.isExpired env.now with
    | true => simp [live_of_expired hentry hexpired, hexpired]
    | false => simp [live_of_not_expired hentry hexpired, hexpired]

def NeverWrites (key : String) (event : TrafficEvent) : Prop :=
  ∀ request, event.clientRequest = some request → LeavesAlone key request.tokens

theorem leavesAlone_of_isReadOf {env : Env} {tokens : List String}
    (h : isReadOf env key tokens = true) : LeavesAlone key tokens := by
  intro command hparse
  unfold isReadOf at h
  simp only [hparse, Option.any_eq_true] at h
  obtain ⟨read, hread, -⟩ := h
  cases command
  all_goals simp only [Command.entryRead, reduceCtorEq] at hread
  all_goals exact ⟨by simp, .inl rfl⟩

theorem standsFor_fading (key : String)
    : StandsFor fading key (fun request => isReadOf request.env key request.tokens)
        fun entry now found => found = (some entry).filter (Entry.isLive now) := by
  constructor
  . intro entry t t' found hfound hle
    rw [hfound]
    cases hlater : entry.isLive t' with
    | true => simp [Option.filter, hlater, isLive_of_le hle hlater]
    | false => cases hearlier : entry.isLive t <;> simp [Option.filter, hlater, hearlier]
  . intro request db entry hread hfound
    refine ⟨?_, ?_⟩
    . exact (live_firstLock_of_leavesAlone (leavesAlone_of_isReadOf hread) db).trans hfound
    . unfold isReadOf at hread
      cases hparse : Command.parse request.tokens with
      | error error =>
        rw [hparse] at hread
        cases hread
      | ok command =>
        simp only [hparse, Option.any_eq_true, beq_iff_eq] at hread
        obtain ⟨read, hread, hkey⟩ := hread
        rw [firstLock_read hparse hread, hkey, hfound]
        simp only [fading, hparse, hread]
        cases hlive : entry.isLive request.env.now <;> simp [Option.filter, hlive]

/--
A deadline is exact. While no request writes to a key, every read of it finds the entry before its
deadline and nothing from then on, whichever reads and sweeps have evicted the key or are about to.
-/
theorem deadline_exact {events : List TrafficEvent} {start : Instant} {db : Database}
    {last : Traffic} {answers : List (ClientRequest × String)}
    (hinitial : live start db.store key = some entry)
    (hnever : ∀ event ∈ events, NeverWrites key event)
    (hrun : system.run events (new start db) = some (last, answers))
    : let requests := (events.filterMap TrafficEvent.clientRequest).filter fun request =>
        isReadOf request.env key request.tokens
      (answers.filter fun answer => isReadOf answer.1.env key answer.1.tokens)
          = fading.answers requests entry
        ∧ live last.clock last.db.store key = (some entry).filter (Entry.isLive last.clock) := by
  have hlive : entry.isLive start = true := (LiveMap.live_eq_some.mp hinitial).2
  have hnew : live start db.store key = (some entry).filter (Entry.isLive start) := by
    rw [hinitial, Option.filter_some_pos hlive]
  have huses : ∀ event ∈ events, Uses (fun request => isReadOf request.env key request.tokens) key
      event := fun event hmem request hrequest => .inr (hnever event hmem request hrequest)
  have ⟨hanswers, hholds⟩ := (standsFor_fading key).run hnew huses hrun
  have hafter : ∀ requests, fading.after requests entry = entry := by
    intro requests
    induction requests with
    | nil => rfl
    | cons request requests ih => exact ih
  rw [hafter] at hholds
  exact ⟨hanswers, hholds⟩

/--
A key that is read before and after its deadline, and swept away in between.
-/
theorem deadline_exact_read
    : let later : Instant := ⟨3 * nanosPerSec, by unfold nanosPerSec; omega⟩
      let entry : Entry := ⟨.str "v", deadlineAfter startOfClock 1⟩
      let db := { Database.new startOfClock with store := (∅ : Store).insert "k" entry }
      let events := [.request 0 (envAt halfSecond) ["GET", "k"],
        .request 1 (envAt later) ["TTL", "k"], .sweep later, .finish 1 later,
        .request 0 (envAt later) ["GET", "k"]]
      ∃ last answers, system.run events (new startOfClock db) = some (last, answers)
        ∧ let requests := (events.filterMap TrafficEvent.clientRequest).filter fun request =>
            isReadOf request.env "k" request.tokens
          (answers.filter fun answer => isReadOf answer.1.env "k" answer.1.tokens)
              = fading.answers requests entry
            ∧ live last.clock last.db.store "k" = (some entry).filter (Entry.isLive last.clock) := by
  intro later entry db events
  have hnever : ∀ event ∈ events, NeverWrites "k" event := by
    simp only [events, List.forall_mem_cons, List.not_mem_nil, false_implies, implies_true,
      and_true]
    refine ⟨?_, ?_, ?_, ?_, ?_⟩
    all_goals
      intro request hrequest
      cases hrequest
    all_goals
      intro command hcommand
      cases hcommand
      exact ⟨by simp, .inl rfl⟩
  have hrun : (system.run events (new startOfClock db)).isSome = true := by
    decide
  obtain ⟨⟨last, answers⟩, hrun⟩ := Option.isSome_iff_exists.mp hrun
  have hinitial : live startOfClock db.store "k" = some entry := by
    apply LiveMap.live_eq_some.mpr
    simp only [db, Std.ExtTreeMap.getElem?_insert_self, true_and]
    decide
  exact ⟨last, answers, hrun, deadline_exact hinitial hnever hrun⟩

end Traffic
end RedisClone
