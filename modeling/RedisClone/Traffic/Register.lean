import RedisClone.Traffic.AtKey

/-!
This module contains what a string without a deadline is to the clients that share it: a register with
test-and-set. Any number of clients can use `SETNX` to agree on one of them.
-/

namespace RedisClone

open Store

/--
The key of a command on a register.
-/
def Command.registerKey : Command → Option String
  | .get key | .set key _ none | .setNx key _ | .getSet key _ | .append key _ | .strLen key =>
    some key
  | _ => none

/--
A command on a register, with its reply.
-/
def Command.onRegister (held : Option String) : Command → Option String × String
  | .get _ => (held, Reply.optional (.ok held))
  | .set _ value _ => (some value, Resp.simpleString "OK")
  | .setNx _ value => (some (held.getD value), Reply.bit held.isNone)
  | .getSet _ value => (some value, Reply.optional (.ok held))
  | .append _ value =>
    let text := held.getD "" ++ value
    (some text, Reply.number text.utf8ByteSize)
  | .strLen _ => (held, Reply.number ((held.map String.utf8ByteSize).getD 0))
  | _ => (held, "")

/--
What the keyspace holds for a register.
-/
def registerEntry (held : Option String) : Option Entry :=
  held.map fun value => { value := .str value, expiresAt := none }

variable {key : String} {command : Command} {held : Option String}

theorem filter_registerEntry (now : Instant) (held : Option String)
    : (registerEntry held).filter (Entry.isLive now) = registerEntry held := by
  cases held <;> rfl

/--
At a key that holds a register, a command does what it does to the register.
-/
theorem keyOp_onRegister (env : Env) (hregister : command.registerKey = some key)
    (held : Option String)
    : ∃ op, command.keyOp env = some (key, op)
        ∧ op (registerEntry held)
          = (registerEntry (command.onRegister held).1, (command.onRegister held).2) := by
  cases command
  case set name value seconds =>
    cases seconds with
    | none =>
      cases hregister
      exact ⟨_, rfl, rfl⟩
    | some seconds => cases hregister
  all_goals simp only [Command.registerKey, Option.some.injEq, reduceCtorEq] at hregister
  all_goals
    subst hregister
    refine ⟨_, rfl, ?_⟩
    cases held <;> rfl

namespace Traffic

def register : Linearize.Object (Option String) ClientRequest String :=
  commands fun _ => Command.onRegister

theorem standsFor_register (key : String)
    : StandsFor register key (isRequestOn Command.registerKey key)
        fun held _ found => found = registerEntry held := by
  apply standsFor_commands
  . intro held now
    exact filter_registerEntry now held
  . intro tokens command env held _ hkey
    exact keyOp_onRegister env hkey held

/--
A string is a linearizable register with test-and-set.
-/
theorem string_is_register {events : List TrafficEvent} {start : Instant} {db : Database}
    {last : Traffic} {answers : List (ClientRequest × String)}
    (hinitial : live start db.store key = registerEntry held)
    (huses : ∀ event ∈ events, Uses (isRequestOn Command.registerKey key) key event)
    (hrun : system.run events (new start db) = some (last, answers))
    : let requests := (events.filterMap TrafficEvent.clientRequest).filter
        (isRequestOn Command.registerKey key)
      (answers.filter fun answer => isRequestOn Command.registerKey key answer.1)
          = register.answers requests held
        ∧ live last.clock last.db.store key = registerEntry (register.after requests held) := by
  exact (standsFor_register key).run hinitial huses hrun

/-
Two clients that share a register.
-/

def sharing : List TrafficEvent :=
  [.request 0 (envAt startOfClock) ["SETNX", "leader", "a"],
    .request 1 (envAt startOfClock) ["SETNX", "leader", "b"], .finish 0 startOfClock,
    .request 2 (envAt startOfClock) ["INCR", "n"], .finish 1 startOfClock,
    .request 1 (envAt startOfClock) ["GET", "leader"]]

theorem sharing_uses
    : ∀ event ∈ sharing, Uses (isRequestOn Command.registerKey "leader") "leader" event := by
  simp only [sharing, List.forall_mem_cons, List.not_mem_nil, false_implies, implies_true, and_true]
  refine ⟨?_, ?_, ?_, ?_, ?_, ?_⟩
  all_goals
    intro request hrequest
    cases hrequest
  . left
    rfl
  . left
    rfl
  . right
    intro command hcommand
    cases hcommand
    exact ⟨by simp, .inr (by simp [Command.namedKeys])⟩
  . left
    rfl

theorem exists_run_sharing
    : ∃ last answers,
        system.run sharing (new startOfClock (.new startOfClock)) = some (last, answers) := by
  have hrun : (system.run sharing (new startOfClock (.new startOfClock))).isSome = true := by
    decide
  obtain ⟨⟨last, answers⟩, hrun⟩ := Option.isSome_iff_exists.mp hrun
  exact ⟨last, answers, hrun⟩

theorem string_is_register_sharing
    : ∃ last answers,
        system.run sharing (new startOfClock (.new startOfClock)) = some (last, answers)
          ∧ let requests := (sharing.filterMap TrafficEvent.clientRequest).filter
              (isRequestOn Command.registerKey "leader")
            (answers.filter fun answer => isRequestOn Command.registerKey "leader" answer.1)
                = register.answers requests none
              ∧ live last.clock last.db.store "leader"
                = registerEntry (register.after requests none) := by
  obtain ⟨last, answers, hrun⟩ := exists_run_sharing
  exact ⟨last, answers, hrun, string_is_register rfl sharing_uses hrun⟩

/-
Election by `SETNX`.
-/

/--
A request that stands for election, or asks who was elected.
-/
def Votes (request : ClientRequest) : Prop :=
  (∃ key value, Command.parse request.tokens = .ok (.setNx key value))
    ∨ ∃ key, Command.parse request.tokens = .ok (.get key)

/--
Once a value is elected, everybody who asks gets it and nobody else is elected.
-/
def Elected (value : String) (answer : ClientRequest × String) : Prop :=
  (∀ key, Command.parse answer.1.tokens = .ok (.get key) → answer.2 = Resp.bulkString value)
    ∧ ∀ key other, Command.parse answer.1.tokens = .ok (.setNx key other)
      → answer.2 = Resp.integer 0

/--
As long as nobody stands for election, everybody who asks gets nothing.
-/
def Undecided (answer : ClientRequest × String) : Prop :=
  (∃ key, Command.parse answer.1.tokens = .ok (.get key)) ∧ answer.2 = Resp.null

theorem register_elected {requests : List ClientRequest} (h : ∀ request ∈ requests, Votes request)
    (value : String)
    : register.after requests (some value) = some value
        ∧ ∀ answer ∈ register.answers requests (some value), Elected value answer := by
  induction requests with
  | nil => exact ⟨rfl, by simp [Linearize.Object.answers]⟩
  | cons request requests ih =>
    rw [List.forall_mem_cons] at h
    obtain ⟨hafter, hanswers⟩ := ih h.2
    have hcall : (register.call request (some value)).1 = some value
        ∧ Elected value (request, (register.call request (some value)).2) := by
      unfold Elected
      rcases h.1 with ⟨key, other, hparse⟩ | ⟨key, hparse⟩
      all_goals
        simp only [register, commands, hparse, Command.onRegister]
      . exact ⟨rfl, by simp, fun _ _ _ => rfl⟩
      . exact ⟨trivial, fun _ _ => rfl, by simp⟩
    rw [Linearize.Object.answers, Linearize.Object.after_cons, hcall.1, List.forall_mem_cons]
    exact ⟨hafter, hcall.2, hanswers⟩

theorem register_undecided {requests : List ClientRequest}
    (h : ∀ request ∈ requests, Votes request)
    : (register.after requests none = none
          ∧ ∀ answer ∈ register.answers requests none, Undecided answer)
        ∨ ∃ before winner key value after,
          register.answers requests none = before ++ (winner, Resp.integer 1) :: after
            ∧ Command.parse winner.tokens = .ok (.setNx key value)
            ∧ (∀ answer ∈ before, Undecided answer)
            ∧ (∀ answer ∈ after, Elected value answer)
            ∧ register.after requests none = some value := by
  induction requests with
  | nil => exact .inl ⟨rfl, by simp [Linearize.Object.answers]⟩
  | cons request requests ih =>
    rw [List.forall_mem_cons] at h
    rw [Linearize.Object.answers, Linearize.Object.after_cons]
    rcases h.1 with ⟨key, value, hparse⟩ | ⟨key, hparse⟩
    . have hcall : register.call request none = (some value, Resp.integer 1) := by
        simp only [register, commands, hparse, Command.onRegister]
        rfl
      obtain ⟨hafter, hanswers⟩ := register_elected h.2 value
      rw [hcall]
      exact .inr ⟨[], request, key, value, _, rfl, hparse, by simp, hanswers, hafter⟩
    . have hcall : register.call request none = (none, Resp.null) := by
        simp only [register, commands, hparse, Command.onRegister]
        rfl
      have hfirst : Undecided (request, Resp.null) := ⟨⟨key, hparse⟩, rfl⟩
      rw [hcall]
      rcases ih h.2 with ⟨hafter, hanswers⟩ | ⟨before, winner, name, value, after, hanswers, hrest⟩
      . left
        exact ⟨hafter, List.forall_mem_cons.mpr ⟨hfirst, hanswers⟩⟩
      . right
        refine ⟨(request, Resp.null) :: before, winner, name, value, after, ?_, hrest.1, ?_,
          hrest.2.2⟩
        . rw [hanswers]
          rfl
        . exact List.forall_mem_cons.mpr ⟨hfirst, hrest.2.1⟩

end Traffic
end RedisClone
