import RedisClone.Session.Framing

/-!
This module contains the proof that subscribe mode and transactions exclude each other, and that each
mode keeps its hands off what belongs to the other one.
-/

namespace RedisClone
namespace Session

/--
The states of a session over any run of its requests. Other connections may do anything to the
database in between.
-/
inductive Reachable : Session → Prop where
  | new (db : Database) : Reachable (Session.new db).1
  | handle (session : Session) (envs : Nat → Env) (tokens : List String) (db : Database)
    : Reachable session → Reachable (session.handle envs tokens db).1

/--
Subscribe mode and an open transaction exclude each other.
-/
def Exclusive (session : Session) : Prop :=
  session.isSubscribed = true → session.transaction = none

/--
What a `SUBSCRIBE` or `UNSUBSCRIBE` does to the set of channels for each of its targets.
-/
def changeOf (kind : String) (channels : Std.ExtTreeSet String) (channel : String)
    : Std.ExtTreeSet String :=
  if kind = "subscribe" then channels.insert channel else channels.erase channel

/--
The confirmations of the targets in order, each with the size of the set after its step.
-/
def confirmations (kind : String) : List String → Std.ExtTreeSet String → List String
  | [], _ => []
  | target :: targets, channels =>
    subscriptionReply kind target (changeOf kind channels target).size
      :: confirmations kind targets (changeOf kind channels target)

variable {session : Session} {db : Database} {tokens : List String} {envs : Nat → Env}
  {kind : String}

theorem insert_of_contains {channels : Std.ExtTreeSet String} {channel : String}
    (h : channels.contains channel = true)
    : channels.insert channel = channels := by
  apply Std.ExtTreeSet.ext_mem
  intro other
  rw [Std.ExtTreeSet.mem_insert, Std.LawfulEqCmp.compare_eq_iff_eq]
  constructor
  . rintro (rfl | hmem)
    . exact Std.ExtTreeSet.contains_iff_mem.mp h
    . exact hmem
  . exact .inr

theorem erase_of_not_contains {channels : Std.ExtTreeSet String} {channel : String}
    (h : ¬ channels.contains channel = true)
    : channels.erase channel = channels := by
  apply Std.ExtTreeSet.ext_mem
  intro other
  rw [Std.ExtTreeSet.mem_erase, ne_eq, Std.LawfulEqCmp.compare_eq_iff_eq]
  constructor
  . exact And.right
  . intro hmem
    refine ⟨?_, hmem⟩
    rintro rfl
    exact h (Std.ExtTreeSet.contains_iff_mem.mpr hmem)

theorem oneOf_session (hkind : kind = "subscribe" ∨ kind = "unsubscribe") (channel : String)
    (session : Session) (db : Database)
    : (oneOf kind channel session db).1
        =
      { session with channels := changeOf kind session.channels channel } := by
  rcases hkind with rfl | rfl
  . simp only [oneOf, if_true, subscribeOne, changeOf]
    split
    . next h => rw [insert_of_contains h]
    . rfl
  . simp only [oneOf, unsubscribeOne, changeOf, String.reduceEq, if_false]
    split
    . rfl
    . next h => rw [erase_of_not_contains h]

theorem oneOf_db (hkind : kind = "subscribe" ∨ kind = "unsubscribe") (channel : String)
    (session : Session) (db : Database)
    : (oneOf kind channel session db).2.1
        =
      { db with pubsub := (oneOf kind channel session db).2.1.pubsub } := by
  rcases hkind with rfl | rfl
  . simp only [oneOf, if_true, subscribeOne]
    split <;> rfl
  . simp only [oneOf, unsubscribeOne, String.reduceEq, if_false]
    split <;> rfl

/--
The loop over the targets changes the set and the registry, and replies with the confirmations.
-/
theorem foldl_oneOf (hkind : kind = "subscribe" ∨ kind = "unsubscribe") (targets : List String)
    (session : Session) (db : Database) (reply : String)
    : ∃ pubsub, targets.foldl
          (fun (session, db, reply) channel =>
            let (session, db, confirmation) := oneOf kind channel session db
            (session, db, reply ++ confirmation))
          (session, db, reply)
        =
      ({ session with channels := targets.foldl (changeOf kind) session.channels },
        { db with pubsub }, reply ++ String.join (confirmations kind targets session.channels)) := by
  induction targets generalizing session db reply with
  | nil => exact ⟨db.pubsub, by simp [confirmations]⟩
  | cons target targets ih =>
    rcases ih (oneOf kind target session db).1 (oneOf kind target session db).2.1
      (reply ++ (oneOf kind target session db).2.2) with ⟨pubsub, hrest⟩
    refine ⟨pubsub, ?_⟩
    rw [List.foldl_cons, List.foldl_cons]
    dsimp only
    rw [hrest, oneOf_db hkind, oneOf_reply hkind, oneOf_session hkind, confirmations,
      String.join_cons, String.append_assoc]

theorem handle_of_confirms_eq {targets : List String}
    (h : confirms (envs 0) session tokens = some (kind, targets)) (db : Database)
    : ∃ pubsub, session.handle envs tokens db
        =
      ({ session with channels := targets.foldl (changeOf kind) session.channels },
        { db with pubsub }, String.join (confirmations kind targets session.channels)) := by
  rcases handle_of_confirms h db with ⟨-, hkind, heq⟩
  rcases foldl_oneOf hkind targets session db "" with ⟨pubsub, hfold⟩
  rw [String.empty_append] at hfold
  refine ⟨pubsub, ?_⟩
  rw [heq]
  exact hfold

theorem dispatch_ping {first : String} (hname : toAsciiUppercase first = "PING") (env : Env)
    (args : List String) (db : Database)
    : (dispatch env (first :: args) db).1 = db := by
  have hparse : Command.parse (first :: args) = Command.parseNamed first "PING" args := by
    rw [← hname]
    rfl
  cases hcommand : Command.parse (first :: args) with
  | error error => rw [dispatch_of_parse_error (List.cons_ne_nil first args) hcommand]
  | ok command =>
    have hping : ∃ message, command = .ping message := by
      rw [hparse] at hcommand
      unfold Command.parseNamed at hcommand
      simp only at hcommand
      split at hcommand
      . cases hcommand
        exact ⟨_, rfl⟩
      . cases hcommand
        exact ⟨_, rfl⟩
      . cases hcommand
    rcases hping with ⟨message, rfl⟩
    rw [dispatch_of_parse_ok hcommand]
    cases message <;> rfl

/-
What the requests do that confirm nothing.
-/

@[simp]
theorem channels_beginMulti (session : Session) : session.beginMulti.1.channels = session.channels := by
  unfold beginMulti
  split <;> rfl

@[simp]
theorem channels_discard (session : Session) : session.discard.1.channels = session.channels := by
  unfold discard
  split <;> rfl

@[simp]
theorem channels_exec (envs : Nat → Env) (session : Session) (db : Database)
    : (session.exec envs db).1.channels = session.channels := by
  unfold exec
  split
  . rfl
  . dsimp only
    split <;> rfl

@[simp]
theorem channels_queue (name : String) (tokens : List String) (transaction : Transaction)
    (session : Session)
    : (session.queue name tokens transaction).1.channels = session.channels := by
  unfold queue
  split
  . rfl
  . split <;> rfl

theorem subscribe_of_no_targets {args : List String} (hargs : args.isEmpty = true)
    (session : Session) (db : Database)
    : (session.subscribe args db).1 = session ∧ (session.subscribe args db).2.1 = db := by
  unfold subscribe
  rw [if_pos hargs]
  exact ⟨rfl, rfl⟩

theorem unsubscribe_of_no_targets {env : Env} {args : List String}
    (htargets : (session.unsubscribeTargets env args).isEmpty = true) (db : Database)
    : (session.unsubscribe env args db).1 = session
        ∧ (session.unsubscribe env args db).2.1 = db := by
  unfold unsubscribe
  dsimp only
  rw [if_pos htargets]
  exact ⟨rfl, rfl⟩

theorem no_targets_of_not_confirms {env : Env} {first : String} {args : List String}
    (htransaction : session.transaction = none)
    (h : confirms env session (first :: args) = none)
    : (toAsciiUppercase first = "SUBSCRIBE" → args.isEmpty = true)
        ∧ (toAsciiUppercase first = "UNSUBSCRIBE"
          → (session.unsubscribeTargets env args).isEmpty = true) := by
  unfold confirms at h
  rw [htransaction] at h
  constructor
  . intro hname
    simpa [hname] using h
  . intro hname
    simpa [hname] using h

theorem handle_of_subscribed (hsubscribed : session.isSubscribed = true)
    (htransaction : session.transaction = none) (h : confirms (envs 0) session tokens = none)
    (db : Database)
    : (session.handle envs tokens db).1 = session ∧ (session.handle envs tokens db).2.1 = db := by
  cases tokens with
  | nil => exact ⟨rfl, rfl⟩
  | cons first args =>
    have htargets := no_targets_of_not_confirms htransaction h
    unfold handle
    dsimp only
    rw [hsubscribed, Bool.true_and, htransaction]
    split
    . exact ⟨rfl, rfl⟩
    . next hallowed =>
      simp only [Bool.not_eq_true, Bool.not_eq_false', Bool.or_eq_true, beq_iff_eq] at hallowed
      rcases hallowed with (hname | hname) | hname
      . simp only [hname, String.reduceBEq, Bool.false_eq_true, if_false, if_true]
        exact subscribe_of_no_targets (htargets.1 hname) session db
      . simp only [hname, String.reduceBEq, Bool.false_eq_true, if_false, if_true]
        exact unsubscribe_of_no_targets (htargets.2 hname) db
      . simp only [hname, String.reduceBEq, Bool.false_eq_true, if_false]
        exact ⟨trivial, dispatch_ping hname (envs 0) args db⟩

/--
No request changes the set of channels without confirming it.
-/
theorem channels_of_not_confirms (h : confirms (envs 0) session tokens = none) (db : Database)
    : (session.handle envs tokens db).1.channels = session.channels := by
  cases tokens with
  | nil => rfl
  | cons first args =>
    unfold handle
    dsimp only
    split
    . rfl
    . split
      . exact channels_beginMulti session
      . split
        . exact channels_exec envs session db
        . split
          . exact channels_discard session
          . cases htransaction : session.transaction with
            | some transaction => exact channels_queue _ _ transaction session
            | none =>
              have htargets := no_targets_of_not_confirms htransaction h
              dsimp only
              split
              . next hname =>
                rw [(subscribe_of_no_targets (htargets.1 (eq_of_beq hname)) session db).1]
              . split
                . next hname =>
                  rw [(unsubscribe_of_no_targets (htargets.2 (eq_of_beq hname)) db).1]
                . rfl

theorem name_of_confirms {env : Env} {targets : List String}
    (h : confirms env session tokens = some (kind, targets))
    : session.transaction = none
        ∧ (requestName tokens = some "SUBSCRIBE" ∨ requestName tokens = some "UNSUBSCRIBE") := by
  unfold confirms at h
  split at h
  . next first args htransaction =>
    refine ⟨htransaction, ?_⟩
    unfold requestName
    rw [List.head?_cons, Option.map_some, Option.some.injEq, Option.some.injEq]
    dsimp only at h
    split at h
    . next hname => exact .inl (eq_of_beq hname)
    . split at h
      . next hname => exact .inr (eq_of_beq hname)
      . cases h
  . cases h

theorem exclusive_new (db : Database) : Exclusive (Session.new db).1 := by
  intro _
  rfl

theorem exclusive_handle (h : session.Exclusive) (envs : Nat → Env) (tokens : List String)
    (db : Database)
    : Exclusive (session.handle envs tokens db).1 := by
  cases hconfirms : confirms (envs 0) session tokens with
  | some confirmed =>
    rcases confirmed with ⟨kind, targets⟩
    rcases handle_of_confirms_eq hconfirms db with ⟨pubsub, heq⟩
    intro _
    rw [heq]
    exact (name_of_confirms hconfirms).1
  | none =>
    intro hsubscribed
    have hbefore : session.isSubscribed = true := by
      unfold isSubscribed at hsubscribed ⊢
      rwa [channels_of_not_confirms hconfirms] at hsubscribed
    rw [(handle_of_subscribed hbefore (h hbefore) hconfirms db).1]
    exact h hbefore

theorem Reachable.exclusive (h : Reachable session) : session.Exclusive := by
  induction h with
  | new db => exact exclusive_new db
  | handle session envs tokens db _ ih => exact exclusive_handle ih envs tokens db

/--
In every reachable state a session is not both subscribed and inside of a transaction. In subscribe
mode no request changes the keyspace, the append-only file or the transaction, and the set of channels
changes by `SUBSCRIBE` and `UNSUBSCRIBE` only, whose confirmations count it after each step. While a
transaction is open the set does not change.
-/
theorem modes_exclude (h : Reachable session)
    : ¬ (session.isSubscribed = true ∧ session.transaction.isSome = true)
        ∧
      ∀ (envs : Nat → Env) (tokens : List String) (db : Database),
        (session.isSubscribed = true
          → (session.handle envs tokens db).2.1.store = db.store
            ∧ (session.handle envs tokens db).2.1.aof = db.aof
            ∧ (session.handle envs tokens db).1.transaction = session.transaction
            ∧ (requestName tokens ≠ some "SUBSCRIBE" → requestName tokens ≠ some "UNSUBSCRIBE"
              → (session.handle envs tokens db).1.channels = session.channels))
        ∧ (∀ kind targets, confirms (envs 0) session tokens = some (kind, targets)
          → (session.handle envs tokens db).1.channels
              = targets.foldl (changeOf kind) session.channels
            ∧ (session.handle envs tokens db).2.2
              = String.join (confirmations kind targets session.channels))
        ∧ (session.transaction.isSome = true
          → (session.handle envs tokens db).1.channels = session.channels) := by
  refine ⟨?_, ?_⟩
  . rintro ⟨hsubscribed, htransaction⟩
    rw [h.exclusive hsubscribed] at htransaction
    cases htransaction
  . intro envs tokens db
    cases hconfirms : confirms (envs 0) session tokens with
    | none =>
      have hchannels := channels_of_not_confirms hconfirms db
      refine ⟨?_, ?_, fun _ => hchannels⟩
      . intro hsubscribed
        rcases handle_of_subscribed hsubscribed (h.exclusive hsubscribed) hconfirms db with ⟨hsession, hdb⟩
        rw [hsession, hdb]
        exact ⟨rfl, rfl, rfl, fun _ _ => rfl⟩
      . intro kind targets hsome
        cases hsome
    | some confirmed =>
      rcases confirmed with ⟨kind, targets⟩
      rcases handle_of_confirms_eq hconfirms db with ⟨pubsub, heq⟩
      rcases name_of_confirms hconfirms with ⟨htransaction, hname⟩
      rw [heq]
      refine ⟨?_, ?_, ?_⟩
      . intro _
        refine ⟨rfl, rfl, rfl, ?_⟩
        intro hsubscribe hunsubscribe
        rcases hname with hname | hname
        . exact absurd hname hsubscribe
        . exact absurd hname hunsubscribe
      . intro kind' targets' hsome
        cases hsome
        exact ⟨rfl, rfl⟩
      . intro hopen
        rw [htransaction] at hopen
        cases hopen

/--
A connection that is subscribed to one channel and asks for two.
-/
theorem modes_exclude_twice
    : let env := envAt startOfClock
      let db := Database.new env.now
      let session := ((Session.new db).1.handle (fun _ => env) ["SUBSCRIBE", "a"] db).1
      (session.handle (fun _ => env) ["subscribe", "a", "b"] db).2.2
        = String.join (confirmations "subscribe" ["a", "b"] session.channels) := by
  intro env db session
  have hreachable : Reachable session := .handle _ _ _ _ (.new db)
  exact (((modes_exclude hreachable).2 (fun _ => env) ["subscribe", "a", "b"] db).2.1
    "subscribe" ["a", "b"] rfl).2

end Session
end RedisClone
