import RedisClone.Hub.Consistent

/-!
This module contains the proof that the events of the system add up to whole requests and to the
cleanup of a session.
-/

namespace RedisClone
namespace Hub

variable {hub : Hub} {id : UInt64} {connection connection' : Connection} {db db' : Database}

theorem update_update
    : (hub.update id connection db).update id connection' db' = hub.update id connection' db' := by
  unfold update
  congr 1
  apply Std.ExtTreeMap.ext_getElem?
  intro id'
  simp only [Std.ExtTreeMap.getElem?_insert]
  split <;> rfl

theorem update_self (h : hub.connections[id]? = some connection) (db : Database)
    : hub.update id connection db = { hub with db } := by
  unfold update
  congr 1
  apply Std.ExtTreeMap.ext_getElem?
  intro id'
  rw [Std.ExtTreeMap.getElem?_insert]
  split
  . next heq =>
    rw [Std.LawfulEqCmp.compare_eq_iff_eq] at heq
    rw [← heq, h]
  . rfl

theorem serving_update (h : connection.leaving = none)
    : (hub.update id connection db).serving id = some connection := by
  rw [serving_eq_some, getElem?_update, if_pos rfl]
  exact ⟨rfl, h⟩

theorem run_append (events events' : List HubEvent)
    : run (events ++ events') hub = (run events hub).bind (run events') := by
  induction events generalizing hub with
  | nil => rfl
  | cons event events ih =>
    rw [List.cons_append, run, run]
    cases hub.step event with
    | none => rfl
    | some next => exact ih

/-
Single events of a connection that serves requests.
-/

theorem step_connect (hnone : hub.connections[(Session.new hub.db).1.id]? = none)
    : hub.step .connect
        =
      some (hub.update (Session.new hub.db).1.id ⟨(Session.new hub.db).1, [], none⟩
        (Session.new hub.db).2) := by
  simp only [step]
  rw [hnone]

theorem step_subscribe (hserving : hub.serving id = some connection) (channel : String)
    : let changed := Session.subscribeOne channel connection.session hub.db
      hub.step (.subscribe id channel)
        =
      some (hub.update id { connection with session := changed.1 } changed.2.1) := by
  simp only [step]
  rw [hserving]
  rfl

theorem step_unsubscribe (hserving : hub.serving id = some connection) (channel : String)
    : let changed := Session.unsubscribeOne channel connection.session hub.db
      hub.step (.unsubscribe id channel)
        =
      some (hub.update id { connection with session := changed.1 } changed.2.1) := by
  simp only [step]
  rw [hserving]
  rfl

theorem step_transact (hserving : hub.serving id = some connection)
    (transaction : Option Transaction)
    : hub.step (.transact id transaction)
        =
      some (hub.update id
        { connection with session := { connection.session with transaction } } hub.db) := by
  simp only [step]
  rw [hserving]
  rfl

/-
Whole requests.
-/

theorem run_forChannels {one : String → Session → Database → Session × Database × String}
    {event : String → HubEvent}
    (hevent : ∀ (hub : Hub) (connection : Connection) (channel : String),
      hub.serving id = some connection →
      hub.step (event channel)
        =
      some (hub.update id
        { connection with session := (one channel connection.session hub.db).1 }
        (one channel connection.session hub.db).2.1))
    (hserving : hub.serving id = some connection) (channels : List String) (reply : String)
    : let looped := channels.foldl
        (fun (session, db, reply) channel =>
          let (session, db, confirmation) := one channel session db
          (session, db, reply ++ confirmation))
        (connection.session, hub.db, reply)
      run (channels.map event) hub
        =
      some (hub.update id { connection with session := looped.1 } looped.2.1) := by
  induction channels generalizing hub connection reply with
  | nil =>
    rw [serving_eq_some] at hserving
    exact congrArg some (update_self hserving.1 hub.db).symm
  | cons channel channels ih =>
    have hleaving := (serving_eq_some.mp hserving).2
    let changed := one channel connection.session hub.db
    have hserving' : (hub.update id { connection with session := changed.1 } changed.2.1).serving id
        = some { connection with session := changed.1 } := serving_update hleaving
    have hrest := ih hserving' (reply ++ changed.2.2)
    dsimp only at hrest
    rw [update_update] at hrest
    rw [List.map_cons, run, hevent hub connection channel hserving, Option.bind_some]
    exact hrest

theorem run_dispatchAll (commands : List (List String)) (envs : Nat → Env) (hub : Hub)
    (reply : String)
    : ∃ events, run events hub
        =
      some { hub with db := (Session.dispatchAll envs commands hub.db reply).1 } := by
  induction commands generalizing envs hub reply with
  | nil => exact ⟨[], rfl⟩
  | cons command commands ih =>
    let dispatched := RedisClone.dispatch (envs 0) command hub.db
    rcases ih (fun i => envs (i + 1)) { hub with db := dispatched.1 } (reply ++ dispatched.2)
      with ⟨events, hevents⟩
    refine ⟨.dispatch (envs 0) command :: events, ?_⟩
    rw [run, step, Option.bind_some]
    exact hevents

theorem run_transaction (hserving : hub.serving id = some connection) {session : Session}
    (hsession : session = { connection.session with transaction := session.transaction })
    : ∃ events, run events hub
        =
      some (hub.update id { connection with session } hub.db) := by
  refine ⟨[.transact id session.transaction], ?_⟩
  rw [run, step_transact hserving, Option.bind_some, run, ← hsession]

theorem run_exec (hserving : hub.serving id = some connection) (envs : Nat → Env)
    : let executed := connection.session.exec envs hub.db
      ∃ events, run events hub
        =
      some (hub.update id { connection with session := executed.1 } executed.2.1) := by
  unfold Session.exec
  cases htransaction : connection.session.transaction with
  | none =>
    rw [serving_eq_some] at hserving
    exact ⟨[], congrArg some (update_self hserving.1 hub.db).symm⟩
  | some transaction =>
    dsimp only
    split
    . exact run_transaction hserving rfl
    . let ended : Connection :=
        { connection with session := { connection.session with transaction := none } }
      rcases run_dispatchAll transaction.commands envs (hub.update id ended hub.db)
        (Resp.header transaction.commands.length) with ⟨events, hevents⟩
      refine ⟨.transact id none :: events, ?_⟩
      rw [run, step_transact hserving, Option.bind_some]
      exact hevents

/--
Whatever a request does to its session, the database and the registry is a run of events.
-/
theorem run_handle (hserving : hub.serving id = some connection) (envs : Nat → Env)
    (tokens : List String)
    : let handled := connection.session.handle envs tokens hub.db
      ∃ events, run events hub
        =
      some (hub.update id { connection with session := handled.1 } handled.2.1) := by
  have hunchanged : ∃ events, run events hub
      = some (hub.update id { connection with session := connection.session } hub.db) :=
    ⟨[], congrArg some (update_self (serving_eq_some.mp hserving).1 hub.db).symm⟩
  unfold Session.handle
  cases tokens with
  | nil => exact hunchanged
  | cons first args =>
    dsimp only
    split
    . exact hunchanged
    . split
      . apply run_transaction hserving
        unfold Session.beginMulti
        split <;> rfl
      . split
        . exact run_exec hserving envs
        . split
          . apply run_transaction hserving
            unfold Session.discard
            split <;> rfl
          . split
            . apply run_transaction hserving
              unfold Session.queue
              split
              . rfl
              . split <;> rfl
            . split
              . unfold Session.subscribe
                split
                . exact hunchanged
                . exact ⟨_, run_forChannels (fun _ _ channel h => step_subscribe h channel) hserving
                    args ""⟩
              . split
                . unfold Session.unsubscribe
                  dsimp only
                  split
                  . exact hunchanged
                  . exact ⟨_, run_forChannels (fun _ _ channel h => step_unsubscribe h channel)
                      hserving _ ""⟩
                . rw [update_self (serving_eq_some.mp hserving).1]
                  exact ⟨[.dispatch (envs 0) (first :: args)], rfl⟩

/--
The cleanup of a session is the run of its `hangUp` and one `leave` for each channel.
-/
theorem run_cleanup (hserving : hub.serving id = some connection)
    : run (.hangUp id :: connection.session.channels.toList.map fun _ => .leave id) hub
        =
      some (hub.update id { connection with leaving := some [] }
        (connection.session.cleanup hub.db)) := by
  have hleave : ∀ (channels : List String) (db : Database),
      run (channels.map fun _ => .leave id)
          (hub.update id { connection with leaving := some channels } db)
        =
      some (hub.update id { connection with leaving := some [] }
        (channels.foldl (fun db channel => db.unsubscribe channel connection.session.id) db)) := by
    intro channels
    induction channels with
    | nil =>
      intro db
      rfl
    | cons channel channels ih =>
      intro db
      have hstep : (hub.update id { connection with leaving := some (channel :: channels) } db).step
          (.leave id)
            =
          some (hub.update id { connection with leaving := some channels }
            (db.unsubscribe channel connection.session.id)) := by
        simp only [step]
        rw [getElem?_update, if_pos rfl]
        exact congrArg some update_update
      rw [List.map_cons, run, hstep, Option.bind_some, ih]
      rfl
  rw [run]
  simp only [step]
  rw [hserving]
  exact hleave _ hub.db

end Hub
end RedisClone
