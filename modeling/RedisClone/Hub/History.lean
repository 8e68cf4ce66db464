import RedisClone.Hub.Publish
import RedisClone.Hub.Request

/-!
This module contains the proof of what is put into a mailbox during the life of its connection.
-/

namespace RedisClone
namespace Hub

variable {hub hub' : Hub} {id id' : UInt64} {connection connection' : Connection} {db : Database}

/--
A change of one connection that keeps its mailbox, and takes no message out of it that it does not
count as received.
-/
structure Changes (hub : Hub) (id : UInt64) (connection connection' : Connection) (db : Database)
    : Prop where
  found : hub.connections[id]? = some connection
  mailbox : connection'.session.mailbox = connection.session.mailbox
  nextMailbox : db.pubsub.nextMailbox = hub.db.pubsub.nextMailbox
  others : ∀ mailbox : Mailbox, connection.session.mailbox ≠ mailbox
    → db.pubsub.mailboxes[mailbox]? = hub.db.pubsub.mailboxes[mailbox]?
  history : connection'.received ++ db.pubsub.mailboxes[connection.session.mailbox]?.getD []
    = hub.history connection

theorem changes_of_mailboxes (session : Session) (leaving : Option (List String))
    (hconnection : hub.connections[id]? = some connection)
    (hmailbox : session.mailbox = connection.session.mailbox)
    (hnext : db.pubsub.nextMailbox = hub.db.pubsub.nextMailbox)
    (hmailboxes : db.pubsub.mailboxes = hub.db.pubsub.mailboxes)
    : hub.Changes id connection ⟨session, connection.received, leaving⟩ db := by
  refine ⟨hconnection, hmailbox, hnext, ?_, ?_⟩
  . intro mailbox _
    rw [hmailboxes]
  . rw [hmailboxes]
    rfl

theorem subscribeOne_frame (channel : String) (session : Session) (db : Database)
    : let changed := Session.subscribeOne channel session db
      changed.1.mailbox = session.mailbox
        ∧ changed.2.1.pubsub.nextMailbox = db.pubsub.nextMailbox
        ∧ changed.2.1.pubsub.mailboxes = db.pubsub.mailboxes := by
  simp only [Session.subscribeOne]
  split
  . exact ⟨rfl, rfl, rfl⟩
  . exact ⟨rfl, rfl, rfl⟩

theorem unsubscribeOne_frame (channel : String) (session : Session) (db : Database)
    : let changed := Session.unsubscribeOne channel session db
      changed.1.mailbox = session.mailbox
        ∧ changed.2.1.pubsub.nextMailbox = db.pubsub.nextMailbox
        ∧ changed.2.1.pubsub.mailboxes = db.pubsub.mailboxes := by
  simp only [Session.unsubscribeOne]
  split
  . exact ⟨rfl, PubSub.nextMailbox_unsubscribe, PubSub.mailboxes_unsubscribe⟩
  . exact ⟨rfl, rfl, rfl⟩

theorem changes_receive (hconnection : hub.connections[id]? = some connection) {message : String}
    {pubsub : PubSub}
    (hrecv : hub.db.pubsub.recv connection.session.mailbox = some (message, pubsub))
    : hub.Changes id connection { connection with received := connection.received ++ [message] }
        { hub.db with pubsub } := by
  unfold PubSub.recv at hrecv
  split at hrecv
  . next queue hqueue =>
    cases hrecv
    refine ⟨hconnection, rfl, rfl, ?_, ?_⟩
    . intro mailbox hne
      rw [Std.ExtTreeMap.getElem?_insert, if_neg]
      simpa using hne
    . unfold history
      rw [Std.ExtTreeMap.getElem?_insert_self, hqueue]
      simp
  . cases hrecv

/--
What an event can do: open a connection, change one, dispatch a request, or close a connection.
-/
theorem step_cases {event : HubEvent} (hstep : hub.step event = some hub')
    : (hub.connections[(Session.new hub.db).1.id]? = none ∧ (∀ id, heardAt id hub event = [])
        ∧ hub' = hub.update (Session.new hub.db).1.id ⟨(Session.new hub.db).1, [], none⟩
            (Session.new hub.db).2)
      ∨ (∃ id connection connection' db, (∀ id, heardAt id hub event = [])
        ∧ hub.Changes id connection connection' db ∧ hub' = hub.update id connection' db)
      ∨ (∃ env tokens, event = .dispatch env tokens
        ∧ hub' = { hub with db := (RedisClone.dispatch env tokens hub.db).1 })
      ∨ ∃ id connection, (∀ id, heardAt id hub event = [])
        ∧ hub.connections[id]? = some connection
        ∧ hub' =
          { db := { hub.db with pubsub := hub.db.pubsub.close connection.session.mailbox }
            connections := hub.connections.erase id } := by
  cases event with
  | connect =>
    left
    simp only [step] at hstep
    split at hstep
    . next hnone =>
      cases hstep
      exact ⟨hnone, fun _ => rfl, rfl⟩
    . cases hstep
  | subscribe id channel =>
    right; left
    simp only [step, Option.map_eq_some_iff, serving_eq_some] at hstep
    rcases hstep with ⟨connection, hserving, rfl⟩
    have hframe := subscribeOne_frame channel connection.session hub.db
    exact ⟨id, connection, _, _, fun _ => rfl,
      changes_of_mailboxes _ _ hserving.1 hframe.1 hframe.2.1 hframe.2.2, rfl⟩
  | unsubscribe id channel =>
    right; left
    simp only [step, Option.map_eq_some_iff, serving_eq_some] at hstep
    rcases hstep with ⟨connection, hserving, rfl⟩
    have hframe := unsubscribeOne_frame channel connection.session hub.db
    exact ⟨id, connection, _, _, fun _ => rfl,
      changes_of_mailboxes _ _ hserving.1 hframe.1 hframe.2.1 hframe.2.2, rfl⟩
  | transact id transaction =>
    right; left
    simp only [step, Option.map_eq_some_iff, serving_eq_some] at hstep
    rcases hstep with ⟨connection, hserving, rfl⟩
    exact ⟨id, connection, _, _, fun _ => rfl,
      changes_of_mailboxes { connection.session with transaction } _ hserving.1 rfl rfl rfl, rfl⟩
  | dispatch env tokens =>
    right; right; left
    cases hstep
    exact ⟨env, tokens, rfl, rfl⟩
  | receive id =>
    right; left
    simp only [step, Option.bind_eq_some_iff, Option.map_eq_some_iff, serving_eq_some] at hstep
    rcases hstep with ⟨connection, hserving, ⟨message, pubsub⟩, hrecv, rfl⟩
    exact ⟨id, connection, _, _, fun _ => rfl, changes_receive hserving.1 hrecv, rfl⟩
  | hangUp id =>
    right; left
    simp only [step, Option.map_eq_some_iff, serving_eq_some] at hstep
    rcases hstep with ⟨connection, hserving, rfl⟩
    exact ⟨id, connection, _, _, fun _ => rfl,
      changes_of_mailboxes _ _ hserving.1 rfl rfl rfl, rfl⟩
  | leave id =>
    right; left
    simp only [step] at hstep
    split at hstep
    . next session received channel channels hconnection =>
      cases hstep
      exact ⟨id, _, _, _, fun _ => rfl,
        changes_of_mailboxes _ (some channels) hconnection rfl PubSub.nextMailbox_unsubscribe
          PubSub.mailboxes_unsubscribe, rfl⟩
    . cases hstep
  | close id =>
    right; right; right
    simp only [step] at hstep
    split at hstep
    . next hconnection =>
      cases hstep
      exact ⟨id, _, fun _ => rfl, hconnection, rfl⟩
    . cases hstep

theorem getElem?_close {pubsub : PubSub}
    : (Hub.mk { hub.db with pubsub } (hub.connections.erase id)).connections[id']?
        =
      if id = id' then none else hub.connections[id']? := by
  rw [Std.ExtTreeMap.getElem?_erase]
  simp only [Std.LawfulEqCmp.compare_eq_iff_eq]

theorem step_mailbox {event : HubEvent} (hstep : hub.step event = some hub')
    (hconnection : hub'.connections[id]? = some connection')
    : (∃ connection, hub.connections[id]? = some connection
        ∧ connection.session.mailbox = connection'.session.mailbox)
        ∨ connection'.session.mailbox = hub.db.pubsub.nextMailbox := by
  rcases step_cases hstep with ⟨hnone, -, rfl⟩ | ⟨other, found, found', db, -, hchanges, rfl⟩
    | ⟨env, tokens, -, rfl⟩ | ⟨other, found, -, hfound, rfl⟩
  . rw [getElem?_update] at hconnection
    split at hconnection
    . cases hconnection
      exact .inr rfl
    . exact .inl ⟨connection', hconnection, rfl⟩
  . rw [getElem?_update] at hconnection
    split at hconnection
    . next heq =>
      cases hconnection
      subst heq
      exact .inl ⟨found, hchanges.found, hchanges.mailbox.symm⟩
    . exact .inl ⟨connection', hconnection, rfl⟩
  . exact .inl ⟨connection', hconnection, rfl⟩
  . rw [getElem?_close] at hconnection
    split at hconnection
    . cases hconnection
    . exact .inl ⟨connection', hconnection, rfl⟩

theorem step_nextMailbox {event : HubEvent} (hstep : hub.step event = some hub')
    : hub.db.pubsub.nextMailbox ≤ hub'.db.pubsub.nextMailbox := by
  rcases step_cases hstep with ⟨hnone, -, rfl⟩ | ⟨other, found, found', db, -, hchanges, rfl⟩
    | ⟨env, tokens, -, rfl⟩ | ⟨other, found, -, hfound, rfl⟩
  . exact Nat.le_succ _
  . exact hchanges.nextMailbox.ge
  . dsimp only
    rw [dispatch_pubsub]
    split
    . rw [PubSub.publish_frame]
    . exact Nat.le_refl _
  . exact Nat.le_refl _

/--
An event adds to the history of a connection what it hears, and nothing else.
-/
theorem step_history (h : hub.Consistent) {event : HubEvent} (hstep : hub.step event = some hub')
    (hconnection : hub.connections[id]? = some connection)
    (hconnection' : hub'.connections[id]? = some connection')
    : hub'.history connection' = hub.history connection ++ heardAt id hub event := by
  rcases step_cases hstep with ⟨hnone, hheard, rfl⟩ | ⟨other, found, found', db, hheard, hchanges, rfl⟩
    | ⟨env, tokens, rfl, rfl⟩ | ⟨other, found, hheard, hfound, rfl⟩
  . rw [getElem?_update] at hconnection'
    split at hconnection'
    . next heq =>
      rw [heq, hconnection] at hnone
      cases hnone
    . rw [hconnection] at hconnection'
      cases hconnection'
      have hfresh := h.fresh id connection hconnection
      have hmailboxes : (Session.new hub.db).2.pubsub.mailboxes
          = hub.db.pubsub.mailboxes.insert hub.db.pubsub.nextMailbox [] := rfl
      unfold history update
      dsimp only
      rw [hheard, List.append_nil, hmailboxes, Std.ExtTreeMap.getElem?_insert, if_neg]
      intro heq
      rw [Std.LawfulEqCmp.compare_eq_iff_eq] at heq
      rw [heq] at hfresh
      exact Nat.lt_irrefl _ hfresh
  . rw [hheard, List.append_nil]
    rw [getElem?_update] at hconnection'
    split at hconnection'
    . next heq =>
      subst heq
      cases hconnection'
      rw [hchanges.found] at hconnection
      cases hconnection
      rw [← hchanges.history, ← hchanges.mailbox]
      rfl
    . next hne =>
      rw [hconnection] at hconnection'
      cases hconnection'
      unfold history update
      dsimp only
      rw [hchanges.others]
      intro heq
      exact hne (h.distinct other id found connection hchanges.found hconnection heq)
  . rw [hconnection] at hconnection'
    cases hconnection'
    unfold history heardAt
    dsimp only
    rw [dispatch_pubsub]
    cases publication tokens with
    | none => rw [List.append_nil]
    | some published =>
      have hsubscribed : hub.subscribed id published.1 = connection.subscribed published.1 := by
        unfold subscribed
        rw [hconnection, Option.any_some]
      have hopened := h.opened id connection hconnection
      rw [Option.isSome_iff_exists] at hopened
      rcases hopened with ⟨queue, hqueue⟩
      dsimp only
      rw [h.mailboxes_publish published.1 published.2 hconnection, hsubscribed, hqueue,
        Option.map_some, Option.getD_some, Option.getD_some, List.append_assoc]
  . rw [hheard, List.append_nil]
    rw [getElem?_close] at hconnection'
    split at hconnection'
    . cases hconnection'
    . next hne =>
      rw [hconnection] at hconnection'
      cases hconnection'
      unfold history PubSub.close
      dsimp only
      rw [Std.ExtTreeMap.getElem?_erase, if_neg]
      intro heq
      rw [Std.LawfulEqCmp.compare_eq_iff_eq] at heq
      exact hne (h.distinct other id found connection hfound hconnection heq)

/--
Mailboxes are not used twice, so a connection with a mailbox from before a run was there before it.
-/
theorem run_mailbox {events : List HubEvent} (hrun : run events hub = some hub')
    (hconnection : hub'.connections[id]? = some connection')
    (hmailbox : connection'.session.mailbox < hub.db.pubsub.nextMailbox)
    : ∃ connection, hub.connections[id]? = some connection
        ∧ connection.session.mailbox = connection'.session.mailbox := by
  induction events generalizing hub with
  | nil =>
    cases hrun
    exact ⟨connection', hconnection, rfl⟩
  | cons event events ih =>
    rw [run, Option.bind_eq_some_iff] at hrun
    rcases hrun with ⟨next, hstep, hrun⟩
    rcases ih hrun (Nat.lt_of_lt_of_le hmailbox (step_nextMailbox hstep))
      with ⟨between, hbetween, heq⟩
    rcases step_mailbox hstep hbetween with ⟨connection, hbefore, heq'⟩ | hnew
    . exact ⟨connection, hbefore, heq'.trans heq⟩
    . rw [← heq, hnew] at hmailbox
      exact absurd hmailbox (Nat.lt_irrefl _)

theorem run_history {events : List HubEvent} (h : hub.Consistent)
    (hrun : run events hub = some hub') (hconnection : hub.connections[id]? = some connection)
    (hconnection' : hub'.connections[id]? = some connection')
    (hmailbox : connection'.session.mailbox = connection.session.mailbox)
    : hub'.history connection' = hub.history connection ++ heard id events hub := by
  induction events generalizing hub connection with
  | nil =>
    cases hrun
    rw [hconnection] at hconnection'
    cases hconnection'
    exact (List.append_nil _).symm
  | cons event events ih =>
    rw [run, Option.bind_eq_some_iff] at hrun
    rcases hrun with ⟨next, hstep, hrun⟩
    have hfresh := h.fresh id connection hconnection
    rw [← hmailbox] at hfresh
    rcases run_mailbox hrun hconnection' (Nat.lt_of_lt_of_le hfresh (step_nextMailbox hstep))
      with ⟨between, hbetween, heq⟩
    rw [ih (step_consistent h hstep) hrun hbetween heq.symm, step_history h hstep hconnection hbetween,
      List.append_assoc, heard, hstep]
    rfl

/--
In every state the system gets into, the registry holds exactly the subscriptions of the connections
and no empty channel; a publication is answered with the number of subscribers and put once into each
of their mailboxes and into no other; and what was put into the mailbox of a connection since it was opened are the
messages published on channels it was then subscribed to, in the order of publication.
-/
theorem pubsub_delivery {hub : Hub} (h : hub.Reachable)
    : (∀ channel id, (hub.db.pubsub.lookup channel id).isSome
        ↔ ∃ connection, hub.connections[id]? = some connection
            ∧ connection.subscribed channel = true)
        ∧
      (∀ id connection, hub.serving id = some connection → ∀ channel,
        (hub.db.pubsub.lookup channel id).isSome ↔ channel ∈ connection.session.channels)
        ∧
      hub.db.pubsub.Pruned
        ∧
      (∀ env tokens channel payload, publication tokens = some (channel, payload) →
        (RedisClone.dispatch env tokens hub.db).2 = Reply.number (hub.audience channel).length
          ∧
        ∀ (id : UInt64) (connection : Connection), hub.connections[id]? = some connection →
          (RedisClone.dispatch env tokens hub.db).1.pubsub.mailboxes[connection.session.mailbox]?
            =
          hub.db.pubsub.mailboxes[connection.session.mailbox]?.map
            (· ++ if connection.subscribed channel then [PubSub.message channel payload] else []))
        ∧
      (∀ env tokens channel payload, publication tokens = some (channel, payload) →
        ∀ mailbox : Mailbox,
          (∀ (id : UInt64) (connection : Connection), hub.connections[id]? = some connection
            → connection.subscribed channel = true → connection.session.mailbox ≠ mailbox)
          → (RedisClone.dispatch env tokens hub.db).1.pubsub.mailboxes[mailbox]?
              = hub.db.pubsub.mailboxes[mailbox]?)
        ∧
      ∀ (opened : Hub) (events : List HubEvent) (hub' : Hub) (connection : Connection),
        hub.step .connect = some opened → run events opened = some hub'
        → hub'.connections[(Session.new hub.db).1.id]? = some connection
        → connection.session.mailbox = (Session.new hub.db).1.mailbox
        → hub'.history connection = heard (Session.new hub.db).1.id events opened := by
  have hconsistent := consistent_of_reachable h
  refine ⟨?_, ?_, hconsistent.pruned, ?_, ?_, ?_⟩
  . intro channel id
    rw [hconsistent.isSome_lookup, subscribed, Option.any_eq_true]
  . intro id connection hserving channel
    rw [serving_eq_some] at hserving
    rw [hconsistent.isSome_lookup, subscribed, hserving.1, Option.any_some,
      subscribed_of_serving hserving.2, Std.ExtTreeSet.contains_iff_mem]
  . intro env tokens channel payload hpublication
    constructor
    . rw [dispatch_publication hpublication, hconsistent.count_publish]
    . intro id connection hconnection
      rw [dispatch_pubsub, hpublication]
      exact hconsistent.mailboxes_publish channel payload hconnection
  . intro env tokens channel payload hpublication mailbox hmailbox
    rw [dispatch_pubsub, hpublication]
    exact hconsistent.mailboxes_publish_of_not_subscribed channel payload mailbox hmailbox
  . intro opened events hub' connection hopened hrun hconnection hmailbox
    have hopenedConsistent := step_consistent hconsistent hopened
    simp only [step] at hopened
    split at hopened
    . cases hopened
      have hnew : (hub.update (Session.new hub.db).1.id ⟨(Session.new hub.db).1, [], none⟩
          (Session.new hub.db).2).connections[(Session.new hub.db).1.id]?
            = some ⟨(Session.new hub.db).1, [], none⟩ := by
        rw [getElem?_update, if_pos rfl]
      rw [run_history hopenedConsistent hrun hnew hconnection hmailbox]
      have hempty : (Session.new hub.db).2.pubsub.mailboxes
          = hub.db.pubsub.mailboxes.insert (Session.new hub.db).1.mailbox [] := rfl
      unfold history update
      dsimp only
      rw [hempty, Std.ExtTreeMap.getElem?_insert_self]
      rfl
    . cases hopened

theorem pubsub_delivery_subscribed
    : let env := envAt startOfClock
      (run [.connect, .subscribe 0 "news"] (new (.new env.now))).map
          (fun hub => (RedisClone.dispatch env ["PUBLISH", "news", "hello"] hub.db).2)
        =
      some (Reply.number 1) := by
  intro env
  let connected := Session.new (.new env.now)
  let joined := Session.subscribeOne "news" connected.1 connected.2
  let before := (new (.new env.now)).update 0 ⟨connected.1, [], none⟩ connected.2
  let hub := before.update 0 ⟨joined.1, [], none⟩ joined.2.1
  have hrun : run [.connect, .subscribe 0 "news"] (new (.new env.now)) = some hub := by
    have hnone : (new (.new env.now)).connections[connected.1.id]? = none := by simp [new]
    have hserving : before.serving 0 = some ⟨connected.1, [], none⟩ := by
      rw [serving_eq_some, getElem?_update, if_pos rfl]
      exact ⟨rfl, rfl⟩
    have hconnect : (new (.new env.now)).step .connect = some before := step_connect hnone
    have hsubscribe : before.step (.subscribe 0 "news") = some hub := step_subscribe hserving "news"
    rw [run, hconnect, Option.bind_some, run, hsubscribe, Option.bind_some, run]
  have haudience : (hub.audience "news").Perm [0] := by
    have hnodup : (hub.audience "news").Nodup := Std.ExtTreeMap.nodup_keys.filter _
    rw [List.perm_ext_iff_of_nodup hnodup (List.nodup_singleton 0)]
    intro id
    rw [mem_audience, List.mem_singleton]
    unfold subscribed
    by_cases hid : 0 = id
    . subst hid
      rw [getElem?_update, if_pos rfl, Option.any_some]
      have hmem : Connection.subscribed ⟨joined.1, [], none⟩ "news" = true := by
        simp [Connection.subscribed, joined, connected, Session.subscribeOne, Session.new]
      simp only [hmem]
    . rw [getElem?_update, if_neg hid, getElem?_update, if_neg hid]
      simp [new, Ne.symm hid]
  have hdelivery := (pubsub_delivery ⟨_, _, rfl, hrun⟩).2.2.2.1 env ["PUBLISH", "news", "hello"]
    "news" "hello" rfl
  rw [hrun, Option.map_some, hdelivery.1, haudience.length_eq]
  rfl

end Hub
end RedisClone
