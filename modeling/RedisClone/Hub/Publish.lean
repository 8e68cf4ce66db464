import RedisClone.Command.Dispatch
import RedisClone.Hub.Consistent

/-!
This module contains what a publication does: whom it reaches and whom it counts.
-/

namespace RedisClone
namespace Hub

variable {hub hub' : Hub} {id id' : UInt64} {connection connection' : Connection} {db : Database}

theorem dispatch_pubsub (env : Env) (tokens : List String) (db : Database)
    : (RedisClone.dispatch env tokens db).1.pubsub
        =
      match publication tokens with
      | some (channel, payload) => (db.pubsub.publish channel payload).1
      | none => db.pubsub := by
  unfold publication
  cases tokens with
  | nil => rfl
  | cons name args =>
    cases hparse : Command.parse (name :: args) with
    | error error =>
      rw [dispatch_of_parse_error (List.cons_ne_nil name args) hparse]
    | ok command =>
      rw [dispatch_of_parse_ok hparse]
      dsimp only
      rw [logOptional_pubsub, execute_pubsub]
      cases command <;> rfl

theorem dispatch_publication {tokens : List String} {channel payload : String}
    (h : publication tokens = some (channel, payload)) (env : Env) (db : Database)
    : (RedisClone.dispatch env tokens db).2 = Reply.number (db.pubsub.publish channel payload).2
    := by
  unfold publication at h
  split at h
  . next hparse =>
    cases h
    rw [dispatch_of_parse_ok hparse]
    rfl
  . cases h

theorem Consistent.nodup_senders (h : hub.Consistent) (channel : String)
    : (hub.db.pubsub.senders channel).Nodup := by
  apply PubSub.nodup_senders
  intro id id' mailbox hlookup hlookup'
  rw [h.registered] at hlookup hlookup'
  rcases hlookup with ⟨found, hfound, -, hmailbox⟩
  rcases hlookup' with ⟨found', hfound', -, hmailbox'⟩
  exact h.distinct id id' found found' hfound hfound' (hmailbox.trans hmailbox'.symm)

/--
Each subscriber gets one copy of a message, and nobody else gets any.
-/
theorem Consistent.mailboxes_publish (h : hub.Consistent) (channel payload : String)
    (hconnection : hub.connections[id]? = some connection)
    : (hub.db.pubsub.publish channel payload).1.mailboxes[connection.session.mailbox]?
        =
      hub.db.pubsub.mailboxes[connection.session.mailbox]?.map
        (· ++ if connection.subscribed channel then [PubSub.message channel payload] else []) := by
  rw [PubSub.publish_eq, PubSub.mailboxes_sendAll _ (h.nodup_senders channel)]
  by_cases hsubscribed : connection.subscribed channel = true
  . have hmem : connection.session.mailbox ∈ hub.db.pubsub.senders channel := by
      rw [PubSub.mem_senders]
      refine ⟨id, ?_⟩
      rw [h.lookup hconnection, if_pos hsubscribed]
    rw [if_pos hmem]
    simp only [hsubscribed, if_true]
  . have hmem : connection.session.mailbox ∉ hub.db.pubsub.senders channel := by
      rw [PubSub.mem_senders]
      rintro ⟨other, hother⟩
      rw [h.registered] at hother
      rcases hother with ⟨found, hfound, hfoundSubscribed, hmailbox⟩
      have heq := h.distinct other id found connection hfound hconnection hmailbox
      subst heq
      rw [hconnection] at hfound
      cases hfound
      exact hsubscribed hfoundSubscribed
    rw [if_neg hmem]
    simp [hsubscribed]

theorem Consistent.mailboxes_publish_of_not_subscribed (h : hub.Consistent)
    (channel payload : String) (mailbox : Mailbox)
    (hmailbox : ∀ (id : UInt64) (connection : Connection), hub.connections[id]? = some connection
      → connection.subscribed channel = true → connection.session.mailbox ≠ mailbox)
    : (hub.db.pubsub.publish channel payload).1.mailboxes[mailbox]?
        =
      hub.db.pubsub.mailboxes[mailbox]? := by
  rw [PubSub.publish_eq, PubSub.mailboxes_sendAll _ (h.nodup_senders channel), if_neg]
  rw [PubSub.mem_senders]
  rintro ⟨id, hlookup⟩
  rw [h.registered] at hlookup
  rcases hlookup with ⟨found, hfound, hsubscribed, heq⟩
  exact hmailbox id found hfound hsubscribed heq

theorem mem_audience (channel : String)
    : id ∈ hub.audience channel ↔ hub.subscribed id channel = true := by
  unfold audience
  rw [List.mem_filter]
  constructor
  . intro h
    exact h.2
  . intro h
    refine ⟨?_, h⟩
    unfold subscribed at h
    rw [Std.ExtTreeMap.mem_keys, Std.ExtTreeMap.mem_iff_isSome_getElem?]
    cases hget : hub.connections[id]? with
    | none =>
      rw [hget] at h
      cases h
    | some found => rfl

theorem Consistent.isSome_lookup (h : hub.Consistent) (channel : String) (id : UInt64)
    : (hub.db.pubsub.lookup channel id).isSome = hub.subscribed id channel := by
  unfold subscribed
  cases hget : hub.connections[id]? with
  | none =>
    rw [h.lookup_none hget]
    rfl
  | some found =>
    rw [h.lookup hget, Option.any_some]
    cases found.subscribed channel <;> rfl

theorem Consistent.count_publish (h : hub.Consistent) (channel payload : String)
    : (hub.db.pubsub.publish channel payload).2 = (hub.audience channel).length := by
  have hopened : ∀ sender ∈ hub.db.pubsub.senders channel,
      hub.db.pubsub.mailboxes[sender]?.isSome := by
    intro sender hmem
    rw [PubSub.mem_senders] at hmem
    rcases hmem with ⟨id, hlookup⟩
    rw [h.registered] at hlookup
    rcases hlookup with ⟨found, hfound, -, rfl⟩
    exact h.opened id found hfound
  have hperm : (hub.db.pubsub.subscribers channel).Perm (hub.audience channel) := by
    have hnodup : (hub.audience channel).Nodup := Std.ExtTreeMap.nodup_keys.filter _
    rw [List.perm_ext_iff_of_nodup (PubSub.nodup_subscribers _ _) hnodup]
    intro id
    rw [PubSub.mem_subscribers, mem_audience, h.isSome_lookup]
  rw [PubSub.publish_eq, PubSub.count_sendAll _ hopened, Nat.zero_add, PubSub.length_senders,
    hperm.length_eq]

theorem consistent_dispatch (h : hub.Consistent) (env : Env) (tokens : List String)
    : Consistent { hub with db := (RedisClone.dispatch env tokens hub.db).1 } := by
  have hpubsub := dispatch_pubsub env tokens hub.db
  generalize (RedisClone.dispatch env tokens hub.db).1 = db at hpubsub
  split at hpubsub
  . next channel payload _ =>
    have hframe := PubSub.publish_frame hub.db.pubsub channel payload
    refine ⟨?_, ?_, h.ids, ?_, h.distinct, ?_, h.leaving⟩
    . intro other id mailbox
      simp only [hpubsub]
      rw [hframe]
      exact h.registered other id mailbox
    . simp only [hpubsub]
      rw [hframe]
      exact h.pruned
    . intro id found hfound
      simp only [hpubsub]
      rw [h.mailboxes_publish channel payload hfound, Option.isSome_map]
      exact h.opened id found hfound
    . intro id found hfound
      simp only [hpubsub]
      rw [hframe]
      exact h.fresh id found hfound
  . refine ⟨?_, ?_, h.ids, ?_, h.distinct, ?_, h.leaving⟩
    all_goals simp only [hpubsub]
    . exact h.registered
    . exact h.pruned
    . exact h.opened
    . exact h.fresh

theorem step_consistent (h : hub.Consistent) {event : HubEvent} (hstep : hub.step event = some hub')
    : hub'.Consistent := by
  cases event with
  | connect =>
    simp only [step] at hstep
    split at hstep
    . next hnone =>
      cases hstep
      exact consistent_connect h hnone
    . cases hstep
  | subscribe id channel =>
    simp only [step, Option.map_eq_some_iff] at hstep
    rcases hstep with ⟨connection, hserving, rfl⟩
    exact consistent_subscribe h hserving channel
  | unsubscribe id channel =>
    simp only [step, Option.map_eq_some_iff] at hstep
    rcases hstep with ⟨connection, hserving, rfl⟩
    exact consistent_unsubscribe h hserving channel
  | transact id transaction =>
    simp only [step, Option.map_eq_some_iff] at hstep
    rcases hstep with ⟨connection, hserving, rfl⟩
    exact consistent_transact h hserving transaction
  | dispatch env tokens =>
    cases hstep
    exact consistent_dispatch h env tokens
  | receive id =>
    simp only [step, Option.bind_eq_some_iff, Option.map_eq_some_iff] at hstep
    rcases hstep with ⟨connection, hserving, ⟨message, pubsub⟩, hrecv, rfl⟩
    exact consistent_receive h hserving hrecv
  | hangUp id =>
    simp only [step, Option.map_eq_some_iff] at hstep
    rcases hstep with ⟨connection, hserving, rfl⟩
    exact consistent_hangUp h hserving
  | leave id =>
    simp only [step] at hstep
    split at hstep
    . next hconnection =>
      cases hstep
      exact consistent_leave h hconnection
    . cases hstep
  | close id =>
    simp only [step] at hstep
    split at hstep
    . next hconnection =>
      cases hstep
      exact consistent_close h hconnection
    . cases hstep

theorem run_consistent {events : List HubEvent} (h : hub.Consistent)
    (hrun : run events hub = some hub')
    : hub'.Consistent := by
  induction events generalizing hub with
  | nil =>
    cases hrun
    exact h
  | cons event events ih =>
    rw [run, Option.bind_eq_some_iff] at hrun
    rcases hrun with ⟨next, hstep, hrun⟩
    exact ih (step_consistent h hstep) hrun

theorem consistent_of_reachable (h : hub.Reachable) : hub.Consistent := by
  rcases h with ⟨db, events, hdb, hrun⟩
  exact run_consistent (consistent_new hdb) hrun

end Hub
end RedisClone
