import RedisClone.Database.Delivery
import RedisClone.Hub

/-!
This module contains the invariant of the connections and the registry, and the proof that the events
of a single connection keep it.
-/

namespace RedisClone
namespace Hub

variable {hub hub' : Hub} {id id' : UInt64} {connection connection' : Connection} {db : Database}

/--
The registry and the sessions agree, and no two connections share a mailbox.
-/
structure Consistent (hub : Hub) : Prop where
  registered : ∀ channel id mailbox, hub.db.pubsub.lookup channel id = some mailbox
    ↔ ∃ connection, hub.connections[id]? = some connection
      ∧ connection.subscribed channel = true ∧ connection.session.mailbox = mailbox
  pruned : hub.db.pubsub.Pruned
  ids : ∀ (id : UInt64) (connection : Connection), hub.connections[id]? = some connection
    → connection.session.id = id
  opened : ∀ (id : UInt64) (connection : Connection), hub.connections[id]? = some connection
    → hub.db.pubsub.mailboxes[connection.session.mailbox]?.isSome
  distinct : ∀ (id id' : UInt64) (connection connection' : Connection),
    hub.connections[id]? = some connection → hub.connections[id']? = some connection'
      → connection.session.mailbox = connection'.session.mailbox → id = id'
  fresh : ∀ (id : UInt64) (connection : Connection), hub.connections[id]? = some connection
    → connection.session.mailbox < hub.db.pubsub.nextMailbox
  leaving : ∀ (id : UInt64) (connection : Connection) (channels : List String),
    hub.connections[id]? = some connection → connection.leaving = some channels → channels.Nodup

theorem consistent_new {db : Database} (h : db.pubsub = .new) : (new db).Consistent := by
  have hnone : ∀ id : UInt64, (new db).connections[id]? = none := by
    simp [new]
  refine ⟨?_, ?_, ?_, ?_, ?_, ?_, ?_⟩
  . intro channel id mailbox
    simp [new, h]
  . rw [show (new db).db = db from rfl, h]
    exact PubSub.pruned_new
  all_goals simp [hnone]

theorem getElem?_update
    : (hub.update id connection db).connections[id']?
        =
      if id = id' then some connection else hub.connections[id']? := by
  unfold update
  rw [Std.ExtTreeMap.getElem?_insert]
  simp only [Std.LawfulEqCmp.compare_eq_iff_eq]

theorem serving_eq_some
    : hub.serving id = some connection
        ↔
      hub.connections[id]? = some connection ∧ connection.leaving = none := by
  unfold serving
  rw [Option.filter_eq_some_iff, Option.isNone_iff_eq_none]

theorem Consistent.update (h : hub.Consistent) (hconnection : hub.connections[id]? = some connection)
    (hid : connection'.session.id = connection.session.id)
    (hmailbox : connection'.session.mailbox = connection.session.mailbox)
    (hleaving : ∀ channels, connection'.leaving = some channels → channels.Nodup)
    (hlookup : ∀ channel id', db.pubsub.lookup channel id' =
      if id = id' then
        if connection'.subscribed channel then some connection.session.mailbox else none
      else
        hub.db.pubsub.lookup channel id')
    (hpruned : db.pubsub.Pruned)
    (hopened : ∀ mailbox : Mailbox, hub.db.pubsub.mailboxes[mailbox]?.isSome
      → db.pubsub.mailboxes[mailbox]?.isSome)
    (hnext : db.pubsub.nextMailbox = hub.db.pubsub.nextMailbox)
    : (hub.update id connection' db).Consistent := by
  have hdb : (hub.update id connection' db).db = db := rfl
  refine ⟨?_, hpruned, ?_, ?_, ?_, ?_, ?_⟩
  . intro channel other mailbox
    rw [hdb, hlookup, getElem?_update]
    by_cases hother : id = other
    . subst hother
      simp only [if_true]
      constructor
      . intro hsome
        split at hsome
        . next hsubscribed =>
          cases hsome
          exact ⟨connection', rfl, hsubscribed, hmailbox⟩
        . cases hsome
      . rintro ⟨found, hfound, hsubscribed, rfl⟩
        cases hfound
        rw [if_pos hsubscribed, hmailbox]
    . simp only [hother, if_false]
      exact h.registered channel other mailbox
  . intro other found hfound
    rw [getElem?_update] at hfound
    split at hfound
    . next heq =>
      cases hfound
      rw [hid, h.ids id connection hconnection, heq]
    . exact h.ids other found hfound
  . intro other found hfound
    rw [getElem?_update] at hfound
    apply hopened
    split at hfound
    . cases hfound
      rw [hmailbox]
      exact h.opened id connection hconnection
    . exact h.opened other found hfound
  . intro other other' found found' hfound hfound' heq
    rw [getElem?_update] at hfound hfound'
    split at hfound
    . next hother =>
      split at hfound'
      . next hother' => rw [← hother, ← hother']
      . cases hfound
        rw [hmailbox] at heq
        rw [← hother]
        exact h.distinct id other' connection found' hconnection hfound' heq
    . split at hfound'
      . next hother' =>
        cases hfound'
        rw [hmailbox] at heq
        rw [← hother']
        exact h.distinct other id found connection hfound hconnection heq
      . exact h.distinct other other' found found' hfound hfound' heq
  . intro other found hfound
    rw [getElem?_update] at hfound
    rw [hdb, hnext]
    split at hfound
    . cases hfound
      rw [hmailbox]
      exact h.fresh id connection hconnection
    . exact h.fresh other found hfound
  . intro other found channels hfound hchannels
    rw [getElem?_update] at hfound
    split at hfound
    . cases hfound
      exact hleaving channels hchannels
    . exact h.leaving other found channels hfound hchannels

theorem Consistent.lookup (h : hub.Consistent) (hconnection : hub.connections[id]? = some connection)
    (channel : String)
    : hub.db.pubsub.lookup channel id
        =
      if connection.subscribed channel then some connection.session.mailbox else none := by
  apply Option.ext
  intro mailbox
  rw [h.registered, hconnection]
  constructor
  . rintro ⟨found, hfound, hsubscribed, hmailbox⟩
    cases hfound
    rw [if_pos hsubscribed, hmailbox]
  . intro hsome
    split at hsome
    . next hsubscribed =>
      cases hsome
      exact ⟨connection, rfl, hsubscribed, rfl⟩
    . cases hsome

theorem Consistent.lookup_none (h : hub.Consistent) (hnone : hub.connections[id]? = none)
    (channel : String)
    : hub.db.pubsub.lookup channel id = none := by
  apply Option.ext
  intro mailbox
  rw [h.registered, hnone]
  simp

/-
Every event keeps the system consistent.
-/

theorem subscribed_of_serving (h : connection.leaving = none) (channel : String)
    : connection.subscribed channel = connection.session.channels.contains channel := by
  unfold Connection.subscribed
  rw [h]

theorem subscribed_of_leaving {channels : List String} (h : connection.leaving = some channels)
    (channel : String)
    : connection.subscribed channel = channels.contains channel := by
  unfold Connection.subscribed
  rw [h]

theorem consistent_subscribe (h : hub.Consistent) (hserving : hub.serving id = some connection)
    (channel : String)
    : let changed := Session.subscribeOne channel connection.session hub.db
      (hub.update id { connection with session := changed.1 } changed.2.1).Consistent := by
  intro changed
  rw [serving_eq_some] at hserving
  have hlookup := h.lookup hserving.1
  have hid := h.ids id connection hserving.1
  cases hcontains : connection.session.channels.contains channel with
  | true =>
    have hchanged : changed = (connection.session, hub.db, changed.2.2) := by
      simp only [changed, Session.subscribeOne, hcontains, if_true]
    rw [hchanged]
    apply h.update hserving.1 rfl rfl (h.leaving id connection · hserving.1) _ h.pruned
      (fun _ h => h) rfl
    intro other id'
    split
    . next heq =>
      rw [← heq]
      exact hlookup other
    . rfl
  | false =>
    have hchanged : changed = ({ connection.session with
        channels := connection.session.channels.insert channel },
        hub.db.subscribe channel connection.session.id connection.session.mailbox, changed.2.2) := by
      simp only [changed, Session.subscribeOne, hcontains, Bool.false_eq_true, if_false]
    rw [hchanged]
    refine h.update hserving.1 rfl rfl (h.leaving id connection · hserving.1) ?_
      (h.pruned.subscribe channel _ _) (fun _ h => h) rfl
    intro other id'
    simp only [Database.subscribe, PubSub.lookup_subscribe, hid, Connection.subscribed, hserving.2]
    by_cases hother : id = id'
    . subst hother
      simp only [if_true, and_true, hlookup, subscribed_of_serving hserving.2,
        Std.ExtTreeSet.contains_insert, Bool.or_eq_true]
      by_cases hchannel : channel = other
      . rw [if_pos hchannel, if_pos (.inl (by simpa using hchannel))]
      . rw [if_neg hchannel]
        simp [hchannel]
    . simp only [hother, and_false, if_false]

theorem consistent_unsubscribe (h : hub.Consistent) (hserving : hub.serving id = some connection)
    (channel : String)
    : let changed := Session.unsubscribeOne channel connection.session hub.db
      (hub.update id { connection with session := changed.1 } changed.2.1).Consistent := by
  intro changed
  rw [serving_eq_some] at hserving
  have hlookup := h.lookup hserving.1
  have hid := h.ids id connection hserving.1
  cases hcontains : connection.session.channels.contains channel with
  | false =>
    have hchanged : changed = (connection.session, hub.db, changed.2.2) := by
      simp only [changed, Session.unsubscribeOne, hcontains, Bool.false_eq_true, if_false]
    rw [hchanged]
    apply h.update hserving.1 rfl rfl (h.leaving id connection · hserving.1) _ h.pruned
      (fun _ h => h) rfl
    intro other id'
    split
    . next heq =>
      rw [← heq]
      exact hlookup other
    . rfl
  | true =>
    have hchanged : changed = ({ connection.session with
        channels := connection.session.channels.erase channel },
        hub.db.unsubscribe channel connection.session.id, changed.2.2) := by
      simp only [changed, Session.unsubscribeOne, hcontains, if_true]
    rw [hchanged]
    refine h.update hserving.1 rfl rfl (h.leaving id connection · hserving.1) ?_
      (h.pruned.unsubscribe channel _) ?_ ?_
    . intro other id'
      simp only [Database.unsubscribe, PubSub.lookup_unsubscribe, hid, Connection.subscribed,
        hserving.2]
      by_cases hother : id = id'
      . subst hother
        simp only [if_true, and_true, hlookup, subscribed_of_serving hserving.2,
          Std.ExtTreeSet.contains_erase, Bool.and_eq_true]
        by_cases hchannel : channel = other
        . rw [if_pos hchannel, if_neg]
          simp [hchannel]
        . rw [if_neg hchannel]
          simp [hchannel]
      . simp only [hother, and_false, if_false]
    . intro mailbox hopened
      simpa [Database.unsubscribe] using hopened
    . simp [Database.unsubscribe]

theorem consistent_leave (h : hub.Consistent) {session : Session} {received channels : List String}
    {channel : String}
    (hconnection : hub.connections[id]? = some ⟨session, received, some (channel :: channels)⟩)
    : (hub.update id ⟨session, received, some channels⟩
        (hub.db.unsubscribe channel session.id)).Consistent := by
  have hlookup := h.lookup hconnection
  have hid : session.id = id := h.ids id _ hconnection
  have hnodup := h.leaving id _ _ hconnection rfl
  rw [List.nodup_cons] at hnodup
  refine h.update hconnection rfl rfl ?_ ?_ (h.pruned.unsubscribe channel _) ?_ ?_
  . rintro rest ⟨⟩
    exact hnodup.2
  . intro other id'
    simp only [Database.unsubscribe, PubSub.lookup_unsubscribe, hid]
    by_cases hother : id = id'
    . subst hother
      rw [hlookup, subscribed_of_leaving rfl, subscribed_of_leaving rfl, if_pos rfl]
      simp only [and_true, List.contains_cons, Bool.or_eq_true, beq_iff_eq]
      by_cases hchannel : channel = other
      . subst hchannel
        rw [if_pos rfl, if_neg]
        simpa using hnodup.1
      . rw [if_neg hchannel]
        simp [Ne.symm hchannel]
    . simp only [hother, and_false, if_false]
  . intro mailbox hopened
    simpa [Database.unsubscribe] using hopened
  . simp [Database.unsubscribe]

theorem consistent_hangUp (h : hub.Consistent) (hserving : hub.serving id = some connection)
    : (hub.update id { connection with leaving := some connection.session.channels.toList }
        hub.db).Consistent := by
  rw [serving_eq_some] at hserving
  refine h.update hserving.1 rfl rfl ?_ ?_ h.pruned (fun _ h => h) rfl
  . rintro channels ⟨⟩
    apply List.Pairwise.imp _ Std.ExtTreeSet.distinct_toList
    rintro a b hne rfl
    exact hne Std.ReflCmp.compare_self
  . intro channel id'
    split
    . next heq =>
      subst heq
      rw [h.lookup hserving.1, subscribed_of_serving hserving.2]
      simp [Connection.subscribed, Std.ExtTreeSet.contains_iff_mem]
    . rfl

theorem consistent_transact (h : hub.Consistent) (hserving : hub.serving id = some connection)
    (transaction : Option Transaction)
    : (hub.update id { connection with session := { connection.session with transaction } }
        hub.db).Consistent := by
  rw [serving_eq_some] at hserving
  refine h.update hserving.1 rfl rfl (h.leaving id connection · hserving.1) ?_ h.pruned
    (fun _ h => h) rfl
  intro channel id'
  split
  . next heq =>
    subst heq
    exact h.lookup hserving.1 channel
  . rfl

theorem consistent_receive (h : hub.Consistent) (hserving : hub.serving id = some connection)
    {message : String} {pubsub : PubSub}
    (hrecv : hub.db.pubsub.recv connection.session.mailbox = some (message, pubsub))
    : (hub.update id { connection with received := connection.received ++ [message] }
        { hub.db with pubsub }).Consistent := by
  rw [serving_eq_some] at hserving
  unfold PubSub.recv at hrecv
  split at hrecv
  . next queue hqueue =>
    cases hrecv
    refine h.update hserving.1 rfl rfl (h.leaving id connection · hserving.1) ?_ h.pruned ?_ rfl
    . intro channel id'
      split
      . next heq =>
        subst heq
        exact h.lookup hserving.1 channel
      . rfl
    . intro mailbox hopened
      rw [Std.ExtTreeMap.getElem?_insert]
      split
      . rfl
      . exact hopened
  . cases hrecv

theorem consistent_close (h : hub.Consistent) {session : Session} {received : List String}
    (hconnection : hub.connections[id]? = some ⟨session, received, some []⟩)
    : Consistent
        { db := { hub.db with pubsub := hub.db.pubsub.close session.mailbox }
          connections := hub.connections.erase id } := by
  have hget : ∀ (other : UInt64) (found : Connection),
      (hub.connections.erase id)[other]? = some found
        ↔ id ≠ other ∧ hub.connections[other]? = some found := by
    intro other found
    rw [Std.ExtTreeMap.getElem?_erase]
    simp only [Std.LawfulEqCmp.compare_eq_iff_eq]
    split <;> simp_all
  refine ⟨?_, h.pruned, ?_, ?_, ?_, ?_, ?_⟩
  . intro channel other mailbox
    have hlookup : (hub.db.pubsub.close session.mailbox).lookup channel other
        = hub.db.pubsub.lookup channel other := rfl
    simp only [hlookup, hget]
    by_cases hother : id = other
    . subst hother
      have hnone := h.lookup hconnection channel
      simp only [Connection.subscribed, List.contains_nil, Bool.false_eq_true, if_false] at hnone
      simp [hnone]
    . rw [h.registered]
      simp [hother]
  . intro other found hfound
    exact h.ids other found ((hget other found).mp hfound).2
  . intro other found hfound
    rw [hget] at hfound
    simp only [PubSub.close, Std.ExtTreeMap.getElem?_erase, Std.LawfulEqCmp.compare_eq_iff_eq]
    rw [if_neg]
    . exact h.opened other found hfound.2
    . intro heq
      exact hfound.1 (h.distinct id other _ found hconnection hfound.2 heq)
  . intro other other' found found' hfound hfound'
    exact h.distinct other other' found found' ((hget _ _).mp hfound).2 ((hget _ _).mp hfound').2
  . intro other found hfound
    exact h.fresh other found ((hget _ _).mp hfound).2
  . intro other found channels hfound
    exact h.leaving other found channels ((hget _ _).mp hfound).2

/--
A new connection has an id of its own, a mailbox of its own, and no channels.
-/
theorem consistent_connect (h : hub.Consistent)
    (hnone : hub.connections[(Session.new hub.db).1.id]? = none)
    : (hub.update (Session.new hub.db).1.id ⟨(Session.new hub.db).1, [], none⟩
        (Session.new hub.db).2).Consistent := by
  have hsession : (Session.new hub.db).1.mailbox = hub.db.pubsub.nextMailbox := rfl
  have hchannels : (Session.new hub.db).1.channels = ∅ := rfl
  have hlookup : ∀ channel id, (Session.new hub.db).2.pubsub.lookup channel id
      = hub.db.pubsub.lookup channel id := fun _ _ => rfl
  have hmailboxes : (Session.new hub.db).2.pubsub.mailboxes
      = hub.db.pubsub.mailboxes.insert hub.db.pubsub.nextMailbox [] := rfl
  have hnext : (Session.new hub.db).2.pubsub.nextMailbox = hub.db.pubsub.nextMailbox + 1 := rfl
  have hpruned : (Session.new hub.db).2.pubsub.Pruned := h.pruned
  generalize (Session.new hub.db).2 = db at hlookup hmailboxes hnext hpruned ⊢
  generalize (Session.new hub.db).1 = session at hnone hsession hchannels ⊢
  have hdb : (hub.update session.id ⟨session, [], none⟩ db).db = db := rfl
  refine ⟨?_, hpruned, ?_, ?_, ?_, ?_, ?_⟩
  . intro channel other mailbox
    rw [hdb, hlookup, getElem?_update]
    by_cases hother : session.id = other
    . subst hother
      rw [h.lookup_none hnone]
      simp [Connection.subscribed, hchannels]
    . simp only [hother, if_false]
      exact h.registered channel other mailbox
  . intro other found hfound
    rw [getElem?_update] at hfound
    split at hfound
    . next heq =>
      cases hfound
      exact heq
    . exact h.ids other found hfound
  . intro other found hfound
    rw [getElem?_update] at hfound
    rw [hdb, hmailboxes, Std.ExtTreeMap.getElem?_insert]
    split
    . rfl
    . next hne =>
      split at hfound
      . cases hfound
        rw [hsession] at hne
        exact absurd Std.ReflCmp.compare_self hne
      . exact h.opened other found hfound
  . intro other other' found found' hfound hfound' heq
    rw [getElem?_update] at hfound hfound'
    split at hfound
    . next hother =>
      split at hfound'
      . next hother' => rw [← hother, ← hother']
      . cases hfound
        have hlt := h.fresh other' found' hfound'
        rw [← heq, hsession] at hlt
        exact absurd hlt (Nat.lt_irrefl _)
    . split at hfound'
      . cases hfound'
        have hlt := h.fresh other found hfound
        rw [heq, hsession] at hlt
        exact absurd hlt (Nat.lt_irrefl _)
      . exact h.distinct other other' found found' hfound hfound' heq
  . intro other found hfound
    rw [getElem?_update] at hfound
    rw [hdb, hnext]
    split at hfound
    . cases hfound
      rw [hsession]
      exact Nat.lt_succ_self _
    . exact Nat.lt_succ_of_lt (h.fresh other found hfound)
  . intro other found channels hfound hleaving
    rw [getElem?_update] at hfound
    split at hfound
    . cases hfound
      cases hleaving
    . exact h.leaving other found channels hfound hleaving

end Hub
end RedisClone
