import RedisClone.Hub.Publish

/-!
This module contains what the steps of the hub do to the mailboxes: which of them are there, and that they
hold nothing but messages that were published.
-/

namespace RedisClone

namespace PubSub

theorem isSome_mailboxes_publish (self : PubSub) (channel payload : String) (mailbox : Mailbox)
    : (self.publish channel payload).1.mailboxes[mailbox]?.isSome
        =
      self.mailboxes[mailbox]?.isSome := by
  rw [publish_eq]
  generalize self.senders channel = senders
  generalize 0 = count
  induction senders generalizing self count with
  | nil => rfl
  | cons sender senders ih =>
    rw [sendAll_cons, ih, mailboxes_send]
    split
    . exact Option.isSome_map
    . rfl

theorem isSome_mailboxes_recv {self next : PubSub} {mailbox : Mailbox} {message : String}
    (h : self.recv mailbox = some (message, next)) (other : Mailbox)
    : next.mailboxes[other]?.isSome = self.mailboxes[other]?.isSome := by
  unfold recv at h
  split at h
  . next queue hqueue =>
    cases h
    dsimp only
    rw [Std.ExtTreeMap.getElem?_insert]
    split
    . next heq =>
      rw [← Std.LawfulEqCmp.eq_of_compare heq, hqueue]
      rfl
    . rfl
  . cases h

end PubSub

namespace Session

theorem subscribeOne_keeps (channel : String) (session : Session) (db : Database)
    : let changed := session.subscribeOne channel db
      changed.1.mailbox = session.mailbox
        ∧ changed.2.1.connectedClients = db.connectedClients
        ∧ changed.2.1.pubsub.mailboxes = db.pubsub.mailboxes := by
  unfold subscribeOne
  cases session.channels.contains channel <;> exact ⟨rfl, rfl, rfl⟩

theorem unsubscribeOne_keeps (channel : String) (session : Session) (db : Database)
    : let changed := session.unsubscribeOne channel db
      changed.1.mailbox = session.mailbox
        ∧ changed.2.1.connectedClients = db.connectedClients
        ∧ changed.2.1.pubsub.mailboxes = db.pubsub.mailboxes := by
  unfold unsubscribeOne
  cases session.channels.contains channel with
  | true => exact ⟨rfl, rfl, PubSub.mailboxes_unsubscribe⟩
  | false => exact ⟨rfl, rfl, rfl⟩

end Session

namespace PubSub

/--
The mailboxes hold published messages only.
-/
def Posted (self : PubSub) : Prop :=
  ∀ (mailbox : Mailbox) (queue : List String), self.mailboxes[mailbox]? = some queue
    → ∀ text ∈ queue, ∃ channel payload, text = message channel payload

variable {self next : PubSub} {mailbox : Mailbox}

theorem posted_new : new.Posted := by
  intro mailbox queue h
  simp [new] at h

theorem Posted.of_mailboxes (h : self.Posted) (hmailboxes : next.mailboxes = self.mailboxes)
    : next.Posted := by
  intro mailbox queue hqueue
  rw [hmailboxes] at hqueue
  exact h mailbox queue hqueue

/--
A mailbox gets a queue of published messages.
-/
theorem Posted.insert {queue : List String} (h : self.Posted)
    (hqueue : ∀ text ∈ queue, ∃ channel payload, text = message channel payload)
    (hmailboxes : next.mailboxes = self.mailboxes.insert mailbox queue)
    : next.Posted := by
  intro other found hfound
  rw [hmailboxes, Std.ExtTreeMap.getElem?_insert] at hfound
  split at hfound
  . cases hfound
    exact hqueue
  . exact h other found hfound

theorem Posted.send (h : self.Posted) (mailbox : Mailbox) (channel payload : String)
    : (self.send mailbox (message channel payload)).1.Posted := by
  unfold PubSub.send
  split
  . next queue hqueue =>
    apply h.insert _ rfl
    rw [List.forall_mem_append, List.forall_mem_singleton]
    exact ⟨h mailbox queue hqueue, channel, payload, rfl⟩
  . exact h

theorem Posted.publish (h : self.Posted) (channel payload : String)
    : (self.publish channel payload).1.Posted := by
  rw [publish_eq]
  generalize self.senders channel = senders
  generalize 0 = count
  induction senders generalizing self count with
  | nil => exact h
  | cons sender senders ih =>
    rw [sendAll_cons]
    exact ih (h.send sender channel payload) _

theorem Posted.recv {text : String} (h : self.Posted) (hrecv : self.recv mailbox = some (text, next))
    : (∃ channel payload, text = message channel payload) ∧ next.Posted := by
  unfold PubSub.recv at hrecv
  split at hrecv
  . next queue hqueue =>
    cases hrecv
    have hall := h mailbox _ hqueue
    rw [List.forall_mem_cons] at hall
    exact ⟨hall.1, h.insert hall.2 rfl⟩
  . cases hrecv

end PubSub

theorem posted_dispatch {db : Database} (h : db.pubsub.Posted) (env : Env) (tokens : List String)
    : (dispatch env tokens db).1.pubsub.Posted := by
  rw [Hub.dispatch_pubsub]
  split
  . exact h.publish _ _
  . exact h

namespace Hub

variable {hub hub' : Hub}

theorem step_posted (h : hub.db.pubsub.Posted) {event : HubEvent} (hstep : hub.step event = some hub')
    : hub'.db.pubsub.Posted := by
  cases event with
  | connect =>
    simp only [step] at hstep
    split at hstep
    . cases hstep
      exact h.insert (by simp) rfl
    . cases hstep
  | subscribe id channel =>
    simp only [step, Option.map_eq_some_iff] at hstep
    obtain ⟨connection, -, rfl⟩ := hstep
    exact h.of_mailboxes (Session.subscribeOne_keeps channel connection.session hub.db).2.2
  | unsubscribe id channel =>
    simp only [step, Option.map_eq_some_iff] at hstep
    obtain ⟨connection, -, rfl⟩ := hstep
    exact h.of_mailboxes (Session.unsubscribeOne_keeps channel connection.session hub.db).2.2
  | transact id transaction =>
    simp only [step, Option.map_eq_some_iff] at hstep
    obtain ⟨connection, -, rfl⟩ := hstep
    exact h
  | dispatch env tokens =>
    cases hstep
    exact posted_dispatch h env tokens
  | receive id =>
    simp only [step, Option.bind_eq_some_iff, Option.map_eq_some_iff] at hstep
    obtain ⟨connection, -, ⟨text, pubsub⟩, hrecv, rfl⟩ := hstep
    exact (h.recv hrecv).2
  | hangUp id =>
    simp only [step, Option.map_eq_some_iff] at hstep
    obtain ⟨connection, -, rfl⟩ := hstep
    exact h
  | leave id =>
    simp only [step] at hstep
    split at hstep
    . cases hstep
      exact h.of_mailboxes PubSub.mailboxes_unsubscribe
    . cases hstep
  | close id =>
    simp only [step] at hstep
    split at hstep
    . next session received hconnection =>
      cases hstep
      intro mailbox queue hqueue
      have hqueue : (hub.db.pubsub.mailboxes.erase session.mailbox)[mailbox]? = some queue := hqueue
      rw [Std.ExtTreeMap.getElem?_erase] at hqueue
      split at hqueue
      . cases hqueue
      . exact h mailbox queue hqueue
    . cases hstep

theorem run_posted {events : List HubEvent} (h : hub.db.pubsub.Posted)
    (hrun : run events hub = some hub')
    : hub'.db.pubsub.Posted := by
  induction events generalizing hub with
  | nil =>
    cases hrun
    exact h
  | cons event events ih =>
    rw [run, Option.bind_eq_some_iff] at hrun
    obtain ⟨next, hstep, hrun⟩ := hrun
    exact ih (step_posted h hstep) hrun

theorem posted_of_reachable (h : hub.Reachable) : hub.db.pubsub.Posted := by
  obtain ⟨db, events, hdb, hrun⟩ := h
  apply run_posted _ hrun
  rw [new, hdb]
  exact PubSub.posted_new

end Hub
end RedisClone
