import RedisClone.Database.PubSub
import RedisClone.Lib.LiveMap

/-!
This module contains what the operations of the publish/subscribe registry do to the relation of
channels and subscribers, and to the mailboxes.
-/

namespace RedisClone
namespace PubSub

variable {self : PubSub} {channel channel' : String} {id id' : UInt64} {mailbox mailbox' : Mailbox}

/--
The mailbox a channel is registered with for a subscriber.
-/
def lookup (self : PubSub) (channel : String) (id : UInt64) : Option Mailbox :=
  self.channels[channel]?.bind fun subscribers => subscribers[id]?

/--
No channel without subscribers has an entry.
-/
def Pruned (self : PubSub) : Prop :=
  ∀ (channel : String) (subscribers : Std.ExtTreeMap UInt64 Mailbox),
    self.channels[channel]? = some subscribers → subscribers.isEmpty = false

@[simp]
theorem lookup_new : PubSub.new.lookup channel id = none := by
  simp [lookup, new]

theorem pruned_new : PubSub.new.Pruned := by
  intro channel subscribers h
  simp [new] at h

/-
Subscribing and unsubscribing.
-/

theorem lookup_subscribe
    : (self.subscribe channel id mailbox).lookup channel' id'
        =
      if channel = channel' ∧ id = id' then some mailbox else self.lookup channel' id' := by
  unfold lookup subscribe
  simp only [Std.ExtTreeMap.getElem?_insert, Std.LawfulEqCmp.compare_eq_iff_eq]
  by_cases hchannel : channel = channel'
  . subst hchannel
    rw [if_pos rfl, Option.bind_some, Std.ExtTreeMap.getElem?_insert]
    simp only [Std.LawfulEqCmp.compare_eq_iff_eq, true_and]
    cases self.channels[channel]? <;> simp
  . rw [if_neg hchannel, if_neg fun h => hchannel h.1]

theorem Pruned.subscribe (h : self.Pruned) (channel : String) (id : UInt64) (mailbox : Mailbox)
    : (self.subscribe channel id mailbox).Pruned := by
  intro other subscribers hother
  simp only [PubSub.subscribe, Std.ExtTreeMap.getElem?_insert,
    Std.LawfulEqCmp.compare_eq_iff_eq] at hother
  split at hother
  . cases hother
    exact Std.ExtTreeMap.isEmpty_eq_false_iff.mpr Std.ExtTreeMap.insert_ne_empty
  . exact h other subscribers hother

theorem channels_unsubscribe
    : (self.unsubscribe channel id).channels[channel']?
        =
      if channel = channel' then
        (self.channels[channel]?.map fun subscribers => subscribers.erase id).filter (!·.isEmpty)
      else
        self.channels[channel']? := by
  unfold unsubscribe
  cases hsubscribers : self.channels[channel]? with
  | none =>
    by_cases hchannel : channel = channel'
    . subst hchannel
      simp [hsubscribers]
    . rw [if_neg hchannel]
  | some subscribers =>
    dsimp only
    cases hempty : (subscribers.erase id).isEmpty with
    | true =>
      simp only [if_true, Std.ExtTreeMap.getElem?_erase, Std.LawfulEqCmp.compare_eq_iff_eq]
      simp [Option.filter, hempty]
    | false =>
      simp only [Bool.false_eq_true, if_false, Std.ExtTreeMap.getElem?_insert,
        Std.LawfulEqCmp.compare_eq_iff_eq]
      simp [Option.filter, hempty]

theorem lookup_unsubscribe
    : (self.unsubscribe channel id).lookup channel' id'
        =
      if channel = channel' ∧ id = id' then none else self.lookup channel' id' := by
  unfold lookup
  rw [channels_unsubscribe]
  by_cases hchannel : channel = channel'
  . subst hchannel
    rw [if_pos rfl]
    cases hsubscribers : self.channels[channel]? with
    | none => simp
    | some subscribers =>
      simp only [Option.map_some, Option.bind_some, true_and]
      have herase : (subscribers.erase id)[id']? = if id = id' then none else subscribers[id']? := by
        rw [Std.ExtTreeMap.getElem?_erase]
        simp only [Std.LawfulEqCmp.compare_eq_iff_eq]
      rw [← herase]
      cases hempty : (subscribers.erase id).isEmpty with
      | true =>
        rw [Std.ExtTreeMap.isEmpty_iff] at hempty
        simp [hempty, Option.filter]
      | false => simp [hempty, Option.filter]
  . rw [if_neg hchannel, if_neg fun h => hchannel h.1]

theorem Pruned.unsubscribe (h : self.Pruned) (channel : String) (id : UInt64)
    : (self.unsubscribe channel id).Pruned := by
  intro other subscribers hother
  rw [channels_unsubscribe] at hother
  split at hother
  . rw [Option.filter_eq_some_iff] at hother
    simpa using hother.2
  . exact h other subscribers hother

@[simp]
theorem mailboxes_unsubscribe : (self.unsubscribe channel id).mailboxes = self.mailboxes := by
  unfold unsubscribe
  split
  . dsimp only
    split <;> rfl
  . rfl

@[simp]
theorem nextMailbox_unsubscribe
    : (self.unsubscribe channel id).nextMailbox = self.nextMailbox := by
  unfold unsubscribe
  split
  . dsimp only
    split <;> rfl
  . rfl

/-
Publishing.
-/

/--
The loop of `publish` over the senders.
-/
def sendAll (message : String) (senders : List Mailbox) (state : PubSub × Nat) : PubSub × Nat :=
  senders.foldl
    (fun (self, count) sender =>
      let (self, delivered) := self.send sender message
      (self, if delivered then count + 1 else count))
    state

theorem mailboxes_send (message : String)
    : (self.send mailbox message).1.mailboxes[mailbox']?
        =
      if mailbox = mailbox' then
        self.mailboxes[mailbox']?.map (· ++ [message])
      else
        self.mailboxes[mailbox']? := by
  unfold send
  by_cases hmailbox : mailbox = mailbox'
  . subst hmailbox
    rw [if_pos rfl]
    cases hqueue : self.mailboxes[mailbox]? with
    | none => exact hqueue
    | some queue => simp
  . rw [if_neg hmailbox]
    cases self.mailboxes[mailbox]? with
    | none => rfl
    | some queue => simp [Std.ExtTreeMap.getElem?_insert, hmailbox]

theorem send_frame (mailbox : Mailbox) (message : String)
    : (self.send mailbox message).1
        =
      { self with mailboxes := (self.send mailbox message).1.mailboxes } := by
  unfold send
  split <;> rfl

theorem send_delivered (mailbox : Mailbox) (message : String)
    : (self.send mailbox message).2 = self.mailboxes[mailbox]?.isSome := by
  unfold send
  cases self.mailboxes[mailbox]? <;> rfl

theorem sendAll_cons (message : String) (sender : Mailbox) (senders : List Mailbox) (count : Nat)
    : sendAll message (sender :: senders) (self, count)
        =
      sendAll message senders ((self.send sender message).1,
        if self.mailboxes[sender]?.isSome then count + 1 else count) := by
  rw [← send_delivered]
  rfl

theorem sendAll_frame (message : String) (senders : List Mailbox) (count : Nat)
    : (sendAll message senders (self, count)).1
        =
      { self with mailboxes := (sendAll message senders (self, count)).1.mailboxes } := by
  induction senders generalizing self count with
  | nil => rfl
  | cons sender senders ih =>
    rw [sendAll_cons, ih, send_frame]

theorem mailboxes_sendAll (message : String) {senders : List Mailbox} (hnodup : senders.Nodup)
    (count : Nat)
    : (sendAll message senders (self, count)).1.mailboxes[mailbox]?
        =
      if mailbox ∈ senders then
        self.mailboxes[mailbox]?.map (· ++ [message])
      else
        self.mailboxes[mailbox]? := by
  induction senders generalizing self count with
  | nil => rfl
  | cons sender senders ih =>
    rw [List.nodup_cons] at hnodup
    rw [sendAll_cons, ih hnodup.2, mailboxes_send]
    by_cases hsender : sender = mailbox
    . subst hsender
      rw [if_neg hnodup.1, if_pos rfl, if_pos List.mem_cons_self]
    . rw [if_neg hsender]
      congr 1
      rw [List.mem_cons, eq_iff_iff]
      constructor
      . exact .inr
      . rintro (heq | hmem)
        . exact absurd heq.symm hsender
        . exact hmem

theorem count_sendAll (message : String) {senders : List Mailbox}
    (hopen : ∀ sender ∈ senders, self.mailboxes[sender]?.isSome) (count : Nat)
    : (sendAll message senders (self, count)).2 = count + senders.length := by
  induction senders generalizing self count with
  | nil => rfl
  | cons sender senders ih =>
    rw [sendAll_cons, if_pos (hopen sender List.mem_cons_self), ih, List.length_cons]
    . omega
    . intro other hmem
      have hother := hopen other (List.mem_cons_of_mem _ hmem)
      rw [mailboxes_send]
      split
      . rw [Option.isSome_map]
        exact hother
      . exact hother

/--
The mailboxes registered with a channel.
-/
def senders (self : PubSub) (channel : String) : List Mailbox :=
  match self.channels[channel]? with
  | some subscribers => subscribers.values
  | none => []

theorem publish_eq (channel payload : String)
    : self.publish channel payload
        =
      sendAll (message channel payload) (self.senders channel) (self, 0) := by
  unfold publish senders sendAll
  cases self.channels[channel]? <;> rfl

theorem mem_senders : mailbox ∈ self.senders channel ↔ ∃ id, self.lookup channel id = some mailbox := by
  unfold senders lookup
  cases self.channels[channel]? with
  | none => simp
  | some subscribers =>
    dsimp only
    rw [LiveMap.values_eq, List.mem_map]
    constructor
    . rintro ⟨⟨id, mailbox⟩, hmem, rfl⟩
      exact ⟨id, Std.ExtTreeMap.mem_toList_iff_getElem?_eq_some.mp hmem⟩
    . rintro ⟨id, h⟩
      exact ⟨(id, mailbox), Std.ExtTreeMap.mem_toList_iff_getElem?_eq_some.mpr h, rfl⟩

theorem nodup_senders
    (h : ∀ id id' mailbox, self.lookup channel id = some mailbox
      → self.lookup channel id' = some mailbox → id = id')
    : (self.senders channel).Nodup := by
  unfold senders lookup at *
  cases hsubscribers : self.channels[channel]? with
  | none => exact .nil
  | some subscribers =>
    dsimp only
    rw [hsubscribers] at h
    rw [LiveMap.values_eq]
    have hdistinct : subscribers.toList.Nodup := by
      apply List.Pairwise.imp _ Std.ExtTreeMap.distinct_keys_toList
      rintro a b hne rfl
      exact hne Std.ReflCmp.compare_self
    apply hdistinct.map_on
    rintro ⟨id, mailbox⟩ hmem ⟨id', mailbox'⟩ hmem' heq
    cases heq
    have hid := h id id' mailbox (Std.ExtTreeMap.mem_toList_iff_getElem?_eq_some.mp hmem)
      (Std.ExtTreeMap.mem_toList_iff_getElem?_eq_some.mp hmem')
    rw [hid]

/--
The subscribers registered with a channel.
-/
def subscribers (self : PubSub) (channel : String) : List UInt64 :=
  match self.channels[channel]? with
  | some subscribers => subscribers.keys
  | none => []

theorem length_senders (self : PubSub) (channel : String)
    : (self.senders channel).length = (self.subscribers channel).length := by
  unfold senders subscribers
  cases self.channels[channel]? with
  | none => rfl
  | some subscribers =>
    dsimp only
    rw [LiveMap.values_eq, List.length_map, Std.ExtTreeMap.length_toList,
      Std.ExtTreeMap.length_keys]

theorem mem_subscribers : id ∈ self.subscribers channel ↔ (self.lookup channel id).isSome := by
  unfold subscribers lookup
  cases self.channels[channel]? with
  | none => simp
  | some subscribers =>
    rw [Std.ExtTreeMap.mem_keys, Std.ExtTreeMap.mem_iff_isSome_getElem?]
    rfl

theorem nodup_subscribers (self : PubSub) (channel : String)
    : (self.subscribers channel).Nodup := by
  unfold subscribers
  cases self.channels[channel]? with
  | none => exact .nil
  | some subscribers => exact Std.ExtTreeMap.nodup_keys

theorem publish_frame (self : PubSub) (channel payload : String)
    : (self.publish channel payload).1
        =
      { self with mailboxes := (self.publish channel payload).1.mailboxes } := by
  rw [publish_eq]
  exact sendAll_frame _ _ _

end PubSub
end RedisClone
