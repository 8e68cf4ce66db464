import RedisClone.Resp

/-!
This module contains the publish/subscribe registry: the subscribers of each channel, and the
mailboxes of the connections. A mailbox is an unbounded queue; its sending end is a number that
stands for it, and it is gone once the connection has dropped its receiving end.
-/

namespace RedisClone

abbrev Mailbox := Nat

structure PubSub where
  channels : Std.ExtTreeMap String (Std.ExtTreeMap UInt64 Mailbox)
  nextId : UInt64
  mailboxes : Std.ExtTreeMap Mailbox (List String)
  nextMailbox : Mailbox

namespace PubSub

def new : PubSub where
  channels := ∅
  nextId := 0
  mailboxes := ∅
  nextMailbox := 0

/--
`PubSub::next_id`.
-/
def freshId (self : PubSub) : PubSub × UInt64 :=
  ({ self with nextId := self.nextId + 1 }, self.nextId)

/--
`unbounded_channel()`.
-/
def unboundedChannel (self : PubSub) : PubSub × Mailbox :=
  ({ self with
      mailboxes := self.mailboxes.insert self.nextMailbox []
      nextMailbox := self.nextMailbox + 1 }, self.nextMailbox)

/--
`UnboundedSender::send`, which fails if the receiver is gone.
-/
def send (self : PubSub) (mailbox : Mailbox) (message : String) : PubSub × Bool :=
  match self.mailboxes[mailbox]? with
  | some queue =>
    ({ self with mailboxes := self.mailboxes.insert mailbox (queue ++ [message]) }, true)
  | none => (self, false)

/--
`UnboundedReceiver::recv`: the oldest message of a mailbox.
-/
def recv (self : PubSub) (mailbox : Mailbox) : Option (String × PubSub) :=
  match self.mailboxes[mailbox]? with
  | some (message :: queue) =>
    some (message, { self with mailboxes := self.mailboxes.insert mailbox queue })
  | _ => none

def subscribe (self : PubSub) (channel : String) (id : UInt64) (sender : Mailbox) : PubSub :=
  let subscribers := self.channels[channel]?.getD ∅
  { self with channels := self.channels.insert channel (subscribers.insert id sender) }

def unsubscribe (self : PubSub) (channel : String) (id : UInt64) : PubSub :=
  match self.channels[channel]? with
  | some subscribers =>
    let subscribers := subscribers.erase id
    if subscribers.isEmpty then
      { self with channels := self.channels.erase channel }
    else
      { self with channels := self.channels.insert channel subscribers }
  | none => self

/--
The message a publication delivers.
-/
def message (channel payload : String) : String :=
  Resp.array ["message", channel, payload]

def publish (self : PubSub) (channel payload : String) : PubSub × Nat :=
  match self.channels[channel]? with
  | none => (self, 0)
  | some subscribers =>
    subscribers.values.foldl
      (fun (self, count) sender =>
        let (self, delivered) := self.send sender (message channel payload)
        (self, if delivered then count + 1 else count))
      (self, 0)

end PubSub
end RedisClone
