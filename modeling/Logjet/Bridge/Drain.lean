/-
The two ends of a drained spool: `handle_replay_transport_drain`
(daemon.rs) and a bridge (replay.rs). The server writes one record, waits for
its acknowledgement, consumes through it, and goes on. A link is its side of
one connection with the messages under way. `StallStep` is one link that never
breaks, with a bridge that has backpressure.
-/
import Logjet.Bridge.Backpressure
import Logjet.Spool

namespace Logjet

inductive Downward
  | hello (hello : ReplayHello)
  | record (record : WireRecord)
  deriving DecidableEq, Repr

inductive Upward
  | request (fromSeq : UInt64)
  | ack (seq : UInt64)
  deriving DecidableEq, Repr

inductive ServerPhase
  | greeted
  | polling (cursor : ReplayCursor)
  | awaiting (cursor : ReplayCursor) (record : WireRecord)
  | acked (cursor : ReplayCursor) (seq : UInt64)
  | returned
  deriving DecidableEq, Repr

structure Link where
  server : ServerPhase
  down : List Downward
  up : List Upward
  deriving DecidableEq, Repr

def Spool.hello (x : External) (spool : Spool) : Except IoError ReplayHello := do
  let bounds ← spool.sequenceBounds x
  let (firstSeq, lastSeq) := bounds.getD (0, 0)
  return { streamId := spool.streamId, firstSeq, lastSeq }

inductive DrainEvent
  | append (record : WireRecord)
  | send (record : WireRecord)
  | consume (seq : UInt64)
  | silent
  deriving DecidableEq, Repr

inductive ServerStep (x : External) : Spool → Link → DrainEvent → Spool → Link → Prop
  | request {spool : Spool} {down : List Downward} {up : List Upward} (fromSeq : UInt64) :
      ServerStep x spool ⟨.greeted, down, .request fromSeq :: up⟩ .silent
        spool ⟨.polling (spool.replayCursorAfter fromSeq), down, up⟩
  | idle {spool : Spool} {cursor cursor' : ReplayCursor} {down : List Downward} {up : List Upward}
      (hnext : spool.nextForCursor x cursor = .ok none cursor') :
      ServerStep x spool ⟨.polling cursor, down, up⟩ .silent spool ⟨.polling cursor', down, up⟩
  | send {spool : Spool} {cursor cursor' : ReplayCursor}
      {record : WireRecord} {down : List Downward} {up : List Upward}
      (hnext : spool.nextForCursor x cursor = .ok (some record) cursor') :
      ServerStep x spool ⟨.polling cursor, down, up⟩ (.send record)
        spool ⟨.awaiting cursor' record, down ++ [.record record], up⟩
  | nextFailed {spool : Spool} {cursor cursor' : ReplayCursor}
      {err : IoError} {down : List Downward} {up : List Upward}
      (hnext : spool.nextForCursor x cursor = .error err cursor') :
      ServerStep x spool ⟨.polling cursor, down, up⟩ .silent spool ⟨.returned, down, up⟩
  | ack {spool : Spool} {cursor : ReplayCursor} {record : WireRecord}
      {down : List Downward} {up : List Upward} : ServerStep x spool
        ⟨.awaiting cursor record, down, .ack record.seq :: up⟩ .silent
        spool ⟨.acked cursor record.seq, down, up⟩
  | refuse {spool : Spool} {cursor : ReplayCursor} {record : WireRecord}
      {message : Upward} {down : List Downward} {up : List Upward}
      (hother : message ≠ .ack record.seq) :
      ServerStep x spool ⟨.awaiting cursor record, down, message :: up⟩
        .silent spool ⟨.returned, down, up⟩
  | consume {spool spool' : Spool} {cursor : ReplayCursor} {seq : UInt64}
      {down : List Downward} {up : List Upward}
      (hconsume : spool.consumeThrough x seq = .ok () spool') :
      ServerStep x spool ⟨.acked cursor seq, down, up⟩ (.consume seq)
        spool' ⟨.polling cursor, down, up⟩

structure Drained where
  spool : Spool
  link : Link
  bridge : Bridge

def Bridge.handOver (b : Bridge) : Bridge := { b with session := { b.session with acks := [] } }

def BridgeConfig.drain (config : BridgeConfig) : BridgeConfig :=
  { config with upstreamMode := .drain }

def Drained.start (config : BridgeConfig) (spool : Spool)
    (cursor : ReplayCursor) (session : Session) (collectors : List Collector) : Drained :=
  { spool, link := ⟨.polling cursor, [], []⟩
    bridge := (Bridge.start config session collectors).handOver }

inductive StallStep (x : External) (codec : LogsCodec)
    (config : BridgeConfig) : Drained → DrainEvent → Drained → Prop
  | append {s : Drained} {spool : Spool} (record : WireRecord)
      (happend : s.spool.append x record = .ok () spool) :
      StallStep x codec config s (.append record) { s with spool }
  | flushPending {s : Drained} {spool : Spool} (hflush : s.spool.flushPending x = .ok () spool) :
      StallStep x codec config s .silent { s with spool }
  | server {s : Drained} {e : DrainEvent} {spool : Spool} {link : Link}
      (hstep : ServerStep x s.spool s.link e spool link) :
      StallStep x codec config s e { s with spool, link }
  | read {s : Drained} {record : WireRecord} {down : List Downward}
      {b : Bridge} (hdown : s.link.down = .record record :: down)
      (hstep : BridgeStep codec config.drain s.bridge (.read record) b) :
      StallStep x codec config s .silent { s with link := { s.link with down }, bridge := b }
  | closed {s : Drained} {e : BridgeEvent} {b : Bridge}
      (hserver : s.link.server = .returned) (hdown : s.link.down = [])
      (he : e = .endOfStream ∨ ∃ err, e = .readFailed err)
      (hstep : BridgeStep codec config.drain s.bridge e b) :
      StallStep x codec config s .silent { s with bridge := b }
  | bridge {s : Drained} {e : BridgeEvent} {b : Bridge} (he : e.fromUpstream = false)
      (hstep : BridgeStep codec config.drain s.bridge e b) : StallStep x codec config s .silent
        { s with
          link := { s.link with
            up := s.link.up ++ b.session.acks.map .ack }
          bridge := b.handOver }

end Logjet
