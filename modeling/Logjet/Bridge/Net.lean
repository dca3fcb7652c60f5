/-
A drained spool and a bridge without backpressure, over as many
connections as it takes. Any can break at any point (`cut`, `hangUp`,
`serverGone`), and the bridge start again, with its state file or without.
-/
import Logjet.Bridge.Drain

namespace Logjet

inductive NetPhase
  | offline
  | greeting (link : Nat)
  | reading (link : Nat)
  | posting (link : Nat) (record : WireRecord)
  | committing (link : Nat) (record : WireRecord)
  deriving DecidableEq, Repr

structure Net where
  spool : Spool
  links : List Link
  phase : NetPhase
  session : Session
  collectors : List Collector

def Net.start (spool : Spool) (stateFile : Bool) (collectors : List Collector) : Net :=
  { spool, links := [], phase := .offline
    session := { state := { streamId := none, lastSeq := 0 }, stateFile
                 saved := none, acks := [] }
    collectors }

def Session.greet (hello : ReplayHello) (self : Session) : Session :=
  { self with state := reconcileBridgeState self.state hello }

def Session.restart (absent : Bool) (self : Session) : Session :=
  let self := if absent then { self with saved := none } else self
  { self with state := self.readBridgeState }

def WireRecord.post (record : WireRecord) : Post :=
  { recordType := record.recordType, payload := record.payload }

inductive NetStep (x : External) : Net → DrainEvent → Net → Prop
  | append {s : Net} {spool : Spool} (record : WireRecord)
      (happend : s.spool.append x record = .ok () spool) :
      NetStep x s (.append record) { s with spool }
  | flushPending {s : Net} {spool : Spool} (hflush : s.spool.flushPending x = .ok () spool) :
      NetStep x s .silent { s with spool }
  | server {s : Net} {i : Nat} {link link' : Link} {e : DrainEvent}
      {spool : Spool} (hlink : s.links[i]? = some link)
      (hstep : ServerStep x s.spool link e spool link') :
      NetStep x s e { s with spool, links := s.links.set i link' }
  | connect {s : Net} {hello : ReplayHello} (hphase : s.phase = .offline)
      (hhello : s.spool.hello x = .ok hello) : NetStep x s .silent
        { s with
          links := s.links ++ [⟨.greeted, [.hello hello], []⟩]
          phase := .greeting s.links.length }
  | request {s : Net} {i : Nat} {server : ServerPhase} {hello : ReplayHello}
      {down : List Downward} {up : List Upward} {session : Session}
      (fault : Option CommitFault) (hphase : s.phase = .greeting i)
      (hlink : s.links[i]? = some ⟨server, .hello hello :: down, up⟩)
      (hwrite : Session.writeBridgeState fault (s.session.greet hello) = .ok () session) :
      NetStep x s .silent
        { s with
          links := s.links.set i
            ⟨server, down, up ++ [.request session.state.lastSeq]⟩
          phase := .reading i
          session }
  | requestFailed {s : Net} {i : Nat} {server : ServerPhase}
      {hello : ReplayHello} {down : List Downward} {up : List Upward}
      {session : Session} {err : IoError} (fault : Option CommitFault)
      (hphase : s.phase = .greeting i)
      (hlink : s.links[i]? = some ⟨server, .hello hello :: down, up⟩)
      (hwrite : Session.writeBridgeState fault (s.session.greet hello) = .error err session) :
      NetStep x s .silent { s with phase := .offline, session }
  | read {s : Net} {i : Nat} {server : ServerPhase} {record : WireRecord}
      {down : List Downward} {up : List Upward} (hphase : s.phase = .reading i)
      (hlink : s.links[i]? = some ⟨server, .record record :: down, up⟩) : NetStep x s .silent
        { s with
          links := s.links.set i ⟨server, down, up⟩
          phase := .posting i record }
  | post {s : Net} {i : Nat} {record : WireRecord} {collectors : List Collector} (answers : Answers)
      (hphase : s.phase = .posting i record)
      (hpost : postFor (WireRecord.post record) answers s.collectors = .ok () collectors) :
      NetStep x s .silent { s with phase := .committing i record, collectors }
  | postFailed {s : Net} {i : Nat} {record : WireRecord}
      {collectors : List Collector} {err : IoError} (answers : Answers)
      (hphase : s.phase = .posting i record)
      (hpost : postFor (WireRecord.post record) answers s.collectors = .error err collectors) :
      NetStep x s .silent { s with phase := .offline, collectors }
  | commit {s : Net} {i : Nat} {record : WireRecord} {link : Link}
      {session : Session} (fault : Option CommitFault) (hphase : s.phase = .committing i record)
      (hlink : s.links[i]? = some link) (hcommit : Session.commitRecord .drain record.seq fault
        { s.session with acks := [] } = .ok () session) : NetStep x s .silent
        { s with
          links := s.links.set i
            { link with up := link.up ++ session.acks.map .ack }
          phase := .reading i
          session }
  | commitFailed {s : Net} {i : Nat} {record : WireRecord}
      {session : Session} {err : IoError} (fault : Option CommitFault)
      (hphase : s.phase = .committing i record)
      (hcommit : Session.commitRecord .drain record.seq fault
        { s.session with acks := [] } = .error err session) :
      NetStep x s .silent { s with phase := .offline, session }
  | hangUp {s : Net} : NetStep x s .silent { s with phase := .offline }
  | restart {s : Net} (absent : Bool) : NetStep x s .silent
        { s with phase := .offline, session := s.session.restart absent }
  | cut {s : Net} {i : Nat} {link : Link} {down : List Downward}
      {up : List Upward} (hlink : s.links[i]? = some link)
      (hdown : down <+: link.down) (hup : up <+: link.up) : NetStep x s .silent
        { s with links := s.links.set i { link with down, up } }
  | serverGone {s : Net} {i : Nat} {link : Link} (hlink : s.links[i]? = some link) :
      NetStep x s .silent { s with links := s.links.set i { link with server := .returned } }

def suppliedBy (events : List DrainEvent) : List WireRecord :=
  events.filterMap fun
    | .append record => some record
    | _ => none

end Logjet
