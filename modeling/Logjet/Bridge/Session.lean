/-
What a bridge remembers of its upstream (replay.rs `BridgeState`), and the
acknowledgements it wrote, until the server reads them.
-/
import Logjet.Format

namespace Logjet

inductive UpstreamMode
  | keep
  | drain
  deriving DecidableEq, Repr

structure BridgeState where
  streamId : Option UInt64
  lastSeq : UInt64
  deriving DecidableEq, Repr

structure ReplayHello where
  streamId : UInt64
  firstSeq : UInt64
  lastSeq : UInt64
  deriving DecidableEq, Repr

def reconcileBridgeState (state : BridgeState) (hello : ReplayHello) : BridgeState :=
  let lastSeq :=
    match state.streamId with
    | some savedStreamId => if savedStreamId ≠ hello.streamId then 0 else state.lastSeq
    | none =>
      if state.lastSeq > 0 ∧ hello.lastSeq > 0 ∧ hello.lastSeq < state.lastSeq then 0
      else state.lastSeq
  { streamId := some hello.streamId, lastSeq }

structure Session where
  state : BridgeState
  stateFile : Bool
  saved : Option BridgeState
  acks : List UInt64
  deriving DecidableEq, Repr

inductive CommitFault
  | stateWrite (err : IoError)
  | ackWrite (err : IoError)
  deriving DecidableEq, Repr

namespace Session

def readBridgeState (self : Session) : BridgeState :=
  if self.stateFile then self.saved.getD { streamId := none, lastSeq := 0 }
  else { streamId := none, lastSeq := 0 }

def writeBridgeState (fault : Option CommitFault) : EStateM IoError Session Unit := do
  let self ← get
  if !self.stateFile then return ()
  match fault with
  | some (.stateWrite err) => throw err
  | _ => set { self with saved := some self.state }

def writeReplayAck (seq : UInt64) (fault : Option CommitFault) : EStateM IoError Session Unit := do
  match fault with
  | some (.ackWrite err) => throw err
  | _ => modify fun self => { self with acks := self.acks ++ [seq] }

def commitRecord (mode : UpstreamMode) (seq : UInt64)
    (fault : Option CommitFault) : EStateM IoError Session Unit := do
  modify fun self => { self with state := { self.state with lastSeq := seq } }
  writeBridgeState fault
  if mode = .drain then writeReplayAck seq fault

end Session

end Logjet
