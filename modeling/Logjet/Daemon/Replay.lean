/-
The replay clients of a daemon with a buffer spool, and how they are woken
(daemon.rs `SharedSpool`, `handle_replay_transport`). A step is what a thread
does under one of the two mutexes, or with its connection between;
`append_batch_record` is two.
-/
import Mathlib.Logic.Function.Basic
import Logjet.Lib.Transition
import Logjet.Spool.Buffer

namespace Logjet

structure ReplayPlace where
  cursor : BufferReplayCursor
  seenGeneration : UInt64
  consume : Bool
  deriving DecidableEq, Repr

inductive ReplayPhase
  | greeted
  | requested (cursor : BufferReplayCursor) (consume : Bool)
  | polling (place : ReplayPlace) (sentAny : Bool)
  | writing (place : ReplayPlace) (record : WireRecord)
  | flushing (place : ReplayPlace)
  | awaiting (place : ReplayPlace) (record : WireRecord)
  | acked (place : ReplayPlace) (seq : UInt64)
  | waiting (place : ReplayPlace)
  | returned
  deriving DecidableEq, Repr

def ReplayPhase.inTransport : ReplayPhase → Bool
  | .greeted | .writing _ _ | .flushing _ | .awaiting _ _ => true
  | _ => false

structure SharedSpool (ι κ : Type) where
  spool : BufferSpool
  generation : UInt64
  appending : ι → Bool
  clients : κ → ReplayPhase

variable {ι κ : Type}

def SharedSpool.new (spool : BufferSpool) : SharedSpool ι κ :=
  { spool, generation := 0, appending := fun _ => false
    clients := fun _ => .greeted }

def SharedSpool.Blocked (s : SharedSpool ι κ) (client : κ) (place : ReplayPlace) : Prop :=
  s.clients client = .waiting place ∧ s.generation = place.seenGeneration

inductive ReplayEvent (ι κ : Type)
  | append (appender : ι) (record : WireRecord)
  | notify
  | client (client : κ)

def storedBy (events : List (ReplayEvent ι κ)) : List WireRecord :=
  events.filterMap fun
    | .append _ record => some record
    | _ => none

def notifiesBy (events : List (ReplayEvent ι κ)) : Nat :=
  events.countP fun
    | .notify => true
    | _ => false

variable [DecidableEq ι] [DecidableEq κ]

def SharedSpool.moveTo (s : SharedSpool ι κ) (client : κ) (phase : ReplayPhase) : SharedSpool ι κ :=
  { s with clients := Function.update s.clients client phase }

inductive ReplayStep : SharedSpool ι κ → ReplayEvent ι κ → SharedSpool ι κ → Prop
  | append {s : SharedSpool ι κ} {i : ι} (record : WireRecord) (hidle : s.appending i = false) :
      ReplayStep s (.append i record)
        { s with spool := s.spool.append record
                 appending := Function.update s.appending i true }
  | notify {s : SharedSpool ι κ} {i : ι} (happended : s.appending i = true) : ReplayStep s .notify
        { s with generation := saturatingSucc s.generation
                 appending := Function.update s.appending i false }
  | flushLoop {s : SharedSpool ι κ} : ReplayStep s .notify
        { s with generation := saturatingSucc s.generation }
  | request {s : SharedSpool ι κ} {k : κ} (fromSeq : UInt64) (consume : Bool)
      (hphase : s.clients k = .greeted) : ReplayStep s (.client k)
        (s.moveTo k (.requested (s.spool.replayCursorAfter fromSeq) consume))
  | sample {s : SharedSpool ι κ} {k : κ} {cursor : BufferReplayCursor}
      {consume : Bool} (hphase : s.clients k = .requested cursor consume) : ReplayStep s (.client k)
        (s.moveTo k (.polling ⟨cursor, s.generation, consume⟩ false))
  | found {s : SharedSpool ι κ} {k : κ} {place : ReplayPlace} {sentAny : Bool}
      {record : WireRecord} {cursor : BufferReplayCursor}
      (hphase : s.clients k = .polling place sentAny)
      (hnext : s.spool.nextForCursor place.cursor = (some record, cursor)) :
      ReplayStep s (.client k) (s.moveTo k (.writing { place with cursor } record))
  | noneFound {s : SharedSpool ι κ} {k : κ} {place : ReplayPlace}
      {sentAny : Bool} {cursor : BufferReplayCursor} (hphase : s.clients k = .polling place sentAny)
      (hnext : s.spool.nextForCursor place.cursor = (none, cursor)) : ReplayStep s (.client k)
        (s.moveTo k (if sentAny then .flushing { place with cursor }
          else .waiting { place with cursor }))
  | written {s : SharedSpool ι κ} {k : κ} {place : ReplayPlace}
      {record : WireRecord} (hphase : s.clients k = .writing place record) :
      ReplayStep s (.client k) (s.moveTo k (if place.consume then .awaiting place record
          else .polling place true))
  | flushed {s : SharedSpool ι κ} {k : κ} {place : ReplayPlace}
      (hphase : s.clients k = .flushing place) :
      ReplayStep s (.client k) (s.moveTo k (.polling place false))
  | woken {s : SharedSpool ι κ} {k : κ} {place : ReplayPlace}
      (hphase : s.clients k = .waiting place) (hchanged : s.generation ≠ place.seenGeneration) :
      ReplayStep s (.client k) (s.moveTo k
          (.polling { place with seenGeneration := s.generation } false))
  | ack {s : SharedSpool ι κ} {k : κ} {place : ReplayPlace}
      {record : WireRecord} (hphase : s.clients k = .awaiting place record) :
      ReplayStep s (.client k) (s.moveTo k (.acked place record.seq))
  | consume {s : SharedSpool ι κ} {k : κ} {place : ReplayPlace} {seq : UInt64}
      (hphase : s.clients k = .acked place seq) : ReplayStep s (.client k)
        { s.moveTo k (.polling place false) with
          spool := s.spool.consumeThrough seq }
  | gone {s : SharedSpool ι κ} {k : κ} (hphase : (s.clients k).inTransport = true) :
      ReplayStep s (.client k) (s.moveTo k .returned)

end Logjet
