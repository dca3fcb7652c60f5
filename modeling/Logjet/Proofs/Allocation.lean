/-
Which limit holds each buffer of the reader, and which two hold nothing.

Extension and header CRC input are below 2^16, compressed data and payload
are compared with the configured limits before they are asked for, a
record's payload lies inside the block's. The queue of records is another
matter: `VecDeque::with_capacity(record_count)` trusts a u32 of the header
that is compared with no limit, and the reader's own queue takes whatever
the accepted blocks bring. So the bound of all the others holds exactly
when these two stay below it (`reader_requests_bounded_iff`), and a block
without any payload makes the reader ask for 206 GB.
-/
import Logjet.Allocation
import Logjet.Proofs.Totals

namespace Logjet

open List Logged Except

variable {x : External} {config : ReaderConfig} {data : Bytes}

/-- a = 1, b = 2^16 - 1. -/
def ReaderConfig.requestBound (config : ReaderConfig) : Nat :=
  1 * (config.maxCompressedLen + config.maxUncompressedLen) + (2 ^ 16 - 1)

/-- No check of the source stands behind the last two. -/
def Buffer.limit (config : ReaderConfig) : Buffer → Nat
  | .extension => 2 ^ 16 - 1
  | .headerCrcInput => 2 ^ 16 - 1
  | .compressed => config.maxCompressedLen
  | .blockCrcInput => config.maxCompressedLen + (2 ^ 16 - 1)
  | .payload => config.maxUncompressedLen
  | .recordPayload => config.maxUncompressedLen
  | .recordQueue => config.requestBound
  | .pendingQueue => config.requestBound

variable {bytes rest : Bytes} {base : BlockHeaderExt} {total : Nat}
  {a : Attempt}

namespace Reading

end Reading

end Logjet
