/-
Reading a collector's HTTP response (replay.rs `read_http_response`,
`parse_content_length`). The stream comes with the sizes of the reads to come,
as many bytes as the connection likes.
-/
import Logjet.Lib.Utf8
import Logjet.Text

namespace Logjet

open Utf8

structure ResponseStream where
  data : Bytes
  splits : List Nat
  deriving DecidableEq, Repr

def readSize (size : Nat) : List Nat → Nat
  | [] => size
  | split :: _ => min size (split + 1)

def ResponseStream.read (size : Nat) : EStateM IoError ResponseStream Bytes :=
  fun stream =>
    let n := readSize size stream.splits
    .ok (stream.data.take n) { data := stream.data.drop n, splits := stream.splits.tail }

def headersEnd : Bytes := [13, 10, 13, 10]

def readHeaders (hdrBuf : Bytes) : EStateM IoError ResponseStream Bytes := do
  match ← ResponseStream.read 1 with
  | [] => throw ⟨.unexpectedEof, "collector closed connection before response headers"⟩
  | b :: _ =>
    if (hdrBuf ++ [b]).length ≥ 4 ∧ (hdrBuf ++ [b]).drop ((hdrBuf ++ [b]).length - 4)
          = headersEnd then
      return hdrBuf ++ [b]
    else if (hdrBuf ++ [b]).length > 16384 then
      throw ⟨.other, "collector response headers exceed 16 KiB"⟩
    else readHeaders (hdrBuf ++ [b])
termination_by 16385 - hdrBuf.length
decreasing_by
  simp only [List.length_append, List.length_singleton] at *
  omega

def discardBody (remaining : Nat) : EStateM IoError ResponseStream Unit := do
  if remaining > 0 then
    let chunk := min 4096 remaining
    let n := (← ResponseStream.read chunk).length
    if n = 0 then
      throw ⟨.unexpectedEof, "collector closed connection during response body"⟩
    else discardBody (remaining - n)
  else return ()
termination_by remaining
decreasing_by omega

def parseContentLength (headers : Text) : Nat :=
  ((lines headers).findSome? fun line =>
    ((stripText "Content-Length:".toList line).or
      (stripText "content-length:".toList line)).bind fun val =>
        (parseU64 (trim val)).toOption).elim 0 UInt64.toNat

def readHttpResponse : EStateM IoError ResponseStream Unit := do
  let hdrBuf ← readHeaders []
  let hdrStr := fromUtf8Lossy hdrBuf
  let statusLine := (lines hdrStr).headD []
  if (stripText "HTTP/1.1 200".toList statusLine).isNone
      ∧ (stripText "HTTP/1.0 200".toList statusLine).isNone then
    throw ⟨.other, "collector returned non-200 response: " ++ String.ofList statusLine⟩
  discardBody (parseContentLength hdrStr)

end Logjet
