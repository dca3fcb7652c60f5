/-
The part of `std::fs` and `std::io` a file spool uses: one directory of plain
files, a file opened for appending (which holds the directory), `BufWriter`.
-/
import Mathlib.Data.List.Nodup
import Logjet.Text
import Logjet.Writer

namespace Logjet

open List

structure Directory where
  files : List (Text × Bytes)
  nodup : (files.map Prod.fst).Nodup
  deriving DecidableEq, Repr

namespace Directory

def empty : Directory := ⟨[], nodup_nil⟩

def get? (d : Directory) (name : Text) : Option Bytes := d.files.lookup name

def has (d : Directory) (name : Text) : Bool := (d.get? name).isSome

def alter (d : Directory) (name : Text) (f : Bytes → Bytes) : Directory where
  files := d.files.map fun (n, bytes) => (n, if n = name then f bytes else bytes)
  nodup := by
    rw [map_map]
    exact d.nodup

def create (d : Directory) (name : Text) : Directory where
  files := if name ∈ d.files.map Prod.fst then d.files else d.files ++ [(name, [])]
  nodup := by
    split
    · exact d.nodup
    · rename_i hnot
      rw [map_append, nodup_append]
      refine ⟨d.nodup, nodup_singleton _, ?_⟩
      intro n hn m hm heq
      rw [map_cons, map_nil, mem_singleton] at hm
      rw [heq, hm] at hn
      exact hnot hn

def write (d : Directory) (name : Text) (content : Bytes) : Directory :=
  (d.create name).alter name fun _ => content

def erase (d : Directory) (name : Text) : Directory where
  files := d.files.filter fun entry => entry.1 ≠ name
  nodup := d.nodup.sublist (filter_sublist.map _)

def notFound : IoError := ⟨.notFound, "No such file or directory (os error 2)"⟩

def read (d : Directory) (name : Text) : Except IoError Bytes :=
  (d.get? name).elim (.error notFound) .ok

def len (d : Directory) (name : Text) : Except IoError UInt64 :=
  (d.get? name).elim (.error notFound) fun content => .ok (UInt64.ofNat content.length)

def removeFile (d : Directory) (name : Text) : Except IoError Directory :=
  if d.has name then .ok (d.erase name) else .error notFound

def setLen (d : Directory) (name : Text) (len : UInt64) : Directory :=
  d.alter name fun content =>
    content.take len.toNat ++ List.replicate (len.toNat - content.length) 0

end Directory

structure File where
  dir : Directory
  name : Text
  deriving DecidableEq, Repr

def File.maxLen : Nat := 2 ^ 63 - 1

def File.writeAll (buf : Bytes) : EStateM IoError File Unit :=
  fun f =>
  let size := ((f.dir.get? f.name).getD []).length
  if size + buf.length ≤ File.maxLen then
    .ok () { f with dir := f.dir.alter f.name (· ++ buf) }
  else .error ⟨.fileTooLarge, "File too large (os error 27)"⟩ f

structure BufWriter where
  inner : File
  buf : Bytes
  deriving DecidableEq, Repr

namespace BufWriter

def capacity : Nat := 8 * 1024

def new (inner : File) : BufWriter := { inner, buf := [] }

def writeThrough (data : Bytes) : EStateM IoError BufWriter Unit :=
  fun w =>
    match File.writeAll data w.inner with
    | .ok () inner => .ok () { w with inner }
    | .error err inner => .error err { w with inner }

def flush : EStateM IoError BufWriter Unit := do
  let self ← get
  writeThrough self.buf
  modify fun w => { w with buf := [] }

def store (data : Bytes) : EStateM IoError BufWriter Unit :=
  modify fun w => { w with buf := w.buf ++ data }

def makeRoom (len : Nat) : EStateM IoError BufWriter Unit := do
  let self ← get
  if len > capacity - self.buf.length then flush

def writeCold (data : Bytes) : EStateM IoError BufWriter Unit := do
  makeRoom data.length
  if data.length ≥ capacity then writeThrough data else store data

def writeAll (data : Bytes) : EStateM IoError BufWriter Unit := do
  let self ← get
  if data.length < capacity - self.buf.length then store data
  else writeCold data

instance : Sink BufWriter := ⟨writeAll⟩

def close (w : BufWriter) : Directory :=
  match flush w with
  | .ok () w' => w'.inner.dir
  | .error _ w' => w'.inner.dir

end BufWriter

def Directory.readToString (d : Directory) (name : Text) : Except IoError Text := do
  let content ← d.read name
  match String.fromUTF8? ⟨content.toArray⟩ with
  | some text => return text.toList
  | none => throw ⟨.invalidData, "stream did not contain valid UTF-8"⟩

end Logjet
