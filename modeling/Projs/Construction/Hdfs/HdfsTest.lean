/-
This file embeds `readFile` of `HdfsTest.java`, which prints a file piece by piece.
-/

import Projs.Construction.Java.Charset

namespace Projs.Hdfs
open Java

/-- The line separator of `println` is that of the platform. -/
inductive Platform where
  | unix
  | windows
  deriving DecidableEq, Repr

def lineSeparator : Platform → JavaString
  | .unix => [0x0A]
  | .windows => [0x0D, 0x0A]

/-- The buffer has this many bytes. -/
def buffLength : Nat := 1024

/-- A read that finds bytes puts at least one of them into the buffer, and at most fills it. -/
structure Piece where
  bytes : List UInt8
  filled : bytes ≠ []
  fits : bytes.length ≤ buffLength

/-- A read finds bytes, the end of the stream, or a failure. -/
inductive ReadResult where
  | bytes (piece : Piece)
  | endOfStream
  | ioException

/-- This is what the program has printed, and how many stack traces it has printed elsewhere. -/
structure Console where
  out : JavaString := []
  stackTraces : Nat := 0
  deriving DecidableEq, Repr

def Console.println (console : Console) (platform : Platform) (text : JavaString) : Console :=
  { console with out := console.out ++ (text ++ lineSeparator platform) }

/-- Each round of the loop reads into the same buffer and prints what it has read on its own. -/
def readLoop (platform : Platform) (console : Console) (buff : List UInt8) :
    List ReadResult → Console
  | [] | .endOfStream :: _ => console
  | .ioException :: _ => { console with stackTraces := console.stackTraces + 1 }
  | .bytes piece :: rest =>
      let length := piece.bytes.length
      let buff := piece.bytes ++ buff.drop length
      readLoop platform (console.println platform (decodeUtf8 (buff.take length))) buff rest

/-- The source's `readFile`; a file that does not open is a failure, too. -/
def readFile (platform : Platform) (opened : Option (List ReadResult)) : Console :=
  match opened with
  | some his => readLoop platform {} (List.replicate buffLength 0) his
  | none => { stackTraces := 1 }

/-- A content that is read in these pieces is followed by the end of the stream. -/
def stream (pieces : List Piece) : List ReadResult :=
  pieces.map ReadResult.bytes ++ [.endOfStream]

end Projs.Hdfs
