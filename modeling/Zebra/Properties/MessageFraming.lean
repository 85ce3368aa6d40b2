import Zebra.Ledger.Framing

namespace Zebra.Properties

open Lib

variable {μ ε : Type}

/-- The messages and the error of a stream of bytes that comes in chunks: after each chunk, the
decoder is called until it has no message, or an error ends the stream. -/
def readChunks (c : Codec μ ε) (chunks : List Bytes) : List μ × Option (DecodeError ε) :=
  StreamReader.output c.decode DecodeState.weight .head chunks

def frames (c : Codec μ ε) (stream : Bytes) : List (Event μ (DecodeError ε)) := c.framer.events .head stream

/-- A codec for bodies without a checksum, whose messages are their commands. -/
def commandCodec : Codec Command Unit where
  magic := [1, 2, 3, 4]
  maxLen := 100
  checksum _ := [0, 0, 0, 0]
  readBody command _ := .ok command

def emptyFrame (command : Bytes) : Bytes := [1, 2, 3, 4] ++ command ++ [0, 0, 0, 0] ++ [0, 0, 0, 0]

def unknownCommand : Bytes := List.replicate 12 120

end Zebra.Properties
